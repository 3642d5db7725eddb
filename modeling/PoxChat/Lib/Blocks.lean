import Mathlib.Data.List.Basic

/-!
# Cutting a list into blocks

`blocks n k data` is the first `k` blocks of `n` elements, as a loop that advances by `n` reads them.

* `flatten_blocks`, `blocks_flatten` — cutting and joining undo each other when the lengths fit.
-/

set_option autoImplicit false

namespace Lib

variable {α : Type}

def blocks (n : Nat) : Nat → List α → List (List α)
  | 0, _ => []
  | count + 1, data => data.take n :: blocks n count (data.drop n)

theorem length_blocks (n count : Nat) (data : List α) : (blocks n count data).length = count := by
  induction count generalizing data with
  | zero => rfl
  | succ count ih => rw [blocks, List.length_cons, ih]

theorem flatten_blocks {n : Nat} (count : Nat) {data : List α} (hlen : data.length = n * count) :
    (blocks n count data).flatten = data := by
  induction count generalizing data with
  | zero => exact (List.eq_nil_of_length_eq_zero hlen).symm
  | succ count ih =>
    have hrest : (data.drop n).length = n * count := by
      rw [List.length_drop, hlen, Nat.mul_succ, Nat.add_sub_cancel]
    rw [blocks, List.flatten_cons, ih hrest, List.take_append_drop]

theorem length_of_mem_blocks {n count : Nat} {data : List α} (hlen : n * count ≤ data.length) {block : List α}
    (hblock : block ∈ blocks n count data) : block.length = n := by
  induction count generalizing data with
  | zero => cases hblock
  | succ count ih =>
    rw [Nat.mul_succ] at hlen
    obtain rfl | hrest := List.mem_cons.mp hblock
    · rw [List.length_take]
      omega
    · refine ih ?_ hrest
      rw [List.length_drop]
      omega

theorem length_flatten_of_length {n : Nat} {bs : List (List α)} (hlen : ∀ b ∈ bs, b.length = n) :
    bs.flatten.length = n * bs.length := by
  induction bs with
  | nil => rfl
  | cons b bs ih =>
    obtain ⟨hb, hbs⟩ := List.forall_mem_cons.mp hlen
    rw [List.flatten_cons, List.length_append, hb, ih hbs, List.length_cons, Nat.mul_succ, Nat.add_comm]

theorem blocks_flatten {n : Nat} {bs : List (List α)} (hlen : ∀ b ∈ bs, b.length = n) :
    blocks n bs.length bs.flatten = bs := by
  induction bs with
  | nil => rfl
  | cons b bs ih =>
    obtain ⟨hb, hbs⟩ := List.forall_mem_cons.mp hlen
    have htake : (b ++ bs.flatten).take n = b := hb ▸ List.take_left
    have hdrop : (b ++ bs.flatten).drop n = bs.flatten := hb ▸ List.drop_left
    rw [List.length_cons, List.flatten_cons, blocks, htake, hdrop, ih hbs]

end Lib
