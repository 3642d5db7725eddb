import Mathlib.Data.List.Basic

/-!
# Ring buffers

A ring of `n` cells with a write position, read backwards from it.

* `slot n head k` — where the `k`th newest entry lies.
* `Ring cells head entries` — the cells hold the entries, newest first, and nothing else.
* `Ring.push` — writing at the position and moving it on by one puts an entry in front and drops the one that no
  longer fits.
-/

set_option autoImplicit false

namespace Lib

/-- The cell of the `k`th newest entry. -/
def slot (n head k : Nat) : Nat := (head + n - 1 - k) % n

theorem slot_lt {n : Nat} (hn : 0 < n) (head k : Nat) : slot n head k < n := Nat.mod_lt _ hn

/-- Moving the position on by one makes every entry one older. -/
theorem slot_succ {n head k : Nat} (hk : k + 1 < n) : slot n ((head + 1) % n) (k + 1) = slot n head k := by
  unfold slot
  rcases Nat.lt_or_ge (head + 1) n with hlt | hge
  · rw [Nat.mod_eq_of_lt hlt]
    congr 1
    omega
  · have hmod := Nat.mod_add_div (head + 1) n
    have hpos : 1 ≤ (head + 1) / n := Nat.div_pos hge (by omega)
    have hmul : n ≤ n * ((head + 1) / n) := Nat.le_mul_of_pos_right n hpos
    rw [show head + n - 1 - k = (head + 1) % n + n - 1 - (k + 1) + n * ((head + 1) / n) by omega,
      Nat.add_mul_mod_self_left]

/-- The entry just written. -/
theorem slot_zero {n head : Nat} (hhead : head < n) : slot n ((head + 1) % n) 0 = head := by
  unfold slot
  rcases Nat.lt_or_ge (head + 1) n with hlt | hge
  · rw [Nat.mod_eq_of_lt hlt, show head + 1 + n - 1 - 0 = head + n by omega, Nat.add_mod_right, Nat.mod_eq_of_lt hhead]
  · obtain rfl : n = head + 1 := by omega
    rw [Nat.mod_self, Nat.mod_eq_of_lt (by omega)]
    omega

theorem slot_ne_head {n head k : Nat} (hhead : head < n) (hk : k + 1 < n) : slot n head k ≠ head := by
  unfold slot
  rcases Nat.lt_or_ge head (k + 1) with hlt | hge
  · rw [Nat.mod_eq_of_lt (by omega)]
    omega
  · rw [show head + n - 1 - k = head - (k + 1) + n by omega, Nat.add_mod_right, Nat.mod_eq_of_lt (by omega)]
    omega

/-- The oldest place of all is the one written next. -/
theorem slot_last {n head : Nat} (hhead : head < n) : slot n head (n - 1) = head := by
  unfold slot
  rw [show head + n - 1 - (n - 1) = head by omega, Nat.mod_eq_of_lt hhead]

/-- The ring holds the entries, newest first. -/
structure Ring {α : Type} (cells : List (Option α)) (head : Nat) (entries : List α) : Prop where
  head_lt : head < cells.length
  fits : entries.length ≤ cells.length
  cell : ∀ k < cells.length, cells[slot cells.length head k]? = some entries[k]?

namespace Ring

variable {α : Type} {cells : List (Option α)} {head : Nat} {entries : List α}

theorem replicate {n : Nat} (hn : 0 < n) : Ring (List.replicate n (none : Option α)) 0 [] where
  head_lt := by simpa using hn
  fits := by simp
  cell := fun k _ => by
    have := slot_lt hn 0 k
    simp [this]

/-- **One more entry.** -/
theorem push (h : Ring cells head entries) (a : α) :
    Ring (cells.set head (some a)) ((head + 1) % cells.length) ((a :: entries).take cells.length) where
  head_lt := by
    rw [List.length_set]
    exact Nat.mod_lt _ (Nat.lt_of_le_of_lt (Nat.zero_le _) h.head_lt)
  fits := by
    rw [List.length_take, List.length_set]
    exact Nat.min_le_left _ _
  cell := by
    have hhead := h.head_lt
    intro k hk
    rw [List.length_set] at hk ⊢
    rw [List.getElem?_take_of_lt hk]
    cases k with
    | zero => simp [slot_zero hhead, hhead]
    | succ k =>
      rw [slot_succ hk, List.getElem?_set_ne (slot_ne_head hhead hk).symm, List.getElem?_cons_succ]
      exact h.cell k (by omega)

end Ring

end Lib
