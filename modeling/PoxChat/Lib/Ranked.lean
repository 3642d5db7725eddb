import Mathlib.Data.List.Sort

/-!
# Ranks in ordered lists

A list is ranked when its keys increase strictly.  Comparing keys is then comparing positions
(`Ranked.lt_iff`, `Ranked.le_iff`), so a selection by key is a slice of the list
(`filter_eq_slice`), and two ranked lists with the same elements are equal (`Ranked.eq_of_perm`).
-/

set_option autoImplicit false

namespace Lib

variable {α κ : Type} {l : List α}

/-- What a selection keeps when it keeps the positions from `m` up to `n`. -/
theorem filter_eq_slice {p : α → Bool} {m n : Nat}
    (h : ∀ (i : Nat) (x : α), l[i]? = some x → (p x = true ↔ m ≤ i ∧ i < n)) :
    l.filter p = (l.take n).drop m := by
  induction l generalizing m n with
  | nil => simp
  | cons a l ih =>
    have ha := h 0 a (by simp)
    have ih' := @ih (m - 1) (n - 1) fun i x hx => by
      rw [h (i + 1) x (by simpa using hx)]
      omega
    cases n with
    | zero =>
      have hp : p a = false := Bool.eq_false_iff.2 fun hp => Nat.not_lt_zero 0 (ha.1 hp).2
      simpa [List.filter_cons, hp] using ih'
    | succ n =>
      cases m with
      | zero =>
        have hp : p a = true := ha.2 (by omega)
        simpa [List.filter_cons, hp] using ih'
      | succ m =>
        have hp : p a = false := Bool.eq_false_iff.2 fun hp => Nat.not_succ_le_zero m (ha.1 hp).1
        simpa [List.filter_cons, hp] using ih'

variable [LinearOrder κ] {key : α → κ}

/-- The keys increase strictly. -/
def Ranked (key : α → κ) (l : List α) : Prop := l.Pairwise fun a b => key a < key b

namespace Ranked

theorem lt_of_lt (h : Ranked key l) {i j : Nat} {a b : α} (hi : l[i]? = some a)
    (hj : l[j]? = some b) (hij : i < j) : key a < key b := by
  obtain ⟨hi', rfl⟩ := List.getElem?_eq_some_iff.1 hi
  obtain ⟨hj', rfl⟩ := List.getElem?_eq_some_iff.1 hj
  exact List.pairwise_iff_getElem.1 h i j hi' hj' hij

theorem lt_iff (h : Ranked key l) {i j : Nat} {a b : α} (hi : l[i]? = some a)
    (hj : l[j]? = some b) : key a < key b ↔ i < j := by
  refine ⟨fun hab => ?_, h.lt_of_lt hi hj⟩
  rcases Nat.lt_trichotomy i j with hij | rfl | hij
  · exact hij
  · rw [hi] at hj; cases hj; exact absurd hab (lt_irrefl _)
  · exact absurd (h.lt_of_lt hj hi hij) (lt_asymm hab)

theorem le_iff (h : Ranked key l) {i j : Nat} {a b : α} (hi : l[i]? = some a)
    (hj : l[j]? = some b) : key a ≤ key b ↔ i ≤ j := by
  rw [← not_lt, h.lt_iff hj hi]
  omega

theorem filter (h : Ranked key l) (p : α → Bool) : Ranked key (l.filter p) := List.Pairwise.filter p h

theorem eq_of_perm {l' : List α} (h : Ranked key l) (h' : Ranked key l') (hp : l.Perm l') : l = l' :=
  hp.eq_of_pairwise (fun _ _ _ _ hab hba => absurd hab (lt_asymm hba)) h h'

/-- Sorting by a key that tells the elements apart ranks them. -/
theorem of_sorted (h : l.Pairwise fun a b => key a ≤ key b) (hd : l.Pairwise fun a b => key a ≠ key b) :
    Ranked key l :=
  (h.and hd).imp fun ⟨hle, hne⟩ => lt_of_le_of_ne hle hne

theorem append_singleton (h : Ranked key l) {a : α} (ha : ∀ b ∈ l, key b < key a) :
    Ranked key (l ++ [a]) :=
  List.pairwise_append.2 ⟨h, List.pairwise_singleton _ _, fun b hb c hc => by
    rw [List.mem_singleton.1 hc]
    exact ha b hb⟩

/-- An element goes in between those below it and those above it. -/
theorem middle {l r : List α} {a : α} (h : Ranked key (l ++ r)) (hl : ∀ b ∈ l, key b < key a)
    (hr : ∀ b ∈ r, key a < key b) : Ranked key (l ++ a :: r) := by
  obtain ⟨hbelow, habove, hacross⟩ := List.pairwise_append.1 h
  refine List.pairwise_append.2 ⟨hbelow, List.pairwise_cons.2 ⟨hr, habove⟩, ?_⟩
  intro b hb c hc
  rcases List.mem_cons.1 hc with rfl | hc
  · exact hl b hb
  · exact hacross b hb c hc

end Ranked

end Lib
