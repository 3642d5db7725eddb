import Mathlib.Data.List.Basic
import Mathlib.Data.List.Pairwise

/-!
# Bisection

Search in a list by halving, where a key is compared with the elements only through the sign of
`f`: positive for the elements below the key, zero for one equal to it, negative for those above.

* `Descends f xs` — the elements below the key come first and at most one is equal to it; positions can then be compared
  with counts (`Descends.pos_iff`, `Descends.nonneg_iff`).
* `bisect` — the search; sound for every `f`, complete where `f` descends.
* `pairwise_insertIdx` — an element goes where it is above all before it and below all after it.
* `Comparison` — a comparison by which all elements are in order; along a sorted list it descends.
-/

set_option autoImplicit false

namespace Lib

variable {α : Type}

/-- Where `p` holds up to some place, the places before the count are those where it holds. -/
theorem lt_countP_iff {p : α → Bool} {xs : List α} (h : xs.Pairwise fun a b => p b = true → p a = true) {i : Nat}
    (hi : i < xs.length) : i < xs.countP p ↔ p (xs.get ⟨i, hi⟩) = true := by
  induction xs generalizing i with
  | nil => cases hi
  | cons x xs ih =>
    obtain ⟨hx, hxs⟩ := List.pairwise_cons.1 h
    cases hp : p x with
    | true =>
      rw [List.countP_cons_of_pos hp]
      cases i with
      | zero => exact iff_of_true (Nat.succ_pos _) hp
      | succ i => exact Nat.succ_lt_succ_iff.trans (ih hxs (Nat.lt_of_succ_lt_succ hi))
    | false =>
      have hnone : ∀ a ∈ x :: xs, ¬ p a = true := by
        intro a ha hpa
        rcases List.mem_cons.1 ha with rfl | ha
        · rw [hp] at hpa
          cases hpa
        · rw [hx a ha hpa] at hp
          cases hp
      rw [List.countP_eq_zero.2 hnone]
      exact iff_of_false (Nat.not_lt_zero i) (hnone _ (List.get_mem _ _))

/-- Where `f` is no longer positive, it is negative from the next element on. -/
def Descends (f : α → Int) (xs : List α) : Prop := xs.Pairwise fun a b => f a ≤ 0 → f b < 0

section Descends

variable {f : α → Int} {xs : List α}

theorem Descends.neg_of_lt (h : Descends f xs) {i j : Nat} (hij : i < j) (hj : j < xs.length)
    (hi : f (xs.get ⟨i, Nat.lt_trans hij hj⟩) ≤ 0) : f (xs.get ⟨j, hj⟩) < 0 :=
  List.pairwise_iff_get.1 h ⟨i, Nat.lt_trans hij hj⟩ ⟨j, hj⟩ hij hi

theorem Descends.pos_of_lt (h : Descends f xs) {i j : Nat} (hij : i < j) (hj : j < xs.length)
    (hpos : 0 ≤ f (xs.get ⟨j, hj⟩)) : 0 < f (xs.get ⟨i, Nat.lt_trans hij hj⟩) := by
  by_contra hi
  have := h.neg_of_lt hij hj (by omega)
  omega

theorem Descends.pos_iff (h : Descends f xs) {i : Nat} (hi : i < xs.length) :
    i < xs.countP (fun a => 0 < f a) ↔ 0 < f (xs.get ⟨i, hi⟩) := by
  rw [lt_countP_iff (h.imp fun {a b} hab => ?_) hi, decide_eq_true_iff]
  simp only [decide_eq_true_iff]
  omega

theorem Descends.nonneg_iff (h : Descends f xs) {i : Nat} (hi : i < xs.length) :
    i < xs.countP (fun a => 0 ≤ f a) ↔ 0 ≤ f (xs.get ⟨i, hi⟩) := by
  rw [lt_countP_iff (h.imp fun {a b} hab => ?_) hi, decide_eq_true_iff]
  simp only [decide_eq_true_iff]
  omega

/-- Searching one by one finds the element that is equal to the key. -/
theorem Descends.find?_iff (h : Descends f xs) {a : α} :
    xs.find? (fun b => f b = 0) = some a ↔ a ∈ xs ∧ f a = 0 := by
  constructor
  · intro hfind
    exact ⟨List.mem_of_find?_eq_some hfind, by simpa using List.find?_some hfind⟩
  · rintro ⟨ha, hz⟩
    obtain ⟨i, rfl⟩ := List.get_of_mem ha
    obtain ⟨b, hb⟩ := Option.isSome_iff_exists.1 (List.find?_isSome (p := fun b => f b = 0).2 ⟨_, ha, decide_eq_true hz⟩)
    have hzb : f b = 0 := by simpa using List.find?_some hb
    obtain ⟨j, rfl⟩ := List.get_of_mem (List.mem_of_find?_eq_some hb)
    rcases Nat.lt_trichotomy i j with hlt | heq | hgt
    · have := h.neg_of_lt hlt j.isLt (Int.le_of_eq hz)
      exact absurd hzb (Int.ne_of_lt this)
    · rw [hb, Fin.ext heq]
    · have := h.neg_of_lt hgt i.isLt (Int.le_of_eq hzb)
      exact absurd hz (Int.ne_of_lt this)

end Descends

/-- Search for an element where `f` is zero, in the positions from `l` to before `u`. -/
def bisect (f : α → Int) (xs : List α) : Nat → Nat → Nat → Option (Nat × α)
  | 0, _, _ => none
  | fuel + 1, l, u =>
    if l < u then
      match xs[(l + u) / 2]? with
      | none => none
      | some a =>
        if f a < 0 then bisect f xs fuel l ((l + u) / 2)
        else if 0 < f a then bisect f xs fuel ((l + u) / 2 + 1) u
        else some ((l + u) / 2, a)
    else none

section Bisect

variable {f : α → Int} {xs : List α}

/-- What is found is there, and equal to the key. -/
theorem bisect_sound {fuel l u i : Nat} {a : α} (h : bisect f xs fuel l u = some (i, a)) :
    xs[i]? = some a ∧ f a = 0 := by
  induction fuel generalizing l u with
  | zero => cases h
  | succ fuel ih =>
    unfold bisect at h
    split at h
    · split at h
      · cases h
      · rename_i b hb
        split at h
        · exact ih h
        · split at h
          · exact ih h
          · cases h
            exact ⟨hb, by omega⟩
    · cases h

/-- Only the sign of the comparison is read. -/
theorem bisect_congr {g : α → Int} (hneg : ∀ a, f a < 0 ↔ g a < 0) (hzero : ∀ a, f a = 0 ↔ g a = 0)
    (fuel l u : Nat) : bisect f xs fuel l u = bisect g xs fuel l u := by
  have hpos : ∀ a, 0 < f a ↔ 0 < g a := by
    intro a
    have h1 := hneg a
    have h2 := hzero a
    omega
  induction fuel generalizing l u with
  | zero => rfl
  | succ fuel ih =>
    unfold bisect
    split
    · split
      · rfl
      · simp only [hneg, hpos, ih]
    · rfl

/-- What is there is found. -/
theorem bisect_complete (hd : Descends f xs) {fuel l u i : Nat} {a : α} (hfuel : u < fuel + l) (hu : u ≤ xs.length)
    (hl : l ≤ i) (hi : i < u) (ha : xs[i]? = some a) (hz : f a = 0) : bisect f xs fuel l u = some (i, a) := by
  induction fuel generalizing l u with
  | zero => omega
  | succ fuel ih =>
    have hlu : l < u := by omega
    have hm : (l + u) / 2 < xs.length := by omega
    have hget : xs[(l + u) / 2]? = some (xs.get ⟨(l + u) / 2, hm⟩) := List.getElem?_eq_getElem hm
    obtain ⟨hi', rfl⟩ := List.getElem?_eq_some_iff.1 ha
    unfold bisect
    rw [if_pos hlu, hget]
    dsimp only
    rcases Nat.lt_trichotomy i ((l + u) / 2) with hlt | heq | hgt
    · have hneg := hd.neg_of_lt hlt hm (Int.le_of_eq hz)
      rw [if_pos hneg]
      exact ih (by omega) (by omega) hl hlt
    · subst heq
      have hz' : f (xs.get ⟨(l + u) / 2, hm⟩) = 0 := hz
      rw [if_neg (by omega), if_neg (by omega)]
      rfl
    · have hpos := hd.pos_of_lt hgt hi' (Int.le_of_eq hz.symm)
      rw [if_neg (by omega), if_pos hpos]
      exact ih (by omega) hu (by omega) hi

end Bisect

/-! ## Insertion -/

/-- A list around one of its places. -/
theorem exists_around {l : List α} {i : Nat} {a : α} (h : l[i]? = some a) :
    ∃ front back, l = front ++ a :: back ∧ front.length = i := by
  obtain ⟨hi, rfl⟩ := List.getElem?_eq_some_iff.1 h
  refine ⟨l.take i, l.drop (i + 1), ?_, List.length_take_of_le (Nat.le_of_lt hi)⟩
  rw [List.getElem_cons_drop, List.take_append_drop]

/-- Inserting where two parts meet. -/
theorem insertIdx_length (l r : List α) (a : α) : (l ++ r).insertIdx l.length a = l ++ a :: r := by
  induction l with
  | nil => rfl
  | cons b l ih => rw [List.cons_append, List.length_cons, List.insertIdx_succ_cons, ih, List.cons_append]

/-- Everything before the place is below, everything after it above. -/
theorem pairwise_insertIdx {R : α → α → Prop} {xs : List α} (h : xs.Pairwise R) {pos : Nat} {a : α}
    (hpos : pos ≤ xs.length) (hbelow : ∀ i (hi : i < xs.length), i < pos → R (xs.get ⟨i, hi⟩) a)
    (habove : ∀ i (hi : i < xs.length), pos ≤ i → R a (xs.get ⟨i, hi⟩)) : (xs.insertIdx pos a).Pairwise R := by
  induction xs generalizing pos with
  | nil =>
    obtain rfl : pos = 0 := by simpa using hpos
    simp
  | cons x xs ih =>
    obtain ⟨hx, hxs⟩ := List.pairwise_cons.1 h
    cases pos with
    | zero =>
      rw [List.insertIdx_zero, List.pairwise_cons]
      refine ⟨fun b hb => ?_, h⟩
      obtain ⟨i, hi, rfl⟩ := List.mem_iff_getElem.1 hb
      exact habove i hi (Nat.zero_le i)
    | succ pos =>
      have hpos' : pos ≤ xs.length := by simpa using hpos
      rw [List.insertIdx_succ_cons, List.pairwise_cons]
      refine ⟨fun b hb => ?_, ih hxs hpos' (fun i hi hlt => ?_) fun i hi hle => ?_⟩
      · rcases (List.mem_insertIdx hpos').1 hb with rfl | hb
        · exact hbelow 0 (by simp) (by omega)
        · exact hx b hb
      · exact hbelow (i + 1) (by simpa using hi) (by omega)
      · exact habove (i + 1) (by simpa using hi) (by omega)

/-! ## Comparisons -/

/-- A three-way comparison that orders all elements; elements that compare equal need not be the same. -/
structure Comparison (α : Type) where
  cmp : α → α → Int
  swap : ∀ a b, cmp a b < 0 ↔ 0 < cmp b a
  trans : ∀ a b c, cmp a b ≤ 0 → cmp b c ≤ 0 → cmp a c ≤ 0

namespace Comparison

variable (c : Comparison α)

/-- Strictly increasing. -/
def Sorted (xs : List α) : Prop := xs.Pairwise fun a b => c.cmp a b < 0

variable {c}

theorem symm {a b : α} (h : c.cmp a b = 0) : c.cmp b a = 0 := by
  have h1 := c.swap a b
  have h2 := c.swap b a
  omega

theorem self (a : α) : c.cmp a a = 0 := by
  have := c.swap a a
  omega

theorem lt_of_le_of_lt {a b d : α} (hab : c.cmp a b ≤ 0) (hbd : c.cmp b d < 0) : c.cmp a d < 0 := by
  by_contra hge
  have hda : c.cmp d a ≤ 0 := by
    have := c.swap a d
    omega
  have hdb := c.trans d a b hda hab
  have := c.swap b d
  omega

/-- Equal keys are equal to the same elements. -/
theorem congr {a b d : α} (h : c.cmp a b = 0) : c.cmp a d = 0 ↔ c.cmp b d = 0 := by
  have htrans : ∀ {x y z : α}, c.cmp x y = 0 → c.cmp y z = 0 → c.cmp x z = 0 := by
    intro x y z hxy hyz
    have h1 := c.trans x y z (Int.le_of_eq hxy) (Int.le_of_eq hyz)
    have h2 := c.trans z y x (Int.le_of_eq (symm hyz)) (Int.le_of_eq (symm hxy))
    have h3 := c.swap x z
    omega
  exact ⟨htrans (symm h), htrans h⟩

theorem Sorted.descends {xs : List α} (h : c.Sorted xs) (key : α) : Descends (c.cmp key) xs :=
  h.imp fun hab hle => lt_of_le_of_lt hle hab

theorem Sorted.insertIdx {xs : List α} (h : c.Sorted xs) {key : α} {p : Nat} (hp : p ≤ xs.length)
    (hbelow : ∀ i (hi : i < xs.length), i < p → 0 < c.cmp key (xs.get ⟨i, hi⟩))
    (habove : ∀ i (hi : i < xs.length), p ≤ i → c.cmp key (xs.get ⟨i, hi⟩) < 0) : c.Sorted (xs.insertIdx p key) :=
  pairwise_insertIdx h hp (fun i hi hlt => (c.swap _ _).2 (hbelow i hi hlt)) habove

end Comparison

end Lib
