import PoxChat.Lib.Bisect

/-!
# The user tree

Model of `tree.c`: an array that is kept sorted and searched by halving.

* A tree is the list of its elements; the comparison of a key with an element is a parameter, as it is
  in the source, and only its sign is read.
* The loop of `tree_find_insertion_pos` has no test for its end: the result `none` is a loop that does
  not end.

Results: `treeInsert_ends` — insertion ends, in every array; `treeInsert_spec`, `treeFind_spec` — where the
comparison of the key descends along the array, it ends at the one right place, and lookup finds what is there.
-/

set_option autoImplicit false

namespace PoxChat.Users

open Lib

variable {α : Type}

/-- `mybsearch`. -/
def mybsearch (compar : α → Int) (array : List α) (nmemb : Nat) : Option (Nat × α) :=
  bisect compar array (nmemb + 1) 0 nmemb

/-- `tree_find`: position and element. -/
def treeFind (compar : α → Int) (t : List α) : Option (Nat × α) := mybsearch compar t t.length

/-- The loop of `tree_find_insertion_pos`. -/
def insertionLoop (compar : α → Int) (t : List α) : Nat → Nat → Nat → Option Int
  | 0, _, _ => none
  | fuel + 1, l, u =>
    let idx := (l + u) / 2
    match t[idx]? with
    | none => none
    | some a =>
      if compar a < 0 then insertionLoop compar t fuel l idx
      else if 0 < compar a ∧ t[idx + 1]?.any fun b => compar b < 0 then some (idx + 1)
      else if compar a = 0 then some (-1)
      else insertionLoop compar t fuel (idx + 1) u

/-- `tree_find_insertion_pos`; -1 for a key that is there. -/
def treeFindInsertionPos (compar : α → Int) (t : List α) : Option Int :=
  match t with
  | [] => some 0
  | [a] => if compar a = 0 then some (-1) else if 0 < compar a then some 1 else some 0
  | a :: b :: rest =>
    if compar a < 0 then some 0
    else if 0 < compar ((b :: rest).getLast (List.cons_ne_nil b rest)) then some t.length
    -- a pass that does not leave the loop narrows the bounds, or is repeated for ever
    else insertionLoop compar t (t.length + 1) 0 (t.length - 1)

/-- `tree_insert`: the position and the array. -/
def treeInsert (compar : α → Int) (key : α) (t : List α) : Option (Int × List α) :=
  (treeFindInsertionPos compar t).map fun pos => (pos, if pos = -1 then t else t.insertIdx pos.toNat key)

/-- `tree_remove`. -/
def treeRemove (compar : α → Int) (t : List α) : List α :=
  match treeFind compar t with
  | none => t
  | some (pos, _) => t.eraseIdx pos

section Specs

variable {compar : α → Int} {t : List α}

theorem treeFind_sound {i : Nat} {a : α} (h : treeFind compar t = some (i, a)) : t[i]? = some a ∧ compar a = 0 :=
  bisect_sound h

/-- Lookup finds the element that is equal to the key. -/
theorem treeFind_spec (hd : Descends compar t) {i : Nat} {a : α} (ha : t[i]? = some a) (hz : compar a = 0) :
    treeFind compar t = some (i, a) := by
  obtain ⟨hi, -⟩ := List.getElem?_eq_some_iff.1 ha
  exact bisect_complete hd (by omega) (Nat.le_refl _) (Nat.zero_le i) hi ha hz

/-- Position `p` separates the elements below the key from those above it. -/
structure Separates (compar : α → Int) (t : List α) (p : Nat) : Prop where
  le : p ≤ t.length
  below : ∀ i (hi : i < t.length), i < p → 0 < compar (t.get ⟨i, hi⟩)
  above : ∀ i (hi : i < t.length), p ≤ i → compar (t.get ⟨i, hi⟩) < 0

/-- Position `p` is next to an element below the key and one above it, where there are such elements. -/
structure FitsAt (compar : α → Int) (t : List α) (p : Nat) : Prop where
  le : p ≤ t.length
  before : ∀ i (hi : i < t.length), i + 1 = p → 0 < compar (t.get ⟨i, hi⟩)
  after : ∀ (hp : p < t.length), compar (t.get ⟨p, hp⟩) < 0

/-- In an array in order, the neighbours decide for all. -/
theorem FitsAt.separates {p : Nat} (h : FitsAt compar t p) (hd : Descends compar t) : Separates compar t p where
  le := h.le
  below i hi hlt := by
    have hle := h.le
    rcases Nat.lt_or_eq_of_le (Nat.succ_le_of_lt hlt) with hlt' | heq
    · exact hd.pos_of_lt (j := p - 1) (by omega) (by omega) (Int.le_of_lt (h.before (p - 1) (by omega) (by omega)))
    · exact h.before i hi heq
  above i hi hle := by
    rcases Nat.lt_or_eq_of_le hle with hlt | rfl
    · exact hd.neg_of_lt hlt hi (Int.le_of_lt (h.after (Nat.lt_trans hlt hi)))
    · exact h.after hi

theorem Separates.absent {p : Nat} (h : Separates compar t p) : ∀ a ∈ t, compar a ≠ 0 := by
  intro a ha
  obtain ⟨i, rfl⟩ := List.get_of_mem ha
  rcases Nat.lt_or_ge i p with hlt | hge
  · exact Int.ne_of_gt (h.below i i.isLt hlt)
  · exact Int.ne_of_lt (h.above i i.isLt hge)

/-- The answer to where a key goes. -/
def PlacedAt (compar : α → Int) (t : List α) (pos : Int) : Prop :=
  pos = -1 ∧ (∃ a ∈ t, compar a = 0) ∨ ∃ p : Nat, pos = p ∧ FitsAt compar t p

/-- The loop ends, in order or not: it keeps the element at `l` at or below the key, and the one at `u` at or
above it. -/
theorem insertionLoop_placed {fuel l u : Nat} (hfuel : u < fuel + l) (hu : u < t.length) (hlu : l ≤ u)
    (hlow : 0 ≤ compar (t.get ⟨l, Nat.lt_of_le_of_lt hlu hu⟩)) (hup : compar (t.get ⟨u, hu⟩) ≤ 0) :
    ∃ pos, insertionLoop compar t fuel l u = some pos ∧ PlacedAt compar t pos := by
  induction fuel generalizing l u with
  | zero => omega
  | succ fuel ih =>
    have hm : (l + u) / 2 < t.length := by omega
    have hget : t[(l + u) / 2]? = some (t.get ⟨(l + u) / 2, hm⟩) := List.getElem?_eq_getElem hm
    unfold insertionLoop
    dsimp only
    rw [hget]
    dsimp only
    by_cases hneg : compar (t.get ⟨(l + u) / 2, hm⟩) < 0
    · -- the element at `l` is not above the key, so the bounds are apart
      rw [if_pos hneg]
      have hne : l ≠ u := by
        rintro rfl
        have hidx : (l + l) / 2 = l := by omega
        simp only [hidx] at hneg
        omega
      exact ih (by omega) hm (by omega) hlow (Int.le_of_lt hneg)
    · rw [if_neg hneg]
      by_cases hzero : compar (t.get ⟨(l + u) / 2, hm⟩) = 0
      · rw [if_neg (by omega), if_pos hzero]
        exact ⟨-1, rfl, .inl ⟨rfl, _, List.get_mem t _, hzero⟩⟩
      · have hpos : 0 < compar (t.get ⟨(l + u) / 2, hm⟩) := by omega
        -- so the element at `u` is a later one
        have hlt : (l + u) / 2 < u := by
          by_contra hge
          have hidx : (l + u) / 2 = u := by omega
          simp only [hidx] at hpos
          omega
        have hsm : (l + u) / 2 + 1 < t.length := by omega
        have hnext : t[(l + u) / 2 + 1]? = some (t.get ⟨(l + u) / 2 + 1, hsm⟩) := List.getElem?_eq_getElem hsm
        rw [hnext]
        by_cases hafter : compar (t.get ⟨(l + u) / 2 + 1, hsm⟩) < 0
        · rw [if_pos ⟨hpos, by simpa using hafter⟩]
          refine ⟨_, rfl, .inr ⟨(l + u) / 2 + 1, rfl, Nat.le_of_lt hsm, ?_, fun _ => hafter⟩⟩
          intro i hi heq
          obtain rfl : i = (l + u) / 2 := by omega
          exact hpos
        · rw [if_neg (by simpa using fun _ => Int.not_lt.1 hafter), if_neg hzero]
          exact ih (by omega) hu (by omega) (by omega) hup

/-- Two elements or more: the ends are compared first. -/
theorem treeFindInsertionPos_of_two (hlen : 2 ≤ t.length) : treeFindInsertionPos compar t =
    if compar (t.get ⟨0, by omega⟩) < 0 then some 0
    else if 0 < compar (t.get ⟨t.length - 1, by omega⟩) then some (t.length : Int)
    else insertionLoop compar t (t.length + 1) 0 (t.length - 1) := by
  match t, hlen with
  | a :: b :: rest, hlen =>
    have hlast : (b :: rest).getLast (List.cons_ne_nil b rest) =
        (a :: b :: rest).get ⟨(a :: b :: rest).length - 1, by simp⟩ := by
      rw [← List.getLast_cons (List.cons_ne_nil b rest), List.getLast_eq_getElem]
      rfl
    rw [← hlast]
    rfl

theorem treeFindInsertionPos_placed (compar : α → Int) (t : List α) :
    ∃ pos, treeFindInsertionPos compar t = some pos ∧ PlacedAt compar t pos := by
  match t with
  | [] => exact ⟨0, rfl, .inr ⟨0, rfl, Nat.le_refl _, by simp, by simp⟩⟩
  | [a] =>
    unfold treeFindInsertionPos
    dsimp only
    split_ifs with hzero hpos
    · exact ⟨-1, rfl, .inl ⟨rfl, a, by simp, hzero⟩⟩
    · refine ⟨1, rfl, .inr ⟨1, rfl, Nat.le_refl _, ?_, fun hp => absurd hp (Nat.lt_irrefl _)⟩⟩
      intro i hi _
      obtain rfl : i = 0 := by simpa using hi
      exact hpos
    · refine ⟨0, rfl, .inr ⟨0, rfl, Nat.zero_le _, by simp, ?_⟩⟩
      intro _
      show compar a < 0
      omega
  | a :: b :: rest =>
    have hlen : (a :: b :: rest).length - 1 < (a :: b :: rest).length := by simp
    rw [treeFindInsertionPos_of_two (by simp)]
    split_ifs with hfirst hend
    · exact ⟨0, rfl, .inr ⟨0, rfl, Nat.zero_le _, by simp, fun _ => hfirst⟩⟩
    · refine ⟨_, rfl, .inr ⟨(a :: b :: rest).length, rfl, Nat.le_refl _, ?_, fun hp => by omega⟩⟩
      intro i hi heq
      obtain rfl : i = (a :: b :: rest).length - 1 := by omega
      exact hend
    · exact insertionLoop_placed (by omega) hlen (Nat.zero_le _) (Int.not_lt.1 hfirst) (Int.not_lt.1 hend)

/-- **Insertion ends** in every array: a key that is met changes nothing, another one goes between two elements. -/
theorem treeInsert_ends (compar : α → Int) (t : List α) (key : α) :
    (∃ a ∈ t, compar a = 0) ∧ treeInsert compar key t = some (-1, t) ∨
      ∃ p : Nat, FitsAt compar t p ∧ treeInsert compar key t = some ((p : Int), t.insertIdx p key) := by
  obtain ⟨pos, hpos, ⟨rfl, hthere⟩ | ⟨p, rfl, hfits⟩⟩ := treeFindInsertionPos_placed compar t
  · left
    refine ⟨hthere, ?_⟩
    simp [treeInsert, hpos]
  · right
    refine ⟨p, hfits, ?_⟩
    have hne : ¬ (p : Int) = -1 := by omega
    simp [treeInsert, hpos, hne]

/-- **Insertion** in an array in order: a key that is there changes nothing; another one goes to the one place that
separates the array. -/
theorem treeInsert_spec (hd : Descends compar t) (key : α) :
    (∃ a ∈ t, compar a = 0) ∧ treeInsert compar key t = some (-1, t) ∨
      ∃ p : Nat, Separates compar t p ∧ treeInsert compar key t = some ((p : Int), t.insertIdx p key) := by
  rcases treeInsert_ends compar t key with hthere | ⟨p, hfits, hins⟩
  · exact .inl hthere
  · exact .inr ⟨p, hfits.separates hd, hins⟩

end Specs

end PoxChat.Users
