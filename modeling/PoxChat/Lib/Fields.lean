import Mathlib.Tactic.Common

/-!
# Fields

A list is split at the runs of its separators.

* `fields` — the pieces between separators, without the empty ones behind the first.
* `fieldsFrom` — the same from left to right, with one bit for a separator that has just been read.
* `fieldsFrom_eq` — the two agree, but for an empty field after a separator at the end.
* `exists_field` — what has no separator lies within one field.
-/

set_option autoImplicit false

namespace Lib

variable {α β : Type} {sep : α → Bool}

/-- The fields of a list; only the first may be empty. -/
def fields (sep : α → Bool) (l : List α) : List (List α) :=
  (l.splitOnP sep).take 1 ++ ((l.splitOnP sep).drop 1).filter (!·.isEmpty)

/-- The fields of a list, from left to right: `field` has been read of the one under way. -/
def fieldsFrom (sep : α → Bool) (field : List α) : Bool → List α → List (List α)
  | _, [] => [field]
  | after, a :: l =>
    if sep a then if after then fieldsFrom sep field true l else field :: fieldsFrom sep [] true l
    else fieldsFrom sep (field ++ [a]) false l

theorem exists_splitOnP (sep : α → Bool) (l : List α) : ∃ piece pieces, l.splitOnP sep = piece :: pieces :=
  List.exists_cons_of_ne_nil (List.splitOnP_ne_nil sep l)

theorem fields_eq {l piece : List α} {pieces : List (List α)} (h : l.splitOnP sep = piece :: pieces) :
    fields sep l = piece :: pieces.filter (!·.isEmpty) := by
  rw [fields, h]
  rfl

theorem splitOnP_sep {a : α} (ha : sep a = true) (l : List α) : (a :: l).splitOnP sep = [] :: l.splitOnP sep := by
  rw [List.splitOnP_cons_eq_if_modifyHead, if_pos ha]

theorem splitOnP_other {a : α} (ha : sep a = false) {l piece : List α} {pieces : List (List α)}
    (h : l.splitOnP sep = piece :: pieces) : (a :: l).splitOnP sep = (a :: piece) :: pieces := by
  rw [List.splitOnP_cons_eq_if_modifyHead, if_neg (by simp [ha]), h]
  rfl

/-- A piece has no separator. -/
theorem not_sep_of_mem_splitOnP {l : List α} {a : α} :
    ∀ {piece : List α}, piece ∈ l.splitOnP sep → a ∈ piece → sep a = false := by
  induction l with
  | nil =>
    intro piece hpiece ha
    rw [List.splitOnP_nil, List.mem_singleton] at hpiece
    subst hpiece
    cases ha
  | cons b l ih =>
    intro piece hpiece ha
    cases hb : sep b with
    | true =>
      rw [splitOnP_sep hb] at hpiece
      rcases List.mem_cons.1 hpiece with rfl | hpiece
      · cases ha
      · exact ih hpiece ha
    | false =>
      obtain ⟨head, pieces, hl⟩ := exists_splitOnP sep l
      rw [splitOnP_other hb hl] at hpiece
      rw [hl] at ih
      rcases List.mem_cons.1 hpiece with rfl | hpiece
      · rcases List.mem_cons.1 ha with rfl | ha
        · exact hb
        · exact ih List.mem_cons_self ha
      · exact ih (List.mem_cons_of_mem _ hpiece) ha

theorem not_sep_of_mem_fields {l field : List α} {a : α} (hfield : field ∈ fields sep l) (ha : a ∈ field) :
    sep a = false := by
  rcases List.mem_append.1 hfield with h | h
  · exact not_sep_of_mem_splitOnP (List.mem_of_mem_take h) ha
  · exact not_sep_of_mem_splitOnP (List.mem_of_mem_drop (List.mem_filter.1 h).1) ha

/-- What is left to read, whether a separator has just been read or not. -/
theorem fieldsFrom_pieces (l : List α) : ∀ {piece : List α} {pieces : List (List α)}, l.splitOnP sep = piece :: pieces →
    (∀ field, ∃ last, (last = [] ∨ last = [[]]) ∧
      fieldsFrom sep field false l = (field ++ piece) :: (pieces.filter (!·.isEmpty) ++ last)) ∧
    ∃ last, (last = [] ∨ last = [[]]) ∧
      fieldsFrom sep [] true l = (piece :: pieces).filter (!·.isEmpty) ++ last := by
  induction l with
  | nil =>
    intro piece pieces h
    obtain ⟨rfl, rfl⟩ : [] = piece ∧ [] = pieces := List.cons.inj (h ▸ List.splitOnP_nil.symm)
    refine ⟨fun field => ⟨[], .inl rfl, by simp [fieldsFrom]⟩, [[]], .inr rfl, rfl⟩
  | cons a l ih =>
    intro piece pieces h
    obtain ⟨piece', pieces', hl⟩ := exists_splitOnP sep l
    obtain ⟨hfalse, last, hlast, htrue⟩ := ih hl
    cases ha : sep a with
    | true =>
      rw [splitOnP_sep ha, hl] at h
      injection h with hpiece hpieces
      subst hpiece hpieces
      refine ⟨fun field => ⟨last, hlast, ?_⟩, last, hlast, ?_⟩
      · rw [fieldsFrom, if_pos ha, if_neg (by simp), htrue, List.append_nil]
      · rw [fieldsFrom, if_pos ha, if_pos rfl, htrue]
        rfl
    | false =>
      have hcons := splitOnP_other ha hl
      rw [hcons] at h
      injection h with hpiece hpieces
      subst hpiece hpieces
      constructor
      · intro field
        obtain ⟨last', hlast', hfield⟩ := hfalse (field ++ [a])
        refine ⟨last', hlast', ?_⟩
        rw [fieldsFrom, if_neg (by simp [ha]), hfield]
        simp
      · obtain ⟨last', hlast', hfield⟩ := hfalse [a]
        refine ⟨last', hlast', ?_⟩
        rw [fieldsFrom, if_neg (by simp [ha]), List.nil_append, hfield, List.filter_cons_of_pos (by simp)]
        simp

/-- **Reading from left to right** finds the fields, and an empty one where a separator ends the list. -/
theorem fieldsFrom_eq (sep : α → Bool) (l : List α) :
    ∃ last, (last = [] ∨ last = [[]]) ∧ fieldsFrom sep [] false l = fields sep l ++ last := by
  obtain ⟨piece, pieces, hl⟩ := exists_splitOnP sep l
  obtain ⟨last, hlast, hfield⟩ := (fieldsFrom_pieces l hl).1 []
  refine ⟨last, hlast, ?_⟩
  rw [hfield, fields_eq hl]
  rfl

theorem fieldsFrom_getD (sep : α → Bool) (l : List α) (k : Nat) :
    (fieldsFrom sep [] false l).getD k [] = (fields sep l).getD k [] := by
  obtain ⟨last, hlast, hfield⟩ := fieldsFrom_eq sep l
  rw [hfield]
  simp only [List.getD_eq_getElem?_getD]
  rcases hlast with rfl | rfl
  · rw [List.append_nil]
  · by_cases hk : k < (fields sep l).length
    · rw [List.getElem?_append_left hk]
    · rw [List.getElem?_append_right (by omega), List.getElem?_eq_none (Nat.le_of_not_lt hk)]
      cases hsub : k - (fields sep l).length with
      | zero => rfl
      | succ n => rfl

theorem splitOnP_map (f : α → β) (sep : β → Bool) (l : List α) :
    (l.map f).splitOnP sep = (l.splitOnP (sep ∘ f)).map (List.map f) := by
  induction l with
  | nil => rfl
  | cons a l ih =>
    obtain ⟨piece, pieces, hl⟩ := exists_splitOnP (sep ∘ f) l
    rw [hl] at ih
    cases ha : sep (f a) with
    | true =>
      have hcomp : (sep ∘ f) a = true := ha
      rw [List.map_cons, splitOnP_sep ha, splitOnP_sep hcomp, ih, hl]
      rfl
    | false =>
      have hcomp : (sep ∘ f) a = false := ha
      rw [List.map_cons, splitOnP_other ha ih, splitOnP_other hcomp hl]
      rfl

/-- The fields of what a list is mapped to. -/
theorem fields_map (f : α → β) (sep : β → Bool) (l : List α) :
    fields sep (l.map f) = (fields (sep ∘ f) l).map (List.map f) := by
  unfold fields
  rw [splitOnP_map, List.map_append, List.map_take, ← List.map_drop, List.filter_map]
  congr 2
  apply List.filter_congr
  simp

/-- What has no separator goes on with the first piece. -/
theorem splitOnP_front {m : List α} (hm : ∀ a ∈ m, sep a = false) {r piece : List α} {pieces : List (List α)}
    (h : r.splitOnP sep = piece :: pieces) : (m ++ r).splitOnP sep = (m ++ piece) :: pieces := by
  induction m with
  | nil => exact h
  | cons a m ih => exact splitOnP_other (hm a (by simp)) (ih fun b hb => hm b (by simp [hb]))

/-- What has no separator, and stands in the list, stands in one of its pieces. -/
theorem exists_piece {m : List α} (hm : ∀ a ∈ m, sep a = false) (l r : List α) :
    ∃ piece ∈ (l ++ (m ++ r)).splitOnP sep, m <:+: piece := by
  induction l with
  | nil =>
    obtain ⟨piece, pieces, hr⟩ := exists_splitOnP sep r
    refine ⟨m ++ piece, ?_, (List.prefix_append m piece).isInfix⟩
    rw [List.nil_append, splitOnP_front hm hr]
    exact List.mem_cons_self
  | cons a l ih =>
    obtain ⟨piece, hmem, hin⟩ := ih
    cases ha : sep a with
    | true =>
      refine ⟨piece, ?_, hin⟩
      rw [List.cons_append, splitOnP_sep ha]
      exact List.mem_cons_of_mem _ hmem
    | false =>
      obtain ⟨head, pieces, hl⟩ := exists_splitOnP sep (l ++ (m ++ r))
      rw [List.cons_append, splitOnP_other ha hl]
      rw [hl] at hmem
      rcases List.mem_cons.1 hmem with rfl | hmem
      · exact ⟨a :: piece, List.mem_cons_self, hin.trans (List.suffix_cons a piece).isInfix⟩
      · exact ⟨piece, List.mem_cons_of_mem _ hmem, hin⟩

/-- **What has no separator** and is not empty lies within one field. -/
theorem exists_field {m : List α} (hm : ∀ a ∈ m, sep a = false) (hne : m ≠ []) (l r : List α) :
    ∃ field ∈ fields sep (l ++ (m ++ r)), m <:+: field := by
  obtain ⟨piece, hmem, hin⟩ := exists_piece hm l r
  obtain ⟨head, pieces, hl⟩ := exists_splitOnP sep (l ++ (m ++ r))
  refine ⟨piece, ?_, hin⟩
  rw [hl] at hmem
  rw [fields_eq hl]
  rcases List.mem_cons.1 hmem with rfl | hmem
  · exact List.mem_cons_self
  · apply List.mem_cons_of_mem
    rw [List.mem_filter]
    refine ⟨hmem, ?_⟩
    cases piece with
    | nil => exact absurd (List.infix_nil.1 hin) hne
    | cons a piece => rfl

end Lib
