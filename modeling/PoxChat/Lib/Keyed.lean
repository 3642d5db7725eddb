import Mathlib.Tactic.Common

/-!
# Lists searched by key

A list of records that is searched from its head for the first record of a key, which is then changed or deleted in
place.

* `updateFirst` — a write through the pointer the search returned; what a search sees after it is
  `find?_updateFirst_self` and `find?_updateFirst_of_disjoint`.
* `DistinctKeys` — no two records have one key.  A search then finds every record (`DistinctKeys.find?_iff`), and what is
  in the list after a deletion or an update can be said of any record (`DistinctKeys.mem_eraseP`,
  `DistinctKeys.mem_updateFirst`).
-/

set_option autoImplicit false

namespace Lib

variable {α κ : Type*} {l : List α} {p q : α → Bool} {f : α → α}

/-- Change the first record that satisfies `p`. -/
def updateFirst (p : α → Bool) (f : α → α) : List α → List α
  | [] => []
  | a :: l => if p a then f a :: l else a :: updateFirst p f l

theorem updateFirst_cons (p : α → Bool) (f : α → α) (a : α) (l : List α) :
    updateFirst p f (a :: l) = if p a then f a :: l else a :: updateFirst p f l := rfl

theorem map_updateFirst {β : Type*} {g : α → β} (hf : ∀ a, g (f a) = g a) :
    (updateFirst p f l).map g = l.map g := by
  induction l with
  | nil => rfl
  | cons a l ih =>
    rw [updateFirst_cons]
    split
    · rw [List.map_cons, hf, List.map_cons]
    · rw [List.map_cons, ih, List.map_cons]

theorem exists_of_mem_updateFirst {a : α} (h : a ∈ updateFirst p f l) : ∃ b ∈ l, a = b ∨ a = f b := by
  induction l with
  | nil => cases h
  | cons b l ih =>
    rw [updateFirst_cons] at h
    split at h <;> rcases List.mem_cons.1 h with rfl | h
    · exact ⟨b, List.mem_cons_self, .inr rfl⟩
    · exact ⟨a, List.mem_cons_of_mem _ h, .inl rfl⟩
    · exact ⟨a, List.mem_cons_self, .inl rfl⟩
    · obtain ⟨c, hc, heq⟩ := ih h
      exact ⟨c, List.mem_cons_of_mem _ hc, heq⟩

theorem find?_updateFirst_self (hf : ∀ a, p (f a) = p a) : (updateFirst p f l).find? p = (l.find? p).map f := by
  induction l with
  | nil => rfl
  | cons a l ih =>
    rw [updateFirst_cons]
    split
    · next hp => rw [List.find?_cons_of_pos (by rw [hf, hp]), List.find?_cons_of_pos hp, Option.map_some]
    · next hp => rw [List.find?_cons_of_neg hp, List.find?_cons_of_neg hp, ih]

theorem find?_updateFirst_of_disjoint (hf : ∀ a, q (f a) = q a) (h : ∀ a, p a = true → q a = false) :
    (updateFirst p f l).find? q = l.find? q := by
  induction l with
  | nil => rfl
  | cons a l ih =>
    rw [updateFirst_cons]
    split
    · next hp =>
      have hq : ¬ q a = true := by simp [h a hp]
      rw [List.find?_cons_of_neg hq, List.find?_cons_of_neg (by rw [hf]; exact hq)]
    · rw [List.find?_cons, List.find?_cons, ih]

theorem updateFirst_id : updateFirst p (fun a => a) l = l := by
  induction l with
  | nil => rfl
  | cons a l ih =>
    rw [updateFirst_cons, ih]
    split <;> rfl

theorem updateFirst_updateFirst {g : α → α} (hf : ∀ a, p (f a) = p a) :
    updateFirst p g (updateFirst p f l) = updateFirst p (fun a => g (f a)) l := by
  induction l with
  | nil => rfl
  | cons a l ih =>
    rw [updateFirst_cons, updateFirst_cons]
    split
    · next hp => rw [updateFirst_cons, if_pos (by rw [hf, hp])]
    · next hp => rw [updateFirst_cons, if_neg hp, ih]

/-- The change is for a record that satisfies `p`. -/
theorem updateFirst_guard : updateFirst p f l = updateFirst p (fun a => if p a then f a else a) l := by
  induction l with
  | nil => rfl
  | cons a l ih =>
    rw [updateFirst_cons, updateFirst_cons, ← ih]
    split <;> rfl

/-- No two records have one key. -/
def DistinctKeys (key : α → κ) (l : List α) : Prop := l.Pairwise fun a b => key a ≠ key b

namespace DistinctKeys

variable {key : α → κ} {k : κ}

theorem iff_map : DistinctKeys key l ↔ (l.map key).Nodup := by rw [DistinctKeys, List.Nodup, List.pairwise_map]

theorem sublist {l' : List α} (h : DistinctKeys key l) (hsub : l'.Sublist l) : DistinctKeys key l' :=
  List.Pairwise.sublist hsub h

theorem nodup (h : DistinctKeys key l) : l.Nodup := h.imp fun hne heq => hne (by rw [heq])

theorem updateFirst (h : DistinctKeys key l) (hf : ∀ a, key (f a) = key a) : DistinctKeys key (updateFirst p f l) := by
  rw [iff_map, map_updateFirst hf, ← iff_map]
  exact h

theorem tail {a : α} (h : DistinctKeys key (a :: l)) (hp : ∀ a, p a = true ↔ key a = k) (ha : p a = true) :
    ∀ b ∈ l, p b = false := by
  intro b hb
  have hne := List.rel_of_pairwise_cons h hb
  rw [(hp a).1 ha] at hne
  exact Bool.eq_false_iff.2 fun hpb => hne ((hp b).1 hpb).symm

theorem find?_iff {a : α} (h : DistinctKeys key l) (hp : ∀ a, p a = true ↔ key a = k) :
    l.find? p = some a ↔ a ∈ l ∧ p a = true := by
  refine ⟨fun hfind => ⟨List.mem_of_find?_eq_some hfind, List.find?_some hfind⟩, ?_⟩
  induction l with
  | nil => simp
  | cons b l ih =>
    rintro ⟨hmem, ha⟩
    rcases List.mem_cons.1 hmem with rfl | hmem
    · rw [List.find?_cons_of_pos ha]
    · have hb : ¬ p b = true := fun hb => by
        rw [h.tail hp hb a hmem] at ha
        exact absurd ha (by decide)
      rw [List.find?_cons_of_neg hb]
      exact ih (List.Pairwise.of_cons h) ⟨hmem, ha⟩

theorem mem_eraseP {a : α} (h : DistinctKeys key l) (hp : ∀ a, p a = true ↔ key a = k) :
    a ∈ l.eraseP p ↔ a ∈ l ∧ p a = false := by
  induction l with
  | nil => simp
  | cons b l ih =>
    by_cases hb : p b = true
    · have htail := h.tail hp hb
      rw [List.eraseP_cons_of_pos hb, List.mem_cons]
      constructor
      · exact fun hmem => ⟨.inr hmem, htail a hmem⟩
      · rintro ⟨rfl | hmem, ha⟩
        · exact absurd hb (by simp [ha])
        · exact hmem
    · rw [List.eraseP_cons_of_neg hb, List.mem_cons, List.mem_cons, ih (List.Pairwise.of_cons h)]
      constructor
      · rintro (rfl | ⟨hmem, ha⟩)
        · exact ⟨.inl rfl, Bool.eq_false_iff.2 hb⟩
        · exact ⟨.inr hmem, ha⟩
      · rintro ⟨rfl | hmem, ha⟩
        · exact .inl rfl
        · exact .inr ⟨hmem, ha⟩

theorem mem_updateFirst {a : α} (h : DistinctKeys key l) (hp : ∀ a, p a = true ↔ key a = k) :
    a ∈ Lib.updateFirst p f l ↔ a ∈ l ∧ p a = false ∨ ∃ b ∈ l, p b = true ∧ a = f b := by
  induction l with
  | nil => simp [Lib.updateFirst]
  | cons b l ih =>
    rw [updateFirst_cons]
    by_cases hb : p b = true
    · have htail := h.tail hp hb
      rw [if_pos hb]
      constructor
      · intro hmem
        rcases List.mem_cons.1 hmem with rfl | hmem
        · exact .inr ⟨b, List.mem_cons_self, hb, rfl⟩
        · exact .inl ⟨List.mem_cons_of_mem _ hmem, htail a hmem⟩
      · rintro (⟨hmem, ha⟩ | ⟨c, hmem, hc, rfl⟩)
        · rcases List.mem_cons.1 hmem with rfl | hmem
          · exact absurd hb (by simp [ha])
          · exact List.mem_cons_of_mem _ hmem
        · rcases List.mem_cons.1 hmem with rfl | hmem
          · exact List.mem_cons_self
          · rw [htail c hmem] at hc
            exact absurd hc (by decide)
    · rw [if_neg hb, List.mem_cons, ih (List.Pairwise.of_cons h)]
      constructor
      · rintro (rfl | ⟨hmem, ha⟩ | ⟨c, hmem, hc, rfl⟩)
        · exact .inl ⟨List.mem_cons_self, Bool.eq_false_iff.2 hb⟩
        · exact .inl ⟨List.mem_cons_of_mem _ hmem, ha⟩
        · exact .inr ⟨c, List.mem_cons_of_mem _ hmem, hc, rfl⟩
      · rintro (⟨hmem, ha⟩ | ⟨c, hmem, hc, rfl⟩)
        · rcases List.mem_cons.1 hmem with rfl | hmem
          · exact .inl rfl
          · exact .inr (.inl ⟨hmem, ha⟩)
        · rcases List.mem_cons.1 hmem with rfl | hmem
          · exact absurd hc hb
          · exact .inr (.inr ⟨c, hmem, hc, rfl⟩)

end DistinctKeys

end Lib
