import Mathlib.Data.List.SplitBy
import Mathlib.Order.Lattice

/-!
# Maximal runs

The neighbours of a list that are related fall into maximal runs; what one more element at the end does to them.

* `runs` — the runs of at least two elements.
* `runs_concat_of_unrelated`, `runs_concat_of_related` — the element opens a run of its own, or extends the last.
* `splitBy_key` — a list in the order of a key falls into groups of one key each, in the order of the keys.
-/

set_option autoImplicit false

namespace Lib

variable {α β : Type}

section Concat

variable {r : α → α → Bool} {l : List α} {a : α}

theorem splitBy_concat_of_related {done : List (List α)} {cur : List α} (h : l.splitBy r = done ++ [cur])
    (hr : ∀ x ∈ cur.getLast?, r x a = true) : (l ++ [a]).splitBy r = done ++ [cur ++ [a]] := by
  rw [List.splitBy_eq_iff] at h ⊢
  obtain ⟨hl, hnil, hchain, hbreak⟩ := h
  have hcur : cur ≠ [] := fun hcur => hnil (by simp [hcur])
  rw [List.isChain_append] at hbreak
  refine ⟨by simp [hl], ?_, fun m hm => ?_, ?_⟩
  · rw [List.mem_append] at hnil ⊢
    rintro (hmem | hmem)
    · exact hnil (.inl hmem)
    · simp at hmem
  · rcases List.mem_append.1 hm with hm | hm
    · exact hchain m (List.mem_append_left _ hm)
    · rw [List.mem_singleton.1 hm, List.isChain_append]
      refine ⟨hchain cur (by simp), List.isChain_singleton a, fun x hx y hy => ?_⟩
      rw [List.head?_cons, Option.mem_some_iff] at hy
      exact hy ▸ hr x hx
  · rw [List.isChain_append]
    refine ⟨hbreak.1, List.isChain_singleton _, fun g hg y hy => ?_⟩
    obtain ⟨hgne, hcne, hne⟩ := hbreak.2.2 g hg cur (by simp)
    rw [List.head?_cons, Option.mem_some_iff] at hy
    subst hy
    exact ⟨hgne, by simp, by rwa [List.head_append_of_ne_nil hcne]⟩

theorem splitBy_concat_of_unrelated (hr : ∀ x ∈ l.getLast?, r x a = false) :
    (l ++ [a]).splitBy r = l.splitBy r ++ [[a]] := List.splitBy_append_cons [] hr

/-- The last group of a list that has one. -/
theorem exists_splitBy_concat (r : α → α → Bool) (hl : l ≠ []) :
    ∃ done cur, l.splitBy r = done ++ [cur] ∧ cur ≠ [] ∧ l = done.flatten ++ cur := by
  obtain ⟨done, cur, h⟩ := (List.eq_nil_or_concat' (l.splitBy r)).resolve_left (List.splitBy_ne_nil.2 hl)
  refine ⟨done, cur, h, ?_, ?_⟩
  · exact List.ne_nil_of_mem_splitBy (r := r) (l := l) (by simp [h])
  · rw [← List.flatten_splitBy r l, h]
    simp

end Concat

/-- The maximal runs of at least two elements. -/
def runs (r : α → α → Bool) (l : List α) : List (List α) := (l.splitBy r).filter fun run => 2 ≤ run.length

section Runs

variable {r : α → α → Bool} {l : List α} {a : α}

theorem runs_concat_of_unrelated (hr : ∀ x ∈ l.getLast?, r x a = false) : runs r (l ++ [a]) = runs r l := by
  rw [runs, splitBy_concat_of_unrelated hr, List.filter_append]
  simp [runs]

/-- The last run grows by the element, or begins with the two last ones. -/
theorem runs_concat_of_related (hl : l ≠ []) (hr : ∀ x ∈ l.getLast?, r x a = true) :
    ∃ (done : List (List α)) (cur : List α), cur ≠ [] ∧ l = done.flatten ++ cur ∧
      runs r l = (done.filter fun run => 2 ≤ run.length) ++ (if 2 ≤ cur.length then [cur] else []) ∧
      runs r (l ++ [a]) = (done.filter fun run => 2 ≤ run.length) ++ [cur ++ [a]] := by
  obtain ⟨done, cur, h, hne, hflat⟩ := exists_splitBy_concat r hl
  have hlast : l.getLast? = cur.getLast? := by
    rw [hflat, List.getLast?_append_of_ne_nil _ hne]
  refine ⟨done, cur, hne, hflat, ?_, ?_⟩
  · rw [runs, h, List.filter_append]
    simp [List.filter_cons]
  · rw [runs, splitBy_concat_of_related h (hlast ▸ hr), List.filter_append]
    simp [List.filter_cons, hne]

end Runs

/-! ## Groups of one key -/

section Groups

variable [LinearOrder β] {f : α → β} {l : List α}

theorem splitBy_key (h : l.Pairwise fun a b => f a ≤ f b) :
    (∀ g ∈ l.splitBy fun a b => f a == f b, ∀ a ∈ g, ∀ b ∈ g, f a = f b) ∧
      (l.splitBy fun a b => f a == f b).Pairwise fun g k => ∀ a ∈ g, ∀ b ∈ k, f a < f b := by
  induction l using List.reverseRecOn with
  | nil => simp
  | append_singleton l a ih =>
    rw [List.pairwise_append] at h
    obtain ⟨hl, -, hla⟩ := h
    obtain ⟨hsame, hlt⟩ := ih hl
    rcases List.eq_nil_or_concat' l with rfl | ⟨init, x, rfl⟩
    · simp [List.splitBy, List.splitBy.loop]
    obtain ⟨done, cur, hgroups, hne, hflat⟩ := exists_splitBy_concat (fun a b => f a == f b)
      (List.append_ne_nil_of_right_ne_nil init (List.cons_ne_nil x []))
    have hx : x ∈ cur := by
      have hlast := congrArg List.getLast? hflat
      rw [List.getLast?_concat, List.getLast?_append_of_ne_nil _ hne] at hlast
      exact List.mem_of_getLast? hlast.symm
    by_cases hxa : f x = f a
    · have hrel : ∀ y ∈ cur.getLast?, (f y == f a) = true := fun y hy => by
        rw [beq_iff_eq, ← hxa]
        exact hsame cur (by simp [hgroups]) y (List.mem_of_getLast? hy) x hx
      rw [splitBy_concat_of_related hgroups hrel]
      rw [hgroups] at hsame hlt
      have hcur : ∀ y ∈ cur ++ [a], f y = f a := by
        intro y hy
        rcases List.mem_append.1 hy with hy | hy
        · exact (hsame cur (by simp) y hy x hx).trans hxa
        · rw [List.mem_singleton.1 hy]
      refine ⟨fun g hg => ?_, ?_⟩
      · rcases List.mem_append.1 hg with hg | hg
        · exact hsame g (List.mem_append_left _ hg)
        · rw [List.mem_singleton.1 hg]
          exact fun y hy z hz => (hcur y hy).trans (hcur z hz).symm
      · rw [List.pairwise_append] at hlt ⊢
        refine ⟨hlt.1, List.pairwise_singleton _ _, fun g hg k hk y hy z hz => ?_⟩
        rw [List.mem_singleton.1 hk] at hz
        rw [hcur z hz, ← hxa]
        exact hlt.2.2 g hg cur (by simp) y hy x hx
    · have hbreak : ∀ y ∈ (init ++ [x]).getLast?, (f y == f a) = false := fun y hy => by
        rw [List.getLast?_concat, Option.mem_some_iff] at hy
        rw [← hy]
        simpa using hxa
      have hbelow : ∀ y ∈ init ++ [x], f y < f a := by
        intro y hy
        have hxlt : f x < f a := lt_of_le_of_ne (hla x (by simp) a (by simp)) hxa
        rcases List.mem_append.1 hy with hy | hy
        · exact lt_of_le_of_lt ((List.pairwise_append.1 hl).2.2 y hy x (by simp)) hxlt
        · rwa [List.mem_singleton.1 hy]
      rw [splitBy_concat_of_unrelated hbreak]
      refine ⟨fun g hg => ?_, ?_⟩
      · rcases List.mem_append.1 hg with hg | hg
        · exact hsame g hg
        · rw [List.mem_singleton.1 hg]
          simp
      · rw [List.pairwise_append]
        refine ⟨hlt, List.pairwise_singleton _ _, fun g hg k hk y hy z hz => ?_⟩
        rw [List.mem_singleton.1 hk, List.mem_singleton] at hz
        rw [hz]
        refine hbelow y ?_
        rw [← List.flatten_splitBy (fun a b => f a == f b) (init ++ [x])]
        exact List.mem_flatten.2 ⟨g, hg, hy⟩

end Groups

end Lib
