import Mathlib.Data.List.Infix

/-!
# Glob patterns

A pattern is a list of tokens; `same` says which characters a literal stands for.

* `Glob` — the strings of a pattern.
* `glob_star_chunk` — after a star, the first place where the tokens up to the next star fit is as good as any other.
* `Exhausts` — a string that is used up where a star is followed by a literal: some part of the pattern ends in a star,
  and matches the string and no shorter part of it.  There is one such part at most.
-/

set_option autoImplicit false

namespace Lib

inductive GlobToken (α : Type) where
  | many
  | any
  | lit (x : α)

open GlobToken

variable {α : Type} {same : α → α → Prop}

/-- The string is one of the pattern. -/
inductive Glob (same : α → α → Prop) : List (GlobToken α) → List α → Prop where
  | nil : Glob same [] []
  | any {c : α} {ts : List (GlobToken α)} {s : List α} (h : Glob same ts s) : Glob same (any :: ts) (c :: s)
  | lit {x c : α} {ts : List (GlobToken α)} {s : List α} (hc : same x c) (h : Glob same ts s) :
      Glob same (lit x :: ts) (c :: s)
  | stop {ts : List (GlobToken α)} {s : List α} (h : Glob same ts s) : Glob same (many :: ts) s
  | skip {c : α} {ts : List (GlobToken α)} {s : List α} (h : Glob same (many :: ts) s) : Glob same (many :: ts) (c :: s)

section Rules

variable {ts c : List (GlobToken α)} {s u v w : List α} {x y : α}

@[simp] theorem glob_nil : Glob same [] s ↔ s = [] := by
  constructor
  · rintro ⟨⟩
    rfl
  · rintro rfl
    exact .nil

@[simp] theorem not_glob_any_nil : ¬ Glob same (any :: ts) [] := by
  rintro ⟨⟩

@[simp] theorem glob_any_cons : Glob same (any :: ts) (y :: s) ↔ Glob same ts s := by
  constructor
  · rintro ⟨⟩
    assumption
  · exact .any

@[simp] theorem not_glob_lit_nil : ¬ Glob same (lit x :: ts) [] := by
  rintro ⟨⟩

@[simp] theorem glob_lit_cons : Glob same (lit x :: ts) (y :: s) ↔ same x y ∧ Glob same ts s := by
  constructor
  · rintro ⟨⟩
    exact ⟨by assumption, by assumption⟩
  · exact fun h => .lit h.1 h.2

theorem glob_star_nil : Glob same (many :: ts) [] ↔ Glob same ts [] := by
  constructor
  · rintro ⟨⟩
    assumption
  · exact .stop

theorem glob_star_cons : Glob same (many :: ts) (y :: s) ↔ Glob same ts (y :: s) ∨ Glob same (many :: ts) s := by
  constructor
  · rintro (_ | _ | _ | h | h)
    · exact .inl h
    · exact .inr h
  · rintro (h | h)
    · exact .stop h
    · exact .skip h

/-- A star stands for what is before some rest of the string. -/
theorem glob_star_iff : Glob same (many :: ts) s ↔ ∃ t, t <:+ s ∧ Glob same ts t := by
  induction s with
  | nil =>
    rw [glob_star_nil]
    constructor
    · exact fun h => ⟨[], List.suffix_refl _, h⟩
    · rintro ⟨t, ht, h⟩
      rwa [List.suffix_nil.1 ht] at h
  | cons y s ih =>
    rw [glob_star_cons, ih]
    constructor
    · rintro (h | ⟨t, ht, h⟩)
      · exact ⟨_, List.suffix_refl _, h⟩
      · exact ⟨t, ht.trans (List.suffix_cons y s), h⟩
    · rintro ⟨t, ht, h⟩
      rcases List.suffix_cons_iff.1 ht with rfl | ht
      · exact .inl h
      · exact .inr ⟨t, ht, h⟩

theorem glob_star : Glob same [many] s := glob_star_iff.2 ⟨[], List.nil_suffix, .nil⟩

theorem Glob.append_star (h : Glob same (many :: ts) s) (u : List α) : Glob same (many :: ts) (u ++ s) := by
  obtain ⟨t, ht, h⟩ := glob_star_iff.1 h
  exact glob_star_iff.2 ⟨t, ht.trans (List.suffix_append u s), h⟩

theorem glob_star_star : Glob same (many :: many :: ts) s ↔ Glob same (many :: ts) s := by
  constructor
  · intro h
    obtain ⟨t, ⟨u, rfl⟩, hstar⟩ := glob_star_iff.1 h
    exact hstar.append_star u
  · exact .stop

theorem not_glob_star_any_nil : ¬ Glob same (many :: any :: ts) [] := by
  rw [glob_star_nil]
  exact not_glob_any_nil

theorem glob_star_any_cons : Glob same (many :: any :: ts) (y :: s) ↔ Glob same (many :: ts) s := by
  rw [glob_star_iff, glob_star_iff]
  constructor
  · rintro ⟨t, ht, h⟩
    cases t with
    | nil => exact absurd h not_glob_any_nil
    | cons z t =>
      refine ⟨t, ?_, glob_any_cons.1 h⟩
      rcases List.suffix_cons_iff.1 ht with he | ht
      · rw [(List.cons.inj he).2]
      · exact (List.suffix_cons z t).trans ht
  · rintro ⟨t, ⟨u, rfl⟩, h⟩
    rcases List.eq_nil_or_concat u with rfl | ⟨u, z, rfl⟩
    · exact ⟨y :: t, List.suffix_refl _, .any h⟩
    · exact ⟨z :: t, ⟨y :: u, by simp⟩, .any h⟩

/-! ## After a star -/

theorem not_glob_star_lit (h : ∀ z ∈ s, ¬ same x z) : ¬ Glob same (many :: lit x :: ts) s := by
  intro hglob
  obtain ⟨t, ht, hglob⟩ := glob_star_iff.1 hglob
  cases t with
  | nil => exact not_glob_lit_nil hglob
  | cons z t => exact h z (ht.subset List.mem_cons_self) (glob_lit_cons.1 hglob).1

/-- The first place for the literal, or a later one. -/
theorem glob_star_lit (hu : ∀ z ∈ u, ¬ same x z) (hy : same x y) :
    Glob same (many :: lit x :: ts) (u ++ y :: s) ↔ Glob same ts s ∨ Glob same (many :: lit x :: ts) s := by
  induction u with
  | nil => rw [List.nil_append, glob_star_cons, glob_lit_cons, and_iff_right hy]
  | cons z u ih =>
    rw [List.cons_append, glob_star_cons, glob_lit_cons, ih fun w hw => hu w (List.mem_cons_of_mem z hw)]
    exact or_iff_right fun h => hu z List.mem_cons_self h.1

/-- Tokens without a star match strings of their number. -/
theorem Glob.length_eq (h : Glob same c s) (hc : many ∉ c) : s.length = c.length := by
  induction h with
  | nil => rfl
  | any _ ih => exact congrArg Nat.succ (ih fun hmem => hc (List.mem_cons_of_mem _ hmem))
  | lit _ _ ih => exact congrArg Nat.succ (ih fun hmem => hc (List.mem_cons_of_mem _ hmem))
  | stop => exact absurd List.mem_cons_self hc
  | skip => exact absurd List.mem_cons_self hc

/-- The part of a string that such tokens match is fixed by its length. -/
theorem glob_append (hc : many ∉ c) (hv : v.length = c.length) :
    Glob same (c ++ ts) (v ++ s) ↔ Glob same c v ∧ Glob same ts s := by
  induction c generalizing v with
  | nil =>
    rw [List.length_eq_zero_iff.1 hv]
    simp
  | cons t c ih =>
    cases v with
    | nil => cases hv
    | cons z v =>
      have hc' : many ∉ c := fun h => hc (List.mem_cons_of_mem t h)
      have ih := ih hc' (Nat.succ.inj hv)
      cases t with
      | many => exact absurd List.mem_cons_self hc
      | any => simpa using ih
      | lit x => simp [ih, and_assoc]

theorem Glob.length_le (hc : many ∉ c) (h : Glob same (c ++ ts) s) : c.length ≤ s.length := by
  induction c generalizing s with
  | nil => exact Nat.zero_le _
  | cons t c ih =>
    have hc' : many ∉ c := fun h => hc (List.mem_cons_of_mem t h)
    cases s with
    | nil =>
      cases t with
      | many => exact absurd List.mem_cons_self hc
      | any => exact absurd h not_glob_any_nil
      | lit x => exact absurd h not_glob_lit_nil
    | cons z s =>
      cases t with
      | many => exact absurd List.mem_cons_self hc
      | any => exact Nat.succ_le_succ (ih hc' (glob_any_cons.1 h))
      | lit x => exact Nat.succ_le_succ (ih hc' (glob_lit_cons.1 h).2)

theorem glob_append_iff (hc : many ∉ c) :
    Glob same (c ++ ts) s ↔ ∃ v t, s = v ++ t ∧ Glob same c v ∧ Glob same ts t := by
  constructor
  · intro h
    have hv : (s.take c.length).length = c.length := List.length_take_of_le (h.length_le hc)
    rw [← List.take_append_drop c.length s] at h
    obtain ⟨hc', ht⟩ := (glob_append hc hv).1 h
    exact ⟨_, _, (List.take_append_drop c.length s).symm, hc', ht⟩
  · rintro ⟨v, t, rfl, hv, ht⟩
    exact (glob_append hc (hv.length_eq hc)).2 ⟨hv, ht⟩

/-- **The first place is as good as any**: where a chunk fits after a star, and the rest begins with a star, the rest may
start there. -/
theorem glob_star_chunk (hu : ∀ z ∈ u, ¬ same x z) (hy : same x y) (hc : many ∉ c) (hv : Glob same c v) :
    Glob same (many :: lit x :: (c ++ many :: ts)) (u ++ y :: (v ++ s)) ↔ Glob same (many :: ts) s := by
  rw [glob_star_lit hu hy, glob_append hc (hv.length_eq hc), and_iff_right hv]
  refine or_iff_left_of_imp fun hlater => ?_
  obtain ⟨t, ht, h⟩ := glob_star_iff.1 hlater
  cases t with
  | nil => exact absurd h not_glob_lit_nil
  | cons z t =>
    obtain ⟨v', w, rfl, hv', hw⟩ := (glob_append_iff hc).1 (glob_lit_cons.1 h).2
    have hlen := ht.length_le
    rw [List.length_cons, List.length_append, List.length_append, hv.length_eq hc, hv'.length_eq hc] at hlen
    have hsuffix : w <:+ v ++ s := ((List.suffix_append v' w).trans (List.suffix_cons z _)).trans ht
    obtain ⟨u', rfl⟩ := List.suffix_of_suffix_length_le hsuffix (List.suffix_append v s) (by omega)
    exact hw.append_star u'

end Rules

/-! ## Strings that are used up -/

/-- The pattern ends in a star, but for tokens of one character each. -/
def StarEnded : List (GlobToken α) → Prop
  | [] => False
  | many :: ts => (∀ t ∈ ts, t = any) ∨ StarEnded ts
  | _ :: ts => StarEnded ts

/-- The pattern matches the string and no shorter beginning of it. -/
def Shortest (same : α → α → Prop) (p : List (GlobToken α)) (s : List α) : Prop :=
  Glob same p s ∧ ∀ t, t <+: s → Glob same p t → t = s

/-- The string is used up where the pattern goes on from a star to the literal `x`, with `rest` behind it. -/
def Exhausts (same : α → α → Prop) (ts : List (GlobToken α)) (s : List α) (x : α) (rest : List (GlobToken α)) : Prop :=
  ∃ p, ts = p ++ lit x :: rest ∧ StarEnded p ∧ Shortest same p s

section Exhausts

variable {ts c p p' q r rest rest' : List (GlobToken α)} {s u v w : List α} {x y z z' : α}

theorem StarEnded.mem (h : StarEnded p) : many ∈ p := by
  induction p with
  | nil => exact h.elim
  | cons t p ih =>
    cases t with
    | many => exact List.mem_cons_self
    | any => exact List.mem_cons_of_mem any (ih h)
    | lit x => exact List.mem_cons_of_mem (lit x) (ih h)

theorem starEnded_append (hc : many ∉ c) : StarEnded (c ++ p) ↔ StarEnded p := by
  induction c with
  | nil => rfl
  | cons t c ih =>
    have ih := ih fun h => hc (List.mem_cons_of_mem t h)
    cases t with
    | many => exact absurd List.mem_cons_self hc
    | any => exact ih
    | lit x => exact ih

/-- Where the beginnings a pattern matches are those of another behind `w`, so is the shortest. -/
theorem shortest_shift (h : ∀ t, t <+: w ++ s → (Glob same p t ↔ ∃ t', t = w ++ t' ∧ Glob same p' t')) :
    Shortest same p (w ++ s) ↔ Shortest same p' s := by
  constructor
  · rintro ⟨hglob, hmin⟩
    obtain ⟨t, heq, ht⟩ := (h _ (List.prefix_refl _)).1 hglob
    refine ⟨List.append_cancel_left heq ▸ ht, fun t' hpre ht' => ?_⟩
    have hpre' := (List.prefix_append_right_inj w).2 hpre
    exact List.append_cancel_left (hmin _ hpre' ((h _ hpre').2 ⟨t', rfl, ht'⟩))
  · rintro ⟨hglob, hmin⟩
    refine ⟨(h _ (List.prefix_refl _)).2 ⟨s, rfl, hglob⟩, fun t hpre ht => ?_⟩
    obtain ⟨t', rfl, ht'⟩ := (h t hpre).1 ht
    rw [hmin t' ((List.prefix_append_right_inj w).1 hpre) ht']

theorem shortest_any_cons : Shortest same (any :: p) (y :: s) ↔ Shortest same p s := by
  refine shortest_shift (w := [y]) fun t hpre => ?_
  cases t with
  | nil => exact iff_of_false not_glob_any_nil (by simp)
  | cons z t =>
    obtain ⟨rfl, -⟩ := List.cons_prefix_cons.1 hpre
    simp

theorem shortest_lit_cons : Shortest same (lit x :: p) (y :: s) ↔ same x y ∧ Shortest same p s := by
  by_cases hy : same x y
  · rw [and_iff_right hy]
    refine shortest_shift (w := [y]) fun t hpre => ?_
    cases t with
    | nil => exact iff_of_false not_glob_lit_nil (by simp)
    | cons z t =>
      obtain ⟨rfl, -⟩ := List.cons_prefix_cons.1 hpre
      simp [hy]
  · exact iff_of_false (fun h => hy (glob_lit_cons.1 h.1).1) fun h => hy h.1

theorem shortest_congr (h : ∀ t, Glob same p t ↔ Glob same p' t) : Shortest same p s ↔ Shortest same p' s := by
  unfold Shortest
  simp only [h]

theorem shortest_star : Shortest same [many] s ↔ s = [] := by
  constructor
  · exact fun h => (h.2 [] List.nil_prefix glob_star).symm
  · rintro rfl
    exact ⟨glob_star, fun t hpre _ => List.prefix_nil.1 hpre⟩

/-! ## Token by token -/

theorem not_exhausts_nil : ¬ Exhausts same [] s z rest := by
  rintro ⟨p, heq, -, -⟩
  simp at heq

theorem exhausts_any_cons : Exhausts same (any :: ts) (y :: s) z rest ↔ Exhausts same ts s z rest := by
  constructor
  · rintro ⟨_ | ⟨t, p⟩, heq, hp, hshort⟩
    · exact hp.elim
    · obtain ⟨rfl, rfl⟩ := List.cons.inj heq
      exact ⟨p, rfl, hp, shortest_any_cons.1 hshort⟩
  · rintro ⟨p, rfl, hp, hshort⟩
    exact ⟨any :: p, rfl, hp, shortest_any_cons.2 hshort⟩

theorem exhausts_lit_cons :
    Exhausts same (lit x :: ts) (y :: s) z rest ↔ same x y ∧ Exhausts same ts s z rest := by
  constructor
  · rintro ⟨_ | ⟨t, p⟩, heq, hp, hshort⟩
    · exact hp.elim
    · obtain ⟨rfl, rfl⟩ := List.cons.inj heq
      obtain ⟨hy, hshort⟩ := shortest_lit_cons.1 hshort
      exact ⟨hy, p, rfl, hp, hshort⟩
  · rintro ⟨hy, p, rfl, hp, hshort⟩
    exact ⟨lit x :: p, rfl, hp, shortest_lit_cons.2 ⟨hy, hshort⟩⟩

theorem not_exhausts_cons_nil {t : GlobToken α} (ht : t ≠ many) : ¬ Exhausts same (t :: ts) [] z rest := by
  rintro ⟨_ | ⟨t', p⟩, heq, hp, hshort⟩
  · exact hp
  · obtain ⟨rfl, rfl⟩ := List.cons.inj heq
    cases t with
    | many => exact ht rfl
    | any => exact not_glob_any_nil hshort.1
    | lit z => exact not_glob_lit_nil hshort.1

theorem not_exhausts_star : ¬ Exhausts same [many] s z rest := by
  rintro ⟨_ | ⟨t, p⟩, heq, hp, -⟩
  · exact hp
  · simp at heq

theorem exhausts_star_star :
    Exhausts same (many :: many :: ts) s z rest ↔ Exhausts same (many :: ts) s z rest := by
  have hshort (p : List (GlobToken α)) : Shortest same (many :: many :: p) s ↔ Shortest same (many :: p) s :=
    shortest_congr fun t => glob_star_star
  constructor
  · rintro ⟨_ | ⟨t, _ | ⟨t', p⟩⟩, heq, hp, h⟩
    · exact hp.elim
    · simp at heq
    · simp only [List.cons_append, List.cons.injEq] at heq
      obtain ⟨rfl, rfl, rfl⟩ := heq
      refine ⟨many :: p, rfl, ?_, (hshort p).1 h⟩
      exact hp.resolve_left fun hall => by simpa using hall many List.mem_cons_self
  · rintro ⟨_ | ⟨t, p⟩, heq, hp, h⟩
    · exact hp.elim
    · obtain ⟨rfl, rfl⟩ := List.cons.inj heq
      exact ⟨many :: many :: p, rfl, .inr hp, (hshort p).2 h⟩

theorem exhausts_star_any_cons :
    Exhausts same (many :: any :: ts) (y :: s) z rest ↔ Exhausts same (many :: ts) s z rest := by
  have hshort (p : List (GlobToken α)) : Shortest same (many :: any :: p) (y :: s) ↔ Shortest same (many :: p) s := by
    refine shortest_shift (w := [y]) fun t hpre => ?_
    cases t with
    | nil => exact iff_of_false not_glob_star_any_nil (by simp)
    | cons z t =>
      obtain ⟨rfl, -⟩ := List.cons_prefix_cons.1 hpre
      simp [glob_star_any_cons]
  constructor
  · rintro ⟨_ | ⟨t, _ | ⟨t', p⟩⟩, heq, hp, h⟩
    · exact hp.elim
    · simp at heq
    · simp only [List.cons_append, List.cons.injEq] at heq
      obtain ⟨rfl, rfl, rfl⟩ := heq
      refine ⟨many :: p, rfl, ?_, (hshort p).1 h⟩
      exact hp.imp_left fun hall t ht => hall t (List.mem_cons_of_mem _ ht)
  · rintro ⟨_ | ⟨t, p⟩, heq, hp, h⟩
    · exact hp.elim
    · obtain ⟨rfl, rfl⟩ := List.cons.inj heq
      refine ⟨many :: any :: p, rfl, ?_, (hshort p).2 h⟩
      exact hp.imp_left fun hall => List.forall_mem_cons.2 ⟨rfl, hall⟩

theorem not_exhausts_star_any_nil : ¬ Exhausts same (many :: any :: ts) [] z rest := by
  rintro ⟨_ | ⟨t, _ | ⟨t', p⟩⟩, heq, hp, h⟩
  · exact hp
  · simp at heq
  · simp only [List.cons_append, List.cons.injEq] at heq
    obtain ⟨rfl, rfl, rfl⟩ := heq
    exact not_glob_star_any_nil h.1

theorem exhausts_star_lit_nil : Exhausts same (many :: lit x :: ts) [] x ts :=
  ⟨[many], rfl, .inl fun _ h => absurd h List.not_mem_nil, shortest_star.2 rfl⟩

/-- Past the first literal, the string is used up after a later star. -/
theorem exhausts_star_lit (hs : s ≠ []) (hc : many ∉ c) : Exhausts same (many :: lit x :: (c ++ r)) s z rest ↔
    ∃ p, r = p ++ lit z :: rest ∧ StarEnded p ∧ Shortest same (many :: lit x :: (c ++ p)) s := by
  constructor
  · rintro ⟨_ | ⟨t, _ | ⟨t', p⟩⟩, heq, hp, h⟩
    · exact hp.elim
    · obtain ⟨rfl, -⟩ := List.cons.inj heq
      exact absurd (shortest_star.1 h) hs
    · simp only [List.cons_append, List.cons.injEq] at heq
      obtain ⟨rfl, rfl, heq⟩ := heq
      have hp : StarEnded p := hp.resolve_left fun hall => by simpa using hall (lit x) List.mem_cons_self
      rcases List.append_eq_append_iff.1 heq with ⟨q, rfl, hr⟩ | ⟨q, rfl, -⟩
      · exact ⟨q, hr, (starEnded_append hc).1 hp, h⟩
      · exact absurd (List.mem_append_left q hp.mem) hc
  · rintro ⟨p, rfl, hp, h⟩
    refine ⟨many :: lit x :: (c ++ p), by simp, .inr ?_, h⟩
    exact (starEnded_append hc).2 hp

/-- The literal is not in the string. -/
theorem not_exhausts_star_lit (hs : s ≠ []) (h : ∀ z ∈ s, ¬ same x z) :
    ¬ Exhausts same (many :: lit x :: ts) s z rest := by
  intro hex
  obtain ⟨p, -, -, hshort⟩ := (exhausts_star_lit (c := []) hs List.not_mem_nil).1 hex
  exact not_glob_star_lit h hshort.1

/-- No star is left. -/
theorem not_exhausts_starless (hs : s ≠ []) (hc : many ∉ c) : ¬ Exhausts same (many :: lit x :: c) s z rest := by
  rw [← List.append_nil c, exhausts_star_lit hs hc]
  rintro ⟨p, heq, -, -⟩
  simp at heq

theorem prefix_cases {t : List α} (h : t <+: w ++ s) : (∃ t', t = w ++ t' ∧ t' <+: s) ∨ t.length < w.length ∧ t <+: w := by
  by_cases hlen : w.length ≤ t.length
  · obtain ⟨t', rfl⟩ := List.prefix_of_prefix_length_le (List.prefix_append w s) h hlen
    exact .inl ⟨t', rfl, (List.prefix_append_right_inj w).1 h⟩
  · exact .inr ⟨by omega, List.prefix_of_prefix_length_le h (List.prefix_append w s) (by omega)⟩

/-- The rest of the string is used up by the rest of the pattern, after the first place of a chunk. -/
theorem exhausts_star_chunk (hu : ∀ z ∈ u, ¬ same x z) (hy : same x y) (hc : many ∉ c) (hv : Glob same c v) :
    Exhausts same (many :: lit x :: (c ++ many :: ts)) (u ++ y :: (v ++ s)) z rest ↔
      Exhausts same (many :: ts) s z rest := by
  rw [exhausts_star_lit (by simp) hc]
  have hshort (p : List (GlobToken α)) : Shortest same (many :: lit x :: (c ++ many :: p)) (u ++ y :: (v ++ s)) ↔
      Shortest same (many :: p) s := by
    have hassoc : u ++ y :: (v ++ s) = (u ++ y :: v) ++ s := by simp
    rw [hassoc]
    refine shortest_shift fun t hpre => ?_
    rcases prefix_cases hpre with ⟨t', rfl, -⟩ | ⟨hlen, hpre⟩
    · have hassoc' : (u ++ y :: v) ++ t' = u ++ y :: (v ++ t') := by simp
      rw [hassoc', glob_star_chunk hu hy hc hv]
      exact ⟨fun h => ⟨t', hassoc'.symm, h⟩, fun ⟨t'', heq, h⟩ => by
        obtain rfl : t' = t'' := by simpa using heq
        exact h⟩
    · -- an earlier place for the chunk begins with an earlier literal
      refine iff_of_false (fun hglob => ?_) ?_
      · obtain ⟨t₁, ⟨u', rfl⟩, hlit⟩ := glob_star_iff.1 hglob
        cases t₁ with
        | nil => exact not_glob_lit_nil hlit
        | cons z t₁ =>
          obtain ⟨hz, hrest⟩ := glob_lit_cons.1 hlit
          have hlong := hrest.length_le hc
          have hvlen := hv.length_eq hc
          simp only [List.length_append, List.length_cons] at hlen
          have hin : u' ++ [z] <+: u := by
            have hleft : u' ++ [z] <+: u ++ y :: v :=
              (List.prefix_append (u' ++ [z]) t₁).trans (by simpa using hpre)
            refine List.prefix_of_prefix_length_le hleft (List.prefix_append _ _) ?_
            rw [List.length_append, List.length_singleton]
            omega
          exact hu z (hin.subset (by simp)) hz
      · rintro ⟨t', rfl, -⟩
        rw [List.length_append] at hlen
        omega
  constructor
  · rintro ⟨_ | ⟨t, p⟩, heq, hp, h⟩
    · exact hp.elim
    · obtain ⟨rfl, rfl⟩ := List.cons.inj heq
      exact ⟨many :: p, rfl, hp, (hshort p).1 h⟩
  · rintro ⟨_ | ⟨t, p⟩, heq, hp, h⟩
    · exact hp.elim
    · obtain ⟨rfl, rfl⟩ := List.cons.inj heq
      exact ⟨many :: p, rfl, hp, (hshort p).2 h⟩

/-- Where a chunk does not fit at the first place, the search goes on behind it. -/
theorem exhausts_star_retry (hu : ∀ z ∈ u, ¬ same x z) (hy : same x y) (hc : many ∉ c) (hs : s ≠ [])
    (hno : ∀ v, v <+: s → Glob same c v → r = []) :
    Exhausts same (many :: lit x :: (c ++ r)) (u ++ y :: s) z rest ↔
      Exhausts same (many :: lit x :: (c ++ r)) s z rest := by
  rw [exhausts_star_lit (by simp) hc, exhausts_star_lit hs hc]
  refine exists_congr fun p => and_congr_right fun heq => and_congr_right fun _ => ?_
  have hr : r ≠ [] := by
    rw [heq]
    simp
  have hassoc : u ++ y :: s = (u ++ [y]) ++ s := by simp
  rw [hassoc]
  refine shortest_shift fun t hpre => ?_
  rcases prefix_cases hpre with ⟨t', rfl, hpre'⟩ | ⟨hlen, hpre⟩
  · have hassoc' : (u ++ [y]) ++ t' = u ++ y :: t' := by simp
    rw [hassoc', glob_star_lit hu hy]
    have hmiss : ¬ Glob same (c ++ p) t' := by
      intro h
      obtain ⟨v, w, rfl, hv, -⟩ := (glob_append_iff hc).1 h
      exact hr (hno v ((List.prefix_append v w).trans hpre') hv)
    rw [or_iff_right hmiss]
    exact ⟨fun h => ⟨t', hassoc'.symm, h⟩, fun ⟨t'', heq', h⟩ => by
      obtain rfl : t' = t'' := by simpa using heq'
      exact h⟩
  · refine iff_of_false (not_glob_star_lit fun z hz => ?_) ?_
    · rw [List.length_append, List.length_singleton] at hlen
      have hleft : t <+: u := List.prefix_of_prefix_length_le hpre (List.prefix_append u [y]) (by omega)
      exact hu z (hleft.subset hz)
    · rintro ⟨t', rfl, -⟩
      have hle := (List.prefix_append (u ++ [y]) t').length_le
      omega

/-- The string is too short for a chunk. -/
theorem not_glob_star_short (hu : ∀ z ∈ u, ¬ same x z) (hy : same x y) (hc : many ∉ c) (hs : s.length < c.length) :
    ¬ Glob same (many :: lit x :: (c ++ r)) (u ++ y :: s) := by
  rw [glob_star_lit hu hy]
  rintro (h | h)
  · exact absurd (h.length_le hc) (by omega)
  · obtain ⟨t, ht, h⟩ := glob_star_iff.1 h
    cases t with
    | nil => exact not_glob_lit_nil h
    | cons z t =>
      have hlen := ht.length_le
      have hlong := (glob_lit_cons.1 h).2.length_le hc
      rw [List.length_cons] at hlen
      omega

theorem not_exhausts_star_short (hu : ∀ z ∈ u, ¬ same x z) (hy : same x y) (hc : many ∉ c) (hs : s.length < c.length) :
    ¬ Exhausts same (many :: lit x :: (c ++ r)) (u ++ y :: s) z rest := by
  rw [exhausts_star_lit (by simp) hc]
  rintro ⟨p, -, -, h⟩
  exact not_glob_star_short hu hy hc hs h.1

theorem Glob.split (h : Glob same (p ++ q) s) : ∃ v t, s = v ++ t ∧ Glob same p v ∧ Glob same q t := by
  induction p generalizing s with
  | nil => exact ⟨[], s, rfl, .nil, h⟩
  | cons t p ih =>
    cases t with
    | many =>
      obtain ⟨_, ⟨u, rfl⟩, hrest⟩ := glob_star_iff.1 h
      obtain ⟨v, t, rfl, hv, ht⟩ := ih hrest
      exact ⟨u ++ v, t, by simp, (Glob.stop hv).append_star u, ht⟩
    | any =>
      cases s with
      | nil => exact absurd h not_glob_any_nil
      | cons y s =>
        obtain ⟨v, t, rfl, hv, ht⟩ := ih (glob_any_cons.1 h)
        exact ⟨y :: v, t, rfl, .any hv, ht⟩
    | lit x =>
      cases s with
      | nil => exact absurd h not_glob_lit_nil
      | cons y s =>
        obtain ⟨hy, h⟩ := glob_lit_cons.1 h
        obtain ⟨v, t, rfl, hv, ht⟩ := ih h
        exact ⟨y :: v, t, rfl, .lit hy hv, ht⟩

/-- A string that is used up by a part of the pattern has nothing for a literal behind it. -/
theorem Shortest.not_glob (h : Shortest same p s) : ¬ Glob same (p ++ lit x :: q) s := by
  intro hglob
  obtain ⟨v, t, rfl, hv, ht⟩ := hglob.split
  have hnil : t = [] := by simpa using h.2 v (List.prefix_append v t) hv
  rw [hnil] at ht
  exact not_glob_lit_nil ht

theorem Exhausts.not_glob (h : Exhausts same ts s z rest) : ¬ Glob same ts s := by
  obtain ⟨p, rfl, -, hshort⟩ := h
  exact hshort.not_glob

/-- There is one place where a string is used up. -/
theorem Exhausts.unique (h : Exhausts same ts s z rest) (h' : Exhausts same ts s z' rest') : z = z' ∧ rest = rest' := by
  obtain ⟨p, rfl, -, hshort⟩ := h
  obtain ⟨p', heq, -, hshort'⟩ := h'
  rcases List.append_eq_append_iff.1 heq with ⟨_ | ⟨t, q⟩, rfl, hq⟩ | ⟨_ | ⟨t, q⟩, rfl, hq⟩
  · simpa using hq
  · obtain ⟨rfl, -⟩ := List.cons.inj hq
    exact absurd hshort'.1 hshort.not_glob
  · simpa [eq_comm] using hq
  · obtain ⟨rfl, -⟩ := List.cons.inj hq
    exact absurd hshort.1 hshort'.not_glob

end Exhausts

end Lib
