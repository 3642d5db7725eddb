import Mathlib.Data.List.Basic
import Mathlib.Data.List.Nodup

/-!
# Doubly linked lists

`Links α` is a heap of `next` and `prev` pointers with the pointers to both ends.  A list is written as a part of it:

* `Links.Segment k p l n` — the nodes `l` are linked in both directions, `p` stands before them and `n` after.
* `Links.Holds k l` — `l` is the whole list from `first` to `last`.

Principal results: `Holds.insert`, `Holds.unlink` and `Holds.splice` — what the pointer assignments do to the list;
`walkPrev_spec`, `walkNext_spec`, `lastPassed_spec` — where a walk stops; `Holds.inverse` — `prev` and `next` are
inverse.
-/

set_option autoImplicit false

namespace Lib

structure Links (α : Type) where
  first : Option α
  last : Option α
  next : α → Option α
  prev : α → Option α

namespace Links

variable {α : Type}

def empty : Links α := ⟨none, none, fun _ => none, fun _ => none⟩

/-- Consecutive nodes, with the pointers out of both ends. -/
def Segment (k : Links α) : Option α → List α → Option α → Prop
  | _, [], _ => True
  | p, a :: l, n => k.prev a = p ∧ k.next a = l.head?.or n ∧ Segment k (some a) l n

structure Holds (k : Links α) (l : List α) : Prop where
  nodup : l.Nodup
  first : k.first = l.head?
  last : k.last = l.getLast?
  linked : k.Segment none l none

section Walks

/-- `while (pos && p (pos)) pos = pos->prev`. -/
def walkPrev (k : Links α) (p : α → Bool) : Nat → Option α → Option α
  | 0, pos => pos
  | _ + 1, none => none
  | fuel + 1, some x => if p x then walkPrev k p fuel (k.prev x) else some x

/-- `while (pos && p (pos)) pos = pos->next`. -/
def walkNext (k : Links α) (p : α → Bool) : Nat → Option α → Option α
  | 0, pos => pos
  | _ + 1, none => none
  | fuel + 1, some x => if p x then walkNext k p fuel (k.next x) else some x

/-- `while (pos && p (pos)) { last = pos; pos = pos->next; }`. -/
def lastPassed (k : Links α) (p : α → Bool) : Nat → Option α → Option α → Option α
  | 0, last, _ => last
  | _ + 1, last, none => last
  | fuel + 1, last, some x => if p x then lastPassed k p fuel (some x) (k.next x) else last

/-- The nodes from `pos` on. -/
def toList (k : Links α) : Nat → Option α → List α
  | 0, _ => []
  | _ + 1, none => []
  | fuel + 1, some x => x :: toList k fuel (k.next x)

/-- `pos ? pos->next : first`. -/
def nextAfter (k : Links α) : Option α → Option α
  | some x => k.next x
  | none => k.first

/-- `pos ? pos->prev : last`. -/
def prevBefore (k : Links α) : Option α → Option α
  | some x => k.prev x
  | none => k.last

end Walks

section Assignments

variable [DecidableEq α]

/-- A node that is not linked yet. -/
def alloc (k : Links α) (a : α) : Links α :=
  { k with
    next := fun x => if x = a then none else k.next x
    prev := fun x => if x = a then none else k.prev x }

/-- Link `a` between `p` and `n`. -/
def insert (k : Links α) (a : α) (p n : Option α) : Links α where
  first := if p = none then some a else k.first
  last := if n = none then some a else k.last
  next := fun x => if x = a then n else if p = some x then some a else k.next x
  prev := fun x => if x = a then p else if n = some x then some a else k.prev x

/-- Take `a` out, between the nodes its own pointers name. -/
def unlink (k : Links α) (a : α) : Links α where
  first := if k.prev a = none then k.next a else k.first
  last := if k.next a = none then k.prev a else k.last
  next := fun x => if k.prev a = some x then k.next a else k.next x
  prev := fun x => if k.next a = some x then k.prev a else k.prev x

/-- Take the first node out. -/
def unlinkFirst (k : Links α) (a : α) : Links α :=
  { k with
    first := k.next a
    last := if k.next a = none then none else k.last
    prev := fun x => if k.next a = some x then none else k.prev x }

/-- Take the last node out. -/
def unlinkLast (k : Links α) (a : α) : Links α :=
  { k with
    first := if k.prev a = none then none else k.first
    last := k.prev a
    next := fun x => if k.prev a = some x then none else k.next x }

/-- Put `a` behind the end of a chain that is not linked to the list yet. -/
def chain (k : Links α) (chainLast : Option α) (a : α) : Links α :=
  { k with
    next := fun x => if x = a then none else if chainLast = some x then some a else k.next x
    prev := fun x => if x = a then chainLast else k.prev x }

/-- Splice a chain into the list behind `after`, or at its front. -/
def splice (k : Links α) (after : Option α) (chainFirst chainLast : α) : Links α :=
  let n := k.nextAfter after
  { first := if after = none then some chainFirst else k.first
    last := if n = none then some chainLast else k.last
    next := fun x => if x = chainLast then n else if after = some x then some chainFirst else k.next x
    prev := fun x => if x = chainFirst then after else if n = some x then some chainLast else k.prev x }

end Assignments

/-! ## Segments -/

section Segments

variable {k k' : Links α} {p n : Option α} {l l₁ l₂ : List α}

theorem segment_append : k.Segment p (l₁ ++ l₂) n ↔
    k.Segment p l₁ (l₂.head?.or n) ∧ k.Segment (l₁.getLast?.or p) l₂ n := by
  induction l₁ generalizing p with
  | nil => exact ⟨fun h => ⟨trivial, h⟩, fun h => h.2⟩
  | cons a l₁ ih =>
    have hlast : (a :: l₁).getLast?.or p = l₁.getLast?.or (some a) := by
      rw [List.getLast?_cons]
      cases l₁.getLast? <;> rfl
    simp only [List.cons_append, Segment, List.head?_append, Option.or_assoc, ih, hlast, and_assoc]

theorem Segment.congr (h : k.Segment p l n) (hnext : ∀ x ∈ l, k'.next x = k.next x)
    (hprev : ∀ x ∈ l, k'.prev x = k.prev x) : k'.Segment p l n := by
  induction l generalizing p with
  | nil => trivial
  | cons a l ih =>
    obtain ⟨hp, hn, hrest⟩ := h
    obtain ⟨hna, hnl⟩ := List.forall_mem_cons.mp hnext
    obtain ⟨hpa, hpl⟩ := List.forall_mem_cons.mp hprev
    exact ⟨hpa.trans hp, hna.trans hn, ih hrest hnl hpl⟩

/-- Only the pointer out of the end changes. -/
theorem Segment.setNext {n' : Option α} (h : k.Segment p l n) (hnodup : l.Nodup)
    (hnext : ∀ x ∈ l, l.getLast? ≠ some x → k'.next x = k.next x)
    (hend : ∀ x, l.getLast? = some x → k'.next x = n')
    (hprev : ∀ x ∈ l, k'.prev x = k.prev x) : k'.Segment p l n' := by
  induction l generalizing p with
  | nil => trivial
  | cons a l ih =>
    obtain ⟨hp, hn, hrest⟩ := h
    obtain ⟨hpa, hpl⟩ := List.forall_mem_cons.mp hprev
    obtain ⟨hnotin, hnodup⟩ := List.nodup_cons.mp hnodup
    cases l with
    | nil => exact ⟨hpa.trans hp, hend a rfl, trivial⟩
    | cons b l =>
      have hlast : (a :: b :: l).getLast? = (b :: l).getLast? := List.getLast?_cons_cons
      have hne : (b :: l).getLast? ≠ some a := fun h => hnotin (List.mem_of_getLast? h)
      refine ⟨hpa.trans hp, ?_, ih hrest hnodup ?_ ?_ hpl⟩
      · rw [hnext a List.mem_cons_self (hlast ▸ hne), hn]
        rfl
      · exact fun x hx hx' => hnext x (List.mem_cons_of_mem _ hx) (hlast ▸ hx')
      · exact fun x hx => hend x (hlast ▸ hx)

/-- Only the pointer out of the front changes. -/
theorem Segment.setPrev {p' : Option α} (h : k.Segment p l n) (hnodup : l.Nodup)
    (hnext : ∀ x ∈ l, k'.next x = k.next x)
    (hprev : ∀ x ∈ l, l.head? ≠ some x → k'.prev x = k.prev x)
    (hfront : ∀ x, l.head? = some x → k'.prev x = p') : k'.Segment p' l n := by
  cases l with
  | nil => trivial
  | cons a l =>
    obtain ⟨hp, hn, hrest⟩ := h
    obtain ⟨hna, hnl⟩ := List.forall_mem_cons.mp hnext
    obtain ⟨hnotin, -⟩ := List.nodup_cons.mp hnodup
    refine ⟨hfront a rfl, hna.trans hn, hrest.congr hnl fun x hx => ?_⟩
    refine hprev x (List.mem_cons_of_mem _ hx) fun h => hnotin ?_
    rw [Option.some.inj h]
    exact hx

end Segments

/-! ## The list -/

section Lists

variable {k k' : Links α} {l pre post : List α}

theorem holds_empty : (empty : Links α).Holds [] := ⟨List.nodup_nil, rfl, rfl, trivial⟩

theorem Holds.split (h : k.Holds (pre ++ post)) :
    k.Segment none pre post.head? ∧ k.Segment pre.getLast? post none := by
  have hlinked := segment_append.mp h.linked
  rwa [Option.or_none, Option.or_none] at hlinked

/-- The neighbours of a node. -/
theorem Holds.neighbours {a : α} (h : k.Holds (pre ++ a :: post)) :
    k.prev a = pre.getLast? ∧ k.next a = post.head? := by
  obtain ⟨hp, hn, -⟩ := h.split.2
  exact ⟨hp, by rw [hn, Option.or_none]⟩

/-- What stands behind a place of the list. -/
theorem Holds.after (h : k.Holds (pre ++ post)) : k.nextAfter pre.getLast? = post.head? := by
  rcases List.eq_nil_or_concat pre with rfl | ⟨pre, x, rfl⟩
  · exact h.first
  · rw [List.concat_eq_append, List.append_assoc] at h
    rw [List.concat_eq_append, List.getLast?_concat]
    exact h.neighbours.2

/-- What stands before a place of the list. -/
theorem Holds.before (h : k.Holds (pre ++ post)) : k.prevBefore post.head? = pre.getLast? := by
  cases post with
  | nil =>
    rw [List.append_nil] at h
    exact h.last
  | cons x post => exact h.neighbours.1

theorem Holds.adjacent {a b : α} (h : k.Holds (pre ++ a :: b :: post)) : k.next a = some b ∧ k.prev b = some a := by
  refine ⟨h.neighbours.2, ?_⟩
  rw [List.append_cons] at h
  rw [h.neighbours.1, List.getLast?_concat]

/-- **`prev` and `next` are inverse** on the list. -/
theorem Holds.inverse {a b : α} (h : k.Holds l) (ha : a ∈ l) (hb : b ∈ l) :
    k.next a = some b ↔ k.prev b = some a := by
  constructor
  · intro hnext
    obtain ⟨pre, post, rfl⟩ := List.append_of_mem ha
    rw [h.neighbours.2] at hnext
    obtain ⟨post, rfl⟩ := List.head?_eq_some_iff.mp hnext
    exact h.adjacent.2
  · intro hprev
    obtain ⟨pre, post, rfl⟩ := List.append_of_mem hb
    rw [h.neighbours.1] at hprev
    obtain ⟨pre, rfl⟩ := List.getLast?_eq_some_iff.mp hprev
    rw [List.append_assoc] at h
    exact h.adjacent.1

theorem Holds.toList {fuel : Nat} (h : k.Holds (pre ++ post)) (hfuel : post.length ≤ fuel) :
    k.toList fuel post.head? = post := by
  induction fuel generalizing pre post with
  | zero =>
    rw [List.eq_nil_of_length_eq_zero (Nat.le_zero.mp hfuel)]
    rfl
  | succ fuel ih =>
    cases post with
    | nil => rfl
    | cons x post =>
      rw [List.length_cons] at hfuel
      rw [List.head?_cons, Links.toList, h.neighbours.2]
      rw [List.append_cons] at h
      rw [ih h (by omega)]

theorem Holds.congr (h : k.Holds l) (hfirst : k'.first = k.first) (hlast : k'.last = k.last)
    (hnext : ∀ x ∈ l, k'.next x = k.next x) (hprev : ∀ x ∈ l, k'.prev x = k.prev x) : k'.Holds l :=
  ⟨h.nodup, hfirst.trans h.first, hlast.trans h.last, h.linked.congr hnext hprev⟩

/-- Nodes of a list without repetition are on one side of a place only. -/
theorem Holds.disjoint (h : k.Holds (pre ++ post)) {x : α} (hpre : x ∈ pre) : x ∉ post := fun hpost =>
  (List.nodup_append.mp h.nodup).2.2 x hpre x hpost rfl

section Edits

variable [DecidableEq α]

theorem Holds.alloc {a : α} (h : k.Holds l) (ha : a ∉ l) : (k.alloc a).Holds l := by
  have hne : ∀ x ∈ l, x ≠ a := fun x hx he => ha (he ▸ hx)
  exact h.congr rfl rfl (fun x hx => if_neg (hne x hx)) fun x hx => if_neg (hne x hx)

theorem Holds.insert {a : α} (h : k.Holds (pre ++ post)) (ha : a ∉ pre ++ post) :
    (k.insert a pre.getLast? post.head?).Holds (pre ++ a :: post) := by
  obtain ⟨hpre, hpost⟩ := h.split
  have hne : ∀ x ∈ pre ++ post, x ≠ a := fun x hx he => ha (he ▸ hx)
  obtain ⟨hndpre, hndpost, -⟩ := List.nodup_append.mp h.nodup
  have hnodup : (pre ++ a :: post).Nodup := by
    rw [List.nodup_middle]
    exact List.nodup_cons.mpr ⟨ha, h.nodup⟩
  refine ⟨hnodup, ?_, ?_, ?_⟩
  · show (if pre.getLast? = none then some a else k.first) = (pre ++ a :: post).head?
    cases pre with
    | nil => rfl
    | cons x pre => rw [if_neg (by simp), h.first]; rfl
  · show (if post.head? = none then some a else k.last) = (pre ++ a :: post).getLast?
    cases post with
    | nil => rw [List.getLast?_concat]; rfl
    | cons x post => rw [if_neg (by simp), h.last, List.getLast?_append_cons, List.getLast?_append_cons,
        List.getLast?_cons_cons]
  · refine segment_append.mpr ⟨?_, ?_, ?_, ?_⟩
    · refine hpre.setNext hndpre ?_ ?_ ?_
      · intro x hx hlast
        exact (if_neg (hne x (List.mem_append_left _ hx))).trans (if_neg hlast)
      · intro x hlast
        exact (if_neg (hne x (List.mem_append_left _ (List.mem_of_getLast? hlast)))).trans (if_pos hlast)
      · intro x hx
        refine (if_neg (hne x (List.mem_append_left _ hx))).trans (if_neg fun hhead => ?_)
        exact h.disjoint hx (List.mem_of_head? hhead)
    · rw [Option.or_none]
      exact if_pos rfl
    · rw [Option.or_none]
      exact if_pos rfl
    · refine hpost.setPrev hndpost ?_ ?_ ?_
      · intro x hx
        refine (if_neg (hne x (List.mem_append_right _ hx))).trans (if_neg fun hlast => ?_)
        exact h.disjoint (List.mem_of_getLast? hlast) hx
      · intro x hx hhead
        exact (if_neg (hne x (List.mem_append_right _ hx))).trans (if_neg hhead)
      · intro x hhead
        exact (if_neg (hne x (List.mem_append_right _ (List.mem_of_head? hhead)))).trans (if_pos hhead)

theorem Holds.unlink {a : α} (h : k.Holds (pre ++ a :: post)) : (k.unlink a).Holds (pre ++ post) := by
  obtain ⟨hp, hn⟩ := h.neighbours
  obtain ⟨hpre, -, -, hpost⟩ := h.split
  have hnd := h.nodup
  rw [List.nodup_middle, List.nodup_cons] at hnd
  obtain ⟨ha, hnodup⟩ := hnd
  obtain ⟨hndpre, hndpost, hdisj⟩ := List.nodup_append.mp hnodup
  refine ⟨hnodup, ?_, ?_, ?_⟩
  · show (if k.prev a = none then k.next a else k.first) = (pre ++ post).head?
    rw [hp, hn]
    cases pre with
    | nil => rfl
    | cons x pre => rw [if_neg (by simp), h.first]; rfl
  · show (if k.next a = none then k.prev a else k.last) = (pre ++ post).getLast?
    rw [hp, hn]
    cases post with
    | nil => rw [List.append_nil]; rfl
    | cons x post => rw [if_neg (by simp), h.last, List.getLast?_append_cons, List.getLast?_append_cons,
        List.getLast?_cons_cons]
  · refine segment_append.mpr ⟨?_, ?_⟩
    · rw [Option.or_none]
      refine hpre.setNext hndpre ?_ ?_ ?_
      · exact fun x hx hlast => if_neg (hp ▸ hlast)
      · exact fun x hlast => (if_pos (hp ▸ hlast)).trans hn
      · intro x hx
        refine if_neg fun hhead => ?_
        rw [hn] at hhead
        exact hdisj x hx x (List.mem_of_head? hhead) rfl
    · rw [Option.or_none]
      refine hpost.setPrev hndpost ?_ ?_ ?_
      · intro x hx
        refine if_neg fun hlast => ?_
        rw [hp] at hlast
        exact hdisj x (List.mem_of_getLast? hlast) x hx rfl
      · exact fun x hx hhead => if_neg (hn ▸ hhead)
      · exact fun x hhead => (if_pos (hn ▸ hhead)).trans hp

theorem Holds.unlinkFirst {a : α} (h : k.Holds (a :: post)) : (k.unlinkFirst a).Holds post := by
  have h : k.Holds ([] ++ a :: post) := h
  have hp := h.neighbours.1
  have heq : k.unlinkFirst a = k.unlink a := by
    simp only [Links.unlinkFirst, Links.unlink, hp, List.getLast?_nil, if_true, reduceCtorEq, if_false]
  rw [heq]
  exact h.unlink

theorem Holds.unlinkLast {a : α} (h : k.Holds (pre ++ [a])) : (k.unlinkLast a).Holds pre := by
  have hn := h.neighbours.2
  have heq : k.unlinkLast a = k.unlink a := by
    simp only [Links.unlinkLast, Links.unlink, hn, List.head?_nil, if_true, reduceCtorEq, if_false]
  rw [heq]
  have hunlink := h.unlink
  rwa [List.append_nil] at hunlink

/-! ## Chains -/

theorem Segment.alloc {c : List α} {a : α} {p n : Option α} (h : k.Segment p c n) (ha : a ∉ c) :
    (k.alloc a).Segment p c n := by
  have hne : ∀ x ∈ c, x ≠ a := fun x hx he => ha (he ▸ hx)
  exact h.congr (fun x hx => if_neg (hne x hx)) fun x hx => if_neg (hne x hx)

theorem Segment.chain {c : List α} {a : α} (h : k.Segment none c none) (hnodup : c.Nodup) (ha : a ∉ c) :
    (k.chain c.getLast? a).Segment none (c ++ [a]) none := by
  have hne : ∀ x ∈ c, x ≠ a := fun x hx he => ha (he ▸ hx)
  refine segment_append.mpr ⟨?_, ?_, if_pos rfl, trivial⟩
  · refine h.setNext hnodup ?_ ?_ ?_
    · exact fun x hx hlast => (if_neg (hne x hx)).trans (if_neg hlast)
    · exact fun x hlast => (if_neg (hne x (List.mem_of_getLast? hlast))).trans (if_pos hlast)
    · exact fun x hx => if_neg (hne x hx)
  · rw [Option.or_none]
    exact if_pos rfl

theorem Holds.chain {c : List α} {a : α} (h : k.Holds l) (ha : a ∉ l) (hc : ∀ x ∈ c, x ∉ l) :
    (k.chain c.getLast? a).Holds l := by
  have hne : ∀ x ∈ l, x ≠ a := fun x hx he => ha (he ▸ hx)
  refine h.congr rfl rfl (fun x hx => ?_) fun x hx => if_neg (hne x hx)
  refine (if_neg (hne x hx)).trans (if_neg fun hlast => ?_)
  exact hc x (List.mem_of_getLast? hlast) hx

theorem Holds.splice {c : List α} {cf cl : α} (h : k.Holds (pre ++ post)) (hc : k.Segment none c none)
    (hnodup : c.Nodup) (hapart : ∀ x ∈ c, x ∉ pre ++ post) (hcf : c.head? = some cf) (hcl : c.getLast? = some cl) :
    (k.splice pre.getLast? cf cl).Holds (pre ++ (c ++ post)) := by
  obtain ⟨hpre, hpost⟩ := h.split
  obtain ⟨hndpre, hndpost, hdisj⟩ := List.nodup_append.mp h.nodup
  have hcfin := List.mem_of_head? hcf
  have hclin := List.mem_of_getLast? hcl
  have hapre : ∀ x ∈ pre, x ∉ c := fun x hx hxc => hapart x hxc (List.mem_append_left _ hx)
  have hapost : ∀ x ∈ post, x ∉ c := fun x hx hxc => hapart x hxc (List.mem_append_right _ hx)
  have hnepre : ∀ x ∈ pre, x ≠ cf ∧ x ≠ cl := fun x hx =>
    ⟨fun he => hapre x hx (he ▸ hcfin), fun he => hapre x hx (he ▸ hclin)⟩
  have hnepost : ∀ x ∈ post, x ≠ cf ∧ x ≠ cl := fun x hx =>
    ⟨fun he => hapost x hx (he ▸ hcfin), fun he => hapost x hx (he ▸ hclin)⟩
  have hafter := h.after
  simp only [Links.splice, hafter]
  refine ⟨?_, ?_, ?_, segment_append.mpr ⟨?_, segment_append.mpr ⟨?_, ?_⟩⟩⟩
  · refine List.nodup_append.mpr ⟨hndpre, List.nodup_append.mpr ⟨hnodup, hndpost, ?_⟩, ?_⟩
    · exact fun x hx y hy he => hapost y hy (he ▸ hx)
    · intro x hx y hy he
      obtain hy | hy := List.mem_append.mp hy
      · exact hapre x hx (he ▸ hy)
      · exact hdisj x hx y hy he
  · cases pre with
    | nil =>
      rw [if_pos List.getLast?_nil, List.nil_append, List.head?_append, hcf]
      rfl
    | cons x pre =>
      rw [if_neg (by simp), h.first]
      rfl
  · cases post with
    | nil =>
      rw [if_pos List.head?_nil, List.append_nil, List.getLast?_append, hcl]
      rfl
    | cons x post =>
      have hne : (x :: post).head? ≠ none := by simp
      rw [if_neg hne, h.last, List.getLast?_append_cons, ← List.append_assoc, List.getLast?_append_cons]
  · rw [List.head?_append, hcf]
    refine hpre.setNext hndpre ?_ ?_ ?_
    · exact fun x hx hlast => (if_neg (hnepre x hx).2).trans (if_neg hlast)
    · exact fun x hlast => (if_neg (hnepre x (List.mem_of_getLast? hlast)).2).trans (if_pos hlast)
    · intro x hx
      refine (if_neg (hnepre x hx).1).trans (if_neg fun hhead => ?_)
      exact hdisj x hx x (List.mem_of_head? hhead) rfl
  · -- Inside the chain only the pointers out of its two ends change.
    rw [Option.or_none, Option.or_none]
    have hnextc : ∀ x ∈ c, x ≠ cl → (if x = cl then post.head? else if pre.getLast? = some x then some cf
        else k.next x) = k.next x := by
      intro x hx hne
      refine (if_neg hne).trans (if_neg fun hlast => ?_)
      exact hapre x (List.mem_of_getLast? hlast) hx
    have hprevc : ∀ x ∈ c, x ≠ cf → (if x = cf then pre.getLast? else if post.head? = some x then some cl
        else k.prev x) = k.prev x := by
      intro x hx hne
      refine (if_neg hne).trans (if_neg fun hhead => ?_)
      exact hapost x (List.mem_of_head? hhead) hx
    have hnext : Segment (α := α)
        { k with next := fun x => if x = cl then post.head? else if pre.getLast? = some x then some cf else k.next x }
        none c post.head? := by
      refine hc.setNext hnodup ?_ ?_ fun _ _ => rfl
      · exact fun x hx hlast => hnextc x hx fun he => hlast (he ▸ hcl)
      · intro x hlast
        exact if_pos (Option.some.inj (hlast.symm.trans hcl))
    refine hnext.setPrev hnodup (fun _ _ => rfl) ?_ ?_
    · exact fun x hx hhead => hprevc x hx fun he => hhead (he ▸ hcf)
    · intro x hhead
      exact if_pos (Option.some.inj (hhead.symm.trans hcf))
  · rw [hcl]
    refine hpost.setPrev hndpost ?_ ?_ ?_
    · intro x hx
      refine (if_neg (hnepost x hx).2).trans (if_neg fun hlast => ?_)
      exact hdisj x (List.mem_of_getLast? hlast) x hx rfl
    · exact fun x hx hhead => (if_neg (hnepost x hx).1).trans (if_neg hhead)
    · exact fun x hhead => (if_neg (hnepost x (List.mem_of_head? hhead)).1).trans (if_pos hhead)

end Edits

/-! ## Walks -/

/-- Backward from a place: what was passed meets the condition, what the walk stops at does not. -/
theorem walkPrev_spec {p : α → Bool} {fuel : Nat} (h : k.Holds (pre ++ post)) (hfuel : pre.length ≤ fuel) :
    ∃ l₁ l₂, pre = l₁ ++ l₂ ∧ k.walkPrev p fuel pre.getLast? = l₁.getLast? ∧ (∀ x ∈ l₂, p x = true) ∧
      ∀ x, l₁.getLast? = some x → p x = false := by
  induction fuel generalizing pre post with
  | zero =>
    obtain rfl := List.eq_nil_of_length_eq_zero (Nat.le_zero.mp hfuel)
    exact ⟨[], [], rfl, rfl, fun _ hx => absurd hx List.not_mem_nil, fun _ hx => by cases hx⟩
  | succ fuel ih =>
    rcases List.eq_nil_or_concat pre with rfl | ⟨pre, y, rfl⟩
    · exact ⟨[], [], rfl, rfl, fun _ hx => absurd hx List.not_mem_nil, fun _ hx => by cases hx⟩
    · rw [List.concat_eq_append] at h hfuel ⊢
      rw [List.length_append, List.length_singleton] at hfuel
      rw [List.getLast?_concat, walkPrev]
      cases hy : p y with
      | false =>
        refine ⟨pre ++ [y], [], (List.append_nil _).symm, ?_, fun _ hx => absurd hx List.not_mem_nil, ?_⟩
        · rw [List.getLast?_concat]
          rfl
        · intro x hx
          rw [List.getLast?_concat] at hx
          rwa [← Option.some.inj hx]
      | true =>
        rw [List.append_assoc] at h
        obtain ⟨l₁, l₂, rfl, hwalk, hpass, hstop⟩ := ih h (by omega)
        refine ⟨l₁, l₂ ++ [y], List.append_assoc .., ?_, ?_, hstop⟩
        · rw [if_pos rfl, h.neighbours.1, hwalk]
        · intro x hx
          obtain hx | hx := List.mem_append.mp hx
          · exact hpass x hx
          · rwa [List.mem_singleton.mp hx]

/-- Forward from a place. -/
theorem walkNext_spec {p : α → Bool} {fuel : Nat} (h : k.Holds (pre ++ post)) (hfuel : post.length ≤ fuel) :
    ∃ l₁ l₂, post = l₁ ++ l₂ ∧ k.walkNext p fuel post.head? = l₂.head? ∧ (∀ x ∈ l₁, p x = true) ∧
      ∀ x, l₂.head? = some x → p x = false := by
  induction fuel generalizing pre post with
  | zero =>
    obtain rfl := List.eq_nil_of_length_eq_zero (Nat.le_zero.mp hfuel)
    exact ⟨[], [], rfl, rfl, fun _ hx => absurd hx List.not_mem_nil, fun _ hx => by cases hx⟩
  | succ fuel ih =>
    cases post with
    | nil => exact ⟨[], [], rfl, rfl, fun _ hx => absurd hx List.not_mem_nil, fun _ hx => by cases hx⟩
    | cons y post =>
      rw [List.length_cons] at hfuel
      rw [List.head?_cons, walkNext]
      cases hy : p y with
      | false =>
        refine ⟨[], y :: post, rfl, rfl, fun _ hx => absurd hx List.not_mem_nil, ?_⟩
        intro x hx
        rwa [← Option.some.inj hx]
      | true =>
        have h' := h
        rw [List.append_cons] at h'
        obtain ⟨l₁, l₂, rfl, hwalk, hpass, hstop⟩ := ih h' (by omega)
        refine ⟨y :: l₁, l₂, rfl, ?_, ?_, hstop⟩
        · rw [if_pos rfl, h.neighbours.2, hwalk]
        · exact List.forall_mem_cons.mpr ⟨hy, hpass⟩

theorem lastPassed_spec {p : α → Bool} {fuel : Nat} (h : k.Holds (pre ++ post)) (hfuel : post.length ≤ fuel) :
    ∃ l₁ l₂, post = l₁ ++ l₂ ∧ k.lastPassed p fuel pre.getLast? post.head? = (pre ++ l₁).getLast? ∧
      (∀ x ∈ l₁, p x = true) ∧ ∀ x, l₂.head? = some x → p x = false := by
  induction fuel generalizing pre post with
  | zero =>
    obtain rfl := List.eq_nil_of_length_eq_zero (Nat.le_zero.mp hfuel)
    exact ⟨[], [], rfl, by simp [lastPassed], fun _ hx => absurd hx List.not_mem_nil, fun _ hx => by cases hx⟩
  | succ fuel ih =>
    cases post with
    | nil => exact ⟨[], [], rfl, by simp [lastPassed], fun _ hx => absurd hx List.not_mem_nil, fun _ hx => by cases hx⟩
    | cons y post =>
      rw [List.length_cons] at hfuel
      rw [List.head?_cons, lastPassed]
      cases hy : p y with
      | false =>
        refine ⟨[], y :: post, rfl, by simp, fun _ hx => absurd hx List.not_mem_nil, fun x hx => ?_⟩
        rwa [← Option.some.inj hx]
      | true =>
        have h' := h
        rw [List.append_cons] at h'
        obtain ⟨l₁, l₂, rfl, hwalk, hpass, hstop⟩ := ih h' (by omega)
        rw [List.getLast?_concat, List.append_assoc] at hwalk
        exact ⟨y :: l₁, l₂, rfl, by rw [if_pos rfl, h.neighbours.2, hwalk]; rfl,
          List.forall_mem_cons.mpr ⟨hy, hpass⟩, hstop⟩

end Lists

end Links

end Lib
