import Mathlib.Data.List.Nodup

/-!
# Walking a list that changes

A list of nodes, numbered in the order of their creation, is walked through with the successor of a node saved before
the node is visited; the visit may add and remove nodes.

* `sublist_around` — what stays in order is split by one element as it was before.
* `sublist_of_map` — the order of keys is the order of what they are the keys of.
* `older n nodes` — the nodes that were there when the next number was `n`.
* `Drifts n before after` — of the nodes before, those still there stand in the same order.
-/

set_option autoImplicit false

namespace Lib

open scoped List

variable {α β : Type}

/-- What stays in order is split by an element that stands once as it was before. -/
theorem sublist_around {x : α} {A B P R : List α} (hP : x ∉ P) (hR : x ∉ R) (h : A ++ x :: B <+ P ++ x :: R) :
    A <+ P ∧ B <+ R := by
  obtain ⟨front, back, hsplit, hfront, hback⟩ := List.sublist_append_iff.1 h
  rcases List.append_eq_append_iff.1 hsplit with ⟨C, rfl, hC⟩ | ⟨C, rfl, hC⟩
  · -- the front would hold the element
    cases C with
    | nil =>
      rw [List.nil_append] at hC
      rw [← hC] at hback
      rw [List.append_nil] at hfront
      exact ⟨hfront, List.cons_sublist_cons.1 hback⟩
    | cons c C =>
      obtain ⟨rfl, -⟩ := List.cons.inj hC
      exact absurd (hfront.subset (by simp)) hP
  · -- the back begins with the element
    cases C with
    | nil =>
      rw [List.append_nil]
      rw [List.nil_append] at hC
      rw [hC] at hback
      exact ⟨hfront, List.cons_sublist_cons.1 hback⟩
    | cons c C =>
      rw [hC, List.cons_append] at hback
      have hmem : x ∈ R := by
        cases hback with
        | cons _ hback => exact hback.subset (by simp)
        | cons_cons _ hback => exact hback.subset (by simp)
      exact absurd hmem hR

/-- Elements of a list whose keys stand in its order stand in its order themselves. -/
theorem sublist_of_map {f : α → β} {l L : List α} (hmem : ∀ a ∈ l, a ∈ L) (hnodup : (L.map f).Nodup)
    (h : l.map f <+ L.map f) : l <+ L := by
  obtain ⟨l', hsub, hkeys⟩ := List.sublist_map_iff.1 h
  have heq : ∀ l : List α, (∀ a ∈ l, a ∈ L) → ∀ l' : List α, (∀ a ∈ l', a ∈ L) → l.map f = l'.map f → l = l' := by
    intro l
    induction l with
    | nil =>
      intro _ l' _ hkeys
      exact (List.map_eq_nil_iff.1 hkeys.symm).symm
    | cons a l ih =>
      intro hl l' hl' hkeys
      cases l' with
      | nil => cases hkeys
      | cons b l' =>
        rw [List.forall_mem_cons] at hl hl'
        obtain ⟨hab, hrest⟩ := List.cons.inj hkeys
        rw [List.inj_on_of_nodup_map hnodup hl.1 hl'.1 hab, ih hl.2 l' hl'.2 hrest]
  rw [heq l hmem l' (fun a ha => hsub.subset ha) hkeys]
  exact hsub

/-- The nodes that were there when the next number was `n`. -/
def older (n : Nat) (nodes : List Nat) : List Nat := nodes.filter (· < n)

/-- Of the nodes before, all numbered below `n`, those still there stand in the same order. -/
def Drifts (n : Nat) (before after : List Nat) : Prop := older n after <+ before

variable {n m : Nat} {nodes before between after : List Nat}

theorem mem_older {k : Nat} : k ∈ older n nodes ↔ k ∈ nodes ∧ k < n := by simp [older]

theorem older_append (front back : List Nat) : older n (front ++ back) = older n front ++ older n back :=
  List.filter_append front back

theorem older_cons {k : Nat} (h : k < n) : older n (k :: nodes) = k :: older n nodes :=
  List.filter_cons_of_pos (decide_eq_true h)

theorem older_eq_self (h : ∀ k ∈ nodes, k < n) : older n nodes = nodes :=
  List.filter_eq_self.2 fun k hk => decide_eq_true (h k hk)

theorem older_older (h : n ≤ m) (nodes : List Nat) : older n (older m nodes) = older n nodes := by
  unfold older
  rw [List.filter_filter]
  apply List.filter_congr
  intro k _
  rw [Bool.eq_iff_iff]
  simp only [Bool.and_eq_true, decide_eq_true_eq]
  omega

theorem Drifts.refl (n : Nat) (nodes : List Nat) : Drifts n nodes nodes := List.filter_sublist

theorem Drifts.trans (h₁ : Drifts n before between) (h₂ : Drifts m between after) (hnm : n ≤ m) :
    Drifts n before after := by
  unfold Drifts
  rw [← older_older hnm after]
  exact (List.Sublist.filter _ h₂).trans h₁

/-- What stands behind a node that is still there stood behind it, and what stands before it stood before it. -/
theorem Drifts.around {x : Nat} {A B P R : List Nat} (hbelow : ∀ k ∈ P ++ x :: R, k < n) (hnodup : (P ++ x :: R).Nodup)
    (h : Drifts n (P ++ x :: R) (A ++ x :: B)) : older n A <+ P ∧ older n B <+ R := by
  have hx : x < n := hbelow x (by simp)
  rw [Drifts, older_append, older_cons hx] at h
  rw [List.nodup_append, List.nodup_cons] at hnodup
  exact sublist_around (fun hmem => hnodup.2.2 x hmem x (by simp) rfl) hnodup.2.1.1 h

end Lib
