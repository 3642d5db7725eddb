import PoxChat.Xtext.Shown

/-!
# What leaves a text view at its ends

* `Trimmed` — entries leave at the ends of the list, and the index of the first row follows.

Principal results: `removeTop_trimmed`, `removeBottom_trimmed`, `evictHeads_trimmed`, `evictTails_trimmed` — every
function that takes entries away at an end does no more than that.
-/

set_option autoImplicit false

namespace PoxChat.Xtext.View

open Lib Outbound

/-! ## Leaving at the ends -/

/-- The rows `heads` and `tails` are gone, and the index of the first row counts the heads. -/
structure Trimmed (buf : Buffer) (l : List Entry) (buf' : Buffer) (l' heads tails : List Entry) : Prop where
  shown : Shown buf' l' []
  sub : l'.Sublist l
  rows : rowsOf l = heads ++ (rowsOf l' ++ tails)
  first : buf'.matFirstIndex = buf.matFirstIndex + heads.length
  total : buf'.totalEntries = buf.totalEntries

section Ends

variable {buf buf' buf'' : Buffer} {l l' l'' pre post heads heads' tails tails' : List Entry} {ent : Entry}

theorem Trimmed.refl (h : Shown buf l []) : Trimmed buf l buf l [] [] :=
  ⟨h, .refl l, by simp, by simp, rfl⟩

theorem Trimmed.trans (h : Trimmed buf l buf' l' heads tails) (h' : Trimmed buf' l' buf'' l'' heads' tails') :
    Trimmed buf l buf'' l'' (heads ++ heads') (tails' ++ tails) where
  shown := h'.shown
  sub := h'.sub.trans h.sub
  rows := by rw [h.rows, h'.rows]; simp
  first := by
    rw [h'.first, h.first, List.length_append]
    omega
  total := h'.total.trans h.total

theorem row_of_not_ephemeral (h : ¬ ent.isEphemeral = true) : ent.hasDbRow = true := by
  simpa [Entry.isEphemeral] using h

theorem Shown.row_of_chrome (h : Shown buf l []) (hent : ent ∈ l) (hchrome : ent.isChrome = true) :
    ent.hasDbRow = false := by
  have hformed := h.formed_of_mem (List.mem_append_left _ hent)
  unfold Entry.Formed at hformed
  split at hformed
  · exact absurd hchrome (by simp [hformed.2])
  · simpa using ‹¬ ent.hasDbRow = true›

/-- The entries that have a row are what the code counts. -/
theorem Shown.dbCount (h : Shown buf l []) : buf.dbCount = (rowsOf l).length := by
  have hperm : buf.entryTree.Perm l := by simpa using h.perm
  have hlen : l.length = l.countP (·.hasDbRow) + l.countP (·.isEphemeral) := by
    simpa [Entry.isEphemeral] using List.length_eq_countP_add_countP (fun e : Entry => e.hasDbRow)
  rw [Buffer.dbCount, Buffer.matCount, h.ephemeral, hperm.length_eq, hperm.countP_eq, rowsOf,
    ← List.countP_eq_length_filter]
  omega

theorem Shown.first (h : Shown buf l []) : buf.links.first = l.head? := h.holds.first

theorem Shown.last (h : Shown buf l []) : buf.links.last = l.getLast? := h.holds.last

theorem dropEdgeDaySep_trimmed (h : Shown buf l []) (atHead : Bool) :
    ∃ l', Trimmed buf l (dropEdgeDaySep buf atHead).1 l' [] [] := by
  cases atHead with
  | true =>
    cases l with
    | nil => exact ⟨[], by simpa [dropEdgeDaySep, h.first] using .refl h⟩
    | cons x l =>
      simp only [dropEdgeDaySep, if_true, h.first, List.head?_cons]
      cases hchrome : x.isChrome with
      | false => exact ⟨x :: l, .refl h⟩
      | true =>
        have hrow := h.row_of_chrome List.mem_cons_self hchrome
        have hkill : Shown _ ([] ++ l) [] := Shown.kill h h.holds.unlinkFirst
        exact ⟨l, hkill, List.sublist_cons_self x l, by simp [rowsOf_cons_of_rowless hrow], by simp [killEnt], rfl⟩
  | false =>
    rcases List.eq_nil_or_concat l with rfl | ⟨l, x, rfl⟩
    · exact ⟨[], by simpa [dropEdgeDaySep, h.last] using .refl h⟩
    · rw [List.concat_eq_append] at h ⊢
      simp only [dropEdgeDaySep, Bool.false_eq_true, if_false, h.last, List.getLast?_concat]
      cases hchrome : x.isChrome with
      | false => exact ⟨l ++ [x], .refl h⟩
      | true =>
        have hrow := h.row_of_chrome (List.mem_append_right _ List.mem_cons_self) hchrome
        have hlinks : (buf.links.unlinkLast x).Holds (l ++ []) := by
          rw [List.append_nil]
          exact h.holds.unlinkLast
        have hkill := h.kill hlinks
        rw [List.append_nil] at hkill
        exact ⟨l, hkill, List.sublist_append_left l [x], by simp [rowsOf_cons_of_rowless hrow], by simp [killEnt],
          rfl⟩

/-- The first row goes. -/
theorem Shown.trimHead (h : Shown buf (ent :: l) []) (hrow : ent.hasDbRow = true) :
    Trimmed buf (ent :: l)
      { killEnt { buf with links := buf.links.unlinkFirst ent } ent with matFirstIndex := buf.matFirstIndex + 1 } l
      [ent] [] := by
  have hkill : Shown _ ([] ++ l) [] := Shown.kill h h.holds.unlinkFirst
  exact ⟨hkill.same rfl rfl rfl rfl rfl rfl, List.sublist_cons_self ent l, by simp [rowsOf_cons_of_row hrow], by simp, rfl⟩

/-- The last row goes. -/
theorem Shown.trimTail (h : Shown buf (l ++ [ent]) []) (hrow : ent.hasDbRow = true) :
    Trimmed buf (l ++ [ent]) (killEnt { buf with links := buf.links.unlinkLast ent } ent) l [] [ent] := by
  have hlinks : (buf.links.unlinkLast ent).Holds (l ++ []) := by
    rw [List.append_nil]
    exact h.holds.unlinkLast
  have hkill := h.kill hlinks
  rw [List.append_nil] at hkill
  exact ⟨hkill, List.sublist_append_left l [ent], by simp [rowsOf_cons_of_row hrow], by simp [killEnt], rfl⟩

theorem removeTop_trimmed (h : Shown buf l []) : ∃ l' heads, Trimmed buf l (removeTop buf) l' heads [] := by
  obtain ⟨l₁, h₁⟩ := dropEdgeDaySep_trimmed h true
  unfold removeTop
  dsimp only
  rw [h₁.shown.first]
  cases l₁ with
  | nil => exact ⟨[], [], h₁⟩
  | cons x l₁ =>
    dsimp only [List.head?_cons]
    split
    · exact ⟨_, [], h₁⟩
    · have hrow := row_of_not_ephemeral ‹¬ x.isEphemeral = true›
      have h₂ := h₁.shown.trimHead hrow
      obtain ⟨l₃, h₃⟩ := dropEdgeDaySep_trimmed h₂.shown true
      exact ⟨l₃, _, (h₁.trans h₂).trans h₃⟩

theorem removeBottom_trimmed (h : Shown buf l []) : ∃ l' tails, Trimmed buf l (removeBottom buf) l' [] tails := by
  obtain ⟨l₁, h₁⟩ := dropEdgeDaySep_trimmed h false
  unfold removeBottom
  dsimp only
  rw [h₁.shown.last]
  rcases List.eq_nil_or_concat l₁ with rfl | ⟨l₁, x, rfl⟩
  · exact ⟨[], [], h₁⟩
  · rw [List.concat_eq_append] at h₁ ⊢
    rw [List.getLast?_concat]
    dsimp only
    split
    · exact ⟨_, [], h₁⟩
    · have hrow := row_of_not_ephemeral ‹¬ x.isEphemeral = true›
      have h₂ := h₁.shown.trimTail hrow
      obtain ⟨l₃, h₃⟩ := dropEdgeDaySep_trimmed h₂.shown false
      exact ⟨l₃, _, (h₁.trans h₂).trans h₃⟩

theorem evictHeads_trimmed (wantStart : Int) (fuel : Nat) (h : Shown buf l []) :
    ∃ l' heads, Trimmed buf l (evictHeads wantStart fuel buf) l' heads [] ∧
      (heads = [] ∨ (evictHeads wantStart fuel buf).matFirstIndex ≤ wantStart - virtPageSize) := by
  induction fuel generalizing buf l with
  | zero => exact ⟨l, [], .refl h, .inl rfl⟩
  | succ fuel ih =>
    obtain ⟨l₁, h₁⟩ := dropEdgeDaySep_trimmed h true
    unfold evictHeads
    split
    · rename_i hfar
      dsimp only
      split
      · obtain ⟨l₂, heads, h₂, hgone⟩ := ih h₁.shown
        exact ⟨l₂, heads, by simpa using h₁.trans h₂, hgone⟩
      · rw [h₁.shown.first]
        cases l₁ with
        | nil => exact ⟨[], [], h₁, .inl rfl⟩
        | cons x l₁ =>
          dsimp only [List.head?_cons]
          split
          · exact ⟨_, [], h₁, .inl rfl⟩
          · split
            · exact ⟨_, [], h₁, .inl rfl⟩
            · have hrow := row_of_not_ephemeral ‹¬ x.isEphemeral = true›
              have h₂ := h₁.trans (h₁.shown.trimHead hrow)
              obtain ⟨l₃, heads, h₃, hgone⟩ := ih h₂.shown
              refine ⟨l₃, _, h₂.trans h₃, .inr ?_⟩
              obtain rfl | hgone := hgone
              · have hfirst := (h₂.trans h₃).first
                simp only [List.nil_append, List.append_nil, List.length_singleton] at hfirst
                exact hfirst ▸ by omega
              · exact hgone
    · exact ⟨l, [], .refl h, .inl rfl⟩

theorem evictTails_trimmed (wantEnd : Int) (fuel : Nat) (h : Shown buf l []) :
    ∃ l' tails, Trimmed buf l (evictTails wantEnd fuel buf) l' [] tails ∧
      (tails = [] ∨ wantEnd + virtPageSize ≤ buf.matFirstIndex + (rowsOf l').length - 1) := by
  induction fuel generalizing buf l with
  | zero => exact ⟨l, [], .refl h, .inl rfl⟩
  | succ fuel ih =>
    obtain ⟨l₁, h₁⟩ := dropEdgeDaySep_trimmed h false
    have hfirst : (dropEdgeDaySep buf false).1.matFirstIndex = buf.matFirstIndex := by simpa using h₁.first
    have hrows : rowsOf l = rowsOf l₁ := by simpa using h₁.rows
    unfold evictTails
    split
    · rename_i hfar
      rw [h.dbCount, hrows] at hfar
      dsimp only
      split
      · obtain ⟨l₂, tails, h₂, hgone⟩ := ih h₁.shown
        exact ⟨l₂, tails, by simpa using h₁.trans h₂, hfirst ▸ hgone⟩
      · rw [h₁.shown.last]
        rcases List.eq_nil_or_concat l₁ with rfl | ⟨l₁, x, rfl⟩
        · exact ⟨[], [], h₁, .inl rfl⟩
        · rw [List.concat_eq_append] at h₁ hfar ⊢
          rw [List.getLast?_concat]
          dsimp only
          split
          · exact ⟨_, [], h₁, .inl rfl⟩
          · split
            · exact ⟨_, [], h₁, .inl rfl⟩
            · have hrow := row_of_not_ephemeral ‹¬ x.isEphemeral = true›
              have h₂ := h₁.trans (h₁.shown.trimTail hrow)
              obtain ⟨l₃, tails, h₃, hgone⟩ := ih h₂.shown
              refine ⟨l₃, _, h₂.trans h₃, .inr ?_⟩
              obtain rfl | hgone := hgone
              · have hrows₃ : rowsOf l₁ = rowsOf l₃ := by simpa using h₃.rows
                rw [rowsOf_append, rowsOf_cons_of_row hrow, rowsOf_nil, List.length_append, List.length_singleton,
                  hrows₃] at hfar
                omega
              · have hfirst₂ := h₂.first
                simp only [List.append_nil, List.length_nil] at hfirst₂
                omega
    · exact ⟨l, [], .refl h, .inl rfl⟩

end Ends

end PoxChat.Xtext.View
