import PoxChat.Lib.Program
import PoxChat.Xtext.Live
import PoxChat.Xtext.Loads

/-!
# The order of a text view

The list is drawn and the tree is searched, so the two have to hold the same entries in the same order.

* `Agrees` — they do, with the pointers in both directions and the count of the entries without a row.
* `RangeInOrder` — a range whose rows can be linked where `gtk_xtext_virt_ensure_range` links them.

Principal result: `list_and_tree_agree` — they agree in every run whose ranges are all of that kind.  A range that
prepends rows on both sides of an entry without a row is not: the splice keeps the rows together.
-/

set_option autoImplicit false

namespace PoxChat.Xtext.View

open Lib Outbound

/-! ## Ranges -/

/-- What is loaded behind the window. -/
def rowsBehind (rows : List Row) (buf : Buffer) (wantEnd : Int) : List Entry :=
  let matEnd := buf.matFirstIndex + buf.dbCount - 1
  if matEnd < wantEnd then newRows buf (loadRange rows (matEnd + 1) (wantEnd - matEnd)) else []

/-- The rows of a range that is not far can be linked where they are linked: those before the window in one piece, and
those behind it behind every row. -/
def SlideInOrder (rows : List Row) (buf : Buffer) (wantStart wantEnd : Int) : Prop :=
  PrependFits buf.entryTree (rowsBefore rows buf wantStart) ∧
    ∀ x ∈ rowsOf buf.entryTree, ∀ y ∈ rowsBehind rows buf wantEnd, entryStampCmp x y < 0

/-- A far jump is always in order, unless it falls through. -/
def RangeInOrder (rows : List Row) (buf : Buffer) (center radius : Int) : Prop :=
  let wantStart := wantedStart center radius
  let wantEnd := wantedEnd buf.totalEntries center radius
  wantEnd < wantStart ∨ (isFar buf wantStart wantEnd = true ∧ loadRange rows wantStart (wantEnd - wantStart + 1) ≠ []) ∨
    SlideInOrder rows buf wantStart wantEnd

section Ranges

variable {rows : List Row} {settings : Settings} {buf : Buffer} {l : List Entry} {wantStart wantEnd : Int}

theorem Shown.mem_tree (h : Shown buf l []) {e : Entry} : e ∈ buf.entryTree ↔ e ∈ l := by
  rw [h.perm.mem_iff, List.append_nil]

theorem mem_rowsBefore {x : Entry} (h : x ∈ rowsBefore rows buf wantStart) : wantStart < buf.matFirstIndex ∧
    ∃ r ∈ loadRange rows wantStart (buf.matFirstIndex - wantStart), isNew buf r = true ∧ r.entry = x := by
  unfold rowsBefore at h
  split at h
  · exact ⟨‹_›, mem_newRows.mp h⟩
  · exact absurd h List.not_mem_nil

theorem slideWindow_sorted (hforward : settings.time.Forward) (hrows : Ordered rows) (h : Shown buf l [])
    (hsorted : Sorted l) (hstart : 0 ≤ wantStart) (hfits : SlideInOrder rows buf wantStart wantEnd) :
    ∃ l', Shown (slideWindow settings rows buf wantStart wantEnd) l' [] ∧ Sorted l' := by
  obtain ⟨hprepend, happend⟩ := hfits
  have hcount := h.dbCount
  obtain ⟨l₁, h₁, hrows₁, -, -, hsorted₁⟩ := loadBefore_effect settings hrows h wantStart
  replace hsorted₁ := hsorted₁ hforward hsorted fun e he => hprepend e (h.mem_tree.mpr he)
  obtain ⟨l₂, chain, h₂, -, -, hsorted₂, hcases⟩ :=
    loadBehind_effect settings hrows h₁ (buf.matFirstIndex + buf.dbCount - 1) wantStart wantEnd
  obtain ⟨l₃, heads, tails, h₃, -⟩ := evictEnds_trimmed h₂ wantStart wantEnd
  refine ⟨l₃, h₃.shown, (hsorted₂ hforward hsorted₁ fun x hx y hy => ?_).sublist h₃.sub⟩
  obtain ⟨-, rfl, -⟩ | ⟨hlt, -, rfl, -⟩ | ⟨-, rfl, -, -⟩ := hcases
  · exact absurd hy List.not_mem_nil
  · obtain ⟨r, hr, hnew, rfl⟩ := mem_newRows.mp hy
    rw [hrows₁] at hx
    obtain hx | hx := List.mem_append.mp hx
    · -- A row that was just prepended is from an earlier part of the store.
      obtain ⟨hbefore, s, hs, -, rfl⟩ := mem_rowsBefore hx
      exact hrows.before_of_loadRange hstart (by omega) (by omega) hs hr
    · have hmem := mem_rowsOf.mp hx
      refine happend x (mem_rowsOf.mpr ⟨h.mem_tree.mpr hmem.1, hmem.2⟩) _ ?_
      rw [rowsBehind, if_pos hlt]
      refine mem_newRows.mpr ⟨r, hr, ?_, rfl⟩
      -- What is new after the first load was new before it.
      obtain ⟨htext, hid⟩ := of_decide_eq_true hnew
      refine decide_eq_true ⟨htext, fun hknown => hid ?_⟩
      rw [h₁.row_known, hrows₁]
      obtain ⟨e, he, heq⟩ := (h.row_known r).mp hknown
      exact ⟨e, List.mem_append_right _ he, heq⟩
  · exact absurd hx List.not_mem_nil

theorem wantedStart_nonneg (center radius : Int) : 0 ≤ wantedStart center radius := by
  unfold wantedStart
  split <;> omega

theorem Shown.resync (h : Shown buf l []) (rows : List Row) : Shown (resync rows buf) l [] := by
  unfold View.resync
  dsimp only
  split <;> exact h.same rfl rfl rfl rfl rfl rfl

theorem virtEnsureRange_sorted (hforward : settings.time.Forward) (hrows : Ordered rows) (h : Shown buf l [])
    (hsorted : Sorted l) {center radius : Int} (hfits : RangeInOrder rows buf center radius) :
    ∃ l', Shown (virtEnsureRange settings rows buf center radius) l' [] ∧ Sorted l' := by
  have hstart := wantedStart_nonneg center radius
  unfold RangeInOrder at hfits
  unfold virtEnsureRange
  dsimp only at hfits ⊢
  generalize wantedStart center radius = wantStart at *
  generalize wantedEnd buf.totalEntries center radius = wantEnd at *
  split
  · exact ⟨l, h, hsorted⟩
  have hmoved : ∃ l', Shown (moveWindow settings rows buf wantStart wantEnd) l' [] ∧ Sorted l' := by
    obtain ⟨hfar, hload, heq⟩ | ⟨hnot, startId, endId, hsame, heq⟩ :=
      moveWindow_cases settings rows h wantStart wantEnd
    · obtain ⟨hdone, l', h', -, -, -, hsorted'⟩ := virtRecenter_effect settings hrows.ids h hload
      rw [heq, if_pos hdone]
      exact ⟨l', h', hsorted' hforward hsorted hrows.sorted⟩
    · rw [heq]
      exact slideWindow_sorted hforward hrows hsame hsorted hstart (by tauto)
  obtain ⟨l', h', hsorted'⟩ := hmoved
  split
  · exact ⟨l', h'.resync rows, hsorted'⟩
  · exact ⟨l', h', hsorted'⟩

end Ranges

/-! ## Runs -/

/-- What a step is given: positive times, and ids that are not in use. -/
def Op.Valid (w : World) : Op → Prop
  | .save row => 0 < row.timestamp ∧ row.id ∉ w.rows.map (·.id)
  | .append rowid stamp => 0 < stamp ∧ Fresh w.buf rowid
  | .insertSorted rowid stamp => 0 < stamp ∧ Fresh w.buf rowid
  | _ => True

/-- A step that links every entry where the order wants it. -/
def Op.InOrder (w : World) : Op → Prop
  | .ensureRange center radius => RangeInOrder w.rows w.buf center radius
  | _ => True

/-- The list has exactly the entries of the tree, in their order. -/
structure Agrees (buf : Buffer) (l : List Entry) : Prop where
  holds : buf.links.Holds l
  tree : ∀ e, e ∈ l ↔ e ∈ buf.entryTree
  sorted : l.Pairwise fun a b => entryStampCmp a b < 0
  inverse : ∀ a ∈ l, ∀ b ∈ l, buf.links.next a = some b ↔ buf.links.prev b = some a
  ephemeral : buf.ephemeralCount = l.countP (·.isEphemeral)

instance (rows : List Row) : Decidable (Ordered rows) :=
  haveI : Decidable (Sorted (rows.map Row.entry)) := inferInstanceAs (Decidable (List.Pairwise _ _))
  decidable_of_iff (Sorted (rows.map Row.entry) ∧ (rows.map (·.id)).Nodup) ⟨fun h => ⟨h.1, h.2⟩, fun h => ⟨h.1, h.2⟩⟩

instance (w : World) : (op : Op) → Decidable (op.Valid w)
  | .save _ => inferInstanceAs (Decidable (_ ∧ _))
  | .append _ _ => inferInstanceAs (Decidable (_ ∧ _))
  | .insertSorted _ _ => inferInstanceAs (Decidable (_ ∧ _))
  | .ensureRange _ _ | .removeTop | .removeBottom | .setGaps _ | .setBatchMode _ | .select _ _ =>
    inferInstanceAs (Decidable True)

instance (l chain : List Entry) : Decidable (PrependFits l chain) := inferInstanceAs (Decidable (∀ _ ∈ _, _ ∨ _))

instance (rows : List Row) (buf : Buffer) (wantStart wantEnd : Int) : Decidable (SlideInOrder rows buf wantStart wantEnd) :=
  inferInstanceAs (Decidable (_ ∧ _))

instance (w : World) : (op : Op) → Decidable (op.InOrder w)
  | .ensureRange _ _ => inferInstanceAs (Decidable (_ ∨ _ ∨ _))
  | .save _ | .append _ _ | .insertSorted _ _ | .removeTop | .removeBottom | .setGaps _ | .setBatchMode _ | .select _ _ =>
    inferInstanceAs (Decidable True)

section Runs

variable {settings : Settings} {w : World} {l : List Entry}

/-- What a step keeps. -/
def InOrder (w : World) : Prop := Ordered w.rows ∧ ∃ l, Shown w.buf l [] ∧ Sorted l

theorem Shown.agrees (h : Shown w.buf l []) (hsorted : Sorted l) : Agrees w.buf l where
  holds := h.holds
  tree _ := h.mem_tree.symm
  sorted := hsorted
  inverse _ ha _ hb := h.holds.inverse ha hb
  ephemeral := by
    have hperm : w.buf.entryTree.Perm l := by simpa using h.perm
    rw [h.ephemeral, hperm.countP_eq]

theorem setVirtual_inOrder {rows : List Row} (h : Ordered rows) : InOrder (setVirtual rows) := by
  refine ⟨h, [], ⟨⟨List.Pairwise.nil, fun i => ?_, fun e he => absurd he List.not_mem_nil, rfl⟩, Links.holds_empty,
    List.Perm.nil, fun e he => by cases he⟩, List.Pairwise.nil⟩
  exact ⟨fun hi => absurd hi List.not_mem_nil, fun ⟨e, he, _⟩ => absurd he List.not_mem_nil⟩

/-- An entry that was walked to its place from the end. -/
theorem appendEntry_sorted (hforward : settings.time.Forward) (h : Shown w.buf l []) (hsorted : Sorted l) {rowid : Nat}
    (hfresh : Fresh w.buf rowid) (stamp : Int) :
    ∃ l', Shown (appendEntry settings w.buf rowid stamp) l' [] ∧ Sorted l' := by
  obtain ⟨pre, post, ent, l', heads, rfl, hpass, hstop, hlive⟩ := appendEntry_effect settings h hfresh stamp
  refine ⟨l', hlive.shown, hlive.sorted hforward (hsorted.insert (fun x hx => ?_) fun y hy => ?_)⟩
  · exact before_of_not_before (hlive.fresh x (List.mem_append_left _ (List.mem_of_getLast? hx))) (hstop x hx)
  · exact hpass y (List.mem_of_head? hy)

/-- And from the head, or from the hint of a batch. -/
theorem insertSortedEntry_sorted (hforward : settings.time.Forward) (h : Shown w.buf l []) (hsorted : Sorted l)
    {rowid : Nat} (hfresh : Fresh w.buf rowid) (stamp : Int) :
    ∃ l', Shown (insertSortedEntry settings w.buf rowid stamp) l' [] ∧ Sorted l' := by
  obtain ⟨skipped, passed, post, ent, l', heads, rfl, hskipped, hpass, hstop, hlive⟩ :=
    insertSortedEntry_effect settings h hfresh stamp
  refine ⟨l', hlive.shown, hlive.sorted hforward (hsorted.insert (fun x hx => ?_) fun y hy => ?_)⟩
  · rw [List.getLast?_append] at hx
    obtain hx | ⟨-, hx⟩ := Option.or_eq_some_iff.mp hx
    · exact hpass x (List.mem_of_getLast? hx)
    · obtain ⟨rfl, -⟩ | ⟨hint, front, -, hbefore, rfl⟩ := hskipped
      · cases hx
      · rw [List.getLast?_concat] at hx
        exact Option.some.inj hx ▸ hbefore
  · have hne := hlive.fresh y (List.mem_append_right _ (List.mem_of_head? hy))
    exact before_of_not_before hne.symm (hstop y hy)

theorem step_inOrder (hforward : settings.time.Forward) (w : World) (op : Op) (h : InOrder w)
    (hop : op.Valid w ∧ op.InOrder w) : InOrder (step settings w op) := by
  obtain ⟨hrows, l, hshown, hsorted⟩ := h
  obtain ⟨hvalid, hin⟩ := hop
  cases op with
  | save row => exact ⟨hrows.save hvalid.2, l, hshown, hsorted⟩
  | append rowid stamp => exact ⟨hrows, appendEntry_sorted hforward hshown hsorted hvalid.2 stamp⟩
  | insertSorted rowid stamp => exact ⟨hrows, insertSortedEntry_sorted hforward hshown hsorted hvalid.2 stamp⟩
  | ensureRange center radius => exact ⟨hrows, virtEnsureRange_sorted hforward hrows hshown hsorted hin⟩
  | removeTop =>
    obtain ⟨l', heads, ht⟩ := removeTop_trimmed hshown
    exact ⟨hrows, l', ht.shown, hsorted.sublist ht.sub⟩
  | removeBottom =>
    obtain ⟨l', tails, ht⟩ := removeBottom_trimmed hshown
    exact ⟨hrows, l', ht.shown, hsorted.sublist ht.sub⟩
  | setGaps gapCache => exact ⟨hrows, l, hshown.same rfl rfl rfl rfl rfl rfl, hsorted⟩
  | setBatchMode on => exact ⟨hrows, l, hshown.setBatchMode on, hsorted⟩
  | select startId endId => exact ⟨hrows, l, hshown.same rfl rfl rfl rfl rfl rfl, hsorted⟩

/-- **The list and the tree agree** in every run that prepends no rows around an entry without a row. -/
theorem list_and_tree_agree (settings : Settings) (hforward : settings.time.Forward) (rows : List Row)
    (hrows : Ordered rows) (ops : List Op) (hvalid : Along (step settings) (fun w op => op.Valid w) (setVirtual rows) ops)
    (hin : Along (step settings) (fun w op => op.InOrder w) (setVirtual rows) ops) :
    ∃ l, Agrees (ops.foldl (step settings) (setVirtual rows)).buf l := by
  obtain ⟨-, l, hshown, hsorted⟩ := (hvalid.and hin).invariant (step_inOrder hforward) (setVirtual_inOrder hrows)
  exact ⟨l, hshown.agrees hsorted⟩

/-- Local time at Greenwich. -/
def utc : LocalTime := ⟨fun a b => a / 86400 ≠ b / 86400, fun t => some (t / 86400 * 86400)⟩

theorem utc_forward : utc.Forward := by
  intro a b midnight hle hdays hstart
  simp only [utc, decide_eq_true_eq] at hdays
  obtain rfl : b / 86400 * 86400 = midnight := Option.some.inj hstart
  omega

/-- Two days with a hole between them, a notice at either end of the window, and the rows before it. -/
theorem two_days_agree : ∃ l, Agrees
    ([.setGaps [⟨1, 86320, 86350, by decide⟩], .ensureRange 3 1, .append 0 100000, .insertSorted 0 100,
        .ensureRange 1 1, .removeBottom].foldl (step ⟨true, 0, utc⟩)
      (setVirtual [⟨1, 86000, [65], by decide⟩, ⟨2, 86300, [65], by decide⟩, ⟨3, 86500, [65], by decide⟩,
        ⟨4, 90000, [65], by decide⟩])).buf l :=
  list_and_tree_agree ⟨true, 0, utc⟩ utc_forward _ (by decide) _ (by decide) (by decide)

theorem Agrees.before_next {buf : Buffer} {a b : Entry} (h : Agrees buf l) (ha : a ∈ buf.entryTree)
    (hnext : buf.links.next a = some b) : entryStampCmp a b < 0 := by
  obtain ⟨pre, post, rfl⟩ := List.append_of_mem ((h.tree a).mpr ha)
  rw [h.holds.neighbours.2] at hnext
  obtain ⟨post, rfl⟩ := List.head?_eq_some_iff.mp hnext
  exact (List.pairwise_cons.mp (List.pairwise_append.mp h.sorted).2.1).1 b List.mem_cons_self

/-- A notice that sorts between the two rows that are prepended ends up behind both. -/
theorem early_notice_out_of_order : ¬ ∀ (settings : Settings) (rows : List Row) (ops : List Op), settings.time.Forward →
    Ordered rows → Along (step settings) (fun w op => op.Valid w) (setVirtual rows) ops →
    ∃ l, Agrees (ops.foldl (step settings) (setVirtual rows)).buf l := by
  intro hall
  obtain ⟨l, hagrees⟩ := hall ⟨true, 0, utc⟩
    [⟨1, 10, [65], by decide⟩, ⟨2, 20, [65], by decide⟩, ⟨3, 30, [65], by decide⟩]
    [.ensureRange 2 0, .insertSorted 0 15, .ensureRange 0 2] utc_forward (by decide) (by decide)
  have hnext := hagrees.before_next (a := ⟨2, 20, true, .message⟩) (b := ⟨localEntryIdBase, 15, false, .message⟩)
    (by decide) (by decide)
  revert hnext
  decide

end Runs

end PoxChat.Xtext.View
