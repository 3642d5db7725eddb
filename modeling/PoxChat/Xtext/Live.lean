import PoxChat.Xtext.Ends

/-!
# Where a live entry of a text view goes

* `Linked` — what a new entry leaves once it is linked.
* `Live` — what it leaves once it is counted, and the rows that were pruned for it.

Principal results: `appendEntry_effect` — the place that is walked to from the end; `insertSortedEntry_effect` — the place
that is walked to from the head, or from the hint of a batch.
-/

set_option autoImplicit false

namespace PoxChat.Xtext.View

open Lib Outbound

/-! ## Live entries -/

/-- A live entry stands between `pre` and `post`, the place of the window is `shifted` before any row is pruned, and the
rows `heads` are pruned. -/
structure Live (time : LocalTime) (buf : Buffer) (rowid : Nat) (stamp : Int) (pre post : List Entry) (ent : Entry)
    (shifted : Int) (buf' : Buffer) (l' heads : List Entry) : Prop where
  row : ent.hasDbRow = decide (0 < rowid)
  entry : 0 < rowid → ent = ⟨rowid, stamp, true, .message⟩
  fresh : ∀ x ∈ pre ++ post, x.entryId ≠ ent.entryId
  shown : Shown buf' l' []
  rows : rowsOf (pre ++ ent :: post) = heads ++ rowsOf l'
  first : buf'.matFirstIndex = shifted + heads.length
  total : buf'.totalEntries = buf.totalEntries + if ent.hasDbRow then 1 else 0
  sorted : time.Forward → Sorted (pre ++ ent :: post) → Sorted l'

section LiveEntries

variable {buf : Buffer} {l pre post : List Entry} {rowid : Nat}

theorem Fresh.init (h : Stored buf) (hfresh : Fresh buf rowid) (stamp : Int) :
    Inited buf rowid stamp .message (initEntry buf rowid stamp .message).1 (initEntry buf rowid stamp .message).2 :=
  h.init rowid stamp .message hfresh fun _ => rfl

theorem initEntry_row (buf : Buffer) (rowid : Nat) (stamp : Int) (hrow : 0 < rowid) :
    (initEntry buf rowid stamp .message).2 = ⟨rowid, stamp, true, .message⟩ := by
  rw [initEntry, if_pos hrow]

/-- What a live entry leaves once it is linked, before it is counted. -/
structure Linked (time : LocalTime) (buf : Buffer) (pre post : List Entry) (ent : Entry) (buf' : Buffer)
    (l' : List Entry) : Prop where
  fresh : ∀ x ∈ pre ++ post, x.entryId ≠ ent.entryId
  shown : Shown buf' l' []
  rows : rowsOf l' = rowsOf (pre ++ ent :: post)
  head : l'.head? = (pre ++ ent :: post).head?
  kept : Kept buf buf'
  mem : ent ∈ l'
  sorted : time.Forward → Sorted (pre ++ ent :: post) → Sorted l'

theorem linkEntry_linked (settings : Settings) {stamp : Int} {kind : Kind} {buf' : Buffer} {ent : Entry}
    (h : Shown buf (pre ++ post) []) (hinit : Inited buf rowid stamp kind buf' ent) :
    ∃ l', Linked settings.time buf pre post ent
      (linkEntry settings buf' ent (.before pre.getLast? post.head?)) l' := by
  obtain ⟨l', hc⟩ := linkEntry_chromed settings (h.linkCore hinit) (List.mem_append_right _ List.mem_cons_self)
  refine ⟨l', fun x hx heq => hinit.fresh ?_, hc.shown, hc.rows, hc.head, ?_, hc.sub.subset (by simp), hc.sorted⟩
  · rw [← heq]
    exact h.mem_known (List.mem_append_left _ hx)
  · exact ⟨hc.kept.first.trans hinit.kept.first, hc.kept.total.trans hinit.kept.total⟩

/-- What is counted and pruned once the entry is linked. -/
theorem Linked.live {time : LocalTime} {ent : Entry} {linked counted : Buffer} {l₁ : List Entry} {shifted stamp : Int}
    (h : Linked time buf pre post ent linked l₁) (hrow : ent.hasDbRow = decide (0 < rowid))
    (hentry : 0 < rowid → ent = ⟨rowid, stamp, true, .message⟩) (hshown : Shown counted l₁ [])
    (hfirst : counted.matFirstIndex = shifted)
    (htotal : counted.totalEntries = buf.totalEntries + if ent.hasDbRow then 1 else 0) (prune : Bool) :
    ∃ l' heads, Live time buf rowid stamp pre post ent shifted (if prune then removeTop counted else counted) l' heads := by
  cases prune with
  | false =>
    exact ⟨l₁, [], hrow, hentry, h.fresh, hshown, by rw [h.rows]; rfl, by simpa using hfirst, htotal, h.sorted⟩
  | true =>
    obtain ⟨l', heads, ht⟩ := removeTop_trimmed hshown
    have hrows := ht.rows
    rw [List.append_nil, h.rows] at hrows
    exact ⟨l', heads, hrow, hentry, h.fresh, ht.shown, hrows, by rw [if_pos rfl, ht.first, hfirst],
      by rw [if_pos rfl, ht.total, htotal], fun hf hs => (h.sorted hf hs).sublist ht.sub⟩

/-- The walk from the end stops behind the last entry that does not sort after the new one. -/
theorem appendPosition_place (settings : Settings) (ent : Entry) (hholds : buf.links.Holds l)
    (hfuel : l.length ≤ buf.fuel) :
    ∃ pre post, l = pre ++ post ∧ (∀ x ∈ post, entryStampCmp ent x < 0) ∧
      (∀ x, pre.getLast? = some x → ¬ entryStampCmp ent x < 0) ∧
      linkEntry settings buf ent (appendPosition buf ent) =
        linkEntry settings buf ent (.before pre.getLast? post.head?) := by
  have htail : linkEntry settings buf ent .tail = linkEntry settings buf ent (.before buf.links.last none) := rfl
  have hend : l = l ++ [] := (List.append_nil l).symm
  unfold appendPosition
  rw [hholds.last] at htail ⊢
  cases hlast : l.getLast? with
  | none => exact ⟨l, [], hend, fun x hx => absurd hx List.not_mem_nil, by simp [hlast], htail⟩
  | some last =>
    dsimp only
    split
    · rw [hend] at hholds
      obtain ⟨pre, post, rfl, hwalk, hpass, hstop⟩ := Links.walkPrev_spec
        (p := fun x => entryStampCmp ent x < 0) hholds hfuel
      simp only [decide_eq_true_eq, decide_eq_false_iff_not] at hpass hstop
      rw [List.append_nil] at hholds
      exact ⟨pre, post, rfl, hpass, hstop, by rw [← hlast, hwalk, hholds.after]⟩
    · refine ⟨l, [], hend, fun x hx => absurd hx List.not_mem_nil, fun x hx => ?_, htail⟩
      rw [hlast] at hx
      rwa [← Option.some.inj hx]

theorem appendEntry_effect (settings : Settings) (h : Shown buf l []) (hfresh : Fresh buf rowid) (stamp : Int) :
    ∃ pre post ent l' heads, l = pre ++ post ∧ (∀ x ∈ post, entryStampCmp ent x < 0) ∧
      (∀ x, pre.getLast? = some x → ¬ entryStampCmp ent x < 0) ∧
      Live settings.time buf rowid stamp pre post ent buf.matFirstIndex (appendEntry settings buf rowid stamp) l' heads := by
  have hinit := hfresh.init h.toStored stamp
  have hentry := initEntry_row buf rowid stamp
  unfold appendEntry
  generalize initEntry buf rowid stamp .message = init at *
  obtain ⟨buf₁, ent⟩ := init
  dsimp only at *
  have hholds : buf₁.links.Holds l := (h.materialize hinit).holds
  have hfuel : l.length ≤ buf₁.fuel := hinit.fuel ▸ h.fuel
  obtain ⟨pre, post, rfl, hpass, hstop, hplace⟩ := appendPosition_place settings ent hholds hfuel
  obtain ⟨l₁, hlinked⟩ := linkEntry_linked settings h hinit
  rw [hplace]
  generalize linkEntry settings buf₁ ent (.before pre.getLast? post.head?) = buf₂ at *
  have htotal := hlinked.kept.total
  have hshown : Shown { buf₂ with totalEntries := if ent.hasDbRow then buf₂.totalEntries + 1 else buf₂.totalEntries }
      l₁ [] := hlinked.shown.same rfl rfl rfl rfl rfl rfl
  obtain ⟨l', heads, hlive⟩ := hlinked.live hinit.row hentry hshown hlinked.kept.first (by
    dsimp only
    split <;> omega) _
  exact ⟨pre, post, ent, l', heads, rfl, hpass, hstop, hlive⟩

/-- The walk skips what stands before a hint that sorts before the new entry. -/
def HintSkipped (buf : Buffer) (ent : Entry) (skipped : List Entry) : Prop :=
  (skipped = [] ∧ ∀ hint, buf.insertHint = some hint → ¬ entryStampCmp hint ent < 0) ∨
    ∃ hint front, buf.insertHint = some hint ∧ entryStampCmp hint ent < 0 ∧ skipped = front ++ [hint]

/-- The walk from the hint, or from the head, stops before the first entry that does not sort before the new one. -/
theorem insertPosition_place (ent : Entry) (hholds : buf.links.Holds l)
    (hfuel : l.length ≤ buf.fuel) (hhint : ∀ hint, buf.insertHint = some hint → hint ∈ l) :
    ∃ skipped passed post, l = skipped ++ passed ++ post ∧
      HintSkipped buf ent skipped ∧ (∀ x ∈ passed, entryStampCmp x ent < 0) ∧ (∀ y, post.head? = some y → ¬ entryStampCmp y ent < 0) ∧
      insertPosition buf ent = .before (skipped ++ passed).getLast? post.head? := by
  have hstart : ∃ skipped rest, l = skipped ++ rest ∧ insertStart buf ent = rest.head? ∧ HintSkipped buf ent skipped := by
    unfold insertStart
    cases hset : buf.insertHint with
    | none => exact ⟨[], l, rfl, hholds.first, .inl ⟨rfl, fun hint hsome => by simp [hset] at hsome⟩⟩
    | some hint =>
      dsimp only
      split
      · rename_i hbefore
        obtain ⟨front, rest, rfl⟩ := List.append_of_mem (hhint hint hset)
        exact ⟨front ++ [hint], rest, by simp, hholds.neighbours.2, .inr ⟨hint, front, hset, hbefore, rfl⟩⟩
      · rename_i hnot
        refine ⟨[], l, rfl, hholds.first, .inl ⟨rfl, fun hint' hsome => ?_⟩⟩
        rwa [← Option.some.inj (hset.symm.trans hsome)]
  obtain ⟨skipped, rest, rfl, hstart, hskipped⟩ := hstart
  have hfuelRest : rest.length ≤ buf.fuel := by
    rw [List.length_append] at hfuel
    omega
  obtain ⟨passed, post, rfl, hwalk, hpass, hstop⟩ := Links.walkNext_spec
    (p := fun x => entryStampCmp x ent < 0) hholds hfuelRest
  simp only [decide_eq_true_eq, decide_eq_false_iff_not] at hpass hstop
  rw [← List.append_assoc] at hholds
  refine ⟨skipped, passed, post, (List.append_assoc ..).symm, hskipped, hpass, hstop, ?_⟩
  rw [insertPosition, hstart, hwalk]
  cases post with
  | nil =>
    rw [List.append_nil] at hholds
    exact congrArg (LinkPosition.before · none) hholds.last
  | cons x post =>
    dsimp only [List.head?_cons]
    split
    · rename_i hfirst
      cases hpre : skipped ++ passed with
      | nil => rfl
      | cons y pre =>
        -- The head of the list is not behind what was passed.
        rw [hpre] at hholds
        obtain rfl : y = x := Option.some.inj (hholds.first.symm.trans hfirst)
        exact absurd List.mem_cons_self (hholds.disjoint List.mem_cons_self)
    · rw [hholds.neighbours.1]

theorem insertSortedEntry_effect (settings : Settings) (h : Shown buf l []) (hfresh : Fresh buf rowid) (stamp : Int) :
    ∃ skipped passed post ent l' heads, l = skipped ++ passed ++ post ∧
      HintSkipped buf ent skipped ∧ (∀ x ∈ passed, entryStampCmp x ent < 0) ∧ (∀ y, post.head? = some y → ¬ entryStampCmp y ent < 0) ∧
      Live settings.time buf rowid stamp (skipped ++ passed) post ent
        (if ent.hasDbRow ∧ skipped ++ passed = [] then (if buf.matFirstIndex > 0 then buf.matFirstIndex - 1 else 0)
          else buf.matFirstIndex)
        (insertSortedEntry settings buf rowid stamp) l' heads := by
  have hinit := hfresh.init h.toStored stamp
  have hentry := initEntry_row buf rowid stamp
  unfold insertSortedEntry
  generalize initEntry buf rowid stamp .message = init at *
  obtain ⟨buf₁, ent⟩ := init
  dsimp only at *
  have hholds : buf₁.links.Holds l := (h.materialize hinit).holds
  have hfuel : l.length ≤ buf₁.fuel := hinit.fuel ▸ h.fuel
  obtain ⟨skipped, passed, post, rfl, hskipped, hpass, hstop, hplace⟩ := insertPosition_place ent hholds hfuel
    fun hint hset => h.hint hint (hinit.hint ▸ hset)
  rw [HintSkipped, hinit.hint] at hskipped
  obtain ⟨l₁, hlinked⟩ := linkEntry_linked settings h hinit
  rw [hplace]
  generalize linkEntry settings buf₁ ent (.before (skipped ++ passed).getLast? post.head?) = buf₂ at *
  have hfirst : buf₂.links.first = some ent ↔ skipped ++ passed = [] := by
    rw [hlinked.shown.first, hlinked.head]
    cases hpre : skipped ++ passed with
    | nil => simp
    | cons x pre =>
      have hne : x ≠ ent := fun heq =>
        hlinked.fresh x (by rw [hpre]; exact List.mem_cons_self) (congrArg Entry.entryId heq)
      simpa using hne
  have hhinted : Shown { buf₂ with insertHint := if buf₂.batchMode then some ent else buf₂.insertHint } l₁ [] := by
    refine hlinked.shown.congr rfl rfl rfl rfl hlinked.shown.holds (.refl _) fun e he => ?_
    dsimp only at he
    split at he
    · exact Option.some.inj he ▸ hlinked.mem
    · exact hlinked.shown.hint e he
  have hkept := hlinked.kept
  by_cases hrow : ent.hasDbRow = true
  · rw [if_pos hrow]
    have hcounted : Shown
        { buf₂ with
          insertHint := if buf₂.batchMode then some ent else buf₂.insertHint
          totalEntries := buf₂.totalEntries + 1
          matFirstIndex := if buf₂.links.first = some ent then
            (if buf₂.matFirstIndex > 0 then buf₂.matFirstIndex - 1 else 0) else buf₂.matFirstIndex } l₁ [] :=
      hhinted.same rfl rfl rfl rfl rfl rfl
    have hshifted : (if buf₂.links.first = some ent then (if buf₂.matFirstIndex > 0 then buf₂.matFirstIndex - 1 else 0)
        else buf₂.matFirstIndex) = if ent.hasDbRow = true ∧ skipped ++ passed = [] then
          (if buf.matFirstIndex > 0 then buf.matFirstIndex - 1 else 0) else buf.matFirstIndex := by
      rw [hkept.first]
      exact if_congr (by rw [hfirst]; exact (and_iff_right hrow).symm) rfl rfl
    obtain ⟨l', heads, hlive⟩ := hlinked.live hinit.row hentry hcounted hshifted (by simp [hrow, hkept.total]) _
    exact ⟨skipped, passed, post, ent, l', heads, rfl, hskipped, hpass, hstop, hlive⟩
  · rw [if_neg hrow]
    have hshifted : buf₂.matFirstIndex = if ent.hasDbRow = true ∧ skipped ++ passed = [] then
          (if buf.matFirstIndex > 0 then buf.matFirstIndex - 1 else 0) else buf.matFirstIndex := by
      rw [if_neg fun hboth => hrow hboth.1, hkept.first]
    obtain ⟨l', heads, hlive⟩ := hlinked.live hinit.row hentry hhinted hshifted (by simp [hrow, hkept.total]) _
    exact ⟨skipped, passed, post, ent, l', heads, rfl, hskipped, hpass, hstop, hlive⟩

end LiveEntries

end PoxChat.Xtext.View
