import PoxChat.Scrollback.Ordinals
import PoxChat.Xtext.Order

/-!
# The window of a text view is a slice

A buffer of a channel shows consecutive rows of the store, and knows which by the index of the first.

* `Slice` — the rows of the list, between those before and behind the window.
* `Windowed` — the same as the code counts it.
* `Move` — what is asked of a buffer that shows a channel: a live row is saved and appended, an older one is saved and
  inserted.

Principal result: `window_is_slice` — the window is a slice in every run whose inserted rows find their place, and then
every range that is asked for is shown.  A row that gets in front of the window does not: the index of the first row goes
down, although the row took the place in the store that the old first row had.
-/

set_option autoImplicit false

namespace PoxChat.Xtext.View

open Lib Outbound

/-! ## The slice -/

/-- The rows of a channel are in order, and none is empty. -/
structure Kempt (rows : List Row) : Prop where
  ordered : Ordered rows
  texts : ∀ r ∈ rows, r.text ≠ []

/-- The rows `shown` are in the list, `before` and `behind` are not. -/
structure Slice (rows : List Row) (buf : Buffer) (l : List Entry) (before shown behind : List Row) : Prop where
  list : Shown buf l []
  split : rows = before ++ (shown ++ behind)
  window : rowsOf l = shown.map Row.entry
  first : buf.matFirstIndex = before.length
  total : buf.totalEntries = rows.length

section Slices

variable {rows before shown behind : List Row} {buf buf' : Buffer} {l l' heads tails : List Entry}

theorem Slice.count (h : Slice rows buf l before shown behind) : buf.dbCount = shown.length := by
  rw [h.list.dbCount, h.window, List.length_map]

/-- Rows that leave at the ends are no longer in the window. -/
theorem Slice.trim (h : Slice rows buf l before shown behind) (ht : Trimmed buf l buf' l' heads tails) :
    ∃ gone shown' rest, gone.length = heads.length ∧ rest.length = tails.length ∧ shown = gone ++ (shown' ++ rest) ∧
      Slice rows buf' l' (before ++ gone) shown' (rest ++ behind) := by
  have hrows := h.window.symm.trans ht.rows
  obtain ⟨gone, tail, rfl, hgone, htail⟩ := List.map_eq_append_iff.mp hrows
  obtain ⟨shown', rest, rfl, hshown, hrest⟩ := List.map_eq_append_iff.mp htail
  refine ⟨gone, shown', rest, ?_, ?_, rfl, ht.shown, ?_, hshown.symm, ?_, ht.total.trans h.total⟩
  · rw [← hgone, List.length_map]
  · rw [← hrest, List.length_map]
  · rw [h.split]
    simp only [List.append_assoc]
  · rw [ht.first, h.first, ← hgone, List.length_append, List.length_map]
    omega

/-- A row of the channel is in the list or not as it is in the slice or not. -/
theorem Slice.known (h : Slice rows buf l before shown behind) (hids : (rows.map (·.id)).Nodup) {r : Row}
    (hr : r ∈ before ∨ r ∈ behind) : r.id ∉ buf.entriesById := by
  rw [h.list.row_known, h.window]
  rintro ⟨e, he, heq⟩
  obtain ⟨s, hs, rfl⟩ := List.mem_map.mp he
  have hsid : s.id = r.id := heq
  rw [h.split, List.map_append, List.map_append] at hids
  obtain ⟨-, hrest, hbefore⟩ := List.nodup_append.mp hids
  obtain ⟨-, -, hbehind⟩ := List.nodup_append.mp hrest
  obtain hr | hr := hr
  · exact hbefore _ (List.mem_map_of_mem hr) _ (List.mem_append_left _ (List.mem_map_of_mem hs)) hsid.symm
  · exact hbehind _ (List.mem_map_of_mem hs) _ (List.mem_map_of_mem hr) hsid

/-- Rows outside the window are all new. -/
theorem Slice.newRows_eq (h : Slice rows buf l before shown behind) (hkempt : Kempt rows) {msgs : List Row}
    (hmsgs : ∀ r ∈ msgs, r ∈ before ∨ r ∈ behind) : newRows buf msgs = msgs.map Row.entry := by
  rw [newRows, List.filter_eq_self.mpr fun r hr => ?_]
  have hmem : r ∈ rows := by
    rw [h.split]
    simp only [List.mem_append]
    exact (hmsgs r hr).imp_right .inr
  exact decide_eq_true ⟨hkempt.texts r hmem, h.known hkempt.ordered.ids (hmsgs r hr)⟩

theorem loadable_eq (hkempt : Kempt rows) (offset limit : Int) :
    loadable (loadRange rows offset limit) = (loadRange rows offset limit).map Row.entry := by
  rw [loadable, List.filter_eq_self.mpr fun r hr => ?_]
  exact decide_eq_true (hkempt.texts r ((loadRange_sublist _ _ _).subset hr))

/-- A range of the store, as the part that it is. -/
theorem loadRange_eq {offset limit : Int} (hlimit : 0 < limit) :
    loadRange rows offset limit = (rows.drop offset.toNat).take limit.toNat := by
  rw [loadRange, if_neg (by omega)]

theorem split_range (rows : List Row) (offset count : Nat) :
    rows = rows.take offset ++ ((rows.drop offset).take count ++ rows.drop (offset + count)) := by
  rw [← List.drop_drop, List.take_append_drop, List.take_append_drop]

/-- The rows before the window get into it. -/
theorem Slice.loadBefore (h : Slice rows buf l before shown behind) (hkempt : Kempt rows) (settings : Settings)
    {wantStart : Int} (hstart : 0 ≤ wantStart) : ∃ l' before' shown', Slice rows (loadBefore settings rows buf wantStart) l'
      before' shown' behind ∧ (before'.length : Int) ≤ wantStart ∧
      before'.length + shown'.length = before.length + shown.length := by
  obtain ⟨l', h', hrows', hfirst, htotal, -⟩ := loadBefore_effect settings hkempt.ordered h.list wantStart
  unfold rowsBefore at hrows'
  have hcut := h.first
  split at hrows'
  · rename_i hlt
    have hload : loadRange rows wantStart (buf.matFirstIndex - wantStart) = before.drop wantStart.toNat := by
      rw [loadRange_eq (by omega), h.split, List.drop_append_of_le_length (by omega),
        List.take_append_of_le_length (by rw [List.length_drop]; omega), List.take_of_length_le]
      rw [List.length_drop]
      omega
    rw [hload, h.newRows_eq hkempt fun r hr => .inl (List.mem_of_mem_drop hr), h.window, ← List.map_append] at hrows'
    refine ⟨l', before.take wantStart.toNat, before.drop wantStart.toNat ++ shown,
      ⟨h', ?_, hrows', ?_, htotal.trans h.total⟩, ?_, ?_⟩
    · rw [List.append_assoc, ← List.append_assoc, List.take_append_drop]
      exact h.split
    · rw [hfirst, List.length_take]
      omega
    · rw [List.length_take]
      omega
    · rw [List.length_take, List.length_append, List.length_drop]
      omega
  · rw [List.nil_append] at hrows'
    exact ⟨l', before, shown, ⟨h', h.split, hrows'.trans h.window, by omega, htotal.trans h.total⟩, by omega, rfl⟩

/-- The wanted range is in the window. -/
def Covers (before shown : List Row) (wantStart wantEnd : Int) : Prop :=
  before.length ≤ wantStart ∧ wantEnd < before.length + shown.length

/-- A window that holds exactly the wanted range. -/
theorem Slice.ofRange {wantStart wantEnd : Int} (hlist : Shown buf l [])
    (hwindow : rowsOf l = (loadRange rows wantStart (wantEnd - wantStart + 1)).map Row.entry)
    (hfirst : buf.matFirstIndex = wantStart) (htotal : buf.totalEntries = rows.length) (hstart : 0 ≤ wantStart)
    (hle : wantStart ≤ wantEnd) (hend : wantEnd < rows.length) : ∃ before shown behind,
      Slice rows buf l before shown behind ∧ Covers before shown wantStart wantEnd := by
  rw [loadRange_eq (by omega)] at hwindow
  refine ⟨rows.take wantStart.toNat, _, _, ⟨hlist, split_range rows wantStart.toNat (wantEnd - wantStart + 1).toNat, hwindow,
    ?_, htotal⟩, ?_⟩
  · rw [hfirst, List.length_take]
    omega
  · rw [Covers, List.length_take, List.length_take, List.length_drop]
    omega

/-- The rows behind the window get into it. -/
theorem Slice.loadBehind (h : Slice rows buf l before shown behind) (hkempt : Kempt rows) (settings : Settings)
    {matEnd wantStart wantEnd : Int} (hmatEnd : matEnd + 1 = before.length + shown.length)
    (hbefore : (before.length : Int) ≤ wantStart) (hle : wantStart ≤ wantEnd) (hend : wantEnd < rows.length) :
    ∃ l' before' shown' behind', Slice rows (loadBehind settings rows buf matEnd wantStart wantEnd) l' before' shown'
      behind' ∧ Covers before' shown' wantStart wantEnd := by
  obtain ⟨l', chain, h', hrows', htotal, -, hcases⟩ :=
    loadBehind_effect settings hkempt.ordered h.list matEnd wantStart wantEnd
  have hlength : rows.length = before.length + (shown.length + behind.length) := by simp [h.split]
  obtain ⟨hshort, rfl, hfirst⟩ | ⟨hlong, hne, rfl, hfirst⟩ | ⟨hlong, rfl, rfl, hfirst⟩ := hcases
  · refine ⟨l', before, shown, behind, ⟨h', h.split, ?_, hfirst.trans h.first, htotal.trans h.total⟩, hbefore, by omega⟩
    rw [hrows', List.append_nil, h.window]
  · have hload : loadRange rows (matEnd + 1) (wantEnd - matEnd) = behind.take (wantEnd - matEnd).toNat := by
      rw [loadRange_eq (by omega), h.split, ← List.append_assoc, List.drop_left' (by rw [List.length_append]; omega)]
    rw [hload, h.newRows_eq hkempt fun r hr => .inr (List.mem_of_mem_take hr), h.window, ← List.map_append] at hrows'
    refine ⟨l', before, shown ++ behind.take (wantEnd - matEnd).toNat, behind.drop (wantEnd - matEnd).toNat,
      ⟨h', ?_, hrows', hfirst.trans h.first, htotal.trans h.total⟩, hbefore, ?_⟩
    · rw [List.append_assoc, List.take_append_drop]
      exact h.split
    · rw [List.length_append, List.length_take]
      omega
  · -- Nothing was shown, so no row of the range is known.
    have hnone : shown = [] := List.map_eq_nil_iff.mp h.window.symm
    have hnew : ∀ r ∈ loadRange rows wantStart (wantEnd - wantStart + 1), r ∈ before ∨ r ∈ behind := fun r hr => by
      have hmem := (loadRange_sublist _ _ _).subset hr
      rw [h.split, hnone] at hmem
      simpa using hmem
    rw [h.newRows_eq hkempt hnew] at hrows'
    obtain ⟨before', shown', behind', hslice, hcovers⟩ :=
      Slice.ofRange h' hrows' hfirst (htotal.trans h.total) (by omega) hle hend
    exact ⟨l', before', shown', behind', hslice, hcovers⟩

/-- Rows of the wanted range are not evicted. -/
theorem Slice.evictEnds (h : Slice rows buf l before shown behind) {wantStart wantEnd : Int}
    (hcovers : Covers before shown wantStart wantEnd) : ∃ l' before' shown' behind',
      Slice rows (evictEnds buf wantStart wantEnd) l' before' shown' behind' ∧
      Covers before' shown' wantStart wantEnd := by
  obtain ⟨l', heads, tails, ht, hheads, htails⟩ := evictEnds_trimmed h.list wantStart wantEnd
  obtain ⟨gone, shown', rest, hgone, hrest, rfl, hslice⟩ := h.trim ht
  have hpage : virtPageSize = 100 := rfl
  have hfirst := hslice.first
  refine ⟨l', _, shown', _, hslice, ?_⟩
  rw [hslice.window, List.length_map] at htails
  unfold Covers at hcovers ⊢
  rw [List.length_append, List.length_append] at hcovers
  rw [hfirst] at hheads htails
  rw [List.length_append] at hheads htails ⊢
  constructor
  · obtain rfl | hheads := hheads
    · rw [List.length_nil] at hgone
      omega
    · omega
  · obtain rfl | htails := htails
    · rw [List.length_nil] at hrest
      omega
    · omega

theorem Slice.slideWindow (h : Slice rows buf l before shown behind) (hkempt : Kempt rows) (settings : Settings)
    {wantStart wantEnd : Int} (hstart : 0 ≤ wantStart) (hle : wantStart ≤ wantEnd) (hend : wantEnd < rows.length) :
    ∃ l' before' shown' behind', Slice rows (slideWindow settings rows buf wantStart wantEnd) l' before' shown' behind' ∧
      Covers before' shown' wantStart wantEnd := by
  have hcount := h.count
  have hfirst := h.first
  obtain ⟨l₁, before₁, shown₁, h₁, hbefore₁, hlength₁⟩ := h.loadBefore hkempt settings hstart
  have hmatEnd : buf.matFirstIndex + buf.dbCount - 1 + 1 = before₁.length + shown₁.length := by omega
  obtain ⟨l₂, before₂, shown₂, behind₂, h₂, hcovers₂⟩ := h₁.loadBehind hkempt settings hmatEnd hbefore₁ hle hend
  exact h₂.evictEnds hcovers₂

/-- The index of a row is the number of the rows before it. -/
theorem getIndexOfRowid_eq {r : Row} {rest : List Row} (h : Ordered (before ++ r :: rest)) :
    getIndexOfRowid (before ++ r :: rest) r.id = before.length := by
  obtain ⟨hsorted, hids⟩ := h
  rw [List.map_append, List.map_cons] at hsorted hids
  obtain ⟨-, hafter, hbefore⟩ := List.pairwise_append.mp hsorted
  have hfind : (before ++ r :: rest).find? (fun s => s.id = r.id) = some r := by
    rw [List.find?_append, List.find?_eq_none.mpr fun s hs => ?_]
    · simp
    · have hne := (List.nodup_append.mp hids).2.2 s.id (List.mem_map_of_mem hs) r.id List.mem_cons_self
      simpa using hne
  have hall : before.filter (isBefore r) = before := List.filter_eq_self.mpr fun s hs =>
    isBefore_iff.mpr (hbefore _ (List.mem_map_of_mem hs) _ List.mem_cons_self)
  have hself : isBefore r r = false := by simp [isBefore]
  have hnone : rest.filter (isBefore r) = [] := List.filter_eq_nil_iff.mpr fun s hs htrue =>
    before_asymm ((List.pairwise_cons.mp hafter).1 _ (List.mem_map_of_mem hs)) (isBefore_iff.mp htrue)
  simp only [getIndexOfRowid, hfind, List.filter_append, hall, List.filter_cons, hself, hnone, Bool.false_eq_true, if_false,
    List.append_nil]

/-- What the store says of the window is what the buffer had. -/
theorem Slice.resync (h : Slice rows buf l before shown behind) (hrows : Ordered rows) :
    Slice rows (resync rows buf) l before shown behind := by
  have hholds : buf.links.Holds ([] ++ l) := h.list.holds
  obtain ⟨passed, rest, hsplit, hwalk, hpass, hstop⟩ := Links.walkNext_spec
    (p := fun x : Entry => !x.hasDbRow) hholds h.list.fuel
  refine ⟨h.list.resync rows, h.split, h.window, ?_, ?_⟩
  · have hwalk : buf.links.walkNext (fun x : Entry => !x.hasDbRow) buf.fuel buf.links.first = rest.head? := by
      rw [h.list.first, hwalk]
    unfold View.resync
    dsimp only [Buffer.fuel] at hwalk ⊢
    rw [hwalk]
    cases rest with
    | nil => exact h.first
    | cons first rest =>
      have hrow : first.hasDbRow = true := by simpa using hstop first rfl
      have hnorows : rowsOf passed = [] := rowsOf_eq_nil fun x hx => by simpa using hpass x hx
      have hwindow := h.window
      rw [hsplit, rowsOf_append, hnorows, List.nil_append, rowsOf_cons_of_row hrow] at hwindow
      obtain ⟨r, shown', rfl, rfl, -⟩ := List.map_eq_cons_iff.mp hwindow.symm
      dsimp only [List.head?_cons]
      have hsplit' : rows = before ++ r :: (shown' ++ behind) := h.split
      rw [hsplit'] at hrows ⊢
      exact getIndexOfRowid_eq hrows
  · unfold View.resync
    dsimp only
    split <;> rfl

/-- After any range that is asked for, the window is a slice that has it. -/
theorem Slice.virtEnsureRange (h : Slice rows buf l before shown behind) (hkempt : Kempt rows) (settings : Settings)
    (center radius : Int) : ∃ l' before' shown' behind',
      Slice rows (virtEnsureRange settings rows buf center radius) l' before' shown' behind' ∧
      (wantedStart center radius ≤ wantedEnd buf.totalEntries center radius →
        Covers before' shown' (wantedStart center radius) (wantedEnd buf.totalEntries center radius)) := by
  have hstart := wantedStart_nonneg center radius
  have hend : wantedEnd buf.totalEntries center radius < rows.length := by
    have htotal := h.total
    unfold wantedEnd
    split <;> omega
  unfold View.virtEnsureRange
  dsimp only
  generalize wantedStart center radius = wantStart at *
  generalize wantedEnd buf.totalEntries center radius = wantEnd at *
  split
  · exact ⟨l, before, shown, behind, h, fun hle => by omega⟩
  rename_i hle
  replace hle := Int.not_lt.mp hle
  have hmoved : ∃ l' before' shown' behind', Slice rows (moveWindow settings rows buf wantStart wantEnd) l' before' shown'
      behind' ∧ Covers before' shown' wantStart wantEnd := by
    obtain ⟨hfar, hload, heq⟩ | ⟨-, startId, endId, hsame, heq⟩ := moveWindow_cases settings rows h.list wantStart wantEnd
    · obtain ⟨hdone, l', h', hrows', hfirst, htotal, -⟩ := virtRecenter_effect settings hkempt.ordered.ids h.list hload
      rw [loadable_eq hkempt] at hrows'
      rw [heq, if_pos hdone]
      obtain ⟨before', shown', behind', hslice, hcovers⟩ :=
        Slice.ofRange h' hrows' hfirst (htotal.trans h.total) hstart hle hend
      exact ⟨l', before', shown', behind', hslice, hcovers⟩
    · rw [heq]
      have h₁ : Slice rows { buf with selPinStartId := startId, selPinEndId := endId } l before shown behind :=
        ⟨hsame, h.split, h.window, h.first, h.total⟩
      exact h₁.slideWindow hkempt settings hstart hle hend
  obtain ⟨l', before', shown', behind', hslice, hcovers⟩ := hmoved
  split
  · exact ⟨l', before', shown', behind', hslice.resync hkempt.ordered, fun _ => hcovers⟩
  · exact ⟨l', before', shown', behind', hslice, fun _ => hcovers⟩

end Slices

/-! ## Moves -/

/-- What is asked of a buffer that shows a channel. -/
inductive Move where
  | ensureRange (center radius : Int)
  /-- A live row is saved and appended. -/
  | live (row : Row)
  /-- An older row is saved and inserted. -/
  | backfill (row : Row)
  /-- Entries without a row. -/
  | appendNotice (stamp : Int)
  | insertNotice (stamp : Int)
  | prune
  | setGaps (gapCache : List Gap)
  | setBatchMode (on : Bool)
  | select (startId endId : Nat)

def Move.ops : Move → List Op
  | .ensureRange center radius => [.ensureRange center radius]
  | .live row => [.save row, .append row.id row.timestamp]
  | .backfill row => [.save row, .insertSorted row.id row.timestamp]
  | .appendNotice stamp => [.append 0 stamp]
  | .insertNotice stamp => [.insertSorted 0 stamp]
  | .prune => [.removeTop]
  | .setGaps gapCache => [.setGaps gapCache]
  | .setBatchMode on => [.setBatchMode on]
  | .select startId endId => [.select startId endId]

def moveStep (settings : Settings) (w : World) (move : Move) : World := move.ops.foldl (step settings) w

/-- A row that can be saved. -/
def Row.Fits (row : Row) (rows : List Row) : Prop := row.text ≠ [] ∧ 0 < row.timestamp ∧ row.id ∉ rows.map (·.id)

/-- The ordinal that a row gets. -/
def ordinal (rows : List Row) (row : Row) : Nat := (rows.takeWhile (isBefore row)).length

/-- A live row is newer than all others and the window reaches the end of the store; an older row goes inside the window
or directly before its head. -/
def Move.Valid (w : World) : Move → Prop
  | .live row => row.Fits w.rows ∧ (∀ r ∈ w.rows, isBefore row r = true) ∧
      w.buf.matFirstIndex + w.buf.dbCount = w.rows.length
  | .backfill row => row.Fits w.rows ∧ w.buf.matFirstIndex ≤ ordinal w.rows row ∧
      ordinal w.rows row < w.buf.matFirstIndex + w.buf.dbCount
  | .appendNotice stamp => 0 < stamp
  | .insertNotice stamp => 0 < stamp
  | _ => True

/-- The walk of a row that is inserted gets behind `text_first`, or there is nothing before the window. -/
def HeadFits (buf : Buffer) (ent : Entry) : Prop :=
  buf.matFirstIndex = 0 ∨ (∃ x ∈ buf.links.first, entryStampCmp x ent < 0) ∨ ∃ x ∈ buf.insertHint, entryStampCmp x ent < 0

/-- The walk passes the rows that sort before an entry, and no others: none of them stands behind an entry that stops it,
and none that sorts after stands before the hint. -/
def PlaceFits (buf : Buffer) (ent : Entry) : Prop :=
  (buf.entries.Pairwise fun x y => y.hasDbRow = true → entryStampCmp y ent < 0 → entryStampCmp x ent < 0) ∧
    ∀ hint ∈ buf.insertHint, entryStampCmp hint ent < 0 →
      ∀ x ∈ buf.entries.takeWhile (· ≠ hint), x.hasDbRow = true → entryStampCmp x ent < 0

/-- A row that is inserted gets where it belongs, and not in front of everything. -/
def Move.FindsPlace (w : World) : Move → Prop
  | .backfill row => (ordinal w.rows row = w.buf.matFirstIndex → HeadFits w.buf row.entry) ∧ PlaceFits w.buf row.entry
  | _ => True

section Moves

variable {settings : Settings} {rows before shown behind : List Row} {buf : Buffer} {l : List Entry} {row : Row}

theorem Shown.entries (h : Shown buf l []) : buf.entries = l := by
  have hholds : buf.links.Holds ([] ++ l) := h.holds
  rw [Buffer.entries, h.first]
  exact hholds.toList h.fuel

/-- What a live entry makes of a slice, once its place among the rows is known. -/
theorem Live.slice {time : LocalTime} {rowid : Nat} {stamp shifted : Int} {pre post heads l' : List Entry} {ent : Entry}
    {buf' : Buffer} (h : Live time buf rowid stamp pre post ent shifted buf' l' heads)
    (hsplit : rows = before ++ (shown ++ behind)) (hwindow : rowsOf (pre ++ ent :: post) = shown.map Row.entry)
    (hshifted : shifted = before.length) (htotal : buf'.totalEntries = rows.length) :
    ∃ before' shown', Slice rows buf' l' before' shown' behind := by
  obtain ⟨gone, shown', rfl, hgone, hshown⟩ := List.map_eq_append_iff.mp (hwindow.symm.trans h.rows)
  refine ⟨before ++ gone, shown', h.shown, by simp [hsplit], hshown.symm, ?_, htotal⟩
  rw [h.first, hshifted, ← hgone, List.length_append, List.length_map]
  omega

/-- A new row has an id that is not in use. -/
theorem Slice.fresh (h : Slice rows buf l before shown behind) (hrow : row.Fits rows) : Fresh buf row.id := by
  refine fun _ => ⟨row.id_bounds.2, fun hknown => hrow.2.2 ?_⟩
  obtain ⟨e, he, heq⟩ := (h.list.row_known row).mp hknown
  rw [h.window] at he
  obtain ⟨s, hs, rfl⟩ := List.mem_map.mp he
  have hid : s.id = row.id := heq
  rw [← hid, h.split]
  exact List.mem_map_of_mem (by simp [hs])

theorem Kempt.save (h : Kempt rows) (hrow : row.Fits rows) : Kempt (saveRow rows row) := by
  refine ⟨h.ordered.save hrow.2.2, fun r hr => ?_⟩
  rw [saveRow, List.mem_append, List.mem_cons] at hr
  obtain hr | rfl | hr := hr
  · exact h.texts r (List.takeWhile_subset _ hr)
  · exact hrow.1
  · exact h.texts r (List.dropWhile_subset _ hr)

theorem length_saveRow (rows : List Row) (row : Row) : (saveRow rows row).length = rows.length + 1 := by
  have hlength := congrArg List.length (List.takeWhile_append_dropWhile (p := isBefore row) (l := rows))
  rw [List.length_append] at hlength
  rw [saveRow, List.length_append, List.length_cons]
  omega

/-- Entries without a row leave the slice as it is. -/
theorem Slice.appendNotice (h : Slice rows buf l before shown behind) (settings : Settings) (stamp : Int) :
    ∃ l' before' shown', Slice rows (appendEntry settings buf 0 stamp) l' before' shown' behind := by
  obtain ⟨pre, post, ent, l', heads, rfl, -, -, hlive⟩ :=
    appendEntry_effect settings h.list (fun h0 => absurd h0 (lt_irrefl 0)) stamp
  have hrow : ent.hasDbRow = false := by simpa using hlive.row
  have hwindow := h.window
  rw [rowsOf_append] at hwindow
  obtain ⟨before', shown', hslice⟩ := hlive.slice h.split
    (by rw [rowsOf_append, rowsOf_cons_of_rowless hrow, hwindow]) h.first (by simp [hlive.total, hrow, h.total])
  exact ⟨l', before', shown', hslice⟩

theorem Slice.insertNotice (h : Slice rows buf l before shown behind) (settings : Settings) (stamp : Int) :
    ∃ l' before' shown', Slice rows (insertSortedEntry settings buf 0 stamp) l' before' shown' behind := by
  obtain ⟨skipped, passed, post, ent, l', heads, rfl, -, -, -, hlive⟩ :=
    insertSortedEntry_effect settings h.list (fun h0 => absurd h0 (lt_irrefl 0)) stamp
  have hrow : ent.hasDbRow = false := by simpa using hlive.row
  have hwindow := h.window
  rw [rowsOf_append] at hwindow
  obtain ⟨before', shown', hslice⟩ := hlive.slice h.split
    (by rw [rowsOf_append (skipped ++ passed), rowsOf_cons_of_rowless hrow, hwindow]) (by simp [hrow, h.first])
    (by simp [hlive.total, hrow, h.total])
  exact ⟨l', before', shown', hslice⟩

/-- The newest row goes behind every row. -/
theorem Slice.live (h : Slice rows buf l before shown behind) (settings : Settings) (hrow : row.Fits rows)
    (hnewest : ∀ r ∈ rows, isBefore row r = true) (hend : buf.matFirstIndex + buf.dbCount = rows.length) :
    ∃ l' before' shown' behind',
      Slice (saveRow rows row) (appendEntry settings buf row.id row.timestamp) l' before' shown' behind' := by
  obtain ⟨pre, post, ent, l', heads, rfl, hpass, -, hlive⟩ :=
    appendEntry_effect settings h.list (h.fresh hrow) row.timestamp
  obtain rfl : ent = row.entry := hlive.entry row.id_bounds.1
  have hsave : saveRow rows row = rows ++ [row] := by
    rw [saveRow, List.takeWhile_eq_self_iff.mpr hnewest, List.dropWhile_eq_nil_iff.mpr hnewest]
  have hlength : rows.length = before.length + (shown.length + behind.length) := by simp [h.split]
  have hbehind : behind = [] := List.eq_nil_of_length_eq_zero (by
    have hcount := h.count
    have hfirst := h.first
    omega)
  have hnorows : rowsOf post = [] := List.filter_eq_nil_iff.mpr fun x hx hxrow => by
    have hmem : x ∈ shown.map Row.entry := h.window ▸ mem_rowsOf.mpr ⟨List.mem_append_right _ hx, hxrow⟩
    obtain ⟨s, hs, rfl⟩ := List.mem_map.mp hmem
    exact before_asymm (hpass _ hx) (isBefore_iff.mp (hnewest s (by rw [h.split]; simp [hs])))
  have hwindow := h.window
  rw [rowsOf_append, hnorows, List.append_nil] at hwindow
  have hsplit : saveRow rows row = before ++ ((shown ++ [row]) ++ []) := by
    rw [hsave, h.split, hbehind]
    simp
  obtain ⟨before', shown', hslice⟩ := hlive.slice hsplit
    (by rw [rowsOf_append, rowsOf_cons_of_row rfl, hnorows, hwindow, List.map_append]; rfl) h.first
    (by rw [hlive.total, h.total, length_saveRow]; rfl)
  exact ⟨l', before', shown', [], hslice⟩

/-- A row inside the window, or directly before its head, splits the rows that are shown. -/
theorem saveRow_inside (row : Row) (hsplit : rows = before ++ (shown ++ behind)) (hlow : before.length ≤ ordinal rows row)
    (hhigh : ordinal rows row < before.length + shown.length) :
    saveRow rows row =
        before ++ ((shown.takeWhile (isBefore row) ++ row :: shown.dropWhile (isBefore row)) ++ behind) ∧
      ordinal rows row = before.length + (shown.takeWhile (isBefore row)).length := by
  have htake : rows.takeWhile (isBefore row) = before ++ shown.takeWhile (isBefore row) := by
    unfold ordinal at hlow hhigh
    rw [hsplit, List.takeWhile_append] at hlow hhigh ⊢
    split at hlow
    · rename_i hbefore
      rw [if_pos hbefore] at hhigh ⊢
      rw [List.takeWhile_append] at hhigh ⊢
      split at hhigh
      · rw [List.length_append, List.length_append] at hhigh
        omega
      · rename_i hshown
        rw [if_neg hshown]
    · have hle := (List.takeWhile_sublist (isBefore row) (l := before)).length_le
      omega
  have hdrop : rows.dropWhile (isBefore row) = shown.dropWhile (isBefore row) ++ behind := by
    have hall := List.takeWhile_append_dropWhile (p := isBefore row) (l := rows)
    rw [htake, List.append_assoc] at hall
    refine List.append_cancel_left (List.append_cancel_left (hall.trans (hsplit.trans ?_)))
    rw [← List.append_assoc (shown.takeWhile _), List.takeWhile_append_dropWhile]
  refine ⟨?_, ?_⟩
  · rw [saveRow, htake, hdrop]
    simp only [List.append_assoc, List.cons_append]
  · rw [ordinal, htake, List.length_append]

/-- What the walk passes and what stops it, among the rows. -/
theorem PlaceFits.apart {ent : Entry} {skipped passed post : List Entry} (h : PlaceFits buf ent)
    (hentries : buf.entries = skipped ++ passed ++ post) (hnodup : (skipped ++ passed ++ post).Nodup)
    (hskipped : HintSkipped buf ent skipped) (hpass : ∀ x ∈ passed, entryStampCmp x ent < 0)
    (hstop : ∀ y, post.head? = some y → ¬ entryStampCmp y ent < 0) :
    (∀ x ∈ rowsOf (skipped ++ passed), entryStampCmp x ent < 0) ∧ ∀ y ∈ rowsOf post, ¬ entryStampCmp y ent < 0 := by
  obtain ⟨horder, hhint⟩ := h
  rw [hentries] at horder hhint
  refine ⟨fun x hx => ?_, fun y hy hbefore => ?_⟩
  · obtain ⟨hx, hrow⟩ := mem_rowsOf.mp hx
    obtain hx | hx := List.mem_append.mp hx
    · obtain ⟨rfl, -⟩ | ⟨hint, front, hset, hbefore, rfl⟩ := hskipped
      · exact absurd hx List.not_mem_nil
      · obtain hx | hx := List.mem_append.mp hx
        · refine hhint hint hset hbefore x ?_ hrow
          have hne : ∀ z ∈ front, decide (z ≠ hint) = true := fun z hz => by
            rw [List.append_assoc, List.append_assoc] at hnodup
            exact decide_eq_true ((List.nodup_append.mp hnodup).2.2 z hz hint (by simp))
          rw [List.append_assoc, List.append_assoc, List.takeWhile_append_of_pos hne]
          exact List.mem_append_left _ hx
        · rwa [List.mem_singleton.mp hx]
    · exact hpass x hx
  · obtain ⟨hy, hrow⟩ := mem_rowsOf.mp hy
    obtain ⟨first, post, rfl⟩ := List.exists_cons_of_ne_nil (List.ne_nil_of_mem hy)
    refine hstop first rfl ?_
    obtain rfl | hy := List.mem_cons.mp hy
    · exact hbefore
    · exact (List.pairwise_cons.mp (List.pairwise_append.mp horder).2.1).1 y hy hrow hbefore

/-- A list of rows splits at the place of a row as its entries do. -/
theorem takeWhile_of_split {front back : List Entry} (hsplit : front ++ back = shown.map Row.entry)
    (hfront : ∀ x ∈ front, entryStampCmp x row.entry < 0) (hback : ∀ y ∈ back, ¬ entryStampCmp y row.entry < 0) :
    front = (shown.takeWhile (isBefore row)).map Row.entry ∧ back = (shown.dropWhile (isBefore row)).map Row.entry := by
  obtain ⟨s₁, s₂, rfl, rfl, rfl⟩ := List.map_eq_append_iff.mp hsplit.symm
  have h₁ : ∀ r ∈ s₁, isBefore row r = true := fun r hr => isBefore_iff.mpr (hfront _ (List.mem_map_of_mem hr))
  have h₂ : ∀ r ∈ s₂, isBefore row r = false := fun r hr => by
    rw [← Bool.not_eq_true, isBefore_iff]
    exact hback _ (List.mem_map_of_mem hr)
  rw [List.takeWhile_append_of_pos h₁, List.dropWhile_append_of_pos h₁]
  cases s₂ with
  | nil => simp
  | cons r s₂ => simp [h₂ r List.mem_cons_self]

/-- An older row gets between the rows of its place, and the index of the first row stays. -/
theorem Slice.backfill (h : Slice rows buf l before shown behind) (settings : Settings) (hrow : row.Fits rows)
    (hlow : buf.matFirstIndex ≤ ordinal rows row) (hhigh : ordinal rows row < buf.matFirstIndex + buf.dbCount)
    (hhead : ordinal rows row = buf.matFirstIndex → HeadFits buf row.entry) (hplace : PlaceFits buf row.entry) :
    ∃ l' before' shown',
      Slice (saveRow rows row) (insertSortedEntry settings buf row.id row.timestamp) l' before' shown' behind := by
  obtain ⟨skipped, passed, post, ent, l', heads, rfl, hskipped, hpass, hstop, hlive⟩ :=
    insertSortedEntry_effect settings h.list (h.fresh hrow) row.timestamp
  obtain rfl : ent = row.entry := hlive.entry row.id_bounds.1
  have hfirst := h.first
  have hcount := h.count
  obtain ⟨hsave, hordinal⟩ := saveRow_inside row h.split (by omega) (by omega)
  have hnodup := h.list.nodup
  rw [List.append_nil] at hnodup
  obtain ⟨hfront, hback⟩ := hplace.apart h.list.entries hnodup hskipped hpass hstop
  have hwindow := h.window
  rw [rowsOf_append] at hwindow
  obtain ⟨hpre, hpost⟩ := takeWhile_of_split hwindow hfront hback
  have hkept : (if (row.entry).hasDbRow = true ∧ skipped ++ passed = [] then
      (if buf.matFirstIndex > 0 then buf.matFirstIndex - 1 else 0) else buf.matFirstIndex) = (before.length : Int) := by
    split
    · rename_i hboth
      -- Nothing was passed, so the row belongs before the head of the window.
      rw [hboth.2] at hpre
      have hnone : (shown.takeWhile (isBefore row)).length = 0 := by
        rw [← List.length_map (f := Row.entry), ← hpre]
        rfl
      obtain ⟨hnoskip, hnopass⟩ := List.append_eq_nil_iff.mp hboth.2
      obtain hzero | ⟨x, hx, hbefore⟩ | ⟨hint, hset, hbefore⟩ := hhead (by omega)
      · rw [if_neg (by omega)]
        omega
      · rw [h.list.first, hboth.2, List.nil_append] at hx
        exact absurd hbefore (hstop x hx)
      · obtain ⟨-, hnohint⟩ | ⟨hint', front, -, -, hskip⟩ := hskipped
        · exact absurd hbefore (hnohint hint hset)
        · rw [hnoskip] at hskip
          simp at hskip
    · exact hfirst
  obtain ⟨before', shown', hslice⟩ := hlive.slice hsave
    (by rw [rowsOf_append (skipped ++ passed), rowsOf_cons_of_row rfl, hpre, hpost]; simp) hkept
    (by rw [hlive.total, h.total, length_saveRow]; rfl)
  exact ⟨l', before', shown', hslice⟩

end Moves

/-! ## Runs -/

/-- The rows of the list are those of the channel from `mat_first_index` on. -/
def Windowed (w : World) : Prop :=
  ∃ l, w.buf.links.Holds l ∧ 0 ≤ w.buf.matFirstIndex ∧ w.buf.matFirstIndex + w.buf.dbCount ≤ w.rows.length ∧
    rowsOf l = ((w.rows.drop w.buf.matFirstIndex.toNat).take w.buf.dbCount.toNat).map Row.entry ∧
    w.buf.totalEntries = w.rows.length

/-- A row of the channel that is in the window. -/
def InWindow (buf : Buffer) (o : Int) : Prop := buf.matFirstIndex ≤ o ∧ o < buf.matFirstIndex + buf.dbCount

instance (rows : List Row) : Decidable (Kempt rows) :=
  decidable_of_iff (Ordered rows ∧ ∀ r ∈ rows, r.text ≠ []) ⟨fun h => ⟨h.1, h.2⟩, fun h => ⟨h.1, h.2⟩⟩

instance (row : Row) (rows : List Row) : Decidable (row.Fits rows) := inferInstanceAs (Decidable (_ ∧ _ ∧ _))

instance (buf : Buffer) (ent : Entry) : Decidable (HeadFits buf ent) := inferInstanceAs (Decidable (_ ∨ _ ∨ _))

instance (buf : Buffer) (ent : Entry) : Decidable (PlaceFits buf ent) := inferInstanceAs (Decidable (_ ∧ _))

instance (w : World) : (move : Move) → Decidable (move.Valid w)
  | .live _ | .backfill _ => inferInstanceAs (Decidable (_ ∧ _ ∧ _))
  | .appendNotice _ | .insertNotice _ => inferInstanceAs (Decidable (_ < _))
  | .ensureRange _ _ | .prune | .setGaps _ | .setBatchMode _ | .select _ _ => inferInstanceAs (Decidable True)

instance (w : World) : (move : Move) → Decidable (move.FindsPlace w)
  | .backfill _ => inferInstanceAs (Decidable (_ ∧ _))
  | .live _ | .appendNotice _ | .insertNotice _ | .ensureRange _ _ | .prune | .setGaps _ | .setBatchMode _ | .select _ _ =>
    inferInstanceAs (Decidable True)

section Runs

variable {settings : Settings} {rows before shown behind : List Row} {w : World} {l : List Entry}

/-- What a move keeps. -/
def Sliced (w : World) : Prop := Kempt w.rows ∧ ∃ l before shown behind, Slice w.rows w.buf l before shown behind

theorem Slice.windowed (h : Slice w.rows w.buf l before shown behind) : Windowed w := by
  have hcount := h.count
  have hfirst := h.first
  have hlength : w.rows.length = before.length + (shown.length + behind.length) := by
    rw [h.split, List.length_append, List.length_append]
  refine ⟨l, h.list.holds, by omega, by omega, ?_, h.total⟩
  rw [hcount, hfirst, Int.toNat_natCast, Int.toNat_natCast, h.split, List.drop_left, List.take_left, h.window]

theorem setVirtual_sliced (hrows : Kempt rows) : Sliced (setVirtual rows) := by
  obtain ⟨-, l, hshown, -⟩ := setVirtual_inOrder hrows.ordered
  obtain rfl : l = [] := List.eq_nil_of_length_eq_zero (Nat.le_zero.mp hshown.fuel)
  exact ⟨hrows, [], rows, [], [], hshown, by simp [setVirtual], rfl, rfl, rfl⟩

theorem moveStep_sliced (settings : Settings) (w : World) (move : Move) (h : Sliced w)
    (hmove : move.Valid w ∧ move.FindsPlace w) : Sliced (moveStep settings w move) := by
  obtain ⟨hkempt, l, before, shown, behind, hslice⟩ := h
  obtain ⟨hvalid, hfinds⟩ := hmove
  have hsame : ∀ buf : Buffer, Shown buf l [] → buf.matFirstIndex = w.buf.matFirstIndex →
      buf.totalEntries = w.buf.totalEntries → Sliced { w with buf := buf } := fun buf hshown hfirst htotal =>
    ⟨hkempt, l, before, shown, behind, hshown, hslice.split, hslice.window, hfirst.trans hslice.first,
      htotal.trans hslice.total⟩
  cases move with
  | ensureRange center radius =>
    obtain ⟨l', before', shown', behind', hslice', -⟩ := hslice.virtEnsureRange hkempt settings center radius
    exact ⟨hkempt, l', before', shown', behind', hslice'⟩
  | live row =>
    obtain ⟨hfits, hnewest, hend⟩ := hvalid
    obtain ⟨l', before', shown', behind', hslice'⟩ := hslice.live settings hfits hnewest hend
    exact ⟨hkempt.save hfits, l', before', shown', behind', hslice'⟩
  | backfill row =>
    obtain ⟨hfits, hlow, hhigh⟩ := hvalid
    obtain ⟨l', before', shown', hslice'⟩ := hslice.backfill settings hfits hlow hhigh hfinds.1 hfinds.2
    exact ⟨hkempt.save hfits, l', before', shown', behind, hslice'⟩
  | appendNotice stamp =>
    obtain ⟨l', before', shown', hslice'⟩ := hslice.appendNotice settings stamp
    exact ⟨hkempt, l', before', shown', behind, hslice'⟩
  | insertNotice stamp =>
    obtain ⟨l', before', shown', hslice'⟩ := hslice.insertNotice settings stamp
    exact ⟨hkempt, l', before', shown', behind, hslice'⟩
  | prune =>
    obtain ⟨l', heads, ht⟩ := removeTop_trimmed hslice.list
    obtain ⟨gone, shown', rest, -, -, -, hslice'⟩ := hslice.trim ht
    exact ⟨hkempt, l', _, shown', _, hslice'⟩
  | setGaps gapCache => exact hsame _ (hslice.list.same rfl rfl rfl rfl rfl rfl) rfl rfl
  | setBatchMode on => exact hsame _ (hslice.list.setBatchMode on) rfl rfl
  | select startId endId => exact hsame _ (hslice.list.same rfl rfl rfl rfl rfl rfl) rfl rfl

/-- **The window is a slice of the store** in every run whose inserted rows find their place, and any range that is then
asked for is in it afterwards. -/
theorem window_is_slice (settings : Settings) (rows : List Row) (hrows : Kempt rows) (moves : List Move)
    (hvalid : Along (moveStep settings) (fun w move => move.Valid w) (setVirtual rows) moves)
    (hfinds : Along (moveStep settings) (fun w move => move.FindsPlace w) (setVirtual rows) moves) :
    Windowed (moves.foldl (moveStep settings) (setVirtual rows)) ∧ ∀ center radius o, wantedStart center radius ≤ o →
      o ≤ wantedEnd (moves.foldl (moveStep settings) (setVirtual rows)).buf.totalEntries center radius →
      InWindow (moveStep settings (moves.foldl (moveStep settings) (setVirtual rows)) (.ensureRange center radius)).buf
        o := by
  obtain ⟨hkempt, l, before, shown, behind, hslice⟩ :=
    (hvalid.and hfinds).invariant (moveStep_sliced settings) (setVirtual_sliced hrows)
  refine ⟨hslice.windowed, fun center radius o hlow hhigh => ?_⟩
  obtain ⟨l', before', shown', behind', hslice', hcovers⟩ := hslice.virtEnsureRange hkempt settings center radius
  obtain ⟨hbefore, hend⟩ := hcovers (by omega)
  have hfirst := hslice'.first
  have hcount := hslice'.count
  show _ ≤ o ∧ o < _
  rw [show (moveStep settings _ (.ensureRange center radius)).buf.matFirstIndex = _ from hfirst,
    show (moveStep settings _ (.ensureRange center radius)).buf.dbCount = _ from hcount]
  omega

/-- A notice in front, an older row directly before the head of the window, a live row, and a wider range. -/
theorem notice_in_front_windowed : Windowed
    ([.ensureRange 2 0, .insertNotice 5, .backfill ⟨4, 25, [65], by decide⟩, .live ⟨5, 40, [65], by decide⟩,
        .ensureRange 1 1].foldl (moveStep ⟨true, 1000, utc⟩)
      (setVirtual [⟨1, 10, [65], by decide⟩, ⟨2, 20, [65], by decide⟩, ⟨3, 30, [65], by decide⟩])) :=
  (window_is_slice ⟨true, 1000, utc⟩ _ (by decide) _ (by decide) (by decide)).1

/-- A row that is saved directly before the head of the window, and gets in front: the index goes down to a row that is
not shown. -/
theorem row_in_front_not_windowed : ¬ ∀ (settings : Settings) (rows : List Row) (moves : List Move), Kempt rows →
    Along (moveStep settings) (fun w move => move.Valid w) (setVirtual rows) moves →
    Windowed (moves.foldl (moveStep settings) (setVirtual rows)) := by
  intro hall
  obtain ⟨l, hholds, -, -, hrows, -⟩ := hall ⟨true, 1000, utc⟩
    [⟨1, 10, [65], by decide⟩, ⟨2, 20, [65], by decide⟩, ⟨3, 30, [65], by decide⟩]
    [.ensureRange 2 0, .backfill ⟨4, 25, [65], by decide⟩] (by decide) (by decide)
  have hslice : rowsOf l = [⟨2, 20, true, .message⟩, ⟨4, 25, true, .message⟩] := hrows.trans (by decide)
  have hmem : (⟨2, 20, true, .message⟩ : Entry) ∈ l := (mem_rowsOf.mp (hslice ▸ List.mem_cons_self)).1
  obtain ⟨pre, post, rfl⟩ := List.append_of_mem hmem
  have hnone : pre.getLast? = none := hholds.neighbours.1.symm.trans (by decide)
  obtain rfl := List.getLast?_eq_none_iff.mp hnone
  have hfirst : some (⟨2, 20, true, .message⟩ : Entry) = some ⟨4, 25, true, .message⟩ :=
    hholds.first.symm.trans (by decide)
  cases hfirst

end Runs

/-! ## The store behind the view -/

section Store

variable {s : Scrollback.Sb} {channel : String} {rows : List Row} {msgs : List Scrollback.Msg}

/-- The rows are what is read of some messages. -/
def Reads (rows : List Row) (msgs : List Scrollback.Msg) : Prop :=
  rows.map (fun r => ((r.id : Int), r.timestamp)) = msgs.map fun m => (m.id, m.timestamp)

/-- The store keeps the rows of a channel in order. -/
theorem Reads.ordered (h : Reads rows (Scrollback.channelRows s.messages s.channels channel)) (hs : s.Sane) :
    Ordered rows := by
  have hstore : ((Scrollback.channelRows s.messages s.channels channel).map (·.id)).Nodup ∧
      (Scrollback.channelRows s.messages s.channels channel).Pairwise fun a b => a.key < b.key := by
    unfold Scrollback.channelRows
    split
    · exact ⟨List.nodup_nil, List.Pairwise.nil⟩
    · refine ⟨?_, Scrollback.selectAsc_ranked hs.ids _⟩
      exact (((Scrollback.selectAsc_perm _ _).map _).nodup_iff).mpr ((List.filter_sublist.map _).nodup hs.ids)
  constructor
  · have hpairs : (rows.map fun r => ((r.id : Int), r.timestamp)).Pairwise fun a b =>
        a.2 < b.2 ∨ a.2 = b.2 ∧ a.1 < b.1 := by
      rw [h]
      exact List.pairwise_map.mpr (hstore.2.imp Scrollback.Msg.key_lt.mp)
    refine List.pairwise_map.mpr ((List.pairwise_map.mp hpairs).imp fun hlt => entry_before.mpr ?_)
    omega
  · have hids : rows.map (fun r => (r.id : Int)) =
        (Scrollback.channelRows s.messages s.channels channel).map (·.id) := by
      have hfst := congrArg (List.map Prod.fst) h
      rwa [List.map_map, List.map_map] at hfst
    rw [← hids] at hstore
    refine List.pairwise_map.mpr ((List.pairwise_map.mp hstore.1).imp fun hne heq => hne ?_)
    rw [heq]

/-- `scrollback_load_range` answers with the rows of the range, and `scrollback_count` with their number. -/
theorem Reads.loadRange (h : Reads rows (Scrollback.channelRows s.messages s.channels channel)) (hs : s.Sane)
    (hc : s.Coherent) {offset limit : Int} (hrange : max offset 0 + Scrollback.rowLimit limit ≤ Scrollback.G_MAXINT) :
    Reads (loadRange rows offset limit) (Scrollback.scrollbackLoadRange s channel offset limit).1 ∧
      (Scrollback.scrollbackCount s channel).1 = rows.length := by
  rw [(Scrollback.scrollbackLoadRange_exact hs hc hrange).1, (Scrollback.scrollbackCount_exact hs hc).1]
  unfold Reads at h ⊢
  refine ⟨?_, ?_⟩
  · rw [View.loadRange, List.map_take, List.map_drop, h, ← List.map_drop, ← List.map_take]
    rfl
  · have hlength := congrArg List.length h
    rw [List.length_map, List.length_map] at hlength
    omega

end Store

end PoxChat.Xtext.View
