import PoxChat.Lib.Links
import PoxChat.Outbound.SendQueue

/-!
# The window of a text view on the store

A buffer of the text view shows a part of the rows of a channel.  Its entries stand in a linked list, which is drawn, and
in a tree sorted by `entry_stamp_cmp`, which is searched by place.

* `Entry` — a row of the store, an entry without a row, or chrome: a day separator or a gap marker.
* `Buffer` — the list, the tree, the ids in use, the counts, and the part of the store that is shown.
* `appendEntry`, `insertSortedEntry`, `virtEnsureRange`, `removeTop`, `removeBottom` — what links and unlinks entries.
* `Op`, `step` — a buffer beside the store that it shows.

The tree is a sorted set under the comparator, and `scrollback_load_range` answers with the rows of a range in their
order.  Times are positive, so no entry takes the time of the clock.  What is drawn (lines, scroll values, marks) is left
out.
-/

set_option autoImplicit false

namespace PoxChat.Xtext.View

open Lib Outbound

/-! ## Entries -/

inductive Kind where
  | message
  | daySep
  | gapMarker (gapId : Int)
  deriving DecidableEq

structure Entry where
  entryId : Nat
  stamp : Int
  hasDbRow : Bool
  kind : Kind
  deriving DecidableEq

def Entry.isDaySep (e : Entry) : Bool :=
  match e.kind with
  | .daySep => true
  | _ => false

def Entry.isGapMarker (e : Entry) : Bool :=
  match e.kind with
  | .gapMarker _ => true
  | _ => false

def Entry.isChrome (e : Entry) : Bool := e.isDaySep || e.isGapMarker

/-- `TEXTENTRY_FLAG_EPHEMERAL`, which a buffer with a store sets on what has no row. -/
def Entry.isEphemeral (e : Entry) : Bool := !e.hasDbRow

def entryStampCmp (ea eb : Entry) : Int :=
  if ea.stamp < eb.stamp then -1
  else if ea.stamp > eb.stamp then 1
  else if ea.isChrome ≠ eb.isChrome then (if ea.isChrome then -1 else 1)
  else if ea.entryId < eb.entryId then -1
  else if ea.entryId > eb.entryId then 1
  else 0

/-! ## The tree -/

def add234 : List Entry → Entry → List Entry
  | [], e => [e]
  | x :: tree, e =>
    if entryStampCmp e x < 0 then e :: x :: tree
    else if entryStampCmp e x = 0 then x :: tree
    else x :: add234 tree e

def del234 (tree : List Entry) (e : Entry) : List Entry := tree.filter fun x => entryStampCmp x e ≠ 0

/-! ## The buffer -/

def localEntryIdBase : Nat := 2 ^ 62

def virtPageSize : Int := 100

def virtMatWindow : Int := 500

/-- A row of the store, with the id SQLite gives it. -/
structure Row where
  id : Nat
  timestamp : Int
  text : Bytes
  id_bounds : 0 < id ∧ id < localEntryIdBase
  deriving DecidableEq

/-- A recorded hole.  The ledger keeps none that does not end after its start. -/
structure Gap where
  gapId : Int
  startTs : Int
  endTs : Int
  forward : startTs < endTs

/-- `localtime_r` and `mktime`: whether two times are on different days, and the midnight before a time. -/
structure LocalTime where
  isDifferentDay : Int → Int → Bool
  dayStart : Int → Option Int

/-- A time on an earlier day is before the midnight of the later one. -/
def LocalTime.Forward (time : LocalTime) : Prop :=
  ∀ a b midnight, a ≤ b → time.isDifferentDay a b = true → time.dayStart b = some midnight → a < midnight

structure Settings where
  daySeparator : Bool
  maxLines : Int
  time : LocalTime

structure Buffer where
  /-- `text_first` and `text_last`, and the pointers of the entries. -/
  links : Links Entry
  entryTree : List Entry
  /-- The keys of `entries_by_id`. -/
  entriesById : List Nat
  ephemeralCount : Int
  nextEntryId : Nat
  gapCache : List Gap
  insertHint : Option Entry
  batchMode : Bool
  selPinStartId : Nat
  selPinEndId : Nat
  totalEntries : Int
  matFirstIndex : Int

/-- `BUF_MAT_COUNT`. -/
def Buffer.matCount (buf : Buffer) : Int := buf.entryTree.length

/-- The entries of the tree that have a row, as the code counts them. -/
def Buffer.dbCount (buf : Buffer) : Int := buf.matCount - buf.ephemeralCount

/-- More steps than the list has entries. -/
def Buffer.fuel (buf : Buffer) : Nat := buf.entryTree.length

/-- What is drawn: the entries from `text_first` on. -/
def Buffer.entries (buf : Buffer) : List Entry := buf.links.toList buf.fuel buf.links.first

/-- `gtk_xtext_init_entry` on a new entry, where `rowid` is `pending_db_rowid`. -/
def initEntry (buf : Buffer) (rowid : Nat) (stamp : Int) (kind : Kind) : Buffer × Entry :=
  if 0 < rowid then
    let ent : Entry := ⟨rowid, stamp, true, kind⟩
    ({ buf with links := buf.links.alloc ent, entriesById := rowid :: buf.entriesById }, ent)
  else
    let id := max buf.nextEntryId localEntryIdBase
    let ent : Entry := ⟨id, stamp, false, kind⟩
    ({ buf with
        links := buf.links.alloc ent
        entriesById := id :: buf.entriesById
        nextEntryId := id + 1
        ephemeralCount := buf.ephemeralCount + 1 }, ent)

/-- `gtk_xtext_kill_ent`. -/
def killEnt (buf : Buffer) (ent : Entry) : Buffer :=
  { buf with
    insertHint := if buf.insertHint = some ent then none else buf.insertHint
    entriesById := buf.entriesById.filter (· ≠ ent.entryId)
    entryTree := del234 buf.entryTree ent
    ephemeralCount := if ent.isEphemeral then buf.ephemeralCount - 1 else buf.ephemeralCount }

/-! ## Linking -/

/-- Where `gtk_xtext_link_entry` links; for `before` the caller has set both pointers of the entry. -/
inductive LinkPosition where
  | tail
  | before (prev next : Option Entry)

/-- The list and the tree of `gtk_xtext_link_entry`. -/
def linkCore (buf : Buffer) (ent : Entry) (pos : LinkPosition) : Buffer :=
  { buf with
    links := match pos with
      | .tail => buf.links.insert ent buf.links.last none
      | .before prev next => buf.links.insert ent prev next
    entryTree := add234 buf.entryTree ent }

/-- Chrome is linked without looking for more chrome. -/
def insertChrome (buf : Buffer) (stamp : Int) (kind : Kind) (prev next : Option Entry) : Buffer :=
  let (buf, sep) := initEntry buf 0 stamp kind
  linkCore buf sep (.before prev next)

def maybeInsertDaySep (settings : Settings) (buf : Buffer) (ent : Entry) : Buffer :=
  if !settings.daySeparator then buf
  else
    match buf.links.prev ent with
    | none => buf
    | some prev =>
      if ent.isDaySep || ent.stamp ≤ 0 then buf
      else if prev.isDaySep then buf
      else if prev.stamp ≤ 0 || !settings.time.isDifferentDay prev.stamp ent.stamp then buf
      else
        match settings.time.dayStart ent.stamp with
        | none => buf
        | some midnight =>
          if ent.stamp ≤ midnight then buf else insertChrome buf midnight .daySep (some prev) (some ent)

/-- The nearest real entry from `pos` back, unless a gap marker stands before it. -/
def realPrev (buf : Buffer) : Nat → Option Entry → Option Entry
  | 0, _ => none
  | _ + 1, none => none
  | fuel + 1, some x =>
    if x.isChrome then (if x.isGapMarker then none else realPrev buf fuel (buf.links.prev x)) else some x

def maybeInsertGapMarker (buf : Buffer) (ent : Entry) : Buffer :=
  match buf.links.prev ent with
  | none => buf
  | some prev =>
    if ent.isChrome || ent.stamp ≤ 0 then buf
    else
      match realPrev buf buf.fuel (some prev) with
      | none => buf
      | some real =>
        if real.stamp ≤ 0 then buf
        else
          match buf.gapCache.find? fun gi => real.stamp ≤ gi.startTs && ent.stamp ≥ gi.endTs with
          | none => buf
          | some gi =>
            let (buf, sep) := initEntry buf 0 gi.endTs (.gapMarker gi.gapId)
            -- Chrome in between may sort after the marker.
            let before := buf.links.walkPrev (fun x => x ≠ real && entryStampCmp x sep > 0) buf.fuel (some prev)
            linkCore buf sep (.before before (buf.links.nextAfter before))

/-- What both sides of a linked entry get. -/
def addChrome (settings : Settings) (buf : Buffer) (ent : Entry) : Buffer :=
  maybeInsertGapMarker (maybeInsertDaySep settings buf ent) ent

/-- `gtk_xtext_link_entry` for a real entry. -/
def linkEntry (settings : Settings) (buf : Buffer) (ent : Entry) (pos : LinkPosition) : Buffer :=
  let buf := addChrome settings (linkCore buf ent pos) ent
  match buf.links.next ent with
  | none => buf
  | some next =>
    if next.isChrome then buf
    else
      let buf := maybeInsertDaySep settings buf next
      match buf.links.next ent with
      | none => buf
      | some next => maybeInsertGapMarker buf next

/-! ## Unlinking -/

/-- `gtk_xtext_drop_edge_day_sep`, and whether it dropped anything. -/
def dropEdgeDaySep (buf : Buffer) (atHead : Bool) : Buffer × Bool :=
  match (if atHead then buf.links.first else buf.links.last) with
  | none => (buf, false)
  | some ent =>
    if !ent.isChrome then (buf, false)
    else
      let links := if atHead then buf.links.unlinkFirst ent else buf.links.unlinkLast ent
      (killEnt { buf with links := links } ent, true)

def removeTop (buf : Buffer) : Buffer :=
  let buf := (dropEdgeDaySep buf true).1
  match buf.links.first with
  | none => buf
  | some ent =>
    if ent.isEphemeral then buf
    else
      let buf := { buf with matFirstIndex := buf.matFirstIndex + 1, links := buf.links.unlinkFirst ent }
      (dropEdgeDaySep (killEnt buf ent) true).1

def removeBottom (buf : Buffer) : Buffer :=
  let buf := (dropEdgeDaySep buf false).1
  match buf.links.last with
  | none => buf
  | some ent =>
    if ent.isEphemeral then buf
    else (dropEdgeDaySep (killEnt { buf with links := buf.links.unlinkLast ent } ent) false).1

/-! ## Live entries -/

/-- Where `gtk_xtext_append_entry` links: an entry that sorts before the last one is walked to its place. -/
def appendPosition (buf : Buffer) (ent : Entry) : LinkPosition :=
  match buf.links.last with
  | none => .tail
  | some last =>
    if entryStampCmp ent last < 0 then
      let pos := buf.links.walkPrev (fun x => entryStampCmp ent x < 0) buf.fuel (some last)
      .before pos (buf.links.nextAfter pos)
    else .tail

def appendEntry (settings : Settings) (buf : Buffer) (rowid : Nat) (stamp : Int) : Buffer :=
  let (buf, ent) := initEntry buf rowid stamp .message
  let buf := linkEntry settings buf ent (appendPosition buf ent)
  let buf := { buf with totalEntries := if ent.hasDbRow then buf.totalEntries + 1 else buf.totalEntries }
  if settings.maxLines > 2 && buf.dbCount > virtMatWindow then removeTop buf else buf

/-- Where `gtk_xtext_insert_sorted_entry` starts. -/
def insertStart (buf : Buffer) (ent : Entry) : Option Entry :=
  match buf.insertHint with
  | some hint => if entryStampCmp hint ent < 0 then buf.links.next hint else buf.links.first
  | none => buf.links.first

/-- And where it links. -/
def insertPosition (buf : Buffer) (ent : Entry) : LinkPosition :=
  let pos := buf.links.walkNext (fun x => entryStampCmp x ent < 0) buf.fuel (insertStart buf ent)
  match pos with
  | none => .before buf.links.last none
  | some x => .before (if buf.links.first = some x then none else buf.links.prev x) (some x)

def insertSortedEntry (settings : Settings) (buf : Buffer) (rowid : Nat) (stamp : Int) : Buffer :=
  let (buf, ent) := initEntry buf rowid stamp .message
  let buf := linkEntry settings buf ent (insertPosition buf ent)
  let buf := { buf with insertHint := if buf.batchMode then some ent else buf.insertHint }
  let buf := if ent.hasDbRow then
      { buf with
        totalEntries := buf.totalEntries + 1
        matFirstIndex := if buf.links.first = some ent then (if buf.matFirstIndex > 0 then buf.matFirstIndex - 1 else 0)
          else buf.matFirstIndex }
    else buf
  if !buf.batchMode && settings.maxLines > 2 && buf.dbCount > virtMatWindow then removeTop buf else buf

/-! ## Rows of the store -/

/-- `scrollback_load_range`. -/
def loadRange (rows : List Row) (offset limit : Int) : List Row :=
  let limit := if limit ≤ 0 then 500 else limit
  (rows.drop offset.toNat).take limit.toNat

/-- The order of the rows of a channel. -/
def isBefore (row r : Row) : Bool := r.timestamp < row.timestamp || r.timestamp = row.timestamp && r.id < row.id

/-- `scrollback_get_index_of_rowid`. -/
def getIndexOfRowid (rows : List Row) (rowid : Nat) : Int :=
  match rows.find? fun r => r.id = rowid with
  | none => 0
  | some row => (rows.filter (isBefore row)).length

/-- `gtk_xtext_virt_materialize_msg`: the entry is in the tree, and not yet in the list. -/
def virtMaterializeMsg (buf : Buffer) (msg : Row) : Buffer × Option Entry :=
  if msg.text = [] then (buf, none)
  else if msg.id ∈ buf.entriesById then (buf, none)
  else
    let (buf, ent) := initEntry buf msg.id msg.timestamp .message
    ({ buf with entryTree := add234 buf.entryTree ent }, some ent)

def virtLinkTailSorted (buf : Buffer) (ent : Entry) : Buffer :=
  let behind := buf.links.walkPrev (fun x => !x.hasDbRow && entryStampCmp x ent > 0) buf.fuel buf.links.last
  { buf with links := buf.links.insert ent behind (buf.links.nextAfter behind) }

/-- Chrome for up to `left` entries that are no day separators, from `pos` on. -/
def chromeLoop (settings : Settings) : Nat → Nat → Buffer → Option Entry → Buffer
  | 0, _, buf, _ => buf
  | _, 0, buf, _ => buf
  | _, _, buf, none => buf
  | fuel + 1, left + 1, buf, some e =>
    let next := buf.links.next e
    if e.isDaySep then chromeLoop settings fuel (left + 1) buf next
    else chromeLoop settings fuel left (addChrome settings buf e) next

/-! ## A far jump -/

/-- Every entry with a row goes, and every day separator. -/
def evictRows : Nat → Buffer → Option Entry → Buffer
  | 0, buf, _ => buf
  | _, buf, none => buf
  | fuel + 1, buf, some e =>
    let next := buf.links.next e
    if !e.hasDbRow && !e.isDaySep then evictRows fuel buf next
    else evictRows fuel (killEnt { buf with links := buf.links.unlink e } e) next

/-- The rows are merged with what was kept, which the cursor passes once. -/
def mergeRows : List Row → Buffer → Option Entry → Buffer
  | [], buf, _ => buf
  | msg :: msgs, buf, cursor =>
    match virtMaterializeMsg buf msg with
    | (buf, none) => mergeRows msgs buf cursor
    | (buf, some ent) =>
      let cursor := buf.links.walkNext (fun x => entryStampCmp x ent < 0) buf.fuel cursor
      mergeRows msgs { buf with links := buf.links.insert ent (buf.links.prevBefore cursor) cursor } cursor

/-- `gtk_xtext_virt_recenter`, and whether anything was loaded. -/
def virtRecenter (settings : Settings) (rows : List Row) (buf : Buffer) (wantStart wantEnd : Int) : Buffer × Bool :=
  let buf := { buf with selPinStartId := 0, selPinEndId := 0 }
  match loadRange rows wantStart (wantEnd - wantStart + 1) with
  | [] => (buf, false)
  | msgs =>
    let buf := evictRows buf.fuel buf buf.links.first
    let buf := mergeRows msgs buf buf.links.first
    let buf := chromeLoop settings buf.fuel buf.fuel buf buf.links.first
    ({ buf with matFirstIndex := wantStart }, true)

/-! ## The range around a place -/

/-- The chain of the rows that are prepended: its ends, and how many there are. -/
def buildChain : List Row → Buffer → Option Entry → Option Entry → Nat → Buffer × Option Entry × Option Entry × Nat
  | [], buf, chainFirst, chainLast, loaded => (buf, chainFirst, chainLast, loaded)
  | msg :: msgs, buf, chainFirst, chainLast, loaded =>
    match virtMaterializeMsg buf msg with
    | (buf, none) => buildChain msgs buf chainFirst chainLast loaded
    | (buf, some ent) =>
      buildChain msgs { buf with links := buf.links.chain chainLast ent } (chainFirst.or (some ent)) (some ent)
        (loaded + 1)

/-- The last of the leading entries without a row that sort before the chain. -/
def spliceAfter (buf : Buffer) (chainFirst : Entry) : Option Entry :=
  buf.links.lastPassed (fun e => !e.hasDbRow && entryStampCmp e chainFirst < 0) buf.fuel none buf.links.first

/-- The chain goes into the list if it holds anything. -/
def spliceChain (buf : Buffer) : Option Entry → Option Entry → Buffer
  | some cf, some cl => { buf with links := buf.links.splice (spliceAfter buf cf) cf cl }
  | _, _ => buf

def prependRows (settings : Settings) (buf : Buffer) (msgs : List Row) (wantStart : Int) : Buffer :=
  let (buf, chainFirst, chainLast, loaded) := buildChain msgs buf none none 0
  let buf := { spliceChain buf chainFirst chainLast with matFirstIndex := wantStart }
  chromeLoop settings buf.fuel (loaded + 1) buf (chainFirst.or buf.links.first)

def appendRows (settings : Settings) : List Row → Buffer → Buffer
  | [], buf => buf
  | msg :: msgs, buf =>
    match virtMaterializeMsg buf msg with
    | (buf, none) => appendRows settings msgs buf
    | (buf, some ent) => appendRows settings msgs (addChrome settings (virtLinkTailSorted buf ent) ent)

/-- The loop that evicts from the head. -/
def evictHeads (wantStart : Int) : Nat → Buffer → Buffer
  | 0, buf => buf
  | fuel + 1, buf =>
    if buf.matFirstIndex < wantStart - virtPageSize ∧ buf.dbCount > virtMatWindow then
      let (buf, dropped) := dropEdgeDaySep buf true
      if dropped then evictHeads wantStart fuel buf
      else
        match buf.links.first with
        | none => buf
        | some ent =>
          if buf.selPinStartId ≠ 0 ∧ ent.entryId = buf.selPinStartId then buf
          else if ent.isEphemeral then buf
          else
            let buf := killEnt { buf with links := buf.links.unlinkFirst ent } ent
            evictHeads wantStart fuel { buf with matFirstIndex := buf.matFirstIndex + 1 }
    else buf

/-- The loop that evicts from the tail. -/
def evictTails (wantEnd : Int) : Nat → Buffer → Buffer
  | 0, buf => buf
  | fuel + 1, buf =>
    if buf.matFirstIndex + buf.dbCount - 1 > wantEnd + virtPageSize ∧ buf.dbCount > virtMatWindow then
      let (buf, dropped) := dropEdgeDaySep buf false
      if dropped then evictTails wantEnd fuel buf
      else
        match buf.links.last with
        | none => buf
        | some ent =>
          if buf.selPinEndId ≠ 0 ∧ ent.entryId = buf.selPinEndId then buf
          else if ent.isEphemeral then buf
          else evictTails wantEnd fuel (killEnt { buf with links := buf.links.unlinkLast ent } ent)
    else buf

/-- The part of `gtk_xtext_calc_lines_virtual_ex` that asks the store for the count and the place of the window. -/
def resync (rows : List Row) (buf : Buffer) : Buffer :=
  let buf := { buf with totalEntries := rows.length }
  match buf.links.walkNext (fun x => !x.hasDbRow) buf.fuel buf.links.first with
  | none => buf
  | some first => { buf with matFirstIndex := getIndexOfRowid rows first.entryId }

/-- The range that is asked for, clamped to the entries there are. -/
def wantedStart (center radius : Int) : Int := if center - radius < 0 then 0 else center - radius

def wantedEnd (total center radius : Int) : Int := if center + radius ≥ total then total - 1 else center + radius

/-- Whether the wanted range is far from the window. -/
def isFar (buf : Buffer) (wantStart wantEnd : Int) : Bool :=
  let matStart := buf.matFirstIndex
  let matEnd := buf.matFirstIndex + buf.dbCount - 1
  buf.dbCount > 0 && (wantEnd < matStart - virtPageSize || wantStart > matEnd + virtPageSize)

/-- The rows before the window. -/
def loadBefore (settings : Settings) (rows : List Row) (buf : Buffer) (wantStart : Int) : Buffer :=
  if wantStart < buf.matFirstIndex then
    prependRows settings buf (loadRange rows wantStart (buf.matFirstIndex - wantStart)) wantStart
  else buf

/-- The rows behind the window, which ended at `matEnd` before any were loaded. -/
def loadBehind (settings : Settings) (rows : List Row) (buf : Buffer) (matEnd wantStart wantEnd : Int) : Buffer :=
  if wantEnd > matEnd then
    if buf.matCount > 0 then appendRows settings (loadRange rows (matEnd + 1) (wantEnd - matEnd)) buf
    else appendRows settings (loadRange rows wantStart (wantEnd - wantStart + 1)) { buf with matFirstIndex := wantStart }
  else buf

/-- The evictions, and the chrome that they leave at an end. -/
def evictEnds (buf : Buffer) (wantStart wantEnd : Int) : Buffer :=
  let buf := (dropEdgeDaySep (evictHeads wantStart buf.fuel buf) true).1
  (dropEdgeDaySep (evictTails wantEnd buf.fuel buf) false).1

/-- A range that is not far. -/
def slideWindow (settings : Settings) (rows : List Row) (buf : Buffer) (wantStart wantEnd : Int) : Buffer :=
  let matEnd := buf.matFirstIndex + buf.dbCount - 1
  evictEnds (loadBehind settings rows (loadBefore settings rows buf wantStart) matEnd wantStart wantEnd) wantStart wantEnd

/-- The jump or the slide to a wanted range. -/
def moveWindow (settings : Settings) (rows : List Row) (buf : Buffer) (wantStart wantEnd : Int) : Buffer :=
  let (buf, recentered) :=
    if isFar buf wantStart wantEnd then virtRecenter settings rows buf wantStart wantEnd else (buf, false)
  if recentered then buf else slideWindow settings rows buf wantStart wantEnd

/-- `gtk_xtext_virt_ensure_range`. -/
def virtEnsureRange (settings : Settings) (rows : List Row) (buf : Buffer) (center radius : Int) : Buffer :=
  let wantStart := wantedStart center radius
  let wantEnd := wantedEnd buf.totalEntries center radius
  if wantEnd < wantStart then buf
  else
    let moved := moveWindow settings rows buf wantStart wantEnd
    if moved.matCount ≠ buf.matCount ∨ moved.matFirstIndex ≠ buf.matFirstIndex then resync rows moved else moved

/-! ## Runs -/

/-- The rows of the channel in their order, and the buffer that shows them. -/
structure World where
  rows : List Row
  buf : Buffer

/-- A new row goes to its place. -/
def saveRow (rows : List Row) (row : Row) : List Row :=
  rows.takeWhile (isBefore row) ++ row :: rows.dropWhile (isBefore row)

inductive Op where
  | save (row : Row)
  /-- `rowid` is 0 for an entry without a row. -/
  | append (rowid : Nat) (stamp : Int)
  | insertSorted (rowid : Nat) (stamp : Int)
  | ensureRange (center radius : Int)
  | removeTop
  | removeBottom
  | setGaps (gapCache : List Gap)
  | setBatchMode (on : Bool)
  | select (startId endId : Nat)

def step (settings : Settings) (w : World) : Op → World
  | .save row => { w with rows := saveRow w.rows row }
  | .append rowid stamp => { w with buf := appendEntry settings w.buf rowid stamp }
  | .insertSorted rowid stamp => { w with buf := insertSortedEntry settings w.buf rowid stamp }
  | .ensureRange center radius => { w with buf := virtEnsureRange settings w.rows w.buf center radius }
  | .removeTop => { w with buf := removeTop w.buf }
  | .removeBottom => { w with buf := removeBottom w.buf }
  | .setGaps gapCache => { w with buf := { w.buf with gapCache := gapCache } }
  | .setBatchMode on =>
    { w with buf := { w.buf with batchMode := on, insertHint := if on then w.buf.insertHint else none } }
  | .select startId endId => { w with buf := { w.buf with selPinStartId := startId, selPinEndId := endId } }

/-- `gtk_xtext_buffer_set_virtual` on an empty buffer. -/
def setVirtual (rows : List Row) : World where
  rows := rows
  buf := {
    links := Links.empty
    entryTree := []
    entriesById := []
    ephemeralCount := 0
    nextEntryId := 1
    gapCache := []
    insertHint := none
    batchMode := false
    selPinStartId := 0
    selPinEndId := 0
    totalEntries := rows.length
    matFirstIndex := rows.length }

end PoxChat.Xtext.View
