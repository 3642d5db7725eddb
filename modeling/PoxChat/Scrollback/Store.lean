import Mathlib.Data.List.Sort
import PoxChat.Lib.Table

/-!
# The scrollback store

The tables `messages`, `channels`, `messages_fts` and `gaps` of `scrollback.c` and the functions that
write the first three or answer ordinal queries (the gap ledger has a module of its own), with the state one `scrollback_db` keeps in memory: the channel-id
cache, the ordinal cache (`sb_chan_cache`) and the search-index state.

* SQL statements are functions on lists of rows, with the `WHERE` clauses as the source has them.
  `ORDER BY timestamp, id` is an insertion sort; `id` is the primary key, so the order is total.
* Rowids are SQLite's for an `INTEGER PRIMARY KEY`: one above the largest in the table.
* No statement fails, except where a `UNIQUE` index makes it: `INSERT OR IGNORE` then stores nothing
  and the `UPDATE` of a pending msgid changes nothing.
* `POXCHAT_NO_ANCHORS` is unset.
-/

set_option autoImplicit false

namespace PoxChat.Scrollback

open Lib

/-- A row of `messages`. -/
structure Msg where
  id : Int
  channelId : Int
  timestamp : Int
  msgid : Option String
  text : String
  redactedBy : Option String
  redactReason : Option String
  redactTime : Int
  isUserMsg : Bool
  deriving DecidableEq

/-- A row of `channels`. -/
structure Chan where
  id : Int
  name : String
  ftsBuilt : Bool
  gapBootstrapDone : Bool

/-- A row of `messages_fts`; the indexed text is not used here. -/
structure FtsRow where
  rowid : Int
  channelId : Int

/-- `SCROLLBACK_GAP_WITNESSED`, `SCROLLBACK_GAP_CANDIDATE`, `SCROLLBACK_GAP_DEAD`. -/
inductive GapState where
  | witnessed
  | candidate
  | dead
  deriving DecidableEq

/-- A row of `gaps`. -/
structure Gap where
  id : Int
  channelId : Int
  startTs : Int
  startMsgid : Option String
  endTs : Int
  endMsgid : Option String
  state : GapState
  attempts : Int
  lastAttempt : Int
  deriving DecidableEq

/-- `sb_anchor`: the row with this key sits at `ordinal`. -/
structure Anchor where
  ordinal : Int
  ts : Int
  id : Int
  deriving DecidableEq

/-- `sb_chan_cache`; the count is -1 while unknown. -/
structure ChanCache where
  count : Int
  maxTs : Int
  anchors : List Anchor
  deriving DecidableEq

/-- `FTS_UNINDEXED`, `FTS_BUILDING`, `FTS_BUILT`. -/
inductive FtsState where
  | unindexed
  | building
  | built
  deriving DecidableEq

/-- `scrollback_db`: the tables, and what the connection keeps in memory. -/
structure Sb where
  messages : List Msg
  channels : List Chan
  messagesFts : List FtsRow
  gaps : List Gap
  fts : Bool
  channelIdCache : Table String Int
  chanCache : Table Int ChanCache
  ftsState : Table Int FtsState
  ftsQueue : List Int
  ftsIdle : Bool
  ftsCurChannel : Int
  ftsCurNext : Int
  ftsCurMax : Int

/-- An empty database, just opened. -/
def Sb.fresh (fts : Bool) : Sb := ⟨[], [], [], [], fts, [], [], [], [], false, 0, 0, 0⟩

def SB_ANCHOR_MAX : Nat := 128
def FTS_BACKFILL_CHUNK : Nat := 500
def G_MAXINT : Int := 2147483647

/-! ## Rows in order -/

/-- `IFNULL(MAX(x), 0)`. -/
def maxOrZero (xs : List Int) : Int := xs.max?.getD 0

/-- The rowid SQLite gives the next row. -/
def nextId (ids : List Int) : Int := maxOrZero ids + 1

/-- `ORDER BY timestamp ASC, id ASC`. -/
def keyLe (a b : Msg) : Prop := a.timestamp < b.timestamp ∨ a.timestamp = b.timestamp ∧ a.id ≤ b.id

instance (a b : Msg) : Decidable (keyLe a b) := inferInstanceAs (Decidable (_ ∨ _))

/-- `SELECT … WHERE p ORDER BY timestamp ASC, id ASC`. -/
def selectAsc (rows : List Msg) (p : Msg → Bool) : List Msg := (rows.filter p).insertionSort keyLe

/-- `SELECT … WHERE p ORDER BY timestamp DESC, id DESC`. -/
def selectDesc (rows : List Msg) (p : Msg → Bool) : List Msg :=
  (rows.filter p).insertionSort fun a b => keyLe b a

/-- `LIMIT limit OFFSET offset`. -/
def limitOffset (rows : List Msg) (limit offset : Int) : List Msg :=
  (rows.drop offset.toNat).take limit.toNat

/-! ## Channels -/

/-- `SELECT id FROM channels WHERE name = ?`. -/
def channelLookup (channels : List Chan) (name : String) : Option Int :=
  (channels.find? fun c => c.name = name).map (·.id)

/-- `INSERT OR IGNORE INTO channels (name) VALUES (?)`. -/
def channelInsert (channels : List Chan) (name : String) : List Chan :=
  if (channelLookup channels name).isSome then channels
  else channels ++ [⟨nextId (channels.map (·.id)), name, false, false⟩]

/-- `scrollback_get_channel_id`: -1 for the empty name. -/
def scrollbackGetChannelId (s : Sb) (channel : String) : Int × Sb :=
  if channel = "" then (-1, s)
  else
    match s.channelIdCache.get channel with
    | some id => (id, s)
    | none =>
      let channels := channelInsert s.channels channel
      match channelLookup channels channel with
      | some id =>
        (id, { s with channels := channels, channelIdCache := s.channelIdCache.put channel id })
      | none => (-1, { s with channels := channels })

/-! ## The ordinal cache -/

def ChanCache.new : ChanCache := ⟨-1, 0, []⟩

/-- `chan_cache_get` with `create`. -/
def chanCacheGet (s : Sb) (channelId : Int) : ChanCache := (s.chanCache.get channelId).getD ChanCache.new

def setChanCache (s : Sb) (channelId : Int) (c : ChanCache) : Sb :=
  { s with chanCache := s.chanCache.put channelId c }

/-- `chan_cache_invalidate`. -/
def chanCacheInvalidate (s : Sb) (channelId : Int) : Sb :=
  match s.chanCache.get channelId with
  | none => s
  | some _ => setChanCache s channelId ⟨-1, 0, []⟩

/-- `chan_cache_invalidate_all`. -/
def chanCacheInvalidateAll (s : Sb) : Sb := { s with chanCache := [] }

/-- The scan of `chan_cache_add_anchor`: whether an anchor has this ordinal, and the index at which
the scan stops. -/
def scanAnchors (ordinal : Int) : List Anchor → Nat → Bool × Nat
  | [], i => (false, i)
  | e :: es, i =>
    if e.ordinal = ordinal then (true, i)
    else if ordinal < e.ordinal then (false, i)
    else scanAnchors ordinal es (i + 1)

/-- The index of the first anchor farthest from `ordinal`; `far` is the best index and distance of
the anchors before `j`. -/
def farAnchor (ordinal : Int) : List Anchor → Nat → Nat × Int → Nat
  | [], _, far => far.1
  | e :: es, j, far =>
    let d : Int := (e.ordinal - ordinal).natAbs
    farAnchor ordinal es (j + 1) (if far.2 < d then (j, d) else far)

/-- `chan_cache_add_anchor`. -/
def chanCacheAddAnchor (c : ChanCache) (ordinal ts id : Int) : ChanCache :=
  if c.count < 0 ∨ ordinal < 0 then c
  else
    match scanAnchors ordinal c.anchors 0 with
    | (true, i) => { c with anchors := c.anchors.set i ⟨ordinal, ts, id⟩ }
    | (false, i) =>
      if SB_ANCHOR_MAX ≤ c.anchors.length then
        let far := farAnchor ordinal c.anchors 0 (0, -1)
        let i := if far < i then i - 1 else i
        { c with anchors := (c.anchors.eraseIdx far).insertIdx i ⟨ordinal, ts, id⟩ }
      else { c with anchors := c.anchors.insertIdx i ⟨ordinal, ts, id⟩ }

/-- The loop of `chan_cache_find_anchors`: the last anchor at or before `ordinal` and the first at
or after `end`. -/
def findAnchors (ordinal last : Int) : List Anchor → Option Anchor → Option Anchor × Option Anchor
  | [], before => (before, none)
  | e :: es, before =>
    let before := if e.ordinal ≤ ordinal then some e else before
    if last ≤ e.ordinal then (before, some e) else findAnchors ordinal last es before

/-- `chan_cache_find_anchors`. -/
def chanCacheFindAnchors (c : ChanCache) (ordinal last : Int) : Option Anchor × Option Anchor :=
  if c.count < 0 then (none, none) else findAnchors ordinal last c.anchors none

/-- `SELECT COUNT(*), IFNULL(MAX(timestamp), 0)`. -/
def countRows (rows : List Msg) (channelId : Int) : Int × Int :=
  let own := rows.filter fun m => m.channelId = channelId
  (own.length, maxOrZero (own.map (·.timestamp)))

/-- `chan_cache_ensure_count`. -/
def chanCacheEnsureCount (s : Sb) (channelId : Int) : ChanCache × Sb :=
  let c := chanCacheGet s channelId
  if 0 ≤ c.count then (c, s)
  else
    let (count, maxTs) := countRows s.messages channelId
    let c := { c with count := count, maxTs := maxTs }
    (c, setChanCache s channelId c)

/-- `chan_cache_note_insert`. -/
def chanCacheNoteInsert (s : Sb) (channelId ts : Int) : Sb :=
  match s.chanCache.get channelId with
  | none => s
  | some c =>
    if c.count < 0 then s
    else if c.count = 0 ∨ c.maxTs ≤ ts then
      setChanCache s channelId { c with count := c.count + 1, maxTs := ts }
    else chanCacheInvalidate s channelId

/-! ## The search index -/

/-- `fts_state_get`: the state in memory, read from `channels.fts_built` the first time. -/
def ftsStateGet (s : Sb) (channelId : Int) : FtsState × Sb :=
  if s.fts = false then (.unindexed, s)
  else
    match s.ftsState.get channelId with
    | some st => (st, s)
    | none =>
      let st := if s.channels.any fun c => c.id = channelId ∧ c.ftsBuilt then .built else .unindexed
      (st, { s with ftsState := s.ftsState.put channelId st })

/-- `fts_state_set`. -/
def ftsStateSet (s : Sb) (channelId : Int) (st : FtsState) : Sb :=
  { s with ftsState := s.ftsState.put channelId st }

/-- `fts_index_row`. -/
def ftsIndexRow (s : Sb) (rowid channelId : Int) : Sb :=
  if s.fts = false then s else { s with messagesFts := s.messagesFts ++ [⟨rowid, channelId⟩] }

/-- `fts_row_indexed`. -/
def ftsRowIndexed (s : Sb) (rowid : Int) : Bool := s.messagesFts.any fun r => r.rowid = rowid

/-- `fts_unindex_row`. -/
def ftsUnindexRow (s : Sb) (rowid : Int) : Sb :=
  if s.fts = false then s
  else { s with messagesFts := s.messagesFts.filter fun r => r.rowid ≠ rowid }

/-- The start of a channel's backfill: the cursor, and `MAX(id)` of the channel at this moment. -/
def ftsStartBackfill (s : Sb) (channelId : Int) : Sb :=
  { s with
    ftsCurChannel := channelId
    ftsCurNext := 0
    ftsCurMax := maxOrZero ((s.messages.filter fun m => m.channelId = channelId).map (·.id)) }

/-- `SELECT id … WHERE channel_id = ?1 AND id > ?2 AND id <= ?3 ORDER BY id ASC LIMIT ?4`. -/
def ftsBackfillRows (s : Sb) : List Int :=
  (((s.messages.filter fun m =>
    m.channelId = s.ftsCurChannel ∧ s.ftsCurNext < m.id ∧ m.id ≤ s.ftsCurMax).map
      (·.id)).insertionSort (· ≤ ·)).take FTS_BACKFILL_CHUNK

/-- The row loop of a backfill chunk. -/
def ftsBackfillLoop (channelId : Int) : Sb → List Int → Sb
  | s, [] => s
  | s, id :: ids =>
    ftsBackfillLoop channelId (if ftsRowIndexed s id then s else ftsIndexRow s id channelId) ids

/-- `UPDATE channels SET fts_built = 1 WHERE id = ?`. -/
def setFtsBuilt (channels : List Chan) (channelId : Int) : List Chan :=
  channels.map fun c => if c.id = channelId then { c with ftsBuilt := true } else c

/-- The chunk of `fts_backfill_idle` for the current channel. -/
def ftsBackfillChunk (s : Sb) : Sb :=
  let ids := ftsBackfillRows s
  let s' := ftsBackfillLoop s.ftsCurChannel s ids
  if ids.length < FTS_BACKFILL_CHUNK then
    let s' := { s' with channels := setFtsBuilt s'.channels s.ftsCurChannel }
    { ftsStateSet s' s.ftsCurChannel .built with ftsCurChannel := 0 }
  else { s' with ftsCurNext := ids.getLastD 0 }

/-- `fts_backfill_idle`; it is an idle source, so it only runs while `fts_idle` is set. -/
def ftsBackfillIdle (s : Sb) : Sb :=
  if s.ftsIdle = false then s
  else if s.ftsCurChannel = 0 then
    match s.ftsQueue with
    | [] => { s with ftsIdle := false }
    | next :: queue => ftsBackfillChunk (ftsStartBackfill { s with ftsQueue := queue } next)
  else ftsBackfillChunk s

/-- `scrollback_fts_schedule`. -/
def scrollbackFtsSchedule (s : Sb) (channel : String) : Sb :=
  if s.fts = false then s
  else
    let (channelId, s) := scrollbackGetChannelId s channel
    if channelId ≤ 0 then s
    else
      let (st, s) := ftsStateGet s channelId
      if st ≠ .unindexed then s
      else
        let s := ftsStateSet s channelId .building
        { s with ftsQueue := s.ftsQueue ++ [channelId], ftsIdle := true }

/-- `scrollback_fts_ready`. -/
def scrollbackFtsReady (s : Sb) (channel : String) : Bool × Sb :=
  if s.fts = false then (false, s)
  else
    let (channelId, s) := scrollbackGetChannelId s channel
    if channelId ≤ 0 then (false, s)
    else
      let (st, s) := ftsStateGet s channelId
      (st == .built, s)

/-! ## Writing messages -/

/-- The `INSERT OR IGNORE` of `scrollback_db_save`: the new row, unless its msgid is taken. -/
def insertMessage (rows : List Msg) (channelId timestamp : Int) (msgid : Option String)
    (text : String) (isUserMsg : Bool) : Option Msg :=
  let msgid := if msgid = some "" then none else msgid
  if msgid.isSome ∧ rows.any (fun m => m.channelId = channelId ∧ m.msgid = msgid) then none
  else some ⟨nextId (rows.map (·.id)), channelId, timestamp, msgid, text, none, none, 0, isUserMsg⟩

/-- The end of `scrollback_db_save`: a stored row is indexed unless its channel was never scheduled. -/
def ftsNoteInsert (s : Sb) (rowid channelId : Int) : Sb :=
  if s.fts = false then s
  else
    let (st, s) := ftsStateGet s channelId
    if st ≠ .unindexed then ftsIndexRow s rowid channelId else s

/-- `scrollback_db_save`: the rowid, or -1 when no row is stored. -/
def scrollbackDbSave (s : Sb) (channel : String) (timestamp : Int) (msgid : Option String)
    (text : String) (isUserMsg : Bool) : Int × Sb :=
  let (channelId, s) := scrollbackGetChannelId s channel
  if channelId < 0 then (-1, s)
  else
    match insertMessage s.messages channelId timestamp msgid text isUserMsg with
    | none => (-1, s)
    | some m =>
      let s := chanCacheNoteInsert { s with messages := s.messages ++ [m] } channelId timestamp
      (m.id, ftsNoteInsert s m.id channelId)

/-- `msgid LIKE 'pending:%'`; `LIKE` ignores the case of ASCII letters. -/
def isPending (msgid : Option String) : Bool :=
  match msgid with
  | none => false
  | some m => (m.toList.take 8).map Char.toLower == "pending:".toList

/-- `scrollback_purge_pending`. -/
def scrollbackPurgePending (s : Sb) (channel : String) : Sb :=
  let (channelId, s) := scrollbackGetChannelId s channel
  if channelId < 0 then s
  else
    let doomed := s.messages.filter fun m => m.channelId = channelId ∧ isPending m.msgid
    let s := if s.fts = false then s
      else { s with messagesFts := s.messagesFts.filter fun r => r.rowid ∉ doomed.map (·.id) }
    let s := { s with
      messages := s.messages.filter fun m => ¬ (m.channelId = channelId ∧ isPending m.msgid) }
    if 0 < doomed.length then chanCacheInvalidate s channelId else s

/-- `scrollback_delete_by_rowid`. -/
def scrollbackDeleteByRowid (s : Sb) (rowid : Int) : Bool × Sb :=
  if rowid ≤ 0 then (false, s)
  else if s.messages.any fun m => m.id = rowid then
    let s := { s with messages := s.messages.filter fun m => m.id ≠ rowid }
    (true, ftsUnindexRow (chanCacheInvalidateAll s) rowid)
  else (false, s)

/-- `UPDATE messages SET msgid = ?1 WHERE channel_id = ?2 AND msgid = ?3`; `none` when the `UNIQUE`
index refuses it. -/
def updateMsgid (rows : List Msg) (channelId : Int) (old new : String) : Option (List Msg) :=
  if old ≠ new ∧ (rows.any fun m => m.channelId = channelId ∧ m.msgid = some old) ∧
      rows.any fun m => m.channelId = channelId ∧ m.msgid = some new then none
  else some (rows.map fun m =>
    if m.channelId = channelId ∧ m.msgid = some old then { m with msgid := some new } else m)

/-- `scrollback_update_pending_msgid`. -/
def scrollbackUpdatePendingMsgid (s : Sb) (channel pendingMsgid realMsgid : String) : Bool × Sb :=
  let (channelId, s) := scrollbackGetChannelId s channel
  if channelId ≤ 0 then (false, s)
  else
    match updateMsgid s.messages channelId pendingMsgid realMsgid with
    | none => (false, s)
    | some rows =>
      (s.messages.any fun m => m.channelId = channelId ∧ m.msgid = some pendingMsgid,
        { s with messages := rows })

/-- `scrollback_clear`, without the reaction and reply tables. -/
def scrollbackClear (s : Sb) (channel : String) : Sb :=
  let (channelId, s) := scrollbackGetChannelId s channel
  if channelId ≤ 0 then s
  else
    let s := chanCacheInvalidate s channelId
    let s := if s.fts = false then s
      else { s with messagesFts := s.messagesFts.filter fun r => r.channelId ≠ channelId }
    { s with messages := s.messages.filter fun m => m.channelId ≠ channelId }

/-! ## Ordinal queries -/

/-- `scrollback_count`. -/
def scrollbackCount (s : Sb) (channel : String) : Int × Sb :=
  let (channelId, s) := scrollbackGetChannelId s channel
  if channelId < 0 then (0, s)
  else
    let (c, s) := chanCacheEnsureCount s channelId
    (c.count, s)

/-- `timestamp > ts OR (timestamp = ts AND id >= id)`. -/
def atOrAfter (a : Anchor) (m : Msg) : Bool :=
  decide (a.ts < m.timestamp ∨ m.timestamp = a.ts ∧ a.id ≤ m.id)

/-- `timestamp < ts OR (timestamp = ts AND id <= id)`. -/
def atOrBefore (a : Anchor) (m : Msg) : Bool :=
  decide (m.timestamp < a.ts ∨ m.timestamp = a.ts ∧ m.id ≤ a.id)

/-- Which statement `scrollback_load_range` runs. -/
inductive Path where
  | plain
  | fwd (before : Anchor)
  | bwd (after : Anchor)
  | nullDeref

def Path.backward : Path → Bool
  | .bwd _ => true
  | _ => false

/-- The choice between the three statements.  Costs are `G_MAXINT` for a missing anchor; binding a
missing anchor's key would dereference `NULL`. -/
def choosePath (before after : Option Anchor) (offset last : Int) : Path :=
  let costPlain := offset
  let costFwd := (before.map fun b => offset - b.ordinal).getD G_MAXINT
  let costBwd := (after.map fun a => a.ordinal - last).getD G_MAXINT
  if costFwd ≤ costPlain ∧ costFwd ≤ costBwd then
    match before with
    | some b => .fwd b
    | none => .nullDeref
  else if costBwd < costPlain then
    match after with
    | some a => .bwd a
    | none => .nullDeref
  else .plain

/-- The rows of the chosen statement, in ascending order. -/
def rangeRows (rows : List Msg) (channelId offset last limit : Int) : Path → List Msg
  | .plain => limitOffset (selectAsc rows fun m => m.channelId = channelId) limit offset
  | .fwd b =>
    limitOffset (selectAsc rows fun m => m.channelId = channelId ∧ atOrAfter b m) limit
      (offset - b.ordinal)
  | .bwd a =>
    (limitOffset (selectDesc rows fun m => m.channelId = channelId ∧ atOrBefore a m) limit
      (a.ordinal - last)).reverse
  | .nullDeref => []

/-- The anchors planted at both edges of what was walked. -/
def plantEdges (c : ChanCache) (path : Path) (offset last : Int) (list : List Msg) : ChanCache :=
  match list.head?, list.getLast? with
  | some first, some final =>
    let firstOrd := if path.backward then last - list.length + 1 else offset
    chanCacheAddAnchor (chanCacheAddAnchor c firstOrd first.timestamp first.id)
      (firstOrd + list.length - 1) final.timestamp final.id
  | _, _ => c

/-- `scrollback_load_range`. -/
def scrollbackLoadRange (s : Sb) (channel : String) (offset limit : Int) : List Msg × Sb :=
  let (channelId, s) := scrollbackGetChannelId s channel
  if channelId < 0 then ([], s)
  else
    let limit := if limit ≤ 0 then 500 else limit
    let offset := if offset < 0 then 0 else offset
    let (c, s) := chanCacheEnsureCount s channelId
    if c.count ≤ 0 ∨ c.count ≤ offset then ([], s)
    else
      let last := min (offset + limit - 1) (c.count - 1)
      let limit := last - offset + 1
      let (before, after) := chanCacheFindAnchors c offset last
      let path := choosePath before after offset last
      let list := rangeRows s.messages channelId offset last limit path
      (list, setChanCache s channelId (plantEdges c path offset last list))

/-- `SELECT COUNT(*)` of the rows in the span `(lo, hi]`. -/
def countSpan (rows : List Msg) (channelId loTs loId hiTs hiId : Int) : Int :=
  (rows.filter fun m => m.channelId = channelId ∧
    (loTs < m.timestamp ∨ m.timestamp = loTs ∧ loId < m.id) ∧
    (m.timestamp < hiTs ∨ m.timestamp = hiTs ∧ m.id ≤ hiId)).length

/-- The loop of `scrollback_get_index_of_rowid`: the last anchor at or before the row, and the first
after it. -/
def anchorsAround (ts rowid : Int) : List Anchor → Option Anchor → Option Anchor × Option Anchor
  | [], before => (before, none)
  | e :: es, before =>
    if e.ts < ts ∨ e.ts = ts ∧ e.id ≤ rowid then anchorsAround ts rowid es (some e)
    else (before, some e)

/-- The `COUNT(*)` of `stmt_index_of_rowid`; comparisons with the `NULL` of an absent row fail. -/
def indexOfRowid (rows : List Msg) (channelId rowid : Int) : Int :=
  match rows.find? fun m => m.id = rowid with
  | none => 0
  | some r => (rows.filter fun m => m.channelId = channelId ∧
      (m.timestamp < r.timestamp ∨ m.timestamp = r.timestamp ∧ m.id < rowid)).length

/-- `scrollback_get_index_of_rowid`. -/
def scrollbackGetIndexOfRowid (s : Sb) (channel : String) (rowid : Int) : Int × Sb :=
  let (channelId, s) := scrollbackGetChannelId s channel
  if channelId < 0 then (0, s)
  else
    let (c, s) := chanCacheEnsureCount s channelId
    let plain := (indexOfRowid s.messages channelId rowid, s)
    match s.messages.find? fun m => m.id = rowid with
    | none => plain
    | some r =>
      if c.count ≤ 0 ∨ c.anchors = [] then plain
      else
        match anchorsAround r.timestamp rowid c.anchors none with
        | (some b, _) =>
          if b.ts = r.timestamp ∧ b.id = rowid then (b.ordinal, s)
          else
            let index := b.ordinal + countSpan s.messages channelId b.ts b.id r.timestamp rowid
            (index, setChanCache s channelId (chanCacheAddAnchor c index r.timestamp rowid))
        | (none, some a) =>
          let index := a.ordinal - countSpan s.messages channelId r.timestamp rowid a.ts a.id
          (index, setChanCache s channelId (chanCacheAddAnchor c index r.timestamp rowid))
        | (none, none) => plain

/-! ## Msgid lookups -/

/-- `msgid IS NOT NULL AND msgid NOT LIKE 'pending:%'`, in a channel. -/
def hasRealMsgid (channelId : Int) (m : Msg) : Bool :=
  decide (m.channelId = channelId ∧ m.msgid.isSome ∧ isPending m.msgid = false)

/-- `scrollback_get_newest_msgid`. -/
def scrollbackGetNewestMsgid (s : Sb) (channel : String) : Option String × Sb :=
  let (channelId, s) := scrollbackGetChannelId s channel
  if channelId < 0 then (none, s)
  else ((selectDesc s.messages (hasRealMsgid channelId)).head?.bind (·.msgid), s)

/-- `scrollback_get_oldest_msgid`. -/
def scrollbackGetOldestMsgid (s : Sb) (channel : String) : Option String × Sb :=
  let (channelId, s) := scrollbackGetChannelId s channel
  if channelId < 0 then (none, s)
  else ((selectAsc s.messages (hasRealMsgid channelId)).head?.bind (·.msgid), s)

/-- `scrollback_get_newest_time`; the `MAX` of no rows is `NULL`, read as 0. -/
def scrollbackGetNewestTime (s : Sb) (channel : String) : Int × Sb :=
  let (channelId, s) := scrollbackGetChannelId s channel
  if channelId < 0 then (0, s) else ((countRows s.messages channelId).2, s)

/-- `scrollback_has_msgid`; timestamp 0 matches by msgid alone. -/
def scrollbackHasMsgid (s : Sb) (channel msgid : String) (timestamp : Int) : Bool × Sb :=
  if msgid = "" then (false, s)
  else
    let (channelId, s) := scrollbackGetChannelId s channel
    if channelId ≤ 0 then (false, s)
    else
      (s.messages.any fun m => m.channelId = channelId ∧ m.msgid = some msgid ∧
        (timestamp = 0 ∨ m.timestamp = timestamp), s)

/-- `scrollback_get_rowid_by_msgid`: 0 when no row of the channel has the msgid. -/
def scrollbackGetRowidByMsgid (s : Sb) (channel msgid : String) : Int × Sb :=
  if msgid = "" then (0, s)
  else
    let (channelId, s) := scrollbackGetChannelId s channel
    if channelId < 0 then (0, s)
    else
      (((s.messages.find? fun m => m.channelId = channelId ∧ m.msgid = some msgid).map (·.id)).getD 0, s)

/-! ## Runs -/

/-- Closing and reopening: the tables stay, the memory does not. -/
def Sb.reopen (s : Sb) : Sb :=
  { Sb.fresh s.fts with
    messages := s.messages
    channels := s.channels
    messagesFts := s.messagesFts
    gaps := s.gaps }

/-- A call, or a tick of the idle source. -/
inductive Op where
  | save (channel : String) (timestamp : Int) (msgid : Option String) (text : String) (isUserMsg : Bool)
  | purgePending (channel : String)
  | deleteByRowid (rowid : Int)
  | clear (channel : String)
  | updatePendingMsgid (channel pendingMsgid realMsgid : String)
  | count (channel : String)
  | loadRange (channel : String) (offset limit : Int)
  | indexOfRowid (channel : String) (rowid : Int)
  | ftsSchedule (channel : String)
  | ftsReady (channel : String)
  | tick
  | reopen
  deriving DecidableEq

/-- The state after a call. -/
def step (s : Sb) : Op → Sb
  | .save channel timestamp msgid text isUserMsg =>
    (scrollbackDbSave s channel timestamp msgid text isUserMsg).2
  | .purgePending channel => scrollbackPurgePending s channel
  | .deleteByRowid rowid => (scrollbackDeleteByRowid s rowid).2
  | .clear channel => scrollbackClear s channel
  | .updatePendingMsgid channel pendingMsgid realMsgid =>
    (scrollbackUpdatePendingMsgid s channel pendingMsgid realMsgid).2
  | .count channel => (scrollbackCount s channel).2
  | .loadRange channel offset limit => (scrollbackLoadRange s channel offset limit).2
  | .indexOfRowid channel rowid => (scrollbackGetIndexOfRowid s channel rowid).2
  | .ftsSchedule channel => scrollbackFtsSchedule s channel
  | .ftsReady channel => (scrollbackFtsReady s channel).2
  | .tick => ftsBackfillIdle s
  | .reopen => s.reopen

def run (s : Sb) (ops : List Op) : Sb := ops.foldl step s

end PoxChat.Scrollback
