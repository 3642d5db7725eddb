import PoxChat.ChatHistory.Catchup

/-!
# Batches

What happens when a `chathistory` batch ends: `chathistoryProcessBatch` decides what the batch
answers, replays its messages at once or a chunk per timer tick, and `finishBatchProcessing` advances
the queue, the catch-up and the gap ledger.

* A chunk is named by a number; `calls` is the history of the replayed messages and of the finished
  batches, by chunk.  No function reads it.
* `sess->chunk_state` is kept beside the sessions, in `chunkState`.
* `Event`, `step`, `run` — what can happen on one connection, in any order.
-/

set_option autoImplicit false

namespace PoxChat.ChatHistory

open Lib Scrollback

/-! ## Known messages -/

/-- `make_dedup_key`, or the msgid alone without a timestamp. -/
def dedupKey (msgid : String) (timestamp : Int) : String :=
  if 0 < timestamp then msgid ++ "@" ++ toString timestamp else msgid

/-- `chathistory_track_msgid_ts`. -/
def chathistoryTrackMsgidTs (n : Net) (i : Nat) (msgid : String) (timestamp : Int) (isHistory : Bool) : Net :=
  if msgid = "" then n
  else
    let key := dedupKey msgid timestamp
    if key ∈ (n.heap i).knownMsgids then n
    else
      n.upd i fun s => { s with
        knownMsgids := key :: s.knownMsgids
        newestMsgid := if isHistory then s.newestMsgid else some msgid
        oldestMsgid := s.oldestMsgid.or (some msgid) }

/-- `chathistory_is_duplicate_msgid`. -/
def chathistoryIsDuplicateMsgid (n : Net) (i : Nat) (msgid : String) (timestamp : Int) : Bool × Net :=
  if msgid = "" then (false, n)
  else if dedupKey msgid timestamp ∈ (n.heap i).knownMsgids then (true, n)
  else if (n.heap i).channel = "" then (false, n)
  else
    match n.db with
    | none => (false, n)
    | some db =>
      let (found, db) := scrollbackHasMsgid db (n.heap i).channel msgid timestamp
      (found, { n with db := some db })

/-- The handlers of a replayed message. -/
def runHandlers (n : Net) (i : Nat) (msg : BatchMessage) : Net :=
  let s := n.heap i
  let n := n.store fun db => Scrollback.run db (n.handlers.stores s msg)
  match n.handlers.tracks s msg, msg.msgid with
  | some j, some m => chathistoryTrackMsgidTs n j m msg.timestamp false
  | _, _ => n

/-- `process_batch_message`: FALSE for a duplicate. -/
def processBatchMessage (n : Net) (i : Nat) (msg : BatchMessage) : Bool × Net :=
  match msg.command with
  | none => (false, n)
  | some command =>
    let (duplicate, n) := match msg.msgid with
      | some m => chathistoryIsDuplicateMsgid n i m msg.timestamp
      | none => (false, n)
    if duplicate then (false, n)
    else
      let n := match msg.msgid with
        | some m => chathistoryTrackMsgidTs n i m msg.timestamp true
        | none => n
      let n := n.upd i fun s => { s with currentMsgid := msg.msgid }
      -- the JOIN that opened this session was already shown
      if asciiCaseEq command "JOIN" ∧ msg.msgid.isSome ∧ (n.heap i).joinMsgid = msg.msgid then (true, n)
      else (true, runHandlers n i msg)

/-! ## Finishing a batch -/

/-- `chathistory_chunk_state`. -/
structure Chunk where
  id : Nat
  sess : Nat
  remaining : List BatchMessage
  msgCount : Int
  rawCount : Int
  oldestTimestamp : Int
  newestTimestamp : Int
  batchOldestMsgid : Option String
  batchNewestMsgid : Option String
  isCatchup : Bool
  chathistoryEnd : Bool
  unsolicited : Bool
  latestOwned : Bool
  latestSlotOwed : Bool
  gapId : Int
  gapDir : Int

/-- `schedule_background_fetch`. -/
def scheduleBackgroundFetch (n : Net) (i : Nat) : Net :=
  if (n.heap i).backgroundHistoryActive then n.upd i fun s => { s with backgroundHistoryTimer := true } else n

/-- End of a BEFORE walk: what is left of its gap is settled by `settle`. -/
def endBefore (n : Net) (i : Nat) (settle : Sb → Int → Sb) : Net :=
  let gapId := (n.heap i).catchupGapId
  let n := if 0 < gapId then n.store fun db => settle db gapId else n
  chathistoryCheckBeforeCatchup (finishCatchup n i)

/-- The BEFORE walk goes on: budgets first, then the next hop. -/
def continueBefore (n : Net) (k : Chunk) : Net :=
  let retrieved := (n.heap k.sess).historyCatchupRetrieved
  if n.prefs.gapfill ∧ 0 < n.prefs.gapfillCatchupBudget ∧ n.prefs.gapfillCatchupBudget ≤ retrieved then
    chathistoryCheckBeforeCatchup (finishCatchup n k.sess)
  else if CHATHISTORY_SANITY_LIMIT ≤ retrieved then chathistoryCheckBeforeCatchup (finishCatchup n k.sess)
  else if k.batchOldestMsgid.isSome then scheduleBeforeCatchup (n.setBeforeSess none)
  else chathistoryCheckBeforeCatchup (finishCatchup n k.sess)

/-- The BEFORE arm of `finish_batch_processing`. -/
def finishBefore (n : Net) (k : Chunk) : Net :=
  let i := k.sess
  let n := n.upd i fun s => { s with historyCatchupRetrieved := s.historyCatchupRetrieved + k.msgCount }
  let n := if 0 < (n.heap i).catchupGapId ∧ 0 < k.rawCount ∧ 0 < k.oldestTimestamp then
      n.store fun db => scrollbackGapShrink db (n.heap i).catchupGapId 0 none k.oldestTimestamp k.batchOldestMsgid
    else n
  let s := n.heap i
  let dead (db : Sb) (gapId : Int) : Sb := scrollbackGapSetState db gapId .dead
  if k.rawCount = 0 ∨ s.historyExhausted then endBefore n i dead
  else if 0 < s.catchupLowerBound ∧ 0 < k.oldestTimestamp ∧ k.oldestTimestamp < s.catchupLowerBound then
    endBefore n i scrollbackGapDelete
  else if k.msgCount = 0 then
    let n := n.upd i fun s => { s with historyCatchupStaleCount := s.historyCatchupStaleCount + 1 }
    if 3 ≤ (n.heap i).historyCatchupStaleCount then
      endBefore (n.upd i fun s => { s with historyExhausted := true }) i dead
    else continueBefore n k
  else continueBefore (n.upd i fun s => { s with historyCatchupStaleCount := 0 }) k

/-- The gap-ledger witness of the LATEST arm: the batch did not reach back to the newest row stored
before it. -/
def witnesses (n : Net) (k : Chunk) : Bool :=
  let s := n.heap k.sess
  k.latestOwned && n.prefs.gapfill && decide (0 < k.rawCount ∧ 0 < s.catchupPrevNewestTime ∧
    0 < k.oldestTimestamp ∧ 0 < s.catchupLowerBound ∧ s.catchupLowerBound < k.oldestTimestamp)

def recordWitness (n : Net) (k : Chunk) : Net :=
  match n.db with
  | none => n
  | some db =>
    let s := n.heap k.sess
    let (gapId, db) := scrollbackGapRecord db s.channel s.catchupPrevNewestTime s.catchupPrevNewestMsgid
      k.oldestTimestamp k.batchOldestMsgid .witnessed
    ({ n with db := some db }).upd k.sess fun s => { s with catchupGapId := gapId }

/-- The LATEST arm of `finish_batch_processing`. -/
def finishLatest (n : Net) (k : Chunk) : Net :=
  let n := if witnesses n k then recordWitness n k else n
  let n := if k.latestOwned then n.returnSlot k.sess else n
  checkWhenNonePending n

/-- Whether a gap-fill batch closes its gap. -/
def bridges (n : Net) (k : Chunk) (g : Gap) : Bool :=
  decide ((if k.gapDir < 0 then 0 < k.oldestTimestamp ∧ k.oldestTimestamp ≤ g.startTs
      else 0 < k.newestTimestamp ∧ g.endTs ≤ k.newestTimestamp) ∨
    k.rawCount < getEffectiveLimit n.serv n.prefs.chathistoryLines)

/-- The clamp of the ledger row a gap-fill batch answers. -/
def clampGap (n : Net) (k : Chunk) : Net :=
  if 0 < k.gapId ∧ 0 < k.rawCount then
    match n.db.bind fun db => scrollbackGapGet db k.gapId with
    | none => n
    | some g =>
      if bridges n k g then n.store fun db => scrollbackGapDelete db k.gapId
      else if k.gapDir < 0 then
        n.store fun db => scrollbackGapShrink db k.gapId 0 none k.oldestTimestamp k.batchOldestMsgid
      else n.store fun db => scrollbackGapShrink db k.gapId k.newestTimestamp k.batchNewestMsgid 0 none
  else n

/-- `finish_batch_processing` outside of catch-up. -/
def finishPlain (n : Net) (k : Chunk) : Net :=
  let i := k.sess
  let tooOld := (n.heap i).backgroundHistoryActive ∧ 0 < k.oldestTimestamp ∧
    0 < n.prefs.chathistoryBackgroundMaxAge ∧ 0 < maxAgeCutoff n ∧ k.oldestTimestamp < maxAgeCutoff n
  let n := if tooOld ∨ 0 < k.rawCount ∧ k.msgCount = 0 then
      n.upd i fun s => { s with backgroundHistoryActive := false }
    else n
  let n := clampGap n k
  if (n.heap i).backgroundHistoryActive ∧ (n.heap i).historyExhausted = false then scheduleBackgroundFetch n i
  else n

/-- The head of `finish_batch_processing`: the queue, the pagination cursor and the end tag. -/
def settleBatch (n : Net) (k : Chunk) : Net :=
  let i := k.sess
  let n := { n with serv := { n.serv with chathistoryFailStreak := 0 } }
  let n := if k.unsolicited then n else chathistoryRequestComplete n i
  let n := if k.batchOldestMsgid.isSome ∧ 0 < k.rawCount ∧ ¬ (k.unsolicited ∧ k.latestOwned = false) then
      n.upd i fun s => { s with oldestMsgid := k.batchOldestMsgid }
    else n
  if k.chathistoryEnd ∧ k.gapId = 0 ∧ k.unsolicited = false then
    n.upd i fun s => { s with historyExhausted := true }
  else n

/-- `finish_batch_processing`. -/
def finishBatchProcessing (n : Net) (k : Chunk) : Net :=
  let n := settleBatch n k
  if k.isCatchup then
    if (n.heap k.sess).catchupIsBefore then finishBefore n k else finishLatest n k
  else finishPlain n k

/-! ## Chunks -/

/-- A call of `process_batch_message` or of `finish_batch_processing`, for a chunk. -/
inductive Call where
  | message (chunk : Nat) (msg : BatchMessage)
  | finish (chunk : Nat)
  deriving DecidableEq

/-- The connection, and its chunks with their timers armed. -/
structure Client where
  net : Net
  chunks : List Chunk
  chunkState : Nat → Option Nat
  nextChunk : Nat
  calls : List Call

/-- The accumulators of the chunk loop. -/
def Chunk.note (k : Chunk) (msg : BatchMessage) (shown : Bool) (rest : List BatchMessage) : Chunk :=
  { k with
    remaining := rest
    msgCount := if shown then k.msgCount + 1 else k.msgCount
    oldestTimestamp :=
      if 0 < msg.timestamp ∧ (k.oldestTimestamp = 0 ∨ msg.timestamp < k.oldestTimestamp) then msg.timestamp
      else k.oldestTimestamp
    newestTimestamp :=
      if 0 < msg.timestamp ∧ k.newestTimestamp < msg.timestamp then msg.timestamp else k.newestTimestamp }

/-- The loop of `process_chunk_messages`, with the iterations left. -/
def chunkLoop : Nat → Client → Chunk → Client × Chunk
  | 0, c, k => (c, k)
  | i + 1, c, k =>
    match k.remaining with
    | [] => (c, k)
    | msg :: rest =>
      let (shown, net) := processBatchMessage c.net k.sess msg
      chunkLoop i { c with net := net, calls := c.calls ++ [.message k.id msg] } (k.note msg shown rest)

/-- `process_chunk_messages`. -/
def processChunkMessages (c : Client) (k : Chunk) : Client × Chunk := chunkLoop CHATHISTORY_CHUNK_SIZE c k

namespace Client

/-- `finish_batch_processing`, on the client. -/
def finish (c : Client) (k : Chunk) : Client :=
  { c with net := finishBatchProcessing c.net k, calls := c.calls ++ [.finish k.id] }

/-- `chunk_state_free`. -/
def freeChunk (c : Client) (k : Chunk) : Client :=
  { c with
    chunks := c.chunks.filter fun k' => k'.id ≠ k.id
    chunkState := if c.chunkState k.sess = some k.id then Function.update c.chunkState k.sess none
      else c.chunkState }

/-- `release_latest_slot`. -/
def releaseLatestSlot (c : Client) (k : Chunk) : Client :=
  if k.latestSlotOwed then { c with net := c.net.returnSlot k.sess } else c

end Client

/-- `chunk_idle_cb`, for a chunk whose timer is armed. -/
def chunkIdleCb (c : Client) (k : Chunk) : Client :=
  if k.sess ∉ c.net.sessList then
    -- the chunk is detached from its session, so only the list of chunks changes
    let c := c.releaseLatestSlot k
    { c with chunks := c.chunks.filter fun k' => k'.id ≠ k.id }
  else
    let (c, k) := processChunkMessages c k
    if k.remaining = [] then (c.finish k).freeChunk k
    else { c with chunks := c.chunks.map fun k' => if k'.id = k.id then k else k' }

/-- `chathistory_cancel_chunk_processing`. -/
def chathistoryCancelChunkProcessing (c : Client) (i : Nat) : Client :=
  match (c.chunkState i).bind fun id => c.chunks.find? fun k => k.id = id with
  | none => c
  | some k =>
    let c := { c with net := chathistoryQueueFree c.net i }
    (c.releaseLatestSlot k).freeChunk k

/-! ## The end of a batch -/

/-- `batch_info` of a `chathistory` batch; `target` is its first parameter. -/
structure Batch where
  target : Option String
  outerBatch : Option String
  chathistoryEnd : Bool
  messages : List BatchMessage
  deriving DecidableEq

/-- `batch_in_replay_wrapper`. -/
def batchInReplayWrapper (serv : Serv) (b : Batch) : Bool :=
  (b.outerBatch.bind fun id => serv.activeBatches.get id).any isBouncerReplay

/-- `chathistory_batch_is_unsolicited`. -/
def chathistoryBatchIsUnsolicited (n : Net) (b : Batch) (i : Nat) : Bool :=
  batchInReplayWrapper n.serv b || (n.heap i).chActive.isNone && !(n.heap i).historyLoading

/-- The session a batch is for; a replay wrapper opens the dialog of an unknown correspondent. -/
def batchSession (n : Net) (b : Batch) : Option Nat × Net :=
  match b.target with
  | none => (none, n)
  | some target =>
    match findSessionForTarget n target with
    | some i => (some i, n)
    | none =>
      if batchInReplayWrapper n.serv b ∧ target ≠ "" ∧ isChannel n.serv target = false then
        let (i, n) := newIrcwindow n target
        (some i, n)
      else (none, n)

/-- What a batch answers, as `chathistory_process_batch` decides it. -/
structure Shape where
  unsolicited : Bool
  latestOwned : Bool
  isCatchup : Bool
  gapId : Int
  gapDir : Int

/-- The decision; an unsolicited batch may open the LATEST phase of its session. -/
def batchShape (n : Net) (b : Batch) (i : Nat) : Shape × Net :=
  let nested := batchInReplayWrapper n.serv b
  let gapId := if nested then 0 else ((n.heap i).chActive.map (·.gapId)).getD 0
  let gapDir := if nested then 0 else ((n.heap i).chActive.map (·.gapDir)).getD 0
  if chathistoryBatchIsUnsolicited n b i then
    let (owned, n) := chathistoryBeginUnsolicitedCatchup n i
    (⟨true, owned, owned, gapId, gapDir⟩, n)
  else (⟨false, true, (n.heap i).catchupInProgress && decide (gapId = 0), gapId, gapDir⟩, n)

/-- An empty reply to the LATEST of a session is asked again by timestamp. -/
def retriesEmpty (n : Net) (i : Nat) (unsolicited usedMsgid : Bool) : Bool :=
  !unsolicited && !(n.heap i).historyExhausted && usedMsgid && decide (0 < (n.heap i).scrollbackNewestTime)

/-- The empty-batch arm of `chathistory_process_batch`. -/
def processEmptyBatch (n : Net) (b : Batch) (i : Nat) (sh : Shape) : Net :=
  let usedMsgid := (n.heap i).historyRequestUsedMsgid
  let n := if b.chathistoryEnd ∧ sh.gapId = 0 ∧ sh.unsolicited = false then
      n.upd i fun s => { s with historyExhausted := true }
    else n
  let n := if sh.unsolicited then n else chathistoryRequestComplete n i
  if 0 < sh.gapId then
    let (retried, n) := gapFillRetryWithTimestamps n i sh.gapId sh.gapDir
    if retried then n else n.store fun db => scrollbackGapSetState db sh.gapId .dead
  else if sh.isCatchup then
    if retriesEmpty n i sh.unsolicited usedMsgid then
      chathistoryRequestLatest n i (some (chathistoryTsRef (n.heap i).scrollbackNewestTime)) n.prefs.chathistoryLines
    else
      let n := finishCatchup n i
      checkWhenNonePending (if sh.latestOwned then n.returnSlot i else n)
  else if sh.unsolicited then n
  else n.upd i fun s => { s with historyExhausted := true }

/-- `g_slist_sort` with `compare_batch_msg_timestamp`; the sort of GLib is stable. -/
def sortMessages (messages : List BatchMessage) : List BatchMessage :=
  messages.insertionSort fun a b => a.timestamp ≤ b.timestamp

/-- The chunk of a non-empty batch; cursors and the count leave the context messages out. -/
def newChunk (n : Net) (b : Batch) (i id : Nat) (sh : Shape) : Chunk :=
  let messages := sortMessages b.messages
  let raw := messages.filter fun m => !m.context
  { id := id
    sess := i
    remaining := messages
    msgCount := 0
    rawCount := raw.length
    oldestTimestamp := 0
    newestTimestamp := 0
    batchOldestMsgid := (raw.filterMap (·.msgid)).head?
    batchNewestMsgid := (raw.filterMap (·.msgid)).getLast?
    isCatchup := sh.isCatchup
    chathistoryEnd := b.chathistoryEnd
    unsolicited := sh.unsolicited
    latestOwned := sh.latestOwned
    latestSlotOwed := sh.isCatchup && sh.latestOwned && !(n.heap i).catchupIsBefore
    gapId := sh.gapId
    gapDir := sh.gapDir }

/-- The non-empty arm: a small batch is processed at once, a large one in chunks. -/
def processMessages (c : Client) (b : Batch) (i : Nat) (sh : Shape) : Client :=
  let k := newChunk c.net b i c.nextChunk sh
  let c := { c with nextChunk := c.nextChunk + 1 }
  if k.rawCount ≤ CHATHISTORY_CHUNK_SIZE then
    let (c, k) := processChunkMessages c k
    c.finish k
  else
    { c with
      chunks := k :: c.chunks
      chunkState := Function.update c.chunkState i (some k.id) }

/-- `chathistory_process_batch`. -/
def chathistoryProcessBatch (c : Client) (b : Batch) : Client :=
  match batchSession c.net b with
  | (none, net) => { c with net := net }
  | (some i, net) =>
    let (sh, net) := batchShape net b i
    let c := { c with net := net }
    if b.messages = [] then { c with net := processEmptyBatch c.net b i sh } else processMessages c b i sh

/-! ## FAIL -/

/-- The codes that say BETWEEN is not understood. -/
def betweenUnsupportedCode (code : String) : Bool :=
  ["UNKNOWN_COMMAND", "NEED_MORE_PARAMS", "INVALID_PARAMS", "INVALID_MSGREFTYPES"].any (asciiCaseEq code)

/-- The session a FAIL is for. -/
def failSession (n : Net) (context : String) : Option Nat :=
  (findSessionForTarget n context).or (n.sessList.find? fun i => (n.heap i).historyLoading)

/-- A failed gap fill: ask again by timestamp, or count the strike. -/
def failGap (n : Net) (i : Nat) (gapId gapDir : Int) (betweenLatched : Bool) : Net :=
  let (retried, n) := if betweenLatched then (false, n) else gapFillRetryWithTimestamps n i gapId gapDir
  if retried then n
  else
    n.store fun db =>
      match scrollbackGapGet db gapId with
      | none => db
      | some g => if 3 ≤ g.attempts then scrollbackGapSetState db gapId .dead else db

/-- A failed catch-up request: ask again by timestamp, or end the catch-up. -/
def failCatchup (n : Net) (i : Nat) (usedMsgid wasCatchupLatest : Bool) : Net :=
  if n.serv.chathistorySuppressed = false ∧ usedMsgid ∧ 0 < (n.heap i).scrollbackNewestTime then
    chathistoryRequestLatest n i (some (chathistoryTsRef (n.heap i).scrollbackNewestTime)) n.prefs.chathistoryLines
  else checkWhenNonePending (finishCatchup (if wasCatchupLatest then n.returnSlot i else n) i)

/-- The brakes of a FAIL: the streak, and BETWEEN remembered as unsupported. -/
def failBrakes (serv : Serv) (latched : Bool) : Serv :=
  { serv with
    chathistoryFailStreak := serv.chathistoryFailStreak + 1
    chathistorySuppressed := serv.chathistorySuppressed || decide (4 ≤ serv.chathistoryFailStreak + 1)
    chathistoryBetweenUnsupported := serv.chathistoryBetweenUnsupported || latched }

/-- `chathistory_handle_fail`. -/
def chathistoryHandleFail (n : Net) (code context : String) : Net :=
  match failSession n context with
  | none => n
  | some i =>
    let s := n.heap i
    let wasCatchupLatest := s.catchupInProgress && !s.catchupIsBefore
    let failedType := (s.chActive.map (·.type)).getD ReqType.latest
    let gapId := (s.chActive.map (·.gapId)).getD 0
    let gapDir := (s.chActive.map (·.gapDir)).getD 0
    let betweenLatched := decide (failedType = .between) && betweenUnsupportedCode code
    let n := { n with serv := failBrakes n.serv betweenLatched }
    let n := chathistoryRequestComplete n i
    if 0 < gapId then failGap n i gapId gapDir betweenLatched
    else if (n.heap i).catchupInProgress then failCatchup n i s.historyRequestUsedMsgid wasCatchupLatest
    else n

/-! ## Runs -/

/-- `background_history_timer_cb`. -/
def backgroundHistoryTimerCb (n : Net) (i : Nat) : Net :=
  let n := n.upd i fun s => { s with backgroundHistoryTimer := false }
  let s := n.heap i
  if s.backgroundHistoryActive = false then n
  else if n.serv.haveChathistory = false ∨ s.historyExhausted ∨ s.historyLoading then
    n.upd i fun s => { s with backgroundHistoryActive := false }
  else
    match s.oldestMsgid.filter (· ≠ "") with
    | some m => chathistoryRequestBeforeMsgid n i m n.prefs.chathistoryLines
    | none => n.upd i fun s => { s with backgroundHistoryActive := false }

/-- What happens on one connection: batches and lines of the server, timers, the user, and live
traffic that stores rows and tracks msgids. -/
inductive Event where
  | scheduleDeferred
  | deferredStart
  | targetsOnReconnect
  | targetsBatch (messages : List BatchMessage)
  | requestOlder (sess : Nat)
  | requestGapFill (sess : Nat) (gapId approachDir : Int)
  | requestLatest (sess : Nat) (limit : Int)
  | batch (b : Batch)
  | openBatch (id type : String)
  | closeBatch (id : String)
  | fail (code context : String)
  | chunkTick (chunk : Nat)
  | cancelChunk (sess : Nat)
  | tabSwitch (sess : Nat)
  | beforeTimer
  | backgroundTimer (sess : Nat)
  | live (sess : Nat) (msgid : String) (timestamp : Int) (ops : List Op)
  | clock (now : Int)
  deriving DecidableEq

/-- Events that leave the chunks alone.  Timers only fire while armed. -/
def netStep (n : Net) : Event → Net
  | .scheduleDeferred => chathistoryScheduleDeferred n
  | .deferredStart => if n.serv.chathistoryStartTimer then chathistoryDeferredStartCb n else n
  | .targetsOnReconnect => chathistoryRequestTargetsOnReconnect n
  | .targetsBatch messages => chathistoryProcessTargetsBatch n messages
  | .requestOlder i => if i ∈ n.sessList then chathistoryRequestOlder n i else n
  | .requestGapFill i gapId dir => if i ∈ n.sessList then (chathistoryRequestGapFill n i gapId dir).2 else n
  | .requestLatest i limit => if i ∈ n.sessList then chathistoryRequestLatest n i none limit else n
  | .openBatch id type =>
    if (n.serv.activeBatches.get id).isSome then n
    else
      let n := { n with serv := { n.serv with activeBatches := n.serv.activeBatches.put id type } }
      if isBouncerReplay type then chathistoryReplayWrapperBegin n else n
  | .closeBatch id =>
    let n := if (n.serv.activeBatches.get id).any isBouncerReplay then chathistoryReplayWrapperEnd n else n
    { n with serv := { n.serv with activeBatches := n.serv.activeBatches.restrict (· ≠ id) } }
  | .fail code context => chathistoryHandleFail n code context
  | .tabSwitch i =>
    if i ∈ n.sessList then chathistoryNotifyTabSwitch { n with currentSess := some i } i else n
  | .beforeTimer => if n.serv.chathistoryBeforeTimer then chathistoryBeforeTimerCb n else n
  | .backgroundTimer i =>
    if i ∈ n.sessList ∧ (n.heap i).backgroundHistoryTimer then backgroundHistoryTimerCb n i else n
  | .live i msgid timestamp ops =>
    let n := n.store fun db => Scrollback.run db ops
    if i ∈ n.sessList then chathistoryTrackMsgidTs n i msgid timestamp false else n
  | .clock now => { n with now := now }
  | .batch _ => n
  | .chunkTick _ => n
  | .cancelChunk _ => n

/-- The state after an event. -/
def step (c : Client) : Event → Client
  | .batch b => chathistoryProcessBatch c b
  | .chunkTick id =>
    match c.chunks.find? fun k => k.id = id with
    | some k => chunkIdleCb c k
    | none => c
  | .cancelChunk i => chathistoryCancelChunkProcessing c i
  | e => { c with net := netStep c.net e }

def run (c : Client) (es : List Event) : Client := es.foldl step c

end PoxChat.ChatHistory
