import PoxChat.ChatHistory.InFlight

/-!
# Disconnects

What `server_disconnect` leaves of the history state of a server and its sessions, over every run of
connects, disconnects and history events.

* `Link` — a client with the state of its connection; `LinkEvent.step` its events.
* `Client.Fresh` — nothing of the history state is left over.
* `Link.Spared` — a connection is cut while nothing is under way that the cut does not clear.

Principal result: `disconnect_leaves_fresh`.
-/

set_option autoImplicit false

namespace PoxChat.ChatHistory

open Lib Scrollback

/-! ## The model -/

/-- A client and its connection; `waitchannel` is what each session will join again. -/
structure Link where
  client : Client
  connecting : Bool := false
  /-- `recondelay_tag`. -/
  reconDelay : Bool := false
  waitchannel : Nat → String := fun _ => ""

/-- `chathistory_stop_background_fetch`. -/
def chathistoryStopBackgroundFetch (n : Net) (i : Nat) : Net :=
  n.upd i fun s => { s with backgroundHistoryActive := false, backgroundHistoryTimer := false }

/-- `chathistory_cancel_catchup`. -/
def chathistoryCancelCatchup (n : Net) (i : Nat) : Net :=
  let n := n.upd i fun s => { s with catchupInProgress := false }
  chathistoryStopBackgroundFetch (chathistoryQueueFree n i) i

namespace Link

def onNet (l : Link) (f : Net → Net) : Link := { l with client := { l.client with net := f l.client.net } }

/-- The history part of `clear_channel`. -/
def clearChannel (l : Link) (i : Nat) : Link :=
  let name := (l.client.net.heap i).channel
  let l := if name = "" then l else { l with waitchannel := Function.update l.waitchannel i name }
  l.onNet fun n => chathistoryCancelCatchup (n.upd i fun s => { s with channel := "" }) i

/-- What the loop of `server_disconnect` does with a session; of the dialogs only the typing state goes. -/
def leaveSession (l : Link) (i : Nat) : Link :=
  if (l.client.net.heap i).channel = "" ∨ (l.client.net.heap i).type = .channel then l.clearChannel i else l

end Link

/-- The result of `server_cleanup`. -/
inductive Cleanup where
  | notConnected
  | stoppedConnecting
  | disconnected
  | stoppedDelay

/-- The history part of `server_cleanup` on a connection that is up. -/
def cleanupConnected (n : Net) : Net :=
  { n with serv := { n.serv with
    connected := false
    chathistoryStartTimer := false
    chathistoryBeforeTimer := false
    chathistoryLatestPending := 0
    chathistoryBeforeSess := none
    chathistoryTargetsDeferred := false
    activeBatches := [] } }

/-- `server_cleanup`. -/
def serverCleanup (l : Link) : Cleanup × Link :=
  if l.connecting then (.stoppedConnecting, { l with connecting := false })
  else if l.client.net.serv.connected then (.disconnected, l.onNet cleanupConnected)
  else if l.reconDelay then (.stoppedDelay, { l with reconDelay := false })
  else (.notConnected, l)

/-- The part of `persistence_reset` that history reads. -/
def Net.persistenceReset (n : Net) : Net :=
  { n with serv := { n.serv with
    persistenceAttached := false
    persistenceCursorSent := false
    persistenceReplaySeen := false } }

/-- `server_disconnect`. -/
def serverDisconnect (l : Link) : Link :=
  let l := if l.client.net.serv.connected then
      l.onNet fun n => { n with serv := { n.serv with lastDisconnectTime := n.now } }
    else l
  match serverCleanup l with
  | (.notConnected, l) => l
  | (.stoppedConnecting, l) => l
  | (_, l) => (l.client.net.sessList.foldl Link.leaveSession l).onNet Net.persistenceReset

/-- `server_connect`, up to the socket. -/
def serverConnect (l : Link) : Link :=
  let l := if l.client.net.serv.connected ∨ l.connecting ∨ l.reconDelay then serverDisconnect l else l
  -- `server_set_defaults`
  let l := l.onNet fun n => { n with serv := { n.serv with chantypes := "#&!+", activeBatches := [] } }
  { l with connecting := true }

/-- `auto_reconnect`. -/
def autoReconnect (l : Link) : Link :=
  let l := if l.client.net.serv.connected then serverDisconnect l else l
  { l with reconDelay := true }

/-- `timeout_auto_reconnect`. -/
def timeoutAutoReconnect (l : Link) : Link :=
  let l := { l with reconDelay := false }
  if l.client.net.serv.connected = false ∧ l.connecting = false then serverConnect l else l

/-- Whether an event is caused by a line of the server. -/
def Event.inbound : Event → Bool
  | .scheduleDeferred | .targetsOnReconnect | .targetsBatch _ | .batch _ | .openBatch _ _ | .closeBatch _
  | .fail _ _ => true
  | _ => false

/-- What happens to a link: history events, a connection that is asked for, made, lost or ended, the
capability, and the own JOIN that names a channel tab. -/
inductive LinkEvent where
  | history (e : Event)
  | connect
  | connected
  | disconnect
  | reconnectLater
  | delayOver
  | capChathistory (enable : Bool)
  | ujoin (sess : Nat) (chan : String)

def LinkEvent.step (l : Link) : LinkEvent → Link
  | .history e =>
    -- there is nothing to read lines from without a connection
    if e.inbound ∧ l.client.net.serv.connected = false then l else { l with client := ChatHistory.step l.client e }
  | .connect => serverConnect l
  | .connected =>
    if l.connecting then
      { l with connecting := false }.onNet fun n => { n with serv := { n.serv with connected := true } }
    else l
  | .disconnect => serverDisconnect l
  | .reconnectLater => autoReconnect l
  | .delayOver => if l.reconDelay then timeoutAutoReconnect l else l
  | .capChathistory enable =>
    if l.client.net.serv.connected then
      l.onNet fun n => { n with serv := if enable then { n.serv with
          haveChathistory := true
          chathistoryBetweenUnsupported := false
          chathistorySuppressed := false
          chathistoryFailStreak := 0 }
        else { n.serv with haveChathistory := false } }
    else l
  | .ujoin i chan =>
    if l.client.net.serv.connected ∧ i ∈ l.client.net.sessList ∧ (l.client.net.heap i).type = .channel then
      { l.onNet fun n => n.upd i fun s => { s with channel := chan } with
        waitchannel := Function.update l.waitchannel i "" }
    else l

def linkRun (l : Link) (es : List LinkEvent) : Link := es.foldl LinkEvent.step l

/-! ## Fresh sessions -/

/-- No request, and no catch-up in any phase. -/
structure Session.Fresh (s : Session) : Prop where
  active : s.chActive = none
  pending : s.chPending = none
  loading : s.historyLoading = false
  idle : s.catchupInProgress = false
  before : s.catchupIsBefore = false

/-- Nothing of the history state is left over in the sessions of the server, and no batch of them is
still being read. -/
structure Client.Fresh (c : Client) : Prop where
  sess : ∀ i ∈ c.net.sessList, (c.net.heap i).Fresh
  chunks : ∀ k ∈ c.chunks, k.sess ∉ c.net.sessList
  chunkState : ∀ i ∈ c.net.sessList, c.chunkState i = none
  pending : c.net.serv.chathistoryLatestPending = 0
  beforeSess : c.net.serv.chathistoryBeforeSess = none

theorem Session.fresh_iff (s : Session) : s.Fresh ↔ s.chActive = none ∧ s.chPending = none ∧ s.historyLoading = false ∧
    s.catchupInProgress = false ∧ s.catchupIsBefore = false :=
  ⟨fun h => ⟨h.active, h.pending, h.loading, h.idle, h.before⟩, fun ⟨h₁, h₂, h₃, h₄, h₅⟩ => ⟨h₁, h₂, h₃, h₄, h₅⟩⟩

instance (s : Session) : Decidable s.Fresh := decidable_of_iff _ s.fresh_iff.symm

theorem Client.fresh_iff (c : Client) : c.Fresh ↔ (∀ i ∈ c.net.sessList, (c.net.heap i).Fresh) ∧
    (∀ k ∈ c.chunks, k.sess ∉ c.net.sessList) ∧ (∀ i ∈ c.net.sessList, c.chunkState i = none) ∧
    c.net.serv.chathistoryLatestPending = 0 ∧ c.net.serv.chathistoryBeforeSess = none :=
  ⟨fun h => ⟨h.sess, h.chunks, h.chunkState, h.pending, h.beforeSess⟩, fun ⟨h₁, h₂, h₃, h₄, h₅⟩ => ⟨h₁, h₂, h₃, h₄, h₅⟩⟩

instance (c : Client) : Decidable c.Fresh := decidable_of_iff _ c.fresh_iff.symm

/-- The sessions that `server_disconnect` clears. -/
def Session.cleared (s : Session) : Bool := decide (s.channel = "" ∨ s.type = .channel)

/-- Nothing is under way that a disconnect passes over: no batch is being read, no session is in its BEFORE
phase, and a session that is not cleared has nothing to clear. -/
structure Link.Spared (l : Link) : Prop where
  chunks : ∀ k ∈ l.client.chunks, k.sess ∉ l.client.net.sessList
  chunkState : ∀ i ∈ l.client.net.sessList, l.client.chunkState i = none
  before : ∀ i ∈ l.client.net.sessList, (l.client.net.heap i).catchupIsBefore = false
  kept : ∀ i ∈ l.client.net.sessList, (l.client.net.heap i).cleared = false → (l.client.net.heap i).Fresh

theorem Link.spared_iff (l : Link) : l.Spared ↔ (∀ k ∈ l.client.chunks, k.sess ∉ l.client.net.sessList) ∧
    (∀ i ∈ l.client.net.sessList, l.client.chunkState i = none) ∧
    (∀ i ∈ l.client.net.sessList, (l.client.net.heap i).catchupIsBefore = false) ∧
    ∀ i ∈ l.client.net.sessList, (l.client.net.heap i).cleared = false → (l.client.net.heap i).Fresh :=
  ⟨fun h => ⟨h.chunks, h.chunkState, h.before, h.kept⟩, fun ⟨h₁, h₂, h₃, h₄⟩ => ⟨h₁, h₂, h₃, h₄⟩⟩

instance (l : Link) : Decidable l.Spared := decidable_of_iff _ l.spared_iff.symm

/-! ## The connection itself -/

section Connected

variable {n : Net} {i : Nat}

theorem Queued.connected {n' : Net} (h : Queued i n n') : n'.serv.connected = n.serv.connected := by rw [h.serv]

@[simp] theorem connected_returnSlot : (n.returnSlot i).serv.connected = n.serv.connected := by
  unfold Net.returnSlot
  split <;> rfl

@[simp] theorem connected_finishCatchup : (finishCatchup n i).serv.connected = n.serv.connected := by
  unfold finishCatchup
  dsimp only
  split <;> rfl

@[simp] theorem connected_startBefore : (startBefore n i).serv.connected = n.serv.connected := by
  unfold startBefore
  dsimp only
  split
  · split
    · exact (requestBeforeMsgid_queued _ i _ _).connected
    · exact connected_finishCatchup
  · exact connected_finishCatchup

@[simp] theorem connected_check : (chathistoryCheckBeforeCatchup n).serv.connected = n.serv.connected := by
  unfold chathistoryCheckBeforeCatchup
  split
  · split
    · rfl
    · exact connected_startBefore
  · rfl

@[simp] theorem connected_checkWhenNonePending : (checkWhenNonePending n).serv.connected = n.serv.connected := by
  unfold checkWhenNonePending
  split
  · exact connected_check
  · rfl

@[simp] theorem connected_refreshNewest : (refreshNewest n i).serv.connected = n.serv.connected := by
  unfold refreshNewest
  split <;> rfl

@[simp] theorem connected_enterLatest : (catchupEnterLatestPhase n i).serv.connected = n.serv.connected :=
  connected_refreshNewest

@[simp] theorem connected_sendDeferredLatest : (sendDeferredLatest n i).serv.connected = n.serv.connected := by
  unfold sendDeferredLatest
  dsimp only
  split
  · rfl
  · split
    · rfl
    · exact (requestLatest_queued _ i _ _).connected.trans connected_enterLatest

@[simp] theorem connected_sendTargets : (sendReconnectTargetsRequest n).serv.connected = n.serv.connected := by
  unfold sendReconnectTargetsRequest chathistoryRequestTargets
  split_ifs <;> rfl

theorem connected_fanOut (is : List Nat) : (is.foldl sendDeferredLatest n).serv.connected = n.serv.connected := by
  induction is generalizing n with
  | nil => rfl
  | cons i is ih => rw [List.foldl_cons, ih, connected_sendDeferredLatest]

theorem connected_deferredStart : (chathistoryDeferredStartCb n).serv.connected = n.serv.connected := by
  unfold chathistoryDeferredStartCb deferredReset
  dsimp only
  split
  · rw [connected_fanOut]
    dsimp only
    split
    · exact connected_sendTargets
    · rfl
  · rfl

theorem connected_startCatchup : (chathistoryStartCatchup n i).serv.connected = n.serv.connected := by
  unfold chathistoryStartCatchup
  dsimp only
  split
  · rfl
  · split
    · rfl
    · exact (requestLatest_queued _ i _ _).connected

theorem connected_targetsBatch (messages : List BatchMessage) :
    (chathistoryProcessTargetsBatch n messages).serv.connected = n.serv.connected := by
  unfold chathistoryProcessTargetsBatch
  induction messages generalizing n with
  | nil => rfl
  | cons msg messages ih =>
    rw [List.foldl_cons, ih]
    unfold processTargetsLine
    split
    · rfl
    · split
      · exact connected_startCatchup
      · exact connected_startCatchup

@[simp] theorem connected_requestGapFill (gapId dir : Int) :
    (chathistoryRequestGapFill n i gapId dir).2.serv.connected = n.serv.connected := by
  have hsub : ∀ (req : Chreq) (ok : Bool) (n' : Net), chathistorySubmit n i req = (ok, n') →
      n'.serv.connected = n.serv.connected := by
    intro req ok n' h
    have := (submit_queued n i req).connected
    rwa [h] at this
  unfold chathistoryRequestGapFill
  repeat' split
  all_goals first
    | rfl
    | (rename_i heq _
       have h := hsub _ _ _ heq
       exact h)

@[simp] theorem connected_gapFillRetry (gapId dir : Int) :
    (gapFillRetryWithTimestamps n i gapId dir).2.serv.connected = n.serv.connected := by
  unfold gapFillRetryWithTimestamps
  split
  · rfl
  · split
    · rfl
    · dsimp only
      split
      · exact connected_requestGapFill gapId dir
      · rfl

theorem connected_fail (code context : String) :
    (chathistoryHandleFail n code context).serv.connected = n.serv.connected := by
  unfold chathistoryHandleFail
  split
  · rfl
  · rename_i i _
    dsimp only
    generalize (decide (_ = ReqType.between) && betweenUnsupportedCode code) = latched
    have hc : (chathistoryRequestComplete { n with serv := failBrakes n.serv latched } i).serv.connected =
        n.serv.connected := (requestComplete_queued _ i).connected
    split
    · unfold failGap
      dsimp only
      split_ifs <;> simpa [Net.store] using hc
    · split
      · unfold failCatchup
        split
        · exact (requestLatest_queued _ i _ _).connected.trans hc
        · split_ifs <;> simpa using hc
      · exact hc

@[simp] theorem connected_track (msgid : String) (ts : Int) (isHistory : Bool) :
    (chathistoryTrackMsgidTs n i msgid ts isHistory).serv.connected = n.serv.connected := by
  unfold chathistoryTrackMsgidTs
  dsimp only
  split_ifs <;> rfl

@[simp] theorem connected_isDuplicate (msgid : String) (ts : Int) :
    (chathistoryIsDuplicateMsgid n i msgid ts).2.serv.connected = n.serv.connected := by
  unfold chathistoryIsDuplicateMsgid
  repeat' split
  all_goals rfl

theorem connected_runHandlers (msg : BatchMessage) :
    (runHandlers n i msg).serv.connected = n.serv.connected := by
  unfold runHandlers
  dsimp only
  split
  · exact connected_track _ _ _
  · rfl

theorem connected_processBatchMessage (msg : BatchMessage) :
    (processBatchMessage n i msg).2.serv.connected = n.serv.connected := by
  unfold processBatchMessage
  cases msg.command with
  | none => rfl
  | some command =>
    dsimp only
    cases msg.msgid with
    | none =>
      simp only [Bool.false_eq_true, if_false]
      split
      · rfl
      · exact connected_runHandlers msg
    | some m =>
      dsimp only
      split_ifs
      · exact connected_isDuplicate m _
      · exact (connected_track m _ true).trans (connected_isDuplicate m _)
      · exact (connected_runHandlers msg).trans ((connected_track m _ true).trans (connected_isDuplicate m _))

theorem connected_chunkLoop (m : Nat) (c : Client) (k : Chunk) :
    (chunkLoop m c k).1.net.serv.connected = c.net.serv.connected := by
  induction m generalizing c k with
  | zero => rfl
  | succ m ih =>
    unfold chunkLoop
    split
    · rfl
    · rw [ih]
      exact connected_processBatchMessage _

theorem connected_endBefore (settle : Sb → Int → Sb) :
    (endBefore n i settle).serv.connected = n.serv.connected := by
  unfold endBefore
  dsimp only
  rw [connected_check, connected_finishCatchup]
  split <;> rfl

theorem connected_continueBefore (k : Chunk) : (continueBefore n k).serv.connected = n.serv.connected := by
  unfold continueBefore
  dsimp only
  split_ifs <;> simp [scheduleBeforeCatchup, Net.setBeforeSess]

theorem connected_finishBefore (k : Chunk) : (finishBefore n k).serv.connected = n.serv.connected := by
  unfold finishBefore
  dsimp only
  split_ifs <;> first
    | exact connected_endBefore _
    | exact connected_continueBefore k

theorem connected_settleBatch (k : Chunk) : (settleBatch n k).serv.connected = n.serv.connected := by
  unfold settleBatch
  dsimp only
  cases k.unsolicited
  · have hc : (chathistoryRequestComplete { n with serv := { n.serv with chathistoryFailStreak := 0 } }
        k.sess).serv.connected = n.serv.connected := (requestComplete_queued _ k.sess).connected
    simp only [Bool.false_eq_true, if_false]
    split_ifs <;> exact hc
  · simp only [if_true]
    split_ifs <;> rfl

theorem connected_finishBatch (k : Chunk) : (finishBatchProcessing n k).serv.connected = n.serv.connected := by
  refine Eq.trans ?_ (connected_settleBatch k)
  unfold finishBatchProcessing
  dsimp only
  split
  · split
    · exact connected_finishBefore k
    · unfold finishLatest recordWitness
      dsimp only
      rw [connected_checkWhenNonePending]
      repeat' split
      all_goals simp [Net.upd]
  · unfold finishPlain clampGap scheduleBackgroundFetch
    dsimp only
    repeat' split
    all_goals rfl

theorem connected_batchShape (b : Batch) : (batchShape n b i).2.serv.connected = n.serv.connected := by
  unfold batchShape chathistoryBeginUnsolicitedCatchup
  dsimp only
  repeat' split
  all_goals first
    | rfl
    | exact connected_enterLatest

theorem connected_processEmpty (b : Batch) (sh : Shape) :
    (processEmptyBatch n b i sh).serv.connected = n.serv.connected := by
  unfold processEmptyBatch
  dsimp only
  generalize hn₁ : (if b.chathistoryEnd = true ∧ sh.gapId = 0 ∧ sh.unsolicited = false then
    n.upd i fun s => { s with historyExhausted := true } else n) = n₁
  have h₁ : n₁.serv.connected = n.serv.connected := by
    rw [← hn₁]
    split <;> rfl
  generalize hn₂ : (if sh.unsolicited = true then n₁ else chathistoryRequestComplete n₁ i) = n₂
  have h₂ : n₂.serv.connected = n.serv.connected := by
    rw [← hn₂]
    split
    · exact h₁
    · exact (requestComplete_queued n₁ i).connected.trans h₁
  rw [← h₂]
  split_ifs
  · exact connected_gapFillRetry _ _
  · exact connected_gapFillRetry _ _
  · exact (requestLatest_queued n₂ i _ _).connected
  · simp
  · simp
  · rfl
  · rfl

theorem connected_batchSession (b : Batch) : (batchSession n b).2.serv.connected = n.serv.connected := by
  unfold batchSession
  split
  · rfl
  · split
    · rfl
    · rename_i target _ _ _
      split
      · exact show (newIrcwindow n target).2.serv.connected = n.serv.connected from rfl
      · rfl

end Connected

section Clients

variable {c : Client}

theorem connected_processMessages (b : Batch) (i : Nat) (sh : Shape) :
    (processMessages c b i sh).net.serv.connected = c.net.serv.connected := by
  unfold processMessages
  dsimp only
  split
  · exact (connected_finishBatch _).trans (connected_chunkLoop _ _ _)
  · rfl

theorem connected_processBatch (b : Batch) :
    (chathistoryProcessBatch c b).net.serv.connected = c.net.serv.connected := by
  have hs := connected_batchSession (n := c.net) b
  unfold chathistoryProcessBatch
  split
  · rename_i net hb
    rw [hb] at hs
    exact hs
  · rename_i i net hb
    rw [hb] at hs
    dsimp only
    split
    · exact (connected_processEmpty b _).trans ((connected_batchShape b).trans hs)
    · exact (connected_processMessages b i _).trans ((connected_batchShape b).trans hs)

theorem connected_releaseLatestSlot (k : Chunk) :
    (c.releaseLatestSlot k).net.serv.connected = c.net.serv.connected := by
  unfold Client.releaseLatestSlot
  split
  · exact connected_returnSlot
  · rfl

/-- A history event does not touch the connection. -/
theorem connected_step (e : Event) : (step c e).net.serv.connected = c.net.serv.connected := by
  cases e
  case batch b => exact connected_processBatch b
  case chunkTick id =>
    simp only [step]
    split
    · unfold chunkIdleCb
      split
      · exact connected_releaseLatestSlot _
      · dsimp only
        split
        · exact (connected_finishBatch _).trans (connected_chunkLoop _ _ _)
        · exact connected_chunkLoop _ _ _
    · rfl
  case cancelChunk i =>
    simp only [step, chathistoryCancelChunkProcessing]
    split
    · rfl
    · exact connected_releaseLatestSlot _
  case scheduleDeferred =>
    simp only [step, netStep, chathistoryScheduleDeferred]
    split <;> rfl
  case deferredStart =>
    simp only [step, netStep]
    split
    · exact connected_deferredStart
    · rfl
  case targetsOnReconnect =>
    simp only [step, netStep, chathistoryRequestTargetsOnReconnect]
    split
    · rfl
    · exact connected_sendTargets
  case targetsBatch messages => exact connected_targetsBatch messages
  case requestOlder i =>
    simp only [step, netStep, chathistoryRequestOlder]
    repeat' split
    all_goals first
      | rfl
      | exact (submit_queued _ i _).connected
  case requestGapFill i gapId dir =>
    simp only [step, netStep]
    split
    · exact connected_requestGapFill gapId dir
    · rfl
  case requestLatest i limit =>
    simp only [step, netStep]
    split
    · exact (requestLatest_queued _ i _ _).connected
    · rfl
  case openBatch id type =>
    simp only [step, netStep, chathistoryReplayWrapperBegin]
    repeat' split
    all_goals rfl
  case closeBatch id =>
    simp only [step, netStep, chathistoryReplayWrapperEnd]
    split
    · exact connected_checkWhenNonePending
    · rfl
  case fail code context => exact connected_fail code context
  case tabSwitch i =>
    simp only [step, netStep, chathistoryNotifyTabSwitch]
    repeat' split
    all_goals first
      | rfl
      | exact connected_check
  case beforeTimer =>
    simp only [step, netStep, chathistoryBeforeTimerCb]
    repeat' split
    all_goals first
      | rfl
      | exact connected_check
  case backgroundTimer i =>
    simp only [step, netStep, backgroundHistoryTimerCb]
    repeat' split
    all_goals first
      | rfl
      | exact (requestBeforeMsgid_queued _ i _ _).connected
  case live i msgid ts ops =>
    simp only [step, netStep]
    split
    · exact connected_track _ _ _
    · rfl
  case clock now => rfl

end Clients

/-! ## What a disconnect clears -/

/-- A session after `clear_channel`. -/
def Session.wiped (s : Session) : Session :=
  { s with
    channel := ""
    catchupInProgress := false
    chActive := none
    chPending := none
    historyLoading := false
    backgroundHistoryActive := false
    backgroundHistoryTimer := false }

/-- A session after the loop of `server_disconnect`. -/
def Session.leave (s : Session) : Session := if s.cleared then s.wiped else s

theorem Session.leave_leave (s : Session) : s.leave.leave = s.leave := by
  cases h : s.cleared
  · simp [Session.leave, h]
  · have hw : s.wiped.cleared = true := by simp [Session.cleared, Session.wiped]
    simp only [Session.leave, h, if_true, hw]
    rfl

theorem Session.leave_fresh_iff (s : Session) :
    s.leave.Fresh ↔ s.catchupIsBefore = false ∧ (s.cleared = false → s.Fresh) := by
  unfold Session.leave
  cases h : s.cleared
  · simp only [Bool.false_eq_true, if_false]
    exact ⟨fun hf => ⟨hf.before, fun _ => hf⟩, fun hf => hf.2 trivial⟩
  · simp only [if_true]
    exact ⟨fun hf => ⟨hf.before, fun hn => absurd hn (by simp)⟩, fun hf => ⟨rfl, rfl, rfl, rfl, hf.1⟩⟩

section Cut

variable {l : Link} {i : Nat}

theorem leaveSession_client (l : Link) (i : Nat) :
    (l.leaveSession i).client = { l.client with net := l.client.net.upd i Session.leave } := by
  unfold Link.leaveSession Session.leave Session.cleared
  split
  · rename_i h
    unfold Link.clearChannel
    dsimp only
    split <;>
      simp [Link.onNet, chathistoryCancelCatchup, chathistoryStopBackgroundFetch, chathistoryQueueFree, Net.upd,
        Session.wiped, h]
  · rename_i h
    simp [Net.upd, h]

/-- The loop leaves every session of the server once and for all. -/
theorem leaveSessions_client (is : List Nat) (l : Link) : (is.foldl Link.leaveSession l).client =
    { l.client with net := { l.client.net with
      heap := fun j => if j ∈ is then (l.client.net.heap j).leave else l.client.net.heap j } } := by
  induction is generalizing l with
  | nil => rfl
  | cons i is ih =>
    have hheap : ∀ j, (if j ∈ is then ((l.client.net.upd i Session.leave).heap j).leave
        else (l.client.net.upd i Session.leave).heap j) =
        if j ∈ i :: is then (l.client.net.heap j).leave else l.client.net.heap j := by
      intro j
      by_cases hj : j = i
      · subst hj
        by_cases hm : j ∈ is <;> simp [Net.upd, hm, Session.leave_leave]
      · simp [Net.upd, hj]
    rw [List.foldl_cons, ih, leaveSession_client]
    dsimp only
    simp only [hheap]
    rfl

/-- The connection is up and not being made. -/
structure Link.Live (l : Link) : Prop where
  connecting : l.connecting = false
  connected : l.client.net.serv.connected = true

theorem serverDisconnect_eq (h : l.Live) : serverDisconnect l = (l.client.net.sessList.foldl Link.leaveSession
    ((l.onNet fun n => { n with serv := { n.serv with lastDisconnectTime := n.now } }).onNet
      cleanupConnected)).onNet Net.persistenceReset := by
  simp [serverDisconnect, serverCleanup, Link.onNet, h.connecting, h.connected, cleanupConnected]

theorem serverDisconnect_eq_offline (hoff : l.client.net.serv.connected = false) : serverDisconnect l =
    if l.connecting then { l with connecting := false }
    else if l.reconDelay then
      (l.client.net.sessList.foldl Link.leaveSession { l with reconDelay := false }).onNet Net.persistenceReset
    else l := by
  cases hc : l.connecting
  · cases hd : l.reconDelay <;> simp [serverDisconnect, serverCleanup, hoff, hc, hd]
  · simp [serverDisconnect, serverCleanup, hoff, hc]

/-- What the cut of a live connection does. -/
theorem serverDisconnect_live (h : l.Live) :
    (serverDisconnect l).client.chunks = l.client.chunks ∧
    (serverDisconnect l).client.chunkState = l.client.chunkState ∧
    (serverDisconnect l).client.net.sessList = l.client.net.sessList ∧
    (∀ i ∈ l.client.net.sessList, (serverDisconnect l).client.net.heap i = (l.client.net.heap i).leave) ∧
    (serverDisconnect l).client.net.serv.chathistoryLatestPending = 0 ∧
    (serverDisconnect l).client.net.serv.chathistoryBeforeSess = none ∧
    (serverDisconnect l).client.net.serv.connected = false := by
  rw [serverDisconnect_eq h]
  dsimp only [Link.onNet]
  rw [leaveSessions_client]
  exact ⟨rfl, rfl, rfl, fun i hi => if_pos hi, rfl, rfl, rfl⟩

/-- **What a cut leaves behind**: a live connection that is cut leaves a fresh client exactly when nothing
is under way that is passed over. -/
theorem live_disconnect_fresh_iff (h : l.Live) : (serverDisconnect l).client.Fresh ↔ l.Spared := by
  obtain ⟨hchunks, hstate, hlist, hheap, hpending, hbefore, -⟩ := serverDisconnect_live h
  constructor
  · intro hf
    have hleft : ∀ i ∈ l.client.net.sessList, (l.client.net.heap i).leave.Fresh := fun i hi =>
      hheap i hi ▸ hf.sess i (hlist.symm ▸ hi)
    refine ⟨?_, ?_, fun i hi => ((Session.leave_fresh_iff _).1 (hleft i hi)).1, fun i hi =>
      ((Session.leave_fresh_iff _).1 (hleft i hi)).2⟩
    · rw [← hchunks, ← hlist]
      exact hf.chunks
    · rw [← hstate, ← hlist]
      exact hf.chunkState
  · intro hs
    refine ⟨?_, ?_, ?_, hpending, hbefore⟩
    · rw [hlist]
      intro i hi
      rw [hheap i hi, Session.leave_fresh_iff]
      exact ⟨hs.before i hi, hs.kept i hi⟩
    · rw [hchunks, hlist]
      exact hs.chunks
    · rw [hstate, hlist]
      exact hs.chunkState

theorem leaveSessions_connecting (is : List Nat) (l : Link) :
    (is.foldl Link.leaveSession l).connecting = l.connecting := by
  induction is generalizing l with
  | nil => rfl
  | cons i is ih =>
    rw [List.foldl_cons, ih]
    unfold Link.leaveSession Link.clearChannel
    dsimp only
    split
    · split <;> rfl
    · rfl

theorem serverDisconnect_connecting (h : l.Live) : (serverDisconnect l).connecting = false := by
  rw [serverDisconnect_eq h]
  exact (leaveSessions_connecting _ _).trans h.connecting

end Cut

/-! ## Without a connection -/

section Offline

variable {n : Net} {c : Client} {i : Nat}

theorem dispatchNow_offline (h : n.serv.connected = false) (req : Chreq) : chathistoryDispatchNow n i req = n := by
  unfold chathistoryDispatchNow
  split
  · rfl
  · split
    · rfl
    · rw [if_pos (.inr (.inl h))]

/-- A request of a fresh session goes nowhere. -/
theorem submit_offline (h : n.serv.connected = false) (hf : (n.heap i).Fresh) (req : Chreq) :
    (chathistorySubmit n i req).2 = n := by
  unfold chathistorySubmit
  simp only [hf.active, hf.pending, chreqIsDup, if_true]
  exact dispatchNow_offline h req

theorem check_offline (h : n.serv.connected = false) : chathistoryCheckBeforeCatchup n = n := by
  unfold chathistoryCheckBeforeCatchup
  rw [if_neg]
  simp [beforeMayStart, h]

theorem requestLatest_offline (h : n.serv.connected = false) (reference : Option String) (limit : Int) :
    chathistoryRequestLatest n i reference limit = n := by
  unfold chathistoryRequestLatest
  rw [if_neg]
  simp [requestGate, h]

theorem requestBeforeMsgid_offline (h : n.serv.connected = false) (msgid : String) (limit : Int) :
    chathistoryRequestBeforeMsgid n i msgid limit = n := by
  unfold chathistoryRequestBeforeMsgid chathistoryRequestBefore
  split
  · rfl
  · rw [if_neg]
    simp [requestGate, h]

/-- A step that keeps what `Fresh` reads. -/
theorem Client.Fresh.congr (h : c.Fresh) {c' : Client} (hchunks : c'.chunks = c.chunks)
    (hstate : c'.chunkState = c.chunkState) (hlist : c'.net.sessList = c.net.sessList)
    (hpending : c'.net.serv.chathistoryLatestPending = c.net.serv.chathistoryLatestPending)
    (hbefore : c'.net.serv.chathistoryBeforeSess = c.net.serv.chathistoryBeforeSess)
    (hsess : ∀ i ∈ c.net.sessList, (c.net.heap i).Fresh → (c'.net.heap i).Fresh) : c'.Fresh where
  sess i hi := hsess i (hlist ▸ hi) (h.sess i (hlist ▸ hi))
  chunks k hk := hlist ▸ h.chunks k (hchunks ▸ hk)
  chunkState i hi := hstate ▸ h.chunkState i (hlist ▸ hi)
  pending := hpending ▸ h.pending
  beforeSess := hbefore ▸ h.beforeSess

/-- A write to a session that keeps it fresh. -/
theorem Client.Fresh.upd (h : c.Fresh) {f : Session → Session} (hf : ∀ s : Session, s.Fresh → (f s).Fresh) (i : Nat) :
    ({ c with net := c.net.upd i f } : Client).Fresh := by
  refine h.congr rfl rfl rfl rfl rfl fun j _ hj => ?_
  by_cases hji : j = i
  · subst hji
    simpa [Net.upd] using hf _ hj
  · simpa [Net.upd, hji] using hj

theorem fresh_requestGapFill (h : c.Fresh) (hoff : c.net.serv.connected = false) (hi : i ∈ c.net.sessList)
    (gapId dir : Int) : ({ c with net := (chathistoryRequestGapFill c.net i gapId dir).2 } : Client).Fresh := by
  have hsub : ∀ (req : Chreq) (ok : Bool) (n' : Net), chathistorySubmit c.net i req = (ok, n') → n' = c.net := by
    intro req ok n' he
    have := submit_offline hoff (h.sess i hi) req
    rwa [he] at this
  unfold chathistoryRequestGapFill
  repeat' split
  all_goals first
    | exact h
    | (rename_i heq _
       obtain rfl := hsub _ _ _ heq
       exact h.congr rfl rfl rfl rfl rfl fun _ _ hj => hj)

theorem fresh_track (h : c.Fresh) (msgid : String) (ts : Int) (isHistory : Bool) :
    ({ c with net := chathistoryTrackMsgidTs c.net i msgid ts isHistory } : Client).Fresh := by
  unfold chathistoryTrackMsgidTs
  dsimp only
  split
  · exact h
  · split
    · exact h
    · refine h.upd ?_ i
      exact fun s hs => ⟨hs.active, hs.pending, hs.loading, hs.idle, hs.before⟩

theorem fresh_releaseLatestSlot (h : c.Fresh) (k : Chunk) : (c.releaseLatestSlot k).Fresh := by
  unfold Client.releaseLatestSlot
  split
  · unfold Net.returnSlot
    rw [if_neg (by simp [h.pending])]
    exact h
  · exact h

theorem Client.Fresh.drop (h : c.Fresh) (p : Chunk → Bool) : ({ c with chunks := c.chunks.filter p } : Client).Fresh :=
  ⟨h.sess, fun k hk => h.chunks k (List.mem_of_mem_filter hk), h.chunkState, h.pending, h.beforeSess⟩

theorem Client.Fresh.freeChunk (h : c.Fresh) (k : Chunk) : (c.freeChunk k).Fresh := by
  refine ⟨h.sess, fun k' hk' => h.chunks k' (List.mem_of_mem_filter hk'), fun i hi => ?_, h.pending, h.beforeSess⟩
  have hn := h.chunkState i hi
  unfold Client.freeChunk
  dsimp only
  split
  · by_cases hik : i = k.sess
    · simp [hik]
    · simpa [Function.update_of_ne hik] using hn
  · exact hn

/-- **Without a connection a fresh client stays fresh**, whatever the user and the timers do. -/
theorem step_fresh (h : c.Fresh) (hoff : c.net.serv.connected = false) {e : Event} (he : e.inbound = false) :
    (step c e).Fresh := by
  cases e
  case deferredStart =>
    simp only [step, netStep, chathistoryDeferredStartCb]
    split
    · rw [if_neg (by simp [deferredStarts, hoff])]
      exact h.congr rfl rfl rfl rfl rfl fun _ _ hj => hj
    · exact h
  case requestOlder i =>
    simp only [step, netStep, chathistoryRequestOlder]
    split
    · rename_i hi
      repeat' split
      · exact h
      · exact h
      · rw [submit_offline hoff (h.sess i hi)]
        exact h
    · exact h
  case requestGapFill i gapId dir =>
    simp only [step, netStep]
    split
    · exact fresh_requestGapFill h hoff ‹_› gapId dir
    · exact h
  case requestLatest i limit =>
    simp only [step, netStep]
    split
    · rw [requestLatest_offline hoff]
      exact h
    · exact h
  case chunkTick id =>
    simp only [step]
    split
    · rename_i k hk
      unfold chunkIdleCb
      rw [if_pos (h.chunks k (List.mem_of_find?_eq_some hk))]
      exact (fresh_releaseLatestSlot h k).drop _
    · exact h
  case cancelChunk i =>
    simp only [step, chathistoryCancelChunkProcessing]
    split
    · exact h
    · rename_i k hk
      have hi : i ∉ c.net.sessList := fun hi => by simp [h.chunkState i hi] at hk
      have hfree : ({ c with net := chathistoryQueueFree c.net i } : Client).Fresh := by
        refine h.congr rfl rfl rfl rfl rfl fun j hj hf => ?_
        have hji : j ≠ i := fun he => hi (he ▸ hj)
        simpa [chathistoryQueueFree, Net.upd, hji] using hf
      exact (fresh_releaseLatestSlot hfree k).freeChunk k
  case tabSwitch i =>
    have hfocus : ({ c with net := { c.net with currentSess := some i } } : Client).Fresh :=
      h.congr rfl rfl rfl rfl rfl fun _ _ hj => hj
    simp only [step, netStep, chathistoryNotifyTabSwitch]
    repeat' split
    · exact hfocus
    · rw [check_offline (n := { c.net with currentSess := some i }) hoff]
      exact hfocus
    · exact hfocus
    · exact h
  case beforeTimer =>
    simp only [step, netStep, chathistoryBeforeTimerCb]
    split
    · rw [if_neg (by simp [hoff])]
      exact h.congr rfl rfl rfl rfl rfl fun _ _ hj => hj
    · exact h
  case backgroundTimer i =>
    have htimer : ({ c with net := c.net.upd i fun s => { s with backgroundHistoryTimer := false } } : Client).Fresh := by
      refine h.upd ?_ i
      exact fun s hs => ⟨hs.active, hs.pending, hs.loading, hs.idle, hs.before⟩
    have hstop : ({ c with net := (c.net.upd i fun s => { s with backgroundHistoryTimer := false }).upd i fun s =>
        { s with backgroundHistoryActive := false } } : Client).Fresh := by
      refine htimer.upd ?_ i
      exact fun s hs => ⟨hs.active, hs.pending, hs.loading, hs.idle, hs.before⟩
    simp only [step, netStep, backgroundHistoryTimerCb]
    repeat' split
    · exact htimer
    · exact hstop
    · rw [requestBeforeMsgid_offline (n := c.net.upd i _) hoff]
      exact htimer
    · exact hstop
    · exact h
  case live i msgid ts ops =>
    have hstore : ({ c with net := c.net.store fun db => Scrollback.run db ops } : Client).Fresh :=
      h.congr rfl rfl rfl rfl rfl fun _ _ hj => hj
    simp only [step, netStep]
    split
    · exact fresh_track hstore msgid ts false
    · exact hstore
  case clock now => exact h.congr rfl rfl rfl rfl rfl fun _ _ hj => hj
  all_goals exact absurd he (by simp [Event.inbound])

end Offline

/-! ## Runs -/

/-- The event cuts the connection if there is one. -/
def LinkEvent.cuts : LinkEvent → Bool
  | .connect | .disconnect | .reconnectLater => true
  | _ => false

/-- The session after a reconnect on which the server speaks chathistory again; a channel has its name back. -/
def reconnected (n : Net) (i : Nat) (chan : String) : Net :=
  { n with serv := { n.serv with connected := true, haveChathistory := true, chathistorySuppressed := false } }.upd i
    fun s => { s with channel := chan }

/-- A new catch-up can start: its flag is set and its request is out. -/
def CanCatchUp (n : Net) (i : Nat) : Prop :=
  ∀ chan, chan ≠ "" → ((n.heap i).type = .channel ∨ (n.heap i).type = .dialog) → n.prefs.chathistoryAuto = true →
    ((chathistoryStartCatchup (reconnected n i chan) i).heap i).catchupInProgress = true ∧
    ((chathistoryStartCatchup (reconnected n i chan) i).heap i).chActive.isSome

/-- A connection is up or being made, and a client without one is fresh. -/
structure Link.Settled (l : Link) : Prop where
  apart : l.client.net.serv.connected = true → l.connecting = false
  fresh : l.client.net.serv.connected = false → l.client.Fresh

section Runs

variable {l : Link}

/-- What is dispatched on a connection that takes it is out. -/
theorem dispatchNow_online {n : Net} {i : Nat} (req : Chreq) {target : String}
    (ht : getTargetName (n.heap i) = some target) (hne : target ≠ "") (hcap : n.serv.haveChathistory = true)
    (hconn : n.serv.connected = true) (hsup : n.serv.chathistorySuppressed = false) :
    ((chathistoryDispatchNow n i req).heap i).chActive = some req ∧
      ((chathistoryDispatchNow n i req).heap i).catchupInProgress = (n.heap i).catchupInProgress := by
  unfold chathistoryDispatchNow
  rw [ht]
  simp [hne, hcap, hconn, hsup, Net.send, Net.upd]

theorem startCatchup_starts {n : Net} {i : Nat} {target : String} (h : (n.heap i).Fresh)
    (ht : getTargetName (n.heap i) = some target) (hne : target ≠ "") (hauto : n.prefs.chathistoryAuto = true)
    (hcap : n.serv.haveChathistory = true) (hconn : n.serv.connected = true)
    (hsup : n.serv.chathistorySuppressed = false) :
    ((chathistoryStartCatchup n i).heap i).catchupInProgress = true ∧
      ((chathistoryStartCatchup n i).heap i).chActive.isSome := by
  unfold chathistoryStartCatchup
  dsimp only
  rw [if_neg (by simp [hauto, hcap]), if_neg (by simp [h.loading, h.idle])]
  generalize hn' : (n.upd i fun s => { s with catchupInProgress := true }) = n'
  have hheap : (n'.heap i).catchupInProgress = true ∧ (n'.heap i).chActive = none ∧ (n'.heap i).chPending = none ∧
      getTargetName (n'.heap i) = some target := by
    rw [← hn']
    simp only [Net.upd, Function.update_self, true_and]
    exact ⟨h.active, h.pending, ht⟩
  have hserv : n'.serv = n.serv := by rw [← hn']; rfl
  obtain ⟨hip, hactive, hpending, hname⟩ := hheap
  unfold requestLatestSinceStored chathistoryRequestLatest submitRequest chathistorySubmit
  dsimp only
  rw [if_pos (by simp [requestGate, hserv, hcap, hconn, hname])]
  simp only [hactive, hpending, chreqIsDup, Option.any_none, Option.all_none, Bool.false_eq_true, if_false, if_true]
  rw [← hserv] at hcap hconn hsup
  have hout := fun req => dispatchNow_online req hname hne hcap hconn hsup
  constructor
  · rw [(hout _).2]
    exact hip
  · rw [(hout _).1]
    rfl

theorem fresh_canCatchUp {n : Net} {i : Nat} (h : (n.heap i).Fresh) : CanCatchUp n i := by
  intro chan hchan htype hauto
  refine startCatchup_starts ?_ ?_ hchan hauto rfl rfl rfl
  · simp only [reconnected, Net.upd, Function.update_self]
    exact ⟨h.active, h.pending, h.loading, h.idle, h.before⟩
  · rcases htype with htype | htype <;> simp [reconnected, Net.upd, getTargetName, htype]

theorem Session.Fresh.leave {s : Session} (h : s.Fresh) : s.leave.Fresh :=
  s.leave_fresh_iff.2 ⟨h.before, fun _ => h⟩

/-- Without a connection a disconnect stops the attempt or the delay, and leaves the sessions fresh. -/
theorem serverDisconnect_offline (hoff : l.client.net.serv.connected = false) (h : l.client.Fresh) :
    (serverDisconnect l).client.Fresh ∧ (serverDisconnect l).client.net.serv.connected = false ∧
      (serverDisconnect l).connecting = false := by
  rw [serverDisconnect_eq_offline hoff]
  split
  · exact ⟨h, hoff, rfl⟩
  · rename_i hc
    have hc' : l.connecting = false := by simpa using hc
    split
    · dsimp only [Link.onNet]
      refine ⟨?_, ?_, (leaveSessions_connecting _ _).trans hc'⟩
      · rw [leaveSessions_client]
        refine ⟨fun i hi => ?_, h.chunks, h.chunkState, h.pending, h.beforeSess⟩
        have hi' : i ∈ l.client.net.sessList := hi
        show (if i ∈ l.client.net.sessList then (l.client.net.heap i).leave else l.client.net.heap i).Fresh
        rw [if_pos hi']
        exact (h.sess i hi').leave
      · rw [leaveSessions_client]
        exact hoff
    · exact ⟨h, hoff, hc'⟩

/-- **A disconnect**, of a connection that is up, being made, or delayed. -/
theorem serverDisconnect_settled (h : l.Settled) (hs : l.client.net.serv.connected = true → l.Spared) :
    (serverDisconnect l).client.Fresh ∧ (serverDisconnect l).client.net.serv.connected = false ∧
      (serverDisconnect l).connecting = false := by
  cases hconn : l.client.net.serv.connected
  · exact serverDisconnect_offline hconn (h.fresh hconn)
  · have hlive : l.Live := ⟨h.apart hconn, hconn⟩
    exact ⟨(live_disconnect_fresh_iff hlive).2 (hs hconn), (serverDisconnect_live hlive).2.2.2.2.2.2,
      serverDisconnect_connecting hlive⟩

theorem serverConnect_settled (h : l.Settled) (hs : l.client.net.serv.connected = true → l.Spared) :
    (serverConnect l).Settled := by
  have hfirst : (if l.client.net.serv.connected = true ∨ l.connecting = true ∨ l.reconDelay = true then serverDisconnect l
      else l).client.Fresh ∧ (if l.client.net.serv.connected = true ∨ l.connecting = true ∨ l.reconDelay = true then
        serverDisconnect l else l).client.net.serv.connected = false := by
    split
    · obtain ⟨hf, hoff, -⟩ := serverDisconnect_settled h hs
      exact ⟨hf, hoff⟩
    · rename_i hidle
      have hoff : l.client.net.serv.connected = false := by simpa using fun hon => hidle (.inl hon)
      exact ⟨h.fresh hoff, hoff⟩
  unfold serverConnect
  dsimp only
  generalize (if l.client.net.serv.connected = true ∨ l.connecting = true ∨ l.reconDelay = true then serverDisconnect l
    else l) = l' at hfirst
  obtain ⟨hf, hoff⟩ := hfirst
  refine ⟨fun hon => absurd hon ?_, fun _ => hf.congr rfl rfl rfl rfl rfl fun _ _ hj => hj⟩
  simp [Link.onNet, hoff]

theorem LinkEvent.step_settled (h : l.Settled) {e : LinkEvent}
    (hs : e.cuts = true → l.client.net.serv.connected = true → l.Spared) : (e.step l).Settled := by
  cases e with
  | history e =>
    simp only [LinkEvent.step]
    split
    · exact h
    · rename_i he
      refine ⟨?_, ?_⟩
      · dsimp only
        rw [connected_step]
        exact h.apart
      · dsimp only
        rw [connected_step]
        intro hoff
        exact step_fresh (h.fresh hoff) hoff (by simpa [hoff] using he)
  | connect => exact serverConnect_settled h (hs rfl)
  | connected =>
    simp only [LinkEvent.step]
    split
    · exact ⟨fun _ => rfl, fun hoff => absurd hoff (by simp [Link.onNet])⟩
    · exact h
  | disconnect =>
    obtain ⟨hf, hoff, hc⟩ := serverDisconnect_settled h (hs rfl)
    exact ⟨fun _ => hc, fun _ => hf⟩
  | reconnectLater =>
    simp only [LinkEvent.step, autoReconnect]
    split
    · obtain ⟨hf, hoff, hc⟩ := serverDisconnect_settled h (hs rfl)
      exact ⟨fun _ => hc, fun _ => hf⟩
    · exact ⟨h.apart, h.fresh⟩
  | delayOver =>
    simp only [LinkEvent.step, timeoutAutoReconnect]
    repeat' split
    · rename_i hoff
      refine serverConnect_settled ⟨h.apart, h.fresh⟩ fun hon => absurd hon ?_
      simp [hoff.1]
    · exact ⟨h.apart, h.fresh⟩
    · exact h
  | capChathistory enable =>
    simp only [LinkEvent.step]
    split
    · rename_i hon
      refine ⟨fun _ => h.apart hon, fun hoff => absurd hoff ?_⟩
      cases enable <;> simp [Link.onNet, hon]
    · exact h
  | ujoin i chan =>
    simp only [LinkEvent.step]
    split
    · rename_i hon
      exact ⟨fun _ => h.apart hon.1, fun hoff => absurd hoff (by simp [Link.onNet, Net.upd, hon.1])⟩
    · exact h

end Runs

/-- A channel and a dialog of a server that is not connected. -/
def channelAndDialog : Link where
  client := Client.start
    { Net.connected [{ type := .channel, channel := "" }, { type := .dialog, channel := "nick" }] with
      serv := { (Net.connected []).serv with connected := false } }

theorem channelAndDialog_settled : channelAndDialog.Settled :=
  ⟨fun h => absurd h (by decide), fun _ => by decide⟩

/-- The channel is joined and asks for history, the dialog does not. -/
def channelAsks : List LinkEvent :=
  [.connect, .connected, .capChathistory true, .ujoin 0 "#c", .history (.requestLatest 0 10)]

theorem channelAsks_spared : Along LinkEvent.step
    (fun l e => e.cuts = true → l.client.net.serv.connected = true → l.Spared) channelAndDialog
    (channelAsks ++ [.disconnect]) := by decide

/-- A connection on which the channel is joined. -/
def joinedLink : Link := linkRun channelAndDialog [.connect, .connected, .capChathistory true, .ujoin 0 "#c"]

end PoxChat.ChatHistory
