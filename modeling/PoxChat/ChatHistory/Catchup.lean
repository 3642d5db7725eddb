import Mathlib.Algebra.Order.Ring.Int
import PoxChat.ChatHistory.Requests

/-!
# Catch-up

After a reconnect every session goes through a LATEST phase, then one session at a time pages
backwards in a BEFORE phase until it reaches what is already stored.

* A session takes a slot of `chathistory_latest_pending` when its LATEST phase is opened by the
  deferred start (`sendDeferredLatest`) or by a batch the server sent unasked
  (`chathistoryBeginUnsolicitedCatchup`).
* `chathistoryCheckBeforeCatchup` starts the next BEFORE request, once no slot is out.
-/

set_option autoImplicit false

namespace PoxChat.ChatHistory

open Lib Scrollback

/-! ## Slots -/

namespace Net

/-- `chathistory_latest_pending++`, for a session. -/
def takeSlot (n : Net) (i : Nat) : Net :=
  { n with
    serv := { n.serv with chathistoryLatestPending := n.serv.chathistoryLatestPending + 1 }
    slots := n.slots ++ [.taken i] }

/-- `if (chathistory_latest_pending > 0) chathistory_latest_pending--`, for a session. -/
def returnSlot (n : Net) (i : Nat) : Net :=
  if 0 < n.serv.chathistoryLatestPending then
    { n with
      serv := { n.serv with chathistoryLatestPending := n.serv.chathistoryLatestPending - 1 }
      slots := n.slots ++ [.returned i] }
  else n

def setBeforeSess (n : Net) (sess : Option Nat) : Net :=
  { n with serv := { n.serv with chathistoryBeforeSess := sess } }

end Net

/-! ## The phases of a session -/

/-- `finish_catchup`. -/
def finishCatchup (n : Net) (i : Nat) : Net :=
  let n := n.upd i fun s => { s with
    catchupInProgress := false
    catchupIsBefore := false
    historyCatchupStaleCount := 0
    historyCatchupRetrieved := 0
    catchupGapId := 0
    oldestMsgid := if nonEmpty s.scrollbackOldestMsgid then s.scrollbackOldestMsgid else s.oldestMsgid }
  if n.serv.chathistoryBeforeSess = some i then n.setBeforeSess none else n

/-- The LATEST of a session whose newest stored row is known: by msgid, by timestamp, or unbounded. -/
def requestLatestSinceStored (n : Net) (i : Nat) : Net :=
  let s := n.heap i
  let reference := if nonEmpty s.scrollbackNewestMsgid then s.scrollbackNewestMsgid.map ("msgid=" ++ ·)
    else if 0 < s.scrollbackNewestTime then some (chathistoryTsRef s.scrollbackNewestTime) else none
  chathistoryRequestLatest n i reference n.prefs.chathistoryLines

/-- `chathistory_start_catchup`. -/
def chathistoryStartCatchup (n : Net) (i : Nat) : Net :=
  let s := n.heap i
  if n.prefs.chathistoryAuto = false ∨ n.serv.haveChathistory = false then n
  else if s.historyLoading ∨ s.catchupInProgress then n
  else requestLatestSinceStored (n.upd i fun s => { s with catchupInProgress := true }) i

/-- `max_age * 3600` in `unsigned int`, before now. -/
def maxAgeCutoff (n : Net) : Int := n.now - (n.prefs.chathistoryBackgroundMaxAge * 3600 % 2 ^ 32 : Nat)

/-- The newest stored row of a session's target, read again from the store. -/
def refreshNewest (n : Net) (i : Nat) : Net :=
  match n.db with
  | none => n
  | some db =>
    let (msgid, db) := scrollbackGetNewestMsgid db (n.heap i).channel
    let (time, db) := scrollbackGetNewestTime db (n.heap i).channel
    ({ n with db := some db }).upd i fun s => { s with
      scrollbackNewestMsgid := msgid
      scrollbackNewestTime := time }

/-- `catchup_enter_latest_phase`. -/
def catchupEnterLatestPhase (n : Net) (i : Nat) : Net :=
  let n := refreshNewest n i
  n.upd i fun s => { s with
    catchupPrevNewestTime := s.scrollbackNewestTime
    catchupPrevNewestMsgid := s.scrollbackNewestMsgid
    catchupGapId := 0
    catchupInProgress := true
    catchupIsBefore := false
    catchupLowerBound :=
      if CHATHISTORY_FUZZ_INTERVAL < s.scrollbackNewestTime then
        s.scrollbackNewestTime - CHATHISTORY_FUZZ_INTERVAL
      else if 0 < n.prefs.chathistoryBackgroundMaxAge then maxAgeCutoff n else 0 }

/-- The guard of `chathistory_begin_unsolicited_catchup`: the session may adopt a batch. -/
def adopts (n : Net) (i : Nat) : Bool :=
  n.serv.haveChathistory && n.prefs.chathistoryAuto && !n.serv.chathistorySuppressed &&
    !(n.heap i).catchupInProgress && !(n.heap i).historyExhausted

/-- `chathistory_begin_unsolicited_catchup`. -/
def chathistoryBeginUnsolicitedCatchup (n : Net) (i : Nat) : Bool × Net :=
  if adopts n i then (true, (catchupEnterLatestPhase n i).takeSlot i) else (false, n)

/-- `send_deferred_latest`. -/
def sendDeferredLatest (n : Net) (i : Nat) : Net :=
  let s := n.heap i
  if s.historyLoading ∨ s.catchupInProgress ∨ s.historyExhausted then n
  else if s.type ≠ .channel ∨ s.channel = "" then n
  else (requestLatestSinceStored (catchupEnterLatestPhase n i) i).takeSlot i

/-! ## The deferred start and TARGETS -/

/-- `send_reconnect_targets_request`. -/
def sendReconnectTargetsRequest (n : Net) : Net :=
  if n.serv.haveChathistory = false ∨ n.serv.connected = false then n
  else if n.serv.lastDisconnectTime = 0 then n
  else chathistoryRequestTargets n (chathistoryTsRef (n.now + CHATHISTORY_FUZZ_INTERVAL))
    (chathistoryTsRef (n.serv.lastDisconnectTime - CHATHISTORY_FUZZ_INTERVAL)) 0

/-- `persistence_server_drives_replay`. -/
def persistenceServerDrivesReplay (serv : Serv) : Bool :=
  serv.persistenceAttached && serv.persistenceCursorSent && !serv.persistenceReplaySeen

/-- `chathistory_request_targets_on_reconnect`. -/
def chathistoryRequestTargetsOnReconnect (n : Net) : Net :=
  if persistenceServerDrivesReplay n.serv then
    { n with serv := { n.serv with chathistoryTargetsDeferred := true } }
  else sendReconnectTargetsRequest n

/-- `chathistory_schedule_deferred`. -/
def chathistoryScheduleDeferred (n : Net) : Net :=
  if n.serv.haveChathistory = false ∨ n.prefs.chathistoryAuto = false then n
  else { n with serv := { n.serv with chathistoryStartTimer := true } }

/-- The order of the fan-out: `current_sess` first, then the others in `sess_list`. -/
def fanOut (n : Net) : List Nat :=
  n.currentSess.toList ++ n.sessList.filter fun i => n.currentSess ≠ some i

/-- The gates of `chathistory_deferred_start_cb`. -/
def deferredStarts (n : Net) : Bool :=
  n.serv.connected && n.serv.haveChathistory && n.prefs.chathistoryAuto

/-- The deferred start up to the fan-out: TARGETS, if held back, and the counter reset. -/
def deferredReset (n : Net) : Net :=
  let n := if n.serv.chathistoryTargetsDeferred then
      sendReconnectTargetsRequest { n with serv := { n.serv with chathistoryTargetsDeferred := false } }
    else n
  { n with serv := { n.serv with chathistoryLatestPending := 0 } }

/-- `chathistory_deferred_start_cb`. -/
def chathistoryDeferredStartCb (n : Net) : Net :=
  let n := { n with serv := { n.serv with chathistoryStartTimer := false } }
  if deferredStarts n then (fanOut n).foldl sendDeferredLatest (deferredReset n) else n

/-- `is_channel`; `strchr` also finds the end of the string. -/
def isChannel (serv : Serv) (name : String) : Bool :=
  match name.toList with
  | [] => true
  | c :: _ => serv.chantypes.toList.contains c

/-- `find_channel`. -/
def findChannel (n : Net) (name : String) : Option Nat :=
  n.sessList.find? fun i => (n.heap i).type = .channel ∧ n.serv.pCmp name (n.heap i).channel

/-- `find_dialog`. -/
def findDialog (n : Net) (nick : String) : Option Nat :=
  n.sessList.find? fun i => (n.heap i).type = .dialog ∧ n.serv.pCmp nick (n.heap i).channel

/-- `find_session_for_target`. -/
def findSessionForTarget (n : Net) (target : String) : Option Nat :=
  if target = "" then none else (findChannel n target).or (findDialog n target)

/-- What `scrollback_load` leaves in a new dialog and in the store. -/
def scrollbackLoad (n : Net) (name : String) : Session × Option Sb :=
  let s : Session := { type := .dialog, channel := name }
  match n.db with
  | none => (s, none)
  | some db =>
    if n.prefs.textReplay = false ∨ name = "" then (s, some db)
    else
      let db := scrollbackPurgePending db name
      let (newest, db) := scrollbackGetNewestMsgid db name
      let (oldest, db) := scrollbackGetOldestMsgid db name
      let (time, db) := scrollbackGetNewestTime db name
      let db := if n.prefs.gapfill then (scrollbackGapDeleteCandidates db name).2 else db
      let (_, db) := scrollbackCount db name
      ({ s with
          scrollbackNewestMsgid := newest
          scrollbackOldestMsgid := oldest
          scrollbackNewestTime := time
          oldestMsgid := oldest },
        some (scrollbackFtsSchedule db name))

/-- `new_ircwindow` for a dialog that does not take the focus. -/
def newIrcwindow (n : Net) (name : String) : Nat × Net :=
  let (s, db) := scrollbackLoad n name
  (n.nextSess, { n with
    db := db
    heap := Function.update n.heap n.nextSess s
    sessList := n.nextSess :: n.sessList
    nextSess := n.nextSess + 1 })

/-- The target of a TARGETS line: a correspondent, not a channel. -/
def targetsEntry (n : Net) (msg : BatchMessage) : Option String :=
  match msg.command, msg.params with
  | some command, kind :: target :: _ :: _ =>
    if asciiCaseEq command "CHATHISTORY" ∧ asciiCaseEq kind "TARGETS" ∧ target ≠ "" ∧
      isChannel n.serv target = false then some target else none
  | _, _ => none

/-- One line of a TARGETS batch: find or open the dialog and start its catch-up. -/
def processTargetsLine (n : Net) (msg : BatchMessage) : Net :=
  match targetsEntry n msg with
  | none => n
  | some target =>
    match findDialog n target with
    | some i => chathistoryStartCatchup n i
    | none =>
      let (i, n) := newIrcwindow n target
      chathistoryStartCatchup n i

/-- `chathistory_process_targets_batch`. -/
def chathistoryProcessTargetsBatch (n : Net) (messages : List BatchMessage) : Net :=
  messages.foldl processTargetsLine n

/-! ## The BEFORE phase -/

/-- The session still needs a BEFORE request. -/
def needsBefore (s : Session) : Bool :=
  s.catchupInProgress && !s.historyExhausted && !s.historyLoading

/-- The session whose BEFORE phase goes on next: the current one, or with gap filling the first that
needs it. -/
def beforeTarget (n : Net) : Option Nat :=
  match n.currentSess.filter fun i => needsBefore (n.heap i) with
  | some i => some i
  | none => if n.prefs.gapfill then n.sessList.find? fun i => needsBefore (n.heap i) else none

/-- The BEFORE request of the chosen session. -/
def startBefore (n : Net) (i : Nat) : Net :=
  let n := n.setBeforeSess (some i)
  let n := { n.upd i fun s => { s with catchupIsBefore := true } with slots := n.slots ++ [.beforeStarted i] }
  match (n.heap i).oldestMsgid with
  | some m =>
    if m ≠ "" then chathistoryRequestBeforeMsgid n i m CHATHISTORY_BEFORE_LIMIT
    else (finishCatchup n i).setBeforeSess none
  | none => (finishCatchup n i).setBeforeSess none

/-- The network once the session is the BEFORE session. -/
def Net.takeBefore (n : Net) (i : Nat) : Net :=
  let n := n.setBeforeSess (some i)
  { n.upd i fun s => { s with catchupIsBefore := true } with slots := n.slots ++ [.beforeStarted i] }

theorem startBefore_cases (n : Net) (i : Nat) :
    startBefore n i = (finishCatchup (n.takeBefore i) i).setBeforeSess none ∨
      ∃ msgid, startBefore n i = chathistoryRequestBeforeMsgid (n.takeBefore i) i msgid CHATHISTORY_BEFORE_LIMIT := by
  unfold startBefore
  dsimp only
  split
  · split
    · exact .inr ⟨_, rfl⟩
    · exact .inl rfl
  · exact .inl rfl

/-- The gates of `chathistory_check_before_catchup`. -/
def beforeMayStart (n : Net) : Bool :=
  n.serv.connected && n.serv.haveChathistory && decide (n.serv.chathistoryLatestPending ≤ 0) &&
    !(n.serv.chathistoryBeforeSess.any fun i => (n.heap i).historyLoading)

/-- `chathistory_check_before_catchup`. -/
def chathistoryCheckBeforeCatchup (n : Net) : Net :=
  if beforeMayStart n then
    match beforeTarget n with
    | none => n.setBeforeSess none
    | some i => startBefore n i
  else n

/-- `if (chathistory_latest_pending == 0) chathistory_check_before_catchup`. -/
def checkWhenNonePending (n : Net) : Net :=
  if n.serv.chathistoryLatestPending = 0 then chathistoryCheckBeforeCatchup n else n

/-- `schedule_before_catchup`. -/
def scheduleBeforeCatchup (n : Net) : Net :=
  { n with serv := { n.serv with chathistoryBeforeTimer := true } }

/-- `chathistory_before_timer_cb`. -/
def chathistoryBeforeTimerCb (n : Net) : Net :=
  let n := { n with serv := { n.serv with chathistoryBeforeTimer := false } }
  if n.serv.connected then chathistoryCheckBeforeCatchup n else n

/-- `chathistory_notify_tab_switch`. -/
def chathistoryNotifyTabSwitch (n : Net) (i : Nat) : Net :=
  if n.serv.haveChathistory = false then n
  else if n.serv.chathistoryBeforeSess ≠ some i ∧ n.serv.chathistoryLatestPending = 0 then
    chathistoryCheckBeforeCatchup n
  else n

/-- `persistence_strip_namespace`: drop leading vendor and `draft` namespaces; `fuel` bounds the
number of slashes. -/
def persistenceStripNamespace : Nat → List Char → List Char
  | 0, name => name
  | fuel + 1, name =>
    if '/' ∉ name then name
    else
      let space := name.takeWhile (· ≠ '/')
      let rest := (name.dropWhile (· ≠ '/')).drop 1
      if space.map Char.toLower = "draft".toList then persistenceStripNamespace fuel rest
      else if '.' ∈ space then persistenceStripNamespace fuel rest
      else name

/-- The batch type of a replay wrapper. -/
def isBouncerReplay (type : String) : Bool :=
  (persistenceStripNamespace type.length type.toList).map Char.toLower == "bouncer-replay".toList

example : isBouncerReplay "evilnet.github.io/bouncer-replay" := by decide

/-- `chathistory_replay_wrapper_begin`. -/
def chathistoryReplayWrapperBegin (n : Net) : Net :=
  let wasProvisional := persistenceServerDrivesReplay n.serv
  let serv := { n.serv with persistenceReplaySeen := true }
  if wasProvisional then
    { n with serv := { serv with chathistoryStartTimer := false, chathistoryTargetsDeferred := false } }
  else { n with serv := serv }

/-- `chathistory_replay_wrapper_end`. -/
def chathistoryReplayWrapperEnd (n : Net) : Net := checkWhenNonePending n

end PoxChat.ChatHistory
