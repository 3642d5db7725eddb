import Mathlib.Logic.Function.Basic
import PoxChat.Scrollback.Ledger

/-!
# History requests

The data of one server connection that `chathistory.c` works on, and its request queue: each session
has at most one request in flight (`ch_active`) and one waiting (`ch_pending`).

* Sessions are addresses into a heap; `sess_list` is the list of the addresses in use.
* `chathistory_latest_pending` is accompanied by `slots`, the history of what was done with the
  slots it counts, and `sent` is what went out on the wire.  No function reads either.
* What the inbound handlers and text events do with a replayed message is a parameter, `Handlers`.
* Calls of the front end, and the session flags only it reads, are left out.  Counters do not wrap.
-/

set_option autoImplicit false

namespace PoxChat.ChatHistory

open Lib Scrollback

/-! ## Data -/

/-- `chreq_type`. -/
inductive ReqType where
  | latest
  | before
  | after
  | around
  | between
  deriving DecidableEq

/-- `chreq_priority`. -/
inductive Priority where
  | background
  | catchup
  | user
  deriving DecidableEq

def Priority.toNat : Priority → Nat
  | .background => 0
  | .catchup => 1
  | .user => 2

structure Chreq where
  type : ReqType
  reference : Option String
  endRef : Option String
  limit : Int
  priority : Priority
  isCatchup : Bool
  usedMsgid : Bool
  gapId : Int
  gapDir : Int
  deriving DecidableEq

inductive SessType where
  | server
  | channel
  | dialog
  | notices
  | snotices
  deriving DecidableEq

/-- `session`; for a dialog, `channel` holds the nick. -/
structure Session where
  type : SessType
  channel : String
  chActive : Option Chreq := none
  chPending : Option Chreq := none
  historyLoading : Bool := false
  historyRequestUsedMsgid : Bool := false
  historyExhausted : Bool := false
  catchupInProgress : Bool := false
  catchupIsBefore : Bool := false
  catchupLowerBound : Int := 0
  catchupGapId : Int := 0
  catchupPrevNewestTime : Int := 0
  catchupPrevNewestMsgid : Option String := none
  historyCatchupStaleCount : Int := 0
  historyCatchupRetrieved : Int := 0
  backgroundHistoryActive : Bool := false
  backgroundHistoryTimer : Bool := false
  joinMsgid : Option String := none
  oldestMsgid : Option String := none
  newestMsgid : Option String := none
  scrollbackNewestTime : Int := 0
  scrollbackOldestMsgid : Option String := none
  scrollbackNewestMsgid : Option String := none
  currentMsgid : Option String := none
  knownMsgids : List String := []

/-- `batch_message`; of the tags only the presence of `draft/chathistory-context` is read. -/
structure BatchMessage where
  command : Option String
  pfx : Option String
  params : List String
  msgid : Option String
  timestamp : Int
  context : Bool
  deriving DecidableEq

/-- `server`; `p_cmp` answers whether two names are the same under the server's casemapping. -/
structure Serv where
  connected : Bool
  haveChathistory : Bool
  chathistoryLimit : Int
  chathistorySuppressed : Bool
  chathistoryFailStreak : Int
  chathistoryBetweenUnsupported : Bool
  chathistoryLatestPending : Int
  chathistoryBeforeSess : Option Nat
  chathistoryStartTimer : Bool
  chathistoryBeforeTimer : Bool
  chathistoryTargetsDeferred : Bool
  lastDisconnectTime : Int
  persistenceAttached : Bool
  persistenceCursorSent : Bool
  persistenceReplaySeen : Bool
  /-- The types of the open batches. -/
  activeBatches : Table String String
  chantypes : String
  pCmp : String → String → Bool

structure Prefs where
  chathistoryAuto : Bool
  chathistoryLines : Int
  chathistoryBackgroundMaxAge : Nat
  gapfill : Bool
  gapfillCatchupBudget : Int
  /-- `hex_text_replay`, unless the window overrides it. -/
  textReplay : Bool

/-- What the handlers of a replayed message do besides printing it: their calls on the store, and
the session they track its msgid in. -/
structure Handlers where
  stores : Session → BatchMessage → List Op
  tracks : Session → BatchMessage → Option Nat

/-- A line sent for a session; `TARGETS` goes out for none. -/
structure Sent where
  sess : Option Nat
  line : String

/-- What happens to LATEST slots: one is taken or handed back for a session, or the BEFORE phase
of a session starts. -/
inductive SlotAct where
  | taken (sess : Nat)
  | returned (sess : Nat)
  | beforeStarted (sess : Nat)
  deriving DecidableEq

/-- One server connection: the server, its sessions and the store of its network. -/
structure Net where
  serv : Serv
  prefs : Prefs
  handlers : Handlers
  heap : Nat → Session
  sessList : List Nat
  nextSess : Nat
  /-- `current_sess`, when it is a session of this server. -/
  currentSess : Option Nat
  /-- `scrollback_open` of the server's network. -/
  db : Option Sb
  retentionCutoff : Int
  /-- `time (NULL)`. -/
  now : Int
  sent : List Sent
  slots : List SlotAct

def CHATHISTORY_DEFAULT_LIMIT : Int := 50
def CHATHISTORY_MAX_LIMIT : Int := 200
def CHATHISTORY_FUZZ_INTERVAL : Int := 5
def CHATHISTORY_BEFORE_LIMIT : Int := 50
def CHATHISTORY_SANITY_LIMIT : Int := 5000
def CHATHISTORY_CHUNK_SIZE : Nat := 50

namespace Net

/-- Write to a session. -/
def upd (n : Net) (i : Nat) (f : Session → Session) : Net :=
  { n with heap := Function.update n.heap i (f (n.heap i)) }

/-- `tcp_sendf_labeled_tracked`. -/
def send (n : Net) (sess : Option Nat) (line : String) : Net :=
  { n with sent := n.sent ++ [⟨sess, line⟩] }

/-- A call on the store, when it is open. -/
def store (n : Net) (f : Sb → Sb) : Net := { n with db := n.db.map f }

end Net

/-! ## References and limits -/

/-- A non-empty C string. -/
def nonEmpty (s : Option String) : Bool := s.any (· ≠ "")

/-- `g_ascii_strcasecmp (a, b) == 0`. -/
def asciiCaseEq (a b : String) : Bool := a.toList.map Char.toLower == b.toList.map Char.toLower

def pad2 (x : Int) : String := if x < 10 then "0" ++ toString x else toString x

/-- Year, month and day of a day number of the epoch. -/
def civilOfDays (days : Int) : Int × Int × Int :=
  let z := days + 719468
  let era := z / 146097
  let doe := z % 146097
  let yoe := (doe - doe / 1460 + doe / 36524 - doe / 146096) / 365
  let doy := doe - (365 * yoe + yoe / 4 - yoe / 100)
  let mp := (5 * doy + 2) / 153
  let m := if mp < 10 then mp + 3 else mp - 9
  (yoe + era * 400 + (if m ≤ 2 then 1 else 0), m, doy - (153 * mp + 2) / 5 + 1)

/-- `chathistory_ts_ref`; a `GDateTime` only covers the years 1 to 9999. -/
def chathistoryTsRef (ts : Int) : String :=
  if ts < -62135596800 ∨ 253402300799 < ts then "timestamp=1970-01-01T00:00:00.000Z"
  else
    let (y, m, d) := civilOfDays (ts / 86400)
    let secs := ts % 86400
    "timestamp=" ++ toString y ++ "-" ++ pad2 m ++ "-" ++ pad2 d ++ "T" ++ pad2 (secs / 3600) ++ ":" ++
      pad2 (secs / 60 % 60) ++ ":" ++ pad2 (secs % 60) ++ ".000Z"

example : chathistoryTsRef 1709210096 = "timestamp=2024-02-29T12:34:56.000Z" := by decide

/-- `g_str_has_prefix (reference, "msgid=")`. -/
def isMsgidRef (reference : String) : Bool := "msgid=".toList.isPrefixOf reference.toList

/-- `get_effective_limit`. -/
def getEffectiveLimit (serv : Serv) (requested : Int) : Int :=
  let limit := if 0 < serv.chathistoryLimit then serv.chathistoryLimit
    else if 0 < requested then requested else CHATHISTORY_DEFAULT_LIMIT
  min limit CHATHISTORY_MAX_LIMIT

/-- `get_target_name`. -/
def getTargetName (s : Session) : Option String :=
  match s.type with
  | .channel => some s.channel
  | .dialog => some s.channel
  | _ => none

/-! ## The request queue -/

/-- `chreq_is_dup`. -/
def chreqIsDup (a : Option Chreq) (b : Chreq) : Bool :=
  a.any fun a => decide (a.type = b.type ∧ a.reference = b.reference ∧ a.endRef = b.endRef)

/-- The line of a request, without its end. -/
def Chreq.line (req : Chreq) (target : String) (limit : Int) : String :=
  let ref := req.reference.getD "(null)"
  match req.type with
  | .latest =>
    let ref := if nonEmpty req.reference then ref else "*"
    "CHATHISTORY LATEST " ++ target ++ " " ++ ref ++ " " ++ toString limit
  | .before => "CHATHISTORY BEFORE " ++ target ++ " " ++ ref ++ " " ++ toString limit
  | .after => "CHATHISTORY AFTER " ++ target ++ " " ++ ref ++ " " ++ toString limit
  | .around => "CHATHISTORY AROUND " ++ target ++ " " ++ ref ++ " " ++ toString limit
  | .between =>
    "CHATHISTORY BETWEEN " ++ target ++ " " ++ ref ++ " " ++ req.endRef.getD "(null)" ++ " " ++ toString limit

/-- `chathistory_dispatch_now`: a request that cannot go out is dropped. -/
def chathistoryDispatchNow (n : Net) (i : Nat) (req : Chreq) : Net :=
  match getTargetName (n.heap i) with
  | none => n
  | some target =>
    if target = "" then n
    else if n.serv.haveChathistory = false ∨ n.serv.connected = false ∨ n.serv.chathistorySuppressed then n
    else
      (n.upd i fun s => { s with
        chActive := some req
        historyLoading := true
        historyRequestUsedMsgid := req.usedMsgid }).send (some i)
          (req.line target (getEffectiveLimit n.serv req.limit))

/-- `chathistory_submit`: whether the request was dispatched or queued. -/
def chathistorySubmit (n : Net) (i : Nat) (req : Chreq) : Bool × Net :=
  let s := n.heap i
  if chreqIsDup s.chActive req then (false, n)
  else if chreqIsDup s.chPending req then (false, n)
  else if s.chActive = none then (true, chathistoryDispatchNow n i req)
  else if s.chPending.all fun p => p.priority.toNat < req.priority.toNat then
    (true, n.upd i fun s => { s with chPending := some req })
  else (false, n)

/-- `chathistory_request_complete`. -/
def chathistoryRequestComplete (n : Net) (i : Nat) : Net :=
  let n := n.upd i fun s => { s with chActive := none, historyLoading := false }
  match (n.heap i).chPending with
  | none => n
  | some pending => chathistoryDispatchNow (n.upd i fun s => { s with chPending := none }) i pending

/-- `chathistory_queue_free`. -/
def chathistoryQueueFree (n : Net) (i : Nat) : Net :=
  n.upd i fun s => { s with chActive := none, chPending := none, historyLoading := false }

/-! ## Requests -/

/-- `infer_priority`. -/
def inferPriority (s : Session) : Priority :=
  if s.backgroundHistoryActive then .background else if s.catchupInProgress then .catchup else .user

/-- The requests of the API share their gates: the capability, a connection and a session with a
target. -/
def requestGate (n : Net) (i : Nat) : Bool :=
  n.serv.haveChathistory && n.serv.connected && (getTargetName (n.heap i)).isSome

/-- Submit a request built as the API builds it. -/
def submitRequest (n : Net) (i : Nat) (type : ReqType) (reference endRef : Option String) (limit : Int)
    (usedMsgid : Bool) : Net :=
  let s := n.heap i
  (chathistorySubmit n i
    ⟨type, reference, endRef, limit, inferPriority s, s.catchupInProgress, usedMsgid, 0, 0⟩).2

/-- `chathistory_request_latest`. -/
def chathistoryRequestLatest (n : Net) (i : Nat) (reference : Option String) (limit : Int) : Net :=
  if requestGate n i then submitRequest n i .latest reference none limit (reference.any isMsgidRef) else n

/-- `chathistory_request_before`. -/
def chathistoryRequestBefore (n : Net) (i : Nat) (reference : String) (limit : Int) : Net :=
  if requestGate n i ∧ reference ≠ "" then
    submitRequest n i .before (some reference) none limit (isMsgidRef reference)
  else n

/-- `chathistory_request_after`. -/
def chathistoryRequestAfter (n : Net) (i : Nat) (reference : String) (limit : Int) : Net :=
  if requestGate n i ∧ reference ≠ "" then
    submitRequest n i .after (some reference) none limit (isMsgidRef reference)
  else n

/-- `chathistory_request_around`. -/
def chathistoryRequestAround (n : Net) (i : Nat) (reference : String) (limit : Int) : Net :=
  if requestGate n i ∧ reference ≠ "" then
    submitRequest n i .around (some reference) none limit false
  else n

/-- `chathistory_request_between`. -/
def chathistoryRequestBetween (n : Net) (i : Nat) (startRef endRef : String) (limit : Int) : Net :=
  if requestGate n i ∧ startRef ≠ "" ∧ endRef ≠ "" then
    submitRequest n i .between (some startRef) (some endRef) limit false
  else n

/-- `chathistory_request_targets`. -/
def chathistoryRequestTargets (n : Net) (startRef endRef : String) (limit : Int) : Net :=
  if n.serv.haveChathistory = false ∨ n.serv.connected = false ∨ startRef = "" ∨ endRef = "" then n
  else n.send none ("CHATHISTORY TARGETS " ++ startRef ++ " " ++ endRef ++ " " ++
    toString (getEffectiveLimit n.serv limit))

/-- `chathistory_request_before_msgid`. -/
def chathistoryRequestBeforeMsgid (n : Net) (i : Nat) (msgid : String) (limit : Int) : Net :=
  if msgid = "" then n else chathistoryRequestBefore n i ("msgid=" ++ msgid) limit

/-- `chathistory_request_older`: scroll-to-load. -/
def chathistoryRequestOlder (n : Net) (i : Nat) : Net :=
  let s := n.heap i
  if n.serv.haveChathistory = false ∨ s.historyExhausted then n
  else
    match if nonEmpty s.oldestMsgid then s.oldestMsgid
      else if nonEmpty s.scrollbackOldestMsgid then s.scrollbackOldestMsgid else none with
    | none => n
    | some reference =>
      (chathistorySubmit n i ⟨.before, some ("msgid=" ++ reference), none, n.prefs.chathistoryLines, .user,
        false, true, 0, 0⟩).2

/-! ## Gap fills -/

/-- The reference of one edge of a gap, and whether it is a msgid. -/
def edgeRef (msgid : Option String) (ts : Int) : String × Bool :=
  match msgid with
  | some m => if m ≠ "" then ("msgid=" ++ m, true) else (chathistoryTsRef ts, false)
  | none => (chathistoryTsRef ts, false)

/-- `scrollback_gap_is_parked`. -/
def scrollbackGapIsParked (n : Net) (g : Gap) : Bool :=
  decide (0 < n.retentionCutoff ∧ g.endTs < n.retentionCutoff)

/-- The request for a gap, approached from its end (`dir < 0`) or its start. -/
def gapRequest (n : Net) (g : Gap) (gapId dir : Int) : Chreq :=
  let start := edgeRef g.startMsgid g.startTs
  let final := edgeRef g.endMsgid g.endTs
  let (near, far) := if dir < 0 then (final, start) else (start, final)
  if n.serv.chathistoryBetweenUnsupported then
    ⟨if dir < 0 then .before else .after, some near.1, none, n.prefs.chathistoryLines, .user, false, near.2,
      gapId, dir⟩
  else
    ⟨.between, some near.1, some far.1, n.prefs.chathistoryLines, .user, false, near.2 || far.2, gapId, dir⟩

/-- `chathistory_request_gap_fill`: whether a request for the gap was submitted. -/
def chathistoryRequestGapFill (n : Net) (i : Nat) (gapId approachDir : Int) : Bool × Net :=
  if n.serv.haveChathistory = false ∨ n.serv.chathistorySuppressed then (false, n)
  else if n.prefs.gapfill = false ∨ gapId ≤ 0 then (false, n)
  else if (n.heap i).catchupInProgress then (false, n)
  else
    match n.db.bind fun db => scrollbackGapGet db gapId with
    | none => (false, n)
    | some g =>
      if g.state = .dead ∨ scrollbackGapIsParked n g then (false, n)
      else if 0 < g.lastAttempt ∧ n.now - g.lastAttempt < min (5 * g.attempts) 60 then (false, n)
      else
        let (submitted, n) := chathistorySubmit n i (gapRequest n g gapId approachDir)
        if submitted then (true, n.store fun db => (scrollbackGapTouch db gapId n.now).2) else (false, n)

/-- `gap_fill_retry_with_timestamps`. -/
def gapFillRetryWithTimestamps (n : Net) (i : Nat) (gapId gapDir : Int) : Bool × Net :=
  if gapId ≤ 0 ∨ (n.heap i).historyRequestUsedMsgid = false ∨ n.serv.chathistorySuppressed then (false, n)
  else
    match n.db with
    | none => (false, n)
    | some db =>
      let (dropped, db) := scrollbackGapDropMsgids db gapId
      let n := { n with db := some db }
      if dropped then chathistoryRequestGapFill n i gapId gapDir else (false, n)

end PoxChat.ChatHistory
