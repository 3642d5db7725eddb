import PoxChat.ChatHistory.Delivery

/-!
# The replay gate of draft/persistence

Model of `persistence.c`.  The client may attach its connection to a profile with the msgid of its
newest row as a cursor, and then holds its own catch-up back while the server is expected to replay.

* `Conn` — a connection with its persistence flags; `wire` and `printed` are the ATTACH lines sent and the
  texts shown.
* `log` — the ATTACHes, their acknowledgements, the FAILs, the end of registration and the replay
  wrappers, in the order they happened; no function reads it.
* `GateSound` — what the flags say about the log.

Principal result: `replay_gate` — `GateSound` holds after every run from `persistence_reset`.
-/

set_option autoImplicit false

namespace PoxChat.ChatHistory

open Lib Scrollback

/-! ## Names -/

def stripNamespace (name : String) : String :=
  String.ofList (persistenceStripNamespace name.length name.toList)

/-- `persistence_match`: what follows the persistence stem, if the name has it. -/
def persistenceMatch (name : String) : Option String :=
  let base := (stripNamespace name).toList
  if (base.take 11).map Char.toLower = "persistence".toList then
    match base.drop 11 with
    | [] => some ""
    | '/' :: sub => some (String.ofList sub)
    | _ => none
  else none

def persistenceIsBareName (name : String) : Bool := persistenceMatch name == some ""

example : persistenceIsBareName "evilnet.github.io/draft/Persistence" := by decide
example : persistenceMatch "draft/persistence/hold" = some "hold" := by decide

def valueIsOn (value : String) : Bool :=
  value == "1" || asciiCaseEq value "on" || asciiCaseEq value "true"

/-! ## The connection -/

/-- The tokens of the CAP value. -/
structure CapTokens where
  replayControl : Bool := false
  profile : Bool := false
  attach : Bool := false
  detach : Bool := false
  list : Bool := false
  attachCursor : Bool := false

/-- What the gate is about; a FAIL is recorded under its bare code. -/
inductive Act where
  | attach (profile : String) (cursor : Option String)
  | ack
  | fail (code : String)
  | registered
  | wrapper
  deriving DecidableEq

structure Conn where
  net : Net
  havePersistence : Bool := false
  tok : CapTokens := {}
  statusKnown : Bool := false
  effective : Bool := false
  attachPending : Bool := false
  persistProfile : String
  wire : List String := []
  printed : List String := []
  log : List Act := []

namespace Conn

def print (c : Conn) (text : String) : Conn := { c with printed := c.printed ++ [text] }

def setServ (c : Conn) (f : Serv → Serv) : Conn := { c with net := { c.net with serv := f c.net.serv } }

end Conn

/-- `persistence_reset`: the connection forgets what the last one learned, and its records start. -/
def persistenceReset (c : Conn) : Conn :=
  { c.setServ fun s => { s with
      persistenceAttached := false
      persistenceCursorSent := false
      persistenceReplaySeen := false } with
    havePersistence := false
    tok := {}
    statusKnown := false
    effective := false
    attachPending := false
    wire := []
    printed := []
    log := [] }

/-! ## Capabilities -/

/-- One token of the CAP value; an unknown one is ignored. -/
def capToken (tok : CapTokens) (word : String) : CapTokens :=
  let word := stripNamespace word
  if asciiCaseEq word "replay-control" then { tok with replayControl := true }
  else if asciiCaseEq word "profile" then { tok with profile := true }
  else if asciiCaseEq word "attach" then { tok with attach := true }
  else if asciiCaseEq word "detach" then { tok with detach := true }
  else if asciiCaseEq word "list" then { tok with list := true }
  else if asciiCaseEq word "attach-cursor" then { tok with attachCursor := true }
  else tok

/-- `persistence_parse_cap_value`: the value replaces every token of the one before. -/
def persistenceParseCapValue (c : Conn) (value : String) : Conn :=
  { c with tok := ((value.toList.splitOn ',').map String.ofList).foldl capToken {} }

/-- The persistence branch of `inbound_toggle_caps`. -/
def toggleCap (c : Conn) (extension : String) (enable : Bool) : Conn :=
  if persistenceIsBareName extension then { c with havePersistence := enable } else c

/-! ## ATTACH -/

/-- `scrollback_get_global_newest_msgid`: the newest of the newest rows of the channels. -/
def scrollbackGetGlobalNewestMsgid (s : Sb) : Option String :=
  let newest := s.channels.filterMap fun c => (selectDesc s.messages (hasRealMsgid c.id)).head?
  (selectDesc newest fun _ => true).head?.bind (·.msgid)

def PERSISTENCE_MAX_CURSOR_LEN : Nat := 256

/-- The cursor an ATTACH would carry. -/
def attachCursor (c : Conn) : Option String :=
  if c.tok.attachCursor then
    (c.net.db.bind scrollbackGetGlobalNewestMsgid).filter fun cursor =>
      decide (cursor.utf8ByteSize ≤ PERSISTENCE_MAX_CURSOR_LEN)
  else none

/-- The guards of `persistence_send_attach`. -/
def mayAttach (c : Conn) : Bool :=
  c.havePersistence && c.persistProfile ≠ "" &&
    !(c.persistProfile.toList.any fun ch => ch == ' ' || ch == '\r' || ch == '\n') &&
    !c.net.serv.persistenceAttached

def attachLine (profile : String) : Option String → String
  | some cursor => "PERSISTENCE ATTACH " ++ profile ++ " " ++ cursor ++ "\r\n"
  | none => "PERSISTENCE ATTACH " ++ profile ++ "\r\n"

/-- `persistence_send_attach`. -/
def persistenceSendAttach (c : Conn) : Conn :=
  if mayAttach c then
    let cursor := attachCursor c
    { c.setServ fun s => { s with
        persistenceAttached := true
        persistenceCursorSent := cursor.isSome } with
      wire := c.wire ++ [attachLine c.persistProfile cursor]
      attachPending := true }
  else c

/-- `persistence_registration_complete`. -/
def persistenceRegistrationComplete (c : Conn) : Conn := { c with attachPending := false }

/-! ## Replies -/

def PERSISTENCE_MAX_WORDS : Nat := 8

/-- `persistence_split`: the words of a reply, each with the text from it on. -/
def persistenceSplit : Nat → List Char → List (String × String)
  | 0, _ => []
  | room + 1, buf =>
    match buf.dropWhile (· = ' ') with
    | [] => []
    | ':' :: rest => [(String.ofList rest, String.ofList rest)]
    | p => (String.ofList (p.takeWhile (· ≠ ' ')), String.ofList p) ::
        persistenceSplit room ((p.dropWhile (· ≠ ' ')).drop 1)

/-- The words of a reply's arguments. -/
def replyWords (args : String) : List (String × String) :=
  persistenceSplit PERSISTENCE_MAX_WORDS (args.toList.dropWhile (· = ' '))

/-- `persistence_handle_reply`. -/
def persistenceHandleReply (c : Conn) (args : String) : Conn :=
  let w := replyWords args
  let n := w.length
  let word i := (w.getD i ("", "")).1
  let rest i := (w.getD i ("", "")).2
  let verb := asciiCaseEq (word 0)
  let second := asciiCaseEq (word 1)
  if n = 0 then c
  else if verb "STATUS" ∧ 2 ≤ n then
    let c := { c with
      statusKnown := true
      effective := valueIsOn (if 3 ≤ n then word 2 else word 1) }
    if 3 ≤ n then c.print ("Persistence: preference " ++ word 1 ++ ", effective " ++ word 2)
    else c.print ("Persistence: effective " ++ word 1)
  else if verb "SET" ∧ 2 ≤ n then c.print ("Persistence: preference set to " ++ word 1)
  else if verb "REPLAY" ∧ 4 ≤ n ∧ second "STATUS" then
    c.print ("Persistence replay: preference " ++ word 2 ++ ", effective " ++ word 3)
  else if verb "REPLAY" ∧ 3 ≤ n ∧ second "SET" then
    c.print ("Persistence replay: preference set to " ++ word 2)
  else if verb "PROFILE" ∧ 2 ≤ n ∧ second "ENDOFLIST" then c.print "Persistence: end of profile list"
  else if verb "PROFILE" ∧ 3 ≤ n ∧ second "CREATED" then
    c.print ("Persistence: profile " ++ word 2 ++ " created (" ++
      (if 4 ≤ n then rest 3 else "parent=default") ++ ")")
  else if verb "PROFILE" ∧ 3 ≤ n ∧ second "DELETED" then
    c.print ("Persistence: profile " ++ word 2 ++ " deleted")
  else if verb "PROFILE" ∧ 4 ≤ n ∧ second "RENAMED" then
    c.print ("Persistence: profile " ++ word 2 ++ " renamed to " ++ word 3)
  else if verb "PROFILE" ∧ n = 2 then c.print ("Persistence: profile " ++ word 1)
  else if verb "PROFILE" ∧ 3 ≤ n ∧ '=' ∈ (word 2).toList then
    c.print ("Persistence: profile " ++ word 1 ++ " (" ++ rest 2 ++ ")")
  else if verb "PROFILE" ∧ 4 ≤ n then
    c.print ("Persistence: profile " ++ word 1 ++ ": " ++ word 2 ++ " = " ++ word 3)
  else if verb "PROFILE" ∧ n = 3 then
    c.print ("Persistence: profile " ++ word 1 ++ ": " ++ word 2 ++ " unset")
  else if verb "ATTACH" ∧ 2 ≤ n then
    { c with attachPending := false }.print ("Persistence: attached to profile " ++ word 1)
  else if verb "DETACH" ∧ 2 ≤ n ∧ second "OK" then
    c.print "Persistence: detached, the session was released"
  else if verb "DETACH" ∧ 2 ≤ n ∧ second "NOSESSION" then c.print "Persistence: no session to detach"
  else c.print ("Persistence: " ++ String.ofList (args.toList.dropWhile (· = ' ')))

/-- The reply acknowledges an ATTACH. -/
def isAttachAck (args : String) : Bool :=
  match replyWords args with
  | verb :: _ :: _ => asciiCaseEq verb.1 "ATTACH"
  | _ => false

/-! ## FAIL -/

/-- The server no longer knows the cursor. -/
def cursorUnknown (code : String) : Bool := asciiCaseEq code "CURSOR_UNKNOWN"

/-- The server refuses the ATTACH. -/
def refusesAttach (code : String) : Bool :=
  asciiCaseEq code "ACCOUNT_REQUIRED" || asciiCaseEq code "INVALID_PARAMETERS"

def bareCode (code : Option String) : String := (code.map stripNamespace).getD ""

/-- What the FAIL that answers the ATTACH does to the flags. -/
def answerAttach (c : Conn) (bare : String) : Conn :=
  let c := if cursorUnknown bare then c.setServ fun s => { s with persistenceCursorSent := false }
    else if refusesAttach bare then c.setServ fun s => { s with
      persistenceAttached := false
      persistenceCursorSent := false }
    else c
  { c with attachPending := false }

/-- `persistence_handle_fail`. -/
def persistenceHandleFail (c : Conn) (code context text : Option String) : Conn :=
  let bare := bareCode code
  let c := if c.attachPending then answerAttach c bare else c
  if nonEmpty context then
    c.print ("Persistence error " ++ bare ++ " (" ++ context.getD "" ++ "): " ++ text.getD "")
  else c.print ("Persistence error " ++ bare ++ ": " ++ text.getD "")

/-! ## Runs -/

/-- What happens on a connection; `stored` and `configured` are rows saved and the profile changed by
the rest of the client. -/
inductive ConnEvent where
  | capValue (value : String)
  | toggleCap (extension : String) (enable : Bool)
  | sendAttach
  | reply (args : String)
  | fail (code context text : Option String)
  | registrationComplete
  | wrapperBegin
  | stored (op : Op)
  | configured (profile : String)

/-- The acts an event puts on the log. -/
def observed (c : Conn) : ConnEvent → List Act
  | .sendAttach => if mayAttach c then [.attach c.persistProfile (attachCursor c)] else []
  | .reply args => if isAttachAck args then [.ack] else []
  | .fail code _ _ => [.fail (bareCode code)]
  | .registrationComplete => [.registered]
  | .wrapperBegin => [.wrapper]
  | _ => []

def ConnEvent.apply (c : Conn) : ConnEvent → Conn
  | .capValue value => persistenceParseCapValue c value
  | .toggleCap extension enable => ChatHistory.toggleCap c extension enable
  | .sendAttach => persistenceSendAttach c
  | .reply args => persistenceHandleReply c args
  | .fail code context text => persistenceHandleFail c code context text
  | .registrationComplete => persistenceRegistrationComplete c
  | .wrapperBegin => { c with net := chathistoryReplayWrapperBegin c.net }
  | .stored op => { c with net := c.net.store (Scrollback.step · op) }
  | .configured profile => { c with persistProfile := profile }

def ConnEvent.step (c : Conn) (e : ConnEvent) : Conn := { e.apply c with log := c.log ++ observed c e }

/-- A connection from its reset on. -/
def connRun (c : Conn) (es : List ConnEvent) : Conn := es.foldl ConnEvent.step (persistenceReset c)

/-! ## What the log says -/

/-- An acknowledgement or a FAIL. -/
def Act.isAnswer : Act → Bool
  | .ack => true
  | .fail _ => true
  | _ => false

/-- After this act no FAIL is the answer to an ATTACH sent before it. -/
def Act.closes : Act → Bool
  | .registered => true
  | a => a.isAnswer

def AttachAt (log : List Act) (j : Nat) : Prop := ∃ profile cursor, log[j]? = some (.attach profile cursor)

/-- The ATTACH at `j` was sent, and since then neither answered nor overtaken by the end of
registration. -/
def Awaiting (log : List Act) (j : Nat) : Prop := AttachAt log j ∧ ∀ a ∈ log.drop (j + 1), a.closes = false

/-- The act at `k` is the first acknowledgement or FAIL after the ATTACH at `j`, and registration did
not complete between the two. -/
def Answers (log : List Act) (j k : Nat) : Prop :=
  Awaiting (log.take k) j ∧ ∃ a, log[k]? = some a ∧ a.isAnswer = true

/-- The ATTACH at `j` was answered by a FAIL whose code is one of `codes`. -/
def FailedWith (codes : String → Bool) (log : List Act) (j : Nat) : Prop :=
  ∃ k code, Answers log j k ∧ log[k]? = some (.fail code) ∧ codes code = true

/-- The codes that end the expectation of a replay. -/
def opensGate (code : String) : Bool := cursorUnknown code || refusesAttach code

/-- The ATTACH at `j` carried a cursor. -/
def CursorAt (log : List Act) (j : Nat) : Prop := ∃ profile cursor, log[j]? = some (.attach profile (some cursor))

/-- The line of an ATTACH. -/
def Act.line? : Act → Option String
  | .attach profile cursor => some (attachLine profile cursor)
  | _ => none

section Log

variable {log : List Act} {a : Act} {j k : Nat}

theorem AttachAt.lt (h : AttachAt log j) : j < log.length := by
  obtain ⟨_, _, h⟩ := h
  exact (List.getElem?_eq_some_iff.1 h).1

/-- An act of a longer log is one of the log before, or the new one. -/
theorem getElem?_log_append {b : Act} : (log ++ [a])[j]? = some b ↔ log[j]? = some b ∨ j = log.length ∧ a = b := by
  rcases Nat.lt_trichotomy j log.length with hj | rfl | hj
  · rw [List.getElem?_append_left hj]
    simp [Nat.ne_of_lt hj]
  · simp
  · rw [List.getElem?_eq_none (by simp; omega), List.getElem?_eq_none (by omega)]
    simp [Nat.ne_of_gt hj]

theorem attachAt_append : AttachAt (log ++ [a]) j ↔
    AttachAt log j ∨ j = log.length ∧ ∃ profile cursor, a = .attach profile cursor := by
  unfold AttachAt
  simp only [getElem?_log_append, exists_or, exists_and_left]

theorem cursorAt_append : CursorAt (log ++ [a]) j ↔
    CursorAt log j ∨ j = log.length ∧ ∃ profile cursor, a = .attach profile (some cursor) := by
  unfold CursorAt
  simp only [getElem?_log_append, exists_or, exists_and_left]

theorem CursorAt.attachAt (h : CursorAt log j) : AttachAt log j := by
  obtain ⟨profile, cursor, h⟩ := h
  exact ⟨profile, some cursor, h⟩

theorem awaiting_append : Awaiting (log ++ [a]) j ↔ Awaiting log j ∧ a.closes = false ∨
    j = log.length ∧ ∃ profile cursor, a = .attach profile cursor := by
  unfold Awaiting
  rw [attachAt_append]
  constructor
  · rintro ⟨h | ⟨rfl, h⟩, hrest⟩
    · have hj : j + 1 ≤ log.length := h.lt
      rw [List.drop_append_of_le_length hj] at hrest
      exact .inl ⟨⟨h, fun b hb => hrest b (List.mem_append_left _ hb)⟩, hrest a (by simp)⟩
    · exact .inr ⟨rfl, h⟩
  · rintro (⟨⟨h, hrest⟩, ha⟩ | ⟨rfl, h⟩)
    · have hj : j + 1 ≤ log.length := h.lt
      rw [List.drop_append_of_le_length hj]
      refine ⟨.inl h, fun b hb => ?_⟩
      rcases List.mem_append.1 hb with hb | hb
      · exact hrest b hb
      · rwa [List.mem_singleton.1 hb]
    · exact ⟨.inr ⟨rfl, h⟩, by simp⟩

theorem answers_append : Answers (log ++ [a]) j k ↔
    Answers log j k ∨ k = log.length ∧ Awaiting log j ∧ a.isAnswer = true := by
  unfold Answers
  rcases Nat.lt_trichotomy k log.length with hk | rfl | hk
  · rw [List.take_append_of_le_length (Nat.le_of_lt hk), List.getElem?_append_left hk]
    simp [Nat.ne_of_lt hk]
  · simp
  · rw [List.getElem?_eq_none (by simp; omega), List.getElem?_eq_none (by omega)]
    simp [Nat.ne_of_gt hk]

theorem failedWith_append {codes : String → Bool} : FailedWith codes (log ++ [a]) j ↔
    FailedWith codes log j ∨ Awaiting log j ∧ ∃ code, a = .fail code ∧ codes code = true := by
  unfold FailedWith
  constructor
  · rintro ⟨k, code, h, hk, hc⟩
    rcases answers_append.1 h with h | ⟨rfl, h, -⟩
    · obtain ⟨b, hb, -⟩ := h.2
      have hlt : k < log.length := (List.getElem?_eq_some_iff.1 hb).1
      rw [List.getElem?_append_left hlt] at hk
      exact .inl ⟨k, code, h, hk, hc⟩
    · exact .inr ⟨h, code, by simpa using hk, hc⟩
  · rintro (⟨k, code, h, hk, hc⟩ | ⟨h, code, rfl, hc⟩)
    · have hlt : k < log.length := (List.getElem?_eq_some_iff.1 hk).1
      exact ⟨k, code, answers_append.2 (.inl h), by rwa [List.getElem?_append_left hlt], hc⟩
    · exact ⟨log.length, code, answers_append.2 (.inr ⟨rfl, h, rfl⟩), by simp, hc⟩

theorem FailedWith.attachAt {codes : String → Bool} (h : FailedWith codes log j) : AttachAt log j := by
  obtain ⟨k, code, ⟨⟨⟨profile, cursor, hj⟩, -⟩, -⟩, hk, -⟩ := h
  have hjk : j < k := by
    have := (List.getElem?_eq_some_iff.1 hj).1
    simp only [List.length_take] at this
    omega
  exact ⟨profile, cursor, by rwa [List.getElem?_take_of_lt hjk] at hj⟩

theorem FailedWith.mono {codes codes' : String → Bool} (hle : ∀ c, codes c = true → codes' c = true)
    (h : FailedWith codes log j) : FailedWith codes' log j := by
  obtain ⟨k, code, hans, hk, hc⟩ := h
  exact ⟨k, code, hans, hk, hle code hc⟩

/-- An ATTACH that still waits has not failed. -/
theorem Awaiting.not_failedWith {codes : String → Bool} (h : Awaiting log j) : ¬ FailedWith codes log j := by
  rintro ⟨k, code, ⟨hj, -⟩, hk, -⟩
  have hjk : j < k := by
    have := hj.1.lt
    simp only [List.length_take] at this
    omega
  have hmem : Act.fail code ∈ log.drop (j + 1) := by
    apply List.mem_of_getElem? (i := k - (j + 1))
    rw [List.getElem?_drop]
    convert hk using 2
    omega
  have hc := h.2 _ hmem
  simp [Act.closes, Act.isAnswer] at hc

end Log

/-! ## The flags and the log -/

/-- The act is a FAIL whose code is one of `codes`. -/
def Act.failsWith (codes : String → Bool) : Act → Bool
  | .fail code => codes code
  | _ => false

theorem Act.failsWith_iff {codes : String → Bool} {a : Act} :
    a.failsWith codes = true ↔ ∃ code, a = .fail code ∧ codes code = true := by
  cases a <;> simp [Act.failsWith]

/-- Each flag of the gate is a fact about the log, and at most one ATTACH is not refused. -/
structure Gate (log : List Act) (attached pending cursor seen : Bool) : Prop where
  attached : attached = true ↔ ∃ j, AttachAt log j ∧ ¬ FailedWith refusesAttach log j
  pending : pending = true ↔ ∃ j, Awaiting log j
  cursor : cursor = true ↔ ∃ j, CursorAt log j ∧ ¬ FailedWith opensGate log j
  seen : seen = true ↔ Act.wrapper ∈ log
  one : ∀ j j', AttachAt log j → AttachAt log j' → ¬ FailedWith refusesAttach log j →
    ¬ FailedWith refusesAttach log j' → j = j'

section Flags

variable {log : List Act} {attached pending cursor seen : Bool}

theorem opensGate_of_refuses (code : String) (h : refusesAttach code = true) : opensGate code = true := by
  simp [opensGate, h]

theorem Gate.nil : Gate [] false false false false := by
  have hat : ∀ j, ¬ AttachAt [] j := fun j h => by simpa using h.lt
  constructor
  · simp [hat]
  · simp [Awaiting, hat]
  · simpa using fun j h => absurd (CursorAt.attachAt h) (hat j)
  · simp
  · intro j j' hj
    exact absurd hj (hat j)

/-- While an ATTACH waits, it is the only one that is not refused. -/
theorem Gate.awaiting_unique (h : Gate log attached pending cursor seen) {j j' : Nat} (hj : Awaiting log j)
    (hj' : AttachAt log j') (hr : ¬ FailedWith refusesAttach log j') : j' = j :=
  h.one j' j hj' hj.1 hr hj.not_failedWith

/-- An ATTACH goes out only when every one before it was refused. -/
theorem Gate.attach (h : Gate log false pending cursor seen) (profile : String) (cur : Option String) :
    Gate (log ++ [.attach profile cur]) true true cur.isSome seen := by
  have hold : ∀ j, AttachAt log j → FailedWith refusesAttach log j := by
    intro j hj
    by_contra hr
    exact absurd (h.attached.2 ⟨j, hj, hr⟩) (by simp)
  have hnew : ∀ codes, ¬ FailedWith codes log log.length := fun codes hf => Nat.lt_irrefl _ hf.attachAt.lt
  have hfail : ∀ codes j, FailedWith codes (log ++ [.attach profile cur]) j ↔ FailedWith codes log j := by
    intro codes j
    simp [failedWith_append]
  constructor
  · refine iff_of_true rfl ⟨log.length, attachAt_append.2 (.inr ⟨rfl, profile, cur, rfl⟩), ?_⟩
    rw [hfail]
    exact hnew _
  · exact iff_of_true rfl ⟨log.length, awaiting_append.2 (.inr ⟨rfl, profile, cur, rfl⟩)⟩
  · simp only [hfail]
    constructor
    · intro hc
      obtain ⟨c, rfl⟩ := Option.isSome_iff_exists.1 hc
      exact ⟨log.length, cursorAt_append.2 (.inr ⟨rfl, profile, c, rfl⟩), hnew _⟩
    · rintro ⟨j, hj, hr⟩
      rcases cursorAt_append.1 hj with hj | ⟨-, p, c, he⟩
      · exact absurd ((hold j hj.attachAt).mono opensGate_of_refuses) hr
      · cases he
        rfl
  · simpa using h.seen
  · intro j j' hj hj' hr hr'
    rw [hfail] at hr hr'
    rcases attachAt_append.1 hj with hj | ⟨rfl, -⟩
    · exact absurd (hold j hj) hr
    rcases attachAt_append.1 hj' with hj' | ⟨rfl, -⟩
    · exact absurd (hold j' hj') hr'
    · rfl

/-- A flag that some ATTACH not failed with `codes` holds up: an act takes it down when it is such a
FAIL and an ATTACH waits for it. -/
theorem Gate.flag_append (h : Gate log attached pending cursor seen) {a : Act} {P : Nat → Prop}
    {codes : String → Bool} {flag : Bool} (hP : ∀ j, P j → AttachAt log j)
    (hcodes : ∀ c, refusesAttach c = true → codes c = true)
    (hflag : flag = true ↔ ∃ j, P j ∧ ¬ FailedWith codes log j) :
    (flag && !(pending && a.failsWith codes)) = true ↔ ∃ j, P j ∧ ¬ FailedWith codes (log ++ [a]) j := by
  simp only [failedWith_append, ← Act.failsWith_iff]
  constructor
  · intro hb
    simp only [Bool.and_eq_true, Bool.not_eq_true', Bool.and_eq_false_iff] at hb
    obtain ⟨j, hj, hr⟩ := hflag.1 hb.1
    refine ⟨j, hj, ?_⟩
    rintro (hf | ⟨hw, hf⟩)
    · exact hr hf
    · rcases hb.2 with hp | hp
      · exact absurd (h.pending.2 ⟨j, hw⟩) (by simp [hp])
      · simp [hf] at hp
  · rintro ⟨j, hj, hr⟩
    rw [not_or] at hr
    have hup := hflag.2 ⟨j, hj, hr.1⟩
    by_cases hp : pending = true
    · obtain ⟨w, hw⟩ := h.pending.1 hp
      have hjw : j = w := h.awaiting_unique hw (hP j hj) fun hf => hr.1 (hf.mono hcodes)
      subst hjw
      have hnf : a.failsWith codes = false := by simpa using fun hf => hr.2 ⟨hw, hf⟩
      simp [hup, hnf]
    · simp [hup, hp]

/-- Any other act: a FAIL reaches the flags only while an ATTACH waits, and an act that closes the
window ends the wait. -/
theorem Gate.append (h : Gate log attached pending cursor seen) {a : Act}
    (ha : ∀ profile cur, a ≠ .attach profile cur) :
    Gate (log ++ [a]) (attached && !(pending && a.failsWith refusesAttach)) (pending && !a.closes)
      (cursor && !(pending && a.failsWith opensGate)) (seen || decide (a = .wrapper)) := by
  have hat : ∀ j, AttachAt (log ++ [a]) j ↔ AttachAt log j := by
    intro j
    simp [attachAt_append, ha]
  have hcur : ∀ j, CursorAt (log ++ [a]) j ↔ CursorAt log j := by
    intro j
    simp [cursorAt_append, ha]
  have hwait : ∀ j, Awaiting (log ++ [a]) j ↔ Awaiting log j ∧ a.closes = false := by
    intro j
    simp [awaiting_append, ha]
  constructor
  · simp only [hat]
    exact h.flag_append (fun j hj => hj) (fun c hc => hc) h.attached
  · simp only [hwait, Bool.and_eq_true, Bool.not_eq_true', h.pending]
    exact ⟨fun ⟨⟨j, hj⟩, hc⟩ => ⟨j, hj, hc⟩, fun ⟨j, hj, hc⟩ => ⟨⟨j, hj⟩, hc⟩⟩
  · simp only [hcur]
    exact h.flag_append (fun j hj => hj.attachAt) opensGate_of_refuses h.cursor
  · rw [Bool.or_eq_true, h.seen, decide_eq_true_iff, List.mem_append, List.mem_singleton]
    exact or_congr_right eq_comm
  · intro j j' hj hj' hr hr'
    exact h.one j j' ((hat j).1 hj) ((hat j').1 hj') (fun hf => hr (failedWith_append.2 (.inl hf)))
      (fun hf => hr' (failedWith_append.2 (.inl hf)))

end Flags

/-! ## Every run -/

/-- The flags of the connection against its log, and the lines sent against its ATTACHes. -/
structure GateInv (c : Conn) : Prop where
  gate : Gate c.log c.net.serv.persistenceAttached c.attachPending c.net.serv.persistenceCursorSent
    c.net.serv.persistenceReplaySeen
  wire : c.wire = c.log.filterMap Act.line?

section Steps

variable {c : Conn}

theorem asciiCaseEq_other {w x y : String} (hx : asciiCaseEq w x = true) (hxy : asciiCaseEq x y = false) :
    asciiCaseEq w y = false := by
  simp only [asciiCaseEq, beq_iff_eq, beq_eq_false_iff_ne] at *
  rwa [hx]

theorem isAttachAck_eq (args : String) : isAttachAck args =
    (asciiCaseEq ((replyWords args).getD 0 ("", "")).1 "ATTACH" && decide (2 ≤ (replyWords args).length)) := by
  unfold isAttachAck
  split
  · rename_i verb w ws hw
    simp [hw]
  · rename_i hw
    match hr : replyWords args with
    | [] => simp
    | [w] => simp
    | w :: w' :: ws => exact absurd hr (hw w w' ws)

/-- The gate and the wire are the same in both. -/
def Spares (c c' : Conn) : Prop :=
  c'.net = c.net ∧ c'.wire = c.wire ∧ c'.attachPending = c.attachPending

theorem Spares.ite {p : Prop} [Decidable p] {c₁ c₂ : Conn} (h₁ : p → Spares c c₁) (h₂ : Spares c c₂) :
    Spares c (if p then c₁ else c₂) := by
  split
  · rename_i hp
    exact h₁ hp
  · exact h₂

/-- A reply changes no flag of the gate but the wait, which an acknowledgement ends. -/
theorem persistenceHandleReply_gate (args : String) :
    (persistenceHandleReply c args).net = c.net ∧ (persistenceHandleReply c args).wire = c.wire ∧
      (persistenceHandleReply c args).attachPending = (c.attachPending && !isAttachAck args) := by
  rw [isAttachAck_eq]
  unfold persistenceHandleReply
  dsimp only
  generalize hw : replyWords args = w
  by_cases hv : asciiCaseEq (w.getD 0 ("", "")).1 "ATTACH" = true
  · -- the verbs tested before it are other words
    rw [asciiCaseEq_other hv (y := "STATUS") (by decide), asciiCaseEq_other hv (y := "SET") (by decide),
      asciiCaseEq_other hv (y := "REPLAY") (by decide), asciiCaseEq_other hv (y := "PROFILE") (by decide),
      asciiCaseEq_other hv (y := "DETACH") (by decide), hv]
    by_cases hn : 2 ≤ w.length
    · simp [hn, show w ≠ [] from fun h => by simp [h] at hn, Conn.print]
    · by_cases h0 : w.length = 0
      · simp [h0]
      · simp [hn, h0, Conn.print]
  · rw [Bool.not_eq_true] at hv
    simp only [hv, Bool.false_and, Bool.not_false, Bool.and_true]
    change Spares c _
    repeat' refine Spares.ite (fun hc => ?_) ?_
    -- no branch but the one for ATTACH writes the wait
    all_goals first | exact ⟨rfl, rfl, rfl⟩ | simp at hc

/-- A FAIL reaches the flags while the ATTACH waits, and ends the wait. -/
theorem persistenceHandleFail_gate (code context text : Option String) :
    (persistenceHandleFail c code context text).net.serv = { c.net.serv with
        persistenceAttached := c.net.serv.persistenceAttached &&
          !(c.attachPending && refusesAttach (bareCode code))
        persistenceCursorSent := c.net.serv.persistenceCursorSent &&
          !(c.attachPending && opensGate (bareCode code)) } ∧
      (persistenceHandleFail c code context text).wire = c.wire ∧
      (persistenceHandleFail c code context text).attachPending = false := by
  have hspares : ∀ c' : Conn, Spares c' (if nonEmpty context then
      c'.print ("Persistence error " ++ bareCode code ++ " (" ++ context.getD "" ++ "): " ++ text.getD "")
      else c'.print ("Persistence error " ++ bareCode code ++ ": " ++ text.getD "")) :=
    fun c' => Spares.ite (fun _ => ⟨rfl, rfl, rfl⟩) ⟨rfl, rfl, rfl⟩
  unfold persistenceHandleFail
  dsimp only
  obtain ⟨hnet, hwire, hpend⟩ := hspares (if c.attachPending then answerAttach c (bareCode code) else c)
  rw [hnet, hwire, hpend]
  by_cases hp : c.attachPending = true
  · rw [if_pos hp, hp]
    unfold answerAttach opensGate
    by_cases hu : cursorUnknown (bareCode code) = true
    · have hr : refusesAttach (bareCode code) = false := by
        unfold refusesAttach
        rw [asciiCaseEq_other hu (y := "ACCOUNT_REQUIRED") (by decide),
          asciiCaseEq_other hu (y := "INVALID_PARAMETERS") (by decide)]
        rfl
      simp [hu, hr, Conn.setServ]
    · by_cases hr : refusesAttach (bareCode code) = true
      · simp [hu, hr, Conn.setServ]
      · simp [hu, hr]
  · simp [hp]

/-- An event that is on no log and leaves the flags alone. -/
theorem GateInv.of_silent {c' : Conn} (h : GateInv c) (hnet : c'.net.serv = c.net.serv)
    (hpend : c'.attachPending = c.attachPending) (hwire : c'.wire = c.wire) (hlog : c'.log = c.log) :
    GateInv c' := by
  constructor
  · rw [hlog, hnet, hpend]
    exact h.gate
  · rw [hlog, hwire]
    exact h.wire

theorem GateInv.step (h : GateInv c) (e : ConnEvent) : GateInv (e.step c) := by
  cases e with
  | capValue value => exact h.of_silent rfl rfl rfl (List.append_nil _)
  | toggleCap extension enable =>
    apply h.of_silent
    · simp only [ConnEvent.step, ConnEvent.apply, toggleCap]
      split <;> rfl
    · simp only [ConnEvent.step, ConnEvent.apply, toggleCap]
      split <;> rfl
    · simp only [ConnEvent.step, ConnEvent.apply, toggleCap]
      split <;> rfl
    · exact List.append_nil _
  | sendAttach =>
    by_cases hm : mayAttach c = true
    · have hatt : c.net.serv.persistenceAttached = false := by
        simp only [mayAttach, Bool.and_eq_true, Bool.not_eq_true'] at hm
        exact hm.2
      have hg := h.gate
      rw [hatt] at hg
      constructor
      · simpa [ConnEvent.step, ConnEvent.apply, observed, persistenceSendAttach, hm, Conn.setServ] using
          hg.attach c.persistProfile (attachCursor c)
      · simp [ConnEvent.step, ConnEvent.apply, observed, persistenceSendAttach, hm, Conn.setServ, h.wire,
          Act.line?]
    · refine h.of_silent ?_ ?_ ?_ ?_ <;>
        simp [ConnEvent.step, ConnEvent.apply, observed, persistenceSendAttach, hm]
  | reply args =>
    obtain ⟨hnet, hwire, hpend⟩ := persistenceHandleReply_gate (c := c) args
    by_cases hack : isAttachAck args = true
    · constructor
      · have hg := h.gate.append (a := .ack) (by simp)
        simpa [ConnEvent.step, ConnEvent.apply, observed, hack, hnet, hpend, Act.failsWith, Act.closes,
          Act.isAnswer] using hg
      · simp [ConnEvent.step, ConnEvent.apply, observed, hack, hwire, h.wire, Act.line?]
    · apply h.of_silent
      · simp [ConnEvent.step, ConnEvent.apply, hnet]
      · simp [ConnEvent.step, ConnEvent.apply, hpend, hack]
      · exact hwire
      · simp [ConnEvent.step, observed, hack]
  | fail code context text =>
    have hg := h.gate.append (a := .fail (bareCode code)) (by simp)
    obtain ⟨hnet, hwire, hpend⟩ := persistenceHandleFail_gate (c := c) code context text
    constructor
    · simpa [ConnEvent.step, ConnEvent.apply, observed, hnet, hpend, Act.failsWith, Act.closes, Act.isAnswer] using hg
    · simp [ConnEvent.step, ConnEvent.apply, observed, hwire, h.wire, Act.line?]
  | registrationComplete =>
    have hg := h.gate.append (a := .registered) (by simp)
    constructor
    · simpa [ConnEvent.step, ConnEvent.apply, observed, persistenceRegistrationComplete, Act.failsWith, Act.closes,
        Act.isAnswer] using hg
    · simp [ConnEvent.step, ConnEvent.apply, observed, persistenceRegistrationComplete, h.wire, Act.line?]
  | wrapperBegin =>
    have hg := h.gate.append (a := .wrapper) (by simp)
    constructor
    · simp only [ConnEvent.step, ConnEvent.apply, observed, chathistoryReplayWrapperBegin]
      split <;> simpa [Act.failsWith, Act.closes, Act.isAnswer] using hg
    · simp [ConnEvent.step, ConnEvent.apply, observed, h.wire, Act.line?]
  | stored op => exact h.of_silent rfl rfl rfl (List.append_nil _)
  | configured profile => exact h.of_silent rfl rfl rfl (List.append_nil _)

end Steps

theorem connRun_inv (c : Conn) (es : List ConnEvent) : GateInv (connRun c es) := by
  have h0 : GateInv (persistenceReset c) := ⟨Gate.nil, rfl⟩
  unfold connRun
  generalize persistenceReset c = c₀ at h0
  induction es generalizing c₀ with
  | nil => exact h0
  | cons e es ih => exact ih _ (h0.step e)

/-- The flags `persistence_attached` and `persistence_cursor_sent`. -/
def Conn.attachFlags (c : Conn) : Bool × Bool :=
  (c.net.serv.persistenceAttached, c.net.serv.persistenceCursorSent)

/-- What the gate promises in a state of a connection. -/
structure GateSound (c : Conn) : Prop where
  /-- The ATTACHes of the log are the lines on the wire. -/
  wire : c.wire = c.log.filterMap Act.line?
  /-- At most one ATTACH on the wire has not been refused. -/
  one : ∀ j j', AttachAt c.log j → AttachAt c.log j' → ¬ FailedWith refusesAttach c.log j →
    ¬ FailedWith refusesAttach c.log j' → j = j'
  /-- A FAIL changes the flags only as the answer to an ATTACH. -/
  fail : ∀ code context text, ((ConnEvent.fail code context text).step c).attachFlags ≠ c.attachFlags →
    ∃ j, Answers ((ConnEvent.fail code context text).step c).log j c.log.length
  /-- The server is expected to replay exactly while a cursor stands and no wrapper has started. -/
  drives : persistenceServerDrivesReplay c.net.serv = true ↔
    (∃ j, CursorAt c.log j ∧ ¬ FailedWith opensGate c.log j) ∧ Act.wrapper ∉ c.log

/-- **The replay gate**: after every run of a connection from its reset on, the flags say what was
sent and answered, at most one ATTACH stands, and the gate is closed exactly while the replay the
client asked for is still expected. -/
theorem replay_gate (c : Conn) (es : List ConnEvent) : GateSound (connRun c es) := by
  have h := connRun_inv c es
  generalize connRun c es = c at h
  refine ⟨h.wire, h.gate.one, ?_, ?_⟩
  · intro code context text hne
    have hlog : ((ConnEvent.fail code context text).step c).log = c.log ++ [.fail (bareCode code)] := rfl
    by_cases hp : c.attachPending = true
    · obtain ⟨j, hj⟩ := h.gate.pending.1 hp
      exact ⟨j, hlog ▸ answers_append.2 (.inr ⟨rfl, hj, rfl⟩)⟩
    · refine absurd ?_ hne
      have hserv := (persistenceHandleFail_gate (c := c) code context text).1
      simp [Conn.attachFlags, ConnEvent.step, ConnEvent.apply, hserv, hp]
  · have hcur : c.net.serv.persistenceCursorSent = true → c.net.serv.persistenceAttached = true := by
      intro hc
      obtain ⟨j, hj, hf⟩ := h.gate.cursor.1 hc
      exact h.gate.attached.2 ⟨j, hj.attachAt, fun hr => hf (hr.mono opensGate_of_refuses)⟩
    rw [← h.gate.cursor, ← h.gate.seen]
    unfold persistenceServerDrivesReplay
    cases hc : c.net.serv.persistenceCursorSent
    · simp
    · simp [hcur hc]

/-- An ATTACH that goes out after registration completed still waits for its answer: the FAIL that
refuses it takes the flag down. -/
theorem late_attach_refused : ¬ ∀ (c : Conn) (es : List ConnEvent) (code context text : Option String),
    ((ConnEvent.fail code context text).step (connRun c es)).attachFlags ≠ (connRun c es).attachFlags →
      (∃ j, Answers ((ConnEvent.fail code context text).step (connRun c es)).log j (connRun c es).log.length) ∧
        Act.registered ∉ (connRun c es).log := by
  intro h
  have h := h { net := .connected [], persistProfile := "desktop" }
    [.toggleCap "draft/persistence" true, .registrationComplete, .sendAttach]
    (some "ACCOUNT_REQUIRED") none none (by decide)
  exact h.2 (by decide)

end PoxChat.ChatHistory
