import PoxChat.ChatHistory.Persistence

/-!
# Inbound batches

Model of the IRCv3 batch handlers of `inbound.c`: `inbound_batch_start`, `inbound_batch_add_message`,
`inbound_batch_end`, and of the two assemblers of a multiline batch, `process_multiline_batch` and
`collapse_multiline_to_parent`.

* `active_batches` is a list; its keys are distinct, for a start with a key that is there is ignored.
* `acts` records, in their order, the lines handed to the live handlers and what the end of a batch calls.
* A PRIVMSG or NOTICE line has a number, and a batch message the numbers of the lines whose text it holds
  (`lines`); no function reads them.
* `Windows` stands for the tabs of the server.  The stale-batch timer is left out: no time passes.

Principal results: `combined_spec` and `multiline_agrees` — when the two assemblers give a multiline message the same
text, msgid and timestamp, and join its lines as their concat tags say.
-/

set_option autoImplicit false

namespace PoxChat.Inbound

open ChatHistory

/-! ## Messages and batches -/

/-- A text without the colon before it. -/
def stripColon (text : String) : String :=
  match text.toList with
  | ':' :: rest => String.ofList rest
  | _ => text

/-- `message_tags_data`; a timestamp of 0 is none. -/
structure Tags where
  batchId : Option String := none
  label : Option String := none
  msgid : Option String := none
  timestamp : Int := 0
  allTags : List (String × String) := []

/-- `batch_message`. -/
structure Message where
  pfx : String
  command : String
  params : List String
  tags : List (String × String) := []
  timestamp : Int := 0
  msgid : Option String := none
  lines : List Nat := []

/-- `batch_info`; `serverTime` is the timestamp of its BATCH line. -/
structure Batch where
  id : String
  type : String
  params : List String := []
  outerBatch : Option String := none
  label : Option String := none
  msgid : Option String := none
  chathistoryEnd : Bool := false
  messages : List Message := []
  serverTime : Int := 0

/-- The text of a message, its second parameter, if it has one. -/
def Message.text? (msg : Message) : Option String := msg.params[1]?.map stripColon

def Message.isPrivmsg (msg : Message) : Bool := asciiCaseEq msg.command "PRIVMSG"

/-- `batch_info_new`; `words` are the words from the fifth on. -/
def batchInfoNew (id type : String) (words : List String) (tags : Tags) : Batch where
  id := id
  type := type
  params := (words.takeWhile (· ≠ "")).map stripColon
  outerBatch := tags.batchId
  label := tags.label
  msgid := tags.msgid
  chathistoryEnd := tags.allTags.any (·.1 == "draft/chathistory-end")
  serverTime := tags.timestamp

/-- The parameters `inbound_batch_add_message` collects from the words from the third on, each with the
text from it to the end of the line. -/
def collectParams : List (String × String) → List String
  | [] => []
  | (word, eol) :: rest =>
    if word = "" then []
    else if word.toList.head? = some ':' then [eol]
    else word :: collectParams rest

example : collectParams [("#chan", "#chan :hello world"), (":hello", ":hello world"), ("world", "world")] =
    ["#chan", ":hello world"] := by decide

/-! ## Assembling a multiline message -/

/-- The locals of the loop that both assemblers run over the messages of a batch. -/
structure Combined where
  firstMsg : Option Message := none
  text : String := ""
  firstLine : Bool := true
  lines : List Nat := []

/-- The body of that loop. -/
def combineLine (c : Combined) (msg : Message) : Combined :=
  if msg.isPrivmsg then
    let c := { c with firstMsg := c.firstMsg.or (some msg) }
    match msg.text? with
    | none => c
    | some text =>
      { c with
        text := (if c.firstLine then c.text else c.text ++ "\n") ++ text
        firstLine := false
        lines := c.lines ++ msg.lines }
  else c

def combine (messages : List Message) : Combined := messages.foldl combineLine {}

/-- The tabs of the server, and its own nick. -/
structure Windows where
  nick : String
  /-- `p_cmp`: two names are one under the server's casemapping. -/
  pCmp : String → String → Bool
  isChannel : String → Bool
  findChannel : String → Option Nat
  findDialog : String → Option Nat
  newDialog : String → Option Nat
  serverSession : Nat
  /-- The session is a SESS_CHANNEL. -/
  isChannelSess : Nat → Bool

/-- The handler an assembled message goes to. -/
inductive Route where
  | chanmsg (sess : Nat)
  | selfPm (sess : Nat) (target : String)
  | privmsg (host : String)

/-- What `process_multiline_batch` displays. -/
structure Shown where
  route : Route
  nick : String
  text : String
  msgid : Option String
  timestamp : Int
  tags : List (String × String)
  lines : List Nat

/-- The session of the batch's target, or the server's. -/
def batchSession (win : Windows) (target : Option String) : Nat :=
  (target.bind fun t => (win.findChannel t).or (win.findDialog t)).getD win.serverSession

def nickOf (pfx : String) : String := String.ofList (pfx.toList.takeWhile (· ≠ '!'))

/-- What follows the nick, or nothing. -/
def hostOf (pfx : String) : String := String.ofList ((pfx.toList.dropWhile (· ≠ '!')).drop 1)

/-- Where the message goes: our own message to a nick belongs to the dialog with that nick. -/
def routeOf (win : Windows) (target : Option String) (pfx : String) : Route :=
  let own := target.filter fun t => !win.isChannel t && win.pCmp (nickOf pfx) win.nick
  let sess := ((own.bind fun t => (win.findDialog t).or (win.newDialog t))).getD (batchSession win target)
  if win.isChannelSess sess then .chanmsg sess
  else match own with
    | some t => .selfPm sess t
    | none => .privmsg (hostOf pfx)

/-- `process_multiline_batch`. -/
def processMultilineBatch (win : Windows) (b : Batch) : Option Shown :=
  let c := combine b.messages
  match c.firstMsg with
  | none => none
  | some first =>
    if c.text = "" then none
    else some {
      route := routeOf win b.params.head? first.pfx
      nick := nickOf first.pfx
      text := c.text
      msgid := b.msgid.or first.msgid
      timestamp := first.timestamp
      tags := first.tags
      lines := c.lines }

/-- The message that `collapse_multiline_to_parent` adds to the parent. -/
def collapsed (b : Batch) : Option Message :=
  let c := combine b.messages
  match c.firstMsg with
  | none => none
  | some first =>
    if c.text = "" then none
    else some {
      pfx := first.pfx
      command := "PRIVMSG"
      params := [b.params.head?.getD "", ":" ++ c.text]
      tags := first.tags
      timestamp := if b.serverTime ≠ 0 then b.serverTime else first.timestamp
      msgid := b.msgid.or first.msgid
      lines := c.lines }

/-! ## The handlers -/

/-- What of a `pending_label_info` the end of a batch reads: whether it has an entry, and whether its session
is still there. -/
structure Pending where
  label : String
  hasEntry : Bool
  sessAlive : Bool

inductive Act where
  | live (msg : Message)
  | attachEcho (msg : Message)
  | display (shown : Shown)
  | processBatch (b : Batch)
  | processTargetsBatch (b : Batch)
  | wrapperBegin
  | wrapperEnd
  | confirm (label : String) (msgid : Option String)

structure State where
  haveBatch : Bool := true
  activeBatches : List Batch := []
  pendingLabels : List Pending := []
  acts : List Act := []
  nextLine : Nat := 0

namespace State

def lookup (s : State) (id : String) : Option Batch := s.activeBatches.find? (·.id == id)

def act (s : State) (a : Act) : State := { s with acts := s.acts ++ [a] }

end State

/-- `parent->messages = g_slist_append (parent->messages, msg)`, for the batch with this key. -/
def appendTo (id : String) (msg : Message) : List Batch → List Batch
  | [] => []
  | b :: bs => if b.id == id then { b with messages := b.messages ++ [msg] } :: bs else b :: appendTo id msg bs

/-- `inbound_batch_start`. -/
def inboundBatchStart (s : State) (id type : String) (words : List String) (tags : Tags) : State :=
  if s.haveBatch = false then s
  else if (s.lookup id).isSome then s
  else
    let s := { s with activeBatches := s.activeBatches ++ [batchInfoNew id type words tags] }
    if isBouncerReplay type then s.act .wrapperBegin else s

def isMultiline (type : String) : Bool := asciiCaseEq type "draft/multiline" || asciiCaseEq type "multiline"

/-- The types whose messages are collected. -/
def collects (type : String) : Bool :=
  !persistenceIsBareName type &&
    (asciiCaseEq type "chathistory" || asciiCaseEq type "draft/chathistory-targets" || isMultiline type)

/-- The batch answers a label of a message that is on display, and is its echo. -/
def isEcho (s : State) (b : Batch) : Bool :=
  b.label.any fun label => s.pendingLabels.any fun p => p.label == label && p.hasEntry

/-- The end of a multiline batch: into the parent, or on display unless it is an echo. -/
def endMultiline (win : Windows) (s : State) (b : Batch) : State :=
  match b.outerBatch.bind s.lookup with
  | some parent =>
    match collapsed b with
    | none => s
    | some msg => { s with activeBatches := appendTo parent.id msg s.activeBatches }
  | none =>
    if isEcho s b then s
    else match processMultilineBatch win b with
      | none => s
      | some shown => s.act (.display shown)

/-- What the type of a batch asks for at its end. -/
def endType (win : Windows) (s : State) (b : Batch) : State :=
  if asciiCaseEq b.type "chathistory" then s.act (.processBatch b)
  else if asciiCaseEq b.type "draft/chathistory-targets" then s.act (.processTargetsBatch b)
  else if isMultiline b.type then endMultiline win s b
  else if persistenceIsBareName b.type then s
  else if isBouncerReplay b.type then s.act .wrapperEnd
  else s

/-- The pending label that a batch answers is settled. -/
def endLabel (s : State) (b : Batch) : State :=
  match b.label with
  | none => s
  | some label =>
    let s := if s.pendingLabels.any fun p => p.label == label && p.hasEntry && p.sessAlive then
        s.act (.confirm label (b.msgid.or (b.messages.head?.bind (·.msgid))))
      else s
    { s with pendingLabels := s.pendingLabels.filter (·.label != label) }

/-- `inbound_batch_end`. -/
def inboundBatchEnd (win : Windows) (s : State) (id : String) : State :=
  if s.haveBatch = false then s
  else match s.lookup id with
    | none => s
    | some b =>
      let s := endLabel (endType win s b) b
      { s with activeBatches := s.activeBatches.eraseP (·.id == id) }

/-- The JOIN of a channel this connection is in, inside a restoration batch. -/
def isAttachEcho (win : Windows) (msg : Message) : Bool :=
  asciiCaseEq msg.command "JOIN" && asciiCaseEq (nickOf msg.pfx) win.nick &&
    msg.params.head?.any fun chan => (win.findChannel (stripColon chan)).isSome

/-- `inbound_batch_add_message`, and the live handlers where it returns FALSE. -/
def inboundBatchAddMessage (win : Windows) (s : State) (batchId : Option String) (msg : Message) : State :=
  if s.haveBatch = false then s.act (.live msg)
  else match batchId.bind s.lookup with
    | none => s.act (.live msg)
    | some b =>
      if persistenceIsBareName b.type then
        if isAttachEcho win msg then s.act (.attachEcho msg) else s.act (.live msg)
      else if collects b.type then { s with activeBatches := appendTo b.id msg s.activeBatches }
      else s.act (.live msg)

/-! ## Runs -/

inductive Event where
  | batchStart (id type : String) (words : List String) (tags : Tags)
  | batchEnd (id : String)
  /-- A line with its words from the third on, each with the text from it on. -/
  | line (pfx command : String) (words : List (String × String)) (tags : Tags)

/-- The lines that are numbered. -/
def isChat (command : String) : Bool := asciiCaseEq command "PRIVMSG" || asciiCaseEq command "NOTICE"

def messageOf (pfx command : String) (words : List (String × String)) (tags : Tags) (lines : List Nat) : Message where
  pfx := pfx
  command := command
  params := collectParams words
  tags := tags.allTags
  timestamp := tags.timestamp
  msgid := tags.msgid
  lines := lines

def step (win : Windows) (s : State) : Event → State
  | .batchStart id type words tags => inboundBatchStart s id type words tags
  | .batchEnd id => inboundBatchEnd win s id
  | .line pfx command words tags =>
    if isChat command then
      inboundBatchAddMessage win { s with nextLine := s.nextLine + 1 } tags.batchId
        (messageOf pfx command words tags [s.nextLine])
    else inboundBatchAddMessage win s tags.batchId (messageOf pfx command words tags [])

/-! ## The two assemblers -/

/-- The line continues the one before it. -/
def Message.isConcat (msg : Message) : Bool := msg.tags.any (·.1 == "draft/multiline-concat")

/-- The lines of a multiline message, its PRIVMSGs with a text, each with its concat tag. -/
def textLines (messages : List Message) : List (String × Bool) :=
  (messages.filter Message.isPrivmsg).filterMap fun msg => msg.text?.map fun text => (text, msg.isConcat)

/-- Further lines, each on a line of its own unless it continues the one before. -/
def joinRest : List (String × Bool) → String
  | [] => ""
  | (text, concat) :: rest => (if concat then "" else "\n") ++ text ++ joinRest rest

/-- The text of a multiline message. -/
def joinLines : List (String × Bool) → String
  | [] => ""
  | (text, _) :: rest => text ++ joinRest rest

/-- The lines without their concat tags. -/
def unmarked (lines : List (String × Bool)) : List (String × Bool) := lines.map fun line => (line.1, false)

theorem combineLine_of_not_privmsg {c : Combined} {msg : Message} (h : msg.isPrivmsg = false) :
    combineLine c msg = c := by
  simp [combineLine, h]

theorem foldl_combineLine_firstMsg (messages : List Message) (c : Combined) :
    (messages.foldl combineLine c).firstMsg = c.firstMsg.or (messages.find? Message.isPrivmsg) := by
  induction messages generalizing c with
  | nil => simp
  | cons msg messages ih =>
    rw [List.foldl_cons, ih]
    by_cases h : msg.isPrivmsg
    · have hfirst : (combineLine c msg).firstMsg = c.firstMsg.or (some msg) := by
        unfold combineLine
        rw [if_pos h]
        cases msg.text? <;> rfl
      rw [hfirst, List.find?_cons_of_pos h]
      cases c.firstMsg <;> simp
    · rw [combineLine_of_not_privmsg (by simpa using h), List.find?_cons_of_neg h]

theorem combine_firstMsg (messages : List Message) :
    (combine messages).firstMsg = messages.find? Message.isPrivmsg := by
  exact (foldl_combineLine_firstMsg messages {}).trans (Option.none_or ..)

theorem textLines_cons (msg : Message) (messages : List Message) :
    textLines (msg :: messages) =
      (if msg.isPrivmsg then (msg.text?.map fun text => (text, msg.isConcat)).toList else []) ++
        textLines messages := by
  by_cases h : msg.isPrivmsg
  · cases ht : msg.text? <;> simp [textLines, h, ht]
  · simp [textLines, h]

/-- After a line, the loop adds every further one with a newline before it. -/
theorem foldl_combineLine_rest (messages : List Message) {c : Combined} (hc : c.firstLine = false) :
    (messages.foldl combineLine c).text = c.text ++ joinRest (unmarked (textLines messages)) := by
  induction messages generalizing c with
  | nil => simp [textLines, unmarked, joinRest]
  | cons msg messages ih =>
    rw [List.foldl_cons, textLines_cons]
    by_cases h : msg.isPrivmsg
    · cases ht : msg.text? with
      | none =>
        have hline : (combineLine c msg).text = c.text := by simp [combineLine, h, ht]
        rw [ih (by simp [combineLine, h, ht, hc]), hline]
        simp [h]
      | some text =>
        have hline : (combineLine c msg).text = c.text ++ "\n" ++ text := by simp [combineLine, h, ht, hc]
        rw [ih (by simp [combineLine, h, ht]), hline]
        simp [h, unmarked, joinRest, String.append_assoc]
    · rw [combineLine_of_not_privmsg (by simpa using h), ih hc]
      simp [h]

/-- **The combined text** has every line on a line of its own, whatever its tags. -/
theorem combined_spec (messages : List Message) {c : Combined} (hc : c.firstLine = true) (ht : c.text = "") :
    (messages.foldl combineLine c).text = joinLines (unmarked (textLines messages)) := by
  induction messages generalizing c with
  | nil => simpa [textLines, unmarked, joinLines] using ht
  | cons msg messages ih =>
    rw [List.foldl_cons, textLines_cons]
    by_cases h : msg.isPrivmsg
    · cases hm : msg.text? with
      | none =>
        rw [ih (by simp [combineLine, h, hm, hc]) (by simp [combineLine, h, hm, ht])]
        simp [h]
      | some text =>
        have hline : (combineLine c msg).text = text := by simp [combineLine, h, hm, hc, ht]
        rw [foldl_combineLine_rest _ (by simp [combineLine, h, hm]), hline]
        simp [h, unmarked, joinLines]
    · rw [combineLine_of_not_privmsg (by simpa using h), ih hc ht]
      simp [h]

theorem combine_text (messages : List Message) :
    (combine messages).text = joinLines (unmarked (textLines messages)) :=
  combined_spec messages rfl rfl

theorem joinRest_unmarked_length (lines : List (String × Bool)) :
    (joinRest (unmarked lines)).length = (joinRest lines).length + lines.countP (·.2) := by
  induction lines with
  | nil => rfl
  | cons line lines ih =>
    obtain ⟨text, concat⟩ := line
    simp only [unmarked, List.map_cons] at ih ⊢
    cases concat with
    | false =>
      simp only [joinRest, String.length_append, ih, List.countP_cons]
      simp [Nat.add_assoc]
    | true =>
      have hbreak : "\n".length = 1 := rfl
      simp only [joinRest, String.length_append, ih, List.countP_cons]
      simp only [Bool.false_eq_true, if_false, if_true, hbreak, String.length_empty]
      omega

/-- The lines are joined as their tags say exactly where no further line continues the one before. -/
theorem joinLines_unmarked_iff (lines : List (String × Bool)) :
    joinLines (unmarked lines) = joinLines lines ↔ ∀ line ∈ lines.tail, line.2 = false := by
  cases lines with
  | nil => simp [unmarked]
  | cons line lines =>
    constructor
    · intro h
      have hlen := congrArg String.length h
      simp only [unmarked, List.map_cons, joinLines, String.length_append] at hlen
      have hrest := joinRest_unmarked_length lines
      rw [unmarked] at hrest
      have hzero : lines.countP (·.2) = 0 := by omega
      simpa [List.countP_eq_zero] using hzero
    · intro h
      have hmap : unmarked lines = lines := by
        refine (List.map_congr_left fun other hother => ?_).trans (List.map_id lines)
        exact Prod.ext rfl (h other hother).symm
      simp only [unmarked, List.map_cons, joinLines] at hmap ⊢
      rw [hmap]

/-- The batch has nothing to display: no line with a text, or one empty one. -/
def Silent (b : Batch) : Prop :=
  (textLines b.messages).map (·.1) = [] ∨ (textLines b.messages).map (·.1) = [""]

theorem combine_text_eq_empty_iff (b : Batch) : (combine b.messages).text = "" ↔ Silent b := by
  rw [combine_text, Silent]
  cases hl : textLines b.messages with
  | nil => simp [unmarked, joinLines]
  | cons line lines =>
    cases lines with
    | nil => simp [unmarked, joinLines, joinRest]
    | cons line' lines =>
      refine iff_of_false (fun h => ?_) (by simp)
      have hlen := congrArg String.length h
      simp [unmarked, joinLines, joinRest, String.length_append] at hlen

/-- A batch without a PRIVMSG is silent. -/
theorem silent_of_no_privmsg {b : Batch} (h : b.messages.find? Message.isPrivmsg = none) : Silent b := by
  left
  rw [List.find?_eq_none] at h
  have hfilter : b.messages.filter Message.isPrivmsg = [] := by
    rw [List.filter_eq_nil_iff]
    exact h
  simp [textLines, hfilter]

/-- What a reader of a multiline message sees, and what it is known by. -/
structure Identity where
  text : String
  msgid : Option String
  timestamp : Int
  deriving DecidableEq

def Shown.identity (shown : Shown) : Identity := ⟨shown.text, shown.msgid, shown.timestamp⟩

def Message.identity (msg : Message) : Identity := ⟨msg.text?.getD "", msg.msgid, msg.timestamp⟩

theorem stripColon_colon (text : String) : stripColon (":" ++ text) = text := by
  have hlist : (":" ++ text).toList = ':' :: text.toList := by simp
  simp [stripColon, hlist]

/-- The two assemblers, over one batch. -/
theorem assemblers_eq (win : Windows) (b : Batch) :
    (Silent b ∧ processMultilineBatch win b = none ∧ collapsed b = none) ∨
      ∃ first, b.messages.find? Message.isPrivmsg = some first ∧ ¬ Silent b ∧
        (processMultilineBatch win b).map Shown.identity =
          some ⟨joinLines (unmarked (textLines b.messages)), b.msgid.or first.msgid, first.timestamp⟩ ∧
        (collapsed b).map Message.identity =
          some ⟨joinLines (unmarked (textLines b.messages)), b.msgid.or first.msgid,
            if b.serverTime ≠ 0 then b.serverTime else first.timestamp⟩ := by
  have htext := combine_text_eq_empty_iff b
  cases hf : b.messages.find? Message.isPrivmsg with
  | none =>
    have hfirst := (combine_firstMsg b.messages).trans hf
    exact .inl ⟨silent_of_no_privmsg hf, by simp [processMultilineBatch, hfirst], by simp [collapsed, hfirst]⟩
  | some first =>
    have hfirst := (combine_firstMsg b.messages).trans hf
    by_cases hs : Silent b
    · have hempty := htext.2 hs
      exact .inl ⟨hs, by simp [processMultilineBatch, hfirst, hempty], by simp [collapsed, hfirst, hempty]⟩
    · have hne : (combine b.messages).text ≠ "" := fun h => hs (htext.1 h)
      refine .inr ⟨first, rfl, hs, ?_, ?_⟩
      · rw [← combine_text]
        simp [processMultilineBatch, hfirst, hne, Shown.identity]
      · rw [← combine_text]
        simp [collapsed, hfirst, hne, Message.identity, Message.text?, stripColon_colon]

/-- Live and replayed, a multiline message has one text, msgid and timestamp, and its lines are joined
as their concat tags say. -/
def Agree (win : Windows) (b : Batch) : Prop :=
  (processMultilineBatch win b).map Shown.identity = (collapsed b).map Message.identity ∧
    ∀ shown ∈ processMultilineBatch win b, shown.text = joinLines (textLines b.messages)

instance (win : Windows) (b : Batch) : Decidable (Agree win b) :=
  inferInstanceAs (Decidable (_ = _ ∧ ∀ shown ∈ processMultilineBatch win b, _))

/-- **The assemblers agree** exactly where there is nothing to display, or no further line continues the one
before it and the BATCH line has no time but that of the first PRIVMSG. -/
theorem multiline_agrees (win : Windows) (b : Batch) :
    Agree win b ↔ Silent b ∨
      (∀ line ∈ (textLines b.messages).tail, line.2 = false) ∧
        (b.serverTime = 0 ∨ ∀ first ∈ b.messages.find? Message.isPrivmsg, b.serverTime = first.timestamp) := by
  unfold Agree
  rcases assemblers_eq win b with ⟨hs, hlive, hnest⟩ | ⟨first, hfirst, hs, hlive, hnest⟩
  · rw [hlive, hnest]
    simp [hs]
  · obtain ⟨shown, hshown, hid⟩ := Option.map_eq_some_iff.1 hlive
    have htext : shown.text = joinLines (unmarked (textLines b.messages)) := congrArg Identity.text hid
    have hall : (∀ sh ∈ processMultilineBatch win b, sh.text = joinLines (textLines b.messages)) ↔
        ∀ line ∈ (textLines b.messages).tail, line.2 = false := by
      rw [hshown, ← joinLines_unmarked_iff, ← htext]
      simp
    rw [hlive, hnest, hall, or_iff_right hs, hfirst, and_comm]
    refine and_congr_right fun _ => ?_
    by_cases h0 : b.serverTime = 0
    · simp [h0]
    · simp [h0, eq_comm]

/-- A server with one channel. -/
def oneChannel : Windows where
  nick := "me"
  pCmp a b := a == b
  isChannel name := name == "#chan"
  findChannel name := if name = "#chan" then some 1 else none
  findDialog _ := none
  newDialog _ := none
  serverSession := 0
  isChannelSess sess := sess == 1

/-- A message whose second line continues the first, its time and msgid on the BATCH line only. -/
def concatBatch : Batch where
  id := "b"
  type := "draft/multiline"
  params := ["#chan"]
  msgid := some "m1"
  serverTime := 1700000000
  messages := [
    { pfx := "a!b@c", command := "PRIVMSG", params := ["#chan", ":hello "], tags := [("batch", "b")] },
    { pfx := "a!b@c", command := "PRIVMSG", params := ["#chan", ":world"],
      tags := [("batch", "b"), ("draft/multiline-concat", "")] }]

/-- Displayed live it has no time, and a break in it. -/
theorem multiline_disagrees :
    ¬ Agree oneChannel concatBatch ∧
      (processMultilineBatch oneChannel concatBatch).map Shown.identity =
        some ⟨"hello \nworld", some "m1", 0⟩ ∧
      (collapsed concatBatch).map Message.identity = some ⟨"hello \nworld", some "m1", 1700000000⟩ := by
  decide

end PoxChat.Inbound
