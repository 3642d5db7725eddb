import PoxChat.Outbound.SendQueue

/-!
# The order of the user's messages

The lines `irc_message`, `irc_action` and the draft/multiline batches of `server.c` hand to
`tcp_send_len`, and the order in which they leave.  The priority of a line is read off its first
bytes, so it depends on whether a label or a reply tag stands in front; a batch does not queue at all.

* A message goes to one target; `replyMsgid` is the reply state of the target's window.
* Labels in flight are not recorded: nothing here reads them.

Principal results: `linePriority_privmsg`, `linePriority_tagged` — which priority a message gets;
`messages_leave_in_order` — the messages leave as typed in every run in which none is submitted past
one of a lower priority.
-/

set_option autoImplicit false

namespace PoxChat.Outbound

open Lib

/-! ## Formatting -/

/-- `g_vsnprintf` of `text` with `room` bytes of a buffer of `size`, and the check of the length
it returns: the bytes that are handed on. -/
def formatted (room size : Nat) (text : Bytes) : Bytes :=
  if text.length > size - 1 then text.take (room - 1)
  -- a text of exactly `room` bytes passes the check with the terminator as its last byte
  else (text.take (room - 1) ++ [0]).take text.length

/-- `cmd_buf` of `tcp_vsendf_labeled`, and `send_buf` of `tcp_sendf`. -/
def cmdBuf (text : Bytes) : Bytes := formatted 1539 1540 text

/-- `send_buf` of `tcp_vsendf_labeled`. -/
def sendBuf (text : Bytes) : Bytes := formatted 1600 1600 text

theorem formatted_eq_self {room size : Nat} {text : Bytes} (hroom : room ≤ size) (h : text.length < room) :
    formatted room size text = text := by
  have hwhole : text.take (room - 1) = text := List.take_of_length_le (by omega)
  rw [formatted, if_neg (by omega), hwhole, List.take_left]

theorem cmdBuf_eq_self {text : Bytes} (h : text.length ≤ 1538) : cmdBuf text = text :=
  formatted_eq_self (by omega) (by omega)

/-- A command that fits is read back whole, with its line end. -/
theorem cString_cmdBuf_line {cmd : Bytes} (hcmd : (0 : UInt8) ∉ cmd) (hshort : cmd.length + 2 ≤ 1538) :
    cString (cmdBuf (cmd ++ bytes "\r\n")) = cmd ++ bytes "\r\n" := by
  have hzero : (0 : UInt8) ∉ cmd ++ bytes "\r\n" := by
    intro hmem
    rcases List.mem_append.1 hmem with hmem | hmem
    · exact hcmd hmem
    · exact absurd hmem (by decide)
  have hlen : (cmd ++ bytes "\r\n").length ≤ 1538 := by
    rw [List.length_append]
    exact hshort
  rw [cmdBuf_eq_self hlen, cString_eq_self hzero]

theorem sendBuf_eq_self {text : Bytes} (h : text.length ≤ 1599) : sendBuf text = text :=
  formatted_eq_self (by omega) (by omega)

theorem sendBuf_eq_take (text : Bytes) : sendBuf text = text.take 1599 := by
  by_cases h : text.length ≤ 1599
  · rw [sendBuf_eq_self h, List.take_of_length_le h]
  · rw [sendBuf, formatted, if_pos (by omega)]

def decimal (n : Nat) : Bytes := (Nat.toDigits 10 n).map fun c => c.toNat.toUInt8

theorem toNat_of_mem_toDigits {n : Nat} {d : Char} (h : d ∈ Nat.toDigits 10 n) :
    d.toNat.toUInt8.toNat = d.toNat ∧ 48 ≤ d.toNat ∧ d.toNat ≤ 57 := by
  have hdigit := Nat.isDigit_of_mem_toDigits (by decide) (by decide) h
  simp only [Char.isDigit, Bool.and_eq_true, decide_eq_true_eq, UInt32.le_iff_toNat_le] at hdigit
  have hval : d.toNat = d.val.toNat := rfl
  have h48 : '0'.val.toNat = 48 := rfl
  have h57 : '9'.val.toNat = 57 := rfl
  rw [Nat.toUInt8_eq, UInt8.toNat_ofNat']
  omega

theorem toNat_of_mem_decimal {n : Nat} {c : UInt8} (h : c ∈ decimal n) : 48 ≤ c.toNat ∧ c.toNat ≤ 57 := by
  obtain ⟨d, hd, rfl⟩ := List.mem_map.1 h
  obtain ⟨hmod, hrange⟩ := toNat_of_mem_toDigits hd
  rwa [hmod]

namespace Server

/-- `tcp_sendf`. -/
def tcpSendf (s : Server) (now : Int) (text : Bytes) : Server := s.tcpSendLen now (cmdBuf text)

/-- The label `tcp_generate_label` makes. -/
def nextLabel (s : Server) : Bytes := bytes "hc" ++ decimal s.labelCounter.toNat

/-- The line of `tcp_vsendf_labeled_with_tags`; without tags it is that of `tcp_vsendf_labeled`. -/
def labeledLine (s : Server) (extraTags text : Bytes) : Bytes :=
  let cmd := cString (cmdBuf text)
  if s.haveLabeledResponse then
    if extraTags.isEmpty then sendBuf (bytes "@label=" ++ s.nextLabel ++ bytes " " ++ cmd)
    else sendBuf (bytes "@label=" ++ s.nextLabel ++ bytes ";" ++ extraTags ++ bytes " " ++ cmd)
  else if extraTags.isEmpty then cmdBuf text
  else sendBuf (bytes "@" ++ extraTags ++ bytes " " ++ cmd)

/-- `tcp_vsendf_labeled_with_tags`. -/
def tcpVsendfLabeledWithTags (s : Server) (now : Int) (extraTags text : Bytes) : Server :=
  let line := s.labeledLine extraTags text
  (if s.haveLabeledResponse then { s with labelCounter := s.labelCounter + 1 } else s).tcpSendLen now line

/-- `tcp_vsendf_labeled`. -/
def tcpVsendfLabeled (s : Server) (now : Int) (text : Bytes) : Server :=
  s.tcpVsendfLabeledWithTags now [] text

/-! ## Batches -/

def nextBatchTag (s : Server) : Bytes := bytes "hcb" ++ decimal s.labelCounter.toNat

/-- `tcp_batch_open_multiline`; its tag is `nextBatchTag`. -/
def tcpBatchOpenMultiline (s : Server) (now : Int) (target : Bytes) : Server :=
  { s with labelCounter := s.labelCounter + 1, batchBurst := true, batchBurstBytes := 0 }.tcpVsendfLabeled now
    (bytes "BATCH +" ++ s.nextBatchTag ++ bytes " draft/multiline " ++ target ++ bytes "\r\n")

def batchLine (tag target text : Bytes) : Bytes :=
  bytes "@batch=" ++ tag ++ bytes " PRIVMSG " ++ target ++ bytes " :" ++ text ++ bytes "\r\n"

/-- `tcp_batch_privmsg`. -/
def tcpBatchPrivmsg (s : Server) (now : Int) (tag target text : Bytes) : Server :=
  s.tcpSendf now (batchLine tag target text)

/-- `tcp_batch_close`. -/
def tcpBatchClose (s : Server) (now : Int) (tag : Bytes) : Server :=
  let s := s.tcpSendf now (bytes "BATCH -" ++ tag ++ bytes "\r\n")
  if s.batchBurst then
    { s with
      batchBurst := false
      nextSend := (if s.nextSend < now then now else s.nextSend) + (2 + s.batchBurstBytes / 120)
      batchBurstBytes := 0 }
  else s

/-- One batch of `handle_multiline_batch`, from its opening to its close. -/
def sendBatch (s : Server) (now : Int) (target : Bytes) (texts : List Bytes) : Server :=
  let tag := s.nextBatchTag
  let sent := texts.foldl (fun s text => s.tcpBatchPrivmsg now tag target text)
    (s.tcpBatchOpenMultiline now target)
  sent.tcpBatchClose now tag

end Server

/-! ## Messages -/

/-- The connection and the reply state of the target's window. -/
structure Typist where
  serv : Server
  replyMsgid : Option Bytes := none

namespace Typist

/-- The tags `irc_message` adds. -/
def replyTags (w : Typist) : Bytes :=
  match w.replyMsgid with
  | some msgid => if w.serv.haveMessageTags then bytes "+reply=" ++ msgid else []
  | none => []

/-- The line of a message whose text after the colon is `body`. -/
def messageLine (w : Typist) (target body : Bytes) : Bytes :=
  w.serv.labeledLine w.replyTags (bytes "PRIVMSG " ++ target ++ bytes " :" ++ body ++ bytes "\r\n")

/-- The common part of `irc_message` and `irc_action`: a reply is consumed where tags can be sent. -/
def sendMessage (w : Typist) (now : Int) (target body : Bytes) : Typist where
  serv := w.serv.tcpVsendfLabeledWithTags now w.replyTags
    (bytes "PRIVMSG " ++ target ++ bytes " :" ++ body ++ bytes "\r\n")
  replyMsgid := if w.serv.haveMessageTags then none else w.replyMsgid

/-- The text of `irc_action`. -/
def actionBody (act : Bytes) : Bytes := 1 :: (bytes "ACTION " ++ act ++ [1])

def ircMessage (w : Typist) (now : Int) (target text : Bytes) : Typist := w.sendMessage now target text

def ircAction (w : Typist) (now : Int) (target act : Bytes) : Typist :=
  w.sendMessage now target (actionBody act)

end Typist

/-- What happens on the connection: the user's messages to the target, the user starting a reply there,
any other line sent, and the queue's timers. -/
inductive TypedEvent where
  | message (now : Int) (text : Bytes)
  | action (now : Int) (act : Bytes)
  | batch (now : Int) (texts : List Bytes)
  | reply (msgid : Bytes)
  | other (now : Int) (line : Bytes)
  | tick (now : Int)

def TypedEvent.step (target : Bytes) (w : Typist) : TypedEvent → Typist
  | .message now text => w.ircMessage now target text
  | .action now act => w.ircAction now target act
  | .batch now texts => { w with serv := w.serv.sendBatch now target texts }
  | .reply msgid => { w with replyMsgid := some msgid }
  | .other now line => { w with serv := w.serv.tcpSendLen now line }
  | .tick now => { w with serv := w.serv.tick now }

/-- The line is a message to the target. -/
def isMessageTo (target line : Bytes) : Bool :=
  contains (bytes "PRIVMSG " ++ target ++ bytes " :") (cString line)

@[simp] theorem isMessageTo_cString (target line : Bytes) :
    isMessageTo target (cString line) = isMessageTo target line := by
  simp [isMessageTo]

/-! ## Priorities of messages -/

theorem startsWith_tagged (c : UInt8) (word rest : Bytes) (h : asciiTolower c ≠ 64) :
    startsWith (c :: word) (64 :: rest) = false := by
  have h64 : asciiTolower 64 = 64 := by decide
  simp [startsWith, h64, h.symm]

/-- A tagged line is urgent, unless it names `CHATHISTORY` anywhere. -/
theorem linePriority_tagged (rest : Bytes) :
    linePriority (64 :: rest) = if contains (bytes " CHATHISTORY ") (cString (64 :: rest)) then 1 else 3 := by
  have hstr : cString (64 :: rest) = 64 :: cString rest := by simp [cString]
  have hword : ∀ s : String, ∀ c w, bytes s = c :: w → asciiTolower c ≠ 64 →
      startsWith (bytes s) (64 :: cString rest) = false := by
    intro s c w hs hc
    rw [hs]
    exact startsWith_tagged c w _ hc
  unfold linePriority
  dsimp only
  rw [hstr, hword "PRIVMSG" 80 _ rfl (by decide), hword "NOTICE" 78 _ rfl (by decide),
    hword "CHATHISTORY " 67 _ rfl (by decide), hword "WHO " 87 _ rfl (by decide),
    hword "MARKREAD " 77 _ rfl (by decide), hword "MODE " 77 _ rfl (by decide)]
  simp

/-- A line that starts with `PRIVMSG` is not. -/
theorem linePriority_privmsg (rest : Bytes) : linePriority (bytes "PRIVMSG " ++ rest) = 2 := by
  have hstr : cString (bytes "PRIVMSG " ++ rest) = bytes "PRIVMSG " ++ cString rest := by
    simp [cString, bytes]
  have hword : startsWith (bytes "PRIVMSG") (bytes "PRIVMSG " ++ cString rest) = true := by
    simp [startsWith, bytes]
  unfold linePriority
  dsimp only
  rw [hstr, hword]
  rfl

/-! ## The order -/

/-- The messages to the target, sent and then queued, are those submitted; those that are queued stand
in the order they will leave. -/
structure Server.InTurn (target : Bytes) (s : Server) : Prop where
  throttled : s.netThrottle = true
  listed : s.isServer = true
  ended : s.endOfMotd = true
  marked : ∀ e ∈ s.outboundQueue, e.pri ≤ 3
  sorted : (s.outboundQueue.filter (isMessageTo target ·.buf)).Pairwise fun e e' => e'.pri ≤ e.pri
  inOrder : ((s.sent ++ s.outboundQueue.map Entry.buf).map cString).filter (isMessageTo target) =
    (s.submitted.map cString).filter (isMessageTo target)

section Step

variable {target line : Bytes} {s : Server} {now next : Int} {e : Entry}

theorem Server.InTurn.leaves (h : s.InTurn target) (hl : s.Leaves now next e) :
    (s.sendEntry now next e.pri e.buf).InTurn target := by
  obtain ⟨l, r, hq, hlow, hq'⟩ := hl.split
  have hsub : (l ++ r).Sublist s.outboundQueue := by
    rw [hq]
    exact (List.sublist_cons_self e r).append_left l
  refine
    { throttled := h.throttled
      listed := h.listed
      ended := h.ended
      marked := fun x hx => h.marked x (hsub.subset (hq' ▸ hx))
      sorted := ?_
      inOrder := ?_ }
  · rw [hq']
    exact h.sorted.sublist (hsub.filter _)
  · have hold := h.inOrder
    rw [hq] at hold
    rw [hq']
    show (((s.sent ++ [cString e.buf]) ++ (l ++ r).map Entry.buf).map cString).filter _ = _
    rw [show (s.sendEntry now next e.pri e.buf).submitted = s.submitted from rfl, ← hold]
    cases he : isMessageTo target e.buf with
    | false => simp [List.filter_append, he]
    | true =>
      -- a message queued before this one would have at least its priority
      have hnone : l.filter (isMessageTo target ·.buf) = [] := by
        rw [List.filter_eq_nil_iff]
        intro x hx hxm
        have hsorted := h.sorted
        rw [hq, List.filter_append, List.filter_cons_of_pos (by simpa using he),
          List.pairwise_append] at hsorted
        have hle := hsorted.2.2 x (List.mem_filter.2 ⟨hx, hxm⟩) e (by simp)
        have hlt := hlow x hx
        omega
      have hnone' : ((l.map Entry.buf).map cString).filter (isMessageTo target) = [] := by
        rw [List.filter_eq_nil_iff] at hnone ⊢
        simpa using hnone
      simp only [List.map_append, List.filter_append, List.map_cons, hnone']
      simp [he]

theorem Server.InTurn.tcpSendQueue (h : s.InTurn target) (now : Int) :
    (s.tcpSendQueue now).2.InTurn target ∧ (s.tcpSendQueue now).2.batchBurst = s.batchBurst :=
  (tcpSendQueue_rule (I := fun s' => s'.InTurn target ∧ s'.batchBurst = s.batchBurst)
    (fun _ _ _ hi hl => ⟨hi.1.leaves hl, hi.2⟩) ⟨h, rfl⟩ h.listed h.marked).1

theorem Server.InTurn.congr_timers (h : s.InTurn target) (t : Nat) : { s with timers := t }.InTurn target :=
  { throttled := h.throttled, listed := h.listed, ended := h.ended, marked := h.marked
    sorted := h.sorted, inOrder := h.inOrder }

/-- A message submitted now would leave before one that waits: the lower priority waits longer. -/
def Server.Overtaken (target : Bytes) (s : Server) (line : Bytes) : Prop :=
  isMessageTo target line = true ∧
    ∃ e ∈ s.outboundQueue, isMessageTo target e.buf = true ∧ e.pri < linePriority line

instance : Decidable (s.Overtaken target line) := by
  unfold Server.Overtaken
  infer_instance

theorem Server.InTurn.enqueue (h : s.InTurn target) (hline : ¬ s.Overtaken target line) :
    ((s.note line).enqueue line).InTurn target := by
  refine
    { throttled := h.throttled
      listed := h.listed
      ended := h.ended
      marked := ?_
      sorted := ?_
      inOrder := ?_ }
  · intro x hx
    rcases List.mem_append.1 hx with hx | hx
    · exact h.marked x hx
    · rw [List.mem_singleton.1 hx]
      exact linePriority_le line
  · show ((s.outboundQueue ++ [(⟨linePriority line, line⟩ : Entry)]).filter _).Pairwise _
    cases hm : isMessageTo target line with
    | false => simpa [List.filter_append, hm] using h.sorted
    | true =>
      rw [List.filter_append, List.filter_cons_of_pos (by simpa using hm), List.filter_nil,
        List.pairwise_append]
      refine ⟨h.sorted, by simp, fun x hx y hy => ?_⟩
      rw [List.mem_singleton.1 hy]
      obtain ⟨hxq, hxm⟩ := List.mem_filter.1 hx
      by_contra hlt
      exact hline ⟨hm, x, hxq, hxm, by simpa using hlt⟩
  · have hold := h.inOrder
    simp only [Server.enqueue, Server.note, List.map_append, List.filter_append] at hold ⊢
    rw [← hold]
    simp

theorem Server.InTurn.tcpSendLen (h : s.InTurn target) (hburst : s.batchBurst = false)
    (hline : ¬ s.Overtaken target line) :
    (s.tcpSendLen now line).InTurn target ∧ (s.tcpSendLen now line).batchBurst = false := by
  have hby : ¬ s.bypasses = true := by simp [Server.bypasses, h.throttled, h.ended, hburst]
  unfold Server.tcpSendLen
  rw [if_neg hby]
  obtain ⟨hturn, hb⟩ := (h.enqueue hline).tcpSendQueue now
  dsimp only
  split_ifs
  · exact ⟨hturn.congr_timers _, hb.trans hburst⟩
  · exact ⟨hturn, hb.trans hburst⟩

theorem Server.InTurn.tick (h : s.InTurn target) (hburst : s.batchBurst = false) :
    (s.tick now).InTurn target ∧ (s.tick now).batchBurst = false := by
  unfold Server.tick
  obtain ⟨hturn, hb⟩ := h.tcpSendQueue now
  dsimp only
  split_ifs
  · exact ⟨h, hburst⟩
  · exact ⟨hturn, hb.trans hburst⟩
  · exact ⟨hturn.congr_timers _, hb.trans hburst⟩

/-- In a burst the line goes past the queue. -/
theorem tcpSendLen_burst (hb : s.batchBurst = true) (line : Bytes) :
    s.tcpSendLen now line =
      { s with
        submitted := s.submitted ++ [line], sent := s.sent ++ [line]
        batchBurstBytes := s.batchBurstBytes + line.length } := by
  have hby : s.bypasses = true := by simp [Server.bypasses, hb]
  unfold Server.tcpSendLen
  rw [if_pos hby, Server.sendNow, if_pos (show (s.note line).batchBurst = true from hb)]
  rfl

/-- A batch is under way, and no message to the target waits. -/
structure Server.Bursting (target : Bytes) (s : Server) : Prop extends s.InTurn target where
  burst : s.batchBurst = true
  clear : ∀ e ∈ s.outboundQueue, isMessageTo target e.buf = false

theorem Server.Bursting.tcpSendLen (h : s.Bursting target) (now : Int) (line : Bytes) :
    (s.tcpSendLen now line).Bursting target := by
  rw [tcpSendLen_burst h.burst]
  refine
    { throttled := h.throttled, listed := h.listed, ended := h.ended, marked := h.marked
      sorted := h.sorted, burst := h.burst, clear := h.clear, inOrder := ?_ }
  have hnone : ((s.outboundQueue.map Entry.buf).map cString).filter (isMessageTo target) = [] := by
    rw [List.filter_eq_nil_iff]
    simpa using h.clear
  have hold := h.inOrder
  simp only [List.map_append, List.filter_append, hnone, List.append_nil] at hold ⊢
  rw [hold]

theorem Server.InTurn.open (h : s.InTurn target) (hclear : ∀ e ∈ s.outboundQueue, isMessageTo target e.buf = false) :
    (s.tcpBatchOpenMultiline now target).Bursting target := by
  have hburst : ∀ c : UInt32,
      { s with labelCounter := c, batchBurst := true, batchBurstBytes := 0 }.Bursting target := fun c =>
    { throttled := h.throttled, listed := h.listed, ended := h.ended, marked := h.marked
      sorted := h.sorted, inOrder := h.inOrder, burst := rfl, clear := hclear }
  unfold Server.tcpBatchOpenMultiline Server.tcpVsendfLabeled Server.tcpVsendfLabeledWithTags
  dsimp only
  split_ifs
  · exact (hburst (s.labelCounter + 1 + 1)).tcpSendLen now _
  · exact (hburst (s.labelCounter + 1)).tcpSendLen now _

theorem Server.Bursting.privmsgs (h : s.Bursting target) (now : Int) (tag : Bytes) (texts : List Bytes) :
    (texts.foldl (fun s text => s.tcpBatchPrivmsg now tag target text) s).Bursting target := by
  induction texts generalizing s with
  | nil => exact h
  | cons text texts ih => exact ih (h.tcpSendLen now _)

theorem Server.Bursting.close (h : s.Bursting target) (now : Int) (tag : Bytes) :
    (s.tcpBatchClose now tag).InTurn target ∧ (s.tcpBatchClose now tag).batchBurst = false := by
  have hsent := h.tcpSendLen now (cmdBuf (bytes "BATCH -" ++ tag ++ bytes "\r\n"))
  unfold Server.tcpBatchClose Server.tcpSendf
  dsimp only
  rw [if_pos hsent.burst]
  exact ⟨{ throttled := hsent.throttled, listed := hsent.listed, ended := hsent.ended
           marked := hsent.marked, sorted := hsent.sorted, inOrder := hsent.inOrder }, rfl⟩

end Step

/-- Nothing is submitted past a message to the target that waits: a line of the queue not past one of
a lower priority, a batch not past any. -/
def TypedEvent.Waits (target : Bytes) (w : Typist) : TypedEvent → Prop
  | .message _ text => ¬ w.serv.Overtaken target (w.messageLine target text)
  | .action _ act => ¬ w.serv.Overtaken target (w.messageLine target (Typist.actionBody act))
  | .batch _ _ => ∀ e ∈ w.serv.outboundQueue, isMessageTo target e.buf = false
  | .other _ line => ¬ w.serv.Overtaken target line
  | _ => True

instance (target : Bytes) (w : Typist) (ev : TypedEvent) : Decidable (ev.Waits target w) := by
  cases ev <;> (unfold TypedEvent.Waits; infer_instance)

/-- Between two events no batch is open. -/
def Typist.Ready (target : Bytes) (w : Typist) : Prop :=
  w.serv.InTurn target ∧ w.serv.batchBurst = false

theorem Typist.Ready.sendMessage {target body : Bytes} {w : Typist} {now : Int} (h : w.Ready target)
    (hline : ¬ w.serv.Overtaken target (w.messageLine target body)) :
    (w.sendMessage now target body).Ready target := by
  obtain ⟨hturn, hburst⟩ := h
  unfold Typist.sendMessage Server.tcpVsendfLabeledWithTags Typist.Ready
  dsimp only
  split_ifs
  · have hturn' : { w.serv with labelCounter := w.serv.labelCounter + 1 }.InTurn target :=
      { throttled := hturn.throttled, listed := hturn.listed, ended := hturn.ended
        marked := hturn.marked, sorted := hturn.sorted, inOrder := hturn.inOrder }
    exact hturn'.tcpSendLen hburst hline
  · exact hturn.tcpSendLen hburst hline

theorem TypedEvent.step_ready {target : Bytes} {w : Typist} {ev : TypedEvent} (h : w.Ready target)
    (hev : ev.Waits target w) : (ev.step target w).Ready target := by
  cases ev with
  | message now text => exact h.sendMessage hev
  | action now act => exact h.sendMessage hev
  | batch now texts => exact ((h.1.open hev).privmsgs now _ texts).close now _
  | reply msgid => exact h
  | other now line => exact h.1.tcpSendLen h.2 hev
  | tick now => exact h.1.tick h.2

/-- **Messages leave in order.**  In every run in which no message to the target is submitted past one
of a lower priority that waits, and no batch past any that waits, the messages that left are the first
of those submitted, in the order of submission. -/
theorem messages_leave_in_order (target : Bytes) {w₀ : Typist} (h₀ : w₀.serv.Idle)
    (hmotd : w₀.serv.endOfMotd = true) (evs : List TypedEvent)
    (hevs : Along (TypedEvent.step target) (fun w ev => ev.Waits target w) w₀ evs) :
    let s := (evs.foldl (TypedEvent.step target) w₀).serv
    (s.sent.map cString).filter (isMessageTo target) <+:
      (s.submitted.map cString).filter (isMessageTo target) := by
  intro s
  have hready₀ : w₀.Ready target :=
    ⟨{ throttled := h₀.throttled, listed := h₀.listed, ended := hmotd
       marked := by simp [h₀.empty], sorted := by simp [h₀.empty]
       inOrder := by simp [h₀.empty, h₀.sent, h₀.submitted] }, h₀.noBurst⟩
  have hready : (evs.foldl (TypedEvent.step target) w₀).Ready target :=
    Along.invariant (fun _ _ h hev => TypedEvent.step_ready h hev) hready₀ hevs
  rw [← hready.1.inOrder, List.map_append, List.filter_append]
  exact List.prefix_append _ _

/-- The connection after the MOTD, on a server with message tags and without labeled responses. -/
def tagServer : Typist where
  serv := { endOfMotd := true, haveMessageTags := true }

/-- Five messages use up the throttle, the sixth waits; a batch follows it once it has left. -/
def patientRun : List TypedEvent :=
  List.replicate 5 (.message 100 (bytes "x")) ++
    [.message 100 (bytes "one"), .message 100 (bytes "two"), .tick 104, .batch 105 [bytes "three", bytes "four"]]

theorem messages_leave_in_order_patient :
    let s := (patientRun.foldl (TypedEvent.step (bytes "#c")) tagServer).serv
    s.sent.drop 5 = [bytes "PRIVMSG #c :one\r\n", bytes "PRIVMSG #c :two\r\n",
      bytes "BATCH +hcb0 draft/multiline #c\r\n", bytes "@batch=hcb0 PRIVMSG #c :three\r\n",
      bytes "@batch=hcb0 PRIVMSG #c :four\r\n", bytes "BATCH -hcb0\r\n"] ∧
    (s.sent.map cString).filter (isMessageTo (bytes "#c")) <+:
      (s.submitted.map cString).filter (isMessageTo (bytes "#c")) :=
  ⟨by decide, messages_leave_in_order (bytes "#c") ⟨rfl, rfl, rfl, rfl, rfl, rfl, rfl⟩ rfl patientRun
    (by decide)⟩

/-- The sixth message waits, and the reply typed after it leaves first. -/
def replyRun : List TypedEvent :=
  List.replicate 5 (.message 100 (bytes "x")) ++
    [.message 100 (bytes "one"), .reply (bytes "m1"), .message 100 (bytes "two"), .tick 101]

/-- The sixth message waits, and the batch typed after it leaves at once. -/
def batchRun : List TypedEvent :=
  List.replicate 5 (.message 100 (bytes "x")) ++
    [.message 100 (bytes "one"), .batch 100 [bytes "two", bytes "three"]]

/-- Something typed later than another message is on the wire before it. -/
def Overtakes (evs : List TypedEvent) : Prop :=
  let s := (evs.foldl (TypedEvent.step (bytes "#c")) tagServer).serv
  ¬ (s.sent.map cString).filter (isMessageTo (bytes "#c")) <+:
    (s.submitted.map cString).filter (isMessageTo (bytes "#c"))

instance (evs : List TypedEvent) : Decidable (Overtakes evs) := inferInstanceAs (Decidable (¬ _))

theorem reply_and_batch_overtake :
    tagServer.serv.Idle ∧ tagServer.serv.endOfMotd = true ∧ Overtakes replyRun ∧ Overtakes batchRun :=
  ⟨⟨rfl, rfl, rfl, rfl, rfl, rfl, rfl⟩, rfl, by decide, by decide⟩

end PoxChat.Outbound
