import Mathlib.Algebra.Order.Ring.Int
import Mathlib.Data.List.Count
import Mathlib.Data.List.Perm.Basic
import Mathlib.Data.List.TakeWhile
import PoxChat.Lib.Program

/-!
# The outbound queue

Model of `tcp_send_queue` and `tcp_send_len` of `server.c`: every line the client sends is given a
priority from its first bytes and is queued, and the queue is drained from the highest priority down
as far as the throttle lets it, by the caller and by the `tcp_send_queue` timers.

* A line is the bytes handed over, at most one C string: what follows a NUL is never sent from the queue.
* `submitted` and `sent` record the arguments of `tcp_send_len` and of `server_send_real`; no function
  reads either.  `timers` counts the `tcp_send_queue` timeouts that are armed.
* `sendq_len` and the counters do not wrap.  `time (0)` is an argument, and may go backwards.

Principal results: `tcpSendQueue_rule` — what one line leaving preserves, a whole drain preserves;
`send_queue_integrity` — no line is lost, doubled or overtaken by one of its own priority, `sendq_len`
is the length of what waits, and what waits has a timer.
-/

set_option autoImplicit false

namespace PoxChat.Outbound

open Lib

/-! ## Lines -/

abbrev Bytes := List UInt8

instance : LawfulBEq Bytes := inferInstanceAs (LawfulBEq (List UInt8))

/-- An ASCII text of the source. -/
def bytes (s : String) : Bytes := s.toList.map fun c => c.toNat.toUInt8

def space : UInt8 := 32

/-- The C string at the front of a buffer. -/
def cString (buf : Bytes) : Bytes := buf.takeWhile (· ≠ 0)

/-- `g_ascii_tolower`. -/
def asciiTolower (c : UInt8) : UInt8 := if 65 ≤ c ∧ c ≤ 90 then c + 32 else c

/-- `g_ascii_strcasecmp`, for equality. -/
def gAsciiStrcaseeq (a b : Bytes) : Bool := a.map asciiTolower == b.map asciiTolower

/-- `g_ascii_strncasecmp (str, word, strlen (word)) == 0`. -/
def startsWith (word str : Bytes) : Bool :=
  (str.take word.length).map asciiTolower == word.map asciiTolower

/-- `strstr (str, needle) != NULL`. -/
def contains (needle : Bytes) : Bytes → Bool
  | [] => needle.isEmpty
  | b :: bs => needle.isPrefixOf (b :: bs) || contains needle bs

/-- Whether a line that starts with `MODE ` changes a mode: the word after the target has a sign. -/
def isModeChange (str : Bytes) : Bool :=
  let target := (str.drop 4).dropWhile (· == space)
  let mode := (target.dropWhile (· ≠ space)).dropWhile (· == space)
  (mode.takeWhile (· ≠ space)).any fun c => c == 45 || c == 43

/-- The priority byte of `tcp_send_len`. -/
def linePriority (line : Bytes) : Nat :=
  let str := cString line
  if startsWith (bytes "PRIVMSG") str || startsWith (bytes "NOTICE") str then 2
  else if startsWith (bytes "CHATHISTORY ") str ||
      (str.head? == some 64 && contains (bytes " CHATHISTORY ") str) then 1
  else if startsWith (bytes "WHO ") str || startsWith (bytes "MARKREAD ") str then 0
  else if startsWith (bytes "MODE ") str then if isModeChange str then 3 else 0
  else 3

theorem linePriority_le (line : Bytes) : linePriority line ≤ 3 := by
  unfold linePriority
  dsimp only
  split_ifs <;> omega

theorem cString_eq_self {buf : Bytes} (h : (0 : UInt8) ∉ buf) : cString buf = buf := by
  unfold cString
  rw [List.takeWhile_eq_self_iff]
  intro b hb
  simpa using fun e : b = 0 => h (e ▸ hb)

/-- A string ends at its NUL, whatever follows. -/
theorem cString_append {seg : Bytes} (h : 0 ∉ seg) (rest : Bytes) : cString (seg ++ 0 :: rest) = seg := by
  have hseg : ∀ c ∈ seg, decide (c ≠ 0) = true := fun c hc => decide_eq_true fun h0 => h (h0 ▸ hc)
  rw [cString, List.takeWhile_append_of_pos hseg]
  simp

@[simp] theorem cString_cString (buf : Bytes) : cString (cString buf) = cString buf := by
  apply cString_eq_self
  intro h
  simpa using List.mem_takeWhile_imp h

@[simp] theorem linePriority_cString (line : Bytes) : linePriority (cString line) = linePriority line := by
  simp [linePriority]

/-! ## The server record -/

/-- A buffer of `outbound_queue`: the priority byte and the line after it. -/
structure Entry where
  pri : Nat
  buf : Bytes
  deriving DecidableEq

structure Server where
  /-- `prefs.hex_net_throttle`. -/
  netThrottle : Bool := true
  /-- `is_server`: the record is still in `serv_list`. -/
  isServer : Bool := true
  endOfMotd : Bool := false
  haveLabeledResponse : Bool := false
  haveMessageTags : Bool := false
  labelCounter : UInt32 := 0
  outboundQueue : List Entry := []
  nextSend : Int := 0
  prevNow : Int := 0
  sendqLen : Int := 0
  batchBurst : Bool := false
  batchBurstBytes : Int := 0
  timers : Nat := 0
  submitted : List Bytes := []
  sent : List Bytes := []

namespace Server

def serverSendReal (s : Server) (buf : Bytes) : Server := { s with sent := s.sent ++ [buf] }

/-- The throttle of `tcp_send_queue` for the next line: `none` where it has to wait, else `next_send`. -/
def throttle (s : Server) (now : Int) : Option Int :=
  let next := if s.nextSend < now then now else s.nextSend
  if next - now ≥ 10 then
    -- a clock that went back since the last line resets the throttle
    if now ≥ s.prevNow then none else some now
  else some next

/-- The first queued line of priority `pri`, which is `line`, leaves. -/
def sendEntry (s : Server) (now next : Int) (pri : Nat) (line : Bytes) : Server :=
  let buf := cString line
  { s with
    nextSend := next + (2 + (buf.dropWhile (· ≠ space)).length / 120)
    sendqLen := s.sendqLen - buf.length
    prevNow := now
    sent := s.sent ++ [buf]
    outboundQueue := s.outboundQueue.eraseP (·.pri == pri) }

/-- The inner loop of `tcp_send_queue`, which starts again from the head after each line it sends;
the result says whether the throttle ended it.  The queue's length bounds its rounds. -/
def sendPriority (now : Int) (pri : Nat) : Nat → Server → Bool × Server
  | 0, s => (false, s)
  | rounds + 1, s =>
    match s.outboundQueue.find? (·.pri == pri) with
    | none => (false, s)
    | some e =>
      match s.throttle now with
      | none => (true, s)
      | some next => sendPriority now pri rounds (s.sendEntry now next pri e.buf)

/-- The outer loop of `tcp_send_queue`, from priority `pri` down. -/
def sendFrom (now : Int) (pri : Nat) (s : Server) : Bool × Server :=
  match sendPriority now pri s.outboundQueue.length s with
  | (true, s') => (true, s')
  | (false, s') =>
    match pri with
    | 0 => (false, s')
    | lower + 1 => sendFrom now lower s'

/-- `tcp_send_queue`; the result is whether its timer is kept. -/
def tcpSendQueue (s : Server) (now : Int) : Bool × Server :=
  if s.isServer then sendFrom now 3 s else (false, s)

/-- The line enters the queue. -/
def enqueue (s : Server) (line : Bytes) : Server :=
  { s with
    outboundQueue := s.outboundQueue ++ [⟨linePriority line, line⟩]
    sendqLen := s.sendqLen + line.length }

/-- Whether `tcp_send_len` hands its line on at once. -/
def bypasses (s : Server) : Bool := !s.netThrottle || !s.endOfMotd || s.batchBurst

/-- `tcp_send_len` is called with this line. -/
def note (s : Server) (line : Bytes) : Server := { s with submitted := s.submitted ++ [line] }

/-- The line leaves without queueing. -/
def sendNow (s : Server) (line : Bytes) : Server :=
  (if s.batchBurst then { s with batchBurstBytes := s.batchBurstBytes + line.length } else s).serverSendReal line

/-- `tcp_send_len`. -/
def tcpSendLen (s : Server) (now : Int) (line : Bytes) : Server :=
  let noqueue := s.outboundQueue.isEmpty
  if s.bypasses then (s.note line).sendNow line
  else
    let (waits, s) := ((s.note line).enqueue line).tcpSendQueue now
    if waits && noqueue then { s with timers := s.timers + 1 } else s

/-- One of the `tcp_send_queue` timers fires. -/
def tick (s : Server) (now : Int) : Server :=
  if s.timers = 0 then s
  else
    let (keeps, s) := s.tcpSendQueue now
    if keeps then s else { s with timers := s.timers - 1 }

end Server

/-! ## One line leaves -/

section Drain

variable {now next : Int} {pri : Nat} {e : Entry} {s : Server}

theorem find_split {q : List Entry} (h : q.find? (·.pri == pri) = some e) :
    e.pri = pri ∧ ∃ l r, q = l ++ e :: r ∧ (∀ x ∈ l, x.pri ≠ pri) ∧ q.eraseP (·.pri == pri) = l ++ r := by
  obtain ⟨he, l, r, rfl, hl⟩ := List.find?_eq_some_iff_append.1 h
  have hl' : ∀ x ∈ l, x.pri ≠ pri := fun x hx => by simpa using hl x hx
  refine ⟨by simpa using he, l, r, rfl, hl', ?_⟩
  rw [List.eraseP_append_right _ fun x hx => by simpa using hl' x hx]
  simp only [List.eraseP_cons, he, cond_true]

/-- The entry `e` leaves next: it is the first of its priority, and none of a higher one waits. -/
structure Server.Leaves (s : Server) (now next : Int) (e : Entry) : Prop where
  first : s.outboundQueue.find? (·.pri == e.pri) = some e
  top : ∀ x ∈ s.outboundQueue, x.pri ≤ e.pri
  admitted : s.throttle now = some next

/-- What was queued before the entry that leaves has a lower priority, and stays. -/
theorem Server.Leaves.split (h : s.Leaves now next e) :
    ∃ l r, s.outboundQueue = l ++ e :: r ∧ (∀ x ∈ l, x.pri < e.pri) ∧
      (s.sendEntry now next e.pri e.buf).outboundQueue = l ++ r := by
  obtain ⟨-, l, r, hq, hl, herase⟩ := find_split h.first
  refine ⟨l, r, hq, fun x hx => ?_, herase⟩
  have hle : x.pri ≤ e.pri := h.top x (by simp [hq, hx])
  exact lt_of_le_of_ne hle (hl x hx)

theorem length_eraseP_of_find {q : List Entry} (h : q.find? (·.pri == pri) = some e) :
    (q.eraseP (·.pri == pri)).length + 1 = q.length := by
  obtain ⟨-, l, r, rfl, -, herase⟩ := find_split h
  rw [herase]
  simp
  omega

variable {I : Server → Prop}

/-- The inner loop keeps what each line that leaves keeps; it ends with a line left over, or with
none of its priority. -/
theorem sendPriority_rule (hstep : ∀ s next e, I s → s.Leaves now next e →
      I (s.sendEntry now next e.pri e.buf)) (rounds : Nat) :
    ∀ s : Server, I s → (∀ x ∈ s.outboundQueue, x.pri ≤ pri) → s.outboundQueue.length ≤ rounds →
      I (s.sendPriority now pri rounds).2 ∧
      (∀ x ∈ (s.sendPriority now pri rounds).2.outboundQueue, x.pri ≤ pri) ∧
      ((s.sendPriority now pri rounds).1 = true → (s.sendPriority now pri rounds).2.outboundQueue ≠ []) ∧
      ((s.sendPriority now pri rounds).1 = false →
        ∀ x ∈ (s.sendPriority now pri rounds).2.outboundQueue, x.pri ≠ pri) := by
  induction rounds with
  | zero =>
    intro s hi htop hlen
    have hq : s.outboundQueue = [] := List.eq_nil_of_length_eq_zero (by omega)
    simp [Server.sendPriority, hi, hq]
  | succ rounds ih =>
    intro s hi htop hlen
    rw [Server.sendPriority]
    cases hfind : s.outboundQueue.find? (·.pri == pri) with
    | none =>
      have hnone : ∀ x ∈ s.outboundQueue, x.pri ≠ pri := by simpa using hfind
      exact ⟨hi, htop, fun h => by simp at h, fun _ => hnone⟩
    | some e =>
      obtain ⟨rfl, l, r, hq, -, herase⟩ := find_split hfind
      cases hthrottle : s.throttle now with
      | none =>
        refine ⟨hi, htop, fun _ => ?_, fun h => by simp at h⟩
        simp [hq]
      | some next =>
        have hleaves : s.Leaves now next e := ⟨hfind, htop, hthrottle⟩
        apply ih _ (hstep s next e hi hleaves)
        · intro x hx
          exact htop x (List.mem_of_mem_eraseP hx)
        · have hlen' := length_eraseP_of_find hfind
          show (s.outboundQueue.eraseP _).length ≤ rounds
          omega

theorem sendFrom_rule (hstep : ∀ s next e, I s → s.Leaves now next e →
      I (s.sendEntry now next e.pri e.buf)) (pri : Nat) :
    ∀ s : Server, I s → (∀ x ∈ s.outboundQueue, x.pri ≤ pri) →
      I (s.sendFrom now pri).2 ∧
      ((s.sendFrom now pri).1 = true ↔ (s.sendFrom now pri).2.outboundQueue ≠ []) := by
  induction pri with
  | zero =>
    intro s hi htop
    obtain ⟨hi', htop', hwait, hdone⟩ := sendPriority_rule hstep _ s hi htop le_rfl
    unfold Server.sendFrom
    cases hres : s.sendPriority now 0 s.outboundQueue.length with
    | mk waits s' =>
      rw [hres] at hi' htop' hwait hdone
      cases waits with
      | true => exact ⟨hi', fun _ => hwait rfl, fun _ => rfl⟩
      | false =>
        have hq : s'.outboundQueue = [] := by
          apply List.eq_nil_iff_forall_not_mem.2
          intro x hx
          have h0 := htop' x hx
          exact hdone rfl x hx (by omega)
        simp [hi', hq]
  | succ lower ih =>
    intro s hi htop
    obtain ⟨hi', htop', hwait, hdone⟩ := sendPriority_rule hstep _ s hi htop le_rfl
    unfold Server.sendFrom
    cases hres : s.sendPriority now (lower + 1) s.outboundQueue.length with
    | mk waits s' =>
      rw [hres] at hi' htop' hwait hdone
      cases waits with
      | true => exact ⟨hi', fun _ => hwait rfl, fun _ => rfl⟩
      | false =>
        apply ih s' hi'
        intro x hx
        have hle := htop' x hx
        have hne := hdone rfl x hx
        omega

/-- **Draining.**  What each line that leaves keeps, `tcp_send_queue` keeps, and its timer is kept
exactly when lines are left over. -/
theorem tcpSendQueue_rule (hstep : ∀ s next e, I s → s.Leaves now next e →
      I (s.sendEntry now next e.pri e.buf)) (hi : I s) (hserv : s.isServer = true)
    (htop : ∀ x ∈ s.outboundQueue, x.pri ≤ 3) :
    I (s.tcpSendQueue now).2 ∧
    ((s.tcpSendQueue now).1 = true ↔ (s.tcpSendQueue now).2.outboundQueue ≠ []) := by
  unfold Server.tcpSendQueue
  rw [if_pos hserv]
  exact sendFrom_rule hstep 3 s hi htop

end Drain

/-! ## The queue's invariant -/

/-- What is queued, sent and counted agrees with what was submitted. -/
structure Server.Accounted (s : Server) : Prop where
  throttled : s.netThrottle = true
  listed : s.isServer = true
  noBurst : s.batchBurst = false
  marked : ∀ e ∈ s.outboundQueue, e.pri = linePriority e.buf
  whole : ∀ e ∈ s.outboundQueue, (0 : UInt8) ∉ e.buf
  inOrder : ∀ pri, (s.sent ++ s.outboundQueue.map Entry.buf).filter (linePriority · == pri) =
    s.submitted.filter (linePriority · == pri)
  counted : s.sendqLen = ((s.outboundQueue.map (·.buf.length)).sum : Nat)
  early : s.endOfMotd = false → s.outboundQueue = []

section Step

variable {s : Server} {now next : Int} {e : Entry} {line : Bytes}

theorem Server.Accounted.top (h : s.Accounted) : ∀ x ∈ s.outboundQueue, x.pri ≤ 3 := by
  intro x hx
  rw [h.marked x hx]
  exact linePriority_le x.buf

theorem Server.Accounted.leaves (h : s.Accounted) (hl : s.Leaves now next e) :
    (s.sendEntry now next e.pri e.buf).Accounted := by
  obtain ⟨l, r, hq, hlow, hq'⟩ := hl.split
  have hmem : ∀ x, x ∈ l ++ r → x ∈ s.outboundQueue := fun x hx => by
    rw [hq]
    simp only [List.mem_append, List.mem_cons] at hx ⊢
    tauto
  have hwhole : cString e.buf = e.buf := cString_eq_self (h.whole e (by simp [hq]))
  refine
    { throttled := h.throttled
      listed := h.listed
      noBurst := h.noBurst
      marked := fun x hx => h.marked x (hmem x (hq' ▸ hx))
      whole := fun x hx => h.whole x (hmem x (hq' ▸ hx))
      inOrder := fun pri => ?_
      counted := ?_
      early := fun hm => ?_ }
  · have hold := h.inOrder pri
    rw [hq] at hold
    rw [hq']
    show ((s.sent ++ [cString e.buf]) ++ (l ++ r).map Entry.buf).filter _ = s.submitted.filter _
    rw [← hold, hwhole]
    -- only an entry of another priority stands before the one that leaves
    by_cases he : linePriority e.buf = pri
    · have hl' : (l.map Entry.buf).filter (linePriority · == pri) = [] := by
        simp only [List.filter_eq_nil_iff, List.mem_map, forall_exists_index, and_imp, beq_iff_eq]
        rintro _ x hx rfl hxp
        have hxe := hlow x hx
        rw [h.marked x (hmem x (by simp [hx])), h.marked e (by simp [hq])] at hxe
        omega
      simp [List.filter_append, hl', he]
    · simp [List.filter_append, he]
  · have hold := h.counted
    rw [hq] at hold
    rw [hq']
    show s.sendqLen - (cString e.buf).length = _
    rw [hwhole, hold]
    simp
    omega
  · have := h.early hm
    simp [hq] at this

theorem Server.Accounted.enqueue (h : s.Accounted) (hm : s.endOfMotd = true)
    (hline : (0 : UInt8) ∉ line) :
    ((s.note line).enqueue line).Accounted := by
  refine
    { throttled := h.throttled
      listed := h.listed
      noBurst := h.noBurst
      marked := ?_
      whole := ?_
      inOrder := fun pri => ?_
      counted := ?_
      early := fun hm' => ?_ }
  · intro x hx
    rcases List.mem_append.1 hx with hx | hx
    · exact h.marked x hx
    · rw [List.mem_singleton.1 hx]
  · intro x hx
    rcases List.mem_append.1 hx with hx | hx
    · exact h.whole x hx
    · rw [List.mem_singleton.1 hx]
      exact hline
  · have hold := h.inOrder pri
    simp only [Server.enqueue, Server.note, List.map_append, List.filter_append] at hold ⊢
    rw [← hold]
    simp
  · have hold := h.counted
    simp only [Server.enqueue, Server.note, hold, List.map_append, List.sum_append]
    simp
  · have : s.endOfMotd = false := hm'
    rw [hm] at this
    cases this

/-- The invariant of the queue between two calls. -/
structure Server.Sound (s : Server) : Prop extends s.Accounted where
  timed : s.outboundQueue ≠ [] → 0 < s.timers

theorem Server.Accounted.congr_timers (h : s.Accounted) (t : Nat) : { s with timers := t }.Accounted :=
  { throttled := h.throttled, listed := h.listed, noBurst := h.noBurst, marked := h.marked
    whole := h.whole, inOrder := h.inOrder, counted := h.counted, early := h.early }

/-- A drain keeps the accounts and the timers, and ends with its timer kept exactly when lines wait. -/
theorem Server.Accounted.tcpSendQueue (h : s.Accounted) (now : Int) :
    (s.tcpSendQueue now).2.Accounted ∧ (s.tcpSendQueue now).2.timers = s.timers ∧
    ((s.tcpSendQueue now).1 = true ↔ (s.tcpSendQueue now).2.outboundQueue ≠ []) := by
  obtain ⟨⟨ha, ht⟩, hwait⟩ := tcpSendQueue_rule
    (I := fun s' => s'.Accounted ∧ s'.timers = s.timers)
    (fun _ _ _ hi hl => ⟨hi.1.leaves hl, hi.2⟩) ⟨h, rfl⟩ h.listed h.top
  exact ⟨ha, ht, hwait⟩

theorem Server.Accounted.bypasses (h : s.Accounted) : s.bypasses = !s.endOfMotd := by
  simp [Server.bypasses, h.throttled, h.noBurst]

/-- Before the end of the MOTD the queue is empty, and the line goes straight out. -/
theorem Server.Sound.sendNow (h : s.Sound) (hm : s.endOfMotd = false) : ((s.note line).sendNow line).Sound := by
  have hq := h.early hm
  have hburst : ¬ (s.note line).batchBurst = true := by simp [Server.note, h.noBurst]
  rw [Server.sendNow, if_neg hburst]
  refine
    { throttled := h.throttled, listed := h.listed, noBurst := h.noBurst, marked := h.marked
      whole := h.whole, counted := h.counted, early := h.early, timed := h.timed
      inOrder := fun pri => ?_ }
  have hold := h.inOrder pri
  simp only [Server.serverSendReal, Server.note, hq, List.map_nil, List.append_nil] at hold ⊢
  rw [List.filter_append, hold, List.filter_append]

theorem Server.Sound.tcpSendLen (h : s.Sound) (hline : (0 : UInt8) ∉ line) :
    (s.tcpSendLen now line).Sound := by
  unfold Server.tcpSendLen
  rw [h.bypasses]
  cases hm : s.endOfMotd with
  | false => exact h.sendNow hm
  | true =>
    obtain ⟨ha, ht, hwait⟩ := (h.toAccounted.enqueue hm hline).tcpSendQueue now
    simp only [Bool.not_true, Bool.false_eq_true, if_false]
    split_ifs with hnew
    · exact { ha.congr_timers _ with timed := fun _ => Nat.succ_pos _ }
    · refine { ha with timed := fun hq => ?_ }
      -- lines wait, and no timer was added: the queue was not empty before, and had its timer
      have hold : s.outboundQueue ≠ [] := by
        intro hnil
        exact hnew (by simp [hwait.2 hq, hnil])
      rw [ht]
      exact h.timed hold

theorem Server.Sound.tick (h : s.Sound) : (s.tick now).Sound := by
  unfold Server.tick
  split_ifs with ht
  · exact h
  obtain ⟨ha, htimers, hwait⟩ := h.toAccounted.tcpSendQueue now
  dsimp only
  split_ifs with hkeep
  · refine { ha with timed := fun _ => ?_ }
    omega
  · refine { ha.congr_timers _ with timed := fun hq => ?_ }
    exact absurd (hwait.2 hq) hkeep

end Step

/-! ## Runs -/

inductive QueueEvent where
  | sendLen (now : Int) (line : Bytes)
  | tick (now : Int)
  | endOfMotd

def QueueEvent.step (s : Server) : QueueEvent → Server
  | .sendLen now line => s.tcpSendLen now line
  | .tick now => s.tick now
  | .endOfMotd => { s with endOfMotd := true }

/-- Lines are C strings. -/
def QueueEvent.Textual : QueueEvent → Prop
  | .sendLen _ line => (0 : UInt8) ∉ line
  | _ => True

/-- The record of a server nothing was sent on yet; whether the MOTD has ended, the clocks of the
throttle and the timers left over from an earlier connection are arbitrary. -/
structure Server.Idle (s : Server) : Prop where
  throttled : s.netThrottle = true
  listed : s.isServer = true
  noBurst : s.batchBurst = false
  empty : s.outboundQueue = []
  length : s.sendqLen = 0
  submitted : s.submitted = []
  sent : s.sent = []

theorem Server.Idle.sound {s : Server} (h : s.Idle) : s.Sound where
  throttled := h.throttled
  listed := h.listed
  noBurst := h.noBurst
  marked := by simp [h.empty]
  whole := by simp [h.empty]
  inOrder := by simp [h.empty, h.sent, h.submitted]
  counted := by simp [h.empty, h.length]
  early := fun _ => h.empty
  timed := fun hq => absurd h.empty hq

theorem QueueEvent.step_sound {s : Server} {ev : QueueEvent} (h : s.Sound) (hev : ev.Textual) :
    (ev.step s).Sound := by
  cases ev with
  | sendLen now line => exact h.tcpSendLen hev
  | tick now => exact h.tick
  | endOfMotd =>
    exact
      { throttled := h.throttled, listed := h.listed, noBurst := h.noBurst, marked := h.marked
        whole := h.whole, inOrder := h.inOrder, counted := h.counted, timed := h.timed
        early := fun hm => by cases hm }

theorem run_sound {s : Server} {evs : List QueueEvent} (h : s.Sound) (hevs : ∀ ev ∈ evs, ev.Textual) :
    (evs.foldl QueueEvent.step s).Sound := by
  have halong : Along QueueEvent.step (fun _ ev => ev.Textual) s evs :=
    Along.of_forall (fun ev hev _ => hevs ev hev) s
  exact Along.invariant (fun s' ev hs hev => QueueEvent.step_sound hs hev) h halong

/-- Lists that agree class by class have the same elements equally often. -/
theorem perm_of_filter_eq {α : Type} [DecidableEq α] {f : α → Nat} {l l' : List α}
    (h : ∀ n, l.filter (f · == n) = l'.filter (f · == n)) : l.Perm l' := by
  rw [List.perm_iff_count]
  intro a
  have hcount : ∀ m : List α, (m.filter (f · == f a)).count a = m.count a := fun m =>
    List.count_filter (by simp)
  rw [← hcount l, ← hcount l', h]

/-- **The send queue keeps its lines.**  After every run of sends and timer ticks under any clock, the
lines sent and the lines queued are the lines submitted, those of one priority in the order of
submission with the sent ones first, `sendq_len` is the length of what is queued, and what is queued
has a timer. -/
theorem send_queue_integrity {s₀ : Server} (h₀ : s₀.Idle) (evs : List QueueEvent)
    (hevs : ∀ ev ∈ evs, ev.Textual) :
    let s := evs.foldl QueueEvent.step s₀
    let queued := s.outboundQueue.map Entry.buf
    (s.sent ++ queued).Perm s.submitted ∧
    (∀ pri, s.sent.filter (linePriority · == pri) ++ queued.filter (linePriority · == pri) =
      s.submitted.filter (linePriority · == pri)) ∧
    s.sendqLen = (queued.map List.length).sum ∧
    (queued ≠ [] → 0 < s.timers) := by
  intro s queued
  have hs : s.Sound := run_sound h₀.sound hevs
  refine ⟨perm_of_filter_eq hs.inOrder, fun pri => ?_, ?_, fun hq => hs.timed fun hnil => hq ?_⟩
  · rw [← List.filter_append]
    exact hs.inOrder pri
  · rw [hs.counted]
    simp [queued, Function.comp_def]
  · simp [queued, hnil]

/-- A throttled connection, a clock that goes back and a tick. -/
theorem send_queue_integrity_skewed :
    let s₀ : Server := { endOfMotd := true, nextSend := 119, prevNow := 100 }
    let evs : List QueueEvent := [.sendLen 100 (bytes "WHO #c"), .sendLen 100 (bytes "JOIN #d"),
      .tick 99, .sendLen 99 (bytes "MODE #d"), .sendLen 99 (bytes "WHO #d"),
      .sendLen 99 (bytes "PRIVMSG #c :one"), .sendLen 99 (bytes "PRIVMSG #c :two"), .tick 99]
    (evs.foldl QueueEvent.step s₀).sent.take 2 = [bytes "JOIN #d", bytes "WHO #c"] ∧
      (evs.foldl QueueEvent.step s₀).outboundQueue = [⟨2, bytes "PRIVMSG #c :two"⟩] ∧
      0 < (evs.foldl QueueEvent.step s₀).timers := by
  intro s₀ evs
  have hidle : s₀.Idle := ⟨rfl, rfl, rfl, rfl, rfl, rfl, rfl⟩
  have hrun := send_queue_integrity hidle evs (by simp [evs, QueueEvent.Textual, bytes])
  exact ⟨by decide, by decide, hrun.2.2.2 (by decide)⟩

end PoxChat.Outbound
