import PoxChat.Lib.Program

/-!
# Reading from a connection

Model of `server_read`, which cuts what `recv` returns into lines, and of `server_disconnect` and its neighbours
as far as they decide which connection is the current one and what is left in the line buffer.

* Connections are numbered; `connected` is the current one.  A call of `server_read` keeps the socket it started
  with, and the block it has received, whatever the handling of a line does.
* `handle` is what handling a line does to the connection; it may depend on all lines so far.
* The bytes of the line buffer carry the number of their connection, `accepted` is the history of the bytes that
  were put in the buffer or ended a line, with the connection that was current then.  No code reads either.

Principal result: `dead_lines_ignored_iff` — no byte of an ended connection is taken exactly when nothing but CR
follows, in the same call, the line whose handling ended it.
-/

set_option autoImplicit false

namespace PoxChat.Inbound

open Lib

/-! ## The connection -/

/-- A line passed to `server_inline`, and the connection that was current. -/
structure Inlined where
  connected : Option Nat
  line : List (Nat × UInt8)
  deriving DecidableEq

structure Serv where
  connected : Option Nat := none
  connecting : Bool := false
  /-- `recondelay_tag` is set. -/
  recondelay : Bool := false
  nextConn : Nat := 0
  /-- `linebuf` up to `pos`. -/
  linebuf : List (Nat × UInt8) := []
  inlined : List Inlined := []
  accepted : List (Nat × Option Nat) := []

/-- `server_cleanup`. -/
def serverCleanup (s : Serv) : Nat × Serv :=
  if s.connecting then (1, { s with connecting := false })
  else if s.connected.isSome then (2, { s with connected := none })
  else if s.recondelay then (3, { s with recondelay := false })
  else (0, s)

/-- `server_disconnect`. -/
def serverDisconnect (s : Serv) : Serv :=
  match serverCleanup s with
  | (0, s) => s
  | (1, s) => s
  | (_, s) => { s with linebuf := [] }

/-- `server_connect`. -/
def serverConnect (s : Serv) : Serv :=
  let s := if s.connected.isSome ∨ s.connecting ∨ s.recondelay then serverDisconnect s else s
  { s with connecting := true }

/-- `auto_reconnect`. -/
def autoReconnect (s : Serv) : Serv :=
  let s := if s.connected.isSome then serverDisconnect s else s
  { s with recondelay := true }

/-- What may be done to the connection, by a line, a command or a timer. -/
inductive Effect where
  | goOn
  | disconnect
  | reconnect
  | reconnectLater

def Serv.affect (s : Serv) : Effect → Serv
  | .goOn => s
  | .disconnect => serverDisconnect s
  | .reconnect => serverConnect (serverDisconnect s)
  | .reconnectLater => autoReconnect s

/-- `server_connected`. -/
def serverConnected (s : Serv) : Serv :=
  if s.connecting then
    { s with connecting := false, connected := some s.nextConn, nextConn := s.nextConn + 1 }
  else s

/-! ## Reading -/

def LINEBUF : Nat := 8704

/-- `server_inline`, for a line that ends with a byte from socket `sok`. -/
def serverInline (handle : List (List UInt8) → Effect) (sok : Nat) (s : Serv) : Serv :=
  let s : Serv := { s with
    inlined := s.inlined ++ [⟨s.connected, s.linebuf⟩]
    accepted := s.accepted ++ [(sok, s.connected)] }
  s.affect (handle (s.inlined.map fun l => l.line.map (·.2)))

/-- The body of the loop of `server_read`, on socket `sok`. -/
def readByte (handle : List (List UInt8) → Effect) (sok : Nat) (s : Serv) (c : UInt8) : Serv :=
  if c = 13 then s
  else if c = 10 then { serverInline handle sok s with linebuf := [] }
  else if LINEBUF - 1 ≤ s.linebuf.length then s
  else { s with linebuf := s.linebuf ++ [(sok, c)], accepted := s.accepted ++ [(sok, s.connected)] }

/-- How the last `recv` of a call returns: it would block, or the connection is closed or fails. -/
inductive LastRecv where
  | wouldBlock
  | closed (next : Effect)

/-- `server_read`, with the blocks that `recv` returns.  A connection that has ended has no input tag. -/
def serverRead (handle : List (List UInt8) → Effect) (s : Serv) (blocks : List (List UInt8)) (ending : LastRecv) :
    Serv :=
  match s.connected with
  | none => s
  | some sok =>
    let s := blocks.foldl (fun s lbuf => lbuf.foldl (readByte handle sok) s) s
    match ending with
    | .wouldBlock => s
    | .closed next => s.affect next

inductive ConnEvent where
  | read (blocks : List (List UInt8)) (ending : LastRecv)
  | connected
  | affect (effect : Effect)

def connStep (handle : List (List UInt8) → Effect) (s : Serv) : ConnEvent → Serv
  | .read blocks ending => serverRead handle s blocks ending
  | .connected => serverConnected s
  | .affect effect => s.affect effect

/-- Every byte was taken from the connection that was current, and the line buffer holds bytes of the current one
only. -/
structure Clean (s : Serv) : Prop where
  accepted : ∀ p ∈ s.accepted, p.2 = some p.1
  lines : ∀ l ∈ s.inlined, ∀ b ∈ l.line, l.connected = some b.1
  buffer : ∀ b ∈ s.linebuf, s.connected = some b.1

/-- What follows the line whose handling ended the connection. -/
def afterEnd (handle : List (List UInt8) → Effect) (sok : Nat) : Serv → List UInt8 → List UInt8
  | _, [] => []
  | s, c :: cs =>
    if (readByte handle sok s c).connected = some sok then afterEnd handle sok (readByte handle sok s c) cs
    else cs

/-- Nothing but CR follows, in the same call, a line whose handling ended the connection. -/
def EndsLast (handle : List (List UInt8) → Effect) (s : Serv) : ConnEvent → Prop
  | .read blocks _ => ∀ sok ∈ s.connected, ∀ c ∈ afterEnd handle sok s blocks.flatten, c = 13
  | _ => True

/-! ## The current connection -/

variable {handle : List (List UInt8) → Effect} {s s' : Serv} {sok : Nat}

/-- A connection attempt is made without a connection only, and then the buffer is clean. -/
structure Sound (s : Serv) : Prop extends Clean s where
  exclusive : s.connected.isSome = true → s.connecting = false

/-- Nothing of an ended connection is in the buffer. -/
theorem Clean.linebuf_nil (h : Clean s) (hc : s.connected = none) : s.linebuf = [] := by
  refine List.eq_nil_iff_forall_not_mem.2 fun b hb => ?_
  have := h.buffer b hb
  rw [hc] at this
  cases this

/-- What an effect does besides: the histories stay, the connection stays or ends, and its end clears the
buffer. -/
structure Affected (s s' : Serv) : Prop where
  accepted : s'.accepted = s.accepted
  inlined : s'.inlined = s.inlined
  connected : s'.connected = s.connected ∨ s'.connected = none
  buffer : s'.linebuf = [] ∨ s'.linebuf = s.linebuf ∧ s'.connected = s.connected
  exclusive : s'.connected.isSome = true → s'.connecting = false

theorem serverDisconnect_affected (h : Sound s) :
    Affected s (serverDisconnect s) ∧ (serverDisconnect s).connected = none := by
  unfold serverDisconnect serverCleanup
  by_cases hcg : s.connecting = true
  · -- a connection attempt: there is no connection and the buffer is empty
    have hn : s.connected = none := by
      cases hc : s.connected with
      | none => rfl
      | some sok =>
        have := h.exclusive (by rw [hc]; rfl)
        rw [hcg] at this
        cases this
    rw [if_pos hcg]
    exact ⟨⟨rfl, rfl, .inl rfl, .inr ⟨rfl, rfl⟩, fun _ => rfl⟩, hn⟩
  · rw [if_neg hcg]
    by_cases hc : s.connected.isSome = true
    · rw [if_pos hc]
      exact ⟨⟨rfl, rfl, .inr rfl, .inl rfl, fun hf => by cases hf⟩, rfl⟩
    · have hn : s.connected = none := by simpa using hc
      rw [if_neg hc]
      by_cases hr : s.recondelay = true
      · rw [if_pos hr]
        exact ⟨⟨rfl, rfl, .inl rfl, .inl rfl, fun hf => absurd hf hc⟩, hn⟩
      · rw [if_neg hr]
        exact ⟨⟨rfl, rfl, .inl rfl, .inr ⟨rfl, rfl⟩, fun hf => absurd hf hc⟩, hn⟩

theorem Affected.refl (h : Sound s) : Affected s s :=
  ⟨rfl, rfl, .inl rfl, .inr ⟨rfl, rfl⟩, h.exclusive⟩

/-- What is clean stays so. -/
theorem Affected.sound (h : Sound s) (ha : Affected s s') : Sound s' := by
  refine ⟨⟨?_, ?_, ?_⟩, ha.exclusive⟩
  · rw [ha.accepted]
    exact h.accepted
  · rw [ha.inlined]
    exact h.lines
  · intro b hb
    rcases ha.buffer with hn | ⟨hl, hc⟩
    · rw [hn] at hb
      cases hb
    · rw [hc]
      exact h.buffer b (hl ▸ hb)

theorem Affected.trans {s'' : Serv} (h : Affected s s') (h' : Affected s' s'') : Affected s s'' := by
  refine ⟨h'.accepted.trans h.accepted, h'.inlined.trans h.inlined, ?_, ?_, h'.exclusive⟩
  · rcases h'.connected with hc | hc
    · rw [hc]
      exact h.connected
    · exact .inr hc
  · rcases h'.buffer with hn | ⟨hl, hc⟩
    · exact .inl hn
    · rcases h.buffer with hn | ⟨hl₀, hc₀⟩
      · exact .inl (hl.trans hn)
      · exact .inr ⟨hl.trans hl₀, hc.trans hc₀⟩

/-- To wait or to try again, without a connection. -/
theorem Affected.attempt (h : Affected s s') (hn : s'.connected = none) (connecting recondelay : Bool) :
    Affected s { s' with connecting := connecting, recondelay := recondelay } :=
  ⟨h.accepted, h.inlined, h.connected, h.buffer, fun hf => by
    rw [show ({ s' with connecting := connecting, recondelay := recondelay } : Serv).connected = none from hn] at hf
    cases hf⟩

theorem serverConnect_affected (h : Sound s) :
    Affected s (serverConnect s) ∧ (serverConnect s).connected = none := by
  unfold serverConnect
  dsimp only
  split
  · obtain ⟨ha, hn⟩ := serverDisconnect_affected h
    exact ⟨ha.attempt hn true _, hn⟩
  · rename_i hnot
    have hn : s.connected = none := by
      have := (not_or.1 hnot).1
      simpa using this
    exact ⟨(Affected.refl h).attempt hn true _, hn⟩

theorem autoReconnect_affected (h : Sound s) :
    Affected s (autoReconnect s) ∧ (autoReconnect s).connected = none := by
  unfold autoReconnect
  dsimp only
  split
  · obtain ⟨ha, hn⟩ := serverDisconnect_affected h
    exact ⟨ha.attempt hn _ true, hn⟩
  · rename_i hnot
    have hn : s.connected = none := by simpa using hnot
    exact ⟨(Affected.refl h).attempt hn _ true, hn⟩

theorem affect_affected (h : Sound s) (effect : Effect) : Affected s (s.affect effect) := by
  cases effect with
  | goOn => exact .refl h
  | disconnect => exact (serverDisconnect_affected h).1
  | reconnect =>
    have ha := (serverDisconnect_affected h).1
    exact ha.trans (serverConnect_affected (ha.sound h)).1
  | reconnectLater => exact (autoReconnect_affected h).1

theorem serverConnected_sound (h : Sound s) : Sound (serverConnected s) := by
  unfold serverConnected
  split
  · rename_i hcg
    have hn : s.connected = none := by
      cases hc : s.connected with
      | none => rfl
      | some sok =>
        have := h.exclusive (by rw [hc]; rfl)
        rw [hcg] at this
        cases this
    refine ⟨⟨h.accepted, h.lines, fun b hb => ?_⟩, fun _ => rfl⟩
    have hb : b ∈ s.linebuf := hb
    rw [h.linebuf_nil hn] at hb
    cases hb
  · exact h

/-! ## Reading -/

/-- A line is passed on while its connection is current. -/
theorem serverInline_sound (h : Sound s) (hc : s.connected = some sok) :
    Sound (serverInline handle sok s) ∧
      ((serverInline handle sok s).connected = some sok ∨ (serverInline handle sok s).connected = none) := by
  have hline : Sound { s with
      inlined := s.inlined ++ [⟨s.connected, s.linebuf⟩]
      accepted := s.accepted ++ [(sok, s.connected)] } := by
    refine ⟨⟨fun p hp => ?_, fun l hl => ?_, h.buffer⟩, h.exclusive⟩
    · rcases List.mem_append.1 hp with hp | hp
      · exact h.accepted p hp
      · rw [List.mem_singleton.1 hp]
        exact hc
    · rcases List.mem_append.1 hl with hl | hl
      · exact h.lines l hl
      · rw [List.mem_singleton.1 hl]
        exact h.buffer
  have ha : Affected _ (serverInline handle sok s) := affect_affected hline _
  refine ⟨ha.sound hline, ?_⟩
  rcases ha.connected with he | he
  · exact .inl (he.trans hc)
  · exact .inr he

/-- A byte of the current connection, which its line may end. -/
theorem readByte_sound (handle : List (List UInt8) → Effect) (h : Sound s) (hc : s.connected = some sok)
    (c : UInt8) :
    Sound (readByte handle sok s c) ∧
      ((readByte handle sok s c).connected = some sok ∨ (readByte handle sok s c).connected = none) := by
  unfold readByte
  split
  · exact ⟨h, .inl hc⟩
  split
  · obtain ⟨hs, he⟩ := serverInline_sound h hc
    exact ⟨⟨⟨hs.accepted, hs.lines, fun b hb => nomatch hb⟩, hs.exclusive⟩, he⟩
  split
  · exact ⟨h, .inl hc⟩
  · refine ⟨⟨⟨fun p hp => ?_, h.lines, fun b hb => ?_⟩, h.exclusive⟩, .inl hc⟩
    · rcases List.mem_append.1 hp with hp | hp
      · exact h.accepted p hp
      · rw [List.mem_singleton.1 hp]
        exact hc
    · rcases List.mem_append.1 hb with hb | hb
      · exact h.buffer b hb
      · rw [List.mem_singleton.1 hb]
        exact hc

theorem serverDisconnect_accepted (s : Serv) : (serverDisconnect s).accepted = s.accepted := by
  unfold serverDisconnect serverCleanup
  split_ifs <;> rfl

theorem serverConnect_accepted (s : Serv) : (serverConnect s).accepted = s.accepted := by
  unfold serverConnect
  dsimp only
  split
  · exact serverDisconnect_accepted s
  · rfl

theorem affect_accepted (s : Serv) (effect : Effect) : (s.affect effect).accepted = s.accepted := by
  cases effect with
  | goOn => rfl
  | disconnect => exact serverDisconnect_accepted s
  | reconnect => exact (serverConnect_accepted _).trans (serverDisconnect_accepted s)
  | reconnectLater =>
    show (autoReconnect s).accepted = s.accepted
    unfold autoReconnect
    dsimp only
    split
    · exact serverDisconnect_accepted s
    · rfl

theorem serverInline_accepted (handle : List (List UInt8) → Effect) (sok : Nat) (s : Serv) :
    (serverInline handle sok s).accepted = s.accepted ++ [(sok, s.connected)] := affect_accepted _ _

/-- What was taken stays on record. -/
theorem readByte_accepted {p : Nat × Option Nat} (hp : p ∈ s.accepted) (c : UInt8) :
    p ∈ (readByte handle sok s c).accepted := by
  unfold readByte
  split
  · exact hp
  split
  · show p ∈ (serverInline handle sok s).accepted
    rw [serverInline_accepted]
    exact List.mem_append_left _ hp
  split
  · exact hp
  · exact List.mem_append_left _ hp

theorem foldl_readByte_accepted {p : Nat × Option Nat} (hp : p ∈ s.accepted) (cs : List UInt8) :
    p ∈ (cs.foldl (readByte handle sok) s).accepted := by
  induction cs generalizing s with
  | nil => exact hp
  | cons c cs ih => exact ih (readByte_accepted hp c)

/-- Bytes of an ended connection: CR is dropped, the first other one is taken. -/
theorem foldl_readByte_dead (handle : List (List UInt8) → Effect) (sok : Nat) (hl : s.linebuf = [])
    (cs : List UInt8) :
    (∀ c ∈ cs, c = 13) ∧ cs.foldl (readByte handle sok) s = s ∨
      (¬ ∀ c ∈ cs, c = 13) ∧ (sok, s.connected) ∈ (cs.foldl (readByte handle sok) s).accepted := by
  induction cs with
  | nil => exact .inl ⟨by simp, rfl⟩
  | cons c cs ih =>
    by_cases hcr : c = 13
    · have hskip : readByte handle sok s c = s := by simp [readByte, hcr]
      rw [List.foldl_cons, hskip]
      rcases ih with ⟨hall, heq⟩ | ⟨hnot, hmem⟩
      · exact .inl ⟨List.forall_mem_cons.2 ⟨hcr, hall⟩, heq⟩
      · exact .inr ⟨fun h => hnot fun c hc => h c (List.mem_cons_of_mem _ hc), hmem⟩
    · refine .inr ⟨fun h => hcr (h c List.mem_cons_self), ?_⟩
      refine foldl_readByte_accepted ?_ cs
      unfold readByte
      rw [if_neg hcr]
      split
      · show _ ∈ (serverInline handle sok s).accepted
        rw [serverInline_accepted]
        exact List.mem_append_right _ (List.mem_singleton.2 rfl)
      · rw [if_neg (by rw [hl]; decide)]
        exact List.mem_append_right _ (List.mem_singleton.2 rfl)

/-- **The bytes of a call**: all is well exactly when nothing but CR follows the end of the connection. -/
theorem foldl_readByte_iff (handle : List (List UInt8) → Effect) (h : Sound s) (hc : s.connected = some sok)
    (cs : List UInt8) :
    (∀ c ∈ afterEnd handle sok s cs, c = 13) ∧ Sound (cs.foldl (readByte handle sok) s) ∨
      (¬ ∀ c ∈ afterEnd handle sok s cs, c = 13) ∧
        ∃ p ∈ (cs.foldl (readByte handle sok) s).accepted, p.2 ≠ some p.1 := by
  induction cs generalizing s with
  | nil => exact .inl ⟨by simp [afterEnd], h⟩
  | cons c cs ih =>
    obtain ⟨hs, he⟩ := readByte_sound handle h hc c
    rw [List.foldl_cons]
    unfold afterEnd
    by_cases hlive : (readByte handle sok s c).connected = some sok
    · rw [if_pos hlive]
      exact ih hs hlive
    · have hn : (readByte handle sok s c).connected = none := he.resolve_left hlive
      rw [if_neg hlive]
      rcases foldl_readByte_dead handle sok (hs.linebuf_nil hn) cs with ⟨hall, heq⟩ | ⟨hnot, hmem⟩
      · exact .inl ⟨hall, by rw [heq]; exact hs⟩
      · refine .inr ⟨hnot, _, hmem, ?_⟩
        rw [hn]
        exact fun hf => nomatch hf

/-- The blocks of a call are read as one. -/
theorem foldl_blocks (handle : List (List UInt8) → Effect) (sok : Nat) (s : Serv) (blocks : List (List UInt8)) :
    blocks.foldl (fun s lbuf => lbuf.foldl (readByte handle sok) s) s =
      blocks.flatten.foldl (readByte handle sok) s := by
  rw [List.foldl_flatten]

theorem serverRead_iff (h : Sound s) (blocks : List (List UInt8)) (ending : LastRecv) :
    (EndsLast handle s (.read blocks ending) → Sound (serverRead handle s blocks ending)) ∧
      (Clean (serverRead handle s blocks ending) → EndsLast handle s (.read blocks ending)) := by
  unfold EndsLast serverRead
  cases hc : s.connected with
  | none => exact ⟨fun _ => h, fun _ sok hsok => nomatch hsok⟩
  | some sok =>
    dsimp only
    rw [foldl_blocks]
    have hiff := foldl_readByte_iff handle h hc blocks.flatten
    have hkeep : ∀ t : Serv, (∃ p ∈ t.accepted, p.2 ≠ some p.1) → ¬ Clean t :=
      fun t ⟨p, hp, hne⟩ hclean => hne (hclean.accepted p hp)
    constructor
    · intro hcr
      have hs := (hiff.resolve_right fun hno => hno.1 (hcr sok rfl)).2
      cases ending with
      | wouldBlock => exact hs
      | closed next => exact (affect_affected hs next).sound hs
    · intro hclean sok' hsok
      obtain rfl : sok = sok' := Option.some.inj hsok
      by_contra hno
      obtain ⟨p, hp, hne⟩ := (hiff.resolve_left fun hyes => hno hyes.1).2
      cases ending with
      | wouldBlock => exact hkeep _ ⟨p, hp, hne⟩ hclean
      | closed next => exact hkeep _ ⟨p, by rw [affect_accepted]; exact hp, hne⟩ hclean

/-! ## Runs -/

theorem connStep_iff (h : Sound s) (e : ConnEvent) :
    (EndsLast handle s e → Sound (connStep handle s e)) ∧ (Clean (connStep handle s e) → EndsLast handle s e) := by
  cases e with
  | read blocks ending => exact serverRead_iff h blocks ending
  | connected => exact ⟨fun _ => serverConnected_sound h, fun _ => trivial⟩
  | affect effect => exact ⟨fun _ => (affect_affected h effect).sound h, fun _ => trivial⟩

/-- No byte of an ended connection is taken, in any state of a run, exactly when in every call of `server_read`
nothing but CR follows the line whose handling ended the connection. -/
theorem dead_lines_ignored_iff (handle : List (List UInt8) → Effect) (es : List ConnEvent) :
    (∀ pre, pre <+: es → Clean (pre.foldl (connStep handle) {})) ↔ Along (connStep handle) (EndsLast handle) {} es := by
  have hall : Along (connStep handle) (fun _ _ => True) {} es := .of_forall (fun _ _ _ => trivial) _
  refine Along.iff_prefixes (I := Sound) (fun _ h => h.toClean) (fun s e h _ => ?_)
    (fun s e h _ he => (connStep_iff h e).1 he) ?_ hall
  · exact ⟨(connStep_iff h e).2, fun he => ((connStep_iff h e).1 he).toClean⟩
  · refine ⟨⟨fun p hp => ?_, fun l hl => ?_, fun b hb => ?_⟩, fun hf => ?_⟩
    · cases hp
    · cases hl
    · cases hb
    · cases hf

/-- The first line asks for an upgrade to TLS; the line behind it in the same block is handled all the same, and
the start of a third waits in the buffer for the next connection. -/
theorem injected_line_handled :
    let handle : List (List UInt8) → Effect := fun lines => if lines.length = 1 then .reconnect else .goOn
    let es : List ConnEvent := [.affect .reconnect, .connected, .read [[65, 10, 66, 10, 67]] .wouldBlock]
    (⟨none, [(0, 66)]⟩ : Inlined) ∈ (es.foldl (connStep handle) {}).inlined ∧
      (es.foldl (connStep handle) {}).linebuf = [(0, 67)] ∧
      ¬ ∀ pre, pre <+: es → Clean (pre.foldl (connStep handle) {}) := by
  refine ⟨by decide, by decide, fun h => ?_⟩
  exact absurd ((h _ (List.prefix_refl _)).buffer (0, 67) (by decide)) (by decide)

end PoxChat.Inbound
