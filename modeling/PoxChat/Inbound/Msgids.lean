import Mathlib.Data.List.Count
import PoxChat.Lib.Program

/-!
# The msgid of a scrollback row

Model of the two pieces of state through which the msgid of an inbound line reaches the rows it stores:
`sess->current_msgid`, set by the message handlers of `inbound.c` and consumed by `PrintTextTimeStamp`, and the
borrowed `text_inbound_msgid` of `text.c`, which `irc_inline` sets around the dispatch of a line.

* `Emission` — what becomes of one text event: a plugin eats it, the hide-join and hide-nick settings drop it, or
  its text is empty.
* `Handler` — what the handler of a line does.  The message handlers (`inbound_chanmsg`, `inbound_action`,
  `inbound_notice`), the confirmation of an echo and `inbound_ujoin` are modelled as they are; the others set no
  `current_msgid` and are any sequence of text events and printed lines (`events`).
* A session is a number.  A session that is closed while an event is emitted is left out.

Principal results: `rows_keep_their_line`, for runs in which every message that has a msgid is printed, and
`printed_iff`: an input outside the condition stores a wrong msgid or leaves one for the next line.
-/

set_option autoImplicit false

namespace PoxChat.Inbound

open Lib

/-! ## State -/

/-- `current_msgid`: a msgid of the server, or the placeholder of a message of our own until its echo. -/
inductive Msgid where
  | server (id : String)
  | pending (label : String)
  deriving DecidableEq

/-- A row that `scrollback_save_msg` stores. -/
structure Row where
  sess : Nat
  msgid : Option Msgid
  isUserMsg : Bool
  deriving DecidableEq

structure Text where
  currentMsgid : Nat → Option Msgid := fun _ => none
  currentMsgidIsUserMsg : Nat → Bool := fun _ => false
  displayOnly : Nat → Bool := fun _ => false
  textInboundMsgid : Option String := none
  textInboundMsgidTaken : List Nat := []
  rows : List Row := []

namespace Text

def setMsgid (s : Text) (sess : Nat) (msgid : Option Msgid) (isUserMsg : Bool) : Text :=
  { s with
    currentMsgid := fun i => if i = sess then msgid else s.currentMsgid i
    currentMsgidIsUserMsg := fun i => if i = sess then isUserMsg else s.currentMsgidIsUserMsg i }

def setDisplayOnly (s : Text) (sess : Nat) (only : Bool) : Text :=
  { s with displayOnly := fun i => if i = sess then only else s.displayOnly i }

def save (s : Text) (row : Row) : Text := { s with rows := s.rows ++ [row] }

end Text

/-! ## Printing -/

/-- `PrintTextTimeStamp`. -/
def printTextTimeStamp (s : Text) (sess : Nat) : Text :=
  let s := if s.displayOnly sess then s.setDisplayOnly sess false
    else s.save ⟨sess, s.currentMsgid sess, s.currentMsgidIsUserMsg sess⟩
  s.setMsgid sess none false

/-- What becomes of a text event. -/
structure Emission where
  eaten : Bool := false
  hidden : Bool := false
  hasText : Bool := true

/-- The event prints a line. -/
def Emission.prints (e : Emission) : Bool := !e.eaten && !e.hidden && e.hasText

/-- The event may take the msgid of the line that is dispatched. -/
def borrows (s : Text) (sess : Nat) : Bool :=
  (s.currentMsgid sess).isNone && s.textInboundMsgid.any (· ≠ "") && decide (sess ∉ s.textInboundMsgidTaken)

/-- `text_emit`. -/
def textEmit (s : Text) (sess : Nat) (e : Emission) : Text :=
  if e.eaten then s
  else if e.hidden then s
  else if borrows s sess then
    let s := { s.setMsgid sess (s.textInboundMsgid.map .server) false with
      textInboundMsgidTaken := sess :: s.textInboundMsgidTaken }
    let s := if e.hasText then printTextTimeStamp s sess else s
    -- only the pointer is cleared
    s.setMsgid sess none (s.currentMsgidIsUserMsg sess)
  else if e.hasText then printTextTimeStamp s sess else s

/-! ## Handlers -/

/-- A text event, a line printed as it is, or a line that is only shown, in a session. -/
inductive Print where
  | emit (sess : Nat) (e : Emission)
  | print (sess : Nat)
  | shown (sess : Nat)

def runPrint (s : Text) : Print → Text
  | .emit sess e => textEmit s sess e
  | .print sess => printTextTimeStamp s sess
  | .shown sess => printTextTimeStamp (s.setDisplayOnly sess true) sess

/-- The message handlers: the msgid of the tags, if there is one, replaces what the session has. -/
def emitOwn (s : Text) (sess : Nat) (msgid : Option String) (e : Emission) : Text :=
  let s := match msgid with
    | some id => s.setMsgid sess (some (.server id)) true
    | none => s
  let s := textEmit s sess e
  -- the reply context is attached under the msgid, which is put back for it and cleared again
  if msgid.isSome && (s.currentMsgid sess).isNone then s.setMsgid sess none (s.currentMsgidIsUserMsg sess) else s

inductive Handler where
  | events (prints : List Print)
  /-- A message in `sess`; a flood warning may be printed before it, and the dialog opened for it. -/
  | message (warning : Option Nat) (opened : Option Emission) (sess : Nat) (e : Emission)
  /-- The echo of a message that is on display. -/
  | confirmed (sess : Option Nat)
  /-- Our own JOIN: recorded unless it is there, its banner, and the marker of a reconnect. -/
  | ownJoin (sess : Nat) (recorded : Bool) (banner : Emission) (marker : Option Emission)

/-- `text_record_event` and the banner of a JOIN, which is drawn and not stored. -/
def recordJoin (s : Text) (sess : Nat) (msgid : Option String) (banner : Emission) : Text :=
  let s := s.save ⟨sess, msgid.map .server, false⟩
  (textEmit (s.setDisplayOnly sess true) sess banner).setDisplayOnly sess false

/-- An event between `text_inbound_msgid_suspend` and `text_inbound_msgid_resume`. -/
def emitAside (s : Text) (sess : Nat) (e : Emission) : Text :=
  { textEmit { s with textInboundMsgid := none } sess e with textInboundMsgid := s.textInboundMsgid }

/-- `flood_check`: its warning is a printed line. -/
def floodCheck (s : Text) : Option Nat → Text
  | some other => printTextTimeStamp s other
  | none => s

/-- `inbound_open_dialog`, where the message opens one. -/
def inboundOpenDialog (s : Text) (sess : Nat) : Option Emission → Text
  | some o => textEmit s sess o
  | none => s

def runHandler (s : Text) (msgid : Option String) : Handler → Text
  | .events prints => prints.foldl runPrint s
  | .message warning opened sess e => emitOwn (inboundOpenDialog (floodCheck s warning) sess opened) sess msgid e
  | .confirmed none => s
  | .confirmed (some sess) => s.setMsgid sess none (s.currentMsgidIsUserMsg sess)
  | .ownJoin sess recorded banner marker =>
    let s := if recorded then s else recordJoin s sess msgid banner
    match marker with
    | some e => emitAside s sess e
    | none => s

/-- `text_inbound_msgid_begin`. -/
def textInboundMsgidBegin (s : Text) (msgid : Option String) : Text :=
  { s with textInboundMsgid := msgid, textInboundMsgidTaken := [] }

/-- `text_inbound_msgid_end`. -/
def textInboundMsgidEnd (s : Text) : Text := { s with textInboundMsgid := none, textInboundMsgidTaken := [] }

/-! ## Runs -/

inductive Input where
  /-- A line with a source, and what its handler does; nothing where a plugin eats the line. -/
  | line (msgid : Option String) (handler : Handler)
  /-- A line without a source: its msgid is not looked at. -/
  | bare (prints : List Print)
  /-- Lines printed by the client, with no line dispatched. -/
  | printed (prints : List Print)
  /-- A message of our own, with a placeholder where its echo is awaited. -/
  | said (sess : Nat) (label : Option String) (e : Emission)

def stepText (s : Text) : Input → Text
  | .line msgid handler => textInboundMsgidEnd (runHandler (textInboundMsgidBegin s msgid) msgid handler)
  | .bare prints => textInboundMsgidEnd (prints.foldl runPrint s)
  | .printed prints => prints.foldl runPrint s
  | .said sess label e =>
    let s := match label with
      | some l => s.setMsgid sess (some (.pending l)) (s.currentMsgidIsUserMsg sess)
      | none => s
    emitOwn s sess none e

/-- The rows an input stores. -/
def addedRows (s : Text) (i : Input) : List Row := (stepText s i).rows.drop s.rows.length

/-- The rows of a session that carry a msgid. -/
def carrying (rows : List Row) (sess : Nat) : Nat := rows.countP fun r => r.sess = sess ∧ r.msgid.isSome

/-- A row stored while a line is dispatched has no msgid or the line's, which at most one row of a session has; a
row stored for a local line has no msgid of the server. -/
def RowsOwn (s : Text) (i : Input) : Prop :=
  match i with
  | .line msgid _ =>
    (∀ r ∈ addedRows s i, r.msgid = none ∨ r.msgid = msgid.map .server) ∧
      ∀ sess, carrying (addedRows s i) sess ≤ 1
  | .bare _ => ∀ r ∈ addedRows s i, r.msgid = none
  | .printed _ => ∀ r ∈ addedRows s i, ∀ id, r.msgid ≠ some (.server id)
  | .said _ _ _ => ∀ r ∈ addedRows s i, ∀ id, r.msgid ≠ some (.server id)

/-- A message with a msgid, or with a placeholder, is printed, and the event that opens its dialog is not. -/
def Input.Printed : Input → Prop
  | .line msgid (.message _ opened _ e) =>
    ∀ id ∈ msgid, e.prints = true ∧ (id ≠ "" → ∀ o ∈ opened, o.prints = false)
  | .said _ label e => label.isSome = true → e.prints = true
  | _ => True

instance (i : Input) : Decidable i.Printed :=
  match i with
  | .line msgid (.message _ opened _ _) =>
    inferInstanceAs (Decidable (∀ id ∈ msgid, _ ∧ (id ≠ "" → ∀ o ∈ opened, _)))
  | .line _ (.events _) => .isTrue trivial
  | .line _ (.confirmed _) => .isTrue trivial
  | .line _ (.ownJoin _ _ _ _) => .isTrue trivial
  | .bare _ => .isTrue trivial
  | .printed _ => .isTrue trivial
  | .said _ _ _ => inferInstanceAs (Decidable (_ → _))

/-! ## Printing in a silent state -/

/-- No session has a msgid, or a line that is only shown, left over. -/
structure Text.Silent (s : Text) : Prop where
  noMsgid : ∀ sess, s.currentMsgid sess = none
  stored : ∀ sess, s.displayOnly sess = false

variable {s s' : Text} {sess : Nat} {e : Emission}

theorem Text.Silent.congr (h : s.Silent) (hm : s'.currentMsgid = s.currentMsgid)
    (hd : s'.displayOnly = s.displayOnly) : s'.Silent :=
  ⟨fun i => by rw [hm]; exact h.noMsgid i, fun i => by rw [hd]; exact h.stored i⟩

theorem Text.Silent.setMsgid_none (h : s.Silent) (u : Bool) : (s.setMsgid sess none u).Silent := by
  refine ⟨fun i => ?_, h.stored⟩
  simp [Text.setMsgid, h.noMsgid]

/-- What printing in `sess` does: nothing, a row without a msgid, or the session's row with the line's. -/
structure Prints (sess : Nat) (s s' : Text) : Prop where
  silent : s'.Silent
  inbound : s'.textInboundMsgid = s.textInboundMsgid
  rows : (s'.rows = s.rows ∧ s.textInboundMsgidTaken ⊆ s'.textInboundMsgidTaken) ∨
    (∃ u, s'.rows = s.rows ++ [⟨sess, none, u⟩] ∧ s'.textInboundMsgidTaken = s.textInboundMsgidTaken) ∨
    (borrows s sess = true ∧ s'.textInboundMsgidTaken = sess :: s.textInboundMsgidTaken ∧
      s'.rows = s.rows ++ [⟨sess, s.textInboundMsgid.map .server, false⟩])

theorem Prints.refl (h : s.Silent) : Prints sess s s := ⟨h, rfl, .inl ⟨rfl, fun _ => id⟩⟩

theorem printTextTimeStamp_prints (h : s.Silent) : Prints sess s (printTextTimeStamp s sess) := by
  have hd : s.displayOnly sess = false := h.stored sess
  have hm : s.currentMsgid sess = none := h.noMsgid sess
  refine ⟨⟨fun i => ?_, fun i => ?_⟩, ?_, .inr (.inl ⟨s.currentMsgidIsUserMsg sess, ?_, ?_⟩)⟩
  · by_cases hi : i = sess
    · simp [printTextTimeStamp, Text.setMsgid, hi]
    · simp [printTextTimeStamp, Text.setMsgid, Text.save, hi, hd, h.noMsgid i]
  all_goals simp [printTextTimeStamp, Text.setMsgid, Text.save, hd, hm, h.stored]

theorem printTextTimeStamp_shown (h : s.Silent) :
    Prints sess s (printTextTimeStamp (s.setDisplayOnly sess true) sess) := by
  refine ⟨⟨fun i => ?_, fun i => ?_⟩, ?_, .inl ⟨?_, ?_⟩⟩
  · simp [printTextTimeStamp, Text.setMsgid, Text.setDisplayOnly, h.noMsgid]
  · simp [printTextTimeStamp, Text.setMsgid, Text.setDisplayOnly, h.stored]
  all_goals simp [printTextTimeStamp, Text.setMsgid, Text.setDisplayOnly]

theorem borrows_iff (h : s.Silent) :
    borrows s sess = true ↔ (∃ id, s.textInboundMsgid = some id ∧ id ≠ "") ∧ sess ∉ s.textInboundMsgidTaken := by
  cases hi : s.textInboundMsgid <;> simp [borrows, h.noMsgid sess, hi]

theorem textEmit_borrowed (h : s.Silent) (he : e.eaten = false) (hh : e.hidden = false)
    (hb : borrows s sess = true) : Prints sess s (textEmit s sess e) := by
  have hd : s.displayOnly sess = false := h.stored sess
  have hm : ∀ i, (textEmit s sess e).currentMsgid i = none := by
    intro i
    by_cases hi : i = sess
    · simp [textEmit, he, hh, hb, Text.setMsgid, hi]
    · cases ht : e.hasText <;>
        simp [textEmit, he, hh, hb, ht, printTextTimeStamp, Text.setMsgid, Text.save, hd, hi, h.noMsgid i]
  cases ht : e.hasText with
  | false =>
    refine ⟨⟨hm, ?_⟩, ?_, .inl ⟨?_, ?_⟩⟩
    all_goals simp [textEmit, he, hh, hb, ht, Text.setMsgid, h.stored]
  | true =>
    refine ⟨⟨hm, ?_⟩, ?_, .inr (.inr ⟨hb, ?_, ?_⟩)⟩
    all_goals simp [textEmit, he, hh, hb, ht, printTextTimeStamp, Text.setMsgid, Text.save, hd, h.stored]

theorem textEmit_prints (h : s.Silent) : Prints sess s (textEmit s sess e) := by
  cases he : e.eaten with
  | true => simpa [textEmit, he] using Prints.refl h
  | false =>
    cases hh : e.hidden with
    | true => simpa [textEmit, he, hh] using Prints.refl h
    | false =>
      by_cases hb : borrows s sess = true
      · exact textEmit_borrowed h he hh hb
      · cases ht : e.hasText with
        | false => simpa [textEmit, he, hh, hb, ht] using Prints.refl h
        | true => simpa [textEmit, he, hh, hb, ht] using printTextTimeStamp_prints h

theorem runPrint_prints (h : s.Silent) (p : Print) : ∃ sess, Prints sess s (runPrint s p) := by
  cases p with
  | emit sess e => exact ⟨sess, textEmit_prints h⟩
  | print sess => exact ⟨sess, printTextTimeStamp_prints h⟩
  | shown sess => exact ⟨sess, printTextTimeStamp_shown h⟩

/-- An event that does not print stores nothing. -/
theorem textEmit_rows_of_not_prints (he : e.prints = false) : (textEmit s sess e).rows = s.rows := by
  unfold Emission.prints at he
  unfold textEmit
  split_ifs <;> simp_all [Text.setMsgid]

/-- A message that prints stores its msgid and leaves nothing behind. -/
theorem textEmit_own (h : s.Silent) (sess : Nat) (m : Msgid) (u : Bool) (he : e.prints = true) :
    (textEmit (s.setMsgid sess (some m) u) sess e).Silent ∧
      (textEmit (s.setMsgid sess (some m) u) sess e).textInboundMsgid = s.textInboundMsgid ∧
      (textEmit (s.setMsgid sess (some m) u) sess e).rows = s.rows ++ [⟨sess, some m, u⟩] := by
  obtain ⟨⟨hea, hhi⟩, ht⟩ : (e.eaten = false ∧ e.hidden = false) ∧ e.hasText = true := by
    simpa [Emission.prints] using he
  have hd : s.displayOnly sess = false := h.stored sess
  have hb : borrows (s.setMsgid sess (some m) u) sess = false := by simp [borrows, Text.setMsgid]
  have heq : textEmit (s.setMsgid sess (some m) u) sess e =
      printTextTimeStamp (s.setMsgid sess (some m) u) sess := by
    simp [textEmit, hea, hhi, ht, hb]
  rw [heq]
  refine ⟨⟨fun i => ?_, fun i => ?_⟩, ?_, ?_⟩
  · by_cases hi : i = sess <;>
      simp [printTextTimeStamp, Text.setMsgid, Text.save, hd, hi, h.noMsgid i]
  all_goals simp [printTextTimeStamp, Text.setMsgid, Text.save, hd, h.stored]

/-- An event whose line is only shown stores nothing. -/
theorem textEmit_shown (h : s.Silent) :
    ((textEmit (s.setDisplayOnly sess true) sess e).setDisplayOnly sess false).Silent ∧
      (textEmit (s.setDisplayOnly sess true) sess e).textInboundMsgid = s.textInboundMsgid ∧
      (textEmit (s.setDisplayOnly sess true) sess e).rows = s.rows := by
  refine ⟨⟨fun i => ?_, fun i => ?_⟩, ?_, ?_⟩
  · unfold textEmit
    split_ifs <;> by_cases hi : i = sess <;>
      simp [printTextTimeStamp, Text.setMsgid, Text.setDisplayOnly, h.noMsgid, hi]
  · unfold textEmit
    split_ifs <;> by_cases hi : i = sess <;>
      simp [printTextTimeStamp, Text.setMsgid, Text.setDisplayOnly, h.stored, hi]
  · unfold textEmit
    split_ifs <;> simp [printTextTimeStamp, Text.setMsgid, Text.setDisplayOnly]
  · unfold textEmit
    split_ifs <;> simp [printTextTimeStamp, Text.setMsgid, Text.setDisplayOnly]

/-! ## The rows of one dispatch -/

/-- Rows that have no msgid or `id`, which at most one row of a session has. -/
structure OwnRows (id : Option Msgid) (added : List Row) : Prop where
  own : ∀ r ∈ added, r.msgid = none ∨ r.msgid = id
  once : ∀ sess, carrying added sess ≤ 1

variable {id : Option Msgid} {added base : List Row} {msgid : Option String}

theorem carrying_append (added : List Row) (r : Row) (sess : Nat) :
    carrying (added ++ [r]) sess = carrying added sess + if r.sess = sess ∧ r.msgid.isSome then 1 else 0 := by
  simp [carrying, List.countP_append, List.countP_singleton]

theorem carrying_eq_zero (h : ∀ r ∈ added, r.sess = sess → r.msgid = none) : carrying added sess = 0 := by
  unfold carrying
  rw [List.countP_eq_zero]
  intro r hr hc
  have hc := of_decide_eq_true hc
  rw [h r hr hc.1] at hc
  exact absurd hc.2 (by decide)

theorem OwnRows.nil : OwnRows id [] := ⟨by simp, by simp [carrying]⟩

theorem OwnRows.plain (h : OwnRows id added) (u : Bool) : OwnRows id (added ++ [⟨sess, none, u⟩]) := by
  constructor
  · intro r hr
    rcases List.mem_append.1 hr with hr | hr
    · exact h.own r hr
    · exact .inl (by rw [List.mem_singleton.1 hr])
  · intro i
    rw [carrying_append]
    simpa using h.once i

theorem OwnRows.carry (h : OwnRows id added) (hfree : ∀ r ∈ added, r.sess = sess → r.msgid = none) (u : Bool) :
    OwnRows id (added ++ [⟨sess, id, u⟩]) := by
  constructor
  · intro r hr
    rcases List.mem_append.1 hr with hr | hr
    · exact h.own r hr
    · exact .inr (by rw [List.mem_singleton.1 hr])
  · intro i
    rw [carrying_append]
    by_cases hi : sess = i
    · subst hi
      rw [carrying_eq_zero hfree]
      split <;> omega
    · simpa [hi] using h.once i

/-- The state while a line is dispatched: its rows so far, and a session that has its msgid is marked. -/
structure Dispatching (msgid : Option String) (base : List Row) (s : Text) (added : List Row) : Prop where
  silent : s.Silent
  inbound : s.textInboundMsgid = msgid
  rows : s.rows = base ++ added
  ownRows : OwnRows (msgid.map .server) added
  taken : ∀ r ∈ added, r.msgid ≠ none → r.sess ∈ s.textInboundMsgidTaken

theorem Dispatching.prints (h : Dispatching msgid base s added) (hp : Prints sess s s') :
    ∃ added', Dispatching msgid base s' added' := by
  have hin : s'.textInboundMsgid = msgid := hp.inbound.trans h.inbound
  obtain ⟨hr, ht⟩ | ⟨u, hr, ht⟩ | ⟨hb, ht, hr⟩ := hp.rows
  · refine ⟨added, hp.silent, hin, hr.trans h.rows, h.ownRows, fun r hm hn => ?_⟩
    exact ht (h.taken r hm hn)
  · refine ⟨added ++ [⟨sess, none, u⟩], hp.silent, hin, ?_, h.ownRows.plain u, fun r hm hn => ?_⟩
    · rw [hr, h.rows, List.append_assoc]
    · rw [ht]
      rcases List.mem_append.1 hm with hm | hm
      · exact h.taken r hm hn
      · exact absurd (by rw [List.mem_singleton.1 hm]) hn
  · rw [h.inbound] at hr
    -- a session that has a row with the msgid is marked, and does not borrow it again
    have hfree : ∀ r ∈ added, r.sess = sess → r.msgid = none := by
      intro r hm hs
      by_contra hn
      exact ((borrows_iff h.silent).1 hb).2 (hs ▸ h.taken r hm hn)
    refine ⟨added ++ [⟨sess, msgid.map .server, false⟩], hp.silent, hin, ?_, h.ownRows.carry hfree false,
      fun r hm hn => ?_⟩
    · rw [hr, h.rows, List.append_assoc]
    · rw [ht]
      rcases List.mem_append.1 hm with hm | hm
      · exact List.mem_cons_of_mem _ (h.taken r hm hn)
      · rw [List.mem_singleton.1 hm]
        exact List.mem_cons_self

/-- Any sequence of text events and printed lines keeps to it. -/
theorem Dispatching.foldl (prints : List Print) (h : Dispatching msgid base s added) :
    ∃ added', Dispatching msgid base (prints.foldl runPrint s) added' := by
  induction prints generalizing s added with
  | nil => exact ⟨added, h⟩
  | cons p prints ih =>
    obtain ⟨sess, hp⟩ := runPrint_prints h.silent p
    obtain ⟨added', h'⟩ := h.prints hp
    exact ih h'

/-! ## Handlers in a silent state -/

/-- What a handler leaves of a line whose rows may have `id`. -/
structure Leaves (id : Option Msgid) (s s' : Text) : Prop where
  silent : s'.Silent
  inbound : s'.textInboundMsgid = s.textInboundMsgid
  rows : ∃ added, s'.rows = s.rows ++ added ∧ OwnRows id added

/-- A handler that stores rows without a msgid only. -/
structure Plain (s s' : Text) : Prop where
  silent : s'.Silent
  inbound : s'.textInboundMsgid = s.textInboundMsgid
  rows : ∃ added, s'.rows = s.rows ++ added ∧ ∀ r ∈ added, r.msgid = none

theorem Plain.refl (h : s.Silent) : Plain s s := ⟨h, rfl, [], by simp, by simp⟩

theorem Plain.trans {s'' : Text} (h : Plain s s') (h' : Plain s' s'') : Plain s s'' := by
  obtain ⟨added, hr, hn⟩ := h.rows
  obtain ⟨added', hr', hn'⟩ := h'.rows
  refine ⟨h'.silent, h'.inbound.trans h.inbound, added ++ added', by rw [hr', hr, List.append_assoc], ?_⟩
  intro r hm
  rcases List.mem_append.1 hm with hm | hm
  · exact hn r hm
  · exact hn' r hm

theorem OwnRows.of_plain (h : ∀ r ∈ added, r.msgid = none) : OwnRows id added := by
  refine ⟨fun r hr => .inl (h r hr), fun i => ?_⟩
  rw [carrying_eq_zero fun r hr _ => h r hr]
  omega

theorem Plain.leaves (h : Plain s s') : Leaves id s s' := by
  obtain ⟨added, hr, hn⟩ := h.rows
  exact ⟨h.silent, h.inbound, added, hr, .of_plain hn⟩

/-- Rows without a msgid before the row that has it. -/
theorem Plain.carry {s'' : Text} {u : Bool} (h : Plain s s') (hs : s''.Silent)
    (hin : s''.textInboundMsgid = s'.textInboundMsgid) (hr : s''.rows = s'.rows ++ [⟨sess, id, u⟩]) :
    Leaves id s s'' := by
  obtain ⟨added, hadd, hn⟩ := h.rows
  refine ⟨hs, hin.trans h.inbound, added ++ [⟨sess, id, u⟩], by rw [hr, hadd, List.append_assoc], ?_⟩
  exact (OwnRows.of_plain hn).carry (fun r hm _ => hn r hm) u

/-- Rows without a msgid after the others. -/
theorem Leaves.plain {s'' : Text} (h : Leaves id s s') (h' : Plain s' s'') : Leaves id s s'' := by
  obtain ⟨added, hr, hown⟩ := h.rows
  obtain ⟨added', hr', hn⟩ := h'.rows
  refine ⟨h'.silent, h'.inbound.trans h.inbound, added ++ added', by rw [hr', hr, List.append_assoc], ?_, ?_⟩
  · intro r hm
    rcases List.mem_append.1 hm with hm | hm
    · exact hown.own r hm
    · exact .inl (hn r hm)
  · intro i
    have hz : carrying added' i = 0 := carrying_eq_zero fun r hm _ => hn r hm
    have hsum : carrying (added ++ added') i = carrying added i + carrying added' i := by
      simp [carrying, List.countP_append]
    have := hown.once i
    omega

theorem Prints.plain (hp : Prints sess s s') (hb : borrows s sess = true → s'.rows = s.rows) : Plain s s' := by
  obtain ⟨hr, -⟩ | ⟨u, hr, -⟩ | ⟨hbo, -, -⟩ := hp.rows
  · exact ⟨hp.silent, hp.inbound, [], by simpa using hr, by simp⟩
  · exact ⟨hp.silent, hp.inbound, _, hr, by simp⟩
  · exact ⟨hp.silent, hp.inbound, [], by simpa using hb hbo, by simp⟩

theorem printTextTimeStamp_plain (h : s.Silent) : Plain s (printTextTimeStamp s sess) := by
  have hp : Prints sess s (printTextTimeStamp s sess) := printTextTimeStamp_prints h
  refine ⟨hp.silent, hp.inbound, [⟨sess, none, s.currentMsgidIsUserMsg sess⟩], ?_, by simp⟩
  simp [printTextTimeStamp, Text.setMsgid, Text.save, h.stored sess, h.noMsgid sess]

theorem textEmit_plain (h : s.Silent) (hin : s.textInboundMsgid = none) : Plain s (textEmit s sess e) := by
  refine (textEmit_prints h).plain fun hb => ?_
  obtain ⟨⟨id, hid, -⟩, -⟩ := (borrows_iff h).1 hb
  rw [hin] at hid
  cases hid

theorem emitOwn_printed (h : s.Silent) (sess : Nat) (id : String) (he : e.prints = true) :
    (emitOwn s sess (some id) e).Silent ∧
      (emitOwn s sess (some id) e).textInboundMsgid = s.textInboundMsgid ∧
      (emitOwn s sess (some id) e).rows = s.rows ++ [⟨sess, some (.server id), true⟩] := by
  obtain ⟨hs, hin, hr⟩ := textEmit_own h sess (.server id) true he
  have heq : emitOwn s sess (some id) e =
      (textEmit (s.setMsgid sess (some (.server id)) true) sess e).setMsgid sess none
        ((textEmit (s.setMsgid sess (some (.server id)) true) sess e).currentMsgidIsUserMsg sess) := by
    simp [emitOwn, hs.noMsgid sess]
  rw [heq]
  exact ⟨hs.setMsgid_none _, hin, hr⟩

theorem emitOwn_leaves {s₀ : Text} (h : Plain s₀ s) (hin : s₀.textInboundMsgid = msgid)
    (he : ∀ id ∈ msgid, e.prints = true) : Leaves (msgid.map .server) s₀ (emitOwn s sess msgid e) := by
  cases msgid with
  | none =>
    have hp : Plain s (textEmit s sess e) := textEmit_plain h.silent (h.inbound.trans hin)
    simpa [emitOwn] using (h.trans hp).leaves
  | some id =>
    obtain ⟨hs, hi, hr⟩ := emitOwn_printed h.silent sess id (he id rfl)
    exact h.carry hs hi hr

theorem floodCheck_plain (h : s.Silent) (warning : Option Nat) : Plain s (floodCheck s warning) := by
  cases warning with
  | none => exact .refl h
  | some other => exact printTextTimeStamp_plain h

theorem inboundOpenDialog_silent (h : s.Silent) (sess : Nat) (opened : Option Emission) :
    (inboundOpenDialog s sess opened).Silent := by
  cases opened with
  | none => exact h
  | some o =>
    have hp : Prints sess s (textEmit s sess o) := textEmit_prints h
    exact hp.silent

/-- The event that opens a dialog stores no msgid where it does not print under one. -/
theorem inboundOpenDialog_plain (h : s.Silent) (opened : Option Emission)
    (ho : ∀ id ∈ s.textInboundMsgid, id ≠ "" → ∀ o ∈ opened, o.prints = false) :
    Plain s (inboundOpenDialog s sess opened) := by
  cases opened with
  | none => exact .refl h
  | some o =>
    refine (textEmit_prints h).plain fun hb => textEmit_rows_of_not_prints ?_
    obtain ⟨⟨id, hid, hne⟩, -⟩ := (borrows_iff h).1 hb
    exact ho id hid hne o rfl

theorem recordJoin_leaves (h : s.Silent) (banner : Emission) :
    Leaves (msgid.map .server) s (recordJoin s sess msgid banner) := by
  have hsave : (s.save ⟨sess, msgid.map .server, false⟩).Silent := h.congr rfl rfl
  obtain ⟨hs, hin, hr⟩ := textEmit_shown hsave
  exact (Plain.refl h).carry hs hin hr

theorem emitAside_plain (h : s.Silent) : Plain s (emitAside s sess e) := by
  have hs : ({ s with textInboundMsgid := none } : Text).Silent := h.congr rfl rfl
  have hp : Plain { s with textInboundMsgid := none } (textEmit { s with textInboundMsgid := none } sess e) :=
    textEmit_plain hs rfl
  exact ⟨hp.silent.congr rfl rfl, rfl, hp.rows⟩

theorem ownJoin_leaves (h : s.Silent) (recorded : Bool) (banner : Emission) (marker : Option Emission) :
    Leaves (msgid.map .server) s (runHandler s msgid (.ownJoin sess recorded banner marker)) := by
  have hrec : Leaves (msgid.map .server) s (if recorded then s else recordJoin s sess msgid banner) := by
    cases recorded with
    | true => exact (Plain.refl h).leaves
    | false => exact recordJoin_leaves h banner
  cases marker with
  | none => exact hrec
  | some e => exact hrec.plain (emitAside_plain hrec.silent)

theorem message_leaves (h : s.Silent) (hin : s.textInboundMsgid = msgid) (warning : Option Nat)
    (opened : Option Emission) (hp : (Input.line msgid (.message warning opened sess e)).Printed) :
    Leaves (msgid.map .server) s (runHandler s msgid (.message warning opened sess e)) := by
  have hp : ∀ id ∈ msgid, e.prints = true ∧ (id ≠ "" → ∀ o ∈ opened, o.prints = false) := hp
  have hwarned : Plain s (floodCheck s warning) := floodCheck_plain h warning
  have hopened : Plain (floodCheck s warning) (inboundOpenDialog (floodCheck s warning) sess opened) := by
    refine inboundOpenDialog_plain hwarned.silent opened fun id hid => ?_
    rw [hwarned.inbound, hin] at hid
    exact (hp id hid).2
  exact emitOwn_leaves (hwarned.trans hopened) hin fun id hid => (hp id hid).1

/-- **A line**: whatever its handler is, its rows have no msgid or the line's, and nothing is left over. -/
theorem runHandler_leaves (h : s.Silent) (hin : s.textInboundMsgid = msgid) (handler : Handler)
    (hp : (Input.line msgid handler).Printed) :
    Leaves (msgid.map .server) s (runHandler s msgid handler) := by
  cases handler with
  | events prints =>
    have hstart : Dispatching msgid s.rows s [] := ⟨h, hin, by simp, .nil, by simp⟩
    obtain ⟨added, hd⟩ := hstart.foldl prints
    exact ⟨hd.silent, hd.inbound.trans hin.symm, added, hd.rows, hd.ownRows⟩
  | message warning opened sess e => exact message_leaves h hin warning opened hp
  | confirmed sess =>
    cases sess with
    | none => exact (Plain.refl h).leaves
    | some sess => exact Plain.leaves ⟨h.setMsgid_none _, rfl, [], by simp [runHandler, Text.setMsgid], by simp⟩
  | ownJoin sess recorded banner marker => exact ownJoin_leaves h recorded banner marker

/-- Local lines: their rows have no msgid. -/
theorem foldl_runPrint_plain (h : s.Silent) (hin : s.textInboundMsgid = none) (prints : List Print) :
    Plain s (prints.foldl runPrint s) := by
  have hstart : Dispatching none s.rows s [] := ⟨h, hin, by simp, .nil, by simp⟩
  obtain ⟨added, hd⟩ := hstart.foldl prints
  refine ⟨hd.silent, hd.inbound.trans hin.symm, added, hd.rows, fun r hr => ?_⟩
  rcases hd.ownRows.own r hr with hn | hn
  · exact hn
  · exact hn

/-- A message of our own: its row has its placeholder, where there is one. -/
theorem said_rows (h : s.Silent) (hin : s.textInboundMsgid = none) (label : Option String)
    (hp : (Input.said sess label e).Printed) :
    Leaves (label.map .pending) s (stepText s (.said sess label e)) := by
  have hp : label.isSome = true → e.prints = true := hp
  cases label with
  | none =>
    have hplain : Plain s (textEmit s sess e) := textEmit_plain h hin
    exact hplain.leaves
  | some l =>
    obtain ⟨hs, hi, hr⟩ := textEmit_own h sess (.pending l) (s.currentMsgidIsUserMsg sess) (hp rfl)
    exact (Plain.refl h).carry hs hi hr

/-! ## Runs -/

/-- Between two inputs: nothing is left over and no line is dispatched. -/
structure Text.Quiet (s : Text) : Prop where
  silent : s.Silent
  inbound : s.textInboundMsgid = none

theorem addedRows_eq {i : Input} (h : (stepText s i).rows = s.rows ++ added) : addedRows s i = added := by
  rw [addedRows, h, List.drop_left]

theorem stepText_line (h : s.Quiet) {handler : Handler} (hp : (Input.line msgid handler).Printed) :
    (stepText s (.line msgid handler)).Quiet ∧ RowsOwn s (.line msgid handler) := by
  have hs : (textInboundMsgidBegin s msgid).Silent := h.silent.congr rfl rfl
  have hl := runHandler_leaves hs rfl handler hp
  obtain ⟨added, hr, hown⟩ := hl.rows
  have hadd : addedRows s (.line msgid handler) = added := addedRows_eq hr
  refine ⟨⟨hl.silent.congr rfl rfl, rfl⟩, ?_, ?_⟩
  · rw [hadd]
    exact hown.own
  · rw [hadd]
    exact hown.once

theorem stepText_quiet (h : s.Quiet) {i : Input} (hp : i.Printed) : (stepText s i).Quiet ∧ RowsOwn s i := by
  cases i with
  | line msgid handler => exact stepText_line h hp
  | bare prints =>
    have hl := foldl_runPrint_plain h.silent h.inbound prints
    obtain ⟨added, hr, hn⟩ := hl.rows
    have hadd : addedRows s (.bare prints) = added := addedRows_eq hr
    refine ⟨⟨hl.silent.congr rfl rfl, rfl⟩, fun r hm => ?_⟩
    exact hn r (hadd ▸ hm)
  | printed prints =>
    have hl := foldl_runPrint_plain h.silent h.inbound prints
    obtain ⟨added, hr, hn⟩ := hl.rows
    have hadd : addedRows s (.printed prints) = added := addedRows_eq hr
    refine ⟨⟨hl.silent, hl.inbound.trans h.inbound⟩, fun r hm id hid => ?_⟩
    rw [hn r (hadd ▸ hm)] at hid
    cases hid
  | said sess label e =>
    have hl := said_rows h.silent h.inbound label hp
    obtain ⟨added, hr, hown⟩ := hl.rows
    have hadd : addedRows s (.said sess label e) = added := addedRows_eq hr
    refine ⟨⟨hl.silent, hl.inbound.trans h.inbound⟩, fun r hm id hid => ?_⟩
    rcases hown.own r (hadd ▸ hm) with hn | hn
    · rw [hn] at hid
      cases hid
    · rw [hn] at hid
      cases label <;> cases hid

/-- A line without a msgid that prints in `sess`. -/
def nextLine (sess : Nat) : Input := .line none (.events [.print sess])

/-- A msgid that is left over goes to the next line. -/
theorem nextLine_leaks {m : Msgid} (hm : s.currentMsgid sess = some m) (hd : s.displayOnly sess = false) :
    ¬ RowsOwn s (nextLine sess) := by
  intro h
  have hrow : (⟨sess, some m, s.currentMsgidIsUserMsg sess⟩ : Row) ∈ addedRows s (nextLine sess) := by
    simp [addedRows, nextLine, stepText, runHandler, runPrint, printTextTimeStamp, textInboundMsgidBegin,
      textInboundMsgidEnd, Text.setMsgid, Text.save, hm, hd]
  rcases h.1 _ hrow with hn | hn <;> cases hn

/-- An event that does not print leaves the msgid that was set for it. -/
theorem textEmit_swallowed {m : Msgid} (hm : s.currentMsgid sess = some m) (he : e.prints = false) :
    textEmit s sess e = s := by
  have hb : borrows s sess = false := by simp [borrows, hm]
  unfold Emission.prints at he
  unfold textEmit
  split_ifs <;> simp_all

theorem emitOwn_swallowed {id : String} (he : e.prints = false) :
    (emitOwn s sess (some id) e).currentMsgid sess = some (.server id) ∧
      (emitOwn s sess (some id) e).displayOnly = s.displayOnly := by
  have hm : (s.setMsgid sess (some (.server id)) true).currentMsgid sess = some (.server id) := by
    simp [Text.setMsgid]
  have heq : emitOwn s sess (some id) e = s.setMsgid sess (some (.server id)) true := by
    simp [emitOwn, textEmit_swallowed hm he, hm]
  rw [heq]
  exact ⟨hm, rfl⟩

theorem textEmit_borrowed_rows (h : s.Silent) (hb : borrows s sess = true) (he : e.prints = true) :
    (textEmit s sess e).rows = s.rows ++ [⟨sess, s.textInboundMsgid.map .server, false⟩] := by
  obtain ⟨⟨hea, hhi⟩, ht⟩ : (e.eaten = false ∧ e.hidden = false) ∧ e.hasText = true := by
    simpa [Emission.prints] using he
  simp [textEmit, hea, hhi, ht, hb, printTextTimeStamp, Text.setMsgid, Text.save, h.stored sess]

theorem floodCheck_taken (s : Text) (warning : Option Nat) :
    (floodCheck s warning).textInboundMsgidTaken = s.textInboundMsgidTaken := by
  cases warning with
  | none => rfl
  | some other =>
    unfold floodCheck printTextTimeStamp
    dsimp only
    split_ifs <;> rfl

/-- A printed event of the dialog and the printed message both store the msgid. -/
theorem opened_twice (h : s.Quiet) {id : String} (hne : id ≠ "") (warning : Option Nat) {o : Emission}
    (ho : o.prints = true) (he : e.prints = true) :
    ¬ RowsOwn s (.line (some id) (.message warning (some o) sess e)) := by
  have hs : (textInboundMsgidBegin s (some id)).Silent := h.silent.congr rfl rfl
  have hw := floodCheck_plain hs warning
  have ht := floodCheck_taken (textInboundMsgidBegin s (some id)) warning
  obtain ⟨added, hr, -⟩ := hw.rows
  have hb : borrows (floodCheck (textInboundMsgidBegin s (some id)) warning) sess = true := by
    refine (borrows_iff hw.silent).2 ⟨⟨id, hw.inbound, hne⟩, ?_⟩
    rw [ht]
    exact List.not_mem_nil
  have hopened := textEmit_borrowed_rows hw.silent hb ho
  have hsilent := inboundOpenDialog_silent hw.silent sess (some o)
  obtain ⟨-, -, hown⟩ := emitOwn_printed hsilent sess id he
  have hadd : addedRows s (.line (some id) (.message warning (some o) sess e)) =
      added ++ [⟨sess, some (.server id), false⟩] ++ [⟨sess, some (.server id), true⟩] := by
    refine addedRows_eq ?_
    show (emitOwn _ sess (some id) e).rows = _
    rw [hown]
    show (textEmit _ sess o).rows ++ _ = _
    rw [hopened, hr, hw.inbound]
    simp [textInboundMsgidBegin]
  intro hrows
  have honce := hrows.2 sess
  rw [hadd, carrying_append, carrying_append] at honce
  simp at honce

theorem swallowed_leaks (h : s.Quiet) {id : String} (warning : Option Nat) (opened : Option Emission)
    (he : e.prints = false) :
    ¬ RowsOwn (stepText s (.line (some id) (.message warning opened sess e))) (nextLine sess) := by
  have hs : (textInboundMsgidBegin s (some id)).Silent := h.silent.congr rfl rfl
  have hsilent := inboundOpenDialog_silent (floodCheck_plain hs warning).silent sess opened
  obtain ⟨hm, hd⟩ := emitOwn_swallowed he
  refine nextLine_leaks hm ?_
  exact (congrFun hd sess).trans (hsilent.stored sess)

theorem said_swallowed_leaks (h : s.Quiet) {l : String} (he : e.prints = false) :
    ¬ RowsOwn (stepText s (.said sess (some l) e)) (nextLine sess) := by
  have hm : (s.setMsgid sess (some (.pending l)) (s.currentMsgidIsUserMsg sess)).currentMsgid sess =
      some (.pending l) := by simp [Text.setMsgid]
  have heq : stepText s (.said sess (some l) e) =
      s.setMsgid sess (some (.pending l)) (s.currentMsgidIsUserMsg sess) := textEmit_swallowed hm he
  rw [heq]
  exact nextLine_leaks hm (h.silent.stored sess)

/-- **Exactness**: an input meets the condition exactly when it stores its own msgid only and leaves none for the
next line. -/
theorem printed_iff (h : s.Quiet) (i : Input) :
    i.Printed ↔ RowsOwn s i ∧ ∀ sess, RowsOwn (stepText s i) (nextLine sess) := by
  constructor
  · intro hp
    obtain ⟨hquiet, hrows⟩ := stepText_quiet h hp
    refine ⟨hrows, fun sess => ?_⟩
    have hnext : (nextLine sess).Printed := trivial
    exact (stepText_quiet hquiet hnext).2
  · rintro ⟨hrows, hnext⟩
    cases i with
    | bare prints => trivial
    | printed prints => trivial
    | said sess label e =>
      intro hl
      obtain ⟨l, rfl⟩ := Option.isSome_iff_exists.1 hl
      by_contra he
      exact said_swallowed_leaks h (Bool.eq_false_iff.2 he) (hnext sess)
    | line msgid handler =>
      cases handler with
      | events prints => trivial
      | confirmed sess => trivial
      | ownJoin sess recorded banner marker => trivial
      | message warning opened sess e =>
        rintro id rfl
        have he : e.prints = true := by
          by_contra he
          exact swallowed_leaks h warning opened (Bool.eq_false_iff.2 he) (hnext sess)
        refine ⟨he, fun hne o ho => ?_⟩
        obtain rfl := ho
        by_contra hprints
        rw [Bool.not_eq_false] at hprints
        exact opened_twice h hne warning hprints he hrows

end PoxChat.Inbound
