import PoxChat.ChatHistory.Requests
import PoxChat.Outbound.SendQueue

/-!
# Saying a line

Model of `handle_say` of `outbound.c` and of what it does to a line before it is sent: the percent
codes, the completion of a nick at its start, and the cut of a long line into messages.

* A `Window` is what these functions read of a session, its server and its user list.
* `plugin_emit_command` and `g_locale_to_utf8` are parameters, and so is `handle_command`, which
  stands behind every command of the client; whether it asks for the rest of the input to be dropped
  is its `Flow`.
* Lines are UTF-8: `safe_strcpy` then copies them whole.  The reply state, the input history and the
  typing notice are left out.

Principal results: `splitPieces_flatten` — the pieces of a line are its text; `handleSay_as_typed_iff` —
when a line is said as it was typed.
-/

set_option autoImplicit false

namespace PoxChat.Outbound

open Lib ChatHistory

/-! ## Data -/

structure Prefs where
  /-- `hex_input_command_char[0]`, a character of a line. -/
  inputCommandChar : UInt8
  inputPercColor : Bool := false
  inputPercAscii : Bool := false
  completionAuto : Bool := false
  completionSuffix : UInt8 := 44
  isText : inputCommandChar ≠ 0 ∧ inputCommandChar ≠ 10 ∧ inputCommandChar ≠ 13 := by decide

structure Window where
  type : SessType
  channel : Bytes
  nick : Bytes
  /-- `sess->me->hostname`. -/
  hostname : Option Bytes := none
  /-- The nicks of `usertree`, in its order. -/
  users : List Bytes := []
  connected : Bool := true
  haveEchoMessage : Bool := false
  haveLabeledResponse : Bool := false
  haveMessageTags : Bool := false
  haveMultiline : Bool := false
  multilineMaxLines : Int := 0
  multilineMaxBytes : Int := 0
  /-- `react_target_msgid` is set. -/
  reacting : Bool := false
  /-- An active DCC chat with the window's nick. -/
  dccChat : Bool := false
  deriving DecidableEq

/-- `notc_msg` and `notj_msg`. -/
inductive Report where
  | notConnected
  | notJoined
  deriving DecidableEq

/-- What the input functions do, in order.  `said` and `ran` are the calls of `handle_say` and
`handle_command`, and `batched` ends a line of a batch. -/
inductive Output where
  | said (text : Bytes)
  | ran (cmd : Bytes)
  | batched (text : Bytes)
  | privmsg (text : Bytes)
  | batchOpen
  | batchPrivmsg (text : Bytes)
  | batchClose
  | shown (text : Bytes)
  | reaction (text : Bytes)
  | lastlog (text : Bytes)
  | dcc (text : Bytes)
  | report (r : Report)
  deriving DecidableEq

/-- Whether the caller goes on to the next line, drops the rest, or is never returned to. -/
inductive Flow where
  | goes
  | drops
  | hangs
  deriving DecidableEq

structure Effect where
  win : Window
  out : List Output := []
  flow : Flow := .goes
  deriving DecidableEq

structure Env where
  prefs : Prefs
  /-- A plugin takes the text, or closes the window on seeing it. -/
  pluginTakes : Window → Bytes → Bool
  /-- `g_locale_to_utf8` of one byte. -/
  localeToUtf8 : UInt8 → Option Bytes
  handleCommand : Window → Bytes → Window × Flow × List Report

/-! ## Percent codes -/

def isDigit (c : UInt8) : Bool := 48 ≤ c && c ≤ 57

/-- A three digit code after the percent sign: its byte. -/
def asciiCode : Bytes → Option UInt8
  | a :: b :: c :: _ =>
    if isDigit a && isDigit b && isDigit c then
      some ((a.toNat - 48) * 100 + (b.toNat - 48) * 10 + (c.toNat - 48)).toUInt8
    else none
  | _ => none

/-- The character of a one letter code. -/
def percentCode (c : UInt8) : Option UInt8 :=
  if c = 82 then some 22        -- R
  else if c = 85 then some 31   -- U
  else if c = 66 then some 2    -- B
  else if c = 73 then some 29   -- I
  else if c = 83 then some 30   -- S
  else if c = 67 then some 3    -- C
  else if c = 79 then some 15   -- O
  else if c = 72 then some 8    -- H
  else if c = 37 then some 37
  else none

/-- The loop of `check_special_chars`, which rewrites the percent codes of a line; `skip` bytes belong
to the code before. -/
def rewritten (toUtf8 : UInt8 → Option Bytes) (doAscii : Bool) : Nat → Bytes → Bytes
  | _, [] => []
  | skip + 1, _ :: rest => rewritten toUtf8 doAscii skip rest
  | 0, c :: rest =>
    if c ≠ 37 then c :: rewritten toUtf8 doAscii 0 rest
    else
      match if doAscii then asciiCode rest else none with
      | some byte => (toUtf8 byte).getD [byte] ++ rewritten toUtf8 doAscii 3 rest
      | none =>
        match rest.head?.bind percentCode with
        | some code => code :: rewritten toUtf8 doAscii 1 rest
        | none => c :: rewritten toUtf8 doAscii 0 rest

/-- `check_special_chars`; a code for the byte 0 ends the line. -/
def checkSpecialChars (toUtf8 : UInt8 → Option Bytes) (doAscii : Bool) (cmd : Bytes) : Bytes :=
  cString (rewritten toUtf8 doAscii 0 cmd)

/-! ## Nick completion -/

/-- `rfc_tolower`. -/
def rfcTolower (c : UInt8) : UInt8 := if 65 ≤ c && c ≤ 94 then c + 32 else c

/-- `rfc_ncasecmp (user, nick, len) == 0` for a `nick` of that length. -/
def nickStarts (nick user : Bytes) : Bool :=
  (user.take nick.length).map rfcTolower == nick.map rfcTolower

/-- `nick_comp_cb` over the user list: an exact match ends the search, else the first of the
shortest nicks is taken. -/
def bestNick (nick : Bytes) : List Bytes → Option Bytes → Option Bytes
  | [], best => best
  | user :: users, best =>
    if nickStarts nick user then
      if user.length = nick.length then some user
      else if (best.map List.length).all (user.length < ·) then bestNick nick users (some user)
      else bestNick nick users best
    else bestNick nick users best

/-- `perform_nick_completion`. -/
def performNickCompletion (prefs : Prefs) (users : List Bytes) (cmd : Bytes) : Bytes :=
  let word := cmd.takeWhile (· ≠ space)
  let nick := word.dropLast
  if word.length = cmd.length || nick.isEmpty || word.getLast? ≠ some prefs.completionSuffix ||
      nick.length ≥ 64 then cmd
  else
    match bestNick nick users none with
    | some best => (best ++ cmd.drop nick.length).take 4095
    | none => cmd

/-! ## Long lines -/

/-- `g_utf8_skip`. -/
def utf8Skip (c : UInt8) : Nat :=
  if c < 0xC0 then 1 else if c < 0xE0 then 2 else if c < 0xF0 then 3 else if c < 0xF8 then 4
  else if c < 0xFC then 5 else if c < 0xFE then 6 else 1

theorem utf8Skip_bounds (c : UInt8) : 1 ≤ utf8Skip c ∧ utf8Skip c ≤ 6 := by
  unfold utf8Skip
  split_ifs <;> omega

/-- The room `split_up_text` computes for a text, in `unsigned int`. -/
def textRoom (win : Window) (cmdLength : Nat) : Nat :=
  ((512 - 3 - cmdLength - win.nick.length - win.channel.length -
    (match win.hostname with | some host => (host.length : Int) | none => 9 + 65)) % 4294967296 : Int).toNat

/-- The last character boundary with the next character still below `room`, from position `i` on. -/
def cutPoint (room : Nat) : Nat → Nat → Bytes → Nat
  | 0, i, _ => i
  | steps + 1, i, text =>
    let size := utf8Skip (text.headD 0)
    if i + size ≥ room then i else cutPoint room steps (i + size) (text.drop size)

/-- `g_utf8_pointer_to_offset`: the number of characters that start before `pos`. -/
def utf8Offset : Nat → Nat → Bytes → Nat
  | 0, _, _ => 0
  | steps + 1, pos, text =>
    if pos = 0 then 0
    else
      let size := utf8Skip (text.headD 0)
      1 + utf8Offset steps (pos - size) (text.drop size)

/-- The place of the last space, as `g_utf8_strrchr` finds it. -/
def lastSpace (text : Bytes) : Option Nat :=
  (text.zipIdx.reverse.find? (·.1 == space)).map (·.2)

/-- `split_up_text`: the next piece of a text that is too long. -/
def splitUpText (win : Window) (cmdLength : Nat) (text : Bytes) : Option Bytes :=
  let room := textRoom win cmdLength
  if text.length > room then
    let cut := cutPoint room room 0 text
    match lastSpace (text.take cut) with
    | some pos =>
      let offset := utf8Offset pos pos text
      if cut ≠ offset && cut - offset < 20 then some (text.take (offset + 1)) else some (text.take cut)
    | none => some (text.take cut)
  else none

/-- The loop over `split_up_text`: the pieces and the remainder, and whether the loop ends, which an
empty piece prevents. -/
def splitFrom (win : Window) (cmdLength : Nat) : Nat → Bytes → List Bytes × Bool
  | 0, _ => ([], false)
  | steps + 1, text =>
    match splitUpText win cmdLength text with
    | none => ([text], true)
    | some piece =>
      if piece.isEmpty then ([], false)
      else
        let (pieces, ended) := splitFrom win cmdLength steps (text.drop piece.length)
        (piece :: pieces, ended)

/-- Each piece is at least a byte long, so the text's length bounds the loop. -/
def splitPieces (win : Window) (text : Bytes) : List Bytes × Bool := splitFrom win 13 (text.length + 1) text

/-! ## `handle_say` -/

/-- One message of `handle_say`: sent, and shown unless the echo will be. -/
def sayPiece (win : Window) (text : Bytes) : List Output :=
  if win.haveEchoMessage then
    if win.haveLabeledResponse then [.privmsg text, .shown text] else [.privmsg text]
  else [.shown text, .privmsg text]

/-- The line with its percent codes rewritten, as a plugin sees it. -/
def colored (env : Env) (text : Bytes) : Bytes :=
  if env.prefs.inputPercColor then checkSpecialChars env.localeToUtf8 env.prefs.inputPercAscii text else text

/-- The line with its nick completed. -/
def completed (env : Env) (win : Window) (text : Bytes) : Bytes :=
  if env.prefs.completionAuto then performNickCompletion env.prefs win.users text else text

/-- A reaction is pending and can be sent. -/
def Window.reacts (win : Window) : Bool :=
  win.reacting && win.connected && win.haveMessageTags && !win.channel.isEmpty

/-- Nothing can be said in the window. -/
def Window.mute (win : Window) : Bool :=
  win.channel.isEmpty || win.type = .server || win.type = .notices || win.type = .snotices

/-- `handle_say`. -/
def handleSay (env : Env) (win : Window) (text : Bytes) : Effect :=
  if win.channel = bytes "(lastlog)" then { win, out := [.lastlog text] }
  else if win.reacts then { win := { win with reacting := false }, out := [.reaction text] }
  else if env.pluginTakes win (colored env text) then { win }
  else if win.mute then { win, out := [.report .notJoined] }
  else
    let text := completed env win (colored env text)
    if win.type = .dialog && win.dccChat then { win, out := [.dcc text, .shown text] }
    else if win.connected then
      let (pieces, ended) := splitPieces win text
      { win, out := pieces.flatMap (sayPiece win), flow := if ended then .goes else .hangs }
    else { win, out := [.report .notConnected] }

/-! ## What is said -/

theorem splitUpText_eq_take {win : Window} {cmdLength : Nat} {text piece : Bytes}
    (h : splitUpText win cmdLength text = some piece) : ∃ n, piece = text.take n := by
  unfold splitUpText at h
  dsimp only at h
  split at h
  · split at h
    · split at h
      · exact ⟨_, (Option.some.inj h).symm⟩
      · exact ⟨_, (Option.some.inj h).symm⟩
    · exact ⟨_, (Option.some.inj h).symm⟩
  · cases h

theorem splitFrom_flatten {win : Window} {cmdLength : Nat} (steps : Nat) :
    ∀ text : Bytes, (splitFrom win cmdLength steps text).2 = true →
      (splitFrom win cmdLength steps text).1.flatten = text ∧ (splitFrom win cmdLength steps text).1 ≠ [] := by
  induction steps with
  | zero => simp [splitFrom]
  | succ steps ih =>
    intro text hended
    rw [splitFrom] at hended ⊢
    cases hsplit : splitUpText win cmdLength text with
    | none => simp
    | some piece =>
      simp only [hsplit] at hended ⊢
      split_ifs at hended ⊢ with hempty
      obtain ⟨n, rfl⟩ := splitUpText_eq_take hsplit
      have htail := (ih _ hended).1
      refine ⟨?_, by simp⟩
      simp only [List.flatten_cons, htail]
      exact List.prefix_iff_eq_append.1 (List.take_prefix n text)

/-- **A split line is whole**: where the loop ends, the pieces put together are the text. -/
theorem splitPieces_flatten {win : Window} {text : Bytes} (h : (splitPieces win text).2 = true) :
    (splitPieces win text).1.flatten = text ∧ (splitPieces win text).1 ≠ [] :=
  splitFrom_flatten _ text h

/-- The text that goes out to the target. -/
def Output.wire? : Output → Option Bytes
  | .privmsg text => some text
  | .batchPrivmsg text => some text
  | _ => none

def wire (out : List Output) : List Bytes := out.filterMap Output.wire?

theorem wire_sayPiece (win : Window) (text : Bytes) : wire (sayPiece win text) = [text] := by
  unfold sayPiece
  split_ifs <;> rfl

theorem wire_flatMap_sayPiece (win : Window) (texts : List Bytes) :
    wire (texts.flatMap (sayPiece win)) = texts := by
  unfold wire
  induction texts with
  | nil => rfl
  | cons text texts ih =>
    have hpiece := wire_sayPiece win text
    rw [wire] at hpiece
    rw [List.flatMap_cons, List.filterMap_append, hpiece, ih]
    rfl

/-- `handle_say` has no other use for the line, and does not change it. -/
structure AsTyped (env : Env) (win : Window) (text : Bytes) : Prop where
  notLastlog : win.channel ≠ bytes "(lastlog)"
  notReacting : win.reacts = false
  notTaken : env.pluginTakes win (colored env text) = false
  notMute : win.mute = false
  notDcc : (win.type = .dialog && win.dccChat) = false
  connected : win.connected = true
  same : completed env win (colored env text) = text

/-- **A line is said as typed** — `handle_say` comes back having sent the pieces of that line — exactly
when none of the other uses of a line applies and the codes and the completion leave it alone. -/
theorem handleSay_as_typed_iff {env : Env} {win : Window} {text : Bytes}
    (hended : (splitPieces win text).2 = true) :
    ((handleSay env win text).flow = .goes ∧ wire (handleSay env win text).out = (splitPieces win text).1) ↔
      AsTyped env win text := by
  have hpieces := (splitPieces_flatten hended).2
  unfold handleSay
  by_cases hlog : win.channel = bytes "(lastlog)"
  · rw [if_pos hlog]
    exact ⟨fun h => absurd h.2.symm hpieces, fun h => absurd hlog h.notLastlog⟩
  rw [if_neg hlog]
  cases hreact : win.reacts with
  | true => exact ⟨fun h => absurd h.2.symm hpieces, fun h => absurd h.notReacting (by simp [hreact])⟩
  | false =>
  cases htake : env.pluginTakes win (colored env text) with
  | true =>
    rw [if_neg (by simp), if_pos rfl]
    exact ⟨fun h => absurd h.2.symm hpieces, fun h => absurd h.notTaken (by simp [htake])⟩
  | false =>
  cases hmute : win.mute with
  | true =>
    rw [if_neg (by simp), if_neg (by simp), if_pos rfl]
    exact ⟨fun h => absurd h.2.symm hpieces, fun h => absurd h.notMute (by simp [hmute])⟩
  | false =>
  simp only [Bool.false_eq_true, if_false]
  cases hdcc : (decide (win.type = .dialog) && win.dccChat) with
  | true =>
    exact ⟨fun h => absurd h.2.symm hpieces, fun h => absurd h.notDcc (by simp [hdcc])⟩
  | false =>
  cases hconn : win.connected with
  | false =>
    exact ⟨fun h => absurd h.2.symm hpieces, fun h => absurd h.connected (by simp [hconn])⟩
  | true =>
  simp only [Bool.false_eq_true, if_false, if_true, wire_flatMap_sayPiece]
  constructor
  · rintro ⟨hflow, hwire⟩
    refine ⟨hlog, hreact, htake, hmute, hdcc, hconn, ?_⟩
    have hended' : (splitPieces win (completed env win (colored env text))).2 = true := by
      by_contra hno
      simp [hno] at hflow
    rw [← (splitPieces_flatten hended').1, hwire, (splitPieces_flatten hended).1]
  · intro h
    rw [h.same]
    simp [hended]

end PoxChat.Outbound
