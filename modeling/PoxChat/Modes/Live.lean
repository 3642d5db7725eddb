import PoxChat.Inbound.Lines
import PoxChat.Users.Userlist

/-!
# MODE, live

Model of the MODE handler of `modes.c` (`handle_mode`, `handle_single_mode`, `mode_has_arg`, `mode_print_grouped`) and
of what it displays.

* `Effect` — the text events, in order, and the updates of the session between them; calls of the front end are left
  out.
* `Token`, `display` — a mode string as signs and letters, each letter with its argument, and the text events for it.

Result: `handleMode_text` — what is displayed is the display of the tokens that the argument rule of `handle_mode` gives.
-/

set_option autoImplicit false

namespace PoxChat.Modes

open Lib
open Outbound (Bytes bytes cString)
open Inbound (processDataInit)

/-! ## The model -/

/-- What the handler reads of a server. -/
structure Serv extends Users.Server where
  nickModes : Bytes
  chanmodes : Bytes
  chantypes : Bytes

/-- A window; its `channel` is a C string. -/
structure Sess where
  id : Nat
  channel : Bytes
  no_nul : 0 ∉ channel
  ignoreMode : Bool := false

structure Windows where
  /-- The channels of the server, in the order of `sess_list`. -/
  channels : List Sess
  front : Sess

/-- `find_channel`. -/
def findChannel (serv : Serv) (win : Windows) (chan : Bytes) : Option Sess :=
  win.channels.find? fun sess => serv.pCmp chan sess.channel = 0

/-- `is_channel`; `strchr` also finds the end of the string. -/
def isChannel (serv : Serv) (chan : Bytes) : Bool :=
  match chan with
  | [] => true
  | c :: _ => c ∈ serv.chantypes

/-- The text events of modes. -/
inductive TextEvent where
  | chanop
  | chandeop
  | chanvoice
  | chandevoice
  | chansetkey
  | chanrmkey
  | chansetlimit
  | chanrmlimit
  | chanhop
  | chandehop
  | chanban
  | chanunban
  | chanexempt
  | chanrmexempt
  | chaninvite
  | chanrminvite
  | chanquiet
  | chanunquiet
  | chanmodegen
  | rawmodes
  deriving DecidableEq

/-- A text event in a window, with its arguments up to the first NULL. -/
structure Emitted where
  sess : Nat
  event : TextEvent
  args : List Bytes
  deriving DecidableEq

inductive Effect where
  | emit (e : Emitted)
  | userlistUpdateMode (sess : Nat) (nick : Bytes) (mode sign : UInt8)
  | recordChanMode (sess : Nat) (sign mode : UInt8) (arg : Bytes)
  | channelkey (sess : Nat) (key : Bytes)
  | limit (sess : Nat) (arg : Bytes)
  | currentModes (sess : Nat) (modes : Bytes)
  | inboundIdentified

def Effect.text? : Effect → Option Emitted
  | .emit e => some e
  | _ => none

/-! ### Arguments -/

/-- The loop of `mode_chanmode_type`. -/
def chanmodeTypeFrom (mode : UInt8) : Int → Bytes → Int
  | _, [] => -1
  | type, c :: cm =>
    if c = 44 then chanmodeTypeFrom mode (type + 1) cm else if c = mode then type else chanmodeTypeFrom mode type cm

/-- `mode_chanmode_type`; -1 for a mode that CHANMODES does not have. -/
def modeChanmodeType (serv : Serv) (mode : UInt8) : Int := chanmodeTypeFrom mode 0 serv.chanmodes

/-- `mode_has_arg`. -/
def modeHasArg (serv : Serv) (sign mode : UInt8) : Bool :=
  if mode ∈ serv.nickModes then true
  else
    let type := modeChanmodeType serv mode
    if type = 0 ∨ type = 1 then true else if type = 2 then sign = 43 else false

/-- `word[i]`. -/
def word (words : List (Bytes × Bytes)) (i : Nat) : Bytes := (words.map (·.1))[i - 1]?.getD []

/-- `word_eol[i]`. -/
def wordEol (words : List (Bytes × Bytes)) (i : Nat) : Bytes := (words.map (·.2))[i - 1]?.getD []

def stripColon (text : Bytes) : Bytes := if text.head? = some 58 then text.tail else text

/-- The line without a space at its end; the texts from its words on end where it does. -/
def trimSpace (eol : Bytes) : Bytes := if eol.getLast? = some 32 then eol.dropLast else eol

/-- The arguments that `handle_mode` counts, as `STRIP_COLON` gives them. -/
def modeArgs : List (Bytes × Bytes) → List Bytes
  | [] => []
  | (word, eol) :: words =>
    if word = [] then []
    else if word.head? = some 58 then [(trimSpace eol).tail]
    else word :: modeArgs words

/-! ### One mode -/

/-- The names that are collected until the sign changes. -/
inductive Slot where
  | op
  | deop
  | voice
  | devoice
  deriving DecidableEq

def Slot.event : Slot → TextEvent
  | .op => .chanop
  | .deop => .chandeop
  | .voice => .chanvoice
  | .devoice => .chandevoice

/-- The names of a `mode_run`. -/
abbrev ModeRun := Slot → Option Bytes

def noNames : ModeRun := fun _ => none

/-- `mode_cat`. -/
def modeCat (str : Option Bytes) (addition : Bytes) : Option Bytes :=
  match str with
  | some str => some (str ++ [32] ++ addition)
  | none => some addition

def ModeRun.cat (mr : ModeRun) (slot : Slot) (arg : Bytes) : ModeRun :=
  fun s => if s = slot then modeCat (mr s) arg else mr s

/-- `mode_print_grouped`. -/
def modePrintGrouped (sess : Nat) (nick : Bytes) (mr : ModeRun) : List Emitted :=
  [Slot.op, .deop, .voice, .devoice].filterMap fun slot => (mr slot).map fun names => ⟨sess, slot.event, [nick, names]⟩

/-- Is `q` a list mode on this server? -/
def supportsq : Bytes → Bool
  | [] => false
  | c :: cm => if c = 44 then false else c == 113 || supportsq cm

/-- What a mode is displayed as. -/
inductive Shown where
  | event (e : TextEvent) (withArg : Bool)
  | grouped (slot : Slot)
  | generic
  deriving DecidableEq

/-- The switch on the sign and the letter, in `handle_single_mode` and again in `chathistory_replay_mode`. -/
def showing (supportsq : Bool) (sign mode : UInt8) : Shown :=
  if sign = 43 then
    if mode = 107 then .event .chansetkey true
    else if mode = 108 then .event .chansetlimit true
    else if mode = 111 then .grouped .op
    else if mode = 104 then .event .chanhop true
    else if mode = 118 then .grouped .voice
    else if mode = 98 then .event .chanban true
    else if mode = 101 then .event .chanexempt true
    else if mode = 73 then .event .chaninvite true
    -- otherwise +q is an owner
    else if mode = 113 ∧ supportsq then .event .chanquiet true
    else .generic
  else if sign = 45 then
    if mode = 107 then .event .chanrmkey false
    else if mode = 108 then .event .chanrmlimit false
    else if mode = 111 then .grouped .deop
    else if mode = 104 then .event .chandehop true
    else if mode = 118 then .grouped .devoice
    else if mode = 98 then .event .chanunban true
    else if mode = 101 then .event .chanrmexempt true
    else if mode = 73 then .event .chanrminvite true
    else if mode = 113 ∧ supportsq then .event .chanunquiet true
    else .generic
  else .generic

/-- The channel of a generic mode, with the argument if there is one. -/
def genText (chan arg : Bytes) : Bytes := if arg = [] then chan else chan ++ [32] ++ arg

/-- The end of `handle_single_mode`. -/
def genmode (serv : Serv) (sess : Nat) (sign mode : UInt8) (nick chan arg : Bytes) (quiet : Bool) : List Effect :=
  (if mode = 101 ∧ sign = 43 ∧ serv.pCmp chan serv.nick = 0 then [.inboundIdentified] else []) ++
    if quiet then [] else [.emit ⟨sess, .chanmodegen, [nick, [sign], [mode], genText chan arg]⟩]

/-- The updates of a channel that come before its text event. -/
def updates (serv : Serv) (sess : Sess) (sign mode : UInt8) (arg : Bytes) (is324 : Bool) : List Effect :=
  (if mode ∈ serv.nickModes then [.userlistUpdateMode sess.id arg mode sign]
    else if ¬ is324 ∧ ¬ sess.ignoreMode ∧ 1 ≤ modeChanmodeType serv mode then [.recordChanMode sess.id sign mode arg]
    else []) ++
  if mode = 107 ∧ sign = 43 then [.channelkey sess.id arg]
  else if mode = 107 ∧ sign = 45 then [.channelkey sess.id []]
  else if mode = 108 ∧ sign = 43 then [.limit sess.id arg]
  else if mode = 108 ∧ sign = 45 then [.limit sess.id []]
  else []

/-- `handle_single_mode`. -/
def handleSingleMode (serv : Serv) (win : Windows) (mr : ModeRun) (sign mode : UInt8) (nick chan arg : Bytes)
    (quiet is324 : Bool) : ModeRun × List Effect :=
  match (findChannel serv win chan).filter fun _ => isChannel serv chan with
  | none => (mr, genmode serv win.front.id sign mode nick chan arg quiet)
  | some sess =>
    let before := updates serv sess sign mode arg is324
    match showing (supportsq serv.chanmodes) sign mode with
    | .grouped slot => (if quiet then mr else mr.cat slot arg, before)
    | .event e withArg =>
      (mr, before ++ if quiet then [] else [.emit ⟨sess.id, e, nick :: if withArg then [arg] else []⟩])
    | .generic => (mr, before ++ genmode serv sess.id sign mode nick chan arg quiet)

/-! ### A line -/

def isSign (c : UInt8) : Bool := c == 43 || c == 45

/-- The loop of `handle_mode`. -/
def modesFrom (serv : Serv) (win : Windows) (sess : Sess) (nick chan : Bytes) (quiet is324 allModesHaveArgs : Bool) :
    UInt8 → ModeRun → List Bytes → Bytes → List Effect
  | _, mr, _, [] => (modePrintGrouped sess.id nick mr).map .emit
  | sign, mr, args, c :: modes =>
    if isSign c then
      (modePrintGrouped sess.id nick mr).map .emit ++
        modesFrom serv win sess nick chan quiet is324 allModesHaveArgs c noNames args modes
    else
      let takes := (allModesHaveArgs || modeHasArg serv sign c) && !args.isEmpty
      let argstr := if takes then args.head?.getD [] else []
      let r := handleSingleMode serv win mr sign c nick chan argstr quiet is324
      r.2 ++ modesFrom serv win sess nick chan quiet is324 allModesHaveArgs sign r.1
        (if takes then args.tail else args) modes

/-- `handle_mode`, for MODE and for the numeric 324; the first character is the sign, whatever it is. -/
def handleMode (serv : Serv) (win : Windows) (words : List (Bytes × Bytes)) (nick : Bytes)
    (numeric324 rawModes : Bool) : List Effect :=
  let offset := if numeric324 then 4 else 3
  let chan := word words offset
  match stripColon (word words (offset + 1)) with
  | [] => []
  | sign :: modes =>
    let sess := (findChannel serv win chan).getD win.front
    let args := modeArgs (words.drop (offset + 1))
    (if rawModes ∧ ¬ numeric324 then [.emit ⟨sess.id, .rawmodes, [nick, trimSpace (wordEol words offset)]⟩] else []) ++
    (if numeric324 ∧ (findChannel serv win chan).isSome then
      [.currentModes sess.id (trimSpace (wordEol words (offset + 1)))] else []) ++
    modesFrom serv win sess nick chan (numeric324 || rawModes) numeric324
      (args.length = modes.countP (!isSign ·)) sign noNames args modes

/-- The text events for a MODE line, with raw modes off. -/
def displayed (serv : Serv) (win : Windows) (nick line : Bytes) : List Emitted :=
  (handleMode serv win (processDataInit (cString line)) nick false false).filterMap Effect.text?

/-! ## What is displayed -/

/-- A mode string, read: a sign, or a letter with the sign before it and its argument. -/
inductive Token where
  | sign
  | mode (sign mode : UInt8) (arg : Bytes)
  deriving DecidableEq

/-- The letters for which `takes` holds get the arguments in turn, while there are any. -/
def tokens (takes : UInt8 → UInt8 → Bool) : UInt8 → List Bytes → Bytes → List Token
  | _, _, [] => []
  | sign, args, c :: modes =>
    if isSign c then .sign :: tokens takes c args modes
    else if takes sign c && !args.isEmpty then .mode sign c (args.head?.getD []) :: tokens takes sign args.tail modes
    else .mode sign c [] :: tokens takes sign args modes

/-- The text events for tokens, after the names collected before. -/
def display (supportsq : Bool) (sess : Nat) (nick chan : Bytes) : ModeRun → List Token → List Emitted
  | mr, [] => modePrintGrouped sess nick mr
  | mr, .sign :: ts => modePrintGrouped sess nick mr ++ display supportsq sess nick chan noNames ts
  | mr, .mode sign mode arg :: ts =>
    match showing supportsq sign mode with
    | .grouped slot => display supportsq sess nick chan (mr.cat slot arg) ts
    | .event e withArg =>
      ⟨sess, e, nick :: if withArg then [arg] else []⟩ :: display supportsq sess nick chan mr ts
    | .generic =>
      ⟨sess, .chanmodegen, [nick, [sign], [mode], genText chan arg]⟩ :: display supportsq sess nick chan mr ts

section Text

variable {serv : Serv} {win : Windows} {sess : Sess} {nick chan : Bytes}

theorem filterMap_emit (es : List Emitted) : (es.map Effect.emit).filterMap Effect.text? = es := by
  induction es with
  | nil => rfl
  | cons e es ih => simpa [Effect.text?] using ih

theorem updates_text (sign mode : UInt8) (arg : Bytes) (is324 : Bool) :
    (updates serv sess sign mode arg is324).filterMap Effect.text? = [] := by
  unfold updates
  split_ifs <;> rfl

theorem genmode_text (sign mode : UInt8) (arg : Bytes) :
    (genmode serv sess.id sign mode nick chan arg false).filterMap Effect.text? =
      [⟨sess.id, .chanmodegen, [nick, [sign], [mode], genText chan arg]⟩] := by
  unfold genmode
  rw [if_neg Bool.false_ne_true]
  split_ifs <;> rfl

/-- One letter of a channel that is joined. -/
theorem handleSingleMode_text (hfind : findChannel serv win chan = some sess) (hchan : isChannel serv chan = true)
    (mr : ModeRun) (sign mode : UInt8) (arg : Bytes) (ts : List Token) :
    let r := handleSingleMode serv win mr sign mode nick chan arg false false
    r.2.filterMap Effect.text? ++ display (supportsq serv.chanmodes) sess.id nick chan r.1 ts =
      display (supportsq serv.chanmodes) sess.id nick chan mr (.mode sign mode arg :: ts) := by
  unfold handleSingleMode
  rw [hfind, Option.filter_some, if_pos hchan]
  dsimp only
  rw [display]
  split
  · simp [updates_text]
  · simp [updates_text, Effect.text?]
  · simp [updates_text, genmode_text]

/-- **The loop displays** what its tokens say. -/
theorem modesFrom_text (hfind : findChannel serv win chan = some sess) (hchan : isChannel serv chan = true)
    (allModesHaveArgs : Bool) (modes : Bytes) : ∀ sign mr args,
    (modesFrom serv win sess nick chan false false allModesHaveArgs sign mr args modes).filterMap Effect.text? =
      display (supportsq serv.chanmodes) sess.id nick chan mr
        (tokens (fun s c => allModesHaveArgs || modeHasArg serv s c) sign args modes) := by
  induction modes with
  | nil =>
    intro sign mr args
    rw [modesFrom, filterMap_emit]
    rfl
  | cons c modes ih =>
    intro sign mr args
    rw [modesFrom, tokens]
    by_cases hsign : isSign c = true
    · rw [if_pos hsign, if_pos hsign, List.filterMap_append, filterMap_emit, ih]
      rfl
    · rw [if_neg hsign, if_neg hsign]
      dsimp only
      rw [List.filterMap_append, ih]
      by_cases htakes : ((allModesHaveArgs || modeHasArg serv sign c) && !args.isEmpty) = true
      · rw [if_pos htakes, if_pos htakes, if_pos htakes]
        exact handleSingleMode_text hfind hchan mr sign c _ _
      · rw [if_neg htakes, if_neg htakes, if_neg htakes]
        exact handleSingleMode_text hfind hchan mr sign c _ _

/-- The tokens of a live line: where there are as many arguments as letters, each letter takes one. -/
def liveTokens (serv : Serv) (sign : UInt8) (args : List Bytes) (modes : Bytes) : List Token :=
  tokens (fun s c => decide (args.length = modes.countP (!isSign ·)) || modeHasArg serv s c) sign args modes

/-- The display of a mode string, live. -/
def liveDisplay (serv : Serv) (sess : Sess) (nick chan : Bytes) (args : List Bytes) : Bytes → List Emitted
  | [] => []
  | sign :: modes =>
    display (supportsq serv.chanmodes) sess.id nick chan noNames (liveTokens serv sign args modes)

/-- **Live display** of a line for a channel that is joined. -/
theorem handleMode_text {words : List (Bytes × Bytes)} (hfind : findChannel serv win (word words 3) = some sess)
    (hchan : isChannel serv (word words 3) = true) (nick : Bytes) :
    (handleMode serv win words nick false false).filterMap Effect.text? =
      liveDisplay serv sess nick (word words 3) (modeArgs (words.drop 4)) (stripColon (word words 4)) := by
  unfold handleMode
  dsimp only
  rw [if_neg (by decide)]
  cases stripColon (word words (3 + 1)) with
  | nil => rfl
  | cons sign modes =>
    dsimp only
    rw [hfind, if_neg (by decide), if_neg (by simp), List.nil_append, List.nil_append]
    exact modesFrom_text hfind hchan _ modes sign noNames _

end Text

end PoxChat.Modes
