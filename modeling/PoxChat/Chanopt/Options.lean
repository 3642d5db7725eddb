import PoxChat.Lib.Keyed
import PoxChat.Lib.LineBuffer
import PoxChat.Servlist.Networks
import PoxChat.Users.Userlist

/-!
# Options of a channel

The part of `chanopt.c` that loads and saves, over the bytes of `chanopt.conf`.

* `ChanOption`, `Setting` — the rows of `chanopt[]` and the values an option can have.
* `InMemory` — a `chanopt_in_memory`; its `pair` is what `chanopt_find` compares.
* `Chanopts` — the list with its two flags, the file and the sessions.
* `Op` — what can happen.  `session` stands for everything else that writes a session: its making, its naming and the
  menu.  A restart ends the program with `chanopt_save_all (TRUE)`, and begins it with nothing but the file.

A name of a network or a channel has at most 200 bytes and no line break.  The file itself opens and takes what is
written.
-/

set_option autoImplicit false

namespace PoxChat.Chanopt

open Lib Outbound Users Servlist

/-! ## Options -/

inductive ChanOption where
  | alertBalloon | alertBeep | alertTaskbar | alertTray
  | textHidejoinpart | textLogging | textScrollback | textStrip
  deriving DecidableEq

namespace ChanOption

/-- `chanopt[]`. -/
def all : List ChanOption :=
  [alertBalloon, alertBeep, alertTaskbar, alertTray, textHidejoinpart, textLogging, textScrollback, textStrip]

def name : ChanOption → Bytes
  | alertBalloon => bytes "alert_balloon"
  | alertBeep => bytes "alert_beep"
  | alertTaskbar => bytes "alert_taskbar"
  | alertTray => bytes "alert_tray"
  | textHidejoinpart => bytes "text_hidejoinpart"
  | textLogging => bytes "text_logging"
  | textScrollback => bytes "text_scrollback"
  | textStrip => bytes "text_strip"

theorem mem_all (o : ChanOption) : o ∈ all := by cases o <;> decide

instance {P : ChanOption → Prop} [DecidablePred P] : Decidable (∀ o, P o) :=
  decidable_of_iff (∀ o ∈ all, P o) ⟨fun h o => h o (mem_all o), fun h o _ => h o⟩

end ChanOption

inductive Setting where
  | off | on | unset
  deriving DecidableEq

/-- `SET_OFF`, `SET_ON` and `SET_DEFAULT`, as `%d`. -/
def Setting.text : Setting → Bytes
  | off => bytes "0"
  | on => bytes "1"
  | unset => bytes "2"

/-- `str_to_chanopt`. -/
def strToChanopt (str : Bytes) : Setting :=
  if gAsciiStrcasecmp str (bytes "ON") = 0 ∨ str = bytes "1" then .on
  else if gAsciiStrcasecmp str (bytes "OFF") = 0 ∨ str = bytes "0" then .off
  else .unset

abbrev Settings := ChanOption → Setting

instance : DecidableEq Settings := fun s t => decidable_of_iff (∀ o, s o = t o) funext_iff.symm

def Settings.unset : Settings := fun _ => .unset

structure InMemory where
  network : Bytes
  channel : Bytes
  settings : Settings

/-- A network and a channel, without their case. -/
def pairOf (network channel : Bytes) : Bytes × Bytes := (asciiFold.key network, asciiFold.key channel)

def InMemory.pair (co : InMemory) : Bytes × Bytes := pairOf co.network co.channel

/-- The test of `chanopt_find`. -/
def samePair (network channel : Bytes) (co : InMemory) : Bool :=
  gAsciiStrcasecmp co.channel channel == 0 && gAsciiStrcasecmp co.network network == 0

/-- `chanopt_find (network, channel, FALSE)`. -/
def chanoptFind (list : List InMemory) (network channel : Bytes) : Option InMemory :=
  list.find? (samePair network channel)

/-- `chanopt_find (network, channel, TRUE)`: the list, and whether it became longer. -/
def chanoptFindNew (list : List InMemory) (network channel : Bytes) : List InMemory × Bool :=
  match chanoptFind list network channel with
  | some _ => (list, false)
  | none => (⟨network, channel, .unset⟩ :: list, true)

/-- `chanopt_add_opt`. -/
def InMemory.addOpt (co : InMemory) (var : Bytes) (value : Setting) : InMemory :=
  { co with settings := fun o => if var = o.name then value else co.settings o }

/-! ## Loading the file -/

/-- `char buf[256]`. -/
def BUFSIZE : Nat := 256

/-- What the calls of `waitline` give until one fails.  A piece ends with a newline or with the byte that fills the
buffer, which is lost; the bytes after the last of these are not given. -/
def waitlines (file : Bytes) : List Bytes :=
  (pieces newline BUFSIZE file).filterMap fun piece =>
    if piece.getLast? = some newline ∨ piece.length = BUFSIZE then some piece.dropLast else none

/-- The variables of `chanopt_load_all`; `current` names the record it points to. -/
structure Reading where
  network : Option Bytes := none
  current : Option (Bytes × Bytes) := none
  list : List InMemory
  changed : Bool

def equals : UInt8 := byte '='

/-- What `chanopt_load_all` does with a variable.  The program writes no channel before a network. -/
def readVar (st : Reading) (var value : Bytes) : Reading :=
  if var = bytes "network" then { st with network := some value }
  else if var = bytes "channel" then
    let network := st.network.getD []
    { st with
      current := some (network, value)
      list := (chanoptFindNew st.list network value).1
      changed := false }
  else
    match st.current with
    | some (network, channel) =>
      { st with list := updateFirst (samePair network channel) (·.addOpt var (strToChanopt value)) st.list }
    | none => st

/-- One round of the loop of `chanopt_load_all`: one space before the sign goes, and the byte after it. -/
def readLine (st : Reading) (buf : Bytes) : Reading :=
  if equals ∈ buf then
    let var := buf.takeWhile (· ≠ equals)
    readVar st (if var.getLast? = some space then var.dropLast else var) (buf.drop (buf.idxOf equals + 2))
  else st

/-- `chanopt_load_all`: the list and `chanopt_changed`. -/
def chanoptLoadAll (list : List InMemory) (changed : Bool) (file : Bytes) : List InMemory × Bool :=
  let st := (waitlines file).foldl readLine { list, changed }
  (st.list, st.changed)

/-! ## Saving the file -/

def InMemory.optionLines (co : InMemory) : List Bytes :=
  (ChanOption.all.filter fun o => co.settings o ≠ .unset).map fun o => assign o.name (co.settings o).text

def InMemory.lines (co : InMemory) : List Bytes :=
  assign (bytes "network") co.network :: assign (bytes "channel") co.channel :: co.optionLines

/-- `g_snprintf (buf, sizeof (buf), "%s = %s\n", ...)`. -/
def snprintfLine (line : Bytes) : Bytes := (line ++ [newline]).take (BUFSIZE - 1)

/-- `chanopt_save_one_channel`. -/
def chanoptSaveOneChannel (co : InMemory) : Bytes := co.lines.flatMap snprintfLine

/-- A channel that `chanopt_save_all` writes: some option is not the default. -/
def InMemory.Saved (co : InMemory) : Prop := ∃ o ∈ ChanOption.all, co.settings o ≠ .unset

instance (co : InMemory) : Decidable co.Saved := inferInstanceAs (Decidable (∃ o ∈ ChanOption.all, _))

/-- The loop of `chanopt_save_all`, after `numSaved` channels. -/
def saveLoop : Nat → List InMemory → Bytes
  | _, [] => []
  | numSaved, co :: list =>
    if co.Saved then
      (if numSaved ≠ 0 then [newline] else []) ++ chanoptSaveOneChannel co ++ saveLoop (numSaved + 1) list
    else saveLoop numSaved list

/-! ## Sessions -/

/-- A name `chanopt.conf` is made for. -/
def Named (name : Bytes) : Prop := name.length ≤ 200 ∧ newline ∉ name ∧ (0 : UInt8) ∉ name

instance (name : Bytes) : Decidable (Named name) := inferInstanceAs (Decidable (_ ∧ _))

structure Session where
  /-- `server_get_network (sess->server, FALSE)`. -/
  network : Option { name : Bytes // Named name } := none
  sessionName : { name : Bytes // Named name } := ⟨[], by decide⟩
  settings : Settings := .unset

structure Chanopts where
  list : List InMemory := []
  isOpen : Bool := false
  changed : Bool := false
  file : Bytes := []
  sessions : Nat → Session := fun _ => {}

def Chanopts.setSession (s : Chanopts) (id : Nat) (sess : Session) : Chanopts :=
  { s with sessions := fun i => if i = id then sess else s.sessions i }

/-- The network and the channel of a session that has both. -/
def Session.named (sess : Session) : Option (Bytes × Bytes) :=
  if sess.sessionName.1 = [] then none else sess.network.map fun network => (network.1, sess.sessionName.1)

/-- `chanopt_load` until `chanopt_find`: the file is read unless it was. -/
def Chanopts.opened (s : Chanopts) : Chanopts :=
  if s.isOpen then s
  else
    let (list, changed) := chanoptLoadAll s.list s.changed s.file
    { s with isOpen := true, list, changed }

/-- `chanopt_load`. -/
def chanoptLoad (s : Chanopts) (id : Nat) : Chanopts :=
  match (s.sessions id).named with
  | none => s
  | some (network, channel) =>
    match chanoptFind s.opened.list network channel with
    | none => s.opened
    | some co => s.opened.setSession id { s.sessions id with settings := co.settings }

/-- `chanopt_save`. -/
def chanoptSave (s : Chanopts) (id : Nat) : Chanopts :=
  let sess := s.sessions id
  match sess.named with
  | none => s
  | some (network, channel) =>
    let (list, added) := chanoptFindNew s.list network channel
    let differs := (chanoptFind list network channel).any fun co => co.settings ≠ sess.settings
    { s with
      list := updateFirst (samePair network channel) (fun co => { co with settings := sess.settings }) list
      changed := s.changed || added || differs }

/-- `chanopt_save_all`. -/
def chanoptSaveAll (s : Chanopts) (flush : Bool) : Chanopts :=
  if s.list = [] ∨ s.changed = false then s
  else
    { s with
      file := saveLoop 0 s.list
      list := if flush then [] else s.list
      isOpen := false
      changed := false }

/-- `chanopt_command`: `found` are the options whose name or alias matches the pattern. -/
def chanoptCommand (s : Chanopts) (id : Nat) (found : ChanOption → Bool) (newval : Option Setting) : Chanopts :=
  match newval with
  | none => s
  | some value =>
    let sess := s.sessions id
    { s.setSession id { sess with settings := fun o => if found o then value else sess.settings o } with
      changed := s.changed || ChanOption.all.any found }

inductive Op where
  | session (id : Nat) (sess : Session)
  | command (id : Nat) (found : ChanOption → Bool) (newval : Option Setting)
  | load (id : Nat)
  | save (id : Nat)
  | saveAll (flush : Bool)
  | restart

def Op.step (s : Chanopts) : Op → Chanopts
  | .session id sess => s.setSession id sess
  | .command id found newval => chanoptCommand s id found newval
  | .load id => chanoptLoad s id
  | .save id => chanoptSave s id
  | .saveAll flush => chanoptSaveAll s flush
  | .restart => { file := (chanoptSaveAll s true).file }

/-! ## What is meant -/

/-- The options of each pair at its last `chanopt_save`. -/
abbrev Saves := Bytes × Bytes → Settings

def Op.note (s : Chanopts) (saves : Saves) : Op → Saves
  | .save id =>
    match (s.sessions id).named with
    | none => saves
    | some (network, channel) =>
      fun pair => if pair = pairOf network channel then (s.sessions id).settings else saves pair
  | _ => saves

/-- The program beside what was saved. -/
def Op.both (sm : Chanopts × Saves) (op : Op) : Chanopts × Saves := (op.step sm.1, op.note sm.1 sm.2)

/-- A session that is loaded has the options last saved for its network and channel. -/
def Op.Restored (sm : Chanopts × Saves) (op : Op) : Prop :=
  match op with
  | .load id =>
    ∀ network channel, (sm.1.sessions id).named = some (network, channel) →
      ((op.step sm.1).sessions id).settings = sm.2 (pairOf network channel)
  | _ => True

end PoxChat.Chanopt
