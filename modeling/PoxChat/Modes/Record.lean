import PoxChat.Modes.Replay

/-!
# The modes of a channel

Model of `record_chan_mode` of `modes.c`, which keeps `sess->current_modes` up to date: a plus sign, letters, and an argument for
each letter that takes one when it is set, all in one string.

* `recordChanMode` — the offsets into the string, and its edits.
* `Denotes` — the string is of that form and stands for a map from letters to arguments.
* `recordChanModes_denote` — after any changes it stands for the map with the changes applied.
-/

set_option autoImplicit false

namespace PoxChat.Modes

open Lib
open Outbound (Bytes bytes)

/-! ## The function -/

/-- `g_string_erase`; a negative length is that of the rest, and what is not inside the string is refused. -/
def gStringErase (text : Bytes) (pos : Nat) (len : Int) : Bytes :=
  if text.length < pos then text
  else if len < 0 then text.take pos
  else if text.length < pos + len.toNat then text
  else text.take pos ++ text.drop (pos + len.toNat)

/-- `g_string_insert`. -/
def gStringInsert (text : Bytes) (pos : Nat) (val : Bytes) : Bytes :=
  if text.length < pos then text else text.take pos ++ val ++ text.drop pos

/-- The loop through the arguments, with `i` spaces passed: how far it goes and how many spaces it has seen. -/
def argumentStart (argumentNum : Nat) (i : Nat) : Bytes → Nat × Nat
  | [] => (0, i)
  | c :: text =>
    if i < argumentNum then
      let i := if c = 32 then i + 1 else i
      if i ≠ argumentNum then
        let (far, i) := argumentStart argumentNum i text
        (far + 1, i)
      else (0, i)
    else (0, i)

/-- Where the argument of the mode at `modePos` is, with the space before it, and how long that is. -/
def argumentAt (serv : Serv) (current : Bytes) (modesLength modePos : Nat) : Nat × Int :=
  let argumentNum := (current.take (modePos + 1)).countP (modeHasArg serv 43 ·)
  let (far, i) := argumentStart argumentNum 0 (current.drop modesLength)
  let offset := modesLength + far
  (offset, if i = argumentNum then 1 + ((current.drop (offset + 1)).takeWhile (· ≠ 32)).length else 0)

/-- `record_chan_mode`: the new `sess->current_modes`. -/
def recordChanMode (serv : Serv) (current : Bytes) (sign mode : UInt8) (arg : Bytes) : Bytes :=
  let modesLength := (current.takeWhile (· ≠ 32)).length
  let modePos := (current.take modesLength).idxOf? mode
  if sign = 43 then
    match modePos with
    | some pos =>
      if modeHasArg serv sign mode then
        let (offset, len) := argumentAt serv current modesLength pos
        gStringInsert (gStringErase current (offset + 1) (len - 1)) (offset + 1) arg
      else current
    | none =>
      let current := gStringInsert current modesLength [mode]
      if modeHasArg serv sign mode then current ++ [32] ++ arg else current
  else if sign = 45 then
    match modePos with
    | some pos =>
      let current :=
        if modeHasArg serv 43 mode then
          let (offset, len) := argumentAt serv current modesLength pos
          gStringErase current offset len
        else current
      gStringErase current pos 1
    | none => current
  else current

/-! ## What the string stands for -/

/-- Neither a sign nor a space. -/
def ModeLetter (c : UInt8) : Prop := c ≠ 43 ∧ c ≠ 45 ∧ c ≠ 32

/-- Letters, each with its argument if it takes one when it is set. -/
structure Entries (serv : Serv) (entries : List (UInt8 × Option Bytes)) : Prop where
  letters : ∀ e ∈ entries, ModeLetter e.1
  distinct : (entries.map Prod.fst).Nodup
  args : ∀ e ∈ entries, e.2.isSome = modeHasArg serv 43 e.1
  words : ∀ e ∈ entries, ∀ arg, e.2 = some arg → 32 ∉ arg

def argsText (args : List Bytes) : Bytes := args.flatMap (32 :: ·)

def modesText (entries : List (UInt8 × Option Bytes)) : Bytes :=
  43 :: entries.map Prod.fst ++ argsText (entries.filterMap Prod.snd)

/-- The string is a plus sign, letters and their arguments, and stands for this map. -/
def Denotes (serv : Serv) (current : Bytes) (modes : UInt8 → Option (Option Bytes)) : Prop :=
  ∃ entries, Entries serv entries ∧ current = modesText entries ∧ ∀ c, modes c = Table.get entries c

structure Change where
  set : Bool
  mode : UInt8
  arg : Option Bytes

/-- A mode with an argument exactly when it takes one for this sign. -/
structure Change.Valid (serv : Serv) (change : Change) : Prop where
  letter : ModeLetter change.mode
  takes : change.arg.isSome = modeHasArg serv (if change.set then 43 else 45) change.mode
  word : ∀ arg, change.arg = some arg → 32 ∉ arg

/-- A mode is set, with its argument, or it is unset. -/
def Change.apply (modes : UInt8 → Option (Option Bytes)) (change : Change) : UInt8 → Option (Option Bytes) :=
  Function.update modes change.mode (if change.set then some change.arg else none)

def Change.record (serv : Serv) (current : Bytes) (change : Change) : Bytes :=
  recordChanMode serv current (if change.set then 43 else 45) change.mode (change.arg.getD [])

/-! ## Offsets -/

theorem erase_middle (pre mid post : Bytes) : gStringErase (pre ++ mid ++ post) pre.length mid.length = pre ++ post := by
  have hlen : (pre ++ mid ++ post).length = pre.length + mid.length + post.length := by
    rw [List.length_append, List.length_append]
  rw [gStringErase, if_neg (by omega), if_neg (by omega), if_neg (by omega), Int.toNat_natCast, List.append_assoc, List.take_left,
    ← List.append_assoc, ← List.length_append, List.drop_left]

theorem insert_middle (pre post val : Bytes) : gStringInsert (pre ++ post) pre.length val = pre ++ val ++ post := by
  rw [gStringInsert, if_neg (by rw [List.length_append]; omega), List.take_left, List.drop_left]

theorem idxOf_middle {mode : UInt8} {pre : Bytes} (h : mode ∉ pre) (post : Bytes) :
    (pre ++ mode :: post).idxOf? mode = some pre.length := by
  induction pre with
  | nil => simp [List.idxOf?_cons]
  | cons c pre ih =>
    rw [List.mem_cons, not_or] at h
    have hne : (c == mode) = false := beq_false_of_ne (Ne.symm h.1)
    rw [List.cons_append, List.idxOf?_cons, hne, ih h.2]
    rfl

theorem takeWhile_modes {letters : Bytes} (h : 32 ∉ letters) (args : List Bytes) :
    (letters ++ argsText args).takeWhile (· ≠ 32) = letters := by
  have hwhole : ∀ c ∈ letters, decide (c ≠ 32) = true := fun c hc => decide_eq_true fun e => h (e ▸ hc)
  rw [List.takeWhile_append_of_pos hwhole]
  cases args with
  | nil => simp [argsText]
  | cons arg args => simp [argsText]

/-- The loop goes through a word. -/
theorem argumentStart_word {argumentNum i : Nat} (hi : i < argumentNum) {word : Bytes} (h : 32 ∉ word) (text : Bytes) :
    argumentStart argumentNum i (word ++ text) =
      (word.length + (argumentStart argumentNum i text).1, (argumentStart argumentNum i text).2) := by
  induction word with
  | nil => simp
  | cons c word ih =>
    rw [List.mem_cons, not_or] at h
    have hc : (if c = 32 then i + 1 else i) = i := if_neg (Ne.symm h.1)
    rw [List.cons_append, argumentStart, if_pos hi]
    simp only [hc]
    rw [if_pos (Nat.ne_of_lt hi), ih h.2, List.length_cons]
    simp only [Prod.mk.injEq, and_true]
    omega

/-- The loop stops at the space after the arguments. -/
theorem argumentStart_args {args : List Bytes} (h : ∀ arg ∈ args, 32 ∉ arg) (i : Nat) (rest : Bytes) :
    argumentStart (i + args.length + 1) i (argsText args ++ 32 :: rest) = ((argsText args).length, i + args.length + 1) := by
  induction args generalizing i with
  | nil => simp [argsText, argumentStart]
  | cons arg args ih =>
    have htext : argsText (arg :: args) ++ 32 :: rest = 32 :: (arg ++ (argsText args ++ 32 :: rest)) := by
      simp [argsText]
    have hnext := ih (fun other hmem => h other (List.mem_cons_of_mem arg hmem)) (i + 1)
    rw [show i + 1 + args.length + 1 = i + (arg :: args).length + 1 by rw [List.length_cons]; omega] at hnext
    rw [htext, argumentStart, if_pos (by omega)]
    simp only [if_true]
    rw [if_pos (by rw [List.length_cons]; omega), argumentStart_word (by rw [List.length_cons]; omega) (h arg List.mem_cons_self),
      hnext]
    simp only [argsText, List.flatMap_cons, List.length_append, List.length_cons, Prod.mk.injEq, and_true]
    omega

/-! ## The layout of the string -/

theorem argsText_append (args args' : List Bytes) : argsText (args ++ args') = argsText args ++ argsText args' :=
  List.flatMap_append

theorem get_middle {mode : UInt8} {pre : List (UInt8 × Option Bytes)} (h : mode ∉ pre.map Prod.fst) (arg : Option Bytes)
    (post : List (UInt8 × Option Bytes)) (c : UInt8) :
    Table.get (pre ++ (mode, arg) :: post) c = if mode = c then some arg else Table.get (pre ++ post) c := by
  induction pre with
  | nil => exact Table.get_cons _ _ _
  | cons e pre ih =>
    rw [List.map_cons, List.mem_cons, not_or] at h
    rw [List.cons_append, List.cons_append, Table.get_cons, Table.get_cons, ih h.2]
    by_cases hc : mode = c
    · rw [if_pos hc, if_pos hc, if_neg fun he => h.1 (hc.trans he.symm)]
    · rw [if_neg hc, if_neg hc]

theorem get_none {mode : UInt8} {entries : List (UInt8 × Option Bytes)} (h : mode ∉ entries.map Prod.fst) :
    Table.get entries mode = none := by
  have hmiddle := get_middle h none []
  rw [← Option.not_isSome_iff_eq_none]
  exact fun hsome => h ((Table.mem_keys_iff entries mode).2 hsome)

namespace Entries

variable {serv : Serv} {entries pre post : List (UInt8 × Option Bytes)} {mode : UInt8} {arg : Option Bytes}

theorem no_space (h : Entries serv entries) : 32 ∉ 43 :: entries.map Prod.fst := by
  rw [List.mem_cons, not_or]
  refine ⟨by decide, fun hmem => ?_⟩
  obtain ⟨e, he, hletter⟩ := List.mem_map.1 hmem
  exact (h.letters e he).2.2 hletter

theorem arg_words (h : Entries serv entries) : ∀ arg ∈ entries.filterMap Prod.snd, 32 ∉ arg := by
  intro arg harg
  obtain ⟨e, he, hsome⟩ := List.mem_filterMap.1 harg
  exact h.words e he arg hsome

/-- As many arguments as letters that take one. -/
theorem count (h : Entries serv entries) :
    (entries.map Prod.fst).countP (modeHasArg serv 43 ·) = (entries.filterMap Prod.snd).length := by
  have hargs := h.args
  clear h
  induction entries with
  | nil => rfl
  | cons e entries ih =>
    have htail := ih fun other hmem => hargs other (List.mem_cons_of_mem e hmem)
    have hhead := hargs e List.mem_cons_self
    rw [List.map_cons, List.countP_cons, htail, ← hhead]
    cases he : e.2 with
    | none => rw [List.filterMap_cons_none he]; rfl
    | some arg => rw [List.filterMap_cons_some he]; rfl

theorem middle_not_mem (h : Entries serv (pre ++ (mode, arg) :: post)) :
    mode ∉ pre.map Prod.fst ∧ mode ∉ post.map Prod.fst := by
  have hdistinct := h.distinct
  rw [List.map_append, List.map_cons, List.nodup_middle, List.nodup_cons, List.mem_append, not_or] at hdistinct
  exact hdistinct.1

theorem of_subset (h : Entries serv entries) {entries' : List (UInt8 × Option Bytes)} (hsub : entries'.Sublist entries) :
    Entries serv entries' where
  letters e he := h.letters e (hsub.subset he)
  distinct := h.distinct.sublist (hsub.map _)
  args e he := h.args e (hsub.subset he)
  words e he := h.words e (hsub.subset he)

/-- The entry of a letter is put in a place where the letter is not. -/
theorem insert (h : Entries serv (pre ++ post)) (hletter : ModeLetter mode) (hnew : mode ∉ (pre ++ post).map Prod.fst)
    (htakes : arg.isSome = modeHasArg serv 43 mode) (hword : ∀ text, arg = some text → 32 ∉ text) :
    Entries serv (pre ++ (mode, arg) :: post) := by
  have hmem : ∀ e ∈ pre ++ (mode, arg) :: post, e = (mode, arg) ∨ e ∈ pre ++ post := by
    intro e he
    rw [List.mem_append, List.mem_cons] at he
    rw [List.mem_append]
    tauto
  refine ⟨fun e he => ?_, ?_, fun e he => ?_, fun e he => ?_⟩
  · rcases hmem e he with rfl | he
    · exact hletter
    · exact h.letters e he
  · rw [List.map_append, List.map_cons, List.nodup_middle, ← List.map_append]
    exact List.nodup_cons.2 ⟨hnew, h.distinct⟩
  · rcases hmem e he with rfl | he
    · exact htakes
    · exact h.args e he
  · rcases hmem e he with rfl | he
    · exact hword
    · exact h.words e he

end Entries

theorem length_letters (entries : List (UInt8 × Option Bytes)) :
    (43 :: entries.map Prod.fst).length = entries.length + 1 := by
  rw [List.length_cons, List.length_map]

/-- Where the arguments behind the letters end. -/
theorem length_front (entries : List (UInt8 × Option Bytes)) (args : List Bytes) :
    (43 :: entries.map Prod.fst ++ argsText args).length = entries.length + 1 + (argsText args).length := by
  rw [List.length_append, length_letters]

theorem modesText_length {serv : Serv} {entries : List (UInt8 × Option Bytes)} (h : Entries serv entries) :
    ((modesText entries).takeWhile (· ≠ 32)).length = entries.length + 1 ∧
      (modesText entries).take (entries.length + 1) = 43 :: entries.map Prod.fst := by
  rw [modesText, takeWhile_modes h.no_space, ← length_letters]
  exact ⟨rfl, List.take_left⟩

/-- The letters and arguments around one. -/
theorem modesText_middle (pre post : List (UInt8 × Option Bytes)) (mode : UInt8) (arg : Bytes) :
    modesText (pre ++ (mode, some arg) :: post) = 43 :: (pre ++ (mode, some arg) :: post).map Prod.fst ++
      argsText (pre.filterMap Prod.snd) ++ 32 :: (arg ++ argsText (post.filterMap Prod.snd)) := by
  simp [modesText, argsText]

/-- **The argument of a letter is found.** -/
theorem argumentAt_middle {serv : Serv} (hplus : modeHasArg serv 43 43 = false) {pre post : List (UInt8 × Option Bytes)}
    {mode : UInt8} {arg : Bytes} (h : Entries serv (pre ++ (mode, some arg) :: post)) :
    argumentAt serv (modesText (pre ++ (mode, some arg) :: post)) ((pre ++ (mode, some arg) :: post).length + 1)
        (pre.length + 1) =
      ((pre ++ (mode, some arg) :: post).length + 1 + (argsText (pre.filterMap Prod.snd)).length,
        ((32 :: arg).length : Int)) := by
  set entries := pre ++ (mode, some arg) :: post with hentries
  have hpre : Entries serv pre := h.of_subset (List.sublist_append_left _ _)
  have hown : modeHasArg serv 43 mode = true := (h.args (mode, some arg) (by simp [hentries])).symm
  have hcount : ((modesText entries).take (pre.length + 1 + 1)).countP (modeHasArg serv 43 ·) =
      0 + (pre.filterMap Prod.snd).length + 1 := by
    have htake : (modesText entries).take (pre.length + 1 + 1) = 43 :: pre.map Prod.fst ++ [mode] := by
      have hsplit : modesText entries = (43 :: pre.map Prod.fst ++ [mode]) ++ (post.map Prod.fst ++
          argsText (entries.filterMap Prod.snd)) := by
        rw [modesText, hentries]
        simp
      have hlen : (43 :: pre.map Prod.fst ++ [mode]).length = pre.length + 1 + 1 := by simp
      rw [hsplit, ← hlen, List.take_left]
    rw [htake, List.countP_append, List.countP_cons_of_neg (by rw [hplus]; decide), hpre.count, List.countP_singleton, hown,
      if_pos rfl, Nat.zero_add]
  have hdrop : (modesText entries).drop (entries.length + 1) =
      argsText (pre.filterMap Prod.snd) ++ 32 :: (arg ++ argsText (post.filterMap Prod.snd)) := by
    rw [hentries, modesText_middle, List.append_assoc, ← hentries, ← length_letters, List.drop_left]
  have hafter : (modesText entries).drop (entries.length + 1 + (argsText (pre.filterMap Prod.snd)).length + 1) =
      arg ++ argsText (post.filterMap Prod.snd) := by
    rw [Nat.add_assoc, ← List.drop_drop, hdrop, ← List.drop_drop, List.drop_left, List.drop_one, List.tail_cons]
  rw [argumentAt]
  dsimp only
  rw [hcount, hdrop, argumentStart_args hpre.arg_words, hafter, if_pos rfl,
    takeWhile_modes (h.words (mode, some arg) (by simp [hentries]) arg rfl)]
  simp only [Prod.mk.injEq, true_and, List.length_cons]
  omega

/-- A letter that is not there is not found. -/
theorem idxOf_absent {entries : List (UInt8 × Option Bytes)} {mode : UInt8} (hletter : ModeLetter mode)
    (hnew : mode ∉ entries.map Prod.fst) : (43 :: entries.map Prod.fst).idxOf? mode = none := by
  rw [List.idxOf?_eq_none_iff, List.mem_cons, not_or]
  exact ⟨hletter.1, hnew⟩

theorem idxOf_letter {serv : Serv} {pre post : List (UInt8 × Option Bytes)} {mode : UInt8} {arg : Option Bytes}
    (h : Entries serv (pre ++ (mode, arg) :: post)) :
    (43 :: (pre ++ (mode, arg) :: post).map Prod.fst).idxOf? mode = some (pre.length + 1) := by
  have hletter : mode ≠ 43 := (h.letters (mode, arg) (by simp)).1
  have hnot : mode ∉ 43 :: pre.map Prod.fst := by
    rw [List.mem_cons, not_or]
    exact ⟨hletter, h.middle_not_mem.1⟩
  have hfound := idxOf_middle hnot (post.map Prod.fst)
  rw [List.length_cons, List.length_map] at hfound
  rw [List.map_append, List.map_cons]
  exact hfound

/-! ## The edits -/

section

variable {serv : Serv} {pre post entries : List (UInt8 × Option Bytes)} {mode : UInt8} {arg : Bytes}

/-- A letter that is there gets a new argument. -/
theorem record_replace (hplus : modeHasArg serv 43 43 = false) (h : Entries serv (pre ++ (mode, some arg) :: post))
    (new : Bytes) : recordChanMode serv (modesText (pre ++ (mode, some arg) :: post)) 43 mode new =
      modesText (pre ++ (mode, some new) :: post) := by
  obtain ⟨hlen, htake⟩ := modesText_length h
  have htakes : modeHasArg serv 43 mode = true := (h.args (mode, some arg) (by simp)).symm
  rw [recordChanMode]
  dsimp only
  rw [hlen, htake, if_pos rfl, idxOf_letter h]
  dsimp only
  rw [if_pos htakes, argumentAt_middle hplus h]
  dsimp only
  -- the string up to the space, the argument and the rest
  have hfront : (43 :: (pre ++ (mode, some arg) :: post).map Prod.fst ++ argsText (pre.filterMap Prod.snd) ++ [32]).length =
      (pre ++ (mode, some arg) :: post).length + 1 + (argsText (pre.filterMap Prod.snd)).length + 1 := by
    rw [List.length_append, length_front, List.length_singleton]
  have hcurrent : modesText (pre ++ (mode, some arg) :: post) =
      (43 :: (pre ++ (mode, some arg) :: post).map Prod.fst ++ argsText (pre.filterMap Prod.snd) ++ [32]) ++ arg ++
        argsText (post.filterMap Prod.snd) := by
    rw [modesText_middle]
    simp
  have hargLen : ((32 :: arg).length : Int) - 1 = arg.length := by
    rw [List.length_cons]
    omega
  rw [hargLen, hcurrent, ← hfront, erase_middle, insert_middle, modesText_middle]
  simp

/-- A letter without an argument that is there stays. -/
theorem record_keep (h : Entries serv (pre ++ (mode, none) :: post)) (new : Bytes) :
    recordChanMode serv (modesText (pre ++ (mode, none) :: post)) 43 mode new = modesText (pre ++ (mode, none) :: post) := by
  obtain ⟨hlen, htake⟩ := modesText_length h
  have htakes : modeHasArg serv 43 mode = false := (h.args (mode, none) (by simp)).symm
  rw [recordChanMode]
  dsimp only
  rw [hlen, htake, if_pos rfl, idxOf_letter h]
  dsimp only
  rw [if_neg (by rw [htakes]; decide)]

/-- A new letter comes last, and so does its argument. -/
theorem record_add (h : Entries serv entries) (hletter : ModeLetter mode) (hnew : mode ∉ entries.map Prod.fst)
    {new : Option Bytes} (htakes : new.isSome = modeHasArg serv 43 mode) :
    recordChanMode serv (modesText entries) 43 mode (new.getD []) = modesText (entries ++ [(mode, new)]) := by
  obtain ⟨hlen, htake⟩ := modesText_length h
  have hinsert : gStringInsert (modesText entries) (entries.length + 1) [mode] =
      43 :: entries.map Prod.fst ++ [mode] ++ argsText (entries.filterMap Prod.snd) := by
    rw [modesText, ← length_letters, insert_middle]
  rw [recordChanMode]
  dsimp only
  rw [hlen, htake, if_pos rfl, idxOf_absent hletter hnew]
  dsimp only
  rw [hinsert, ← htakes]
  cases new with
  | none => simp [modesText]
  | some arg => simp [modesText, argsText]

/-- A letter goes, with its argument. -/
theorem record_remove (hplus : modeHasArg serv 43 43 = false) {old : Option Bytes}
    (h : Entries serv (pre ++ (mode, old) :: post)) (new : Bytes) :
    recordChanMode serv (modesText (pre ++ (mode, old) :: post)) 45 mode new = modesText (pre ++ post) := by
  obtain ⟨hlen, htake⟩ := modesText_length h
  have htakes : old.isSome = modeHasArg serv 43 mode := h.args (mode, old) (by simp)
  -- what is left once the argument is gone
  have hletter : gStringErase (43 :: (pre ++ (mode, old) :: post).map Prod.fst ++
      (argsText (pre.filterMap Prod.snd) ++ argsText (post.filterMap Prod.snd))) (pre.length + 1) 1 =
      modesText (pre ++ post) := by
    have hsplit : 43 :: (pre ++ (mode, old) :: post).map Prod.fst ++
        (argsText (pre.filterMap Prod.snd) ++ argsText (post.filterMap Prod.snd)) =
        (43 :: pre.map Prod.fst) ++ [mode] ++ (post.map Prod.fst ++
          (argsText (pre.filterMap Prod.snd) ++ argsText (post.filterMap Prod.snd))) := by simp
    have herase := erase_middle (43 :: pre.map Prod.fst) [mode] (post.map Prod.fst ++
      (argsText (pre.filterMap Prod.snd) ++ argsText (post.filterMap Prod.snd)))
    rw [length_letters] at herase
    rw [hsplit]
    refine Eq.trans herase ?_
    rw [modesText, List.filterMap_append, argsText_append]
    simp
  rw [recordChanMode]
  dsimp only
  rw [hlen, htake, if_neg (by decide), if_pos rfl, idxOf_letter h]
  dsimp only
  cases old with
  | none =>
    rw [if_neg (by rw [← htakes]; decide), ← hletter]
    simp [modesText, argsText]
  | some arg =>
    have hcurrent : modesText (pre ++ (mode, some arg) :: post) =
        (43 :: (pre ++ (mode, some arg) :: post).map Prod.fst ++ argsText (pre.filterMap Prod.snd)) ++ (32 :: arg) ++
          argsText (post.filterMap Prod.snd) := by
      rw [modesText_middle]
      simp
    have hyes : modeHasArg serv 43 mode = true := htakes.symm
    rw [if_pos hyes, argumentAt_middle hplus h]
    dsimp only
    rw [hcurrent, ← length_front, erase_middle, ← hletter, List.append_assoc]

/-- A letter that is not there cannot go. -/
theorem record_absent (h : Entries serv entries) (hletter : ModeLetter mode) (hnew : mode ∉ entries.map Prod.fst)
    (new : Bytes) : recordChanMode serv (modesText entries) 45 mode new = modesText entries := by
  obtain ⟨hlen, htake⟩ := modesText_length h
  rw [recordChanMode]
  dsimp only
  rw [hlen, htake, if_neg (by decide), if_pos rfl, idxOf_absent hletter hnew]

end

/-! ## The map -/

/-- **One change**: the string stays of its form, and the map changes at its letter only. -/
theorem record_denotes {serv : Serv} (hplus : modeHasArg serv 43 43 = false) {current : Bytes}
    {modes : UInt8 → Option (Option Bytes)} (h : Denotes serv current modes) {change : Change} (hvalid : change.Valid serv) :
    Denotes serv (change.record serv current) (change.apply modes) := by
  obtain ⟨entries, hentries, rfl, hmodes⟩ := h
  obtain ⟨set, mode, arg⟩ := change
  have hmap : ∀ c value, Function.update modes mode value c = if mode = c then value else modes c := by
    intro c value
    by_cases hc : mode = c
    · rw [if_pos hc, ← hc, Function.update_self]
    · rw [if_neg hc, Function.update_of_ne (Ne.symm hc)]
  have hkeep : (∀ c, mode = c → modes c = if set then some arg else none) →
      ∀ c, Change.apply modes ⟨set, mode, arg⟩ c = Table.get entries c := by
    intro hsame c
    rw [Change.apply, hmap, ← hmodes]
    split
    · rename_i hc
      exact (hsame c hc).symm
    · rfl
  by_cases hmem : mode ∈ entries.map Prod.fst
  · obtain ⟨⟨mode, old⟩, he, rfl⟩ := List.mem_map.1 hmem
    obtain ⟨pre, post, rfl⟩ := List.append_of_mem he
    dsimp only at hmap hkeep hvalid ⊢
    obtain ⟨hpre, hpost⟩ := hentries.middle_not_mem
    have hown : old.isSome = modeHasArg serv 43 mode := hentries.args (mode, old) (by simp)
    have hrest : Entries serv (pre ++ post) := hentries.of_subset (List.Sublist.append_left (List.sublist_cons_self _ _) _)
    have hnot : mode ∉ (pre ++ post).map Prod.fst := by
      rw [List.map_append, List.mem_append, not_or]
      exact ⟨hpre, hpost⟩
    cases set with
    | false =>
      refine ⟨pre ++ post, hrest, record_remove hplus hentries _, fun c => ?_⟩
      rw [Change.apply, hmap]
      dsimp only
      split
      · rename_i hc
        exact (hc ▸ get_none hnot).symm
      · rename_i hc
        rw [hmodes, get_middle hpre, if_neg hc]
    | true =>
      have htakes : arg.isSome = modeHasArg serv 43 mode := hvalid.takes
      cases old with
      | none =>
        obtain rfl : arg = none := by
          rw [← Option.isNone_iff_eq_none, ← Option.isSome_eq_false_iff, htakes, ← hown]
          rfl
        refine ⟨_, hentries, record_keep hentries _, hkeep fun c hc => ?_⟩
        rw [hmodes, get_middle hpre, if_pos hc]
        rfl
      | some old =>
        obtain ⟨new, rfl⟩ : ∃ new, arg = some new := Option.isSome_iff_exists.1 (by rw [htakes, ← hown]; rfl)
        have hletter := hvalid.letter
        refine ⟨pre ++ (mode, some new) :: post, hrest.insert hletter hnot htakes hvalid.word, record_replace hplus hentries new,
          fun c => ?_⟩
        rw [Change.apply, hmap, get_middle hpre]
        dsimp only
        split
        · rfl
        · rename_i hc
          rw [hmodes, get_middle hpre, if_neg hc]
  · have hnone := get_none hmem
    cases set with
    | false =>
      refine ⟨entries, hentries, record_absent hentries hvalid.letter hmem _, hkeep fun c hc => ?_⟩
      rw [hmodes, ← hc, hnone]
      rfl
    | true =>
      have htakes : arg.isSome = modeHasArg serv 43 mode := hvalid.takes
      have hadd : Entries serv (entries ++ (mode, arg) :: []) := by
        refine Entries.insert ?_ hvalid.letter ?_ htakes hvalid.word
        · rwa [List.append_nil]
        · rwa [List.append_nil]
      refine ⟨entries ++ [(mode, arg)], hadd, record_add hentries hvalid.letter hmem htakes, fun c => ?_⟩
      rw [Change.apply, hmap, get_middle hmem, List.append_nil, hmodes]
      rfl

/-- **The modes of a channel**: after any changes, the string is of its form and stands for the map with the changes applied. -/
theorem recordChanModes_denote {serv : Serv} (hplus : modeHasArg serv 43 43 = false) {current : Bytes}
    {modes : UInt8 → Option (Option Bytes)} (h : Denotes serv current modes) {changes : List Change}
    (hvalid : ∀ change ∈ changes, change.Valid serv) :
    Denotes serv (changes.foldl (Change.record serv) current) (changes.foldl Change.apply modes) := by
  induction changes generalizing current modes with
  | nil => exact h
  | cons change changes ih =>
    have hstep := record_denotes hplus h (hvalid change List.mem_cons_self)
    exact ih hstep fun other hmem => hvalid other (List.mem_cons_of_mem change hmem)

/-- `+kl key 10`, and then a new key, no limit and `n`. -/
theorem recordChanModes_denote_kl : Denotes plainServ
    ([⟨true, 107, some (bytes "new")⟩, ⟨false, 108, none⟩, ⟨true, 110, none⟩].foldl (Change.record plainServ)
      (bytes "+kl key 10"))
    ([⟨true, 107, some (bytes "new")⟩, ⟨false, 108, none⟩, ⟨true, 110, none⟩].foldl Change.apply
      (Table.get [(107, some (bytes "key")), (108, some (bytes "10"))])) := by
  refine @recordChanModes_denote plainServ (by decide) _ _ ⟨[(107, some (bytes "key")), (108, some (bytes "10"))],
    ⟨?_, by decide, ?_, ?_⟩, rfl, fun _ => rfl⟩ _ ?_
  · exact List.forall_mem_cons.2 ⟨⟨by decide, by decide, by decide⟩, List.forall_mem_singleton.2 ⟨by decide, by decide, by decide⟩⟩
  · exact List.forall_mem_cons.2 ⟨by decide, List.forall_mem_singleton.2 (by decide)⟩
  · refine List.forall_mem_cons.2 ⟨fun arg harg => ?_, List.forall_mem_singleton.2 fun arg harg => ?_⟩
    · cases harg
      decide
    · cases harg
      decide
  · intro change hchange
    simp only [List.mem_cons, List.not_mem_nil, or_false] at hchange
    rcases hchange with rfl | rfl | rfl
    · refine ⟨⟨by decide, by decide, by decide⟩, by decide, fun arg harg => ?_⟩
      cases harg
      decide
    · exact ⟨⟨by decide, by decide, by decide⟩, by decide, fun arg harg => nomatch harg⟩
    · exact ⟨⟨by decide, by decide, by decide⟩, by decide, fun arg harg => nomatch harg⟩

/-! ## One map -/

theorem argsText_inj {args args' : List Bytes} (h : ∀ arg ∈ args, 32 ∉ arg) (h' : ∀ arg ∈ args', 32 ∉ arg)
    (heq : argsText args = argsText args') : args = args' := by
  induction args generalizing args' with
  | nil =>
    cases args' with
    | nil => rfl
    | cons arg' args' => cases heq
  | cons arg args ih =>
    cases args' with
    | nil => cases heq
    | cons arg' args' =>
      have hrest : arg ++ argsText args = arg' ++ argsText args' := List.tail_eq_of_cons_eq heq
      have harg : arg = arg' := by
        rw [← takeWhile_modes (h arg List.mem_cons_self) args, hrest, takeWhile_modes (h' arg' List.mem_cons_self)]
      subst harg
      rw [ih (fun other hmem => h other (List.mem_cons_of_mem arg hmem))
        (fun other hmem => h' other (List.mem_cons_of_mem arg hmem)) (List.append_cancel_left hrest)]

/-- Letters and arguments pair in one way. -/
theorem entries_eq {serv : Serv} {entries entries' : List (UInt8 × Option Bytes)}
    (h : ∀ e ∈ entries, e.2.isSome = modeHasArg serv 43 e.1) (h' : ∀ e ∈ entries', e.2.isSome = modeHasArg serv 43 e.1)
    (hletters : entries.map Prod.fst = entries'.map Prod.fst)
    (hargs : entries.filterMap Prod.snd = entries'.filterMap Prod.snd) : entries = entries' := by
  induction entries generalizing entries' with
  | nil => exact (List.map_eq_nil_iff.1 hletters.symm).symm
  | cons e entries ih =>
    cases entries' with
    | nil => cases hletters
    | cons e' entries' =>
      obtain ⟨mode, arg⟩ := e
      obtain ⟨mode', arg'⟩ := e'
      rw [List.map_cons, List.map_cons, List.cons.injEq] at hletters
      obtain ⟨rfl, hletters⟩ := hletters
      have htail := fun other hmem => h other (List.mem_cons_of_mem (mode, arg) hmem)
      have htail' := fun other hmem => h' other (List.mem_cons_of_mem (mode, arg') hmem)
      have hboth : arg.isSome = arg'.isSome := (h _ List.mem_cons_self).trans (h' _ List.mem_cons_self).symm
      cases arg with
      | none =>
        obtain rfl : arg' = none := Option.not_isSome_iff_eq_none.1 (by rw [← hboth]; decide)
        rw [ih htail htail' hletters hargs]
      | some arg =>
        obtain ⟨new, rfl⟩ := Option.isSome_iff_exists.1 hboth.symm
        simp only [List.filterMap_cons, List.cons.injEq] at hargs
        obtain ⟨rfl, hargs⟩ := hargs
        rw [ih htail htail' hletters hargs]

/-- **A string stands for one map.** -/
theorem Denotes.unique {serv : Serv} {current : Bytes} {modes modes' : UInt8 → Option (Option Bytes)}
    (h : Denotes serv current modes) (h' : Denotes serv current modes') : modes = modes' := by
  obtain ⟨entries, hentries, rfl, hmodes⟩ := h
  obtain ⟨entries', hentries', heq, hmodes'⟩ := h'
  have hletters : 43 :: entries.map Prod.fst = 43 :: entries'.map Prod.fst := by
    rw [← takeWhile_modes hentries.no_space (entries.filterMap Prod.snd), ← modesText, heq, modesText,
      takeWhile_modes hentries'.no_space]
  have hargs : argsText (entries.filterMap Prod.snd) = argsText (entries'.filterMap Prod.snd) := by
    rw [modesText, modesText, hletters] at heq
    exact List.append_cancel_left heq
  obtain rfl := entries_eq hentries.args hentries'.args (List.tail_eq_of_cons_eq hletters)
    (argsText_inj hentries.arg_words hentries'.arg_words hargs)
  funext c
  rw [hmodes, hmodes']

end PoxChat.Modes
