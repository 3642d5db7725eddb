import PoxChat.Modes.Display

/-!
# MODE, from history

Model of `chathistory_replay_mode` and of what it is given: the parameters that `inbound_batch_add_message` collects
from a line, and the MODE branch of `process_batch_message`. What is replayed is compared with what `handle_mode`
displays for the same line.

* `ReadsAlike` — the lines whose letters are all read alike.

Principal result: `replay_alike_iff` — a line from history is displayed as it is live exactly when it reads alike: its
mode string begins with a sign, it is not a trailing parameter with something after it, and every letter whose argument
is shown gets the same one although `chathistory_replay_mode` does not know the rule that a line with as many arguments
as letters gives one to each.
-/

set_option autoImplicit false

namespace PoxChat.Modes

open Lib
open Outbound (Bytes bytes cString)
open Inbound (processDataInit wordsFrom wordsFrom_head wholeChars)

/-! ## The model -/

/-- The parameters that `inbound_batch_add_message` collects. -/
def batchParams : List (Bytes × Bytes) → List Bytes
  | [] => []
  | (word, eol) :: words =>
    if word = [] then [] else if word.head? = some 58 then [eol] else word :: batchParams words

/-- The loop of `chathistory_mode_has_arg`. -/
def hasArgFrom (sign mode : UInt8) : Nat → Bytes → Bool
  | _, [] => false
  | type, c :: cm =>
    if c = 44 then hasArgFrom sign mode (type + 1) cm
    else if c = mode then if type = 0 ∨ type = 1 then true else if type = 2 then sign = 43 else false
    else hasArgFrom sign mode type cm

/-- `chathistory_mode_has_arg`. -/
def chathistoryModeHasArg (serv : Serv) (sign mode : UInt8) : Bool :=
  if serv.nickModes ≠ [] ∧ mode ∈ serv.nickModes then true else hasArgFrom sign mode 0 serv.chanmodes

/-- `chathistory_server_supports_quiet`. -/
def chathistoryServerSupportsQuiet (serv : Serv) : Bool := supportsq serv.chanmodes

/-- The loop of `chathistory_replay_mode`. -/
def replayFrom (serv : Serv) (sess : Sess) (nick : Bytes) : UInt8 → ModeRun → List Bytes → Bytes → List Emitted
  | _, mr, _, [] => modePrintGrouped sess.id nick mr
  | sign, mr, args, c :: modes =>
    if isSign c then modePrintGrouped sess.id nick mr ++ replayFrom serv sess nick c noNames args modes
    else
      let takes := chathistoryModeHasArg serv sign c && !args.isEmpty
      let arg := if takes then stripColon (args.head?.getD []) else []
      let args := if takes then args.tail else args
      match showing (chathistoryServerSupportsQuiet serv) sign c with
      | .grouped slot => replayFrom serv sess nick sign (mr.cat slot arg) args modes
      | .event e withArg =>
        ⟨sess.id, e, nick :: if withArg then [arg] else []⟩ :: replayFrom serv sess nick sign mr args modes
      | .generic =>
        ⟨sess.id, .chanmodegen, [nick, [sign], [c], genText sess.channel arg]⟩ ::
          replayFrom serv sess nick sign mr args modes

/-- `chathistory_replay_mode`. -/
def chathistoryReplayMode (serv : Serv) (sess : Sess) (nick modeStr : Bytes) (args : List Bytes) : List Emitted :=
  replayFrom serv sess nick 43 noNames args modeStr

/-- The MODE branch of `process_batch_message`. -/
def processBatchMode (serv : Serv) (sess : Sess) (nick : Bytes) : List Bytes → List Emitted
  | _ :: modeStr :: args => chathistoryReplayMode serv sess nick (stripColon modeStr) args
  | _ => []

/-- The text events for a MODE line from history. -/
def replayed (serv : Serv) (sess : Sess) (nick line : Bytes) : List Emitted :=
  processBatchMode serv sess nick (batchParams ((processDataInit (cString line)).drop 2))

/-! ## Lines that read alike -/

/-- A mode string that is empty, or begins with a sign and has only letters that are read alike. -/
def ModesAlike (serv : Serv) (sess : Sess) (chan : Bytes) (args args' : List Bytes) : Bytes → Prop
  | [] => True
  | sign :: modes => isSign sign = true ∧
    List.Forall₂ (Token.Alike (supportsq serv.chanmodes) chan sess.channel)
      (liveTokens serv sign args modes) (tokens (modeHasArg serv) sign args' modes)

/-- **A line that reads alike.** A channel given as a trailing parameter leaves a replay without a mode string. -/
def ReadsAlike (serv : Serv) (sess : Sess) (line : Bytes) : Prop :=
  let words := processDataInit (cString line)
  let chan := word words 3
  let modes := stripColon (word words 4)
  if chan.head? = some 58 then ∀ c ∈ modes.tail, isSign c = true
  else
    ((word words 4).head? = some 58 → wordEol words 4 = word words 4) ∧
    ModesAlike serv sess chan (modeArgs (words.drop 4)) ((batchParams (words.drop 4)).map stripColon) modes

instance (serv : Serv) (sess : Sess) (chan : Bytes) (args args' : List Bytes) (modes : Bytes) :
    Decidable (ModesAlike serv sess chan args args' modes) :=
  match modes with
  | [] => .isTrue trivial
  | _ :: _ => inferInstanceAs (Decidable (_ ∧ List.Forall₂ _ _ _))

/-! ## The replay as tokens -/

section Text

variable {serv : Serv} {sess : Sess} {nick : Bytes}

theorem hasArgFrom_eq (sign mode : UInt8) (cm : Bytes) : ∀ type : Nat,
    hasArgFrom sign mode type cm =
      let found := chanmodeTypeFrom mode type cm
      if found = 0 ∨ found = 1 then true else if found = 2 then decide (sign = 43) else false := by
  induction cm with
  | nil => intro type; rfl
  | cons c cm ih =>
    intro type
    rw [hasArgFrom, chanmodeTypeFrom]
    split_ifs with h44 hmode h01 h2
    · exact ih (type + 1)
    · have hfound : (type : Int) = 0 ∨ (type : Int) = 1 := by omega
      simp only [if_pos hfound]
    · have h01' : ¬ ((type : Int) = 0 ∨ (type : Int) = 1) := by omega
      have h2' : (type : Int) = 2 := by omega
      simp only [if_neg h01', if_pos h2']
    · have h01' : ¬ ((type : Int) = 0 ∨ (type : Int) = 1) := by omega
      have h2' : ¬ (type : Int) = 2 := by omega
      simp only [if_neg h01', if_neg h2']
    · exact ih type

/-- The two rules for single letters agree. -/
theorem chathistoryModeHasArg_eq (serv : Serv) (sign mode : UInt8) :
    chathistoryModeHasArg serv sign mode = modeHasArg serv sign mode := by
  unfold chathistoryModeHasArg modeHasArg
  by_cases hmode : mode ∈ serv.nickModes
  · rw [if_pos ⟨List.ne_nil_of_mem hmode, hmode⟩, if_pos hmode]
  · rw [if_neg fun h => hmode h.2, if_neg hmode, hasArgFrom_eq]
    rfl

theorem replayFrom_eq (modes : Bytes) : ∀ sign mr args,
    replayFrom serv sess nick sign mr args modes =
      display (supportsq serv.chanmodes) sess.id nick sess.channel mr
        (tokens (modeHasArg serv) sign (args.map stripColon) modes) := by
  induction modes with
  | nil => intro sign mr args; rfl
  | cons c modes ih =>
    intro sign mr args
    have hhead : (args.map stripColon).head?.getD [] = stripColon (args.head?.getD []) := by
      cases args <;> rfl
    rw [replayFrom, tokens]
    by_cases hsign : isSign c = true
    · rw [if_pos hsign, if_pos hsign, ih]
      rfl
    · rw [if_neg hsign, if_neg hsign, chathistoryModeHasArg_eq, List.isEmpty_map, hhead, ← List.map_tail]
      dsimp only
      split_ifs
      · rw [display, chathistoryServerSupportsQuiet]
        cases showing (supportsq serv.chanmodes) sign c <;> simp only [ih]
      · rw [display, chathistoryServerSupportsQuiet]
        cases showing (supportsq serv.chanmodes) sign c <;> simp only [ih]

end Text

/-! ## The words of a line -/

section Words

/-- The first of the words that are left: spaces, the word, and the end or a space and the words after it. -/
theorem take_wordsFrom (r : Bytes) (k : Nat) : ∃ n w rest words,
    (wordsFrom [] r 0 true r).take (k + 1) = (w, r) :: words ∧ r = List.replicate n 32 ++ w ++ rest ∧
      (words = [] ∧ rest = [] ∨ ∃ r', rest = 32 :: r' ∧ words = (wordsFrom [] r' 0 true r').take k ∧
        wholeChars 0 w = true ∧ w ≠ []) := by
  obtain ⟨n, w, rest, words, hwords, hr, -, hend⟩ := wordsFrom_head r [] r 0 true
  refine ⟨n, w, rest, words.take k, by rw [hwords]; rfl, hr, ?_⟩
  rcases hend with ⟨rfl, hrest⟩ | ⟨r', hrest, rfl, hwhole, hne⟩
  · exact .inl ⟨List.take_nil, hrest⟩
  · exact .inr ⟨r', hrest, rfl, hwhole, hne rfl⟩

/-- Every word before the last is whole. -/
theorem dropLast_wordsFrom (k : Nat) : ∀ r, ∀ w ∈ ((wordsFrom [] r 0 true r).take k).dropLast,
    wholeChars 0 w.1 = true := by
  induction k with
  | zero =>
    intro r w hw
    cases hw
  | succ k ih =>
    intro r w hw
    obtain ⟨n, first, rest, words, htake, -, hend⟩ := take_wordsFrom r k
    rw [htake] at hw
    rcases hend with ⟨rfl, -⟩ | ⟨r', -, rfl, hwhole, -⟩
    · cases hw
    · by_cases hnil : (wordsFrom [] r' 0 true r').take k = []
      · rw [hnil] at hw
        cases hw
      · rw [List.dropLast_cons_of_ne_nil hnil] at hw
        rcases List.mem_cons.1 hw with rfl | hw
        · exact hwhole
        · exact ih r' w hw

/-- From the third word on. -/
theorem drop_two_words (line : Bytes) : (processDataInit line).drop 2 = [] ∨
    ∃ r, (processDataInit line).drop 2 = (wordsFrom [] r 0 true r).take 29 ∧ ∀ b ∈ r, b ∈ line := by
  unfold processDataInit
  obtain ⟨n, w, rest, words, hwords, hline, -, hend⟩ := wordsFrom_head line [] line 0 false
  rw [hwords]
  rcases hend with ⟨rfl, -⟩ | ⟨r, rfl, rfl, -⟩
  · exact .inl rfl
  obtain ⟨n', w', rest', words', htake, hr, hend'⟩ := take_wordsFrom r 29
  have hdrop : (([] ++ w, line) :: wordsFrom [] r 0 true r).take (Inbound.PDIWORDS - 1) =
      ([] ++ w, line) :: (wordsFrom [] r 0 true r).take 30 := rfl
  rw [hdrop, htake]
  rcases hend' with ⟨rfl, -⟩ | ⟨r', rfl, rfl, -⟩
  · exact .inl rfl
  · refine .inr ⟨r', rfl, fun b hb => ?_⟩
    rw [hline, hr]
    simp [hb]

theorem word_succ (words : List (Bytes × Bytes)) (i : Nat) :
    word words (i + 1) = ((words.drop i).head?.map (·.1)).getD [] := by
  rw [word, Nat.add_sub_cancel, List.getElem?_map, List.head?_drop]

theorem wordEol_succ (words : List (Bytes × Bytes)) (i : Nat) :
    wordEol words (i + 1) = ((words.drop i).head?.map (·.2)).getD [] := by
  rw [wordEol, Nat.add_sub_cancel, List.getElem?_map, List.head?_drop]

/-- The two readings of the arguments. -/
theorem argPairs_words (words : List (Bytes × Bytes)) (h : ∀ w ∈ words.dropLast, wholeChars 0 w.1 = true) :
    ArgPairs (modeArgs words) ((batchParams words).map stripColon) := by
  induction words with
  | nil => exact .nil
  | cons w words ih =>
    obtain ⟨word, eol⟩ := w
    rw [modeArgs, batchParams]
    split_ifs with hnil hcolon
    · exact .nil
    · exact .last _ _
    · have hstrip : stripColon word = word := if_neg hcolon
      rw [List.map_cons, hstrip]
      cases words with
      | nil => exact .last word word
      | cons w words =>
        rw [List.dropLast_cons_cons] at h
        exact .word (h _ List.mem_cons_self) (ih fun v hv => h v (List.mem_cons_of_mem _ hv))

end Words

/-! ## Replay and live -/

section Alike

variable {serv : Serv} {sess : Sess} {nick chan : Bytes}

/-- **One mode string**, with the arguments of a line. -/
theorem modes_alike_iff (hlen : chan.length = sess.channel.length) {args args' : List Bytes} (h : ArgPairs args args')
    (modes : Bytes) :
    display (supportsq serv.chanmodes) sess.id nick sess.channel noNames (tokens (modeHasArg serv) 43 args' modes) =
      liveDisplay serv sess nick chan args modes ↔ ModesAlike serv sess chan args args' modes := by
  cases modes with
  | nil => exact iff_of_true rfl trivial
  | cons c modes =>
    rw [ModesAlike, liveDisplay]
    by_cases hc : isSign c = true
    · have hsep := separated_live serv c modes h
      rw [tokens_sign _ 43 args' hc, display, modePrintGrouped_noNames, List.nil_append, eq_comm,
        display_eq_iff hsep.same_skeleton noNames noNames fun _ => rfl, sameText_iff hlen hsep]
      exact (and_iff_right hc).symm
    · refine iff_of_false ?_ fun h => hc h.1
      exact unsigned_ne (by simpa using hc) modes args args'

/-- A mode string that is a trailing parameter: replayed, it goes on to the end of the line, and begins with the spaces
before it. -/
theorem trailing_ne {m eol rest : Bytes} {n : Nat} (heol : eol = List.replicate n 32 ++ 58 :: m ++ rest)
    (hne : eol ≠ 58 :: m) (hrest : rest = [] ∨ ∃ r, rest = 32 :: r) (args : List Bytes) :
    display (supportsq serv.chanmodes) sess.id nick sess.channel noNames
      (tokens (modeHasArg serv) 43 [] (stripColon eol)) ≠ liveDisplay serv sess nick chan args m := by
  have hlive : m = [] ∧ liveDisplay serv sess nick chan args m = [] ∨ ∃ c modes takes args', m = c :: modes ∧
      liveDisplay serv sess nick chan args m =
        display (supportsq serv.chanmodes) sess.id nick chan noNames (tokens takes c args' modes) := by
    cases m with
    | nil => exact .inl ⟨rfl, rfl⟩
    | cons c modes => exact .inr ⟨c, modes, _, args, rfl, rfl⟩
  cases n with
  | zero =>
    have hstrip : stripColon eol = [] ++ m ++ rest := by
      rw [heol]
      rfl
    refine longer_ne hstrip rfl ?_ hlive []
    rcases hrest with rfl | ⟨r, rfl⟩
    · exact absurd (by simpa using heol) hne
    · rw [generics_space]
      omega
  | succ n =>
    have hstrip : stripColon eol = (List.replicate (n + 1) 32 ++ [58]) ++ m ++ rest := by
      rw [heol, List.replicate_succ]
      simp [stripColon]
    have hplus : ∀ k, lastSign 43 (List.replicate k 32 ++ [58]) = 43 := by
      intro k
      induction k with
      | zero => rfl
      | succ k ih => exact ih
    refine longer_ne hstrip (hplus (n + 1)) ?_ hlive []
    rw [List.replicate_succ, List.cons_append, generics_space]
    omega

/-- Live, nothing is displayed for a mode string with no letter after its first character. -/
theorem live_eq_nil_iff (args : List Bytes) (modes : Bytes) :
    liveDisplay serv sess nick chan args modes = [] ↔ ∀ c ∈ modes.tail, isSign c = true := by
  cases modes with
  | nil => simp [liveDisplay]
  | cons c modes =>
    rw [liveDisplay, liveTokens, display_eq_nil_iff, letters, List.countP_eq_zero]
    simp

/-- From the words of a line on: a channel, a mode string and the words after them. -/
theorem words_alike_iff (hlen : chan.length = sess.channel.length) (hchan : chan ≠ []) (eol r : Bytes)
    {w : Bytes} {words : List (Bytes × Bytes)} (hwords : (wordsFrom [] r 0 true r).take 28 = (w, r) :: words) :
    processBatchMode serv sess nick (batchParams ((chan, eol) :: (w, r) :: words)) =
      liveDisplay serv sess nick chan (modeArgs words) (stripColon w) ↔
    if chan.head? = some 58 then ∀ c ∈ (stripColon w).tail, isSign c = true
    else (w.head? = some 58 → r = w) ∧
      ModesAlike serv sess chan (modeArgs words) ((batchParams words).map stripColon) (stripColon w) := by
  obtain ⟨n, w', rest, words', htake, hr, hend⟩ := take_wordsFrom r 27
  obtain ⟨⟨rfl, -⟩, rfl⟩ : (w' = w ∧ r = r) ∧ words' = words := by
    simpa using htake.symm.trans hwords
  have hpairs : ArgPairs (modeArgs words') ((batchParams words').map stripColon) := by
    refine argPairs_words words' ?_
    rcases hend with ⟨rfl, -⟩ | ⟨r', -, rfl, -⟩
    · nofun
    · exact dropLast_wordsFrom 27 r'
  rw [batchParams, if_neg hchan]
  by_cases hcolon : chan.head? = some 58
  · -- the replay has no mode string
    rw [if_pos hcolon, if_pos hcolon, ← live_eq_nil_iff]
    exact eq_comm
  rw [if_neg hcolon, if_neg hcolon, batchParams]
  split_ifs with hnil htrail
  · -- no mode string
    subst hnil
    exact iff_of_true rfl ⟨nofun, trivial⟩
  · obtain ⟨m, rfl⟩ : ∃ m, w' = 58 :: m := by
      cases w' with
      | nil => cases htrail
      | cons c m => exact ⟨m, by rw [Option.some.inj htrail]⟩
    have hm : stripColon (58 :: m) = m := rfl
    rw [processBatchMode, chathistoryReplayMode, replayFrom_eq, hm]
    by_cases heq : r = 58 :: m
    · -- then it is the last word
      have hlast : words' = [] := by
        rcases hend with ⟨rfl, -⟩ | ⟨r', rfl, -, -⟩
        · rfl
        · have hlength := congrArg List.length (heq.symm.trans hr)
          simp at hlength
          omega
      subst hlast
      rw [heq, hm]
      exact (modes_alike_iff hlen hpairs m).trans (and_iff_right fun _ => rfl).symm
    · refine iff_of_false ?_ fun h => heq (h.1 rfl)
      refine trailing_ne (by simpa using hr) heq ?_ _
      rcases hend with ⟨-, hrest⟩ | ⟨r', hrest, -⟩
      · exact .inl hrest
      · exact .inr ⟨r', hrest⟩
  · have hm : stripColon w' = w' := if_neg htrail
    rw [processBatchMode, chathistoryReplayMode, replayFrom_eq, hm, modes_alike_iff hlen hpairs]
    exact (and_iff_right fun h => absurd h htrail).symm

end Alike

/-- **MODE lines from history.** For every server, every line and the session of the channel it is for, live and
replayed: the same text events with the same arguments, exactly when the line reads alike. -/
theorem replay_alike_iff {serv : Serv} {win : Windows} {sess : Sess} (nick : Bytes) {line : Bytes}
    (hfind : findChannel serv win (word (processDataInit (cString line)) 3) = some sess)
    (hchan : isChannel serv (word (processDataInit (cString line)) 3) = true) :
    replayed serv sess nick line = displayed serv win nick line ↔ ReadsAlike serv sess line := by
  have htext := handleMode_text hfind hchan nick
  have hkey := Users.pCmp_eq_zero_iff.1 (by simpa using List.find?_some hfind)
  unfold displayed replayed ReadsAlike
  dsimp only
  rw [htext]
  have hthird := drop_two_words (cString line)
  generalize processDataInit (cString line) = words at *
  have h3 := word_succ words 2
  have h4 := word_succ words 3
  have he4 := wordEol_succ words 3
  have hd3 : words.drop 3 = (words.drop 2).drop 1 := by rw [List.drop_drop]
  have hd4 : words.drop 4 = (words.drop 2).drop 2 := by rw [List.drop_drop]
  rw [hd3] at h4 he4
  rw [hd4]
  rcases hthird with hdrop | ⟨r, hdrop, hr⟩
  · -- no channel
    rw [hdrop] at h3 h4
    have h3' : word words 3 = [] := h3
    have h4' : word words 4 = [] := h4
    rw [hdrop, h3', h4', if_neg (by simp)]
    exact iff_of_true rfl ⟨nofun, trivial⟩
  obtain ⟨n, chan, rest, words', htake, hrest, hend⟩ := take_wordsFrom r 28
  rw [htake] at hdrop
  rw [hdrop] at h3 h4 he4
  have h3' : word words 3 = chan := h3
  rw [h3'] at hkey
  rcases hend with ⟨rfl, -⟩ | ⟨r', rfl, rfl, -, hchannel⟩
  · -- no mode string
    have h4' : word words 4 = [] := h4
    rw [hdrop, h3', h4', batchParams]
    refine iff_of_true ?_ ?_
    · split_ifs <;> rfl
    · split_ifs
      · nofun
      · exact ⟨nofun, trivial⟩
  · obtain ⟨n', w, rest', words', htake', -, -⟩ := take_wordsFrom r' 27
    rw [htake'] at h4 he4 hdrop
    have h4' : word words 4 = w := h4
    have he4' : wordEol words 4 = r' := he4
    have hnul : 0 ∉ chan := by
      intro h0
      refine Users.cString_ne_zero (hr 0 ?_) rfl
      rw [hrest]
      simp [h0]
    have hlen : chan.length = sess.channel.length := by
      have hlength := congrArg List.length hkey
      simpa [Users.Server.key, Users.Casefold.key, Outbound.cString_eq_self hnul,
        Outbound.cString_eq_self sess.no_nul] using hlength
    rw [hdrop, h3', h4', he4']
    exact words_alike_iff hlen hchannel _ r' htake'

/-- A server before 005, and a channel on it. -/
def plainServ : Serv where
  nick := bytes "me"
  casemapping := .rfc1459
  nickPrefixes := bytes "@%+"
  badNickPrefixes := none
  haveExtjoin := false
  nickModes := bytes "ohv"
  chanmodes := bytes "beI,k,l"
  chantypes := bytes "#&!+"

def joined : Sess where
  id := 1
  channel := bytes "#c"
  no_nul := by decide

def oneWindow : Windows := ⟨[joined], joined⟩

/-- Names, a limit that is taken away and a mode without an argument. -/
theorem replay_alike_names :
    replayed plainServ joined (bytes "op") (bytes ":op!u@h MODE #c +ovo-lt ann bob eve") =
      displayed plainServ oneWindow (bytes "op") (bytes ":op!u@h MODE #c +ovo-lt ann bob eve") :=
  (replay_alike_iff (bytes "op") rfl (by decide)).2 (by unfold ReadsAlike; decide)

/-- A line for the joined channel that history shows otherwise than it is shown live. -/
def Unlike (line : Bytes) : Prop :=
  (findChannel plainServ oneWindow (word (processDataInit (cString line)) 3)).map (·.id) = some 1 ∧
  isChannel plainServ (word (processDataInit (cString line)) 3) = true ∧
  replayed plainServ joined (bytes "op") line ≠ displayed plainServ oneWindow (bytes "op") line

instance (line : Bytes) : Decidable (Unlike line) := inferInstanceAs (Decidable (_ ∧ _))

/-- **The defects**: a mode that CHANMODES does not have with an argument, a mode string without a sign, one that is
written as a trailing parameter, and an argument with a space behind it. -/
theorem replay_unlike :
    Unlike (bytes ":op!u@h MODE #c +f 5") ∧ Unlike (bytes ":op!u@h MODE #c o ann") ∧
      Unlike (bytes ":op!u@h MODE #c :+o ann") ∧ Unlike (bytes ":op!u@h MODE #c +k :key ") := by
  decide

end PoxChat.Modes
