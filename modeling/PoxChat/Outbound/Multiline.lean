import PoxChat.Outbound.Say

/-!
# Pasted input

Model of `handle_user_input`, `handle_multiline_batch` and `handle_multiline` of `outbound.c`: input
of several lines goes out as a draft/multiline batch where every line is text, else line by line.

* The input is one C string.  The splitting pass of `handle_multiline` writes a NUL over every line
  break, and the pass line by line then reads the string that is left.

Principal results: `perLine_eq_inputs`, `scanText_iff`, `collectLines_eq` — the three passes over the
buffer, as passes over its lines; `input_kept_iff` — when pasted input is neither lost nor changed.
-/

set_option autoImplicit false

namespace PoxChat.Outbound

open Lib

/-! ## The passes -/

/-- `'\n'` or `'\r'`. -/
def isBreak (c : UInt8) : Bool := c == 10 || c == 13

/-- The line at the front: up to `strcspn (p, "\n\r")`. -/
def frontLine (p : Bytes) : Bytes := p.takeWhile (!isBreak ·)

/-- What follows its line break. -/
def afterLine (p : Bytes) : Bytes := (p.dropWhile (!isBreak ·)).tail

/-- The line is the last one. -/
def isLastLine (p : Bytes) : Bool := (p.dropWhile (!isBreak ·)).isEmpty

/-- `handle_user_input`. -/
def handleUserInput (env : Env) (nocommand : Bool) (win : Window) (text : Bytes) : Effect :=
  match text with
  | [] => { win }
  | c :: rest =>
    if nocommand || c ≠ env.prefs.inputCommandChar then
      let e := handleSay env win text
      { e with out := .said text :: e.out }
    else if rest.head? = some env.prefs.inputCommandChar then
      let e := handleSay env win rest
      { e with out := .said rest :: e.out }
    else
      let (win, flow, reports) := env.handleCommand win rest
      { win, flow, out := .ran rest :: reports.map .report }

/-- The pass line by line at the end of `handle_multiline`. -/
def perLine (env : Env) (nocommand : Bool) : Nat → Window → Bytes → Effect
  | 0, win, _ => { win }
  | steps + 1, win, cmd =>
    if cmd.isEmpty then { win }
    else
      let e := handleUserInput env nocommand win (frontLine cmd)
      if e.flow = .goes && !isLastLine cmd then
        let e' := perLine env nocommand steps e.win (afterLine cmd)
        { e' with out := e.out ++ e'.out }
      else e

/-- The scan of `handle_multiline`: no line is a command. -/
def scanText (cmdChar : UInt8) : Nat → Bytes → Bool
  | 0, _ => true
  | steps + 1, p =>
    match p with
    | [] => true
    | c :: rest =>
      if c = cmdChar && rest.head? ≠ some cmdChar then false
      else scanText cmdChar steps (afterLine (c :: rest))

/-- The splitting pass of `handle_multiline`; each line break it passes becomes a NUL. -/
def collectLines (cmdChar : UInt8) : Nat → Bytes → List Bytes
  | 0, _ => []
  | steps + 1, p =>
    let line := frontLine p
    let lines := if line.head? = some cmdChar && line.tail.head? = some cmdChar then [line.tail]
      else if line.isEmpty then [] else [line]
    if isLastLine p then lines else lines ++ collectLines cmdChar steps (afterLine p)

/-- The buffer the splitting pass leaves. -/
def wiped (cmd : Bytes) : Bytes := cmd.map fun c => if isBreak c then 0 else c

/-! ## The batch -/

structure BatchCount where
  bytes : Int := 0
  lines : Int := 0

/-- The batch has to be closed before a piece that makes its counts these. -/
def Window.batchFull (win : Window) (count : BatchCount) : Bool :=
  (win.multilineMaxBytes > 0 && count.bytes > win.multilineMaxBytes) ||
    (win.multilineMaxLines > 0 && count.lines > win.multilineMaxLines)

/-- One message of a batch, in a batch of its own where the limits say so. -/
def batchPiece (win : Window) (count : BatchCount) (text : Bytes) : BatchCount × List Output :=
  let next : BatchCount := ⟨count.bytes + text.length, count.lines + 1⟩
  let full := win.batchFull next
  (if full then ⟨text.length, 1⟩ else next,
    (if full then [.batchClose, .batchOpen] else []) ++ [.batchPrivmsg text] ++
      (if win.haveEchoMessage then [] else [.shown text]))

def batchPieces (win : Window) : BatchCount → List Bytes → BatchCount × List Output
  | count, [] => (count, [])
  | count, text :: texts =>
    let (next, out) := batchPiece win count text
    let (final, rest) := batchPieces win next texts
    (final, out ++ rest)

/-- The loop over the lines of `handle_multiline_batch`. -/
def batchLines (win : Window) : BatchCount → List Bytes → List Output × Flow
  | _, [] => ([.batchClose], .goes)
  | count, line :: lines =>
    let (pieces, ended) := splitPieces win line
    let (next, out) := batchPieces win count pieces
    if ended then
      let (rest, flow) := batchLines win next lines
      (out ++ .batched line :: rest, flow)
    else (out, .hangs)

/-- The combined message shown before the echo, with its lines joined. -/
def combined (lines : List Bytes) : Bytes := [(10 : UInt8)].intercalate lines

/-- `handle_multiline_batch`; its result is whether the lines were sent. -/
def handleMultilineBatch (win : Window) (lines : List Bytes) : Bool × Effect :=
  if !win.connected || win.channel.isEmpty then (false, { win })
  else
    let echo := if win.haveEchoMessage && win.haveLabeledResponse then [.shown (combined lines)] else []
    let (out, flow) := batchLines win {} lines
    (true, { win, flow, out := .batchOpen :: echo ++ out })

/-- The test for a batch at the head of `handle_multiline`. -/
def batchable (env : Env) (win : Window) (cmd : Bytes) : Bool :=
  win.haveMultiline && win.multilineMaxLines > 1 && cmd.contains 10 &&
    scanText env.prefs.inputCommandChar (cmd.length + 1) cmd

/-- `handle_multiline`. -/
def handleMultiline (env : Env) (nocommand : Bool) (win : Window) (cmd : Bytes) : Effect :=
  if batchable env win cmd then
    let lines := collectLines env.prefs.inputCommandChar (cmd.length + 1) cmd
    if lines.length ≥ 2 then (handleMultilineBatch win lines).2
    else
      let left := cString (wiped cmd)
      perLine env nocommand (left.length + 1) win left
  else perLine env nocommand (cmd.length + 1) win cmd

/-! ## The passes over the lines -/

theorem splitOnP_front (p : Bytes) :
    p.splitOnP isBreak =
      if isLastLine p then [frontLine p] else frontLine p :: (afterLine p).splitOnP isBreak := by
  unfold isLastLine frontLine afterLine
  induction p with
  | nil => rfl
  | cons c p ih =>
    rw [List.splitOnP_cons_eq_if_modifyHead]
    cases hc : isBreak c with
    | true => simp [hc]
    | false =>
      simp only [Bool.false_eq_true, if_false, ih, List.takeWhile_cons, List.dropWhile_cons, hc,
        Bool.not_false, if_true]
      split_ifs <;> rfl

theorem length_afterLine {p : Bytes} (h : isLastLine p = false) : (afterLine p).length < p.length := by
  unfold isLastLine at h
  unfold afterLine
  have hle := (List.dropWhile_suffix (l := p) (!isBreak ·)).length_le
  cases hd : p.dropWhile (!isBreak ·) with
  | nil => simp [hd] at h
  | cons c rest =>
    rw [hd] at hle
    simp at hle ⊢
    omega

/-- The lines of the input that hold text. -/
def textLines (cmd : Bytes) : List Bytes := (cmd.splitOnP isBreak).filter (!·.isEmpty)

/-- `handle_user_input` on one line after the other. -/
def inputs (env : Env) : Window → List Bytes → Effect
  | win, [] => { win }
  | win, line :: lines =>
    let e := handleUserInput env false win line
    if e.flow = .goes then
      let e' := inputs env e.win lines
      { e' with out := e.out ++ e'.out }
    else e

variable {env : Env} {win : Window} {cmd : Bytes}

theorem inputs_singleton (env : Env) (win : Window) (line : Bytes) :
    inputs env win [line] = handleUserInput env false win line := by
  unfold inputs
  dsimp only
  split_ifs with hgoes
  · simp only [inputs, List.append_nil]
    rw [← hgoes]
  · rfl

theorem perLine_eq_inputs_split (steps : Nat) :
    ∀ (win : Window) (cmd : Bytes), cmd.length < steps →
      perLine env false steps win cmd = inputs env win (cmd.splitOnP isBreak) := by
  induction steps with
  | zero => intro win cmd h; omega
  | succ steps ih =>
    intro win cmd hlen
    rw [perLine, splitOnP_front]
    cases hempty : cmd.isEmpty with
    | true =>
      rw [List.isEmpty_iff.1 hempty]
      rfl
    | false =>
      cases hlast : isLastLine cmd with
      | true =>
        simp only [Bool.false_eq_true, if_false, Bool.not_true, Bool.and_false, if_true]
        exact (inputs_singleton env win _).symm
      | false =>
        have hshort := length_afterLine hlast
        simp only [Bool.false_eq_true, if_false, Bool.not_false, Bool.and_true, decide_eq_true_eq,
          inputs, ih _ (afterLine cmd) (by omega)]

theorem inputs_filter (lines : List Bytes) :
    ∀ win, inputs env win (lines.filter (!·.isEmpty)) = inputs env win lines := by
  induction lines with
  | nil => intro win; rfl
  | cons line lines ih =>
    intro win
    cases line with
    | nil =>
      rw [List.filter_cons_of_neg (by simp), ih]
      rfl
    | cons c rest =>
      rw [List.filter_cons_of_pos (by simp), inputs, inputs]
      simp only [ih]

/-- **The pass line by line** is the pass over the lines that hold text. -/
theorem perLine_eq_inputs {steps : Nat} (h : cmd.length < steps) :
    perLine env false steps win cmd = inputs env win (textLines cmd) := by
  rw [perLine_eq_inputs_split steps win cmd h, textLines, inputs_filter]

/-- A line is a command: it starts with one command character. -/
def isCommand (cmdChar : UInt8) (line : Bytes) : Bool :=
  decide (line.head? = some cmdChar) && decide (line.tail.head? ≠ some cmdChar)

/-- The text of a line: a doubled command character stands for one. -/
def plainText (cmdChar : UInt8) (line : Bytes) : Bytes :=
  if line.head? = some cmdChar ∧ line.tail.head? = some cmdChar then line.tail else line

theorem head_ne_of_isBreak {c a : UInt8} (hc : c ≠ 0 ∧ c ≠ 10 ∧ c ≠ 13) (ha : isBreak a = true) : a ≠ c := by
  rintro rfl
  simp [isBreak] at ha
  tauto

/-- The scan reads the byte after the front of a line, which is a line break or the end where the
line is one byte long; neither is the command character. -/
theorem isCommand_frontLine {c : UInt8} (hc : c ≠ 0 ∧ c ≠ 10 ∧ c ≠ 13) (a : UInt8) (p : Bytes)
    (ha : isBreak a = false) :
    isCommand c (frontLine (a :: p)) = (decide (a = c) && decide (p.head? ≠ some c)) := by
  cases p with
  | nil => simp [frontLine, isCommand, ha]
  | cons b p =>
    cases hb : isBreak b with
    | true => simp [frontLine, isCommand, ha, hb, head_ne_of_isBreak hc hb]
    | false => simp [frontLine, isCommand, ha, hb]

theorem frontLine_break {a : UInt8} (ha : isBreak a = true) (p : Bytes) :
    frontLine (a :: p) = [] ∧ afterLine (a :: p) = p ∧ isLastLine (a :: p) = false := by
  simp [frontLine, afterLine, isLastLine, ha]

theorem afterLine_last {p : Bytes} (h : isLastLine p = true) : afterLine p = [] := by
  unfold isLastLine at h
  rw [afterLine, List.isEmpty_iff.1 h]
  rfl

theorem scanText_nil (c : UInt8) (steps : Nat) : scanText c steps [] = true := by
  cases steps <;> rfl

/-- **The scan**: every line is text. -/
theorem scanText_iff {c : UInt8} (hc : c ≠ 0 ∧ c ≠ 10 ∧ c ≠ 13) (steps : Nat) :
    ∀ cmd : Bytes, cmd.length < steps →
      (scanText c steps cmd = true ↔ ∀ line ∈ cmd.splitOnP isBreak, isCommand c line = false) := by
  induction steps with
  | zero => intro cmd h; omega
  | succ steps ih =>
    intro cmd hlen
    cases cmd with
    | nil => simp [scanText, isCommand]
    | cons a p =>
      have hhead : (decide (a = c) && decide (p.head? ≠ some c)) = isCommand c (frontLine (a :: p)) := by
        cases ha : isBreak a with
        | true => simp [(frontLine_break ha p).1, isCommand, head_ne_of_isBreak hc ha]
        | false => exact (isCommand_frontLine hc a p ha).symm
      rw [scanText, hhead, splitOnP_front]
      cases hcmd : isCommand c (frontLine (a :: p)) with
      | true =>
        rw [if_pos rfl]
        split_ifs <;> simp [hcmd]
      | false =>
        cases hlast : isLastLine (a :: p) with
        | true => simp [afterLine_last hlast, scanText_nil, hcmd]
        | false =>
          have hshort := length_afterLine hlast
          rw [if_neg (by simp), ih _ (by omega)]
          simp [hcmd]

/-- **The splitting pass** collects the texts of the lines that hold one. -/
theorem collectLines_eq (c : UInt8) (steps : Nat) :
    ∀ cmd : Bytes, cmd.length < steps →
      collectLines c steps cmd = (textLines cmd).map (plainText c) := by
  induction steps with
  | zero => intro cmd h; omega
  | succ steps ih =>
    intro cmd hlen
    have hfront : (if (frontLine cmd).head? = some c && (frontLine cmd).tail.head? = some c then
          [(frontLine cmd).tail] else if (frontLine cmd).isEmpty then [] else [frontLine cmd]) =
        ([frontLine cmd].filter (!·.isEmpty)).map (plainText c) := by
      cases hline : frontLine cmd with
      | nil => simp
      | cons a line =>
        simp only [plainText, List.isEmpty_cons, Bool.not_false, List.filter_cons_of_pos,
          List.filter_nil, List.map_cons, List.map_nil, Bool.and_eq_true, decide_eq_true_eq]
        split_ifs <;> simp_all
    rw [collectLines, hfront, textLines, splitOnP_front]
    cases hlast : isLastLine cmd with
    | true => simp
    | false =>
      have hshort := length_afterLine hlast
      have htail := ih (afterLine cmd) (by omega)
      rw [textLines] at htail
      simp only [Bool.false_eq_true, if_false, htail, ← List.map_append]
      rw [← List.filter_append]
      rfl

/-! ## What is handed on -/

/-- A line as it is handed on: text to say, or a command to run. -/
inductive Handed where
  | text (text : Bytes)
  | command (cmd : Bytes)
  deriving DecidableEq

def Output.handed? : Output → Option Handed
  | .said text => some (.text text)
  | .batched text => some (.text text)
  | .ran cmd => some (.command cmd)
  | _ => none

def handed (out : List Output) : List Handed := out.filterMap Output.handed?

def Output.report? : Output → Option Report
  | .report r => some r
  | _ => none

def reports (out : List Output) : List Report := out.filterMap Output.report?

/-- What a line of the input is. -/
def classify (cmdChar : UInt8) (line : Bytes) : Handed :=
  if isCommand cmdChar line then .command line.tail else .text (plainText cmdChar line)

@[simp] theorem handed_append (out out' : List Output) : handed (out ++ out') = handed out ++ handed out' := by
  simp [handed]

theorem handed_sayPieces (win : Window) (texts : List Bytes) : handed (texts.flatMap (sayPiece win)) = [] := by
  induction texts with
  | nil => rfl
  | cons text texts ih =>
    rw [List.flatMap_cons, handed_append, ih]
    unfold sayPiece
    split_ifs <;> rfl

theorem handed_handleSay (env : Env) (win : Window) (text : Bytes) : handed (handleSay env win text).out = [] := by
  unfold handleSay
  dsimp only
  split_ifs <;> first | rfl | exact handed_sayPieces win _

theorem handed_reports (rs : List Report) : handed (rs.map .report) = [] := by
  induction rs with
  | nil => rfl
  | cons r rs ih => exact ih

theorem handed_handleUserInput (env : Env) (win : Window) {line : Bytes} (h : line ≠ []) :
    handed (handleUserInput env false win line).out = [classify env.prefs.inputCommandChar line] := by
  obtain ⟨c, rest, rfl⟩ := List.exists_cons_of_ne_nil h
  unfold handleUserInput
  dsimp only
  by_cases hc : c = env.prefs.inputCommandChar
  · subst hc
    by_cases hrest : rest.head? = some env.prefs.inputCommandChar
    · have hsaid : classify env.prefs.inputCommandChar (env.prefs.inputCommandChar :: rest) = .text rest := by
        simp [classify, isCommand, plainText, hrest]
      rw [hsaid, if_neg (by simp), if_pos hrest]
      exact congrArg (Handed.text rest :: ·) (handed_handleSay env win rest)
    · have hran : classify env.prefs.inputCommandChar (env.prefs.inputCommandChar :: rest) = .command rest := by
        simp [classify, isCommand, hrest]
      rw [hran, if_neg (by simp), if_neg hrest]
      exact congrArg (Handed.command rest :: ·) (handed_reports _)
  · have hsaid : classify env.prefs.inputCommandChar (c :: rest) = .text (c :: rest) := by
      simp [classify, isCommand, plainText, hc]
    rw [hsaid, if_pos (by simp [hc])]
    exact congrArg (Handed.text (c :: rest) :: ·) (handed_handleSay env win (c :: rest))

/-- No line but the last ends the input or never returns. -/
def GoesOn (env : Env) : Window → List Bytes → Prop
  | _, [] => True
  | _, [_] => True
  | win, line :: next :: lines =>
    (handleUserInput env false win line).flow = .goes ∧
      GoesOn env (handleUserInput env false win line).win (next :: lines)

/-- Lines are handed on until one does not come back. -/
theorem handed_inputs_iff (lines : List Bytes) :
    ∀ win, (∀ line ∈ lines, line ≠ []) →
      (handed (inputs env win lines).out = lines.map (classify env.prefs.inputCommandChar) ↔
        GoesOn env win lines) := by
  induction lines with
  | nil => intro win _; simp [inputs, GoesOn, handed]
  | cons line lines ih =>
    intro win hne
    have hline := handed_handleUserInput env win (hne line (by simp))
    have hlines : ∀ l ∈ lines, l ≠ [] := fun l hl => hne l (by simp [hl])
    cases lines with
    | nil => simp [inputs_singleton, hline, GoesOn]
    | cons next lines =>
      rw [inputs, GoesOn]
      dsimp only
      split_ifs with hgoes
      · rw [handed_append, hline, List.map_cons, List.singleton_append, List.cons_inj_right,
          ih _ hlines]
        simp [hgoes]
      · simp [hline, hgoes]

/-! ## The batch -/

theorem batchPieces_out (win : Window) (texts : List Bytes) :
    ∀ count, wire (batchPieces win count texts).2 = texts ∧ handed (batchPieces win count texts).2 = [] := by
  induction texts with
  | nil => intro count; exact ⟨rfl, rfl⟩
  | cons text texts ih =>
    intro count
    obtain ⟨hwire, hhanded⟩ := ih (batchPiece win count text).1
    rw [batchPieces]
    have hpiece : wire (batchPiece win count text).2 = [text] ∧ handed (batchPiece win count text).2 = [] := by
      unfold batchPiece
      dsimp only
      split_ifs <;> exact ⟨rfl, rfl⟩
    constructor
    · rw [wire] at hwire hpiece ⊢
      rw [List.filterMap_append, hpiece.1, hwire]
      rfl
    · rw [handed_append, hpiece.2, hhanded]
      rfl

/-- The batch hands on the lines up to the first whose split does not end. -/
theorem handed_batchLines (win : Window) (lines : List Bytes) :
    ∀ count, handed (batchLines win count lines).1 =
      (lines.takeWhile fun line => (splitPieces win line).2).map .text := by
  induction lines with
  | nil => intro count; rfl
  | cons line lines ih =>
    intro count
    have hout := (batchPieces_out win (splitPieces win line).1 count).2
    rw [batchLines]
    dsimp only
    cases hended : (splitPieces win line).2 with
    | true =>
      simp only [if_true, List.takeWhile_cons, hended, handed_append, hout, List.nil_append]
      exact congrArg (Handed.text line :: ·) (ih _)
    | false =>
      simp only [Bool.false_eq_true, if_false, List.takeWhile_cons, hended, hout, List.map_nil]

theorem mem_batched {out : List Output} {text : Bytes} (h : Output.batched text ∈ out) :
    Handed.text text ∈ handed out :=
  List.mem_filterMap.2 ⟨_, h, rfl⟩

theorem batched_mem_batchLines (win : Window) (lines : List Bytes) (h : ∀ l ∈ lines, (splitPieces win l).2 = true) :
    ∀ count, ∀ line ∈ lines, Output.batched line ∈ (batchLines win count lines).1 := by
  induction lines with
  | nil => simp
  | cons l lines ih =>
    intro count line hline
    rw [batchLines]
    dsimp only
    rw [if_pos (h l (by simp))]
    rcases List.mem_cons.1 hline with rfl | hline
    · simp
    · have := ih (fun l hl => h l (by simp [hl]))
        (batchPieces win count (splitPieces win l).1).1 line hline
      simp [this]

/-! ## Pasted input -/

/-- **Pasted input is kept**: the lines that hold text are handed on in order, each once; a line sent in
a batch goes out as `handle_say` would send it; and without a connection the reports are those of the
pass line by line. -/
structure InputKept (env : Env) (win : Window) (cmd : Bytes) : Prop where
  lines : handed (handleMultiline env false win cmd).out =
    (textLines cmd).map (classify env.prefs.inputCommandChar)
  texts : ∀ text count, Output.batched text ∈ (handleMultiline env false win cmd).out →
    (handleSay env win text).flow = .goes ∧
      wire (handleSay env win text).out = wire (batchPieces win count (splitPieces win text).1).2
  report : win.connected = false →
    reports (handleMultiline env false win cmd).out = reports (perLine env false (cmd.length + 1) win cmd).out

/-- When it is: a batch whose lines could all be said as they stand, a single line that the input
starts with, or commands and text none of which but the last ends the input. -/
def KeptWhen (env : Env) (win : Window) (cmd : Bytes) : Prop :=
  if batchable env win cmd then
    if 2 ≤ (textLines cmd).length then
      ∀ line ∈ textLines cmd,
        (splitPieces win (plainText env.prefs.inputCommandChar line)).2 = true ∧
          AsTyped env win (plainText env.prefs.inputCommandChar line)
    else frontLine cmd ≠ [] ∨ textLines cmd = []
  else GoesOn env win (textLines cmd)

theorem ne_nil_of_mem_textLines {line : Bytes} (h : line ∈ textLines cmd) : line ≠ [] := by
  have := (List.mem_filter.1 h).2
  rintro rfl
  simp at this

theorem batched_not_mem_inputs (lines : List Bytes) (text : Bytes) :
    ∀ win, Output.batched text ∉ (inputs env win lines).out := by
  have hpieces : ∀ (win : Window) (texts : List Bytes), Output.batched text ∉ texts.flatMap (sayPiece win) := by
    intro win texts
    simp only [List.mem_flatMap, not_exists, not_and]
    intro t _
    unfold sayPiece
    split_ifs <;> simp
  have hsay : ∀ (win : Window) (t : Bytes), Output.batched text ∉ (handleSay env win t).out := by
    intro win t
    unfold handleSay
    dsimp only
    split_ifs <;> first | exact hpieces win _ | simp
  have hinput : ∀ (win : Window) (line : Bytes),
      Output.batched text ∉ (handleUserInput env false win line).out := by
    intro win line
    unfold handleUserInput
    split
    · simp
    · dsimp only
      split_ifs <;> simp [hsay]
  induction lines with
  | nil => intro win; simp [inputs]
  | cons line lines ih =>
    intro win
    rw [inputs]
    dsimp only
    split_ifs
    · simp [hinput, ih]
    · exact hinput win line

theorem cString_wiped (h : (0 : UInt8) ∉ cmd) : cString (wiped cmd) = frontLine cmd := by
  unfold cString wiped frontLine
  induction cmd with
  | nil => rfl
  | cons c cmd ih =>
    have hc : c ≠ 0 := fun e => h (by simp [e])
    have ih' := ih fun h0 => h (by simp [h0])
    cases hb : isBreak c with
    | true => simp [hb]
    | false => simpa [hb, hc] using ih'

theorem isBreak_of_mem_frontLine {c : UInt8} (h : c ∈ frontLine cmd) : isBreak c = false := by
  simpa using List.mem_takeWhile_imp h

theorem textLines_frontLine : textLines (frontLine cmd) = if (frontLine cmd).isEmpty then [] else [frontLine cmd] := by
  rw [textLines, List.splitOnP_eq_singleton fun c hc => isBreak_of_mem_frontLine hc]
  cases h : (frontLine cmd).isEmpty <;> simp [h]

theorem frontLine_mem_textLines (h : frontLine cmd ≠ []) : frontLine cmd ∈ textLines cmd := by
  rw [textLines, List.mem_filter]
  refine ⟨?_, by simpa using h⟩
  rw [splitOnP_front]
  split_ifs <;> simp

theorem isCommand_textLines (h : batchable env win cmd = true) :
    ∀ line ∈ textLines cmd, isCommand env.prefs.inputCommandChar line = false := by
  intro line hline
  simp only [batchable, Bool.and_eq_true] at h
  have hscan := (scanText_iff env.prefs.isText (cmd.length + 1) cmd (Nat.lt_succ_self _)).1 h.2
  exact hscan line (List.mem_filter.1 hline).1

theorem classify_textLines (h : batchable env win cmd = true) :
    (textLines cmd).map (classify env.prefs.inputCommandChar) =
      ((textLines cmd).map (plainText env.prefs.inputCommandChar)).map .text := by
  rw [List.map_map]
  apply List.map_congr_left
  intro line hline
  simp [classify, isCommand_textLines h line hline]

/-- A batch of at least two lines. -/
theorem inputKept_batch (h : batchable env win cmd = true) (hlen : 2 ≤ (textLines cmd).length) :
    InputKept env win cmd ↔
      ∀ line ∈ textLines cmd,
        (splitPieces win (plainText env.prefs.inputCommandChar line)).2 = true ∧
          AsTyped env win (plainText env.prefs.inputCommandChar line) := by
  set lines := (textLines cmd).map (plainText env.prefs.inputCommandChar) with hlines
  have hout : handleMultiline env false win cmd = (handleMultilineBatch win lines).2 := by
    rw [handleMultiline, if_pos h]
    simp only [collectLines_eq _ _ cmd (Nat.lt_succ_self _), ← hlines]
    rw [if_pos (by simpa [hlines] using hlen)]
  have hall : (∀ line ∈ textLines cmd, (splitPieces win (plainText env.prefs.inputCommandChar line)).2 = true ∧
      AsTyped env win (plainText env.prefs.inputCommandChar line)) ↔
      ∀ text ∈ lines, (splitPieces win text).2 = true ∧ AsTyped env win text := by
    simp [hlines]
  have hne : lines ≠ [] := by
    intro e
    rw [hlines, List.map_eq_nil_iff] at e
    simp [e] at hlen
  rw [hall]
  by_cases hsend : win.connected = true ∧ win.channel ≠ []
  · obtain ⟨hconn, hchan⟩ := hsend
    have hbatch : (handleMultilineBatch win lines).2.out = .batchOpen ::
        (if win.haveEchoMessage && win.haveLabeledResponse then [.shown (combined lines)] else []) ++
          (batchLines win {} lines).1 := by
      rw [handleMultilineBatch, if_neg (by simp [hconn, hchan])]
    have hhanded : handed (handleMultiline env false win cmd).out =
        (lines.takeWhile fun line => (splitPieces win line).2).map .text := by
      rw [hout, hbatch, handed_append, handed_batchLines]
      split_ifs <;> rfl
    constructor
    · intro hk
      have hended : ∀ text ∈ lines, (splitPieces win text).2 = true := by
        have heq := hhanded.symm.trans (hk.lines.trans (classify_textLines h))
        have heq' := List.map_injective_iff.2 (fun _ _ e => Handed.text.inj e) heq
        exact List.takeWhile_eq_self_iff.1 heq'
      intro text htext
      have hmem : Output.batched text ∈ (handleMultiline env false win cmd).out := by
        rw [hout, hbatch]
        exact List.mem_append_right _ (batched_mem_batchLines win lines hended {} text htext)
      refine ⟨hended text htext, (handleSay_as_typed_iff (hended text htext)).1 ?_⟩
      have hsame := hk.texts text {} hmem
      rwa [(batchPieces_out win _ _).1] at hsame
    · intro hk
      refine ⟨?_, ?_, fun hno => by simp [hconn] at hno⟩
      · rw [hhanded, classify_textLines h, List.takeWhile_eq_self_iff.2 fun text ht => (hk text ht).1]
      · intro text count hmem
        have htext : text ∈ lines := by
          have hin := mem_batched hmem
          rw [hhanded, List.mem_map] at hin
          obtain ⟨t, ht, he⟩ := hin
          rw [← Handed.text.inj he]
          exact (List.takeWhile_prefix _).subset ht
        rw [(batchPieces_out win _ _).1]
        exact (handleSay_as_typed_iff (hk text htext).1).2 (hk text htext).2
  · have hnone : (handleMultilineBatch win lines).2.out = [] := by
      rw [handleMultilineBatch, if_pos]
      by_contra hno
      exact hsend (by simpa using hno)
    constructor
    · intro hk
      have hnil := hk.lines
      rw [hout, hnone, classify_textLines h] at hnil
      exact absurd (List.map_eq_nil_iff.1 hnil.symm) hne
    · intro hk
      obtain ⟨text, htext⟩ := List.exists_mem_of_ne_nil _ hne
      have htyped := (hk text htext).2
      have hmute := htyped.notMute
      simp only [Window.mute, Bool.or_eq_false_iff] at hmute
      refine absurd ⟨htyped.connected, ?_⟩ hsend
      rintro e
      simp [e] at hmute

/-- Input that leaves at most one line after the split: it is still there where it comes first. -/
theorem inputKept_single (hcmd : (0 : UInt8) ∉ cmd) (h : batchable env win cmd = true)
    (hlen : ¬ 2 ≤ (textLines cmd).length) :
    InputKept env win cmd ↔ frontLine cmd ≠ [] ∨ textLines cmd = [] := by
  have hout : handleMultiline env false win cmd = inputs env win (textLines (frontLine cmd)) := by
    rw [handleMultiline, if_pos h]
    simp only [collectLines_eq _ _ cmd (Nat.lt_succ_self _), List.length_map]
    rw [if_neg hlen, cString_wiped hcmd, perLine_eq_inputs (Nat.lt_succ_self _)]
  have htexts : ∀ text, Output.batched text ∉ (handleMultiline env false win cmd).out := fun text => by
    rw [hout]
    exact batched_not_mem_inputs _ text win
  by_cases hfront : frontLine cmd = []
  · have hnil : textLines (frontLine cmd) = [] := by
      rw [textLines_frontLine, hfront]
      rfl
    rw [hnil] at hout
    constructor
    · intro hk
      have hlines := hk.lines
      rw [hout] at hlines
      exact .inr (List.map_eq_nil_iff.1 hlines.symm)
    · rintro (hk | hk)
      · exact absurd hfront hk
      · refine ⟨by rw [hout, hk]; rfl, fun text _ hmem => absurd hmem (htexts text), fun _ => ?_⟩
        rw [hout, perLine_eq_inputs (Nat.lt_succ_self _), hk]
  · have hone : textLines cmd = [frontLine cmd] := by
      have hmem := frontLine_mem_textLines hfront
      cases hls : textLines cmd with
      | nil => simp [hls] at hmem
      | cons line rest =>
        have hrest : rest = [] := by
          apply List.eq_nil_of_length_eq_zero
          simp only [hls, List.length_cons] at hlen
          omega
        rw [hls, hrest] at hmem
        rw [hrest, List.mem_singleton.1 hmem]
    have hsame : textLines (frontLine cmd) = textLines cmd := by
      simp [textLines_frontLine, hone, hfront]
    rw [hsame] at hout
    refine ⟨fun _ => .inl hfront, fun _ => ⟨?_, fun text _ hmem => absurd hmem (htexts text), fun _ => ?_⟩⟩
    · rw [hout, handed_inputs_iff _ win fun line hl => ne_nil_of_mem_textLines hl, hone]
      trivial
    · rw [hout, perLine_eq_inputs (Nat.lt_succ_self _)]

/-- **Pasted input is kept exactly** where the batch sender would do what `handle_say` does for each of
its lines, where the only line of a batch comes first, and where no command but the last line drops the
rest. -/
theorem input_kept_iff (env : Env) (win : Window) (cmd : Bytes) (hcmd : (0 : UInt8) ∉ cmd) :
    InputKept env win cmd ↔ KeptWhen env win cmd := by
  unfold KeptWhen
  cases h : batchable env win cmd with
  | true =>
    rw [if_pos rfl]
    split_ifs with hlen
    · exact inputKept_batch h hlen
    · exact inputKept_single hcmd h hlen
  | false =>
    have hout : handleMultiline env false win cmd = inputs env win (textLines cmd) := by
      rw [handleMultiline, if_neg (by simp [h]), perLine_eq_inputs (Nat.lt_succ_self _)]
    have hiff : handed (inputs env win (textLines cmd)).out =
        (textLines cmd).map (classify env.prefs.inputCommandChar) ↔ GoesOn env win (textLines cmd) :=
      handed_inputs_iff _ win fun line hl => ne_nil_of_mem_textLines hl
    rw [if_neg (by simp)]
    constructor
    · intro hk
      exact hiff.1 (hout ▸ hk.lines)
    · intro hgo
      refine ⟨hout ▸ hiff.2 hgo, fun text _ hmem => ?_, fun _ => ?_⟩
      · rw [hout] at hmem
        exact absurd hmem (batched_not_mem_inputs _ text win)
      · rw [hout, perLine_eq_inputs (Nat.lt_succ_self _)]

/-- A client with the default command character, without plugins, whose commands all return. -/
def plainEnv (color : Bool) : Env where
  prefs := { inputCommandChar := 47, inputPercColor := color }
  pluginTakes _ _ := false
  localeToUtf8 byte := if byte < 128 then some [byte] else none
  handleCommand win _ := (win, .goes, [])

/-- A joined channel on a server that takes batches of up to 24 lines. -/
def batchWindow (connected : Bool) : Window where
  type := .channel
  channel := bytes "#c"
  nick := bytes "me"
  connected := connected
  haveMultiline := true
  multilineMaxLines := 24

theorem input_kept_two_lines :
    InputKept (plainEnv false) (batchWindow true) (bytes "one\r\n//two") ∧
      wire (handleMultiline (plainEnv false) false (batchWindow true) (bytes "one\r\n//two")).out =
        [bytes "one", bytes "/two"] := by
  refine ⟨(input_kept_iff _ _ _ (by decide)).2 ?_, by decide⟩
  have hlines : textLines (bytes "one\r\n//two") = [bytes "one", bytes "//two"] := by decide
  rw [KeptWhen, if_pos (by decide), if_pos (by decide), hlines]
  intro line hline
  rcases List.mem_cons.1 hline with rfl | hline
  · exact ⟨by decide, by decide, rfl, rfl, rfl, rfl, rfl, by decide⟩
  · rw [List.mem_singleton.1 hline]
    exact ⟨by decide, by decide, rfl, rfl, rfl, rfl, rfl, by decide⟩

/-- A paste that starts with a line break is lost, one made while not connected is lost without a
report, and one with a percent code goes out with the code as it stands. -/
theorem pasted_input_lost :
    (¬ InputKept (plainEnv false) (batchWindow true) (bytes "\nhello") ∧
      (handleMultiline (plainEnv false) false (batchWindow true) (bytes "\nhello")).out = []) ∧
    (¬ InputKept (plainEnv false) (batchWindow false) (bytes "one\ntwo") ∧
      (handleMultiline (plainEnv false) false (batchWindow false) (bytes "one\ntwo")).out = [] ∧
      reports (perLine (plainEnv false) false 8 (batchWindow false) (bytes "one\ntwo")).out =
        [.notConnected, .notConnected]) ∧
    (¬ InputKept (plainEnv true) (batchWindow true) (bytes "%Bone\ntwo") ∧
      wire (handleMultiline (plainEnv true) false (batchWindow true) (bytes "%Bone\ntwo")).out =
        [bytes "%Bone", bytes "two"] ∧
      wire (handleSay (plainEnv true) (batchWindow true) (bytes "%Bone")).out = [2 :: bytes "one"]) := by
  refine ⟨⟨fun h => ?_, by decide⟩, ⟨fun h => ?_, by decide, by decide⟩, ⟨fun h => ?_, by decide, by decide⟩⟩
  · exact absurd h.lines (by decide)
  · exact absurd h.lines (by decide)
  · exact absurd (h.texts (bytes "%Bone") {} (by decide)).2 (by decide)

end PoxChat.Outbound
