import PoxChat.Inbound.Lines
import PoxChat.Lib.Fields
import PoxChat.Outbound.Pieces

/-!
# The words of a line

Model of `process_data_init` of `outbound.c` with both of its flags: the loop over the line, its writes to `buf`, and the
pointers `word` and `word_eol`.

* The line is a C string: it has no NUL.  `processDataInit` of `Inbound.Lines` is the same function with quote handling
  off, as a list of words; `processDataInit_words` connects the two.
* `marks` — which quotes of a line count; `lineTokens` — what each of its characters does.
* `wordsOf` — the words and the rests of the line, without the buffer.
* `words_faithful` — the words are the fields of the line, and each rest begins with its word.
-/

set_option autoImplicit false

namespace PoxChat.Outbound

open Lib
open Inbound (PDIWORDS)

/-! ## The function -/

def quotation : UInt8 := 34

/-- The variables of the loop.  `buf` has been written up to `j`; `words` are `word` and `word_eol` from 1 up to `wordcount`,
an offset into `buf` and the rest of the line. -/
structure WordLoop where
  cmd : Bytes
  buf : Bytes
  words : List (Nat × Bytes)
  space : Bool
  quote : Bool

namespace WordLoop

/-- The code at `def`: a character is copied. -/
def copy (s : WordLoop) : WordLoop :=
  let len := utf8Skip (s.cmd.headD 0)
  { s with space := false, buf := s.buf ++ s.cmd.take len, cmd := s.cmd.drop len }

/-- A space ends the word, and the next one starts. -/
def separate (s : WordLoop) (cmd : Bytes) : WordLoop :=
  { s with
    cmd := cmd
    buf := s.buf ++ [0]
    words := if s.words.length + 1 < PDIWORDS then s.words ++ [(s.buf.length + 1, cmd)] else s.words
    space := true }

/-- One round of the loop, where the line has not ended. -/
def round (handleQuotes allowEscapeQuotes : Bool) (s : WordLoop) : WordLoop :=
  match s.cmd with
  | [] => s
  | c :: cmd =>
    if c = quotation ∧ handleQuotes = true then
      -- two quotes turn into 1
      if allowEscapeQuotes = true ∧ cmd.head? = some quotation then copy { s with cmd := cmd }
      else if s.quote = true then { s with cmd := cmd, quote := false, space := false }
      else { s with cmd := cmd, quote := true }
    else if c = Outbound.space ∧ s.quote = false then
      if s.space = true then { s with cmd := cmd } else s.separate cmd
    else s.copy

/-- The loop; a round moves `cmd`, so that the length of the line bounds them. -/
def run (handleQuotes allowEscapeQuotes : Bool) : Nat → WordLoop → WordLoop
  | 0, s => s
  | rounds + 1, s => if s.cmd = [] then s else run handleQuotes allowEscapeQuotes rounds (s.round handleQuotes allowEscapeQuotes)

end WordLoop

/-- What `process_data_init` has set: the bytes of `buf`, and the pointers from 1 on. -/
structure Words where
  buf : Bytes
  words : List (Nat × Bytes)

/-- `process_data_init`. -/
def Words.init (cmd : Bytes) (handleQuotes allowEscapeQuotes : Bool) : Words :=
  let s := WordLoop.run handleQuotes allowEscapeQuotes cmd.length ⟨cmd, [], [(0, cmd)], false, false⟩
  ⟨s.buf ++ [0], s.words⟩

/-- `word[k]`. -/
def Words.word (w : Words) : Nat → Bytes
  | 0 => []
  | k + 1 => match w.words[k]? with
    | some (offset, _) => cString (w.buf.drop offset)
    | none => []

/-- `word_eol[k]`. -/
def Words.wordEol (w : Words) : Nat → Bytes
  | 0 => []
  | k + 1 => match w.words[k]? with
    | some (_, eol) => eol
    | none => []

/-! ## The fields of a line -/

/-- The fields of a line between runs of spaces. -/
def spaceFields (cmd : Bytes) : List Bytes := fields (· == space) cmd

/-- The characters of a line, each with what follows it; `none` for a quote that opens or closes. -/
def quoteMarks (handleQuotes allowEscapeQuotes : Bool) : Bytes → List (Option UInt8 × Bytes)
  | [] => []
  | [c] => [(if c = quotation ∧ handleQuotes = true then none else some c, [])]
  | c :: d :: cmd =>
    if c = quotation ∧ handleQuotes = true then
      if allowEscapeQuotes = true ∧ d = quotation then
        (some quotation, cmd) :: quoteMarks handleQuotes allowEscapeQuotes cmd
      else (none, d :: cmd) :: quoteMarks handleQuotes allowEscapeQuotes (d :: cmd)
    else (some c, d :: cmd) :: quoteMarks handleQuotes allowEscapeQuotes (d :: cmd)

/-- What a character does: it belongs to a word, it separates, or it opens or closes. -/
inductive LineToken where
  | kept (b : UInt8)
  | sep
  | mark

/-- Spaces separate outside of quotes; `quote` is whether one is open. -/
def lineTokens : Bool → List (Option UInt8 × Bytes) → List (LineToken × Bytes)
  | _, [] => []
  | quote, (none, eol) :: l => (.mark, eol) :: lineTokens (!quote) l
  | quote, (some b, eol) :: l => (if b = space ∧ quote = false then .sep else .kept b, eol) :: lineTokens quote l

def LineToken.isSep : LineToken → Bool
  | .sep => true
  | _ => false

def LineToken.byte? : LineToken → Option UInt8
  | .kept b => some b
  | _ => none

/-- The fields of a line whose quotes are handled, without the quotes. -/
def quotedFields (allowEscapeQuotes : Bool) (cmd : Bytes) : List Bytes :=
  (fields LineToken.isSep ((lineTokens false (quoteMarks true allowEscapeQuotes cmd)).map Prod.fst)).map
    fun field => field.filterMap LineToken.byte?

/-- The text begins with the word, and a space or the end follows. -/
def BeginsWith (word text : Bytes) : Prop := ∃ rest, text = word ++ rest ∧ (rest = [] ∨ rest.head? = some space)

/-! ## Words and rests, without the buffer -/

/-- The words of a line and the rests of it, from left to right: `word` has been read of the one whose rest is `eol`, and
`after` is whether a separator has just been read. -/
def wordsOf (word eol : Bytes) : Bool → List (LineToken × Bytes) → List (Bytes × Bytes)
  | _, [] => [(word, eol)]
  | after, (.sep, rest) :: l => if after then wordsOf word eol true l else (word, eol) :: wordsOf [] rest true l
  | _, (.kept b, _) :: l => wordsOf (word ++ [b]) eol false l
  | _, (.mark, _) :: l => wordsOf word eol false l

section Tokens

variable {handleQuotes allowEscapeQuotes quote after : Bool} {word eol cmd : Bytes} {c : UInt8}

theorem wordsOf_sep (rest : Bytes) (l : List (LineToken × Bytes)) :
    wordsOf word eol after ((.sep, rest) :: l) =
      if after then wordsOf word eol true l else (word, eol) :: wordsOf [] rest true l := rfl

theorem wordsOf_kept (b : UInt8) (rest : Bytes) (l : List (LineToken × Bytes)) :
    wordsOf word eol after ((.kept b, rest) :: l) = wordsOf (word ++ [b]) eol false l := rfl

theorem wordsOf_mark (rest : Bytes) (l : List (LineToken × Bytes)) :
    wordsOf word eol after ((.mark, rest) :: l) = wordsOf word eol false l := rfl

theorem quoteMarks_other (h : ¬ (c = quotation ∧ handleQuotes = true)) (cmd : Bytes) :
    quoteMarks handleQuotes allowEscapeQuotes (c :: cmd) =
      (some c, cmd) :: quoteMarks handleQuotes allowEscapeQuotes cmd := by
  cases cmd with
  | nil => simp only [quoteMarks, if_neg h]
  | cons d cmd => rw [quoteMarks, if_neg h]

theorem quoteMarks_quote (h : ¬ (allowEscapeQuotes = true ∧ cmd.head? = some quotation)) :
    quoteMarks true allowEscapeQuotes (quotation :: cmd) = (none, cmd) :: quoteMarks true allowEscapeQuotes cmd := by
  have hquote : quotation = quotation ∧ true = true := ⟨rfl, rfl⟩
  cases cmd with
  | nil => simp [quoteMarks]
  | cons d cmd =>
    have hd : ¬ (allowEscapeQuotes = true ∧ d = quotation) := by simpa using h
    rw [quoteMarks, if_pos hquote, if_neg hd]

theorem quoteMarks_doubled (cmd : Bytes) :
    quoteMarks true true (quotation :: quotation :: cmd) = (some quotation, cmd) :: quoteMarks true true cmd := by
  rw [quoteMarks, if_pos ⟨rfl, rfl⟩, if_pos ⟨rfl, rfl⟩]

/-- Without escapes, the quotes are the marks. -/
theorem quoteMarks_unescaped (cmd : Bytes) :
    (quoteMarks true false cmd).map Prod.fst = cmd.map fun c => if c = quotation then none else some c := by
  induction cmd with
  | nil => rfl
  | cons c cmd ih =>
    by_cases hc : c = quotation
    · subst hc
      rw [quoteMarks_quote (by simp), List.map_cons, ih, List.map_cons, if_pos rfl]
    · rw [quoteMarks_other (by simp [hc]), List.map_cons, ih, List.map_cons, if_neg hc]

/-- Where a quote is open the next token does not separate. -/
theorem wordsOf_quoted (after' : Bool) (l : List (Option UInt8 × Bytes)) :
    wordsOf word eol after (lineTokens true l) = wordsOf word eol after' (lineTokens true l) := by
  cases l with
  | nil => rfl
  | cons m l =>
    obtain ⟨m, rest⟩ := m
    cases m with
    | none => rfl
    | some b => simp [lineTokens, wordsOf]

/-- What is copied goes on with the word. -/
theorem wordsOf_copied {text : Bytes} (hne : text ≠ [])
    (h : ∀ b ∈ text, ¬ (b = quotation ∧ handleQuotes = true) ∧ ¬ (b = space ∧ quote = false)) (rest : Bytes) :
    wordsOf word eol after (lineTokens quote (quoteMarks handleQuotes allowEscapeQuotes (text ++ rest))) =
      wordsOf (word ++ text) eol false (lineTokens quote (quoteMarks handleQuotes allowEscapeQuotes rest)) := by
  induction text generalizing word after with
  | nil => exact absurd rfl hne
  | cons b text ih =>
    obtain ⟨hquote, hspace⟩ := h b (by simp)
    rw [List.cons_append, quoteMarks_other hquote, lineTokens, if_neg hspace, wordsOf_kept]
    cases text with
    | nil => rfl
    | cons d text =>
      rw [ih (by simp) fun x hx => h x (by simp [hx])]
      simp

theorem wordsOf_head (eol : Bytes) (l : List (LineToken × Bytes)) :
    ∀ (word : Bytes) (after : Bool), ∃ w words, wordsOf word eol after l = (w, eol) :: words := by
  induction l with
  | nil =>
    intro word after
    exact ⟨word, [], rfl⟩
  | cons t l ih =>
    intro word after
    obtain ⟨t, rest⟩ := t
    cases t with
    | kept b => exact ih (word ++ [b]) false
    | mark => exact ih word false
    | sep =>
      rw [wordsOf_sep]
      split_ifs
      · exact ih word true
      · exact ⟨word, _, rfl⟩

/-- **The words are the fields**, without the marks. -/
theorem wordsOf_fields (l : List (LineToken × Bytes)) :
    ∀ (field : List LineToken) (eol : Bytes) (after : Bool),
      (wordsOf (field.filterMap LineToken.byte?) eol after l).map Prod.fst =
        (fieldsFrom LineToken.isSep field after (l.map Prod.fst)).map fun field => field.filterMap LineToken.byte? := by
  induction l with
  | nil =>
    intro field eol after
    rfl
  | cons t l ih =>
    intro field eol after
    obtain ⟨t, rest⟩ := t
    cases t with
    | kept b =>
      show _ = (fieldsFrom LineToken.isSep field after (.kept b :: l.map Prod.fst)).map _
      rw [fieldsFrom, if_neg (by simp [LineToken.isSep]), ← ih (field ++ [LineToken.kept b]) eol false, wordsOf_kept,
        List.filterMap_append]
      rfl
    | mark =>
      show _ = (fieldsFrom LineToken.isSep field after (.mark :: l.map Prod.fst)).map _
      rw [fieldsFrom, if_neg (by simp [LineToken.isSep]), ← ih (field ++ [LineToken.mark]) eol false, wordsOf_mark,
        List.filterMap_append, show [LineToken.mark].filterMap LineToken.byte? = [] from rfl, List.append_nil]
    | sep =>
      show _ = (fieldsFrom LineToken.isSep field after (.sep :: l.map Prod.fst)).map _
      rw [fieldsFrom, if_pos (show LineToken.sep.isSep = true from rfl), wordsOf_sep]
      split_ifs
      · exact ih field eol true
      · rw [List.map_cons, List.map_cons, ← ih [] rest true]
        rfl

/-- The bytes of the words come from the line. -/
theorem mem_wordsOf {l : List (LineToken × Bytes)} {P : UInt8 → Prop} (hl : ∀ b rest, (LineToken.kept b, rest) ∈ l → P b) :
    ∀ {word eol : Bytes} {after : Bool}, (∀ b ∈ word, P b) → ∀ p ∈ wordsOf word eol after l, ∀ b ∈ p.1, P b := by
  induction l with
  | nil =>
    intro word eol after hword p hp
    rw [List.mem_singleton.1 hp]
    exact hword
  | cons t l ih =>
    intro word eol after hword
    obtain ⟨t, rest⟩ := t
    have htail : ∀ {word eol : Bytes} {after : Bool}, (∀ b ∈ word, P b) → ∀ p ∈ wordsOf word eol after l, ∀ b ∈ p.1, P b :=
      ih fun b rest hb => hl b rest (List.mem_cons_of_mem _ hb)
    cases t with
    | mark => exact htail hword
    | kept b =>
      apply htail
      intro d hd
      rcases List.mem_append.1 hd with hd | hd
      · exact hword d hd
      · rw [List.mem_singleton.1 hd]
        exact hl b rest List.mem_cons_self
    | sep =>
      rw [wordsOf_sep]
      split_ifs
      · exact htail hword
      · intro p hp
        rcases List.mem_cons.1 hp with rfl | hp
        · exact hword
        · exact htail (by simp) p hp

theorem mem_lineTokens {l : List (Option UInt8 × Bytes)} {b : UInt8} {rest : Bytes} :
    ∀ {quote : Bool}, (LineToken.kept b, rest) ∈ lineTokens quote l → some b ∈ l.map Prod.fst := by
  induction l with
  | nil =>
    intro quote h
    cases h
  | cons m l ih =>
    intro quote h
    obtain ⟨m, eol⟩ := m
    cases m with
    | none =>
      rcases List.mem_cons.1 h with h | h
      · cases h
      · exact List.mem_cons_of_mem _ (ih h)
    | some d =>
      rw [lineTokens] at h
      rcases List.mem_cons.1 h with h | h
      · split_ifs at h
        · cases h
        · cases h
          exact List.mem_cons_self
      · exact List.mem_cons_of_mem _ (ih h)

theorem mem_quoteMarks {b : UInt8} :
    ∀ {cmd : Bytes}, some b ∈ (quoteMarks handleQuotes allowEscapeQuotes cmd).map Prod.fst → b ∈ cmd := by
  intro cmd
  fun_induction quoteMarks handleQuotes allowEscapeQuotes cmd with
  | case1 => simp
  | case2 c =>
    intro h
    split_ifs at h <;> simp_all
  | case3 c d cmd hc hd ih =>
    intro h
    rcases List.mem_cons.1 h with h | h
    · injection h with h
      simp [h, hc.1]
    · simp [ih h]
  | case4 c d cmd hc hd ih =>
    intro h
    rcases List.mem_cons.1 h with h | h
    · cases h
    · exact List.mem_cons_of_mem _ (ih h)
  | case5 c d cmd hc ih =>
    intro h
    rcases List.mem_cons.1 h with h | h
    · injection h with h
      simp [h]
    · exact List.mem_cons_of_mem _ (ih h)

end Tokens

/-! ## The buffer -/

/-- The words one after the other, each with its NUL. -/
def render (words : List (Bytes × Bytes)) : Bytes := words.flatMap fun p => p.1 ++ [0]

/-- Where the words stand, from an offset on. -/
def layout : Nat → List (Bytes × Bytes) → List (Nat × Bytes)
  | _, [] => []
  | offset, (word, eol) :: words => (offset, eol) :: layout (offset + (word.length + 1)) words

section Buffer

variable {words more : List (Bytes × Bytes)}

theorem render_append (words more : List (Bytes × Bytes)) : render (words ++ more) = render words ++ render more :=
  List.flatMap_append

theorem length_render_cons (p : Bytes × Bytes) (words : List (Bytes × Bytes)) :
    (render (p :: words)).length = p.1.length + 1 + (render words).length := by
  rw [render, List.flatMap_cons, List.length_append, List.length_append]
  rfl

theorem layout_append (words more : List (Bytes × Bytes)) :
    ∀ offset, layout offset (words ++ more) = layout offset words ++ layout (offset + (render words).length) more := by
  induction words with
  | nil =>
    intro offset
    rfl
  | cons p words ih =>
    intro offset
    rw [List.cons_append, layout, layout, ih, length_render_cons, List.cons_append]
    simp only [Nat.add_assoc]

theorem layout_getElem? (words : List (Bytes × Bytes)) :
    ∀ offset k, (layout offset words)[k]? =
      words[k]?.map fun p => (offset + (render (words.take k)).length, p.2) := by
  induction words with
  | nil =>
    intro offset k
    rfl
  | cons p words ih =>
    intro offset k
    cases k with
    | zero => rfl
    | succ k =>
      rw [layout, List.getElem?_cons_succ, List.getElem?_cons_succ, ih, List.take_succ_cons, length_render_cons]
      simp only [Nat.add_assoc]

/-- The string at a word's place is the word. -/
theorem cString_render {k : Nat} {p : Bytes × Bytes} (hk : words[k]? = some p) (h : (0 : UInt8) ∉ p.1) :
    cString ((render words).drop (render (words.take k)).length) = p.1 := by
  obtain ⟨hlt, hget⟩ := List.getElem?_eq_some_iff.1 hk
  have hsplit : render words = render (words.take k) ++ (p.1 ++ 0 :: render (words.drop (k + 1))) := by
    conv_lhs => rw [← List.take_append_drop k words, List.drop_eq_getElem_cons hlt, hget]
    rw [render_append]
    simp [render]
  rw [hsplit, List.drop_left, cString_append h]

end Buffer

/-- The words in the array are those of the list that have room there. -/
theorem Words.word_eq {words : List (Bytes × Bytes)} (h : ∀ p ∈ words, (0 : UInt8) ∉ p.1) {k : Nat}
    (hk : k + 1 < PDIWORDS) :
    (Words.mk (render words) ((layout 0 words).take (PDIWORDS - 1))).word (k + 1) = (words.map Prod.fst).getD k [] := by
  have hroom : k < PDIWORDS - 1 := by omega
  unfold Words.word
  dsimp only
  rw [List.getElem?_take_of_lt hroom, layout_getElem?, List.getD_eq_getElem?_getD, List.getElem?_map]
  cases hget : words[k]? with
  | none => rfl
  | some p =>
    show cString ((render words).drop (0 + (render (words.take k)).length)) = p.1
    rw [Nat.zero_add]
    exact cString_render hget (h p (List.mem_of_getElem? hget))

theorem Words.wordEol_eq {words : List (Bytes × Bytes)} {k : Nat} (hk : k + 1 < PDIWORDS) :
    (Words.mk (render words) ((layout 0 words).take (PDIWORDS - 1))).wordEol (k + 1) =
      (words.map Prod.snd).getD k [] := by
  have hroom : k < PDIWORDS - 1 := by omega
  unfold Words.wordEol
  dsimp only
  rw [List.getElem?_take_of_lt hroom, layout_getElem?, List.getD_eq_getElem?_getD, List.getElem?_map]
  cases words[k]? <;> rfl

/-! ## The loop -/

namespace WordLoop

/-- The loop has read `words` and stands in the word `word`, whose rest is `eol`. -/
structure HasRead (s : WordLoop) (words : List (Bytes × Bytes)) (word eol : Bytes) : Prop where
  buf : s.buf = render words ++ word
  words : s.words = (layout 0 words ++ [((render words).length, eol)]).take (PDIWORDS - 1)

section Loop

variable {handleQuotes allowEscapeQuotes : Bool} {s : WordLoop} {words : List (Bytes × Bytes)} {word eol cmd : Bytes}
  {c : UInt8}

theorem length_copy (s : WordLoop) : s.copy.buf.length + s.copy.cmd.length = s.buf.length + s.cmd.length := by
  show (s.buf ++ s.cmd.take _).length + (s.cmd.drop _).length = _
  rw [List.length_append, List.length_take, List.length_drop]
  omega

/-- A round writes no more than it reads. -/
theorem length_round (s : WordLoop) :
    (s.round handleQuotes allowEscapeQuotes).buf.length + (s.round handleQuotes allowEscapeQuotes).cmd.length ≤
      s.buf.length + s.cmd.length := by
  unfold round
  cases hcmd : s.cmd with
  | nil => simp [hcmd]
  | cons c cmd =>
    dsimp only
    split_ifs
    · rw [length_copy]
      simp
    · simp
    · simp
    · simp
    · simp [separate]
      omega
    · rw [length_copy, hcmd]

theorem length_run (rounds : Nat) :
    ∀ s : WordLoop, (run handleQuotes allowEscapeQuotes rounds s).buf.length ≤ s.buf.length + s.cmd.length := by
  induction rounds with
  | zero =>
    intro s
    exact Nat.le_add_right _ _
  | succ rounds ih =>
    intro s
    rw [run]
    split_ifs
    · exact Nat.le_add_right _ _
    · exact (ih _).trans (length_round s)

theorem HasRead.copied (h : s.HasRead words word eol) {text rest : Bytes} :
    { s with space := false, buf := s.buf ++ text, cmd := rest }.HasRead words (word ++ text) eol where
  buf := by
    show s.buf ++ text = _
    rw [h.buf, List.append_assoc]
  words := h.words

theorem HasRead.separated (h : s.HasRead words word eol) (cmd : Bytes) :
    (s.separate cmd).HasRead (words ++ [(word, eol)]) [] cmd where
  buf := by
    show s.buf ++ [0] = _
    rw [h.buf, render_append]
    simp [render]
  words := by
    have hplace : s.buf.length + 1 = (render (words ++ [(word, eol)])).length := by
      rw [h.buf, render_append]
      simp [render]
      omega
    have hlayout : layout 0 (words ++ [(word, eol)]) = layout 0 words ++ [((render words).length, eol)] := by
      rw [layout_append, Nat.zero_add]
      rfl
    show (if s.words.length + 1 < PDIWORDS then s.words ++ [(s.buf.length + 1, cmd)] else s.words) = _
    rw [hplace, hlayout, h.words]
    generalize layout 0 words ++ [((render words).length, eol)] = places
    by_cases hroom : places.length < PDIWORDS - 1
    · have hall : places.take (PDIWORDS - 1) = places := List.take_of_length_le (by omega)
      rw [hall, if_pos (by omega), List.take_of_length_le (by simp; omega)]
    · have hlen : (places.take (PDIWORDS - 1)).length = PDIWORDS - 1 := by
        rw [List.length_take]
        omega
      rw [if_neg (by omega), List.take_append_of_le_length (by omega)]

/-- What is still to come: the words from the one under way on. -/
def rest (handleQuotes allowEscapeQuotes : Bool) (s : WordLoop) (word eol : Bytes) : List (Bytes × Bytes) :=
  wordsOf word eol s.space (lineTokens s.quote (quoteMarks handleQuotes allowEscapeQuotes s.cmd))

/-- A character that is no mark and does not separate is copied. -/
theorem copy_rest (h : s.HasRead words word eol) (hcmd : s.cmd = c :: cmd) (hutf8 : Utf8 (c :: cmd))
    (hquote : ¬ (c = quotation ∧ handleQuotes = true)) (hspace : ¬ (c = Outbound.space ∧ s.quote = false)) :
    ∃ text, s.copy.HasRead words (word ++ text) eol ∧ Utf8 s.copy.cmd ∧ s.copy.cmd.length < s.cmd.length ∧
      s.copy.rest handleQuotes allowEscapeQuotes (word ++ text) eol =
        s.rest handleQuotes allowEscapeQuotes word eol := by
  obtain ⟨state, hhead⟩ := hutf8.head
  have hlen : utf8Skip (s.cmd.headD 0) = state.owed + 1 := by
    rw [hcmd]
    exact utf8Skip_of_lead hhead.lead
  have hcopy : s.copy =
      { s with space := false, buf := s.buf ++ c :: cmd.take state.owed, cmd := cmd.drop state.owed } := by
    unfold copy
    dsimp only
    rw [hlen, hcmd]
    rfl
  -- the other bytes of a character are above ASCII
  have hbytes : ∀ b ∈ c :: cmd.take state.owed,
      ¬ (b = quotation ∧ handleQuotes = true) ∧ ¬ (b = Outbound.space ∧ s.quote = false) := by
    intro b hb
    rcases List.mem_cons.1 hb with rfl | hb
    · exact ⟨hquote, hspace⟩
    · have htail := hhead.tails b hb
      refine ⟨?_, ?_⟩
      · rintro ⟨rfl, -⟩
        cases htail
      · rintro ⟨rfl, -⟩
        cases htail
  refine ⟨c :: cmd.take state.owed, ?_, ?_, ?_, ?_⟩
  · rw [hcopy]
    exact h.copied
  · rw [hcopy]
    exact hhead.rest
  · rw [hcopy, hcmd]
    show (cmd.drop state.owed).length < _
    rw [List.length_drop, List.length_cons]
    omega
  · have hwhole : s.cmd = c :: cmd.take state.owed ++ cmd.drop state.owed := by
      rw [hcmd, List.cons_append, List.take_append_drop]
    unfold rest
    rw [hcopy, hwhole, wordsOf_copied (by simp) hbytes]

/-- **A round** goes on with the words that are still to come. -/
theorem round_rest (h : s.HasRead words word eol) (hne : s.cmd ≠ []) (hutf8 : Utf8 s.cmd) :
    ∃ words' word' eol', (s.round handleQuotes allowEscapeQuotes).HasRead words' word' eol' ∧
      Utf8 (s.round handleQuotes allowEscapeQuotes).cmd ∧
      (s.round handleQuotes allowEscapeQuotes).cmd.length < s.cmd.length ∧
      words' ++ (s.round handleQuotes allowEscapeQuotes).rest handleQuotes allowEscapeQuotes word' eol' =
        words ++ s.rest handleQuotes allowEscapeQuotes word eol := by
  obtain ⟨c, cmd, hcmd⟩ := List.exists_cons_of_ne_nil hne
  rw [hcmd] at hutf8
  unfold round
  rw [hcmd]
  dsimp only
  split_ifs with hquote hdouble hopen hsep hafter
  · -- a doubled quote: its second half is copied
    obtain ⟨rfl, rfl⟩ := hquote
    obtain ⟨rfl, hd⟩ := hdouble
    obtain ⟨cmd, rfl⟩ : ∃ rest, cmd = quotation :: rest := by
      cases cmd with
      | nil => cases hd
      | cons d cmd => exact ⟨cmd, by rw [Option.some.inj hd]⟩
    have hread : { s with cmd := quotation :: cmd }.copy =
        { s with space := false, buf := s.buf ++ [quotation], cmd := cmd } := rfl
    refine ⟨words, word ++ [quotation], eol, ?_, ?_, ?_, ?_⟩
    · rw [hread]
      exact h.copied
    · exact (hutf8.tail_of_ascii (by decide)).tail_of_ascii (by decide)
    · rw [hread]
      simp only [List.length_cons]
      omega
    · have hkept : ¬ (quotation = Outbound.space ∧ s.quote = false) := fun h => absurd h.1 (by decide)
      unfold rest
      rw [hread, hcmd, quoteMarks_doubled, lineTokens, if_neg hkept, wordsOf]
  · obtain ⟨rfl, rfl⟩ := hquote
    refine ⟨words, word, eol, ⟨h.buf, h.words⟩, hutf8.tail_of_ascii (by decide), by simp, ?_⟩
    unfold rest
    rw [hcmd, quoteMarks_quote hdouble, hopen, lineTokens, wordsOf]
    rfl
  · obtain ⟨rfl, rfl⟩ := hquote
    refine ⟨words, word, eol, ⟨h.buf, h.words⟩, hutf8.tail_of_ascii (by decide), by simp, ?_⟩
    have hclosed : s.quote = false := by simpa using hopen
    unfold rest
    rw [hcmd, quoteMarks_quote hdouble, hclosed, lineTokens, wordsOf, wordsOf_quoted false]
    rfl
  · obtain ⟨rfl, hclosed⟩ := hsep
    refine ⟨words, word, eol, ⟨h.buf, h.words⟩, hutf8.tail_of_ascii (by decide), by simp, ?_⟩
    unfold rest
    rw [hcmd, quoteMarks_other hquote, hclosed, lineTokens, if_pos ⟨rfl, rfl⟩, hafter, wordsOf, if_pos rfl]
  · obtain ⟨rfl, hclosed⟩ := hsep
    refine ⟨words ++ [(word, eol)], [], cmd, h.separated cmd, hutf8.tail_of_ascii (by decide), by simp [separate], ?_⟩
    unfold rest
    rw [hcmd, quoteMarks_other hquote, hclosed, lineTokens, if_pos ⟨rfl, rfl⟩, wordsOf, if_neg hafter,
      List.append_assoc]
    simp [separate, hclosed]
  · obtain ⟨text, hread, hrest, hlen, hsame⟩ := copy_rest h hcmd hutf8 hquote hsep
    rw [hcmd] at hlen
    exact ⟨words, word ++ text, eol, hread, hrest, hlen, by rw [hsame]⟩

/-- **The whole loop** ends with the line and has read all of its words. -/
theorem run_rest (rounds : Nat) :
    ∀ {s : WordLoop} {words : List (Bytes × Bytes)} {word eol : Bytes}, s.HasRead words word eol → Utf8 s.cmd →
      s.cmd.length ≤ rounds →
      ∃ words' word' eol', (run handleQuotes allowEscapeQuotes rounds s).HasRead words' word' eol' ∧
        (run handleQuotes allowEscapeQuotes rounds s).cmd = [] ∧
        words' ++ [(word', eol')] = words ++ s.rest handleQuotes allowEscapeQuotes word eol := by
  have hdone : ∀ {s : WordLoop} {word eol : Bytes}, s.cmd = [] →
      s.rest handleQuotes allowEscapeQuotes word eol = [(word, eol)] := by
    intro s word eol hcmd
    unfold rest
    rw [hcmd]
    rfl
  induction rounds with
  | zero =>
    intro s words word eol h hutf8 hlen
    have hcmd : s.cmd = [] := List.eq_nil_of_length_eq_zero (by omega)
    exact ⟨words, word, eol, h, hcmd, by rw [hdone hcmd]⟩
  | succ rounds ih =>
    intro s words word eol h hutf8 hlen
    rw [run]
    split_ifs with hcmd
    · exact ⟨words, word, eol, h, hcmd, by rw [hdone hcmd]⟩
    · obtain ⟨words', word', eol', hread, hutf8', hlen', hsame⟩ := round_rest h hcmd hutf8
      obtain ⟨words'', word'', eol'', hread', hend, hall⟩ := ih hread hutf8' (by omega)
      exact ⟨words'', word'', eol'', hread', hend, hall.trans hsame⟩

end Loop

end WordLoop

/-- The words of a line, and the rest of the line from each on. -/
def lineWords (handleQuotes allowEscapeQuotes : Bool) (cmd : Bytes) : List (Bytes × Bytes) :=
  wordsOf [] cmd false (lineTokens false (quoteMarks handleQuotes allowEscapeQuotes cmd))

/-- What `process_data_init` sets, for a line of whole characters. -/
theorem Words.init_eq {cmd : Bytes} (hutf8 : Utf8 cmd) (handleQuotes allowEscapeQuotes : Bool) :
    Words.init cmd handleQuotes allowEscapeQuotes =
      ⟨render (lineWords handleQuotes allowEscapeQuotes cmd),
        (layout 0 (lineWords handleQuotes allowEscapeQuotes cmd)).take (PDIWORDS - 1)⟩ := by
  have hstart : (WordLoop.mk cmd [] [(0, cmd)] false false).HasRead [] [] cmd := ⟨rfl, rfl⟩
  obtain ⟨words, word, eol, hread, -, hall⟩ :=
    @WordLoop.run_rest handleQuotes allowEscapeQuotes cmd.length _ _ _ _ hstart hutf8 le_rfl
  have hwords : lineWords handleQuotes allowEscapeQuotes cmd = words ++ [(word, eol)] := hall.symm
  have hbuf : render (words ++ [(word, eol)]) = render words ++ word ++ [0] := by
    rw [render_append, List.append_assoc]
    simp [render]
  have hlayout : layout 0 (words ++ [(word, eol)]) = layout 0 words ++ [((render words).length, eol)] := by
    rw [layout_append, Nat.zero_add]
    rfl
  unfold Words.init
  dsimp only
  rw [hread.buf, hread.words, hwords, hbuf, hlayout]

/-! ## The words are the fields -/

section Fields

variable {allowEscapeQuotes : Bool} {cmd : Bytes}

/-- With quote handling off, spaces separate and everything else is kept. -/
theorem lineTokens_plain (cmd : Bytes) :
    (lineTokens false (quoteMarks false allowEscapeQuotes cmd)).map Prod.fst =
      cmd.map fun c => if c = space then LineToken.sep else LineToken.kept c := by
  induction cmd with
  | nil => rfl
  | cons c cmd ih =>
    rw [quoteMarks_other (by simp), lineTokens, List.map_cons, ih, List.map_cons]
    simp

theorem lineWords_getD (handleQuotes allowEscapeQuotes : Bool) (cmd : Bytes) (k : Nat) :
    ((lineWords handleQuotes allowEscapeQuotes cmd).map Prod.fst).getD k [] =
      ((fields LineToken.isSep ((lineTokens false (quoteMarks handleQuotes allowEscapeQuotes cmd)).map Prod.fst)).map
        fun field => field.filterMap LineToken.byte?).getD k [] := by
  have hwords := wordsOf_fields (lineTokens false (quoteMarks handleQuotes allowEscapeQuotes cmd)) [] cmd false
  have hsame := fieldsFrom_getD LineToken.isSep
    ((lineTokens false (quoteMarks handleQuotes allowEscapeQuotes cmd)).map Prod.fst) k
  rw [show ([] : List LineToken).filterMap LineToken.byte? = [] from rfl] at hwords
  rw [lineWords, hwords]
  simp only [List.getD_eq_getElem?_getD, List.getElem?_map] at hsame ⊢
  generalize (fieldsFrom LineToken.isSep [] false _)[k]? = found at hsame ⊢
  generalize (fields LineToken.isSep _)[k]? = wanted at hsame ⊢
  cases found <;> cases wanted <;> simp_all

/-- With quote handling off, the fields of the tokens are those of the line. -/
theorem fields_plain (cmd : Bytes) :
    (fields LineToken.isSep ((lineTokens false (quoteMarks false allowEscapeQuotes cmd)).map Prod.fst)).map
      (fun field => field.filterMap LineToken.byte?) = spaceFields cmd := by
  have hsep : (LineToken.isSep ∘ fun c : UInt8 => if c = space then LineToken.sep else LineToken.kept c) =
      (· == space) := by
    funext c
    show LineToken.isSep (if c = space then LineToken.sep else LineToken.kept c) = (c == space)
    split_ifs with hc
    · simp [LineToken.isSep, hc]
    · simp [LineToken.isSep, hc]
  rw [lineTokens_plain, fields_map, hsep, List.map_map, spaceFields]
  conv_rhs => rw [← List.map_id (fields (· == space) cmd)]
  apply List.map_congr_left
  intro field hfield
  show (field.map _).filterMap LineToken.byte? = field
  rw [List.filterMap_map]
  have hsome : ∀ c ∈ field, (LineToken.byte? ∘ fun c => if c = space then LineToken.sep else LineToken.kept c) c = some c := by
    intro c hc
    have hne : c ≠ space := by simpa using not_sep_of_mem_fields hfield hc
    show LineToken.byte? (if c = space then LineToken.sep else LineToken.kept c) = some c
    rw [if_neg hne]
    rfl
  rw [List.filterMap_congr hsome]
  exact List.filterMap_some

/-- The words have only bytes of the line. -/
theorem mem_lineWords {handleQuotes : Bool} {p : Bytes × Bytes} {b : UInt8}
    (hp : p ∈ lineWords handleQuotes allowEscapeQuotes cmd) (hb : b ∈ p.1) :
    some b ∈ (quoteMarks handleQuotes allowEscapeQuotes cmd).map Prod.fst :=
  mem_wordsOf (P := fun b => some b ∈ (quoteMarks handleQuotes allowEscapeQuotes cmd).map Prod.fst)
    (fun _ _ h => mem_lineTokens h) (by simp) p hp b hb

/-- Between a quote that opens and the one that closes, nothing separates. -/
theorem lineTokens_inner {inner : List (Option UInt8 × Bytes)} (h : ∀ m ∈ inner, m.1 ≠ none)
    (post : List (Option UInt8 × Bytes)) :
    (lineTokens true (inner ++ post)).map Prod.fst =
      (inner.map Prod.fst).reduceOption.map LineToken.kept ++ (lineTokens true post).map Prod.fst := by
  induction inner with
  | nil => rfl
  | cons m inner ih =>
    obtain ⟨m, rest⟩ := m
    have hinner := ih fun m hm => h m (by simp [hm])
    cases m with
    | none => exact absurd rfl (h (none, rest) (by simp))
    | some b =>
      rw [List.cons_append, lineTokens, if_neg (by simp), List.map_cons, hinner]
      rfl

theorem lineTokens_append (pre post : List (Option UInt8 × Bytes)) :
    ∀ quote, lineTokens quote (pre ++ post) =
      lineTokens quote pre ++ lineTokens (if (pre.map Prod.fst).count none % 2 = 0 then quote else !quote) post := by
  induction pre with
  | nil =>
    intro quote
    rfl
  | cons m pre ih =>
    intro quote
    obtain ⟨m, rest⟩ := m
    cases m with
    | some b =>
      rw [List.cons_append, lineTokens, ih, lineTokens, List.cons_append, List.map_cons, List.count_cons_of_ne (by simp)]
    | none =>
      rw [List.cons_append, lineTokens, ih, lineTokens, List.cons_append, List.map_cons, List.count_cons_self]
      have hodd : ((pre.map Prod.fst).count none + 1) % 2 = 0 ↔ ¬ (pre.map Prod.fst).count none % 2 = 0 := by omega
      by_cases heven : (pre.map Prod.fst).count none % 2 = 0
      · rw [if_pos heven, if_neg (by omega)]
      · rw [if_neg heven, if_pos (by omega), Bool.not_not]

/-- A quoted part of the line lies within one field. -/
theorem exists_quotedField {pre inner post : List (Option UInt8)}
    (h : (quoteMarks true allowEscapeQuotes cmd).map Prod.fst = pre ++ none :: (inner ++ none :: post))
    (heven : pre.count none % 2 = 0) (hinner : none ∉ inner) :
    ∃ field ∈ quotedFields allowEscapeQuotes cmd, inner.reduceOption <:+: field := by
  obtain ⟨pre', tail, hmarks, rfl, htail⟩ := List.map_eq_append_iff.1 h
  obtain ⟨⟨_, rest⟩, tail', rfl, rfl, htail'⟩ := List.map_eq_cons_iff.1 htail
  obtain ⟨inner', tail'', rfl, rfl, htail''⟩ := List.map_eq_append_iff.1 htail'
  obtain ⟨⟨_, rest'⟩, post', rfl, rfl, rfl⟩ := List.map_eq_cons_iff.1 htail''
  have hmarked : ∀ m ∈ inner', m.1 ≠ none := fun m hm hnone => hinner (hnone ▸ List.mem_map_of_mem hm)
  have hkept := lineTokens_inner hmarked ((none, rest') :: post')
  have htokens : (lineTokens false (quoteMarks true allowEscapeQuotes cmd)).map Prod.fst =
      (lineTokens false pre').map Prod.fst ++ ((LineToken.mark :: (inner'.map Prod.fst).reduceOption.map LineToken.kept) ++
        (lineTokens true ((none, rest') :: post')).map Prod.fst) := by
    rw [hmarks, lineTokens_append, if_pos heven, List.map_append, lineTokens, List.map_cons, Bool.not_false, hkept]
    rfl
  have hwhole : ∀ t ∈ LineToken.mark :: (inner'.map Prod.fst).reduceOption.map LineToken.kept, t.isSep = false := by
    simp [LineToken.isSep]
  obtain ⟨field, hfield, hin⟩ := exists_field hwhole (by simp) ((lineTokens false pre').map Prod.fst)
    ((lineTokens true ((none, rest') :: post')).map Prod.fst)
  rw [← htokens] at hfield
  refine ⟨field.filterMap LineToken.byte?, List.mem_map_of_mem hfield, ?_⟩
  have hbytes : (LineToken.mark :: (inner'.map Prod.fst).reduceOption.map LineToken.kept).filterMap LineToken.byte? =
      (inner'.map Prod.fst).reduceOption := by
    rw [List.filterMap_cons_none rfl, List.filterMap_map]
    exact List.filterMap_some
  rw [← hbytes]
  exact hin.filterMap _

end Fields

/-! ## The rests of the line -/

section Rests

variable {allowEscapeQuotes : Bool} {cmd : Bytes}

theorem lineTokens_cons (c : UInt8) (cmd : Bytes) :
    lineTokens false (quoteMarks false allowEscapeQuotes (c :: cmd)) =
      (if c = space then LineToken.sep else LineToken.kept c, cmd) ::
        lineTokens false (quoteMarks false allowEscapeQuotes cmd) := by
  rw [quoteMarks_other (by simp), lineTokens]
  simp

theorem dropWhile_spaces (n : Nat) {text : Bytes} (h : text.head? ≠ some space) :
    (List.replicate n space ++ text).dropWhile (· == space) = text := by
  rw [List.dropWhile_append_of_pos (by simp)]
  cases text with
  | nil => rfl
  | cons c text =>
    rw [List.dropWhile_cons_of_neg]
    simpa using h

/-- From a word on that is not the first: after its spaces, the rest begins with the word. -/
theorem wordsOf_rests (cmd : Bytes) :
    ∀ {word eol : Bytes} {after : Bool} (n : Nat), eol = List.replicate n space ++ (word ++ cmd) →
      (word = [] ↔ after = true) → word.head? ≠ some space →
      ∀ p ∈ wordsOf word eol after (lineTokens false (quoteMarks false allowEscapeQuotes cmd)),
        p.2 <:+ eol ∧ BeginsWith p.1 (p.2.dropWhile (· == space)) := by
  induction cmd with
  | nil =>
    intro word eol after n heol hafter hhead p hp
    rw [List.mem_singleton.1 hp]
    refine ⟨List.suffix_rfl, [], ?_, .inl rfl⟩
    rw [heol, List.append_nil, dropWhile_spaces n hhead]
  | cons c cmd ih =>
    intro word eol after n heol hafter hhead
    rw [lineTokens_cons]
    by_cases hc : c = space
    · subst hc
      rw [if_pos rfl, wordsOf]
      split_ifs with hspace
      · obtain rfl := hafter.2 hspace
        apply ih (n + 1) _ (by simp) hhead
        rw [heol, List.replicate_succ']
        simp
      · intro p hp
        rcases List.mem_cons.1 hp with rfl | hp
        · obtain ⟨d, word, rfl⟩ := List.exists_cons_of_ne_nil fun hnil => hspace (hafter.1 hnil)
          refine ⟨List.suffix_rfl, space :: cmd, ?_, .inr rfl⟩
          rw [heol]
          exact dropWhile_spaces n hhead
        · obtain ⟨hsuffix, hbegins⟩ := ih 0 rfl (by simp) (by simp) p hp
          refine ⟨hsuffix.trans ?_, hbegins⟩
          rw [heol]
          exact ⟨List.replicate n space ++ (word ++ [space]), by simp⟩
    · rw [if_neg hc, wordsOf]
      apply ih n
      · rw [heol]
        simp
      · simp
      · cases word with
        | nil => simpa using hc
        | cons d word => simpa using hhead

/-- **The rests**: the first is the line, which begins with its first word. -/
theorem lineWords_rests (allowEscapeQuotes : Bool) (cmd : Bytes) :
    ∃ word words, lineWords false allowEscapeQuotes cmd = (word, cmd) :: words ∧ BeginsWith word cmd ∧
      ∀ p ∈ words, p.2 <:+ cmd ∧ BeginsWith p.1 (p.2.dropWhile (· == space)) := by
  cases cmd with
  | nil => exact ⟨[], [], rfl, ⟨[], rfl, .inl rfl⟩, by simp⟩
  | cons c cmd =>
    unfold lineWords
    rw [lineTokens_cons]
    by_cases hc : c = space
    · subst hc
      rw [if_pos rfl, wordsOf, if_neg (by simp)]
      refine ⟨[], _, rfl, ⟨space :: cmd, rfl, .inr rfl⟩, fun p hp => ?_⟩
      obtain ⟨hsuffix, hbegins⟩ := wordsOf_rests cmd 0 rfl (by simp) (by simp) p hp
      exact ⟨hsuffix.trans (List.suffix_cons _ _), hbegins⟩
    · rw [if_neg hc, wordsOf, List.nil_append]
      have hhead : (c :: cmd).head? ≠ some space := by simpa using hc
      have hall : ∀ p ∈ wordsOf [c] (c :: cmd) false (lineTokens false (quoteMarks false allowEscapeQuotes cmd)),
          p.2 <:+ c :: cmd ∧ BeginsWith p.1 (p.2.dropWhile (· == space)) :=
        wordsOf_rests cmd 0 rfl (by simp) (by simpa using hc)
      obtain ⟨word, words, hwords⟩ := wordsOf_head (c :: cmd)
        (lineTokens false (quoteMarks false allowEscapeQuotes cmd)) [c] false
      rw [hwords] at hall ⊢
      refine ⟨word, words, rfl, ?_, fun p hp => hall p (List.mem_cons_of_mem _ hp)⟩
      have hfirst := (hall _ List.mem_cons_self).2
      rwa [show (c :: cmd).dropWhile (· == space) = c :: cmd from dropWhile_spaces 0 hhead] at hfirst

end Rests

/-! ## Word splitting -/

section Splitting

variable {cmd : Bytes}

theorem not_mem_lineWords {handleQuotes allowEscapeQuotes : Bool} (hnul : (0 : UInt8) ∉ cmd) :
    ∀ p ∈ lineWords handleQuotes allowEscapeQuotes cmd, (0 : UInt8) ∉ p.1 := by
  intro p hp h0
  exact hnul (mem_quoteMarks (mem_lineWords hp h0))

theorem Words.init_word (hutf8 : Utf8 cmd) (hnul : (0 : UInt8) ∉ cmd) (handleQuotes allowEscapeQuotes : Bool) {k : Nat}
    (hk : k + 1 < PDIWORDS) :
    (Words.init cmd handleQuotes allowEscapeQuotes).word (k + 1) =
      ((lineWords handleQuotes allowEscapeQuotes cmd).map Prod.fst).getD k [] := by
  rw [Words.init_eq hutf8, Words.word_eq (not_mem_lineWords hnul) hk]

theorem Words.init_wordEol (hutf8 : Utf8 cmd) (handleQuotes allowEscapeQuotes : Bool) {k : Nat}
    (hk : k + 1 < PDIWORDS) :
    (Words.init cmd handleQuotes allowEscapeQuotes).wordEol (k + 1) =
      ((lineWords handleQuotes allowEscapeQuotes cmd).map Prod.snd).getD k [] := by
  rw [Words.init_eq hutf8, Words.wordEol_eq hk]

/-- A word past the first: the rest that belongs to it is a part of the line and begins with it. -/
theorem Words.init_rest (hutf8 : Utf8 cmd) (hnul : (0 : UInt8) ∉ cmd) (allowEscapeQuotes : Bool) {k : Nat}
    (hk : k + 2 < PDIWORDS) :
    (Words.init cmd false allowEscapeQuotes).wordEol (k + 2) <:+ cmd ∧
      BeginsWith ((Words.init cmd false allowEscapeQuotes).word (k + 2))
        (((Words.init cmd false allowEscapeQuotes).wordEol (k + 2)).dropWhile (· == space)) := by
  obtain ⟨word, words, hwords, -, hrests⟩ := lineWords_rests allowEscapeQuotes cmd
  rw [Words.init_word hutf8 hnul _ _ hk, Words.init_wordEol hutf8 _ _ hk, hwords]
  simp only [List.getD_eq_getElem?_getD, List.getElem?_map, List.getElem?_cons_succ]
  cases hget : words[k]? with
  | none => exact ⟨List.nil_suffix, [], rfl, .inl rfl⟩
  | some p => exact hrests p (List.mem_of_getElem? hget)

/-- What is left of a character goes on with the word. -/
theorem wordsFrom_character (text rest : Bytes) :
    ∀ word eol, Inbound.wordsFrom word eol text.length false (text ++ rest) =
      Inbound.wordsFrom (word ++ text) eol 0 false rest := by
  induction text with
  | nil => simp
  | cons c text ih =>
    intro word eol
    rw [List.cons_append, List.length_cons, Inbound.wordsFrom, ih, List.append_assoc]
    rfl

/-- Byte by byte or in two steps, the words are the same. -/
theorem wordsOf_eq_wordsFrom (allowEscapeQuotes : Bool) (hutf8 : Utf8 cmd) :
    ∀ (word eol : Bytes) (after : Bool),
      wordsOf word eol after (lineTokens false (quoteMarks false allowEscapeQuotes cmd)) =
        Inbound.wordsFrom word eol 0 after cmd := by
  refine Utf8.by_characters (motive := fun cmd => ∀ (word eol : Bytes) (after : Bool),
    wordsOf word eol after (lineTokens false (quoteMarks false allowEscapeQuotes cmd)) =
      Inbound.wordsFrom word eol 0 after cmd) ?_ ?_ hutf8
  · intro word eol after
    rw [Inbound.wordsFrom]
    rfl
  · intro c cmd state hhead ih word eol after
    by_cases hc : c = space
    · subst hc
      have howed : state.owed = 0 := by
        cases hhead.lead
        rfl
      rw [howed, List.drop_zero] at ih
      rw [lineTokens_cons, if_pos rfl, wordsOf, Inbound.wordsFrom, if_pos (show space = 32 from rfl), ih, ih]
    · have hne : c ≠ 32 := hc
      have hbytes : ∀ b ∈ c :: cmd.take state.owed, ¬ (b = quotation ∧ false = true) ∧ ¬ (b = space ∧ false = false) := by
        intro b hb
        refine ⟨by simp, ?_⟩
        rintro ⟨rfl, -⟩
        rcases List.mem_cons.1 hb with hb | hb
        · exact hc hb.symm
        · cases hhead.tails space hb
      have hsplit : c :: cmd = c :: cmd.take state.owed ++ cmd.drop state.owed := by
        rw [List.cons_append, List.take_append_drop]
      have hlen : utf8Skip c - 1 = (cmd.take state.owed).length := by
        rw [utf8Skip_of_lead hhead.lead, List.length_take, Nat.min_eq_left hhead.long]
        omega
      rw [hsplit, wordsOf_copied (by simp) hbytes, ih, List.cons_append, Inbound.wordsFrom, if_neg hne, hlen,
        wordsFrom_character, List.append_assoc]
      rfl

/-- `processDataInit` lists what `word` and `word_eol` point at with quote handling off. -/
theorem processDataInit_words (hutf8 : Utf8 cmd) (hnul : (0 : UInt8) ∉ cmd) (allowEscapeQuotes : Bool) {k : Nat}
    (hk : k + 1 < PDIWORDS) :
    (Inbound.processDataInit cmd).getD k ([], []) =
      ((Words.init cmd false allowEscapeQuotes).word (k + 1), (Words.init cmd false allowEscapeQuotes).wordEol (k + 1)) := by
  have hroom : k < PDIWORDS - 1 := by omega
  have hsame : lineWords false allowEscapeQuotes cmd = Inbound.wordsFrom [] cmd 0 false cmd :=
    wordsOf_eq_wordsFrom allowEscapeQuotes hutf8 [] cmd false
  rw [Words.init_word hutf8 hnul _ _ hk, Words.init_wordEol hutf8 _ _ hk, Inbound.processDataInit, ← hsame]
  simp only [List.getD_eq_getElem?_getD, List.getElem?_map, List.getElem?_take_of_lt hroom]
  cases (lineWords false allowEscapeQuotes cmd)[k]? <;> rfl

/-- **Faithful words.**  `buf` has room in a buffer one byte longer than the line.  With quote handling off the words are the
fields of the line, and the rest from each on begins with it, the first without skipping spaces.  With quote handling on
the words are the fields between spaces that stand outside of quotes, without the quotes that open and close; what stands
between two of these lies within one field. -/
theorem words_faithful (cmd : Bytes) (hutf8 : Utf8 cmd) (hnul : (0 : UInt8) ∉ cmd) (allowEscapeQuotes : Bool) :
    let plain := Words.init cmd false allowEscapeQuotes
    let quoted := Words.init cmd true allowEscapeQuotes
    plain.buf.length ≤ cmd.length + 1 ∧ quoted.buf.length ≤ cmd.length + 1 ∧
    (∀ k, 1 ≤ k → k < PDIWORDS → plain.word k = (spaceFields cmd).getD (k - 1) []) ∧
    (plain.wordEol 1 = cmd ∧ BeginsWith (plain.word 1) cmd) ∧
    (∀ k, 2 ≤ k → k < PDIWORDS → plain.wordEol k <:+ cmd ∧
      BeginsWith (plain.word k) ((plain.wordEol k).dropWhile (· == space))) ∧
    (∀ k, 1 ≤ k → k < PDIWORDS → quoted.word k = (quotedFields allowEscapeQuotes cmd).getD (k - 1) [] ∧
      (allowEscapeQuotes = false → quotation ∉ quoted.word k)) ∧
    ∀ pre inner post, (quoteMarks true allowEscapeQuotes cmd).map Prod.fst = pre ++ none :: (inner ++ none :: post) →
      pre.count none % 2 = 0 → none ∉ inner →
      ∃ field ∈ quotedFields allowEscapeQuotes cmd, inner.reduceOption <:+: field := by
  have hbuf : ∀ handleQuotes, (Words.init cmd handleQuotes allowEscapeQuotes).buf.length ≤ cmd.length + 1 := by
    intro handleQuotes
    have hrun := @WordLoop.length_run handleQuotes allowEscapeQuotes cmd.length ⟨cmd, [], [(0, cmd)], false, false⟩
    show (_ ++ [0]).length ≤ _
    rw [List.length_append, List.length_singleton]
    simp only [List.length_nil] at hrun
    omega
  have hfirst : 0 + 1 < PDIWORDS := by decide
  refine ⟨hbuf false, hbuf true, ?_, ?_, ?_, ?_, fun pre inner post => exists_quotedField⟩
  · intro k hk hlt
    obtain ⟨k, rfl⟩ := Nat.exists_eq_add_of_le' hk
    rw [Words.init_word hutf8 hnul _ _ hlt, lineWords_getD, fields_plain, Nat.add_sub_cancel]
  · obtain ⟨word, words, hwords, hbegins, -⟩ := lineWords_rests allowEscapeQuotes cmd
    rw [Words.init_word hutf8 hnul _ _ hfirst, Words.init_wordEol hutf8 _ _ hfirst, hwords]
    exact ⟨rfl, hbegins⟩
  · intro k hk hlt
    obtain ⟨k, rfl⟩ := Nat.exists_eq_add_of_le' hk
    exact Words.init_rest hutf8 hnul allowEscapeQuotes hlt
  · intro k hk hlt
    obtain ⟨k, rfl⟩ := Nat.exists_eq_add_of_le' hk
    rw [Words.init_word hutf8 hnul _ _ hlt]
    refine ⟨by rw [lineWords_getD, Nat.add_sub_cancel, quotedFields], ?_⟩
    rintro rfl hmem
    rw [List.getD_eq_getElem?_getD, List.getElem?_map] at hmem
    cases hget : (lineWords true false cmd)[k]? with
    | none => simp [hget] at hmem
    | some p =>
      rw [hget] at hmem
      have hquote := mem_lineWords (List.mem_of_getElem? hget) hmem
      rw [quoteMarks_unescaped] at hquote
      obtain ⟨c, -, hc⟩ := List.mem_map.1 hquote
      split_ifs at hc with hmark
      exact hmark (Option.some.inj hc)

theorem words_faithful_quoted :
    (Words.init (bytes "say \"a b\" c") true false).word 2 = bytes "a b" ∧
      (quotedFields false (bytes "say \"a b\" c")).getD 1 [] = bytes "a b" := by
  have hword : (Words.init (bytes "say \"a b\" c") true false).word 2 = bytes "a b" := by decide
  have hfaithful := words_faithful (bytes "say \"a b\" c") (by decide) (by decide) false
  refine ⟨hword, ?_⟩
  rw [← hword]
  exact ((hfaithful.2.2.2.2.2.1 2 (by decide) (by decide)).1).symm

/-- A line that begins with a space does not begin with its first word after the space; and a doubled quote, where escapes
are allowed, leaves a quote in the word. -/
theorem leading_space_and_doubled_quote :
    Utf8 (bytes " a") ∧ ¬ BeginsWith ((Words.init (bytes " a") false false).word 1)
        (((Words.init (bytes " a") false false).wordEol 1).dropWhile (· == space)) ∧
      (Words.init (bytes "\"\"") true true).word 1 = [quotation] := by
  refine ⟨by decide, ?_, by decide⟩
  rw [show (Words.init (bytes " a") false false).word 1 = [] by decide,
    show ((Words.init (bytes " a") false false).wordEol 1).dropWhile (· == space) = [97] by decide]
  rintro ⟨rest, hrest, hend⟩
  rw [List.nil_append] at hrest
  rw [← hrest] at hend
  simp [space] at hend

end Splitting

end PoxChat.Outbound
