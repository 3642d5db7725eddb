import PoxChat.Outbound.Pieces

/-!
# Templates of commands

Model of `auto_insert` of `outbound.c`, which expands the templates of user commands, userlist buttons and CTCP replies into a
buffer of the caller.

* `autoInsert` — the loop over the template, with the end of what it has written.
* `templatePieces` — what a template is made of; `expansion` — the text it stands for.
* `autoInsert_kept_iff` — the writes stay in the buffer exactly when the pieces that are copied unchecked find room.
-/

set_option autoImplicit false

namespace PoxChat.Outbound

open Lib ChatHistory

/-! ## The function -/

/-- The arguments of `auto_insert`, and what it asks the system for. -/
structure Inserts where
  word : Option (Nat → Bytes)
  wordEol : Nat → Bytes
  a : Option Bytes
  c : Option Bytes
  d : Option Bytes
  e : Option Bytes
  h : Option Bytes
  n : Option Bytes
  s : Option Bytes
  u : Option Bytes
  /-- `get_sys_str (1)`. -/
  sysStr : Bytes
  /-- `ctime`, of the present. -/
  ctime : Bytes
  /-- The present day, as `%4d%02d%02d`. -/
  date : Bytes
  packageVersion : Bytes
  localeToUtf8 : UInt8 → Option Bytes

def percent : UInt8 := 37

def ampersand : UInt8 := 38

/-- The `switch` over the letter after a percent sign; the value may be missing. -/
def Inserts.letter (v : Inserts) (x : UInt8) : Option (Option Bytes) :=
  if x = 97 then some v.a                             -- a
  else if x = 99 then some v.c                        -- c
  else if x = 100 then some v.d                       -- d
  else if x = 101 then some v.e                       -- e
  else if x = 104 then some v.h                       -- h
  else if x = 109 then some (some v.sysStr)           -- m
  else if x = 110 then some v.n                       -- n
  else if x = 115 then some v.s                       -- s
  else if x = 116 then some (some (v.ctime.take 19))  -- t
  else if x = 117 then some v.u                       -- u
  else if x = 118 then some (some v.packageVersion)   -- v
  else if x = 121 then some (some v.date)             -- y
  else none

/-- `dest` as it is filled: the bytes before the pointer, and the end of the highest byte written. -/
structure Dest where
  text : Bytes
  extent : Nat

/-- Copies without a terminator. -/
def Dest.memcpy (dest : Dest) (utf : Bytes) : Dest :=
  ⟨dest.text ++ utf, max dest.extent (dest.text.length + utf.length)⟩

/-- Copies with the terminator, which the pointer stays before. -/
def Dest.strcpy (dest : Dest) (utf : Bytes) : Dest :=
  ⟨dest.text ++ utf, max dest.extent (dest.text.length + utf.length + 1)⟩

/-- `dest[0] = …`, with the pointer left where it is. -/
def Dest.poke (dest : Dest) : Dest := ⟨dest.text, max dest.extent (dest.text.length + 1)⟩

/-- `atoi` of three digits, in a `char`. -/
def threeDigits (d₁ d₂ d₃ : UInt8) : UInt8 :=
  ((d₁ - 48).toNat * 100 + (d₂ - 48).toNat * 10 + (d₃ - 48).toNat).toUInt8

/-- The loop, with `destlen` already one less: what is returned, and what is in the buffer. -/
def autoInsertLoop (v : Inserts) (destlen : Nat) : Dest → Bytes → Nat × Dest
  | dest, [] => (1, dest.memcpy [0])
  | dest, c :: rest =>
    if c = percent ∨ c = ampersand then
      if isDigit (rest.headD 0) then
        if isDigit (rest.getD 1 0) && isDigit (rest.getD 2 0) then
          match v.localeToUtf8 (threeDigits (rest.headD 0) (rest.getD 1 0) (rest.getD 2 0)) with
          | some utf =>
            if dest.text.length + utf.length ≥ destlen then (2, dest.poke)
            else autoInsertLoop v destlen (dest.poke.memcpy utf) (rest.drop 3)
          | none => autoInsertLoop v destlen dest.poke (rest.drop 3)
        else
          match v.word with
          | none => autoInsertLoop v destlen dest rest
          | some word =>
            let num := (rest.headD 0 - 48).toNat
            if word num = [] then (0, dest)
            else
              let utf := if c = percent then word num else v.wordEol num
              if dest.text.length + utf.length ≥ destlen then (2, dest)
              else autoInsertLoop v destlen (dest.strcpy utf) (rest.drop 1)
      else if c = ampersand then autoInsertLoop v destlen (dest.memcpy [c]) rest
      else if rest.headD 0 = percent then
        if dest.text.length + 2 ≥ destlen then (2, dest)
        else autoInsertLoop v destlen (dest.strcpy [percent]) (rest.drop 1)
      else
        match v.letter (rest.headD 0) with
        | some (some utf) =>
          if dest.text.length + utf.length ≥ destlen then (2, dest)
          else autoInsertLoop v destlen (dest.strcpy utf) (rest.drop 1)
        | some none => autoInsertLoop v destlen dest (rest.drop 1)
        | none => autoInsertLoop v destlen (dest.memcpy [c]) rest
    else if dest.text.length + utf8Skip c ≥ destlen then (2, dest)
    else autoInsertLoop v destlen (dest.memcpy ((c :: rest).take (utf8Skip c))) ((c :: rest).drop (utf8Skip c))
termination_by _ src => src.length
decreasing_by
  all_goals
    have := (utf8Skip_bounds c).1
    simp only [List.length_cons, List.length_drop]
    omega

/-- `auto_insert`; `destlen` is a `gsize`. -/
def autoInsert (v : Inserts) (destlen : Nat) (src : Bytes) : Nat × Dest :=
  autoInsertLoop v ((destlen + 18446744073709551615) % 18446744073709551616) ⟨[], 0⟩ src

/-! ## The pieces of a template -/

inductive TemplatePiece where
  /-- A character of the template. -/
  | char (utf : Bytes)
  /-- What a word or a letter stands for. -/
  | text (utf : Bytes)
  /-- Two percent signs. -/
  | percents
  /-- A sign that stands for itself. -/
  | sign (c : UInt8)
  /-- The code of a byte, with its text unless it has none. -/
  | code (utf : Option Bytes)
  /-- Nothing is inserted. -/
  | blank
  /-- A word that is missing. -/
  | badArgs

/-- What a template is made of. -/
def templatePieces (v : Inserts) : Bytes → List TemplatePiece
  | [] => []
  | c :: rest =>
    if c = percent ∨ c = ampersand then
      if isDigit (rest.headD 0) then
        if isDigit (rest.getD 1 0) && isDigit (rest.getD 2 0) then
          .code (v.localeToUtf8 (threeDigits (rest.headD 0) (rest.getD 1 0) (rest.getD 2 0))) :: templatePieces v (rest.drop 3)
        else
          match v.word with
          | none => .blank :: templatePieces v rest
          | some word =>
            let num := (rest.headD 0 - 48).toNat
            if word num = [] then [.badArgs]
            else .text (if c = percent then word num else v.wordEol num) :: templatePieces v (rest.drop 1)
      else if c = ampersand then .sign c :: templatePieces v rest
      else if rest.headD 0 = percent then .percents :: templatePieces v (rest.drop 1)
      else
        match v.letter (rest.headD 0) with
        | some (some utf) => .text utf :: templatePieces v (rest.drop 1)
        | some none => .blank :: templatePieces v (rest.drop 1)
        | none => .sign c :: templatePieces v rest
    else .char ((c :: rest).take (utf8Skip c)) :: templatePieces v ((c :: rest).drop (utf8Skip c))
termination_by src => src.length
decreasing_by
  all_goals
    have := (utf8Skip_bounds c).1
    simp only [List.length_cons, List.length_drop]
    omega

/-- What the loop does with each piece. -/
def runPieces (destlen : Nat) : Dest → List TemplatePiece → Nat × Dest
  | dest, [] => (1, dest.memcpy [0])
  | dest, .char utf :: ps =>
    if dest.text.length + utf.length ≥ destlen then (2, dest) else runPieces destlen (dest.memcpy utf) ps
  | dest, .text utf :: ps =>
    if dest.text.length + utf.length ≥ destlen then (2, dest) else runPieces destlen (dest.strcpy utf) ps
  | dest, .percents :: ps =>
    if dest.text.length + 2 ≥ destlen then (2, dest) else runPieces destlen (dest.strcpy [percent]) ps
  | dest, .sign c :: ps => runPieces destlen (dest.memcpy [c]) ps
  | dest, .code none :: ps => runPieces destlen dest.poke ps
  | dest, .code (some utf) :: ps =>
    if dest.text.length + utf.length ≥ destlen then (2, dest.poke) else runPieces destlen (dest.poke.memcpy utf) ps
  | dest, .blank :: ps => runPieces destlen dest ps
  | dest, .badArgs :: _ => (0, dest)

/-- The text of the pieces, unless a word is missing. -/
def expansion : List TemplatePiece → Option Bytes
  | [] => some []
  | .char utf :: ps => (expansion ps).map (utf ++ ·)
  | .text utf :: ps => (expansion ps).map (utf ++ ·)
  | .percents :: ps => (expansion ps).map (percent :: ·)
  | .sign c :: ps => (expansion ps).map (c :: ·)
  | .code utf :: ps => (expansion ps).map (utf.getD [] ++ ·)
  | .blank :: ps => expansion ps
  | .badArgs :: _ => none

/-- With `n` bytes before them, the pieces find a byte left for each sign, each code and the end, up to the first piece that does
not fit with a byte to spare behind it and its terminator. -/
def FindsRoom (destlen : Nat) : Nat → List TemplatePiece → Prop
  | n, [] => n < destlen
  | n, .char utf :: ps => n + utf.length + 1 < destlen → FindsRoom destlen (n + utf.length) ps
  | n, .text utf :: ps => n + utf.length + 1 < destlen → FindsRoom destlen (n + utf.length) ps
  | n, .percents :: ps => n + 3 < destlen → FindsRoom destlen (n + 1) ps
  | n, .sign _ :: ps => n < destlen ∧ FindsRoom destlen (n + 1) ps
  | n, .code none :: ps => n < destlen ∧ FindsRoom destlen n ps
  | n, .code (some utf) :: ps =>
    n < destlen ∧ (n + utf.length + 1 < destlen → FindsRoom destlen (n + utf.length) ps)
  | n, .blank :: ps => FindsRoom destlen n ps
  | _, .badArgs :: _ => True

/-- The writes are in the buffer; when 1 is returned, it holds the text of the pieces and a terminator. -/
def ExpansionKept (destlen : Nat) (ps : List TemplatePiece) (result : Nat × Dest) : Prop :=
  result.2.extent ≤ destlen ∧
    ((result.1 = 1 ∧ ∃ text, expansion ps = some text ∧ result.2.text = text ++ [0]) ∨ result.1 = 0 ∨ result.1 = 2)

/-! ## The loop goes through the pieces -/

theorem isDigit_ascii {c : UInt8} (h : isDigit c = true) : c < 0x80 := by
  simp only [isDigit, Bool.and_eq_true, decide_eq_true_eq] at h
  exact UInt8.lt_of_le_of_lt h.2 (by decide)

theorem sign_ascii {c : UInt8} (h : c = percent ∨ c = ampersand) : c < 0x80 := by
  rcases h with rfl | rfl <;> decide

theorem letter_ascii {v : Inserts} {x : UInt8} {value : Option Bytes} (h : v.letter x = some value) : x < 0x80 := by
  by_contra hx
  have hne : ∀ k : UInt8, k < 0x80 → x ≠ k := fun k hk he => hx (he ▸ hk)
  simp (disch := decide) only [Inserts.letter, hne, if_false] at h
  cases h

/-- An ASCII byte is taken off a text, if there is one. -/
theorem utf8_drop_one {text : Bytes} (h : Utf8 text) (hhead : text.headD 0 < 0x80) : Utf8 (text.drop 1) := by
  cases text with
  | nil => exact h
  | cons b text => exact h.tail_of_ascii hhead

theorem utf8_drop_three {text : Bytes} (h : Utf8 text) (h0 : isDigit (text.headD 0) = true)
    (h12 : (isDigit (text.getD 1 0) && isDigit (text.getD 2 0)) = true) : Utf8 (text.drop 3) := by
  obtain ⟨h1, h2⟩ := Bool.and_eq_true_iff.1 h12
  rcases text with _ | ⟨d₀, _ | ⟨d₁, _ | ⟨d₂, text⟩⟩⟩
  · exact Utf8.nil
  · exact Utf8.nil
  · exact Utf8.nil
  · exact ((h.tail_of_ascii (isDigit_ascii h0)).tail_of_ascii (isDigit_ascii h1)).tail_of_ascii (isDigit_ascii h2)

theorem take_skip_length {c : UInt8} {rest : Bytes} (h : Utf8 (c :: rest)) :
    ((c :: rest).take (utf8Skip c)).length = utf8Skip c ∧ Utf8 ((c :: rest).drop (utf8Skip c)) := by
  obtain ⟨state, hhead⟩ := h.head
  rw [utf8Skip_of_lead hhead.lead, List.take_succ_cons, List.drop_succ_cons, List.length_cons, List.length_take,
    Nat.min_eq_left hhead.long]
  exact ⟨rfl, hhead.rest⟩

/-- **The loop runs over the pieces** of a template that is UTF-8. -/
theorem autoInsertLoop_eq (v : Inserts) (destlen : Nat) (dest : Dest) {src : Bytes} (h : Utf8 src) :
    autoInsertLoop v destlen dest src = runPieces destlen dest (templatePieces v src) := by
  fun_induction templatePieces v src generalizing dest with
  | case1 => rw [autoInsertLoop, runPieces]
  | case2 c rest hsign hdigit hcode ih =>
    rw [autoInsertLoop, if_pos hsign, if_pos hdigit, if_pos hcode]
    have hrest := utf8_drop_three (h.tail_of_ascii (sign_ascii hsign)) hdigit hcode
    cases hutf : v.localeToUtf8 (threeDigits (rest.headD 0) (rest.getD 1 0) (rest.getD 2 0)) with
    | none =>
      dsimp only
      rw [runPieces, ih _ hrest]
    | some utf =>
      dsimp only
      rw [runPieces, ih _ hrest]
  | case3 c rest hsign hdigit hcode hword ih =>
    rw [autoInsertLoop, if_pos hsign, if_pos hdigit, if_neg hcode, hword, runPieces]
    exact ih _ (h.tail_of_ascii (sign_ascii hsign))
  | case4 c rest hsign hdigit hcode word hword num hnone =>
    rw [autoInsertLoop, if_pos hsign, if_pos hdigit, if_neg hcode, hword]
    dsimp only
    rw [if_pos hnone, runPieces]
  | case5 c rest hsign hdigit hcode word hword num hsome ih =>
    have hrest := utf8_drop_one (h.tail_of_ascii (sign_ascii hsign)) (isDigit_ascii hdigit)
    rw [autoInsertLoop, if_pos hsign, if_pos hdigit, if_neg hcode, hword]
    dsimp only
    rw [if_neg hsome, runPieces, ih _ hrest]
  | case6 rest hdigit hsign ih =>
    rw [autoInsertLoop, if_pos hsign, if_neg hdigit, if_pos rfl, runPieces]
    exact ih _ (h.tail_of_ascii (sign_ascii hsign))
  | case7 c rest hsign hdigit hamp hpercent ih =>
    have hrest := utf8_drop_one (h.tail_of_ascii (sign_ascii hsign)) (by rw [hpercent]; decide)
    rw [autoInsertLoop, if_pos hsign, if_neg hdigit, if_neg hamp, if_pos hpercent, runPieces, ih _ hrest]
  | case8 c rest hsign hdigit hamp hpercent utf hletter ih =>
    have hrest := utf8_drop_one (h.tail_of_ascii (sign_ascii hsign)) (letter_ascii hletter)
    rw [autoInsertLoop, if_pos hsign, if_neg hdigit, if_neg hamp, if_neg hpercent, hletter]
    dsimp only
    rw [runPieces, ih _ hrest]
  | case9 c rest hsign hdigit hamp hpercent hletter ih =>
    rw [autoInsertLoop, if_pos hsign, if_neg hdigit, if_neg hamp, if_neg hpercent, hletter, runPieces]
    exact ih _ (utf8_drop_one (h.tail_of_ascii (sign_ascii hsign)) (letter_ascii hletter))
  | case10 c rest hsign hdigit hamp hpercent hletter ih =>
    rw [autoInsertLoop, if_pos hsign, if_neg hdigit, if_neg hamp, if_neg hpercent, hletter, runPieces]
    exact ih _ (h.tail_of_ascii (sign_ascii hsign))
  | case11 c rest hsign ih =>
    obtain ⟨hlen, hrest⟩ := take_skip_length h
    rw [autoInsertLoop, if_neg hsign, runPieces, hlen, ih _ hrest]

/-! ## Room -/

theorem runPieces_extent (destlen : Nat) (dest : Dest) (ps : List TemplatePiece) :
    dest.extent ≤ (runPieces destlen dest ps).2.extent := by
  fun_induction runPieces destlen dest ps with
  | case1 => exact Nat.le_max_left _ _
  | case2 => exact Nat.le_refl _
  | case3 _ _ _ _ ih => exact (Nat.le_max_left _ _).trans ih
  | case4 => exact Nat.le_refl _
  | case5 _ _ _ _ ih => exact (Nat.le_max_left _ _).trans ih
  | case6 => exact Nat.le_refl _
  | case7 _ _ _ ih => exact (Nat.le_max_left _ _).trans ih
  | case8 _ _ _ ih => exact (Nat.le_max_left _ _).trans ih
  | case9 _ _ ih => exact (Nat.le_max_left _ _).trans ih
  | case10 => exact Nat.le_max_left _ _
  | case11 _ _ _ _ ih => exact (Nat.le_max_left _ _).trans ((Nat.le_max_left _ _).trans ih)
  | case12 _ _ ih => exact ih
  | case13 => exact Nat.le_refl _

/-- When 1 is returned, this text and a terminator were added. -/
def Adds (dest : Dest) (text? : Option Bytes) (result : Nat × Dest) : Prop :=
  (result.1 = 1 ∧ ∃ text, text? = some text ∧ result.2.text = dest.text ++ text ++ [0]) ∨ result.1 = 0 ∨ result.1 = 2

theorem adds_before (utf : Bytes) {dest dest' : Dest} {text? : Option Bytes} {result : Nat × Dest}
    (hdest : dest'.text = dest.text ++ utf) (h : Adds dest' text? result) : Adds dest (text?.map (utf ++ ·)) result := by
  rcases h with ⟨hone, text, rfl, htext⟩ | hother
  · refine .inl ⟨hone, utf ++ text, rfl, ?_⟩
    rw [htext, hdest, List.append_assoc dest.text]
  · exact .inr hother

theorem runPieces_adds (destlen : Nat) (dest : Dest) (ps : List TemplatePiece) :
    Adds dest (expansion ps) (runPieces destlen dest ps) := by
  fun_induction runPieces destlen dest ps with
  | case1 dest => exact .inl ⟨rfl, [], rfl, by rw [List.append_nil]; rfl⟩
  | case2 => exact .inr (.inr rfl)
  | case3 dest utf ps hroom ih => exact adds_before utf rfl ih
  | case4 => exact .inr (.inr rfl)
  | case5 dest utf ps hroom ih => exact adds_before utf rfl ih
  | case6 => exact .inr (.inr rfl)
  | case7 dest ps hroom ih => exact adds_before [percent] rfl ih
  | case8 dest c ps ih => exact adds_before [c] rfl ih
  | case9 dest ps ih => exact adds_before [] (List.append_nil _).symm ih
  | case10 => exact .inr (.inr rfl)
  | case11 dest utf ps hroom ih => exact adds_before utf rfl ih
  | case12 dest ps ih => exact ih
  | case13 => exact .inr (.inl rfl)

/-- A piece that is checked: it is refused, or the rest decides. -/
theorem checked_iff (need : Nat) {destlen : Nat} {refused copied : Nat × Dest} {rest : Prop}
    (hrefused : refused.2.extent ≤ destlen) (hcopied : need + 1 < destlen → (copied.2.extent ≤ destlen ↔ rest)) :
    (if need ≥ destlen - 1 then refused else copied).2.extent ≤ destlen ↔ (need + 1 < destlen → rest) := by
  split
  · exact iff_of_true hrefused fun hlt => by omega
  · have hlt : need + 1 < destlen := by omega
    rw [hcopied hlt]
    exact ⟨fun h _ => h, fun h => h hlt⟩

/-- **The writes stay in the buffer** exactly when the pieces find room. -/
theorem runPieces_extent_iff {destlen n : Nat} {dest : Dest} (hn : dest.text.length = n)
    (hdest : dest.extent ≤ destlen) (ps : List TemplatePiece) :
    (runPieces (destlen - 1) dest ps).2.extent ≤ destlen ↔ FindsRoom destlen n ps := by
  -- A write behind the buffer is never undone.
  have hbehind : ∀ (dest' : Dest) (ps : List TemplatePiece), destlen < dest'.extent →
      ¬ (runPieces (destlen - 1) dest' ps).2.extent ≤ destlen := fun _ ps hover hle =>
    absurd ((runPieces_extent (destlen - 1) _ ps).trans hle) (Nat.not_le.2 hover)
  fun_induction FindsRoom destlen n ps generalizing dest with
  | case1 n =>
    rw [runPieces]
    refine Nat.max_le.trans ⟨fun h => ?_, fun h => ⟨hdest, ?_⟩⟩
    · have := h.2
      rw [hn, List.length_singleton] at this
      omega
    · rw [hn, List.length_singleton]
      omega
  | case2 n utf ps ih =>
    rw [runPieces, hn]
    refine checked_iff _ hdest fun hroom => ih ?_ (Nat.max_le.2 ⟨hdest, by omega⟩)
    rw [Dest.memcpy, List.length_append, hn]
  | case3 n utf ps ih =>
    rw [runPieces, hn]
    refine checked_iff _ hdest fun hroom => ih ?_ (Nat.max_le.2 ⟨hdest, by omega⟩)
    rw [Dest.strcpy, List.length_append, hn]
  | case4 n ps ih =>
    rw [runPieces, hn]
    refine checked_iff (n + 2) hdest fun hroom => ih ?_ (Nat.max_le.2 ⟨hdest, ?_⟩)
    · rw [Dest.strcpy, List.length_append, hn, List.length_singleton]
    · rw [hn, List.length_singleton]
      omega
  | case5 n c ps ih =>
    rw [runPieces]
    have hlen : (dest.memcpy [c]).text.length = n + 1 := by rw [Dest.memcpy, List.length_append, hn, List.length_singleton]
    by_cases hroom : n < destlen
    · have hextent : (dest.memcpy [c]).extent ≤ destlen :=
        Nat.max_le.2 ⟨hdest, by rw [hn, List.length_singleton]; omega⟩
      exact (ih hlen hextent).trans ⟨fun h => ⟨hroom, h⟩, fun h => h.2⟩
    · refine iff_of_false (hbehind _ ps ?_) fun h => hroom h.1
      exact (by rw [hn, List.length_singleton]; omega : destlen < _).trans_le (Nat.le_max_right _ _)
  | case6 n ps ih =>
    rw [runPieces]
    by_cases hroom : n < destlen
    · have hpoke : dest.poke.extent ≤ destlen := Nat.max_le.2 ⟨hdest, by omega⟩
      exact (ih (by exact hn) hpoke).trans ⟨fun h => ⟨hroom, h⟩, fun h => h.2⟩
    · refine iff_of_false (hbehind _ ps ?_) fun h => hroom h.1
      exact (by omega : destlen < dest.text.length + 1).trans_le (Nat.le_max_right _ _)
  | case7 n utf ps ih =>
    rw [runPieces, hn]
    by_cases hroom : n < destlen
    · have hpoke : dest.poke.extent ≤ destlen := Nat.max_le.2 ⟨hdest, by omega⟩
      have hlen : (dest.poke.memcpy utf).text.length = n + utf.length := by
        rw [Dest.memcpy, List.length_append, Dest.poke, hn]
      rw [checked_iff _ hpoke fun hfits => ih hlen (Nat.max_le.2 ⟨hpoke, ?_⟩)]
      · exact ⟨fun h => ⟨hroom, h⟩, fun h => h.2⟩
      · rw [Dest.poke, hn]
        omega
    · have hpoke : destlen < dest.poke.extent := (by omega : destlen < dest.text.length + 1).trans_le (Nat.le_max_right _ _)
      refine iff_of_false ?_ fun h => hroom h.1
      split
      · exact Nat.not_le.2 hpoke
      · exact hbehind _ ps (hpoke.trans_le (Nat.le_max_left _ _))
  | case8 n ps ih =>
    rw [runPieces]
    exact ih hn hdest
  | case9 n ps =>
    rw [runPieces]
    exact iff_of_true hdest trivial

/-- **When `auto_insert` keeps to its buffer**: exactly when the pieces of the template find room in it. -/
theorem autoInsert_kept_iff (v : Inserts) {destlen : Nat} (hmin : 2 ≤ destlen) (hmax : destlen < 2 ^ 64) {src : Bytes}
    (hsrc : Utf8 src) : ExpansionKept destlen (templatePieces v src) (autoInsert v destlen src) ↔
      FindsRoom destlen 0 (templatePieces v src) := by
  have hroom := @runPieces_extent_iff destlen 0 ⟨[], 0⟩ rfl (Nat.zero_le _) (templatePieces v src)
  have hadds := runPieces_adds (destlen - 1) ⟨[], 0⟩ (templatePieces v src)
  have hless : (destlen + 18446744073709551615) % 18446744073709551616 = destlen - 1 := by omega
  rw [autoInsert, hless, autoInsertLoop_eq v _ _ hsrc]
  exact ⟨fun h => hroom.1 h.1, fun h => ⟨hroom.2 h, hadds⟩⟩

/-- No words, empty strings, and a locale of ASCII. -/
def plainInserts : Inserts where
  word := none
  wordEol _ := []
  a := some []
  c := some []
  d := some []
  e := some []
  h := some []
  n := some []
  s := some []
  u := some []
  sysStr := []
  ctime := []
  date := []
  packageVersion := []
  localeToUtf8 b := if b < 0x80 then some [b] else none

theorem autoInsert_kept_say : ExpansionKept 8 (templatePieces plainInserts (bytes "say %%"))
      (autoInsert plainInserts 8 (bytes "say %%")) ↔ FindsRoom 8 0 (templatePieces plainInserts (bytes "say %%")) :=
  autoInsert_kept_iff plainInserts (by omega) (by omega) (by decide)

/-- Two ampersands in a buffer of two bytes: the terminator is written behind it. -/
theorem ampersands_behind_buffer : ¬ ∀ (v : Inserts) (destlen : Nat) (src : Bytes), 2 ≤ destlen → destlen < 2 ^ 64 →
    Utf8 src → ExpansionKept destlen (templatePieces v src) (autoInsert v destlen src) := by
  intro h
  have hkept := h plainInserts 2 [ampersand, ampersand] (by omega) (by omega) (by decide)
  have hextent : (autoInsert plainInserts 2 [ampersand, ampersand]).2.extent = 3 := by
    simp [autoInsert, autoInsertLoop, isDigit, Dest.memcpy, ampersand]
  rw [ExpansionKept, hextent] at hkept
  omega

end PoxChat.Outbound
