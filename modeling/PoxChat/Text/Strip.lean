import PoxChat.Outbound.Say

/-!
# `strip_color2` of `common/util.c`

The function reads a text at `src` and writes what is left of it at `dst`, in one memory, so that the two may be the same.

* `stripLoop` — the loop, with the counters `rcol` and `bgcol` of a color code.
* `kept` — what it writes, by the text alone; `stripLoop_kept` is the same in memory, also in place.
* `Removed` — a text without its formatting codes, each color code as long as it can be.
* `strip_color2_exact` — the function removes exactly these codes, once and for all, in place or not.
-/

set_option autoImplicit false

namespace PoxChat.Text

open Lib Outbound

def comma : UInt8 := 44

/-! ## The function -/

def colorCode : UInt8 := 3

/-- `HIDDEN_CHAR`. -/
def hiddenChar : UInt8 := 8

/-- Beep, reset, reverse, bold, underline, strikethrough and italics. -/
def isAttribute (c : UInt8) : Bool := c ∈ ([7, 15, 22, 2, 31, 30, 29] : Bytes)

/-- `STRIP_ALL`: the bits are `STRIP_COLOR`, `STRIP_ATTRIB` and `STRIP_HIDDEN`. -/
def stripAll : Nat := 7

/-- `switch (*src)`: whether the byte is left out. -/
def leftOut (flags : Nat) (c : UInt8) : Bool :=
  if c = colorCode then flags.testBit 0
  else if c = hiddenChar then flags.testBit 2
  else isAttribute c && flags.testBit 1

/-- Whether the byte belongs to the color code before it. -/
def inColor (rcol bgcol : Nat) (c next : UInt8) : Bool :=
  0 < rcol && (isDigit c || (c == comma && isDigit next && bgcol == 0))

/-- The loop, and the terminator behind what it wrote; the result is the end of that. -/
def stripLoop (flags : Nat) : Nat → Bytes → Nat → Nat → Nat → Nat → Bytes × Nat
  | 0, mem, _, dst, _, _ => (mem.set dst 0, dst)
  | len + 1, mem, src, dst, rcol, bgcol =>
    let c := mem.getD src 0
    let next := mem.getD (src + 1) 0
    if inColor rcol bgcol c next then
      if c = comma then stripLoop flags len mem (src + 1) dst 2 1
      else stripLoop flags len mem (src + 1) dst (if next ≠ comma then rcol - 1 else rcol) bgcol
    else if leftOut flags c then stripLoop flags len mem (src + 1) dst (if c = colorCode then 2 else 0) 0
    else stripLoop flags len (mem.set dst c) (src + 1) (dst + 1) 0 0

/-- `strip_color2`: the memory afterwards, and the length of what was written. -/
def stripColor2 (mem : Bytes) (src : Nat) (len : Int) (dst : Nat) (flags : Nat) : Bytes × Nat :=
  let len := if len = -1 then (cString (mem.drop src)).length else len.toNat
  let (mem, stop) := stripLoop flags len mem src dst 0 0
  (mem, stop - dst)

/-! ## In memory -/

/-- What the loop writes. -/
def kept (flags : Nat) : Nat → Nat → Bytes → Bytes
  | _, _, [] => []
  | rcol, bgcol, c :: text =>
    let next := text.headD 0
    if inColor rcol bgcol c next then
      if c = comma then kept flags 2 1 text else kept flags (if next ≠ comma then rcol - 1 else rcol) bgcol text
    else if leftOut flags c then kept flags (if c = colorCode then 2 else 0) 0 text
    else c :: kept flags 0 0 text

/-- The text is in memory at an address, with its terminator. -/
def StringAt (mem : Bytes) (p : Nat) (text : Bytes) : Prop := 0 ∉ text ∧ text ++ [0] <+: mem.drop p

theorem kept_sublist (flags rcol bgcol : Nat) (text : Bytes) : (kept flags rcol bgcol text).Sublist text := by
  fun_induction kept flags rcol bgcol text with
  | case1 => exact List.Sublist.refl _
  | case2 _ _ _ _ _ ih => exact ih.cons _
  | case3 _ _ _ _ _ _ _ ih => exact ih.cons _
  | case4 _ _ _ _ _ _ _ ih => exact ih.cons _
  | case5 _ _ _ _ _ _ _ ih => exact ih.cons_cons _

/-- The two bytes that the loop looks at. -/
theorem reads_at {mem text : Bytes} {src : Nat} {c : UInt8} (h : c :: text ++ [0] <+: mem.drop src) :
    mem.getD src 0 = c ∧ mem.getD (src + 1) 0 = text.headD 0 ∧ text ++ [0] <+: mem.drop (src + 1) := by
  obtain ⟨rest, hrest⟩ := h
  have hdrop : mem.drop (src + 1) = text ++ [0] ++ rest := by
    rw [← List.drop_drop, ← hrest]
    rfl
  have hget (i : Nat) : mem.getD (src + i) 0 = (mem.drop src).getD i 0 := by
    rw [List.getD_eq_getElem?_getD, List.getD_eq_getElem?_getD, List.getElem?_drop]
  refine ⟨?_, ?_, ⟨rest, hdrop.symm⟩⟩
  · have h0 := hget 0
    rwa [← hrest] at h0
  · rw [hget 1, ← hrest]
    cases text <;> rfl

/-- A byte that is written outside of a text leaves it. -/
theorem prefix_set {mem text : Bytes} {src : Nat} (dst : Nat) (c : UInt8) (h : text <+: mem.drop src)
    (happart : dst < src ∨ src + text.length ≤ dst) : text <+: (mem.set dst c).drop src := by
  rw [List.drop_set]
  split_ifs with hlt
  · exact h
  · obtain ⟨rest, hrest⟩ := h
    rw [← hrest, List.set_append_right _ _ (by omega)]
    exact List.prefix_append _ _

/-- A byte that was written is before what is written behind it. -/
theorem drop_of_take {mem mem' : Bytes} {dst : Nat} {c : UInt8} (hdst : dst < mem.length)
    (h : mem'.take (dst + 1) = (mem.set dst c).take (dst + 1)) :
    mem'.drop dst = c :: mem'.drop (dst + 1) ∧ mem'.take dst = mem.take dst := by
  have hwritten : (mem.set dst c).take (dst + 1) = mem.take dst ++ [c] := by
    rw [List.take_add_one, List.getElem?_set_self hdst, List.take_set_of_le le_rfl]
    rfl
  rw [hwritten] at h
  have hlen : (mem.take dst).length = dst := List.length_take_of_le hdst.le
  have hsplit : mem' = mem.take dst ++ c :: mem'.drop (dst + 1) := by
    have happ := List.take_append_drop (dst + 1) mem'
    rw [h, List.append_assoc] at happ
    exact happ.symm
  constructor
  · conv_lhs => rw [hsplit]
    exact List.drop_left' hlen
  · rw [hsplit]
    exact List.take_left' hlen

/-- **The loop in memory**: what it reads is not yet written over, and what it has written stays. -/
theorem stripLoop_kept (flags : Nat) {text mem : Bytes} {src dst : Nat} (rcol bgcol : Nat)
    (htext : text ++ [0] <+: mem.drop src) (hroom : dst + (kept flags rcol bgcol text).length < mem.length)
    (happart : dst ≤ src ∨ src + text.length < dst) :
    (stripLoop flags text.length mem src dst rcol bgcol).2 = dst + (kept flags rcol bgcol text).length ∧
      kept flags rcol bgcol text ++ [0] <+: (stripLoop flags text.length mem src dst rcol bgcol).1.drop dst ∧
      (stripLoop flags text.length mem src dst rcol bgcol).1.take dst = mem.take dst := by
  induction text generalizing mem src dst rcol bgcol with
  | nil =>
    have hdst : dst < mem.length := hroom
    have hdrop : (mem.set dst 0).drop dst = 0 :: mem.drop (dst + 1) := by
      rw [List.drop_set, if_neg (Nat.lt_irrefl dst), Nat.sub_self, List.drop_eq_getElem_cons hdst, List.set_cons_zero]
    exact ⟨rfl, ⟨mem.drop (dst + 1), hdrop.symm⟩, List.take_set_of_le le_rfl⟩
  | cons c text ih =>
    obtain ⟨hc, hnext, hrest⟩ := reads_at htext
    have hbehind : dst ≤ src + 1 ∨ src + 1 + text.length < dst := by
      rw [List.length_cons] at happart
      omega
    rw [kept] at hroom ⊢
    rw [List.length_cons, stripLoop, hc, hnext]
    by_cases hin : inColor rcol bgcol c (text.headD 0) = true
    · rw [if_pos hin] at hroom ⊢
      rw [if_pos hin]
      by_cases hcomma : c = comma
      · rw [if_pos hcomma] at hroom ⊢
        rw [if_pos hcomma]
        exact ih 2 1 hrest hroom hbehind
      · rw [if_neg hcomma] at hroom ⊢
        rw [if_neg hcomma]
        exact ih _ bgcol hrest hroom hbehind
    · rw [if_neg hin] at hroom ⊢
      rw [if_neg hin]
      by_cases hout : leftOut flags c = true
      · rw [if_pos hout] at hroom ⊢
        rw [if_pos hout]
        exact ih _ 0 hrest hroom hbehind
      · rw [if_neg hout] at hroom ⊢
        rw [if_neg hout]
        rw [List.length_cons] at hroom happart ⊢
        have hdst : dst < mem.length := by omega
        have houtside : dst < src + 1 ∨ src + 1 + (text ++ [0]).length ≤ dst := by
          rw [List.length_append, List.length_singleton]
          omega
        have hroom' : dst + 1 + (kept flags 0 0 text).length < (mem.set dst c).length := by
          rw [List.length_set]
          omega
        have happart' : dst + 1 ≤ src + 1 ∨ src + 1 + text.length < dst + 1 := by omega
        obtain ⟨hstop, hwritten, hbefore⟩ := ih 0 0 (prefix_set dst c hrest houtside) hroom' happart'
        obtain ⟨hdrop, htake⟩ := drop_of_take hdst hbefore
        refine ⟨by omega, ?_, htake⟩
        rw [hdrop, List.cons_append]
        exact (List.prefix_cons_inj c).2 hwritten

/-! ## Formatting codes -/

def isFormatting (c : UInt8) : Bool := c == colorCode || c == hiddenChar || isAttribute c

/-- Up to two digits, and optionally a comma with one or two digits. -/
def ColorArgs (args : Bytes) : Prop :=
  ∃ fg bg, fg.length ≤ 2 ∧ bg.length ≤ 2 ∧ (∀ c ∈ fg ++ bg, isDigit c = true) ∧
    (args = fg ∨ bg ≠ [] ∧ args = fg ++ comma :: bg)

/-- The text without its formatting codes, each of them as long as it can be. -/
inductive Removed : Bytes → Bytes → Prop where
  | nil : Removed [] []
  | other {c : UInt8} {text out : Bytes} (hc : isFormatting c = false) (h : Removed text out) :
      Removed (c :: text) (c :: out)
  | style {c : UInt8} {text out : Bytes} (hc : c = hiddenChar ∨ isAttribute c = true) (h : Removed text out) :
      Removed (c :: text) out
  | color {args rest text out : Bytes} (htext : text = args ++ rest) (hargs : ColorArgs args)
      (hlongest : ∀ more, more <+: text → ColorArgs more → more.length ≤ args.length) (h : Removed rest out) :
      Removed (colorCode :: text) out

/-- The digits at the front of a text, at most `n`. -/
def leading : Nat → Bytes → Bytes
  | 0, _ => []
  | _, [] => []
  | n + 1, c :: text => if isDigit c then c :: leading n text else []

theorem leading_spec (n : Nat) (text : Bytes) :
    leading n text <+: text ∧ (∀ c ∈ leading n text, isDigit c = true) ∧ (leading n text).length ≤ n := by
  fun_induction leading n text with
  | case1 => exact ⟨List.nil_prefix, nofun, le_rfl⟩
  | case2 => exact ⟨List.nil_prefix, nofun, Nat.zero_le _⟩
  | case3 n c text hc ih =>
    obtain ⟨hpre, hdigits, hlen⟩ := ih
    exact ⟨(List.prefix_cons_inj c).2 hpre, List.forall_mem_cons.2 ⟨hc, hdigits⟩, Nat.succ_le_succ hlen⟩
  | case4 => exact ⟨List.nil_prefix, nofun, Nat.zero_le _⟩

theorem leading_prefix (n : Nat) (text : Bytes) : leading n text <+: text := (leading_spec n text).1

theorem leading_digits (n : Nat) (text : Bytes) : ∀ c ∈ leading n text, isDigit c = true := (leading_spec n text).2.1

theorem leading_length_le (n : Nat) (text : Bytes) : (leading n text).length ≤ n := (leading_spec n text).2.2

/-- Any digits at the front of a text are among the leading ones. -/
theorem prefix_leading {n : Nat} {text ds : Bytes} (h : ds <+: text) (hlen : ds.length ≤ n)
    (hds : ∀ c ∈ ds, isDigit c = true) : ds <+: leading n text := by
  induction n generalizing text ds with
  | zero =>
    rw [List.length_eq_zero_iff.1 (Nat.le_zero.1 hlen)]
    exact List.nil_prefix
  | succ n ih =>
    cases ds with
    | nil => exact List.nil_prefix
    | cons d ds =>
      cases text with
      | nil => exact absurd (List.prefix_nil.1 h) (List.cons_ne_nil d ds)
      | cons c text =>
        obtain ⟨rfl, hrest⟩ := List.cons_prefix_cons.1 h
        obtain ⟨hd, hds⟩ := List.forall_mem_cons.1 hds
        rw [leading, if_pos hd]
        exact (List.prefix_cons_inj d).2 (ih hrest (Nat.le_of_succ_le_succ hlen) hds)

theorem isDigit_comma : isDigit comma = false := by decide

/-- The counters do not matter for a byte that is not in a color code. -/
theorem kept_stop {flags rcol bgcol : Nat} {text : Bytes}
    (h : inColor rcol bgcol (text.headD 0) (text.tail.headD 0) = false) :
    kept flags rcol bgcol text = kept flags 0 0 text := by
  cases text with
  | nil => rw [kept, kept]
  | cons c text =>
    have hin : ¬ inColor rcol bgcol c (text.headD 0) = true := by
      rw [Bool.not_eq_true]
      exact h
    have hnot : ¬ inColor 0 0 c (text.headD 0) = true := by simp [inColor]
    rw [kept, kept, if_neg hin, if_neg hnot]

/-- The counter takes as many digits as it says, and is not used up before a comma. -/
theorem kept_leading (flags bgcol : Nat) {rcol : Nat} (hrcol : 0 < rcol) (text : Bytes) :
    ∃ rest rcol', text = leading rcol text ++ rest ∧ kept flags rcol bgcol text = kept flags rcol' bgcol rest ∧
      (rest.headD 0 = comma → 0 < rcol') ∧ (isDigit (rest.headD 0) = true → rcol' = 0) := by
  induction rcol generalizing text with
  | zero => exact absurd hrcol (Nat.lt_irrefl 0)
  | succ rcol ih =>
    cases text with
    | nil => exact ⟨[], rcol + 1, rfl, rfl, fun _ => hrcol, fun h => absurd h (by decide)⟩
    | cons c text =>
      by_cases hc : isDigit c = true
      · have hin : inColor (rcol + 1) bgcol c (text.headD 0) = true := by simp [inColor, hc]
        have hcomma : c ≠ comma := fun h => by simp [h, isDigit_comma] at hc
        rw [kept, if_pos hin, if_neg hcomma, leading, if_pos hc, Nat.add_sub_cancel]
        by_cases hnext : text.headD 0 = comma
        · have hlead : leading rcol text = [] := by
            cases text with
            | nil => cases rcol <;> rfl
            | cons d text =>
              obtain rfl : d = comma := hnext
              cases rcol with
              | zero => rfl
              | succ rcol => exact if_neg (by decide)
          rw [hlead, if_neg (not_not_intro hnext)]
          refine ⟨text, rcol + 1, rfl, rfl, fun _ => hrcol, fun h => ?_⟩
          rw [hnext, isDigit_comma] at h
          cases h
        · rw [if_pos hnext]
          rcases Nat.eq_zero_or_pos rcol with rfl | hpos
          · exact ⟨text, 0, rfl, rfl, fun h => absurd h hnext, fun _ => rfl⟩
          · obtain ⟨rest, rcol', htext, hkept, hrest⟩ := ih hpos text
            refine ⟨rest, rcol', ?_, hkept, hrest⟩
            rw [List.cons_append, ← htext]
      · rw [leading, if_neg hc]
        exact ⟨c :: text, rcol + 1, rfl, rfl, fun _ => hrcol, fun h => absurd h hc⟩

/-- Digits before something else are the leading ones. -/
theorem leading_append {n : Nat} {ds text : Bytes} {c : UInt8} (hlen : ds.length ≤ n)
    (hds : ∀ d ∈ ds, isDigit d = true) (hc : isDigit c = false) : leading n (ds ++ c :: text) = ds := by
  obtain ⟨more, hmore⟩ := prefix_leading (List.prefix_append ds (c :: text)) hlen hds
  have hpre := leading_prefix n (ds ++ c :: text)
  rw [← hmore] at hpre ⊢
  cases more with
  | nil => exact List.append_nil ds
  | cons d more =>
    obtain ⟨rfl, -⟩ := List.cons_prefix_cons.1 ((List.prefix_append_right_inj ds).1 hpre)
    have hd : isDigit d = true := leading_digits n (ds ++ d :: text) d (by rw [← hmore]; simp)
    rw [hc] at hd
    cases hd

/-- A color code at the front of a text is its leading digits, or these, a comma and the digits behind it. -/
theorem colorArgs_prefix {more text rest : Bytes} (h : ColorArgs more) (hpre : more <+: text)
    (htext : text = leading 2 text ++ rest) : more.length ≤ (leading 2 text).length ∨
      ∃ text', rest = comma :: text' ∧ isDigit (text'.headD 0) = true ∧
        more.length ≤ (leading 2 text).length + 1 + (leading 2 text').length := by
  obtain ⟨fg, bg, hfg, hbg, hdigits, rfl | ⟨hne, rfl⟩⟩ := h
  · have hfgs : ∀ c ∈ more, isDigit c = true := fun c hc => hdigits c (List.mem_append_left bg hc)
    exact .inl (prefix_leading hpre hfg hfgs).length_le
  · obtain ⟨hfgs, hbgs⟩ := List.forall_mem_append.1 hdigits
    obtain ⟨after, rfl⟩ := hpre
    have hlead : leading 2 (fg ++ comma :: bg ++ after) = fg := by
      rw [List.append_assoc]
      exact leading_append hfg hfgs isDigit_comma
    rw [hlead, List.append_assoc] at htext
    have hrest : rest = comma :: (bg ++ after) := (List.append_cancel_left htext).symm
    refine .inr ⟨bg ++ after, hrest, ?_, ?_⟩
    · cases bg with
      | nil => exact absurd rfl hne
      | cons b bg => exact hbgs b List.mem_cons_self
    · have hle := (prefix_leading (List.prefix_append bg after) hbg hbgs).length_le
      rw [hlead, List.length_append, List.length_cons]
      omega

/-- **A color code**: after `\003` the counters take the longest one. -/
theorem kept_color (flags : Nat) (text : Bytes) : ∃ args rest, text = args ++ rest ∧ ColorArgs args ∧
    (∀ more, more <+: text → ColorArgs more → more.length ≤ args.length) ∧ kept flags 2 0 text = kept flags 0 0 rest := by
  obtain ⟨rest, rcol, htext, hkept, hcomma, hdigit⟩ := kept_leading flags 0 Nat.two_pos text
  by_cases hbg : ∃ text', rest = comma :: text' ∧ isDigit (text'.headD 0) = true
  · obtain ⟨text', rfl, hd⟩ := hbg
    obtain ⟨rest', rcol', htext', hkept', -, hdigit'⟩ := kept_leading flags 1 Nat.two_pos text'
    have hin : inColor rcol 0 comma (text'.headD 0) = true := by
      simp only [inColor, decide_eq_true (hcomma rfl), isDigit_comma, hd]
      rfl
    have hstop : inColor rcol' 1 (rest'.headD 0) (rest'.tail.headD 0) = false := by
      by_cases h : isDigit (rest'.headD 0) = true
      · simp [inColor, hdigit' h]
      · simp only [inColor, h]
        simp
    have hbgne : leading 2 text' ≠ [] := by
      cases text' with
      | nil => exact absurd hd (by decide)
      | cons d text' =>
        have hd : isDigit d = true := hd
        simp [leading, hd]
    have hsplit : text = (leading 2 text ++ comma :: leading 2 text') ++ rest' := by
      rw [List.append_assoc, List.cons_append, ← htext']
      exact htext
    have hargs : ColorArgs (leading 2 text ++ comma :: leading 2 text') :=
      ⟨leading 2 text, leading 2 text', leading_length_le 2 text, leading_length_le 2 text',
        List.forall_mem_append.2 ⟨leading_digits 2 text, leading_digits 2 text'⟩, .inr ⟨hbgne, rfl⟩⟩
    refine ⟨_, rest', hsplit, hargs, fun more hpre hmore => ?_, ?_⟩
    · rw [List.length_append, List.length_cons]
      rcases colorArgs_prefix hmore hpre htext with hle | ⟨text'', heq, -, hle⟩
      · omega
      · cases heq
        omega
    · rw [hkept, kept, if_pos hin, if_pos rfl, hkept', kept_stop hstop]
  · have hstop : inColor rcol 0 (rest.headD 0) (rest.tail.headD 0) = false := by
      by_cases h : isDigit (rest.headD 0) = true
      · simp [inColor, hdigit h]
      · cases rest with
        | nil => simp [inColor, comma, isDigit]
        | cons c rest =>
          have hno : ¬ (c = comma ∧ isDigit (rest.headD 0) = true) := by
            rintro ⟨rfl, hd⟩
            exact hbg ⟨rest, rfl, hd⟩
          simp only [List.headD_cons, List.tail_cons] at h ⊢
          rw [inColor, Bool.eq_false_iff.2 h]
          simpa using fun _ => hno
    refine ⟨leading 2 text, rest, htext, ?_, fun more hpre hmore => ?_, ?_⟩
    · refine ⟨leading 2 text, [], leading_length_le 2 text, Nat.zero_le 2, ?_, .inl rfl⟩
      rw [List.append_nil]
      exact leading_digits 2 text
    · rcases colorArgs_prefix hmore hpre htext with hle | ⟨text', heq, hd, -⟩
      · exact hle
      · exact absurd ⟨text', heq, hd⟩ hbg
    · rw [hkept, kept_stop hstop]

/-! ## What the function does -/

theorem leftOut_all (c : UInt8) : leftOut stripAll c = isFormatting c := by
  have hcolor : stripAll.testBit 0 = true := rfl
  have hattrib : stripAll.testBit 1 = true := rfl
  have hhidden : stripAll.testBit 2 = true := rfl
  rw [leftOut, isFormatting, hcolor, hattrib, hhidden, Bool.and_true]
  by_cases hc : c = colorCode
  · rw [if_pos hc, hc]
    rfl
  · by_cases hh : c = hiddenChar
    · rw [if_neg hc, if_pos hh, hh]
      rfl
    · rw [if_neg hc, if_neg hh, beq_eq_false_iff_ne.2 hc, beq_eq_false_iff_ne.2 hh]
      rfl

/-- One byte outside of a color code. -/
theorem kept_cons (flags : Nat) (c : UInt8) (text : Bytes) : kept flags 0 0 (c :: text) =
    if leftOut flags c then kept flags (if c = colorCode then 2 else 0) 0 text else c :: kept flags 0 0 text := by
  have hnot : ¬ inColor 0 0 c (text.headD 0) = true := by simp [inColor]
  rw [kept, if_neg hnot]

theorem kept_other {c : UInt8} {text : Bytes} (hc : isFormatting c = false) :
    kept stripAll 0 0 (c :: text) = c :: kept stripAll 0 0 text := by
  rw [kept_cons, leftOut_all, hc]
  rfl

theorem kept_style {c : UInt8} {text : Bytes} (hc : c = hiddenChar ∨ isAttribute c = true) :
    kept stripAll 0 0 (c :: text) = kept stripAll 0 0 text := by
  have hformat : isFormatting c = true := by
    rcases hc with rfl | hc
    · rfl
    · simp [isFormatting, hc]
  have hcolor : c ≠ colorCode := by
    rintro rfl
    revert hc
    decide
  rw [kept_cons, leftOut_all, if_pos hformat, if_neg hcolor]

theorem removed_kept (text : Bytes) : Removed text (kept stripAll 0 0 text) := by
  induction hlen : text.length using Nat.strongRecOn generalizing text with
  | ind n ih =>
    subst hlen
    cases text with
    | nil => exact .nil
    | cons c text =>
      by_cases hcolor : c = colorCode
      · obtain ⟨args, rest, htext, hargs, hlongest, hkept⟩ := kept_color stripAll text
        have hle : rest.length < (c :: text).length := by
          rw [htext, List.length_cons, List.length_append]
          omega
        have hout : leftOut stripAll c = true := by
          rw [leftOut_all, hcolor]
          rfl
        rw [kept_cons, if_pos hout, if_pos hcolor, hkept, hcolor]
        exact .color htext hargs hlongest (ih _ hle rest rfl)
      · have hrest := ih text.length (Nat.lt_succ_self _) text rfl
        by_cases hc : c = hiddenChar ∨ isAttribute c = true
        · rw [kept_style hc]
          exact .style hc hrest
        · have hformat : isFormatting c = false := by
            obtain ⟨hhidden, hattr⟩ := not_or.1 hc
            simp [isFormatting, hcolor, hhidden, hattr]
          rw [kept_other hformat]
          exact .other hformat hrest

/-- There is one text without the formatting codes. -/
theorem Removed.eq_kept {text out : Bytes} (h : Removed text out) : out = kept stripAll 0 0 text := by
  induction h with
  | nil => rfl
  | other hc _ ih => rw [kept_other hc, ← ih]
  | style hc _ ih => rw [kept_style hc, ← ih]
  | @color args rest text out htext hargs hlongest _ ih =>
    obtain ⟨args', rest', htext', hargs', hlongest', hkept⟩ := kept_color stripAll text
    have hle := hlongest args' ⟨rest', htext'.symm⟩ hargs'
    have hge := hlongest' args ⟨rest, htext.symm⟩ hargs
    obtain ⟨-, rfl⟩ := List.append_inj (htext.symm.trans htext') (Nat.le_antisymm hge hle)
    have hout : leftOut stripAll colorCode = true := rfl
    rw [kept_cons, if_pos hout, if_pos rfl, hkept, ← ih]

theorem Removed.clean {text out : Bytes} (h : Removed text out) : ∀ c ∈ out, isFormatting c = false := by
  induction h with
  | nil => simp
  | other hc _ ih => exact List.forall_mem_cons.2 ⟨hc, ih⟩
  | style _ _ ih => exact ih
  | color _ _ _ _ ih => exact ih

theorem removed_self {text : Bytes} (h : ∀ c ∈ text, isFormatting c = false) : Removed text text := by
  induction text with
  | nil => exact .nil
  | cons c text ih =>
    obtain ⟨hc, htext⟩ := List.forall_mem_cons.1 h
    exact .other hc (ih htext)

/-- The output goes to the place of the text, or has room elsewhere. -/
def RoomFor (mem : Bytes) (src dst len : Nat) : Prop :=
  dst = src ∨ dst + len < mem.length ∧ (dst + len < src ∨ src + len < dst)

/-- `strip_color2` with `STRIP_ALL` leaves `out` of a text, in place and elsewhere, and returns its length. -/
def StripsTo (text out : Bytes) : Prop :=
  ∀ mem src dst, StringAt mem src text → RoomFor mem src dst text.length →
    StringAt (stripColor2 mem src (-1) dst stripAll).1 dst out ∧
      (stripColor2 mem src (-1) dst stripAll).2 = out.length

theorem stripsTo_kept (text : Bytes) : StripsTo text (kept stripAll 0 0 text) := by
  intro mem src dst hstring hroom
  obtain ⟨h0, htext⟩ := hstring
  have hmem : src + text.length < mem.length := by
    have hle := htext.length_le
    rw [List.length_append, List.length_singleton, List.length_drop] at hle
    omega
  have hlen : (cString (mem.drop src)).length = text.length := by
    obtain ⟨rest, hrest⟩ := htext
    rw [← hrest, List.append_assoc, List.singleton_append, cString_append h0]
  have hshort := (kept_sublist stripAll 0 0 text).length_le
  have hfits : dst + (kept stripAll 0 0 text).length < mem.length := by
    rcases hroom with rfl | ⟨hroom, -⟩ <;> omega
  have happart : dst ≤ src ∨ src + text.length < dst := by
    rcases hroom with rfl | ⟨-, hroom⟩ <;> omega
  obtain ⟨hstop, hwritten, -⟩ := stripLoop_kept stripAll 0 0 htext hfits happart
  rw [stripColor2, if_pos rfl, hlen]
  refine ⟨⟨fun h => h0 ((kept_sublist stripAll 0 0 text).subset h), hwritten⟩, ?_⟩
  change (stripLoop stripAll text.length mem src dst 0 0).2 - dst = _
  rw [hstop, Nat.add_sub_cancel_left]

/-- **`strip_color2` removes exactly the formatting codes**: there is one text without them, with no such byte in it; the
function writes it, in place and elsewhere, and leaves it as it is when it is stripped again. -/
theorem strip_color2_exact (text : Bytes) : ∃ out, (∀ out', Removed text out' ↔ out' = out) ∧
    (∀ c ∈ out, isFormatting c = false) ∧ StripsTo text out ∧ StripsTo out out := by
  have hremoved := removed_kept text
  refine ⟨kept stripAll 0 0 text, fun out' => ⟨Removed.eq_kept, ?_⟩, hremoved.clean, stripsTo_kept text, ?_⟩
  · rintro rfl
    exact hremoved
  · have hself := (removed_self hremoved.clean).eq_kept
    have hstrips := stripsTo_kept (kept stripAll 0 0 text)
    rwa [← hself] at hstrips

end PoxChat.Text
