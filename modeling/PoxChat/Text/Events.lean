import Mathlib.Logic.Function.Basic
import PoxChat.Text.Strip

/-!
# Event templates

`pevt_build_string` compiles the template of an event, and `format_event` runs the result with the arguments of the event.

* `stage` — the compiler's loop: literals with their length, argument numbers, tabs and an end.
* `formatLoop` — the interpreter, with the end of what it has written into the buffer.
* `Parses` — the parts of a template.
* `templates_say` — without a dollar before a dollar, a template that is accepted has one meaning, and that is what its
  compiled form shows.
-/

set_option autoImplicit false

namespace PoxChat.Text

open Lib Outbound

/-! ## The compiler -/

def dollar : UInt8 := 36

/-- Why a template is refused, or that the literals do not fit their buffer. -/
inductive PevtError where
  | endsInDollar
  | endsInCode
  | codeTooLarge
  | invalidArgument (d : UInt8)
  | overflows

/-- What `fe_message` shows. -/
def PevtError.message : PevtError → Option Bytes
  | .endsInDollar => some (bytes "String ends with a $")
  | .endsInCode => some (bytes "String ends in $a")
  | .codeTooLarge => some (bytes "$a value is greater than 255")
  | .invalidArgument d => some (bytes "Error, invalid argument $" ++ [d, 10])
  | .overflows => none

/-- `o[oi++] = d`, in a buffer of 4096 bytes. -/
def push (o : Bytes) (d : UInt8) : Except PevtError Bytes :=
  if o.length < 4096 then .ok (o ++ [d]) else .error .overflows

/-- The bytes of an `int`. -/
def intBytes (n : Nat) : Bytes :=
  [n.toUInt8, (n / 256).toUInt8, (n / 65536).toUInt8, (n / 16777216).toUInt8]

/-- The stage for the literal in `o`, if there is one. -/
def literal (o : Bytes) : Bytes := if o.isEmpty then [] else 0 :: (intBytes o.length ++ o)

/-- The value of a digit of `$a`, in an `unsigned char`. -/
def digitValue (d : UInt8) : Nat := (d - 48).toNat

/-- The loop of `pevt_build_string`: `out` are the stages, `o` the literal that is open. -/
def stage : Bytes → Bytes → Int → Bytes → Except PevtError (Bytes × Int)
  | out, o, max, [] => .ok (out ++ literal o ++ [2], max)
  | out, o, max, d :: rest =>
    if d ≠ dollar then
      match push o d with
      | .error e => .error e
      | .ok o => stage out o max rest
    else if rest.head? = some dollar then
      match push o dollar with
      | .error e => .error e
      | .ok o => stage out o max rest
    else
      match rest with
      | [] => .error .endsInDollar
      | d :: rest =>
        if d = 97 then        -- a
          match rest with
          | d₁ :: d₂ :: d₃ :: rest =>
            let x := digitValue d₁ * 100 + digitValue d₂ * 10 + digitValue d₃
            if x > 255 then .error .codeTooLarge else stage (out ++ literal o) [x.toUInt8] max rest
          | _ => .error .endsInCode
        else if d = 116 then  -- t
          stage (out ++ literal o ++ [3]) [] max rest
        else if d < 49 || 57 < d then .error (.invalidArgument d)
        else stage (out ++ literal o ++ [1, d - 49]) [] (if max < d.toNat - 48 then d.toNat - 48 else max) rest

/-- `pevt_build_string`: the compiled template and the largest argument, -1 without one. -/
def pevtBuildString (toUtf8 : UInt8 → Option Bytes) (input : Bytes) : Except PevtError (Bytes × Int) :=
  stage [] [] (-1) (checkSpecialChars toUtf8 true input)

/-! ## The interpreter -/

/-- The buffer as it is filled: its first bytes, and the end of the highest byte written; `rooms` are the lengths computed for
the arguments. -/
structure Format where
  o : Bytes
  extent : Nat
  args : Nat → Option Bytes
  rooms : List Int

def Format.write (f : Format) (text : Bytes) : Format :=
  { f with o := f.o ++ text, extent := Max.max f.extent (f.o.length + text.length) }

/-- `memcpy` into an `int`. -/
def intAt (code : Bytes) : Nat :=
  (code.getD 0 0).toNat + 256 * (code.getD 1 0).toNat + 65536 * (code.getD 2 0).toNat + 16777216 * (code.getD 3 0).toNat

/-- What is shown of an argument: without formatting codes where its flag is set, else without the hidden byte. -/
def shown (flags n : Nat) (ar : Bytes) : Bytes :=
  if flags.testBit (n + 1) then kept stripAll 0 0 ar else ar.filter (· ≠ hiddenChar)

/-- `case 1`: `$` and a number, which is `a + 1`. -/
def Format.argument (numargs flags size : Nat) (f : Format) (a : Nat) : Format :=
  if a > numargs then f
  else
    match f.args (a + 1) with
    | none => f
    | some ar =>
      let left := (size : Int) - f.o.length - 4
      let room := (left % 2 ^ 64).toNat
      let ar := if ar.length > room then ar.take room else ar
      let text := shown flags a ar
      let f := { f.write text with args := Function.update f.args (a + 1) (some ar), rooms := f.rooms ++ [left] }
      -- `strip_color2` terminates what it writes
      if flags.testBit (a + 1) then { f with extent := Max.max f.extent (f.o.length + 1) } else f

/-- `o[oi] = 0`, and a text that starts with a newline is none. -/
def Format.finish (f : Format) : Format :=
  let f := f.write [0]
  if f.o.head? = some 10 then { f with o := f.o.set 0 0 } else f

/-- The loop of `format_event`. -/
def formatLoop (numargs flags size : Nat) : Nat → Format → Bytes → Option Format
  | 0, _, _ => none
  | _, _, [] => none
  | steps + 1, f, d :: code =>
    if d = 0 then
      let len := intAt code
      if f.o.length + len > size then some { f with o := 0 :: f.o.tail }
      else formatLoop numargs flags size steps (f.write ((code.drop 4).take len)) ((code.drop 4).drop len)
    else if d = 1 then
      match code with
      | [] => none
      | a :: code => formatLoop numargs flags size steps (f.argument numargs flags size a.toNat) code
    else if d = 2 then some (f.write [10, 0]).finish
    else if d = 3 then formatLoop numargs flags size steps (f.write [9]) code
    else formatLoop numargs flags size steps f code

/-- `format_event`, for an event with the compiled template `i`. -/
def formatEvent (numArgs flags size : Nat) (args : Nat → Option Bytes) (i : Option Bytes) : Option Format :=
  match i with
  | none => some ⟨[0], 1, args, []⟩
  | some code => formatLoop (numArgs % 128) flags size (code.length + 1) ⟨[], 1, args, []⟩ code

/-! ## The meaning of a template -/

/-- A byte of the text, or an argument by its number less one. -/
inductive Part where
  | byte (c : UInt8)
  | arg (n : Nat)

/-- The parts of a template. -/
inductive Parses : Bytes → List Part → Prop where
  | nil : Parses [] []
  | char {c : UInt8} {t : Bytes} {parts : List Part} (hc : c ≠ dollar) (h : Parses t parts) :
      Parses (c :: t) (.byte c :: parts)
  | dollars {t : Bytes} {parts : List Part} (h : Parses t parts) : Parses (dollar :: dollar :: t) (.byte dollar :: parts)
  | code {d₁ d₂ d₃ : UInt8} {t : Bytes} {parts : List Part}
      (hx : digitValue d₁ * 100 + digitValue d₂ * 10 + digitValue d₃ ≤ 255) (h : Parses t parts) :
      Parses (dollar :: 97 :: d₁ :: d₂ :: d₃ :: t)
        (.byte (digitValue d₁ * 100 + digitValue d₂ * 10 + digitValue d₃).toUInt8 :: parts)
  | tab {t : Bytes} {parts : List Part} (h : Parses t parts) : Parses (dollar :: 116 :: t) (.byte 9 :: parts)
  | arg {d : UInt8} {t : Bytes} {parts : List Part} (hd : 49 ≤ d ∧ d ≤ 57) (h : Parses t parts) :
      Parses (dollar :: d :: t) (.arg (d - 49).toNat :: parts)

theorem Parses.unique {t : Bytes} {parts parts' : List Part} (h : Parses t parts) (h' : Parses t parts') :
    parts = parts' := by
  induction h generalizing parts' with
  | nil =>
    cases h'
    rfl
  | char hc _ ih =>
    cases h' with
    | char _ h' => rw [ih h']
    | dollars => exact absurd rfl hc
    | code => exact absurd rfl hc
    | tab => exact absurd rfl hc
    | arg => exact absurd rfl hc
  | dollars _ ih =>
    cases h' with
    | char hc => exact absurd rfl hc
    | dollars h' => rw [ih h']
    | arg hd => exact absurd hd.1 (by decide)
  | code _ _ ih =>
    cases h' with
    | char hc => exact absurd rfl hc
    | code _ h' => rw [ih h']
    | arg hd => exact absurd hd.2 (by decide)
  | tab _ ih =>
    cases h' with
    | char hc => exact absurd rfl hc
    | tab h' => rw [ih h']
    | arg hd => exact absurd hd.2 (by decide)
  | arg hd _ ih =>
    cases h' with
    | char hc => exact absurd rfl hc
    | dollars => exact absurd hd.1 (by decide)
    | code => exact absurd hd.2 (by decide)
    | tab => exact absurd hd.2 (by decide)
    | arg _ h' => rw [ih h']

/-- Every argument of the parts belongs to the event, and is there. -/
def Present (numargs : Nat) (args : Nat → Option Bytes) (parts : List Part) : Prop :=
  ∀ n, Part.arg n ∈ parts → n < numargs ∧ (args (n + 1)).isSome = true

/-- The text of the parts, with `show` of each argument. -/
def render (args : Nat → Option Bytes) (showArg : Nat → Bytes → Bytes) (parts : List Part) : Bytes :=
  parts.flatMap fun
    | .byte c => [c]
    | .arg n => showArg n ((args (n + 1)).getD [])

/-- The text of the parts with the arguments as they are. -/
def renderWhole (args : Nat → Option Bytes) (parts : List Part) : Bytes := render args (fun _ ar => ar) parts

/-- The buffer with a text, a newline and its terminators; a text that starts with a newline is taken back. -/
def terminated (text : Bytes) : Bytes :=
  let o := text ++ [10, 0, 0]
  if o.head? = some 10 then o.set 0 0 else o

/-- The code shows the parts, where four bytes of the buffer are left. -/
def Shows (code : Bytes) (parts : List Part) : Prop :=
  ∀ numargs flags size steps (f : Format), size < 2 ^ 64 → code.length ≤ steps → Present numargs f.args parts →
    f.o.length + (renderWhole f.args parts).length + 4 ≤ size →
    ∃ f', formatLoop numargs flags size steps f code = some f' ∧
      f'.o = terminated (f.o ++ render f.args (shown flags) parts)

theorem render_bytes (args : Nat → Option Bytes) (showArg : Nat → Bytes → Bytes) (o : Bytes) (parts : List Part) :
    render args showArg (o.map .byte ++ parts) = o ++ render args showArg parts := by
  induction o with
  | nil => rfl
  | cons c o ih => exact congrArg (c :: ·) ih

theorem render_arg (args : Nat → Option Bytes) (showArg : Nat → Bytes → Bytes) (n : Nat) (parts : List Part) :
    render args showArg (.arg n :: parts) = showArg n ((args (n + 1)).getD []) ++ render args showArg parts := rfl

theorem shown_length_le (flags n : Nat) (ar : Bytes) : (shown flags n ar).length ≤ ar.length := by
  unfold shown
  split_ifs
  · exact (kept_sublist stripAll 0 0 ar).length_le
  · exact List.length_filter_le _ _

theorem intAt_intBytes {n : Nat} (hn : n < 2 ^ 32) (rest : Bytes) : intAt (intBytes n ++ rest) = n := by
  simp only [intAt, intBytes, List.cons_append, List.nil_append, List.getD_cons_zero, List.getD_cons_succ]
  simp only [Nat.toUInt8_eq, UInt8.toNat_ofNat']
  omega

/-- A literal of the code, with its length. -/
theorem formatLoop_text {numargs flags size steps : Nat} {f : Format} {o : Bytes} (ho : o.length < 2 ^ 32) (code : Bytes) :
    formatLoop numargs flags size (steps + 1) f (0 :: (intBytes o.length ++ (o ++ code))) =
      if f.o.length + o.length > size then some { f with o := 0 :: f.o.tail }
      else formatLoop numargs flags size steps (f.write o) code := by
  have hint : (intBytes o.length ++ (o ++ code)).drop 4 = o ++ code := rfl
  rw [formatLoop.eq_def]
  dsimp only
  rw [if_pos rfl, intAt_intBytes ho, hint, List.take_left, List.drop_left]

/-- An argument that fits is shown whole. -/
theorem argument_shown (flags : Nat) {numargs size a : Nat} {f : Format} {ar : Bytes} (hsize : size < 2 ^ 64) (ha : a < numargs)
    (har : f.args (a + 1) = some ar) (hfits : f.o.length + ar.length + 4 ≤ size) :
    (f.argument numargs flags size a).o = f.o ++ shown flags a ar ∧ (f.argument numargs flags size a).args = f.args := by
  have hroom : (((size : Int) - f.o.length - 4) % 2 ^ 64).toNat = size - f.o.length - 4 := by
    rw [Int.emod_eq_of_lt (by omega) (by omega)]
    omega
  have hcut : ¬ ar.length > size - f.o.length - 4 := by omega
  have hargs : Function.update f.args (a + 1) (some ar) = f.args := by
    rw [← har]
    exact Function.update_eq_self _ _
  unfold Format.argument
  rw [if_neg (Nat.not_lt.2 ha.le), har]
  simp only [hroom, if_neg hcut, hargs]
  split_ifs
  · exact ⟨rfl, rfl⟩
  · exact ⟨rfl, rfl⟩

theorem shows_end : Shows [2] [] := by
  intro numargs flags size steps f _ hsteps _ _
  obtain ⟨steps, rfl⟩ := Nat.exists_eq_add_of_le' hsteps
  refine ⟨(f.write [10, 0]).finish, rfl, ?_⟩
  have ho : f.o ++ [10, 0] ++ [0] = f.o ++ [10, 0, 0] := by simp
  simp only [Format.finish, Format.write, render, List.flatMap_nil, List.append_nil, terminated, ho]
  split_ifs
  · rfl
  · rfl

theorem shows_literal {code o : Bytes} {parts : List Part} (h : Shows code parts) (ho : o.length < 2 ^ 32) :
    Shows (literal o ++ code) (o.map .byte ++ parts) := by
  cases hne : o.isEmpty with
  | true =>
    rw [List.isEmpty_iff.1 hne]
    exact h
  | false =>
    intro numargs flags size steps f hsize hsteps hpresent hfits
    have hcode : literal o ++ code = 0 :: (intBytes o.length ++ (o ++ code)) := by
      simp [literal, hne]
    rw [hcode, List.length_cons, List.length_append, List.length_append] at hsteps
    obtain ⟨steps, rfl⟩ : ∃ n, steps = n + 1 := ⟨steps - 1, by omega⟩
    rw [renderWhole, render_bytes, List.length_append] at hfits
    have hroom : ¬ f.o.length + o.length > size := by omega
    have hpresent' : Present numargs (f.write o).args parts := fun n hn =>
      hpresent n (List.mem_append_right _ hn)
    have hfits' : (f.write o).o.length + (renderWhole (f.write o).args parts).length + 4 ≤ size := by
      rw [Format.write, List.length_append, renderWhole]
      dsimp only
      omega
    obtain ⟨f', hrun, ho'⟩ := h numargs flags size steps (f.write o) hsize (by omega) hpresent' hfits'
    refine ⟨f', ?_, ?_⟩
    · rw [hcode, formatLoop_text ho, if_neg hroom]
      exact hrun
    · rw [ho', render_bytes, Format.write, List.append_assoc]

theorem shows_arg {code : Bytes} {parts : List Part} (h : Shows code parts) (a : UInt8) :
    Shows (1 :: a :: code) (.arg a.toNat :: parts) := by
  intro numargs flags size steps f hsize hsteps hpresent hfits
  rw [List.length_cons, List.length_cons] at hsteps
  obtain ⟨steps, rfl⟩ : ∃ n, steps = n + 1 := ⟨steps - 1, by omega⟩
  obtain ⟨ha, hsome⟩ := hpresent a.toNat List.mem_cons_self
  obtain ⟨ar, har⟩ := Option.isSome_iff_exists.1 hsome
  rw [renderWhole, render_arg, har, Option.getD_some, List.length_append] at hfits
  obtain ⟨ho, hargs⟩ := argument_shown flags hsize ha har (by omega)
  have hshort := shown_length_le flags a.toNat ar
  have hpresent' : Present numargs (f.argument numargs flags size a.toNat).args parts := by
    rw [hargs]
    exact fun n hn => hpresent n (List.mem_cons_of_mem _ hn)
  have hfits' : (f.argument numargs flags size a.toNat).o.length +
      (renderWhole (f.argument numargs flags size a.toNat).args parts).length + 4 ≤ size := by
    rw [ho, hargs, List.length_append, renderWhole]
    omega
  obtain ⟨f', hrun, ho'⟩ := h numargs flags size steps _ hsize (by omega) hpresent' hfits'
  refine ⟨f', hrun, ?_⟩
  rw [ho', ho, hargs, render_arg, har, Option.getD_some, List.append_assoc]

theorem shows_tab {code : Bytes} {parts : List Part} (h : Shows code parts) : Shows (3 :: code) (.byte 9 :: parts) := by
  intro numargs flags size steps f hsize hsteps hpresent hfits
  rw [List.length_cons] at hsteps
  obtain ⟨steps, rfl⟩ : ∃ n, steps = n + 1 := ⟨steps - 1, by omega⟩
  have hpresent' : Present numargs (f.write [9]).args parts := fun n hn => hpresent n (List.mem_cons_of_mem _ hn)
  have htab (showArg : Nat → Bytes → Bytes) : render f.args showArg (.byte 9 :: parts) = 9 :: render f.args showArg parts :=
    rfl
  rw [renderWhole, htab, List.length_cons] at hfits
  have hfits' : (f.write [9]).o.length + (renderWhole (f.write [9]).args parts).length + 4 ≤ size := by
    rw [Format.write, List.length_append, renderWhole, List.length_singleton]
    dsimp only
    omega
  obtain ⟨f', hrun, ho'⟩ := h numargs flags size steps (f.write [9]) hsize (by omega) hpresent' hfits'
  refine ⟨f', hrun, ?_⟩
  rw [ho', htab, Format.write, List.append_assoc, List.singleton_append]

/-! ## The two together -/

theorem push_ok {o o' : Bytes} {d : UInt8} (h : push o d = .ok o') : o' = o ++ [d] ∧ o'.length ≤ 4096 := by
  unfold push at h
  split_ifs at h with hlen
  cases h
  exact ⟨rfl, by rw [List.length_append]; exact hlen⟩

theorem not_infix_tail {t : Bytes} {c : UInt8} (h : ¬ [dollar, dollar] <:+: c :: t) : ¬ [dollar, dollar] <:+: t :=
  fun hin => h (hin.trans (List.suffix_cons c t).isInfix)

/-- **The compiler's loop**: what it adds shows the parts of what it reads, behind the literal that is open. -/
theorem stage_shows {out o rest compiled : Bytes} {max max' : Int} (h : stage out o max rest = .ok (compiled, max'))
    (ho : o.length ≤ 4096) (hno : ¬ [dollar, dollar] <:+: rest) :
    ∃ code parts, compiled = out ++ code ∧ Parses rest parts ∧ Shows code (o.map .byte ++ parts) := by
  have hsmall : o.length < 2 ^ 32 := by omega
  fun_induction stage out o max rest with
  | case1 out o max =>
    cases h
    exact ⟨literal o ++ [2], [], List.append_assoc _ _ _, .nil, shows_literal shows_end hsmall⟩
  | case2 => cases h
  | case3 out o max d rest hd o' hpush ih =>
    obtain ⟨rfl, hlen⟩ := push_ok hpush
    obtain ⟨code, parts, hcode, hparts, hshows⟩ := ih h hlen (not_infix_tail hno) (by omega)
    refine ⟨code, .byte d :: parts, hcode, .char hd hparts, ?_⟩
    rw [List.map_append, List.append_assoc] at hshows
    exact hshows
  | case4 => cases h
  | case5 out o max d rest hd hhead =>
    -- the dollar that is read again
    obtain ⟨rest, rfl⟩ : ∃ t, rest = dollar :: t := by
      cases rest with
      | nil => cases hhead
      | cons c rest =>
        cases hhead
        exact ⟨rest, rfl⟩
    rw [not_ne_iff.1 hd] at hno
    exact absurd (List.prefix_append [dollar, dollar] rest).isInfix hno
  | case6 => cases h
  | case7 => cases h
  | case8 out o max d hd d₁ d₂ d₃ rest x hx hhead ih =>
    have hrest := not_infix_tail (not_infix_tail (not_infix_tail (not_infix_tail (not_infix_tail hno))))
    obtain ⟨code, parts, hcode, hparts, hshows⟩ := ih h (by simp) hrest (by simp)
    refine ⟨literal o ++ code, .byte x.toUInt8 :: parts, ?_, ?_, shows_literal hshows hsmall⟩
    · rw [hcode, List.append_assoc]
    · rw [not_ne_iff.1 hd]
      exact .code (Nat.not_lt.1 hx) hparts
  | case9 => cases h
  | case10 out o max d hd rest _ hhead ih =>
    obtain ⟨code, parts, hcode, hparts, hshows⟩ := ih h (by simp) (not_infix_tail (not_infix_tail hno)) (by simp)
    refine ⟨literal o ++ 3 :: code, .byte 9 :: parts, ?_, ?_, shows_literal (shows_tab hshows) hsmall⟩
    · rw [hcode, List.append_assoc, List.append_assoc]
      rfl
    · rw [not_ne_iff.1 hd]
      exact .tab hparts
  | case11 => cases h
  | case12 out o max d₀ hd₀ d rest _ _ hd hhead ih =>
    obtain ⟨code, parts, hcode, hparts, hshows⟩ := ih h (by simp) (not_infix_tail (not_infix_tail hno)) (by simp)
    refine ⟨literal o ++ 1 :: (d - 49) :: code, .arg (d - 49).toNat :: parts, ?_, ?_,
      shows_literal (shows_arg hshows (d - 49)) hsmall⟩
    · rw [hcode, List.append_assoc, List.append_assoc]
      rfl
    · rw [not_ne_iff.1 hd₀]
      simp only [Bool.or_eq_true, decide_eq_true_eq, not_or, UInt8.not_lt] at hd
      exact .arg hd hparts

/-- **Event templates mean what they say**: a template that is accepted has one meaning, where no dollar is before a
dollar, and `format_event` shows it, where four bytes of the buffer are left. -/
theorem templates_say {toUtf8 : UInt8 → Option Bytes} {template compiled : Bytes} {maxArg : Int}
    (hbuild : pevtBuildString toUtf8 template = .ok (compiled, maxArg))
    (hno : ¬ [dollar, dollar] <:+: checkSpecialChars toUtf8 true template) :
    ∃ parts, (∀ parts', Parses (checkSpecialChars toUtf8 true template) parts' ↔ parts' = parts) ∧
      ∀ numArgs flags size args, size < 2 ^ 64 → Present (numArgs % 128) args parts →
        (renderWhole args parts).length + 4 ≤ size →
        ∃ f, formatEvent numArgs flags size args (some compiled) = some f ∧
          f.o = terminated (render args (shown flags) parts) := by
  obtain ⟨code, parts, rfl, hparts, hshows⟩ := stage_shows hbuild (Nat.zero_le _) hno
  refine ⟨parts, fun parts' => ⟨fun h => h.unique hparts, fun h => h ▸ hparts⟩, ?_⟩
  intro numArgs flags size args hsize hpresent hfits
  have hstart : (⟨[], 1, args, []⟩ : Format).o.length + (renderWhole args parts).length + 4 ≤ size := by
    rw [List.length_nil, Nat.zero_add]
    exact hfits
  exact hshows (numArgs % 128) flags size _ ⟨[], 1, args, []⟩ hsize (Nat.le_succ _) hpresent hstart

/-- `$1`, a tab and `x`. -/
theorem templates_say_tab : ∃ parts, (∀ parts', Parses (checkSpecialChars (some [·]) true (bytes "$1$tx")) parts' ↔ parts' = parts) ∧
    ∀ numArgs flags size args, size < 2 ^ 64 → Present (numArgs % 128) args parts →
      (renderWhole args parts).length + 4 ≤ size →
      ∃ f, formatEvent numArgs flags size args (some [1, 0, 3, 0, 1, 0, 0, 0, 120, 2]) = some f ∧
        f.o = terminated (render args (shown flags) parts) :=
  @templates_say (some [·]) (bytes "$1$tx") _ 1 rfl (by decide)

/-- The template as it is written, with the arguments as they are, and a newline. -/
def SaysLiterally (toUtf8 : UInt8 → Option Bytes) (template : Bytes) (numArgs flags size : Nat)
    (args : Nat → Option Bytes) : Prop :=
  ∀ compiled maxArg parts, pevtBuildString toUtf8 template = .ok (compiled, maxArg) → Parses template parts →
    Present (numArgs % 128) args parts → (renderWhole args parts).length + 1 < size →
    ∃ f, formatEvent numArgs flags size args (some compiled) = some f ∧ renderWhole args parts ++ [10, 0] <+: f.o

/-- An empty template shows nothing, not even a newline; percent codes are read; the hidden byte is taken out of an argument;
an argument is cut where it leaves fewer than four bytes of the buffer. -/
theorem templates_not_literal :
    ¬ SaysLiterally (some [·]) [] 0 0 64 (fun _ => none) ∧ ¬ SaysLiterally (some [·]) (bytes "%B") 0 0 64 (fun _ => none) ∧
      ¬ SaysLiterally (some [·]) (bytes "$1") 1 0 64 (fun _ => some [97, 8]) ∧
      ¬ SaysLiterally (some [·]) (bytes "$1") 1 0 8 (fun _ => some (bytes "abcdef")) := by
  have hone : Parses (bytes "$1") [.arg 0] := Parses.arg (d := 49) (by decide) .nil
  have hpresent (ar : Bytes) : Present (1 % 128) (fun _ => some ar) [.arg 0] := by
    intro n hn
    obtain rfl : n = 0 := by simpa using hn
    exact ⟨by decide, rfl⟩
  refine ⟨fun h => ?_, fun h => ?_, fun h => ?_, fun h => ?_⟩
  · obtain ⟨f, hf, hpre⟩ := h [2] (-1) [] rfl .nil (by simp [Present]) (by decide)
    have ho : f.o = [0, 0, 0] := by
      cases hf
      rfl
    rw [ho] at hpre
    exact absurd hpre (by decide)
  · have hparses : Parses (bytes "%B") [.byte 37, .byte 66] := .char (by decide) (.char (by decide) .nil)
    obtain ⟨f, hf, hpre⟩ := h [0, 1, 0, 0, 0, 2, 2] (-1) _ rfl hparses (by simp [Present]) (by decide)
    have ho : f.o = [2, 10, 0, 0] := by
      cases hf
      rfl
    rw [ho] at hpre
    exact absurd hpre (by decide)
  · obtain ⟨f, hf, hpre⟩ := h [1, 0, 2] 1 _ rfl hone (hpresent _) (by decide)
    have ho : f.o = [97, 10, 0, 0] := by
      cases hf
      rfl
    rw [ho] at hpre
    exact absurd hpre (by decide)
  · obtain ⟨f, hf, hpre⟩ := h [1, 0, 2] 1 _ rfl hone (hpresent _) (by decide)
    have ho : f.o = bytes "abcd" ++ [10, 0, 0] := by
      cases hf
      rfl
    rw [ho] at hpre
    exact absurd hpre (by decide)

end PoxChat.Text
