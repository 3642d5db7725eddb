import PoxChat.Text.Events

/-!
# The buffer of an event

`format_event` checks its buffer before a literal, cuts an argument so that four bytes are left, and checks nothing before a
tab and before the end.

* `Instr` — what a compiled template holds.
* `LeavesRoom` — the lengths along the template leave the bytes that the code takes for granted.
* `buffer_kept_iff` — the writes stay in the buffer, it is terminated and no length is negative exactly when they do.
-/

set_option autoImplicit false

namespace PoxChat.Text

open Lib Outbound

/-! ## Compiled templates -/

inductive Instr where
  | text (t : Bytes)
  | arg (a : UInt8)
  | tab

def Instr.bytes : Instr → Bytes
  | .text t => 0 :: (intBytes t.length ++ t)
  | .arg a => [1, a]
  | .tab => [3]

/-- The compiled form, with its end. -/
def encode (is : List Instr) : Bytes := is.flatMap Instr.bytes ++ [2]

/-- The literals are of the compiler's buffer. -/
def Compiled (is : List Instr) : Prop := ∀ t, Instr.text t ∈ is → t.length ≤ 4096

/-- The stage for a literal. -/
def textInstr (o : Bytes) : List Instr := if o.isEmpty then [] else [.text o]

theorem literal_eq (o : Bytes) : literal o = (textInstr o).flatMap Instr.bytes := by
  unfold literal textInstr
  split_ifs
  · rfl
  · simp [Instr.bytes]

theorem compiled_textInstr {o : Bytes} {is : List Instr} (ho : o.length ≤ 4096) (his : Compiled is) :
    Compiled (textInstr o ++ is) := by
  intro t ht
  rcases List.mem_append.1 ht with ht | ht
  · unfold textInstr at ht
    split_ifs at ht
    · cases ht
    · obtain rfl : t = o := by simpa using ht
      exact ho
  · exact his t ht

theorem compiled_cons {i : Instr} {is : List Instr} (hi : ∀ t, i ≠ .text t) (his : Compiled is) : Compiled (i :: is) := by
  intro t ht
  rcases List.mem_cons.1 ht with rfl | ht
  · exact absurd rfl (hi t)
  · exact his t ht

/-- What the compiler's loop adds. -/
theorem stage_encodes {out o rest compiled : Bytes} {max max' : Int} (h : stage out o max rest = .ok (compiled, max'))
    (ho : o.length ≤ 4096) : ∃ is, compiled = out ++ encode is ∧ Compiled is := by
  fun_induction stage out o max rest with
  | case1 out o max =>
    cases h
    refine ⟨textInstr o, ?_, ?_⟩
    · rw [encode, literal_eq, List.append_assoc]
    · have hcompiled := @compiled_textInstr o [] ho fun t ht => absurd ht List.not_mem_nil
      rwa [List.append_nil] at hcompiled
  | case2 => cases h
  | case3 out o max d rest hd o' hpush ih => exact ih h (push_ok hpush).2
  | case4 => cases h
  | case5 out o max d rest hd hhead o' hpush ih => exact ih h (push_ok hpush).2
  | case6 => cases h
  | case7 => cases h
  | case8 out o max d hd d₁ d₂ d₃ rest x hx hhead ih =>
    obtain ⟨is, hcode, his⟩ := ih h (by simp)
    refine ⟨textInstr o ++ is, ?_, compiled_textInstr ho his⟩
    rw [hcode, encode, encode, List.flatMap_append, literal_eq, List.append_assoc, List.append_assoc]
  | case9 => cases h
  | case10 out o max d hd rest _ hhead ih =>
    obtain ⟨is, hcode, his⟩ := ih h (by simp)
    refine ⟨textInstr o ++ .tab :: is, ?_, compiled_textInstr ho (compiled_cons (by simp) his)⟩
    rw [hcode, encode, encode, List.flatMap_append, literal_eq, List.flatMap_cons]
    simp [Instr.bytes]
  | case11 => cases h
  | case12 out o max d₀ hd₀ d rest _ _ hd hhead ih =>
    obtain ⟨is, hcode, his⟩ := ih h (by simp)
    refine ⟨textInstr o ++ .arg (d - 49) :: is, ?_, compiled_textInstr ho (compiled_cons (by simp) his)⟩
    rw [hcode, encode, encode, List.flatMap_append, literal_eq, List.flatMap_cons]
    simp [Instr.bytes]

/-! ## Room -/

/-- The writes are in a buffer of this size, it is terminated, and no length computed for an argument is negative. -/
def BufferKept (size : Nat) (f : Format) : Prop :=
  f.extent ≤ size ∧ 0 ∈ f.o.take size ∧ ∀ left ∈ f.rooms, 0 ≤ left

/-- The argument that `$` and a number stand for: it belongs to the event and is there. -/
def argumentOf (numargs : Nat) (args : Nat → Option Bytes) (a : UInt8) : Option Bytes :=
  if a.toNat > numargs then none else args (a.toNat + 1)

/-- With `n` bytes of text before it, the rest of a template finds four bytes left before each argument, one before each tab
and three at its end, up to a literal that is too long.  An argument counts as it is shown when it is cut to leave four. -/
def LeavesRoom (numargs flags size : Nat) : (Nat → Option Bytes) → Nat → List Instr → Prop
  | _, n, [] => n + 3 ≤ size
  | args, n, .text t :: is => n + t.length ≤ size → LeavesRoom numargs flags size args (n + t.length) is
  | args, n, .tab :: is => n < size ∧ LeavesRoom numargs flags size args (n + 1) is
  | args, n, .arg a :: is =>
    match argumentOf numargs args a with
    | none => LeavesRoom numargs flags size args n is
    | some ar =>
      let cut := ar.take (size - n - 4)
      n + 4 ≤ size ∧ LeavesRoom numargs flags size (Function.update args (a.toNat + 1) (some cut))
        (n + (shown flags a.toNat cut).length) is

theorem write_extent (f : Format) (text : Bytes) : f.extent ≤ (f.write text).extent := Nat.le_max_left _ _

theorem argument_none {numargs flags size : Nat} {f : Format} {a : UInt8} (h : argumentOf numargs f.args a = none) :
    f.argument numargs flags size a.toNat = f := by
  unfold argumentOf at h
  unfold Format.argument
  by_cases ha : a.toNat > numargs
  · rw [if_pos ha]
  · rw [if_neg ha] at h ⊢
    rw [h]

/-- What an argument does to the buffer: the length computed for it, and the text written. -/
theorem argument_some (flags size : Nat) {numargs : Nat} {f : Format} {a : UInt8} {ar : Bytes}
    (h : argumentOf numargs f.args a = some ar) : ∃ cut,
      (f.argument numargs flags size a.toNat).o = f.o ++ shown flags a.toNat cut ∧
      (f.argument numargs flags size a.toNat).rooms = f.rooms ++ [(size : Int) - f.o.length - 4] ∧
      (f.argument numargs flags size a.toNat).args = Function.update f.args (a.toNat + 1) (some cut) ∧
      f.extent ≤ (f.argument numargs flags size a.toNat).extent ∧
      (f.argument numargs flags size a.toNat).o.length ≤ (f.argument numargs flags size a.toNat).extent ∧
      (f.argument numargs flags size a.toNat).extent ≤ Max.max f.extent (f.o.length + (shown flags a.toNat cut).length + 1) ∧
      (f.o.length + 4 ≤ size → size < 2 ^ 64 → cut = ar.take (size - f.o.length - 4)) := by
  unfold argumentOf at h
  split_ifs at h with ha
  unfold Format.argument
  rw [if_neg ha, h]
  dsimp only
  generalize hcut : (if ar.length > (((size : Int) - f.o.length - 4) % 2 ^ 64).toNat then
    ar.take (((size : Int) - f.o.length - 4) % 2 ^ 64).toNat else ar) = cut
  have hexact : f.o.length + 4 ≤ size → size < 2 ^ 64 → cut = ar.take (size - f.o.length - 4) := by
    intro hle hsize
    have hroom : (((size : Int) - f.o.length - 4) % 2 ^ 64).toNat = size - f.o.length - 4 := by
      rw [Int.emod_eq_of_lt (by omega) (by omega)]
      omega
    rw [← hcut, hroom]
    split_ifs with hlong
    · rfl
    · exact (List.take_of_length_le (Nat.not_lt.1 hlong)).symm
  refine ⟨cut, ?_⟩
  split_ifs
  · refine ⟨rfl, rfl, rfl, ?_, ?_, ?_, hexact⟩
    · exact (Nat.le_max_left _ _).trans (Nat.le_max_left _ _)
    · exact (Nat.le_succ _).trans (Nat.le_max_right _ _)
    · simp only [Format.write, List.length_append]
      omega
  · refine ⟨rfl, rfl, rfl, Nat.le_max_left _ _, ?_, ?_, hexact⟩
    · simp only [Format.write, List.length_append]
      exact Nat.le_max_right _ _
    · simp only [Format.write]
      omega

theorem finish_spec (f : Format) : f.finish.extent = Max.max f.extent (f.o.length + 1) ∧ f.finish.rooms = f.rooms ∧
    f.finish.o.length = f.o.length + 1 := by
  unfold Format.finish
  dsimp only
  split_ifs
  · exact ⟨rfl, rfl, by simp [Format.write]⟩
  · exact ⟨rfl, rfl, by simp [Format.write]⟩

/-- What is written and computed is not taken back. -/
theorem formatLoop_grows {numargs flags size steps : Nat} {f f' : Format} {code : Bytes}
    (h : formatLoop numargs flags size steps f code = some f') : f.extent ≤ f'.extent ∧ f.rooms ⊆ f'.rooms := by
  fun_induction formatLoop numargs flags size steps f code with
  | case1 => cases h
  | case2 => cases h
  | case3 steps f code len hlong =>
    cases h
    exact ⟨le_rfl, List.Subset.refl _⟩
  | case4 steps f code len hshort ih =>
    obtain ⟨hextent, hrooms⟩ := ih h
    exact ⟨(write_extent f _).trans hextent, hrooms⟩
  | case5 => cases h
  | case6 steps f a code _ ih =>
    obtain ⟨hextent, hrooms⟩ := ih h
    cases harg : argumentOf numargs f.args a with
    | none =>
      rw [argument_none harg] at hextent hrooms
      exact ⟨hextent, hrooms⟩
    | some ar =>
      obtain ⟨cut, -, hrooms', -, hgrows, -, -, -⟩ := argument_some flags size harg
      rw [hrooms'] at hrooms
      exact ⟨hgrows.trans hextent, fun left hleft => hrooms (List.mem_append_left _ hleft)⟩
  | case7 steps f code =>
    cases h
    obtain ⟨hextent, hrooms, -⟩ := finish_spec (f.write [10, 0])
    rw [hextent, hrooms]
    exact ⟨(write_extent f _).trans (Nat.le_max_left _ _), List.Subset.refl _⟩
  | case8 steps f code _ _ _ ih =>
    obtain ⟨hextent, hrooms⟩ := ih h
    exact ⟨(write_extent f _).trans hextent, hrooms⟩
  | case9 steps f d code _ _ _ _ ih => exact ih h

/-- So far the writes are in the buffer, and no length is negative. -/
structure Format.Good (size : Nat) (f : Format) : Prop where
  inside : f.extent ≤ size
  behind : f.o.length ≤ f.extent
  rooms : ∀ left ∈ f.rooms, 0 ≤ left

theorem Format.Good.write {size : Nat} {f : Format} (h : f.Good size) {text : Bytes}
    (hroom : f.o.length + text.length ≤ size) : (f.write text).Good size := by
  refine ⟨Nat.max_le.2 ⟨h.inside, hroom⟩, ?_, h.rooms⟩
  rw [Format.write, List.length_append]
  exact Nat.le_max_right _ _

/-- The end is in the buffer where three bytes are left for it. -/
theorem Format.Good.finish_iff {size : Nat} {f : Format} (h : f.Good size) :
    BufferKept size (f.write [10, 0]).finish ↔ f.o.length + 3 ≤ size := by
  obtain ⟨hextent, hrooms, -⟩ := finish_spec (f.write [10, 0])
  have hlen : (f.write [10, 0]).o.length = f.o.length + 2 := by simp [Format.write]
  constructor
  · intro hkept
    have hinside := hkept.1
    rw [hextent, hlen] at hinside
    exact (Nat.le_max_right _ _).trans hinside
  · intro hroom
    refine ⟨?_, ?_, ?_⟩
    · rw [hextent, hlen]
      have hwrite : (f.write [10, 0]).extent ≤ size := by
        refine Nat.max_le.2 ⟨h.inside, ?_⟩
        simp only [List.length_cons, List.length_nil]
        omega
      exact Nat.max_le.2 ⟨hwrite, by omega⟩
    · have htake : f.o ++ [10, 0] ++ [0] = (f.o ++ [10, 0, 0]) := by simp
      have hall : (f.write [10, 0]).finish.o.take size = (f.write [10, 0]).finish.o := by
        refine List.take_of_length_le ?_
        rw [(finish_spec (f.write [10, 0])).2.2, hlen]
        exact hroom
      rw [hall]
      unfold Format.finish
      simp only [Format.write, htake]
      split_ifs with hhead
      · cases f.o <;> simp
      · simp
    · rw [hrooms]
      exact h.rooms

/-! ## The run of a template -/

/-- What is written past the buffer, or computed as a negative length, stays so. -/
theorem not_kept {numargs flags size steps : Nat} {f : Format} {code : Bytes}
    (h : size < f.extent ∨ ∃ left ∈ f.rooms, left < 0) :
    ¬ ∃ f', formatLoop numargs flags size steps f code = some f' ∧ BufferKept size f' := by
  rintro ⟨f', hrun, hinside, -, hrooms⟩
  obtain ⟨hextent, hsubset⟩ := formatLoop_grows hrun
  rcases h with h | ⟨left, hleft, hneg⟩
  · omega
  · have hnonneg := hrooms left (hsubset hleft)
    omega

theorem encode_cons (i : Instr) (is : List Instr) : encode (i :: is) = i.bytes ++ encode is := by
  simp [encode]

/-- **The rest of a template** stays in the buffer, from a state that is good, exactly when it leaves room. -/
theorem formatLoop_kept_iff {numargs flags size : Nat} (hpos : 0 < size) (hsize : size < 2 ^ 64) {is : List Instr}
    (his : Compiled is) : ∀ {steps : Nat} {f : Format}, (encode is).length ≤ steps → f.Good size →
      ((∃ f', formatLoop numargs flags size steps f (encode is) = some f' ∧ BufferKept size f') ↔
        LeavesRoom numargs flags size f.args f.o.length is) := by
  induction is with
  | nil =>
    intro steps f hsteps hgood
    obtain ⟨steps, rfl⟩ : ∃ n, steps = n + 1 := ⟨steps - 1, (Nat.succ_pred_eq_of_pos hsteps).symm⟩
    have hrun : formatLoop numargs flags size (steps + 1) f (encode []) = some (f.write [10, 0]).finish := rfl
    rw [hrun, LeavesRoom, ← hgood.finish_iff]
    simp
  | cons i is ih =>
    intro steps f hsteps hgood
    have his' : Compiled is := fun t ht => his t (List.mem_cons_of_mem i ht)
    have hbytes : 0 < i.bytes.length := by cases i <;> exact Nat.succ_pos _
    rw [encode_cons, List.length_append] at hsteps
    obtain ⟨steps, rfl⟩ : ∃ n, steps = n + 1 := ⟨steps - 1, by omega⟩
    have hsteps' : (encode is).length ≤ steps := by omega
    rw [encode_cons]
    cases i with
    | text t =>
      have ht : t.length < 2 ^ 32 := Nat.lt_of_le_of_lt (his t List.mem_cons_self) (by decide)
      have hcode : (Instr.text t).bytes ++ encode is = 0 :: (intBytes t.length ++ (t ++ encode is)) := by
        simp [Instr.bytes]
      rw [hcode, formatLoop_text ht, LeavesRoom]
      by_cases hlong : f.o.length + t.length > size
      · rw [if_pos hlong]
        refine iff_of_true ⟨_, rfl, hgood.inside, ?_, hgood.rooms⟩ fun hle => absurd hle (Nat.not_le.2 hlong)
        obtain ⟨n, rfl⟩ := Nat.exists_eq_succ_of_ne_zero hpos.ne'
        exact List.mem_cons_self
      · have hroom := Nat.not_lt.1 hlong
        have hlen : (f.write t).o.length = f.o.length + t.length := List.length_append
        rw [if_neg hlong, ih his' hsteps' (hgood.write hroom), hlen]
        exact ⟨fun h _ => h, fun h => h hroom⟩
    | tab =>
      have hrun : formatLoop numargs flags size (steps + 1) f (Instr.tab.bytes ++ encode is) =
          formatLoop numargs flags size steps (f.write [9]) (encode is) := rfl
      rw [hrun, LeavesRoom]
      by_cases hroom : f.o.length < size
      · have hgood' : (f.write [9]).Good size := hgood.write hroom
        have hlen : (f.write [9]).o.length = f.o.length + 1 := List.length_append
        rw [ih his' hsteps' hgood', hlen]
        exact ⟨fun h => ⟨hroom, h⟩, fun h => h.2⟩
      · have hout : size < (f.write [9]).extent :=
          Nat.lt_of_lt_of_le (Nat.lt_succ_of_le (Nat.not_lt.1 hroom)) (Nat.le_max_right _ _)
        exact iff_of_false (not_kept (.inl hout)) fun h => hroom h.1
    | arg a =>
      have hrun : formatLoop numargs flags size (steps + 1) f ((Instr.arg a).bytes ++ encode is) =
          formatLoop numargs flags size steps (f.argument numargs flags size a.toNat) (encode is) := rfl
      rw [hrun, LeavesRoom]
      cases harg : argumentOf numargs f.args a with
      | none =>
        rw [argument_none harg]
        exact ih his' hsteps' hgood
      | some ar =>
        obtain ⟨cut, ho, hrooms, hargs, -, hbehind, hextent, hexact⟩ := argument_some flags size harg
        dsimp only
        by_cases hroom : f.o.length + 4 ≤ size
        · obtain rfl := hexact hroom hsize
          have hcut : (shown flags a.toNat (ar.take (size - f.o.length - 4))).length ≤ size - f.o.length - 4 :=
            (shown_length_le _ _ _).trans (List.length_take_le _ _)
          have hgood' : (f.argument numargs flags size a.toNat).Good size := by
            refine ⟨hextent.trans (Nat.max_le.2 ⟨hgood.inside, by omega⟩), hbehind, ?_⟩
            rw [hrooms]
            refine List.forall_mem_append.2 ⟨hgood.rooms, fun left hleft => ?_⟩
            obtain rfl := List.mem_singleton.1 hleft
            omega
          rw [ih his' hsteps' hgood', ho, hargs, List.length_append]
          exact ⟨fun h => ⟨hroom, h⟩, fun h => h.2⟩
        · have hneg : ∃ left ∈ (f.argument numargs flags size a.toNat).rooms, left < 0 := by
            rw [hrooms]
            exact ⟨_, List.mem_append_right _ List.mem_cons_self, by omega⟩
          exact iff_of_false (not_kept (.inr hneg)) fun h => hroom h.1

/-- **When `format_event` keeps to its buffer**: exactly when the compiled template leaves room in it. -/
theorem buffer_kept_iff {toUtf8 : UInt8 → Option Bytes} {template compiled : Bytes} {maxArg : Int}
    (hbuild : pevtBuildString toUtf8 template = .ok (compiled, maxArg)) :
    ∃ is, compiled = encode is ∧ ∀ numArgs flags size args, 8 ≤ size → size < 2 ^ 64 →
      ((∃ f, formatEvent numArgs flags size args (some compiled) = some f ∧ BufferKept size f) ↔
        LeavesRoom (numArgs % 128) flags size args 0 is) := by
  obtain ⟨is, hcode, his⟩ := stage_encodes hbuild (Nat.zero_le _)
  rw [List.nil_append] at hcode
  refine ⟨is, hcode, fun numArgs flags size args hmin hsize => ?_⟩
  have hstart : (⟨[], 1, args, []⟩ : Format).Good size :=
    ⟨by dsimp only; omega, Nat.zero_le _, fun left hleft => absurd hleft List.not_mem_nil⟩
  rw [hcode]
  exact formatLoop_kept_iff (by omega) hsize his (Nat.le_succ _) hstart

/-- `$1`, a tab and `x`. -/
theorem buffer_kept_tab : ∃ is, [1, 0, 3, 0, 1, 0, 0, 0, 120, 2] = encode is ∧
    ∀ numArgs flags size args, 8 ≤ size → size < 2 ^ 64 →
      ((∃ f, formatEvent numArgs flags size args (some [1, 0, 3, 0, 1, 0, 0, 0, 120, 2]) = some f ∧ BufferKept size f) ↔
        LeavesRoom (numArgs % 128) flags size args 0 is) :=
  @buffer_kept_iff (some [·]) (bytes "$1$tx") _ 1 rfl

/-- Eight letters in a buffer of eight bytes: the check of the literal lets them in, and the newline and its terminators are
written behind the buffer. -/
theorem newline_behind_buffer : ¬ ∀ toUtf8 template compiled maxArg,
    pevtBuildString toUtf8 template = .ok (compiled, maxArg) → ∀ numArgs flags size args, 8 ≤ size → size < 2 ^ 64 →
      ∃ f, formatEvent numArgs flags size args (some compiled) = some f ∧ BufferKept size f := by
  intro h
  have hbuild : pevtBuildString (some [·]) [97, 98, 99, 100, 101, 102, 103, 104] =
      .ok ([0, 8, 0, 0, 0, 97, 98, 99, 100, 101, 102, 103, 104, 2], -1) := rfl
  obtain ⟨f, hrun, hinside, -⟩ := h (some [·]) _ _ (-1) hbuild 0 0 8 (fun _ => none) (by omega) (by omega)
  have hextent : (formatEvent 0 0 8 (fun _ => none) (some [0, 8, 0, 0, 0, 97, 98, 99, 100, 101, 102, 103, 104, 2])).map
      Format.extent = some 11 := rfl
  rw [hrun, Option.map_some, Option.some.injEq] at hextent
  omega

end PoxChat.Text
