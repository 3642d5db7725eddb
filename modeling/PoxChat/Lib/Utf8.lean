import Mathlib.Tactic.Common

/-!
# UTF-8

A text is read byte by byte.  Between characters the machine is at the `start`; inside one it knows how many bytes are
owed and which values the next of them may have.

* `Utf8.character` — the first character of a text can be taken off, and both parts are texts.
* `Utf8.append` — two texts make one.
* `Utf8.by_characters` — induction on a text, a character at a time.
* `Utf8.take_iff` — where a text may be cut; `Utf8.take_of_ascii` — before any ASCII byte, for one.
-/

set_option autoImplicit false

namespace Lib

inductive Utf8State where
  | start
  /-- The next byte is one of `least` to `greatest`, and `more` bytes follow it. -/
  | tail (more : Nat) (least greatest : UInt8)
  deriving DecidableEq

/-- What the first byte of a character asks for. -/
def utf8Lead (b : UInt8) : Option Utf8State :=
  if b < 0x80 then some .start
  else if b < 0xC2 then none
  else if b < 0xE0 then some (.tail 0 0x80 0xBF)
  else if b = 0xE0 then some (.tail 1 0xA0 0xBF)
  else if b = 0xED then some (.tail 1 0x80 0x9F)
  else if b < 0xF0 then some (.tail 1 0x80 0xBF)
  else if b = 0xF0 then some (.tail 2 0x90 0xBF)
  else if b < 0xF4 then some (.tail 2 0x80 0xBF)
  else if b = 0xF4 then some (.tail 2 0x80 0x8F)
  else none

def utf8Next : Utf8State → UInt8 → Option Utf8State
  | .start, b => utf8Lead b
  | .tail more least greatest, b =>
    if least ≤ b ∧ b ≤ greatest then
      match more with
      | 0 => some .start
      | more + 1 => some (.tail more 0x80 0xBF)
    else none

/-- The text ends between two characters, and no byte was refused. -/
def Utf8 (text : List UInt8) : Prop := text.foldlM utf8Next .start = some .start

instance (text : List UInt8) : Decidable (Utf8 text) :=
  inferInstanceAs (Decidable (text.foldlM utf8Next .start = some .start))

/-- The bytes still owed. -/
def Utf8State.owed : Utf8State → Nat
  | .start => 0
  | .tail more _ _ => more + 1

theorem Utf8.nil : Utf8 [] := rfl

theorem Utf8.append {text text' : List UInt8} (h : Utf8 text) (h' : Utf8 text') : Utf8 (text ++ text') := by
  rw [Utf8, List.foldlM_append, h]
  exact h'

/-- What follows a text within a text is one. -/
theorem Utf8.drop {text : List UInt8} {n : Nat} (h : Utf8 text) (hn : Utf8 (text.take n)) : Utf8 (text.drop n) := by
  have hwhole : Utf8 (text.take n ++ text.drop n) := by rwa [List.take_append_drop]
  rw [Utf8, List.foldlM_append, hn] at hwhole
  exact hwhole

/-- What is owed comes first, and after it a text starts. -/
theorem utf8_owed {state : Utf8State} {text : List UInt8} (h : text.foldlM utf8Next state = some .start) :
    state.owed ≤ text.length ∧ (text.take state.owed).foldlM utf8Next state = some .start ∧
      Utf8 (text.drop state.owed) := by
  -- On the text: one byte pays for one that is owed.
  induction text generalizing state with
  | nil =>
    obtain rfl : state = .start := Option.some.inj h
    exact ⟨Nat.le_refl 0, rfl, rfl⟩
  | cons b text ih =>
    cases state with
    | start => exact ⟨Nat.zero_le _, rfl, h⟩
    | tail more least greatest =>
      rw [List.foldlM_cons] at h
      obtain ⟨state, hnext, hrest⟩ := Option.bind_eq_some_iff.mp h
      have howed : state.owed = more := by
        simp only [utf8Next] at hnext
        split at hnext
        · cases more with
          | zero => rw [← Option.some.inj hnext]; rfl
          | succ more => rw [← Option.some.inj hnext]; rfl
        · cases hnext
      obtain ⟨hlen, htake, hdrop⟩ := ih hrest
      rw [howed] at hlen htake hdrop
      refine ⟨Nat.succ_le_succ hlen, ?_, hdrop⟩
      simp only [Utf8State.owed, List.take_succ_cons, List.foldlM_cons]
      rw [hnext]
      exact htake

/-- **The first character can be taken off.** -/
theorem Utf8.character {b : UInt8} {text : List UInt8} (h : Utf8 (b :: text)) :
    ∃ state, utf8Lead b = some state ∧ state.owed ≤ text.length ∧ Utf8 (b :: text.take state.owed) ∧
      Utf8 (text.drop state.owed) := by
  rw [Utf8, List.foldlM_cons] at h
  obtain ⟨state, hlead, hrest⟩ := Option.bind_eq_some_iff.mp h
  obtain ⟨hlen, htake, hdrop⟩ := utf8_owed hrest
  refine ⟨state, hlead, hlen, ?_, hdrop⟩
  rw [Utf8, List.foldlM_cons, hlead]
  exact htake

/-- An ASCII byte is a character by itself. -/
theorem Utf8.tail_of_ascii {b : UInt8} {text : List UInt8} (h : Utf8 (b :: text)) (hb : b < 0x80) : Utf8 text := by
  rw [Utf8, List.foldlM_cons, utf8Next, utf8Lead, if_pos hb] at h
  exact h

/-! ## Character by character -/

/-- The byte goes on with a character. -/
def utf8Tail (b : UInt8) : Bool := 0x80 ≤ b && b ≤ 0xBF

/-- The number of characters. -/
def utf8Chars (text : List UInt8) : Nat := text.countP fun b => !utf8Tail b

/-- What is owed goes on with a character. -/
def Utf8State.Tails : Utf8State → Prop
  | .start => True
  | .tail _ least greatest => 0x80 ≤ least ∧ greatest ≤ 0xBF

/-- The first byte of a character, by the bytes that are owed after it. -/
theorem utf8Lead_cases {b : UInt8} {state : Utf8State} (h : utf8Lead b = some state) :
    state.owed = 0 ∧ b.toNat < 128 ∨ state.owed = 1 ∧ 194 ≤ b.toNat ∧ b.toNat < 224 ∨
      state.owed = 2 ∧ 224 ≤ b.toNat ∧ b.toNat < 240 ∨ state.owed = 3 ∧ 240 ≤ b.toNat ∧ b.toNat ≤ 244 := by
  revert h
  fun_cases utf8Lead b <;> intro h <;> cases h
  all_goals
    simp only [UInt8.lt_iff_toNat_lt, ← UInt8.toNat_inj, UInt8.reduceToNat] at *
    simp [Utf8State.owed]
    omega

theorem utf8Lead_tails {b : UInt8} {state : Utf8State} (h : utf8Lead b = some state) : state.Tails := by
  revert h
  fun_cases utf8Lead b <;> intro h <;> cases h
  · trivial
  all_goals exact ⟨by decide, by decide⟩

theorem utf8Lead_not_tail {b : UInt8} {state : Utf8State} (h : utf8Lead b = some state) : utf8Tail b = false := by
  have hb := utf8Lead_cases h
  simp only [utf8Tail, Bool.and_eq_false_iff, decide_eq_false_iff_not, UInt8.le_iff_toNat_le, UInt8.reduceToNat]
  omega

theorem utf8_tails {text : List UInt8} {state : Utf8State} (hstate : state.Tails)
    (h : text.foldlM utf8Next state = some .start) : ∀ b ∈ text.take state.owed, utf8Tail b = true := by
  induction text generalizing state with
  | nil => simp
  | cons c text ih =>
    cases state with
    | start => simp [Utf8State.owed]
    | tail more least greatest =>
      rw [List.foldlM_cons] at h
      obtain ⟨state, hnext, hrest⟩ := Option.bind_eq_some_iff.mp h
      simp only [utf8Next] at hnext
      split at hnext
      · rename_i hc
        rw [Utf8State.owed, List.take_succ_cons]
        intro b hb
        rcases List.mem_cons.1 hb with rfl | hb
        · exact Bool.and_eq_true_iff.2 ⟨decide_eq_true (UInt8.le_trans hstate.1 hc.1),
            decide_eq_true (UInt8.le_trans hc.2 hstate.2)⟩
        · cases more with
          | zero => simp at hb
          | succ more =>
            cases hnext
            have hmore : (Utf8State.tail more 0x80 0xBF).Tails := ⟨UInt8.le_refl _, UInt8.le_refl _⟩
            exact ih hmore hrest b hb
      · cases hnext

/-- A character at the head of a text. -/
structure Utf8Head (b : UInt8) (text : List UInt8) (state : Utf8State) : Prop where
  lead : utf8Lead b = some state
  long : state.owed ≤ text.length
  tails : ∀ c ∈ text.take state.owed, utf8Tail c = true
  character : Utf8 (b :: text.take state.owed)
  rest : Utf8 (text.drop state.owed)

theorem Utf8.head {b : UInt8} {text : List UInt8} (h : Utf8 (b :: text)) : ∃ state, Utf8Head b text state := by
  obtain ⟨state, hlead, hlong, hchar, hrest⟩ := h.character
  rw [Utf8, List.foldlM_cons, utf8Next, hlead] at h
  exact ⟨state, hlead, hlong, utf8_tails (utf8Lead_tails hlead) h, hchar, hrest⟩

/-- **Induction on a text**, a character at a time. -/
theorem Utf8.by_characters {motive : List UInt8 → Prop} (nil : motive [])
    (char : ∀ b text state, Utf8Head b text state → motive (text.drop state.owed) → motive (b :: text))
    {text : List UInt8} (h : Utf8 text) : motive text := by
  induction hn : text.length using Nat.strongRecOn generalizing text with
  | ind n ih =>
    cases text with
    | nil => exact nil
    | cons b text =>
      obtain ⟨state, hhead⟩ := h.head
      refine char b text state hhead (ih _ ?_ hhead.rest rfl)
      rw [← hn, List.length_drop, List.length_cons]
      omega

namespace Utf8Head

variable {b : UInt8} {text : List UInt8} {state : Utf8State}

theorem take_eq {i : Nat} (hi : state.owed + 1 ≤ i) :
    (b :: text).take i = (b :: text.take state.owed) ++ (text.drop state.owed).take (i - (state.owed + 1)) := by
  obtain ⟨j, rfl⟩ := Nat.exists_eq_add_of_le hi
  rw [Nat.add_sub_cancel_left, List.take_add, List.take_succ_cons, List.drop_succ_cons]

/-- Past the first character, a text is cut where its rest is. -/
theorem take_iff (h : Utf8Head b text state) {i : Nat} (hi : 0 < i) : Utf8 ((b :: text).take i) ↔
    state.owed + 1 ≤ i ∧ Utf8 ((text.drop state.owed).take (i - (state.owed + 1))) := by
  constructor
  · intro hcut
    obtain ⟨j, rfl⟩ := Nat.exists_eq_add_of_lt hi
    rw [Nat.zero_add, List.take_succ_cons] at hcut
    obtain ⟨state', hhead⟩ := hcut.head
    obtain rfl : state' = state := Option.some.inj (hhead.lead.symm.trans h.lead)
    have hlong := hhead.long
    have hrest := hhead.rest
    rw [List.length_take] at hlong
    rw [List.drop_take] at hrest
    refine ⟨by omega, ?_⟩
    rwa [show 0 + j + 1 - (state'.owed + 1) = j - state'.owed by omega]
  · rintro ⟨hle, hrest⟩
    rw [take_eq hle]
    exact h.character.append hrest

theorem chars_take (h : Utf8Head b text state) {i : Nat} (hi : state.owed + 1 ≤ i) : utf8Chars ((b :: text).take i) =
    1 + utf8Chars ((text.drop state.owed).take (i - (state.owed + 1))) := by
  have htails : (text.take state.owed).countP (fun b => !utf8Tail b) = 0 := by
    refine List.countP_eq_zero.2 fun c hc => ?_
    rw [h.tails c hc]
    decide
  rw [take_eq hi, utf8Chars, List.countP_append, List.countP_cons_of_pos, htails]
  · rfl
  · rw [utf8Lead_not_tail h.lead]
    rfl

end Utf8Head

/-- A text may be cut before any ASCII byte. -/
theorem Utf8.take_of_ascii {text : List UInt8} (h : Utf8 text) :
    ∀ {pos : Nat} {c : UInt8}, text[pos]? = some c → c < 0x80 → Utf8 (text.take pos) := by
  refine h.by_characters (motive := fun text => ∀ {pos : Nat} {c : UInt8}, text[pos]? = some c → c < 0x80 →
    Utf8 (text.take pos)) (fun _ _ => by rw [List.take_nil]; exact Utf8.nil) ?_
  intro b text state hhead ih pos c hc hascii
  cases pos with
  | zero => exact Utf8.nil
  | succ pos =>
    rw [List.getElem?_cons_succ] at hc
    refine (hhead.take_iff (Nat.succ_pos pos)).2 ?_
    have hpast : state.owed ≤ pos := by
      by_contra hin
      have hmem : c ∈ text.take state.owed :=
        List.mem_of_getElem? (i := pos) (by rw [List.getElem?_take_of_lt (Nat.lt_of_not_le hin), hc])
      have htail := of_decide_eq_true (Bool.and_eq_true_iff.1 (hhead.tails c hmem)).1
      exact absurd htail (UInt8.not_le.2 hascii)
    refine ⟨Nat.succ_le_succ hpast, ?_⟩
    rw [Nat.succ_sub_succ]
    refine ih ?_ hascii
    rw [List.getElem?_drop, show state.owed + (pos - state.owed) = pos by omega, hc]

/-- A text of ASCII bytes has as many characters, and may be cut anywhere. -/
theorem utf8_of_ascii {text : List UInt8} (h : ∀ b ∈ text, b < 0x80) : Utf8 text ∧ utf8Chars text = text.length := by
  induction text with
  | nil => exact ⟨Utf8.nil, rfl⟩
  | cons b text ih =>
    obtain ⟨htext, hchars⟩ := ih fun c hc => h c (List.mem_cons_of_mem b hc)
    have hlead : utf8Lead b = some .start := if_pos (h b List.mem_cons_self)
    refine ⟨?_, ?_⟩
    · rw [Utf8, List.foldlM_cons, utf8Next, hlead]
      exact htext
    · rw [utf8Chars, List.countP_cons_of_pos, ← utf8Chars, hchars, List.length_cons]
      rw [utf8Lead_not_tail hlead]
      rfl

end Lib
