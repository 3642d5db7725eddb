import Mathlib.Tactic.Common

/-!
# Base64

The standard encoding with padding: three bytes make four characters of the alphabet, and a last group of one or two
bytes is filled up with `=`.

* `length_base64Encode` — the length of the text depends on that of the bytes alone.
* `mem_base64Encode` — every character is a letter, a digit, `+`, `/` or `=`.
* `base64Encode_padding` — where the `=` stand.
* `base64Decode_base64Encode` — decoding gives the bytes back.
-/

set_option autoImplicit false

namespace Lib

/-- The character for six bits. -/
def base64Digit (n : Nat) : UInt8 :=
  if n < 26 then (65 + n).toUInt8
  else if n < 52 then (97 + (n - 26)).toUInt8
  else if n < 62 then (48 + (n - 52)).toUInt8
  else if n = 62 then 43
  else 47

def base64Encode : List UInt8 → List UInt8
  | [] => []
  | [a] =>
    let v := a.toNat * 16
    [base64Digit (v / 64), base64Digit (v % 64), 61, 61]
  | [a, b] =>
    let v := (a.toNat * 256 + b.toNat) * 4
    [base64Digit (v / 4096), base64Digit (v / 64 % 64), base64Digit (v % 64), 61]
  | a :: b :: c :: rest =>
    let v := a.toNat * 65536 + b.toNat * 256 + c.toNat
    base64Digit (v / 262144) :: base64Digit (v / 4096 % 64) :: base64Digit (v / 64 % 64) ::
      base64Digit (v % 64) :: base64Encode rest

example : base64Encode [77, 97, 110, 77] = [84, 87, 70, 117, 84, 81, 61, 61] := by decide

theorem length_base64Encode (bytes : List UInt8) :
    (base64Encode bytes).length = 4 * ((bytes.length + 2) / 3) := by
  induction bytes using base64Encode.induct with
  | case1 => rfl
  | case2 a => simp [base64Encode]
  | case3 a b => simp [base64Encode]
  | case4 a b c rest ih =>
    simp only [base64Encode, List.length_cons, ih]
    omega

def isBase64 (c : UInt8) : Bool :=
  (65 ≤ c && c ≤ 90) || (97 ≤ c && c ≤ 122) || (48 ≤ c && c ≤ 57) || c == 43 || c == 47 || c == 61

theorem isBase64_toUInt8 {k : Nat} (h : 65 ≤ k ∧ k ≤ 90 ∨ 97 ≤ k ∧ k ≤ 122 ∨ 48 ≤ k ∧ k ≤ 57) :
    isBase64 k.toUInt8 = true := by
  have hval : k.toUInt8.toNat = k := by
    rw [Nat.toUInt8_eq, UInt8.toNat_ofNat', Nat.mod_eq_of_lt (by omega)]
  have hrange : 65 ≤ k.toUInt8 ∧ k.toUInt8 ≤ 90 ∨ 97 ≤ k.toUInt8 ∧ k.toUInt8 ≤ 122 ∨
      48 ≤ k.toUInt8 ∧ k.toUInt8 ≤ 57 := by
    simp only [UInt8.le_iff_toNat_le, hval]
    exact h
  simp only [isBase64, Bool.or_eq_true, Bool.and_eq_true, decide_eq_true_eq]
  exact .inl (.inl (.inl (or_assoc.mpr hrange)))

theorem isBase64_base64Digit (n : Nat) : isBase64 (base64Digit n) = true := by
  unfold base64Digit
  split_ifs with h26 h52 h62 h63
  · exact isBase64_toUInt8 (.inl (by omega))
  · exact isBase64_toUInt8 (.inr (.inl (by omega)))
  · exact isBase64_toUInt8 (.inr (.inr (by omega)))
  · rfl
  · rfl

/-- The six bits of a character, 0 for `=`. -/
def base64Rank (c : UInt8) : Nat :=
  if 65 ≤ c ∧ c ≤ 90 then c.toNat - 65
  else if 97 ≤ c ∧ c ≤ 122 then c.toNat - 97 + 26
  else if 48 ≤ c ∧ c ≤ 57 then c.toNat - 48 + 52
  else if c = 43 then 62
  else if c = 47 then 63
  else 0

/-- Four characters at a time; what is left over at the end gives nothing. -/
def base64Groups : List UInt8 → List UInt8
  | a :: b :: c :: d :: rest =>
    let v := base64Rank a * 262144 + base64Rank b * 4096 + base64Rank c * 64 + base64Rank d
    (v / 65536).toUInt8 :: ((if c = 61 then [] else [(v / 256 % 256).toUInt8]) ++
      (if d = 61 then [] else [(v % 256).toUInt8])) ++ base64Groups rest
  | _ => []

/-- Characters outside the alphabet are passed over. -/
def base64Decode (text : List UInt8) : List UInt8 := base64Groups (text.filter isBase64)

theorem mem_base64Encode (bytes : List UInt8) : ∀ c ∈ base64Encode bytes, isBase64 c = true := by
  induction bytes using base64Encode.induct with
  | case1 => intro c hc; cases hc
  | case2 a =>
    simp only [base64Encode, List.forall_mem_cons, isBase64_base64Digit, true_and]
    exact ⟨rfl, rfl, nofun⟩
  | case3 a b =>
    simp only [base64Encode, List.forall_mem_cons, isBase64_base64Digit, true_and]
    exact ⟨rfl, nofun⟩
  | case4 a b c rest ih =>
    simp only [base64Encode, List.forall_mem_cons, isBase64_base64Digit, true_and]
    exact ih

theorem base64Digit_spec {n : Nat} (h : n < 64) : base64Rank (base64Digit n) = n ∧ base64Digit n ≠ 61 := by
  have hall : ∀ n < 64, base64Rank (base64Digit n) = n ∧ base64Digit n ≠ 61 := by decide
  exact hall n h

theorem base64Digit_ne (n : Nat) : base64Digit n ≠ 61 := by
  by_cases h : n < 64
  · exact (base64Digit_spec h).2
  · have hlast : base64Digit n = 47 := by
      rw [base64Digit, if_neg (by omega), if_neg (by omega), if_neg (by omega), if_neg (by omega)]
    rw [hlast]
    decide

/-- The padding stands at the end, one `=` for each byte that is missing from the last group. -/
theorem base64Encode_padding (bytes : List UInt8) :
    ∃ stripped, base64Encode bytes = stripped ++ List.replicate ((3 - bytes.length % 3) % 3) 61 ∧ 61 ∉ stripped := by
  induction bytes using base64Encode.induct with
  | case1 => exact ⟨[], rfl, List.not_mem_nil⟩
  | case2 a => exact ⟨[_, _], rfl, by simp [(base64Digit_ne _).symm]⟩
  | case3 a b => exact ⟨[_, _, _], rfl, by simp [(base64Digit_ne _).symm]⟩
  | case4 a b c rest ih =>
    obtain ⟨stripped, hrest, hnot⟩ := ih
    have hmod : (a :: b :: c :: rest).length % 3 = rest.length % 3 := by
      rw [List.length_cons, List.length_cons, List.length_cons]
      omega
    rw [base64Encode, hrest, hmod]
    exact ⟨_ :: _ :: _ :: _ :: stripped, rfl, by simp [(base64Digit_ne _).symm, hnot]⟩

theorem toUInt8_of_eq {n : Nat} {b : UInt8} (h : n = b.toNat) : n.toUInt8 = b := by
  rw [h, Nat.toUInt8_eq, UInt8.ofNat_toNat]

theorem base64Groups_base64Encode (bytes : List UInt8) : base64Groups (base64Encode bytes) = bytes := by
  -- On the groups: each one gives back its bytes, and the padding drops those that were not there.
  induction bytes using base64Encode.induct with
  | case1 => rfl
  | case2 a =>
    have ha := a.toNat_lt
    obtain ⟨hrank, -⟩ := base64Digit_spec (n := a.toNat * 16 / 64) (by omega)
    obtain ⟨hrank', -⟩ := base64Digit_spec (n := a.toNat * 16 % 64) (by omega)
    simp only [base64Encode, base64Groups, hrank, hrank', if_true, List.append_nil]
    rw [toUInt8_of_eq (b := a)]
    have hpad : base64Rank 61 = 0 := by decide
    omega
  | case3 a b =>
    have ha := a.toNat_lt
    have hb := b.toNat_lt
    obtain ⟨hrank, -⟩ := base64Digit_spec (n := (a.toNat * 256 + b.toNat) * 4 / 4096) (by omega)
    obtain ⟨hrank', -⟩ := base64Digit_spec (n := (a.toNat * 256 + b.toNat) * 4 / 64 % 64) (by omega)
    obtain ⟨hrank'', hdigit⟩ := base64Digit_spec (n := (a.toNat * 256 + b.toNat) * 4 % 64) (by omega)
    have hpad : base64Rank 61 = 0 := by decide
    simp only [base64Encode, base64Groups, hrank, hrank', hrank'', hpad, if_neg hdigit, if_true, List.append_nil]
    rw [toUInt8_of_eq (b := a) (by omega), toUInt8_of_eq (b := b) (by omega)]
  | case4 a b c rest ih =>
    have ha := a.toNat_lt
    have hb := b.toNat_lt
    have hc := c.toNat_lt
    obtain ⟨v, hv⟩ : ∃ v, v = a.toNat * 65536 + b.toNat * 256 + c.toNat := ⟨_, rfl⟩
    obtain ⟨hrank, -⟩ := base64Digit_spec (n := v / 262144) (by omega)
    obtain ⟨hrank', -⟩ := base64Digit_spec (n := v / 4096 % 64) (by omega)
    obtain ⟨hrank'', hdigit⟩ := base64Digit_spec (n := v / 64 % 64) (by omega)
    obtain ⟨hrank₃, hdigit'⟩ := base64Digit_spec (n := v % 64) (by omega)
    have hsum : v / 262144 * 262144 + v / 4096 % 64 * 4096 + v / 64 % 64 * 64 + v % 64 = v := by omega
    simp only [base64Encode, ← hv, base64Groups, hrank, hrank', hrank'', hrank₃, hsum, if_neg hdigit, if_neg hdigit',
      ih]
    rw [toUInt8_of_eq (b := a) (by omega), toUInt8_of_eq (b := b) (by omega), toUInt8_of_eq (b := c) (by omega)]
    rfl

/-- **Decoding inverts encoding.** -/
theorem base64Decode_base64Encode (bytes : List UInt8) : base64Decode (base64Encode bytes) = bytes := by
  rw [base64Decode, List.filter_eq_self.mpr (mem_base64Encode bytes), base64Groups_base64Encode]

end Lib
