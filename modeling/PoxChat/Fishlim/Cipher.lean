import PoxChat.Lib.Base64
import PoxChat.Lib.Blocks
import PoxChat.Outbound.SendQueue

/-!
# The FiSH cipher

`fish_encrypt` and `fish_decrypt_str` of the fishlim plugin, with the two encodings they use.

* `fishBase64Encode`, `fishBase64Decode` — twelve characters for eight bytes, the right half first and each half from
  its low end.
* `Blowfish` — the block cipher of the crypto library; `ecb`, `cbcEncrypt` and `cbcDecrypt` are its modes.
* `fishCipher` — pads with zeros, and in CBC mode puts the random block in front.

Principal result: `fishDecryptStr_fishEncrypt` — a text comes back under its key, and how long its encoded form is.
-/

set_option autoImplicit false

namespace PoxChat.Fishlim

open Lib Outbound

/-! ## FiSH base64 -/

/-- `fish_base64`. -/
def fishBase64 : Bytes :=
  [46, 47] ++ (List.range 10).map (fun n => (48 + n).toUInt8) ++ (List.range 26).map (fun n => (97 + n).toUInt8) ++
    (List.range 26).map (fun n => (65 + n).toUInt8)

example : fishBase64 = bytes "./0123456789abcdefghijklmnopqrstuvwxyzABCDEFGHIJKLMNOPQRSTUVWXYZ" := by decide

/-- `fish_unbase64`: 64 for what is not in the alphabet, and 0 in the half of the table that is not written out. -/
def fishUnbase64 (c : UInt8) : Nat := if c < 128 then fishBase64.idxOf c else 0

/-- `GET_LONG`. -/
def getLong (block : Bytes) : Nat := (block.take 4).foldl (fun v c => v * 256 + c.toNat) 0

/-- `GET_BYTES`. -/
def getBytes (v : Nat) : Bytes :=
  [(v / 16777216 % 256).toUInt8, (v / 65536 % 256).toUInt8, (v / 256 % 256).toUInt8, (v % 256).toUInt8]

/-- The characters of a half, six bits each. -/
def fishChars : Nat → Nat → Bytes
  | 0, _ => []
  | i + 1, v => fishBase64.getD (v % 64) 0 :: fishChars i (v / 64)

/-- The half of these characters, the `i`-th of them first; `BF_LONG` has 32 bits. -/
def fishLong : Nat → Nat → Bytes → Nat
  | _, v, [] => v % 4294967296
  | i, v, c :: msg => fishLong (i + 1) (v ||| fishUnbase64 c <<< (i * 6)) msg

def encodeBlock (block : Bytes) : Bytes :=
  fishChars 6 (getLong (block.drop 4)) ++ fishChars 6 (getLong block)

def decodeBlock (msg : Bytes) : Bytes :=
  getBytes (fishLong 0 0 ((msg.drop 6).take 6)) ++ getBytes (fishLong 0 0 (msg.take 6))

def fishBase64Encode (message : Bytes) : Option Bytes :=
  if message = [] then none
  else some ((blocks 8 ((message.length + 7) / 8) message).map encodeBlock).flatten

def fishBase64Decode (message : Bytes) : Option Bytes :=
  if message = [] ∨ message.length % 12 ≠ 0 ∨ ∃ c ∈ message, c ∉ fishBase64 then none
  else some ((blocks 12 (message.length / 12) message).map decodeBlock).flatten

theorem fishBase64_spec {n : Nat} (h : n < 64) :
    fishUnbase64 (fishBase64.getD n 0) = n ∧ fishBase64.getD n 0 ∈ fishBase64 := by
  have hall : ∀ n < 64, fishUnbase64 (fishBase64.getD n 0) = n ∧ fishBase64.getD n 0 ∈ fishBase64 := by
    decide +kernel
  exact hall n h

theorem length_fishChars (k v : Nat) : (fishChars k v).length = k := by
  induction k generalizing v with
  | zero => rfl
  | succ k ih => rw [fishChars, List.length_cons, ih]

theorem mem_fishChars {k v : Nat} {c : UInt8} (h : c ∈ fishChars k v) : c ∈ fishBase64 := by
  induction k generalizing v with
  | zero => cases h
  | succ k ih =>
    obtain rfl | hrest := List.mem_cons.mp h
    · exact (fishBase64_spec (Nat.mod_lt v (by decide))).2
    · exact ih hrest

/-- Reading six characters from the `i`-th on adds what they stand for. -/
theorem fishLong_fishChars (k : Nat) {i v x : Nat} (hv : v < 64 ^ i) :
    fishLong i v (fishChars k x) = (v + 64 ^ i * (x % 64 ^ k)) % 4294967296 := by
  induction k generalizing i v x with
  | zero => rw [fishChars, fishLong, Nat.pow_zero, Nat.mod_one, Nat.mul_zero, Nat.add_zero]
  | succ k ih =>
    have hx : x % 64 < 64 := Nat.mod_lt x (by decide)
    have hpow : 2 ^ (i * 6) = 64 ^ i := by rw [Nat.mul_comm, Nat.pow_mul]
    have hor : v ||| (x % 64) <<< (i * 6) = v + 64 ^ i * (x % 64) := by
      rw [Nat.or_comm, ← Nat.shiftLeft_add_eq_or_of_lt (by rw [hpow]; exact hv), Nat.shiftLeft_eq, hpow,
        Nat.add_comm, Nat.mul_comm]
    have hnext : v + 64 ^ i * (x % 64) < 64 ^ (i + 1) := by
      calc v + 64 ^ i * (x % 64) < 64 ^ i + 64 ^ i * (x % 64) := Nat.add_lt_add_right hv _
        _ = 64 ^ i * (x % 64 + 1) := by rw [Nat.mul_succ, Nat.add_comm]
        _ ≤ 64 ^ i * 64 := Nat.mul_le_mul_left _ hx
        _ = 64 ^ (i + 1) := (Nat.pow_succ ..).symm
    rw [fishChars, fishLong, (fishBase64_spec hx).1, hor, ih hnext, Nat.pow_succ, Nat.pow_succ,
      Nat.mul_comm (64 ^ k), Nat.mod_mul, Nat.mul_add, Nat.mul_assoc, Nat.add_assoc]

theorem fishLong_long {x : Nat} (hx : x < 4294967296) : fishLong 0 0 (fishChars 6 x) = x := by
  rw [fishLong_fishChars 6 (by decide), Nat.pow_zero, Nat.one_mul, Nat.zero_add, Nat.mod_eq_of_lt (b := 64 ^ 6) (by omega),
    Nat.mod_eq_of_lt hx]

theorem getLong_spec (a b c d : UInt8) (rest : Bytes) :
    getLong (a :: b :: c :: d :: rest) < 4294967296 ∧ getBytes (getLong (a :: b :: c :: d :: rest)) = [a, b, c, d] := by
  have hlong : getLong (a :: b :: c :: d :: rest) =
      ((a.toNat * 256 + b.toNat) * 256 + c.toNat) * 256 + d.toNat := by
    simp only [getLong, List.take_succ_cons, List.take_zero, List.foldl_cons, List.foldl_nil, Nat.zero_mul,
      Nat.zero_add]
  have ha := a.toNat_lt
  have hb := b.toNat_lt
  have hc := c.toNat_lt
  have hd := d.toNat_lt
  refine ⟨by omega, ?_⟩
  rw [hlong, getBytes, toUInt8_of_eq (b := a) (by omega), toUInt8_of_eq (b := b) (by omega),
    toUInt8_of_eq (b := c) (by omega), toUInt8_of_eq (b := d) (by omega)]

/-- Eight bytes come back from their twelve characters. -/
theorem decodeBlock_encodeBlock {block : Bytes} (hlen : block.length = 8) : decodeBlock (encodeBlock block) = block := by
  obtain ⟨a, b, c, d, e, f, g, h, rfl⟩ : ∃ a b c d e f g h, block = [a, b, c, d, e, f, g, h] := by
    match block, hlen with
    | [a, b, c, d, e, f, g, h], _ => exact ⟨a, b, c, d, e, f, g, h, rfl⟩
  obtain ⟨hleft, hbytes⟩ := getLong_spec a b c d [e, f, g, h]
  obtain ⟨hright, hbytes'⟩ := getLong_spec e f g h []
  rw [decodeBlock, encodeBlock, List.take_left' (length_fishChars 6 _), List.drop_left' (length_fishChars 6 _),
    List.take_of_length_le (length_fishChars 6 _).le, fishLong_long hleft, hbytes]
  simp only [List.drop_succ_cons, List.drop_zero]
  rw [fishLong_long hright, hbytes']
  rfl

theorem length_encodeBlock (block : Bytes) : (encodeBlock block).length = 12 := by
  rw [encodeBlock, List.length_append, length_fishChars, length_fishChars]

theorem length_fishBase64Encode {message encoded : Bytes} (h : fishBase64Encode message = some encoded) :
    encoded.length = 12 * ((message.length + 7) / 8) := by
  rw [fishBase64Encode] at h
  split at h
  · cases h
  · rw [← Option.some.inj h, length_flatten_of_length (n := 12), List.length_map, length_blocks]
    intro msg hmsg
    obtain ⟨block, -, rfl⟩ := List.mem_map.mp hmsg
    exact length_encodeBlock block

theorem mem_fishBase64Encode {message encoded : Bytes} (h : fishBase64Encode message = some encoded) :
    ∀ c ∈ encoded, c ∈ fishBase64 := by
  rw [fishBase64Encode] at h
  split at h
  · cases h
  · intro c hc
    rw [← Option.some.inj h] at hc
    obtain ⟨msg, hmsg, hc⟩ := List.mem_flatten.mp hc
    obtain ⟨block, -, rfl⟩ := List.mem_map.mp hmsg
    obtain hc | hc := List.mem_append.mp hc
    · exact mem_fishChars hc
    · exact mem_fishChars hc

/-- **FiSH base64 round trip**, for whole blocks. -/
theorem fishBase64Decode_fishBase64Encode {message : Bytes} (hne : message ≠ []) {count : Nat}
    (hlen : message.length = 8 * count) :
    ∃ encoded, fishBase64Encode message = some encoded ∧ fishBase64Decode encoded = some message := by
  have hpos := List.length_pos_of_ne_nil hne
  have hcount : (message.length + 7) / 8 = count := by omega
  obtain ⟨encoded, hencoded⟩ : ∃ encoded, fishBase64Encode message = some encoded := by
    rw [fishBase64Encode, if_neg hne]
    exact ⟨_, rfl⟩
  refine ⟨encoded, hencoded, ?_⟩
  have hsize := length_fishBase64Encode hencoded
  have hmem := mem_fishBase64Encode hencoded
  have hlens : ∀ block ∈ blocks 8 count message, block.length = 8 :=
    fun block => length_of_mem_blocks hlen.ge
  have hflat : encoded = ((blocks 8 count message).map encodeBlock).flatten := by
    rw [fishBase64Encode, if_neg hne, hcount] at hencoded
    exact (Option.some.inj hencoded).symm
  have hmsgs : blocks 12 (encoded.length / 12) encoded = (blocks 8 count message).map encodeBlock := by
    have hdiv : encoded.length / 12 = ((blocks 8 count message).map encodeBlock).length := by
      rw [List.length_map, length_blocks]
      omega
    rw [hdiv, hflat]
    refine blocks_flatten fun msg hmsg => ?_
    obtain ⟨block, -, rfl⟩ := List.mem_map.mp hmsg
    exact length_encodeBlock block
  have hback : ((blocks 8 count message).map encodeBlock).map decodeBlock = blocks 8 count message := by
    rw [List.map_map]
    exact (List.map_congr_left fun block hblock => decodeBlock_encodeBlock (hlens block hblock)).trans (List.map_id _)
  rw [fishBase64Decode, if_neg, hmsgs, hback, flatten_blocks count hlen]
  rintro (hnil | hmod | ⟨c, hc, hnot⟩)
  · rw [hnil, List.length_nil] at hsize
    omega
  · omega
  · exact hnot (hmem c hc)

/-! ## The cipher -/

/-- Blowfish on one block of eight bytes. -/
structure Blowfish where
  encrypt : Bytes → Bytes → Bytes
  decrypt : Bytes → Bytes → Bytes

/-- Decryption inverts encryption, block by block. -/
structure Blowfish.Inverts (bf : Blowfish) : Prop where
  length_encrypt : ∀ (key : Bytes) {block : Bytes}, block.length = 8 → (bf.encrypt key block).length = 8
  decrypt_encrypt : ∀ (key : Bytes) {block : Bytes}, block.length = 8 → bf.decrypt key (bf.encrypt key block) = block

inductive FishMode where
  | ecb
  | cbc
  deriving DecidableEq

def xorBlock (a b : Bytes) : Bytes := List.zipWith (· ^^^ ·) a b

def cbcEncrypt (encrypt : Bytes → Bytes) : Bytes → List Bytes → List Bytes
  | _, [] => []
  | iv, block :: rest =>
    let c := encrypt (xorBlock block iv)
    c :: cbcEncrypt encrypt c rest

def cbcDecrypt (decrypt : Bytes → Bytes) : Bytes → List Bytes → List Bytes
  | _, [] => []
  | iv, c :: rest => xorBlock (decrypt c) iv :: cbcDecrypt decrypt c rest

def zeroPadding (data : Bytes) : Bytes :=
  if data.length % 8 ≠ 0 then data ++ List.replicate (8 - data.length % 8) 0 else data

def blocks8 (data : Bytes) : List Bytes := blocks 8 (data.length / 8) data

/-- `fish_cipher` with `encode` 1, where `RAND_bytes` writes `iv`. -/
def fishCipherEncode (bf : Blowfish) (iv plaintext key : Bytes) (mode : FishMode) : Option Bytes :=
  if plaintext = [] ∨ key = [] then none
  else
    let data := blocks8 (zeroPadding plaintext)
    match mode with
    | .ecb => some (data.map (bf.encrypt key)).flatten
    | .cbc => some (iv ++ (cbcEncrypt (bf.encrypt key) iv data).flatten)

/-- `fish_cipher` with `encode` 0. -/
def fishCipherDecode (bf : Blowfish) (ciphertext key : Bytes) (mode : FishMode) : Option Bytes :=
  if ciphertext = [] ∨ key = [] then none
  else
    match mode with
    | .ecb => some ((blocks8 (zeroPadding ciphertext)).map (bf.decrypt key)).flatten
    | .cbc =>
      if ciphertext.length ≤ 8 then none
      else
        let data := blocks8 (zeroPadding (ciphertext.drop 8))
        some (cbcDecrypt (bf.decrypt key) (ciphertext.take 8) data).flatten

def fishEncrypt (bf : Blowfish) (iv key message : Bytes) (mode : FishMode) : Option Bytes :=
  if key = [] ∨ message = [] then none
  else
    match fishCipherEncode bf iv message key mode with
    | none => none
    | some ciphertext =>
      if ciphertext = [] then none
      else
        match mode with
        | .cbc => some (base64Encode ciphertext)
        | .ecb => fishBase64Encode ciphertext

/-- `fish_decrypt` on a text that ends at its first NUL. -/
def fishDecrypt (bf : Blowfish) (key data : Bytes) (mode : FishMode) : Option Bytes :=
  if key = [] ∨ cString data = [] then none
  else
    let data := cString data
    let ciphertext :=
      match mode with
      | .cbc => if ∃ c ∈ data, isBase64 c = false then none else some (base64Decode data)
      | .ecb => fishBase64Decode data
    match ciphertext with
    | none => none
    | some ciphertext =>
      if ciphertext = [] then none
      else
        match fishCipherDecode bf ciphertext key mode with
        | none => none
        | some plaintext => if plaintext = [] then none else some plaintext

/-- `fish_decrypt_str`: the text up to its first zero. -/
def fishDecryptStr (bf : Blowfish) (key data : Bytes) (mode : FishMode) : Option Bytes :=
  (fishDecrypt bf key data mode).map cString

/-! ## Blocks of eight -/

theorem length_zeroPadding (data : Bytes) : (zeroPadding data).length = 8 * ((data.length + 7) / 8) := by
  rw [zeroPadding]
  split
  · rw [List.length_append, List.length_replicate]
    omega
  · omega

theorem cString_zeroPadding {data : Bytes} (hnul : (0 : UInt8) ∉ data) : cString (zeroPadding data) = data := by
  have htake : ∀ k, cString (data ++ List.replicate k 0) = data := by
    intro k
    cases k with
    | zero => rw [List.replicate_zero, List.append_nil, cString_eq_self hnul]
    | succ k => rw [List.replicate_succ, cString_append hnul]
  rw [zeroPadding]
  split
  · exact htake _
  · exact cString_eq_self hnul

theorem blocks8_zeroPadding (data : Bytes) :
    (∀ block ∈ blocks8 (zeroPadding data), block.length = 8) ∧
      (blocks8 (zeroPadding data)).flatten = zeroPadding data ∧
      (blocks8 (zeroPadding data)).length = (data.length + 7) / 8 := by
  have hlen := length_zeroPadding data
  have hdiv : (zeroPadding data).length / 8 = (data.length + 7) / 8 := by omega
  rw [blocks8, hdiv]
  exact ⟨fun block => length_of_mem_blocks hlen.ge, flatten_blocks _ hlen, length_blocks ..⟩

/-- Whole blocks are not padded, and are cut where they were joined. -/
theorem blocks8_flatten {data : List Bytes} (hlens : ∀ block ∈ data, block.length = 8) :
    blocks8 (zeroPadding data.flatten) = data := by
  have hlen := length_flatten_of_length hlens
  have hpad : zeroPadding data.flatten = data.flatten := by
    rw [zeroPadding, if_neg]
    omega
  have hdiv : data.flatten.length / 8 = data.length := by omega
  rw [hpad, blocks8, hdiv, blocks_flatten hlens]

section Modes

variable {bf : Blowfish} (hbf : bf.Inverts) (key : Bytes)
include hbf

theorem ecb_round_trip {data : List Bytes} (hlens : ∀ block ∈ data, block.length = 8) :
    (∀ block ∈ data.map (bf.encrypt key), block.length = 8) ∧
      (data.map (bf.encrypt key)).map (bf.decrypt key) = data := by
  constructor
  · intro c hc
    obtain ⟨block, hblock, rfl⟩ := List.mem_map.mp hc
    exact hbf.length_encrypt key (hlens block hblock)
  · rw [List.map_map]
    exact (List.map_congr_left fun block hblock => hbf.decrypt_encrypt key (hlens block hblock)).trans (List.map_id _)

omit hbf in
theorem xorBlock_xorBlock {a b : Bytes} (hlen : a.length = b.length) : xorBlock (xorBlock a b) b = a := by
  induction a generalizing b with
  | nil => rfl
  | cons x a ih =>
    cases b with
    | nil => cases hlen
    | cons y b =>
      have hx : x ^^^ y ^^^ y = x := by rw [UInt8.xor_assoc, UInt8.xor_self, UInt8.xor_zero]
      have ha : xorBlock (xorBlock a b) b = a := ih (Nat.succ.inj hlen)
      show (x ^^^ y ^^^ y) :: xorBlock (xorBlock a b) b = x :: a
      rw [hx, ha]

theorem cbc_round_trip {data : List Bytes} {iv : Bytes} (hiv : iv.length = 8)
    (hlens : ∀ block ∈ data, block.length = 8) :
    (∀ c ∈ cbcEncrypt (bf.encrypt key) iv data, c.length = 8) ∧
      (cbcEncrypt (bf.encrypt key) iv data).length = data.length ∧
      cbcDecrypt (bf.decrypt key) iv (cbcEncrypt (bf.encrypt key) iv data) = data := by
  -- On the blocks: each one becomes the initial block of the rest.
  induction data generalizing iv with
  | nil => exact ⟨fun _ h => absurd h List.not_mem_nil, rfl, rfl⟩
  | cons block data ih =>
    obtain ⟨hblock, hlens⟩ := List.forall_mem_cons.mp hlens
    have hxor : (xorBlock block iv).length = 8 := by
      rw [xorBlock, List.length_zipWith, hblock, hiv, Nat.min_self]
    have hc := hbf.length_encrypt key hxor
    obtain ⟨hcs, hcount, hback⟩ := ih hc hlens
    simp only [cbcEncrypt, cbcDecrypt, hbf.decrypt_encrypt key hxor, hback, List.length_cons, hcount]
    refine ⟨List.forall_mem_cons.mpr ⟨hc, hcs⟩, trivial, ?_⟩
    rw [xorBlock_xorBlock (hblock.trans hiv.symm)]

variable {key}

/-- The ciphertext has the length of the padded text, in CBC mode with one block more, and decrypts to it. -/
theorem fishCipher_round_trip {iv plaintext : Bytes} (hiv : iv.length = 8) (hkey : key ≠ []) (hne : plaintext ≠ [])
    (mode : FishMode) :
    ∃ ciphertext, fishCipherEncode bf iv plaintext key mode = some ciphertext ∧
      ciphertext.length = 8 * ((plaintext.length + 7) / 8 + if mode = .cbc then 1 else 0) ∧
      fishCipherDecode bf ciphertext key mode = some (zeroPadding plaintext) := by
  have hpos := List.length_pos_of_ne_nil hne
  obtain ⟨hlens, hflat, hcount⟩ := blocks8_zeroPadding plaintext
  simp only [fishCipherEncode, if_neg (not_or.mpr ⟨hne, hkey⟩)]
  cases mode with
  | ecb =>
    obtain ⟨hcs, hback⟩ := ecb_round_trip hbf key hlens
    have hlen := length_flatten_of_length hcs
    rw [List.length_map, hcount] at hlen
    refine ⟨_, rfl, by rw [hlen]; rfl, ?_⟩
    have hnil : ((blocks8 (zeroPadding plaintext)).map (bf.encrypt key)).flatten ≠ [] := by
      intro h
      rw [h, List.length_nil] at hlen
      omega
    rw [fishCipherDecode, if_neg (not_or.mpr ⟨hnil, hkey⟩), blocks8_flatten hcs, hback, hflat]
  | cbc =>
    obtain ⟨hcs, hlen, hback⟩ := cbc_round_trip hbf key hiv hlens
    have hall := length_flatten_of_length hcs
    rw [hlen, hcount] at hall
    refine ⟨_, rfl, ?_, ?_⟩
    · rw [List.length_append, hiv, hall, if_pos rfl]
      omega
    · have hnil : iv ++ (cbcEncrypt (bf.encrypt key) iv (blocks8 (zeroPadding plaintext))).flatten ≠ [] := by
        intro h
        rw [(List.append_eq_nil_iff.mp h).1] at hiv
        cases hiv
      have hlong : ¬ (iv ++ (cbcEncrypt (bf.encrypt key) iv (blocks8 (zeroPadding plaintext))).flatten).length ≤ 8 := by
        rw [List.length_append, hiv, hall]
        omega
      simp only [fishCipherDecode, if_neg (not_or.mpr ⟨hnil, hkey⟩), if_neg hlong]
      rw [List.take_left' hiv, List.drop_left' hiv, blocks8_flatten hcs, hback, hflat]

/-- **A text comes back under its key**, and its encoded form has the length of its mode. -/
theorem fishDecryptStr_fishEncrypt {iv message : Bytes} (hiv : iv.length = 8) (hkey : key ≠ []) (hne : message ≠ [])
    (hnul : (0 : UInt8) ∉ message) (mode : FishMode) :
    ∃ encoded, fishEncrypt bf iv key message mode = some encoded ∧
      encoded.length = (match mode with
        | .ecb => 12 * ((message.length + 7) / 8)
        | .cbc => 4 * ((8 * ((message.length + 7) / 8 + 1) + 2) / 3)) ∧
      fishDecryptStr bf key encoded mode = some message := by
  have hpos := List.length_pos_of_ne_nil hne
  obtain ⟨ciphertext, hcipher, hlen, hback⟩ := fishCipher_round_trip hbf hiv hkey hne mode
  have hc : ciphertext ≠ [] := by
    rintro rfl
    rw [List.length_nil] at hlen
    omega
  have hpad : zeroPadding message ≠ [] := by
    intro h
    have := length_zeroPadding message
    rw [h, List.length_nil] at this
    omega
  rw [fishEncrypt, if_neg (not_or.mpr ⟨hkey, hne⟩), hcipher]
  simp only [if_neg hc]
  -- Both encodings are texts without NUL that decode to the ciphertext.
  cases mode with
  | ecb =>
    rw [if_neg (by decide), Nat.add_zero] at hlen
    obtain ⟨encoded, hencoded, hdecoded⟩ := fishBase64Decode_fishBase64Encode hc hlen
    have hsize := length_fishBase64Encode hencoded
    have hzero : (0 : UInt8) ∉ encoded := fun h =>
      absurd (mem_fishBase64Encode hencoded 0 h) (by decide)
    have hnil : encoded ≠ [] := by
      rintro rfl
      rw [List.length_nil] at hsize
      omega
    refine ⟨encoded, hencoded, ?_, ?_⟩
    · show encoded.length = 12 * ((message.length + 7) / 8)
      omega
    · simp only [fishDecryptStr, fishDecrypt, cString_eq_self hzero, if_neg (not_or.mpr ⟨hkey, hnil⟩), hdecoded,
        if_neg hc, hback, if_neg hpad, Option.map_some, cString_zeroPadding hnul]
  | cbc =>
    rw [if_pos rfl] at hlen
    have hsize := length_base64Encode ciphertext
    have hmem := mem_base64Encode ciphertext
    have hzero : (0 : UInt8) ∉ base64Encode ciphertext := fun h => absurd (hmem 0 h) (by decide)
    have hnil : base64Encode ciphertext ≠ [] := by
      intro h
      rw [h, List.length_nil] at hsize
      omega
    have hchars : ¬ ∃ c ∈ base64Encode ciphertext, isBase64 c = false := by
      rintro ⟨c, hc, hnot⟩
      rw [hmem c hc] at hnot
      cases hnot
    refine ⟨_, rfl, by rw [hsize, hlen], ?_⟩
    simp only [fishDecryptStr, fishDecrypt, cString_eq_self hzero, if_neg (not_or.mpr ⟨hkey, hnil⟩), if_neg hchars,
      base64Decode_base64Encode, if_neg hc, hback, if_neg hpad, Option.map_some, cString_zeroPadding hnul]

end Modes

end PoxChat.Fishlim
