import Mathlib.Logic.Equiv.Basic
import PoxChat.Fishlim.Cipher
import PoxChat.Lib.Utf8
import PoxChat.Outbound.Pieces

/-!
# Encrypted messages

`fish_encrypt_for_nick` cuts a text into pieces that fit the line and encrypts each, and `fish_decrypt_from_nick` reads
one piece.

* `encodedLen` — the length formulas of the plugin; `maxTextCommandLen` searches downward with them.
* `foreachUtf8DataChunks` — the length of the next piece of a text.
* `fishEncryptForNick` — `none` when it has not returned after `fuel` pieces, or when the search runs below 0.  The
  random blocks are an argument, and a piece is `none` where `fish_encrypt` has no result.

Principal result: `messages_whole` — every text arrives whole, in pieces that fit the line and split no character.
-/

set_option autoImplicit false

namespace PoxChat.Fishlim

open Lib Outbound

/-! ## Lengths -/

def base64Len (plaintextLen : Nat) : Nat :=
  let unpadded := 4 * plaintextLen / 3
  if unpadded % 4 ≠ 0 then unpadded + (4 - unpadded % 4) else unpadded

def base64FishLen (plaintextLen : Nat) : Nat :=
  let unpadded := 12 * plaintextLen / 8
  if unpadded % 12 ≠ 0 then unpadded + (12 - unpadded % 12) else unpadded

def cbcLen (plaintextLen : Nat) : Nat :=
  base64Len (8 + if plaintextLen % 8 ≠ 0 then plaintextLen + 8 - plaintextLen % 8 else plaintextLen)

def ecbLen (plaintextLen : Nat) : Nat := base64FishLen plaintextLen

def encodedLen (plaintextLen : Nat) : FishMode → Nat
  | .cbc => cbcLen plaintextLen
  | .ecb => ecbLen plaintextLen

/-- The loop of `max_text_command_len`, from `len` down. -/
def maxTextCommandLen (maxLen : Nat) (mode : FishMode) : Nat → Option Nat
  | 0 => if encodedLen 0 mode > maxLen then none else some 0
  | len + 1 => if encodedLen (len + 1) mode > maxLen then maxTextCommandLen maxLen mode len else some (len + 1)

/-- The formulas agree with the encoders. -/
theorem encodedLen_eq (plaintextLen : Nat) (mode : FishMode) :
    encodedLen plaintextLen mode =
      match mode with
      | .ecb => 12 * ((plaintextLen + 7) / 8)
      | .cbc => 4 * ((8 * ((plaintextLen + 7) / 8 + 1) + 2) / 3) := by
  cases mode with
  | ecb =>
    simp only [encodedLen, ecbLen, base64FishLen]
    split <;> omega
  | cbc =>
    have hpad : (8 + if plaintextLen % 8 ≠ 0 then plaintextLen + 8 - plaintextLen % 8 else plaintextLen) =
        8 * ((plaintextLen + 7) / 8 + 1) := by
      split <;> omega
    simp only [encodedLen, cbcLen, hpad, base64Len]
    split <;> omega

theorem encodedLen_mono {m n : Nat} (h : m ≤ n) (mode : FishMode) : encodedLen m mode ≤ encodedLen n mode := by
  rw [encodedLen_eq, encodedLen_eq]
  cases mode with
  | ecb => show 12 * _ ≤ 12 * _; omega
  | cbc => show 4 * _ ≤ 4 * _; omega

/-- The search ends at a length that fits, at the latest where one is known to fit. -/
theorem maxTextCommandLen_spec (maxLen : Nat) (mode : FishMode) {len j : Nat} (hj : j ≤ len)
    (hfits : encodedLen j mode ≤ maxLen) :
    ∃ n, maxTextCommandLen maxLen mode len = some n ∧ j ≤ n ∧ encodedLen n mode ≤ maxLen := by
  induction len with
  | zero =>
    obtain rfl := Nat.le_zero.mp hj
    exact ⟨0, if_neg (Nat.not_lt.mpr hfits), Nat.le_refl 0, hfits⟩
  | succ len ih =>
    rw [maxTextCommandLen]
    split
    · next hlong =>
      refine ih ?_
      obtain hlt | rfl := Nat.lt_or_eq_of_le hj
      · exact Nat.le_of_lt_succ hlt
      · exact absurd hfits (Nat.not_le.mpr hlong)
    · next hshort => exact ⟨len + 1, rfl, hj, Nat.not_lt.mp hshort⟩

/-! ## Pieces -/

/-- The loop of `foreach_utf8_data_chunks` over the characters: the length before the limit was passed. -/
def chunkWalk (maxChunkLen : Nat) : Bytes → Nat → Nat → Nat
  | [], _, lastChunkLen => lastChunkLen
  | c :: text, chunkLen, lastChunkLen =>
    if chunkLen ≤ maxChunkLen then
      chunkWalk maxChunkLen ((c :: text).drop (utf8Skip c)) (chunkLen + utf8Skip c) chunkLen
    else lastChunkLen
  termination_by text => text.length
  decreasing_by
    have hskip := (utf8Skip_bounds c).1
    rw [List.length_drop, List.length_cons]
    omega

/-- `foreach_utf8_data_chunks`: the length of the piece, `none` at the end of the text. -/
def foreachUtf8DataChunks (data : Bytes) (maxChunkLen : Nat) : Option Nat :=
  if data = [] then none
  else if data.length ≤ maxChunkLen then some data.length
  else if ¬ Utf8 data then some maxChunkLen
  else some (chunkWalk maxChunkLen data 0 0)

theorem utf8Skip_lead {c : UInt8} {state : Utf8State} (h : utf8Lead c = some state) :
    utf8Skip c = state.owed + 1 ∧ state.owed ≤ 3 := by
  have hb := utf8Lead_cases h
  exact ⟨utf8Skip_of_lead h, by omega⟩

/-- Between two characters, the next one can be passed. -/
theorem utf8_skip {c : UInt8} {text : Bytes} (h : Utf8 (c :: text)) :
    utf8Skip c ≤ 4 ∧ utf8Skip c ≤ (c :: text).length ∧ Utf8 ((c :: text).take (utf8Skip c)) ∧
      Utf8 ((c :: text).drop (utf8Skip c)) := by
  obtain ⟨state, hlead, hlen, htake, hdrop⟩ := h.character
  obtain ⟨hskip, howed⟩ := utf8Skip_lead hlead
  rw [hskip]
  exact ⟨by omega, Nat.succ_le_succ hlen, htake, hdrop⟩

/-- A place that a cut at `n` bytes may use: both sides are texts. -/
def Boundary (data : Bytes) (n : Nat) : Prop := Utf8 (data.take n) ∧ Utf8 (data.drop n)

/-- The walk stops at the last boundary it passed within the limit. -/
theorem chunkWalk_spec (maxChunkLen : Nat) {data : Bytes} (text : Bytes) (chunkLen lastChunkLen : Nat)
    (htext : text = data.drop chunkLen) (hlen : chunkLen ≤ data.length) (hhere : Boundary data chunkLen)
    (hlast : Boundary data lastChunkLen) (hle : lastChunkLen ≤ maxChunkLen) (hmono : lastChunkLen ≤ chunkLen) :
    Boundary data (chunkWalk maxChunkLen text chunkLen lastChunkLen) ∧
      chunkWalk maxChunkLen text chunkLen lastChunkLen ≤ maxChunkLen ∧
      lastChunkLen ≤ chunkWalk maxChunkLen text chunkLen lastChunkLen ∧
      (chunkLen ≤ maxChunkLen → text ≠ [] → chunkLen ≤ chunkWalk maxChunkLen text chunkLen lastChunkLen) := by
  induction text, chunkLen, lastChunkLen using chunkWalk.induct maxChunkLen with
  | case1 chunkLen lastChunkLen =>
    rw [chunkWalk]
    exact ⟨hlast, hle, Nat.le_refl _, fun _ h => absurd rfl h⟩
  | case2 c text chunkLen lastChunkLen hroom ih =>
    obtain ⟨-, hskip, htake, hdrop⟩ := utf8_skip (htext ▸ hhere.2)
    have hnext : (c :: text).drop (utf8Skip c) = data.drop (chunkLen + utf8Skip c) := by
      rw [htext, List.drop_drop]
    have hlen' : chunkLen + utf8Skip c ≤ data.length := by
      rw [htext, List.length_drop] at hskip
      omega
    have hhere' : Boundary data (chunkLen + utf8Skip c) := by
      refine ⟨?_, hnext ▸ hdrop⟩
      rw [List.take_add, ← htext]
      exact hhere.1.append htake
    obtain ⟨hcut, hmax, hlow, -⟩ := ih hnext hlen' hhere' hhere hroom (Nat.le_add_right _ _)
    rw [chunkWalk, if_pos hroom]
    exact ⟨hcut, hmax, Nat.le_trans hmono hlow, fun _ _ => hlow⟩
  | case3 c text chunkLen lastChunkLen hfull =>
    rw [chunkWalk, if_neg hfull]
    exact ⟨hlast, hle, Nat.le_refl _, fun h => absurd h hfull⟩

/-- **The next piece**: not empty, within the limit, and cut between two characters. -/
theorem foreachUtf8DataChunks_spec {maxChunkLen : Nat} (hmax : 4 ≤ maxChunkLen) {data : Bytes} (hne : data ≠ [])
    (hutf8 : Utf8 data) :
    ∃ n, foreachUtf8DataChunks data maxChunkLen = some n ∧ 0 < n ∧ n ≤ maxChunkLen ∧ n ≤ data.length ∧
      Boundary data n := by
  have hpos := List.length_pos_of_ne_nil hne
  rw [foreachUtf8DataChunks, if_neg hne]
  by_cases hshort : data.length ≤ maxChunkLen
  · refine ⟨data.length, if_pos hshort, hpos, hshort, Nat.le_refl _, ?_⟩
    rw [Boundary, List.take_length, List.drop_length]
    exact ⟨hutf8, Utf8.nil⟩
  · rw [if_neg hshort, if_neg (not_not.mpr hutf8)]
    obtain ⟨c, text, rfl⟩ := List.exists_cons_of_ne_nil hne
    obtain ⟨hfour, hskip, htake, hdrop⟩ := utf8_skip hutf8
    have hone := (utf8Skip_bounds c).1
    have hstart : Boundary (c :: text) 0 := ⟨Utf8.nil, hutf8⟩
    -- The first character is within the limit and does not end the text, so the walk comes past it.
    have hrest : (c :: text).drop (utf8Skip c) ≠ [] := by
      intro hnil
      have := List.drop_eq_nil_iff.mp hnil
      omega
    obtain ⟨hcut, hle, -, hlow⟩ := chunkWalk_spec maxChunkLen _ (0 + utf8Skip c) 0
      (by rw [Nat.zero_add]) (by omega) (by rw [Nat.zero_add]; exact ⟨htake, hdrop⟩) hstart (Nat.zero_le _)
      (Nat.zero_le _)
    have hwalk : chunkWalk maxChunkLen (c :: text) 0 0 =
        chunkWalk maxChunkLen ((c :: text).drop (utf8Skip c)) (0 + utf8Skip c) 0 := by
      rw [chunkWalk, if_pos (Nat.zero_le _)]
    rw [hwalk]
    have hreach := hlow (by omega) hrest
    exact ⟨_, rfl, by omega, hle, by omega, hcut⟩

section Nick

variable (bf : Blowfish) (randBytes : Nat → Bytes) (keystoreGetKey : Bytes → Option (Bytes × FishMode))

/-- A piece of the list: in CBC mode with a `*`, and then `(null)` where nothing was encrypted. -/
def listItem (mode : FishMode) (encrypted : Option Bytes) : Option Bytes :=
  match mode with
  | .cbc => some (42 :: encrypted.getD (bytes "(null)"))
  | .ecb => encrypted

/-- The loop of `fish_encrypt_for_nick`, whose `n`-th piece uses the `n`-th random block. -/
def encryptChunks (key : Bytes) (mode : FishMode) (maxChunksLen : Nat) : Nat → Nat → Bytes → Option (List (Option Bytes))
  | 0, _, _ => none
  | fuel + 1, n, data =>
    match foreachUtf8DataChunks data maxChunksLen with
    | none => some []
    | some chunksLen =>
      let encrypted := fishEncrypt bf (randBytes n) key (data.take chunksLen) mode
      (encryptChunks key mode maxChunksLen fuel (n + 1) (data.drop chunksLen)).map (listItem mode encrypted :: ·)

def fishEncryptForNick (nick data : Bytes) (commandLen fuel : Nat) : Option (List (Option Bytes)) :=
  match keystoreGetKey nick with
  | none => some []
  | some (key, mode) =>
    let command := if mode = .cbc then commandLen + 1 else commandLen
    if 510 < command then none
    else
      match maxTextCommandLen (510 - command) mode (510 - command) with
      | none => none
      | some maxChunksLen => encryptChunks bf randBytes key mode maxChunksLen fuel 0 data

def fishDecryptFromNick (nick data : Bytes) : Option Bytes :=
  match keystoreGetKey nick with
  | none => none
  | some (key, mode) => fishDecryptStr bf key (if mode = .cbc then data.drop 1 else data) mode

end Nick

/-! ## Whole messages -/

section Whole

variable {bf : Blowfish} {randBytes : Nat → Bytes} {key : Bytes} {mode : FishMode}

/-- A piece of the list reads back as its part of the text, and has the length the formulas give. -/
theorem listItem_spec (hbf : bf.Inverts) {iv : Bytes} (hiv : iv.length = 8) (hkey : key ≠ []) (mode : FishMode)
    {text : Bytes} (hne : text ≠ []) (hnul : (0 : UInt8) ∉ text) :
    ∃ piece, listItem mode (fishEncrypt bf iv key text mode) = some piece ∧
      piece.length = encodedLen text.length mode + (if mode = .cbc then 1 else 0) ∧
      fishDecryptStr bf key (if mode = .cbc then piece.drop 1 else piece) mode = some text := by
  obtain ⟨encoded, hencoded, hlen, hback⟩ := fishDecryptStr_fishEncrypt hbf hiv hkey hne hnul mode
  rw [hencoded, encodedLen_eq]
  cases mode with
  | ecb => exact ⟨encoded, rfl, hlen, hback⟩
  | cbc => exact ⟨42 :: encoded, rfl, congrArg (· + 1) hlen, hback⟩

/-- The loop ends, and its pieces are those of a text cut between characters. -/
theorem encryptChunks_spec (hbf : bf.Inverts) (hrand : ∀ n, (randBytes n).length = 8) (hkey : key ≠ [])
    (mode : FishMode) {maxChunksLen : Nat} (hmax : 4 ≤ maxChunksLen) {data : Bytes} (hnul : (0 : UInt8) ∉ data)
    (hutf8 : Utf8 data) (n : Nat) :
    ∃ pieces texts : List Bytes,
      (∀ fuel > data.length,
        encryptChunks bf randBytes key mode maxChunksLen fuel n data = some (pieces.map some)) ∧
      (∀ piece ∈ pieces, piece.length ≤ encodedLen maxChunksLen mode + if mode = .cbc then 1 else 0) ∧
      pieces.map (fun piece => fishDecryptStr bf key (if mode = .cbc then piece.drop 1 else piece) mode) =
        texts.map some ∧
      (∀ text ∈ texts, Utf8 text) ∧ texts.flatten = data := by
  -- On the length of the text: every piece takes at least one byte off.
  induction hlen : data.length using Nat.strong_induction_on generalizing data n with
  | _ len ih =>
    subst hlen
    by_cases hne : data = []
    · subst hne
      refine ⟨[], [], ?_, fun _ h => absurd h List.not_mem_nil, rfl, fun _ h => absurd h List.not_mem_nil, rfl⟩
      rintro (_ | fuel) hfuel
      · exact absurd hfuel (Nat.lt_irrefl 0)
      · rfl
    · obtain ⟨chunksLen, hchunk, hpos, hle, hwithin, htake, hdrop⟩ := foreachUtf8DataChunks_spec hmax hne hutf8
      have hsmaller : (data.drop chunksLen).length < data.length := by
        rw [List.length_drop]
        omega
      have htextlen : (data.take chunksLen).length = chunksLen := by
        rw [List.length_take, Nat.min_eq_left hwithin]
      obtain ⟨pieces, texts, hreturn, hfits, hback, hchars, hflat⟩ :=
        ih _ hsmaller (fun h => hnul (List.mem_of_mem_drop h)) hdrop (n + 1) rfl
      have htext : data.take chunksLen ≠ [] := by
        intro h
        rw [h, List.length_nil] at htextlen
        omega
      obtain ⟨piece, hpiece, hplen, hpback⟩ :=
        listItem_spec hbf (hrand n) hkey mode htext fun h => hnul (List.mem_of_mem_take h)
      refine ⟨piece :: pieces, data.take chunksLen :: texts, ?_, ?_, ?_, ?_, ?_⟩
      · rintro (_ | fuel) hfuel
        · exact absurd hfuel (Nat.not_lt_zero _)
        · simp only [encryptChunks, hchunk, hpiece, hreturn fuel (by omega), Option.map_some, List.map_cons]
      · refine List.forall_mem_cons.mpr ⟨?_, hfits⟩
        rw [hplen, htextlen]
        exact Nat.add_le_add_right (encodedLen_mono hle mode) _
      · rw [List.map_cons, List.map_cons, hpback, hback]
      · exact List.forall_mem_cons.mpr ⟨htake, hchars⟩
      · rw [List.flatten_cons, hflat, List.take_append_drop]

/-- The room of one block in ECB mode, and of the `*` and two blocks in CBC mode. -/
def leastRoom : FishMode → Nat
  | .ecb => 12
  | .cbc => 1 + 24

/-- **Encrypted messages arrive whole and fit the line.** -/
theorem messages_whole (hbf : bf.Inverts) (hrand : ∀ n, (randBytes n).length = 8)
    {keystoreGetKey keystoreGetKey' : Bytes → Option (Bytes × FishMode)} {nick nick' : Bytes}
    (hstore : keystoreGetKey nick = some (key, mode)) (hstore' : keystoreGetKey' nick' = some (key, mode))
    (hkey : key ≠ []) {data : Bytes} (hne : data ≠ []) (hnul : (0 : UInt8) ∉ data) (hutf8 : Utf8 data)
    {commandLen : Nat} (hroom : commandLen + leastRoom mode ≤ 510) :
    ∃ pieces texts : List Bytes,
      (∀ fuel > data.length,
        fishEncryptForNick bf randBytes keystoreGetKey nick data commandLen fuel = some (pieces.map some)) ∧
      pieces ≠ [] ∧ (∀ piece ∈ pieces, commandLen + piece.length ≤ 510) ∧
      pieces.map (fishDecryptFromNick bf keystoreGetKey' nick') = texts.map some ∧
      (∀ text ∈ texts, Utf8 text) ∧ texts.flatten = data := by
  obtain ⟨command, hcommand⟩ : ∃ command, command = commandLen + if mode = .cbc then 1 else 0 := ⟨_, rfl⟩
  have hblock : command + encodedLen 8 mode ≤ 510 ∧ 8 ≤ 510 - command := by
    rw [encodedLen_eq, hcommand]
    cases mode with
    | ecb =>
      have hroom : commandLen + 12 ≤ 510 := hroom
      exact ⟨hroom, by show 8 ≤ 510 - commandLen; omega⟩
    | cbc =>
      have hroom : commandLen + 25 ≤ 510 := hroom
      exact ⟨hroom, by show 8 ≤ 510 - (commandLen + 1); omega⟩
  obtain ⟨maxChunksLen, hsearch, hmax, hfit⟩ :=
    maxTextCommandLen_spec (510 - command) mode hblock.2 (by omega)
  obtain ⟨pieces, texts, hreturn, hfits, hback, hchars, hflat⟩ :=
    encryptChunks_spec hbf hrand hkey mode (Nat.le_trans (by decide) hmax) hnul hutf8 0
  refine ⟨pieces, texts, ?_, ?_, ?_, ?_, hchars, hflat⟩
  · intro fuel hfuel
    have hadd : (if mode = .cbc then commandLen + 1 else commandLen) = command := by
      rw [hcommand]
      split <;> rfl
    simp only [fishEncryptForNick, hstore, hadd, if_neg (show ¬ 510 < command by omega), hsearch]
    exact hreturn fuel hfuel
  · rintro rfl
    rw [List.map_nil, eq_comm, List.map_eq_nil_iff] at hback
    rw [hback] at hflat
    exact hne hflat.symm
  · intro piece hpiece
    have := hfits piece hpiece
    omega
  · have hread : fishDecryptFromNick bf keystoreGetKey' nick' =
        fun piece => fishDecryptStr bf key (if mode = .cbc then piece.drop 1 else piece) mode := by
      funext piece
      simp only [fishDecryptFromNick, hstore']
    rw [hread, hback]

end Whole

/-- Blowfish as far as one key and one block go: the published test vector for `abcdefghijklmnopqrstuvwxyz` and
`BLOWFISH`, and no change elsewhere. -/
def blowfishVector : Blowfish where
  encrypt := fun key block =>
    if key = bytes "abcdefghijklmnopqrstuvwxyz" then
      Equiv.swap (bytes "BLOWFISH") [0x32, 0x4E, 0xD0, 0xFE, 0xF4, 0x13, 0xA2, 0x03] block
    else block
  decrypt := fun key block =>
    if key = bytes "abcdefghijklmnopqrstuvwxyz" then
      Equiv.swap (bytes "BLOWFISH") [0x32, 0x4E, 0xD0, 0xFE, 0xF4, 0x13, 0xA2, 0x03] block
    else block

theorem blowfishVector_inverts : blowfishVector.Inverts where
  length_encrypt := by
    intro key block hblock
    have hlens : (bytes "BLOWFISH").length = 8 := by decide
    simp only [blowfishVector, Equiv.swap_apply_def]
    split_ifs
    · rfl
    · exact hlens
    · exact hblock
    · exact hblock
  decrypt_encrypt := by
    intro key block hblock
    simp only [blowfishVector]
    split_ifs
    · exact Equiv.swap_apply_self _ _ block
    · rfl

theorem blowfish_message_whole :
    ∃ pieces texts : List Bytes,
      (∀ fuel > (bytes "BLOWFISH").length, fishEncryptForNick blowfishVector (fun _ => List.replicate 8 7)
        (fun _ => some (bytes "abcdefghijklmnopqrstuvwxyz", .ecb)) (bytes "ann") (bytes "BLOWFISH") 20 fuel =
          some (pieces.map some)) ∧
      pieces ≠ [] ∧ (∀ piece ∈ pieces, 20 + piece.length ≤ 510) ∧
      pieces.map (fishDecryptFromNick blowfishVector (fun _ => some (bytes "abcdefghijklmnopqrstuvwxyz", .ecb))
        (bytes "bob")) = texts.map some ∧
      (∀ text ∈ texts, Utf8 text) ∧ texts.flatten = bytes "BLOWFISH" :=
  messages_whole blowfishVector_inverts (fun _ => rfl) rfl rfl (by decide) (by decide) (by decide)
    (by decide) (by decide)

end PoxChat.Fishlim
