import Mathlib.Data.Nat.Digits.Lemmas
import PoxChat.Fishlim.Cipher
import PoxChat.Lib.Table

/-!
# The DH1080 key exchange

`/KEYX` sends a public key with `DH1080_INIT`, the peer answers with its own in `DH1080_FINISH`, and both store the hash
of the shared number as the key of the other.

* `bnBin2bn`, `bnBn2bin`, `bnModExp`, `evpPkeyDerive` — the big numbers of the crypto library, taken as exact.
* `dh1080EncodeB64`, `dh1080DecodeB64` — base64 without padding, and with an `A` where there is none to leave out.
* `Plugin` — the keys that wait for an answer, and what was stored, the last first.
* `keyExchange` — a whole exchange, where the server puts the sender before a notice.

Principal result: `completed_iff` — an exchange completes if and only if both public numbers have 135 bytes and neither
they nor the shared number is one of the refused ones.
-/

set_option autoImplicit false

namespace PoxChat.Fishlim

open Lib Outbound

/-! ## Numbers and texts -/

def bnBin2bn (bin : Bytes) : Nat := bin.foldl (fun n b => n * 256 + b.toNat) 0

/-- Big-endian, without leading zeros. -/
def bnBn2bin (n : Nat) : Bytes := ((Nat.digits 256 n).map Nat.toUInt8).reverse

def bnModExp (base e m : Nat) : Nat := base ^ e % m

def prime1080 : Bytes := [
  0xFB, 0xE1, 0x02, 0x2E, 0x23, 0xD2, 0x13, 0xE8, 0xAC, 0xFA, 0x9A, 0xE8, 0xB9, 0xDF, 0xAD, 0xA3, 0xEA,
  0x6B, 0x7A, 0xC7, 0xA7, 0xB7, 0xE9, 0x5A, 0xB5, 0xEB, 0x2D, 0xF8, 0x58, 0x92, 0x1F, 0xEA, 0xDE, 0x95,
  0xE6, 0xAC, 0x7B, 0xE7, 0xDE, 0x6A, 0xDB, 0xAB, 0x8A, 0x78, 0x3E, 0x7A, 0xF7, 0xA7, 0xFA, 0x6A, 0x2B,
  0x7B, 0xEB, 0x1E, 0x72, 0xEA, 0xE2, 0xB7, 0x2F, 0x9F, 0xA2, 0xBF, 0xB2, 0xA2, 0xEF, 0xBE, 0xFA, 0xC8,
  0x68, 0xBA, 0xDB, 0x3E, 0x82, 0x8F, 0xA8, 0xBA, 0xDF, 0xAD, 0xA3, 0xE4, 0xCC, 0x1B, 0xE7, 0xE8, 0xAF,
  0xE8, 0x5E, 0x96, 0x98, 0xA7, 0x83, 0xEB, 0x68, 0xFA, 0x07, 0xA7, 0x7A, 0xB6, 0xAD, 0x7B, 0xEB, 0x61,
  0x8A, 0xCF, 0x9C, 0xA2, 0x89, 0x7E, 0xB2, 0x8A, 0x61, 0x89, 0xEF, 0xA0, 0x7A, 0xB9, 0x9A, 0x8A, 0x7F,
  0xA9, 0xAE, 0x29, 0x9E, 0xFA, 0x7B, 0xA6, 0x6D, 0xEA, 0xFE, 0xFB, 0xEF, 0xBF, 0x0B, 0x7D, 0x8B]

def gPrime : Nat := bnBin2bn prime1080

def gGenerator : Nat := 2

def dh1080VerifyPubKey (pubKey : Nat) : Bool := 1 < pubKey && pubKey < gPrime - 1

def dh1080DecodeB64 (data : Bytes) : Bytes :=
  let str := if data.length % 4 = 1 ∧ data.getLast? = some 65 then data.dropLast else data
  base64Decode (str ++ List.replicate ((4 - str.length % 4) % 4) 61)

def dh1080EncodeB64 (data : Bytes) : Bytes :=
  let ret := base64Encode data
  if 61 ∈ ret then ret.takeWhile (· ≠ 61) else ret ++ [65]

/-- `dh1080_generate_key` for the private number that the library draws: the texts of both keys. -/
def dh1080GenerateKey (priv : Nat) : Bytes × Bytes :=
  (dh1080EncodeB64 (bnBn2bin priv), dh1080EncodeB64 (bnBn2bin (bnModExp gGenerator priv gPrime)))

/-- `EVP_PKEY_derive`: the shared number without leading zeros, and none for 0, 1 and `p - 1`. -/
def evpPkeyDerive (priv pub : Nat) : Option Bytes :=
  let z := bnModExp pub priv gPrime
  if z ≤ 1 ∨ z = gPrime - 1 then none else some (bnBn2bin z)

/-- `strspn (text, B64ABC) == strlen (text)`. -/
def isB64abc (text : Bytes) : Bool := text.all fun c => isBase64 c && c != 61

theorem bnBin2bn_bnBn2bin (n : Nat) : bnBin2bn (bnBn2bin n) = n := by
  have hdigits : ∀ digits : List Nat, (∀ d ∈ digits, d < 256) →
      bnBin2bn (digits.map Nat.toUInt8).reverse = Nat.ofDigits 256 digits := by
    intro digits
    induction digits with
    | nil => exact fun _ => rfl
    | cons d digits ih =>
      intro hlt
      obtain ⟨hd, hrest⟩ := List.forall_mem_cons.mp hlt
      have hval : d.toUInt8.toNat = d := by
        rw [Nat.toUInt8_eq, UInt8.toNat_ofNat']
        omega
      have ih := ih hrest
      rw [bnBin2bn] at ih
      rw [bnBin2bn, List.map_cons, List.reverse_cons, List.foldl_append, ih, List.foldl_cons, List.foldl_nil, hval,
        Nat.ofDigits_cons]
      omega
  rw [bnBn2bin, hdigits _ fun d hd => Nat.digits_lt_base (by decide) hd, Nat.ofDigits_digits]

theorem length_bnBn2bin_le_iff (n k : Nat) : (bnBn2bin n).length ≤ k ↔ n < 256 ^ k := by
  rw [bnBn2bin, List.length_reverse, List.length_map, Nat.digits_length_le_iff (by decide)]

/-- The text is the encoding up to the padding, or the encoding and an `A`, and decodes to what it was made from. -/
theorem dh1080EncodeB64_spec (data : Bytes) :
    (dh1080EncodeB64 data).length = 4 * (data.length / 3) + data.length % 3 + 1 ∧
      isB64abc (dh1080EncodeB64 data) = true ∧ dh1080DecodeB64 (dh1080EncodeB64 data) = data := by
  obtain ⟨stripped, henc, hnot⟩ := base64Encode_padding data
  have hlen := length_base64Encode data
  have hmem := mem_base64Encode data
  have hdec := base64Decode_base64Encode data
  have habc : isB64abc stripped = true := by
    refine List.all_eq_true.mpr fun c hc => ?_
    rw [hmem c (by rw [henc]; exact List.mem_append_left _ hc), Bool.true_and, bne_iff_ne]
    exact fun h => hnot (h ▸ hc)
  rw [henc, List.length_append, List.length_replicate] at hlen
  rw [henc] at hdec
  simp only [dh1080EncodeB64, henc]
  by_cases hzero : data.length % 3 = 0
  · -- Without padding the `A` makes the length one more than a multiple of four.
    have hpad : (3 - data.length % 3) % 3 = 0 := by rw [hzero]
    rw [hpad, List.replicate_zero, List.append_nil] at hdec ⊢
    rw [hpad] at hlen
    have hlast : (stripped ++ [65]).getLast? = some 65 := List.getLast?_concat
    have hmod : (stripped ++ [65]).length % 4 = 1 := by
      rw [List.length_append, List.length_singleton]
      omega
    have hfour : (4 - stripped.length % 4) % 4 = 0 := by omega
    rw [if_neg hnot]
    refine ⟨?_, ?_, ?_⟩
    · rw [List.length_append, List.length_singleton]
      omega
    · rw [isB64abc, List.all_append, ← isB64abc, habc]
      rfl
    · simp only [dh1080DecodeB64, hmod, hlast, and_self, if_true, List.dropLast_concat, hfour, List.replicate_zero,
        List.append_nil, hdec]
  · obtain ⟨pad, hpad⟩ : ∃ pad, (3 - data.length % 3) % 3 = pad + 1 := ⟨(3 - data.length % 3) % 3 - 1, by omega⟩
    rw [hpad] at hlen
    have hin : (61 : UInt8) ∈ stripped ++ List.replicate (pad + 1) 61 :=
      List.mem_append_right _ (List.mem_replicate.mpr ⟨by omega, rfl⟩)
    have htake : (stripped ++ List.replicate (pad + 1) 61).takeWhile (· ≠ 61) = stripped := by
      rw [List.takeWhile_append_of_pos fun c hc => by simpa using fun h : c = 61 => hnot (h ▸ hc),
        List.replicate_succ, List.takeWhile_cons_of_neg (by simp), List.append_nil]
    have hmod : ¬ (stripped.length % 4 = 1 ∧ stripped.getLast? = some 65) := by omega
    have hfour : (4 - stripped.length % 4) % 4 = pad + 1 := by omega
    rw [hpad] at hdec ⊢
    rw [if_pos hin, htake]
    refine ⟨by omega, habc, ?_⟩
    simp only [dh1080DecodeB64, if_neg hmod, hfour, hdec]

section Plugin

variable (sha256 : Bytes → Bytes)

def dh1080ComputeKey (privKey pubKey : Bytes) : Option Bytes :=
  if !isB64abc privKey || !isB64abc pubKey then none
  else
    let peer := bnBin2bn (dh1080DecodeB64 pubKey)
    let priv := bnBin2bn (dh1080DecodeB64 privKey)
    if !dh1080VerifyPubKey peer then none
    else (evpPkeyDerive priv peer).map fun shared => dh1080EncodeB64 (sha256 shared)

/-! ## The plugin -/

structure Plugin where
  pendingExchanges : Table Bytes Bytes
  stored : List (Bytes × Bytes × FishMode)

/-- A notice the plugin sends, as the words of its text. -/
structure Notice where
  target : Bytes
  words : List Bytes

/-- What the client tells about its tabs on the network. -/
structure Tabs where
  /-- The type of the tab with a name. -/
  typeOf : Bytes → Option Nat
  channel : Bytes
  channelType : Nat
  chantypes : Bytes

def ircIsQuery (tabs : Tabs) (name : Bytes) : Bool :=
  match name.head? with
  | none => false
  | some c => !tabs.chantypes.contains c

def gAsciiStrdown (str : Bytes) : Bytes := str.map asciiTolower

/-- Whom `/KEYX` is for, if that is a person. -/
def keyxTarget (tabs : Tabs) (word2 : Bytes) : Option Bytes :=
  let target := if word2 ≠ [] then word2 else tabs.channel
  match (if word2 ≠ [] then tabs.typeOf word2 else some tabs.channelType) with
  | some type => if type = 3 then some target else none
  | none => if ircIsQuery tabs target then some target else none

def handleKeyx (tabs : Tabs) (priv : Nat) (word2 : Bytes) (plug : Plugin) : Plugin × Option Notice :=
  match keyxTarget tabs word2 with
  | none => (plug, none)
  | some target =>
    let (privKey, pubKey) := dh1080GenerateKey priv
    ({ plug with pendingExchanges := plug.pendingExchanges.put (gAsciiStrdown target) privKey },
      some ⟨target, [bytes ":DH1080_INIT", pubKey, bytes "CBC"]⟩)

/-- `irc_parse_message` for the sender alone. -/
def messageSource (word : List Bytes) : Option Bytes :=
  match word.getD 1 [] with
  | 58 :: rest => if word.getD 2 [] = [] then none else some rest
  | _ => none

def ircPrefixGetNick (source : Bytes) : Bytes := source.takeWhile fun c => c ≠ 33 && c ≠ 64

structure NoticeResult where
  plug : Plugin
  sent : Option Notice
  /-- `POXCHAT_EAT_ALL`. -/
  eaten : Bool

/-- The end of `handle_keyx_notice`: the key for `sender` is computed and stored. -/
def storeComputed (sender privKey pubKey : Bytes) (mode : FishMode) (plug : Plugin) : Plugin :=
  match dh1080ComputeKey sha256 privKey pubKey with
  | some secretKey => { plug with stored := (sender, secretKey, mode) :: plug.stored }
  | none => plug

/-- `handle_keyx_notice`, which draws `priv` if it has to answer. -/
def handleKeyxNotice (priv : Nat) (word : List Bytes) (plug : Plugin) : NoticeResult :=
  let dhMessage := word.getD 4 []
  let dhPubkey := word.getD 5 []
  if dhMessage = [] ∨ dhPubkey = [] ∨ dhPubkey.length ≠ 181 then ⟨plug, none, false⟩
  else
    match messageSource word with
    | none => ⟨plug, none, false⟩
    | some source =>
      let sender := ircPrefixGetNick source
      let mode := if word.getD 6 [] = bytes "CBC" then .cbc else .ecb
      if dhMessage.drop 1 = bytes "DH1080_INIT" then
        let (privKey, pubKey) := dh1080GenerateKey priv
        let words := [bytes ":DH1080_FINISH", pubKey] ++ if mode = .cbc then [bytes "CBC"] else []
        ⟨storeComputed sha256 sender privKey dhPubkey mode plug, some ⟨sender, words⟩, true⟩
      else if dhMessage.drop 1 = bytes "DH1080_FINISH" then
        let senderLower := gAsciiStrdown sender
        let left := { plug with
          pendingExchanges := plug.pendingExchanges.restrict fun nick => nick ≠ senderLower }
        match plug.pendingExchanges.get senderLower with
        | none => ⟨left, none, true⟩
        | some privKey => ⟨storeComputed sha256 sender privKey dhPubkey mode left, none, true⟩
      else ⟨plug, none, false⟩

/-! ## An exchange -/

structure Person where
  nick : Bytes
  userhost : Bytes
  /-- A nick has no `!` and no `@`. -/
  unmarked : ∀ c ∈ nick, c ≠ 33 ∧ c ≠ 64

/-- The words of a notice as the server passes it on. -/
def relayed (sender : Person) (notice : Notice) : List Bytes :=
  [[], 58 :: (sender.nick ++ 33 :: sender.userhost), bytes "NOTICE", notice.target] ++ notice.words

/-- `/KEYX` of the first person for the second, the notice to the second, and the answer to the first. -/
def keyExchange (tabs : Tabs) (word2 : Bytes) (first second : Person) (a b : Nat) (plug plug' : Plugin) :
    Plugin × Plugin :=
  match handleKeyx tabs a word2 plug with
  | (plug, none) => (plug, plug')
  | (plug, some init) =>
    let answer := handleKeyxNotice sha256 b (relayed first init) plug'
    match answer.sent with
    | none => (plug, answer.plug)
    | some finish => ((handleKeyxNotice sha256 0 (relayed second finish) plug).plug, answer.plug)

/-- The numbers and the texts agree, and both persons have stored one key for each other. -/
def Completed (tabs : Tabs) (word2 : Bytes) (first second : Person) (a b : Nat) (plug plug' : Plugin) : Prop :=
  (∀ x, x = a ∨ x = b → bnBin2bn (dh1080DecodeB64 (dh1080GenerateKey x).2) = gGenerator ^ x % gPrime) ∧
  ∃ secretKey,
    (keyExchange sha256 tabs word2 first second a b plug plug').1.stored = (second.nick, secretKey, .cbc) :: plug.stored ∧
    (keyExchange sha256 tabs word2 first second a b plug plug').2.stored = (first.nick, secretKey, .cbc) :: plug'.stored

/-! ## Whether it completes -/

theorem gPrime_bounds : 0 < gPrime ∧ gPrime < 256 ^ 135 := by decide +kernel

theorem public_decoded (x : Nat) :
    bnBin2bn (dh1080DecodeB64 (dh1080GenerateKey x).2) = gGenerator ^ x % gPrime := by
  rw [dh1080GenerateKey, (dh1080EncodeB64_spec _).2.2, bnBin2bn_bnBn2bin, bnModExp]

/-- The text of a public key has the length that is asked for if and only if the number has all its bytes. -/
theorem length_public_iff (x : Nat) :
    (dh1080GenerateKey x).2.length = 181 ↔ 256 ^ 134 ≤ gGenerator ^ x % gPrime := by
  have hle : (bnBn2bin (gGenerator ^ x % gPrime)).length ≤ 135 :=
    (length_bnBn2bin_le_iff _ _).mpr (Nat.lt_trans (Nat.mod_lt _ gPrime_bounds.1) gPrime_bounds.2)
  have hiff := length_bnBn2bin_le_iff (gGenerator ^ x % gPrime) 134
  rw [dh1080GenerateKey, (dh1080EncodeB64_spec _).1, bnModExp, ← Nat.not_lt, ← hiff]
  omega

/-- A key is computed for every accepted public number, and it is the same on both sides. -/
theorem dh1080ComputeKey_eq (a b : Nat) :
    dh1080ComputeKey sha256 (dh1080GenerateKey a).1 (dh1080GenerateKey b).2 =
      if dh1080VerifyPubKey (gGenerator ^ b % gPrime) then
        (if gGenerator ^ (a * b) % gPrime ≤ 1 ∨ gGenerator ^ (a * b) % gPrime = gPrime - 1 then none
          else some (dh1080EncodeB64 (sha256 (bnBn2bin (gGenerator ^ (a * b) % gPrime)))))
      else none := by
  have hpriv : bnBin2bn (dh1080DecodeB64 (dh1080GenerateKey a).1) = a := by
    rw [dh1080GenerateKey, (dh1080EncodeB64_spec _).2.2, bnBin2bn_bnBn2bin]
  have hchars : (!isB64abc (dh1080GenerateKey a).1 || !isB64abc (dh1080GenerateKey b).2) = false := by
    rw [dh1080GenerateKey, dh1080GenerateKey, (dh1080EncodeB64_spec _).2.1, (dh1080EncodeB64_spec _).2.1]
    rfl
  have hshared : bnModExp (gGenerator ^ b % gPrime) a gPrime = gGenerator ^ (a * b) % gPrime := by
    rw [bnModExp, ← Nat.pow_mod, ← Nat.pow_mul, Nat.mul_comm]
  simp only [dh1080ComputeKey, hchars, Bool.false_eq_true, if_false, public_decoded, hpriv, evpPkeyDerive, hshared]
  cases dh1080VerifyPubKey (gGenerator ^ b % gPrime) with
  | false => rfl
  | true =>
    simp only [Bool.not_true, Bool.false_eq_true, if_false, if_true]
    split <;> rfl

theorem ircPrefixGetNick_relayed (person : Person) :
    ircPrefixGetNick (person.nick ++ 33 :: person.userhost) = person.nick := by
  rw [ircPrefixGetNick, List.takeWhile_append_of_pos, List.takeWhile_cons_of_neg (by decide), List.append_nil]
  intro c hc
  simpa using person.unmarked c hc

theorem messageSource_relayed (person : Person) (notice : Notice) :
    messageSource (relayed person notice) = some (person.nick ++ 33 :: person.userhost) := by
  have hnotice : bytes "NOTICE" ≠ [] := by decide
  show (if bytes "NOTICE" = [] then none else some (person.nick ++ 33 :: person.userhost)) = _
  rw [if_neg hnotice]

section Notices

variable (person : Person) (target pubKey : Bytes) (plug : Plugin)

theorem handleKeyxNotice_init (b : Nat) :
    handleKeyxNotice sha256 b (relayed person ⟨target, [bytes ":DH1080_INIT", pubKey, bytes "CBC"]⟩) plug =
      if pubKey.length = 181 then
        ⟨storeComputed sha256 person.nick (dh1080GenerateKey b).1 pubKey .cbc plug,
          some ⟨person.nick, [bytes ":DH1080_FINISH", (dh1080GenerateKey b).2, bytes "CBC"]⟩, true⟩
      else ⟨plug, none, false⟩ := by
  have hmessage : bytes ":DH1080_INIT" ≠ [] ∧ (bytes ":DH1080_INIT").drop 1 = bytes "DH1080_INIT" := by decide
  by_cases hlen : pubKey.length = 181
  · have hne : pubKey ≠ [] := by
      rintro rfl
      cases hlen
    have hok : ¬ (bytes ":DH1080_INIT" = [] ∨ pubKey = [] ∨ pubKey.length ≠ 181) := by
      simp [hmessage.1, hne, hlen]
    rw [if_pos hlen, handleKeyxNotice, messageSource_relayed]
    simp only [relayed, List.cons_append, List.nil_append, List.getD_cons_succ, List.getD_cons_zero, if_neg hok,
      hmessage.2, if_true, ircPrefixGetNick_relayed]
  · rw [if_neg hlen]
    exact if_pos (Or.inr (Or.inr hlen))

theorem handleKeyxNotice_finish (x : Nat) :
    handleKeyxNotice sha256 x (relayed person ⟨target, [bytes ":DH1080_FINISH", pubKey, bytes "CBC"]⟩) plug =
      if pubKey.length = 181 then
        let left := { plug with
          pendingExchanges := plug.pendingExchanges.restrict fun nick => nick ≠ gAsciiStrdown person.nick }
        match plug.pendingExchanges.get (gAsciiStrdown person.nick) with
        | none => ⟨left, none, true⟩
        | some privKey => ⟨storeComputed sha256 person.nick privKey pubKey .cbc left, none, true⟩
      else ⟨plug, none, false⟩ := by
  have hmessage : bytes ":DH1080_FINISH" ≠ [] ∧ (bytes ":DH1080_FINISH").drop 1 = bytes "DH1080_FINISH" ∧
      bytes "DH1080_FINISH" ≠ bytes "DH1080_INIT" := by decide
  by_cases hlen : pubKey.length = 181
  · have hne : pubKey ≠ [] := by
      rintro rfl
      cases hlen
    have hok : ¬ (bytes ":DH1080_FINISH" = [] ∨ pubKey = [] ∨ pubKey.length ≠ 181) := by
      simp [hmessage.1, hne, hlen]
    rw [if_pos hlen, handleKeyxNotice, messageSource_relayed]
    simp only [relayed, List.cons_append, List.nil_append, List.getD_cons_succ, List.getD_cons_zero, if_neg hok,
      hmessage.2.1, if_neg hmessage.2.2, if_true, ircPrefixGetNick_relayed]
  · rw [if_neg hlen]
    exact if_pos (Or.inr (Or.inr hlen))

end Notices

variable {sha256} {tabs : Tabs} {word2 target : Bytes} {first second : Person} {a b : Nat} {plug plug' : Plugin}

theorem stored_storeComputed (sender privKey pubKey : Bytes) (mode : FishMode) (plug : Plugin) :
    (storeComputed sha256 sender privKey pubKey mode plug).stored =
      ((dh1080ComputeKey sha256 privKey pubKey).map fun secretKey => (sender, secretKey, mode)).toList ++ plug.stored := by
  rw [storeComputed]
  cases dh1080ComputeKey sha256 privKey pubKey with
  | none => rfl
  | some secretKey => rfl

/-- What the second person stores depends on the first public key alone. -/
theorem stored_second (htarget : keyxTarget tabs word2 = some target) :
    (keyExchange sha256 tabs word2 first second a b plug plug').2.stored =
      if (dh1080GenerateKey a).2.length = 181 then
        ((dh1080ComputeKey sha256 (dh1080GenerateKey b).1 (dh1080GenerateKey a).2).map
          fun secretKey => (first.nick, secretKey, FishMode.cbc)).toList ++ plug'.stored
      else plug'.stored := by
  simp only [keyExchange, handleKeyx, htarget, handleKeyxNotice_init]
  by_cases hlen : (dh1080GenerateKey a).2.length = 181
  · rw [if_pos hlen, if_pos hlen]
    exact stored_storeComputed ..
  · rw [if_neg hlen, if_neg hlen]

/-- The first person finds the key that waits for the answer, whatever the case of the nick. -/
theorem stored_first (htarget : keyxTarget tabs word2 = some target)
    (hnick : gAsciiStrdown target = gAsciiStrdown second.nick) :
    (keyExchange sha256 tabs word2 first second a b plug plug').1.stored =
      if (dh1080GenerateKey a).2.length = 181 ∧ (dh1080GenerateKey b).2.length = 181 then
        ((dh1080ComputeKey sha256 (dh1080GenerateKey a).1 (dh1080GenerateKey b).2).map
          fun secretKey => (second.nick, secretKey, FishMode.cbc)).toList ++ plug.stored
      else plug.stored := by
  simp only [keyExchange, handleKeyx, htarget, handleKeyxNotice_init]
  by_cases hlen : (dh1080GenerateKey a).2.length = 181
  · simp only [if_pos hlen, handleKeyxNotice_finish]
    by_cases hlen' : (dh1080GenerateKey b).2.length = 181
    · rw [if_pos hlen', if_pos ⟨hlen, hlen'⟩]
      simp only [← hnick, Table.get_put_self]
      exact stored_storeComputed ..
    · rw [if_neg hlen', if_neg fun h => hlen' h.2]
  · simp only [if_neg hlen]
    rw [if_neg fun h => hlen h.1]

theorem dh1080VerifyPubKey_iff (pubKey : Nat) :
    dh1080VerifyPubKey pubKey = true ↔ 1 < pubKey ∧ pubKey < gPrime - 1 := by
  rw [dh1080VerifyPubKey, Bool.and_eq_true, decide_eq_true_iff, decide_eq_true_iff]

/-- An answer that is not taken leaves nothing. -/
theorem not_completed_of_short (htarget : keyxTarget tabs word2 = some target)
    (hshort : gGenerator ^ a % gPrime < 256 ^ 134) :
    ¬ Completed sha256 tabs word2 first second a b plug plug' := by
  rintro ⟨-, secretKey, -, hsecond⟩
  have hlen : (dh1080GenerateKey a).2.length ≠ 181 := fun h =>
    Nat.not_lt.mpr ((length_public_iff a).mp h) hshort
  rw [stored_second htarget, if_neg hlen] at hsecond
  exact List.cons_ne_self _ _ hsecond.symm

/-- **The exchange completes** if and only if both public numbers have all 135 bytes and are not `p - 1`, and the shared
number is none of 0, 1 and `p - 1`. -/
theorem completed_iff (htarget : keyxTarget tabs word2 = some target)
    (hnick : gAsciiStrdown target = gAsciiStrdown second.nick) :
    Completed sha256 tabs word2 first second a b plug plug' ↔
      (∀ x, x = a ∨ x = b → 256 ^ 134 ≤ gGenerator ^ x % gPrime ∧ gGenerator ^ x % gPrime < gPrime - 1) ∧
        1 < gGenerator ^ (a * b) % gPrime ∧ gGenerator ^ (a * b) % gPrime ≠ gPrime - 1 := by
  have hlarge : (1 : Nat) < 256 ^ 134 := by decide
  rw [Completed, stored_first htarget hnick, stored_second htarget, dh1080ComputeKey_eq, dh1080ComputeKey_eq,
    Nat.mul_comm b a]
  obtain ⟨za, hza⟩ : ∃ z, z = gGenerator ^ a % gPrime := ⟨_, rfl⟩
  obtain ⟨zb, hzb⟩ : ∃ z, z = gGenerator ^ b % gPrime := ⟨_, rfl⟩
  obtain ⟨z, hz⟩ : ∃ z, z = gGenerator ^ (a * b) % gPrime := ⟨_, rfl⟩
  have hlena := length_public_iff a
  have hlenb := length_public_iff b
  rw [← hza] at hlena
  rw [← hzb] at hlenb
  rw [← hza, ← hzb, ← hz]
  constructor
  · rintro ⟨-, secretKey, hfirst, hsecond⟩
    split at hfirst
    · next hlens =>
      rw [if_pos hlens.1] at hsecond
      have hverify : dh1080VerifyPubKey za = true ∧ dh1080VerifyPubKey zb = true := by
        constructor
        · by_contra h
          rw [if_neg h] at hsecond
          exact List.cons_ne_self _ _ hsecond.symm
        · by_contra h
          rw [if_neg h] at hfirst
          exact List.cons_ne_self _ _ hfirst.symm
      have hshared : ¬ (z ≤ 1 ∨ z = gPrime - 1) := by
        intro h
        rw [if_pos hverify.1, if_pos h] at hsecond
        exact List.cons_ne_self _ _ hsecond.symm
      refine ⟨?_, Nat.not_le.mp fun h => hshared (.inl h), fun h => hshared (.inr h)⟩
      rintro x (rfl | rfl)
      · rw [← hza]
        exact ⟨hlena.mp hlens.1, ((dh1080VerifyPubKey_iff za).mp hverify.1).2⟩
      · rw [← hzb]
        exact ⟨hlenb.mp hlens.2, ((dh1080VerifyPubKey_iff zb).mp hverify.2).2⟩
    · exact absurd hfirst.symm (List.cons_ne_self _ _)
  · rintro ⟨hpublic, hlow, hhigh⟩
    have ha := hpublic a (.inl rfl)
    have hb := hpublic b (.inr rfl)
    rw [← hza] at ha
    rw [← hzb] at hb
    have hva := (dh1080VerifyPubKey_iff za).mpr ⟨Nat.lt_of_lt_of_le hlarge ha.1, ha.2⟩
    have hvb := (dh1080VerifyPubKey_iff zb).mpr ⟨Nat.lt_of_lt_of_le hlarge hb.1, hb.2⟩
    have hshared : ¬ (z ≤ 1 ∨ z = gPrime - 1) := fun h => h.elim (Nat.not_le.mpr hlow) hhigh
    refine ⟨fun x _ => public_decoded x, dh1080EncodeB64 (sha256 (bnBn2bin z)), ?_, ?_⟩
    · rw [if_pos ⟨hlena.mpr ha.1, hlenb.mpr hb.1⟩, if_pos hvb, if_neg hshared]
      rfl
    · rw [if_pos (hlena.mpr ha.1), if_pos hva, if_neg hshared]
      rfl

end Plugin

/-! ## Two exchanges -/

/-- `v` squared `k` times. -/
def squarings (m : Nat) : Nat → Nat → Nat
  | 0, v => v % m
  | k + 1, v => squarings m k v * squarings m k v % m

theorem squarings_eq (m k v : Nat) : squarings m k v = v ^ 2 ^ k % m := by
  induction k with
  | zero => rw [squarings, Nat.pow_zero, Nat.pow_one]
  | succ k ih => rw [squarings, ih, ← Nat.mul_mod, ← Nat.pow_add, ← Nat.two_mul, ← Nat.pow_succ']

/-- The power with an exponent a little above a power of two. -/
theorem pow_mod_eq (m k c v : Nat) : v ^ (2 ^ k + c) % m = squarings m k v * v ^ c % m := by
  rw [squarings_eq, Nat.pow_add, Nat.mod_mul_mod]

def ann : Person := ⟨bytes "Ann", bytes "a@home", by decide +kernel⟩

def bob : Person := ⟨bytes "Bob", bytes "b@home", by decide +kernel⟩

/-- A network without open queries, seen from its server tab. -/
def noQueries : Tabs where
  typeOf := fun _ => none
  channel := bytes "irc.example.net"
  channelType := 1
  chantypes := bytes "#&"

/-- The digest of the number that `2 ^ 1077` and `2 ^ 1077 + 2` share. -/
def sharedDigest : Bytes := [
  185, 241, 72, 93, 108, 251, 68, 149, 142, 199, 196, 226, 247, 25, 89, 51, 210, 200, 215, 179, 117, 68, 238, 225,
  36, 84, 184, 137, 202, 145, 227, 124]

theorem keyxTarget_bob : keyxTarget noQueries (bytes "bob") = some (bytes "bob") := by decide +kernel

/-- The condition on a public number, where it can be computed. -/
theorem public_of_squarings (k c : Nat) {x : Nat} (hx : x = 2 ^ k + c)
    (hlow : 256 ^ 134 ≤ squarings gPrime k gGenerator * gGenerator ^ c % gPrime)
    (hhigh : squarings gPrime k gGenerator * gGenerator ^ c % gPrime < gPrime - 1) :
    256 ^ 134 ≤ gGenerator ^ x % gPrime ∧ gGenerator ^ x % gPrime < gPrime - 1 := by
  rw [hx, pow_mod_eq]
  exact ⟨hlow, hhigh⟩

/-- The same for the shared number. -/
theorem shared_of_squarings (k c : Nat)
    (hlow : 1 < squarings gPrime k (squarings gPrime k gGenerator * gGenerator ^ c % gPrime))
    (hhigh : squarings gPrime k (squarings gPrime k gGenerator * gGenerator ^ c % gPrime) ≠ gPrime - 1) :
    1 < gGenerator ^ (2 ^ k * (2 ^ k + c)) % gPrime ∧ gGenerator ^ (2 ^ k * (2 ^ k + c)) % gPrime ≠ gPrime - 1 := by
  have hshared : gGenerator ^ (2 ^ k * (2 ^ k + c)) % gPrime =
      squarings gPrime k (squarings gPrime k gGenerator * gGenerator ^ c % gPrime) := by
    rw [Nat.mul_comm, Nat.pow_mul, Nat.pow_mod, pow_mod_eq, squarings_eq gPrime k (_ % _)]
  rw [hshared]
  exact ⟨hlow, hhigh⟩

theorem ann_and_bob_completed :
    Completed (fun _ => sharedDigest) noQueries (bytes "bob") ann bob (2 ^ 1077) (2 ^ 1077 + 2) ⟨[], []⟩ ⟨[], []⟩ := by
  refine (completed_iff keyxTarget_bob (by decide)).mpr ⟨?_, ?_⟩
  · rintro x (hx | hx)
    · exact public_of_squarings 1077 0 (hx.trans (Nat.add_zero _).symm) (by decide +kernel) (by decide +kernel)
    · exact public_of_squarings 1077 2 hx (by decide +kernel) (by decide +kernel)
  · exact shared_of_squarings 1077 2 (by decide +kernel) (by decide +kernel)

/-- `2 ^ (2 ^ 1077 + 1284)` has only 134 bytes, so its text has 179 characters and Bob takes it for an ordinary
notice. -/
theorem short_key_not_completed :
    ¬ Completed (fun _ => sharedDigest) noQueries (bytes "bob") ann bob (2 ^ 1077 + 1284) (2 ^ 1077) ⟨[], []⟩
      ⟨[], []⟩ := by
  refine not_completed_of_short keyxTarget_bob ?_
  rw [pow_mod_eq]
  decide +kernel

end PoxChat.Fishlim
