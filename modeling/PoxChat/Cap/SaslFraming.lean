import PoxChat.Cap.Negotiation
import PoxChat.Lib.Base64
import PoxChat.Outbound.TypedOrder

/-!
# Framing of SASL messages

What `inbound_sasl_authenticate` puts on the wire for a message of the client, and the messages of the mechanisms:
`encode_sasl_pass_plain`, `oauth_encode_sasl_oauthbearer`, and the SCRAM client of `scram.c`.

* `Primitives` stands for OpenSSL's random bytes, digests, HMAC and PBKDF2 and for `g_base64_decode`; base64 is
  encoded as GLib does.
* PLAIN and OAUTHBEARER go through `sasl_send_authenticate`, SCRAM through `tcp_sendf` and its buffer.

Principal result: `sasl_framed_iff` — a message is framed as AUTHENTICATE lines of 400 bytes exactly when it is not a
SCRAM message of more than 297 bytes.
-/

set_option autoImplicit false

namespace PoxChat.Cap

open Lib Outbound

/-! ## The SCRAM client -/

structure Primitives where
  /-- `RAND_bytes` for a nonce of `NONCE_LENGTH` bytes. -/
  nonce : Option Bytes
  /-- `EVP_get_digestbyname`, and the size of the digest. -/
  digestSize : Bytes → Option Nat
  pbkdf2 : (digest password salt : Bytes) → (iterations : Nat) → Bytes
  hmac : (digest key data : Bytes) → Bytes
  /-- `create_SHA`. -/
  sha : (digest data : Bytes) → Option Bytes
  base64Decode : Bytes → Bytes

structure ScramSession where
  digest : Bytes
  digestSize : Nat
  username : Bytes
  password : Bytes
  clientNonceB64 : Bytes := []
  clientFirstMessageBare : Bytes := []
  saltedPassword : Bytes := []
  authMessage : Bytes := []
  step : Nat := 0
  deriving DecidableEq

variable {prim : Primitives}

/-- `process_client_first`. -/
def processClientFirst (prim : Primitives) (session : ScramSession) : ScramSession × ScramStatus × Bytes :=
  match prim.nonce with
  | none => (session, .error, [])
  | some nonce =>
    let output := bytes "n,,n=" ++ session.username ++ bytes ",r=" ++ base64Encode nonce
    ({ session with
        clientNonceB64 := base64Encode nonce
        clientFirstMessageBare := output.drop 3
        step := session.step + 1 }, .inProgress, output)

/-- `strtoul (str, NULL, 10)`, kept in an `unsigned int`. -/
def strtoul (str : Bytes) : Nat :=
  let str := str.dropWhile fun c => c == 32 || (9 ≤ c && c ≤ 13)
  let signed := str.head? == some 43 || str.head? == some 45
  let digits := (if signed then str.drop 1 else str).takeWhile isDigit
  let n : Nat := digits.foldl (fun n c => 10 * n + (c.toNat - 48)) 0
  (if 2 ^ 64 ≤ n then 2 ^ 64 - 1 else if str.head? == some 45 then (2 ^ 64 - n) % 2 ^ 64 else n) % 2 ^ 32

/-- The attributes of a server-first-message. -/
structure ServerFirst where
  nonce : Option Bytes := none
  salt : Option Bytes := none
  iterations : Nat := 0

/-- The body of the loop over them. -/
def ServerFirst.param (a : ServerFirst) (param : Bytes) : ServerFirst :=
  if param.take 2 = bytes "r=" then { a with nonce := some (param.drop 2) }
  else if param.take 2 = bytes "s=" then { a with salt := some (param.drop 2) }
  else if param.take 2 = bytes "i=" then { a with iterations := strtoul (param.drop 2) }
  else a

/-- `process_server_first`. -/
def processServerFirst (prim : Primitives) (session : ScramSession) (data : Bytes) :
    ScramSession × ScramStatus × Bytes :=
  let params := gStrsplit 44 data
  if params.length < 3 then (session, .error, [])
  else
    let a := params.foldl ServerFirst.param {}
    let nonce := a.nonce.getD []
    let salt := a.salt.getD []
    if nonce = [] ∨ salt = [] ∨ a.iterations = 0 then (session, .error, [])
    else if ¬ session.clientNonceB64.isPrefixOf nonce then (session, .error, [])
    else
      let salted := prim.pbkdf2 session.digest session.password (prim.base64Decode salt) a.iterations
      let withoutProof := bytes "c=biws,r=" ++ nonce
      let authMessage := session.clientFirstMessageBare ++ bytes "," ++ data ++ bytes "," ++ withoutProof
      let session := { session with saltedPassword := salted, authMessage := authMessage }
      let clientKey := prim.hmac session.digest salted (bytes "Client Key")
      match prim.sha session.digest clientKey with
      | none => (session, .error, [])
      | some storedKey =>
        let signature := prim.hmac session.digest storedKey authMessage
        let proof := clientKey.zipWith (· ^^^ ·) signature
        ({ session with step := session.step + 1 }, .inProgress, withoutProof ++ bytes ",p=" ++ base64Encode proof)

/-- `process_server_final`. -/
def processServerFinal (prim : Primitives) (session : ScramSession) (data : Bytes) :
    ScramSession × ScramStatus × Bytes :=
  if data.length < 3 ∨ (data.head? ≠ some 118 ∧ data.tail.head? ≠ some 61) then (session, .error, [])
  else
    let serverKey := prim.hmac session.digest session.saltedPassword (bytes "Server Key")
    let signature := prim.hmac session.digest serverKey session.authMessage
    (session, if prim.base64Decode (data.drop 2) = signature then .success else .error, [])

/-- `scram_process`; `input` is read as a C string. -/
def scramProcess (prim : Primitives) (session : ScramSession) (input : Bytes) : ScramSession × ScramStatus × Bytes :=
  match session.step with
  | 0 => processClientFirst prim session
  | 1 => processServerFirst prim session (cString input)
  | 2 => processServerFinal prim session (cString input)
  | _ => (session, .error, [])

/-! ## Messages -/

/-- The message of PLAIN. -/
def plainMessage (user password : Bytes) : Bytes := user ++ [0] ++ user ++ [0] ++ password

/-- The message of `oauth_encode_sasl_oauthbearer`. -/
def oauthbearerMessage (token host : Bytes) (port : Int) : Bytes :=
  if port > 0 then
    bytes "n,," ++ [1] ++ bytes "auth=Bearer " ++ token ++ [1] ++ bytes "host=" ++ host ++ [1] ++ bytes "port=" ++
      decimal port.toNat ++ [1, 1]
  else bytes "n,," ++ [1] ++ bytes "auth=Bearer " ++ token ++ [1, 1]

/-- The code of `scram.c`, `oauth.c` and `util.c` over the primitives. -/
def saslCrypto (prim : Primitives) : Crypto where
  Scram := ScramSession
  base64Encode := base64Encode
  base64Decode := prim.base64Decode
  scramSessionCreate digest user password :=
    (prim.digestSize digest).map fun size => { digest, digestSize := size, username := user, password }
  scramProcess := scramProcess prim
  oauthEncodeSaslOauthbearer token servername port := some (base64Encode (oauthbearerMessage token servername port))

def Mech.isScram : Mech → Bool
  | .scramSha1 | .scramSha256 | .scramSha512 => true
  | _ => false

/-- The message of a SCRAM client for this challenge, if it has one; the server's signature is answered by an empty
message. -/
def scramMessage (s : Server (saslCrypto prim)) (data digest : Bytes) : Option Bytes :=
  match s.scramSession.or ((saslCrypto prim).scramSessionCreate digest s.user s.password) with
  | none => none
  | some session =>
    match scramProcess prim session (prim.base64Decode data) with
    | (_, .inProgress, output) => some output
    | (_, .success, _) => some []
    | (_, .error, _) => none

/-- The message that the mechanism produces for a challenge, if it does not give up. -/
def clientMessage (s : Server (saslCrypto prim)) (data : Bytes) (now : Int) : Option Bytes :=
  match s.saslMech with
  | .plain => some (plainMessage s.user s.password)
  | .external => some []
  | .scramSha1 => scramMessage s data (bytes "SHA1")
  | .scramSha256 => scramMessage s data (bytes "SHA256")
  | .scramSha512 => scramMessage s data (bytes "SHA512")
  | .oauthbearer =>
    if s.oauthAccessToken = [] ∨ (s.oauthTokenExpires > 0 ∧ now ≥ s.oauthTokenExpires) then none
    else some (oauthbearerMessage s.oauthAccessToken s.servername s.port)

/-! ## The wire -/

def authLine (payload : Bytes) : Bytes := bytes "AUTHENTICATE " ++ payload ++ crlf

/-- The bytes of a SASL line. -/
def Call.saslWire : Call → Bytes
  | .send (.authenticate arg) => cmdBuf (authLine arg)
  | .send (.saslPayload buf) => buf
  | _ => []

/-- What has been sent between two states. -/
def saslSent (s s' : Server (saslCrypto prim)) : Bytes := (s'.calls.drop s.calls.length).flatMap Call.saslWire

/-- **Framed**: the bytes are AUTHENTICATE lines whose payloads put together are the encoded message, all of at most
400 bytes and all but the last of exactly 400, and a line with `+` where its length is a multiple of 400. -/
structure Framed (encoded wire : Bytes) (payloads : List Bytes) : Prop where
  lines : wire = (payloads ++ if encoded.length % SASL_CHUNK = 0 then [bytes "+"] else []).flatMap authLine
  whole : payloads.flatten = encoded
  short : ∀ p ∈ payloads, 0 < p.length ∧ p.length ≤ SASL_CHUNK
  full : ∀ p ∈ payloads.dropLast, p.length = SASL_CHUNK
  text : ∀ p ∈ payloads, ∀ c ∈ p, c ≠ 13 ∧ c ≠ 10

/-! ## Chunks -/

/-- The payloads of `sasl_send_authenticate`. -/
def chunks : Nat → Bytes → List Bytes
  | 0, _ => []
  | _, [] => []
  | fuel + 1, encoded => encoded.take SASL_CHUNK :: chunks fuel (encoded.drop SASL_CHUNK)

theorem chunks_cons (fuel : Nat) {encoded : Bytes} (h : encoded ≠ []) :
    chunks (fuel + 1) encoded = encoded.take SASL_CHUNK :: chunks fuel (encoded.drop SASL_CHUNK) := by
  cases encoded with
  | nil => exact absurd rfl h
  | cons c encoded => rfl

theorem chunks_nil (fuel : Nat) : chunks fuel [] = [] := by cases fuel <;> rfl

theorem saslChunks_eq (fuel : Nat) : ∀ encoded, saslChunks fuel encoded = (chunks fuel encoded).flatMap authLine := by
  induction fuel with
  | zero => intro encoded; rfl
  | succ fuel ih =>
    intro encoded
    cases encoded with
    | nil => rfl
    | cons c encoded =>
      rw [chunks_cons fuel (by simp), List.flatMap_cons, ← ih]
      rfl

theorem chunks_flatten (fuel : Nat) : ∀ encoded, encoded.length ≤ fuel → (chunks fuel encoded).flatten = encoded := by
  induction fuel with
  | zero =>
    intro encoded h
    rw [List.length_eq_zero_iff.1 (by omega : encoded.length = 0)]
    rfl
  | succ fuel ih =>
    intro encoded h
    by_cases hne : encoded = []
    · rw [hne]
      rfl
    have hdrop : (encoded.drop SASL_CHUNK).length ≤ fuel := by
      rw [List.length_drop, SASL_CHUNK]
      omega
    rw [chunks_cons fuel hne, List.flatten_cons, ih _ hdrop, List.take_append_drop]

theorem chunks_short (fuel : Nat) : ∀ encoded, ∀ p ∈ chunks fuel encoded, 0 < p.length ∧ p.length ≤ SASL_CHUNK := by
  induction fuel with
  | zero => intro encoded p hp; cases hp
  | succ fuel ih =>
    intro encoded p hp
    by_cases hne : encoded = []
    · rw [hne] at hp
      cases hp
    have hpos := List.length_pos_iff.2 hne
    rw [chunks_cons fuel hne] at hp
    rcases List.mem_cons.1 hp with rfl | hp
    · rw [List.length_take, SASL_CHUNK]
      omega
    · exact ih _ p hp

theorem chunks_full (fuel : Nat) : ∀ encoded, ∀ p ∈ (chunks fuel encoded).dropLast, p.length = SASL_CHUNK := by
  induction fuel with
  | zero => intro encoded p hp; cases hp
  | succ fuel ih =>
    intro encoded p hp
    by_cases hne : encoded = []
    · rw [hne] at hp
      cases hp
    rw [chunks_cons fuel hne] at hp
    by_cases hrest : encoded.drop SASL_CHUNK = []
    · rw [hrest, chunks_nil] at hp
      cases hp
    cases hchunks : chunks fuel (encoded.drop SASL_CHUNK) with
    | nil =>
      rw [hchunks] at hp
      cases hp
    | cons q qs =>
      rw [hchunks, List.dropLast_cons_cons] at hp
      rcases List.mem_cons.1 hp with rfl | hp
      · -- something is left, so the chunk before it is full
        have hpos := List.length_pos_iff.2 hrest
        rw [List.length_drop] at hpos
        rw [List.length_take]
        omega
      · exact ih _ p (by rw [hchunks]; exact hp)

/-- **`sasl_send_authenticate` frames** every text without line breaks. -/
theorem saslSendAuthenticate_framed {encoded : Bytes} (h : ∀ c ∈ encoded, c ≠ 13 ∧ c ≠ 10)
    (s : Server (saslCrypto prim)) :
    ∃ payloads, Framed encoded (saslSent s (saslSendAuthenticate s encoded)) payloads := by
  have hwhole := chunks_flatten encoded.length encoded (Nat.le_refl _)
  refine ⟨chunks encoded.length encoded, ?_, hwhole, chunks_short _ _, chunks_full _ _, ?_⟩
  · have hsent : saslSent s (saslSendAuthenticate s encoded) = saslChunks encoded.length encoded ++
        if encoded.length % SASL_CHUNK = 0 then bytes "AUTHENTICATE +" ++ crlf else [] := by
      simp [saslSent, saslSendAuthenticate, Server.send, Server.call, Call.saslWire]
    rw [hsent, saslChunks_eq, List.flatMap_append]
    split_ifs
    · rfl
    · rfl
  · intro p hp c hc
    refine h c ?_
    rw [← hwhole]
    exact List.mem_flatten.2 ⟨p, hp, hc⟩

/-! ## A line through the buffer -/

theorem count_flatMap_authLine (payloads : List Bytes) : payloads.length ≤ (payloads.flatMap authLine).count 10 := by
  induction payloads with
  | nil => simp
  | cons p payloads ih =>
    have hone : 1 ≤ (authLine p).count 10 := by
      rw [List.one_le_count_iff]
      simp [authLine, crlf]
    rw [List.flatMap_cons, List.count_append, List.length_cons]
    omega

theorem count_cmdBuf_le (text : Bytes) : (cmdBuf text).count 10 ≤ text.count 10 := by
  unfold cmdBuf formatted
  split_ifs
  · exact (List.take_sublist _ _).count_le 10
  · have hle := (List.take_sublist text.length (text.take (1539 - 1) ++ [0])).count_le 10
    have hle' := (List.take_sublist (1539 - 1) text).count_le 10
    rw [List.count_append, show List.count 10 [(0 : UInt8)] = 0 from rfl] at hle
    omega

theorem count_authLine {payload : Bytes} (h : ∀ c ∈ payload, c ≠ 13 ∧ c ≠ 10) : (authLine payload).count 10 = 1 := by
  have hnone : payload.count 10 = 0 := List.count_eq_zero.2 fun hc => (h 10 hc).2 rfl
  rw [authLine, List.count_append, List.count_append, hnone]
  decide

/-- **One line frames** a text that is not empty exactly when it is shorter than a chunk. -/
theorem authLine_framed_iff {encoded : Bytes} (hne : encoded ≠ []) (h : ∀ c ∈ encoded, c ≠ 13 ∧ c ≠ 10) :
    (∃ payloads, Framed encoded (cmdBuf (authLine encoded)) payloads) ↔ encoded.length < SASL_CHUNK := by
  constructor
  · rintro ⟨payloads, hframed⟩
    by_contra hlong
    -- as many lines as payloads, or one more, against one line in the buffer
    have hmany : 2 ≤ (payloads ++ if encoded.length % SASL_CHUNK = 0 then [bytes "+"] else []).length := by
      have hsome : 1 ≤ payloads.length := by
        by_contra hnone
        rw [List.length_eq_zero_iff.1 (by omega : payloads.length = 0)] at hframed
        exact hne hframed.whole.symm
      by_cases hmod : encoded.length % SASL_CHUNK = 0
      · rw [if_pos hmod, List.length_append]
        simpa using hsome
      · have htwo : payloads.length ≠ 1 := by
          intro hone
          obtain ⟨p, rfl⟩ := List.length_eq_one_iff.1 hone
          have hp : p = encoded := by simpa using hframed.whole
          have hle := (hframed.short p (by simp)).2
          rw [hp] at hle
          rw [SASL_CHUNK] at hle hlong hmod
          omega
        rw [if_neg hmod, List.append_nil]
        omega
    have hcount := count_flatMap_authLine (payloads ++ if encoded.length % SASL_CHUNK = 0 then [bytes "+"] else [])
    rw [← hframed.lines] at hcount
    have hle := count_cmdBuf_le (authLine encoded)
    rw [count_authLine h] at hle
    omega
  · intro hshort
    have hpos := List.length_pos_iff.2 hne
    rw [SASL_CHUNK] at hshort
    have hbuf : cmdBuf (authLine encoded) = authLine encoded := by
      apply cmdBuf_eq_self
      simp [authLine, crlf, bytes]
      omega
    have hmod : ¬ encoded.length % SASL_CHUNK = 0 := by
      rw [SASL_CHUNK]
      omega
    refine ⟨[encoded], ?_, by simp, ?_, by simp, by simpa using h⟩
    · rw [hbuf, if_neg hmod]
      simp
    · intro p hp
      rw [List.mem_singleton.1 hp, SASL_CHUNK]
      omega

/-! ## The mechanisms -/

theorem base64Encode_text (msg : Bytes) : ∀ c ∈ base64Encode msg, c ≠ 13 ∧ c ≠ 10 := by
  intro c hc
  have hbase := mem_base64Encode msg c hc
  constructor
  · rintro rfl
    exact absurd hbase (by decide)
  · rintro rfl
    exact absurd hbase (by decide)

theorem base64Encode_short_iff (msg : Bytes) : (base64Encode msg).length < SASL_CHUNK ↔ msg.length ≤ 297 := by
  rw [length_base64Encode, SASL_CHUNK]
  omega

/-- The empty message is a line with `+`. -/
theorem empty_framed : ∃ payloads, Framed (base64Encode []) (cmdBuf (authLine (bytes "+"))) payloads := by
  refine ⟨[], ?_, rfl, by simp, by simp, by simp⟩
  rw [cmdBuf_eq_self (by decide)]
  rfl

theorem processClientFirst_nonempty {session session' : ScramSession} {output : Bytes}
    (h : processClientFirst prim session = (session', .inProgress, output)) : output ≠ [] := by
  unfold processClientFirst at h
  split at h
  · cases h
  · obtain ⟨-, -, rfl⟩ := h
    simp [bytes]

theorem processServerFirst_nonempty {session session' : ScramSession} {data output : Bytes}
    (h : processServerFirst prim session data = (session', .inProgress, output)) : output ≠ [] := by
  unfold processServerFirst at h
  dsimp only at h
  split_ifs at h
  · cases h
  · cases h
  · split at h
    · cases h
    · obtain ⟨-, -, rfl⟩ := h
      simp [bytes]
  · cases h

/-- A SCRAM client that goes on has something to say. -/
theorem scramProcess_nonempty {session session' : ScramSession} {input output : Bytes}
    (h : scramProcess prim session input = (session', .inProgress, output)) : output ≠ [] := by
  unfold scramProcess at h
  split at h
  · exact processClientFirst_nonempty h
  · exact processServerFirst_nonempty h
  · unfold processServerFinal at h
    split_ifs at h
    · cases h
    · have hstatus := congrArg (fun r => r.2.1) h
      dsimp only at hstatus
      split_ifs at hstatus
  · cases h

theorem saslSent_authenticate {s s' : Server (saslCrypto prim)} {arg : Bytes}
    (h : s'.calls = s.calls ++ [.send (.authenticate arg)]) : saslSent s s' = cmdBuf (authLine arg) := by
  simp [saslSent, h, Call.saslWire]

theorem scramAuthenticate_framed_iff (s : Server (saslCrypto prim)) (data digest : Bytes) {msg : Bytes}
    (hmsg : scramMessage s data digest = some msg) :
    (∃ payloads, Framed (base64Encode msg) (saslSent s (scramAuthenticate s data digest)) payloads) ↔
      msg.length ≤ 297 := by
  unfold scramMessage at hmsg
  split at hmsg
  · cases hmsg
  rename_i session hsession
  have hcont : scramAuthenticate s data digest = scramContinue s session data := by
    simp only [scramAuthenticate, hsession]
  rw [hcont]
  split at hmsg
  · rename_i session' output hprocess
    obtain rfl : output = msg := Option.some.inj hmsg
    have hne : base64Encode output ≠ [] := by
      have hpos := List.length_pos_iff.2 (scramProcess_nonempty hprocess)
      rw [← List.length_pos_iff, length_base64Encode]
      omega
    have hsent : (scramContinue s session data).calls = s.calls ++ [.send (.authenticate (base64Encode output))] := by
      unfold scramContinue
      rw [show (saslCrypto prim).scramProcess session ((saslCrypto prim).base64Decode data) = _ from hprocess]
      rfl
    rw [saslSent_authenticate hsent, authLine_framed_iff hne (base64Encode_text output), base64Encode_short_iff]
  · rename_i session' output hprocess
    obtain rfl : [] = msg := Option.some.inj hmsg
    have hsent : (scramContinue s session data).calls = s.calls ++ [.send (.authenticate (bytes "+"))] := by
      unfold scramContinue
      rw [show (saslCrypto prim).scramProcess session ((saslCrypto prim).base64Decode data) = _ from hprocess]
      rfl
    rw [saslSent_authenticate hsent]
    exact iff_of_true empty_framed (Nat.zero_le _)
  · cases hmsg

theorem oauthAuthenticate_framed {s : Server (saslCrypto prim)} {now : Int} {msg : Bytes}
    (hmech : s.saslMech = .oauthbearer) (data : Bytes) (hmsg : clientMessage s data now = some msg) :
    ∃ payloads, Framed (base64Encode msg) (saslSent s (oauthAuthenticate s now)) payloads := by
  unfold clientMessage at hmsg
  rw [hmech] at hmsg
  dsimp only at hmsg
  split_ifs at hmsg with hgone
  push Not at hgone
  obtain rfl := Option.some.inj hmsg
  have hsent : oauthAuthenticate s now =
      saslSendAuthenticate s (base64Encode (oauthbearerMessage s.oauthAccessToken s.servername s.port)) := by
    unfold oauthAuthenticate
    rw [if_neg hgone.1, if_neg fun h => absurd (hgone.2 h.1) (by omega)]
    rfl
  rw [hsent]
  exact saslSendAuthenticate_framed (base64Encode_text _) s

/-- **Framing**: for every mechanism, every challenge and every message that the mechanism produces for it, the lines
sent are the base64 text of the message in payloads of 400 bytes, ended as SASL asks, exactly when the message is not
one of SCRAM with more than 297 bytes. -/
theorem sasl_framed_iff {s : Server (saslCrypto prim)} {data msg : Bytes} {now : Int} (hdata : 44 ∉ data)
    (hmsg : clientMessage s data now = some msg) :
    (∃ payloads, Framed (base64Encode msg) (saslSent s (inboundSaslAuthenticate s data now)) payloads) ↔
      (s.saslMech.isScram = true → msg.length ≤ 297) := by
  unfold inboundSaslAuthenticate
  rw [if_neg hdata]
  cases hmech : s.saslMech with
  | plain =>
    obtain rfl : plainMessage s.user s.password = msg := by simpa [clientMessage, hmech] using hmsg
    exact iff_of_true (saslSendAuthenticate_framed (base64Encode_text _) s) nofun
  | external =>
    obtain rfl : [] = msg := by simpa [clientMessage, hmech] using hmsg
    refine iff_of_true ?_ nofun
    rw [saslSent_authenticate rfl]
    exact empty_framed
  | scramSha1 =>
    rw [clientMessage, hmech] at hmsg
    simpa [Mech.isScram] using scramAuthenticate_framed_iff s data _ hmsg
  | scramSha256 =>
    rw [clientMessage, hmech] at hmsg
    simpa [Mech.isScram] using scramAuthenticate_framed_iff s data _ hmsg
  | scramSha512 =>
    rw [clientMessage, hmech] at hmsg
    simpa [Mech.isScram] using scramAuthenticate_framed_iff s data _ hmsg
  | oauthbearer => exact iff_of_true (oauthAuthenticate_framed hmech data hmsg) nofun

/-- Primitives with a fixed nonce and digests that copy their input. -/
def copying : Primitives where
  nonce := some (List.replicate 18 0)
  digestSize _ := some 32
  pbkdf2 _ password _ _ := password
  hmac _ key _ := key
  sha _ data := some data
  base64Decode data := data

/-- A PLAIN password of 300 bytes leaves in two lines. -/
theorem sasl_framed_long_password :
    ∃ payloads, Framed (base64Encode (plainMessage (bytes "ann") (List.replicate 300 120)))
      (saslSent ({ user := bytes "ann", password := List.replicate 300 120 } : Server (saslCrypto copying))
        (inboundSaslAuthenticate { user := bytes "ann", password := List.replicate 300 120 } (bytes "+") 0))
      payloads :=
  (sasl_framed_iff (by decide) rfl).2 (by decide)

def longAccount : Server (saslCrypto copying) where
  user := List.replicate 268 97
  saslMech := .scramSha256

/-- **The defect**: a SCRAM account name of 268 bytes gives a first message whose text is 400 bytes. It leaves as one
line and no line with `+` follows, so the server waits for more. -/
theorem scram_not_framed :
    ∃ msg, clientMessage longAccount (bytes "+") 0 = some msg ∧ (base64Encode msg).length = 400 ∧
      ¬ ∃ payloads, Framed (base64Encode msg)
        (saslSent longAccount (inboundSaslAuthenticate longAccount (bytes "+") 0)) payloads := by
  refine ⟨_, rfl, by decide +kernel, ?_⟩
  intro hframed
  have hshort := (scramAuthenticate_framed_iff longAccount (bytes "+") (bytes "SHA256") rfl).1 hframed
  exact absurd hshort (by decide +kernel)

end PoxChat.Cap
