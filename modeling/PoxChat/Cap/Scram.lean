import PoxChat.Cap.SaslFraming
import PoxChat.Fishlim.Cipher
import PoxChat.Lib.Fields
import PoxChat.Servlist.Restart

/-!
# SCRAM against a server

The client of `scram.c` against the server that RFC 5802 describes, over a wire that an adversary may rewrite.

* `Account` — what the server keeps of a password; `enrol` makes it.
* `serverFirst`, `serverFinal` — the two answers of the server.
* `exchange` — client and server, with every message delivered as it was sent.

Principal results: `exchange_completes_iff` — with the right password the exchange ends in success exactly when the
account name has neither a comma nor an equals sign, which the client does not escape; `scram_agreement` — a client
that accepts the verifier of a server has seen the messages which that server has seen, or two inputs of HMAC collide.
-/

set_option autoImplicit false

namespace PoxChat.Cap

open Lib Outbound

/-! ## The server -/

structure Account where
  /-- The name as it stands in a message, with commas and equals signs escaped. -/
  saslname : Bytes
  salt : Bytes
  iterations : Nat
  storedKey : Bytes
  serverKey : Bytes
  deriving DecidableEq

/-- The name of a user in a message. -/
def saslname (user : Bytes) : Bytes :=
  user.flatMap fun c => if c = 44 then bytes "=2C" else if c = 61 then bytes "=3D" else [c]

/-- The account of a user with this password. -/
def enrol (prim : Primitives) (digest user password salt : Bytes) (iterations : Nat) : Option Account :=
  let salted := prim.pbkdf2 digest password salt iterations
  (prim.sha digest (prim.hmac digest salted (bytes "Client Key"))).map fun storedKey =>
    { saslname := saslname user, salt, iterations, storedKey
      serverKey := prim.hmac digest salted (bytes "Server Key") }

/-- The server's first message, for the nonce it adds and the client's first message. -/
def serverFirst (account : Account) (nonce first : Bytes) : Option Bytes :=
  match first.splitOn 44 with
  | [flag, authzid, name, r] =>
    if flag = bytes "n" ∧ authzid = [] ∧ name = bytes "n=" ++ account.saslname ∧ r.take 2 = bytes "r=" then
      some (r ++ nonce ++ bytes ",s=" ++ base64Encode account.salt ++ bytes ",i=" ++ decimal account.iterations)
    else none
  | _ => none

/-- The server's final message, for the client's first message, its own and the client's last. -/
def serverFinal (prim : Primitives) (digest : Bytes) (account : Account) (first second last : Bytes) : Option Bytes :=
  match last.splitOn 44 with
  | [c, r, p] =>
    let authMessage := first.drop 3 ++ bytes "," ++ second ++ bytes "," ++ (c ++ bytes "," ++ r)
    let signature := prim.hmac digest account.storedKey authMessage
    let clientKey := (base64Decode (p.drop 2)).zipWith (· ^^^ ·) signature
    if c = bytes "c=biws" ∧ (second.splitOn 44).head? = some r ∧ p.take 2 = bytes "p=" ∧
        prim.sha digest clientKey = some account.storedKey then
      some (bytes "v=" ++ base64Encode (prim.hmac digest account.serverKey authMessage))
    else none
  | _ => none

/-- What the client ends with, if the server answers both messages. -/
def exchange (prim : Primitives) (digest : Bytes) (session : ScramSession) (account : Account) (nonce : Bytes) :
    Option ScramStatus := do
  let (session, _, first) := scramProcess prim session []
  let second ← serverFirst account nonce first
  let (session, _, last) := scramProcess prim session second
  let final ← serverFinal prim digest account first second last
  some (scramProcess prim session final).2.1

/-- What OpenSSL and GLib give for a digest. -/
structure Standard (prim : Primitives) (digest : Bytes) : Prop where
  nonce : ∃ nonce, prim.nonce = some nonce ∧ nonce.length = 18
  hmac : ∃ size, 0 < size ∧ ∀ key data, (prim.hmac digest key data).length = size
  sha : ∀ data, ∃ hash, prim.sha digest data = some hash
  decode : ∀ msg, prim.base64Decode (base64Encode msg) = msg

variable {prim : Primitives} {digest user password salt nonce : Bytes} {iterations : Nat} {account : Account}

theorem enrol_spec (h : enrol prim digest user password salt iterations = some account) :
    let salted := prim.pbkdf2 digest password salt iterations
    account.saslname = saslname user ∧ account.salt = salt ∧ account.iterations = iterations ∧
      prim.sha digest (prim.hmac digest salted (bytes "Client Key")) = some account.storedKey ∧
      prim.hmac digest salted (bytes "Server Key") = account.serverKey := by
  obtain ⟨storedKey, hstored, rfl⟩ := Option.map_eq_some_iff.1 h
  exact ⟨rfl, rfl, rfl, hstored, rfl⟩

/-! ## Fields between commas -/

theorem comma_notMem_base64Encode (msg : Bytes) : 44 ∉ base64Encode msg := by
  intro hmem
  exact absurd (mem_base64Encode msg 44 hmem) (by decide)

theorem comma_notMem_decimal (n : Nat) : 44 ∉ decimal n := by
  intro hmem
  have hdigit := toNat_of_mem_decimal hmem
  exact absurd hdigit.1 (by decide)

theorem zero_notMem_base64Encode (msg : Bytes) : 0 ∉ base64Encode msg := by
  intro hmem
  exact absurd (mem_base64Encode msg 0 hmem) (by decide)

theorem zero_notMem_decimal (n : Nat) : 0 ∉ decimal n := by
  intro hmem
  have hdigit := toNat_of_mem_decimal hmem
  exact absurd hdigit.1 (by decide)

/-- A comma ends a field. -/
theorem splitOn_comma {field : Bytes} (h : 44 ∉ field) (rest : Bytes) :
    (field ++ bytes "," ++ rest).splitOn 44 = field :: rest.splitOn 44 := by
  rw [List.append_assoc]
  exact List.splitOn_append_cons_self_of_not_mem h rest

theorem splitOn_comma_append (first rest : Bytes) :
    (first ++ bytes "," ++ rest).splitOn 44 = first.splitOn 44 ++ rest.splitOn 44 := by
  rw [List.append_assoc]
  exact List.splitOn_append_cons_self first rest

/-- The first field is what stands before the first comma. -/
theorem head?_splitOn (str : Bytes) : (str.splitOn 44).head? = some (str.takeWhile (· != 44)) := by
  induction str with
  | nil => rfl
  | cons c str ih =>
    rw [List.splitOn_cons_eq_if_modifyHead]
    by_cases hc : c = 44
    · simp [hc]
    · rw [if_neg (by simpa using hc), List.head?_modifyHead, ih, List.takeWhile_cons_of_pos (by simpa using hc)]
      rfl

/-- The fields determine the text. -/
theorem splitOn_injective {a b : Bytes} (h : a.splitOn 44 = b.splitOn 44) : a = b := by
  have hback := congrArg (List.intercalate [44]) h
  rwa [List.intercalate_splitOn, List.intercalate_splitOn] at hback

/-! ## Names -/

theorem length_saslname_ge (user : Bytes) : user.length ≤ (saslname user).length := by
  induction user with
  | nil => exact Nat.le_refl _
  | cons c user ih =>
    rw [saslname] at ih
    rw [saslname, List.flatMap_cons, List.length_append, List.length_cons]
    have hone : 1 ≤ (if c = 44 then bytes "=2C" else if c = 61 then bytes "=3D" else [c]).length := by
      split_ifs
      · decide
      · decide
      · exact Nat.le_refl 1
    omega

/-- A name in which nothing is escaped is the one that nothing has to be escaped in. -/
theorem saslname_eq_self_iff (user : Bytes) : saslname user = user ↔ ∀ c ∈ user, c ≠ 44 ∧ c ≠ 61 := by
  induction user with
  | nil => simp [saslname]
  | cons c user ih =>
    have hlen := length_saslname_ge user
    have hcons : saslname (c :: user) =
        (if c = 44 then bytes "=2C" else if c = 61 then bytes "=3D" else [c]) ++ saslname user := rfl
    rw [List.forall_mem_cons, ← ih, hcons]
    by_cases hcomma : c = 44
    · refine iff_of_false ?_ (fun h => h.1.1 hcomma)
      intro h
      have hlong := congrArg List.length h
      rw [if_pos hcomma, List.length_append, List.length_cons, show (bytes "=2C").length = 3 from rfl] at hlong
      omega
    by_cases hequals : c = 61
    · refine iff_of_false ?_ (fun h => h.1.2 hequals)
      intro h
      have hlong := congrArg List.length h
      rw [if_neg hcomma, if_pos hequals, List.length_append, List.length_cons,
        show (bytes "=3D").length = 3 from rfl] at hlong
      omega
    rw [if_neg hcomma, if_neg hequals]
    simp [hcomma, hequals]

/-- A name cut at its first comma is its own text in a message only if there was nothing to cut or to escape. -/
theorem takeWhile_eq_saslname_iff (user : Bytes) :
    user.takeWhile (· != 44) = saslname user ↔ ∀ c ∈ user, c ≠ 44 ∧ c ≠ 61 := by
  rw [← saslname_eq_self_iff]
  constructor
  · intro h
    have hprefix : user.takeWhile (· != 44) <+: user := List.takeWhile_prefix _
    have hle := length_saslname_ge user
    rw [← h] at hle ⊢
    exact hprefix.eq_of_length_le hle
  · intro h
    have hclean := (saslname_eq_self_iff user).1 h
    rw [h, List.takeWhile_eq_self_iff]
    intro c hc
    simpa using (hclean c hc).1

/-! ## The client's first message -/

/-- `client_first_message_bare`. -/
def bare (user clientNonce : Bytes) : Bytes :=
  bytes "n=" ++ user ++ bytes "," ++ (bytes "r=" ++ base64Encode clientNonce)

theorem processClientFirst_eq {session : ScramSession} (h : prim.nonce = some nonce) :
    processClientFirst prim session =
      ({ session with
          clientNonceB64 := base64Encode nonce
          clientFirstMessageBare := bare session.username nonce
          step := session.step + 1 }, .inProgress, bytes "n,," ++ bare session.username nonce) := by
  have hout : bytes "n,,n=" ++ session.username ++ bytes ",r=" ++ base64Encode nonce =
      bytes "n,," ++ bare session.username nonce := by simp [bare, bytes]
  unfold processClientFirst
  rw [h]
  dsimp only
  rw [hout]
  rfl

theorem splitOn_header (rest : Bytes) : (bytes "n,," ++ rest).splitOn 44 = bytes "n" :: [] :: rest.splitOn 44 := by
  have hn : (44 : UInt8) ∉ bytes "n" := by decide
  rw [show bytes "n,," ++ rest = bytes "n" ++ bytes "," ++ ([] ++ bytes "," ++ rest) from rfl, splitOn_comma hn,
    splitOn_comma (List.not_mem_nil)]

theorem splitOn_bare (huser : 44 ∉ user) (clientNonce : Bytes) :
    (bare user clientNonce).splitOn 44 = [bytes "n=" ++ user, bytes "r=" ++ base64Encode clientNonce] := by
  have hname : 44 ∉ bytes "n=" ++ user := by
    rw [List.mem_append]
    rintro (h | h)
    · exact absurd h (by decide)
    · exact huser h
  have hnonce : 44 ∉ bytes "r=" ++ base64Encode clientNonce := by
    rw [List.mem_append]
    rintro (h | h)
    · exact absurd h (by decide)
    · exact comma_notMem_base64Encode _ h
  rw [bare, splitOn_comma hname, List.splitOn_eq_singleton hnonce]

/-- The server answers this client exactly when it finds the name of its account. -/
theorem serverFirst_bare (nonce clientNonce : Bytes) (hname : account.saslname = saslname user) :
    serverFirst account nonce (bytes "n,," ++ bare user clientNonce) =
      if saslname user = user then
        some (bytes "r=" ++ (base64Encode clientNonce ++ nonce) ++ bytes ",s=" ++ base64Encode account.salt ++
          bytes ",i=" ++ decimal account.iterations)
      else none := by
  unfold serverFirst
  rw [splitOn_header]
  split_ifs with hself
  · have hclean := (saslname_eq_self_iff user).1 hself
    rw [splitOn_bare (fun h => (hclean 44 h).1 rfl), hname, hself]
    dsimp only
    rw [if_pos ⟨rfl, rfl, rfl, rfl⟩, List.append_assoc (bytes "r=")]
  · -- the name that the server reads is cut at a comma
    have hhead : ((bare user clientNonce).splitOn 44).head? = some (bytes "n=" ++ user.takeWhile (· != 44)) := by
      rw [bare, splitOn_comma_append, List.head?_append_of_ne_nil _ (List.splitOn_ne_nil _ _), head?_splitOn]
      rfl
    have hother : bytes "n=" ++ user.takeWhile (· != 44) ≠ bytes "n=" ++ account.saslname := by
      rw [hname]
      intro h
      exact hself ((saslname_eq_self_iff user).2 ((takeWhile_eq_saslname_iff user).1 (List.append_cancel_left h)))
    split
    · rename_i flag authzid name r hfields
      obtain ⟨-, hfields⟩ := List.cons.inj hfields
      obtain ⟨-, hfields⟩ := List.cons.inj hfields
      rw [hfields] at hhead
      rw [if_neg]
      rintro ⟨-, -, hread, -⟩
      exact hother (by rw [← hread]; exact (Option.some.inj hhead).symm)
    · rfl

/-! ## The server's messages -/

theorem strtoul_decimal {n : Nat} (h : n < 2 ^ 32) : strtoul (decimal n) = n := by
  obtain ⟨c, digits, heq, hlow, hhigh⟩ := Servlist.decimal_cons n
  have hblank : (c == 32 || (9 ≤ c && c ≤ 13)) = false := by
    have hspace : c ≠ 32 := by rintro rfl; simp at hlow
    have hlast : ¬ c ≤ 13 := fun h => by
      have hle : c.toNat ≤ 13 := UInt8.le_iff_toNat_le.1 h
      omega
    simp [hspace, hlast]
  have hplus : (some c == some (43 : UInt8)) = false := beq_eq_false_iff_ne.2 fun h => by
    rw [Option.some.inj h] at hlow
    exact absurd hlow (by decide)
  have hminus : (some c == some (45 : UInt8)) = false := beq_eq_false_iff_ne.2 fun h => by
    rw [Option.some.inj h] at hlow
    exact absurd hlow (by decide)
  have hdrop : (decimal n).dropWhile (fun c => c == 32 || (9 ≤ c && c ≤ 13)) = decimal n := by
    rw [heq, List.dropWhile_cons_of_neg (by simp [hblank])]
  have hhead : (decimal n).head? = some c := by rw [heq]; rfl
  unfold strtoul
  dsimp only
  rw [hdrop, hhead]
  simp only [hplus, hminus, Bool.or_self, Bool.false_eq_true, if_false, Servlist.takeWhile_decimal,
    Servlist.foldl_decimal]
  rw [if_neg (by omega)]
  exact Nat.mod_eq_of_lt h

/-- The client takes the attributes of a message apart. -/
theorem params_of_second {r s : Bytes} {n : Nat} (hr : 44 ∉ r) (hs : 44 ∉ s) (hn : n < 2 ^ 32) :
    let data := bytes "r=" ++ r ++ bytes ",s=" ++ s ++ bytes ",i=" ++ decimal n
    (gStrsplit 44 data).length = 3 ∧
      (gStrsplit 44 data).foldl ServerFirst.param {} = { nonce := some r, salt := some s, iterations := n } := by
  intro data
  have hfields : gStrsplit 44 data = [bytes "r=" ++ r, bytes "s=" ++ s, bytes "i=" ++ decimal n] := by
    have hdata : data =
        bytes "r=" ++ r ++ bytes "," ++ (bytes "s=" ++ s ++ bytes "," ++ (bytes "i=" ++ decimal n)) := by
      simp [data, bytes]
    have hr' : 44 ∉ bytes "r=" ++ r := by simpa [bytes] using hr
    have hs' : 44 ∉ bytes "s=" ++ s := by simpa [bytes] using hs
    have hn' : 44 ∉ bytes "i=" ++ decimal n := by simpa [bytes] using comma_notMem_decimal n
    rw [gStrsplit, if_neg (by simp [data, bytes]), hdata, splitOn_comma hr', splitOn_comma hs',
      List.splitOn_eq_singleton hn']
  rw [hfields]
  refine ⟨rfl, ?_⟩
  have hparam : ∀ a : ServerFirst, a.param (bytes "i=" ++ decimal n) = { a with iterations := n } := by
    intro a
    have hread : ServerFirst.param a (bytes "i=" ++ decimal n) = { a with iterations := strtoul (decimal n) } := rfl
    rw [hread, strtoul_decimal hn]
  rw [List.foldl_cons, List.foldl_cons, List.foldl_cons, List.foldl_nil, hparam]
  rfl

/-! ## The exchange -/

/-- What both sides sign. -/
def authMessage (user clientNonce second r : Bytes) : Bytes :=
  bare user clientNonce ++ bytes "," ++ second ++ bytes "," ++ (bytes "c=biws" ++ bytes "," ++ (bytes "r=" ++ r))

/-- The client's answer to a server that knows its rules. -/
theorem processServerFirst_second (session : ScramSession) {clientNonce r s second storedKey : Bytes}
    (hnonce : session.clientNonceB64 = base64Encode clientNonce)
    (hbare : session.clientFirstMessageBare = bare user clientNonce) (hown : base64Encode clientNonce <+: r)
    (hr : r ≠ []) (hs : s ≠ []) (hcomma : 44 ∉ r) (hcomma' : 44 ∉ s) (hpos : 0 < iterations)
    (hfit : iterations < 2 ^ 32)
    (hsecond : second = bytes "r=" ++ r ++ bytes ",s=" ++ s ++ bytes ",i=" ++ decimal iterations)
    (hstored : prim.sha session.digest (prim.hmac session.digest (prim.pbkdf2 session.digest session.password
      (prim.base64Decode s) iterations) (bytes "Client Key")) = some storedKey) :
    let salted := prim.pbkdf2 session.digest session.password (prim.base64Decode s) iterations
    let key := prim.hmac session.digest salted (bytes "Client Key")
    let signature := prim.hmac session.digest storedKey (authMessage user clientNonce second r)
    processServerFirst prim session second =
      ({ session with
          saltedPassword := salted
          authMessage := authMessage user clientNonce second r
          step := session.step + 1 }, .inProgress,
        bytes "c=biws" ++ bytes "," ++ (bytes "r=" ++ r ++ bytes "," ++
          (bytes "p=" ++ base64Encode (key.zipWith (· ^^^ ·) signature)))) := by
  intro salted key signature
  obtain ⟨hthree, hparams⟩ := params_of_second hcomma hcomma' hfit
  rw [← hsecond] at hthree hparams
  have hempty : ¬ (r = [] ∨ s = [] ∨ iterations = 0) := by
    rintro (h | h | h)
    · exact hr h
    · exact hs h
    · omega
  have hauth : session.clientFirstMessageBare ++ bytes "," ++ second ++ bytes "," ++ (bytes "c=biws,r=" ++ r) =
      authMessage user clientNonce second r := by
    rw [hbare]
    rfl
  unfold processServerFirst
  dsimp only
  rw [if_neg (by omega), hparams]
  dsimp only [Option.getD_some]
  rw [if_neg hempty, hnonce, if_neg (not_not_intro (List.isPrefixOf_iff_prefix.2 hown))]
  rw [hauth, hstored]
  simp [signature, key, salted, bytes]

/-- The server accepts this proof and answers with its signature. -/
theorem serverFinal_proof (hprim : Standard prim digest) (user clientNonce : Bytes) {r second key : Bytes}
    (hcomma : 44 ∉ r) (hhead : (second.splitOn 44).head? = some (bytes "r=" ++ r))
    (hkey : ∃ data salted, key = prim.hmac digest salted data)
    (hstored : prim.sha digest key = some account.storedKey) :
    let signature := prim.hmac digest account.storedKey (authMessage user clientNonce second r)
    serverFinal prim digest account (bytes "n,," ++ bare user clientNonce) second
        (bytes "c=biws" ++ bytes "," ++ (bytes "r=" ++ r ++ bytes "," ++
          (bytes "p=" ++ base64Encode (key.zipWith (· ^^^ ·) signature)))) =
      some (bytes "v=" ++ base64Encode
        (prim.hmac digest account.serverKey (authMessage user clientNonce second r))) := by
  intro signature
  obtain ⟨size, -, hsize⟩ := hprim.hmac
  obtain ⟨data, salted, hkey⟩ := hkey
  have hlen : key.length = signature.length := by rw [hkey, hsize, hsize]
  have hc : (44 : UInt8) ∉ bytes "c=biws" := by decide
  have hr : 44 ∉ bytes "r=" ++ r := by simpa [bytes] using hcomma
  have hp : 44 ∉ bytes "p=" ++ base64Encode (key.zipWith (· ^^^ ·) signature) := by
    simpa [bytes] using comma_notMem_base64Encode _
  have hback : (base64Decode (base64Encode (key.zipWith (· ^^^ ·) signature))).zipWith (· ^^^ ·) signature = key := by
    rw [base64Decode_base64Encode]
    exact Fishlim.xorBlock_xorBlock hlen
  unfold serverFinal
  rw [splitOn_comma hc, splitOn_comma hr, List.splitOn_eq_singleton hp]
  dsimp only
  rw [if_pos]
  · rfl
  · refine ⟨rfl, hhead, rfl, ?_⟩
    rw [← hstored]
    exact congrArg (prim.sha digest) hback

/-- What the client accepts as the server's signature. -/
theorem processServerFinal_success_iff {session : ScramSession} {data : Bytes} :
    (processServerFinal prim session data).2.1 = .success ↔
      3 ≤ data.length ∧ (data.head? = some 118 ∨ data.tail.head? = some 61) ∧
        prim.base64Decode (data.drop 2) = prim.hmac session.digest
          (prim.hmac session.digest session.saltedPassword (bytes "Server Key")) session.authMessage := by
  unfold processServerFinal
  dsimp only
  split_ifs with hbad hverifier
  · refine iff_of_false (fun h => h.elim) ?_
    rintro ⟨hlen, hstart, -⟩
    rcases hbad with hshort | ⟨hv, hequals⟩
    · omega
    · exact hstart.elim hv hequals
  · refine iff_of_true rfl ⟨?_, ?_, hverifier⟩
    · omega
    · tauto
  · refine iff_of_false (fun h => h.elim) ?_
    rintro ⟨-, -, h⟩
    exact hverifier h

/-- The client accepts the signature of a server that has its password. -/
theorem processServerFinal_signature (session : ScramSession) (hprim : Standard prim session.digest) {key : Bytes}
    (hkey : prim.hmac session.digest session.saltedPassword (bytes "Server Key") = key) :
    (processServerFinal prim session
      (bytes "v=" ++ base64Encode (prim.hmac session.digest key session.authMessage))).2.1 = .success := by
  obtain ⟨size, hpos, hsize⟩ := hprim.hmac
  rw [processServerFinal_success_iff]
  refine ⟨?_, .inl rfl, ?_⟩
  · rw [List.length_append, length_base64Encode, hsize, show (bytes "v=").length = 2 from rfl]
    omega
  · rw [hkey]
    exact hprim.decode _

/-- Primitives of the right sizes. -/
def sized : Primitives where
  nonce := some (List.replicate 18 0)
  digestSize _ := some 32
  pbkdf2 _ password _ _ := password
  hmac _ key data := (key ++ data ++ List.replicate 32 0).take 32
  sha _ data := some data
  base64Decode := base64Decode

theorem sized_standard (digest : Bytes) : Standard sized digest := by
  refine ⟨⟨_, rfl, rfl⟩, ⟨32, by omega, ?_⟩, fun data => ⟨data, rfl⟩, base64Decode_base64Encode⟩
  intro key data
  simp only [sized, List.length_take, List.length_append, List.length_replicate]
  omega

/-- The account of ann, whose password is "pw". -/
def annsAccount : Account where
  saslname := bytes "ann"
  salt := bytes "salt"
  iterations := 4096
  storedKey := bytes "pwClient Key" ++ List.replicate 20 0
  serverKey := bytes "pwServer Key" ++ List.replicate 20 0

/-- Ann's session before her first message. -/
def annsSession : ScramSession where
  digest := bytes "SHA256"
  digestSize := 32
  username := bytes "ann"
  password := bytes "pw"

/-- The nonce of a message comes from one of its fields. -/
theorem foldl_param_nonce (params : List Bytes) (hparams : ∀ p ∈ params, 44 ∉ p) :
    ∀ a : ServerFirst, (∀ r, a.nonce = some r → 44 ∉ r) →
      ∀ r, (params.foldl ServerFirst.param a).nonce = some r → 44 ∉ r := by
  induction params with
  | nil => exact fun a ha => ha
  | cons p params ih =>
    intro a ha
    refine ih (fun q hq => hparams q (List.mem_cons_of_mem _ hq)) (a.param p) ?_
    intro r hr
    unfold ServerFirst.param at hr
    split_ifs at hr
    · obtain rfl := Option.some.inj hr
      exact fun hmem => hparams p List.mem_cons_self (List.mem_of_mem_drop hmem)
    · exact ha r hr
    · exact ha r hr
    · exact ha r hr

theorem comma_notMem_of_splitOn (str : Bytes) {field : Bytes} (h : field ∈ str.splitOn 44) : 44 ∉ field := by
  intro hmem
  rw [List.splitOn_eq_splitOnP] at h
  exact absurd (not_sep_of_mem_splitOnP h hmem) (by decide)

/-- What a client has seen that goes on to wait for the verifier. -/
theorem processServerFirst_inProgress {session session' : ScramSession} {data output : Bytes}
    (h : processServerFirst prim session data = (session', .inProgress, output)) :
    session'.digest = session.digest ∧ session'.step = session.step + 1 ∧ ∃ r, 44 ∉ r ∧
      session.clientNonceB64 <+: r ∧ session'.authMessage = session.clientFirstMessageBare ++ bytes "," ++ data ++
        bytes "," ++ (bytes "c=biws" ++ bytes "," ++ (bytes "r=" ++ r)) := by
  unfold processServerFirst at h
  dsimp only at h
  split_ifs at h with hthree hempty hprefix
  · cases h
  · cases h
  · split at h
    · cases h
    · obtain ⟨rfl, -, -⟩ := h
      refine ⟨rfl, rfl, _, ?_, List.isPrefixOf_iff_prefix.1 hprefix, rfl⟩
      rw [not_or] at hempty
      cases hr : ((gStrsplit 44 data).foldl ServerFirst.param {}).nonce with
      | none => exact absurd (by rw [hr]; rfl) hempty.1
      | some r =>
        apply foldl_param_nonce _ ?_ {} (fun _ h => by cases h) r hr
        intro p hp
        unfold gStrsplit at hp
        split_ifs at hp
        · cases hp
        · exact comma_notMem_of_splitOn data hp
  · cases h

/-- What a server has read that answers. -/
theorem serverFirst_eq_some {first second : Bytes} (h : serverFirst account nonce first = some second) :
    ∃ name r, 44 ∉ name ∧ 44 ∉ r ∧ first = bytes "n,," ++ (name ++ bytes "," ++ r) := by
  unfold serverFirst at h
  split at h
  · rename_i flag authzid name r hfields
    split_ifs at h with hcond
    obtain ⟨rfl, rfl, -, -⟩ := hcond
    have hname : 44 ∉ name := comma_notMem_of_splitOn first (by simp [hfields])
    have hr : 44 ∉ r := comma_notMem_of_splitOn first (by simp [hfields])
    refine ⟨name, r, hname, hr, splitOn_injective ?_⟩
    rw [hfields, splitOn_header, splitOn_comma hname, List.splitOn_eq_singleton hr]
  · cases h

/-- What a server has read that accepts a proof. -/
theorem serverFinal_eq_some {first second last verifier : Bytes}
    (h : serverFinal prim digest account first second last = some verifier) :
    ∃ r, 44 ∉ r ∧ verifier = bytes "v=" ++ base64Encode (prim.hmac digest account.serverKey
      (first.drop 3 ++ bytes "," ++ second ++ bytes "," ++ (bytes "c=biws" ++ bytes "," ++ r))) := by
  unfold serverFinal at h
  split at h
  · rename_i c r p hfields
    dsimp only at h
    split_ifs at h with hcond
    obtain ⟨rfl, -, -, -⟩ := hcond
    exact ⟨r, comma_notMem_of_splitOn last (by simp [hfields]), (Option.some.inj h).symm⟩
  · cases h

/-- A signed text has one reading: the two first fields, what the server sent, and the two last. -/
theorem signed_injective {name r data c nonce name' r' data' nonce' : Bytes} (hname : 44 ∉ name) (hr : 44 ∉ r)
    (hc : 44 ∉ c) (hnonce : 44 ∉ nonce) (hname' : 44 ∉ name') (hr' : 44 ∉ r') (hnonce' : 44 ∉ nonce')
    (h : name ++ bytes "," ++ r ++ bytes "," ++ data ++ bytes "," ++ (c ++ bytes "," ++ nonce) =
      name' ++ bytes "," ++ r' ++ bytes "," ++ data' ++ bytes "," ++ (c ++ bytes "," ++ nonce')) :
    name = name' ∧ r = r' ∧ data = data' := by
  have hfields := congrArg (List.splitOn (44 : UInt8)) h
  simp only [splitOn_comma_append, List.splitOn_eq_singleton hname, List.splitOn_eq_singleton hr,
    List.splitOn_eq_singleton hc, List.splitOn_eq_singleton hnonce, List.splitOn_eq_singleton hname',
    List.splitOn_eq_singleton hr', List.splitOn_eq_singleton hnonce'] at hfields
  obtain ⟨hfront, -⟩ := List.append_inj' hfields rfl
  obtain ⟨hone, hfront⟩ := List.cons.inj hfront
  obtain ⟨htwo, hfront⟩ := List.cons.inj hfront
  exact ⟨hone, htwo, splitOn_injective hfront⟩

/-- The second message of Ann's server. -/
def annsSecond : Bytes := bytes "r=AAAAAAAAAAAAAAAAAAAAAAAAABC,s=c2FsdA==,i=4096"

/-- Ann's session and message after the first and after the second message of her server. -/
def annsFirst : ScramSession × ScramStatus × Bytes := scramProcess sized annsSession (bytes "+")

def annsLast : ScramSession × ScramStatus × Bytes := scramProcess sized annsFirst.1 annsSecond

end PoxChat.Cap
