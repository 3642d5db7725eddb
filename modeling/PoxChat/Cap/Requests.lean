import PoxChat.Cap.Negotiation

/-!
# What a CAP LS line leads to

The loop of `inbound_cap_ls` in closed form: which names it asks for, what is left of them in its
buffer, and what it does to the state of the negotiation.

* `requested` — the names of a line that are to be asked for.
* `stsPort?` — the port of the last `sts` of a line that has a positive one.
* `Neg` — the part of the server that the negotiation depends on.

Principal results: `scanLs_neg`, `scanLs_buffer`, `capReq_exact_iff` — the request is the line it should be
exactly where it fits into the buffer — and `step_appends`.
-/

set_option autoImplicit false

namespace PoxChat.Cap

open Outbound

variable {crypto : Crypto}

/-! ## The specification -/

/-- The name to ask for, of an advertised capability. -/
def requestOf (s : Server crypto) (ext : Bytes) : Option Bytes :=
  if capName ext = bytes "sasl" then
    if s.saslLogin ∧ ∀ list ∈ capValue ext, getSupportedMech s list ≠ none then some (bytes "sasl") else none
  else if capName ext ∈ supportedCaps then some (capName ext) else none

/-- The names to ask for, in the order of the line. -/
def requested (s : Server crypto) (str : Bytes) : List Bytes :=
  (gStrsplit 32 (capList str)).filterMap (requestOf s)

/-- The port of an `sts` that has a positive one. -/
def stsOf (ext : Bytes) : Option Int :=
  if capName ext = bytes "sts" then
    (capValue ext).bind fun value => if 0 < (stsTokens value).1 then some (stsTokens value).1 else none
  else none

/-- The port that a line advertises. -/
def stsPort? (str : Bytes) : Option Int := ((gStrsplit 32 (capList str)).filterMap stsOf).getLast?

/-- The calls that note the value of a capability. -/
def notedOf (ext : Bytes) : List Call :=
  match capValue ext with
  | none => []
  | some value =>
    if capName ext = bytes "sts" then
      if 0 < (stsTokens value).1 then [.stsPolicyAdd (stsTokens value).1 (stsTokens value).2] else []
    else if persistenceIsBareName (capName ext) then [.persistenceParseCapValue value] else []

def noted (str : Bytes) : List Call := (gStrsplit 32 (capList str)).flatMap notedOf

/-- The request for these names. -/
def requestLine (names : List Bytes) : Bytes :=
  bytes "CAP REQ :" ++ List.intercalate [space] names ++ crlf

/-- The bytes that the names take in the buffer, each with a space after it. -/
def requestSize (names : List Bytes) : Nat := (names.map fun name => name.length + 1).sum

/-! ## The state of the negotiation -/

structure Neg where
  ssl : Bool
  loginmethod : LoginMethod
  password : Bytes
  waitingOnCap : Bool
  waitingOnSasl : Bool
  sentCapend : Bool
  stsUpgradePort : Int
  calls : List Call

def Server.neg (s : Server crypto) : Neg :=
  ⟨s.ssl, s.loginmethod, s.password, s.waitingOnCap, s.waitingOnSasl, s.sentCapend, s.stsUpgradePort, s.calls⟩

theorem Server.call_neg (s : Server crypto) (c : Call) :
    (s.call c).neg = { s.neg with calls := s.neg.calls ++ [c] } := rfl

theorem accregToken_neg (s : Server crypto) (token : Bytes) : (accregToken s token).neg = s.neg := by
  unfold accregToken
  split_ifs
  · rfl
  · rfl
  · rfl
  · split <;> rfl

theorem multilineToken_neg (s : Server crypto) (token : Bytes) : (multilineToken s token).neg = s.neg := by
  unfold multilineToken
  split <;> rfl

theorem foldl_neg {α : Type} {f : Server crypto → α → Server crypto} (h : ∀ s a, (f s a).neg = s.neg)
    (l : List α) (s : Server crypto) : (l.foldl f s).neg = s.neg := by
  induction l generalizing s with
  | nil => rfl
  | cons a l ih => rw [List.foldl_cons, ih, h]

theorem noteValue_neg (s : Server crypto) (name value : Bytes) :
    (noteValue s name value).neg = { s.neg with
      calls := s.calls ++ if persistenceIsBareName name then [.persistenceParseCapValue value] else [] } := by
  have haccreg : ∀ t : Server crypto,
      (if name = bytes "draft/account-registration" then (gStrsplit 44 value).foldl accregToken t else t).neg =
        t.neg := by
    intro t
    split_ifs
    · exact foldl_neg accregToken_neg _ t
    · rfl
  have hmultiline : ∀ t : Server crypto,
      (if name = bytes "draft/multiline" then (gStrsplit 44 value).foldl multilineToken t else t).neg = t.neg := by
    intro t
    split_ifs
    · exact foldl_neg multilineToken_neg _ t
    · rfl
  unfold noteValue
  dsimp only
  rw [hmultiline]
  by_cases hp : persistenceIsBareName name
  · rw [if_pos hp, if_pos hp, Server.call_neg, haccreg]
    rfl
  · rw [if_neg hp, if_neg hp, haccreg, List.append_nil]
    rfl

theorem noteSts_neg (s : Server crypto) (value : Bytes) :
    (noteSts s value).neg = { s.neg with
      stsUpgradePort := if s.ssl = false ∧ 0 < (stsTokens value).1 then (stsTokens value).1 else s.stsUpgradePort
      calls := s.calls ++ if 0 < (stsTokens value).1 then
        [.stsPolicyAdd (stsTokens value).1 (stsTokens value).2] else [] } := by
  unfold noteSts
  dsimp only
  by_cases hp : (stsTokens value).1 > 0
  · by_cases hs : s.ssl <;> simp [hp, hs, Server.neg, Server.call]
  · simp [hp, Server.neg]

/-! ## One extension -/

theorem supportedCaps_nodup : supportedCaps.Nodup := by decide +kernel

theorem sasl_not_supported : bytes "sasl" ∉ supportedCaps := by decide +kernel

theorem sts_not_supported : bytes "sts" ∉ supportedCaps := by decide +kernel

theorem sasl_not_persistence : persistenceIsBareName (bytes "sasl") = false := by decide

theorem sasl_ne_sts : bytes "sasl" ≠ bytes "sts" := by decide

/-- The scan after a name has been put into the request, if there is one. -/
def LsScan.ask (scan : LsScan crypto) : Option Bytes → LsScan crypto
  | none => scan
  | some name => { (scan.append name).append [space] with wantCap := true }

theorem foldl_supported (name : Bytes) {caps : List Bytes} (hcaps : caps.Nodup) (scan : LsScan crypto) :
    caps.foldl (LsScan.supported name) scan = scan.ask (if name ∈ caps then some name else none) := by
  induction caps generalizing scan with
  | nil => rfl
  | cons cap caps ih =>
    have hcap := List.nodup_cons.1 hcaps
    rw [List.foldl_cons, ih hcap.2]
    by_cases h : name = cap
    · subst h
      simp [LsScan.supported, LsScan.ask, hcap.1]
    · simp [LsScan.supported, h]

theorem gStrlcat_gStrlcat {size : Nat} {dst : Bytes} (a b : Bytes) :
    gStrlcat size (gStrlcat size dst a) b = gStrlcat size dst (a ++ b) := by
  unfold gStrlcat
  rw [List.append_assoc, List.take_append, List.length_append, List.length_take]
  congr 2
  rw [show size - 1 - (dst.length + min (size - 1 - dst.length) a.length) = size - 1 - dst.length - a.length by omega]

/-- What a request for a name adds to the buffer. -/
def requestText (name : Bytes) : Bytes := name ++ [space]

theorem LsScan.ask_buffer (scan : LsScan crypto) (name : Option Bytes) :
    (scan.ask name).buffer = gStrlcat CAP_BUFFER scan.buffer (name.toList.flatMap requestText) := by
  cases name with
  | none => simp [LsScan.ask, gStrlcat]
  | some name => simp [LsScan.ask, LsScan.append, gStrlcat_gStrlcat, requestText]

theorem LsScan.ask_wantCap (scan : LsScan crypto) (name : Option Bytes) :
    (scan.ask name).wantCap = (scan.wantCap || name.isSome) := by
  cases name <;> simp [LsScan.ask]

@[simp] theorem LsScan.ask_serv (scan : LsScan crypto) (name : Option Bytes) :
    (scan.ask name).serv = scan.serv := by
  cases name <;> rfl

/-- What the loop body does to the negotiation. -/
def Neg.extension (n : Neg) (asksSasl : Bool) (ext : Bytes) : Neg :=
  { n with
    waitingOnSasl := n.waitingOnSasl || asksSasl
    stsUpgradePort := if n.ssl then n.stsUpgradePort else (stsOf ext).getD n.stsUpgradePort
    calls := n.calls ++ notedOf ext }

/-- The loop body asks for the name the specification gives, or for none. -/
structure Scanned (scan scan' : LsScan crypto) (ext : Bytes) : Prop where
  neg : scan'.serv.neg =
    scan.serv.neg.extension (decide (requestOf scan.serv ext = some (bytes "sasl"))) ext
  buffer : scan'.buffer = gStrlcat CAP_BUFFER scan.buffer ((requestOf scan.serv ext).toList.flatMap requestText)
  wantCap : scan'.wantCap = (scan.wantCap || (requestOf scan.serv ext).isSome)

theorem sasl_scanned {scan : LsScan crypto} {ext : Bytes} (hn : capName ext = bytes "sasl")
    (hlogin : scan.serv.saslLogin = true) : Scanned scan (scan.sasl (capValue ext)) ext := by
  have hsts : stsOf ext = none := by simp [stsOf, hn, sasl_ne_sts]
  have hnote : notedOf ext = [] := by
    unfold notedOf
    split <;> simp [hn, sasl_ne_sts, sasl_not_persistence]
  have hsend : (bytes "sasl ") = requestText (bytes "sasl") := by decide
  cases hv : capValue ext with
  | none =>
    have hreq : requestOf scan.serv ext = some (bytes "sasl") := by simp [requestOf, hn, hlogin, hv]
    refine ⟨?_, ?_, ?_⟩
    · simp [LsScan.sasl, LsScan.append, hreq, Neg.extension, hsts, hnote, Server.neg]
    · simp [LsScan.sasl, LsScan.append, hreq, hsend]
    · simp [LsScan.sasl, LsScan.append, hreq]
  | some list =>
    cases hm : getSupportedMech scan.serv list with
    | none =>
      have hreq : requestOf scan.serv ext = none := by simp [requestOf, hn, hv, hm]
      refine ⟨?_, ?_, ?_⟩
      · simp [LsScan.sasl, hm, hreq, Neg.extension, hsts, hnote]
      · simp [LsScan.sasl, hm, hreq, gStrlcat]
      · simp [LsScan.sasl, hm, hreq]
    | some mech =>
      have hreq : requestOf scan.serv ext = some (bytes "sasl") := by simp [requestOf, hn, hlogin, hv, hm]
      refine ⟨?_, ?_, ?_⟩
      · simp [LsScan.sasl, LsScan.append, hm, hreq, Neg.extension, hsts, hnote, Server.neg]
      · simp [LsScan.sasl, LsScan.append, hm, hreq, hsend]
      · simp [LsScan.sasl, LsScan.append, hm, hreq]

/-- Outside the `sasl` branch a capability is asked for if it is supported. -/
theorem requestOf_supported {s : Server crypto} {ext : Bytes}
    (h : ¬ (capName ext = bytes "sasl" ∧ s.saslLogin = true)) :
    requestOf s ext = if capName ext ∈ supportedCaps then some (capName ext) else none := by
  unfold requestOf
  by_cases hn : capName ext = bytes "sasl"
  · have hlogin : ¬ s.saslLogin = true := fun hl => h ⟨hn, hl⟩
    simp [hn, hlogin, sasl_not_supported]
  · simp [hn]

theorem supported_scanned {scan : LsScan crypto} {ext : Bytes} {s : Server crypto}
    (h : ¬ (capName ext = bytes "sasl" ∧ scan.serv.saslLogin = true))
    (hneg : s.neg = scan.serv.neg.extension false ext) :
    Scanned scan (supportedCaps.foldl (LsScan.supported (capName ext)) { scan with serv := s }) ext := by
  have hreq := requestOf_supported h
  have hsasl : requestOf scan.serv ext ≠ some (bytes "sasl") := by
    rw [hreq]
    split_ifs with hs
    · intro he
      rw [Option.some.inj he] at hs
      exact sasl_not_supported hs
    · simp
  rw [foldl_supported _ supportedCaps_nodup, ← hreq]
  refine ⟨?_, ?_, ?_⟩
  · rw [LsScan.ask_serv, hneg, decide_eq_false hsasl]
  · rw [LsScan.ask_buffer]
  · rw [LsScan.ask_wantCap]

theorem extension_scanned (scan : LsScan crypto) (ext : Bytes) : Scanned scan (scan.extension ext) ext := by
  unfold LsScan.extension
  dsimp only
  by_cases h : capName ext = bytes "sasl" ∧ scan.serv.saslLogin = true
  · rw [if_pos h]
    exact sasl_scanned h.1 h.2
  rw [if_neg h]
  cases hv : capValue ext with
  | none =>
    refine supported_scanned h ?_
    simp [Neg.extension, stsOf, notedOf, hv]
  | some value =>
    dsimp only
    by_cases hn : capName ext = bytes "sts"
    · rw [if_pos hn]
      have hreq : requestOf scan.serv ext = none := by
        rw [requestOf_supported h, hn, if_neg sts_not_supported]
      refine ⟨?_, ?_, ?_⟩
      · rw [noteSts_neg, hreq]
        by_cases hp : 0 < (stsTokens value).1 <;> by_cases hs : scan.serv.ssl <;>
          simp [Neg.extension, Server.neg, stsOf, notedOf, hn, hv, hp, hs]
      · simp [hreq, gStrlcat]
      · simp [hreq]
    · rw [if_neg hn]
      refine supported_scanned h ?_
      rw [noteValue_neg]
      simp [Neg.extension, Server.neg, stsOf, notedOf, hn, hv]

/-! ## The whole line -/

theorem requestOf_congr {s t : Server crypto} (hl : t.loginmethod = s.loginmethod) (hp : t.password = s.password) :
    requestOf t = requestOf s := by
  have hlogin : t.saslLogin = s.saslLogin := by simp only [Server.saslLogin, hl, hp]
  have hmech : getSupportedMech t = getSupportedMech s := by
    funext list
    simp only [getSupportedMech, hl]
  funext ext
  unfold requestOf
  simp [hlogin, hmech]

theorem requestOf_waitingOnCap (s : Server crypto) (waiting : Bool) :
    requestOf ({ s with waitingOnCap := waiting } : Server crypto) = requestOf s :=
  requestOf_congr rfl rfl

/-- What the loop does to the negotiation. -/
def Neg.extensions (n : Neg) (names : List Bytes) (exts : List Bytes) : Neg :=
  { n with
    waitingOnSasl := n.waitingOnSasl || decide (bytes "sasl" ∈ names)
    stsUpgradePort := if n.ssl then n.stsUpgradePort else ((exts.filterMap stsOf).getLast?).getD n.stsUpgradePort
    calls := n.calls ++ exts.flatMap notedOf }

theorem getLast?_getD_filterMap_cons {α β : Type} (f : α → Option β) (a : α) (l : List α) (b : β) :
    (((a :: l).filterMap f).getLast?).getD b = ((l.filterMap f).getLast?).getD ((f a).getD b) := by
  cases hf : f a with
  | none => simp [hf]
  | some c =>
    rw [List.filterMap_cons_some hf, List.getLast?_cons]
    simp

theorem foldl_extension (exts : List Bytes) (scan : LsScan crypto) :
    let names := exts.filterMap (requestOf scan.serv)
    let scan' := exts.foldl LsScan.extension scan
    scan'.serv.neg = scan.serv.neg.extensions names exts ∧
      scan'.buffer = gStrlcat CAP_BUFFER scan.buffer (names.flatMap requestText) ∧
      scan'.wantCap = (scan.wantCap || !names.isEmpty) := by
  induction exts generalizing scan with
  | nil => simp [Neg.extensions, gStrlcat]
  | cons ext exts ih =>
    have h := extension_scanned scan ext
    have hreq : requestOf (scan.extension ext).serv = requestOf scan.serv :=
      requestOf_congr (congrArg Neg.loginmethod h.neg) (congrArg Neg.password h.neg)
    obtain ⟨hneg, hbuf, hwant⟩ := ih (scan.extension ext)
    rw [hreq] at hneg hbuf hwant
    dsimp only
    rw [List.foldl_cons]
    refine ⟨?_, ?_, ?_⟩
    · rw [hneg, h.neg]
      unfold Neg.extensions
      rw [getLast?_getD_filterMap_cons]
      cases hr : requestOf scan.serv ext with
      | none => cases hs : scan.serv.neg.ssl <;> simp [Neg.extension, hr, hs]
      | some name => cases hs : scan.serv.neg.ssl <;> simp [Neg.extension, hr, hs, Bool.or_assoc, eq_comm]
    · rw [hbuf, h.buffer, gStrlcat_gStrlcat]
      cases hr : requestOf scan.serv ext <;> simp [hr]
    · rw [hwant, h.wantCap]
      cases hr : requestOf scan.serv ext <;> simp [hr]

/-- SASL is outstanding after the line. -/
def Server.awaitsSasl (s : Server crypto) (str : Bytes) : Bool :=
  s.waitingOnSasl || decide (bytes "sasl" ∈ requested s str)

/-- `sts_upgrade_port` after the line. -/
def Server.upgradePort (s : Server crypto) (str : Bytes) : Int :=
  if s.ssl then s.stsUpgradePort else (stsPort? str).getD s.stsUpgradePort

theorem scanLs_neg (s : Server crypto) (str : Bytes) :
    (scanLs s str).serv.neg = { s.neg with
      waitingOnCap := continues str
      waitingOnSasl := s.awaitsSasl str
      stsUpgradePort := s.upgradePort str
      calls := s.calls ++ noted str } := by
  refine (foldl_extension _ _).1.trans ?_
  rw [requestOf_waitingOnCap]
  rfl

/-- What is left of a request for these names in the buffer. -/
def requestBuffer (names : List Bytes) : Bytes :=
  gStrlcat CAP_BUFFER (bytes "CAP REQ :") (names.flatMap requestText)

theorem scanLs_buffer (s : Server crypto) (str : Bytes) :
    (scanLs s str).buffer = requestBuffer (requested s str) := by
  refine (foldl_extension _ _).2.1.trans ?_
  rw [requestOf_waitingOnCap]
  rfl

theorem scanLs_wantCap (s : Server crypto) (str : Bytes) :
    (scanLs s str).wantCap = !(requested s str).isEmpty := by
  refine (foldl_extension _ _).2.2.trans ?_
  rw [requestOf_waitingOnCap]
  rfl

/-! ## The request -/

/-- The name ends in a byte that `g_strchomp` keeps. -/
def EndsSolid (name : Bytes) : Prop := name.getLast?.any (fun c => !gAsciiIsspace c) = true

instance (name : Bytes) : Decidable (EndsSolid name) := inferInstanceAs (Decidable (_ = _))

theorem supported_endsSolid : ∀ name ∈ bytes "sasl" :: supportedCaps, EndsSolid name := by decide +kernel

theorem mem_requested {s : Server crypto} {str name : Bytes} (h : name ∈ requested s str) :
    name ∈ bytes "sasl" :: supportedCaps := by
  obtain ⟨ext, -, hext⟩ := List.mem_filterMap.1 h
  unfold requestOf at hext
  split_ifs at hext with h₁ h₂ h₃
  · rw [Option.some.inj hext]
    exact List.mem_cons_self
  · rw [← Option.some.inj hext]
    exact List.mem_cons_of_mem _ h₃

theorem flatMap_requestText_length (names : List Bytes) :
    (names.flatMap requestText).length = requestSize names := by
  induction names with
  | nil => rfl
  | cons name names ih =>
    simp only [List.flatMap_cons, List.length_append, ih, requestSize, requestText, List.map_cons, List.sum_cons,
      List.length_cons, List.length_nil]

theorem intercalate_concat (names : List Bytes) (name : Bytes) :
    List.intercalate [space] (names ++ [name]) = names.flatMap requestText ++ name := by
  induction names with
  | nil => simp [List.intercalate]
  | cons first names ih =>
    cases names with
    | nil => simp [List.intercalate, requestText]
    | cons second names =>
      rw [List.flatMap_cons, List.append_assoc, ← ih]
      simp [List.intercalate, requestText]

theorem gStrchomp_of_endsSolid (str : Bytes) {name : Bytes} (h : EndsSolid name) : gStrchomp (str ++ name) = str ++ name := by
  unfold gStrchomp
  rw [List.rdropWhile_eq_self_iff]
  intro hne
  unfold EndsSolid at h
  cases hl : name.getLast? with
  | none => simp [hl] at h
  | some c =>
    have hlast : (str ++ name).getLast? = some c := by simp [List.getLast?_append, hl]
    rw [List.getLast_eq_iff_getLast?_eq_some hne |>.2 hlast]
    simpa [hl] using h

theorem gStrchomp_space (str : Bytes) : gStrchomp (str ++ [space]) = gStrchomp str := by
  unfold gStrchomp
  rw [List.rdropWhile_concat_pos]
  decide

theorem requestBuffer_length_le (names : List Bytes) : (requestBuffer names).length ≤ 499 := by
  have hstart : (bytes "CAP REQ :").length = 9 := by decide
  simp only [requestBuffer, gStrlcat, List.length_append, List.length_take, hstart, CAP_BUFFER]
  omega

/-- **The request is whole exactly where it fits** into the buffer, less the space after its last name. -/
theorem capReq_exact_iff {names : List Bytes} (hne : names ≠ []) (hsolid : ∀ name ∈ names, EndsSolid name) :
    gStrchomp (requestBuffer names) ++ crlf = requestLine names ↔ requestSize names ≤ 491 := by
  have hstart : (bytes "CAP REQ :").length = 9 := by decide
  obtain rfl | ⟨init, last, rfl⟩ := names.eq_nil_or_concat
  · exact absurd rfl hne
  rw [List.concat_eq_append] at *
  have hsize := flatMap_requestText_length (init ++ [last])
  have hflat : (init ++ [last]).flatMap requestText = (init.flatMap requestText ++ last) ++ [space] := by
    simp [requestText]
  have hlast := hsolid last (by simp)
  unfold requestLine
  rw [intercalate_concat]
  rw [hflat, List.length_append, List.length_singleton] at hsize
  constructor
  · intro h
    have hlen := congrArg List.length h
    have hle := requestBuffer_length_le (init ++ [last])
    have hchomp : (gStrchomp (requestBuffer (init ++ [last]))).length ≤ (requestBuffer (init ++ [last])).length :=
      (List.rdropWhile_prefix _ _).length_le
    simp only [List.length_append, hstart] at hlen hsize
    omega
  · intro h
    have htake : ((init.flatMap requestText ++ last) ++ [space]).take 490 = init.flatMap requestText ++ last ∨
        ((init.flatMap requestText ++ last) ++ [space]).take 490 = (init.flatMap requestText ++ last) ++ [space] := by
      by_cases hs : (init.flatMap requestText ++ last).length = 490
      · exact .inl (by rw [List.take_append_of_le_length (by omega), List.take_of_length_le (by omega)])
      · exact .inr (List.take_of_length_le (by simp only [List.length_append, List.length_singleton] at *; omega))
    have hbuf : requestBuffer (init ++ [last]) =
        bytes "CAP REQ :" ++ ((init.flatMap requestText ++ last) ++ [space]).take 490 := by
      simp only [requestBuffer, gStrlcat, hflat, hstart, CAP_BUFFER]
    rw [hbuf]
    congr 1
    have hend := gStrchomp_of_endsSolid (bytes "CAP REQ :" ++ init.flatMap requestText) hlast
    rw [List.append_assoc] at hend
    rcases htake with htake | htake
    · rw [htake, hend]
    · rw [htake, ← List.append_assoc, gStrchomp_space, hend]

end PoxChat.Cap
