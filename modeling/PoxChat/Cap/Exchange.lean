import PoxChat.Cap.Requests
import PoxChat.Lib.Program

/-!
# The registration exchange

What each event of the negotiation sends, and when the requests and the CAP END of a whole exchange are
what they should be.

* `onConnection` — the calls before the first disconnect: a later line is not sent on the connection.
* `Talks` — what an event that does not end the list does to a connection.

Principal result: `negotiation_exact`.
-/

set_option autoImplicit false

namespace PoxChat.Cap

open Lib Outbound

variable {crypto : Crypto}

/-! ## Calls -/

def onConnection (calls : List Call) : List Call := calls.takeWhile (· ≠ .disconnect)

/-- The connection has not been given up. -/
def Server.IsOpen (s : Server crypto) : Prop := .disconnect ∉ s.calls

instance (s : Server crypto) : Decidable s.IsOpen := inferInstanceAs (Decidable (¬ _))

/-- An AUTHENTICATE line, a SASL payload or CAP END: the client goes on with the login. -/
def Call.proceeds : Call → Bool
  | .send (.authenticate _) => true
  | .send (.saslPayload _) => true
  | .send .capEnd => true
  | _ => false

def Call.capReq? : Call → Option Bytes
  | .send (.capReq line) => some line
  | _ => none

/-- The calls an event adds. -/
def callsOf (s : Server crypto) (e : Event) : List Call := (step s e).calls.drop s.calls.length

theorem callsOf_eq {s : Server crypto} {e : Event} {calls : List Call} (h : (step s e).calls = s.calls ++ calls) :
    callsOf s e = calls := by
  rw [callsOf, h, List.drop_left]

/-- An event that leaves the connection as it is, and the calls it makes.  CAP END goes out only where the
bit says that it has not. -/
structure Talks (s t : Server crypto) (calls : List Call) : Prop where
  appends : t.calls = s.calls ++ calls
  ssl : t.ssl = s.ssl
  stsUpgradePort : t.stsUpgradePort = s.stsUpgradePort
  stays : .disconnect ∉ calls
  asks : calls.filterMap Call.capReq? = []
  ends : s.sentCapend.toNat + calls.count (.send .capEnd) = t.sentCapend.toNat

theorem Talks.of_neg {s t : Server crypto} (hssl : t.ssl = s.ssl) (hport : t.stsUpgradePort = s.stsUpgradePort)
    (hend : t.sentCapend = s.sentCapend) (hcalls : t.calls = s.calls) : Talks s t [] :=
  ⟨by simp [hcalls], hssl, hport, by simp, rfl, by simp [hend]⟩

/-- Only the connection, the port and the bit of the state before matter. -/
theorem Talks.left {s s' t : Server crypto} {calls : List Call} (h : Talks s' t calls) (hssl : s'.ssl = s.ssl)
    (hport : s'.stsUpgradePort = s.stsUpgradePort) (hend : s'.sentCapend = s.sentCapend)
    (hcalls : s'.calls = s.calls) : Talks s t calls :=
  ⟨hcalls ▸ h.appends, hssl ▸ h.ssl, hport ▸ h.stsUpgradePort, h.stays, h.asks, hend ▸ h.ends⟩

theorem Talks.right {s t t' : Server crypto} {calls : List Call} (h : Talks s t calls) (hssl : t'.ssl = t.ssl)
    (hport : t'.stsUpgradePort = t.stsUpgradePort) (hend : t'.sentCapend = t.sentCapend)
    (hcalls : t'.calls = t.calls) : Talks s t' calls :=
  ⟨hcalls.trans h.appends, hssl.trans h.ssl, hport.trans h.stsUpgradePort, h.stays, h.asks, by rw [h.ends, hend]⟩

theorem Talks.trans {s t u : Server crypto} {calls calls' : List Call} (h : Talks s t calls) (h' : Talks t u calls') :
    Talks s u (calls ++ calls') where
  appends := by rw [h'.appends, h.appends, List.append_assoc]
  ssl := h'.ssl.trans h.ssl
  stsUpgradePort := h'.stsUpgradePort.trans h.stsUpgradePort
  stays := by simp [h.stays, h'.stays]
  asks := by rw [List.filterMap_append, h.asks, h'.asks, List.append_nil]
  ends := by
    rw [List.count_append, ← Nat.add_assoc, h.ends]
    exact h'.ends

theorem Talks.authenticate (s : Server crypto) (arg : Bytes) :
    Talks s (s.send (.authenticate arg)) [.send (.authenticate arg)] :=
  ⟨rfl, rfl, rfl, by simp, rfl, by simp [Server.send, Server.call]⟩

theorem Talks.saslPayload (s : Server crypto) (buf : Bytes) :
    Talks s (s.send (.saslPayload buf)) [.send (.saslPayload buf)] :=
  ⟨rfl, rfl, rfl, by simp, rfl, by simp [Server.send, Server.call]⟩

theorem Talks.isupport (s : Server crypto) : Talks s (s.send .isupport) [.send .isupport] :=
  ⟨rfl, rfl, rfl, by simp, rfl, by simp [Server.send, Server.call]⟩

theorem Talks.persistenceSendAttach (s : Server crypto) :
    Talks s (s.call .persistenceSendAttach) [.persistenceSendAttach] :=
  ⟨rfl, rfl, rfl, by simp, rfl, by simp [Server.call]⟩

theorem Talks.capEnd {s : Server crypto} (h : s.sentCapend = false) :
    Talks s ({ s with sentCapend := true }.send .capEnd) [.send .capEnd] :=
  ⟨rfl, rfl, rfl, by simp, rfl, by simp [Server.send, Server.call, h]⟩

/-! ## ACK and DEL -/

theorem toggleCap_talks (enable : Bool) (s : Server crypto) (ext : Bytes) :
    ∃ calls, Talks s (toggleCap enable s ext) calls ∧
      calls.any Call.proceeds = (enable && decide (ext = bytes "sasl")) := by
  have hflags : capFlags.lookup (bytes "sasl") = none := by decide
  by_cases hext : ext = bytes "sasl"
  · subst hext
    have hne : bytes "sasl" ≠ bytes "draft/chathistory" := by decide
    have hne' : bytes "sasl" ≠ bytes "draft/extended-isupport" := by decide
    unfold toggleCap
    simp only [hflags, if_neg hne, sasl_not_persistence, Bool.false_eq_true, if_false, if_neg hne', if_true]
    cases enable with
    | false => exact ⟨[], .of_neg rfl rfl rfl rfl, rfl⟩
    | true =>
      refine ⟨_, (Talks.authenticate _ _).left ?_ ?_ ?_ ?_, rfl⟩ <;> rfl
  · rw [decide_eq_false hext, Bool.and_false]
    unfold toggleCap
    split
    · exact ⟨[], .of_neg rfl rfl rfl rfl, rfl⟩
    split_ifs
    · exact ⟨[], .of_neg rfl rfl rfl rfl, rfl⟩
    · exact ⟨[], .of_neg rfl rfl rfl rfl, rfl⟩
    · exact ⟨[], .of_neg rfl rfl rfl rfl, rfl⟩
    · exact ⟨_, (Talks.isupport (s.setFlag .extendedIsupport enable)).left rfl rfl rfl rfl, rfl⟩
    · exact ⟨[], .of_neg rfl rfl rfl rfl, rfl⟩
    · exact ⟨[], .of_neg rfl rfl rfl rfl, rfl⟩

theorem foldl_toggleCap_talks (enable : Bool) (exts : List Bytes) (s : Server crypto) :
    ∃ calls, Talks s (exts.foldl (toggleCap enable) s) calls ∧
      calls.any Call.proceeds = (enable && decide (bytes "sasl" ∈ exts)) := by
  induction exts generalizing s with
  | nil => exact ⟨[], .of_neg rfl rfl rfl rfl, by simp⟩
  | cons ext exts ih =>
    obtain ⟨calls, htalk, hauth⟩ := toggleCap_talks enable s ext
    obtain ⟨calls', htalk', hauth'⟩ := ih (toggleCap enable s ext)
    refine ⟨calls ++ calls', htalk.trans htalk', ?_⟩
    rw [List.any_append, hauth, hauth', ← Bool.and_or_distrib_left, ← Bool.decide_or]
    simp [eq_comm]

/-! ## SASL -/

theorem saslSendAuthenticate_talks (s : Server crypto) (encoded : Bytes) :
    ∃ calls, Talks s (saslSendAuthenticate s encoded) calls ∧ calls.any Call.proceeds = true :=
  ⟨_, Talks.saslPayload s _, rfl⟩

theorem scramAuthenticate_talks (s : Server crypto) (data digest : Bytes) :
    ∃ calls, Talks s (scramAuthenticate s data digest) calls ∧ calls.any Call.proceeds = true := by
  unfold scramAuthenticate
  split
  · exact ⟨_, Talks.authenticate s _, rfl⟩
  · unfold scramContinue
    split
    · refine ⟨_, (Talks.authenticate _ _).left ?_ ?_ ?_ ?_, rfl⟩ <;> rfl
    · exact ⟨_, (Talks.authenticate s _).right rfl rfl rfl rfl, rfl⟩
    · exact ⟨_, (Talks.authenticate s _).right rfl rfl rfl rfl, rfl⟩

theorem oauthAuthenticate_talks (s : Server crypto) (now : Int) :
    ∃ calls, Talks s (oauthAuthenticate s now) calls ∧ calls.any Call.proceeds = true := by
  unfold oauthAuthenticate
  split_ifs
  · exact ⟨_, Talks.authenticate s _, rfl⟩
  · exact ⟨_, Talks.authenticate s _, rfl⟩
  · split
    · exact ⟨_, Talks.authenticate s _, rfl⟩
    · exact saslSendAuthenticate_talks s _

theorem inboundSaslAuthenticate_talks (s : Server crypto) (data : Bytes) (now : Int) :
    ∃ calls, Talks s (inboundSaslAuthenticate s data now) calls ∧ calls.any Call.proceeds = !decide (44 ∈ data) := by
  unfold inboundSaslAuthenticate
  by_cases hd : (44 : UInt8) ∈ data
  · rw [if_pos hd]
    exact ⟨[], .of_neg rfl rfl rfl rfl, by simp [hd]⟩
  · rw [if_neg hd, decide_eq_false hd]
    cases s.saslMech with
    | plain => exact saslSendAuthenticate_talks s _
    | external => exact ⟨_, Talks.authenticate s _, rfl⟩
    | scramSha1 => exact scramAuthenticate_talks s _ _
    | scramSha256 => exact scramAuthenticate_talks s _ _
    | scramSha512 => exact scramAuthenticate_talks s _ _
    | oauthbearer => exact oauthAuthenticate_talks s now

theorem inboundSaslError_talks (s : Server crypto) :
    Talks s (inboundSaslError s) [.send (.authenticate (bytes "*"))] :=
  (Talks.authenticate { s with scramSession := none } _).left rfl rfl rfl rfl

/-- CAP END, where it has not been sent. -/
def endCalls (s : Server crypto) : List Call := if s.sentCapend then [] else [.send .capEnd]

theorem saslDone_talks (s : Server crypto) : Talks s (saslDone s) (endCalls s) := by
  unfold saslDone endCalls
  dsimp only
  by_cases h : s.sentCapend
  · rw [if_pos h, if_pos h]
    exact .of_neg rfl rfl rfl rfl
  · rw [if_neg h, if_neg h]
    have h' : s.sentCapend = false := by simpa using h
    exact (Talks.capEnd (s := { s with waitingOnSasl := false }) h').left rfl rfl rfl rfl

theorem saslResult_talks (s : Server crypto) (n : SaslNumeric) :
    ∃ calls, Talks s (saslResult s n) calls ∧ calls.any Call.proceeds = !s.sentCapend := by
  unfold saslResult
  dsimp only
  by_cases h : s.sentCapend
  · rw [if_pos h]
    exact ⟨[], .of_neg rfl rfl rfl rfl, by simp [h]⟩
  rw [if_neg h]
  have h' : s.sentCapend = false := by simpa using h
  by_cases hn : n = .n903
  · rw [if_pos hn]
    have hattach := (Talks.persistenceSendAttach { s with waitingOnSasl := false }).left (s := s) rfl rfl rfl rfl
    exact ⟨_, hattach.trans (Talks.capEnd h'), by simp [Call.proceeds, h']⟩
  · rw [if_neg hn]
    exact ⟨_, (Talks.capEnd (s := { s with waitingOnSasl := false }) h').left rfl rfl rfl rfl,
      by simp [Call.proceeds, h']⟩

theorem oauthSaslRetryCb_talks (s : Server crypto) (now : Int) (refresh : Refresh) :
    ∃ calls, Talks s (oauthSaslRetryCb s now refresh) calls ∧ calls.any Call.proceeds = true := by
  cases refresh with
  | failed => exact ⟨_, (inboundSaslError_talks s).trans (saslDone_talks _), by simp [Call.proceeds]⟩
  | token access expires =>
    obtain ⟨calls, htalk, hproc⟩ := inboundSaslAuthenticate_talks
      { s with oauthAccessToken := access, oauthTokenExpires := expires } (bytes "+") now
    exact ⟨_, htalk.left rfl rfl rfl rfl, hproc⟩

/-- A 904 that starts a token refresh leaves the login open. -/
def refreshes (s : Server crypto) (n : SaslNumeric) (starts : Bool) : Bool :=
  decide (n = .n904 ∧ s.saslMech = .oauthbearer ∧ s.oauthRefreshAttempted = false ∧ starts = true)

theorem processSaslNumeric_talks (s : Server crypto) (n : SaslNumeric) (starts : Bool) (now : Int) :
    ∃ calls, Talks s (processSaslNumeric s n starts now) calls ∧
      calls.any Call.proceeds = (if n = .n904 then !refreshes s n starts else !s.sentCapend) := by
  unfold processSaslNumeric
  by_cases hn : n = .n904
  · subst hn
    rw [if_pos rfl, if_pos rfl]
    have hfail : ∀ t : Server crypto, ∃ calls, Talks t (saslResult (inboundSaslError t) .n904) calls ∧
        calls.any Call.proceeds = true := by
      intro t
      obtain ⟨calls, htalk, -⟩ := saslResult_talks (inboundSaslError t) .n904
      exact ⟨_, (inboundSaslError_talks t).trans htalk, by simp [Call.proceeds]⟩
    by_cases hm : s.saslMech = .oauthbearer
    · rw [if_pos hm]
      unfold inboundSaslOauthRefresh
      by_cases ha : s.oauthRefreshAttempted
      · simpa [ha, refreshes] using hfail s
      · cases starts with
        | true =>
          simp only [ha, Bool.false_eq_true, if_false, if_true]
          exact ⟨[], .of_neg rfl rfl rfl rfl, by simp [refreshes, hm, ha]⟩
        | false =>
          simp only [ha, Bool.false_eq_true, if_false]
          obtain ⟨calls, htalk, hproc⟩ := oauthSaslRetryCb_talks { s with oauthRefreshAttempted := true } now .failed
          obtain ⟨calls', htalk', -⟩ := hfail (oauthSaslRetryCb { s with oauthRefreshAttempted := true } now .failed)
          exact ⟨_, (htalk.trans htalk').left rfl rfl rfl rfl, by simp [refreshes, hproc]⟩
    · rw [if_neg hm]
      simpa [refreshes, hm] using hfail s
  · rw [if_neg hn, if_neg hn]
    exact saslResult_talks s n

/-! ## The end of the list -/

/-- The port that `server_connect` uses with TLS. -/
def tlsPort (port : Int) : Int := if port < 1 ∨ port > 65535 then 6697 else port

/-- The calls of `finishCap`. -/
def finishCalls (port : Int) : List Call :=
  if 0 < port then [.disconnect, .connect true (tlsPort port)] else [.send .capEnd]

theorem finishCap_calls (s : Server crypto) : (finishCap s).calls = s.calls ++ finishCalls s.stsUpgradePort := by
  unfold finishCap finishCalls
  by_cases h : 0 < s.stsUpgradePort
  · rw [if_pos h, if_pos h]
    simp [stsUpgrade, serverConnect, serverSetDefaults, serverDisconnect, Server.call, tlsPort]
  · rw [if_neg h, if_neg h]
    rfl

theorem finishCap_capEnd {s : Server crypto} (h : ¬ 0 < s.stsUpgradePort) :
    finishCap s = { s with sentCapend := true }.send .capEnd := by
  rw [finishCap, if_neg h]

/-- The CAP REQ for these names, if there are any. -/
def askCalls (names : List Bytes) : List Call :=
  if names = [] then [] else [.send (.capReq (gStrchomp (requestBuffer names) ++ crlf))]

/-- The line ends the list, and SASL is not outstanding. -/
def Server.listDone (s : Server crypto) (str : Bytes) : Bool := !s.awaitsSasl str && !continues str

/-- The server after the loop and the CAP REQ. -/
def asked (s : Server crypto) (str : Bytes) : Server crypto :=
  if (scanLs s str).wantCap then (scanLs s str).serv.send (.capReq (gStrchomp (scanLs s str).buffer ++ crlf))
  else (scanLs s str).serv

theorem asked_neg (s : Server crypto) (str : Bytes) :
    (asked s str).neg = { s.neg with
      waitingOnCap := continues str
      waitingOnSasl := s.awaitsSasl str
      stsUpgradePort := s.upgradePort str
      calls := s.calls ++ (noted str ++ askCalls (requested s str)) } := by
  unfold asked
  rw [scanLs_wantCap, scanLs_buffer]
  by_cases h : requested s str = []
  · simp [h, askCalls, scanLs_neg]
  · simp [h, askCalls, Server.send, Server.call_neg, scanLs_neg]

theorem inboundCapLs_eq (s : Server crypto) (str : Bytes) :
    inboundCapLs s str = if s.listDone str then finishCap (asked s str) else asked s str := by
  have hsasl : (asked s str).waitingOnSasl = s.awaitsSasl str := congrArg Neg.waitingOnSasl (asked_neg s str)
  have hcap : (asked s str).waitingOnCap = continues str := congrArg Neg.waitingOnCap (asked_neg s str)
  rw [Server.listDone, ← hsasl, ← hcap]
  rfl

/-- What a CAP LS or CAP NEW line calls. -/
def lsCalls (s : Server crypto) (str : Bytes) : List Call :=
  noted str ++ askCalls (requested s str) ++ if s.listDone str then finishCalls (s.upgradePort str) else []

theorem inboundCapLs_calls (s : Server crypto) (str : Bytes) :
    (inboundCapLs s str).calls = s.calls ++ lsCalls s str := by
  have hcalls : (asked s str).calls = s.calls ++ (noted str ++ askCalls (requested s str)) :=
    congrArg Neg.calls (asked_neg s str)
  have hport : (asked s str).stsUpgradePort = s.upgradePort str := congrArg Neg.stsUpgradePort (asked_neg s str)
  rw [inboundCapLs_eq, lsCalls]
  by_cases h : s.listDone str
  · rw [if_pos h, if_pos h, finishCap_calls, hcalls, hport, List.append_assoc, List.append_assoc]
  · rw [if_neg h, if_neg h, hcalls, List.append_nil]

/-- A line that does not lead to an upgrade leaves the connection as it is, and knows of the port. -/
theorem inboundCapLs_stays {s : Server crypto} {str : Bytes}
    (h : ¬ (s.listDone str = true ∧ 0 < s.upgradePort str)) :
    (inboundCapLs s str).ssl = s.ssl ∧ (inboundCapLs s str).stsUpgradePort = s.upgradePort str ∧
      (inboundCapLs s str).sentCapend = (s.sentCapend || s.listDone str) := by
  have hssl : (asked s str).ssl = s.ssl := congrArg Neg.ssl (asked_neg s str)
  have hport : (asked s str).stsUpgradePort = s.upgradePort str := congrArg Neg.stsUpgradePort (asked_neg s str)
  have hend : (asked s str).sentCapend = s.sentCapend := congrArg Neg.sentCapend (asked_neg s str)
  rw [inboundCapLs_eq]
  by_cases hd : s.listDone str
  · have hp : ¬ 0 < (asked s str).stsUpgradePort := by
      rw [hport]
      exact fun hp => h ⟨hd, hp⟩
    rw [if_pos hd, finishCap_capEnd hp]
    exact ⟨hssl, hport, by simp [Server.send, Server.call, hd]⟩
  · rw [if_neg hd]
    exact ⟨hssl, hport, by simp [hend, hd]⟩

/-- A CAP NAK that ends the negotiation. -/
def nakEnds (s : Server crypto) (str : Bytes) : Bool :=
  !s.waitingOnCap && !(s.waitingOnSasl && decide (bytes "sasl" ∉ gStrsplit 32 str)) && !s.sentCapend

theorem inboundCapNak_eq (s : Server crypto) (str : Bytes) :
    ∃ t : Server crypto, t.ssl = s.ssl ∧ t.stsUpgradePort = s.stsUpgradePort ∧ t.sentCapend = s.sentCapend ∧
      t.calls = s.calls ∧ inboundCapNak s str = if nakEnds s str then finishCap t else t := by
  unfold inboundCapNak nakEnds
  by_cases h : bytes "sasl" ∈ gStrsplit 32 str
  · exact ⟨{ s with waitingOnSasl := false }, rfl, rfl, rfl, rfl, by simp [h]⟩
  · exact ⟨s, rfl, rfl, rfl, rfl, by simp [h]⟩

/-! ## One event -/

/-- The event goes on with the login: it sends an AUTHENTICATE line, a SASL payload or CAP END. -/
def Event.proceeds (s : Server crypto) : Event → Bool
  | .capLs str => s.listDone str && decide (¬ 0 < s.upgradePort str)
  | .capNew str => s.listDone str && decide (¬ 0 < s.upgradePort str)
  | .capAck str => decide (bytes "sasl" ∈ gStrsplit 32 str)
  | .capNak str => nakEnds s str && decide (¬ 0 < s.stsUpgradePort)
  | .capDel _ => false
  | .authenticate data _ => !decide (44 ∈ data)
  | .saslNumeric n starts _ => if n = .n904 then !refreshes s n starts else !s.sentCapend
  | .oauthRefreshed _ _ => true

/-- An event that carries no list talks on the connection, but for a CAP NAK after which it is given up. -/
theorem step_talks {s : Server crypto} {e : Event} (he : e.advertises? = none) :
    (∃ calls, Talks s (step s e) calls ∧ calls.any Call.proceeds = e.proceeds s) ∨
      (∃ str, e = .capNak str ∧ nakEnds s str = true ∧ 0 < s.stsUpgradePort ∧
        (step s e).calls = s.calls ++ finishCalls s.stsUpgradePort) := by
  cases e with
  | capLs str => cases he
  | capNew str => cases he
  | capAck str => exact .inl (foldl_toggleCap_talks true _ s)
  | capDel str => exact .inl (foldl_toggleCap_talks false _ s)
  | authenticate data now => exact .inl (inboundSaslAuthenticate_talks s data now)
  | saslNumeric n starts now => exact .inl (processSaslNumeric_talks s n starts now)
  | oauthRefreshed refresh now => exact .inl (oauthSaslRetryCb_talks s now refresh)
  | capNak str =>
    obtain ⟨t, hssl, hport, hend, hcalls, heq⟩ := inboundCapNak_eq s str
    have hstep : step s (.capNak str) = if nakEnds s str then finishCap t else t := heq
    rw [hstep]
    by_cases hn : nakEnds s str
    · rw [if_pos hn]
      have hsent : t.sentCapend = false := by
        rw [hend]
        simp only [nakEnds, Bool.and_eq_true, Bool.not_eq_true'] at hn
        exact hn.2
      by_cases hp : 0 < s.stsUpgradePort
      · exact .inr ⟨str, rfl, hn, hp, by rw [finishCap_calls, hcalls, hport]⟩
      · rw [finishCap_capEnd (by rwa [hport])]
        refine .inl ⟨_, (Talks.capEnd hsent).left hssl hport hend hcalls, ?_⟩
        simp [Call.proceeds, Event.proceeds, hn, not_lt.1 hp]
    · rw [if_neg hn]
      exact .inl ⟨[], .of_neg hssl hport hend hcalls, by simp [Event.proceeds, hn]⟩

theorem step_advertises {s : Server crypto} {e : Event} {str : Bytes} (he : e.advertises? = some str) :
    step s e = inboundCapLs s str := by
  cases e <;> cases he <;> rfl

theorem step_advertises_calls {s : Server crypto} {e : Event} {str : Bytes} (he : e.advertises? = some str) :
    (step s e).calls = s.calls ++ lsCalls s str := by
  rw [step_advertises he, inboundCapLs_calls]

theorem step_appends (s : Server crypto) (e : Event) : (step s e).calls = s.calls ++ callsOf s e := by
  cases he : e.advertises? with
  | some str => rw [callsOf_eq (step_advertises_calls he), step_advertises_calls he]
  | none =>
    rcases step_talks (s := s) he with ⟨calls, htalk, -⟩ | ⟨-, -, -, -, hcalls⟩
    · rw [callsOf_eq htalk.appends, htalk.appends]
    · rw [callsOf_eq hcalls, hcalls]

/-! ## The requests -/

/-- The requests of an event are the ones for the names of its list. -/
def AsksExactly (s : Server crypto) (e : Event) : Prop :=
  (callsOf s e).filterMap Call.capReq? =
    match e.advertises? with
    | none => []
    | some str => if requested s str = [] then [] else [requestLine (requested s str)]

/-- The names to ask for fit into what `CAP REQ :` leaves of the buffer; the space after the last one may
make way for the NUL. -/
def Fits (s : Server crypto) (e : Event) : Prop := ∀ str ∈ e.advertises?, requestSize (requested s str) ≤ 491

instance (s : Server crypto) (e : Event) : Decidable (AsksExactly s e) := inferInstanceAs (Decidable (_ = _))

instance (s : Server crypto) (e : Event) : Decidable (Fits s e) :=
  inferInstanceAs (Decidable (∀ str ∈ e.advertises?, _))

theorem noted_internal {str : Bytes} {c : Call} (h : c ∈ noted str) :
    (∃ port duration, c = .stsPolicyAdd port duration) ∨ ∃ value, c = .persistenceParseCapValue value := by
  obtain ⟨ext, -, hc⟩ := List.mem_flatMap.1 h
  unfold notedOf at hc
  split at hc
  · cases hc
  · split_ifs at hc <;> simp at hc
    · exact .inl ⟨_, _, hc⟩
    · exact .inr ⟨_, hc⟩

theorem noted_capReq (str : Bytes) : (noted str).filterMap Call.capReq? = [] := by
  rw [List.filterMap_eq_nil_iff]
  intro c hc
  rcases noted_internal hc with ⟨port, duration, rfl⟩ | ⟨value, rfl⟩ <;> rfl

theorem finishCalls_capReq (port : Int) : (finishCalls port).filterMap Call.capReq? = [] := by
  unfold finishCalls
  split_ifs <;> rfl

theorem lsCalls_capReq (s : Server crypto) (str : Bytes) :
    (lsCalls s str).filterMap Call.capReq? =
      if requested s str = [] then [] else [gStrchomp (requestBuffer (requested s str)) ++ crlf] := by
  have hfin : (if s.listDone str then finishCalls (s.upgradePort str) else []).filterMap Call.capReq? = [] := by
    split_ifs
    · exact finishCalls_capReq _
    · rfl
  rw [lsCalls, List.filterMap_append, List.filterMap_append, noted_capReq, hfin, List.append_nil, List.nil_append]
  unfold askCalls
  split_ifs <;> rfl

/-- **A line is asked for exactly what it should be where that fits.** -/
theorem asksExactly_iff (s : Server crypto) (e : Event) : AsksExactly s e ↔ Fits s e := by
  unfold AsksExactly Fits
  cases he : e.advertises? with
  | none =>
    refine iff_of_true ?_ (by simp)
    rcases step_talks (s := s) he with ⟨calls, htalk, -⟩ | ⟨-, -, -, -, hcalls⟩
    · rw [callsOf_eq htalk.appends, htalk.asks]
    · rw [callsOf_eq hcalls, finishCalls_capReq]
  | some str =>
    rw [callsOf_eq (step_advertises_calls he), lsCalls_capReq]
    by_cases hne : requested s str = []
    · simp [hne, requestSize]
    · have hsolid : ∀ name ∈ requested s str, EndsSolid name :=
        fun name hn => supported_endsSolid name (mem_requested hn)
      simp only [hne, if_false, List.cons.injEq, and_true, Option.mem_def, Option.some.injEq, forall_eq']
      exact capReq_exact_iff hne hsolid

/-! ## CAP END -/

/-- How often CAP END has been sent on the connection. -/
def capEnds (s : Server crypto) : Nat := (onConnection s.calls).count (.send .capEnd)

/-- The line ends the list on an open connection with nothing outstanding, so CAP END must not be out. -/
def EndsOnce (s : Server crypto) (e : Event) : Prop :=
  s.IsOpen → ∀ str ∈ e.advertises?, s.listDone str = true → ¬ 0 < s.upgradePort str → s.sentCapend = false

instance (s : Server crypto) (e : Event) : Decidable (EndsOnce s e) :=
  inferInstanceAs (Decidable (s.IsOpen → ∀ str ∈ e.advertises?, _))

/-- The bit says whether CAP END has been sent, as long as the connection is open. -/
structure Counted (s : Server crypto) : Prop where
  opened : s.IsOpen → capEnds s = s.sentCapend.toNat
  once : capEnds s ≤ 1

theorem onConnection_append_open {calls calls' : List Call} (h : .disconnect ∉ calls) :
    onConnection (calls ++ calls') = calls ++ onConnection calls' := by
  unfold onConnection
  refine List.takeWhile_append_of_pos fun c hc => ?_
  simpa using fun he : c = .disconnect => h (he ▸ hc)

theorem onConnection_open {calls : List Call} (h : .disconnect ∉ calls) : onConnection calls = calls := by
  rw [onConnection, List.takeWhile_eq_self_iff]
  intro c hc
  simpa using fun he : c = .disconnect => h (he ▸ hc)

theorem onConnection_append_closed {calls calls' : List Call} (h : .disconnect ∈ calls) :
    onConnection (calls ++ calls') = onConnection calls := by
  induction calls with
  | nil => cases h
  | cons c calls ih =>
    by_cases hc : c = .disconnect
    · simp [onConnection, hc]
    · have htail := ih ((List.mem_cons.1 h).resolve_left fun he => hc he.symm)
      simp only [onConnection, List.cons_append, List.takeWhile_cons] at htail ⊢
      rw [htail]

theorem isOpen_step_iff (s : Server crypto) (e : Event) :
    (step s e).IsOpen ↔ s.IsOpen ∧ .disconnect ∉ callsOf s e := by
  rw [Server.IsOpen, step_appends, List.mem_append, not_or]
  rfl

theorem capEnds_step_open {s : Server crypto} (e : Event) (ho : s.IsOpen) :
    capEnds (step s e) = capEnds s + (onConnection (callsOf s e)).count (.send .capEnd) := by
  rw [capEnds, step_appends, onConnection_append_open ho, List.count_append, capEnds, onConnection_open ho]

theorem capEnds_step_closed {s : Server crypto} (e : Event) (ho : ¬ s.IsOpen) : capEnds (step s e) = capEnds s := by
  rw [capEnds, step_appends, onConnection_append_closed (not_not.1 ho), capEnds]

theorem askCalls_stays (names : List Bytes) : .disconnect ∉ askCalls names := by
  unfold askCalls
  split_ifs <;> simp

theorem noted_stays (str : Bytes) : .disconnect ∉ noted str := by
  intro h
  rcases noted_internal h with ⟨port, duration, he⟩ | ⟨value, he⟩ <;> cases he

/-- What a line with a list puts on the connection: CAP END where the list is done and no upgrade is due. -/
theorem onConnection_lsCalls (s : Server crypto) (str : Bytes) :
    onConnection (lsCalls s str) = noted str ++ askCalls (requested s str) ++
      if s.listDone str = true ∧ ¬ 0 < s.upgradePort str then [.send .capEnd] else [] := by
  have hstay : Call.disconnect ∉ noted str ++ askCalls (requested s str) := by
    simp [noted_stays, askCalls_stays]
  rw [lsCalls, onConnection_append_open hstay]
  congr 1
  by_cases hd : s.listDone str <;> by_cases hp : 0 < s.upgradePort str <;>
    simp [hd, hp, finishCalls, onConnection]

theorem disconnect_mem_lsCalls (s : Server crypto) (str : Bytes) :
    .disconnect ∈ lsCalls s str ↔ s.listDone str = true ∧ 0 < s.upgradePort str := by
  simp only [lsCalls, List.mem_append, noted_stays, askCalls_stays, false_or]
  by_cases hd : s.listDone str <;> by_cases hp : 0 < s.upgradePort str <;> simp [hd, hp, finishCalls]

theorem count_capEnd_lsCalls (s : Server crypto) (str : Bytes) :
    (onConnection (lsCalls s str)).count (.send .capEnd) =
      if s.listDone str = true ∧ ¬ 0 < s.upgradePort str then 1 else 0 := by
  have hnote : (noted str).count (.send .capEnd) = 0 := by
    rw [List.count_eq_zero]
    intro h
    rcases noted_internal h with ⟨port, duration, he⟩ | ⟨value, he⟩ <;> cases he
  have hask : (askCalls (requested s str)).count (.send .capEnd) = 0 := by
    unfold askCalls
    split_ifs <;> simp
  rw [onConnection_lsCalls, List.count_append, List.count_append, hnote, hask]
  split_ifs <;> simp

/-- An event without a list keeps the count. -/
theorem Counted.step_quiet {s : Server crypto} {e : Event} (h : Counted s) (he : e.advertises? = none) :
    Counted (step s e) := by
  by_cases ho : s.IsOpen
  · rcases step_talks (s := s) he with ⟨calls, htalk, -⟩ | ⟨-, -, -, hp, hcalls⟩
    · have hcount : capEnds (step s e) = (step s e).sentCapend.toNat := by
        rw [capEnds_step_open e ho, callsOf_eq htalk.appends, onConnection_open htalk.stays, h.opened ho, htalk.ends]
      exact ⟨fun _ => hcount, hcount ▸ Bool.toNat_le _⟩
    · have hcount : capEnds (step s e) = capEnds s := by
        rw [capEnds_step_open e ho, callsOf_eq hcalls]
        simp [finishCalls, hp, onConnection]
      refine ⟨fun hopen => absurd ?_ ((isOpen_step_iff s e).1 hopen).2, hcount ▸ h.once⟩
      rw [callsOf_eq hcalls]
      simp [finishCalls, hp]
  · refine ⟨fun hopen => absurd ((isOpen_step_iff s e).1 hopen).1 ho, ?_⟩
    rw [capEnds_step_closed e ho]
    exact h.once

theorem Counted.step_iff {s : Server crypto} {e : Event} (h : Counted s) :
    capEnds (step s e) ≤ 1 ↔ EndsOnce s e := by
  cases he : e.advertises? with
  | none => exact iff_of_true (h.step_quiet he).once fun _ str hstr => by rw [he] at hstr; cases hstr
  | some str =>
    have hends : EndsOnce s e ↔
        (s.IsOpen → s.listDone str = true → ¬ 0 < s.upgradePort str → s.sentCapend = false) := by
      simp [EndsOnce, he]
    rw [hends]
    by_cases ho : s.IsOpen
    · rw [capEnds_step_open e ho, callsOf_eq (step_advertises_calls he), count_capEnd_lsCalls, h.opened ho]
      by_cases hd : s.listDone str = true ∧ ¬ 0 < s.upgradePort str
      · rw [if_pos hd]
        cases hs : s.sentCapend <;> simp [ho, hd.1, hd.2]
      · rw [if_neg hd]
        exact iff_of_true (Bool.toNat_le _) fun _ h₁ h₂ => absurd ⟨h₁, h₂⟩ hd
    · rw [capEnds_step_closed e ho]
      exact iff_of_true h.once fun ho' => absurd ho' ho

theorem Counted.step {s : Server crypto} {e : Event} (h : Counted s) (hok : EndsOnce s e) : Counted (step s e) := by
  cases he : e.advertises? with
  | none => exact h.step_quiet he
  | some str =>
    refine ⟨fun hopen => ?_, h.step_iff.2 hok⟩
    obtain ⟨ho, hstay⟩ := (isOpen_step_iff s e).1 hopen
    rw [callsOf_eq (step_advertises_calls he), disconnect_mem_lsCalls] at hstay
    rw [capEnds_step_open e ho, callsOf_eq (step_advertises_calls he), count_capEnd_lsCalls, h.opened ho,
      step_advertises he, (inboundCapLs_stays hstay).2.2]
    by_cases hd : s.listDone str = true
    · have hp : ¬ 0 < s.upgradePort str := fun hp => hstay ⟨hd, hp⟩
      have hs : s.sentCapend = false := hok ho str he hd hp
      simp [hd, hp, hs]
    · simp [hd]

theorem ircLogin_counted (s : Server crypto) : Counted (ircLogin s) := by
  have hcalls : onConnection (ircLogin s).calls = (ircLogin s).calls ∧
      (ircLogin s).calls.count (.send .capEnd) = 0 ∧ (ircLogin s).sentCapend = false := by
    unfold ircLogin
    dsimp only
    split_ifs <;> simp [Server.send, Server.call, onConnection]
  have hcount : capEnds (ircLogin s) = 0 := by rw [capEnds, hcalls.1, hcalls.2.1]
  exact ⟨fun _ => by rw [hcount, hcalls.2.2]; rfl, by omega⟩

/-! ## Exchanges -/

/-- **Capability negotiation.**  Over a registration exchange, every CAP REQ asks for exactly the names it
should and CAP END is sent at most once, exactly where every list fits into the request buffer and no list
is ended with nothing outstanding after CAP END. -/
theorem negotiation_exact (s : Server crypto) (es : List Event) :
    (Along step AsksExactly (ircLogin s) es ∧ ∀ pre, pre <+: es → capEnds (pre.foldl step (ircLogin s)) ≤ 1) ↔
      Along step Fits (ircLogin s) es ∧ Along step EndsOnce (ircLogin s) es := by
  refine and_congr ?_ ?_
  · exact Along.congr (I := fun _ => True) (fun _ _ _ => trivial) (fun s e _ => asksExactly_iff s e) trivial
  · have hall : Along step (fun _ _ => True) (ircLogin s) es := Along.of_forall (fun _ _ _ => trivial) _
    refine Along.iff_prefixes (I := Counted) (fun _ h => h.once) ?_ ?_ (ircLogin_counted s) hall
    · exact fun _ _ h _ => h.step_iff
    · exact fun _ _ h _ hok => h.step hok

/-- A server without SASL, which uses none of this. -/
def noCrypto : Crypto where
  Scram := Unit
  base64Encode := id
  base64Decode := id
  scramSessionCreate _ _ _ := none
  scramProcess _ _ := ((), .error, [])
  oauthEncodeSaslOauthbearer _ _ _ := none

/-- All supported capabilities but two, as one list. -/
def longList : Bytes :=
  List.intercalate [space] (supportedCaps.filter fun cap =>
    cap ≠ bytes "setname" ∧ cap ≠ bytes "draft/extended-isupport")

/-- The list is 493 bytes long and its request loses the end of its last name; and a CAP NEW after the
list is answered with a second CAP END. -/
theorem negotiation_inexact :
    ¬ Along step AsksExactly (ircLogin ({} : Server noCrypto)) [.capLs longList] ∧
      ¬ ∀ pre, pre <+: [.capLs (bytes "batch"), .capNew (bytes "chghost")] →
        capEnds (pre.foldl step (ircLogin ({} : Server noCrypto))) ≤ 1 := by
  constructor
  · intro h
    exact absurd ((asksExactly_iff _ _).1 h.1) (by decide +kernel)
  · intro h
    exact absurd (h _ (List.prefix_refl _)) (by decide +kernel)

end PoxChat.Cap
