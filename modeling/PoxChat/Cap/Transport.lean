import PoxChat.Cap.Exchange

/-!
# Strict transport security

When a connection in the clear is given up for TLS before the client logs in, over every sequence of
lines after one that advertises `sts`.

* `Watch` — a server with the port that the lines of its connection have advertised.
* `Honoured` — an event in the clear after an advertised port: it does not go on with the login, and a list that
  it ends is answered with the reconnect.

The upgrade stands where the list ends and SASL is not outstanding, and nowhere else: a list that asks
for `sasl` puts it off until after the login, and `inbound_cap_ack`, `inbound_sasl_authenticate` and the
SASL numerics do not look at `sts_upgrade_port`.

Principal result: `sts_honoured`.
-/

set_option autoImplicit false

namespace PoxChat.Cap

open Lib Outbound

variable {crypto : Crypto}

/-! ## Connections in the clear -/

structure Watch (crypto : Crypto) where
  serv : Server crypto
  /-- The port advertised last on this connection, or 0. -/
  sts : Int

/-- The port advertised, this event included. -/
def Watch.stsAfter (w : Watch crypto) (e : Event) : Int := (e.advertises?.bind stsPort?).getD w.sts

def Watch.step (w : Watch crypto) (e : Event) : Watch crypto := ⟨Cap.step w.serv e, w.stsAfter e⟩

/-- A connection as it is after `irc_login`. -/
def Watch.login (s : Server crypto) : Watch crypto := ⟨ircLogin s, 0⟩

/-- The event ends the list of capabilities. -/
def Event.completes (e : Event) : Bool := e.advertises?.any fun str => !continues str

/-- Once a port is advertised, the event sends no AUTHENTICATE line, no SASL payload and no CAP END on the
connection, and if it ends the list it ends with the reconnect to that port. -/
def Honoured (w : Watch crypto) (e : Event) : Prop :=
  w.serv.IsOpen → 0 < w.stsAfter e →
    (∀ c ∈ onConnection (callsOf w.serv e), c.proceeds = false) ∧
      (e.completes = true → [.disconnect, .connect true (w.stsAfter e)] <:+ callsOf w.serv e)

/-- An event that does no harm while an upgrade to `port` is due: a list is not ended while SASL is wanted
nor with a number that is no port, `sasl` is not acknowledged, AUTHENTICATE brings only a list of mechanisms,
and a SASL result comes after CAP END or starts a token refresh. -/
def Harmless (s : Server crypto) (port : Int) : Event → Prop
  | .capLs str => continues str = false → s.awaitsSasl str = false ∧ port ≤ 65535
  | .capNew str => continues str = false → s.awaitsSasl str = false ∧ port ≤ 65535
  | .capAck str => bytes "sasl" ∉ gStrsplit 32 str
  | .capNak _ => True
  | .capDel _ => True
  | .authenticate data _ => 44 ∈ data
  | .saslNumeric n starts _ => if n = .n904 then refreshes s n starts = true else s.sentCapend = true
  | .oauthRefreshed _ _ => False

def Safe (w : Watch crypto) (e : Event) : Prop :=
  w.serv.IsOpen → 0 < w.stsAfter e → Harmless w.serv (w.stsAfter e) e

instance (s : Server crypto) (port : Int) (e : Event) : Decidable (Harmless s port e) :=
  match e with
  | .capLs _ => inferInstanceAs (Decidable (_ → _))
  | .capNew _ => inferInstanceAs (Decidable (_ → _))
  | .capAck _ => inferInstanceAs (Decidable (¬ _))
  | .capNak _ => .isTrue trivial
  | .capDel _ => .isTrue trivial
  | .authenticate data _ => inferInstanceAs (Decidable (44 ∈ data))
  | .saslNumeric n starts _ =>
    inferInstanceAs (Decidable (if n = .n904 then refreshes s n starts = true else s.sentCapend = true))
  | .oauthRefreshed _ _ => .isFalse id

instance (w : Watch crypto) (e : Event) : Decidable (Safe w e) :=
  inferInstanceAs (Decidable (w.serv.IsOpen → _))

instance (w : Watch crypto) (e : Event) : Decidable (Honoured w e) :=
  inferInstanceAs (Decidable (w.serv.IsOpen → _))

/-! ## The port that is waited on -/

/-- An open connection is in the clear, and its upgrade is to the port it has advertised. -/
structure Watching (w : Watch crypto) : Prop where
  clear : w.serv.IsOpen → w.serv.ssl = false
  port : w.serv.IsOpen → 0 < w.sts → w.serv.stsUpgradePort = w.sts

theorem Watching.upgradePort {w : Watch crypto} {e : Event} {str : Bytes} (h : Watching w)
    (he : e.advertises? = some str) (ho : w.serv.IsOpen) (hp : 0 < w.stsAfter e) :
    w.serv.upgradePort str = w.stsAfter e := by
  have hafter : w.stsAfter e = (stsPort? str).getD w.sts := by simp [Watch.stsAfter, he]
  rw [hafter] at hp ⊢
  simp only [Server.upgradePort, h.clear ho, Bool.false_eq_true, if_false]
  cases hs : stsPort? str with
  | some port => rfl
  | none =>
    rw [hs] at hp
    exact h.port ho hp

theorem stsAfter_quiet {w : Watch crypto} {e : Event} (he : e.advertises? = none) : w.stsAfter e = w.sts := by
  simp [Watch.stsAfter, he]

theorem Watching.step {w : Watch crypto} (h : Watching w) (e : Event) : Watching (w.step e) := by
  by_cases hopen : (w.step e).serv.IsOpen
  swap
  · exact ⟨fun ho => absurd ho hopen, fun ho => absurd ho hopen⟩
  obtain ⟨ho, hstay⟩ := (isOpen_step_iff w.serv e).1 hopen
  cases he : e.advertises? with
  | some str =>
    rw [callsOf_eq (step_advertises_calls he), disconnect_mem_lsCalls] at hstay
    obtain ⟨hssl, hport, -⟩ := inboundCapLs_stays hstay
    refine ⟨fun _ => ?_, fun _ hp => ?_⟩
    · exact (congrArg Server.ssl (step_advertises he)).trans (hssl.trans (h.clear ho))
    · exact (congrArg Server.stsUpgradePort (step_advertises he)).trans (hport.trans (h.upgradePort he ho hp))
  | none =>
    rcases step_talks (s := w.serv) he with ⟨calls, htalk, -⟩ | ⟨-, -, -, hp, hcalls⟩
    · refine ⟨fun _ => htalk.ssl.trans (h.clear ho), fun _ hp => ?_⟩
      have hsts : (w.step e).sts = w.sts := stsAfter_quiet he
      rw [hsts] at hp ⊢
      exact htalk.stsUpgradePort.trans (h.port ho hp)
    · rw [callsOf_eq hcalls] at hstay
      simp [finishCalls, hp] at hstay

/-! ## One event -/

theorem tlsPort_eq_iff {port : Int} (h : 0 < port) : tlsPort port = port ↔ port ≤ 65535 := by
  unfold tlsPort
  split_ifs <;> omega

/-- A line with a list never goes on with the login while an upgrade is due. -/
theorem lsCalls_hold {s : Server crypto} {str : Bytes} (hp : 0 < s.upgradePort str) :
    ∀ c ∈ onConnection (lsCalls s str), c.proceeds = false := by
  intro c hc
  rw [onConnection_lsCalls, if_neg (fun h => h.2 hp), List.append_nil, List.mem_append] at hc
  rcases hc with hc | hc
  · rcases noted_internal hc with ⟨port, duration, rfl⟩ | ⟨value, rfl⟩ <;> rfl
  · unfold askCalls at hc
    split_ifs at hc
    · cases hc
    · rw [List.mem_singleton.1 hc]
      rfl

/-- The line that ends a list is answered with the reconnect exactly where SASL is not outstanding. -/
theorem lsCalls_reconnect {s : Server crypto} {str : Bytes} (hp : 0 < s.upgradePort str)
    (hc : continues str = false) :
    [.disconnect, .connect true (s.upgradePort str)] <:+ lsCalls s str ↔
      s.awaitsSasl str = false ∧ s.upgradePort str ≤ 65535 := by
  cases ha : s.awaitsSasl str with
  | true =>
    refine iff_of_false (fun hsuf => ?_) (by simp)
    have hmem : Call.disconnect ∈ lsCalls s str := hsuf.subset (by simp)
    rw [disconnect_mem_lsCalls] at hmem
    simp [Server.listDone, ha] at hmem
  | false =>
    have hdone : s.listDone str = true := by simp [Server.listDone, ha, hc]
    rw [lsCalls, if_pos hdone, finishCalls, if_pos hp, and_iff_right rfl, ← tlsPort_eq_iff hp]
    constructor
    · rintro ⟨front, hfront⟩
      have hend := List.append_inj_right' hfront rfl
      simpa using hend.symm
    · intro hport
      rw [hport]
      exact List.suffix_append _ _

/-- With an upgrade due, an event without a list is harmless where it does not go on with the login. -/
theorem harmless_quiet_iff {s : Server crypto} {e : Event} {port : Int} (he : e.advertises? = none)
    (hp : 0 < s.stsUpgradePort) : Harmless s port e ↔ e.proceeds s = false := by
  cases e with
  | capLs str => cases he
  | capNew str => cases he
  | capAck str => simp [Harmless, Event.proceeds]
  | capNak str => simp [Harmless, Event.proceeds, hp]
  | capDel str => simp [Harmless, Event.proceeds]
  | authenticate data now => simp [Harmless, Event.proceeds]
  | saslNumeric n starts now => by_cases hn : n = .n904 <;> simp [Harmless, Event.proceeds, hn]
  | oauthRefreshed refresh now => simp [Harmless, Event.proceeds]

theorem honoured_iff_safe {w : Watch crypto} (h : Watching w) (e : Event) : Honoured w e ↔ Safe w e := by
  refine imp_congr_right fun ho => imp_congr_right fun hp => ?_
  cases he : e.advertises? with
  | some str =>
    have hport := h.upgradePort he ho hp
    have hun : Harmless w.serv (w.stsAfter e) e ↔
        (continues str = false → w.serv.awaitsSasl str = false ∧ w.stsAfter e ≤ 65535) := by
      cases e <;> cases he <;> exact Iff.rfl
    have hdone : e.completes = true ↔ continues str = false := by simp [Event.completes, he]
    rw [hun, hdone, callsOf_eq (step_advertises_calls he), ← hport]
    rw [← hport] at hp
    rw [and_iff_right (lsCalls_hold hp)]
    exact imp_congr_right fun hc => lsCalls_reconnect hp hc
  | none =>
    have hdone : e.completes = false := by simp [Event.completes, he]
    rw [stsAfter_quiet he] at hp
    rw [hdone, and_iff_left (by simp)]
    rcases step_talks (s := w.serv) he with ⟨calls, htalk, hproc⟩ | ⟨str, rfl, -, hp', hcalls⟩
    · have hquiet : (∀ c ∈ calls, c.proceeds = false) ↔ e.proceeds w.serv = false := by
        rw [← hproc]
        simp
      rw [callsOf_eq htalk.appends, onConnection_open htalk.stays, hquiet, harmless_quiet_iff he]
      rwa [h.port ho hp]
    · rw [callsOf_eq hcalls]
      simp [finishCalls, hp', onConnection, Harmless]

/-! ## Connections -/

theorem login_watching {s : Server crypto} (hs : s.ssl = false) : Watching (Watch.login s) := by
  have hssl : (ircLogin s).ssl = false := by
    unfold ircLogin
    dsimp only
    split_ifs <;> exact hs
  exact ⟨fun _ => hssl, fun _ hp => absurd hp (lt_irrefl 0)⟩

/-- **Strict transport security.**  On a connection in the clear, an advertised port is honoured by every
event of a run exactly where every event is one of those the code handles safely. -/
theorem sts_honoured (s : Server crypto) (hs : s.ssl = false) (es : List Event) :
    Along Watch.step Honoured (Watch.login s) es ↔ Along Watch.step Safe (Watch.login s) es :=
  Along.congr (fun _ e h => h.step e) (fun _ e h => honoured_iff_safe h e) (login_watching hs)

/-- A port on the first of two lines, and a login without SASL. -/
theorem sts_honoured_two_lines :
    Along Watch.step Honoured (Watch.login ({} : Server noCrypto))
      [.capLs (bytes "* :batch sts=port=6697"), .capAck (bytes "batch"), .capLs (bytes "chghost")] :=
  (sts_honoured ({} : Server noCrypto) rfl _).2 (by decide +kernel)

/-- A SASL login: the end of the list is not answered with the reconnect, and the acknowledged `sasl` starts
the login in the clear. -/
theorem sts_not_honoured :
    let es := [.capLs (bytes "sasl=PLAIN sts=port=6697"), .capAck (bytes "sasl")]
    let s : Server noCrypto := { loginmethod := .sasl, password := bytes "secret" }
    ¬ Along Watch.step Honoured (Watch.login s) es ∧
      .send (.authenticate (bytes "PLAIN")) ∈ onConnection (es.foldl step (ircLogin s)).calls := by
  decide

end PoxChat.Cap
