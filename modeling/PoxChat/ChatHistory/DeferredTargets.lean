import PoxChat.ChatHistory.Queue

/-!
# The deferred TARGETS request

At the end of login the client asks for missed private messages with CHATHISTORY TARGETS, unless a
replay by the server is expected: then the request is put off to the deferred start, whose timer is
armed by the JOINs of the client's own channels.

* `Login` — a connection with the channels the client asked for: `asked` until the own JOIN comes,
  `entered` from then until the 366.
* `LoginEvent.Serves` — the condition under which a step does not lose the request.

Principal result: `deferred_targets_served` — along every run whose steps serve it, a deferred request has
its timer or a channel still to come, and the timer sends it.
-/

set_option autoImplicit false

namespace PoxChat.ChatHistory

open Lib

/-! ## The model -/

structure Login where
  net : Net
  endOfMotd : Bool := false
  asked : List String := []
  entered : List String := []

/-- What happens on a connection until its channels are joined.  `autojoin` are the channels
`check_autojoin_channels` asks for at once, `ask` one that is asked for later; `moved` says that the
commands run at the end of the MOTD changed the network; `duplicate` that the msgid of the JOIN is
known. -/
inductive LoginEvent where
  | loginEnd (autojoin : List String) (moved : Bool)
  | ask (chan : String)
  | join (chan : String) (duplicate : Bool)
  | namesEnd (chan : String)
  | timer
  | wrapperBegin
  | setAuto (on : Bool)

namespace Login

/-- `inbound_login_end`: joins first, TARGETS last. -/
def inboundLoginEnd (s : Login) (autojoin : List String) (moved : Bool) : Login :=
  if s.endOfMotd then s
  else if moved then { s with endOfMotd := true }
  else
    { s with
      endOfMotd := true
      asked := s.asked ++ autojoin
      net := chathistoryRequestTargetsOnReconnect s.net }

/-- The own JOIN of a channel: `inbound_ujoin` schedules the deferred start, unless it has seen this
JOIN. -/
def ujoin (s : Login) (chan : String) (duplicate : Bool) : Login :=
  { s with
    asked := s.asked.filter (· ≠ chan)
    entered := if chan ∈ s.asked then chan :: s.entered else s.entered
    net := if duplicate then s.net else chathistoryScheduleDeferred s.net }

/-- Numeric 366. -/
def nameslistEnd (s : Login) (chan : String) : Login :=
  { s with
    asked := s.asked.filter (· ≠ chan)
    entered := s.entered.filter (· ≠ chan) }

end Login

/-- The timer fires only while it is armed. -/
def LoginEvent.step (s : Login) : LoginEvent → Login
  | .loginEnd autojoin moved => s.inboundLoginEnd autojoin moved
  | .ask chan => { s with asked := s.asked ++ [chan] }
  | .join chan duplicate => s.ujoin chan duplicate
  | .namesEnd chan => s.nameslistEnd chan
  | .timer => if s.net.serv.chathistoryStartTimer then { s with net := chathistoryDeferredStartCb s.net } else s
  | .wrapperBegin => { s with net := chathistoryReplayWrapperBegin s.net }
  | .setAuto on => { s with net := { s.net with prefs := { s.net.prefs with chathistoryAuto := on } } }

def loginRun (s : Login) (es : List LoginEvent) : Login := es.foldl LoginEvent.step s

/-- A deferred request has its timer, or a channel that was asked for has not had its 366. -/
def Login.NotForgotten (s : Login) : Prop :=
  s.net.serv.chathistoryTargetsDeferred = true →
    s.net.serv.chathistoryStartTimer = true ∨ s.asked ++ s.entered ≠ []

instance (s : Login) : Decidable s.NotForgotten := inferInstanceAs (Decidable (_ → _))

/-- The TARGETS line of a reconnect. -/
def targetsLine (n : Net) : String :=
  "CHATHISTORY TARGETS " ++ chathistoryTsRef (n.now + CHATHISTORY_FUZZ_INTERVAL) ++ " " ++
    chathistoryTsRef (n.serv.lastDisconnectTime - CHATHISTORY_FUZZ_INTERVAL) ++ " " ++
    toString (getEffectiveLimit n.serv 0)

/-- The timer, when it fires with a deferred request on a connection with the capability, sends the
request and clears the flag. -/
def Login.TimerServes (s : Login) : Prop :=
  s.net.serv.chathistoryStartTimer = true → s.net.serv.chathistoryTargetsDeferred = true →
    s.net.serv.connected = true → s.net.serv.haveChathistory = true →
    (LoginEvent.timer.step s).net.serv.chathistoryTargetsDeferred = false ∧
      ∃ rest, (LoginEvent.timer.step s).net.sent = s.net.sent ++ ⟨none, targetsLine s.net⟩ :: rest

/-- The step does not lose the request: login ends, with a replay expected, while the timer is armed or
a channel is still to be joined; such a channel's JOIN arms the timer; its 366 does not come before its
JOIN; and the timer fires on a reconnect with the capability and the preference on. -/
def LoginEvent.Serves (s : Login) : LoginEvent → Prop
  | .loginEnd autojoin moved =>
    s.endOfMotd = false → moved = false → persistenceServerDrivesReplay s.net.serv = true →
      s.net.serv.chathistoryStartTimer = true ∨ s.asked ++ autojoin ≠ []
  | .join chan duplicate =>
    s.net.serv.chathistoryTargetsDeferred = true → s.net.serv.chathistoryStartTimer = false → chan ∈ s.asked →
      duplicate = false ∧ s.net.serv.haveChathistory = true ∧ s.net.prefs.chathistoryAuto = true
  | .namesEnd chan => s.net.serv.chathistoryTargetsDeferred = true → chan ∉ s.asked
  | .timer =>
    s.net.serv.chathistoryTargetsDeferred = true → s.net.serv.chathistoryStartTimer = true →
      s.net.serv.connected = true ∧ s.net.serv.haveChathistory = true ∧ s.net.prefs.chathistoryAuto = true ∧
        s.net.serv.lastDisconnectTime ≠ 0
  | _ => True

instance (s : Login) : ∀ e : LoginEvent, Decidable (e.Serves s)
  | .loginEnd _ _ => inferInstanceAs (Decidable (_ → _ → _ → _))
  | .ask _ => .isTrue trivial
  | .join _ _ => inferInstanceAs (Decidable (_ → _ → _ → _))
  | .namesEnd _ => inferInstanceAs (Decidable (_ → _))
  | .timer => inferInstanceAs (Decidable (_ → _ → _))
  | .wrapperBegin => .isTrue trivial
  | .setAuto _ => .isTrue trivial

/-! ## The deferred start -/

section DeferredStart

variable {n : Net}

theorem chathistoryTsRef_ne_empty (ts : Int) : chathistoryTsRef ts ≠ "" := by
  unfold chathistoryTsRef
  split
  · simp
  · intro h
    have := congrArg String.length h
    simp [String.length_append] at this

/-- The fan-out only adds lines, and leaves the flag alone. -/
structure AddsLines (n n' : Net) : Prop where
  deferred : n'.serv.chathistoryTargetsDeferred = n.serv.chathistoryTargetsDeferred
  timer : n'.serv.chathistoryStartTimer = n.serv.chathistoryStartTimer
  sent : n.sent <+: n'.sent

theorem AddsLines.refl (n : Net) : AddsLines n n := ⟨rfl, rfl, List.prefix_refl _⟩

theorem AddsLines.trans {n' n'' : Net} (h : AddsLines n n') (h' : AddsLines n' n'') : AddsLines n n'' :=
  ⟨h'.deferred.trans h.deferred, h'.timer.trans h.timer, h.sent.trans h'.sent⟩

theorem Queued.addsLines {n' : Net} {i : Nat} (h : Queued i n n') : AddsLines n n' := by
  obtain ⟨_, _, _, _, lines, rfl, -⟩ := h
  exact ⟨rfl, rfl, List.prefix_append _ _⟩

theorem catchupEnterLatestPhase_addsLines (i : Nat) : AddsLines n (catchupEnterLatestPhase n i) := by
  unfold catchupEnterLatestPhase refreshNewest
  cases n.db <;> exact ⟨rfl, rfl, List.prefix_refl _⟩

theorem sendDeferredLatest_addsLines (n : Net) (i : Nat) : AddsLines n (sendDeferredLatest n i) := by
  unfold sendDeferredLatest
  dsimp only
  split
  · exact .refl n
  · split
    · exact .refl n
    · have h : AddsLines n (requestLatestSinceStored (catchupEnterLatestPhase n i) i) :=
        (catchupEnterLatestPhase_addsLines i).trans (requestLatest_queued _ i _ _).addsLines
      exact ⟨h.deferred, h.timer, h.sent⟩

theorem fanOut_addsLines (is : List Nat) (n : Net) : AddsLines n (is.foldl sendDeferredLatest n) := by
  induction is generalizing n with
  | nil => exact .refl n
  | cons i is ih => exact (sendDeferredLatest_addsLines n i).trans (ih _)

theorem sendReconnectTargetsRequest_serv : (sendReconnectTargetsRequest n).serv = n.serv := by
  unfold sendReconnectTargetsRequest chathistoryRequestTargets
  split_ifs <;> rfl

/-- On a reconnect with the capability the request goes out. -/
theorem sendReconnectTargetsRequest_sent (hcap : n.serv.haveChathistory = true)
    (hconn : n.serv.connected = true) (hlast : n.serv.lastDisconnectTime ≠ 0) :
    (sendReconnectTargetsRequest n).sent = n.sent ++ [⟨none, targetsLine n⟩] := by
  unfold sendReconnectTargetsRequest chathistoryRequestTargets
  rw [if_neg (by simp [hcap, hconn]), if_neg hlast, if_neg (by simp [hcap, hconn, chathistoryTsRef_ne_empty])]
  rfl

/-- The deferred start serves a deferred request on a reconnect with the preference on. -/
theorem deferredStartCb_serves (hconn : n.serv.connected = true) (hcap : n.serv.haveChathistory = true)
    (hauto : n.prefs.chathistoryAuto = true) (hlast : n.serv.lastDisconnectTime ≠ 0)
    (hflag : n.serv.chathistoryTargetsDeferred = true) :
    (chathistoryDeferredStartCb n).serv.chathistoryTargetsDeferred = false ∧
      ∃ rest, (chathistoryDeferredStartCb n).sent = n.sent ++ ⟨none, targetsLine n⟩ :: rest := by
  unfold chathistoryDeferredStartCb
  dsimp only
  rw [if_pos (by simp [deferredStarts, hconn, hcap, hauto])]
  obtain ⟨hdef, -, rest, hrest⟩ := fanOut_addsLines
    (fanOut { n with serv := { n.serv with chathistoryStartTimer := false } })
    (deferredReset { n with serv := { n.serv with chathistoryStartTimer := false } })
  unfold deferredReset at hdef hrest ⊢
  rw [if_pos hflag] at hdef hrest ⊢
  constructor
  · rw [hdef]
    exact congrArg Serv.chathistoryTargetsDeferred sendReconnectTargetsRequest_serv
  · refine ⟨rest, ?_⟩
    rw [← hrest]
    have hsent := sendReconnectTargetsRequest_sent
      (n := { n with serv := { n.serv with chathistoryStartTimer := false, chathistoryTargetsDeferred := false } })
      hcap hconn hlast
    refine (congrArg (· ++ rest) hsent).trans ?_
    rw [List.append_assoc]
    rfl

end DeferredStart

/-! ## Runs -/

/-- A deferred request has its timer, or a channel that was asked for has not been joined. -/
def Login.Kept (s : Login) : Prop :=
  s.net.serv.chathistoryTargetsDeferred = true → s.net.serv.chathistoryStartTimer = true ∨ s.asked ≠ []

theorem Login.Kept.notForgotten {s : Login} (h : s.Kept) : s.NotForgotten := by
  intro hd
  refine (h hd).imp_right fun hne => ?_
  simp [hne]

theorem inboundLoginEnd_kept {s : Login} (h : s.Kept) {autojoin : List String} {moved : Bool}
    (hs : (LoginEvent.loginEnd autojoin moved).Serves s) : (s.inboundLoginEnd autojoin moved).Kept := by
  unfold Login.inboundLoginEnd
  split
  · exact h
  rename_i hend
  split
  · exact h
  rename_i hmoved
  intro hd
  unfold chathistoryRequestTargetsOnReconnect at hd ⊢
  split
  · rename_i hdrives
    exact hs (by simpa using hend) (by simpa using hmoved) hdrives
  · rename_i hdrives
    rw [if_neg hdrives] at hd
    dsimp only at hd ⊢
    rw [sendReconnectTargetsRequest_serv] at hd ⊢
    exact (h hd).imp_right fun hne => by simp [hne]

theorem filter_ne_of_not_mem {chan : String} {chans : List String} (h : chan ∉ chans) :
    chans.filter (· ≠ chan) = chans := by
  apply List.filter_eq_self.2
  intro c hc
  simpa using fun e : c = chan => h (e ▸ hc)

theorem ujoin_kept {s : Login} (h : s.Kept) {chan : String} {duplicate : Bool}
    (hs : (LoginEvent.join chan duplicate).Serves s) : (s.ujoin chan duplicate).Kept := by
  have hflag : (s.ujoin chan duplicate).net.serv.chathistoryTargetsDeferred =
      s.net.serv.chathistoryTargetsDeferred := by
    unfold Login.ujoin chathistoryScheduleDeferred
    split_ifs <;> rfl
  have harmed : s.net.serv.chathistoryStartTimer = true →
      (s.ujoin chan duplicate).net.serv.chathistoryStartTimer = true := by
    intro ht
    unfold Login.ujoin chathistoryScheduleDeferred
    split_ifs <;> first | exact ht | rfl
  intro hd
  rw [hflag] at hd
  by_cases ht : s.net.serv.chathistoryStartTimer = true
  · exact .inl (harmed ht)
  by_cases hc : chan ∈ s.asked
  · -- the JOIN of an awaited channel arms the timer
    obtain ⟨rfl, hcap, hauto⟩ := hs hd (by simpa using ht) hc
    left
    simp [Login.ujoin, chathistoryScheduleDeferred, hcap, hauto]
  · right
    show s.asked.filter (· ≠ chan) ≠ []
    rw [filter_ne_of_not_mem hc]
    exact (h hd).resolve_left ht

theorem nameslistEnd_kept {s : Login} (h : s.Kept) {chan : String} (hs : (LoginEvent.namesEnd chan).Serves s) :
    (s.nameslistEnd chan).Kept := by
  intro hd
  refine (h hd).imp_right fun hne => ?_
  show s.asked.filter (· ≠ chan) ≠ []
  rwa [filter_ne_of_not_mem (hs hd)]

theorem timer_kept {s : Login} (h : s.Kept) (hs : LoginEvent.timer.Serves s) : (LoginEvent.timer.step s).Kept := by
  unfold LoginEvent.step
  dsimp only
  split
  · rename_i ht
    by_cases hd : s.net.serv.chathistoryTargetsDeferred = true
    · obtain ⟨hconn, hcap, hauto, hlast⟩ := hs hd ht
      intro hd'
      rw [(deferredStartCb_serves hconn hcap hauto hlast hd).1] at hd'
      exact absurd hd' (by simp)
    · intro hd'
      refine absurd ?_ hd
      unfold chathistoryDeferredStartCb at hd'
      dsimp only at hd'
      split at hd'
      · rw [(fanOut_addsLines _ _).deferred] at hd'
        unfold deferredReset at hd'
        rw [if_neg hd] at hd'
        exact hd'
      · exact hd'
  · exact h

theorem LoginEvent.step_kept {s : Login} (e : LoginEvent) (h : s.Kept) (hs : e.Serves s) : (e.step s).Kept := by
  cases e with
  | loginEnd autojoin moved => exact inboundLoginEnd_kept h hs
  | ask chan => exact fun hd => (h hd).imp_right fun _ => by simp [LoginEvent.step]
  | join chan duplicate => exact ujoin_kept h hs
  | namesEnd chan => exact nameslistEnd_kept h hs
  | timer => exact timer_kept h hs
  | wrapperBegin =>
    intro hd
    simp only [LoginEvent.step, chathistoryReplayWrapperBegin] at hd ⊢
    split at hd
    · exact absurd hd (by simp)
    · rename_i hp
      rw [if_neg hp]
      exact h hd
  | setAuto on => exact h

theorem LoginEvent.Serves.timerServes {s : Login} (hs : LoginEvent.timer.Serves s) : s.TimerServes := by
  intro ht hd hconn hcap
  obtain ⟨-, -, hauto, hlast⟩ := hs hd ht
  unfold LoginEvent.step
  dsimp only
  rw [if_pos ht]
  exact deferredStartCb_serves hconn hcap hauto hlast hd

/-- **A deferred TARGETS request is served**: along every run whose steps serve it, in each state it has
its timer or a channel still to come, and each firing of the timer sends it. -/
theorem deferred_targets_served {s : Login} (h0 : s.net.serv.chathistoryTargetsDeferred = false)
    {es : List LoginEvent} (h : Along LoginEvent.step (fun s e => e.Serves s) s es) :
    ∀ pre, pre <+: es → (loginRun s pre).NotForgotten ∧
      (pre ++ [.timer] <+: es → (loginRun s pre).TimerServes) := by
  have hkept : s.Kept := fun hd => absurd hd (by simp [h0])
  rintro pre ⟨rest, rfl⟩
  obtain ⟨hpre, -⟩ := Along.append.1 h
  constructor
  · exact (hpre.invariant (I := Login.Kept) (fun s e hk hs => e.step_kept hk hs) hkept).notForgotten
  · rintro ⟨rest', he⟩
    rw [← he, Along.append, Along.append] at h
    exact LoginEvent.Serves.timerServes h.1.2.1

/-- A reconnect with a cursor sent and the replay not started. -/
def attachedReconnect : Login where
  net := { Net.connected [{ type := .channel, channel := "#c" }] with
    serv := { (Net.connected []).serv with
      lastDisconnectTime := 1000
      persistenceAttached := true
      persistenceCursorSent := true } }

/-- One channel is rejoined, nothing is replayed, and the timer asks for the missed messages. -/
def rejoin : List LoginEvent := [.loginEnd ["#c"] false, .join "#c" false, .namesEnd "#c", .timer]

theorem deferred_targets_served_rejoin :
    Along LoginEvent.step (fun s e => e.Serves s) attachedReconnect rejoin ∧
    ∀ pre, pre <+: rejoin → (loginRun attachedReconnect pre).NotForgotten ∧
      (pre ++ [.timer] <+: rejoin → (loginRun attachedReconnect pre).TimerServes) :=
  ⟨by decide, deferred_targets_served rfl (by decide)⟩

/-- With no channel to rejoin the request is put off to a timer that nothing arms; with the preference
turned off meanwhile, the timer fires and neither sends it nor keeps it. -/
theorem deferred_targets_forgotten :
    ¬ (loginRun attachedReconnect [.loginEnd [] false]).NotForgotten ∧
    ¬ (loginRun attachedReconnect [.loginEnd ["#c"] false, .join "#c" false, .setAuto false]).TimerServes ∧
    ¬ (loginRun attachedReconnect
      [.loginEnd ["#c"] false, .join "#c" false, .namesEnd "#c", .setAuto false, .timer]).NotForgotten := by
  refine ⟨by decide, fun h => ?_, by decide⟩
  have hflag := (h (by decide) (by decide) (by decide) (by decide)).1
  exact absurd hflag (by decide)

end PoxChat.ChatHistory
