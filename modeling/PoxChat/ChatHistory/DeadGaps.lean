import PoxChat.ChatHistory.GapFill

/-!
# Dead gaps

A gap fill by msgid that comes back empty is asked again by timestamp before the gap is given up.
Whether it is rests on `history_request_used_msgid`, read after the queue has advanced, and on the
guards of `chathistory_request_gap_fill`.

* `gapFillRetry_iff` — when a gap fill is asked again.
* `emptyFill_dead_iff` — what an empty reply does to the row of its gap.
* `dead_on_evidence_iff` — over a run, gaps die on evidence exactly when every empty reply is asked again
  as its own request calls for.
-/

set_option autoImplicit false

namespace PoxChat.ChatHistory

open Lib Scrollback

/-! ## Asking again -/

/-- The gap has a msgid at one of its edges. -/
def anchored (g : Gap) : Bool := g.startMsgid.isSome || g.endMsgid.isSome

/-- The row after its msgids were dropped. -/
def withoutMsgids (g : Gap) : Gap :=
  { g with startMsgid := none, endMsgid := none, attempts := 0, lastAttempt := 0 }

/-- The guards of `chathistory_request_gap_fill` for a gap that was not tried lately. -/
def mayFill (n : Net) (i : Nat) (g : Gap) : Bool :=
  n.serv.haveChathistory && !n.serv.chathistorySuppressed && n.prefs.gapfill && !(n.heap i).catchupInProgress &&
    !scrollbackGapIsParked n g

section

variable {n : Net} {i : Nat} {g : Gap} {gapId dir : Int}

theorem gapId_pos (h : n.gap gapId = some g) : 0 < gapId := by
  obtain ⟨db, _, hget⟩ := Option.bind_eq_some_iff.1 h
  unfold scrollbackGapGet at hget
  split at hget
  · cases hget
  · omega

theorem gap_updateGap {db : Sb} {f : Gap → Gap} (hf : ∀ g, (f g).id = g.id) (hdb : n.db = some db)
    (h : n.gap gapId = some g) :
    ({ n with db := some { db with gaps := updateGap db.gaps gapId f } } : Net).gap gapId = some (f g) := by
  have hpos := gapId_pos h
  unfold Net.gap at h ⊢
  rw [hdb] at h
  simp only [Option.bind_some] at h ⊢
  unfold scrollbackGapGet at h ⊢
  rw [if_neg (by omega)] at h ⊢
  exact find?_updateGap hf h

/-- A submission to a session with nothing pending is refused only as a duplicate. -/
theorem submit_iff (hp : (n.heap i).chPending = none) (req : Chreq) :
    (chathistorySubmit n i req).1 = true ↔ chreqIsDup (n.heap i).chActive req = false := by
  unfold chathistorySubmit
  have hd : chreqIsDup none req = false := rfl
  simp only [hp, hd]
  cases hdup : chreqIsDup (n.heap i).chActive req with
  | true => simp
  | false =>
    simp only [Bool.false_eq_true, if_false, Option.all_none, if_true, iff_true]
    split <;> rfl

/-- When a gap is requested that was not tried lately. -/
theorem requestGapFill_iff (h : n.gap gapId = some g) (hs : g.state ≠ .dead) (hl : g.lastAttempt = 0)
    (hp : (n.heap i).chPending = none) : (chathistoryRequestGapFill n i gapId dir).1 = true ↔
      mayFill n i g = true ∧ chreqIsDup (n.heap i).chActive (gapRequest n g gapId dir) = false := by
  have hpos := gapId_pos h
  have hsub := submit_iff hp (gapRequest n g gapId dir)
  unfold chathistoryRequestGapFill mayFill
  rw [show (n.db.bind fun db => scrollbackGapGet db gapId) = some g from h]
  by_cases h1 : n.serv.haveChathistory = false ∨ n.serv.chathistorySuppressed = true
  · rw [if_pos h1]
    rcases h1 with h1 | h1 <;> simp [h1]
  · rw [if_neg h1]
    by_cases h2 : n.prefs.gapfill = false ∨ gapId ≤ 0
    · rw [if_pos h2]
      rcases h2 with h2 | h2
      · simp [h2]
      · omega
    · rw [if_neg h2]
      by_cases h3 : (n.heap i).catchupInProgress = true
      · simp [h3]
      · rw [if_neg h3]
        simp only [not_or, Bool.not_eq_false, Bool.not_eq_true] at h1 h2 h3
        dsimp only
        by_cases h4 : scrollbackGapIsParked n g = true
        · simp [h4]
        · rw [if_neg (by simp [hs, h4]), if_neg (by simp [hl])]
          simp only [Bool.not_eq_true] at h4
          rw [← hsub]
          cases (chathistorySubmit n i (gapRequest n g gapId dir)).1 <;> simp [h1, h2, h3, h4]

/-- A request for a gap keeps the state of its row. -/
theorem requestGapFill_state (h : n.gap gapId = some g) :
    ((chathistoryRequestGapFill n i gapId dir).2.gap gapId).map (·.state) = some g.state := by
  have hsame : (n.gap gapId).map (·.state) = some g.state := by rw [h]; rfl
  obtain ⟨db, hdb, _⟩ := Option.bind_eq_some_iff.1 h
  unfold chathistoryRequestGapFill
  rw [show (n.db.bind fun db => scrollbackGapGet db gapId) = some g from h]
  split
  · exact hsame
  · split
    · exact hsame
    · split
      · exact hsame
      · dsimp only
        split
        · exact hsame
        · split
          · exact hsame
          · obtain ⟨_, _, _, _, _, hq, _⟩ := submit_queued n i (gapRequest n g gapId dir)
            split
            · have htouch := gap_updateGap (f := fun g => { g with attempts := g.attempts + 1, lastAttempt := n.now })
                (fun _ => rfl) hdb h
              have hpos := gapId_pos h
              rw [hq]
              unfold Net.gap at htouch ⊢
              simp only [Net.store, hdb, Option.map_some, Option.bind_some, scrollbackGapTouch,
                if_neg (show ¬ gapId ≤ 0 by omega)] at htouch ⊢
              rw [htouch]
              rfl
            · rw [hq]
              exact hsame

/-- Dropping the msgids of an anchored gap. -/
theorem dropMsgids_gap {db : Sb} (hdb : n.db = some db) (h : n.gap gapId = some g) (ha : anchored g = true) :
    (scrollbackGapDropMsgids db gapId).1 = true ∧
      ({ n with db := some (scrollbackGapDropMsgids db gapId).2 } : Net).gap gapId = some (withoutMsgids g) := by
  have hpos := gapId_pos h
  have hupd := gap_updateGap (f := fun g => if anchored g then withoutMsgids g else g)
    (fun g => by split <;> rfl) hdb h
  simp only [ha, if_true] at hupd
  unfold scrollbackGapDropMsgids
  rw [if_neg (by omega)]
  refine ⟨?_, hupd⟩
  unfold Net.gap at h
  rw [hdb, Option.bind_some, scrollbackGapGet, if_neg (by omega)] at h
  have hid := List.find?_some h
  refine List.any_eq_true.2 ⟨g, List.mem_of_find?_eq_some h, ?_⟩
  simp only [decide_eq_true_eq] at hid ⊢
  exact ⟨hid, ha⟩

/-- When a gap fill is asked again by timestamp. -/
theorem gapFillRetry_iff (h : n.gap gapId = some g) (ha : anchored g = true) (hs : g.state ≠ .dead)
    (hp : (n.heap i).chPending = none) : (gapFillRetryWithTimestamps n i gapId dir).1 = true ↔
      (n.heap i).historyRequestUsedMsgid = true ∧ mayFill n i g = true ∧
        chreqIsDup (n.heap i).chActive (gapRequest n (withoutMsgids g) gapId dir) = false := by
  have hpos := gapId_pos h
  obtain ⟨db, hdb, _⟩ := Option.bind_eq_some_iff.1 h
  obtain ⟨hdropped, hgap⟩ := dropMsgids_gap hdb h ha
  have hfill := @requestGapFill_iff { n with db := some (scrollbackGapDropMsgids db gapId).2 } i (withoutMsgids g)
    gapId dir hgap hs rfl hp
  unfold gapFillRetryWithTimestamps
  by_cases hused : (n.heap i).historyRequestUsedMsgid = true
  · by_cases hsup : n.serv.chathistorySuppressed = true
    · rw [if_pos (.inr (.inr hsup))]
      simp [mayFill, hsup]
    · rw [if_neg (by simp [hused, hsup]; omega), hdb]
      dsimp only
      rw [if_pos hdropped, hfill]
      simp only [hused, true_and]
      exact Iff.rfl
  · rw [if_pos (.inr (.inl (by simpa using hused)))]
    simp [hused]

/-- A retry keeps the state of the row. -/
theorem gapFillRetry_state (h : n.gap gapId = some g) :
    ((gapFillRetryWithTimestamps n i gapId dir).2.gap gapId).map (·.state) = some g.state := by
  have hsame : (n.gap gapId).map (·.state) = some g.state := by rw [h]; rfl
  have hpos := gapId_pos h
  obtain ⟨db, hdb, _⟩ := Option.bind_eq_some_iff.1 h
  -- dropping msgids keeps the state too
  have hdrop : ∃ g', ({ n with db := some (scrollbackGapDropMsgids db gapId).2 } : Net).gap gapId = some g' ∧
      g'.state = g.state := by
    have hupd := gap_updateGap (f := fun g => if anchored g then withoutMsgids g else g)
      (fun g => by split <;> rfl) hdb h
    refine ⟨_, ?_, show (if anchored g then withoutMsgids g else g).state = g.state by split <;> rfl⟩
    unfold scrollbackGapDropMsgids
    rw [if_neg (by omega)]
    exact hupd
  obtain ⟨g', hg', hstate⟩ := hdrop
  unfold gapFillRetryWithTimestamps
  split
  · exact hsame
  · rw [hdb]
    dsimp only
    split
    · rw [requestGapFill_state hg', hstate]
    · rw [hg', Option.map_some, hstate]

end

/-! ## Empty replies -/

/-- The gap fill that a batch answers, and its session. -/
def answeredFill (n : Net) (b : Batch) : Option (Nat × Chreq) :=
  if batchInReplayWrapper n.serv b then none
  else (batchSession n b).1.bind fun i => ((n.heap i).chActive.filter fun req => 0 < req.gapId).map fun req => (i, req)

/-- An event is an empty reply to a gap fill whose gap has a msgid and is not dead: the session, the request
and the gap. -/
def emptyFill (n : Net) : Event → Option (Nat × Chreq × Gap)
  | .batch b =>
    if b.messages = [] then
      (answeredFill n b).bind fun x =>
        ((n.gap x.2.gapId).filter fun g => anchored g && decide (g.state ≠ .dead)).map fun g => (x.1, x.2, g)
    else none
  | _ => none

/-- The request that goes out when the gap fill of session `i` is retired. -/
def nextRequest (n : Net) (i : Nat) : Option Chreq := (n.heap i).chPending.filter fun _ => dispatchable n i

/-- The gap fill is asked again by timestamp: by then the flag is that of the next request, and the guards
of a gap fill must let it pass. -/
def asksAgain (n : Net) (i : Nat) (req : Chreq) (g : Gap) : Bool :=
  ((nextRequest n i).map (·.usedMsgid)).getD req.usedMsgid && mayFill n i g &&
    !chreqIsDup (nextRequest n i) (gapRequest n (withoutMsgids g) req.gapId req.gapDir)

section

variable {n : Net} {i : Nat} {b : Batch} {req : Chreq} {g : Gap}

theorem answeredFill_spec (h : answeredFill n b = some (i, req)) : batchInReplayWrapper n.serv b = false ∧
    batchSession n b = (some i, n) ∧ (n.heap i).chActive = some req ∧ 0 < req.gapId := by
  unfold answeredFill at h
  split at h
  · cases h
  · rename_i hw
    obtain ⟨j, hj, hreq⟩ := Option.bind_eq_some_iff.1 h
    obtain ⟨req', hreq', heq⟩ := Option.map_eq_some_iff.1 hreq
    cases heq
    obtain ⟨hact, hpos⟩ := Option.filter_eq_some_iff.1 hreq'
    refine ⟨by simpa using hw, ?_, hact, by simpa using hpos⟩
    unfold batchSession at hj ⊢
    simp only [hw] at hj ⊢
    repeat' split at hj
    all_goals simp_all

theorem emptyFill_spec {e : Event} (h : emptyFill n e = some (i, req, g)) : ∃ b, e = .batch b ∧ b.messages = [] ∧
    answeredFill n b = some (i, req) ∧ n.gap req.gapId = some g ∧ anchored g = true ∧ g.state ≠ .dead := by
  cases e
  case batch b =>
    simp only [emptyFill] at h
    split at h
    · rename_i hnil
      obtain ⟨⟨j, req'⟩, hx, hg⟩ := Option.bind_eq_some_iff.1 h
      obtain ⟨g', hg', heq⟩ := Option.map_eq_some_iff.1 hg
      cases heq
      obtain ⟨hgap, hok⟩ := Option.filter_eq_some_iff.1 hg'
      simp only [Bool.and_eq_true, decide_eq_true_eq] at hok
      exact ⟨b, rfl, hnil, hx, hgap, hok.1, hok.2⟩
    · cases h
  all_goals cases h

/-- The session once its gap fill is retired. -/
theorem complete_session (h : SoundQueues n.queueView) (ha : (n.heap i).chActive = some req) :
    ((chathistoryRequestComplete n i).heap i).chActive = nextRequest n i ∧
      ((chathistoryRequestComplete n i).heap i).chPending = none ∧
      ((chathistoryRequestComplete n i).heap i).historyRequestUsedMsgid =
        ((nextRequest n i).map (·.usedMsgid)).getD req.usedMsgid := by
  have hused : (n.heap i).historyRequestUsedMsgid = req.usedMsgid := (h.sound i).usedMsgid req ha
  have hq := congrFun (congrArg QueueView.queue (queueView_complete (n := n) (i := i))) i
  simp only [QueueView.set, Function.update_self] at hq
  have h1 := congrArg QueueState.active hq
  have h2 := congrArg QueueState.pending hq
  have h3 := congrArg QueueState.usedMsgid hq
  simp only [Net.queueView] at h1 h2 h3
  unfold nextRequest
  rw [h1, h2, h3]
  cases hp : (n.heap i).chPending with
  | none => simp [hused]
  | some p => cases hd : dispatchable n i <;> simp [hused, Option.filter]

/-- **An empty reply** gives the gap up exactly when it is not asked again. -/
theorem emptyFill_dead_iff {c : Client} {e : Event} (h : SoundQueues c.net.queueView)
    (hf : emptyFill c.net e = some (i, req, g)) :
    ((step c e).net.gap req.gapId).map (·.state) = some .dead ↔ asksAgain c.net i req g = false := by
  obtain ⟨b, rfl, hnil, hans, hgap, hanch, hdead⟩ := emptyFill_spec hf
  obtain ⟨hw, hs, hact, hpos⟩ := answeredFill_spec hans
  have hshape : batchShape c.net b i = (⟨false, true, false, req.gapId, req.gapDir⟩, c.net) := by
    have hu : chathistoryBatchIsUnsolicited c.net b i = false := by
      simp [chathistoryBatchIsUnsolicited, hw, hact]
    have hne : ¬ req.gapId = 0 := by omega
    unfold batchShape
    simp [hu, hw, hact, hne]
  have hne : ¬ req.gapId = 0 := by omega
  have hstep : (step c (.batch b)).net = (if (gapFillRetryWithTimestamps (chathistoryRequestComplete c.net i) i
      req.gapId req.gapDir).1 then (gapFillRetryWithTimestamps (chathistoryRequestComplete c.net i) i req.gapId req.gapDir).2
      else (gapFillRetryWithTimestamps (chathistoryRequestComplete c.net i) i req.gapId req.gapDir).2.store
        fun db => scrollbackGapSetState db req.gapId .dead) := by
    simp only [step, chathistoryProcessBatch, hs, hshape, if_pos hnil, processEmptyBatch, hne, hpos, false_and,
      and_false, if_false, if_true, Bool.false_eq_true]
  obtain ⟨ha1, hp1, hu1⟩ := complete_session h hact
  obtain ⟨_, _, _, _, _, hq, _⟩ := requestComplete_queued c.net i
  have hgap' : (chathistoryRequestComplete c.net i).gap req.gapId = some g := by
    rw [hq]
    exact hgap
  have hfields : mayFill (chathistoryRequestComplete c.net i) i g = mayFill c.net i g ∧
      gapRequest (chathistoryRequestComplete c.net i) (withoutMsgids g) req.gapId req.gapDir =
        gapRequest c.net (withoutMsgids g) req.gapId req.gapDir := by
    rw [hq]
    refine ⟨?_, rfl⟩
    simp [mayFill, Session.withQueue, scrollbackGapIsParked]
  have hretry := @gapFillRetry_iff (chathistoryRequestComplete c.net i) i g req.gapId req.gapDir hgap' hanch hdead hp1
  have hstate := @gapFillRetry_state (chathistoryRequestComplete c.net i) i g req.gapId req.gapDir hgap'
  rw [hu1, ha1, hfields.1, hfields.2] at hretry
  have hask : asksAgain c.net i req g = (gapFillRetryWithTimestamps (chathistoryRequestComplete c.net i) i req.gapId
      req.gapDir).1 := by
    rw [Bool.eq_iff_iff, hretry]
    simp [asksAgain, and_assoc]
  rw [hstep, hask]
  generalize gapFillRetryWithTimestamps (chathistoryRequestComplete c.net i) i req.gapId req.gapDir = r at hstate
  cases hr : r.1 with
  | true =>
    simp only [if_true, hstate]
    simpa using hdead
  | false =>
    obtain ⟨g', hg', _⟩ := Option.map_eq_some_iff.1 hstate
    obtain ⟨db, hdb, _⟩ := Option.bind_eq_some_iff.1 hg'
    have hset := gap_updateGap (f := fun g => { g with state := .dead }) (fun _ => rfl) hdb hg'
    have hpos' : ¬ req.gapId ≤ 0 := by omega
    simp only [Bool.false_eq_true, if_false, iff_true]
    unfold Net.gap at hset ⊢
    simp only [Net.store, hdb, Option.map_some, Option.bind_some, scrollbackGapSetState, if_neg hpos'] at hset ⊢
    rw [hset]
    rfl

end

/-! ## Runs -/

/-- The connection, and the gaps for which a request by timestamp came back empty. -/
structure Probing where
  client : Client
  probed : List Int

namespace Probing

def start (n : Net) : Probing := ⟨Client.start n, []⟩

/-- The gap an event answers empty, when it was asked by timestamp. -/
def probes (n : Net) : Event → Option Int
  | .batch b =>
    if b.messages = [] then
      ((answeredFill n b).filter fun x => !x.2.usedMsgid).map fun x => x.2.gapId
    else none
  | _ => none

def step (st : Probing) (e : Event) : Probing :=
  ⟨ChatHistory.step st.client e, (probes st.client.net e).toList ++ st.probed⟩

end Probing

/-- An empty reply to a gap fill gives the gap up only if a request for it by timestamp came back empty, and
whether it does depends on the request it answers alone. -/
def DeadOnEvidence (st : Probing) (e : Event) : Prop :=
  ∀ i req g, emptyFill st.client.net e = some (i, req, g) →
    (((step st.client e).net.gap req.gapId).map (·.state) = some .dead → req.gapId ∈ (st.step e).probed) ∧
    (((step st.client e).net.gap req.gapId).map (·.state) = some .dead ↔ req.usedMsgid = false)

/-- An empty reply is asked again exactly when it answers a request by msgid. -/
def AskedAsAnswered (st : Probing) (e : Event) : Prop :=
  (emptyFill st.client.net e).all (fun x => asksAgain st.client.net x.1 x.2.1 x.2.2 == x.2.1.usedMsgid) = true

instance (st : Probing) (e : Event) : Decidable (AskedAsAnswered st e) := inferInstanceAs (Decidable (_ = _))

theorem deadOnEvidence_iff {st : Probing} (h : SoundQueues st.client.net.queueView) (e : Event) :
    DeadOnEvidence st e ↔ AskedAsAnswered st e := by
  unfold DeadOnEvidence AskedAsAnswered
  cases hf : emptyFill st.client.net e with
  | none => simp
  | some x =>
    obtain ⟨i, req, g⟩ := x
    have hdead := emptyFill_dead_iff h hf
    simp only [Option.all_some, beq_iff_eq]
    constructor
    · intro hd
      obtain ⟨-, hiff⟩ := hd i req g rfl
      rw [hdead] at hiff
      cases hq : req.usedMsgid <;> simp_all
    · intro hask i' req' g' heq
      cases heq
      rw [hdead, hask]
      refine ⟨fun hts => ?_, Iff.rfl⟩
      -- the request that just came back empty was one by timestamp
      obtain ⟨b, rfl, hnil, hans, _⟩ := emptyFill_spec hf
      simp [Probing.step, Probing.probes, hnil, hans, hts, Option.filter]

/-- **Dead gaps**: along a run every gap that dies of an empty reply dies on evidence exactly when every empty
reply is asked again as its own request calls for. -/
theorem dead_on_evidence_iff {n : Net} (h : n.NothingAsked) (es : List Event) :
    Along Probing.step DeadOnEvidence (Probing.start n) es ↔ Along Probing.step AskedAsAnswered (Probing.start n) es :=
  Along.congr (I := fun st : Probing => SoundQueues st.client.net.queueView) (fun _ e h => step_soundQueues h e)
    (fun _ e h => deadOnEvidence_iff h e) h.counted.toSoundQueues

/-- `#c` with a gap between the messages `m1` and `m2`. -/
def anchoredGap : Net :=
  { Net.connected [{ type := .channel, channel := "#c" }] with
    db := some (scrollbackGapRecord (Sb.fresh true) "#c" 100 (some "m1") 200 (some "m2") .witnessed).2 }

theorem anchoredGap_asks : anchoredGap.NothingAsked := by
  refine ⟨fun i => ?_, rfl, by decide, by simp [anchoredGap, Net.connected]⟩
  cases i with
  | zero => decide
  | succ i => simp [anchoredGap, Net.connected]

/-- The gap is asked by msgid, then by timestamp, and both come back empty. -/
theorem dead_after_both_probes : Along Probing.step DeadOnEvidence (Probing.start anchoredGap)
    [.requestGapFill 0 1 (-1), .batch (.plain []), .batch (.plain [])] :=
  (dead_on_evidence_iff anchoredGap_asks _).2 (by decide)

/-- With a LATEST waiting behind the gap fill, its empty reply kills the gap at once; without it the gap is
asked by timestamp. -/
theorem dead_behind_queue :
    ((run (Client.start anchoredGap) [.requestGapFill 0 1 (-1), .requestLatest 0 50, .batch (.plain [])]).net.gap 1).map
      (·.state) = some .dead ∧
    ([.requestGapFill 0 1 (-1), .requestLatest 0 50, .batch (.plain [])].foldl Probing.step
      (Probing.start anchoredGap)).probed = [] ∧
    ((run (Client.start anchoredGap) [.requestGapFill 0 1 (-1), .batch (.plain [])]).net.gap 1).map
      (·.state) = some .witnessed ∧
    ¬ Along Probing.step DeadOnEvidence (Probing.start anchoredGap)
      [.requestGapFill 0 1 (-1), .requestLatest 0 50, .batch (.plain [])] := by
  have hdead : ((run (Client.start anchoredGap) [.requestGapFill 0 1 (-1), .requestLatest 0 50,
      .batch (.plain [])]).net.gap 1).map (·.state) = some .dead := by decide
  have hprobed : ([.requestGapFill 0 1 (-1), .requestLatest 0 50, .batch (.plain [])].foldl Probing.step
      (Probing.start anchoredGap)).probed = [] := by decide
  refine ⟨hdead, hprobed, by decide, ?_⟩
  rintro ⟨-, -, hlast, -⟩
  obtain ⟨i, req, g, hf, hid⟩ : ∃ i req g, emptyFill (run (Client.start anchoredGap)
      [.requestGapFill 0 1 (-1), .requestLatest 0 50]).net (.batch (.plain [])) = some (i, req, g) ∧ req.gapId = 1 := by
    refine ⟨0, ⟨.between, some "msgid=m2", some "msgid=m1", 100, .user, false, true, 1, -1⟩,
      ⟨1, 1, 100, some "m1", 200, some "m2", .witnessed, 1, 0⟩, by decide, rfl⟩
  have hmem := (hlast i req g hf).1 (by rw [hid]; exact hdead)
  rw [hid] at hmem
  have : (1 : Int) ∈ ([] : List Int) := hprobed ▸ hmem
  cases this

end PoxChat.ChatHistory
