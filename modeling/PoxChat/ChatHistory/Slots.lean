import PoxChat.ChatHistory.Queue

/-!
# LATEST slots

`chathistory_latest_pending` counts the sessions in their LATEST phase, so that no BEFORE phase starts
before the last of them is through.  What the counter goes through is a history of acts; the history
is sound when a session takes a slot it does not hold, hands back only a slot it holds, and no BEFORE
phase starts while a slot is held.

* `SlotView` — the part of the state the accounting depends on, with an equation for each function
  that leaves it alone and one for each that moves it.
* `Returns` — the session a step hands a slot back for, read off the state before it.
* `slots_balanced_iff` — the counter is right throughout a run exactly when the deferred start only
  fires with no slot held, and a slot is only handed back for a session that holds one.
-/

set_option autoImplicit false

namespace PoxChat.ChatHistory

open Lib Scrollback

/-! ## Sound histories -/

/-- The sessions that hold a slot after an act. -/
def slotStep (held : List Nat) : SlotAct → List Nat
  | .taken i => i :: held
  | .returned i => held.erase i
  | .beforeStarted _ => held

/-- The sessions that hold a slot. -/
def holders (slots : List SlotAct) : List Nat := slots.foldl slotStep []

/-- The act is in order while these sessions hold a slot. -/
def InOrder (held : List Nat) : SlotAct → Prop
  | .taken i => i ∉ held
  | .returned i => i ∈ held
  | .beforeStarted _ => held = []

instance (held : List Nat) : ∀ a, Decidable (InOrder held a)
  | .taken i => inferInstanceAs (Decidable (i ∉ held))
  | .returned i => inferInstanceAs (Decidable (i ∈ held))
  | .beforeStarted _ => inferInstanceAs (Decidable (held = []))

/-- Every act of the history is in order. -/
def SoundHistory (slots : List SlotAct) : Prop := Along slotStep InOrder [] slots

instance (slots : List SlotAct) : Decidable (SoundHistory slots) := decidableAlong [] slots

theorem holders_snoc (slots : List SlotAct) (a : SlotAct) :
    holders (slots ++ [a]) = slotStep (holders slots) a := by
  simp [holders]

theorem soundHistory_snoc (slots : List SlotAct) (a : SlotAct) :
    SoundHistory (slots ++ [a]) ↔ SoundHistory slots ∧ InOrder (holders slots) a := by
  simp [SoundHistory, Along.append, Along, holders]

theorem SoundHistory.of_prefix {slots more : List SlotAct} (h : SoundHistory (slots ++ more)) :
    SoundHistory slots := (Along.append.1 h).1

/-! ## What the accounting depends on -/

/-- The counter and its history, the sessions, and the phase of each: in progress, paging backwards. -/
structure SlotView where
  pending : Int
  slots : List SlotAct
  sessList : List Nat
  nextSess : Nat
  currentSess : Option Nat
  phase : Nat → Bool × Bool

def Net.slotView (n : Net) : SlotView where
  pending := n.serv.chathistoryLatestPending
  slots := n.slots
  sessList := n.sessList
  nextSess := n.nextSess
  currentSess := n.currentSess
  phase i := ((n.heap i).catchupInProgress, (n.heap i).catchupIsBefore)

def SlotView.setPhase (v : SlotView) (i : Nat) (p : Bool × Bool) : SlotView :=
  { v with phase := Function.update v.phase i p }

/-! ### Functions that leave it alone -/

section Frame

variable {n : Net} {i : Nat}

theorem slotView_upd {f : Session → Session} : (n.upd i f).slotView =
    n.slotView.setPhase i ((f (n.heap i)).catchupInProgress, (f (n.heap i)).catchupIsBefore) := by
  simp only [Net.slotView, Net.upd, SlotView.setPhase, SlotView.mk.injEq, true_and]
  funext j
  by_cases h : j = i
  · subst h; simp
  · simp [h]

theorem SlotView.setPhase_self (n : Net) (i : Nat) :
    n.slotView.setPhase i ((n.heap i).catchupInProgress, (n.heap i).catchupIsBefore) = n.slotView := by
  simp only [SlotView.setPhase]
  rw [show ((n.heap i).catchupInProgress, (n.heap i).catchupIsBefore) = n.slotView.phase i from rfl,
    Function.update_eq_self]

/-- A write to a session that keeps its phase. -/
@[simp] theorem slotView_upd_same {f : Session → Session}
    (h : (f (n.heap i)).catchupInProgress = (n.heap i).catchupInProgress)
    (h' : (f (n.heap i)).catchupIsBefore = (n.heap i).catchupIsBefore) : (n.upd i f).slotView = n.slotView := by
  rw [slotView_upd, h, h', SlotView.setPhase_self]

@[simp] theorem slotView_send (sess : Option Nat) (line : String) : (n.send sess line).slotView = n.slotView := rfl

@[simp] theorem slotView_store (f : Sb → Sb) : (n.store f).slotView = n.slotView := rfl

@[simp] theorem slotView_db (db : Option Sb) : ({ n with db := db } : Net).slotView = n.slotView := rfl

@[simp] theorem slotView_setBeforeSess (sess : Option Nat) : (n.setBeforeSess sess).slotView = n.slotView := rfl

@[simp] theorem slotView_dispatch (req : Chreq) : (chathistoryDispatchNow n i req).slotView = n.slotView := by
  unfold chathistoryDispatchNow
  repeat' split
  all_goals simp

@[simp] theorem slotView_submit (req : Chreq) : (chathistorySubmit n i req).2.slotView = n.slotView := by
  unfold chathistorySubmit
  dsimp only
  repeat' split
  all_goals simp

@[simp] theorem slotView_complete : (chathistoryRequestComplete n i).slotView = n.slotView := by
  unfold chathistoryRequestComplete
  dsimp only
  split <;> simp

@[simp] theorem slotView_queueFree : (chathistoryQueueFree n i).slotView = n.slotView := by
  simp [chathistoryQueueFree]

@[simp] theorem slotView_requestLatest (reference : Option String) (limit : Int) :
    (chathistoryRequestLatest n i reference limit).slotView = n.slotView := by
  unfold chathistoryRequestLatest submitRequest
  split <;> simp

@[simp] theorem slotView_requestBeforeMsgid (msgid : String) (limit : Int) :
    (chathistoryRequestBeforeMsgid n i msgid limit).slotView = n.slotView := by
  unfold chathistoryRequestBeforeMsgid chathistoryRequestBefore submitRequest
  repeat' split
  all_goals simp

@[simp] theorem slotView_requestOlder : (chathistoryRequestOlder n i).slotView = n.slotView := by
  unfold chathistoryRequestOlder
  dsimp only
  split
  · rfl
  · split <;> simp

@[simp] theorem slotView_requestGapFill (gapId dir : Int) :
    (chathistoryRequestGapFill n i gapId dir).2.slotView = n.slotView := by
  unfold chathistoryRequestGapFill
  dsimp only
  repeat' split
  all_goals simp

@[simp] theorem slotView_gapFillRetry (gapId dir : Int) :
    (gapFillRetryWithTimestamps n i gapId dir).2.slotView = n.slotView := by
  unfold gapFillRetryWithTimestamps
  dsimp only
  repeat' split
  all_goals simp

@[simp] theorem slotView_requestLatestSinceStored : (requestLatestSinceStored n i).slotView = n.slotView := by
  simp [requestLatestSinceStored]

@[simp] theorem slotView_refreshNewest : (refreshNewest n i).slotView = n.slotView := by
  unfold refreshNewest
  split <;> simp

@[simp] theorem slotView_reconnectTargets : (sendReconnectTargetsRequest n).slotView = n.slotView := by
  unfold sendReconnectTargetsRequest chathistoryRequestTargets
  repeat' split
  all_goals simp

@[simp] theorem slotView_track (msgid : String) (ts : Int) (isHistory : Bool) :
    (chathistoryTrackMsgidTs n i msgid ts isHistory).slotView = n.slotView := by
  unfold chathistoryTrackMsgidTs
  dsimp only
  repeat' split
  all_goals simp

@[simp] theorem slotView_isDuplicate (msgid : String) (ts : Int) :
    (chathistoryIsDuplicateMsgid n i msgid ts).2.slotView = n.slotView := by
  unfold chathistoryIsDuplicateMsgid
  dsimp only
  repeat' split
  all_goals simp

@[simp] theorem slotView_runHandlers (msg : BatchMessage) : (runHandlers n i msg).slotView = n.slotView := by
  unfold runHandlers
  dsimp only
  split <;> simp

@[simp] theorem slotView_processBatchMessage (msg : BatchMessage) :
    (processBatchMessage n i msg).2.slotView = n.slotView := by
  unfold processBatchMessage
  dsimp only
  repeat' split
  all_goals simp

@[simp] theorem slotView_chunkLoop (m : Nat) (c : Client) (k : Chunk) :
    (chunkLoop m c k).1.net.slotView = c.net.slotView := by
  induction m generalizing c k with
  | zero => rfl
  | succ m ih =>
    unfold chunkLoop
    split
    · rfl
    · simp [ih]

@[simp] theorem slotView_processChunkMessages (c : Client) (k : Chunk) :
    (processChunkMessages c k).1.net.slotView = c.net.slotView := slotView_chunkLoop _ c k

@[simp] theorem slotView_settleBatch (k : Chunk) : (settleBatch n k).slotView = n.slotView := by
  have h : ({ n with serv := { n.serv with chathistoryFailStreak := 0 } } : Net).slotView = n.slotView := rfl
  unfold settleBatch
  dsimp only
  repeat' split
  all_goals simp [h]

@[simp] theorem slotView_recordWitness (k : Chunk) : (recordWitness n k).slotView = n.slotView := by
  unfold recordWitness
  split <;> simp

@[simp] theorem slotView_clampGap (k : Chunk) : (clampGap n k).slotView = n.slotView := by
  unfold clampGap
  repeat' split
  all_goals simp

@[simp] theorem slotView_finishPlain (k : Chunk) : (finishPlain n k).slotView = n.slotView := by
  unfold finishPlain scheduleBackgroundFetch
  dsimp only
  repeat' split
  all_goals simp

@[simp] theorem slotView_failGap (gapId dir : Int) (latched : Bool) :
    (failGap n i gapId dir latched).slotView = n.slotView := by
  unfold failGap
  dsimp only
  repeat' split
  all_goals simp

@[simp] theorem slotView_backgroundTimer : (backgroundHistoryTimerCb n i).slotView = n.slotView := by
  unfold backgroundHistoryTimerCb
  dsimp only
  repeat' split
  all_goals simp

end Frame

/-! ### Functions that move it -/

section Moves

variable {n : Net} {i : Nat}

@[simp] theorem slotView_finishCatchup :
    (finishCatchup n i).slotView = n.slotView.setPhase i (false, false) := by
  unfold finishCatchup
  dsimp only
  split <;> simp [slotView_upd]

@[simp] theorem slotView_enterLatest :
    (catchupEnterLatestPhase n i).slotView = n.slotView.setPhase i (true, false) := by
  simp [catchupEnterLatestPhase, slotView_upd]

def SlotView.take (v : SlotView) (i : Nat) : SlotView :=
  { v with pending := v.pending + 1, slots := v.slots ++ [.taken i] }

def SlotView.hand (v : SlotView) (i : Nat) : SlotView :=
  if 0 < v.pending then { v with pending := v.pending - 1, slots := v.slots ++ [.returned i] } else v

@[simp] theorem slotView_takeSlot : (n.takeSlot i).slotView = n.slotView.take i := rfl

@[simp] theorem slotView_returnSlot : (n.returnSlot i).slotView = n.slotView.hand i := by
  unfold Net.returnSlot SlotView.hand
  rw [show n.slotView.pending = n.serv.chathistoryLatestPending from rfl]
  split <;> rfl

theorem slotView_startBefore (n : Net) (i : Nat) : ∃ p, (startBefore n i).slotView =
    { n.slotView.setPhase i p with slots := n.slots ++ [SlotAct.beforeStarted i] } := by
  have hv : ({ (n.setBeforeSess (some i)).upd i (fun s => { s with catchupIsBefore := true }) with
      slots := (n.setBeforeSess (some i)).slots ++ [SlotAct.beforeStarted i] } : Net).slotView =
        { n.slotView.setPhase i ((n.heap i).catchupInProgress, true) with
          slots := n.slots ++ [SlotAct.beforeStarted i] } := by
    have h := @slotView_upd (n.setBeforeSess (some i)) i fun s => { s with catchupIsBefore := true }
    exact congrArg (fun v : SlotView => { v with slots := n.slots ++ [SlotAct.beforeStarted i] }) h
  have hend : ∀ q : Bool × Bool, ({ n.slotView.setPhase i q with
      slots := n.slots ++ [SlotAct.beforeStarted i] } : SlotView).setPhase i (false, false) =
        { n.slotView.setPhase i (false, false) with slots := n.slots ++ [SlotAct.beforeStarted i] } := by
    intro q
    simp [SlotView.setPhase]
  unfold startBefore
  dsimp only
  split
  · split
    · exact ⟨_, by rw [slotView_requestBeforeMsgid, hv]⟩
    · exact ⟨_, by rw [slotView_setBeforeSess, slotView_finishCatchup, hv, hend]⟩
  · exact ⟨_, by rw [slotView_setBeforeSess, slotView_finishCatchup, hv, hend]⟩

/-- The check starts a BEFORE phase only with no slot pending. -/
theorem slotView_check (n : Net) : (chathistoryCheckBeforeCatchup n).slotView = n.slotView ∨
    ∃ i p, n.slotView.pending ≤ 0 ∧ (chathistoryCheckBeforeCatchup n).slotView =
      { n.slotView.setPhase i p with slots := n.slotView.slots ++ [SlotAct.beforeStarted i] } := by
  unfold chathistoryCheckBeforeCatchup
  split
  · rename_i hmay
    split
    · exact .inl rfl
    · rename_i i _
      obtain ⟨p, hp⟩ := slotView_startBefore n i
      simp only [beforeMayStart, Bool.and_eq_true, decide_eq_true_eq] at hmay
      exact .inr ⟨i, p, hmay.1.2, hp⟩
  · exact .inl rfl

theorem slotView_startCatchup (n : Net) (i : Nat) : (chathistoryStartCatchup n i).slotView = n.slotView ∨
    (n.slotView.phase i).1 = false ∧
      (chathistoryStartCatchup n i).slotView = n.slotView.setPhase i (true, (n.heap i).catchupIsBefore) := by
  unfold chathistoryStartCatchup
  dsimp only
  split
  · exact .inl rfl
  · split
    · exact .inl rfl
    · rename_i h
      simp only [not_or, Bool.not_eq_true] at h
      exact .inr ⟨h.2, by simp [slotView_upd]⟩

end Moves

/-! ## The invariant -/

/-- The counter is the number of sessions holding a slot, and the history is sound. -/
def Balanced (v : SlotView) : Prop := SoundHistory v.slots ∧ v.pending = (holders v.slots).length

instance (v : SlotView) : Decidable (Balanced v) := inferInstanceAs (Decidable (_ ∧ _))

/-- The accounting, `d` slots short: the sessions that hold a slot are in their LATEST phase. -/
structure Owing (d : Int) (v : SlotView) : Prop where
  history : SoundHistory v.slots
  pending : v.pending + d = (holders v.slots).length
  latest : ∀ i ∈ holders v.slots, i ∈ v.sessList ∧ v.phase i = (true, false)
  fresh : ∀ i ∈ v.sessList, i < v.nextSess
  current : ∀ i, v.currentSess = some i → i ∈ v.sessList

theorem SoundHistory.nodup {slots : List SlotAct} (h : SoundHistory slots) : (holders slots).Nodup := by
  refine Along.invariant (I := List.Nodup) ?_ List.nodup_nil h
  intro held a hn ha
  cases a with
  | taken i => exact List.nodup_cons.2 ⟨ha, hn⟩
  | returned i => exact hn.erase i
  | beforeStarted i => exact hn

section Invariant

variable {d : Int} {v : SlotView} {i : Nat}

theorem Owing.balanced (h : Owing 0 v) : Balanced v := by
  have hp := h.pending
  exact ⟨h.history, by omega⟩

theorem Owing.not_balanced (h : Owing d v) (hd : d ≠ 0) : ¬ Balanced v := by
  intro hb
  have h1 := h.pending
  have h2 := hb.2
  omega

theorem Owing.setPhase (h : Owing d v) (hi : i ∉ holders v.slots) (p : Bool × Bool) : Owing d (v.setPhase i p) := by
  refine { h with latest := fun j hj => ?_ }
  have hne : j ≠ i := by rintro rfl; exact hi hj
  simpa [SlotView.setPhase, hne] using h.latest j hj

theorem Owing.not_held (h : Owing d v) (hp : v.phase i ≠ (true, false)) : i ∉ holders v.slots :=
  fun hi => hp (h.latest i hi).2

theorem Owing.take (h : Owing d v) (hs : i ∈ v.sessList) (hp : v.phase i ≠ (true, false)) :
    Owing d ((v.setPhase i (true, false)).take i) := by
  have hi := h.not_held hp
  refine ⟨(soundHistory_snoc _ _).2 ⟨h.history, hi⟩, ?_, ?_, h.fresh, h.current⟩
  · have := h.pending
    simp only [SlotView.take, SlotView.setPhase, holders_snoc, slotStep, List.length_cons]
    omega
  · intro j hj
    simp only [SlotView.take, SlotView.setPhase, holders_snoc, slotStep, List.mem_cons] at hj ⊢
    rcases hj with rfl | hj
    · exact ⟨hs, by simp⟩
    · have hne : j ≠ i := by rintro rfl; exact hi hj
      simpa [hne] using h.latest j hj

theorem Owing.holders_nil (h : Owing 0 v) (hp : v.pending ≤ 0) : holders v.slots = [] := by
  have := h.pending
  rw [← List.length_eq_zero_iff]
  omega

/-- After a step that ends well or breaks the history. -/
def Outcome (v : SlotView) (cond : Prop) : Prop := (cond → Owing 0 v) ∧ (¬ cond → ¬ SoundHistory v.slots)

theorem Outcome.balanced_iff {cond : Prop} (h : Outcome v cond) : Balanced v ↔ cond := by
  constructor
  · intro hb
    by_contra hc
    exact h.2 hc hb.1
  · exact fun hc => (h.1 hc).balanced

theorem Owing.hand (h : Owing 0 v) (i : Nat) :
    Outcome (v.hand i) (holders v.slots = [] ∨ i ∈ holders v.slots) := by
  have hp := h.pending
  by_cases hpos : 0 < v.pending
  · have hne : holders v.slots ≠ [] := by
      intro he
      rw [he, List.length_nil] at hp
      omega
    simp only [SlotView.hand, if_pos hpos]
    constructor
    · intro hc
      have hi : i ∈ holders v.slots := hc.resolve_left hne
      refine ⟨(soundHistory_snoc _ _).2 ⟨h.history, hi⟩, ?_, ?_, h.fresh, h.current⟩
      · simp only [holders_snoc, slotStep, List.length_erase_of_mem hi]
        have := List.length_pos_of_mem hi
        omega
      · intro j hj
        simp only [holders_snoc, slotStep] at hj
        exact h.latest j (List.mem_of_mem_erase hj)
    · intro hc hs
      exact hc (.inr ((soundHistory_snoc _ _).1 hs).2)
  · simp only [SlotView.hand, if_neg hpos]
    exact ⟨fun _ => h, fun hc => absurd (.inl (h.holders_nil (by omega))) hc⟩

/-- Handing back the slot and ending the catch-up of its session. -/
theorem Owing.hand_end (h : Owing 0 v) (i : Nat) :
    Outcome ((v.hand i).setPhase i (false, false)) (holders v.slots = [] ∨ i ∈ holders v.slots) := by
  obtain ⟨hgood, hbad⟩ := h.hand i
  refine ⟨fun hc => (hgood hc).setPhase ?_ _, hbad⟩
  unfold SlotView.hand
  split
  · rw [holders_snoc]
    exact h.history.nodup.not_mem_erase
  · simp [h.holders_nil (by omega)]

theorem SlotView.hand_setPhase (v : SlotView) (i : Nat) (p : Bool × Bool) :
    (v.setPhase i p).hand i = (v.hand i).setPhase i p := by
  unfold SlotView.hand SlotView.setPhase
  dsimp only
  split <;> rfl

end Invariant

/-! ## One function at a time -/

section Functions

variable {d : Int} {n : Net} {i : Nat} {cond : Prop}

theorem check_owing (h : Owing 0 n.slotView) : Owing 0 (chathistoryCheckBeforeCatchup n).slotView := by
  rcases slotView_check n with hv | ⟨j, p, hp, hv⟩
  · rw [hv]
    exact h
  · have hnil := h.holders_nil hp
    have h' := h.setPhase (by simp [hnil] : j ∉ _) p
    rw [hv]
    refine ⟨(soundHistory_snoc _ _).2 ⟨h.history, hnil⟩, ?_, ?_, h.fresh, h.current⟩
    · simpa [holders_snoc, slotStep, SlotView.setPhase] using h.pending
    · simp [holders_snoc, slotStep, hnil]

theorem check_history (h : SoundHistory (chathistoryCheckBeforeCatchup n).slotView.slots) :
    SoundHistory n.slotView.slots := by
  rcases slotView_check n with hv | ⟨j, p, _, hv⟩
  · rwa [hv] at h
  · rw [hv] at h
    exact SoundHistory.of_prefix h

theorem Outcome.check (h : Outcome n.slotView cond) : Outcome (chathistoryCheckBeforeCatchup n).slotView cond :=
  ⟨fun hc => check_owing (h.1 hc), fun hc hs => h.2 hc (check_history hs)⟩

theorem Outcome.checkWhenNonePending (h : Outcome n.slotView cond) :
    Outcome (checkWhenNonePending n).slotView cond := by
  unfold ChatHistory.checkWhenNonePending
  split
  · exact h.check
  · exact h

theorem checkWhenNonePending_owing (h : Owing 0 n.slotView) : Owing 0 (checkWhenNonePending n).slotView := by
  unfold checkWhenNonePending
  split
  · exact check_owing h
  · exact h

/-- A session outside of the LATEST phase ends its catch-up. -/
theorem finishCatchup_check_owing (h : Owing 0 n.slotView) (hi : i ∉ holders n.slotView.slots) :
    Owing 0 (chathistoryCheckBeforeCatchup (finishCatchup n i)).slotView := by
  apply check_owing
  rw [slotView_finishCatchup]
  exact h.setPhase hi _

theorem endBefore_owing (h : Owing 0 n.slotView) (hi : i ∉ holders n.slotView.slots) (settle : Sb → Int → Sb) :
    Owing 0 (endBefore n i settle).slotView := by
  unfold endBefore
  dsimp only
  split
  · exact finishCatchup_check_owing (by simpa using h) (by simpa using hi)
  · exact finishCatchup_check_owing h hi

theorem continueBefore_owing {k : Chunk} (h : Owing 0 n.slotView) (hi : k.sess ∉ holders n.slotView.slots) :
    Owing 0 (continueBefore n k).slotView := by
  unfold continueBefore
  dsimp only
  repeat' split
  · exact finishCatchup_check_owing h hi
  · exact finishCatchup_check_owing h hi
  · exact h
  · exact finishCatchup_check_owing h hi

theorem finishBefore_owing {k : Chunk} (h : Owing 0 n.slotView) (hi : k.sess ∉ holders n.slotView.slots) :
    Owing 0 (finishBefore n k).slotView := by
  unfold finishBefore
  dsimp only
  repeat' split
  all_goals first | apply endBefore_owing | apply continueBefore_owing
  all_goals first | simpa using h | simpa using hi

theorem finishLatest_outcome {k : Chunk} (h : Owing 0 n.slotView) : Outcome (finishLatest n k).slotView
    (k.latestOwned = true → holders n.slotView.slots = [] ∨ k.sess ∈ holders n.slotView.slots) := by
  have hw : (if witnesses n k = true then recordWitness n k else n).slotView = n.slotView := by
    split
    · simp
    · rfl
  unfold finishLatest
  dsimp only
  apply Outcome.checkWhenNonePending
  split
  · rename_i howned
    rw [slotView_returnSlot, hw]
    obtain ⟨hgood, hbad⟩ := h.hand k.sess
    exact ⟨fun hc => hgood (hc howned), fun hc => hbad fun hc' => hc fun _ => hc'⟩
  · rename_i howned
    rw [hw]
    exact ⟨fun _ => h, fun hc => absurd (fun ho => absurd ho howned) hc⟩

/-- The end of a batch hands a slot back in the LATEST arm only. -/
theorem finishBatchProcessing_outcome {k : Chunk} (h : Owing 0 n.slotView) :
    Outcome (finishBatchProcessing n k).slotView
      (k.isCatchup = true → (n.heap k.sess).catchupIsBefore = false → k.latestOwned = true →
        holders n.slotView.slots = [] ∨ k.sess ∈ holders n.slotView.slots) := by
  have hb : ((settleBatch n k).heap k.sess).catchupIsBefore = (n.heap k.sess).catchupIsBefore :=
    congrArg (fun v => (v.phase k.sess).2) (slotView_settleBatch k)
  have h' : Owing 0 (settleBatch n k).slotView := by rwa [slotView_settleBatch]
  unfold finishBatchProcessing
  dsimp only
  split
  · rename_i hcatch
    split
    · rename_i hbefore
      have hi : k.sess ∉ holders (settleBatch n k).slotView.slots :=
        h'.not_held (by simp [Net.slotView, hbefore])
      refine ⟨fun _ => finishBefore_owing h' hi, fun hc => absurd ?_ hc⟩
      intro _ hfalse
      rw [hb] at hbefore
      simp [hbefore] at hfalse
    · rename_i hbefore
      have hlatest := finishLatest_outcome (k := k) h'
      rw [slotView_settleBatch] at hlatest
      rw [hb, Bool.not_eq_true] at hbefore
      exact ⟨fun hc => hlatest.1 (hc hcatch hbefore), fun hc => hlatest.2 fun hc' => hc fun _ _ => hc'⟩
  · rename_i hcatch
    refine ⟨fun _ => ?_, fun hc => absurd (fun hk => absurd hk hcatch) hc⟩
    rwa [slotView_finishPlain]

theorem newIrcwindow_owing (h : Owing d n.slotView) (name : String) :
    Owing d (newIrcwindow n name).2.slotView ∧ (newIrcwindow n name).2.slotView.slots = n.slotView.slots ∧
      (newIrcwindow n name).1 ∈ (newIrcwindow n name).2.slotView.sessList := by
  refine ⟨⟨h.history, h.pending, fun j hj => ?_, fun j hj => ?_, fun j hj => ?_⟩, rfl, ?_⟩
  · obtain ⟨hs, hp⟩ := h.latest j hj
    have hlt : j < n.nextSess := h.fresh j hs
    have hne : j ≠ n.nextSess := by omega
    refine ⟨List.mem_cons_of_mem _ hs, ?_⟩
    simpa [newIrcwindow, Net.slotView, hne] using hp
  · show j < n.nextSess + 1
    have hj' : j = n.nextSess ∨ j ∈ n.sessList := List.mem_cons.1 hj
    rcases hj' with rfl | hj'
    · omega
    · have : j < n.nextSess := h.fresh j hj'
      omega
  · exact List.mem_cons_of_mem _ (h.current j hj)
  · exact List.mem_cons_self

theorem startCatchup_owing (h : Owing d n.slotView) (i : Nat) : Owing d (chathistoryStartCatchup n i).slotView := by
  rcases slotView_startCatchup n i with hv | ⟨hp, hv⟩
  · rwa [hv]
  · rw [hv]
    refine h.setPhase (h.not_held fun he => ?_) _
    rw [he] at hp
    cases hp

theorem processTargetsLine_owing (h : Owing d n.slotView) (msg : BatchMessage) :
    Owing d (processTargetsLine n msg).slotView := by
  unfold processTargetsLine
  split
  · exact h
  · split
    · exact startCatchup_owing h _
    · exact startCatchup_owing (newIrcwindow_owing h _).1 _

theorem processTargets_owing (h : Owing d n.slotView) (messages : List BatchMessage) :
    Owing d (chathistoryProcessTargetsBatch n messages).slotView := by
  induction messages generalizing n with
  | nil => exact h
  | cons msg messages ih => exact ih (processTargetsLine_owing h msg)

theorem sendDeferredLatest_owing (h : Owing d n.slotView) (hs : i ∈ n.slotView.sessList) :
    Owing d (sendDeferredLatest n i).slotView ∧
      (sendDeferredLatest n i).slotView.sessList = n.slotView.sessList := by
  unfold sendDeferredLatest
  dsimp only
  split
  · exact ⟨h, rfl⟩
  · rename_i hidle
    simp only [not_or, Bool.not_eq_true] at hidle
    split
    · exact ⟨h, rfl⟩
    · have hp : n.slotView.phase i ≠ (true, false) := by simp [Net.slotView, hidle.2.1]
      constructor
      · simpa using h.take hs hp
      · simp [SlotView.take, SlotView.setPhase]

theorem fanOut_owing (is : List Nat) (h : Owing d n.slotView) (hs : ∀ i ∈ is, i ∈ n.slotView.sessList) :
    Owing d (is.foldl sendDeferredLatest n).slotView := by
  induction is generalizing n with
  | nil => exact h
  | cons i is ih =>
    obtain ⟨h', hl⟩ := sendDeferredLatest_owing h (hs i (by simp))
    refine ih h' fun j hj => ?_
    rw [hl]
    exact hs j (by simp [hj])

theorem slotView_deferredReset (n : Net) : (deferredReset n).slotView = { n.slotView with pending := 0 } := by
  unfold deferredReset
  split
  · have h := @slotView_reconnectTargets { n with serv := { n.serv with chathistoryTargetsDeferred := false } }
    exact congrArg (fun v : SlotView => { v with pending := 0 }) h
  · rfl

/-- The fan-out counts from zero, so slots held before it are no longer counted. -/
theorem deferredStart_owing (h : Owing 0 n.slotView) : Owing
    (if deferredStarts n then (holders n.slotView.slots).length else 0) (chathistoryDeferredStartCb n).slotView := by
  have hv : ({ n with serv := { n.serv with chathistoryStartTimer := false } } : Net).slotView = n.slotView := rfl
  unfold chathistoryDeferredStartCb
  dsimp only
  rw [show deferredStarts { n with serv := { n.serv with chathistoryStartTimer := false } } = deferredStarts n
    from rfl]
  split
  · apply fanOut_owing
    · rw [slotView_deferredReset, hv]
      exact { h with pending := by simp }
    · intro i hi
      rw [slotView_deferredReset, hv]
      simp only [fanOut, List.mem_append, Option.mem_toList, List.mem_filter] at hi
      rcases hi with hi | hi
      · exact h.current i hi
      · exact hi.1
  · exact h

/-! ### Batches -/

/-- The gap of the request in flight. -/
def activeGap (s : Session) : Int := (s.chActive.map (·.gapId)).getD 0

/-- A batch is taken for an answer to the catch-up of its session. -/
def answersCatchup (n : Net) (b : Batch) (i : Nat) : Bool :=
  !chathistoryBatchIsUnsolicited n b i && (n.heap i).catchupInProgress && decide (activeGap (n.heap i) = 0)

/-- An empty answer is asked again by timestamp. -/
def emptyRetries (n : Net) (b : Batch) (i : Nat) : Bool :=
  !(n.heap i).historyExhausted && !b.chathistoryEnd && (n.heap i).historyRequestUsedMsgid &&
    decide (0 < (n.heap i).scrollbackNewestTime)

/-- The session a batch hands a slot back for that it did not take itself. -/
def batchReturns (n : Net) (b : Batch) : Option Nat :=
  (batchSession n b).1.filter fun i => answersCatchup n b i &&
    (if b.messages = [] then !emptyRetries n b i
      else decide (b.rawCount ≤ CHATHISTORY_CHUNK_SIZE) && !(n.heap i).catchupIsBefore)

/-- The session whose slot may be handed back holds one, or none is held. -/
def HandsBack (held : List Nat) : Option Nat → Prop
  | none => True
  | some i => held = [] ∨ i ∈ held

instance (held : List Nat) : ∀ i, Decidable (HandsBack held i)
  | none => .isTrue trivial
  | some i => inferInstanceAs (Decidable (held = [] ∨ i ∈ held))

theorem Outcome.of_owing {v : SlotView} (h : Owing 0 v) (hc : cond) : Outcome v cond :=
  ⟨fun _ => h, fun hn => absurd hc hn⟩

theorem batchSession_owing (h : Owing 0 n.slotView) {b : Batch} {net : Net}
    (hs : batchSession n b = (some i, net)) :
    Owing 0 net.slotView ∧ net.slotView.slots = n.slotView.slots ∧ i ∈ net.slotView.sessList ∧
      (batchInReplayWrapper n.serv b = false → net = n) ∧ net.serv = n.serv := by
  unfold batchSession at hs
  split at hs
  · cases hs
  · rename_i target _
    split at hs
    · rename_i j hj
      cases hs
      refine ⟨h, rfl, ?_, fun _ => rfl, rfl⟩
      unfold findSessionForTarget at hj
      split at hj
      · cases hj
      · rcases Option.or_eq_some_iff.1 hj with hj | ⟨_, hj⟩
        · exact List.mem_of_find?_eq_some hj
        · exact List.mem_of_find?_eq_some hj
    · split at hs
      · rename_i hnested
        obtain ⟨h1, h2, h3⟩ := newIrcwindow_owing h target
        cases hs
        exact ⟨h1, h2, h3, fun hn => absurd (hn.symm.trans hnested.1) (by simp), rfl⟩
      · cases hs

/-- An adopted batch takes a slot for a session that holds none. -/
theorem adopted_owing (h : Owing 0 n.slotView) (hs : i ∈ n.slotView.sessList) (ha : adopts n i = true) :
    Owing 0 ((catchupEnterLatestPhase n i).takeSlot i).slotView ∧
      i ∈ holders ((catchupEnterLatestPhase n i).takeSlot i).slotView.slots ∧
      ((catchupEnterLatestPhase n i).takeSlot i).slotView.phase i = (true, false) := by
  have hp : n.slotView.phase i ≠ (true, false) := by
    intro he
    have hip : (n.heap i).catchupInProgress = true := congrArg Prod.fst he
    simp [adopts, hip] at ha
  have hv : ((catchupEnterLatestPhase n i).takeSlot i).slotView =
      (n.slotView.setPhase i (true, false)).take i := by simp
  rw [hv]
  refine ⟨h.take hs hp, ?_, ?_⟩
  · simp [SlotView.take, SlotView.setPhase, holders_snoc, slotStep]
  · simp [SlotView.take, SlotView.setPhase]

theorem finishCatchup_returnSlot_outcome (h : Owing 0 n.slotView) (i : Nat) :
    Outcome ((finishCatchup n i).returnSlot i).slotView
      (holders n.slotView.slots = [] ∨ i ∈ holders n.slotView.slots) := by
  rw [slotView_returnSlot, slotView_finishCatchup, SlotView.hand_setPhase]
  exact h.hand_end i

/-- The empty arm, for a batch that was adopted or answers the catch-up. -/
theorem endEmpty_outcome (h : Owing 0 n.slotView) (i : Nat) :
    Outcome (checkWhenNonePending ((finishCatchup n i).returnSlot i)).slotView
      (holders n.slotView.slots = [] ∨ i ∈ holders n.slotView.slots) :=
  (finishCatchup_returnSlot_outcome h i).checkWhenNonePending

theorem gapId_of_unsolicited {b : Batch} (h : chathistoryBatchIsUnsolicited n b i = true) :
    (if batchInReplayWrapper n.serv b = true then 0 else activeGap (n.heap i)) = 0 := by
  split
  · rfl
  · rename_i hn
    rw [chathistoryBatchIsUnsolicited, Bool.eq_false_iff.2 hn, Bool.false_or, Bool.and_eq_true,
      Option.isNone_iff_eq_none] at h
    simp [activeGap, h.1]

/-- The shape of a batch that answers no request. -/
theorem batchShape_unsolicited {b : Batch} (hu : chathistoryBatchIsUnsolicited n b i = true) :
    ∃ dir, batchShape n b i = (⟨true, adopts n i, adopts n i, 0, dir⟩,
      if adopts n i then (catchupEnterLatestPhase n i).takeSlot i else n) := by
  have hgap := gapId_of_unsolicited hu
  unfold activeGap at hgap
  refine ⟨(batchShape n b i).1.gapDir, ?_⟩
  unfold batchShape chathistoryBeginUnsolicitedCatchup
  simp only [hgap, if_pos hu]
  cases adopts n i <;> rfl

/-- The shape of a batch that answers the request in flight. -/
theorem batchShape_solicited {b : Batch} (hu : chathistoryBatchIsUnsolicited n b i = false) :
    ∃ dir, batchShape n b i =
      (⟨false, true, (n.heap i).catchupInProgress && decide (activeGap (n.heap i) = 0),
        activeGap (n.heap i), dir⟩, n) := by
  have hn : batchInReplayWrapper n.serv b = false := by
    rw [chathistoryBatchIsUnsolicited, Bool.or_eq_false_iff] at hu
    exact hu.1
  refine ⟨(batchShape n b i).1.gapDir, ?_⟩
  unfold batchShape
  simp only [hu, hn, Bool.false_eq_true, if_false]
  rfl

/-- The empty arm of a batch that is not ours changes nothing unless it was adopted. -/
theorem processEmpty_unsolicited {b : Batch} {dir : Int} (owned : Bool) :
    processEmptyBatch n b i ⟨true, owned, owned, 0, dir⟩ =
      if owned then checkWhenNonePending ((finishCatchup n i).returnSlot i) else n := by
  cases owned <;> simp [processEmptyBatch, retriesEmpty]

theorem processEmpty_outcome (h : Owing 0 n.slotView) {b : Batch} {gapId dir : Int} (hg : gapId = activeGap (n.heap i))
    (hu : chathistoryBatchIsUnsolicited n b i = false) :
    Outcome (processEmptyBatch n b i
      ⟨false, true, (n.heap i).catchupInProgress && decide (gapId = 0), gapId, dir⟩).slotView
      (answersCatchup n b i = true → emptyRetries n b i = false →
        holders n.slotView.slots = [] ∨ i ∈ holders n.slotView.slots) := by
  -- the session after the end tag and after its request was retired
  obtain ⟨n₁, hn₁⟩ : ∃ n₁ : Net, n₁ = if b.chathistoryEnd = true ∧ gapId = 0 ∧ false = false then
    n.upd i fun s => { s with historyExhausted := true } else n := ⟨_, rfl⟩
  have hv₁ : n₁.slotView = n.slotView := by
    rw [hn₁]
    split <;> simp
  have hv₂ : (chathistoryRequestComplete n₁ i).slotView = n.slotView := by simp [hv₁]
  have h₂ : Owing 0 (chathistoryRequestComplete n₁ i).slotView := by rwa [hv₂]
  unfold processEmptyBatch
  dsimp only
  rw [← hn₁, if_neg (by simp : ¬ (false = true))]
  split
  · rename_i hgap
    refine Outcome.of_owing ?_ ?_
    · split
      · simpa using h₂
      · simpa using h₂
    · intro ha
      simp only [answersCatchup, Bool.and_eq_true, decide_eq_true_eq] at ha
      omega
  · split
    · rename_i hcatch
      rw [Bool.and_eq_true, decide_eq_true_eq] at hcatch
      have hans : answersCatchup n b i = true := by simp [answersCatchup, hu, hcatch.1, ← hg, hcatch.2]
      -- the retry test reads the same values as before the request was retired
      have hretry : retriesEmpty (chathistoryRequestComplete n₁ i) i false (n.heap i).historyRequestUsedMsgid =
          emptyRetries n b i := by
        obtain ⟨a, p, l, u, he⟩ := (requestComplete_queued n₁ i).fields i
        simp only [retriesEmpty, emptyRetries, he, Session.withQueue]
        rw [hn₁]
        cases hend : b.chathistoryEnd <;> simp [hcatch.2, Net.upd]
      rw [hretry]
      split
      · rename_i hr
        refine Outcome.of_owing ?_ ?_
        · simpa using h₂
        · intro _ hf
          rw [hr] at hf
          cases hf
      · rename_i hr
        have hend := endEmpty_outcome h₂ i
        rw [hv₂] at hend
        rw [if_pos rfl]
        exact ⟨fun hc => hend.1 (hc hans (by simpa using hr)), fun hc => hend.2 fun hc' => hc fun _ _ => hc'⟩
    · rename_i hcatch
      refine Outcome.of_owing ?_ ?_
      · simpa using h₂
      · intro ha
        simp only [answersCatchup, Bool.and_eq_true, decide_eq_true_eq] at ha
        simp [ha.1.2, hg, ha.2] at hcatch

/-- A pass of the loop, and the end of its batch. -/
theorem finishAfterLoop_outcome {c : Client} {k : Chunk} (h : Owing 0 c.net.slotView) :
    Outcome (finishBatchProcessing (processChunkMessages c k).1.net (processChunkMessages c k).2).slotView
      (k.isCatchup = true → (c.net.heap k.sess).catchupIsBefore = false → k.latestOwned = true →
        holders c.net.slotView.slots = [] ∨ k.sess ∈ holders c.net.slotView.slots) := by
  have hv := slotView_processChunkMessages c k
  obtain ⟨count, oldest, newest, hk⟩ := (processChunkMessages_run c k).chunk
  have hbefore : ((processChunkMessages c k).1.net.heap k.sess).catchupIsBefore =
      (c.net.heap k.sess).catchupIsBefore := congrArg (fun v => (v.phase k.sess).2) hv
  have hfin := @finishBatchProcessing_outcome (processChunkMessages c k).1.net (processChunkMessages c k).2
    (by rw [hv]; exact h)
  rw [hv] at hfin
  generalize (processChunkMessages c k).2 = k' at hfin hk ⊢
  subst hk
  rw [← hbefore]
  exact hfin

/-- A batch whose session is known. -/
theorem processMessages_outcome {c : Client} (h : Owing 0 c.net.slotView) {b : Batch} (sh : Shape) :
    Outcome (processMessages c b i sh).net.slotView
      (b.rawCount ≤ CHATHISTORY_CHUNK_SIZE → sh.isCatchup = true → (c.net.heap i).catchupIsBefore = false →
        sh.latestOwned = true → holders c.net.slotView.slots = [] ∨ i ∈ holders c.net.slotView.slots) := by
  have hraw := newChunk_rawCount c.net b i c.nextChunk sh
  unfold processMessages
  dsimp only
  split
  · rename_i hle
    rw [hraw] at hle
    have hle' : b.rawCount ≤ CHATHISTORY_CHUNK_SIZE := by exact_mod_cast hle
    have hfin := @finishAfterLoop_outcome { c with nextChunk := c.nextChunk + 1 }
      (newChunk c.net b i c.nextChunk sh) h
    exact ⟨fun hc => hfin.1 (hc hle'), fun hc => hfin.2 fun hc' => hc fun _ => hc'⟩
  · rename_i hgt
    rw [hraw] at hgt
    have hgt' : ¬ b.rawCount ≤ CHATHISTORY_CHUNK_SIZE := by exact_mod_cast hgt
    exact Outcome.of_owing h fun hle => absurd hle hgt'

theorem Outcome.congr {v : SlotView} {cond' : Prop} (h : Outcome v cond) (hc : cond ↔ cond') : Outcome v cond' :=
  ⟨fun hc' => h.1 (hc.2 hc'), fun hc' => h.2 fun hn => hc' (hc.1 hn)⟩

/-- A batch hands a slot back that it did not take only as an answer to the catch-up. -/
theorem processBatch_outcome {c : Client} (h : Owing 0 c.net.slotView) (b : Batch) :
    Outcome (chathistoryProcessBatch c b).net.slotView
      (HandsBack (holders c.net.slotView.slots) (batchReturns c.net b)) := by
  cases hs : batchSession c.net b with
  | mk found net =>
    cases found with
    | none =>
      have hnet : net = c.net := by
        unfold batchSession at hs
        repeat' split at hs
        all_goals cases hs
        all_goals rfl
      subst hnet
      simp only [chathistoryProcessBatch, hs, batchReturns]
      exact Outcome.of_owing h trivial
    | some i =>
      obtain ⟨hnet, hslots, hin, hsame, hserv⟩ := batchSession_owing h hs
      simp only [chathistoryProcessBatch, hs]
      by_cases hu : chathistoryBatchIsUnsolicited net b i = true
      · -- nobody's answer: adopted or plain, the slot it may take is its own
        have hret : batchReturns c.net b = none := by
          have hu' : chathistoryBatchIsUnsolicited c.net b i = true := by
            cases hn : batchInReplayWrapper c.net.serv b with
            | true => simp [chathistoryBatchIsUnsolicited, hn]
            | false => rwa [hsame hn] at hu
          simp [batchReturns, hs, answersCatchup, hu']
        rw [hret]
        refine Outcome.of_owing ?_ trivial
        obtain ⟨dir, hshape⟩ := batchShape_unsolicited hu
        rw [hshape]
        cases ha : adopts net i with
        | false =>
          dsimp only
          split
          · simp only [processEmpty_unsolicited, Bool.false_eq_true, if_false]
            exact hnet
          · exact (processMessages_outcome (c := { c with net := net }) hnet _).1 (by simp)
        | true =>
          obtain ⟨h', hheld, hphase⟩ := adopted_owing hnet hin ha
          dsimp only
          split
          · simp only [processEmpty_unsolicited, if_true]
            exact (endEmpty_outcome h' i).1 (.inr hheld)
          · exact (processMessages_outcome (c := { c with net := (catchupEnterLatestPhase net i).takeSlot i })
              h' _).1 fun _ _ _ _ => .inr hheld
      · have hu' : chathistoryBatchIsUnsolicited net b i = false := by simpa using hu
        have hn : batchInReplayWrapper c.net.serv b = false := by
          rw [chathistoryBatchIsUnsolicited, Bool.or_eq_false_iff, hserv] at hu'
          exact hu'.1
        obtain rfl := hsame hn
        obtain ⟨dir, hshape⟩ := batchShape_solicited hu'
        rw [hshape]
        dsimp only
        split
        · rename_i hempty
          refine (processEmpty_outcome h rfl hu').congr ?_
          simp only [batchReturns, hs, Option.filter_some, hempty, if_true]
          cases answersCatchup c.net b i <;> cases emptyRetries c.net b i <;> simp [HandsBack]
        · rename_i hmsgs
          refine (processMessages_outcome (c := c) h _).congr ?_
          simp only [batchReturns, hs, Option.filter_some, hmsgs, if_false]
          have hans : answersCatchup c.net b i =
              ((c.net.heap i).catchupInProgress && decide (activeGap (c.net.heap i) = 0)) := by
            simp [answersCatchup, hu']
          rw [← hans]
          by_cases hle : b.rawCount ≤ CHATHISTORY_CHUNK_SIZE
          · cases answersCatchup c.net b i <;> cases (c.net.heap i).catchupIsBefore <;> simp [HandsBack, hle]
          · simp [HandsBack, hle]

/-! ### FAIL and chunks -/

/-- A failed catch-up request is asked again by timestamp. -/
def failRetries (n : Net) (i : Nat) : Bool :=
  !(failBrakes n.serv false).chathistorySuppressed && (n.heap i).historyRequestUsedMsgid &&
    decide (0 < (n.heap i).scrollbackNewestTime)

/-- The session a FAIL hands a slot back for. -/
def failReturns (n : Net) (context : String) : Option Nat :=
  (failSession n context).filter fun i => decide (activeGap (n.heap i) ≤ 0) &&
    (n.heap i).catchupInProgress && !(n.heap i).catchupIsBefore && !failRetries n i

theorem handleFail_outcome (h : Owing 0 n.slotView) (code context : String) :
    Outcome (chathistoryHandleFail n code context).slotView
      (HandsBack (holders n.slotView.slots) (failReturns n context)) := by
  unfold chathistoryHandleFail
  split
  · rename_i hnone
    simp only [failReturns, hnone]
    exact Outcome.of_owing h trivial
  · rename_i i hi
    simp only [failReturns, hi, Option.filter_some]
    -- the connection after the brakes and after the request was retired
    obtain ⟨latched, hlatched⟩ : ∃ latched : Bool, latched =
      (decide (((n.heap i).chActive.map (·.type)).getD ReqType.latest = ReqType.between) &&
        betweenUnsupportedCode code) := ⟨_, rfl⟩
    obtain ⟨n₁, hn₁⟩ : ∃ n₁ : Net, n₁ = { n with serv := failBrakes n.serv latched } := ⟨_, rfl⟩
    have hv₁ : n₁.slotView = n.slotView := by rw [hn₁]; rfl
    have hv₂ : (chathistoryRequestComplete n₁ i).slotView = n.slotView := by simp [hv₁]
    have h₂ : Owing 0 (chathistoryRequestComplete n₁ i).slotView := by rwa [hv₂]
    have hprog : ((chathistoryRequestComplete n₁ i).heap i).catchupInProgress = (n.heap i).catchupInProgress :=
      congrArg (fun v => (v.phase i).1) hv₂
    rw [← hlatched, ← hn₁, hprog, show ((n.heap i).chActive.map (·.gapId)).getD 0 = activeGap (n.heap i) from rfl]
    split
    · rename_i hgap
      refine Outcome.of_owing (by simpa using h₂) ?_
      rw [decide_eq_false (by omega : ¬ activeGap (n.heap i) ≤ 0)]
      simp [HandsBack]
    · rename_i hgap
      rw [decide_eq_true (by omega : activeGap (n.heap i) ≤ 0)]
      split
      · rename_i hcatch
        have hretry : ((chathistoryRequestComplete n₁ i).serv.chathistorySuppressed = false ∧
            (n.heap i).historyRequestUsedMsgid = true ∧
            0 < ((chathistoryRequestComplete n₁ i).heap i).scrollbackNewestTime) ↔ failRetries n i = true := by
          obtain ⟨a, p, l, u, he⟩ := (requestComplete_queued n₁ i).fields i
          rw [(requestComplete_queued n₁ i).serv, he, hn₁]
          simp [failRetries, failBrakes, Session.withQueue, and_assoc]
        unfold failCatchup
        simp only [hretry]
        split
        · rename_i hr
          refine Outcome.of_owing (by simpa using h₂) ?_
          simp [HandsBack, hr]
        · rename_i hr
          rw [hcatch, Bool.eq_false_iff.2 hr]
          cases hbefore : (n.heap i).catchupIsBefore with
          | false =>
            have hend : Outcome (finishCatchup ((chathistoryRequestComplete n₁ i).returnSlot i) i).slotView
                (holders n.slotView.slots = [] ∨ i ∈ holders n.slotView.slots) := by
              rw [slotView_finishCatchup, slotView_returnSlot, hv₂]
              exact h.hand_end i
            simpa [HandsBack] using hend.checkWhenNonePending
          | true =>
            have hi : i ∉ holders (chathistoryRequestComplete n₁ i).slotView.slots := by
              rw [hv₂]
              exact h.not_held (by simp [Net.slotView, hbefore])
            have hend : Owing 0 (checkWhenNonePending (finishCatchup (chathistoryRequestComplete n₁ i) i)).slotView := by
              apply checkWhenNonePending_owing
              rw [slotView_finishCatchup]
              exact h₂.setPhase hi _
            simpa [HandsBack] using Outcome.of_owing hend trivial
      · rename_i hcatch
        refine Outcome.of_owing h₂ ?_
        simp [HandsBack, hcatch]

/-- The session a chunk hands a slot back for at its next tick. -/
def chunkReturns (n : Net) (k : Chunk) : Option Nat :=
  if k.sess ∉ n.sessList then if k.latestSlotOwed then some k.sess else none
  else if k.remaining.length ≤ CHATHISTORY_CHUNK_SIZE ∧ k.isCatchup ∧ k.latestOwned ∧
      (n.heap k.sess).catchupIsBefore = false then some k.sess
  else none

theorem releaseLatestSlot_outcome {c : Client} (h : Owing 0 c.net.slotView) (k : Chunk) :
    Outcome (c.releaseLatestSlot k).net.slotView
      (HandsBack (holders c.net.slotView.slots) (if k.latestSlotOwed then some k.sess else none)) := by
  unfold Client.releaseLatestSlot
  split
  · rw [slotView_returnSlot]
    exact h.hand k.sess
  · exact Outcome.of_owing h trivial

theorem chunkIdleCb_outcome {c : Client} (h : Owing 0 c.net.slotView) (k : Chunk) :
    Outcome (chunkIdleCb c k).net.slotView
      (HandsBack (holders c.net.slotView.slots) (chunkReturns c.net k)) := by
  unfold chunkIdleCb chunkReturns
  split
  · exact releaseLatestSlot_outcome h k
  · have hl := processChunkMessages_run c k
    dsimp only
    rw [hl.remaining]
    split
    · rename_i hnil
      have hle := List.drop_eq_nil_iff.1 hnil
      refine (finishAfterLoop_outcome h).congr ?_
      cases k.isCatchup <;> cases k.latestOwned <;> cases (c.net.heap k.sess).catchupIsBefore <;>
        simp [HandsBack, hle]
    · rename_i hnil
      rw [if_neg fun hret => hnil (List.drop_eq_nil_of_le hret.1)]
      refine Outcome.of_owing ?_ trivial
      show Owing 0 (processChunkMessages c k).1.net.slotView
      rwa [slotView_processChunkMessages]

end Functions

/-! ## Steps and runs -/

/-- The session an event hands a slot back for that the event itself did not take. -/
def Returns (c : Client) : Event → Option Nat
  | .batch b => batchReturns c.net b
  | .fail _ context => failReturns c.net context
  | .chunkTick id => (c.chunk id).bind (chunkReturns c.net)
  | .cancelChunk i =>
    ((c.chunkState i).bind c.chunk).bind fun k => if k.latestSlotOwed then some k.sess else none
  | _ => none

/-- The event is the deferred start, and it fans out. -/
def FansOut (c : Client) (e : Event) : Prop :=
  e = .deferredStart ∧ c.net.serv.chathistoryStartTimer = true ∧ deferredStarts c.net = true

instance (c : Client) (e : Event) : Decidable (FansOut c e) := inferInstanceAs (Decidable (_ ∧ _))

/-- A slot is handed back for a session that holds one, unless none is held, and the fan-out starts
with no slot held. -/
def KeepsSlots (c : Client) (e : Event) : Prop :=
  HandsBack (holders c.net.slots) (Returns c e) ∧ (FansOut c e → holders c.net.slots = [])

instance (c : Client) (e : Event) : Decidable (KeepsSlots c e) := inferInstanceAs (Decidable (_ ∧ _))

/-- Events that hand nothing back and do not fan out. -/
theorem netStep_owing {n : Net} (h : Owing 0 n.slotView) {e : Event} (hd : e ≠ .deferredStart)
    (hf : ∀ code context, e ≠ .fail code context) : Owing 0 (netStep n e).slotView := by
  cases e
  case deferredStart => exact absurd rfl hd
  case fail code context => exact absurd rfl (hf code context)
  case scheduleDeferred =>
    simp only [netStep, chathistoryScheduleDeferred]
    split <;> exact h
  case targetsOnReconnect =>
    simp only [netStep, chathistoryRequestTargetsOnReconnect]
    split
    · exact h
    · simpa using h
  case targetsBatch messages => exact processTargets_owing h messages
  case requestOlder i =>
    simp only [netStep]
    split
    · simpa using h
    · exact h
  case requestGapFill i gapId dir =>
    simp only [netStep]
    split
    · simpa using h
    · exact h
  case requestLatest i limit =>
    simp only [netStep]
    split
    · simpa using h
    · exact h
  case openBatch id type =>
    simp only [netStep, chathistoryReplayWrapperBegin]
    repeat' split
    all_goals exact h
  case closeBatch id =>
    simp only [netStep]
    show Owing 0 (if _ then _ else n : Net).slotView
    split
    · exact checkWhenNonePending_owing h
    · exact h
  case tabSwitch i =>
    simp only [netStep]
    split
    · rename_i hi
      have h' : Owing 0 ({ n with currentSess := some i } : Net).slotView := by
        refine { h with current := ?_ }
        rintro j hj
        cases hj
        exact hi
      unfold chathistoryNotifyTabSwitch
      repeat' split
      · exact h'
      · exact check_owing h'
      · exact h'
    · exact h
  case beforeTimer =>
    simp only [netStep, chathistoryBeforeTimerCb]
    repeat' split
    · exact check_owing (n := { n with serv := { n.serv with chathistoryBeforeTimer := false } }) h
    · exact h
    · exact h
  case backgroundTimer i =>
    simp only [netStep]
    split
    · simpa using h
    · exact h
  case live i msgid ts ops =>
    simp only [netStep]
    split
    · simpa using h
    · exact h
  all_goals exact h

/-- **One step**: from a sound state, the counter is right after the step exactly when the step keeps
the slots, and then the state is sound again. -/
theorem step_slots {c : Client} (h : Owing 0 c.net.slotView) (e : Event) :
    (Balanced (step c e).net.slotView ↔ KeepsSlots c e) ∧
      (KeepsSlots c e → Owing 0 (step c e).net.slotView) := by
  have hnone : ∀ e', Returns c e' = none → e' ≠ .deferredStart → Owing 0 (step c e').net.slotView →
      (Balanced (step c e').net.slotView ↔ KeepsSlots c e') ∧
        (KeepsSlots c e' → Owing 0 (step c e').net.slotView) := by
    intro e' hr hd ho
    have hk : KeepsSlots c e' := ⟨by rw [hr]; trivial, fun hf => absurd hf.1 hd⟩
    exact ⟨⟨fun _ => hk, fun _ => ho.balanced⟩, fun _ => ho⟩
  have hret : ∀ e', e' ≠ .deferredStart →
      Outcome (step c e').net.slotView (HandsBack (holders c.net.slotView.slots) (Returns c e')) →
      (Balanced (step c e').net.slotView ↔ KeepsSlots c e') ∧
        (KeepsSlots c e' → Owing 0 (step c e').net.slotView) := by
    intro e' hd ho
    have hk : KeepsSlots c e' ↔ HandsBack (holders c.net.slotView.slots) (Returns c e') :=
      ⟨fun hk => hk.1, fun hk => ⟨hk, fun hf => absurd hf.1 hd⟩⟩
    exact ⟨ho.balanced_iff.trans hk.symm, fun hk' => ho.1 (hk.1 hk')⟩
  cases e
  case batch b => exact hret _ (by simp) (processBatch_outcome h b)
  case fail code context => exact hret _ (by simp) (handleFail_outcome h code context)
  case chunkTick id =>
    refine hret _ (by simp) ?_
    simp only [step, Returns, Client.chunk]
    split
    · rename_i k hk
      rw [hk]
      exact chunkIdleCb_outcome h k
    · rename_i hk
      rw [hk]
      exact Outcome.of_owing h trivial
  case cancelChunk i =>
    refine hret _ (by simp) ?_
    simp only [step, Returns, chathistoryCancelChunkProcessing]
    have hbind : (c.chunkState i).bind c.chunk =
        (c.chunkState i).bind fun id => c.chunks.find? fun k => k.id = id := rfl
    rw [hbind]
    split
    · rename_i hk
      rw [hk]
      exact Outcome.of_owing h trivial
    · rename_i k hk
      rw [hk]
      have hq : Owing 0 (chathistoryQueueFree c.net i).slotView := by rwa [slotView_queueFree]
      have hrel := releaseLatestSlot_outcome (c := { c with net := chathistoryQueueFree c.net i }) hq k
      simp only [slotView_queueFree] at hrel
      exact hrel
  case deferredStart =>
    simp only [step, netStep]
    split
    · rename_i harmed
      have ho := deferredStart_owing h
      split at ho
      · rename_i hstarts
        have hk : KeepsSlots c .deferredStart ↔ holders c.net.slotView.slots = [] :=
          ⟨fun hk => hk.2 ⟨rfl, harmed, hstarts⟩, fun hk => ⟨trivial, fun _ => hk⟩⟩
        by_cases hnil : holders c.net.slotView.slots = []
        · rw [hnil, List.length_nil] at ho
          exact ⟨⟨fun _ => hk.2 hnil, fun _ => ho.balanced⟩, fun _ => ho⟩
        · have hne : ((holders c.net.slotView.slots).length : Int) ≠ 0 := by
            have := List.length_pos_iff.2 hnil
            omega
          exact ⟨⟨fun hb => absurd hb (ho.not_balanced hne), fun hk' => absurd (hk.1 hk') hnil⟩,
            fun hk' => absurd (hk.1 hk') hnil⟩
      · rename_i hstarts
        have hk : KeepsSlots c .deferredStart := ⟨trivial, fun hf => absurd hf.2.2 hstarts⟩
        exact ⟨⟨fun _ => hk, fun _ => ho.balanced⟩, fun _ => ho⟩
    · rename_i harmed
      have hk : KeepsSlots c .deferredStart := ⟨trivial, fun hf => absurd hf.2.1 harmed⟩
      exact ⟨⟨fun _ => hk, fun _ => h.balanced⟩, fun _ => h⟩
  all_goals exact hnone _ rfl (by simp) (netStep_owing h (by simp) (by simp))

/-- A connection on which no slot was taken yet. -/
structure Net.Start (n : Net) : Prop where
  pending : n.serv.chathistoryLatestPending = 0
  slots : n.slots = []
  fresh : ∀ i ∈ n.sessList, i < n.nextSess
  current : ∀ i, n.currentSess = some i → i ∈ n.sessList

/-- Two channels. -/
def twoChannels : Net := .connected [{ type := .channel, channel := "#c" }, { type := .channel, channel := "#d" }]

theorem twoChannels_start : twoChannels.Start := ⟨rfl, rfl, by decide, by simp [twoChannels, Net.connected]⟩

end PoxChat.ChatHistory
