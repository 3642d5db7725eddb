import PoxChat.ChatHistory.Slots

/-!
# Requests in flight

The queues of all sessions under every event of a connection.  `QueueView` is what they depend on;
outside of `chathistory_request_complete` and `chathistory_queue_free` it only moves by submissions
(`QueueClosed`).
-/

set_option autoImplicit false

namespace PoxChat.ChatHistory

open Lib Scrollback

/-! ## The queues of all sessions -/

/-- The queue of a session, and the number of commands sent for it. -/
structure QueueState where
  active : Option Chreq
  pending : Option Chreq
  loading : Bool
  usedMsgid : Bool
  sent : Nat

/-- The sessions and their queues. -/
structure QueueView where
  queue : Nat → QueueState
  sessList : List Nat
  nextSess : Nat
  currentSess : Option Nat

/-- The number of commands sent for a session. -/
def Net.sentFor (n : Net) (i : Nat) : Nat := (n.sent.filter fun x => x.sess = some i).length

def Net.queueView (n : Net) : QueueView where
  queue i := ⟨(n.heap i).chActive, (n.heap i).chPending, (n.heap i).historyLoading,
    (n.heap i).historyRequestUsedMsgid, n.sentFor i⟩
  sessList := n.sessList
  nextSess := n.nextSess
  currentSess := n.currentSess

def QueueView.set (v : QueueView) (i : Nat) (q : QueueState) : QueueView :=
  { v with queue := Function.update v.queue i q }

/-- The session has a target and the server takes requests. -/
def dispatchable (n : Net) (i : Nat) : Bool :=
  nonEmpty (getTargetName (n.heap i)) && n.serv.haveChathistory && n.serv.connected &&
    !n.serv.chathistorySuppressed

section Operations

variable {n : Net} {i : Nat}

theorem queueView_upd {f : Session → Session} : (n.upd i f).queueView = n.queueView.set i
    ⟨(f (n.heap i)).chActive, (f (n.heap i)).chPending, (f (n.heap i)).historyLoading,
      (f (n.heap i)).historyRequestUsedMsgid, n.sentFor i⟩ := by
  simp only [Net.queueView, QueueView.set, Net.upd, QueueView.mk.injEq, and_true]
  funext j
  by_cases h : j = i
  · subst h
    simp [Net.sentFor]
  · simp [Net.sentFor, h]

theorem QueueView.set_self (v : QueueView) (i : Nat) : v.set i (v.queue i) = v := by
  simp [QueueView.set]

@[simp] theorem QueueView.set_set (v : QueueView) (i : Nat) (q q' : QueueState) :
    (v.set i q).set i q' = v.set i q' := by
  simp [QueueView.set]

/-- What a dispatch writes, when the request can go out. -/
theorem queueView_dispatch (req : Chreq) : (chathistoryDispatchNow n i req).queueView =
    if dispatchable n i then n.queueView.set i ⟨some req, (n.heap i).chPending, true, req.usedMsgid, n.sentFor i + 1⟩
    else n.queueView := by
  unfold chathistoryDispatchNow dispatchable
  split
  · rename_i hname
    simp [hname, nonEmpty]
  · rename_i target hname
    by_cases ht : target = ""
    · simp [hname, ht, nonEmpty]
    · by_cases hg : n.serv.haveChathistory = false ∨ n.serv.connected = false ∨ n.serv.chathistorySuppressed = true
      · rw [if_neg ht, if_pos hg, if_neg]
        rcases hg with hg | hg | hg <;> simp [hg]
      · rw [if_neg ht, if_neg hg, if_pos]
        · simp only [Net.queueView, QueueView.set, Net.upd, Net.send, QueueView.mk.injEq, and_true]
          funext j
          by_cases hj : j = i
          · subst hj
            simp [Net.sentFor]
          · simp [Net.sentFor, hj, Ne.symm hj]
        · simp only [not_or, Bool.not_eq_false, Bool.not_eq_true] at hg
          simp [hname, nonEmpty, ht, hg]

theorem queueView_complete : (chathistoryRequestComplete n i).queueView = n.queueView.set i
    (match (n.heap i).chPending with
    | none => ⟨none, none, false, (n.heap i).historyRequestUsedMsgid, n.sentFor i⟩
    | some req =>
      if dispatchable n i then ⟨some req, none, true, req.usedMsgid, n.sentFor i + 1⟩
      else ⟨none, none, false, (n.heap i).historyRequestUsedMsgid, n.sentFor i⟩) := by
  unfold chathistoryRequestComplete
  dsimp only
  split
  · rename_i hp
    have hp' : (n.heap i).chPending = none := by simpa [Net.upd] using hp
    rw [hp', queueView_upd, hp']
  · rename_i req hp
    have hp' : (n.heap i).chPending = some req := by simpa [Net.upd] using hp
    have hd : dispatchable ((n.upd i fun s => { s with chActive := none, historyLoading := false }).upd i
        fun s => { s with chPending := none }) i = dispatchable n i := by
      simp [dispatchable, getTargetName, Net.upd]
    rw [hp', queueView_dispatch, hd]
    simp only [queueView_upd]
    split <;> simp [Net.upd, Net.sentFor]

theorem queueView_free : (chathistoryQueueFree n i).queueView =
    n.queueView.set i ⟨none, none, false, (n.heap i).historyRequestUsedMsgid, n.sentFor i⟩ := queueView_upd

/-- A submitted request is dropped, dispatched or queued. -/
theorem queueView_submit (req : Chreq) : (chathistorySubmit n i req).2.queueView =
    if chreqIsDup (n.heap i).chActive req ∨ chreqIsDup (n.heap i).chPending req then n.queueView
    else if (n.heap i).chActive = none then
      if dispatchable n i then n.queueView.set i ⟨some req, (n.heap i).chPending, true, req.usedMsgid, n.sentFor i + 1⟩
      else n.queueView
    else if (n.heap i).chPending.all fun p => p.priority.toNat < req.priority.toNat then
      n.queueView.set i ⟨(n.heap i).chActive, some req, (n.heap i).historyLoading,
        (n.heap i).historyRequestUsedMsgid, n.sentFor i⟩
    else n.queueView := by
  unfold chathistorySubmit
  by_cases h1 : chreqIsDup (n.heap i).chActive req = true
  · simp [h1]
  · by_cases h2 : chreqIsDup (n.heap i).chPending req = true
    · simp [h1, h2]
    · simp only [h1, h2, or_self, Bool.false_eq_true, if_false]
      by_cases h3 : (n.heap i).chActive = none
      · simp only [h3, if_true]
        exact queueView_dispatch req
      · simp only [h3, if_false]
        by_cases h4 : ((n.heap i).chPending.all fun p => p.priority.toNat < req.priority.toNat) = true
        · simp only [h4, if_true]
          exact queueView_upd
        · simp only [h4]
          rfl

/-! ### Functions that leave the queues alone -/

@[simp] theorem queueView_upd_same {f : Session → Session} (h1 : (f (n.heap i)).chActive = (n.heap i).chActive)
    (h2 : (f (n.heap i)).chPending = (n.heap i).chPending)
    (h3 : (f (n.heap i)).historyLoading = (n.heap i).historyLoading)
    (h4 : (f (n.heap i)).historyRequestUsedMsgid = (n.heap i).historyRequestUsedMsgid) :
    (n.upd i f).queueView = n.queueView := by
  rw [queueView_upd, h1, h2, h3, h4]
  exact QueueView.set_self n.queueView i

@[simp] theorem queueView_store (f : Sb → Sb) : (n.store f).queueView = n.queueView := rfl

@[simp] theorem queueView_db (db : Option Sb) : ({ n with db := db } : Net).queueView = n.queueView := rfl

@[simp] theorem queueView_serv (serv : Serv) : ({ n with serv := serv } : Net).queueView = n.queueView := rfl

@[simp] theorem queueView_setBeforeSess (sess : Option Nat) : (n.setBeforeSess sess).queueView = n.queueView := rfl

@[simp] theorem queueView_takeSlot : (n.takeSlot i).queueView = n.queueView := rfl

@[simp] theorem queueView_returnSlot : (n.returnSlot i).queueView = n.queueView := by
  unfold Net.returnSlot
  split <;> rfl

@[simp] theorem queueView_targets (startRef endRef : String) (limit : Int) :
    (chathistoryRequestTargets n startRef endRef limit).queueView = n.queueView := by
  unfold chathistoryRequestTargets
  split
  · rfl
  · simp only [Net.queueView, Net.send, QueueView.mk.injEq, and_true]
    funext j
    simp [Net.sentFor]

@[simp] theorem queueView_finishCatchup : (finishCatchup n i).queueView = n.queueView := by
  unfold finishCatchup
  dsimp only
  split <;> simp

@[simp] theorem queueView_refreshNewest : (refreshNewest n i).queueView = n.queueView := by
  unfold refreshNewest
  split <;> simp

@[simp] theorem queueView_enterLatest : (catchupEnterLatestPhase n i).queueView = n.queueView := by
  simp [catchupEnterLatestPhase]

@[simp] theorem queueView_track (msgid : String) (ts : Int) (isHistory : Bool) :
    (chathistoryTrackMsgidTs n i msgid ts isHistory).queueView = n.queueView := by
  unfold chathistoryTrackMsgidTs
  dsimp only
  repeat' split
  all_goals simp

@[simp] theorem queueView_isDuplicate (msgid : String) (ts : Int) :
    (chathistoryIsDuplicateMsgid n i msgid ts).2.queueView = n.queueView := by
  unfold chathistoryIsDuplicateMsgid
  dsimp only
  repeat' split
  all_goals simp

@[simp] theorem queueView_runHandlers (msg : BatchMessage) : (runHandlers n i msg).queueView = n.queueView := by
  unfold runHandlers
  dsimp only
  split <;> simp

@[simp] theorem queueView_processBatchMessage (msg : BatchMessage) :
    (processBatchMessage n i msg).2.queueView = n.queueView := by
  unfold processBatchMessage
  dsimp only
  repeat' split
  all_goals simp

@[simp] theorem queueView_chunkLoop (m : Nat) (c : Client) (k : Chunk) :
    (chunkLoop m c k).1.net.queueView = c.net.queueView := by
  induction m generalizing c k with
  | zero => rfl
  | succ m ih =>
    unfold chunkLoop
    split
    · rfl
    · simp [ih]

@[simp] theorem queueView_processChunkMessages (c : Client) (k : Chunk) :
    (processChunkMessages c k).1.net.queueView = c.net.queueView := queueView_chunkLoop _ c k

@[simp] theorem queueView_recordWitness (k : Chunk) : (recordWitness n k).queueView = n.queueView := by
  unfold recordWitness
  split <;> simp

@[simp] theorem queueView_clampGap (k : Chunk) : (clampGap n k).queueView = n.queueView := by
  unfold clampGap
  repeat' split
  all_goals simp

@[simp] theorem queueView_finishPlain (k : Chunk) : (finishPlain n k).queueView = n.queueView := by
  unfold finishPlain scheduleBackgroundFetch
  dsimp only
  repeat' split
  all_goals simp

end Operations

/-! ## Predicates kept by submissions

Outside of `chathistory_request_complete` and `chathistory_queue_free` the queues only move by
submissions, for sessions in the list. -/

/-- Kept by every submission, and by opening and changing windows. -/
structure QueueClosed (I : QueueView → Prop) : Prop where
  submit : ∀ (n : Net) i req, i ∈ n.sessList → I n.queueView → I (chathistorySubmit n i req).2.queueView
  opened : ∀ (n : Net) name, I n.queueView → I (newIrcwindow n name).2.queueView
  focus : ∀ v i, i ∈ v.sessList → I v → I { v with currentSess := some i }
  current : ∀ v i, I v → v.currentSess = some i → i ∈ v.sessList

section Closure

variable {I : QueueView → Prop} {n : Net} {i : Nat}

@[simp] theorem upd_sessList {f : Session → Session} : (n.upd i f).sessList = n.sessList := rfl

theorem QueueClosed.requestLatest (C : QueueClosed I) (h : I n.queueView) (hi : i ∈ n.sessList)
    (reference : Option String) (limit : Int) : I (chathistoryRequestLatest n i reference limit).queueView := by
  unfold chathistoryRequestLatest submitRequest
  split
  · exact C.submit n i _ hi h
  · exact h

theorem QueueClosed.requestBeforeMsgid (C : QueueClosed I) (h : I n.queueView) (hi : i ∈ n.sessList)
    (msgid : String) (limit : Int) : I (chathistoryRequestBeforeMsgid n i msgid limit).queueView := by
  unfold chathistoryRequestBeforeMsgid chathistoryRequestBefore submitRequest
  split
  · exact h
  · split
    · exact C.submit n i _ hi h
    · exact h

theorem QueueClosed.requestOlder (C : QueueClosed I) (h : I n.queueView) (hi : i ∈ n.sessList) :
    I (chathistoryRequestOlder n i).queueView := by
  unfold chathistoryRequestOlder
  dsimp only
  split
  · exact h
  · split
    · exact h
    · exact C.submit n i _ hi h

theorem QueueClosed.requestGapFill (C : QueueClosed I) (h : I n.queueView) (hi : i ∈ n.sessList)
    (gapId dir : Int) : I (chathistoryRequestGapFill n i gapId dir).2.queueView := by
  unfold chathistoryRequestGapFill
  dsimp only
  repeat' split
  all_goals first | exact h | exact C.submit n i _ hi h

theorem QueueClosed.gapFillRetry (C : QueueClosed I) (h : I n.queueView) (hi : i ∈ n.sessList)
    (gapId dir : Int) : I (gapFillRetryWithTimestamps n i gapId dir).2.queueView := by
  unfold gapFillRetryWithTimestamps
  split
  · exact h
  · split
    · exact h
    · rename_i db _
      dsimp only
      split
      · exact C.requestGapFill (n := { n with db := some (scrollbackGapDropMsgids db gapId).2 }) h hi gapId dir
      · exact h

theorem QueueClosed.requestLatestSinceStored (C : QueueClosed I) (h : I n.queueView) (hi : i ∈ n.sessList) :
    I (requestLatestSinceStored n i).queueView := C.requestLatest h hi _ _

theorem QueueClosed.startBefore (C : QueueClosed I) (h : I n.queueView) (hi : i ∈ n.sessList) :
    I (startBefore n i).queueView := by
  have hm : (n.takeBefore i).queueView = n.queueView :=
    @queueView_upd_same (n.setBeforeSess (some i)) i (fun s => { s with catchupIsBefore := true }) rfl rfl rfl rfl
  obtain hs | ⟨msgid, hs⟩ := startBefore_cases n i <;> rw [hs]
  · rwa [queueView_setBeforeSess, queueView_finishCatchup, hm]
  · have htaken : I (n.takeBefore i).queueView := by rwa [hm]
    exact C.requestBeforeMsgid htaken hi msgid CHATHISTORY_BEFORE_LIMIT

theorem beforeTarget_needs (h : beforeTarget n = some i) : needsBefore (n.heap i) = true := by
  unfold beforeTarget at h
  split at h
  · rename_i k hk
    cases h
    exact (Option.filter_eq_some_iff.1 hk).2
  · split at h
    · have hi := List.find?_some (p := fun k => needsBefore (n.heap k)) h
      exact hi
    · cases h

theorem QueueClosed.beforeTarget (C : QueueClosed I) (h : I n.queueView) (ht : beforeTarget n = some i) :
    i ∈ n.sessList := by
  unfold ChatHistory.beforeTarget at ht
  split at ht
  · rename_i j hj
    cases ht
    obtain ⟨hj, _⟩ := Option.filter_eq_some_iff.1 hj
    exact C.current n.queueView i h hj
  · split at ht
    · exact List.mem_of_find?_eq_some ht
    · cases ht

theorem QueueClosed.check (C : QueueClosed I) (h : I n.queueView) :
    I (chathistoryCheckBeforeCatchup n).queueView := by
  unfold chathistoryCheckBeforeCatchup
  split
  · split
    · exact h
    · rename_i ht
      exact C.startBefore h (C.beforeTarget h ht)
  · exact h

theorem QueueClosed.checkWhenNonePending (C : QueueClosed I) (h : I n.queueView) :
    I (checkWhenNonePending n).queueView := by
  unfold ChatHistory.checkWhenNonePending
  split
  · exact C.check h
  · exact h

theorem QueueClosed.startCatchup (C : QueueClosed I) (h : I n.queueView) (hi : i ∈ n.sessList) :
    I (chathistoryStartCatchup n i).queueView := by
  unfold chathistoryStartCatchup
  dsimp only
  split
  · exact h
  · split
    · exact h
    · exact C.requestLatestSinceStored (by simpa using h) hi

theorem QueueClosed.sendDeferredLatest (C : QueueClosed I) (h : I n.queueView) (hi : i ∈ n.sessList) :
    I (sendDeferredLatest n i).queueView := by
  unfold ChatHistory.sendDeferredLatest
  dsimp only
  split
  · exact h
  · split
    · exact h
    · rw [queueView_takeSlot]
      refine C.requestLatestSinceStored (by simpa using h) ?_
      have hl : (catchupEnterLatestPhase n i).queueView.sessList = n.sessList := by rw [queueView_enterLatest]; rfl
      exact (show (catchupEnterLatestPhase n i).sessList = n.sessList from hl) ▸ hi

theorem sessList_of_queueView {m : Net} (h : m.queueView = n.queueView) : m.sessList = n.sessList :=
  congrArg QueueView.sessList h

@[simp] theorem sendDeferredLatest_sessList : (sendDeferredLatest n i).sessList = n.sessList := by
  have h : (sendDeferredLatest n i).slotView.sessList = n.slotView.sessList := by
    unfold ChatHistory.sendDeferredLatest
    dsimp only
    repeat' split
    all_goals simp [SlotView.take, SlotView.setPhase]
  exact h

theorem QueueClosed.fanOut (C : QueueClosed I) (is : List Nat) (h : I n.queueView)
    (hs : ∀ i ∈ is, i ∈ n.sessList) : I (is.foldl ChatHistory.sendDeferredLatest n).queueView := by
  induction is generalizing n with
  | nil => exact h
  | cons i is ih =>
    refine ih (C.sendDeferredLatest h (hs i (by simp))) fun j hj => ?_
    rw [sendDeferredLatest_sessList]
    exact hs j (by simp [hj])

theorem QueueClosed.deferredStart (C : QueueClosed I) (h : I n.queueView) :
    I (chathistoryDeferredStartCb n).queueView := by
  unfold chathistoryDeferredStartCb
  dsimp only
  split
  · have hv : (deferredReset { n with serv := { n.serv with chathistoryStartTimer := false } }).queueView =
        n.queueView := by
      unfold deferredReset sendReconnectTargetsRequest
      dsimp only
      repeat' split
      all_goals simp
    refine C.fanOut _ (hv ▸ h) fun i hi => ?_
    rw [sessList_of_queueView hv]
    rcases List.mem_append.1 hi with hi | hi
    · exact C.current n.queueView i h (Option.mem_toList.1 hi)
    · exact List.mem_of_mem_filter hi
  · exact h

theorem QueueClosed.targetsLine (C : QueueClosed I) (h : I n.queueView) (msg : BatchMessage) :
    I (processTargetsLine n msg).queueView := by
  unfold processTargetsLine
  split
  · exact h
  · split
    · rename_i i hi
      exact C.startCatchup h (List.mem_of_find?_eq_some hi)
    · exact C.startCatchup (C.opened n _ h) (List.mem_cons_self ..)

theorem QueueClosed.targetsBatch (C : QueueClosed I) (messages : List BatchMessage) (h : I n.queueView) :
    I (chathistoryProcessTargetsBatch n messages).queueView := by
  induction messages generalizing n with
  | nil => exact h
  | cons msg messages ih => exact ih (C.targetsLine h msg)

theorem QueueClosed.endBefore (C : QueueClosed I) (h : I n.queueView) (settle : Sb → Int → Sb) :
    I (endBefore n i settle).queueView := by
  unfold ChatHistory.endBefore
  refine C.check ?_
  split <;> simpa using h

theorem QueueClosed.continueBefore (C : QueueClosed I) {k : Chunk} (h : I n.queueView) :
    I (continueBefore n k).queueView := by
  unfold ChatHistory.continueBefore
  dsimp only
  repeat' split
  · exact C.check (by simpa using h)
  · exact C.check (by simpa using h)
  · exact h
  · exact C.check (by simpa using h)

theorem QueueClosed.finishBefore (C : QueueClosed I) {k : Chunk} (h : I n.queueView) :
    I (finishBefore n k).queueView := by
  unfold ChatHistory.finishBefore
  dsimp only
  repeat' split
  all_goals first
    | exact C.endBefore (by simpa using h) _
    | exact C.continueBefore (by simpa using h)

theorem QueueClosed.finishLatest (C : QueueClosed I) {k : Chunk} (h : I n.queueView) :
    I (finishLatest n k).queueView := by
  unfold ChatHistory.finishLatest
  refine C.checkWhenNonePending ?_
  repeat' split
  all_goals simpa using h

/-- The queue of session `i` gave up its active request: it is empty, or the pending request went
out. -/
def Released (v : QueueView) (i : Nat) (v' : QueueView) : Prop :=
  v' = v.set i ⟨none, none, false, (v.queue i).usedMsgid, (v.queue i).sent⟩ ∨
    ∃ req, (v.queue i).pending = some req ∧ 
      v' = v.set i ⟨some req, none, true, req.usedMsgid, (v.queue i).sent + 1⟩

theorem complete_released (n : Net) (i : Nat) :
    Released n.queueView i (chathistoryRequestComplete n i).queueView := by
  rw [queueView_complete]
  split
  · exact .inl rfl
  · rename_i req hp
    split
    · exact .inr ⟨req, hp, rfl⟩
    · exact .inl rfl

theorem free_released (n : Net) (i : Nat) : Released n.queueView i (chathistoryQueueFree n i).queueView :=
  .inl queueView_free

theorem Released.sessList {v v' : QueueView} (h : Released v i v') : v'.sessList = v.sessList := by
  rcases h with rfl | ⟨_, _, rfl⟩ <;> rfl

/-- Finishing a batch completes the request it answers and goes on by submissions. -/
theorem QueueClosed.finishBatch (C : QueueClosed I) {k : Chunk} (h : I n.queueView)
    (hr : k.unsolicited = false → ∀ v, Released n.queueView k.sess v → I v) :
    I (finishBatchProcessing n k).queueView := by
  have h' : I (settleBatch n k).queueView := by
    have hq : I (if k.unsolicited then { n with serv := { n.serv with chathistoryFailStreak := 0 } } else
        chathistoryRequestComplete { n with serv := { n.serv with chathistoryFailStreak := 0 } } k.sess).queueView := by
      split
      · exact h
      · rename_i hu
        exact hr (by simpa using hu) _
          (complete_released { n with serv := { n.serv with chathistoryFailStreak := 0 } } k.sess)
    unfold settleBatch
    dsimp only
    split <;> split <;> simpa using hq
  unfold finishBatchProcessing
  dsimp only
  split
  · split
    · exact C.finishBefore h'
    · exact C.finishLatest h'
  · simpa using h'

theorem QueueClosed.emptyBatch (C : QueueClosed I) {b : Batch} {sh : Shape} (hi : i ∈ n.sessList)
    (h : I n.queueView) (hr : sh.unsolicited = false → ∀ v, Released n.queueView i v → I v) :
    I (processEmptyBatch n b i sh).queueView := by
  unfold processEmptyBatch
  dsimp only
  generalize hm : (if b.chathistoryEnd ∧ sh.gapId = 0 ∧ sh.unsolicited = false then
      n.upd i fun s => { s with historyExhausted := true } else n) = m
  have hv : m.queueView = n.queueView := by
    rw [← hm]
    split <;> simp
  generalize hm' : (if sh.unsolicited then m else chathistoryRequestComplete m i) = m'
  have hI : I m'.queueView ∧ i ∈ m'.sessList := by
    rw [← hm']
    split
    · exact ⟨hv ▸ h, sessList_of_queueView hv ▸ hi⟩
    · rename_i hu
      have hrel : Released n.queueView i (chathistoryRequestComplete m i).queueView := hv ▸ complete_released m i
      refine ⟨hr (by simpa using hu) _ hrel, ?_⟩
      exact (show (chathistoryRequestComplete m i).sessList = n.sessList from hrel.sessList) ▸ hi
  obtain ⟨hI, hi'⟩ := hI
  split
  · split
    · exact C.gapFillRetry hI hi' _ _
    · exact C.gapFillRetry hI hi' _ _
  · split
    · split
      · exact C.requestLatest hI hi' _ _
      · exact C.checkWhenNonePending (by split <;> simpa using hI)
    · split
      · exact hI
      · simpa using hI

theorem findSessionForTarget_mem {target : String} (h : findSessionForTarget n target = some i) :
    i ∈ n.sessList := by
  unfold findSessionForTarget at h
  split at h
  · cases h
  · rcases Option.or_eq_some_iff.1 h with h | ⟨_, h⟩
    · exact List.mem_of_find?_eq_some h
    · exact List.mem_of_find?_eq_some h

theorem failSession_mem {context : String} (h : failSession n context = some i) : i ∈ n.sessList := by
  unfold failSession at h
  rcases Option.or_eq_some_iff.1 h with h | ⟨_, h⟩
  · exact findSessionForTarget_mem h
  · exact List.mem_of_find?_eq_some h

theorem QueueClosed.fail (C : QueueClosed I) (code context : String) (h : I n.queueView)
    (hr : ∀ i, failSession n context = some i → ∀ v, Released n.queueView i v → I v) :
    I (chathistoryHandleFail n code context).queueView := by
  unfold chathistoryHandleFail
  split
  · exact h
  · rename_i i hfail
    have hi := failSession_mem hfail
    dsimp only
    generalize hlatched : (decide (Option.getD ((n.heap i).chActive.map (·.type)) ReqType.latest = .between) &&
      betweenUnsupportedCode code) = latched
    have hrel : Released n.queueView i
        (chathistoryRequestComplete { n with serv := failBrakes n.serv latched } i).queueView :=
      complete_released { n with serv := failBrakes n.serv latched } i
    have hI := hr i hfail _ hrel
    have hl : (chathistoryRequestComplete { n with serv := failBrakes n.serv latched } i).sessList = n.sessList :=
      hrel.sessList
    have hi' : i ∈ (chathistoryRequestComplete { n with serv := failBrakes n.serv latched } i).sessList := by
      rwa [hl]
    generalize chathistoryRequestComplete { n with serv := failBrakes n.serv latched } i = m at hI hi'
    split
    · unfold failGap
      dsimp only
      split
      · split <;> simpa using hI
      · split
        · exact C.gapFillRetry hI hi' _ _
        · exact C.gapFillRetry hI hi' _ _
    · split
      · unfold failCatchup
        split
        · exact C.requestLatest hI hi' _ _
        · exact C.checkWhenNonePending (by split <;> simpa using hI)
      · exact hI

theorem QueueClosed.beginUnsolicited (h : I n.queueView) (i : Nat) :
    I (chathistoryBeginUnsolicitedCatchup n i).2.queueView := by
  unfold chathistoryBeginUnsolicitedCatchup
  split
  · simpa using h
  · exact h

/-- The shape of a batch leaves the queues alone. -/
@[simp] theorem queueView_batchShape (b : Batch) : (batchShape n b i).2.queueView = n.queueView := by
  unfold batchShape
  dsimp only
  split
  · exact QueueClosed.beginUnsolicited (I := fun v => v = n.queueView) rfl i
  · rfl

theorem batchShape_unsolicited_eq (b : Batch) :
    (batchShape n b i).1.unsolicited = chathistoryBatchIsUnsolicited n b i := by
  unfold batchShape
  dsimp only
  split <;> simp_all

/-- The session of a batch, and what its lookup does to the queues. -/
theorem QueueClosed.batchSession (C : QueueClosed I) (h : I n.queueView) {b : Batch} {net : Net}
    (hb : ChatHistory.batchSession n b = (some i, net)) :
    I net.queueView ∧ i ∈ net.sessList ∧ (net = n ∨ (net.heap i).chActive = none ∧ (net.heap i).historyLoading = false) := by
  unfold ChatHistory.batchSession at hb
  split at hb
  · cases hb
  · rename_i target _
    split at hb
    · rename_i j hj
      cases hb
      exact ⟨h, findSessionForTarget_mem hj, .inl rfl⟩
    · split at hb
      · dsimp only at hb
        cases hb
        refine ⟨C.opened n target h, List.mem_cons_self .., .inr ?_⟩
        unfold newIrcwindow scrollbackLoad
        dsimp only
        split
        · simp
        · split <;> simp
      · cases hb

end Closure

/-! ## Events -/

/-- The session whose request a batch completes when it ends. -/
def batchCloses (n : Net) (b : Batch) : Option Nat :=
  (batchSession n b).1.filter fun i => !chathistoryBatchIsUnsolicited n b i &&
    decide (b.rawCount ≤ CHATHISTORY_CHUNK_SIZE)

/-- The session whose request an event completes or frees. -/
def Closes (c : Client) : Event → Option Nat
  | .batch b => batchCloses c.net b
  | .chunkTick id => ((c.chunk id).filter fun k => decide (k.sess ∈ c.net.sessList) && !k.unsolicited &&
      decide (k.remaining.length ≤ CHATHISTORY_CHUNK_SIZE)).map (·.sess)
  | .cancelChunk i => ((c.chunkState i).bind c.chunk).map fun _ => i
  | .fail _ context => failSession c.net context
  | _ => none

section

variable {I : QueueView → Prop}

theorem chunkLoop_unsolicited {m : Nat} {c c' : Client} {k k' : Chunk} (h : LoopRun m c k c' k') :
    k'.unsolicited = k.unsolicited := by
  obtain ⟨_, _, _, rfl⟩ := h.chunk; rfl

/-- The messages of a chunk and the end of its batch. -/
theorem QueueClosed.finishAfterLoop (C : QueueClosed I) {c : Client} {k : Chunk} (h : I c.net.queueView)
    (hr : k.unsolicited = false → ∀ v, Released c.net.queueView k.sess v → I v) :
    I (finishBatchProcessing (processChunkMessages c k).1.net (processChunkMessages c k).2).queueView := by
  have hrun := processChunkMessages_run c k
  have hv := queueView_processChunkMessages c k
  refine C.finishBatch (by rwa [hv]) ?_
  rw [hv, hrun.sess, chunkLoop_unsolicited hrun]
  exact hr

theorem QueueClosed.processBatch (C : QueueClosed I) {c : Client} (b : Batch) (h : I c.net.queueView)
    (hr : ∀ i, batchCloses c.net b = some i → ∀ v, Released c.net.queueView i v → I v) :
    I (chathistoryProcessBatch c b).net.queueView := by
  unfold chathistoryProcessBatch
  split
  · rename_i net hb
    have hnet : net = c.net := by
      unfold ChatHistory.batchSession at hb
      repeat' split at hb
      all_goals simp_all
    rwa [hnet]
  · rename_i i net hb
    obtain ⟨hI, hi, hnet⟩ := C.batchSession h hb
    dsimp only
    have hv := queueView_batchShape (n := net) (i := i) b
    have hu := batchShape_unsolicited_eq (n := net) (i := i) b
    have hrel : (batchShape net b i).1.unsolicited = false → b.rawCount ≤ CHATHISTORY_CHUNK_SIZE →
        ∀ v, Released net.queueView i v → I v := by
      intro hsol hraw v hv
      rw [hu] at hsol
      rcases hnet with rfl | ⟨ha, hl⟩
      · exact hr i (by simp [batchCloses, hb, hsol, hraw]) v hv
      · simp [chathistoryBatchIsUnsolicited, ha, hl] at hsol
    generalize hm : (batchShape net b i).2 = m at hv
    generalize (batchShape net b i).1 = sh at hrel
    split
    · rename_i hnil
      refine C.emptyBatch (by rwa [sessList_of_queueView hv]) (by rwa [hv]) fun hsol => ?_
      rw [hv]
      exact hrel hsol (by simp [Batch.rawCount, hnil])
    · unfold processMessages
      dsimp only
      split
      · rename_i hraw
        rw [newChunk_rawCount] at hraw
        refine C.finishAfterLoop (by simpa [hv] using hI) fun hsol => ?_
        show ∀ v, Released m.queueView i v → I v
        rw [hv]
        exact hrel hsol (by exact_mod_cast hraw)
      · show I m.queueView
        rwa [hv]

theorem QueueClosed.netStep (C : QueueClosed I) {n : Net} (h : I n.queueView) {e : Event}
    (hf : ∀ code context, e ≠ .fail code context) : I (netStep n e).queueView := by
  cases e
  case fail code context => exact absurd rfl (hf code context)
  case scheduleDeferred =>
    simp only [ChatHistory.netStep, chathistoryScheduleDeferred]
    split <;> exact h
  case deferredStart =>
    simp only [ChatHistory.netStep]
    split
    · exact C.deferredStart h
    · exact h
  case targetsOnReconnect =>
    simp only [ChatHistory.netStep, chathistoryRequestTargetsOnReconnect, sendReconnectTargetsRequest]
    repeat' split
    all_goals simpa using h
  case targetsBatch messages => exact C.targetsBatch messages h
  case requestOlder i =>
    simp only [ChatHistory.netStep]
    split
    · exact C.requestOlder h ‹_›
    · exact h
  case requestGapFill i gapId dir =>
    simp only [ChatHistory.netStep]
    split
    · exact C.requestGapFill h ‹_› gapId dir
    · exact h
  case requestLatest i limit =>
    simp only [ChatHistory.netStep]
    split
    · exact C.requestLatest h ‹_› none limit
    · exact h
  case openBatch id type =>
    simp only [ChatHistory.netStep, chathistoryReplayWrapperBegin]
    repeat' split
    all_goals exact h
  case closeBatch id =>
    simp only [ChatHistory.netStep]
    show I (if _ then _ else n : Net).queueView
    split
    · exact C.checkWhenNonePending h
    · exact h
  case tabSwitch i =>
    simp only [ChatHistory.netStep]
    split
    · rename_i hi
      have h' : I ({ n with currentSess := some i } : Net).queueView := C.focus n.queueView i hi h
      unfold chathistoryNotifyTabSwitch
      repeat' split
      · exact h'
      · exact C.check h'
      · exact h'
    · exact h
  case beforeTimer =>
    simp only [ChatHistory.netStep, chathistoryBeforeTimerCb]
    repeat' split
    · exact C.check (n := { n with serv := { n.serv with chathistoryBeforeTimer := false } }) h
    · exact h
    · exact h
  case backgroundTimer i =>
    simp only [ChatHistory.netStep]
    split
    · rename_i hi
      unfold backgroundHistoryTimerCb
      dsimp only
      split
      · simpa using h
      · split
        · simpa using h
        · split
          · have h' : I (n.upd i fun s => { s with backgroundHistoryTimer := false }).queueView := by simpa using h
            exact C.requestBeforeMsgid h' hi.1 _ _
          · simpa using h
    · exact h
  case live i msgid ts ops =>
    simp only [ChatHistory.netStep]
    split <;> simpa using h
  all_goals exact h

/-- **One event**: a predicate kept by submissions is kept by every event that keeps it where it closes
a request. -/
theorem QueueClosed.step (C : QueueClosed I) {c : Client} (h : I c.net.queueView) (e : Event)
    (hr : ∀ i, Closes c e = some i → ∀ v, Released c.net.queueView i v → I v) :
    I (step c e).net.queueView := by
  have hnet : (∀ code context, e ≠ .fail code context) → I (ChatHistory.netStep c.net e).queueView :=
    fun hf => C.netStep h hf
  cases e
  case batch b => exact C.processBatch b h hr
  case fail code context => exact C.fail code context h hr
  case chunkTick id =>
    simp only [ChatHistory.step]
    split
    · rename_i k hk
      have hk' : c.chunk id = some k := hk
      unfold chunkIdleCb
      split
      · unfold Client.releaseLatestSlot
        dsimp only
        split
        · show I (c.net.returnSlot k.sess).queueView
          simpa using h
        · exact h
      · rename_i hs
        dsimp only
        split
        · rename_i hrest
          refine C.finishAfterLoop h fun hu => hr k.sess ?_
          rw [(processChunkMessages_run c k).remaining, List.drop_eq_nil_iff] at hrest
          simp only [Closes, hk', Option.map_eq_some_iff, Option.filter_eq_some_iff]
          exact ⟨k, ⟨rfl, by simp [hu, hrest, not_not.1 hs]⟩, rfl⟩
        · simpa using h
    · exact h
  case cancelChunk i =>
    simp only [ChatHistory.step, chathistoryCancelChunkProcessing]
    split
    · exact h
    · rename_i k hk
      have hk' : (c.chunkState i).bind c.chunk = some k := hk
      have hI := hr i (by simp [Closes, hk']) _ (free_released c.net i)
      unfold Client.releaseLatestSlot Client.freeChunk
      dsimp only
      split
      · show I ((chathistoryQueueFree c.net i).returnSlot k.sess).queueView
        simpa using hI
      · exact hI
  all_goals exact hnet (by simp)

end

/-! ## The invariant -/

/-- A request is active exactly while the session loads history, one waits only behind it, and the
session remembers whether it was asked by msgid. -/
structure QueueState.Sound (q : QueueState) : Prop where
  loading : q.active.isSome = true ↔ q.loading = true
  pending : q.pending.isSome = true → q.active.isSome = true
  usedMsgid : ∀ req, q.active = some req → q.usedMsgid = req.usedMsgid

/-- All queues are sound, and sessions are numbered in order. -/
structure SoundQueues (v : QueueView) : Prop where
  sound : ∀ i, (v.queue i).Sound
  opened : ∀ i ∈ v.sessList, i < v.nextSess
  current : ∀ i, v.currentSess = some i → i ∈ v.sessList

section

variable {v v' : QueueView} {i : Nat}

theorem SoundQueues.set (h : SoundQueues v) {q : QueueState} (hq : q.Sound) : SoundQueues (v.set i q) := by
  refine ⟨fun j => ?_, h.opened, h.current⟩
  by_cases hj : j = i
  · subst hj
    simpa [QueueView.set] using hq
  · simpa [QueueView.set, hj] using h.sound j

theorem SoundQueues.released (h : SoundQueues v) (hr : Released v i v') : SoundQueues v' := by
  rcases hr with rfl | ⟨req, _, rfl⟩
  · exact h.set ⟨by simp, by simp, by simp⟩
  · exact h.set ⟨by simp, by simp, by simp⟩

/-- What a submission can do to the queues. -/
theorem submit_cases (n : Net) (i : Nat) (req : Chreq) : (chathistorySubmit n i req).2.queueView = n.queueView ∨
    (n.heap i).chActive = none ∧ (chathistorySubmit n i req).2.queueView =
      n.queueView.set i ⟨some req, (n.heap i).chPending, true, req.usedMsgid, n.sentFor i + 1⟩ ∨
    (n.heap i).chActive ≠ none ∧ (chathistorySubmit n i req).2.queueView =
      n.queueView.set i ⟨(n.heap i).chActive, some req, (n.heap i).historyLoading,
        (n.heap i).historyRequestUsedMsgid, n.sentFor i⟩ := by
  rw [queueView_submit]
  split
  · exact .inl rfl
  · split
    · rename_i ha
      split
      · exact .inr (.inl ⟨ha, rfl⟩)
      · exact .inl rfl
    · rename_i ha
      split
      · exact .inr (.inr ⟨ha, rfl⟩)
      · exact .inl rfl

/-- The queue of a window just opened. -/
theorem queueView_newIrcwindow (n : Net) (name : String) : (newIrcwindow n name).2.queueView =
    { n.queueView.set n.nextSess ⟨none, none, false, false, n.sentFor n.nextSess⟩ with
      sessList := n.nextSess :: n.sessList
      nextSess := n.nextSess + 1 } := by
  have hload : (scrollbackLoad n name).1.chActive = none ∧ (scrollbackLoad n name).1.chPending = none ∧
      (scrollbackLoad n name).1.historyLoading = false ∧ (scrollbackLoad n name).1.historyRequestUsedMsgid = false := by
    unfold scrollbackLoad
    dsimp only
    split
    · simp
    · split <;> simp
  obtain ⟨h1, h2, h3, h4⟩ := hload
  simp only [newIrcwindow, Net.queueView, QueueView.set, QueueView.mk.injEq, and_true]
  funext j
  by_cases hj : j = n.nextSess
  · subst hj
    simp [h1, h2, h3, h4, Net.sentFor]
  · simp [hj, Net.sentFor]

theorem soundQueues_closed : QueueClosed SoundQueues where
  submit n i req _ h := by
    have hs := h.sound i
    rcases submit_cases n i req with hv | ⟨ha, hv⟩ | ⟨ha, hv⟩
    · rwa [hv]
    · rw [hv]
      exact h.set ⟨by simp, by simp, by simp⟩
    · rw [hv]
      exact h.set ⟨hs.loading, fun _ => Option.isSome_iff_ne_none.2 ha, hs.usedMsgid⟩
  opened n name h := by
    rw [queueView_newIrcwindow]
    have hset := h.set (i := n.nextSess) (q := ⟨none, none, false, false, n.sentFor n.nextSess⟩) ⟨by simp, by simp, by simp⟩
    refine ⟨hset.sound, fun j hj => ?_, fun j hj => List.mem_cons_of_mem _ (h.current j hj)⟩
    rcases List.mem_cons.1 hj with rfl | hj
    · exact Nat.lt_succ_self _
    · exact Nat.lt_succ_of_lt (h.opened j hj)
  focus v i hi h := ⟨h.sound, h.opened, fun j hj => by cases hj; exact hi⟩
  current v i h := h.current i

/-- **Queues are sound** after every event. -/
theorem step_soundQueues {c : Client} (h : SoundQueues c.net.queueView) (e : Event) :
    SoundQueues (step c e).net.queueView :=
  soundQueues_closed.step h e fun _ _ _ hr => h.released hr

/-- Besides, no session has more than its active request unanswered; `answered` counts the answers. -/
structure Counted (answered : Nat → Nat) (v : QueueView) : Prop extends SoundQueues v where
  counted : ∀ i, (v.queue i).sent ≤ answered i + if (v.queue i).active.isSome then 1 else 0
  fresh : ∀ i, v.nextSess ≤ i → (v.queue i).active = none

section

variable {answered : Nat → Nat}

theorem Counted.idle (h : Counted answered v) (ha : (v.queue i).active = none) : (v.queue i).sent ≤ answered i := by
  simpa [ha] using h.counted i

theorem Counted.set (h : Counted answered v) {q : QueueState} (hq : q.Sound)
    (hc : q.sent ≤ answered i + if q.active.isSome then 1 else 0) (hf : v.nextSess ≤ i → q.active = none) :
    Counted answered (v.set i q) := by
  refine ⟨h.toSoundQueues.set hq, fun j => ?_, fun j hj => ?_⟩
  · by_cases hji : j = i
    · subst hji
      simpa [QueueView.set] using hc
    · simpa [QueueView.set, hji] using h.counted j
  · by_cases hji : j = i
    · subst hji
      simpa [QueueView.set] using hf hj
    · simpa [QueueView.set, hji] using h.fresh j hj

/-- A request may be given up once its answer is in. -/
theorem Counted.released (h : Counted answered v) (hr : Released v i v') (ha : (v.queue i).sent ≤ answered i) :
    Counted answered v' := by
  rcases hr with rfl | ⟨req, hp, rfl⟩
  · exact h.set ⟨by simp, by simp, by simp⟩ (by simpa using ha) fun _ => rfl
  · refine h.set ⟨by simp, by simp, by simp⟩ (by simpa using ha) fun hi => ?_
    have hact := (h.sound i).pending (by simp [hp])
    rw [h.fresh i hi] at hact
    cases hact

theorem counted_closed (answered : Nat → Nat) : QueueClosed (Counted answered) where
  submit n i req hi h := by
    have hlt : ¬ n.queueView.nextSess ≤ i := Nat.not_le.2 (h.opened i hi)
    have hsound := soundQueues_closed.submit n i req hi h.toSoundQueues
    rcases submit_cases n i req with hv | ⟨ha, hv⟩ | ⟨ha, hv⟩
    · rwa [hv]
    · rw [hv] at hsound ⊢
      have hidle : n.sentFor i ≤ answered i := h.idle ha
      refine h.set ?_ (by simpa using hidle) fun hn => absurd hn hlt
      simpa [QueueView.set] using hsound.sound i
    · rw [hv] at hsound ⊢
      refine h.set ?_ (h.counted i) fun hn => absurd hn hlt
      simpa [QueueView.set] using hsound.sound i
  opened n name h := by
    have hsound := soundQueues_closed.opened n name h.toSoundQueues
    have hidle : n.sentFor n.nextSess ≤ answered n.nextSess := h.idle (h.fresh n.nextSess (Nat.le_refl _))
    have hset := h.set (i := n.nextSess) (q := ⟨none, none, false, false, n.sentFor n.nextSess⟩) ⟨by simp, by simp, by simp⟩
      (by simpa using hidle) fun _ => rfl
    rw [queueView_newIrcwindow] at hsound ⊢
    exact ⟨hsound, hset.counted, fun j hj => hset.fresh j (Nat.le_of_succ_le hj)⟩
  focus v i hi h := ⟨soundQueues_closed.focus v i hi h.toSoundQueues, h.counted, h.fresh⟩
  current v i h := h.current i

end

end

/-! ## What a submission reports -/

/-- The request given is the active or the pending one of the session, and was not before. -/
def Kept (n n' : Net) (i : Nat) (req : Chreq) : Prop :=
  (n'.heap i).chActive = some req ∧ (n.heap i).chActive ≠ some req ∨
    (n'.heap i).chPending = some req ∧ (n.heap i).chPending ≠ some req

instance (n n' : Net) (i : Nat) (req : Chreq) : Decidable (Kept n n' i req) := inferInstanceAs (Decidable (_ ∨ _))

section

variable {n : Net} {i : Nat}

theorem chreqIsDup_self (req : Chreq) : chreqIsDup (some req) req = true := by simp [chreqIsDup]

theorem not_kept_self (req : Chreq) : ¬ Kept n n i req := by
  rintro (⟨h, h'⟩ | ⟨h, h'⟩)
  · exact h' h
  · exact h' h

/-- An idle session takes a request only when it can go out. -/
theorem dispatch_kept (req : Chreq) (ha : (n.heap i).chActive = none) (hp : (n.heap i).chPending = none) :
    Kept n (chathistoryDispatchNow n i req) i req ↔ dispatchable n i = true := by
  have hv := congrFun (congrArg QueueView.queue (queueView_dispatch (n := n) (i := i) req)) i
  by_cases hd : dispatchable n i = true
  · rw [if_pos hd] at hv
    have hact : ((chathistoryDispatchNow n i req).heap i).chActive = some req := by
      have := congrArg QueueState.active hv
      simpa [QueueView.set, Net.queueView] using this
    simp [Kept, hact, ha, hd]
  · rw [if_neg hd] at hv
    have hact : ((chathistoryDispatchNow n i req).heap i).chActive = (n.heap i).chActive := congrArg QueueState.active hv
    have hpend : ((chathistoryDispatchNow n i req).heap i).chPending = (n.heap i).chPending :=
      congrArg QueueState.pending hv
    simp [Kept, hact, hpend, ha, hp, hd]

/-- `chathistory_submit` tells the truth exactly when the session has a request in flight or the new
one can go out. -/
theorem submit_truthful_iff (h : SoundQueues n.queueView) (i : Nat) (req : Chreq) :
    ((chathistorySubmit n i req).1 = true ↔ Kept n (chathistorySubmit n i req).2 i req) ↔
      (n.heap i).chActive ≠ none ∨ dispatchable n i = true := by
  have hs : (n.heap i).chPending.isSome = true → (n.heap i).chActive.isSome = true := (h.sound i).pending
  unfold chathistorySubmit
  dsimp only
  by_cases h1 : chreqIsDup (n.heap i).chActive req = true
  · have ha : (n.heap i).chActive ≠ none := by
      intro hnone
      simp [hnone, chreqIsDup] at h1
    simp [h1, not_kept_self, ha]
  · by_cases h2 : chreqIsDup (n.heap i).chPending req = true
    · have hp : (n.heap i).chPending.isSome = true := by
        cases hpend : (n.heap i).chPending with
        | none => simp [hpend, chreqIsDup] at h2
        | some p => rfl
      simp [h1, h2, not_kept_self, Option.isSome_iff_ne_none.1 (hs hp)]
    · rw [if_neg h1, if_neg h2]
      by_cases h3 : (n.heap i).chActive = none
      · have hp : (n.heap i).chPending = none := by
          by_contra hp
          have := hs (Option.isSome_iff_ne_none.2 hp)
          simp [h3] at this
        rw [if_pos h3]
        simp only [true_iff, h3, ne_eq, not_true, false_or]
        exact dispatch_kept req h3 hp
      · rw [if_neg h3]
        have hne : (n.heap i).chPending ≠ some req := by
          intro hp
          rw [hp] at h2
          exact h2 (chreqIsDup_self req)
        by_cases h4 : ((n.heap i).chPending.all fun p => p.priority.toNat < req.priority.toNat) = true
        · rw [if_pos h4]
          simp [Kept, Net.upd, hne, h3]
        · rw [if_neg h4]
          simp [not_kept_self, h3]

theorem submit_refused (req : Chreq) (h : (chathistorySubmit n i req).1 = false) :
    (chathistorySubmit n i req).2 = n := by
  unfold chathistorySubmit at h ⊢
  dsimp only at h ⊢
  repeat' split at h
  all_goals simp_all

/-- A gap is touched exactly when a request for it is now in flight or queued. -/
def TouchedWithRequest (n : Net) (i : Nat) (gapId : Int) (n' : Net) : Prop :=
  (∃ req, Kept n n' i req) ∧ n'.db = n.db.map (fun db => (scrollbackGapTouch db gapId n.now).2) ∨
    (∀ req, ¬ Kept n n' i req) ∧ n'.db = n.db

theorem requestGapFill_touched (h : SoundQueues n.queueView)
    (hd : (n.heap i).chActive ≠ none ∨ dispatchable n i = true) (gapId dir : Int) :
    TouchedWithRequest n i gapId (chathistoryRequestGapFill n i gapId dir).2 := by
  have hsame : TouchedWithRequest n i gapId n := .inr ⟨fun req => not_kept_self req, rfl⟩
  unfold chathistoryRequestGapFill
  split
  · exact hsame
  · split
    · exact hsame
    · split
      · exact hsame
      · split
        · exact hsame
        · rename_i g _
          split
          · exact hsame
          · split
            · exact hsame
            · have hiff := (submit_truthful_iff h i (gapRequest n g gapId dir)).2 hd
              obtain ⟨_, _, _, _, _, hq, _⟩ := submit_queued n i (gapRequest n g gapId dir)
              dsimp only
              cases hsub : (chathistorySubmit n i (gapRequest n g gapId dir)).1 with
              | true =>
                rw [if_pos rfl]
                refine .inl ⟨⟨_, hiff.1 hsub⟩, ?_⟩
                rw [hq]
                rfl
              | false =>
                rw [submit_refused _ hsub]
                exact hsame

end

/-! ## Runs -/

/-- What can happen to the queues: their operations called directly, changes of the server's flags,
and every event of the connection. -/
inductive QueueEvent where
  | submit (sess : Nat) (req : Chreq)
  | complete (sess : Nat)
  | free (sess : Nat)
  | connected (b : Bool)
  | haveChathistory (b : Bool)
  | suppressed (b : Bool)
  | event (e : Event)

/-- An event, and the session whose command the server answers with it. -/
structure Arrival where
  answers : Option Nat
  event : QueueEvent

/-- The connection, and the number of answers the server gave each session. -/
structure InFlight where
  client : Client
  answered : Nat → Nat

namespace InFlight

def start (n : Net) : InFlight := ⟨Client.start n, fun _ => 0⟩

/-- The commands of a session without an answer. -/
def unanswered (st : InFlight) (i : Nat) : Nat := st.client.net.sentFor i - st.answered i

/-- The server answers a command that is out. -/
def answer (st : InFlight) : Option Nat → Nat → Nat
  | none => st.answered
  | some i =>
    if st.answered i < st.client.net.sentFor i then Function.update st.answered i (st.answered i + 1)
    else st.answered

end InFlight

/-- The state of the connection after an event. -/
def queueEventStep (c : Client) : QueueEvent → Client
  | .submit i req => if i ∈ c.net.sessList then { c with net := (chathistorySubmit c.net i req).2 } else c
  | .complete i => { c with net := chathistoryRequestComplete c.net i }
  | .free i => { c with net := chathistoryQueueFree c.net i }
  | .connected b => { c with net := { c.net with serv := { c.net.serv with connected := b } } }
  | .haveChathistory b => { c with net := { c.net with serv := { c.net.serv with haveChathistory := b } } }
  | .suppressed b => { c with net := { c.net with serv := { c.net.serv with chathistorySuppressed := b } } }
  | .event e => step c e

def arrive (st : InFlight) (x : Arrival) : InFlight := ⟨queueEventStep st.client x.event, st.answer x.answers⟩

/-- The session whose request an event gives up. -/
def QueueEvent.closes (c : Client) : QueueEvent → Option Nat
  | .complete i => some i
  | .free i => some i
  | .event e => Closes c e
  | _ => none

/-- A request is given up only once every command of its session is answered. -/
def ClosesAnswered (st : InFlight) (x : Arrival) : Prop :=
  (x.event.closes st.client).all (fun i => decide (st.client.net.sentFor i ≤ st.answer x.answers i)) = true

instance (st : InFlight) (x : Arrival) : Decidable (ClosesAnswered st x) := inferInstanceAs (Decidable (_ = _))

section

variable {st : InFlight}

theorem answer_le (st : InFlight) (who : Option Nat) (i : Nat) : st.answered i ≤ st.answer who i := by
  unfold InFlight.answer
  split
  · exact Nat.le_refl _
  · rename_i j
    split
    · by_cases h : i = j
      · subst h
        simp
      · simp [h]
    · exact Nat.le_refl _

theorem Counted.answer (h : Counted st.answered st.client.net.queueView) (who : Option Nat) :
    Counted (st.answer who) st.client.net.queueView := by
  refine ⟨h.toSoundQueues, fun i => ?_, h.fresh⟩
  have h1 := h.counted i
  have h2 := answer_le st who i
  omega

theorem queueEventStep_closed {I : QueueView → Prop} (C : QueueClosed I) {c : Client} (h : I c.net.queueView)
    (e : QueueEvent) (hr : ∀ i, e.closes c = some i → ∀ v, Released c.net.queueView i v → I v) :
    I (queueEventStep c e).net.queueView := by
  cases e with
  | submit i req =>
    simp only [queueEventStep]
    split
    · exact C.submit c.net i req ‹_› h
    · exact h
  | complete i => exact hr i rfl _ (complete_released c.net i)
  | free i => exact hr i rfl _ (free_released c.net i)
  | connected b => exact h
  | haveChathistory b => exact h
  | suppressed b => exact h
  | event e => exact C.step h e hr

/-- **One arrival** keeps the count, when it gives up only answered requests. -/
theorem arrive_counted (h : Counted st.answered st.client.net.queueView) {x : Arrival} (hx : ClosesAnswered st x) :
    Counted (arrive st x).answered (arrive st x).client.net.queueView := by
  have h' := h.answer x.answers
  refine queueEventStep_closed (counted_closed (st.answer x.answers)) h' x.event fun i hi v hr => ?_
  refine h'.released hr ?_
  show st.client.net.sentFor i ≤ st.answer x.answers i
  simpa [ClosesAnswered, hi] using hx

end

/-- A connection on which nothing was asked yet. -/
structure Net.NothingAsked (n : Net) : Prop where
  queues : ∀ i, (n.heap i).chActive = none ∧ (n.heap i).chPending = none ∧ (n.heap i).historyLoading = false
  sent : n.sent = []
  opened : ∀ i ∈ n.sessList, i < n.nextSess
  current : ∀ i, n.currentSess = some i → i ∈ n.sessList

theorem Net.NothingAsked.counted {n : Net} (h : n.NothingAsked) : Counted (fun _ => 0) n.queueView := by
  refine ⟨⟨fun i => ?_, h.opened, h.current⟩, fun i => ?_, fun i _ => (h.queues i).1⟩
  · obtain ⟨h1, h2, h3⟩ := h.queues i
    refine ⟨?_, ?_, ?_⟩ <;> simp [Net.queueView, h1, h2, h3]
  · simp [Net.queueView, Net.sentFor, h.sent]

/-- **Queues are sound** in every state of every run. -/
theorem run_soundQueues {n : Net} (h : n.NothingAsked) (es : List Event) :
    SoundQueues (run (Client.start n) es).net.queueView := by
  have hall : Along step (fun _ _ => True) (Client.start n) es := Along.of_forall (fun _ _ _ => trivial) _
  exact Along.invariant (I := fun c : Client => SoundQueues c.net.queueView)
    (fun _ e hc _ => step_soundQueues hc e) h.counted.toSoundQueues hall

/-- The queue of a session: loading with its active request, a pending one only behind it, at most one
command unanswered. -/
def QueueOk (st : InFlight) (i : Nat) : Prop :=
  ((st.client.net.heap i).chActive.isSome = true ↔ (st.client.net.heap i).historyLoading = true) ∧
    ((st.client.net.heap i).chPending.isSome = true → (st.client.net.heap i).chActive.isSome = true) ∧
    st.unanswered i ≤ 1

/-- What a session that has a request in flight, or can send one, is told about its requests. -/
def Truthful (n : Net) (i : Nat) : Prop :=
  (∀ req, (chathistorySubmit n i req).1 = true ↔ Kept n (chathistorySubmit n i req).2 i req) ∧
    ∀ gapId dir, TouchedWithRequest n i gapId (chathistoryRequestGapFill n i gapId dir).2

/-- **The request queue**: when requests are only given up once answered, every queue is in order in
every state reached; and in each of them a session is told the truth about its requests exactly when
it has one in flight or can send one. -/
theorem queue_in_order {n : Net} (h : n.NothingAsked) (xs : List Arrival)
    (hx : Along arrive ClosesAnswered (InFlight.start n) xs) :
    ∀ i, QueueOk (xs.foldl arrive (InFlight.start n)) i ∧
      (Truthful (xs.foldl arrive (InFlight.start n)).client.net i ↔
        ((xs.foldl arrive (InFlight.start n)).client.net.heap i).chActive ≠ none ∨
          dispatchable (xs.foldl arrive (InFlight.start n)).client.net i = true) := by
  have hinv := Along.invariant (I := fun st : InFlight => Counted st.answered st.client.net.queueView)
    (fun _ _ h hx => arrive_counted h hx) h.counted hx
  generalize xs.foldl arrive (InFlight.start n) = st at hinv
  intro i
  refine ⟨⟨(hinv.sound i).loading, (hinv.sound i).pending, ?_⟩, ?_⟩
  · have hc : st.client.net.sentFor i ≤ st.answered i + _ := hinv.counted i
    unfold InFlight.unanswered
    split at hc <;> omega
  · constructor
    · intro ht
      exact (submit_truthful_iff hinv.toSoundQueues i ⟨.latest, none, none, 0, .user, false, false, 0, 0⟩).1
        (ht.1 _)
    · intro hd
      exact ⟨fun req => (submit_truthful_iff hinv.toSoundQueues i req).2 hd,
        fun gapId dir => requestGapFill_touched hinv.toSoundQueues hd gapId dir⟩

/-- A LATEST request. -/
def Chreq.newest (limit : Int) : Chreq := ⟨.latest, none, none, limit, .user, false, false, 0, 0⟩

theorem twoChannels_asks : twoChannels.NothingAsked := by
  refine ⟨fun i => ?_, rfl, by decide, by simp [twoChannels, Net.connected]⟩
  rcases i with _ | _ | i
  · decide
  · decide
  · simp [twoChannels, Net.connected]

/-- The answered request makes room for the next one. -/
theorem queue_in_order_answered : QueueOk ([⟨none, .submit 0 (.newest 10)⟩,
      ⟨some 0, .event (.batch (.plain [.line "a" 10]))⟩, ⟨none, .submit 0 (.newest 20)⟩].foldl arrive
        (InFlight.start twoChannels)) 0 :=
  (queue_in_order twoChannels_asks _ (by decide) 0).1

/-- On a server that is gone a request is reported as submitted and is nowhere; and a FAIL that is about
no session closes a request in flight, after which two commands are unanswered. -/
theorem submit_drops_silently :
    (∃ st, st = [⟨none, .connected false⟩].foldl arrive (InFlight.start twoChannels) ∧
      (chathistorySubmit st.client.net 0 (.newest 10)).1 = true ∧
      ¬ Kept st.client.net (chathistorySubmit st.client.net 0 (.newest 10)).2 0 (.newest 10)) ∧
    ([⟨none, .submit 0 (.newest 10)⟩, ⟨none, .event (.fail "INVALID_PARAMS" "*")⟩,
      ⟨none, .submit 0 (.newest 10)⟩].foldl arrive (InFlight.start twoChannels)).unanswered 0 = 2 := by
  refine ⟨⟨_, rfl, ?_⟩, ?_⟩ <;> decide

end PoxChat.ChatHistory
