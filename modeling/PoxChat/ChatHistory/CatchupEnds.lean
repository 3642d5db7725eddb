import PoxChat.ChatHistory.InFlight

/-!
# Catch-up ends

How many CHATHISTORY commands one catch-up of a session can send, whatever the server answers.

* `Pace` — what the sending of a session depends on; every function moves it by writes to that session
  or leaves it alone.
* `Pace.cost` — a price in commands: the pages the BEFORE walk can still take, the one fallback to a
  timestamp, and the hop that is due.  `Pace.Within m` says that what is sent and still to be paid is at
  most `m`; no event of a catch-up raises it.

Principal result: `catchup_bounded` — every reply moves the catch-up on, and its commands are bounded by
`commandBound CHATHISTORY_SANITY_LIMIT`.
-/

set_option autoImplicit false

namespace PoxChat.ChatHistory

open Lib Scrollback

/-! ## The pace of a session -/

structure Pace where
  active : Option Chreq
  pending : Option Chreq
  loading : Bool
  used : Bool
  inProgress : Bool
  isBefore : Bool
  retrieved : Int
  stale : Int
  sent : Nat
  canSend : Bool
  self : Nat
  nextSess : Nat

def Net.pace (n : Net) (i : Nat) : Pace where
  active := (n.heap i).chActive
  pending := (n.heap i).chPending
  loading := (n.heap i).historyLoading
  used := (n.heap i).historyRequestUsedMsgid
  inProgress := (n.heap i).catchupInProgress
  isBefore := (n.heap i).catchupIsBefore
  retrieved := (n.heap i).historyCatchupRetrieved
  stale := (n.heap i).historyCatchupStaleCount
  sent := n.sentFor i
  canSend := dispatchable n i
  self := i
  nextSess := n.nextSess

namespace Pace

/-- No request but those of catch-up is out. -/
structure Sound (p : Pace) : Prop where
  pending : p.pending = none
  gap : ∀ req, p.active = some req → req.gapId = 0
  loading : p.loading = p.active.isSome
  retrieved : 0 ≤ p.retrieved
  stale : 0 ≤ p.stale
  known : p.self < p.nextSess

/-- The pages the BEFORE walk can still take: one that brings rows, or one that brings none. -/
def pages (p : Pace) : Nat := 4 * (CHATHISTORY_SANITY_LIMIT - p.retrieved).toNat + (3 - p.stale).toNat

/-- What a catch-up may still send: two commands a page, a fallback, and the hop that is due. -/
def cost (p : Pace) : Nat :=
  if p.canSend && p.inProgress then
    2 * p.pages + (if p.used then 1 else 0) + (if p.isBefore && p.loading then 0 else 2)
  else 0

def Within (m : Nat) (p : Pace) : Prop := p.Sound ∧ p.sent + p.cost ≤ m

end Pace

/-- The commands of one catch-up, by the limit on the rows it retrieves. -/
def commandBound (limit : Int) : Nat := 8 * limit.toNat + 10

section Pure

variable {p : Pace} {m : Nat}

theorem Pace.Sound.cost_lt (h : p.Sound) : p.cost < commandBound CHATHISTORY_SANITY_LIMIT := by
  have := h.retrieved
  have := h.stale
  unfold Pace.cost Pace.pages commandBound
  simp only [CHATHISTORY_SANITY_LIMIT]
  split_ifs <;> omega

theorem Pace.Within.sent_le (h : p.Within m) : p.sent ≤ m := by
  have := h.2
  omega

/-- `finish_catchup`. -/
def Pace.ended (p : Pace) : Pace := { p with inProgress := false, isBefore := false, retrieved := 0, stale := 0 }

/-- A catch-up that is over costs nothing. -/
theorem Pace.Within.ended (h : p.Sound) (hsent : p.sent ≤ m) : p.ended.Within m := by
  refine ⟨⟨h.pending, h.gap, h.loading, Int.le_refl 0, Int.le_refl 0, h.known⟩, ?_⟩
  simpa [Pace.cost, Pace.ended] using hsent

/-- The request is answered: the session no longer loads. -/
def Pace.answered (p : Pace) : Pace := { p with active := none, loading := false }

theorem Pace.Sound.answered (h : p.Sound) : p.answered.Sound where
  pending := h.pending
  gap := by simp [Pace.answered]
  loading := rfl
  retrieved := h.retrieved
  stale := h.stale
  known := h.known

/-- A request goes out, if it can. -/
def Pace.dispatched (p : Pace) (req : Chreq) : Pace :=
  if p.canSend then { p with active := some req, loading := true, used := req.usedMsgid, sent := p.sent + 1 } else p

@[simp] theorem Pace.dispatched_inProgress (req : Chreq) : (p.dispatched req).inProgress = p.inProgress := by
  unfold Pace.dispatched
  split <;> rfl

theorem Pace.Sound.dispatched (h : p.Sound) {req : Chreq} (hg : req.gapId = 0) : (p.dispatched req).Sound := by
  unfold Pace.dispatched
  split
  · constructor
    · exact h.pending
    · rintro r hr
      cases hr
      exact hg
    · rfl
    · exact h.retrieved
    · exact h.stale
    · exact h.known
  · exact h

/-- The fallback spends the mark that the request was by msgid. -/
theorem Pace.Within.fallback (h : p.Within m) {req : Chreq} (hg : req.gapId = 0) (hu : req.usedMsgid = false)
    (hip : p.inProgress = true) (hused : p.used = true) : (p.answered.dispatched req).Within m := by
  refine ⟨h.1.answered.dispatched hg, ?_⟩
  have hm := h.2
  unfold Pace.dispatched Pace.cost at *
  cases hc : p.canSend
  · simp [hc, Pace.answered] at hm ⊢
    exact hm
  · simp only [hc, hip, hused, hu, Pace.answered, Pace.pages, Bool.and_self, if_true, Bool.and_true] at hm ⊢
    split_ifs at hm ⊢ <;> simp_all <;> omega

/-- The hop that is due is paid for. -/
theorem Pace.Within.hop (h : p.Within m) {req : Chreq} (hg : req.gapId = 0) (hip : p.inProgress = true)
    (hl : p.loading = false) : (({ p with isBefore := true } : Pace).dispatched req).Within m := by
  have hs : ({ p with isBefore := true } : Pace).Sound :=
    ⟨h.1.pending, h.1.gap, h.1.loading, h.1.retrieved, h.1.stale, h.1.known⟩
  refine ⟨hs.dispatched hg, ?_⟩
  have hm := h.2
  unfold Pace.dispatched Pace.cost at *
  cases hc : p.canSend
  · simp [hc] at hm ⊢
    exact hm
  · simp only [hc, hip, hl, Pace.pages, Bool.and_self, if_true, Bool.and_false, Bool.false_eq_true,
      if_false] at hm ⊢
    split_ifs at hm ⊢ <;> omega

/-- A batch the server sent unasked answers no request. -/
def Pace.settled (p : Pace) (unsolicited : Bool) : Pace := if unsolicited then p else p.answered

theorem Pace.Sound.settled (h : p.Sound) (unsolicited : Bool) : (p.settled unsolicited).Sound := by
  unfold Pace.settled
  split
  · exact h
  · exact h.answered

/-- A page of the BEFORE walk came: its rows are counted, and the pages in a row that brought none. -/
def Pace.paged (p : Pace) (unsolicited : Bool) (retrieved stale : Int) : Pace :=
  { p.settled unsolicited with retrieved := retrieved, stale := stale }

theorem Pace.Sound.paged (h : p.Sound) (unsolicited : Bool) {r s : Int} (hr : 0 ≤ r) (hs : 0 ≤ s) :
    (p.paged unsolicited r s).Sound := by
  have h' := h.settled unsolicited
  exact ⟨h'.pending, h'.gap, h'.loading, hr, hs, h'.known⟩

/-- A page of the BEFORE walk pays for the hop that follows it: it brought rows, or it is one more in a
row that brought none. -/
theorem Pace.Within.page (h : p.Within m) (unsolicited : Bool) (hb : p.isBefore = true) {r s : Int}
    (hr : r < CHATHISTORY_SANITY_LIMIT) (hs : 0 ≤ s)
    (hadv : p.retrieved < r ∨ r = p.retrieved ∧ s = p.stale + 1 ∧ s < 3) : (p.paged unsolicited r s).Within m := by
  have h0 := h.1.retrieved
  have h1 := h.1.stale
  refine ⟨h.1.paged unsolicited (by omega) hs, ?_⟩
  have hm := h.2
  have hpages : (p.paged unsolicited r s).pages + 1 ≤ p.pages := by
    simp only [Pace.pages, Pace.paged, CHATHISTORY_SANITY_LIMIT] at *
    omega
  unfold Pace.cost at *
  cases unsolicited
  · simp only [Pace.paged, Pace.settled, Pace.answered, hb, Bool.true_and] at hm hpages ⊢
    split_ifs at hm ⊢ <;> simp_all <;> omega
  · simp only [Pace.paged, Pace.settled, if_true] at hm hpages ⊢
    split_ifs at hm ⊢ <;> omega

/-- Outside of the BEFORE walk an answer changes no price. -/
theorem Pace.Within.settled (h : p.Within m) (unsolicited : Bool) (hb : p.isBefore = false) :
    (p.settled unsolicited).Within m := by
  refine ⟨h.1.settled unsolicited, ?_⟩
  have hm := h.2
  unfold Pace.settled
  split
  · exact hm
  · simp only [Pace.cost, Pace.answered, Pace.pages, hb, Bool.false_and] at hm ⊢
    exact hm

end Pure

/-! ## What each function does to it -/

section Operations

variable {n n' : Net} {i j : Nat}

theorem pace_upd_of_ne (h : j ≠ i) (f : Session → Session) : (n.upd j f).pace i = n.pace i := by
  simp [Net.pace, Net.upd, dispatchable, Net.sentFor, Ne.symm h]

theorem Queued.pace_of_ne (h : Queued j n n') (hj : j ≠ i) : n'.pace i = n.pace i := by
  obtain ⟨_, _, _, _, lines, rfl, hl⟩ := h
  have hsent : (lines.filter fun x => x.sess = some i) = [] := by
    rw [List.filter_eq_nil_iff]
    intro x hx
    simp [hl x hx, hj]
  simp [Net.pace, dispatchable, Net.sentFor, Ne.symm hj, hsent]

@[simp] theorem pace_store (f : Sb → Sb) : (n.store f).pace i = n.pace i := rfl

@[simp] theorem pace_setBeforeSess (sess : Option Nat) : (n.setBeforeSess sess).pace i = n.pace i := rfl

@[simp] theorem pace_takeSlot : (n.takeSlot j).pace i = n.pace i := rfl

@[simp] theorem pace_returnSlot : (n.returnSlot j).pace i = n.pace i := by
  unfold Net.returnSlot
  split <;> rfl

/-- A write to the session that keeps all its pace depends on. -/
theorem pace_upd_same {f : Session → Session} (h : ∀ s, ((f s).chActive, (f s).chPending, (f s).historyLoading,
    (f s).historyRequestUsedMsgid, (f s).catchupInProgress, (f s).catchupIsBefore, (f s).historyCatchupRetrieved,
    (f s).historyCatchupStaleCount, getTargetName (f s)) = (s.chActive, s.chPending, s.historyLoading,
    s.historyRequestUsedMsgid, s.catchupInProgress, s.catchupIsBefore, s.historyCatchupRetrieved,
    s.historyCatchupStaleCount, getTargetName s)) (j : Nat) : (n.upd j f).pace i = n.pace i := by
  by_cases hj : j = i
  · subst hj
    have h := h (n.heap j)
    simp only [Prod.mk.injEq] at h
    simp [Net.pace, Net.upd, dispatchable, Net.sentFor, h]
  · exact pace_upd_of_ne hj f

theorem pace_dispatch (req : Chreq) : (chathistoryDispatchNow n i req).pace i = (n.pace i).dispatched req := by
  unfold chathistoryDispatchNow Pace.dispatched
  split
  · rename_i hname
    simp [Net.pace, dispatchable, hname, nonEmpty]
  · rename_i target hname
    by_cases ht : target = ""
    · simp [Net.pace, dispatchable, hname, ht, nonEmpty]
    · by_cases hg : n.serv.haveChathistory = false ∨ n.serv.connected = false ∨ n.serv.chathistorySuppressed = true
      · rw [if_neg ht, if_pos hg, if_neg]
        rcases hg with hg | hg | hg <;> simp [Net.pace, dispatchable, hg]
      · have hcan : dispatchable n i = true := by
          simp only [not_or, Bool.not_eq_false, Bool.not_eq_true] at hg
          simp [dispatchable, hname, nonEmpty, ht, hg]
        rw [if_neg ht, if_neg hg, if_pos (show (n.pace i).canSend = true from hcan)]
        have hname' : ∀ s : Session, getTargetName { s with
            chActive := some req
            historyLoading := true
            historyRequestUsedMsgid := req.usedMsgid } = getTargetName s := fun _ => rfl
        simp [Net.pace, Net.upd, Net.send, Net.sentFor, dispatchable, hname']

theorem pace_complete (hp : (n.pace i).pending = none) :
    (chathistoryRequestComplete n i).pace i = (n.pace i).answered := by
  unfold chathistoryRequestComplete
  dsimp only
  have hp' : (n.heap i).chPending = none := hp
  have hnone : ((n.upd i fun s => { s with chActive := none, historyLoading := false }).heap i).chPending = none := by
    simpa [Net.upd] using hp'
  rw [hnone]
  have hname' : ∀ s : Session, getTargetName { s with chActive := none, historyLoading := false } =
      getTargetName s := fun _ => rfl
  simp [Net.pace, Net.upd, Net.sentFor, dispatchable, Pace.answered, hname']

theorem pace_submit (req : Chreq) (ha : (n.pace i).active = none) (hp : (n.pace i).pending = none) :
    (chathistorySubmit n i req).2.pace i = (n.pace i).dispatched req := by
  have ha' : (n.heap i).chActive = none := ha
  have hp' : (n.heap i).chPending = none := hp
  unfold chathistorySubmit
  simp only [ha', hp', chreqIsDup, if_true]
  exact pace_dispatch req

/-- Where the gate of the requests is shut, nothing can be sent. -/
theorem pace_of_gate (hg : requestGate n i = false) (req : Chreq) : n.pace i = (n.pace i).dispatched req := by
  unfold Pace.dispatched
  rw [if_neg]
  have hcan : dispatchable n i = false := by
    unfold requestGate at hg
    unfold dispatchable
    cases hname : getTargetName (n.heap i) with
    | none => simp [nonEmpty]
    | some target =>
      simp only [hname, Option.isSome_some, Bool.and_true] at hg
      cases hc : n.serv.haveChathistory <;> simp_all
  simp [Net.pace, hcan]

theorem pace_requestLatest (reference : Option String) (limit : Int) (ha : (n.pace i).active = none)
    (hp : (n.pace i).pending = none) : ∃ req : Chreq, req.gapId = 0 ∧ req.usedMsgid = reference.any isMsgidRef ∧
      (chathistoryRequestLatest n i reference limit).pace i = (n.pace i).dispatched req := by
  refine ⟨⟨.latest, reference, none, limit, inferPriority (n.heap i), (n.heap i).catchupInProgress,
    reference.any isMsgidRef, 0, 0⟩, rfl, rfl, ?_⟩
  unfold chathistoryRequestLatest
  split
  · exact pace_submit _ ha hp
  · rename_i hg
    exact pace_of_gate (by simpa using hg) _

theorem pace_requestBeforeMsgid {msgid : String} (hmsgid : msgid ≠ "") (limit : Int)
    (ha : (n.pace i).active = none) (hp : (n.pace i).pending = none) : ∃ req : Chreq, req.gapId = 0 ∧
      (chathistoryRequestBeforeMsgid n i msgid limit).pace i = (n.pace i).dispatched req := by
  refine ⟨⟨.before, some ("msgid=" ++ msgid), none, limit, inferPriority (n.heap i), (n.heap i).catchupInProgress,
    isMsgidRef ("msgid=" ++ msgid), 0, 0⟩, rfl, ?_⟩
  unfold chathistoryRequestBeforeMsgid chathistoryRequestBefore
  rw [if_neg hmsgid]
  split
  · exact pace_submit _ ha hp
  · rename_i hg
    refine pace_of_gate ?_ _
    by_contra hopen
    exact hg ⟨by simpa using hopen, fun h => by simpa using congrArg String.length h⟩

theorem pace_finishCatchup : (finishCatchup n i).pace i = (n.pace i).ended := by
  unfold finishCatchup
  dsimp only
  have hname : ∀ (s : Session) (m : Option String), getTargetName { s with
      catchupInProgress := false
      catchupIsBefore := false
      historyCatchupStaleCount := 0
      historyCatchupRetrieved := 0
      catchupGapId := 0
      oldestMsgid := m } = getTargetName s := fun _ _ => rfl
  split <;> simp [Net.pace, Net.upd, Net.setBeforeSess, Net.sentFor, dispatchable, Pace.ended, hname]

theorem pace_finishCatchup_of_ne (h : j ≠ i) : (finishCatchup n j).pace i = n.pace i := by
  unfold finishCatchup
  dsimp only
  split
  · rw [pace_setBeforeSess]
    exact pace_upd_of_ne h _
  · exact pace_upd_of_ne h _

/-! ### Messages and the ledger -/

@[simp] theorem pace_track (msgid : String) (ts : Int) (isHistory : Bool) :
    (chathistoryTrackMsgidTs n j msgid ts isHistory).pace i = n.pace i := by
  unfold chathistoryTrackMsgidTs
  split
  · rfl
  · dsimp only
    split
    · rfl
    · exact pace_upd_same (by intro s; rfl) j

@[simp] theorem pace_isDuplicate (msgid : String) (ts : Int) :
    (chathistoryIsDuplicateMsgid n j msgid ts).2.pace i = n.pace i := by
  unfold chathistoryIsDuplicateMsgid
  split_ifs
  · rfl
  · rfl
  · rfl
  · split <;> rfl

@[simp] theorem pace_runHandlers (msg : BatchMessage) : (runHandlers n j msg).pace i = n.pace i := by
  unfold runHandlers
  dsimp only
  split
  · rw [pace_track, pace_store]
  · rw [pace_store]

@[simp] theorem pace_processBatchMessage (msg : BatchMessage) :
    (processBatchMessage n j msg).2.pace i = n.pace i := by
  have hcurrent : ∀ (n' : Net) (id : Option String), n'.pace i = n.pace i →
      (n'.upd j fun s => { s with currentMsgid := id }).pace i = n.pace i :=
    fun n' id hn' => (pace_upd_same (by intro s; rfl) j).trans hn'
  unfold processBatchMessage
  cases msg.command with
  | none => rfl
  | some command =>
    cases msg.msgid with
    | none =>
      dsimp only
      rw [if_neg (by decide), if_neg (by simp), pace_runHandlers]
      exact hcurrent n none rfl
    | some m =>
      have hdup : (chathistoryIsDuplicateMsgid n j m msg.timestamp).2.pace i = n.pace i := by simp
      have htrack : (chathistoryTrackMsgidTs (chathistoryIsDuplicateMsgid n j m msg.timestamp).2 j m msg.timestamp
          true).pace i = n.pace i := by simp
      dsimp only
      split_ifs
      · exact hdup
      · exact hcurrent _ _ htrack
      · rw [pace_runHandlers]
        exact hcurrent _ _ htrack

@[simp] theorem pace_chunkLoop (m : Nat) (c : Client) (k : Chunk) :
    (chunkLoop m c k).1.net.pace i = c.net.pace i := by
  induction m generalizing c k with
  | zero => rfl
  | succ m ih =>
    unfold chunkLoop
    split
    · rfl
    · rw [ih]
      exact pace_processBatchMessage _

@[simp] theorem pace_recordWitness (k : Chunk) : (recordWitness n k).pace i = n.pace i := by
  unfold recordWitness
  split
  · rfl
  · exact pace_upd_same (by intro s; rfl) k.sess

@[simp] theorem pace_clampGap (k : Chunk) : (clampGap n k).pace i = n.pace i := by
  unfold clampGap
  split
  · split
    · rfl
    · split_ifs <;> rfl
  · rfl

@[simp] theorem pace_scheduleBackground : (scheduleBackgroundFetch n j).pace i = n.pace i := by
  unfold scheduleBackgroundFetch
  split
  · exact pace_upd_same (by intro s; rfl) j
  · rfl

@[simp] theorem pace_finishPlain (k : Chunk) : (finishPlain n k).pace i = n.pace i := by
  have key : ∀ n' : Net, n'.pace i = n.pace i →
      (if ((clampGap n' k).heap k.sess).backgroundHistoryActive ∧
          ((clampGap n' k).heap k.sess).historyExhausted = false then
        scheduleBackgroundFetch (clampGap n' k) k.sess else clampGap n' k).pace i = n.pace i := by
    intro n' hn'
    split
    · rw [pace_scheduleBackground, pace_clampGap, hn']
    · rw [pace_clampGap, hn']
  unfold finishPlain
  dsimp only
  split
  · exact key _ (pace_upd_same (by intro s; rfl) k.sess)
  · exact key n rfl

@[simp] theorem pace_refreshNewest : (refreshNewest n j).pace i = n.pace i := by
  unfold refreshNewest
  split
  · rfl
  · exact pace_upd_same (by intro s; rfl) j

theorem pace_newIrcwindow (h : (n.pace i).Sound) (name : String) :
    (newIrcwindow n name).2.pace i = { n.pace i with nextSess := n.nextSess + 1 } := by
  have hne : i ≠ n.nextSess := Nat.ne_of_lt h.known
  unfold newIrcwindow
  simp [Net.pace, dispatchable, Net.sentFor, hne]

theorem pace_newIrcwindow_within {m : Nat} (h : (n.pace i).Within m) (name : String) :
    ((newIrcwindow n name).2.pace i).Within m := by
  rw [pace_newIrcwindow h.1]
  refine ⟨⟨h.1.pending, h.1.gap, h.1.loading, h.1.retrieved, h.1.stale, ?_⟩, h.2⟩
  have := h.1.known
  exact Nat.lt_succ_of_lt this

/-! ### The BEFORE phase -/

variable {m : Nat}

theorem needsBefore_pace (h : needsBefore (n.heap i) = true) :
    (n.pace i).inProgress = true ∧ (n.pace i).loading = false := by
  simp only [needsBefore, Bool.and_eq_true, Bool.not_eq_true'] at h
  exact ⟨h.1.1, h.2⟩

theorem Pace.Sound.active_of_loading {p : Pace} (h : p.Sound) (hl : p.loading = false) : p.active = none := by
  have := h.loading
  rw [hl] at this
  simpa using this.symm

/-- The BEFORE phase of a session starts with a request, or there is nothing to walk from. -/
theorem pace_startBefore (h : (n.pace i).Sound) (hl : (n.pace i).loading = false) :
    (startBefore n i).pace i = (n.pace i).ended ∨ ∃ req : Chreq, req.gapId = 0 ∧
      (startBefore n i).pace i = ({ n.pace i with isBefore := true } : Pace).dispatched req := by
  unfold startBefore
  dsimp only
  generalize hn' : ({ (n.setBeforeSess (some i)).upd i fun s => { s with catchupIsBefore := true } with
    slots := (n.setBeforeSess (some i)).slots ++ [.beforeStarted i] } : Net) = n'
  have hpace : n'.pace i = { n.pace i with isBefore := true } := by
    subst hn'
    have hname : ∀ s : Session, getTargetName { s with catchupIsBefore := true } = getTargetName s := fun _ => rfl
    simp [Net.pace, Net.upd, Net.setBeforeSess, Net.sentFor, dispatchable, hname]
  have hend : ((finishCatchup n' i).setBeforeSess none).pace i = (n.pace i).ended := by
    rw [pace_setBeforeSess, pace_finishCatchup, hpace]
    rfl
  split
  · rename_i msgid _
    split
    · rename_i hmsgid
      right
      rw [← hpace]
      exact pace_requestBeforeMsgid hmsgid CHATHISTORY_BEFORE_LIMIT
        (by rw [hpace]; exact h.active_of_loading hl) (by rw [hpace]; exact h.pending)
    · exact .inl hend
  · exact .inl hend

theorem startBefore_within (h : (n.pace i).Within m) (hip : (n.pace i).inProgress = true)
    (hl : (n.pace i).loading = false) : ((startBefore n i).pace i).Within m := by
  rcases pace_startBefore h.1 hl with hend | ⟨req, hg, hreq⟩
  · rw [hend]
    exact Pace.Within.ended h.1 h.sent_le
  · rw [hreq]
    exact h.hop hg hip hl

theorem pace_startBefore_of_ne (h : j ≠ i) : (startBefore n j).pace i = n.pace i := by
  unfold startBefore
  dsimp only
  generalize hn' : ({ (n.setBeforeSess (some j)).upd j fun s => { s with catchupIsBefore := true } with
    slots := (n.setBeforeSess (some j)).slots ++ [.beforeStarted j] } : Net) = n'
  have hpace : n'.pace i = n.pace i := by
    subst hn'
    exact pace_upd_of_ne (n := n.setBeforeSess (some j)) h fun s => { s with catchupIsBefore := true }
  split
  · split
    · rw [(requestBeforeMsgid_queued n' j _ _).pace_of_ne h, hpace]
    · rw [pace_setBeforeSess, pace_finishCatchup_of_ne h, hpace]
  · rw [pace_setBeforeSess, pace_finishCatchup_of_ne h, hpace]

theorem check_within (h : (n.pace i).Within m) : ((chathistoryCheckBeforeCatchup n).pace i).Within m := by
  unfold chathistoryCheckBeforeCatchup
  split
  · split
    · exact h
    · rename_i j hj
      by_cases hji : j = i
      · subst hji
        obtain ⟨hip, hl⟩ := needsBefore_pace (beforeTarget_needs hj)
        exact startBefore_within h hip hl
      · rw [pace_startBefore_of_ne hji]
        exact h
  · exact h

/-- The BEFORE phase starts only in a session that is in catch-up. -/
theorem pace_check_of_idle (h : (n.pace i).inProgress = false) :
    (chathistoryCheckBeforeCatchup n).pace i = n.pace i := by
  unfold chathistoryCheckBeforeCatchup
  split
  · split
    · rfl
    · rename_i j hj
      apply pace_startBefore_of_ne
      rintro rfl
      exact absurd (needsBefore_pace (beforeTarget_needs hj)).1 (by simp [h])
  · rfl

theorem pace_checkWhenNonePending_of_idle (h : (n.pace i).inProgress = false) :
    (checkWhenNonePending n).pace i = n.pace i := by
  unfold checkWhenNonePending
  split
  · exact pace_check_of_idle h
  · rfl

theorem checkWhenNonePending_within (h : (n.pace i).Within m) : ((checkWhenNonePending n).pace i).Within m := by
  unfold checkWhenNonePending
  split
  · exact check_within h
  · exact h

/-! ### Finished batches -/

theorem pace_settle (gapId : Int) (settle : Sb → Int → Sb) :
    (if 0 < gapId then n.store fun db => settle db gapId else n).pace i = n.pace i := by
  split <;> rfl

theorem pace_endBefore (settle : Sb → Int → Sb) : (endBefore n i settle).pace i = (n.pace i).ended := by
  have hfin : (finishCatchup (if 0 < (n.heap i).catchupGapId then
      n.store fun db => settle db (n.heap i).catchupGapId else n) i).pace i = (n.pace i).ended := by
    rw [pace_finishCatchup, pace_settle]
  unfold endBefore
  dsimp only
  rw [pace_check_of_idle (by rw [hfin]; rfl), hfin]

theorem endBefore_within_of_ne (hj : j ≠ i) (h : (n.pace i).Within m) (settle : Sb → Int → Sb) :
    ((endBefore n j settle).pace i).Within m := by
  unfold endBefore
  apply check_within
  rw [pace_finishCatchup_of_ne hj, pace_settle]
  exact h

/-- The walk of the session goes on only below the limit. -/
theorem pace_continueBefore (n : Net) (k : Chunk) : (continueBefore n k).pace k.sess = (n.pace k.sess).ended ∨
    (n.pace k.sess).retrieved < CHATHISTORY_SANITY_LIMIT ∧ (continueBefore n k).pace k.sess = n.pace k.sess := by
  have hend : (chathistoryCheckBeforeCatchup (finishCatchup n k.sess)).pace k.sess = (n.pace k.sess).ended := by
    rw [pace_check_of_idle (by rw [pace_finishCatchup]; rfl), pace_finishCatchup]
  unfold continueBefore
  dsimp only
  split
  · exact .inl hend
  · split
    · exact .inl hend
    · rename_i hlimit
      split
      · exact .inr ⟨Int.not_le.1 hlimit, rfl⟩
      · exact .inl hend

theorem continueBefore_within_of_ne {k : Chunk} (hj : k.sess ≠ i) (h : (n.pace i).Within m) :
    ((continueBefore n k).pace i).Within m := by
  have hend : ((chathistoryCheckBeforeCatchup (finishCatchup n k.sess)).pace i).Within m := by
    apply check_within
    rw [pace_finishCatchup_of_ne hj]
    exact h
  unfold continueBefore
  dsimp only
  split
  · exact hend
  · split
    · exact hend
    · split
      · exact h
      · exact hend

/-- The head of the BEFORE arm: the page is counted and narrows the gap. -/
def countPage (n : Net) (k : Chunk) : Net :=
  let n := n.upd k.sess fun s => { s with historyCatchupRetrieved := s.historyCatchupRetrieved + k.msgCount }
  if 0 < (n.heap k.sess).catchupGapId ∧ 0 < k.rawCount ∧ 0 < k.oldestTimestamp then
    n.store fun db => scrollbackGapShrink db (n.heap k.sess).catchupGapId 0 none k.oldestTimestamp k.batchOldestMsgid
  else n

/-- The rest of it: whether the walk ends or goes on. -/
def judgePage (n : Net) (k : Chunk) : Net :=
  let s := n.heap k.sess
  let dead (db : Sb) (gapId : Int) : Sb := scrollbackGapSetState db gapId .dead
  if k.rawCount = 0 ∨ s.historyExhausted then endBefore n k.sess dead
  else if 0 < s.catchupLowerBound ∧ 0 < k.oldestTimestamp ∧ k.oldestTimestamp < s.catchupLowerBound then
    endBefore n k.sess scrollbackGapDelete
  else if k.msgCount = 0 then
    let n := n.upd k.sess fun s => { s with historyCatchupStaleCount := s.historyCatchupStaleCount + 1 }
    if 3 ≤ (n.heap k.sess).historyCatchupStaleCount then
      endBefore (n.upd k.sess fun s => { s with historyExhausted := true }) k.sess dead
    else continueBefore n k
  else continueBefore (n.upd k.sess fun s => { s with historyCatchupStaleCount := 0 }) k

theorem finishBefore_eq (n : Net) (k : Chunk) : finishBefore n k = judgePage (countPage n k) k := rfl

theorem pace_countPage (k : Chunk) : (countPage n k).pace k.sess =
    { n.pace k.sess with retrieved := (n.pace k.sess).retrieved + k.msgCount } := by
  have hname : ∀ (s : Session) (r : Int), getTargetName { s with historyCatchupRetrieved := r } =
    getTargetName s := fun _ _ => rfl
  unfold countPage
  dsimp only
  split <;> simp [Net.pace, Net.upd, Net.store, Net.sentFor, dispatchable, hname]

theorem pace_countPage_of_ne {k : Chunk} (hj : k.sess ≠ i) : (countPage n k).pace i = n.pace i := by
  unfold countPage
  dsimp only
  split
  · rw [pace_store]
    exact pace_upd_of_ne hj _
  · exact pace_upd_of_ne hj _

theorem pace_setStale (f : Session → Int) : (n.upd i fun s => { s with historyCatchupStaleCount := f s }).pace i =
    { n.pace i with stale := f (n.heap i) } := by
  have hname : ∀ (s : Session) (r : Int), getTargetName { s with historyCatchupStaleCount := r } =
    getTargetName s := fun _ _ => rfl
  simp [Net.pace, Net.upd, Net.sentFor, dispatchable, hname]

theorem judgePage_within_of_ne {k : Chunk} (hj : k.sess ≠ i) (h : (n.pace i).Within m) :
    ((judgePage n k).pace i).Within m := by
  have hstale : ∀ f : Session → Session, ((n.upd k.sess f).pace i).Within m := by
    intro f
    rw [pace_upd_of_ne hj]
    exact h
  unfold judgePage
  dsimp only
  split
  · exact endBefore_within_of_ne hj h _
  · split
    · exact endBefore_within_of_ne hj h _
    · split
      · split
        · apply endBefore_within_of_ne hj
          rw [pace_upd_of_ne hj]
          exact hstale _
        · exact continueBefore_within_of_ne hj (hstale _)
      · exact continueBefore_within_of_ne hj (hstale _)

@[simp] theorem Pace.ended_paged (p : Pace) (unsolicited : Bool) (r s : Int) :
    (p.paged unsolicited r s).ended = (p.settled unsolicited).ended := rfl

/-- A page of a session, whose pace was `p` before the answer came, ends the walk or moves it on. -/
theorem judgePage_cases {k : Chunk} {p : Pace} (hk : 0 ≤ k.msgCount) (hs : 0 ≤ p.stale)
    (hp : n.pace k.sess = p.paged k.unsolicited (p.retrieved + k.msgCount) p.stale) :
    (judgePage n k).pace k.sess = (p.settled k.unsolicited).ended ∨
      ∃ r s, (judgePage n k).pace k.sess = p.paged k.unsolicited r s ∧ r < CHATHISTORY_SANITY_LIMIT ∧ 0 ≤ s ∧
        (p.retrieved < r ∨ r = p.retrieved ∧ s = p.stale + 1 ∧ s < 3) := by
  have hset : ∀ f : Session → Int, (n.upd k.sess fun s => { s with historyCatchupStaleCount := f s }).pace k.sess =
      p.paged k.unsolicited (p.retrieved + k.msgCount) (f (n.heap k.sess)) := by
    intro f
    rw [pace_setStale, hp]
    rfl
  have hgo : ∀ n' : Net, ∀ s, 0 ≤ s → n'.pace k.sess = p.paged k.unsolicited (p.retrieved + k.msgCount) s →
      (p.retrieved < p.retrieved + k.msgCount ∨ p.retrieved + k.msgCount = p.retrieved ∧ s = p.stale + 1 ∧ s < 3) →
      (continueBefore n' k).pace k.sess = (p.settled k.unsolicited).ended ∨
        ∃ r s, (continueBefore n' k).pace k.sess = p.paged k.unsolicited r s ∧ r < CHATHISTORY_SANITY_LIMIT ∧ 0 ≤ s ∧
          (p.retrieved < r ∨ r = p.retrieved ∧ s = p.stale + 1 ∧ s < 3) := by
    intro n' s hs hn' hadv
    rcases pace_continueBefore n' k with h | ⟨hlimit, h⟩
    · rw [hn'] at h
      exact .inl h
    · rw [hn'] at h hlimit
      exact .inr ⟨_, s, h, hlimit, hs, hadv⟩
  have hstaleOf : (n.heap k.sess).historyCatchupStaleCount = p.stale := congrArg Pace.stale hp
  unfold judgePage
  dsimp only
  split
  · left
    rw [pace_endBefore, hp]
    rfl
  · split
    · left
      rw [pace_endBefore, hp]
      rfl
    · split
      · -- a page that brought nothing new
        rename_i hzero
        have hset' : (n.upd k.sess fun s => { s with
            historyCatchupStaleCount := s.historyCatchupStaleCount + 1 }).pace k.sess =
            p.paged k.unsolicited (p.retrieved + k.msgCount) (p.stale + 1) := by
          rw [← hstaleOf]
          exact hset fun s => s.historyCatchupStaleCount + 1
        split
        · left
          rw [pace_endBefore, pace_upd_same (by intro s; rfl), hset']
          rfl
        · rename_i hlt
          have hlt' : p.stale + 1 < 3 := by
            simp [Net.upd, hstaleOf] at hlt
            omega
          exact hgo _ _ (by omega) hset' (.inr ⟨by omega, rfl, hlt'⟩)
      · rename_i hne
        exact hgo _ 0 (Int.le_refl 0) (hset fun _ => 0) (.inl (by omega))

/-! ### The whole of `finish_batch_processing` -/

/-- Only the completion of the request changes the pace. -/
theorem pace_settleBatch_eq (k : Chunk) (i : Nat) : (settleBatch n k).pace i =
    (if k.unsolicited then { n with serv := { n.serv with chathistoryFailStreak := 0 } }
      else chathistoryRequestComplete { n with serv := { n.serv with chathistoryFailStreak := 0 } } k.sess).pace i := by
  unfold settleBatch
  dsimp only
  generalize (if k.unsolicited = true then _ else _ : Net) = n'
  split_ifs
  · exact (pace_upd_same (by intro s; rfl) k.sess).trans (pace_upd_same (by intro s; rfl) k.sess)
  · exact pace_upd_same (by intro s; rfl) k.sess
  · exact pace_upd_same (by intro s; rfl) k.sess
  · rfl

theorem pace_settleBatch {k : Chunk} (hp : (n.pace k.sess).pending = none) :
    (settleBatch n k).pace k.sess = (n.pace k.sess).settled k.unsolicited := by
  have hserv : ({ n with serv := { n.serv with chathistoryFailStreak := 0 } } : Net).pace k.sess = n.pace k.sess := rfl
  rw [pace_settleBatch_eq]
  cases hu : k.unsolicited
  · rw [if_neg (by simp)]
    exact pace_complete hp
  · rfl

theorem pace_settleBatch_of_ne {k : Chunk} (hj : k.sess ≠ i) : (settleBatch n k).pace i = n.pace i := by
  rw [pace_settleBatch_eq]
  split
  · rfl
  · exact (requestComplete_queued _ k.sess).pace_of_ne hj

theorem finishLatest_within {k : Chunk} (h : (n.pace i).Within m) : ((finishLatest n k).pace i).Within m := by
  unfold finishLatest
  dsimp only
  apply checkWhenNonePending_within
  split_ifs <;> simpa using h

@[simp] theorem Pace.settled_isBefore (p : Pace) (unsolicited : Bool) :
    (p.settled unsolicited).isBefore = p.isBefore := by
  unfold Pace.settled
  split <;> rfl

@[simp] theorem Pace.settled_sent (p : Pace) (unsolicited : Bool) : (p.settled unsolicited).sent = p.sent := by
  unfold Pace.settled
  split <;> rfl

/-- A finished chunk of catch-up, in the BEFORE walk of its session. -/
theorem finishBatch_page {k : Chunk} (h : (n.pace k.sess).Sound) (hk : 0 ≤ k.msgCount) (hc : k.isCatchup = true)
    (hb : (n.pace k.sess).isBefore = true) :
    (finishBatchProcessing n k).pace k.sess = ((n.pace k.sess).settled k.unsolicited).ended ∨
      ∃ r s, (finishBatchProcessing n k).pace k.sess = (n.pace k.sess).paged k.unsolicited r s ∧
        r < CHATHISTORY_SANITY_LIMIT ∧ 0 ≤ s ∧
        ((n.pace k.sess).retrieved < r ∨ r = (n.pace k.sess).retrieved ∧ s = (n.pace k.sess).stale + 1 ∧ s < 3) := by
  have hset := pace_settleBatch (k := k) h.pending
  have hb' : ((settleBatch n k).heap k.sess).catchupIsBefore = true := by
    have : ((settleBatch n k).pace k.sess).isBefore = true := by rw [hset]; simpa using hb
    exact this
  unfold finishBatchProcessing
  dsimp only
  rw [if_pos hc, if_pos hb', finishBefore_eq]
  refine judgePage_cases hk h.stale ?_
  rw [pace_countPage, hset]
  unfold Pace.paged Pace.settled
  split <;> rfl

/-- A finished chunk of a session in catch-up is a page, ends the LATEST phase, or answered nothing. -/
theorem finishBatch_within {k : Chunk} (h : (n.pace i).Within m)
    (hk : k.sess = i → 0 ≤ k.msgCount ∧ (k.isCatchup = true ∨ k.unsolicited = true)) :
    ((finishBatchProcessing n k).pace i).Within m := by
  by_cases hj : k.sess = i
  · subst hj
    obtain ⟨hcount, hkind⟩ := hk rfl
    have hset := pace_settleBatch (k := k) h.1.pending
    by_cases hc : k.isCatchup = true
    · by_cases hb : (n.pace k.sess).isBefore = true
      · rcases finishBatch_page h.1 hcount hc hb with hend | ⟨r, s, hpage, hr, hs, hadv⟩
        · rw [hend]
          exact Pace.Within.ended (h.1.settled _) (by simpa using h.sent_le)
        · rw [hpage]
          exact h.page _ hb hr hs hadv
      · have hb' : ((settleBatch n k).heap k.sess).catchupIsBefore = false := by
          have : ((settleBatch n k).pace k.sess).isBefore = false := by rw [hset]; simpa using hb
          exact this
        unfold finishBatchProcessing
        dsimp only
        rw [if_pos hc, if_neg (by simp [hb'])]
        apply finishLatest_within
        rw [hset]
        exact h.settled _ (by simpa using hb)
    · have hu : k.unsolicited = true := by simpa [hc] using hkind
      unfold finishBatchProcessing
      dsimp only
      rw [if_neg hc, pace_finishPlain, hset, hu]
      exact h
  · have hset : ((settleBatch n k).pace i).Within m := by
      rw [pace_settleBatch_of_ne hj]
      exact h
    unfold finishBatchProcessing
    dsimp only
    split
    · split
      · rw [finishBefore_eq]
        apply judgePage_within_of_ne hj
        rw [pace_countPage_of_ne hj]
        exact hset
      · exact finishLatest_within hset
    · rw [pace_finishPlain]
      exact hset

/-! ### Empty batches and FAIL -/

theorem isMsgidRef_tsRef (ts : Int) : isMsgidRef (chathistoryTsRef ts) = false := by
  unfold chathistoryTsRef isMsgidRef
  split
  · decide
  · simp [String.toList_append, List.isPrefixOf]

/-- What answers a catch-up without rows: the catch-up ends, or the fallback by timestamp goes out. -/
def Pace.Ebbs (p p' : Pace) : Prop :=
  p' = p.answered.ended ∨ p.used = true ∧ ∃ req : Chreq, req.gapId = 0 ∧ req.usedMsgid = false ∧
    p' = p.answered.dispatched req

theorem Pace.Ebbs.within {p p' : Pace} (h : p.Ebbs p') (hw : p.Within m) (hip : p.inProgress = true) :
    p'.Within m := by
  rcases h with rfl | ⟨hused, req, hg, hu, rfl⟩
  · exact Pace.Within.ended hw.1.answered hw.sent_le
  · exact hw.fallback hg hu hip hused

/-- The fallback of a session whose request was just retired. -/
theorem requestLatest_ebbs {p : Pace} (h : p.Sound) (hp : n.pace i = p.answered) (hused : p.used = true) (ts limit : Int) :
    p.Ebbs ((chathistoryRequestLatest n i (some (chathistoryTsRef ts)) limit).pace i) := by
  obtain ⟨req, hg, hu, hreq⟩ := pace_requestLatest (n := n) (i := i) (some (chathistoryTsRef ts)) limit
    (by rw [hp]; rfl) (by rw [hp]; exact h.pending)
  rw [hreq, hp]
  exact .inr ⟨hused, req, hg, by rw [hu]; exact isMsgidRef_tsRef ts, rfl⟩

theorem pace_endTag {P : Prop} [Decidable P] :
    (if P then n.upd j fun s => { s with historyExhausted := true } else n).pace i = n.pace i := by
  split
  · exact pace_upd_same (by intro s; rfl) j
  · rfl

/-- An empty answer to a catch-up request. -/
theorem processEmpty_ebbs (h : (n.pace i).Sound) {b : Batch} {dir : Int} :
    (n.pace i).Ebbs ((processEmptyBatch n b i ⟨false, true, true, 0, dir⟩).pace i) := by
  unfold processEmptyBatch
  dsimp only
  generalize hn₁ : (if b.chathistoryEnd = true ∧ (0 : Int) = 0 ∧ false = false then
    n.upd i fun s => { s with historyExhausted := true } else n) = n₁
  have hp₁ : n₁.pace i = n.pace i := by rw [← hn₁]; exact pace_endTag
  have hp₂ : (chathistoryRequestComplete n₁ i).pace i = (n.pace i).answered := by
    rw [pace_complete (by rw [hp₁]; exact h.pending), hp₁]
  simp only [Int.lt_irrefl, Bool.false_eq_true, if_false, if_true]
  split
  · rename_i hretry
    refine requestLatest_ebbs h hp₂ ?_ _ _
    simp only [retriesEmpty, Bool.and_eq_true] at hretry
    exact hretry.1.2
  · left
    have hend : ((finishCatchup (chathistoryRequestComplete n₁ i) i).returnSlot i).pace i = (n.pace i).answered.ended := by
      rw [pace_returnSlot, pace_finishCatchup, hp₂]
    rw [pace_checkWhenNonePending_of_idle (by rw [hend]; rfl), hend]

theorem pace_requestGapFill_of_ne (hj : j ≠ i) (gapId dir : Int) :
    (chathistoryRequestGapFill n j gapId dir).2.pace i = n.pace i := by
  have hsub : ∀ (g : Gap) (ok : Bool) (n' : Net), chathistorySubmit n j (gapRequest n g gapId dir) = (ok, n') →
      n'.pace i = n.pace i := by
    intro g ok n' h
    have := (submit_queued n j (gapRequest n g gapId dir)).pace_of_ne hj
    rwa [h] at this
  unfold chathistoryRequestGapFill
  repeat' split
  all_goals first
    | rfl
    | exact hsub _ _ _ (by assumption)
    | exact (pace_store _).trans (hsub _ _ _ (by assumption))

theorem pace_gapFillRetry_of_ne (hj : j ≠ i) (gapId dir : Int) :
    (gapFillRetryWithTimestamps n j gapId dir).2.pace i = n.pace i := by
  unfold gapFillRetryWithTimestamps
  split
  · rfl
  · split
    · rfl
    · dsimp only
      split
      · exact pace_requestGapFill_of_ne hj gapId dir
      · rfl

theorem processEmpty_within_of_ne (hj : j ≠ i) (h : (n.pace i).Within m) {b : Batch} (sh : Shape) :
    ((processEmptyBatch n b j sh).pace i).Within m := by
  unfold processEmptyBatch
  dsimp only
  generalize hn₁ : (if b.chathistoryEnd = true ∧ sh.gapId = 0 ∧ sh.unsolicited = false then
    n.upd j fun s => { s with historyExhausted := true } else n) = n₁
  have hp₁ : n₁.pace i = n.pace i := by rw [← hn₁]; exact pace_endTag
  generalize hn₂ : (if sh.unsolicited = true then n₁ else chathistoryRequestComplete n₁ j) = n₂
  have hp₂ : n₂.pace i = n.pace i := by
    rw [← hn₂]
    split
    · exact hp₁
    · rw [(requestComplete_queued n₁ j).pace_of_ne hj, hp₁]
  split
  · split
    · rw [pace_gapFillRetry_of_ne hj, hp₂]
      exact h
    · rw [pace_store, pace_gapFillRetry_of_ne hj, hp₂]
      exact h
  · split
    · split
      · rw [(requestLatest_queued n₂ j _ _).pace_of_ne hj, hp₂]
        exact h
      · apply checkWhenNonePending_within
        split
        · rw [pace_returnSlot, pace_finishCatchup_of_ne hj, hp₂]
          exact h
        · rw [pace_finishCatchup_of_ne hj, hp₂]
          exact h
    · split
      · rw [hp₂]
        exact h
      · rw [pace_upd_of_ne hj, hp₂]
        exact h

/-- A session that may send less costs less. -/
theorem Pace.Within.mute {p : Pace} (h : p.Within m) {c : Bool} (hc : c = true → p.canSend = true) :
    ({ p with canSend := c } : Pace).Within m := by
  refine ⟨⟨h.1.pending, h.1.gap, h.1.loading, h.1.retrieved, h.1.stale, h.1.known⟩, ?_⟩
  have hm := h.2
  cases c
  · have := h.sent_le
    simpa [Pace.cost] using this
  · rw [← hc rfl]
    exact hm

theorem pace_brakes (latched : Bool) : ∃ c : Bool, (c = true → (n.pace i).canSend = true) ∧
    (c = true ↔ (n.pace i).canSend = true ∧ (failBrakes n.serv latched).chathistorySuppressed = false) ∧
    ({ n with serv := failBrakes n.serv latched } : Net).pace i = { n.pace i with canSend := c } := by
  refine ⟨dispatchable { n with serv := failBrakes n.serv latched } i, ?_, ?_, rfl⟩
  · simp only [dispatchable, failBrakes, Net.pace, Bool.and_eq_true, Bool.not_eq_true', Bool.or_eq_false_iff]
    tauto
  · simp only [dispatchable, failBrakes, Net.pace, Bool.and_eq_true, Bool.not_eq_true', Bool.or_eq_false_iff]
    tauto

/-- A FAIL for a session in catch-up: the catch-up ends, or the fallback goes out where the server still
takes requests. -/
theorem failCatchup_ebbs {p : Pace} (h : p.Sound) (hp : n.pace i = p.answered) (wasLatest : Bool) :
    p.Ebbs ((failCatchup n i p.used wasLatest).pace i) ∧
      (n.serv.chathistorySuppressed = true → (failCatchup n i p.used wasLatest).pace i = p.answered.ended) := by
  unfold failCatchup
  split
  · rename_i hretry
    exact ⟨requestLatest_ebbs h hp hretry.2.1 _ _, fun hs => absurd hretry.1 (by simp [hs])⟩
  · suffices hmain : (checkWhenNonePending (finishCatchup (if wasLatest = true then n.returnSlot i else n) i)).pace i =
        p.answered.ended from ⟨.inl hmain, fun _ => hmain⟩
    have hend : (finishCatchup (if wasLatest = true then n.returnSlot i else n) i).pace i = p.answered.ended := by
      rw [pace_finishCatchup]
      cases wasLatest <;> simp [hp]
    rw [pace_checkWhenNonePending_of_idle (by rw [hend]; rfl), hend]

/-- The FAIL of a session in catch-up, with the brakes it puts on. -/
theorem handleFail_ebbs (h : (n.pace i).Sound) (hip : (n.pace i).inProgress = true) (code : String)
    {context : String} (hf : failSession n context = some i) : ∃ c : Bool, (c = true → (n.pace i).canSend = true) ∧
      ({ n.pace i with canSend := c } : Pace).Ebbs ((chathistoryHandleFail n code context).pace i) ∧
      ((n.pace i).canSend = true → c = false → ((chathistoryHandleFail n code context).pace i).inProgress = false) := by
  have hgap : ((n.heap i).chActive.map (·.gapId)).getD 0 = 0 := by
    cases ha : (n.heap i).chActive with
    | none => rfl
    | some req => simpa using h.gap req ha
  unfold chathistoryHandleFail
  simp only [hf, hgap, Int.lt_irrefl, if_false]
  generalize (decide (((n.heap i).chActive.map (·.type)).getD ReqType.latest = .between) &&
    betweenUnsupportedCode code) = latched
  obtain ⟨c, hc, hmute, hbr⟩ := pace_brakes (n := n) (i := i) latched
  refine ⟨c, hc, ?_⟩
  have hsound : ({ n.pace i with canSend := c } : Pace).Sound :=
    ⟨h.pending, h.gap, h.loading, h.retrieved, h.stale, h.known⟩
  have hp₂ : (chathistoryRequestComplete { n with serv := failBrakes n.serv latched } i).pace i =
      ({ n.pace i with canSend := c } : Pace).answered := by
    rw [pace_complete (by rw [hbr]; exact h.pending), hbr]
  rw [if_pos (show ((chathistoryRequestComplete { n with serv := failBrakes n.serv latched } i).heap i).catchupInProgress
    = true from (congrArg Pace.inProgress hp₂).trans hip)]
  have hfail := failCatchup_ebbs (p := { n.pace i with canSend := c }) hsound hp₂
    ((n.heap i).catchupInProgress && !(n.heap i).catchupIsBefore)
  refine ⟨hfail.1, fun hcan hoff => ?_⟩
  have hsup : (failBrakes n.serv latched).chathistorySuppressed = true := by
    by_contra hs
    exact absurd (hmute.2 ⟨hcan, by simpa using hs⟩) (by simp [hoff])
  have hserv : (chathistoryRequestComplete { n with serv := failBrakes n.serv latched } i).serv =
      failBrakes n.serv latched := (requestComplete_queued _ i).serv
  exact congrArg Pace.inProgress (hfail.2 (by rw [hserv]; exact hsup))

theorem failGap_within_of_ne (hj : j ≠ i) (h : (n.pace i).Within m) (gapId dir : Int) (latched : Bool) :
    ((failGap n j gapId dir latched).pace i).Within m := by
  unfold failGap
  dsimp only
  generalize hr : (if latched = true then (false, n) else gapFillRetryWithTimestamps n j gapId dir) = r
  have hp : r.2.pace i = n.pace i := by
    rw [← hr]
    split
    · rfl
    · exact pace_gapFillRetry_of_ne hj gapId dir
  split
  · rw [hp]
    exact h
  · rw [pace_store, hp]
    exact h

theorem failCatchup_within_of_ne (hj : j ≠ i) (h : (n.pace i).Within m) (used wasLatest : Bool) :
    ((failCatchup n j used wasLatest).pace i).Within m := by
  unfold failCatchup
  split
  · rw [(requestLatest_queued n j _ _).pace_of_ne hj]
    exact h
  · apply checkWhenNonePending_within
    rw [pace_finishCatchup_of_ne hj]
    split
    · rw [pace_returnSlot]
      exact h
    · exact h

theorem handleFail_within (h : (n.pace i).Within m) (hip : (n.pace i).inProgress = true) (code context : String) :
    ((chathistoryHandleFail n code context).pace i).Within m := by
  cases hf : failSession n context with
  | none =>
    unfold chathistoryHandleFail
    rw [hf]
    exact h
  | some j =>
    by_cases hj : j = i
    · subst hj
      obtain ⟨c, hc, hebb, -⟩ := handleFail_ebbs h.1 hip code hf
      exact hebb.within (h.mute hc) hip
    · unfold chathistoryHandleFail
      simp only [hf]
      generalize (decide (((n.heap j).chActive.map (·.type)).getD ReqType.latest = .between) &&
        betweenUnsupportedCode code) = latched
      obtain ⟨c, hc, -, hbr⟩ := pace_brakes (n := n) (i := i) latched
      have hp : ((chathistoryRequestComplete { n with serv := failBrakes n.serv latched } j).pace i).Within m := by
        rw [(requestComplete_queued _ j).pace_of_ne hj, hbr]
        exact h.mute hc
      split
      · exact failGap_within_of_ne hj hp _ _ _
      · split
        · exact failCatchup_within_of_ne hj hp _ _
        · exact hp

end Operations

/-! ## Events -/

/-- The chunk is a page of catch-up, or answers no request. -/
def Chunk.Paced (k : Chunk) : Prop := 0 ≤ k.msgCount ∧ (k.isCatchup = true ∨ k.unsolicited = true)

/-- The chunks of a session. -/
def Client.Paced (i : Nat) (c : Client) : Prop := ∀ k ∈ c.chunks, k.sess = i → k.Paced

section Events

variable {n : Net} {c : Client} {i j m : Nat}

theorem chunkLoop_msgCount (r : Nat) (c : Client) (k : Chunk) (h : 0 ≤ k.msgCount) :
    0 ≤ (chunkLoop r c k).2.msgCount := by
  induction r generalizing c k with
  | zero => exact h
  | succ r ih =>
    unfold chunkLoop
    split
    · exact h
    · apply ih
      unfold Chunk.note
      dsimp only
      split <;> omega

/-- A pass of the loop keeps a chunk what it is. -/
theorem processChunkMessages_paced {k : Chunk} (h : k.Paced) : (processChunkMessages c k).2.Paced := by
  refine ⟨chunkLoop_msgCount _ c k h.1, ?_⟩
  obtain ⟨_, _, _, hk⟩ := (processChunkMessages_run c k).chunk
  rw [hk]
  exact h.2

@[simp] theorem pace_processChunkMessages (c : Client) (k : Chunk) :
    (processChunkMessages c k).1.net.pace i = c.net.pace i := pace_chunkLoop _ c k

/-- A chunk that is read to its end. -/
theorem finishAfterLoop_within {k : Chunk} (h : (c.net.pace i).Within m) (hk : k.sess = i → k.Paced) :
    ((finishBatchProcessing (processChunkMessages c k).1.net (processChunkMessages c k).2).pace i).Within m := by
  apply finishBatch_within
  · rw [pace_processChunkMessages]
    exact h
  · intro hs
    rw [(processChunkMessages_run c k).sess] at hs
    exact processChunkMessages_paced (hk hs)

theorem pace_enterLatest_of_ne (hj : j ≠ i) : (catchupEnterLatestPhase n j).pace i = n.pace i := by
  unfold catchupEnterLatestPhase
  dsimp only
  rw [pace_upd_of_ne hj, pace_refreshNewest]

theorem pace_batchShape_of_ne (hj : j ≠ i) (b : Batch) : (batchShape n b j).2.pace i = n.pace i := by
  cases hu : chathistoryBatchIsUnsolicited n b j
  · obtain ⟨dir, hsh⟩ := batchShape_solicited hu
    rw [hsh]
  · obtain ⟨dir, hsh⟩ := batchShape_unsolicited hu
    rw [hsh]
    dsimp only
    split
    · rw [pace_takeSlot, pace_enterLatest_of_ne hj]
    · rfl

/-- The lookup of a batch's session opens at most a dialog of its own. -/
theorem batchSession_within (h : (n.pace i).Within m) (b : Batch) : ((batchSession n b).2.pace i).Within m ∧
    ((batchSession n b).2.pace i).inProgress = (n.pace i).inProgress ∧
    ((batchSession n b).1 = some i → (batchSession n b).2 = n) := by
  unfold batchSession
  split
  · exact ⟨h, rfl, by simp⟩
  · split
    · exact ⟨h, rfl, fun _ => rfl⟩
    · split
      · refine ⟨pace_newIrcwindow_within h _, ?_, ?_⟩
        · dsimp only
          rw [pace_newIrcwindow h.1]
        · intro he
          have hnew : n.nextSess = i := by simpa [newIrcwindow] using he
          have := h.1.known
          exact absurd hnew (Nat.ne_of_gt this)
      · exact ⟨h, rfl, by simp⟩

theorem processMessages_within (h : (c.net.pace i).Within m) (hc : c.Paced i) (b : Batch) {sh : Shape}
    (hsh : j = i → sh.isCatchup = true ∨ sh.unsolicited = true) :
    ((processMessages c b j sh).net.pace i).Within m ∧ (processMessages c b j sh).Paced i := by
  have hk : (newChunk c.net b j c.nextChunk sh).sess = i → (newChunk c.net b j c.nextChunk sh).Paced :=
    fun hs => ⟨Int.le_refl 0, hsh hs⟩
  unfold processMessages
  dsimp only
  split
  · refine ⟨finishAfterLoop_within (c := { c with nextChunk := c.nextChunk + 1 }) h hk, ?_⟩
    intro k hk'
    have := (processChunkMessages_run { c with nextChunk := c.nextChunk + 1 }
      (newChunk c.net b j c.nextChunk sh)).chunks
    exact hc k (this ▸ hk')
  · refine ⟨h, ?_⟩
    intro k hk'
    rcases List.mem_cons.1 hk' with rfl | hk'
    · exact hk
    · exact hc k hk'

/-- In a session in catch-up a batch answers the catch-up, or no request. -/
theorem batchShape_inProgress (h : (n.pace i).Sound) (hip : (n.pace i).inProgress = true) (b : Batch) :
    ∃ dir, batchShape n b i = (⟨false, true, true, 0, dir⟩, n) ∨ batchShape n b i = (⟨true, false, false, 0, dir⟩, n) := by
  have hip' : (n.heap i).catchupInProgress = true := hip
  cases hu : chathistoryBatchIsUnsolicited n b i
  · obtain ⟨dir, hsh⟩ := batchShape_solicited hu
    have hgap : activeGap (n.heap i) = 0 := by
      unfold activeGap
      cases ha : (n.heap i).chActive with
      | none => rfl
      | some req => simpa using h.gap req ha
    refine ⟨dir, .inl ?_⟩
    rw [hsh, hgap, hip']
    rfl
  · obtain ⟨dir, hsh⟩ := batchShape_unsolicited hu
    have had : adopts n i = false := by simp [adopts, hip']
    refine ⟨dir, .inr ?_⟩
    rw [hsh, had]
    rfl

theorem processBatch_within (h : (c.net.pace i).Within m) (hc : c.Paced i) (hip : (c.net.pace i).inProgress = true)
    (b : Batch) :
    ((chathistoryProcessBatch c b).net.pace i).Within m ∧ (chathistoryProcessBatch c b).Paced i := by
  obtain ⟨hw, hip', hself⟩ := batchSession_within h b
  unfold chathistoryProcessBatch
  split
  · rename_i net hb
    rw [hb] at hw
    exact ⟨hw, hc⟩
  · rename_i j net hb
    rw [hb] at hw hip' hself
    dsimp only at hw hip' hself ⊢
    rw [hip] at hip'
    by_cases hj : j = i
    · subst hj
      obtain rfl := hself rfl
      obtain ⟨dir, hsh | hsh⟩ := batchShape_inProgress hw.1 hip' b
      · rw [hsh]
        dsimp only
        split
        · exact ⟨(processEmpty_ebbs hw.1).within hw hip', hc⟩
        · exact processMessages_within h hc b fun _ => .inl rfl
      · rw [hsh]
        dsimp only
        split
        · rw [processEmpty_unsolicited]
          exact ⟨hw, hc⟩
        · exact processMessages_within h hc b fun _ => .inr rfl
    · have hp := pace_batchShape_of_ne (n := net) hj b
      split
      · refine ⟨processEmpty_within_of_ne hj ?_ _, hc⟩
        rw [hp]
        exact hw
      · refine processMessages_within (c := { c with net := (batchShape net b j).2 }) ?_ hc b fun he => absurd he hj
        dsimp only
        rw [hp]
        exact hw

theorem chunkIdle_within {k : Chunk} (h : (c.net.pace i).Within m) (hc : c.Paced i) (hk : k ∈ c.chunks) :
    ((chunkIdleCb c k).net.pace i).Within m ∧ (chunkIdleCb c k).Paced i := by
  have hchunks := (processChunkMessages_run c k).chunks
  unfold chunkIdleCb
  split
  · unfold Client.releaseLatestSlot
    split
    · refine ⟨?_, fun k' hk' => hc k' (List.mem_of_mem_filter hk')⟩
      show ((c.net.returnSlot k.sess).pace i).Within m
      rw [pace_returnSlot]
      exact h
    · exact ⟨h, fun k' hk' => hc k' (List.mem_of_mem_filter hk')⟩
  · dsimp only
    split
    · refine ⟨finishAfterLoop_within h fun hs => hc k hk hs, fun k' hk' => ?_⟩
      have hk' : k' ∈ (processChunkMessages c k).1.chunks := List.mem_of_mem_filter hk'
      exact hc k' (hchunks ▸ hk')
    · refine ⟨?_, ?_⟩
      · show (((processChunkMessages c k).1).net.pace i).Within m
        rw [pace_processChunkMessages]
        exact h
      · intro k' hk' hs
        obtain ⟨k₀, hk₀, rfl⟩ := List.mem_map.1 hk'
        rw [hchunks] at hk₀
        split at hs
        · rw [if_pos ‹_›]
          rw [(processChunkMessages_run c k).sess] at hs
          exact processChunkMessages_paced (hc k hk hs)
        · rw [if_neg ‹_›]
          exact hc k₀ hk₀ hs

theorem pace_startCatchup_of_ne (hj : j ≠ i) : (chathistoryStartCatchup n j).pace i = n.pace i := by
  unfold chathistoryStartCatchup
  dsimp only
  split
  · rfl
  · split
    · rfl
    · unfold requestLatestSinceStored
      rw [(requestLatest_queued _ j _ _).pace_of_ne hj, pace_upd_of_ne hj]

theorem startCatchup_of_inProgress (h : (n.pace i).inProgress = true) : chathistoryStartCatchup n i = n := by
  have h' : (n.heap i).catchupInProgress = true := h
  unfold chathistoryStartCatchup
  simp [h']

theorem targetsLine_within (h : (n.pace i).Within m) (hip : (n.pace i).inProgress = true) (msg : BatchMessage) :
    ((processTargetsLine n msg).pace i).Within m ∧ ((processTargetsLine n msg).pace i).inProgress = true := by
  unfold processTargetsLine
  split
  · exact ⟨h, hip⟩
  · rename_i target _
    split
    · rename_i j _
      by_cases hj : j = i
      · subst hj
        rw [startCatchup_of_inProgress hip]
        exact ⟨h, hip⟩
      · rw [pace_startCatchup_of_ne hj]
        exact ⟨h, hip⟩
    · have hj : (newIrcwindow n target).1 ≠ i := Nat.ne_of_gt h.1.known
      dsimp only
      rw [pace_startCatchup_of_ne hj]
      refine ⟨pace_newIrcwindow_within h target, ?_⟩
      rw [pace_newIrcwindow h.1]
      exact hip

theorem targetsBatch_within (messages : List BatchMessage) (h : (n.pace i).Within m)
    (hip : (n.pace i).inProgress = true) : ((chathistoryProcessTargetsBatch n messages).pace i).Within m := by
  unfold chathistoryProcessTargetsBatch
  induction messages generalizing n with
  | nil => exact h
  | cons msg messages ih =>
    obtain ⟨h', hip'⟩ := targetsLine_within h hip msg
    exact ih h' hip'

theorem pace_sendTargets : (sendReconnectTargetsRequest n).pace i = n.pace i := by
  unfold sendReconnectTargetsRequest chathistoryRequestTargets
  split_ifs
  · rfl
  · rfl
  · rfl
  · simp [Net.pace, Net.send, Net.sentFor, dispatchable]

theorem pace_deferredReset : (deferredReset n).pace i = n.pace i := by
  unfold deferredReset
  dsimp only
  split
  · exact (pace_sendTargets (n := { n with serv := { n.serv with chathistoryTargetsDeferred := false } }))
  · rfl

theorem pace_sendDeferredLatest_of_ne (hj : j ≠ i) : (sendDeferredLatest n j).pace i = n.pace i := by
  unfold sendDeferredLatest
  dsimp only
  split
  · rfl
  · split
    · rfl
    · unfold requestLatestSinceStored
      rw [pace_takeSlot, (requestLatest_queued _ j _ _).pace_of_ne hj, pace_enterLatest_of_ne hj]

theorem sendDeferredLatest_of_inProgress (h : (n.pace i).inProgress = true) : sendDeferredLatest n i = n := by
  have h' : (n.heap i).catchupInProgress = true := h
  unfold sendDeferredLatest
  simp [h']

/-- The deferred start passes over a session in catch-up. -/
theorem pace_fanOut_of_inProgress (is : List Nat) (h : (n.pace i).inProgress = true) :
    (is.foldl sendDeferredLatest n).pace i = n.pace i := by
  induction is generalizing n with
  | nil => rfl
  | cons j is ih =>
    by_cases hj : j = i
    · subst hj
      rw [List.foldl_cons, sendDeferredLatest_of_inProgress h]
      exact ih h
    · rw [List.foldl_cons, ih (by rw [pace_sendDeferredLatest_of_ne hj]; exact h), pace_sendDeferredLatest_of_ne hj]

/-- The event submits no history request of its own for the session, and does not discard the session's
chunks. -/
def AsksNothing (i : Nat) : Event → Prop
  | .requestOlder j => j ≠ i
  | .requestGapFill j _ _ => j ≠ i
  | .requestLatest j _ => j ≠ i
  | .backgroundTimer j => j ≠ i
  | .cancelChunk j => j ≠ i
  | _ => True

instance (i : Nat) (e : Event) : Decidable (AsksNothing i e) :=
  match e with
  | .requestOlder _ | .requestGapFill _ _ _ | .requestLatest _ _ | .backgroundTimer _ | .cancelChunk _ =>
    inferInstanceAs (Decidable (_ ≠ _))
  | .scheduleDeferred | .deferredStart | .targetsOnReconnect | .targetsBatch _ | .batch _ | .openBatch _ _
  | .closeBatch _ | .fail _ _ | .chunkTick _ | .tabSwitch _ | .beforeTimer | .live _ _ _ _ | .clock _ =>
    .isTrue trivial

theorem pace_requestOlder_of_ne (hj : j ≠ i) : (chathistoryRequestOlder n j).pace i = n.pace i := by
  unfold chathistoryRequestOlder
  dsimp only
  split
  · rfl
  · split
    · rfl
    · exact (submit_queued n j _).pace_of_ne hj

theorem pace_backgroundTimer_of_ne (hj : j ≠ i) : (backgroundHistoryTimerCb n j).pace i = n.pace i := by
  have htimer := pace_upd_of_ne (n := n) hj fun s => { s with backgroundHistoryTimer := false }
  unfold backgroundHistoryTimerCb
  dsimp only
  split
  · exact htimer
  · split
    · rw [pace_upd_of_ne hj]
      exact htimer
    · split
      · rw [(requestBeforeMsgid_queued _ j _ _).pace_of_ne hj]
        exact htimer
      · rw [pace_upd_of_ne hj]
        exact htimer

theorem netStep_within (h : (n.pace i).Within m) (hip : (n.pace i).inProgress = true) {e : Event} (hq : AsksNothing i e) :
    ((netStep n e).pace i).Within m := by
  cases e
  case scheduleDeferred =>
    simp only [netStep, chathistoryScheduleDeferred]
    split <;> exact h
  case deferredStart =>
    simp only [netStep, chathistoryDeferredStartCb]
    split
    · split
      · have hreset := pace_deferredReset (n := { n with serv := { n.serv with chathistoryStartTimer := false } })
          (i := i)
        rw [pace_fanOut_of_inProgress _ (by rw [hreset]; exact hip), hreset]
        exact h
      · exact h
    · exact h
  case targetsOnReconnect =>
    simp only [netStep, chathistoryRequestTargetsOnReconnect]
    split
    · exact h
    · rw [pace_sendTargets]
      exact h
  case targetsBatch messages => exact targetsBatch_within messages h hip
  case requestOlder j =>
    simp only [netStep]
    split
    · rw [pace_requestOlder_of_ne hq]
      exact h
    · exact h
  case requestGapFill j gapId dir =>
    simp only [netStep]
    split
    · rw [pace_requestGapFill_of_ne hq]
      exact h
    · exact h
  case requestLatest j limit =>
    simp only [netStep]
    split
    · rw [(requestLatest_queued n j _ _).pace_of_ne hq]
      exact h
    · exact h
  case openBatch id type =>
    simp only [netStep, chathistoryReplayWrapperBegin]
    repeat' split
    all_goals exact h
  case closeBatch id =>
    simp only [netStep]
    show (Net.pace (if _ then _ else n) i).Within m
    split
    · exact checkWhenNonePending_within h
    · exact h
  case fail code context => exact handleFail_within h hip code context
  case tabSwitch j =>
    simp only [netStep, chathistoryNotifyTabSwitch]
    repeat' split
    · exact h
    · exact check_within (n := { n with currentSess := some j }) h
    · exact h
    · exact h
  case beforeTimer =>
    simp only [netStep, chathistoryBeforeTimerCb]
    repeat' split
    · exact check_within (n := { n with serv := { n.serv with chathistoryBeforeTimer := false } }) h
    · exact h
    · exact h
  case backgroundTimer j =>
    simp only [netStep]
    split
    · rw [pace_backgroundTimer_of_ne hq]
      exact h
    · exact h
  case live j msgid ts ops =>
    simp only [netStep]
    split
    · rw [pace_track, pace_store]
      exact h
    · exact h
  all_goals exact h

/-- **One event of a catch-up** raises no price. -/
theorem step_within (h : (c.net.pace i).Within m) (hc : c.Paced i) (hip : (c.net.pace i).inProgress = true)
    {e : Event} (hq : AsksNothing i e) : ((step c e).net.pace i).Within m ∧ (step c e).Paced i := by
  have hnet : ((netStep c.net e).pace i).Within m := netStep_within h hip hq
  cases e
  case batch b => exact processBatch_within h hc hip b
  case chunkTick id =>
    simp only [step]
    split
    · rename_i k hk
      exact chunkIdle_within h hc (List.mem_of_find?_eq_some hk)
    · exact ⟨h, hc⟩
  case cancelChunk j =>
    simp only [step, chathistoryCancelChunkProcessing]
    split
    · exact ⟨h, hc⟩
    · rename_i k _
      refine ⟨?_, fun k' hk' => hc k' (List.mem_of_mem_filter (p := fun k' => decide (k'.id ≠ k.id)) ?_)⟩
      · have hp : ((chathistoryQueueFree c.net j).pace i).Within m := by
          rw [(queueFree_queued c.net j).pace_of_ne hq]
          exact h
        unfold Client.releaseLatestSlot
        split
        · show (((chathistoryQueueFree c.net j).returnSlot k.sess).pace i).Within m
          rw [pace_returnSlot]
          exact hp
        · exact hp
      · unfold Client.releaseLatestSlot at hk'
        split at hk' <;> exact hk'
  all_goals exact ⟨hnet, hc⟩

/-! ### The start of a catch-up -/

/-- The session is not in catch-up, no request of it is out, and no reply to one is being read. -/
structure Client.Rests (i : Nat) (c : Client) : Prop where
  idle : (c.net.heap i).catchupInProgress = false
  active : (c.net.heap i).chActive = none
  pending : (c.net.heap i).chPending = none
  loading : (c.net.heap i).historyLoading = false
  retrieved : 0 ≤ (c.net.heap i).historyCatchupRetrieved
  stale : 0 ≤ (c.net.heap i).historyCatchupStaleCount
  known : i < c.net.nextSess
  chunks : c.Paced i

theorem Client.Rests.sound (h : c.Rests i) : (c.net.pace i).Sound where
  pending := h.pending
  gap := fun req hreq => absurd (hreq.symm.trans h.active) (by simp)
  loading := by
    show (c.net.heap i).historyLoading = (c.net.heap i).chActive.isSome
    rw [h.loading, h.active]
    rfl
  retrieved := h.retrieved
  stale := h.stale
  known := h.known

theorem pace_enterLatest : (catchupEnterLatestPhase n i).pace i =
    { n.pace i with inProgress := true, isBefore := false } := by
  have hp := pace_refreshNewest (n := n) (i := i) (j := i)
  unfold catchupEnterLatestPhase
  dsimp only
  rw [← hp]
  generalize refreshNewest n i = n'
  have hname : ∀ (s : Session) (a b c : Int) (m : Option String), getTargetName { s with
      catchupPrevNewestTime := a
      catchupPrevNewestMsgid := m
      catchupGapId := b
      catchupInProgress := true
      catchupIsBefore := false
      catchupLowerBound := c } = getTargetName s := fun _ _ _ _ _ => rfl
  simp [Net.pace, Net.upd, Net.sentFor, dispatchable, hname]

/-- A session that enters its LATEST phase is within the bound, also with its LATEST request. -/
theorem Pace.Sound.enter {p : Pace} (h : p.Sound) :
    ({ p with inProgress := true, isBefore := false } : Pace).Within (p.sent + commandBound CHATHISTORY_SANITY_LIMIT) ∧
    ∀ req : Chreq, req.gapId = 0 → (({ p with inProgress := true, isBefore := false } : Pace).dispatched req).Within
      (p.sent + commandBound CHATHISTORY_SANITY_LIMIT) := by
  have hs : ({ p with inProgress := true, isBefore := false } : Pace).Sound :=
    ⟨h.pending, h.gap, h.loading, h.retrieved, h.stale, h.known⟩
  refine ⟨⟨hs, ?_⟩, fun req hg => ⟨hs.dispatched hg, ?_⟩⟩
  · have := hs.cost_lt
    exact Nat.add_le_add_left (Nat.le_of_lt this) _
  · have hcost := (hs.dispatched hg).cost_lt
    have hsent : (({ p with inProgress := true, isBefore := false } : Pace).dispatched req).sent ≤ p.sent + 1 := by
      unfold Pace.dispatched
      split
      · exact Nat.le_refl _
      · exact Nat.le_succ _
    omega

theorem sendDeferredLatest_enters (h : (n.pace i).Sound) (ha : (n.pace i).active = none) :
    (sendDeferredLatest n i).pace i = n.pace i ∨
      ((sendDeferredLatest n i).pace i).Within ((n.pace i).sent + commandBound CHATHISTORY_SANITY_LIMIT) ∧
        ((sendDeferredLatest n i).pace i).inProgress = true := by
  unfold sendDeferredLatest
  dsimp only
  split
  · exact .inl rfl
  · split
    · exact .inl rfl
    · right
      obtain ⟨req, hg, -, hreq⟩ := pace_requestLatest (n := catchupEnterLatestPhase n i) (i := i)
        (if nonEmpty ((catchupEnterLatestPhase n i).heap i).scrollbackNewestMsgid then
          ((catchupEnterLatestPhase n i).heap i).scrollbackNewestMsgid.map ("msgid=" ++ ·)
        else if 0 < ((catchupEnterLatestPhase n i).heap i).scrollbackNewestTime then
          some (chathistoryTsRef ((catchupEnterLatestPhase n i).heap i).scrollbackNewestTime) else none)
        (catchupEnterLatestPhase n i).prefs.chathistoryLines
        (by rw [pace_enterLatest]; exact ha) (by rw [pace_enterLatest]; exact h.pending)
      have hpace : ((requestLatestSinceStored (catchupEnterLatestPhase n i) i).takeSlot i).pace i =
          (({ n.pace i with inProgress := true, isBefore := false } : Pace).dispatched req) := by
        rw [pace_takeSlot, ← pace_enterLatest]
        exact hreq
      rw [hpace]
      exact ⟨h.enter.2 req hg, by rw [Pace.dispatched_inProgress]⟩

theorem fanOut_enters (is : List Nat) (h : (n.pace i).Sound) (ha : (n.pace i).active = none) :
    (is.foldl sendDeferredLatest n).pace i = n.pace i ∨
      ((is.foldl sendDeferredLatest n).pace i).Within ((n.pace i).sent + commandBound CHATHISTORY_SANITY_LIMIT) := by
  induction is generalizing n with
  | nil => exact .inl rfl
  | cons j is ih =>
    rw [List.foldl_cons]
    by_cases hj : j = i
    · subst hj
      rcases sendDeferredLatest_enters h ha with hsame | ⟨hw, hip⟩
      · have := ih (n := sendDeferredLatest n j) (by rw [hsame]; exact h) (by rw [hsame]; exact ha)
        rwa [hsame] at this
      · rw [pace_fanOut_of_inProgress is hip]
        exact .inr hw
    · have hsame := pace_sendDeferredLatest_of_ne (n := n) hj
      have := ih (n := sendDeferredLatest n j) (by rw [hsame]; exact h) (by rw [hsame]; exact ha)
      rwa [hsame] at this

/-- The events that can enter the LATEST phase: the deferred start, and a batch the server sent unasked. -/
def Event.Enters : Event → Prop
  | .deferredStart => True
  | .batch _ => True
  | _ => False

instance (e : Event) : Decidable e.Enters :=
  match e with
  | .deferredStart | .batch _ => .isTrue trivial
  | .scheduleDeferred | .targetsOnReconnect | .targetsBatch _ | .requestOlder _ | .requestGapFill _ _ _
  | .requestLatest _ _ | .openBatch _ _ | .closeBatch _ | .fail _ _ | .chunkTick _ | .cancelChunk _ | .tabSwitch _
  | .beforeTimer | .backgroundTimer _ | .live _ _ _ _ | .clock _ => .isFalse id

/-- The bound on what a resting session will have sent when its catch-up is over. -/
def Client.bound (i : Nat) (c : Client) : Nat := c.net.sentFor i + commandBound CHATHISTORY_SANITY_LIMIT

theorem Client.Rests.within (h : c.Rests i) : (c.net.pace i).Within (c.bound i) := by
  have hcost := h.sound.cost_lt
  refine ⟨h.sound, ?_⟩
  show c.net.sentFor i + _ ≤ c.net.sentFor i + _
  omega

theorem deferredStart_within (h : c.Rests i) : ((netStep c.net .deferredStart).pace i).Within (c.bound i) := by
  simp only [netStep, chathistoryDeferredStartCb]
  split
  · split
    · have hreset := pace_deferredReset (n := { c.net with serv := { c.net.serv with chathistoryStartTimer := false } })
        (i := i)
      have hfan (is : List Nat) := fanOut_enters is (hreset.symm ▸ h.sound) (by rw [hreset]; exact h.active)
      rw [hreset] at hfan
      rcases hfan _ with hsame | hw
      · exact hsame ▸ h.within
      · exact hw
    · exact h.within
  · exact h.within

theorem batch_within_of_rests (h : c.Rests i) (b : Batch) :
    ((chathistoryProcessBatch c b).net.pace i).Within (c.bound i) ∧ (chathistoryProcessBatch c b).Paced i := by
  obtain ⟨hw, -, hself⟩ := batchSession_within h.within b
  unfold chathistoryProcessBatch
  split
  · rename_i net hb
    rw [hb] at hw
    exact ⟨hw, h.chunks⟩
  · rename_i j net hb
    rw [hb] at hw hself
    dsimp only at hw hself ⊢
    by_cases hj : j = i
    · subst hj
      obtain rfl := hself rfl
      -- nothing was asked, so the batch is adopted or shown as it is
      have hu : chathistoryBatchIsUnsolicited c.net b j = true := by
        simp [chathistoryBatchIsUnsolicited, h.active, h.loading]
      obtain ⟨dir, hsh⟩ := batchShape_unsolicited hu
      rw [hsh]
      dsimp only
      cases adopts c.net j
      · simp only [Bool.false_eq_true, if_false]
        split
        · rw [processEmpty_unsolicited]
          exact ⟨h.within, h.chunks⟩
        · exact processMessages_within h.within h.chunks b fun _ => .inr rfl
      · simp only [if_true]
        have hpace : ((catchupEnterLatestPhase c.net j).takeSlot j).pace j =
            { c.net.pace j with inProgress := true, isBefore := false } := by
          rw [pace_takeSlot, pace_enterLatest]
        have henter : (((catchupEnterLatestPhase c.net j).takeSlot j).pace j).Within (c.bound j) := by
          rw [hpace]
          exact h.sound.enter.1
        split
        · rw [processEmpty_unsolicited, if_pos rfl]
          refine ⟨checkWhenNonePending_within ?_, h.chunks⟩
          rw [pace_returnSlot, pace_finishCatchup]
          exact Pace.Within.ended henter.1 henter.sent_le
        · exact processMessages_within (c := { c with net := (catchupEnterLatestPhase c.net j).takeSlot j }) henter
            h.chunks b fun _ => .inr rfl
    · have hp := pace_batchShape_of_ne (n := net) hj b
      split
      · refine ⟨processEmpty_within_of_ne hj ?_ _, h.chunks⟩
        rw [hp]
        exact hw
      · refine processMessages_within (c := { c with net := (batchShape net b j).2 }) ?_ h.chunks b
          fun he => absurd he hj
        dsimp only
        rw [hp]
        exact hw

/-- **The start**: what may enter the catch-up of a session leaves it within the bound. -/
theorem enter_within (h : c.Rests i) {e : Event} (he : e.Enters) :
    ((step c e).net.pace i).Within (c.bound i) ∧ (step c e).Paced i := by
  cases e
  case deferredStart => exact ⟨deferredStart_within h, h.chunks⟩
  case batch b => exact batch_within_of_rests h b
  all_goals exact absurd he id

/-! ### Replies -/

/-- What a reply brings. -/
inductive Reply where
  | rows
  | empty
  | fail
  deriving DecidableEq

/-- The reply to the session's request that an event completes: a batch is complete when the last of its
messages is read. -/
def Client.replyTo (i : Nat) (c : Client) : Event → Option Reply
  | .batch b =>
    match batchSession c.net b with
    | (none, _) => none
    | (some j, net) =>
      if j ≠ i ∨ chathistoryBatchIsUnsolicited net b j then none
      else if b.messages = [] then some .empty
      else if (b.messages.filter fun msg => !msg.context).length ≤ CHATHISTORY_CHUNK_SIZE then some .rows
      else none
  | .chunkTick id =>
    match c.chunks.find? fun k => k.id = id with
    | none => none
    | some k =>
      if k.sess = i ∧ k.sess ∈ c.net.sessList ∧ k.unsolicited = false ∧
        k.remaining.length ≤ CHATHISTORY_CHUNK_SIZE then some .rows
      else none
  | .fail _ context => if failSession c.net context = some i then some .fail else none
  | _ => none

/-- The measure moves: messages retrieved, then pages without any, then the fallback. -/
def Pace.Advances (p p' : Pace) : Prop :=
  p.retrieved < p'.retrieved ∨ p.retrieved = p'.retrieved ∧
    (p.stale < p'.stale ∨ p.stale = p'.stale ∧ p.used = true ∧ p'.used = false)

instance (p p' : Pace) : Decidable (p.Advances p') := inferInstanceAs (Decidable (_ ∨ _ ∧ (_ ∨ _ ∧ _ ∧ _)))

/-- The LATEST phase is over: its request is answered, and what may follow is the BEFORE walk. -/
def Pace.Closes (p p' : Pace) : Prop := p.isBefore = false ∧ (p'.loading = false ∨ p'.isBefore = true)

/-- What a reply does to a catch-up. -/
def Pace.Moves (p p' : Pace) (r : Reply) : Prop :=
  p'.inProgress = false ∨ p.Advances p' ∨ r = .rows ∧ p.Closes p'

theorem Pace.Ebbs.moves {p p' : Pace} (h : p.Ebbs p') (hcan : p.canSend = true) (r : Reply) : p.Moves p' r := by
  rcases h with rfl | ⟨hused, req, -, hu, rfl⟩
  · exact .inl rfl
  · right
    left
    have hcan' : p.answered.canSend = true := hcan
    unfold Pace.dispatched
    rw [if_pos hcan']
    exact .inr ⟨rfl, .inr ⟨rfl, hused, hu⟩⟩

/-- The check for the next BEFORE target leaves a session that loads nothing as it is, or in its walk. -/
theorem check_closes (h : (n.pace i).Sound) (hl : (n.pace i).loading = false) :
    ((chathistoryCheckBeforeCatchup n).pace i).loading = false ∨
      ((chathistoryCheckBeforeCatchup n).pace i).isBefore = true := by
  unfold chathistoryCheckBeforeCatchup
  split
  · split
    · exact .inl hl
    · rename_i j _
      by_cases hj : j = i
      · subst hj
        rcases pace_startBefore h hl with hend | ⟨req, -, hreq⟩
        · left
          rw [hend]
          exact hl
        · right
          rw [hreq]
          unfold Pace.dispatched
          split <;> rfl
      · left
        rw [pace_startBefore_of_ne hj]
        exact hl
  · exact .inl hl

/-- A chunk that answers a catch-up request, when it is read to its end. -/
theorem finishBatch_moves {k : Chunk} (h : (n.pace k.sess).Sound) (hk : k.Paced) (hu : k.unsolicited = false) :
    (n.pace k.sess).Moves ((finishBatchProcessing n k).pace k.sess) .rows := by
  have hc : k.isCatchup = true := by simpa [hu] using hk.2
  by_cases hb : (n.pace k.sess).isBefore = true
  · rcases finishBatch_page h hk.1 hc hb with hend | ⟨r, s, hpage, -, -, hadv⟩
    · left
      rw [hend]
      rfl
    · right
      left
      rw [hpage]
      rcases hadv with hadv | ⟨hr, hs, -⟩
      · exact .inl hadv
      · refine .inr ⟨hr.symm, .inl ?_⟩
        show (n.pace k.sess).stale < s
        omega
  · have hb' : (n.pace k.sess).isBefore = false := by simpa using hb
    refine .inr (.inr ⟨rfl, hb', ?_⟩)
    have hset : (settleBatch n k).pace k.sess = (n.pace k.sess).answered := by
      rw [pace_settleBatch h.pending, hu]
      rfl
    have hsb : ((settleBatch n k).heap k.sess).catchupIsBefore = false := (congrArg Pace.isBefore hset).trans hb'
    unfold finishBatchProcessing finishLatest checkWhenNonePending
    dsimp only
    rw [if_pos hc, if_neg (by simp [hsb])]
    generalize hn' : (if k.latestOwned = true then
      (if witnesses (settleBatch n k) k = true then recordWitness (settleBatch n k) k else settleBatch n k).returnSlot
        k.sess
      else if witnesses (settleBatch n k) k = true then recordWitness (settleBatch n k) k else settleBatch n k) = n'
    have hp : n'.pace k.sess = (n.pace k.sess).answered := by
      rw [← hset, ← hn']
      split_ifs <;> simp
    split
    · exact check_closes (by rw [hp]; exact h.answered) (by rw [hp]; rfl)
    · left
      rw [hp]
      rfl

/-- The same, after the pass of the loop that reads its last messages. -/
theorem finishAfterLoop_moves {k : Chunk} (h : (c.net.pace k.sess).Sound) (hk : k.Paced) (hu : k.unsolicited = false) :
    (c.net.pace k.sess).Moves
      ((finishBatchProcessing (processChunkMessages c k).1.net (processChunkMessages c k).2).pace k.sess) .rows := by
  obtain ⟨_, _, _, hchunk⟩ := (processChunkMessages_run c k).chunk
  have hpaced := processChunkMessages_paced (c := c) hk
  have hpace := pace_processChunkMessages (i := k.sess) c k
  generalize (processChunkMessages c k).1 = c' at *
  generalize (processChunkMessages c k).2 = k' at *
  have hs : k'.sess = k.sess := by rw [hchunk]
  have hu' : k'.unsolicited = false := by rw [hchunk]; exact hu
  rw [← hs] at h hpace ⊢
  rw [← hpace] at h ⊢
  exact finishBatch_moves h hpaced hu'

theorem batch_moves (h : (c.net.pace i).Sound) (hip : (c.net.pace i).inProgress = true)
    (hcan : (c.net.pace i).canSend = true) {b : Batch} {r : Reply} (hr : c.replyTo i (.batch b) = some r) :
    (c.net.pace i).Moves ((chathistoryProcessBatch c b).net.pace i) r := by
  obtain ⟨-, -, hself⟩ := batchSession_within (m := (c.net.pace i).sent + (c.net.pace i).cost) ⟨h, Nat.le_refl _⟩ b
  unfold chathistoryProcessBatch
  simp only [Client.replyTo] at hr
  rcases hb : batchSession c.net b with ⟨_ | j, net⟩
  · rw [hb] at hr
    cases hr
  · rw [hb] at hr hself
    dsimp only at hr hself ⊢
    split at hr
    · cases hr
    · rename_i hcond
      obtain ⟨hj, hu⟩ := not_or.1 hcond
      obtain rfl := Classical.not_not.1 hj
      obtain rfl := hself rfl
      have hshape : ∃ dir, batchShape c.net b j = (⟨false, true, true, 0, dir⟩, c.net) := by
        obtain ⟨dir, hsh | hsh⟩ := batchShape_inProgress h hip b
        · exact ⟨dir, hsh⟩
        · have := batchShape_unsolicited_eq (n := c.net) (i := j) b
          rw [hsh] at this
          exact absurd this.symm hu
      obtain ⟨dir, hsh⟩ := hshape
      rw [hsh]
      dsimp only
      split at hr
      · cases hr
        rw [if_pos ‹_›]
        exact (processEmpty_ebbs h).moves hcan _
      · rw [if_neg ‹_›]
        split at hr
        · rename_i hle
          cases hr
          have hraw : (newChunk c.net b j c.nextChunk ⟨false, true, true, 0, dir⟩).rawCount ≤
              CHATHISTORY_CHUNK_SIZE := by
            rw [newChunk_rawCount]
            exact_mod_cast hle
          unfold processMessages
          dsimp only
          rw [if_pos hraw]
          exact finishAfterLoop_moves (c := { c with nextChunk := c.nextChunk + 1 })
            (k := newChunk c.net b j c.nextChunk ⟨false, true, true, 0, dir⟩) h ⟨Int.le_refl 0, .inl rfl⟩ rfl
        · cases hr

/-- **A reply moves the catch-up on**, while the session can send. -/
theorem step_moves (h : (c.net.pace i).Sound) (hc : c.Paced i) (hip : (c.net.pace i).inProgress = true)
    (hcan : (c.net.pace i).canSend = true) {e : Event} {r : Reply} (hr : c.replyTo i e = some r) :
    (c.net.pace i).Moves ((step c e).net.pace i) r := by
  cases e
  case batch b => exact batch_moves h hip hcan hr
  case chunkTick id =>
    simp only [Client.replyTo] at hr
    simp only [step]
    split at hr
    · cases hr
    · rename_i k hk
      rw [hk]
      split at hr
      · rename_i hcond
        obtain ⟨rfl, hmem, hu, hlen⟩ := hcond
        cases hr
        have hdone : (processChunkMessages c k).2.remaining = [] := by
          rw [(processChunkMessages_run c k).remaining]
          exact List.drop_eq_nil_of_le hlen
        simp only [chunkIdleCb, hmem, not_true, if_false, hdone, if_true]
        exact finishAfterLoop_moves h (hc k (List.mem_of_find?_eq_some hk) rfl) hu
      · cases hr
  case fail code context =>
    simp only [Client.replyTo] at hr
    split at hr
    · rename_i hf
      obtain ⟨c', hc', hebb, hoff⟩ := handleFail_ebbs h hip code hf
      cases hr
      cases c'
      · exact .inl (hoff hcan rfl)
      · exact Pace.Ebbs.moves (by rw [← hcan] at hebb; exact hebb) hcan _
    · cases hr
  all_goals cases hr

/-- **Automatic catch-up always ends**: from the event that enters the LATEST phase of a session on, as long
as the catch-up lasts and nothing else is asked for the session, the commands sent for it are bounded by
the limit alone, and every reply ends the catch-up, advances its measure, or brings rows to its LATEST
phase and closes that. -/
theorem catchup_bounded (h : c.Rests i) {e : Event} (he : e.Enters) {es : List Event}
    (hes : Along step (fun c e => AsksNothing i e ∧ (c.net.heap i).catchupInProgress = true) (step c e) es) :
    ((run c (e :: es)).net.sentFor i ≤ c.net.sentFor i + commandBound CHATHISTORY_SANITY_LIMIT) ∧
    Along step (fun c e => dispatchable c.net i = true → ∀ r, c.replyTo i e = some r →
      (c.net.pace i).Moves ((step c e).net.pace i) r) (step c e) es := by
  have hstart := enter_within h he
  have hstep : ∀ c' e', (c'.net.pace i).Within (c.bound i) ∧ c'.Paced i →
      AsksNothing i e' ∧ (c'.net.heap i).catchupInProgress = true →
      ((step c' e').net.pace i).Within (c.bound i) ∧ (step c' e').Paced i :=
    fun c' e' hI hok => step_within hI.1 hI.2 hok.2 hok.1
  constructor
  · have hend := hes.invariant (I := fun c' => (c'.net.pace i).Within (c.bound i) ∧ c'.Paced i) hstep hstart
    exact hend.1.sent_le
  · exact hes.imp (I := fun c' => (c'.net.pace i).Within (c.bound i) ∧ c'.Paced i) hstep
      (fun c' e' hI hok hcan r hr => step_moves hI.1.1 hI.2 hok.2 hcan hr) hstart

end Events

/-- A channel whose catch-up is about to start. -/
def dueChannel : Client := Client.start
  { Net.connected [{ type := .channel, channel := "#c" }] with
    serv := { (Net.connected []).serv with chathistoryStartTimer := true } }

theorem dueChannel_rests : dueChannel.Rests 0 :=
  ⟨rfl, rfl, rfl, rfl, by decide, by decide, by decide, fun _ hk => absurd hk (List.not_mem_nil)⟩

/-- Rows, a page with rows, a page that is known already, and an empty page, which ends the walk. -/
theorem catchup_bounded_four : (run dueChannel [.deferredStart, .batch (.plain [.line "d" 40]),
      .batch (.plain [.line "c" 30]), .beforeTimer, .batch (.plain [.line "c" 30]), .beforeTimer,
      .batch (.plain [])]).net.sentFor 0 ≤ 0 + commandBound CHATHISTORY_SANITY_LIMIT :=
  (catchup_bounded dueChannel_rests (e := .deferredStart) trivial (by decide)).1

/-- The first rows of a catch-up end nothing and are not counted. -/
theorem latest_rows_uncounted : ∃ c, c = step dueChannel .deferredStart ∧ dispatchable c.net 0 = true ∧
    c.replyTo 0 (.batch (.plain [.line "d" 40])) = some .rows ∧
    ((step c (.batch (.plain [.line "d" 40]))).net.heap 0).catchupInProgress = true ∧
    ¬ (c.net.pace 0).Advances ((step c (.batch (.plain [.line "d" 40]))).net.pace 0) := by
  refine ⟨_, rfl, ?_, ?_, ?_, ?_⟩ <;> decide

end PoxChat.ChatHistory
