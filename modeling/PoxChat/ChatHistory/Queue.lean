import PoxChat.ChatHistory.Delivery

/-!
# The request queue

`Queued` is all a queue operation does: it moves the four queue fields of its session and sends lines
for it.  Every request of the API is one.
-/

set_option autoImplicit false

namespace PoxChat.ChatHistory

open Lib Scrollback

/-- Session `s` with other queue fields. -/
def Session.withQueue (s : Session) (active pending : Option Chreq) (loading usedMsgid : Bool) : Session :=
  { s with
    chActive := active
    chPending := pending
    historyLoading := loading
    historyRequestUsedMsgid := usedMsgid }

/-- Only the queue of session `i` moved, and lines were sent for it. -/
def Queued (i : Nat) (n n' : Net) : Prop :=
  ∃ active pending loading usedMsgid lines,
    n' = { n with
      heap := Function.update n.heap i ((n.heap i).withQueue active pending loading usedMsgid)
      sent := n.sent ++ lines } ∧
    ∀ x ∈ lines, x.sess = some i

section

variable {i : Nat} {n n' n'' : Net}

theorem Queued.refl (i : Nat) (n : Net) : Queued i n n := by
  refine ⟨(n.heap i).chActive, (n.heap i).chPending, (n.heap i).historyLoading,
    (n.heap i).historyRequestUsedMsgid, [], ?_, by simp⟩
  simp [Session.withQueue]

theorem Queued.trans (h : Queued i n n') (h' : Queued i n' n'') : Queued i n n'' := by
  obtain ⟨_, _, _, _, lines, rfl, hl⟩ := h
  obtain ⟨a, p, l, u, lines', rfl, hl'⟩ := h'
  refine ⟨a, p, l, u, lines ++ lines', ?_, ?_⟩
  · simp [Session.withQueue]
  · intro x hx
    rcases List.mem_append.1 hx with hx | hx
    · exact hl x hx
    · exact hl' x hx

/-- The fields of every session outside the queue. -/
theorem Queued.fields (h : Queued i n n') (j : Nat) : ∃ a p l u, n'.heap j = (n.heap j).withQueue a p l u := by
  obtain ⟨a, p, l, u, lines, rfl, _⟩ := h
  by_cases hj : j = i
  · subst hj
    exact ⟨a, p, l, u, by simp⟩
  · exact ⟨_, _, _, _, by simp [hj, Session.withQueue]; rfl⟩

theorem Queued.serv (h : Queued i n n') : n'.serv = n.serv := by
  obtain ⟨_, _, _, _, _, rfl, _⟩ := h; rfl

theorem Queued.db (h : Queued i n n') : n'.db = n.db := by
  obtain ⟨_, _, _, _, _, rfl, _⟩ := h; rfl

theorem Queued.heap_of_ne (h : Queued i n n') {j : Nat} (hj : j ≠ i) : n'.heap j = n.heap j := by
  obtain ⟨_, _, _, _, _, rfl, _⟩ := h
  simp [hj]

theorem dispatchNow_queued (n : Net) (i : Nat) (req : Chreq) : Queued i n (chathistoryDispatchNow n i req) := by
  unfold chathistoryDispatchNow
  split
  · exact .refl i n
  · split
    · exact .refl i n
    · split
      · exact .refl i n
      · exact ⟨some req, (n.heap i).chPending, true, req.usedMsgid, [⟨some i, _⟩], rfl, by simp⟩

theorem submit_queued (n : Net) (i : Nat) (req : Chreq) : Queued i n (chathistorySubmit n i req).2 := by
  unfold chathistorySubmit
  dsimp only
  split
  · exact .refl i n
  · split
    · exact .refl i n
    · split
      · exact dispatchNow_queued n i req
      · split
        · exact ⟨_, some req, _, _, [], by simp [Net.upd, Session.withQueue]; rfl, by simp⟩
        · exact .refl i n

theorem requestComplete_queued (n : Net) (i : Nat) : Queued i n (chathistoryRequestComplete n i) := by
  have h1 : Queued i n (n.upd i fun s => { s with chActive := none, historyLoading := false }) :=
    ⟨none, _, false, _, [], by simp [Net.upd, Session.withQueue]; rfl, by simp⟩
  unfold chathistoryRequestComplete
  dsimp only
  split
  · exact h1
  · refine h1.trans (Queued.trans ?_ (dispatchNow_queued _ i _))
    exact ⟨_, none, _, _, [], by simp [Net.upd, Session.withQueue]; rfl, by simp⟩

theorem queueFree_queued (n : Net) (i : Nat) : Queued i n (chathistoryQueueFree n i) :=
  ⟨none, none, false, _, [], by simp [chathistoryQueueFree, Net.upd, Session.withQueue]; rfl, by simp⟩

theorem requestLatest_queued (n : Net) (i : Nat) (reference : Option String) (limit : Int) :
    Queued i n (chathistoryRequestLatest n i reference limit) := by
  unfold chathistoryRequestLatest
  split
  · exact submit_queued n i _
  · exact .refl i n

theorem requestBeforeMsgid_queued (n : Net) (i : Nat) (msgid : String) (limit : Int) :
    Queued i n (chathistoryRequestBeforeMsgid n i msgid limit) := by
  unfold chathistoryRequestBeforeMsgid chathistoryRequestBefore
  split
  · exact .refl i n
  · split
    · exact submit_queued n i _
    · exact .refl i n

end

end PoxChat.ChatHistory
