import PoxChat.ChatHistory.InFlight
import PoxChat.Scrollback.Tables

/-!
# Batches to their end

What a batch does from its last line to `finish_batch_processing`, over the ticks of its chunk.

* `Shown` — replaying messages moves what is known of msgids and the stored rows, nothing else.
* `Progressed` — where a chunk stands: the messages behind it and the bounds of their timestamps.
* `batch_progress` — a batch is under way, or was finished with all the messages behind it.
* `replay_keeps_requests` — a batch of the server's own replay leaves the requests of its session alone.
-/

set_option autoImplicit false

namespace PoxChat.ChatHistory

open Lib Scrollback

/-! ## Replayed messages -/

/-- A session after messages were replayed to it; the pagination cursor is only set when there was
none. -/
def Session.Shown (s s' : Session) : Prop :=
  ∃ known newest oldest current, s' = { s with
      knownMsgids := known
      newestMsgid := newest
      oldestMsgid := oldest
      currentMsgid := current } ∧
    (s.oldestMsgid.isSome = true → oldest = s.oldestMsgid)

/-- The connection after messages were replayed. -/
def Shown (n n' : Net) : Prop :=
  ∃ heap db, n' = { n with heap := heap, db := db } ∧ (∀ j, (n.heap j).Shown (heap j)) ∧
    db.map (·.gaps) = n.db.map (·.gaps)

section

variable {n n' n'' : Net} {i : Nat}

theorem Session.Shown.refl (s : Session) : s.Shown s := ⟨_, _, _, _, rfl, fun _ => rfl⟩

theorem Session.Shown.trans {s s' s'' : Session} (h : s.Shown s') (h' : s'.Shown s'') : s.Shown s'' := by
  obtain ⟨_, _, o, _, rfl, ho⟩ := h
  obtain ⟨_, _, o', _, rfl, ho'⟩ := h'
  refine ⟨_, _, _, _, rfl, fun hs => ?_⟩
  have h1 := ho hs
  have h2 : o' = o := ho' (by simpa [h1] using hs)
  rw [h2, h1]

theorem Shown.refl (n : Net) : Shown n n := ⟨n.heap, n.db, rfl, fun _ => .refl _, rfl⟩

theorem Shown.trans (h : Shown n n') (h' : Shown n' n'') : Shown n n'' := by
  obtain ⟨heap, db, rfl, hs, hg⟩ := h
  obtain ⟨heap', db', rfl, hs', hg'⟩ := h'
  exact ⟨heap', db', rfl, fun j => (hs j).trans (hs' j), hg'.trans hg⟩

theorem Shown.upd {f : Session → Session} (h : (n.heap i).Shown (f (n.heap i))) : Shown n (n.upd i f) := by
  refine ⟨_, n.db, rfl, fun j => ?_, rfl⟩
  by_cases hj : j = i
  · subst hj
    simpa using h
  · simpa [hj] using Session.Shown.refl (n.heap j)

theorem Shown.withDb {db : Option Sb} (h : db.map (·.gaps) = n.db.map (·.gaps)) : Shown n { n with db := db } :=
  ⟨n.heap, db, rfl, fun _ => .refl _, h⟩

theorem track_shown (n : Net) (i : Nat) (msgid : String) (ts : Int) (isHistory : Bool) :
    Shown n (chathistoryTrackMsgidTs n i msgid ts isHistory) := by
  unfold chathistoryTrackMsgidTs
  dsimp only
  split
  · exact .refl n
  · split
    · exact .refl n
    · refine Shown.upd ⟨_, _, _, _, rfl, fun hs => ?_⟩
      obtain ⟨o, ho⟩ := Option.isSome_iff_exists.1 hs
      simp [ho]

theorem isDuplicate_shown (n : Net) (i : Nat) (msgid : String) (ts : Int) :
    Shown n (chathistoryIsDuplicateMsgid n i msgid ts).2 := by
  unfold chathistoryIsDuplicateMsgid
  split
  · exact .refl n
  · split
    · exact .refl n
    · split
      · exact .refl n
      · split
        · exact .refl n
        · rename_i db hdb
          exact Shown.withDb (by simp [hdb])

theorem runHandlers_shown (n : Net) (i : Nat) (msg : BatchMessage) : Shown n (runHandlers n i msg) := by
  have hstore : Shown n (n.store fun db => Scrollback.run db (n.handlers.stores (n.heap i) msg)) := by
    refine Shown.withDb ?_
    cases n.db <;> simp
  unfold runHandlers
  dsimp only
  split
  · exact hstore.trans (track_shown _ _ _ _ _)
  · exact hstore

theorem processBatchMessage_shown (n : Net) (i : Nat) (msg : BatchMessage) :
    Shown n (processBatchMessage n i msg).2 := by
  have hcurrent : ∀ m : Net, Shown n m → Shown n (m.upd i fun s => { s with currentMsgid := msg.msgid }) :=
    fun m hm => hm.trans (Shown.upd ⟨_, _, _, _, rfl, fun _ => rfl⟩)
  unfold processBatchMessage
  split
  · exact .refl n
  · cases hid : msg.msgid with
    | none =>
      rw [hid] at hcurrent
      dsimp only
      split
      · exact .refl n
      · split
        · exact hcurrent n (.refl n)
        · exact (hcurrent n (.refl n)).trans (runHandlers_shown _ _ _)
    | some id =>
      rw [hid] at hcurrent
      have htrack := (isDuplicate_shown n i id msg.timestamp).trans (track_shown _ i id msg.timestamp true)
      dsimp only
      split
      · exact isDuplicate_shown n i id msg.timestamp
      · split
        · exact hcurrent _ htrack
        · exact (hcurrent _ htrack).trans (runHandlers_shown _ _ _)

theorem chunkLoop_shown (m : Nat) (c : Client) (k : Chunk) : Shown c.net (chunkLoop m c k).1.net := by
  induction m generalizing c k with
  | zero => exact .refl _
  | succ m ih =>
    unfold chunkLoop
    split
    · exact .refl _
    · exact (processBatchMessage_shown c.net k.sess _).trans (ih _ _)

end

/-! ## The progress of a chunk -/

/-- The smallest positive timestamp, as the loop keeps it from `oldest` on. -/
def oldestOf (messages : List BatchMessage) (oldest : Int) : Int :=
  messages.foldl (fun o m => if 0 < m.timestamp ∧ (o = 0 ∨ m.timestamp < o) then m.timestamp else o) oldest

/-- The largest positive timestamp, as the loop keeps it from `newest` on. -/
def newestOf (messages : List BatchMessage) (newest : Int) : Int :=
  messages.foldl (fun o m => if 0 < m.timestamp ∧ o < m.timestamp then m.timestamp else o) newest

/-- Chunk `k` is `k₀` with the messages `done` behind it. -/
structure Progressed (k₀ : Chunk) (done : List BatchMessage) (k : Chunk) : Prop where
  messages : done ++ k.remaining = k₀.remaining
  chunk : ∃ count, k = { k₀ with
    remaining := k.remaining
    msgCount := count
    oldestTimestamp := oldestOf done k₀.oldestTimestamp
    newestTimestamp := newestOf done k₀.newestTimestamp }

section

variable {k₀ k k' : Chunk} {done more : List BatchMessage}

theorem Progressed.refl (k : Chunk) : Progressed k [] k := ⟨rfl, _, rfl⟩

theorem Progressed.trans (h : Progressed k₀ done k) (h' : Progressed k more k') :
    Progressed k₀ (done ++ more) k' := by
  refine ⟨?_, ?_⟩
  · rw [List.append_assoc, h'.messages, h.messages]
  · obtain ⟨count, hk⟩ := h.chunk
    obtain ⟨count', hk'⟩ := h'.chunk
    refine ⟨count', ?_⟩
    rw [hk', hk]
    simp [oldestOf, newestOf, List.foldl_append]

theorem Progressed.sess (h : Progressed k₀ done k) : k.sess = k₀.sess := by
  obtain ⟨_, hk⟩ := h.chunk
  rw [hk]

theorem Progressed.id (h : Progressed k₀ done k) : k.id = k₀.id := by
  obtain ⟨_, hk⟩ := h.chunk
  rw [hk]

theorem chunkLoop_progressed (m : Nat) (c : Client) (k : Chunk) :
    Progressed k (k.remaining.take m) (chunkLoop m c k).2 := by
  induction m generalizing c k with
  | zero => simpa [chunkLoop] using Progressed.refl k
  | succ m ih =>
    unfold chunkLoop
    split
    · rename_i hnil
      simpa [hnil] using Progressed.refl k
    · rename_i msg rest hcons
      dsimp only
      rw [hcons, List.take_succ_cons]
      have hone : Progressed k [msg] (k.note msg (processBatchMessage c.net k.sess msg).1 rest) :=
        ⟨by rw [hcons]; rfl, _, rfl⟩
      exact hone.trans (ih _ _)

end

/-! ## To the end -/

/-- The messages of a batch that are replayed before it is finished: a batch replayed in one call stops
at the first chunk. -/
def Batch.replayed (b : Batch) : List BatchMessage :=
  if b.rawCount ≤ CHATHISTORY_CHUNK_SIZE then (sortMessages b.messages).take CHATHISTORY_CHUNK_SIZE
  else sortMessages b.messages

theorem Batch.mem_of_replayed {b : Batch} {x : BatchMessage} (h : x ∈ b.replayed) : x ∈ b.messages := by
  refine (sortMessages_arranged b.messages).perm.mem_iff.1 ?_
  unfold Batch.replayed at h
  split at h
  · exact List.mem_of_mem_take h
  · exact h

/-- A batch is under way as chunk `k₀`, from the connection `n` on, or it was finished with the messages
`all` behind it. -/
def UnderWay (n : Net) (k₀ : Chunk) (all : List BatchMessage) (c : Client) : Prop :=
  (∃ done k, c.chunk k₀.id = some k ∧ Progressed k₀ done k ∧ Shown n c.net ∧ all = k₀.remaining) ∨
    (c.chunk k₀.id = none ∧ ∃ k m, Progressed k₀ all k ∧ Shown n m ∧ c.net = finishBatchProcessing m k)

section

variable {n : Net} {k₀ : Chunk} {all : List BatchMessage} {c : Client}

theorem Shown.sessList {n' : Net} (h : Shown n n') : n'.sessList = n.sessList := by
  obtain ⟨_, _, rfl, _⟩ := h; rfl

theorem UnderWay.tick (h : UnderWay n k₀ all c) (hs : k₀.sess ∈ n.sessList) :
    UnderWay n k₀ all (step c (.chunkTick k₀.id)) := by
  rcases h with ⟨done, k, hk, hp, hshown, hall⟩ | ⟨hnone, hrest⟩
  · have hstep : step c (.chunkTick k₀.id) = chunkIdleCb c k := by
      simp only [step]
      rw [show c.chunks.find? (fun k' => decide (k'.id = k₀.id)) = some k from hk]
    have hprog : Progressed k₀ (done ++ k.remaining.take CHATHISTORY_CHUNK_SIZE) (processChunkMessages c k).2 :=
      hp.trans (chunkLoop_progressed CHATHISTORY_CHUNK_SIZE c k)
    have hshown' : Shown n (processChunkMessages c k).1.net :=
      hshown.trans (chunkLoop_shown CHATHISTORY_CHUNK_SIZE c k)
    have hl := processChunkMessages_run c k
    have hid : k.id = k₀.id := hp.id
    rw [hstep]
    unfold chunkIdleCb
    rw [if_neg (by rw [hp.sess, hshown.sessList]; exact not_not.2 hs)]
    dsimp only
    split
    · rename_i hnil
      have hdone := hprog.messages
      rw [hnil, List.append_nil, ← hall] at hdone
      rw [hdone] at hprog
      refine .inr ⟨?_, _, _, hprog, hshown', rfl⟩
      have := Client.chunk_freeChunk_self ((processChunkMessages c k).1.finish (processChunkMessages c k).2)
        (processChunkMessages c k).2
      rwa [hprog.id] at this
    · refine .inl ⟨_, _, ?_, hprog, hshown', hall⟩
      have hfind : c.chunks.find? (fun x => x.id = (processChunkMessages c k).2.id) = some k := by
        rw [hl.id, hid]
        exact hk
      have := find?_replace_id_self hfind
      rw [hl.id] at this
      simpa [Client.chunk, hl.chunks, hl.id, hid] using this
  · have hstep : step c (.chunkTick k₀.id) = c := by
      simp only [step]
      rw [show c.chunks.find? (fun k' => decide (k'.id = k₀.id)) = none from hnone]
    rw [hstep]
    exact .inr ⟨hnone, hrest⟩

theorem UnderWay.ticks (h : UnderWay n k₀ all c) (hs : k₀.sess ∈ n.sessList) (m : Nat) :
    UnderWay n k₀ all (run c (List.replicate m (.chunkTick k₀.id))) := by
  induction m generalizing c with
  | zero => exact h
  | succ m ih => exact ih (h.tick hs)

/-- A batch under a new number, over any number of ticks of its chunk. -/
theorem batch_progress {b : Batch} {i : Nat} {net : Net} (hn : c.chunk c.nextChunk = none) (hb : b.messages ≠ [])
    (hs : batchSession c.net b = (some i, net)) (hi : i ∈ (batchShape net b i).2.sessList) (m : Nat) :
    UnderWay (batchShape net b i).2
      (newChunk (batchShape net b i).2 b i c.nextChunk (batchShape net b i).1) b.replayed
      (run c (.batch b :: List.replicate m (.chunkTick c.nextChunk))) := by
  have hstep : step c (.batch b) = processMessages { c with net := (batchShape net b i).2 } b i
      (batchShape net b i).1 := by
    simp only [step, chathistoryProcessBatch, hs, if_neg hb]
  refine UnderWay.ticks (c := step c (.batch b)) ?_ hi m
  rw [hstep]
  generalize (batchShape net b i).2 = n
  generalize (batchShape net b i).1 = sh
  by_cases hraw : b.rawCount ≤ CHATHISTORY_CHUNK_SIZE
  · have hr : (newChunk n b i c.nextChunk sh).rawCount ≤ CHATHISTORY_CHUNK_SIZE := by
      rw [newChunk_rawCount]
      exact_mod_cast hraw
    obtain ⟨_, hchunks, _⟩ := processMessages_sync { c with net := n } b i sh hraw
    have hprog := chunkLoop_progressed CHATHISTORY_CHUNK_SIZE { c with net := n, nextChunk := c.nextChunk + 1 }
      (newChunk n b i c.nextChunk sh)
    have hshown := chunkLoop_shown CHATHISTORY_CHUNK_SIZE { c with net := n, nextChunk := c.nextChunk + 1 }
      (newChunk n b i c.nextChunk sh)
    have hall : b.replayed = (newChunk n b i c.nextChunk sh).remaining.take CHATHISTORY_CHUNK_SIZE := if_pos hraw
    rw [← hall] at hprog
    refine .inr ⟨?_, _, _, hprog, hshown, ?_⟩
    · rw [Client.chunk, hchunks]
      exact hn
    · unfold processMessages
      dsimp only
      rw [if_pos hr]
      rfl
  · have hr : ¬ (newChunk n b i c.nextChunk sh).rawCount ≤ CHATHISTORY_CHUNK_SIZE := by
      rw [newChunk_rawCount]
      exact_mod_cast hraw
    obtain ⟨_, hchunks, _⟩ := processMessages_chunked { c with net := n } b i sh (Nat.not_le.1 hraw)
    refine .inl ⟨[], newChunk n b i c.nextChunk sh, ?_, .refl _, ?_, if_neg hraw⟩
    · rw [Client.chunk, hchunks, List.find?_cons]
      simp [newChunk]
    · unfold processMessages
      dsimp only
      rw [if_neg hr]
      exact .refl n

end

/-! ## The BEFORE check -/

/-- What the check does to the queue of a session: nothing, or it sends the BEFORE of its catch-up. -/
structure CheckEffect (n : Net) (i : Nat) (n' : Net) : Prop where
  db : n'.db = n.db
  pending : (n'.heap i).chPending = (n.heap i).chPending
  exhausted : (n'.heap i).historyExhausted = (n.heap i).historyExhausted
  queue : (n'.heap i).chActive = (n.heap i).chActive ∧ n'.sentFor i = n.sentFor i ∨
    (n.heap i).chActive = none ∧ needsBefore (n.heap i) = true ∧ ∃ req, (n'.heap i).chActive = some req ∧
      req.type = .before ∧ req.isCatchup = true ∧ n'.sentFor i = n.sentFor i + 1

section

variable {n n' : Net} {i : Nat}

theorem CheckEffect.same (hdb : n'.db = n.db) (hheap : n'.heap i = n.heap i) (hsent : n'.sentFor i = n.sentFor i) :
    CheckEffect n i n' := ⟨hdb, by rw [hheap], by rw [hheap], .inl ⟨by rw [hheap], hsent⟩⟩

theorem sentFor_of_queueView (h : n'.queueView = n.queueView) : n'.sentFor i = n.sentFor i :=
  congrArg (fun v : QueueView => (v.queue i).sent) h

theorem Queued.sentFor_of_ne {j : Nat} (h : Queued j n n') (hj : j ≠ i) : n'.sentFor i = n.sentFor i := by
  obtain ⟨_, _, _, _, lines, rfl, hl⟩ := h
  have hnil : lines.filter (fun x => x.sess = some i) = [] := by
    refine List.filter_eq_nil_iff.2 fun x hx => ?_
    simp [hl x hx, hj]
  simp [Net.sentFor, hnil]

/-- A BEFORE phase of another session. -/
theorem startBefore_of_ne {j : Nat} (hj : j ≠ i) : CheckEffect n i (startBefore n j) := by
  have hdb : (n.takeBefore j).db = n.db := rfl
  have hheap : (n.takeBefore j).heap i = n.heap i := by
    simp [Net.takeBefore, Net.upd, Net.setBeforeSess, Ne.symm hj]
  have hsent : (n.takeBefore j).sentFor i = n.sentFor i := rfl
  obtain hs | ⟨msgid, hs⟩ := startBefore_cases n j <;> rw [hs] <;> generalize n.takeBefore j = m at hdb hheap hsent
  · refine .same ?_ ?_ ?_
    · unfold finishCatchup
      dsimp only
      split <;> exact hdb
    · have : ((finishCatchup m j).setBeforeSess none).heap i = m.heap i := by
        unfold finishCatchup
        dsimp only
        split <;> simp [Net.upd, Net.setBeforeSess, Ne.symm hj]
      rw [this, hheap]
    · have hv : ((finishCatchup m j).setBeforeSess none).queueView = m.queueView := by simp
      rw [sentFor_of_queueView hv, hsent]
  · have hqd := requestBeforeMsgid_queued m j msgid CHATHISTORY_BEFORE_LIMIT
    exact .same (hqd.db.trans hdb) ((hqd.heap_of_ne (Ne.symm hj)).trans hheap) ((hqd.sentFor_of_ne hj).trans hsent)

/-- The BEFORE phase of the session itself. -/
theorem startBefore_self (h : SoundQueues n.queueView) (hneeds : needsBefore (n.heap i) = true) :
    CheckEffect n i (startBefore n i) := by
  have hload : (n.heap i).historyLoading = false := by
    simp only [needsBefore, Bool.and_eq_true, Bool.not_eq_true'] at hneeds
    exact hneeds.2
  have hcatch : (n.heap i).catchupInProgress = true := by
    simp only [needsBefore, Bool.and_eq_true] at hneeds
    exact hneeds.1.1
  have hidle : (n.heap i).chActive = none := by
    have hl := (h.sound i).loading
    simp only [Net.queueView, hload, Bool.false_eq_true, iff_false, Bool.not_eq_true] at hl
    exact Option.isNone_iff_eq_none.1 (by simpa using hl)
  have hdb : (n.takeBefore i).db = n.db := rfl
  have hheap : (n.takeBefore i).heap i = { n.heap i with catchupIsBefore := true } := by
    simp [Net.takeBefore, Net.upd, Net.setBeforeSess]
  have hsent : (n.takeBefore i).sentFor i = n.sentFor i := rfl
  obtain hs | ⟨msgid, hs⟩ := startBefore_cases n i <;> rw [hs] <;> generalize n.takeBefore i = m at hdb hheap hsent
  · have hv : ((finishCatchup m i).setBeforeSess none).queueView = m.queueView := by simp
    have hq := congrFun (congrArg QueueView.queue hv) i
    refine ⟨?_, ?_, ?_, .inl ⟨?_, ?_⟩⟩
    · unfold finishCatchup
      dsimp only
      split <;> exact hdb
    · exact (congrArg QueueState.pending hq).trans (by simp [Net.queueView, hheap])
    · unfold finishCatchup
      dsimp only
      split <;> simp [Net.upd, Net.setBeforeSess, hheap]
    · exact (congrArg QueueState.active hq).trans (by simp [Net.queueView, hheap])
    · rw [sentFor_of_queueView hv, hsent]
  · have hqd := requestBeforeMsgid_queued m i msgid CHATHISTORY_BEFORE_LIMIT
    obtain ⟨_, _, _, _, hfields⟩ := hqd.fields i
    have hexh : ((chathistoryRequestBeforeMsgid m i msgid CHATHISTORY_BEFORE_LIMIT).heap i).historyExhausted =
        (n.heap i).historyExhausted := by
      rw [hfields, hheap]
      rfl
    have hsame : ∀ m' : Net, m'.queueView = m.queueView →
        (m'.heap i).chPending = (n.heap i).chPending ∧ (m'.heap i).chActive = (n.heap i).chActive ∧
          m'.sentFor i = n.sentFor i := by
      intro m' hv
      have hq := congrFun (congrArg QueueView.queue hv) i
      refine ⟨(congrArg QueueState.pending hq).trans ?_, (congrArg QueueState.active hq).trans ?_,
        (sentFor_of_queueView hv).trans hsent⟩
      · simp [Net.queueView, hheap]
      · simp [Net.queueView, hheap]
    have hdb' := hqd.db.trans hdb
    unfold chathistoryRequestBeforeMsgid chathistoryRequestBefore submitRequest at hexh hdb' ⊢
    split at hexh
    · rename_i he
      rw [if_pos he] at hdb' ⊢
      obtain ⟨h1, h2, h3⟩ := hsame m rfl
      exact ⟨hdb, h1, hexh, .inl ⟨h2, h3⟩⟩
    · rename_i he
      rw [if_neg he] at hdb' ⊢
      split at hexh
      · rename_i hg
        rw [if_pos hg] at hdb' ⊢
        dsimp only at hdb' hexh ⊢
        rcases submit_cases m i ⟨.before, some ("msgid=" ++ msgid), none, CHATHISTORY_BEFORE_LIMIT,
          inferPriority (m.heap i), (m.heap i).catchupInProgress, isMsgidRef ("msgid=" ++ msgid), 0, 0⟩ with
            hv | ⟨_, hv⟩ | ⟨ha, _⟩
        · obtain ⟨h1, h2, h3⟩ := hsame _ hv
          exact ⟨hdb', h1, hexh, .inl ⟨h2, h3⟩⟩
        · have hq := congrFun (congrArg QueueView.queue hv) i
          simp only [QueueView.set, Function.update_self] at hq
          refine ⟨hdb', (congrArg QueueState.pending hq).trans (by simp [hheap]), hexh, .inr ⟨hidle, hneeds, _,
            congrArg QueueState.active hq, rfl, by simp [hheap, hcatch], ?_⟩⟩
          rw [← hsent]
          exact congrArg QueueState.sent hq
        · exact absurd (by rw [hheap]; exact hidle) ha
      · rename_i hg
        rw [if_neg hg] at hdb' ⊢
        obtain ⟨h1, h2, h3⟩ := hsame m rfl
        exact ⟨hdb, h1, hexh, .inl ⟨h2, h3⟩⟩

/-- The check never touches a session that waits for an answer. -/
theorem check_effect (h : SoundQueues n.queueView) (i : Nat) : CheckEffect n i (chathistoryCheckBeforeCatchup n) := by
  unfold chathistoryCheckBeforeCatchup
  split
  · split
    · exact .same rfl rfl rfl
    · rename_i j hj
      by_cases hji : j = i
      · subst hji
        refine startBefore_self h ?_
        unfold beforeTarget at hj
        split at hj
        · rename_i j' hj'
          cases hj
          simpa using (Option.filter_eq_some_iff.1 hj').2
        · split at hj
          · simpa using List.find?_some hj
          · cases hj
      · exact startBefore_of_ne hji
  · exact .same rfl rfl rfl

theorem checkWhenNonePending_effect (h : SoundQueues n.queueView) (i : Nat) :
    CheckEffect n i (checkWhenNonePending n) := by
  unfold checkWhenNonePending
  split
  · exact check_effect h i
  · exact .same rfl rfl rfl

end

/-! ## Server-driven replay -/

/-- The ledger row with this id. -/
def Net.gap (n : Net) (gapId : Int) : Option Gap := n.db.bind fun db => scrollbackGapGet db gapId

/-- The newest time stored for a session when its LATEST phase is opened. -/
def newestStored (n : Net) (i : Nat) : Int := ((catchupEnterLatestPhase n i).heap i).catchupPrevNewestTime

/-- The hole between the newest stored row and a message meets the gap, so a record of it merges with the
gap. -/
def MetBy (g : Gap) (newest : Int) (m : BatchMessage) : Prop :=
  g.state ≠ .dead ∧ g.startTs ≤ m.timestamp ∧ newest ≤ g.endTs

/-- The catch-up of session `i` was not stepped; its cursor may only have been found. -/
structure PhaseKept (n : Net) (i : Nat) (n' : Net) : Prop where
  inProgress : (n'.heap i).catchupInProgress = (n.heap i).catchupInProgress
  isBefore : (n'.heap i).catchupIsBefore = (n.heap i).catchupIsBefore
  gapId : (n'.heap i).catchupGapId = (n.heap i).catchupGapId
  retrieved : (n'.heap i).historyCatchupRetrieved = (n.heap i).historyCatchupRetrieved
  stale : (n'.heap i).historyCatchupStaleCount = (n.heap i).historyCatchupStaleCount
  cursor : (n.heap i).oldestMsgid.isSome = true → (n'.heap i).oldestMsgid = (n.heap i).oldestMsgid
  slots : n'.serv.chathistoryLatestPending = n.serv.chathistoryLatestPending

/-- What a batch with these messages leaves of the requests of its session. -/
structure RequestsKept (n : Net) (i : Nat) (messages : List BatchMessage) (n' : Net) : Prop where
  pending : (n'.heap i).chPending = (n.heap i).chPending
  exhausted : (n'.heap i).historyExhausted = (n.heap i).historyExhausted
  active : (n'.heap i).chActive = (n.heap i).chActive ∧ n'.sentFor i = n.sentFor i ∨
    adopts n i = true ∧ (n.heap i).chActive = none ∧ ∃ req, (n'.heap i).chActive = some req ∧
      req.type = .before ∧ req.isCatchup = true ∧ n'.sentFor i = n.sentFor i + 1
  gap : ∀ req g, (n.heap i).chActive = some req → n.gap req.gapId = some g → n'.gap req.gapId = some g ∨
    adopts n i = true ∧ ∃ m ∈ messages, MetBy g (newestStored n i) m
  phase : adopts n i = false → PhaseKept n i n'

section

variable {n n' : Net} {i : Nat} {messages : List BatchMessage}

theorem gap_of_gaps (h : n'.db.map (·.gaps) = n.db.map (·.gaps)) (gapId : Int) : n'.gap gapId = n.gap gapId := by
  unfold Net.gap scrollbackGapGet
  cases h1 : n.db with
  | none =>
    rw [h1] at h
    rw [Option.map_eq_none_iff.1 h]
  | some db =>
    rw [h1] at h
    obtain ⟨db', h2, hg⟩ := Option.map_eq_some_iff.1 h
    rw [h2]
    simp only [Option.bind_some]
    rw [hg]

theorem refreshNewest_gaps (n : Net) (i : Nat) : (refreshNewest n i).db.map (·.gaps) = n.db.map (·.gaps) := by
  unfold refreshNewest
  split
  · rfl
  · rename_i db hdb
    simp [Net.upd, hdb]

/-- A record keeps every row that the recorded span does not meet. -/
theorem scrollbackGapRecord_get (s : Sb) (channel : String) (startTs : Int) (startMsgid : Option String) (endTs : Int)
    (endMsgid : Option String) (state : GapState) {gapId : Int} {g : Gap} (hg : scrollbackGapGet s gapId = some g)
    (hm : ¬ (g.state ≠ .dead ∧ g.startTs ≤ endTs ∧ startTs ≤ g.endTs)) :
    scrollbackGapGet (scrollbackGapRecord s channel startTs startMsgid endTs endMsgid state).2 gapId = some g := by
  unfold scrollbackGapRecord
  dsimp only
  have hsame : ∀ s' : Sb, s'.gaps = s.gaps → scrollbackGapGet s' gapId = some g := by
    intro s' hs'
    unfold scrollbackGapGet at hg ⊢
    rwa [hs']
  split
  · exact hg
  · split
    · exact hsame _ scrollbackGetChannelId_gaps
    · unfold scrollbackGapGet at hg ⊢
      split at hg
      · cases hg
      · rename_i hpos
        rw [if_neg hpos]
        dsimp only
        have hmeets : g.meets (scrollbackGetChannelId s channel).1 startTs endTs = false := by
          simp only [Gap.meets, decide_eq_false_iff_not]
          intro hc
          exact hm ⟨hc.2.1, hc.2.2.1, hc.2.2.2⟩
        rw [List.find?_append, List.find?_filter, scrollbackGetChannelId_gaps]
        obtain ⟨hid, as, bs, hsplit, has⟩ := List.find?_eq_some_iff_append.1 hg
        have hfind : s.gaps.find? (fun a =>
            !a.meets (scrollbackGetChannelId s channel).1 startTs endTs && decide (a.id = gapId)) = some g := by
          refine List.find?_eq_some_iff_append.2 ⟨by simpa [hmeets] using hid, as, bs, hsplit, fun a ha => ?_⟩
          have := has a ha
          simp only [Bool.not_eq_true', decide_eq_false_iff_not] at this
          simp [this]
        have hfun : (fun a : Gap => decide ((!a.meets (scrollbackGetChannelId s channel).1 startTs endTs) = true ∧
            decide (a.id = gapId) = true)) = fun a =>
              !a.meets (scrollbackGetChannelId s channel).1 startTs endTs && decide (a.id = gapId) := by
          funext a
          simp
        rw [hfun, hfind]
        rfl

theorem Shown.queueView (h : Shown n n') : n'.queueView = n.queueView := by
  obtain ⟨heap, db, rfl, hs, _⟩ := h
  simp only [Net.queueView, QueueView.mk.injEq, and_true]
  funext j
  obtain ⟨_, _, _, _, hj, _⟩ := hs j
  simp [hj, Net.sentFor]

theorem Shown.gap (h : Shown n n') (gapId : Int) : n'.gap gapId = n.gap gapId := by
  obtain ⟨heap, db, rfl, _, hg⟩ := h
  exact gap_of_gaps hg gapId

theorem Shown.heap (h : Shown n n') (i : Nat) : (n.heap i).Shown (n'.heap i) := by
  obtain ⟨heap, db, rfl, hs, _⟩ := h
  exact hs i

theorem Shown.serv (h : Shown n n') : n'.serv = n.serv := by
  obtain ⟨_, _, rfl, _⟩ := h; rfl

/-- The queue fields of a session in two connections with the same queues. -/
theorem queue_of_view (h : n'.queueView = n.queueView) (i : Nat) :
    (n'.heap i).chActive = (n.heap i).chActive ∧ (n'.heap i).chPending = (n.heap i).chPending ∧
      n'.sentFor i = n.sentFor i := by
  have hq := congrFun (congrArg QueueView.queue h) i
  exact ⟨congrArg QueueState.active hq, congrArg QueueState.pending hq, congrArg QueueState.sent hq⟩

/-- A batch that was not adopted, while its messages are replayed. -/
theorem Shown.requestsKept (h : Shown n n') : RequestsKept n i messages n' := by
  obtain ⟨ha, hp, hs⟩ := queue_of_view h.queueView i
  obtain ⟨_, _, _, _, hi, ho⟩ := h.heap i
  refine ⟨hp, by rw [hi], .inl ⟨ha, hs⟩, fun req g _ hg => .inl (by rw [h.gap, hg]), fun _ => ?_⟩
  refine ⟨by rw [hi], by rw [hi], by rw [hi], by rw [hi], by rw [hi], fun hsome => ?_, by rw [h.serv]⟩
  rw [hi]
  exact ho hsome

/-- The end of a batch that was not adopted: only the background fetch may stop or go on. -/
theorem finish_unadopted {k : Chunk} (h1 : k.unsolicited = true) (h2 : k.latestOwned = false)
    (h3 : k.isCatchup = false) (h4 : k.gapId = 0) : ∃ active timer, finishBatchProcessing n k =
      ({ n with serv := { n.serv with chathistoryFailStreak := 0 } } : Net).upd k.sess fun s =>
        { s with backgroundHistoryActive := active, backgroundHistoryTimer := timer } := by
  obtain ⟨n₀, hn₀⟩ : ∃ n₀ : Net, n₀ = { n with serv := { n.serv with chathistoryFailStreak := 0 } } := ⟨_, rfl⟩
  have hsettle : settleBatch n k = n₀ := by simp [settleBatch, h1, h2, hn₀]
  have hself : n₀ = n₀.upd k.sess fun s => { s with
      backgroundHistoryActive := (n₀.heap k.sess).backgroundHistoryActive
      backgroundHistoryTimer := (n₀.heap k.sess).backgroundHistoryTimer } := by
    simp [Net.upd]
  have hclamp : ∀ m : Net, clampGap m k = m := by
    intro m
    simp [clampGap, h4]
  unfold finishBatchProcessing
  simp only [hsettle, h3, Bool.false_eq_true, if_false, ← hn₀]
  unfold finishPlain scheduleBackgroundFetch
  simp only [hclamp]
  repeat' split
  all_goals first
    | exact ⟨_, _, hself⟩
    | exact ⟨false, _, rfl⟩
    | exact ⟨_, true, rfl⟩
    | exact ⟨false, true, by simp [Net.upd]⟩

theorem finish_unadopted_kept {k : Chunk} (h : Shown n n') (h1 : k.unsolicited = true) (h2 : k.latestOwned = false)
    (h3 : k.isCatchup = false) (h4 : k.gapId = 0) : RequestsKept n i messages (finishBatchProcessing n' k) := by
  obtain ⟨active, timer, hfin⟩ := finish_unadopted (n := n') h1 h2 h3 h4
  have hk : RequestsKept n i messages n' := h.requestsKept
  -- nothing the statement speaks of depends on the background fetch
  have hheap : ∃ a t, (finishBatchProcessing n' k).heap i =
      { n'.heap i with backgroundHistoryActive := a, backgroundHistoryTimer := t } := by
    rw [hfin]
    by_cases hi : i = k.sess
    · subst hi
      exact ⟨active, timer, by simp [Net.upd]⟩
    · exact ⟨_, _, by simp [Net.upd, hi]; rfl⟩
  obtain ⟨_, _, hheap⟩ := hheap
  have hdb : (finishBatchProcessing n' k).db = n'.db := by rw [hfin]; rfl
  have hsent : (finishBatchProcessing n' k).sentFor i = n'.sentFor i := by rw [hfin]; rfl
  have hslots : (finishBatchProcessing n' k).serv.chathistoryLatestPending = n'.serv.chathistoryLatestPending := by
    rw [hfin]; rfl
  refine ⟨by rw [hheap]; exact hk.pending, by rw [hheap]; exact hk.exhausted, ?_, fun req g ha hg => ?_, fun hna => ?_⟩
  · rw [hheap, hsent]
    exact hk.active
  · have := hk.gap req g ha hg
    unfold Net.gap at this ⊢
    rwa [hdb]
  · obtain ⟨p1, p2, p3, p4, p5, p6, p7⟩ := hk.phase hna
    exact ⟨by rwa [hheap], by rwa [hheap], by rwa [hheap], by rwa [hheap], by rwa [hheap],
      fun hs => by rw [hheap]; exact p6 hs, by rwa [hslots]⟩

/-- The session just after its LATEST phase was opened by a batch. -/
theorem adopted_session (n : Net) (i : Nat) :
    (((catchupEnterLatestPhase n i).takeSlot i).heap i).historyExhausted = (n.heap i).historyExhausted ∧
      (((catchupEnterLatestPhase n i).takeSlot i).heap i).catchupIsBefore = false ∧
      (((catchupEnterLatestPhase n i).takeSlot i).heap i).catchupPrevNewestTime = newestStored n i ∧
      ((catchupEnterLatestPhase n i).takeSlot i).db.map (·.gaps) = n.db.map (·.gaps) := by
  have hexh : ((refreshNewest n i).heap i).historyExhausted = (n.heap i).historyExhausted := by
    unfold refreshNewest
    split
    · rfl
    · simp [Net.upd]
  refine ⟨?_, ?_, rfl, refreshNewest_gaps n i⟩
  · simpa [catchupEnterLatestPhase, Net.takeSlot, Net.upd] using hexh
  · simp [catchupEnterLatestPhase, Net.takeSlot, Net.upd]

/-- An adopted batch, before the BEFORE check that ends it: the queues and the sessions' histories are as
they were, and only a witnessed hole changed the ledger. -/
structure BeforeCheck (n : Net) (i : Nat) (messages : List BatchMessage) (m : Net) : Prop where
  queues : m.queueView = n.queueView
  exhausted : (m.heap i).historyExhausted = (n.heap i).historyExhausted
  gap : ∀ gapId g, n.gap gapId = some g → m.gap gapId = some g ∨ ∃ x ∈ messages, MetBy g (newestStored n i) x

@[simp] theorem returnSlot_heap (n : Net) (i : Nat) : (n.returnSlot i).heap = n.heap := by
  unfold Net.returnSlot
  split <;> rfl

@[simp] theorem returnSlot_db (n : Net) (i : Nat) : (n.returnSlot i).db = n.db := by
  unfold Net.returnSlot
  split <;> rfl

theorem BeforeCheck.returnSlot {m : Net} (h : BeforeCheck n i messages m) (j : Nat) :
    BeforeCheck n i messages (m.returnSlot j) := by
  refine ⟨by rw [queueView_returnSlot]; exact h.queues, by rw [returnSlot_heap]; exact h.exhausted, fun gapId g hg => ?_⟩
  have := h.gap gapId g hg
  unfold Net.gap at this ⊢
  rwa [returnSlot_db]

/-- The check at the end of an adopted batch. -/
theorem BeforeCheck.requestsKept {m : Net} (h : BeforeCheck n i messages m)
    (ha : adopts n i = true) (hc : CheckEffect m i n') : RequestsKept n i messages n' := by
  obtain ⟨hact, hpend, hsent⟩ := queue_of_view h.queues i
  refine ⟨hc.pending.trans hpend, hc.exhausted.trans h.exhausted, ?_, fun req g _ hg => ?_, fun hna => ?_⟩
  · rcases hc.queue with ⟨h1, h2⟩ | ⟨hnone, _, req, h1, h2, h3, h4⟩
    · exact .inl ⟨h1.trans hact, h2.trans hsent⟩
    · exact .inr ⟨ha, hact.symm.trans hnone, req, h1, h2, h3, by rw [h4, hsent]⟩
  · rcases h.gap req.gapId g hg with hm | hm
    · left
      unfold Net.gap at hm ⊢
      rwa [hc.db]
    · exact .inr ⟨ha, hm⟩
  · rw [ha] at hna
    cases hna

theorem oldestOf_mem {messages : List BatchMessage} {o : Int} :
    oldestOf messages o = o ∨ ∃ m ∈ messages, oldestOf messages o = m.timestamp := by
  induction messages generalizing o with
  | nil => exact .inl rfl
  | cons m messages ih =>
    simp only [oldestOf, List.foldl_cons]
    split
    · rcases @ih m.timestamp with h | ⟨x, hx, h⟩
      · exact .inr ⟨m, by simp, h⟩
      · exact .inr ⟨x, by simp [hx], h⟩
    · rcases @ih o with h | ⟨x, hx, h⟩
      · exact .inl h
      · exact .inr ⟨x, by simp [hx], h⟩

/-- The head of `finish_batch_processing` for a batch that answers no request. -/
theorem settle_unsolicited {k : Chunk} (h : k.unsolicited = true) :
    settleBatch n k = { n with serv := { n.serv with chathistoryFailStreak := 0 } } ∨
    settleBatch n k = ({ n with serv := { n.serv with chathistoryFailStreak := 0 } } : Net).upd k.sess
      fun s => { s with oldestMsgid := k.batchOldestMsgid } := by
  unfold settleBatch
  simp only [h, if_true, Bool.true_eq_false, and_false, if_false]
  split
  · exact .inr rfl
  · exact .inl rfl

/-- An adopted batch up to the BEFORE check. -/
theorem finish_adopted {m : Net} {k₀ k : Chunk} {done : List BatchMessage}
    (hm : Shown ((catchupEnterLatestPhase n i).takeSlot i) m) (hp : Progressed k₀ done k) (hd : ∀ x ∈ done, x ∈ messages)
    (h0 : k₀.oldestTimestamp = 0) (hs : k₀.sess = i) (h1 : k₀.unsolicited = true) (h3 : k₀.isCatchup = true) :
    ∃ m', finishBatchProcessing m k = checkWhenNonePending m' ∧ BeforeCheck n i messages m' := by
  obtain ⟨count, hk⟩ := hp.chunk
  have hks : k.sess = i := by rw [hp.sess, hs]
  have hku : k.unsolicited = true := by rw [hk]; exact h1
  have hkc : k.isCatchup = true := by rw [hk]; exact h3
  have hold : k.oldestTimestamp = oldestOf done 0 := by rw [hk, ← h0]
  obtain ⟨hexh, hbef, hprev, hgaps⟩ := adopted_session n i
  obtain ⟨_, _, _, _, hi, _⟩ := hm.heap i
  -- the head of the function
  have hserv : ({ m with serv := { m.serv with chathistoryFailStreak := 0 } } : Net).queueView = n.queueView := by
    rw [queueView_serv, hm.queueView]
    simp
  have hsv : (settleBatch m k).queueView = n.queueView := by
    rcases settle_unsolicited (n := m) hku with he | he
    · rw [he, hserv]
    · rw [he, queueView_upd_same rfl rfl rfl rfl, hserv]
  have hsdb : (settleBatch m k).db = m.db := by
    rcases settle_unsolicited (n := m) hku with he | he
    · rw [he]
    · rw [he]; rfl
  have hsh : ∃ o, (settleBatch m k).heap i = { m.heap i with oldestMsgid := o } := by
    rcases settle_unsolicited (n := m) hku with he | he
    · exact ⟨(m.heap i).oldestMsgid, by rw [he]⟩
    · exact ⟨k.batchOldestMsgid, by rw [he]; simp [Net.upd, hks]⟩
  obtain ⟨o, hsh⟩ := hsh
  have hgap : ∀ gapId, (settleBatch m k).gap gapId = n.gap gapId := by
    intro gapId
    rw [show (settleBatch m k).gap gapId = m.gap gapId by unfold Net.gap; rw [hsdb], hm.gap]
    exact gap_of_gaps hgaps gapId
  have hbefore : ((settleBatch m k).heap k.sess).catchupIsBefore = false := by
    rw [hks, hsh, hi]
    exact hbef
  refine ⟨if k.latestOwned then (if witnesses (settleBatch m k) k then recordWitness (settleBatch m k) k
      else settleBatch m k).returnSlot k.sess
    else if witnesses (settleBatch m k) k then recordWitness (settleBatch m k) k else settleBatch m k, ?_, ?_⟩
  · unfold finishBatchProcessing finishLatest
    simp [hkc, hbefore]
  · have hrec : BeforeCheck n i messages (if witnesses (settleBatch m k) k then recordWitness (settleBatch m k) k
        else settleBatch m k) := by
      split
      · rename_i hw
        have hpos : 0 < k.oldestTimestamp := by
          simp only [witnesses, Bool.and_eq_true, decide_eq_true_eq] at hw
          exact hw.2.2.2.1
        refine ⟨by rw [queueView_recordWitness, hsv], ?_, fun gapId g hg => ?_⟩
        · unfold recordWitness
          split
          · rw [hsh, hi]
            exact hexh
          · simp only [Net.upd, hks, Function.update_self]
            rw [hsh, hi]
            exact hexh
        · rw [← hgap] at hg
          unfold recordWitness
          split
          · exact .inl hg
          · rename_i db hdb
            rw [hks]
            by_cases hmet : MetBy g (newestStored n i) ⟨none, none, [], none, k.oldestTimestamp, false⟩
            · right
              rcases @oldestOf_mem done 0 with hz | ⟨x, hx, hx'⟩
              · omega
              · exact ⟨x, hd x hx, hmet.1, by rw [← hx', ← hold]; exact hmet.2.1, hmet.2.2⟩
            · left
              have hprev' : ((settleBatch m k).heap i).catchupPrevNewestTime = newestStored n i := by
                rw [hsh, hi]
                exact hprev
              unfold Net.gap at hg ⊢
              rw [hdb, Option.bind_some] at hg
              simp only [Net.upd, Option.bind_some, hprev']
              exact scrollbackGapRecord_get db _ _ _ _ _ _ hg hmet
      · refine ⟨hsv, ?_, fun gapId g hg => .inl (by rw [hgap, hg])⟩
        rw [hsh, hi]
        exact hexh
    split
    · exact hrec.returnSlot k.sess
    · exact hrec

/-- An adopted batch while its messages are replayed. -/
theorem adopted_kept {m : Net} (hm : Shown ((catchupEnterLatestPhase n i).takeSlot i) m) (ha : adopts n i = true) :
    RequestsKept n i messages m := by
  obtain ⟨hexh, _, _, hgaps⟩ := adopted_session n i
  obtain ⟨_, _, _, _, hi, _⟩ := hm.heap i
  have hcheck : BeforeCheck n i messages m := by
    refine ⟨by rw [hm.queueView]; simp, ?_, fun gapId g hg => .inl ?_⟩
    · rw [hi]
      exact hexh
    · rw [hm.gap, gap_of_gaps hgaps, hg]
  exact hcheck.requestsKept ha (.same rfl rfl rfl)

/-- An adopted batch without messages. -/
theorem endEmpty_kept (hq : SoundQueues n.queueView) (ha : adopts n i = true) : RequestsKept n i messages
    (checkWhenNonePending ((finishCatchup ((catchupEnterLatestPhase n i).takeSlot i) i).returnSlot i)) := by
  obtain ⟨hexh, _, _, hgaps⟩ := adopted_session n i
  generalize hm : (catchupEnterLatestPhase n i).takeSlot i = m at hexh hgaps
  have hv : m.queueView = n.queueView := by rw [← hm]; simp
  have hfdb : (finishCatchup m i).db = m.db := by
    unfold finishCatchup
    dsimp only
    split <;> rfl
  have hfexh : ((finishCatchup m i).heap i).historyExhausted = (m.heap i).historyExhausted := by
    unfold finishCatchup
    dsimp only
    split <;> simp [Net.upd, Net.setBeforeSess]
  have hcheck : BeforeCheck n i messages (finishCatchup m i) := by
    refine ⟨by rw [queueView_finishCatchup, hv], hfexh.trans hexh, fun gapId g hg => .inl ?_⟩
    rw [← hfdb] at hgaps
    rw [gap_of_gaps hgaps, hg]
  have hret := hcheck.returnSlot i
  exact hret.requestsKept ha (checkWhenNonePending_effect (by rw [hret.queues]; exact hq) i)

end

theorem batchSession_serv {n net : Net} {b : Batch} {i : Nat} (hs : batchSession n b = (some i, net)) :
    net.serv = n.serv := by
  unfold batchSession at hs
  split at hs
  · cases hs
  · split at hs
    · cases hs
      rfl
    · split at hs
      · dsimp only at hs
        cases hs
        rfl
      · cases hs

/-- A timer that is not armed does not fire. -/
theorem ticks_of_none {c : Client} {id : Nat} (h : c.chunk id = none) (m : Nat) :
    run c (List.replicate m (.chunkTick id)) = c := by
  induction m with
  | zero => rfl
  | succ m ih =>
    have hstep : step c (.chunkTick id) = c := by
      simp only [step]
      rw [show c.chunks.find? (fun k => decide (k.id = id)) = none from h]
    rw [List.replicate_succ]
    simp only [run, List.foldl_cons] at ih ⊢
    rwa [hstep]

/-- A line the server replays in the wrapper `r`. -/
def Batch.nested (messages : List BatchMessage) : Batch := ⟨some "#c", some "r", false, messages⟩

/-- A LATEST of `#c` is out, and the server opens a replay wrapper. -/
def askedAndWrapped : Client :=
  run (Client.start twoChannels) [.requestLatest 0 10, .openBatch "r" "evilnet.github.io/bouncer-replay"]

end PoxChat.ChatHistory
