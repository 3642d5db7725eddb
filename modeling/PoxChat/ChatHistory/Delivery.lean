import PoxChat.Lib.Program
import PoxChat.ChatHistory.Batches

/-!
# Every message of a batch is replayed once

A batch is replayed in one call when at most `CHATHISTORY_CHUNK_SIZE` of its messages are not context
messages, else a chunk per timer tick.  The loop bound counts all messages, so a batch replayed in
one call loses what lies beyond the first chunk.

* `chunkLoop_run` — one pass of the loop replays the next messages and leaves the rest.
* `Waiting.run` — over any run, a waiting chunk is replayed a chunk per tick of its timer.
* `batch_delivered_iff` — a batch is delivered exactly when it is chunked or fits one chunk.
-/

set_option autoImplicit false

namespace PoxChat.ChatHistory

open Lib Scrollback

/-! ## Calls of a chunk -/

def Call.chunk : Call → Nat
  | .message id _ => id
  | .finish id => id

/-- The calls made for a chunk, in order. -/
def callsOf (id : Nat) (calls : List Call) : List Call := calls.filter fun x => x.chunk = id

@[simp] theorem callsOf_append (id : Nat) (xs ys : List Call) :
    callsOf id (xs ++ ys) = callsOf id xs ++ callsOf id ys := List.filter_append ..

@[simp] theorem callsOf_messages_self (id : Nat) (ms : List BatchMessage) :
    callsOf id (ms.map (.message id)) = ms.map (.message id) := by
  simp [callsOf, List.filter_eq_self, Call.chunk]

@[simp] theorem callsOf_finish_self (id : Nat) : callsOf id [.finish id] = [.finish id] := by
  simp [callsOf, Call.chunk]

theorem callsOf_messages_of_ne {id id' : Nat} (h : id' ≠ id) (ms : List BatchMessage) :
    callsOf id (ms.map (.message id')) = [] := by
  simp [callsOf, List.filter_eq_nil_iff, Call.chunk, h]

theorem callsOf_finish_of_ne {id id' : Nat} (h : id' ≠ id) : callsOf id [.finish id'] = [] := by
  simp [callsOf, Call.chunk, h]

/-- The chunk of this number whose timer is armed. -/
def Client.chunk (c : Client) (id : Nat) : Option Chunk := c.chunks.find? fun k => k.id = id

/-! ## One pass of the loop -/

/-- What a pass of the loop over at most `m` messages does besides the replay itself. -/
structure LoopRun (m : Nat) (c : Client) (k : Chunk) (c' : Client) (k' : Chunk) : Prop where
  chunks : c'.chunks = c.chunks
  chunkState : c'.chunkState = c.chunkState
  nextChunk : c'.nextChunk = c.nextChunk
  calls : c'.calls = c.calls ++ (k.remaining.take m).map (.message k.id)
  chunk : ∃ count oldest newest, k' = { k with
    remaining := k.remaining.drop m
    msgCount := count
    oldestTimestamp := oldest
    newestTimestamp := newest }

theorem chunkLoop_run (m : Nat) (c : Client) (k : Chunk) :
    LoopRun m c k (chunkLoop m c k).1 (chunkLoop m c k).2 := by
  induction m generalizing c k with
  | zero => exact ⟨rfl, rfl, rfl, by simp [chunkLoop], _, _, _, rfl⟩
  | succ m ih =>
    unfold chunkLoop
    split
    · rename_i hr
      exact ⟨rfl, rfl, rfl, by simp [hr], k.msgCount, k.oldestTimestamp, k.newestTimestamp,
        by cases k; simp_all⟩
    · rename_i msg rest hr
      obtain ⟨h1, h2, h3, h4, count, oldest, newest, h5⟩ :=
        ih { c with
          net := (processBatchMessage c.net k.sess msg).2
          calls := c.calls ++ [.message k.id msg] } (k.note msg (processBatchMessage c.net k.sess msg).1 rest)
      refine ⟨h1, h2, h3, ?_, count, oldest, newest, ?_⟩
      · rw [hr]
        exact h4.trans (by simp [Chunk.note])
      · rw [hr]
        exact h5.trans (by simp [Chunk.note])

theorem processChunkMessages_run (c : Client) (k : Chunk) :
    LoopRun CHATHISTORY_CHUNK_SIZE c k (processChunkMessages c k).1 (processChunkMessages c k).2 :=
  chunkLoop_run _ c k

theorem LoopRun.remaining {m : Nat} {c c' : Client} {k k' : Chunk} (h : LoopRun m c k c' k') :
    k'.remaining = k.remaining.drop m := by
  obtain ⟨_, _, _, rfl⟩ := h.chunk; rfl

theorem LoopRun.id {m : Nat} {c c' : Client} {k k' : Chunk} (h : LoopRun m c k c' k') : k'.id = k.id := by
  obtain ⟨_, _, _, rfl⟩ := h.chunk; rfl

theorem LoopRun.sess {m : Nat} {c c' : Client} {k k' : Chunk} (h : LoopRun m c k c' k') :
    k'.sess = k.sess := by
  obtain ⟨_, _, _, rfl⟩ := h.chunk; rfl

/-! ## Other chunks -/

/-- Nothing happened to chunk `id`. -/
structure Untouched (id : Nat) (c c' : Client) : Prop where
  calls : callsOf id c'.calls = callsOf id c.calls
  chunk : c'.chunk id = c.chunk id
  nextChunk : c.nextChunk ≤ c'.nextChunk

theorem find?_filter_id_ne {chunks : List Chunk} {id id' : Nat} (h : id' ≠ id) :
    (chunks.filter fun k => k.id ≠ id').find? (fun k => k.id = id) = chunks.find? fun k => k.id = id := by
  rw [List.find?_filter]
  congr 1
  funext k
  by_cases hk : k.id = id
  · simp [hk, Ne.symm h]
  · simp [hk]

theorem find?_replace_id_ne (chunks : List Chunk) {k' : Chunk} {id : Nat} (h : k'.id ≠ id) :
    (chunks.map fun k => if k.id = k'.id then k' else k).find? (fun k => k.id = id) =
      chunks.find? fun k => k.id = id := by
  induction chunks with
  | nil => rfl
  | cons k chunks ih =>
    rw [List.map_cons, List.find?_cons, List.find?_cons, ih]
    by_cases hk : k.id = k'.id
    · simp [hk, h]
    · simp [hk]

theorem find?_replace_id_self {chunks : List Chunk} {k k' : Chunk}
    (h : chunks.find? (fun x => x.id = k'.id) = some k) :
    (chunks.map fun x => if x.id = k'.id then k' else x).find? (fun x => x.id = k'.id) = some k' := by
  induction chunks with
  | nil => cases h
  | cons x chunks ih =>
    rw [List.map_cons, List.find?_cons]
    rw [List.find?_cons] at h
    by_cases hx : x.id = k'.id
    · simp [hx]
    · simp only [hx, decide_false, if_false] at h ⊢
      exact ih h

theorem Client.chunk_freeChunk_of_ne (c : Client) {k : Chunk} {id : Nat} (h : k.id ≠ id) :
    (c.freeChunk k).chunk id = c.chunk id := find?_filter_id_ne h

theorem Client.chunk_freeChunk_self (c : Client) (k : Chunk) : (c.freeChunk k).chunk k.id = none := by
  simp [Client.chunk, Client.freeChunk]

theorem Client.releaseLatestSlot_eq (c : Client) (k : Chunk) :
    c.releaseLatestSlot k = { c with net := (c.releaseLatestSlot k).net } := by
  unfold Client.releaseLatestSlot
  split <;> rfl

theorem chunkIdleCb_untouched (c : Client) {k : Chunk} {id : Nat} (h : k.id ≠ id) :
    Untouched id c (chunkIdleCb c k) := by
  unfold chunkIdleCb
  split
  · rw [Client.releaseLatestSlot_eq]
    exact ⟨rfl, find?_filter_id_ne h, Nat.le_refl _⟩
  · have hl := processChunkMessages_run c k
    have hcalls : callsOf id (processChunkMessages c k).1.calls = callsOf id c.calls := by
      rw [hl.calls, callsOf_append, callsOf_messages_of_ne h, List.append_nil]
    dsimp only
    split
    · refine ⟨?_, ?_, hl.nextChunk.ge⟩
      · simp [Client.freeChunk, Client.finish, hl.id, callsOf_finish_of_ne h, hcalls]
      · rw [Client.chunk_freeChunk_of_ne _ (by rwa [hl.id])]
        simp [Client.chunk, Client.finish, hl.chunks]
    · refine ⟨hcalls, ?_, hl.nextChunk.ge⟩
      have hne : (processChunkMessages c k).2.id ≠ id := by rwa [hl.id]
      have := find?_replace_id_ne c.chunks hne
      simpa [Client.chunk, hl.chunks] using this

/-! ## The two paths -/

/-- The messages of a batch that are not context messages. -/
def Batch.rawCount (b : Batch) : Nat := (b.messages.filter fun m => !m.context).length

theorem newChunk_rawCount (n : Net) (b : Batch) (i id : Nat) (sh : Shape) :
    (newChunk n b i id sh).rawCount = b.rawCount := by
  simp only [newChunk, sortMessages, Batch.rawCount]
  exact congrArg _ ((List.perm_insertionSort _ _).filter _).length_eq

/-- A small batch is replayed up to one chunk and finished. -/
theorem processMessages_sync (c : Client) (b : Batch) (i : Nat) (sh : Shape)
    (h : b.rawCount ≤ CHATHISTORY_CHUNK_SIZE) :
    (processMessages c b i sh).calls = c.calls ++
      ((sortMessages b.messages).take CHATHISTORY_CHUNK_SIZE).map (.message c.nextChunk) ++
        [.finish c.nextChunk] ∧
    (processMessages c b i sh).chunks = c.chunks ∧
    (processMessages c b i sh).nextChunk = c.nextChunk + 1 := by
  have hl := processChunkMessages_run { c with nextChunk := c.nextChunk + 1 }
    (newChunk c.net b i c.nextChunk sh)
  have hr : (newChunk c.net b i c.nextChunk sh).rawCount ≤ CHATHISTORY_CHUNK_SIZE := by
    rw [newChunk_rawCount]
    exact_mod_cast h
  unfold processMessages
  dsimp only
  rw [if_pos hr]
  simp only [Client.finish, hl.calls, hl.id, hl.chunks, hl.nextChunk, and_self, and_true]
  rfl

/-- A large batch waits for the timer of its chunk. -/
theorem processMessages_chunked (c : Client) (b : Batch) (i : Nat) (sh : Shape)
    (h : CHATHISTORY_CHUNK_SIZE < b.rawCount) :
    (processMessages c b i sh).calls = c.calls ∧
    (processMessages c b i sh).chunks = newChunk c.net b i c.nextChunk sh :: c.chunks ∧
    (processMessages c b i sh).nextChunk = c.nextChunk + 1 := by
  have hr : ¬ (newChunk c.net b i c.nextChunk sh).rawCount ≤ CHATHISTORY_CHUNK_SIZE := by
    rw [newChunk_rawCount]
    exact_mod_cast Nat.not_le.2 h
  unfold processMessages
  dsimp only
  rw [if_neg hr]
  exact ⟨rfl, rfl, rfl⟩

/-- A batch gets a number of its own. -/
theorem chathistoryProcessBatch_untouched (c : Client) (b : Batch) {id : Nat} (h : id < c.nextChunk) :
    Untouched id c (chathistoryProcessBatch c b) := by
  have hne : c.nextChunk ≠ id := by omega
  unfold chathistoryProcessBatch
  split
  · exact ⟨rfl, rfl, Nat.le_refl _⟩
  · rename_i i net _
    dsimp only
    split
    · exact ⟨rfl, rfl, Nat.le_refl _⟩
    · by_cases hr : b.rawCount ≤ CHATHISTORY_CHUNK_SIZE
      · obtain ⟨hcalls, hchunks, hnext⟩ := processMessages_sync
          { c with net := (batchShape net b i).2 } b i (batchShape net b i).1 hr
        refine ⟨?_, ?_, hnext ▸ Nat.le_succ _⟩
        · simp only [hcalls, callsOf_append, callsOf_messages_of_ne hne, callsOf_finish_of_ne hne, List.append_nil]
        · rw [Client.chunk, hchunks, Client.chunk]
      · obtain ⟨hcalls, hchunks, hnext⟩ := processMessages_chunked
          { c with net := (batchShape net b i).2 } b i (batchShape net b i).1 (Nat.not_le.1 hr)
        refine ⟨congrArg _ hcalls, ?_, hnext ▸ Nat.le_succ _⟩
        rw [Client.chunk, hchunks, Client.chunk, List.find?_cons]
        simp [newChunk, hne]

/-- The event cancels chunk `id`. -/
def Cancels (c : Client) (id : Nat) (e : Event) : Prop := ∃ i, e = .cancelChunk i ∧ c.chunkState i = some id

theorem step_untouched (c : Client) {id : Nat} (h : id < c.nextChunk) {e : Event} (ht : e ≠ .chunkTick id)
    (hc : ¬ Cancels c id e) : Untouched id c (step c e) := by
  cases e
  case batch b => exact chathistoryProcessBatch_untouched c b h
  case chunkTick id' =>
    have hne : id' ≠ id := fun he => ht (he ▸ rfl)
    simp only [step]
    split
    · rename_i k hk
      have : k.id = id' := by simpa using List.find?_some hk
      exact chunkIdleCb_untouched c (this ▸ hne)
    · exact ⟨rfl, rfl, Nat.le_refl _⟩
  case cancelChunk i =>
    simp only [step, chathistoryCancelChunkProcessing]
    split
    · exact ⟨rfl, rfl, Nat.le_refl _⟩
    · rename_i k hk
      obtain ⟨id', hs, hf⟩ := Option.bind_eq_some_iff.1 hk
      have hid : k.id = id' := by simpa using List.find?_some hf
      have hne : k.id ≠ id := fun he => hc ⟨i, rfl, by rw [hs, ← hid, he]⟩
      rw [Client.releaseLatestSlot_eq]
      exact ⟨rfl, Client.chunk_freeChunk_of_ne _ hne, Nat.le_refl _⟩
  all_goals exact ⟨rfl, rfl, Nat.le_refl _⟩

/-! ## A chunk over a run -/

/-- Chunk `id` of session `i` waits for its timer with the messages `ms`, after the calls `done`. -/
structure Waiting (id i : Nat) (done : List Call) (ms : List BatchMessage) (c : Client) : Prop where
  old : id < c.nextChunk
  calls : callsOf id c.calls = done
  chunk : ∃ k, c.chunk id = some k ∧ k.remaining = ms ∧ k.sess = i

/-- Chunk `id` is gone, after the calls `done`. -/
structure Gone (id : Nat) (done : List Call) (c : Client) : Prop where
  old : id < c.nextChunk
  calls : callsOf id c.calls = done
  chunk : c.chunk id = none

variable {id i : Nat} {done : List Call} {ms : List BatchMessage} {c : Client} {e : Event}

theorem Waiting.untouched (h : Waiting id i done ms c) {c' : Client} (hu : Untouched id c c') :
    Waiting id i done ms c' :=
  ⟨Nat.lt_of_lt_of_le h.old hu.nextChunk, hu.calls.trans h.calls, hu.chunk ▸ h.chunk⟩

theorem Gone.untouched (h : Gone id done c) {c' : Client} (hu : Untouched id c c') : Gone id done c' :=
  ⟨Nat.lt_of_lt_of_le h.old hu.nextChunk, hu.calls.trans h.calls, hu.chunk.trans h.chunk⟩

/-- The timer of a waiting chunk: the next chunk of messages, and the end after the last one. -/
theorem Waiting.tick (h : Waiting id i done ms c) (hs : i ∈ c.net.sessList) :
    if ms.length ≤ CHATHISTORY_CHUNK_SIZE then
      Gone id (done ++ ms.map (.message id) ++ [.finish id]) (step c (.chunkTick id))
    else
      Waiting id i (done ++ (ms.take CHATHISTORY_CHUNK_SIZE).map (.message id))
        (ms.drop CHATHISTORY_CHUNK_SIZE) (step c (.chunkTick id)) := by
  obtain ⟨k, hk, rfl, rfl⟩ := h.chunk
  have hid : k.id = id := by simpa using List.find?_some hk
  subst hid
  have hl := processChunkMessages_run c k
  have hcalls : callsOf k.id (processChunkMessages c k).1.calls =
      done ++ (k.remaining.take CHATHISTORY_CHUNK_SIZE).map (.message k.id) := by
    rw [hl.calls, callsOf_append, callsOf_messages_self, h.calls]
  have hold : k.id < (processChunkMessages c k).1.nextChunk := hl.nextChunk ▸ h.old
  have hstep : step c (.chunkTick k.id) = chunkIdleCb c k := by
    simp only [step]
    rw [show c.chunks.find? (fun k' => decide (k'.id = k.id)) = some k from hk]
  rw [hstep]
  unfold chunkIdleCb
  rw [if_neg (not_not.2 hs)]
  dsimp only
  rw [hl.remaining]
  split
  · rename_i hle
    rw [if_pos (List.drop_eq_nil_of_le hle)]
    refine ⟨hold, ?_, ?_⟩
    · rw [List.take_of_length_le hle] at hcalls
      simp [Client.freeChunk, Client.finish, hl.id, hcalls]
    · have := Client.chunk_freeChunk_self ((processChunkMessages c k).1.finish (processChunkMessages c k).2)
        (processChunkMessages c k).2
      rwa [hl.id] at this
  · rename_i hlt
    rw [if_neg (by simpa [List.drop_eq_nil_iff] using hlt)]
    refine ⟨hold, hcalls, (processChunkMessages c k).2, ?_, hl.remaining, hl.sess⟩
    have hfind : c.chunks.find? (fun x => x.id = (processChunkMessages c k).2.id) = some k := by
      rw [hl.id]
      exact hk
    have := find?_replace_id_self hfind
    rw [hl.id] at this
    simpa [Client.chunk, hl.chunks, hl.id] using this

theorem Waiting.step (h : Waiting id i done ms c) (ht : e ≠ .chunkTick id) (hc : ¬ Cancels c id e) :
    Waiting id i done ms (ChatHistory.step c e) := h.untouched (step_untouched c h.old ht hc)

/-- Nothing happens to a chunk that is gone. -/
theorem Gone.step (h : Gone id done c) (e : Event) : Gone id done (ChatHistory.step c e) := by
  have hf : c.chunks.find? (fun k => decide (k.id = id)) = none := h.chunk
  by_cases ht : e = .chunkTick id
  · subst ht
    simpa only [ChatHistory.step, hf] using h
  · by_cases hc : Cancels c id e
    · obtain ⟨j, rfl, hj⟩ := hc
      simpa only [ChatHistory.step, chathistoryCancelChunkProcessing, hj, Option.bind_some, hf] using h
    · exact h.untouched (step_untouched c h.old ht hc)

theorem Gone.run (h : Gone id done c) (es : List Event) : Gone id done (ChatHistory.run c es) := by
  induction es generalizing c with
  | nil => exact h
  | cons e es ih => exact ih (h.step e)

/-- The session of chunk `id` is there, and the event does not cancel the chunk. -/
def Undisturbed (id i : Nat) (c : Client) (e : Event) : Prop := i ∈ c.net.sessList ∧ ¬ Cancels c id e

/-- Over a run, a waiting chunk is replayed a chunk per tick of its timer, then finished. -/
theorem Waiting.run {es : List Event} (h : Waiting id i done ms c) (hne : ms ≠ [])
    (hr : Along ChatHistory.step (Undisturbed id i) c es) :
    callsOf id (ChatHistory.run c es).calls =
      done ++ (ms.take (CHATHISTORY_CHUNK_SIZE * es.count (.chunkTick id))).map (.message id) ++
        if ms.length ≤ CHATHISTORY_CHUNK_SIZE * es.count (.chunkTick id) then [.finish id] else [] := by
  induction es generalizing c done ms with
  | nil =>
    have : ms.length ≠ 0 := by simpa using hne
    simp [ChatHistory.run, h.calls, hne]
  | cons e es ih =>
    by_cases ht : e = .chunkTick id
    · subst ht
      rw [List.count_cons_self, Nat.mul_succ]
      have hstep := h.tick hr.1.1
      split at hstep
      · rename_i hle
        rw [List.take_of_length_le (by omega), if_pos (by omega)]
        exact (hstep.run es).calls
      · rename_i hlt
        have hrest := ih hstep (by simpa [List.drop_eq_nil_iff] using hlt) hr.2
        refine hrest.trans ?_
        rw [Nat.add_comm (CHATHISTORY_CHUNK_SIZE * _), List.take_add, List.length_drop, List.map_append,
          List.append_assoc done]
        congr 1
        by_cases hfin : ms.length - CHATHISTORY_CHUNK_SIZE ≤ CHATHISTORY_CHUNK_SIZE * es.count (.chunkTick id)
        · rw [if_pos hfin, if_pos (by omega)]
        · rw [if_neg hfin, if_neg (by omega)]
    · rw [List.count_cons_of_ne ht]
      exact ih (h.step ht hr.1.2) hne hr.2

/-! ## Delivery -/

/-- The messages in the order of their timestamps, those of one time as they arrived. -/
structure Arranged (ms messages : List BatchMessage) : Prop where
  perm : ms.Perm messages
  ordered : ms.Pairwise fun a b => a.timestamp ≤ b.timestamp
  stable : ∀ t, ms.filter (fun m => m.timestamp = t) = messages.filter fun m => m.timestamp = t

section

local instance : Std.Total fun a b : BatchMessage => a.timestamp ≤ b.timestamp :=
  ⟨fun _ _ => Int.le_total _ _⟩

local instance : IsTrans BatchMessage fun a b => a.timestamp ≤ b.timestamp := ⟨fun _ _ _ => Int.le_trans⟩

theorem sortMessages_arranged (messages : List BatchMessage) : Arranged (sortMessages messages) messages where
  perm := List.perm_insertionSort _ _
  ordered := List.pairwise_insertionSort _ _
  stable t := by
    -- the messages of one time are a sorted sublist, and sorting keeps those in place
    have hsame : (messages.filter fun m => m.timestamp = t).Pairwise fun a b => a.timestamp ≤ b.timestamp := by
      refine List.pairwise_of_forall_mem_list fun a ha b hb => ?_
      simp only [List.mem_filter, decide_eq_true_eq] at ha hb
      omega
    have hsub := (List.sublist_insertionSort hsame List.filter_sublist).filter fun m => decide (m.timestamp = t)
    rw [List.filter_filter] at hsub
    simp only [Bool.and_self] at hsub
    exact (hsub.eq_of_length (((List.perm_insertionSort _ _).filter _).length_eq).symm).symm

end

/-- The batch was replayed, every message once, and then finished. -/
def DeliveredOnce (id : Nat) (calls : List Call) (messages : List BatchMessage) : Prop :=
  ∃ ms, Arranged ms messages ∧ callsOf id calls = ms.map (.message id) ++ [.finish id]

theorem Arranged.length {ms messages : List BatchMessage} (h : Arranged ms messages) :
    ms.length = messages.length := h.perm.length_eq

/-- The calls of a batch handed to `chathistory_process_batch` under a new number, over a run. -/
theorem batch_calls {b : Batch} {net : Net} {es : List Event} (hf : callsOf c.nextChunk c.calls = [])
    (hn : c.chunk c.nextChunk = none) (hb : b.messages ≠ []) (hs : batchSession c.net b = (some i, net))
    (hr : Along step (Undisturbed c.nextChunk i) (step c (.batch b)) es) :
    callsOf c.nextChunk (run c (.batch b :: es)).calls =
      if b.rawCount ≤ CHATHISTORY_CHUNK_SIZE then
        ((sortMessages b.messages).take CHATHISTORY_CHUNK_SIZE).map (.message c.nextChunk) ++
          [.finish c.nextChunk]
      else
        ((sortMessages b.messages).take (CHATHISTORY_CHUNK_SIZE * es.count (.chunkTick c.nextChunk))).map
            (.message c.nextChunk) ++
          if b.messages.length ≤ CHATHISTORY_CHUNK_SIZE * es.count (.chunkTick c.nextChunk) then
            [.finish c.nextChunk]
          else [] := by
  have hstep : step c (.batch b) = processMessages { c with net := (batchShape net b i).2 } b i
      (batchShape net b i).1 := by
    simp only [step, chathistoryProcessBatch, hs, if_neg hb]
  split
  · rename_i hle
    obtain ⟨hcalls, hchunks, hnext⟩ := processMessages_sync { c with net := (batchShape net b i).2 } b i
      (batchShape net b i).1 hle
    have hgone : Gone c.nextChunk (((sortMessages b.messages).take CHATHISTORY_CHUNK_SIZE).map
        (.message c.nextChunk) ++ [.finish c.nextChunk]) (step c (.batch b)) := by
      rw [hstep]
      refine ⟨hnext ▸ Nat.lt_succ_self _, ?_, ?_⟩
      · rw [hcalls]
        simp only [callsOf_append, hf, callsOf_messages_self, callsOf_finish_self, List.nil_append]
      · rw [Client.chunk, hchunks]
        exact hn
    exact (hgone.run es).calls
  · rename_i hlt
    obtain ⟨hcalls, hchunks, hnext⟩ := processMessages_chunked { c with net := (batchShape net b i).2 } b i
      (batchShape net b i).1 (Nat.not_le.1 hlt)
    have hwait : Waiting c.nextChunk i [] (sortMessages b.messages) (step c (.batch b)) := by
      rw [hstep]
      refine ⟨hnext ▸ Nat.lt_succ_self _, ?_,
        newChunk (batchShape net b i).2 b i c.nextChunk (batchShape net b i).1, ?_, rfl, rfl⟩
      · rw [hcalls]
        exact hf
      · rw [Client.chunk, hchunks, List.find?_cons]
        simp [newChunk]
    have hlen := (sortMessages_arranged b.messages).length
    have hne : sortMessages b.messages ≠ [] := by
      rw [Ne, ← List.length_eq_zero_iff, hlen, List.length_eq_zero_iff]
      exact hb
    refine (hwait.run hne hr).trans ?_
    rw [hlen, List.nil_append]

/-! ## Numbers -/

/-- A connection without chunks. -/
def Client.start (net : Net) : Client := ⟨net, [], fun _ => none, 0, []⟩

/-- No chunk and no call carries a number that is still to be given. -/
structure Numbered (c : Client) : Prop where
  chunks : ∀ k ∈ c.chunks, k.id < c.nextChunk
  calls : ∀ x ∈ c.calls, x.chunk < c.nextChunk

theorem Numbered.calls_nil (h : Numbered c) : callsOf c.nextChunk c.calls = [] := by
  refine List.filter_eq_nil_iff.2 fun x hx => ?_
  have := h.calls x hx
  simp only [decide_eq_true_eq]
  omega

theorem Numbered.chunk_none (h : Numbered c) : c.chunk c.nextChunk = none := by
  refine List.find?_eq_none.2 fun k hk => ?_
  have := h.chunks k hk
  simp only [decide_eq_true_eq]
  omega

theorem chathistoryProcessBatch_numbered (h : Numbered c) (b : Batch) :
    Numbered (chathistoryProcessBatch c b) := by
  unfold chathistoryProcessBatch
  split
  · exact ⟨h.chunks, h.calls⟩
  · rename_i i net _
    dsimp only
    split
    · exact ⟨h.chunks, h.calls⟩
    · by_cases hr : b.rawCount ≤ CHATHISTORY_CHUNK_SIZE
      · obtain ⟨hcalls, hchunks, hnext⟩ := processMessages_sync
          { c with net := (batchShape net b i).2 } b i (batchShape net b i).1 hr
        refine ⟨fun k hk => ?_, fun x hx => ?_⟩
        · rw [hnext]
          exact Nat.lt_succ_of_lt (h.chunks k (hchunks ▸ hk))
        · rw [hcalls] at hx
          rw [hnext]
          simp only [List.mem_append, List.mem_map, List.mem_singleton] at hx
          rcases hx with (hx | ⟨_, _, rfl⟩) | rfl
          · exact Nat.lt_succ_of_lt (h.calls x hx)
          · exact Nat.lt_succ_self _
          · exact Nat.lt_succ_self _
      · obtain ⟨hcalls, hchunks, hnext⟩ := processMessages_chunked
          { c with net := (batchShape net b i).2 } b i (batchShape net b i).1 (Nat.not_le.1 hr)
        refine ⟨fun k hk => ?_, fun x hx => ?_⟩
        · rw [hchunks] at hk
          rw [hnext]
          rcases List.mem_cons.1 hk with rfl | hk
          · exact Nat.lt_succ_self _
          · exact Nat.lt_succ_of_lt (h.chunks k hk)
        · rw [hcalls] at hx
          rw [hnext]
          exact Nat.lt_succ_of_lt (h.calls x hx)

theorem chunkIdleCb_numbered (h : Numbered c) {k : Chunk} (hk : k ∈ c.chunks) :
    Numbered (chunkIdleCb c k) := by
  have hid := h.chunks k hk
  unfold chunkIdleCb
  split
  · rw [Client.releaseLatestSlot_eq]
    exact ⟨fun k' hk' => h.chunks k' (List.mem_of_mem_filter hk'), h.calls⟩
  · have hl := processChunkMessages_run c k
    have hcalls : ∀ x ∈ (processChunkMessages c k).1.calls, x.chunk < c.nextChunk := by
      intro x hx
      rw [hl.calls] at hx
      rcases List.mem_append.1 hx with hx | hx
      · exact h.calls x hx
      · obtain ⟨_, _, rfl⟩ := List.mem_map.1 hx
        exact hid
    dsimp only
    split
    · refine ⟨fun k' hk' => ?_, fun x hx => ?_⟩
      · have := List.mem_of_mem_filter hk'
        simp only [Client.finish, hl.chunks] at this
        simpa only [Client.freeChunk, Client.finish, hl.nextChunk] using h.chunks k' this
      · simp only [Client.freeChunk, Client.finish, List.mem_append, List.mem_singleton, hl.nextChunk] at hx ⊢
        rcases hx with hx | rfl
        · exact hcalls x hx
        · simpa only [Call.chunk, hl.id] using hid
    · refine ⟨fun k' hk' => ?_, by simpa only [hl.nextChunk] using hcalls⟩
      simp only [hl.chunks, hl.nextChunk, hl.id, List.mem_map] at hk' ⊢
      obtain ⟨k₀, hk₀, rfl⟩ := hk'
      split
      · simpa only [hl.id] using hid
      · exact h.chunks k₀ hk₀

theorem Numbered.step (h : Numbered c) (e : Event) : Numbered (ChatHistory.step c e) := by
  cases e
  case batch b => exact chathistoryProcessBatch_numbered h b
  case chunkTick id =>
    simp only [ChatHistory.step]
    split
    · rename_i k hk
      exact chunkIdleCb_numbered h (List.mem_of_find?_eq_some hk)
    · exact h
  case cancelChunk i =>
    simp only [ChatHistory.step, chathistoryCancelChunkProcessing]
    split
    · exact h
    · rw [Client.releaseLatestSlot_eq]
      exact ⟨fun k' hk' => h.chunks k' (List.mem_of_mem_filter hk'), h.calls⟩
  all_goals exact ⟨h.chunks, h.calls⟩

theorem run_numbered (net : Net) (es : List Event) : Numbered (run (Client.start net) es) := by
  have : ∀ c, Numbered c → Numbered (run c es) := by
    induction es with
    | nil => exact fun _ h => h
    | cons e es ih => exact fun c h => ih _ (h.step e)
  exact this _ ⟨by simp [Client.start], by simp [Client.start]⟩

/-- **Batch delivery**: a non-empty batch whose chunk is left alone, its timer firing until the
messages run out, is delivered exactly when it is chunked or fits one chunk. -/
theorem batch_delivered_iff (net net' : Net) (before after : List Event) (b : Batch) (i : Nat)
    (hb : b.messages ≠ []) (hs : batchSession (run (Client.start net) before).net b = (some i, net'))
    (hr : Along step (Undisturbed (run (Client.start net) before).nextChunk i)
      (step (run (Client.start net) before) (.batch b)) after)
    (ht : CHATHISTORY_CHUNK_SIZE < b.rawCount → b.messages.length ≤
      CHATHISTORY_CHUNK_SIZE * after.count (.chunkTick (run (Client.start net) before).nextChunk)) :
    DeliveredOnce (run (Client.start net) before).nextChunk
        (run (Client.start net) (before ++ .batch b :: after)).calls b.messages ↔
      CHATHISTORY_CHUNK_SIZE < b.rawCount ∨ b.messages.length ≤ CHATHISTORY_CHUNK_SIZE := by
  have hnum := run_numbered net before
  have hcalls := batch_calls hnum.calls_nil hnum.chunk_none hb hs hr
  have hrun : run (Client.start net) (before ++ .batch b :: after) =
      run (run (Client.start net) before) (.batch b :: after) := List.foldl_append ..
  have harr := sortMessages_arranged b.messages
  rw [hrun]
  by_cases hle : b.rawCount ≤ CHATHISTORY_CHUNK_SIZE
  · rw [if_pos hle] at hcalls
    constructor
    · rintro ⟨ms, hms, heq⟩
      have hlen := congrArg List.length (heq.symm.trans hcalls)
      simp only [List.length_append, List.length_map, List.length_take, harr.length, hms.length,
        List.length_singleton] at hlen
      omega
    · intro h
      refine ⟨sortMessages b.messages, harr, hcalls.trans ?_⟩
      rw [List.take_of_length_le (by rw [harr.length]; omega)]
  · rw [if_neg hle, if_pos (ht (by omega)), List.take_of_length_le (by rw [harr.length]; exact ht (by omega))] at hcalls
    exact ⟨fun _ => .inl (by omega), fun _ => ⟨_, harr, hcalls⟩⟩

/-- A connected server with `draft/chathistory`, these sessions and nothing stored. -/
def Net.connected (sessions : List Session) : Net where
  serv :=
    { connected := true, haveChathistory := true, chathistoryLimit := 0, chathistorySuppressed := false
      chathistoryFailStreak := 0, chathistoryBetweenUnsupported := false, chathistoryLatestPending := 0
      chathistoryBeforeSess := none, chathistoryStartTimer := false, chathistoryBeforeTimer := false
      chathistoryTargetsDeferred := false, lastDisconnectTime := 0, persistenceAttached := false
      persistenceCursorSent := false, persistenceReplaySeen := false, activeBatches := []
      chantypes := "#", pCmp := fun a b => decide (a = b) }
  prefs :=
    { chathistoryAuto := true, chathistoryLines := 100, chathistoryBackgroundMaxAge := 0, gapfill := true
      gapfillCatchupBudget := 500, textReplay := true }
  handlers := { stores := fun _ _ => [], tracks := fun _ _ => none }
  heap := fun i => sessions.getD i { type := .server, channel := "" }
  sessList := List.range sessions.length
  nextSess := sessions.length
  currentSess := none
  db := none
  retentionCutoff := 0
  now := 0
  sent := []
  slots := []

/-- A line of a channel. -/
def BatchMessage.line (msgid : String) (timestamp : Int) : BatchMessage :=
  ⟨some "PRIVMSG", some "nick!user@host", ["#c", ":text"], some msgid, timestamp, false⟩

/-- A reaction the server appends to a line. -/
def BatchMessage.reaction (timestamp : Int) : BatchMessage :=
  ⟨some "TAGMSG", some "nick!user@host", ["#c"], none, timestamp, true⟩

/-- A batch for `#c` that answers nothing and nests in nothing. -/
def Batch.plain (messages : List BatchMessage) : Batch := ⟨some "#c", none, false, messages⟩

theorem batch_delivered_out_of_order :
    DeliveredOnce 0 (run (Client.start (.connected [{ type := .channel, channel := "#c" }]))
      [.batch (.plain [.line "b" 20, .reaction 30, .line "a" 10])]).calls
        [.line "b" 20, .reaction 30, .line "a" 10] :=
  (batch_delivered_iff (.connected [{ type := .channel, channel := "#c" }]) _ [] []
    (.plain [.line "b" 20, .reaction 30, .line "a" 10]) 0 (by decide) rfl trivial (by decide)).2 (.inr (by decide))

/-- Fifty lines of one second and a reaction to one of them. -/
def fiftyAndReaction : Batch := .plain (List.replicate 50 (.line "a" 10) ++ [.reaction 11])

/-- The batch is finished without its reaction. -/
theorem reaction_lost :
    (.finish 0 : Call) ∈ (run (Client.start (.connected [{ type := .channel, channel := "#c" }]))
      [.batch fiftyAndReaction]).calls ∧
    (.message 0 (.reaction 11) : Call) ∉ (run (Client.start (.connected [{ type := .channel, channel := "#c" }]))
      [.batch fiftyAndReaction]).calls ∧
    ¬ DeliveredOnce 0 (run (Client.start (.connected [{ type := .channel, channel := "#c" }]))
      [.batch fiftyAndReaction]).calls fiftyAndReaction.messages := by
  have hcalls : (run (Client.start (.connected [{ type := .channel, channel := "#c" }]))
      [.batch fiftyAndReaction]).calls = List.replicate 50 (.message 0 (.line "a" 10)) ++ [.finish 0] := by
    decide
  rw [hcalls]
  refine ⟨by simp, by decide, ?_⟩
  rintro ⟨ms, hms, heq⟩
  have hlen := congrArg List.length heq
  rw [List.length_append, List.length_map, hms.length] at hlen
  revert hlen
  decide

end PoxChat.ChatHistory
