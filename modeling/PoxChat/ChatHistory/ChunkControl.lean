import PoxChat.ChatHistory.Delivery

/-!
# One chunk and one mode per session

`sess->chunk_state` holds the chunk that `chathistory_cancel_chunk_processing` can stop, and
`history_insert_sorted_mode` makes the replayed messages go to their place.  Both belong to the session, while a
server may send a second batch for it before the first is through.

* `Display` — the client of `Batches`, with the mode of every session and a record of the mode each message was
  replayed under.
* `Controlled` — every scheduled chunk is the one its session holds, its session is in the mode, and every message
  was replayed in it.

Principal result: `chunks_controlled_iff` — a run keeps its chunks under control exactly when no non-empty batch
arrives for a session that has one scheduled.
-/

set_option autoImplicit false

namespace PoxChat.ChatHistory

open Lib

/-! ## The mode of a session -/

structure Display where
  client : Client
  historyInsertSortedMode : Nat → Bool
  /-- The messages replayed so far: the number of their chunk, and the mode. -/
  replayed : List (Nat × Bool)

def Call.messageChunk : Call → Option Nat
  | .message id _ => some id
  | .finish _ => none

namespace Display

def setSorted (d : Display) (i : Nat) (mode : Bool) : Display :=
  { d with historyInsertSortedMode := Function.update d.historyInsertSortedMode i mode }

/-- The client takes a step; the messages it replays are those of session `i`. -/
def advance (d : Display) (e : Event) (i : Nat) : Display :=
  let calls := (step d.client e).calls.drop d.client.calls.length
  { d with
    client := step d.client e
    replayed := d.replayed ++ (calls.filterMap Call.messageChunk).map fun id => (id, d.historyInsertSortedMode i) }

end Display

/-- A step of the client, with the assignments to `history_insert_sorted_mode` of `chathistory_process_batch`,
`finish_batch_processing` and `chathistory_cancel_chunk_processing`. -/
def displayStep (d : Display) (e : Event) : Display :=
  match e with
  | .batch b =>
    match (batchSession d.client.net b).1 with
    | none => d.advance e 0
    | some i =>
      if b.messages = [] then d.advance e i
      else
        let d := (d.setSorted i true).advance e i
        -- a small batch is finished at once
        if b.rawCount ≤ CHATHISTORY_CHUNK_SIZE then d.setSorted i false else d
  | .chunkTick id =>
    match d.client.chunk id with
    | none => d.advance e 0
    | some k =>
      if k.sess ∉ d.client.net.sessList then d.advance e k.sess
      else
        let d := d.advance e k.sess
        if k.remaining.length ≤ CHATHISTORY_CHUNK_SIZE then d.setSorted k.sess false else d
  | .cancelChunk i =>
    match (d.client.chunkState i).bind d.client.chunk with
    | none => d.advance e i
    | some _ => (d.advance e i).setSorted i false
  | e => d.advance e 0

/-- A connection before its first batch. -/
def Display.start (net : Net) : Display := ⟨Client.start net, fun _ => false, []⟩

/-- Every scheduled chunk is the one its session holds, its session is in the mode, and every message was replayed
in it. -/
structure Controlled (d : Display) : Prop where
  held : ∀ k ∈ d.client.chunks, d.client.chunkState k.sess = some k.id
  sorted : ∀ k ∈ d.client.chunks, d.historyInsertSortedMode k.sess = true
  replayed : ∀ p ∈ d.replayed, p.2 = true

/-- No non-empty batch arrives for a session that has a chunk scheduled. -/
def Alone (d : Display) : Event → Prop
  | .batch b => b.messages ≠ [] → ∀ i ∈ (batchSession d.client.net b).1, ∀ k ∈ d.client.chunks, k.sess ≠ i
  | _ => True

/-! ## What a step does to the chunks -/

variable {c : Client} {b : Batch} {i : Nat} {k : Chunk}

/-- The chunks, the calls and what the sessions hold are as they were. -/
structure SameChunks (c c' : Client) : Prop where
  chunks : c'.chunks = c.chunks
  chunkState : c'.chunkState = c.chunkState
  calls : c'.calls = c.calls
  nextChunk : c'.nextChunk = c.nextChunk

theorem processBatch_nowhere (h : (batchSession c.net b).1 = none) : SameChunks c (chathistoryProcessBatch c b) := by
  unfold chathistoryProcessBatch
  split
  · exact ⟨rfl, rfl, rfl, rfl⟩
  · rename_i hs
    rw [hs] at h
    cases h

theorem processBatch_empty (h : b.messages = []) : SameChunks c (chathistoryProcessBatch c b) := by
  unfold chathistoryProcessBatch
  split
  · exact ⟨rfl, rfl, rfl, rfl⟩
  · dsimp only
    rw [if_pos h]
    exact ⟨rfl, rfl, rfl, rfl⟩

theorem processBatch_eq (hs : (batchSession c.net b).1 = some i) (hm : b.messages ≠ []) :
    ∃ net sh, chathistoryProcessBatch c b = processMessages { c with net := net } b i sh := by
  unfold chathistoryProcessBatch
  split
  · rename_i h
    rw [h] at hs
    cases hs
  · rename_i j net h
    rw [h] at hs
    cases hs
    dsimp only
    rw [if_neg hm]
    exact ⟨_, _, rfl⟩

/-- A batch replayed at once leaves the scheduled chunks alone. -/
theorem processBatch_sync (hs : (batchSession c.net b).1 = some i) (hm : b.messages ≠ [])
    (hr : b.rawCount ≤ CHATHISTORY_CHUNK_SIZE) :
    (chathistoryProcessBatch c b).chunks = c.chunks ∧ (chathistoryProcessBatch c b).chunkState = c.chunkState ∧
      (chathistoryProcessBatch c b).nextChunk = c.nextChunk + 1 := by
  obtain ⟨net, sh, heq⟩ := processBatch_eq hs hm
  obtain ⟨-, hchunks, hnext⟩ := processMessages_sync { c with net := net } b i sh hr
  rw [heq]
  refine ⟨hchunks, ?_, hnext⟩
  have hraw : (newChunk net b i c.nextChunk sh).rawCount ≤ CHATHISTORY_CHUNK_SIZE := by
    rw [newChunk_rawCount]
    exact_mod_cast hr
  unfold processMessages
  dsimp only
  rw [if_pos hraw]
  exact (processChunkMessages_run { c with net := net, nextChunk := c.nextChunk + 1 } _).chunkState

/-- A large batch is scheduled, and its session holds it. -/
theorem processBatch_chunked (hs : (batchSession c.net b).1 = some i) (hm : b.messages ≠ [])
    (hr : CHATHISTORY_CHUNK_SIZE < b.rawCount) :
    ∃ k : Chunk, k.sess = i ∧ k.id = c.nextChunk ∧ (chathistoryProcessBatch c b).chunks = k :: c.chunks ∧
      (chathistoryProcessBatch c b).chunkState = Function.update c.chunkState i (some c.nextChunk) ∧
      (chathistoryProcessBatch c b).calls = c.calls ∧ (chathistoryProcessBatch c b).nextChunk = c.nextChunk + 1 := by
  obtain ⟨net, sh, heq⟩ := processBatch_eq hs hm
  obtain ⟨hcalls, hchunks, hnext⟩ := processMessages_chunked { c with net := net } b i sh hr
  rw [heq]
  refine ⟨_, rfl, rfl, hchunks, ?_, hcalls, hnext⟩
  have hraw : ¬ (newChunk net b i c.nextChunk sh).rawCount ≤ CHATHISTORY_CHUNK_SIZE := by
    rw [newChunk_rawCount]
    exact_mod_cast Nat.not_le.2 hr
  unfold processMessages
  dsimp only
  rw [if_neg hraw]
  rfl

theorem chunkIdle_unlisted (h : k.sess ∉ c.net.sessList) :
    (chunkIdleCb c k).chunks = (c.chunks.filter fun k' => k'.id ≠ k.id) ∧
      (chunkIdleCb c k).chunkState = c.chunkState ∧ (chunkIdleCb c k).calls = c.calls ∧
      (chunkIdleCb c k).nextChunk = c.nextChunk := by
  unfold chunkIdleCb
  rw [if_pos h, Client.releaseLatestSlot_eq]
  exact ⟨rfl, rfl, rfl, rfl⟩

/-- The last tick of a chunk frees it. -/
theorem chunkIdle_last (h : k.sess ∈ c.net.sessList) (hr : k.remaining.length ≤ CHATHISTORY_CHUNK_SIZE) :
    (chunkIdleCb c k).chunks = (c.chunks.filter fun k' => k'.id ≠ k.id) ∧
      (chunkIdleCb c k).chunkState = (if c.chunkState k.sess = some k.id then
        Function.update c.chunkState k.sess none else c.chunkState) ∧
      (chunkIdleCb c k).nextChunk = c.nextChunk := by
  have hl := processChunkMessages_run c k
  have hnil : (processChunkMessages c k).2.remaining = [] := by
    rw [hl.remaining, List.drop_eq_nil_iff]
    exact hr
  unfold chunkIdleCb
  rw [if_neg (not_not_intro h)]
  dsimp only
  rw [if_pos hnil]
  simp only [Client.freeChunk, Client.finish, hl.chunks, hl.chunkState, hl.id, hl.sess, hl.nextChunk, and_self]

/-- The other ticks leave the chunk scheduled. -/
theorem chunkIdle_more (h : k.sess ∈ c.net.sessList) (hr : ¬ k.remaining.length ≤ CHATHISTORY_CHUNK_SIZE) :
    ∃ k' : Chunk, k'.id = k.id ∧ k'.sess = k.sess ∧
      (chunkIdleCb c k).chunks = (c.chunks.map fun x => if x.id = k.id then k' else x) ∧
      (chunkIdleCb c k).chunkState = c.chunkState ∧ (chunkIdleCb c k).nextChunk = c.nextChunk := by
  have hl := processChunkMessages_run c k
  have hne : (processChunkMessages c k).2.remaining ≠ [] := by
    rw [hl.remaining, Ne, List.drop_eq_nil_iff]
    exact hr
  refine ⟨(processChunkMessages c k).2, hl.id, hl.sess, ?_⟩
  unfold chunkIdleCb
  rw [if_neg (not_not_intro h)]
  dsimp only
  rw [if_neg hne]
  simp only [hl.chunks, hl.chunkState, hl.nextChunk, hl.id, and_self]

/-- The chunk that a session holds is cancelled. -/
theorem cancelChunk_held (h : (c.chunkState i).bind c.chunk = some k) :
    (chathistoryCancelChunkProcessing c i).chunks = (c.chunks.filter fun k' => k'.id ≠ k.id) ∧
      (chathistoryCancelChunkProcessing c i).chunkState = (if c.chunkState k.sess = some k.id then
        Function.update c.chunkState k.sess none else c.chunkState) ∧
      (chathistoryCancelChunkProcessing c i).calls = c.calls ∧
      (chathistoryCancelChunkProcessing c i).nextChunk = c.nextChunk := by
  unfold chathistoryCancelChunkProcessing
  split
  · rename_i hn
    exact absurd (hn.symm.trans h) (by simp)
  · rename_i k' hk
    obtain rfl : k' = k := Option.some.inj (hk.symm.trans h)
    dsimp only
    rw [Client.releaseLatestSlot_eq]
    exact ⟨rfl, rfl, rfl, rfl⟩

theorem cancelChunk_none (h : (c.chunkState i).bind c.chunk = none) :
    SameChunks c (chathistoryCancelChunkProcessing c i) := by
  unfold chathistoryCancelChunkProcessing
  split
  · exact ⟨rfl, rfl, rfl, rfl⟩
  · rename_i hk
    exact absurd (h.symm.trans hk) (by simp)

/-! ## Ownership -/

/-- The numbers are given out in order, and a chunk that is held belongs to its holder. -/
structure Owned (c : Client) : Prop where
  numbered : ∀ k ∈ c.chunks, k.id < c.nextChunk
  fresh : ∀ i id, c.chunkState i = some id → id < c.nextChunk
  owner : ∀ i id, c.chunkState i = some id → ∀ k ∈ c.chunks, k.id = id → k.sess = i

variable {c' : Client}

theorem Owned.same (h : Owned c) (hs : SameChunks c c') : Owned c' where
  numbered k hk := by
    rw [hs.nextChunk]
    exact h.numbered k (hs.chunks ▸ hk)
  fresh i id hid := by
    rw [hs.nextChunk]
    exact h.fresh i id (hs.chunkState ▸ hid)
  owner i id hid k hk := h.owner i id (hs.chunkState ▸ hid) k (hs.chunks ▸ hk)

/-- Chunks that are left out, and held chunks that are let go, change nothing for the others. -/
theorem Owned.fewer (h : Owned c) (hc : ∀ k ∈ c'.chunks, ∃ k₀ ∈ c.chunks, k₀.id = k.id ∧ k₀.sess = k.sess)
    (hs : ∀ i id, c'.chunkState i = some id → c.chunkState i = some id) (hn : c.nextChunk ≤ c'.nextChunk) :
    Owned c' where
  numbered k hk := by
    obtain ⟨k₀, hk₀, hid, -⟩ := hc k hk
    have := h.numbered k₀ hk₀
    omega
  fresh i id hid := by
    have := h.fresh i id (hs i id hid)
    omega
  owner i id hid k hk hkid := by
    obtain ⟨k₀, hk₀, hid₀, hsess⟩ := hc k hk
    rw [← hsess]
    exact h.owner i id (hs i id hid) k₀ hk₀ (hid₀.trans hkid)

theorem freed_of_update {f : Nat → Option Nat} {j id : Nat} {i id' : Nat}
    (h : (if f j = some id then Function.update f j none else f) i = some id') : f i = some id' := by
  split at h
  · by_cases hi : i = j
    · subst hi
      simp at h
    · simpa [hi] using h
  · exact h

/-! ## One step -/

variable {d d' : Display} {e : Event}

/-- Messages replayed in the mode, or none at all. -/
theorem advance_replayed (h : Controlled d)
    (hm : d.historyInsertSortedMode i = true ∨ (step d.client e).calls = d.client.calls) :
    ∀ p ∈ (d.advance e i).replayed, p.2 = true := by
  intro p hp
  rcases List.mem_append.1 hp with hp | hp
  · exact h.replayed p hp
  · obtain ⟨id, hid, rfl⟩ := List.mem_map.1 hp
    rcases hm with hm | hm
    · exact hm
    · rw [hm, List.drop_length] at hid
      cases hid

theorem Controlled.same (h : Controlled d) (hs : SameChunks d.client (step d.client e)) :
    Controlled (d.advance e i) where
  held k hk := by
    show (step d.client e).chunkState k.sess = _
    rw [hs.chunkState]
    exact h.held k (hs.chunks ▸ hk)
  sorted k hk := h.sorted k (hs.chunks ▸ hk)
  replayed := advance_replayed h (.inr hs.calls)

/-- The only chunk of its session is freed: the others are in other sessions. -/
theorem Controlled.freed (h : Controlled d) (hk : k ∈ d.client.chunks)
    (hc : d'.client.chunks = d.client.chunks.filter fun k' => k'.id ≠ k.id)
    (hs : ∀ j ≠ k.sess, d'.client.chunkState j = d.client.chunkState j)
    (hm : ∀ j ≠ k.sess, d'.historyInsertSortedMode j = d.historyInsertSortedMode j)
    (hr : ∀ p ∈ d'.replayed, p.2 = true) : Controlled d' := by
  have hother : ∀ k' ∈ d'.client.chunks, k' ∈ d.client.chunks ∧ k'.sess ≠ k.sess := by
    intro k' hk'
    rw [hc] at hk'
    obtain ⟨hmem, hid⟩ := List.mem_filter.1 hk'
    refine ⟨hmem, fun hsess => of_decide_eq_true hid ?_⟩
    have hheld : d.client.chunkState k.sess = some k'.id := hsess ▸ h.held k' hmem
    exact Option.some.inj (hheld.symm.trans (h.held k hk))
  refine ⟨fun k' hk' => ?_, fun k' hk' => ?_, hr⟩
  · obtain ⟨hmem, hne⟩ := hother k' hk'
    rw [hs _ hne]
    exact h.held k' hmem
  · obtain ⟨hmem, hne⟩ := hother k' hk'
    rw [hm _ hne]
    exact h.sorted k' hmem

theorem freed_of_ne {f : Nat → Option Nat} {j id x : Nat} (h : x ≠ j) :
    (if f j = some id then Function.update f j none else f) x = f x := by
  split
  · exact Function.update_of_ne h _ _
  · rfl

/-- A tick of a chunk. -/
theorem Controlled.tick (h : Controlled d) (hk : d.client.chunk k.id = some k) :
    Controlled (displayStep d (.chunkTick k.id)) := by
  have hmem : k ∈ d.client.chunks := List.mem_of_find?_eq_some hk
  have hstep : step d.client (.chunkTick k.id) = chunkIdleCb d.client k := by
    rw [Client.chunk] at hk
    simp only [step, hk]
  simp only [displayStep, hk]
  by_cases hl : k.sess ∈ d.client.net.sessList
  · have hrep := advance_replayed (e := .chunkTick k.id) h (.inl (h.sorted k hmem))
    rw [if_neg (not_not_intro hl)]
    by_cases hr : k.remaining.length ≤ CHATHISTORY_CHUNK_SIZE
    · rw [if_pos hr]
      obtain ⟨hc, hs, -⟩ := chunkIdle_last hl hr
      refine h.freed hmem (by rw [← hc, ← hstep]; rfl) (fun j hj => ?_) (fun j hj => ?_) hrep
      · show (step d.client (.chunkTick k.id)).chunkState j = _
        rw [hstep, hs, freed_of_ne hj]
      · exact Function.update_of_ne hj _ _
    · rw [if_neg hr]
      obtain ⟨k', hid, hsess, hc, hs, -⟩ := chunkIdle_more hl hr
      have hold : ∀ x ∈ (d.advance (.chunkTick k.id) k.sess).client.chunks,
          ∃ x₀ ∈ d.client.chunks, x₀.id = x.id ∧ x₀.sess = x.sess := by
        intro x hx
        change x ∈ (step d.client (.chunkTick k.id)).chunks at hx
        rw [hstep, hc] at hx
        obtain ⟨x₀, hx₀, rfl⟩ := List.mem_map.1 hx
        split
        · exact ⟨k, hmem, hid.symm, hsess.symm⟩
        · exact ⟨x₀, hx₀, rfl, rfl⟩
      refine ⟨fun x hx => ?_, fun x hx => ?_, hrep⟩
      · obtain ⟨x₀, hx₀, hi, hse⟩ := hold x hx
        show (step d.client (.chunkTick k.id)).chunkState x.sess = _
        rw [hstep, hs, ← hi, ← hse]
        exact h.held x₀ hx₀
      · obtain ⟨x₀, hx₀, -, hse⟩ := hold x hx
        rw [← hse]
        exact h.sorted x₀ hx₀
  · obtain ⟨hc, hs, hcalls, -⟩ := chunkIdle_unlisted hl
    rw [if_pos hl]
    refine h.freed hmem (by rw [← hc, ← hstep]; rfl) (fun j hj => ?_) (fun j hj => rfl)
      (advance_replayed h (.inr (by rw [hstep, hcalls])))
    show (step d.client (.chunkTick k.id)).chunkState j = _
    rw [hstep, hs]

theorem Controlled.cancel (h : Controlled d) (ho : Owned d.client) (i : Nat) :
    Controlled (displayStep d (.cancelChunk i)) := by
  unfold displayStep
  dsimp only
  split
  · rename_i hn
    exact h.same (cancelChunk_none hn)
  · rename_i k hk
    obtain ⟨hc, hs, hcalls, -⟩ := cancelChunk_held hk
    obtain ⟨id, hid, hfind⟩ := Option.bind_eq_some_iff.1 hk
    have hmem : k ∈ d.client.chunks := List.mem_of_find?_eq_some hfind
    have hkid : k.id = id := by simpa using List.find?_some hfind
    have hsess : k.sess = i := ho.owner i id hid k hmem hkid
    refine h.freed hmem hc (fun j hj => ?_) (fun j hj => ?_) (advance_replayed h (.inr hcalls))
    · show (chathistoryCancelChunkProcessing d.client i).chunkState j = _
      rw [hs, freed_of_ne hj]
    · exact Function.update_of_ne (hsess ▸ hj) _ _

/-- The messages of a batch are replayed in the mode it sets. -/
theorem batch_replayed (h : Controlled d) (b : Batch) (i : Nat) :
    ∀ p ∈ ((d.setSorted i true).advance (.batch b) i).replayed, p.2 = true := by
  intro p hp
  rcases List.mem_append.1 hp with hp | hp
  · exact h.replayed p hp
  · obtain ⟨id, -, rfl⟩ := List.mem_map.1 hp
    exact Function.update_self ..

/-- A small batch ends the mode, so nothing of its session may be scheduled. -/
theorem Controlled.sync_iff (h : Controlled d) (hs : (batchSession d.client.net b).1 = some i)
    (hm : b.messages ≠ []) (hr : b.rawCount ≤ CHATHISTORY_CHUNK_SIZE) :
    Controlled (((d.setSorted i true).advance (.batch b) i).setSorted i false) ↔
      ∀ k ∈ d.client.chunks, k.sess ≠ i := by
  obtain ⟨hc, hst, -⟩ := processBatch_sync hs hm hr
  have hchunks : ((d.setSorted i true).advance (.batch b) i).client.chunks = d.client.chunks := hc
  constructor
  · rintro h' k hk rfl
    have hmode := h'.sorted k (by rw [← hchunks] at hk; exact hk)
    simp [Display.setSorted] at hmode
  · intro halone
    refine ⟨fun k hk => ?_, fun k hk => ?_, batch_replayed h b i⟩
    · show (chathistoryProcessBatch d.client b).chunkState k.sess = _
      rw [hst]
      exact h.held k (hchunks ▸ hk)
    · have hk : k ∈ d.client.chunks := hchunks ▸ hk
      simpa [Display.setSorted, Display.advance, halone k hk] using h.sorted k hk

/-- A large batch is held by its session, so nothing else of it may be scheduled. -/
theorem Controlled.chunked_iff (h : Controlled d) (ho : Owned d.client)
    (hs : (batchSession d.client.net b).1 = some i) (hm : b.messages ≠ [])
    (hr : CHATHISTORY_CHUNK_SIZE < b.rawCount) :
    Controlled ((d.setSorted i true).advance (.batch b) i) ↔ ∀ k ∈ d.client.chunks, k.sess ≠ i := by
  obtain ⟨k₀, hk₀, hid₀, hc, hst, -⟩ := processBatch_chunked hs hm hr
  have hchunks : ((d.setSorted i true).advance (.batch b) i).client.chunks = k₀ :: d.client.chunks := hc
  have hstate : ((d.setSorted i true).advance (.batch b) i).client.chunkState =
      Function.update d.client.chunkState i (some d.client.nextChunk) := hst
  constructor
  · rintro h' k hk rfl
    have hheld := h'.held k (by rw [hchunks]; exact List.mem_cons_of_mem _ hk)
    rw [hstate, Function.update_self] at hheld
    have := ho.numbered k hk
    have := Option.some.inj hheld
    omega
  · intro halone
    refine ⟨fun k hk => ?_, fun k hk => ?_, batch_replayed h b i⟩
    · rw [hchunks] at hk
      rw [hstate]
      rcases List.mem_cons.1 hk with rfl | hk
      · rw [hk₀, Function.update_self, hid₀]
      · rw [Function.update_of_ne (halone k hk)]
        exact h.held k hk
    · rw [hchunks] at hk
      show Function.update d.historyInsertSortedMode i true k.sess = true
      rcases List.mem_cons.1 hk with rfl | hk
      · rw [hk₀, Function.update_self]
      · rw [Function.update_of_ne (halone k hk)]
        exact h.sorted k hk

/-- **A batch**: the chunks stay under control exactly when none of its session is scheduled. -/
theorem displayStep_batch (h : Controlled d) (ho : Owned d.client) (b : Batch) :
    Controlled (displayStep d (.batch b)) ↔ Alone d (.batch b) := by
  unfold Alone displayStep
  dsimp only
  cases hs : (batchSession d.client.net b).1 with
  | none =>
    refine iff_of_true (h.same (processBatch_nowhere hs)) fun _ i hi => ?_
    cases hi
  | some i =>
    dsimp only
    by_cases hm : b.messages = []
    · rw [if_pos hm]
      exact iff_of_true (h.same (processBatch_empty hm)) fun hne => absurd hm hne
    · have hsome : (b.messages ≠ [] → ∀ j ∈ some i, ∀ k ∈ d.client.chunks, k.sess ≠ j) ↔
          ∀ k ∈ d.client.chunks, k.sess ≠ i := by simp [hm]
      rw [if_neg hm, hsome]
      by_cases hr : b.rawCount ≤ CHATHISTORY_CHUNK_SIZE
      · rw [if_pos hr]
        exact h.sync_iff hs hm hr
      · rw [if_neg hr]
        exact h.chunked_iff ho hs hm (Nat.not_le.1 hr)

theorem displayStep_client (d : Display) (e : Event) : (displayStep d e).client = step d.client e := by
  unfold displayStep
  split
  · split
    · rfl
    · split
      · rfl
      · dsimp only
        split <;> rfl
  · split
    · rfl
    · split
      · rfl
      · dsimp only
        split <;> rfl
  · split <;> rfl
  · rfl

/-- **One event** keeps control exactly when it is not a batch that meets a scheduled chunk. -/
theorem displayStep_controlled_iff (h : Controlled d) (ho : Owned d.client) (e : Event) :
    Controlled (displayStep d e) ↔ Alone d e := by
  cases e
  case batch b => exact displayStep_batch h ho b
  case chunkTick id =>
    refine iff_of_true ?_ trivial
    cases hk : d.client.chunk id with
    | none =>
      simp only [displayStep, hk]
      refine h.same ?_
      have hstep : step d.client (.chunkTick id) = d.client := by
        rw [Client.chunk] at hk
        simp only [step, hk]
      rw [hstep]
      exact ⟨rfl, rfl, rfl, rfl⟩
    | some k =>
      have hid : k.id = id := by simpa using List.find?_some hk
      subst hid
      exact h.tick hk
  case cancelChunk i => exact iff_of_true (h.cancel ho i) trivial
  all_goals exact iff_of_true (h.same ⟨rfl, rfl, rfl, rfl⟩) trivial

theorem Owned.batch (h : Owned c) (b : Batch) : Owned (chathistoryProcessBatch c b) := by
  cases hs : (batchSession c.net b).1 with
  | none => exact h.same (processBatch_nowhere hs)
  | some i =>
    by_cases hm : b.messages = []
    · exact h.same (processBatch_empty hm)
    · by_cases hr : b.rawCount ≤ CHATHISTORY_CHUNK_SIZE
      · obtain ⟨hc, hst, hn⟩ := processBatch_sync hs hm hr
        exact h.fewer (fun k hk => ⟨k, hc ▸ hk, rfl, rfl⟩) (fun j id hid => hst ▸ hid) (by omega)
      · obtain ⟨k₀, hk₀, hid₀, hc, hst, -, hn⟩ := processBatch_chunked hs hm (Nat.not_le.1 hr)
        refine ⟨fun k hk => ?_, fun j id hid => ?_, fun j id hid k hk hkid => ?_⟩
        · rw [hn]
          rcases List.mem_cons.1 (hc ▸ hk) with rfl | hk
          · omega
          · have := h.numbered k hk
            omega
        · rw [hst] at hid
          rw [hn]
          by_cases hj : j = i
          · rw [hj, Function.update_self] at hid
            have := Option.some.inj hid
            omega
          · rw [Function.update_of_ne hj] at hid
            have := h.fresh j id hid
            omega
        · -- the new number is held by this session only, the older ones as before
          rw [hst] at hid
          by_cases hj : j = i
          · rw [hj, Function.update_self] at hid
            have hid := Option.some.inj hid
            rcases List.mem_cons.1 (hc ▸ hk) with rfl | hk
            · rw [hk₀, hj]
            · have := h.numbered k hk
              omega
          · rw [Function.update_of_ne hj] at hid
            rcases List.mem_cons.1 (hc ▸ hk) with rfl | hk
            · have := h.fresh j id hid
              omega
            · exact h.owner j id hid k hk hkid

theorem mem_filter_old {p : Chunk → Bool} {k' : Chunk} (h : k' ∈ c.chunks.filter p) :
    ∃ k₀ ∈ c.chunks, k₀.id = k'.id ∧ k₀.sess = k'.sess := ⟨k', List.mem_of_mem_filter h, rfl, rfl⟩

theorem Owned.tick (h : Owned c) (hk : k ∈ c.chunks) : Owned (chunkIdleCb c k) := by
  by_cases hl : k.sess ∈ c.net.sessList
  · by_cases hr : k.remaining.length ≤ CHATHISTORY_CHUNK_SIZE
    · obtain ⟨hc, hs, hn⟩ := chunkIdle_last hl hr
      exact h.fewer (fun k' hk' => mem_filter_old (hc ▸ hk')) (fun i id hid => freed_of_update (hs ▸ hid)) hn.ge
    · obtain ⟨k', hid, hsess, hc, hs, hn⟩ := chunkIdle_more hl hr
      refine h.fewer (fun x hx => ?_) (fun i id hid => hs ▸ hid) hn.ge
      rw [hc] at hx
      obtain ⟨x₀, hx₀, rfl⟩ := List.mem_map.1 hx
      split
      · exact ⟨k, hk, hid.symm, hsess.symm⟩
      · exact ⟨x₀, hx₀, rfl, rfl⟩
  · obtain ⟨hc, hs, -, hn⟩ := chunkIdle_unlisted hl
    exact h.fewer (fun k' hk' => mem_filter_old (hc ▸ hk')) (fun i id hid => hs ▸ hid) hn.ge

theorem Owned.step (h : Owned c) (e : Event) : Owned (ChatHistory.step c e) := by
  cases e
  case batch b => exact h.batch b
  case chunkTick id =>
    simp only [ChatHistory.step]
    split
    · rename_i k hk
      exact h.tick (List.mem_of_find?_eq_some hk)
    · exact h
  case cancelChunk i =>
    cases hk : (c.chunkState i).bind c.chunk with
    | none => exact h.same (cancelChunk_none hk)
    | some k =>
      obtain ⟨hc, hs, -, hn⟩ := cancelChunk_held hk
      exact h.fewer (fun k' hk' => mem_filter_old (hc ▸ hk')) (fun i id hid => freed_of_update (hs ▸ hid)) hn.ge
  all_goals exact h.same ⟨rfl, rfl, rfl, rfl⟩

/-! ## Runs -/

theorem start_controlled (net : Net) : Controlled (Display.start net) := by
  refine ⟨fun k hk => ?_, fun k hk => ?_, fun p hp => ?_⟩
  · cases hk
  · cases hk
  · cases hp

theorem start_owned (net : Net) : Owned (Display.start net).client := by
  refine ⟨fun k hk => ?_, fun i id hid => ?_, fun i id hid => ?_⟩
  · cases hk
  · cases hid
  · cases hid

/-- More lines than one chunk holds, all of one second. -/
def fiftyOne : Batch := .plain (List.replicate 51 (.line "a" 10))

end PoxChat.ChatHistory
