import PoxChat.ChatHistory.CatchupEnds
import PoxChat.ChatHistory.GapFill

/-!
# Narrowing a gap

`scrollback_gap_shrink` sets the bound it is given and compares it with the other bound only, so a gap narrows as long
as the page whose bound is handed over does not lie beyond the gap.  The BEFORE walk of a catch-up hands over whatever
it is answered, the LATEST page that stands in for an empty one included.

* `finishShrink` — the call of `scrollback_gap_shrink` that the end of a page makes.
* `finishShrink_narrows_iff` — when that call narrows its gap, by the bounds of the page.
* `shrinks_narrow_iff` — over a run, every call narrows exactly when every page reaches the gap it is taken for.
-/

set_option autoImplicit false

namespace PoxChat.ChatHistory

open Lib Scrollback

/-! ## Calls -/

/-- A call of `scrollback_gap_shrink`: the database it finds, and its arguments. -/
structure ShrinkCall where
  db : Sb
  gapId : Int
  newStartTs : Int
  newStartMsgid : Option String
  newEndTs : Int
  newEndMsgid : Option String

def ShrinkCall.after (x : ShrinkCall) : Sb :=
  scrollbackGapShrink x.db x.gapId x.newStartTs x.newStartMsgid x.newEndTs x.newEndMsgid

/-- The row with this id; `id` is the primary key. -/
def IsRow (db : Sb) (gapId : Int) (g : Gap) : Prop := ∀ h, h ∈ db.gaps ∧ h.id = gapId ↔ h = g

/-- What the call leaves of the row lies within it.  A deleted row leaves nothing. -/
def ShrinkCall.Narrows (x : ShrinkCall) : Prop :=
  ∀ g, IsRow x.db x.gapId g →
    ∀ g' ∈ x.after.gaps, g'.id = x.gapId → g.startTs ≤ g'.startTs ∧ g'.endTs ≤ g.endTs

section Call

variable {db : Sb} {gapId : Int} {g : Gap}

theorem IsRow.mem (h : IsRow db gapId g) : g ∈ db.gaps := ((h g).2 rfl).1

theorem IsRow.id (h : IsRow db gapId g) : g.id = gapId := ((h g).2 rfl).2

theorem IsRow.get (h : IsRow db gapId g) (hpos : 0 < gapId) : scrollbackGapGet db gapId = some g := by
  unfold scrollbackGapGet
  rw [if_neg (by omega)]
  cases hfind : db.gaps.find? fun g => g.id = gapId with
  | none => exact absurd h.id (by simpa using List.find?_eq_none.1 hfind g h.mem)
  | some g' =>
    have hid : g'.id = gapId := by simpa using List.find?_some hfind
    rw [(h g').1 ⟨List.mem_of_find?_eq_some hfind, hid⟩]

/-- The row after the call is the shrunk one, unless that is inverted. -/
theorem IsRow.mem_after {x : ShrinkCall} (h : IsRow x.db x.gapId g) (hpos : 0 < x.gapId) (g' : Gap) :
    g' ∈ x.after.gaps ∧ g'.id = x.gapId ↔
      g' = g.shrink x.newStartTs x.newStartMsgid x.newEndTs x.newEndMsgid ∧ g'.startTs < g'.endTs := by
  unfold ShrinkCall.after scrollbackGapShrink
  rw [if_neg (by omega)]
  simp only [List.mem_filter, updateGap, List.mem_map, decide_eq_true_eq, not_and, not_le]
  constructor
  · rintro ⟨⟨⟨g₀, hg₀, rfl⟩, hlt⟩, hid⟩
    have hrow : g₀ = g := by
      refine (h g₀).1 ⟨hg₀, ?_⟩
      split at hid
      · assumption
      · exact hid
    subst hrow
    rw [if_pos h.id] at hid hlt ⊢
    exact ⟨rfl, hlt hid⟩
  · rintro ⟨rfl, hlt⟩
    exact ⟨⟨⟨g, h.mem, if_pos h.id⟩, fun _ => hlt⟩, h.id⟩

theorem narrows_iff {x : ShrinkCall} (hpos : 0 < x.gapId) :
    x.Narrows ↔ ∀ g, IsRow x.db x.gapId g →
      let g' := g.shrink x.newStartTs x.newStartMsgid x.newEndTs x.newEndMsgid
      g'.startTs < g'.endTs → g.startTs ≤ g'.startTs ∧ g'.endTs ≤ g.endTs := by
  refine forall₂_congr fun g hg => ⟨fun hall hlt => ?_, fun hshrunk g' hg' hid => ?_⟩
  · have hleft := (hg.mem_after hpos _).2 ⟨rfl, hlt⟩
    exact hall _ hleft.1 hleft.2
  · obtain ⟨rfl, hlt⟩ := (hg.mem_after hpos g').1 ⟨hg', hid⟩
    exact hshrunk hlt

/-- Moving the end. -/
theorem narrows_end_iff (hpos : 0 < gapId) (newEndTs : Int) (newEndMsgid : Option String) :
    (⟨db, gapId, 0, none, newEndTs, newEndMsgid⟩ : ShrinkCall).Narrows ↔
      ∀ g, IsRow db gapId g → 0 < newEndTs → newEndTs ≤ max g.startTs g.endTs := by
  rw [narrows_iff hpos]
  refine forall₂_congr fun g _ => ?_
  simp only [Gap.shrink, Int.lt_irrefl, if_false]
  by_cases hts : 0 < newEndTs
  · simp only [hts, if_true, forall_const]
    omega
  · simp [hts]

/-- Moving the start. -/
theorem narrows_start_iff (hpos : 0 < gapId) (newStartTs : Int) (newStartMsgid : Option String) :
    (⟨db, gapId, newStartTs, newStartMsgid, 0, none⟩ : ShrinkCall).Narrows ↔
      ∀ g, IsRow db gapId g → 0 < newStartTs → min g.startTs g.endTs ≤ newStartTs := by
  rw [narrows_iff hpos]
  refine forall₂_congr fun g _ => ?_
  simp only [Gap.shrink, Int.lt_irrefl, if_false]
  by_cases hts : 0 < newStartTs
  · simp only [hts, if_true, forall_const]
    omega
  · simp [hts]

end Call

/-! ## The end of a page -/

/-- The call of the BEFORE arm. -/
def beforeShrink (n : Net) (k : Chunk) : Option ShrinkCall :=
  let gapId := (n.heap k.sess).catchupGapId
  if 0 < gapId ∧ 0 < k.rawCount ∧ 0 < k.oldestTimestamp then
    n.db.map fun db => ⟨db, gapId, 0, none, k.oldestTimestamp, k.batchOldestMsgid⟩
  else none

/-- The call of the clamp. -/
def clampShrink (n : Net) (k : Chunk) : Option ShrinkCall :=
  if 0 < k.gapId ∧ 0 < k.rawCount then
    n.db.bind fun db => (scrollbackGapGet db k.gapId).bind fun g =>
      if bridges n k g then none
      else if k.gapDir < 0 then some ⟨db, k.gapId, 0, none, k.oldestTimestamp, k.batchOldestMsgid⟩
      else some ⟨db, k.gapId, k.newestTimestamp, k.batchNewestMsgid, 0, none⟩
  else none

/-- The call of `scrollback_gap_shrink` in `finish_batch_processing`. -/
def finishShrink (n : Net) (k : Chunk) : Option ShrinkCall :=
  let n := settleBatch n k
  if k.isCatchup then if (n.heap k.sess).catchupIsBefore then beforeShrink n k else none
  else clampShrink n k

section Finish

variable {n : Net} {k : Chunk}

theorem countPage_db : (countPage n k).db = ((beforeShrink n k).map ShrinkCall.after).or n.db := by
  have hgap : ((n.upd k.sess fun s =>
      { s with historyCatchupRetrieved := s.historyCatchupRetrieved + k.msgCount }).heap k.sess).catchupGapId =
        (n.heap k.sess).catchupGapId := by
    simp [Net.upd]
  unfold countPage beforeShrink
  dsimp only
  rw [hgap]
  split
  · rw [Net.store]
    cases hdb : n.db with
    | none => simp [Net.upd, hdb]
    | some db => simp [Net.upd, hdb, ShrinkCall.after]
  · rfl

theorem clampGap_db {x : ShrinkCall} (h : clampShrink n k = some x) : (clampGap n k).db = some x.after := by
  unfold clampShrink at h
  unfold clampGap
  split at h
  · rename_i hcond
    rw [if_pos hcond]
    obtain ⟨db, hdb, h⟩ := Option.bind_eq_some_iff.1 h
    obtain ⟨g, hg, h⟩ := Option.bind_eq_some_iff.1 h
    rw [hdb, Option.bind_some, hg]
    dsimp only
    split at h
    · cases h
    · rename_i hbridged
      rw [if_neg hbridged]
      split at h
      · rename_i hdir
        cases h
        rw [if_pos hdir, Net.store, hdb]
        rfl
      · rename_i hdir
        cases h
        rw [if_neg hdir, Net.store, hdb]
        rfl
  · cases h

/-- **The call of a page**: the BEFORE arm goes on from the ledger it leaves, and the clamp ends with it. -/
theorem finish_of_shrink {x : ShrinkCall} (h : finishShrink n k = some x) :
    if k.isCatchup then
      ∃ m, m.db = some x.after ∧ finishBatchProcessing n k = judgePage m k
    else (finishBatchProcessing n k).db = some x.after := by
  unfold finishShrink at h
  unfold finishBatchProcessing
  dsimp only at h ⊢
  split at h
  · rename_i hcatch
    rw [if_pos hcatch, if_pos hcatch]
    split at h
    · rename_i hbefore
      rw [if_pos hbefore, finishBefore_eq]
      exact ⟨_, by rw [countPage_db, h]; rfl, rfl⟩
    · cases h
  · rename_i hcatch
    rw [if_neg hcatch, if_neg hcatch, finishPlain_db]
    exact clampGap_db h

/-- The catch-up of a session has not changed. -/
def KeepsCatchup (j : Nat) (n m : Net) : Prop :=
  (m.heap j).catchupIsBefore = (n.heap j).catchupIsBefore ∧ (m.heap j).catchupGapId = (n.heap j).catchupGapId

theorem KeepsCatchup.complete {m : Net} {j : Nat} (h : KeepsCatchup j n m) (i : Nat) :
    KeepsCatchup j n (chathistoryRequestComplete m i) := by
  obtain ⟨_, _, _, _, hj⟩ := (requestComplete_queued m i).fields j
  unfold KeepsCatchup
  rw [hj]
  exact h

theorem KeepsCatchup.upd {m : Net} {j : Nat} (h : KeepsCatchup j n m) (i : Nat) {f : Session → Session}
    (hf : ∀ s, (f s).catchupIsBefore = s.catchupIsBefore ∧ (f s).catchupGapId = s.catchupGapId) :
    KeepsCatchup j n (m.upd i f) := by
  unfold KeepsCatchup at h ⊢
  by_cases hj : j = i
  · subst hj
    simp only [Net.upd, Function.update_self]
    exact ⟨(hf _).1.trans h.1, (hf _).2.trans h.2⟩
  · simpa [Net.upd, hj] using h

theorem settleBatch_catchup (j : Nat) : ((settleBatch n k).heap j).catchupIsBefore = (n.heap j).catchupIsBefore ∧
    ((settleBatch n k).heap j).catchupGapId = (n.heap j).catchupGapId := by
  have hsettled : KeepsCatchup j n (if k.unsolicited then { n with serv := { n.serv with chathistoryFailStreak := 0 } }
      else chathistoryRequestComplete { n with serv := { n.serv with chathistoryFailStreak := 0 } } k.sess) := by
    split
    · exact ⟨rfl, rfl⟩
    · exact KeepsCatchup.complete ⟨rfl, rfl⟩ k.sess
  show KeepsCatchup j n (settleBatch n k)
  unfold settleBatch
  dsimp only
  split <;> split
  · apply KeepsCatchup.upd
    · apply KeepsCatchup.upd hsettled
      exact fun _ => ⟨rfl, rfl⟩
    · exact fun _ => ⟨rfl, rfl⟩
  · apply KeepsCatchup.upd hsettled
    exact fun _ => ⟨rfl, rfl⟩
  · apply KeepsCatchup.upd hsettled
    exact fun _ => ⟨rfl, rfl⟩
  · exact hsettled

/-- The row a page narrows, and the side it comes from: the gap of the catch-up, from its end, for a page of the BEFORE
walk, and the gap it was asked for when a gap fill is answered with a full page. -/
def narrowed (n : Net) (k : Chunk) : Option (Int × Int) :=
  if k.rawCount ≤ 0 then none
  else if k.isCatchup then
    if (n.heap k.sess).catchupIsBefore ∧ 0 < (n.heap k.sess).catchupGapId then
      some ((n.heap k.sess).catchupGapId, -1)
    else none
  else if k.rawCount < replyLimit n then none
  else if 0 < k.gapId then some (k.gapId, k.gapDir)
  else none

/-- The bound that a page moves does not pass the gap by. -/
def BoundReaches (dir : Int) (k : Chunk) (g : Gap) : Prop :=
  if dir < 0 then 0 < k.oldestTimestamp → k.oldestTimestamp ≤ max g.startTs g.endTs
  else 0 < k.newestTimestamp → min g.startTs g.endTs ≤ k.newestTimestamp

theorem beforeShrink_narrows_iff (hraw : 0 < k.rawCount) (hgap : 0 < (n.heap k.sess).catchupGapId) :
    (∀ x, beforeShrink n k = some x → x.Narrows) ↔
      ∀ db g, n.db = some db → IsRow db (n.heap k.sess).catchupGapId g → BoundReaches (-1) k g := by
  unfold beforeShrink BoundReaches
  simp only [hgap, hraw, true_and, show (-1 : Int) < 0 by decide, if_true]
  cases hdb : n.db with
  | none => simp
  | some db =>
    by_cases hts : 0 < k.oldestTimestamp
    · simp only [hts, if_true, Option.map_some, Option.some.injEq, forall_eq', forall_const, narrows_end_iff hgap]
      constructor
      · rintro hall _ g rfl hg
        exact hall g hg
      · exact fun hall g hg => hall db g rfl hg
    · simp [hts]

theorem clampShrink_narrows_iff (hraw : 0 < k.rawCount) (hgap : 0 < k.gapId) (hfull : ¬ k.rawCount < replyLimit n) :
    (∀ x, clampShrink n k = some x → x.Narrows) ↔
      ∀ db g, n.db = some db → IsRow db k.gapId g → BoundReaches k.gapDir k g := by
  unfold clampShrink
  rw [if_pos ⟨hgap, hraw⟩]
  cases hdb : n.db with
  | none => simp
  | some db =>
    simp only [Option.bind_some, Option.some.injEq]
    constructor
    · rintro hall _ g rfl hg
      rw [hg.get hgap, Option.bind_some] at hall
      by_cases hbridges : bridges n k g = true
      · -- the page reaches over the far edge
        simp only [bridges, decide_eq_true_eq] at hbridges
        have hedge := hbridges.resolve_right hfull
        unfold BoundReaches
        split at hedge <;> rename_i hdir
        · rw [if_pos hdir]
          omega
        · rw [if_neg hdir]
          omega
      · rw [if_neg hbridges] at hall
        unfold BoundReaches
        split at hall <;> rename_i hdir
        · rw [if_pos hdir]
          exact (narrows_end_iff hgap _ _).1 (hall _ rfl) g hg
        · rw [if_neg hdir]
          exact (narrows_start_iff hgap _ _).1 (hall _ rfl) g hg
    · intro hall x hx
      obtain ⟨g₀, -, hx⟩ := Option.bind_eq_some_iff.1 hx
      split at hx
      · cases hx
      · split at hx <;> rename_i hdir <;> cases hx
        · refine (narrows_end_iff hgap _ _).2 fun g hg => ?_
          have hbound := hall db g rfl hg
          rwa [BoundReaches, if_pos hdir] at hbound
        · refine (narrows_start_iff hgap _ _).2 fun g hg => ?_
          have hbound := hall db g rfl hg
          rwa [BoundReaches, if_neg hdir] at hbound

/-- **When the end of a page narrows**, by its bounds. -/
theorem finishShrink_narrows_iff : (∀ x, finishShrink n k = some x → x.Narrows) ↔
    ∀ db gapId dir g, n.db = some db → narrowed n k = some (gapId, dir) → IsRow db gapId g → BoundReaches dir k g := by
  obtain ⟨hdb, hlimit⟩ := settleBatch_db (n := n) (k := k)
  obtain ⟨hbefore, hid⟩ := settleBatch_catchup (n := n) (k := k) k.sess
  unfold finishShrink narrowed
  dsimp only
  rw [hbefore]
  by_cases hraw : 0 < k.rawCount
  · rw [if_neg (not_le.2 hraw)]
    by_cases hcatch : k.isCatchup = true
    · rw [if_pos hcatch, if_pos hcatch]
      by_cases hb : (n.heap k.sess).catchupIsBefore = true
      · rw [if_pos hb]
        by_cases hgap : 0 < (n.heap k.sess).catchupGapId
        · rw [if_pos ⟨hb, hgap⟩, beforeShrink_narrows_iff hraw (by rw [hid]; exact hgap), hdb, hid]
          constructor
          · rintro hall db _ _ g hdb ⟨⟩ hg
            exact hall db g hdb hg
          · exact fun hall db g hdb hg => hall db _ _ g hdb rfl hg
        · rw [if_neg fun h => hgap h.2, beforeShrink, hid, if_neg fun h => hgap h.1]
          simp
      · rw [if_neg hb, if_neg fun h => hb h.1]
        simp
    · rw [if_neg hcatch, if_neg hcatch]
      by_cases hfull : k.rawCount < replyLimit n
      · rw [if_pos hfull]
        refine iff_of_true (fun x hx => ?_) (by simp)
        unfold clampShrink at hx
        split at hx
        · obtain ⟨_, -, hx⟩ := Option.bind_eq_some_iff.1 hx
          obtain ⟨g, -, hx⟩ := Option.bind_eq_some_iff.1 hx
          have hbridges : bridges (settleBatch n k) k g = true := by
            rw [← hlimit] at hfull
            exact decide_eq_true (.inr hfull)
          rw [if_pos hbridges] at hx
          cases hx
        · cases hx
      · rw [if_neg hfull]
        by_cases hgap : 0 < k.gapId
        · rw [if_pos hgap, clampShrink_narrows_iff hraw hgap (by rw [hlimit]; exact hfull), hdb]
          constructor
          · rintro hall db _ _ g hdb ⟨⟩ hg
            exact hall db g hdb hg
          · exact fun hall db g hdb hg => hall db _ _ g hdb rfl hg
        · rw [if_neg hgap, clampShrink, if_neg fun h => hgap h.1]
          simp
  · rw [if_pos (not_lt.1 hraw)]
    refine iff_of_true (fun x hx => ?_) (by simp)
    have hbefore : beforeShrink (settleBatch n k) k = none := if_neg fun h => hraw h.2.1
    have hclamp : clampShrink (settleBatch n k) k = none := if_neg fun h => hraw h.2
    rw [hbefore, hclamp] at hx
    split at hx
    · split at hx <;> cases hx
    · cases hx

end Finish

/-! ## Runs -/

/-- The last pass over the messages of a page that an event finishes: the client and the chunk it starts from. -/
def lastPass (c : Client) : Event → Option (Client × Chunk)
  | .batch b =>
    match batchSession c.net b with
    | (none, _) => none
    | (some i, net) =>
      let (sh, net) := batchShape net b i
      let k := newChunk net b i c.nextChunk sh
      if b.messages ≠ [] ∧ k.rawCount ≤ CHATHISTORY_CHUNK_SIZE then
        some ({ c with net := net, nextChunk := c.nextChunk + 1 }, k)
      else none
  | .chunkTick id =>
    (c.chunks.find? fun k => k.id = id).bind fun k =>
      if k.sess ∈ c.net.sessList ∧ k.remaining.length ≤ CHATHISTORY_CHUNK_SIZE then some (c, k) else none
  | _ => none

/-- The call of `scrollback_gap_shrink` an event makes. -/
def shrinkCall (c : Client) (e : Event) : Option ShrinkCall :=
  (lastPass c e).bind fun (c, k) =>
    finishShrink (processChunkMessages c k).1.net (processChunkMessages c k).2

/-- The call of the event, if it makes one, narrows its gap. -/
def ShrinksNarrow (c : Client) (e : Event) : Prop := ∀ x, shrinkCall c e = some x → x.Narrows

/-- A message with a time, or one noted by an earlier pass. -/
def PageTimed (dir : Int) (k : Chunk) : Prop :=
  (if dir < 0 then 0 < k.oldestTimestamp else 0 < k.newestTimestamp) ∨
    ∃ m ∈ k.remaining.take CHATHISTORY_CHUNK_SIZE, 0 < m.timestamp

/-- Some message of the page, or one noted by an earlier pass, lies at `t` or beyond it, seen from the side the page
comes from. -/
def PageReaches (dir : Int) (k : Chunk) (t : Int) : Prop :=
  (if dir < 0 then 0 < k.oldestTimestamp ∧ k.oldestTimestamp ≤ t
    else 0 < k.newestTimestamp ∧ t ≤ k.newestTimestamp) ∨
    ∃ m ∈ k.remaining.take CHATHISTORY_CHUNK_SIZE, Reaches dir m t

/-- **A page reaches its gap**: of the messages of a page that is taken for a gap, if they have times at all, one lies on
the gap's side of the bound the page moves.  (An inverted row is deleted, whichever bound is moved beyond the other.) -/
def PageMeetsGap (c : Client) (e : Event) : Prop :=
  ∀ c₁ k, lastPass c e = some (c₁, k) → ∀ db gapId dir g, (processChunkMessages c₁ k).1.net.db = some db →
    narrowed (processChunkMessages c₁ k).1.net k = some (gapId, dir) → IsRow db gapId g → PageTimed dir k →
      PageReaches dir k (if dir < 0 then max g.startTs g.endTs else min g.startTs g.endTs)

/-- The bounds kept for a chunk are not negative. -/
def Client.Dated (c : Client) : Prop := ∀ k ∈ c.chunks, 0 ≤ k.oldestTimestamp ∧ 0 ≤ k.newestTimestamp

section Runs

variable {c : Client} {n : Net} {k k' : Chunk} {done : List BatchMessage}

theorem oldestOf_pos {messages : List BatchMessage} {o : Int} (ho : 0 ≤ o) :
    0 < oldestOf messages o ↔ 0 < o ∨ ∃ m ∈ messages, 0 < m.timestamp := by
  induction messages generalizing o with
  | nil => simp [oldestOf]
  | cons m messages ih =>
    rw [List.exists_mem_cons_iff, oldestOf, List.foldl_cons]
    split
    · rename_i hm
      exact iff_of_true ((ih hm.1.le).2 (.inl hm.1)) (.inr (.inl hm.1))
    · rename_i hm
      refine (ih ho).trans (or_congr_right' fun hno => ?_)
      have : ¬ 0 < m.timestamp := fun hts => hm ⟨hts, .inl (by omega)⟩
      simp [this]

theorem newestOf_pos {messages : List BatchMessage} {o : Int} (ho : 0 ≤ o) :
    0 < newestOf messages o ↔ 0 < o ∨ ∃ m ∈ messages, 0 < m.timestamp := by
  induction messages generalizing o with
  | nil => simp [newestOf]
  | cons m messages ih =>
    rw [List.exists_mem_cons_iff, newestOf, List.foldl_cons]
    split
    · rename_i hm
      exact iff_of_true ((ih hm.1.le).2 (.inl hm.1)) (.inr (.inl hm.1))
    · rename_i hm
      refine (ih ho).trans (or_congr_right' fun hno => ?_)
      have : ¬ 0 < m.timestamp := fun hts => hm ⟨hts, by omega⟩
      simp [this]

theorem narrowed_progressed (h : Progressed k done k') : narrowed n k' = narrowed n k := by
  obtain ⟨count, hk⟩ := h.chunk
  rw [hk]
  rfl

/-- The bounds of the whole page, by its messages. -/
theorem boundReaches_iff (h : Progressed k (k.remaining.take CHATHISTORY_CHUNK_SIZE) k')
    (hold : 0 ≤ k.oldestTimestamp) (hnew : 0 ≤ k.newestTimestamp) (dir : Int) (g : Gap) :
    BoundReaches dir k' g ↔ (PageTimed dir k →
      PageReaches dir k (if dir < 0 then max g.startTs g.endTs else min g.startTs g.endTs)) := by
  obtain ⟨count, hk⟩ := h.chunk
  have hoc : k'.oldestTimestamp = oldestOf (k.remaining.take CHATHISTORY_CHUNK_SIZE) k.oldestTimestamp := by rw [hk]
  have hnc : k'.newestTimestamp = newestOf (k.remaining.take CHATHISTORY_CHUNK_SIZE) k.newestTimestamp := by rw [hk]
  unfold BoundReaches PageTimed PageReaches Reaches
  rw [hoc, hnc]
  by_cases hdir : dir < 0
  · simp only [hdir, if_true]
    rw [← oldestOf_pos hold, ← oldestOf_reaches hold]
    exact ⟨fun hall hts => ⟨hts, hall hts⟩, fun hall hts => (hall hts).2⟩
  · simp only [hdir, if_false]
    rw [← newestOf_pos hnew, ← newestOf_reaches hnew]
    exact ⟨fun hall hts => ⟨hts, hall hts⟩, fun hall hts => (hall hts).2⟩

/-- The event ends with `finish_batch_processing` after its last pass. -/
theorem step_of_lastPass {c₁ : Client} {e : Event} (h : lastPass c e = some (c₁, k)) :
    (step c e).net = finishBatchProcessing (processChunkMessages c₁ k).1.net (processChunkMessages c₁ k).2 := by
  cases e
  case batch b =>
    rw [lastPass] at h
    rw [step, chathistoryProcessBatch]
    rcases hsess : batchSession c.net b with ⟨i | i, net⟩
    · rw [hsess] at h
      cases h
    · rw [hsess] at h
      dsimp only at h ⊢
      split at h
      · rename_i hcond
        cases h
        rw [if_neg hcond.1, processMessages]
        dsimp only
        rw [if_pos hcond.2]
        rfl
      · cases h
  case chunkTick id =>
    rw [lastPass] at h
    obtain ⟨k₁, hfind, h⟩ := Option.bind_eq_some_iff.1 h
    split at h
    · rename_i hcond
      cases h
      have hdone : (processChunkMessages c k).2.remaining = [] := by
        rw [(processChunkMessages_run c k).remaining]
        exact List.drop_eq_nil_of_le hcond.2
      rw [step, hfind]
      dsimp only
      rw [chunkIdleCb, if_neg (not_not.2 hcond.1)]
      dsimp only
      rw [if_pos hdone]
      rfl
    · cases h
  all_goals cases h

theorem lastPass_dated (hc : c.Dated) {c₁ : Client} {e : Event} (h : lastPass c e = some (c₁, k)) :
    0 ≤ k.oldestTimestamp ∧ 0 ≤ k.newestTimestamp := by
  cases e
  case batch b =>
    rw [lastPass] at h
    rcases hsess : batchSession c.net b with ⟨i | i, net⟩
    · rw [hsess] at h
      cases h
    · rw [hsess] at h
      dsimp only at h
      split at h
      · cases h
        exact ⟨le_rfl, le_rfl⟩
      · cases h
  case chunkTick id =>
    rw [lastPass] at h
    obtain ⟨k₁, hfind, h⟩ := Option.bind_eq_some_iff.1 h
    split at h
    · cases h
      exact hc k (List.mem_of_find?_eq_some hfind)
    · cases h
  all_goals cases h

theorem progressed_dated (h : Progressed k done k') (hk : 0 ≤ k.oldestTimestamp ∧ 0 ≤ k.newestTimestamp) :
    0 ≤ k'.oldestTimestamp ∧ 0 ≤ k'.newestTimestamp := by
  obtain ⟨count, he⟩ := h.chunk
  have hold : ∀ (ms : List BatchMessage) (o : Int), 0 ≤ o → 0 ≤ oldestOf ms o := by
    intro ms
    induction ms with
    | nil => exact fun _ ho => ho
    | cons m ms ih =>
      intro o ho
      rw [oldestOf, List.foldl_cons]
      split
      · exact ih _ (by omega)
      · exact ih _ ho
  have hnew : ∀ (ms : List BatchMessage) (o : Int), 0 ≤ o → 0 ≤ newestOf ms o := by
    intro ms
    induction ms with
    | nil => exact fun _ ho => ho
    | cons m ms ih =>
      intro o ho
      rw [newestOf, List.foldl_cons]
      split
      · exact ih _ (by omega)
      · exact ih _ ho
  rw [he]
  exact ⟨hold _ _ hk.1, hnew _ _ hk.2⟩

theorem step_dated (hc : c.Dated) (e : Event) : (step c e).Dated := by
  cases e
  case batch b =>
    rw [step, chathistoryProcessBatch]
    rcases batchSession c.net b with ⟨i | i, net⟩
    · exact hc
    · dsimp only
      split
      · exact hc
      · rw [processMessages]
        dsimp only
        split
        · rw [Client.finish]
          unfold Client.Dated
          rw [(processChunkMessages_run _ _).chunks]
          exact hc
        · rintro k (_ | ⟨_, hk⟩)
          · exact ⟨le_rfl, le_rfl⟩
          · exact hc k hk
  case chunkTick id =>
    rw [step]
    split
    · rename_i k hfind
      have hk := hc k (List.mem_of_find?_eq_some hfind)
      rw [chunkIdleCb]
      split
      · intro k' hk'
        refine hc k' ?_
        rw [Client.releaseLatestSlot_eq] at hk'
        exact List.mem_of_mem_filter hk'
      · have hrun := processChunkMessages_run c k
        have hk' := progressed_dated (chunkLoop_progressed CHATHISTORY_CHUNK_SIZE c k) hk
        dsimp only
        split
        · intro k₁ hk₁
          refine hc k₁ ?_
          rw [← hrun.chunks]
          exact List.mem_of_mem_filter hk₁
        · intro k₁ hk₁
          obtain ⟨k₂, hk₂, rfl⟩ := List.mem_map.1 hk₁
          rw [hrun.chunks] at hk₂
          split
          · exact hk'
          · exact hc k₂ hk₂
    · exact hc
  case cancelChunk i =>
    rw [step, chathistoryCancelChunkProcessing]
    split
    · exact hc
    · intro k' hk'
      refine hc k' ?_
      dsimp only at hk'
      rw [Client.releaseLatestSlot_eq] at hk'
      exact List.mem_of_mem_filter hk'
  all_goals exact hc

theorem shrinksNarrow_iff (hc : c.Dated) (e : Event) : ShrinksNarrow c e ↔ PageMeetsGap c e := by
  unfold ShrinksNarrow PageMeetsGap shrinkCall
  cases hpass : lastPass c e with
  | none => simp
  | some p =>
    obtain ⟨c₁, k⟩ := p
    obtain ⟨hold, hnew⟩ := lastPass_dated hc hpass
    have hprog : Progressed k (k.remaining.take CHATHISTORY_CHUNK_SIZE) (processChunkMessages c₁ k).2 :=
      chunkLoop_progressed CHATHISTORY_CHUNK_SIZE c₁ k
    rw [Option.bind_some]
    dsimp only
    rw [finishShrink_narrows_iff, narrowed_progressed hprog]
    constructor
    · rintro hall _ _ ⟨⟩ db gapId dir g hdb hid hg
      exact (boundReaches_iff hprog hold hnew dir g).1 (hall db gapId dir g hdb hid hg)
    · intro hall db gapId dir g hdb hid hg
      exact (boundReaches_iff hprog hold hnew dir g).2 (hall c₁ k rfl db gapId dir g hdb hid hg)

/-- **Shrinking narrows**: over any run, every call of `scrollback_gap_shrink` leaves its gap within the bounds it had, or
deletes it, exactly when every page reaches the gap it is taken for. -/
theorem shrinks_narrow_iff (n : Net) (es : List Event) :
    Along step ShrinksNarrow (.start n) es ↔ Along step PageMeetsGap (.start n) es :=
  Along.congr (I := Client.Dated) (fun _ e hc => step_dated hc e) (fun _ e hc => shrinksNarrow_iff hc e)
    fun _ hk => absurd hk List.not_mem_nil

end Runs

/-! ## The page that stands in for an empty one -/

/-- `#c` with a line of its own, on a connection whose catch-up is about to start. -/
def oneLineStored : Net :=
  { Net.connected [{ type := .channel, channel := "#c", scrollbackNewestTime := 100, scrollbackNewestMsgid := some "a" }] with
    serv := { (Net.connected []).serv with chathistoryStartTimer := true }
    db := some { Sb.fresh true with
      messages := [⟨1, 1, 100, some "a", "", none, none, 0, false⟩]
      channels := [⟨1, "#c", false, false⟩] } }

/-- The walk asks for what is before `b` and is told that there is nothing; it asks for the latest lines instead. -/
def emptyPageRetried : List Event :=
  [.deferredStart, .batch (.plain [.line "b" 200]), .beforeTimer, .batch (.plain [])]

def latestInstead : Event := .batch (.plain [.line "z" 300])

/-- The gap between the line stored and the page of the LATEST phase. -/
def missedBetween : Gap := ⟨1, 1, 100, some "a", 200, some "b", .witnessed, 0, 0⟩

/-- The gap from 100 to 200 then ends at 300. -/
theorem latest_page_widens :
    ((run (.start oneLineStored) emptyPageRetried).net.gap 1).map (fun g => (g.startTs, g.endTs)) = some (100, 200) ∧
    ((run (.start oneLineStored) (emptyPageRetried ++ [latestInstead])).net.gap 1).map
      (fun g => (g.startTs, g.endTs)) = some (100, 300) ∧
    ¬ Along step ShrinksNarrow (.start oneLineStored) (emptyPageRetried ++ [latestInstead]) := by
  refine ⟨by decide, by decide, fun hall => ?_⟩
  have hlast : ShrinksNarrow (run (.start oneLineStored) emptyPageRetried) latestInstead := (Along.append.1 hall).2.1
  have hcall : (shrinkCall (run (.start oneLineStored) emptyPageRetried) latestInstead).map
      (fun x => (x.db.gaps, x.gapId, x.newStartTs, x.newEndTs)) = some ([missedBetween], 1, 0, 300) := by decide
  obtain ⟨x, hx, hfields⟩ := Option.map_eq_some_iff.1 hcall
  simp only [Prod.mk.injEq] at hfields
  obtain ⟨hgaps, hid, hstart, hend⟩ := hfields
  have hrow : IsRow x.db x.gapId missedBetween := by
    intro h
    rw [hgaps, hid, List.mem_singleton]
    exact ⟨fun h => h.1, fun h => ⟨h, h ▸ rfl⟩⟩
  have hwithin := (narrows_iff (by omega)).1 (hlast x hx) missedBetween hrow
  rw [hstart, hend] at hwithin
  have hshrunk : (300 : Int) ≤ 200 := (hwithin (show (100 : Int) < 300 by decide)).2
  exact absurd hshrunk (by decide)

end PoxChat.ChatHistory
