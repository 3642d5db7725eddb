import PoxChat.ChatHistory.Replay

/-!
# Replies to gap fills

A reply to a gap fill closes the part of the gap between the edge it was asked from and the farthest
timestamp among its messages.  The bounds are kept over all messages, context messages included, and
the limit that tells a full page from the last one is computed anew when the reply ends.

* `removed_iff` — which times of the gap the end of a reply removes from the ledger.
* `gap_closed_over_delivered_iff` — they are delivered history exactly when no context message strays
  beyond the ordinary ones and the limit did not grow.
-/

set_option autoImplicit false

namespace PoxChat.ChatHistory

open Lib Scrollback

/-! ## Bounds of a reply -/

section

variable {messages : List BatchMessage} {t : Int}

theorem oldestOf_reaches {o : Int} (ho : 0 ≤ o) : (0 < oldestOf messages o ∧ oldestOf messages o ≤ t) ↔
    0 < o ∧ o ≤ t ∨ ∃ m ∈ messages, 0 < m.timestamp ∧ m.timestamp ≤ t := by
  induction messages generalizing o with
  | nil => simp [oldestOf]
  | cons m messages ih =>
    simp only [oldestOf, List.foldl_cons, List.exists_mem_cons_iff]
    split
    · rename_i hm
      have := ih (o := m.timestamp) (by omega)
      simp only [oldestOf] at this
      rw [this]
      constructor
      · rintro (h | h)
        · exact .inr (.inl h)
        · exact .inr (.inr h)
      · rintro (h | h | h)
        · left
          omega
        · exact .inl h
        · exact .inr h
    · rename_i hm
      have := ih ho
      simp only [oldestOf] at this
      rw [this]
      constructor
      · rintro (h | h)
        · exact .inl h
        · exact .inr (.inr h)
      · rintro (h | h | h)
        · exact .inl h
        · left
          clear this ih
          omega
        · exact .inr h

theorem newestOf_reaches {o : Int} (ho : 0 ≤ o) : (0 < newestOf messages o ∧ t ≤ newestOf messages o) ↔
    0 < o ∧ t ≤ o ∨ ∃ m ∈ messages, 0 < m.timestamp ∧ t ≤ m.timestamp := by
  induction messages generalizing o with
  | nil => simp [newestOf]
  | cons m messages ih =>
    simp only [newestOf, List.foldl_cons, List.exists_mem_cons_iff]
    split
    · rename_i hm
      have := ih (o := m.timestamp) (by omega)
      simp only [newestOf] at this
      rw [this]
      constructor
      · rintro (h | h)
        · exact .inr (.inl h)
        · exact .inr (.inr h)
      · rintro (h | h | h)
        · left
          omega
        · exact .inl h
        · exact .inr h
    · rename_i hm
      have := ih ho
      simp only [newestOf] at this
      rw [this]
      constructor
      · rintro (h | h)
        · exact .inl h
        · exact .inr (.inr h)
      · rintro (h | h | h)
        · exact .inl h
        · left
          clear this ih
          omega
        · exact .inr h

end

/-! ## What a reply removes -/

/-- A time strictly between the bounds of a gap. -/
def Inside (g : Gap) (t : Int) : Prop := g.startTs < t ∧ t < g.endTs

/-- The time still lies in the ledger row with this id. -/
def InLedger (n : Net) (gapId t : Int) : Prop := ∃ g, n.gap gapId = some g ∧ Inside g t

/-- A message lies at `t` or beyond it, seen from the edge the gap was approached from. -/
def Reaches (dir : Int) (m : BatchMessage) (t : Int) : Prop :=
  0 < m.timestamp ∧ if dir < 0 then m.timestamp ≤ t else t ≤ m.timestamp

/-- The time lies between the near edge and the farthest ordinary message. -/
def Delivered (b : Batch) (dir t : Int) : Prop := ∃ m ∈ b.messages, m.context = false ∧ Reaches dir m t

/-- The limit a gap fill is compared with when its reply ends. -/
def replyLimit (n : Net) : Int := getEffectiveLimit n.serv n.prefs.chathistoryLines

section

variable {n : Net} {k : Chunk} {g : Gap} {t : Int} {messages : List BatchMessage}

/-- The bounds of a chunk, seen from the near edge. -/
theorem reach_iff (hold : k.oldestTimestamp = oldestOf messages 0) (hnew : k.newestTimestamp = newestOf messages 0) :
    (if k.gapDir < 0 then 0 < k.oldestTimestamp ∧ k.oldestTimestamp ≤ t
      else 0 < k.newestTimestamp ∧ t ≤ k.newestTimestamp) ↔ ∃ m ∈ messages, Reaches k.gapDir m t := by
  unfold Reaches
  split
  · rw [hold, oldestOf_reaches (Int.le_refl 0)]
    simp
  · rw [hnew, newestOf_reaches (Int.le_refl 0)]
    simp

theorem find?_updateGap {gaps : List Gap} {gapId : Int} {f : Gap → Gap} (hf : ∀ g, (f g).id = g.id)
    (h : gaps.find? (fun g => g.id = gapId) = some g) :
    (updateGap gaps gapId f).find? (fun g => g.id = gapId) = some (f g) := by
  induction gaps with
  | nil => cases h
  | cons g' gaps ih =>
    rw [List.find?_cons] at h
    simp only [updateGap, List.map_cons, List.find?_cons]
    by_cases hid : g'.id = gapId
    · simp only [hid, decide_true, if_true, hf] at h ⊢
      cases h
      rfl
    · simp only [hid, decide_false, if_false] at h ⊢
      exact ih h

/-- A shrunk row that is not inverted is the row found under its id. -/
theorem scrollbackGapShrink_get {db : Sb} {gapId ns ne : Int} {sm em : Option String}
    (h : scrollbackGapGet db gapId = some g) (hp : (g.shrink ns sm ne em).startTs < (g.shrink ns sm ne em).endTs) :
    scrollbackGapGet (scrollbackGapShrink db gapId ns sm ne em) gapId = some (g.shrink ns sm ne em) := by
  unfold scrollbackGapGet scrollbackGapShrink at *
  split at h
  · cases h
  · rename_i hpos
    rw [if_neg hpos]
    have hfind := find?_updateGap (f := fun g => g.shrink ns sm ne em) (fun _ => rfl) h
    rw [if_neg hpos]
    dsimp only
    obtain ⟨hid, as, bs, hsplit, has⟩ := List.find?_eq_some_iff_append.1 hfind
    rw [List.find?_filter]
    refine List.find?_eq_some_iff_append.2 ⟨?_, as, bs, hsplit, fun a ha => ?_⟩
    · simp only [decide_eq_true_eq] at hid ⊢
      refine ⟨?_, hid⟩
      rintro ⟨-, hle⟩
      omega
    · have := has a ha
      simp only [Bool.not_eq_true', decide_eq_false_iff_not] at this ⊢
      intro hc
      exact this (by simpa using hc.2)

theorem scrollbackGapDelete_get (db : Sb) (gapId : Int) : scrollbackGapGet (scrollbackGapDelete db gapId) gapId = none := by
  unfold scrollbackGapGet scrollbackGapDelete
  split
  · rfl
  · simp

theorem gap_shrink {db : Sb} {gapId ns ne : Int} {sm em : Option String} (hdb : n.db = some db)
    (h : scrollbackGapGet db gapId = some g) (hp : (g.shrink ns sm ne em).startTs < (g.shrink ns sm ne em).endTs) :
    (n.store fun db => scrollbackGapShrink db gapId ns sm ne em).gap gapId = some (g.shrink ns sm ne em) := by
  simp only [Net.gap, Net.store, hdb, Option.map_some, Option.bind_some]
  exact scrollbackGapShrink_get h hp

/-- Which times of its gap the clamp removes. -/
theorem clamp_removes_iff (hg : n.gap k.gapId = some g) (hold : k.oldestTimestamp = oldestOf messages 0)
    (hnew : k.newestTimestamp = newestOf messages 0) (ht : Inside g t) :
    ¬ InLedger (clampGap n k) k.gapId t ↔
      0 < k.rawCount ∧ (k.rawCount < replyLimit n ∨ ∃ m ∈ messages, Reaches k.gapDir m t) := by
  rw [← reach_iff (t := t) hold hnew]
  obtain ⟨db, hdb, hget⟩ := Option.bind_eq_some_iff.1 hg
  have hpos : 0 < k.gapId := by
    unfold scrollbackGapGet at hget
    split at hget
    · cases hget
    · omega
  unfold clampGap
  by_cases hraw : 0 < k.rawCount
  · rw [if_pos ⟨hpos, hraw⟩, show (n.db.bind fun db => scrollbackGapGet db k.gapId) = some g from hg]
    simp only [hraw, true_and]
    by_cases hbr : bridges n k g = true
    · -- the whole gap goes; either the page was not full, or the batch reaches over the far edge
      rw [if_pos hbr]
      have hgone : ¬ InLedger (n.store fun db => scrollbackGapDelete db k.gapId) k.gapId t := by
        rintro ⟨g', hg', -⟩
        simp [Net.gap, Net.store, hdb, scrollbackGapDelete_get] at hg'
      refine iff_of_true hgone ?_
      simp only [bridges, decide_eq_true_eq] at hbr
      rcases hbr with hbr | hbr
      · right
        unfold Inside at ht
        by_cases hdir : k.gapDir < 0
        · simp only [hdir, if_true] at hbr ⊢
          omega
        · simp only [hdir, if_false] at hbr ⊢
          omega
      · exact .inl hbr
    · rw [if_neg hbr]
      simp only [bridges, decide_eq_true_eq, not_or] at hbr
      obtain ⟨hedge, hlim⟩ := hbr
      unfold Inside at ht
      have hlim' : ¬ k.rawCount < replyLimit n := hlim
      simp only [hlim', false_or]
      by_cases hdir : k.gapDir < 0
      · simp only [hdir, if_true] at hedge ⊢
        unfold InLedger
        rw [gap_shrink hdb hget (by simp only [Gap.shrink, Int.lt_irrefl, if_false]; split <;> omega)]
        simp only [Option.some.injEq, exists_eq_left', Inside, Gap.shrink, Int.lt_irrefl, if_false]
        split <;> omega
      · simp only [hdir, if_false] at hedge ⊢
        unfold InLedger
        rw [gap_shrink hdb hget (by simp only [Gap.shrink, Int.lt_irrefl, if_false]; split <;> omega)]
        simp only [Option.some.injEq, exists_eq_left', Inside, Gap.shrink, Int.lt_irrefl, if_false]
        split <;> omega
  · rw [if_neg (fun h => hraw h.2)]
    simp only [hraw, false_and, iff_false, not_not]
    exact ⟨g, hg, ht⟩

theorem clampGap_congr {n' : Net} (hdb : n'.db = n.db) (hl : replyLimit n' = replyLimit n) :
    (clampGap n' k).db = (clampGap n k).db := by
  have hb : ∀ g, bridges n' k g = bridges n k g := by
    intro g
    unfold replyLimit at hl
    simp only [bridges, hl]
  unfold clampGap
  rw [hdb]
  split
  · split
    · exact hdb
    · rw [hb]
      split
      · simp [Net.store, hdb]
      · split <;> simp [Net.store, hdb]
  · exact hdb

theorem finishPlain_db : (finishPlain n k).db = (clampGap n k).db := by
  unfold finishPlain scheduleBackgroundFetch
  dsimp only
  repeat' split
  all_goals exact clampGap_congr rfl rfl

theorem settleBatch_db : (settleBatch n k).db = n.db ∧ replyLimit (settleBatch n k) = replyLimit n := by
  have hq : ∀ m : Net, (chathistoryRequestComplete m k.sess).db = m.db ∧
      replyLimit (chathistoryRequestComplete m k.sess) = replyLimit m := by
    intro m
    obtain ⟨_, _, _, _, _, heq, _⟩ := requestComplete_queued m k.sess
    rw [heq]
    exact ⟨rfl, rfl⟩
  have hq' := hq { n with serv := { n.serv with chathistoryFailStreak := 0 } }
  unfold settleBatch
  dsimp only
  repeat' split
  all_goals first | exact ⟨rfl, rfl⟩ | exact hq'

end

/-- Batch `b` answers the gap fill `req` of session `i`, and `k` is its chunk when it is finished. -/
structure GapFillReply (n : Net) (i : Nat) (b : Batch) (req : Chreq) (k : Chunk) : Prop where
  active : (n.heap i).chActive = some req
  gap : 0 < req.gapId
  answers : batchInReplayWrapper n.serv b = false
  chunk : ∃ id, Progressed (newChunk (batchShape n b i).2 b i id (batchShape n b i).1) b.replayed k

/-- What the end of a reply took out of gap `g` was delivered with it, or the page was not full. -/
def ClosedOverDelivered (b : Batch) (req : Chreq) (sentLimit : Int) (g : Gap) (n' : Net) : Prop :=
  b.rawCount < sentLimit ∨ ∀ t, Inside g t → ¬ InLedger n' req.gapId t → Delivered b req.gapDir t

/-- No context message strays into the part of the gap no ordinary message reaches, and a page that was
full when it was sent counts as full. -/
def NothingStrays (n : Net) (b : Batch) (req : Chreq) (sentLimit : Int) (g : Gap) : Prop :=
  b.rawCount < sentLimit ∨ ∀ t, Inside g t → Delivered b req.gapDir t ∨
    replyLimit n ≤ b.rawCount ∧ ∀ m ∈ b.replayed, m.context = true → ¬ Reaches req.gapDir m t

section

variable {n m : Net} {i : Nat} {b : Batch} {req : Chreq} {k : Chunk} {g : Gap}

theorem GapFillReply.shape (h : GapFillReply n i b req k) :
    (batchShape n b i).1 = ⟨false, true, false, req.gapId, req.gapDir⟩ := by
  have hu : chathistoryBatchIsUnsolicited n b i = false := by
    simp [chathistoryBatchIsUnsolicited, h.answers, h.active]
  have hne : ¬ req.gapId = 0 := by
    have := h.gap
    omega
  unfold batchShape
  simp [hu, h.answers, h.active, hne]

theorem getEffectiveLimit_pos (serv : Serv) (requested : Int) : 0 < getEffectiveLimit serv requested := by
  unfold getEffectiveLimit CHATHISTORY_DEFAULT_LIMIT CHATHISTORY_MAX_LIMIT
  dsimp only
  split
  · omega
  · split <;> omega

/-- Which times of its gap the end of a reply removes from the ledger. -/
theorem removed_iff (h : GapFillReply n i b req k) (hg : m.gap req.gapId = some g) {t : Int} (ht : Inside g t) :
    ¬ InLedger (finishBatchProcessing m k) req.gapId t ↔
      0 < (b.rawCount : Int) ∧ ((b.rawCount : Int) < replyLimit m ∨ ∃ x ∈ b.replayed, Reaches req.gapDir x t) := by
  obtain ⟨id, hp⟩ := h.chunk
  obtain ⟨count, hk⟩ := hp.chunk
  have hraw : k.rawCount = b.rawCount := by
    have := newChunk_rawCount (batchShape n b i).2 b i id (batchShape n b i).1
    rw [hk]
    exact this
  have hgap : k.gapId = req.gapId := by rw [hk]; simp [newChunk, h.shape]
  have hdir : k.gapDir = req.gapDir := by rw [hk]; simp [newChunk, h.shape]
  have hcatch : k.isCatchup = false := by rw [hk]; simp [newChunk, h.shape]
  have hold : k.oldestTimestamp = oldestOf b.replayed 0 := by rw [hk]; rfl
  have hnew : k.newestTimestamp = newestOf b.replayed 0 := by rw [hk]; rfl
  have hfin : (finishBatchProcessing m k).db = (clampGap m k).db := by
    obtain ⟨hdb, hl⟩ := settleBatch_db (n := m) (k := k)
    unfold finishBatchProcessing
    simp only [hcatch, Bool.false_eq_true, if_false]
    rw [finishPlain_db]
    exact clampGap_congr hdb hl
  have hled : InLedger (finishBatchProcessing m k) req.gapId t ↔ InLedger (clampGap m k) req.gapId t := by
    unfold InLedger Net.gap
    rw [hfin]
  rw [← hgap] at hg
  have := clamp_removes_iff hg hold hnew ht
  rw [hgap, hdir, hraw] at this
  rw [hled]
  exact this

/-- **Gaps close over delivered history**: what the end of a gap-fill reply removes was delivered with it
exactly when nothing strays. -/
theorem gap_closed_over_delivered_iff (h : GapFillReply n i b req k) (hg : m.gap req.gapId = some g) (sent : Serv) :
    ClosedOverDelivered b req (getEffectiveLimit sent req.limit) g (finishBatchProcessing m k) ↔
      NothingStrays m b req (getEffectiveLimit sent req.limit) g := by
  have hpos := getEffectiveLimit_pos sent req.limit
  unfold ClosedOverDelivered NothingStrays
  by_cases hfull : (b.rawCount : Int) < getEffectiveLimit sent req.limit
  · simp [hfull]
  · simp only [hfull, false_or]
    have hraw : 0 < (b.rawCount : Int) := by omega
    constructor
    · intro hc t ht
      by_cases hd : Delivered b req.gapDir t
      · exact .inl hd
      · right
        have hkept : ¬ ¬ InLedger (finishBatchProcessing m k) req.gapId t := fun hn => hd (hc t ht hn)
        rw [removed_iff h hg ht] at hkept
        refine ⟨?_, fun x hx _ hr => hkept ⟨hraw, .inr ⟨x, hx, hr⟩⟩⟩
        by_contra hlt
        exact hkept ⟨hraw, .inl (by omega)⟩
    · intro hc t ht hn
      rcases hc t ht with hd | ⟨hlim, hstray⟩
      · exact hd
      · obtain ⟨-, hlt | ⟨x, hx, hr⟩⟩ := (removed_iff h hg ht).1 hn
        · omega
        · refine ⟨x, Batch.mem_of_replayed hx, ?_, hr⟩
          cases hctx : x.context with
          | false => rfl
          | true => exact absurd hr (hstray x hx hctx)

end

/-! ## A page of one line -/

/-- `#c` with a gap from 100 to 200, on a server that sends one line a page. -/
def oneLinePage : Net :=
  let n := Net.connected [{ type := .channel, channel := "#c" }]
  { n with
    serv := { n.serv with chathistoryLimit := 1 }
    db := some (scrollbackGapRecord (Sb.fresh true) "#c" 100 none 200 none .witnessed).2 }

/-- A reaction from long before the line it belongs to is sent along. -/
def strayReaction : Batch := .plain [.line "a" 180, ⟨some "TAGMSG", none, ["#c"], none, 120, true⟩]

/-- The request for the gap, from its end. -/
def endFill : Chreq := ⟨.between, some "timestamp=1970-01-01T00:03:20.000Z",
  some "timestamp=1970-01-01T00:01:40.000Z", 100, .user, false, false, 1, -1⟩

def theGap : Gap := ⟨1, 1, 100, none, 200, none, .witnessed, 0, 0⟩

/-- The gap fill was sent. -/
def fillAsked : Client := run (Client.start oneLinePage) [.requestGapFill 0 1 (-1)]

/-- The chunk of a reply with one line, once it is replayed. -/
def lineChunk : Chunk :=
  (processChunkMessages fillAsked (newChunk fillAsked.net (.plain [.line "a" 180]) 0 0 ⟨false, true, false, 1, -1⟩)).2

theorem gap_closed_over_line : ClosedOverDelivered (.plain [.line "a" 180]) endFill 1 theGap
    (finishBatchProcessing fillAsked.net lineChunk) := by
  have hr : GapFillReply fillAsked.net 0 (.plain [.line "a" 180]) endFill lineChunk :=
    ⟨by decide, by decide, by decide, 0, chunkLoop_progressed CHATHISTORY_CHUNK_SIZE fillAsked
      (newChunk fillAsked.net (.plain [.line "a" 180]) 0 0 ⟨false, true, false, 1, -1⟩)⟩
  have hg : fillAsked.net.gap endFill.gapId = some { theGap with attempts := 1, lastAttempt := 0 } := by decide
  refine (gap_closed_over_delivered_iff hr hg oneLinePage.serv).2 (.inr fun t _ => .inr ⟨by decide, ?_⟩)
  intro x hx hctx
  have : ∀ x ∈ (Batch.plain [.line "a" 180]).replayed, x.context = false := by decide
  rw [this x hx] at hctx
  cases hctx

/-- The end of the reply moves the gap's end to the reaction, over history that was never sent. -/
theorem stray_reaction_closes_gap :
    ((run (Client.start oneLinePage) [.requestGapFill 0 1 (-1)]).net.heap 0).chActive = some endFill ∧
    ((run (Client.start oneLinePage) [.requestGapFill 0 1 (-1), .batch strayReaction]).net.gap 1).map (·.endTs) = some 120 ∧
    ¬ ClosedOverDelivered strayReaction endFill 1 theGap
      (run (Client.start oneLinePage) [.requestGapFill 0 1 (-1), .batch strayReaction]).net := by
  have hgap : ((run (Client.start oneLinePage) [.requestGapFill 0 1 (-1), .batch strayReaction]).net.gap 1).map (·.endTs) =
      some 120 := by decide
  refine ⟨by decide, hgap, ?_⟩
  rintro (h | h)
  · revert h
    decide
  · obtain ⟨x, hx, hctx, hr⟩ := h 150 ⟨by decide, by decide⟩ (by
      rintro ⟨g, hg, -, hlt⟩
      rw [show endFill.gapId = 1 from rfl] at hg
      rw [hg] at hgap
      simp at hgap
      omega)
    revert x
    unfold Reaches
    decide

end PoxChat.ChatHistory
