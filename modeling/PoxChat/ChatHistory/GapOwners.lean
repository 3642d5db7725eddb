import PoxChat.ChatHistory.InFlight
import PoxChat.Scrollback.Gaps

/-!
# Whose gap an id names

The ledger is written by row id alone, and ids are kept while the row they name may go: in
`catchup_gap_id`, in the two requests of a session's queue and in the chunks.  SQLite gives a new row
the largest id left in the table plus one.

* `Designates db ch id` — every row with this id belongs to the channel `ch`.
* `Tends T s s'` — only rows whose ids are in `T` were changed or removed, and none was added.
* `Quiet L ch n n'` — what a function may do that records no gap: sessions keep ids that are in `L`
  for their channel, and the ledger is tended for those of `ch`.

Principal results: `Owners.quiet`, `Owners.record` — the two ways a step keeps every id with its channel;
`gaps_stay_owned` — a batch touches the gaps of its own channel only, as long as no row is inserted
under an id that is kept for another channel.  `reused_gap_id_deleted` is a run in which one is.
-/

set_option autoImplicit false

namespace PoxChat.ChatHistory

open Lib Scrollback

/-! ## The ledger -/

/-- Every row with this id belongs to the channel. -/
def Designates (db : Sb) (ch : String) (id : Int) : Prop :=
  ∀ g ∈ db.gaps, g.id = id → channelLookup db.channels ch = some g.channelId

/-- The rows of other channels are as they were. -/
def Others (ch : String) (s s' : Sb) : Prop :=
  ∀ g, channelLookup s'.channels ch ≠ some g.channelId → (g ∈ s'.gaps ↔ g ∈ s.gaps)

/-- Known channels keep their ids. -/
def Grows (s s' : Sb) : Prop :=
  ∀ name id, channelLookup s.channels name = some id → channelLookup s'.channels name = some id

/-- Only rows with ids in `T` were changed or removed, and none was added. -/
structure Tends (T : Int → Prop) (s s' : Sb) : Prop where
  sane : s'.Sane
  grows : Grows s s'
  keeps : ∀ g, ¬ T g.id → (g ∈ s'.gaps ↔ g ∈ s.gaps)
  origin : ∀ g' ∈ s'.gaps, ∃ g ∈ s.gaps, g.id = g'.id ∧ g.channelId = g'.channelId

section Ledger

variable {T : Int → Prop} {s s' s'' : Sb} {ch : String} {gapId : Int}

theorem Tends.refl (hs : s.Sane) : Tends T s s := ⟨hs, fun _ _ h => h, fun _ _ => Iff.rfl, fun g hg => ⟨g, hg, rfl, rfl⟩⟩

theorem Tends.trans (h : Tends T s s') (h' : Tends T s' s'') : Tends T s s'' := by
  refine ⟨h'.sane, fun name id hl => h'.grows name id (h.grows name id hl), fun g hg => ?_, fun g' hg' => ?_⟩
  · rw [h'.keeps g hg, h.keeps g hg]
  · obtain ⟨g₁, hg₁, hid₁, hch₁⟩ := h'.origin g' hg'
    obtain ⟨g, hg, hid, hch⟩ := h.origin g₁ hg₁
    exact ⟨g, hg, hid.trans hid₁, hch.trans hch₁⟩

/-- A call on the messages leaves the ledger alone. -/
theorem Tends.of_keeps (h : Keeps s s') : Tends T s s' := by
  refine ⟨h.sane, h.lookups, fun g _ => by rw [h.gaps], fun g hg => ⟨g, ?_, rfl, rfl⟩⟩
  rw [← h.gaps]
  exact hg

theorem Tends.of_resolves (hs : s.Sane) (channel : String) : Tends T s (scrollbackGetChannelId s channel).2 := by
  obtain ⟨id, channels, cache, he, hr⟩ := scrollbackGetChannelId_resolves hs channel
  rw [he]
  exact ⟨hr.sane, hr.keepsLookups, fun _ _ => Iff.rfl, fun g hg => ⟨g, hg, rfl, rfl⟩⟩

theorem Tends.filter (hs : s.Sane) {p : Gap → Bool} (hp : ∀ g ∈ s.gaps, p g = false → T g.id) :
    Tends T s { s with gaps := s.gaps.filter p } := by
  refine ⟨hs, fun _ _ h => h, fun g hg => ?_, fun g hg => ⟨g, List.mem_of_mem_filter hg, rfl, rfl⟩⟩
  simp only [List.mem_filter]
  refine ⟨fun h => h.1, fun h => ⟨h, ?_⟩⟩
  cases hpg : p g with
  | true => rfl
  | false => exact absurd (hp g h hpg) hg

theorem Tends.update (hs : s.Sane) (hT : T gapId) {f : Gap → Gap}
    (hf : ∀ g, (f g).id = g.id ∧ (f g).channelId = g.channelId) :
    Tends T s { s with gaps := updateGap s.gaps gapId f } := by
  refine ⟨hs, fun _ _ h => h, fun g hg => ?_, fun g' hg' => ?_⟩
  · have hne : g.id ≠ gapId := fun h => hg (h ▸ hT)
    simp only [updateGap, List.mem_map]
    constructor
    · rintro ⟨g₀, hg₀, he⟩
      by_cases hid : g₀.id = gapId
      · rw [if_pos hid] at he
        rw [← he, (hf g₀).1] at hne
        exact absurd hid hne
      · rw [if_neg hid] at he
        exact he ▸ hg₀
    · intro hmem
      exact ⟨g, hmem, if_neg hne⟩
  · obtain ⟨g, hg, rfl⟩ := List.mem_map.1 hg'
    refine ⟨g, hg, ?_⟩
    split
    · exact ⟨(hf g).1.symm, (hf g).2.symm⟩
    · exact ⟨rfl, rfl⟩

theorem shrink_tends (hs : s.Sane) (hT : T gapId) (a : Int) (am : Option String) (b : Int) (bm : Option String) :
    Tends T s (scrollbackGapShrink s gapId a am b bm) := by
  unfold scrollbackGapShrink
  split
  · exact .refl hs
  · refine Tends.trans (Tends.update hs hT (f := fun g => g.shrink a am b bm) fun _ => ⟨rfl, rfl⟩) ?_
    refine Tends.filter (s := { s with gaps := updateGap s.gaps gapId _ }) hs fun g _ hp => ?_
    have hid : g.id = gapId ∧ g.endTs ≤ g.startTs := by simpa using hp
    exact hid.1 ▸ hT

theorem setState_tends (hs : s.Sane) (hT : T gapId) (state : GapState) : Tends T s (scrollbackGapSetState s gapId state) := by
  unfold scrollbackGapSetState
  split
  · exact .refl hs
  · exact Tends.update hs hT fun _ => ⟨rfl, rfl⟩

theorem touch_tends (hs : s.Sane) (hT : T gapId) (now : Int) : Tends T s (scrollbackGapTouch s gapId now).2 := by
  unfold scrollbackGapTouch
  split
  · exact .refl hs
  · exact Tends.update hs hT fun _ => ⟨rfl, rfl⟩

theorem delete_tends (hs : s.Sane) (hT : T gapId) : Tends T s (scrollbackGapDelete s gapId) := by
  unfold scrollbackGapDelete
  split
  · exact .refl hs
  · refine Tends.filter hs fun g _ hp => ?_
    have hid : g.id = gapId := by simpa using hp
    exact hid ▸ hT

theorem dropMsgids_tends (hs : s.Sane) (hT : T gapId) : Tends T s (scrollbackGapDropMsgids s gapId).2 := by
  unfold scrollbackGapDropMsgids
  split
  · exact .refl hs
  · refine Tends.update hs hT fun g => ?_
    dsimp only
    split <;> exact ⟨rfl, rfl⟩

/-- **What is tended for a channel is its own**, when every id in `T` designates it. -/
theorem Tends.others (h : Tends T s s') (hT : ∀ id, T id → Designates s ch id) : Others ch s s' := by
  intro g hne
  by_cases hid : T g.id
  · have hgone : ∀ g₀ ∈ s.gaps, g₀.id = g.id → g₀.channelId ≠ g.channelId := fun g₀ hg₀ he hch =>
      hne (hch ▸ h.grows ch _ (hT g.id hid g₀ hg₀ he))
    refine iff_of_false (fun hg' => ?_) fun hg => hgone g hg rfl rfl
    obtain ⟨g₀, hg₀, he, hch⟩ := h.origin g hg'
    exact hgone g₀ hg₀ he hch
  · exact h.keeps g hid

theorem Others.trans (h : Others ch s s') (h' : Others ch s' s'') (hg : Grows s' s'') : Others ch s s'' := by
  intro g hne
  rw [h' g hne, h g fun hl => hne (hg ch _ hl)]

theorem Designates.tends {id : Int} (hd : Designates s ch id) (h : Tends T s s') : Designates s' ch id := by
  intro g' hg' hid
  obtain ⟨g, hg, he, hch⟩ := h.origin g' hg'
  exact hch ▸ h.grows ch _ (hd g hg (he.trans hid))

end Ledger

/-! ## The ids a session keeps -/

/-- The session keeps the id, in `catchup_gap_id` or in a request of its queue. -/
def Session.KeepsId (s : Session) (id : Int) : Prop :=
  s.catchupGapId = id ∨ (∃ r, s.chActive = some r ∧ r.gapId = id) ∨ ∃ r, s.chPending = some r ∧ r.gapId = id

instance (s : Session) (id : Int) : Decidable (s.KeepsId id) :=
  decidable_of_iff (s.catchupGapId = id ∨ s.chActive.any (fun r => r.gapId = id) ∨ s.chPending.any fun r => r.gapId = id)
    (by simp [Session.KeepsId, Option.any_eq_true])

/-- The ids that sessions keep are in `L` for their channels, and the store is sane. -/
structure Good (L : String → Int → Prop) (n : Net) : Prop where
  held : ∀ j id, 0 < id → (n.heap j).KeepsId id → L (n.heap j).channel id
  sane : ∀ db, n.db = some db → db.Sane

/-- What a function may do that records no gap. -/
structure Quiet (L : String → Int → Prop) (ch : String) (n n' : Net) : Prop where
  good : Good L n'
  channel : ∀ j, (n'.heap j).channel = (n.heap j).channel
  sessList : n'.sessList = n.sessList
  nextSess : n'.nextSess = n.nextSess
  closed : n.db = none → n'.db = none
  store : ∀ db, n.db = some db → ∃ db', n'.db = some db' ∧ Tends (L ch) db db'

section Quiet

variable {L : String → Int → Prop} {ch : String} {n n' n'' : Net} {i : Nat}

theorem Quiet.of_heap (h : Good L n) (hdb : n'.db = n.db) (hs : n'.sessList = n.sessList)
    (hn : n'.nextSess = n.nextSess)
    (hheap : ∀ j, (n'.heap j).channel = (n.heap j).channel ∧ ∀ id, 0 < id → (n'.heap j).KeepsId id →
      (n.heap j).KeepsId id ∨ L (n.heap j).channel id) : Quiet L ch n n' where
  good :=
    { held := fun j id hid hk => by
        rw [(hheap j).1]
        exact ((hheap j).2 id hid hk).elim (h.held j id hid) fun hl => hl
      sane := fun db hd => h.sane db (hdb ▸ hd) }
  channel j := (hheap j).1
  sessList := hs
  nextSess := hn
  closed hd := hdb.trans hd
  store db hd := ⟨db, hdb.trans hd, .refl (h.sane db hd)⟩

theorem Quiet.refl (h : Good L n) : Quiet L ch n n :=
  .of_heap h rfl rfl rfl fun _ => ⟨rfl, fun _ _ hk => .inl hk⟩

theorem Quiet.trans (h : Quiet L ch n n') (h' : Quiet L ch n' n'') : Quiet L ch n n'' where
  good := h'.good
  channel j := (h'.channel j).trans (h.channel j)
  sessList := h'.sessList.trans h.sessList
  nextSess := h'.nextSess.trans h.nextSess
  closed hd := h'.closed (h.closed hd)
  store db hd := by
    obtain ⟨db', hd', ht⟩ := h.store db hd
    obtain ⟨db'', hd'', ht'⟩ := h'.store db' hd'
    exact ⟨db'', hd'', ht.trans ht'⟩

/-- A change of the server record, the counters and the histories. -/
theorem Quiet.rest (h : Good L n) (hheap : n'.heap = n.heap) (hdb : n'.db = n.db) (hs : n'.sessList = n.sessList)
    (hn : n'.nextSess = n.nextSess) : Quiet L ch n n' :=
  .of_heap h hdb hs hn fun j => by rw [hheap]; exact ⟨rfl, fun _ _ hk => .inl hk⟩

theorem Quiet.upd (h : Good L n) {f : Session → Session} (hch : (f (n.heap i)).channel = (n.heap i).channel)
    (hf : ∀ id, 0 < id → (f (n.heap i)).KeepsId id → (n.heap i).KeepsId id ∨ L (n.heap i).channel id) :
    Quiet L ch n (n.upd i f) := by
  refine .of_heap h rfl rfl rfl fun j => ?_
  by_cases hj : j = i
  · subst hj
    simp only [Net.upd, Function.update_self]
    exact ⟨hch, hf⟩
  · simp only [Net.upd, Function.update_of_ne hj]
    exact ⟨trivial, fun _ _ hk => .inl hk⟩

theorem Quiet.updStore (h : Good L n) {f : Sb → Sb} (hf : ∀ db, n.db = some db → Tends (L ch) db (f db)) :
    Quiet L ch n (n.store f) where
  good :=
    { held := h.held
      sane := fun db hd => by
        obtain ⟨db₀, hd₀, rfl⟩ := Option.map_eq_some_iff.1 hd
        exact (hf db₀ hd₀).sane }
  channel _ := rfl
  sessList := rfl
  nextSess := rfl
  closed hd := by simp [Net.store, hd]
  store db hd := ⟨f db, by simp [Net.store, hd], hf db hd⟩

theorem Quiet.andThen (h : Quiet L ch n n') (hf : Good L n' → Quiet L ch n' n'') : Quiet L ch n n'' :=
  h.trans (hf h.good)

/-- A write to a session that leaves its ids alone. -/
theorem Quiet.fields (h : Good L n) {f : Session → Session} (hch : (f (n.heap i)).channel = (n.heap i).channel)
    (hc : (f (n.heap i)).catchupGapId = (n.heap i).catchupGapId) (ha : (f (n.heap i)).chActive = (n.heap i).chActive)
    (hp : (f (n.heap i)).chPending = (n.heap i).chPending) : Quiet L ch n (n.upd i f) := by
  refine .upd h hch fun id _ hk => .inl ?_
  unfold Session.KeepsId at *
  rwa [hc, ha, hp] at hk

/-! ### The queue -/

theorem dispatchNow_quiet (h : Good L n) {req : Chreq} (hr : 0 < req.gapId → L (n.heap i).channel req.gapId) :
    Quiet L ch n (chathistoryDispatchNow n i req) := by
  unfold chathistoryDispatchNow
  split
  · exact .refl h
  split
  · exact .refl h
  split
  · exact .refl h
  have hupd : Quiet L ch n (n.upd i fun s => { s with
      chActive := some req, historyLoading := true, historyRequestUsedMsgid := req.usedMsgid }) := by
    refine .upd h rfl ?_
    rintro id hid (hk | ⟨r, he, rfl⟩ | hk)
    · exact .inl (.inl hk)
    · cases he
      exact .inr (hr hid)
    · exact .inl (.inr (.inr hk))
  exact hupd.andThen fun g => .rest g rfl rfl rfl rfl

theorem submit_quiet (h : Good L n) {req : Chreq} (hr : 0 < req.gapId → L (n.heap i).channel req.gapId) :
    Quiet L ch n (chathistorySubmit n i req).2 := by
  unfold chathistorySubmit
  dsimp only
  split
  · exact .refl h
  split
  · exact .refl h
  split
  · exact dispatchNow_quiet h hr
  split
  · refine Quiet.upd (i := i) (f := fun s => { s with chPending := some req }) h rfl ?_
    rintro id hid (hk | hk | ⟨r, he, rfl⟩)
    · exact .inl (.inl hk)
    · exact .inl (.inr (.inl hk))
    · cases he
      exact .inr (hr hid)
  · exact .refl h

/-- A request that is for no gap. -/
theorem submit_plain_quiet (h : Good L n) {req : Chreq} (hr : req.gapId = 0) :
    Quiet L ch n (chathistorySubmit n i req).2 := by
  refine submit_quiet h fun hpos => ?_
  omega

theorem requestComplete_quiet (h : Good L n) : Quiet L ch n (chathistoryRequestComplete n i) := by
  have hfree : Quiet L ch n (n.upd i fun s => { s with chActive := none, historyLoading := false }) := by
    refine .upd h rfl ?_
    rintro id hid (hk | ⟨r, he, -⟩ | hk)
    · exact .inl (.inl hk)
    · cases he
    · exact .inl (.inr (.inr hk))
  unfold chathistoryRequestComplete
  dsimp only
  split
  · exact hfree
  rename_i pending hpending
  have hkept : 0 < pending.gapId → L (n.heap i).channel pending.gapId := by
    intro hpos
    rw [← hfree.channel i]
    exact hfree.good.held i _ hpos (.inr (.inr ⟨pending, hpending, rfl⟩))
  refine hfree.andThen fun g => Quiet.andThen (Quiet.upd (i := i) g rfl ?_) fun g' => dispatchNow_quiet g' ?_
  · rintro id hid (hk | hk | ⟨r, he, -⟩)
    · exact .inl (.inl hk)
    · exact .inl (.inr (.inl hk))
    · cases he
  · simpa [Net.upd] using hkept

theorem queueFree_quiet (h : Good L n) : Quiet L ch n (chathistoryQueueFree n i) := by
  refine .upd h rfl ?_
  rintro id hid (hk | ⟨r, he, -⟩ | ⟨r, he, -⟩)
  · exact .inl (.inl hk)
  · cases he
  · cases he

theorem requestLatest_quiet (h : Good L n) (reference : Option String) (limit : Int) :
    Quiet L ch n (chathistoryRequestLatest n i reference limit) := by
  unfold chathistoryRequestLatest
  split
  · exact submit_plain_quiet h rfl
  · exact .refl h

theorem requestBeforeMsgid_quiet (h : Good L n) (msgid : String) (limit : Int) :
    Quiet L ch n (chathistoryRequestBeforeMsgid n i msgid limit) := by
  unfold chathistoryRequestBeforeMsgid chathistoryRequestBefore
  split
  · exact .refl h
  split
  · exact submit_plain_quiet h rfl
  · exact .refl h

theorem requestOlder_quiet (h : Good L n) : Quiet L ch n (chathistoryRequestOlder n i) := by
  unfold chathistoryRequestOlder
  dsimp only
  split
  · exact .refl h
  split
  · exact .refl h
  · exact submit_plain_quiet h rfl

/-! ### Gap fills -/

theorem requestGapFill_quiet (h : Good L n) {gapId : Int} (hch : (n.heap i).channel = ch) (hL : L ch gapId) (dir : Int) :
    Quiet L ch n (chathistoryRequestGapFill n i gapId dir).2 := by
  unfold chathistoryRequestGapFill
  split
  · exact .refl h
  split
  · exact .refl h
  split
  · exact .refl h
  split
  · exact .refl h
  split
  · exact .refl h
  split
  · exact .refl h
  rename_i g _ _ _
  have hid : (gapRequest n g gapId dir).gapId = gapId := by
    unfold gapRequest
    dsimp only
    repeat' split
    all_goals rfl
  have hsubmit : Quiet L ch n (chathistorySubmit n i (gapRequest n g gapId dir)).2 :=
    submit_quiet h fun _ => by rw [hid, hch]; exact hL
  dsimp only
  split
  · exact hsubmit.andThen fun g' => .updStore g' fun db hd => touch_tends (g'.sane db hd) hL _
  · exact hsubmit

theorem gapFillRetry_quiet (h : Good L n) {gapId : Int} (hch : (n.heap i).channel = ch) (hL : L ch gapId) (dir : Int) :
    Quiet L ch n (gapFillRetryWithTimestamps n i gapId dir).2 := by
  unfold gapFillRetryWithTimestamps
  split
  · exact .refl h
  cases hdb : n.db with
  | none => exact .refl h
  | some db =>
    dsimp only
    have hdrop : Quiet L ch n { n with db := some (scrollbackGapDropMsgids db gapId).2 } := by
      have hstore : Quiet L ch n (n.store fun db => (scrollbackGapDropMsgids db gapId).2) :=
        .updStore h fun db hd => dropMsgids_tends (h.sane db hd) hL
      simpa [Net.store, hdb] using hstore
    split
    · exact hdrop.andThen fun g => requestGapFill_quiet g hch hL dir
    · exact hdrop

/-! ### Catch-up -/

theorem requestLatestSinceStored_quiet (h : Good L n) : Quiet L ch n (requestLatestSinceStored n i) :=
  requestLatest_quiet h _ _

theorem finishCatchup_quiet (h : Good L n) : Quiet L ch n (finishCatchup n i) := by
  have hupd : Quiet L ch n (n.upd i fun s => { s with
      catchupInProgress := false
      catchupIsBefore := false
      historyCatchupStaleCount := 0
      historyCatchupRetrieved := 0
      catchupGapId := 0
      oldestMsgid := if nonEmpty s.scrollbackOldestMsgid then s.scrollbackOldestMsgid else s.oldestMsgid }) := by
    refine .upd h rfl ?_
    rintro id hid (hk | hk | hk)
    · exact absurd hk hid.ne
    · exact .inl (.inr (.inl hk))
    · exact .inl (.inr (.inr hk))
  unfold finishCatchup
  dsimp only
  split
  · exact hupd.andThen fun g => .rest g rfl rfl rfl rfl
  · exact hupd

theorem startCatchup_quiet (h : Good L n) : Quiet L ch n (chathistoryStartCatchup n i) := by
  unfold chathistoryStartCatchup
  dsimp only
  split
  · exact .refl h
  split
  · exact .refl h
  · exact Quiet.andThen (Quiet.fields h rfl rfl rfl rfl) fun g => requestLatestSinceStored_quiet g

theorem getNewestMsgid_tends {T : Int → Prop} {s : Sb} (hs : s.Sane) (channel : String) :
    Tends T s (scrollbackGetNewestMsgid s channel).2 := by
  have := Tends.of_resolves (T := T) hs channel
  unfold scrollbackGetNewestMsgid
  dsimp only
  split <;> exact this

theorem getOldestMsgid_tends {T : Int → Prop} {s : Sb} (hs : s.Sane) (channel : String) :
    Tends T s (scrollbackGetOldestMsgid s channel).2 := by
  have := Tends.of_resolves (T := T) hs channel
  unfold scrollbackGetOldestMsgid
  dsimp only
  split <;> exact this

theorem getNewestTime_tends {T : Int → Prop} {s : Sb} (hs : s.Sane) (channel : String) :
    Tends T s (scrollbackGetNewestTime s channel).2 := by
  have := Tends.of_resolves (T := T) hs channel
  unfold scrollbackGetNewestTime
  dsimp only
  split <;> exact this

theorem refreshNewest_quiet (h : Good L n) : Quiet L ch n (refreshNewest n i) := by
  unfold refreshNewest
  cases hdb : n.db with
  | none => exact .refl h
  | some db =>
    dsimp only
    have hread : Quiet L ch n { n with db := some (scrollbackGetNewestTime
        (scrollbackGetNewestMsgid db (n.heap i).channel).2 (n.heap i).channel).2 } := by
      have hstore : Quiet L ch n (n.store fun db => (scrollbackGetNewestTime
          (scrollbackGetNewestMsgid db (n.heap i).channel).2 (n.heap i).channel).2) := by
        refine .updStore h fun db hd => ?_
        have hfirst := getNewestMsgid_tends (T := L ch) (h.sane db hd) (n.heap i).channel
        exact hfirst.trans (getNewestTime_tends hfirst.sane _)
      simpa [Net.store, hdb] using hstore
    exact hread.andThen fun g => .fields g rfl rfl rfl rfl

theorem enterLatest_quiet (h : Good L n) : Quiet L ch n (catchupEnterLatestPhase n i) := by
  unfold catchupEnterLatestPhase
  refine (refreshNewest_quiet h).andThen fun g => .upd g rfl ?_
  rintro id hid (hk | hk | hk)
  · exact absurd hk hid.ne
  · exact .inl (.inr (.inl hk))
  · exact .inl (.inr (.inr hk))

theorem takeSlot_quiet (h : Good L n) : Quiet L ch n (n.takeSlot i) := .rest h rfl rfl rfl rfl

theorem returnSlot_quiet (h : Good L n) : Quiet L ch n (n.returnSlot i) := by
  unfold Net.returnSlot
  split <;> exact .rest h rfl rfl rfl rfl

theorem beginUnsolicited_quiet (h : Good L n) : Quiet L ch n (chathistoryBeginUnsolicitedCatchup n i).2 := by
  unfold chathistoryBeginUnsolicitedCatchup
  split
  · exact (enterLatest_quiet h).andThen takeSlot_quiet
  · exact .refl h

theorem sendDeferredLatest_quiet (h : Good L n) : Quiet L ch n (sendDeferredLatest n i) := by
  unfold sendDeferredLatest
  dsimp only
  split
  · exact .refl h
  split
  · exact .refl h
  · exact ((enterLatest_quiet h).andThen requestLatestSinceStored_quiet).andThen takeSlot_quiet

theorem fanOut_quiet (h : Good L n) (is : List Nat) : Quiet L ch n (is.foldl sendDeferredLatest n) := by
  induction is generalizing n with
  | nil => exact .refl h
  | cons j is ih => exact (sendDeferredLatest_quiet h).andThen fun g => ih g

theorem requestTargets_quiet (h : Good L n) : Quiet L ch n (sendReconnectTargetsRequest n) := by
  unfold sendReconnectTargetsRequest chathistoryRequestTargets
  split
  · exact .refl h
  split
  · exact .refl h
  split
  · exact .refl h
  · exact .rest h rfl rfl rfl rfl

theorem deferredReset_quiet (h : Good L n) : Quiet L ch n (deferredReset n) := by
  have hreq : Quiet L ch n (if n.serv.chathistoryTargetsDeferred then
      sendReconnectTargetsRequest { n with serv := { n.serv with chathistoryTargetsDeferred := false } } else n) := by
    split
    · have hoff : Quiet L ch n { n with serv := { n.serv with chathistoryTargetsDeferred := false } } :=
        .rest h rfl rfl rfl rfl
      exact hoff.andThen requestTargets_quiet
    · exact .refl h
  exact hreq.andThen fun g => .rest g rfl rfl rfl rfl

theorem deferredStart_quiet (h : Good L n) : Quiet L ch n (chathistoryDeferredStartCb n) := by
  have hoff : Quiet L ch n { n with serv := { n.serv with chathistoryStartTimer := false } } := .rest h rfl rfl rfl rfl
  unfold chathistoryDeferredStartCb
  dsimp only
  split
  · exact (hoff.andThen deferredReset_quiet).andThen fun g => fanOut_quiet g _
  · exact hoff

/-! ### The BEFORE phase -/

theorem startBefore_quiet (h : Good L n) : Quiet L ch n (startBefore n i) := by
  have hsess : Quiet L ch n (n.setBeforeSess (some i)) := .rest h rfl rfl rfl rfl
  have hupd : Quiet L ch n ((n.setBeforeSess (some i)).upd i fun s => { s with catchupIsBefore := true }) :=
    hsess.andThen fun g => .fields g rfl rfl rfl rfl
  have hmark : Quiet L ch n { (n.setBeforeSess (some i)).upd i fun s => { s with catchupIsBefore := true } with
      slots := n.slots ++ [.beforeStarted i] } := hupd.andThen fun g => .rest g rfl rfl rfl rfl
  unfold startBefore
  dsimp only
  split
  · split
    · exact hmark.andThen fun g => requestBeforeMsgid_quiet g _ _
    · exact (hmark.andThen finishCatchup_quiet).andThen fun g => .rest g rfl rfl rfl rfl
  · exact (hmark.andThen finishCatchup_quiet).andThen fun g => .rest g rfl rfl rfl rfl

theorem check_quiet (h : Good L n) : Quiet L ch n (chathistoryCheckBeforeCatchup n) := by
  unfold chathistoryCheckBeforeCatchup
  split
  · split
    · exact .rest h rfl rfl rfl rfl
    · exact startBefore_quiet h
  · exact .refl h

theorem checkWhenNonePending_quiet (h : Good L n) : Quiet L ch n (checkWhenNonePending n) := by
  unfold checkWhenNonePending
  split
  · exact check_quiet h
  · exact .refl h

/-! ### Batches -/

theorem track_quiet (h : Good L n) (m : String) (t : Int) (isHistory : Bool) :
    Quiet L ch n (chathistoryTrackMsgidTs n i m t isHistory) := by
  unfold chathistoryTrackMsgidTs
  dsimp only
  split
  · exact .refl h
  split
  · exact .refl h
  · exact .fields h rfl rfl rfl rfl

theorem run_tends {T : Int → Prop} {s : Sb} (hs : s.Sane) (ops : List Op) : Tends T s (Scrollback.run s ops) := by
  induction ops generalizing s with
  | nil => exact .refl hs
  | cons op ops ih =>
    have hstep := step_keeps hs op
    exact (Tends.of_keeps hstep).trans (ih hstep.sane)

theorem hasMsgid_tends {T : Int → Prop} {s : Sb} (hs : s.Sane) (channel m : String) (t : Int) :
    Tends T s (scrollbackHasMsgid s channel m t).2 := by
  have := Tends.of_resolves (T := T) hs channel
  unfold scrollbackHasMsgid
  split
  · exact .refl hs
  · dsimp only
    split <;> exact this

theorem isDuplicate_quiet (h : Good L n) (m : String) (t : Int) :
    Quiet L ch n (chathistoryIsDuplicateMsgid n i m t).2 := by
  unfold chathistoryIsDuplicateMsgid
  split
  · exact .refl h
  split
  · exact .refl h
  split
  · exact .refl h
  cases hdb : n.db with
  | none => exact .refl h
  | some db =>
    have hstore : Quiet L ch n (n.store fun db => (scrollbackHasMsgid db (n.heap i).channel m t).2) :=
      .updStore h fun db hd => hasMsgid_tends (h.sane db hd) _ m t
    simpa [Net.store, hdb] using hstore

theorem runHandlers_quiet (h : Good L n) (msg : BatchMessage) : Quiet L ch n (runHandlers n i msg) := by
  have hstore : Quiet L ch n (n.store fun db => Scrollback.run db (n.handlers.stores (n.heap i) msg)) :=
    .updStore h fun db hd => run_tends (h.sane db hd) _
  unfold runHandlers
  dsimp only
  split
  · exact hstore.andThen fun g => track_quiet g _ _ _
  · exact hstore

theorem processBatchMessage_quiet (h : Good L n) (msg : BatchMessage) : Quiet L ch n (processBatchMessage n i msg).2 := by
  have hcurrent (m : Net) (hm : Quiet L ch n m) : Quiet L ch n (m.upd i fun s => { s with currentMsgid := msg.msgid }) :=
    hm.andThen fun g => .fields g rfl rfl rfl rfl
  unfold processBatchMessage
  split
  · exact .refl h
  cases hid : msg.msgid with
  | none =>
    rw [hid] at hcurrent
    dsimp only
    split
    · exact .refl h
    split
    · exact hcurrent n (.refl h)
    · exact (hcurrent n (.refl h)).andThen fun g => runHandlers_quiet g msg
  | some m =>
    rw [hid] at hcurrent
    have hdup : Quiet L ch n (chathistoryIsDuplicateMsgid n i m msg.timestamp).2 := isDuplicate_quiet h m msg.timestamp
    have htrack := hdup.andThen fun g => track_quiet (i := i) g m msg.timestamp true
    dsimp only
    split
    · exact hdup
    split
    · exact hcurrent _ htrack
    · exact (hcurrent _ htrack).andThen fun g => runHandlers_quiet g msg

theorem chunkLoop_quiet (m : Nat) {c : Client} {k : Chunk} (h : Good L c.net) :
    Quiet L ch c.net (chunkLoop m c k).1.net := by
  induction m generalizing c k with
  | zero => exact .refl h
  | succ m ih =>
    unfold chunkLoop
    split
    · exact .refl h
    · rename_i msg rest _
      dsimp only
      have hmsg : Quiet L ch c.net (processBatchMessage c.net k.sess msg).2 := processBatchMessage_quiet h msg
      exact hmsg.andThen fun g => ih (c := { c with net := _, calls := _ }) g

theorem endBefore_quiet (h : Good L n) (hch : (n.heap i).channel = ch) {settle : Sb → Int → Sb}
    (hsettle : ∀ db id, db.Sane → L ch id → Tends (L ch) db (settle db id)) : Quiet L ch n (endBefore n i settle) := by
  have hstore : Quiet L ch n (if 0 < (n.heap i).catchupGapId then
      n.store fun db => settle db (n.heap i).catchupGapId else n) := by
    split
    · rename_i hpos
      exact .updStore h fun db hd => hsettle db _ (h.sane db hd) (hch ▸ h.held i _ hpos (.inl rfl))
    · exact .refl h
  exact (hstore.andThen finishCatchup_quiet).andThen check_quiet

theorem continueBefore_quiet (h : Good L n) {k : Chunk} : Quiet L ch n (continueBefore n k) := by
  have hend : Quiet L ch n (chathistoryCheckBeforeCatchup (finishCatchup n k.sess)) :=
    (finishCatchup_quiet h).andThen check_quiet
  unfold continueBefore
  dsimp only
  split
  · exact hend
  split
  · exact hend
  split
  · have hsess : Quiet L ch n (n.setBeforeSess none) := .rest h rfl rfl rfl rfl
    exact hsess.andThen fun g => .rest g rfl rfl rfl rfl
  · exact hend

theorem finishBefore_quiet (h : Good L n) {k : Chunk} (hch : (n.heap k.sess).channel = ch) :
    Quiet L ch n (finishBefore n k) := by
  have hupd : Quiet L ch n (n.upd k.sess fun s => { s with
      historyCatchupRetrieved := s.historyCatchupRetrieved + k.msgCount }) := .fields h rfl rfl rfl rfl
  unfold finishBefore
  dsimp only
  generalize hn₁ : (n.upd k.sess fun s => { s with
    historyCatchupRetrieved := s.historyCatchupRetrieved + k.msgCount }) = n₁ at hupd ⊢
  have hch₁ : (n₁.heap k.sess).channel = ch := (hupd.channel _).trans hch
  have hshrink : Quiet L ch n (if 0 < (n₁.heap k.sess).catchupGapId ∧ 0 < k.rawCount ∧ 0 < k.oldestTimestamp then
      n₁.store fun db => scrollbackGapShrink db (n₁.heap k.sess).catchupGapId 0 none k.oldestTimestamp k.batchOldestMsgid
    else n₁) := by
    split
    · rename_i hpos
      refine hupd.andThen fun g => .updStore g fun db hd => shrink_tends (g.sane db hd) ?_ _ _ _ _
      exact hch₁ ▸ g.held k.sess _ hpos.1 (.inl rfl)
    · exact hupd
  generalize (if 0 < (n₁.heap k.sess).catchupGapId ∧ 0 < k.rawCount ∧ 0 < k.oldestTimestamp then
      n₁.store fun db => scrollbackGapShrink db (n₁.heap k.sess).catchupGapId 0 none k.oldestTimestamp k.batchOldestMsgid
    else n₁) = n₂ at hshrink ⊢
  have hch₂ : (n₂.heap k.sess).channel = ch := (hshrink.channel _).trans hch
  split
  · exact hshrink.andThen fun g => endBefore_quiet g hch₂ fun db id hs hL => setState_tends hs hL _
  split
  · exact hshrink.andThen fun g => endBefore_quiet g hch₂ fun db id hs hL => delete_tends hs hL
  split
  · have hstale : Quiet L ch n (n₂.upd k.sess fun s => { s with
        historyCatchupStaleCount := s.historyCatchupStaleCount + 1 }) := hshrink.andThen fun g => .fields g rfl rfl rfl rfl
    split
    · have hexh := hstale.andThen fun g => Quiet.fields (i := k.sess)
        (f := fun s => { s with historyExhausted := true }) g rfl rfl rfl rfl
      exact hexh.andThen fun g => endBefore_quiet g ((hexh.channel _).trans hch) fun db id hs hL => setState_tends hs hL _
    · exact hstale.andThen fun g => continueBefore_quiet g
  · have hfresh : Quiet L ch n (n₂.upd k.sess fun s => { s with historyCatchupStaleCount := 0 }) :=
      hshrink.andThen fun g => .fields g rfl rfl rfl rfl
    exact hfresh.andThen fun g => continueBefore_quiet g

theorem clampGap_quiet (h : Good L n) {k : Chunk} (hL : 0 < k.gapId → L ch k.gapId) : Quiet L ch n (clampGap n k) := by
  unfold clampGap
  split
  · rename_i hpos
    split
    · exact .refl h
    split
    · exact .updStore h fun db hd => delete_tends (h.sane db hd) (hL hpos.1)
    split
    · exact .updStore h fun db hd => shrink_tends (h.sane db hd) (hL hpos.1) _ _ _ _
    · exact .updStore h fun db hd => shrink_tends (h.sane db hd) (hL hpos.1) _ _ _ _
  · exact .refl h

theorem finishPlain_quiet (h : Good L n) {k : Chunk} (hL : 0 < k.gapId → L ch k.gapId) :
    Quiet L ch n (finishPlain n k) := by
  have hoff : Quiet L ch n (n.upd k.sess fun s => { s with backgroundHistoryActive := false }) :=
    .fields h rfl rfl rfl rfl
  have hfetch {m : Net} (hm : Quiet L ch n m) : Quiet L ch n (scheduleBackgroundFetch m k.sess) := by
    unfold scheduleBackgroundFetch
    split
    · exact hm.andThen fun g => .fields g rfl rfl rfl rfl
    · exact hm
  unfold finishPlain
  dsimp only
  split
  · have hclamp := hoff.andThen fun g => clampGap_quiet g hL
    split
    · exact hfetch hclamp
    · exact hclamp
  · have hclamp := clampGap_quiet h hL
    split
    · exact hfetch hclamp
    · exact hclamp

theorem settleBatch_quiet (h : Good L n) {k : Chunk} : Quiet L ch n (settleBatch n k) := by
  have hserv : Quiet L ch n { n with serv := { n.serv with chathistoryFailStreak := 0 } } := .rest h rfl rfl rfl rfl
  unfold settleBatch
  dsimp only
  generalize { n with serv := { n.serv with chathistoryFailStreak := 0 } } = n₁ at hserv ⊢
  have hdone : Quiet L ch n (if k.unsolicited then n₁ else chathistoryRequestComplete n₁ k.sess) := by
    split
    · exact hserv
    · exact hserv.andThen requestComplete_quiet
  generalize (if k.unsolicited then n₁ else chathistoryRequestComplete n₁ k.sess) = n₂ at hdone ⊢
  have hcursor : Quiet L ch n (if k.batchOldestMsgid.isSome ∧ 0 < k.rawCount ∧ ¬ (k.unsolicited ∧ k.latestOwned = false) then
      n₂.upd k.sess fun s => { s with oldestMsgid := k.batchOldestMsgid } else n₂) := by
    split
    · exact hdone.andThen fun g => .fields g rfl rfl rfl rfl
    · exact hdone
  generalize (if k.batchOldestMsgid.isSome ∧ 0 < k.rawCount ∧ ¬ (k.unsolicited ∧ k.latestOwned = false) then
      n₂.upd k.sess fun s => { s with oldestMsgid := k.batchOldestMsgid } else n₂) = n₃ at hcursor ⊢
  split
  · exact hcursor.andThen fun g => .fields g rfl rfl rfl rfl
  · exact hcursor

theorem processEmptyBatch_quiet (h : Good L n) {b : Batch} {sh : Shape} (hch : (n.heap i).channel = ch)
    (hL : 0 < sh.gapId → L ch sh.gapId) : Quiet L ch n (processEmptyBatch n b i sh) := by
  have hend : Quiet L ch n (if b.chathistoryEnd ∧ sh.gapId = 0 ∧ sh.unsolicited = false then
      n.upd i fun s => { s with historyExhausted := true } else n) := by
    split
    · exact .fields h rfl rfl rfl rfl
    · exact .refl h
  unfold processEmptyBatch
  dsimp only
  generalize (if b.chathistoryEnd ∧ sh.gapId = 0 ∧ sh.unsolicited = false then
    n.upd i fun s => { s with historyExhausted := true } else n) = n₁ at hend ⊢
  have hdone : Quiet L ch n (if sh.unsolicited then n₁ else chathistoryRequestComplete n₁ i) := by
    split
    · exact hend
    · exact hend.andThen requestComplete_quiet
  generalize (if sh.unsolicited then n₁ else chathistoryRequestComplete n₁ i) = n₂ at hdone ⊢
  split
  · rename_i hpos
    have hretry := hdone.andThen fun g => gapFillRetry_quiet g ((hdone.channel i).trans hch) (hL hpos) sh.gapDir
    split
    · exact hretry
    · exact hretry.andThen fun g => .updStore g fun db hd => setState_tends (g.sane db hd) (hL hpos) _
  split
  · split
    · exact hdone.andThen fun g => requestLatest_quiet g _ _
    · have hfin := hdone.andThen fun g => finishCatchup_quiet (i := i) g
      split
      · exact (hfin.andThen returnSlot_quiet).andThen checkWhenNonePending_quiet
      · exact hfin.andThen checkWhenNonePending_quiet
  split
  · exact hdone
  · exact hdone.andThen fun g => .fields g rfl rfl rfl rfl

theorem failGap_quiet (h : Good L n) {gapId : Int} (hch : (n.heap i).channel = ch) (hL : L ch gapId) (dir : Int)
    (latched : Bool) : Quiet L ch n (failGap n i gapId dir latched) := by
  have hretry : Quiet L ch n (if latched then (false, n) else gapFillRetryWithTimestamps n i gapId dir).2 := by
    split
    · exact .refl h
    · exact gapFillRetry_quiet h hch hL dir
  unfold failGap
  dsimp only
  generalize (if latched then (false, n) else gapFillRetryWithTimestamps n i gapId dir) = r at hretry ⊢
  split
  · exact hretry
  · refine hretry.andThen fun g => .updStore g fun db hd => ?_
    split
    · exact .refl (g.sane db hd)
    split
    · exact setState_tends (g.sane db hd) hL _
    · exact .refl (g.sane db hd)

theorem failCatchup_quiet (h : Good L n) (usedMsgid latest : Bool) : Quiet L ch n (failCatchup n i usedMsgid latest) := by
  unfold failCatchup
  split
  · exact requestLatest_quiet h _ _
  split
  · exact ((returnSlot_quiet h).andThen finishCatchup_quiet).andThen checkWhenNonePending_quiet
  · exact (finishCatchup_quiet h).andThen checkWhenNonePending_quiet

theorem backgroundTimer_quiet (h : Good L n) : Quiet L ch n (backgroundHistoryTimerCb n i) := by
  have hoff : Quiet L ch n (n.upd i fun s => { s with backgroundHistoryTimer := false }) := .fields h rfl rfl rfl rfl
  have hstop : Quiet L ch n ((n.upd i fun s => { s with backgroundHistoryTimer := false }).upd i fun s =>
      { s with backgroundHistoryActive := false }) := hoff.andThen fun g => .fields g rfl rfl rfl rfl
  unfold backgroundHistoryTimerCb
  dsimp only
  split
  · exact hoff
  split
  · exact hstop
  split
  · exact hoff.andThen fun g => requestBeforeMsgid_quiet g _ _
  · exact hstop

end Quiet

/-! ## The invariant -/

/-- A session or a chunk of the channel keeps the id. -/
def ChannelKeeps (chunks : List Chunk) (n : Net) (ch : String) (id : Int) : Prop :=
  (∃ j, (n.heap j).channel = ch ∧ (n.heap j).KeepsId id) ∨
    ∃ k ∈ chunks, (n.heap k.sess).channel = ch ∧ k.gapId = id

/-- **No id that is kept designates another channel's row.** -/
def IdsOwned (chunks : List Chunk) (n : Net) : Prop :=
  ∀ db, n.db = some db → ∀ ch id, 0 < id → ChannelKeeps chunks n ch id → Designates db ch id

/-- What holds between the steps; sessions are numbered below `nextSess`. -/
structure Owners (chunks : List Chunk) (n : Net) : Prop where
  sane : ∀ db, n.db = some db → db.Sane
  sessions : ∀ j ∈ n.sessList, j < n.nextSess
  chunkSess : ∀ k ∈ chunks, k.sess < n.nextSess
  owned : IdsOwned chunks n

/-- The ids that designate no other channel's row. -/
def owns (n : Net) (ch : String) (id : Int) : Prop := ∀ db, n.db = some db → Designates db ch id

/-- The rows of other channels are as they were, and known channels keep their ids. -/
structure ConfinedTo (ch : String) (o o' : Option Sb) : Prop where
  closed : o = none → o' = none
  store : ∀ db, o = some db → ∃ db', o' = some db' ∧ Others ch db db' ∧ Grows db db'

section Invariant

variable {chunks : List Chunk} {ch : String} {n n' : Net} {i : Nat} {k : Chunk}

theorem ConfinedTo.refl (ch : String) (o : Option Sb) : ConfinedTo ch o o :=
  ⟨fun h => h, fun db h => ⟨db, h, fun _ _ => Iff.rfl, fun _ _ hl => hl⟩⟩

theorem ConfinedTo.trans {o o' o'' : Option Sb} (h : ConfinedTo ch o o') (h' : ConfinedTo ch o' o'') :
    ConfinedTo ch o o'' := by
  refine ⟨fun hn => h'.closed (h.closed hn), fun db hd => ?_⟩
  obtain ⟨db', hd', ho, hg⟩ := h.store db hd
  obtain ⟨db'', hd'', ho', hg'⟩ := h'.store db' hd'
  exact ⟨db'', hd'', ho.trans ho' hg', fun name id hl => hg' name id (hg name id hl)⟩

theorem Owners.good (h : Owners chunks n) : Good (owns n) n where
  held j id hid hk db hd := h.owned db hd _ id hid (.inl ⟨j, rfl, hk⟩)
  sane := h.sane

theorem Quiet.stillOwns {L : String → Int → Prop} (hq : Quiet L ch n n') {name : String} {id : Int} (h : owns n name id) :
    owns n' name id := by
  intro db' hd'
  cases hd : n.db with
  | none =>
    rw [hq.closed hd] at hd'
    cases hd'
  | some db =>
    obtain ⟨db₁, hd₁, ht⟩ := hq.store db hd
    rw [hd'] at hd₁
    cases hd₁
    exact (h db hd).tends ht

/-- **A step that records no gap** keeps every id with its channel. -/
theorem Owners.quiet (h : Owners chunks n) (hq : Quiet (owns n) ch n n') : Owners chunks n' where
  sane := hq.good.sane
  sessions j hj := by
    rw [hq.nextSess]
    exact h.sessions j (hq.sessList ▸ hj)
  chunkSess k hk := by
    rw [hq.nextSess]
    exact h.chunkSess k hk
  owned db' hd' name id hid hkeeps := by
    rcases hkeeps with ⟨j, rfl, hk⟩ | ⟨k, hmem, rfl, rfl⟩
    · exact hq.stillOwns (hq.good.held j id hid hk) db' hd'
    · rw [hq.channel]
      exact hq.stillOwns (fun db hd => h.owned db hd _ _ hid (.inr ⟨k, hmem, rfl, rfl⟩)) db' hd'

theorem Quiet.confined (hq : Quiet (owns n) ch n n') : ConfinedTo ch n.db n'.db := by
  refine ⟨hq.closed, fun db hd => ?_⟩
  obtain ⟨db', hd', ht⟩ := hq.store db hd
  exact ⟨db', hd', ht.others fun id hid => hid db hd, ht.grows⟩

theorem Owners.chunks_mono (h : Owners chunks n) {chunks' : List Chunk}
    (hsub : ∀ k' ∈ chunks', ∃ k ∈ chunks, k.sess = k'.sess ∧ k.gapId = k'.gapId) : Owners chunks' n where
  sane := h.sane
  sessions := h.sessions
  chunkSess k' hk' := by
    obtain ⟨k, hk, hs, -⟩ := hsub k' hk'
    exact hs ▸ h.chunkSess k hk
  owned db hd name id hid hkeeps := by
    refine h.owned db hd name id hid (hkeeps.imp_right ?_)
    rintro ⟨k', hk', hch, hgap⟩
    obtain ⟨k, hk, hs, hg⟩ := hsub k' hk'
    exact ⟨k, hk, hs ▸ hch, hg.trans hgap⟩

/-! ### Recording -/

/-- The id the `INSERT` of `scrollback_gap_record` gets, when it gets that far: one more than the
largest id of the rows that are left. -/
def gapInsertId (s : Sb) (channel : String) (startTs endTs : Int) : Option Int :=
  let (channelId, s) := scrollbackGetChannelId s channel
  if startTs ≤ 0 ∨ endTs ≤ startTs ∨ channelId ≤ 0 then none
  else some (nextId ((s.gaps.filter fun g => !g.meets channelId startTs endTs).map (·.id)))

/-- What `scrollback_gap_record` leaves: rows that were there, and a row of the channel under the new id. -/
theorem scrollbackGapRecord_rows {s : Sb} (hs : s.Sane) (channel : String) (a : Int) (am : Option String) (b : Int)
    (bm : Option String) (state : GapState) :
    let r := scrollbackGapRecord s channel a am b bm state
    r.1 = (gapInsertId s channel a b).getD (-1) ∧ r.2.Sane ∧ Grows s r.2 ∧ Others channel s r.2 ∧
      (∀ g ∈ r.2.gaps, g ∈ s.gaps ∨ gapInsertId s channel a b = some g.id) ∧
      ∀ g ∈ r.2.gaps, gapInsertId s channel a b = some g.id → channelLookup r.2.channels channel = some g.channelId := by
  obtain ⟨id, channels, cache, he, hr⟩ := scrollbackGetChannelId_resolves hs channel
  unfold gapInsertId scrollbackGapRecord
  simp only [he]
  by_cases hargs : a ≤ 0 ∨ b ≤ a
  · have hnone : a ≤ 0 ∨ b ≤ a ∨ id ≤ 0 := by omega
    rw [if_pos hargs, if_pos hnone]
    exact ⟨rfl, hs, fun _ _ hl => hl, fun _ _ => Iff.rfl, fun g hg => .inl hg, fun g _ hno => by cases hno⟩
  by_cases hid : id ≤ 0
  · have hnone : a ≤ 0 ∨ b ≤ a ∨ id ≤ 0 := by omega
    rw [if_neg hargs, if_pos hid, if_pos hnone]
    exact ⟨rfl, hr.sane, hr.keepsLookups, fun _ _ => Iff.rfl, fun g hg => .inl hg, fun g _ hno => by cases hno⟩
  have hsome : ¬ (a ≤ 0 ∨ b ≤ a ∨ id ≤ 0) := by omega
  have hlookup : channelLookup channels channel = some id := by
    rcases hr.answer with ⟨-, rfl⟩ | ⟨-, hl⟩
    · omega
    · exact hl
  rw [if_neg hargs, if_neg hid, if_neg hsome]
  have hspans := absorb_spans (s.gaps.filter fun g => g.meets id a b) ⟨0, id, a, am, b, bm, state, 0, 0⟩
  generalize (s.gaps.filter fun g => g.meets id a b).foldl Gap.absorb ⟨0, id, a, am, b, bm, state, 0, 0⟩ = u at hspans ⊢
  have hchan : u.channelId = id := hspans.channelId
  have hother : ∀ g ∈ s.gaps, g.channelId ≠ id → g ∈ s.gaps.filter fun g => !g.meets id a b := by
    intro g hg hne
    refine List.mem_filter.2 ⟨hg, ?_⟩
    simp [Gap.meets, hne]
  generalize hkept : s.gaps.filter (fun g => !g.meets id a b) = kept at hother ⊢
  have hsub : ∀ g ∈ kept, g ∈ s.gaps := fun g hg => List.mem_of_mem_filter (hkept ▸ hg)
  refine ⟨rfl, hr.sane, hr.keepsLookups, fun g hne => ?_, fun g hg => ?_, fun g hg hnew => ?_⟩
  · have hg : g.channelId ≠ id := fun h => hne (h ▸ hlookup)
    constructor
    · intro hmem
      rcases List.mem_append.1 hmem with hmem | hmem
      · exact hsub g hmem
      · exact absurd (List.mem_singleton.1 hmem ▸ hchan) hg
    · intro hmem
      exact List.mem_append_left _ (hother g hmem hg)
  · rcases List.mem_append.1 hg with hmem | hmem
    · exact .inl (hsub g hmem)
    · rw [List.mem_singleton.1 hmem]
      exact .inr rfl
  · rcases List.mem_append.1 hg with hmem | hmem
    · have hlt := lt_nextId (List.mem_map_of_mem (f := (·.id)) hmem)
      exact absurd (Option.some.inj hnew) (ne_of_gt hlt)
    · rw [List.mem_singleton.1 hmem]
      exact hlookup.trans (congrArg some hchan.symm)

/-- The id is kept for no other channel. -/
def FreeFor (chunks : List Chunk) (n : Net) (channel : String) (id : Int) : Prop :=
  ∀ ch, ChannelKeeps chunks n ch id → ch = channel

/-- **Recording a gap** under an id that is kept for no other channel. -/
theorem Owners.record (h : Owners chunks n) {db : Sb} (hd : n.db = some db) (channel : String) (a : Int)
    (am : Option String) (b : Int) (bm : Option String) (state : GapState)
    (hfree : ∀ id, gapInsertId db channel a b = some id → FreeFor chunks n channel id) :
    Owners chunks { n with db := some (scrollbackGapRecord db channel a am b bm state).2 } ∧
      ConfinedTo channel n.db (some (scrollbackGapRecord db channel a am b bm state).2) := by
  obtain ⟨-, hsane, hgrows, hothers, hfrom, hnew⟩ :=
    scrollbackGapRecord_rows (h.sane db hd) channel a am b bm state
  refine ⟨⟨fun db' hd' => ?_, h.sessions, h.chunkSess, fun db' hd' ch id hid hkeeps g hg hgid => ?_⟩, ?_⟩
  · cases hd'
    exact hsane
  · cases hd'
    rcases hfrom g hg with hold | hins
    · exact hgrows ch _ (h.owned db hd ch id hid hkeeps g hold hgid)
    · rw [hgid] at hins
      rw [hfree id hins ch hkeeps]
      exact hnew g hg (hgid ▸ hins)
  · refine ⟨fun hno => ?_, fun db₀ hd₀ => ?_⟩
    · rw [hd] at hno
      cases hno
    · rw [hd] at hd₀
      cases hd₀
      exact ⟨_, rfl, hothers, hgrows⟩

/-- The call of `scrollback_gap_record` at the end of a LATEST batch gets an id that is free. -/
def WitnessFree (chunks : List Chunk) (n : Net) (k : Chunk) : Prop :=
  ∀ db, n.db = some db → ∀ id, gapInsertId db (n.heap k.sess).channel (n.heap k.sess).catchupPrevNewestTime
    k.oldestTimestamp = some id → FreeFor chunks n (n.heap k.sess).channel id

theorem recordWitness_owners (h : Owners chunks n) (hfree : WitnessFree chunks n k) :
    Owners chunks (recordWitness n k) ∧ ConfinedTo (n.heap k.sess).channel n.db (recordWitness n k).db ∧
      ∀ j, ((recordWitness n k).heap j).channel = (n.heap j).channel := by
  unfold recordWitness
  cases hd : n.db with
  | none => exact ⟨h, ⟨fun _ => hd, fun db hno => by cases hno⟩, fun _ => rfl⟩
  | some db =>
    dsimp only
    obtain ⟨howners, hconf⟩ := h.record hd (n.heap k.sess).channel (n.heap k.sess).catchupPrevNewestTime
      (n.heap k.sess).catchupPrevNewestMsgid k.oldestTimestamp k.batchOldestMsgid .witnessed (hfree db hd)
    obtain ⟨hid, -, -, -, -, hnew⟩ := scrollbackGapRecord_rows (h.sane db hd) (n.heap k.sess).channel
      (n.heap k.sess).catchupPrevNewestTime (n.heap k.sess).catchupPrevNewestMsgid k.oldestTimestamp
      k.batchOldestMsgid .witnessed
    generalize scrollbackGapRecord db (n.heap k.sess).channel (n.heap k.sess).catchupPrevNewestTime
      (n.heap k.sess).catchupPrevNewestMsgid k.oldestTimestamp k.batchOldestMsgid .witnessed = r at *
    have hown : 0 < r.1 → Designates r.2 (n.heap k.sess).channel r.1 := by
      intro hpos g hg hgid
      refine hnew g hg ?_
      cases hins : gapInsertId db (n.heap k.sess).channel (n.heap k.sess).catchupPrevNewestTime k.oldestTimestamp with
      | none =>
        rw [hins] at hid
        simp only [Option.getD_none] at hid
        omega
      | some id =>
        rw [hins] at hid
        rw [hgid, hid]
        rfl
    have hq : Quiet (owns { n with db := some r.2 }) (n.heap k.sess).channel { n with db := some r.2 }
        (({ n with db := some r.2 } : Net).upd k.sess fun s => { s with catchupGapId := r.1 }) := by
      refine .upd howners.good rfl ?_
      rintro id hpos (hk | hk | hk)
      · refine .inr fun db' hd' => ?_
        cases hd'
        have hk : r.1 = id := hk
        exact hk ▸ hown (hk ▸ hpos)
      · exact .inl (.inr (.inl hk))
      · exact .inl (.inr (.inr hk))
    exact ⟨howners.quiet hq, hd ▸ hconf, hq.channel⟩

/-- The state in which a finished batch calls `scrollback_gap_record`, if it does. -/
def recordPoint (n : Net) (k : Chunk) : Option Net :=
  if k.isCatchup ∧ ((settleBatch n k).heap k.sess).catchupIsBefore = false ∧ witnesses (settleBatch n k) k then
    some (settleBatch n k)
  else none

/-- **A finished batch** keeps every id with its channel and touches the gaps of its own channel only. -/
theorem finishBatch_owners (h : Owners chunks n) (hch : (n.heap k.sess).channel = ch)
    (hk : 0 < k.gapId → owns n ch k.gapId) (hfree : ∀ m, recordPoint n k = some m → WitnessFree chunks m k) :
    Owners chunks (finishBatchProcessing n k) ∧ ConfinedTo ch n.db (finishBatchProcessing n k).db := by
  have hsettle : Quiet (owns n) ch n (settleBatch n k) := settleBatch_quiet h.good
  have hquiet {m : Net} (hq : Quiet (owns n) ch n m) : Owners chunks m ∧ ConfinedTo ch n.db m.db :=
    ⟨h.quiet hq, hq.confined⟩
  unfold finishBatchProcessing
  dsimp only
  split
  · rename_i hcatchup
    split
    · exact hquiet (hsettle.andThen fun g => finishBefore_quiet g ((hsettle.channel _).trans hch))
    · rename_i hbefore
      unfold finishLatest
      dsimp only
      by_cases hw : witnesses (settleBatch n k) k = true
      · rw [if_pos hw]
        have hpoint : recordPoint n k = some (settleBatch n k) :=
          if_pos ⟨hcatchup, by simpa using hbefore, hw⟩
        obtain ⟨howners, hconf, hnames⟩ := recordWitness_owners (h.quiet hsettle) (hfree _ hpoint)
        rw [hsettle.channel, hch] at hconf
        have hrest : Quiet (owns (recordWitness (settleBatch n k) k)) ch (recordWitness (settleBatch n k) k)
            (checkWhenNonePending (if k.latestOwned then (recordWitness (settleBatch n k) k).returnSlot k.sess
              else recordWitness (settleBatch n k) k)) := by
          split
          · exact (returnSlot_quiet howners.good).andThen checkWhenNonePending_quiet
          · exact checkWhenNonePending_quiet howners.good
        exact ⟨howners.quiet hrest, (hsettle.confined.trans hconf).trans hrest.confined⟩
      · rw [if_neg hw]
        refine hquiet (hsettle.andThen fun g => ?_)
        split
        · exact (returnSlot_quiet g).andThen checkWhenNonePending_quiet
        · exact checkWhenNonePending_quiet g
  · exact hquiet (hsettle.andThen fun g => finishPlain_quiet g hk)

/-! ### Sessions that open -/

theorem Others.of_tends {s s' : Sb} (h : Tends (fun _ => False) s s') : Others ch s s' :=
  h.others fun _ hno => hno.elim

theorem Tends.mono {T T' : Int → Prop} {s s' : Sb} (h : Tends T s s') (hT : ∀ id, T id → T' id) : Tends T' s s' :=
  ⟨h.sane, h.grows, fun g hg => h.keeps g fun ht => hg (hT _ ht), h.origin⟩

theorem deleteCandidates_tends {s : Sb} (hs : s.Sane) (name : String) :
    Tends (fun _ => True) s (scrollbackGapDeleteCandidates s name).2 ∧
      Others name s (scrollbackGapDeleteCandidates s name).2 := by
  obtain ⟨id, channels, cache, he, hr⟩ := scrollbackGetChannelId_resolves hs name
  have hres : Tends (fun _ => False) s { s with channels := channels, channelIdCache := cache } := by
    have := Tends.of_resolves (T := fun _ => False) hs name
    rwa [he] at this
  unfold scrollbackGapDeleteCandidates
  simp only [he]
  split
  · exact ⟨hres.mono fun _ h => h.elim, .of_tends hres⟩
  · rename_i hid
    refine ⟨(hres.mono fun _ h => h.elim).trans (Tends.filter
      (s := { s with channels := channels, channelIdCache := cache }) hr.sane fun _ _ _ => trivial), fun g hne => ?_⟩
    have hlookup : channelLookup channels name = some id := by
      rcases hr.answer with ⟨-, rfl⟩ | ⟨-, hl⟩
      · omega
      · exact hl
    have hg : g.channelId ≠ id := fun h => hne (h ▸ hlookup)
    simp [hg]

/-- What loading the scrollback of a new dialog does to the ledger. -/
theorem scrollbackLoad_store {name : String} {db : Sb} (hd : n.db = some db) (hs : db.Sane) :
    ∃ db', (scrollbackLoad n name).2 = some db' ∧ Tends (fun _ => True) db db' ∧ Others name db db' := by
  unfold scrollbackLoad
  simp only [hd]
  split
  · exact ⟨db, rfl, .refl hs, fun _ _ => Iff.rfl⟩
  · have hread : Tends (fun _ => False) db (scrollbackGetNewestTime (scrollbackGetOldestMsgid
        (scrollbackGetNewestMsgid (scrollbackPurgePending db name) name).2 name).2 name).2 := by
      have h₁ : Tends (fun _ => False) db (scrollbackPurgePending db name) :=
        .of_keeps (scrollbackPurgePending_keeps hs name)
      have h₂ := h₁.trans (getNewestMsgid_tends h₁.sane name)
      have h₃ := h₂.trans (getOldestMsgid_tends h₂.sane name)
      exact h₃.trans (getNewestTime_tends h₃.sane name)
    have hrest {db₁ : Sb} (h : Tends (fun _ => True) db db₁ ∧ Others name db db₁) :
        Tends (fun _ => True) db (scrollbackFtsSchedule (scrollbackCount db₁ name).2 name) ∧
          Others name db (scrollbackFtsSchedule (scrollbackCount db₁ name).2 name) := by
      have hcount : Tends (fun _ => False) db₁ (scrollbackCount db₁ name).2 :=
        .of_keeps (scrollbackCount_effect h.1.sane name).keeps
      have hfts := hcount.trans (.of_keeps (scrollbackFtsSchedule_keeps hcount.sane name))
      exact ⟨h.1.trans (hfts.mono fun _ hno => hno.elim), h.2.trans (.of_tends hfts) hfts.grows⟩
    refine ⟨_, rfl, hrest ?_⟩
    split
    · obtain ⟨htends, hothers⟩ := deleteCandidates_tends hread.sane name
      exact ⟨(hread.mono fun _ hno => hno.elim).trans htends, (Others.of_tends hread).trans hothers htends.grows⟩
    · exact ⟨hread.mono fun _ hno => hno.elim, .of_tends hread⟩

theorem scrollbackLoad_session (n : Net) (name : String) :
    (scrollbackLoad n name).1.channel = name ∧ (scrollbackLoad n name).1.catchupGapId = 0 ∧
      (scrollbackLoad n name).1.chActive = none ∧ (scrollbackLoad n name).1.chPending = none := by
  unfold scrollbackLoad
  dsimp only
  split
  · exact ⟨rfl, rfl, rfl, rfl⟩
  · split <;> exact ⟨rfl, rfl, rfl, rfl⟩

/-- **A new dialog** keeps no id, and loading it touches the gaps of its own channel only. -/
theorem newIrcwindow_owners (h : Owners chunks n) (name : String) :
    Owners chunks (newIrcwindow n name).2 ∧ ConfinedTo name n.db (newIrcwindow n name).2.db := by
  obtain ⟨-, hgap, hactive, hpending⟩ := scrollbackLoad_session n name
  have hstore (db : Sb) (hd : n.db = some db) := @scrollbackLoad_store n name db hd (h.sane db hd)
  have hclosed : n.db = none → (scrollbackLoad n name).2 = none := fun hd => by simp [scrollbackLoad, hd]
  have hdb : (newIrcwindow n name).2.db = (scrollbackLoad n name).2 := rfl
  have hold : ∀ j, j ≠ n.nextSess → (newIrcwindow n name).2.heap j = n.heap j :=
    fun j hj => Function.update_of_ne hj _ _
  have hself : (newIrcwindow n name).2.heap n.nextSess = (scrollbackLoad n name).1 := Function.update_self ..
  refine ⟨⟨fun db' hd' => ?_, fun j hj => ?_, fun k hk => ?_, fun db' hd' ch id hid hkeeps => ?_⟩,
    hclosed, fun db hd => ?_⟩
  · cases hd : n.db with
    | none => rw [hdb, hclosed hd] at hd'; cases hd'
    | some db =>
      obtain ⟨db₁, hd₁, ht, -⟩ := hstore db hd
      rw [hdb, hd₁] at hd'
      cases hd'
      exact ht.sane
  · show j < n.nextSess + 1
    rcases List.mem_cons.1 (show j ∈ n.nextSess :: n.sessList from hj) with rfl | hj
    · omega
    · have := h.sessions j hj
      omega
  · show k.sess < n.nextSess + 1
    have := h.chunkSess k hk
    omega
  · cases hd : n.db with
    | none => rw [hdb, hclosed hd] at hd'; cases hd'
    | some db =>
      obtain ⟨db₁, hd₁, ht, -⟩ := hstore db hd
      rw [hdb, hd₁] at hd'
      cases hd'
      refine (h.owned db hd ch id hid ?_).tends ht
      rcases hkeeps with ⟨j, hch, hk⟩ | ⟨k, hmem, hch, hgk⟩
      · by_cases hj : j = n.nextSess
        · subst hj
          rw [hself] at hk
          rcases hk with hk | ⟨r, he, -⟩ | ⟨r, he, -⟩
          · omega
          · rw [hactive] at he
            cases he
          · rw [hpending] at he
            cases he
        · rw [hold j hj] at hch hk
          exact .inl ⟨j, hch, hk⟩
      · have hne : k.sess ≠ n.nextSess := (h.chunkSess k hmem).ne
        rw [hold _ hne] at hch
        exact .inr ⟨k, hmem, hch, hgk⟩
  · obtain ⟨db', hd', ht, ho⟩ := hstore db hd
    exact ⟨db', hd', ho, ht.grows⟩

theorem processTargetsLine_owners (h : Owners chunks n) (msg : BatchMessage) : Owners chunks (processTargetsLine n msg) := by
  unfold processTargetsLine
  split
  · exact h
  split
  · exact @Owners.quiet _ "" _ _ h (startCatchup_quiet h.good)
  · have hnew := (newIrcwindow_owners h ‹String›).1
    exact @Owners.quiet _ "" _ _ hnew (startCatchup_quiet hnew.good)

theorem processTargets_owners (messages : List BatchMessage) (h : Owners chunks n) :
    Owners chunks (chathistoryProcessTargetsBatch n messages) := by
  unfold chathistoryProcessTargetsBatch
  induction messages generalizing n with
  | nil => exact h
  | cons msg messages ih => exact ih (processTargetsLine_owners h msg)

end Invariant

/-! ## Steps -/

/-- The state, and the chunk, in which a batch calls `scrollback_gap_record`. -/
def batchRecord (c : Client) (b : Batch) : Option (Net × Chunk) :=
  match batchSession c.net b with
  | (none, _) => none
  | (some i, net) =>
    let (sh, net) := batchShape net b i
    let k := newChunk net b i c.nextChunk sh
    if b.messages = [] ∨ ¬ k.rawCount ≤ CHATHISTORY_CHUNK_SIZE then none
    else
      let (c, k) := processChunkMessages { c with net := net, nextChunk := c.nextChunk + 1 } k
      (recordPoint c.net k).map fun n => (n, k)

/-- The state in which the last tick of a chunk calls it. -/
def tickRecord (c : Client) (k : Chunk) : Option (Net × Chunk) :=
  if k.sess ∉ c.net.sessList then none
  else
    let (c, k) := processChunkMessages c k
    if k.remaining = [] then (recordPoint c.net k).map fun n => (n, k) else none

section Steps

variable {ch : String} {n : Net} {i : Nat} {c : Client} {b : Batch}

theorem batchSession_owners {chunks : List Chunk} (h : Owners chunks n) {net : Net}
    (hb : batchSession n b = (some i, net)) :
    Owners chunks net ∧ i < net.nextSess ∧ ConfinedTo (net.heap i).channel n.db net.db := by
  unfold batchSession at hb
  split at hb
  · cases hb
  rename_i target _
  split at hb
  · rename_i j hj
    cases hb
    exact ⟨h, h.sessions i (findSessionForTarget_mem hj), .refl _ _⟩
  split at hb
  · cases hb
    obtain ⟨howners, hconf⟩ := newIrcwindow_owners h target
    have hself : ((newIrcwindow n target).2.heap n.nextSess).channel = target := by
      rw [show (newIrcwindow n target).2.heap n.nextSess = (scrollbackLoad n target).1 from Function.update_self ..]
      exact (scrollbackLoad_session n target).1
    refine ⟨howners, Nat.lt_succ_self _, ?_⟩
    show ConfinedTo ((newIrcwindow n target).2.heap n.nextSess).channel n.db _
    rw [hself]
    exact hconf
  · cases hb

theorem batchSession_none {net : Net} (hb : batchSession n b = (none, net)) : net = n := by
  unfold batchSession at hb
  split at hb
  · cases hb
    rfl
  split at hb
  · cases hb
  split at hb
  · cases hb
  · cases hb
    rfl

theorem batchShape_quiet {L : String → Int → Prop} (h : Good L n) : Quiet L ch n (batchShape n b i).2 := by
  unfold batchShape
  dsimp only
  split
  · exact beginUnsolicited_quiet h
  · exact .refl h

/-- The gap a batch answers is that of the request in flight. -/
theorem batchShape_gapId (hpos : 0 < (batchShape n b i).1.gapId) : (n.heap i).KeepsId (batchShape n b i).1.gapId := by
  have hgap : (batchShape n b i).1.gapId =
      if batchInReplayWrapper n.serv b then 0 else ((n.heap i).chActive.map (·.gapId)).getD 0 := by
    unfold batchShape
    dsimp only
    split <;> rfl
  rw [hgap] at hpos ⊢
  split at hpos
  · omega
  rename_i hnested
  rw [if_neg hnested]
  cases ha : (n.heap i).chActive with
  | none =>
    rw [ha] at hpos
    simp at hpos
  | some r => exact .inr (.inl ⟨r, ha, rfl⟩)

theorem LoopRun.gapId {m : Nat} {c c' : Client} {k k' : Chunk} (h : LoopRun m c k c' k') : k'.gapId = k.gapId := by
  obtain ⟨_, _, _, rfl⟩ := h.chunk; rfl

/-- Messages are replayed and the batch is finished. -/
theorem finishAfterLoop_owners {c : Client} {k : Chunk} (h : Owners c.chunks c.net)
    (hch : (c.net.heap k.sess).channel = ch) (hk : 0 < k.gapId → owns c.net ch k.gapId)
    (hfree : ∀ m, recordPoint (processChunkMessages c k).1.net (processChunkMessages c k).2 = some m →
      WitnessFree c.chunks m (processChunkMessages c k).2) :
    Owners ((processChunkMessages c k).1.finish (processChunkMessages c k).2).chunks
        ((processChunkMessages c k).1.finish (processChunkMessages c k).2).net ∧
      ConfinedTo ch c.net.db ((processChunkMessages c k).1.finish (processChunkMessages c k).2).net.db := by
  have hloop : Quiet (owns c.net) ch c.net (processChunkMessages c k).1.net := chunkLoop_quiet _ h.good
  have hrun := processChunkMessages_run c k
  have hchunks : ((processChunkMessages c k).1.finish (processChunkMessages c k).2).chunks = c.chunks := hrun.chunks
  have hgap : 0 < (processChunkMessages c k).2.gapId →
      owns (processChunkMessages c k).1.net ch (processChunkMessages c k).2.gapId := by
    rw [hrun.gapId]
    exact fun hpos => hloop.stillOwns (hk hpos)
  have hname : ((processChunkMessages c k).1.net.heap (processChunkMessages c k).2.sess).channel = ch := by
    rw [hrun.sess, hloop.channel]
    exact hch
  rw [hchunks]
  obtain ⟨howners, hconf⟩ := finishBatch_owners (h.quiet hloop) hname hgap hfree
  exact ⟨howners, hloop.confined.trans hconf⟩

/-- **A batch** keeps every id with its channel and touches the gaps of its own channel only. -/
theorem processBatch_owners (h : Owners c.chunks c.net)
    (hfree : ∀ m k, batchRecord c b = some (m, k) → WitnessFree c.chunks m k) :
    Owners (chathistoryProcessBatch c b).chunks (chathistoryProcessBatch c b).net ∧
      ∀ i net, batchSession c.net b = (some i, net) →
        ConfinedTo (net.heap i).channel c.net.db (chathistoryProcessBatch c b).net.db := by
  unfold chathistoryProcessBatch batchRecord at *
  rcases hb : batchSession c.net b with ⟨_ | i, net⟩
  · rw [batchSession_none hb]
    refine ⟨h, fun i net hno => ?_⟩
    cases hno
  obtain ⟨hnet, hi, hopen⟩ := batchSession_owners h hb
  simp only [hb] at hfree
  dsimp only
  have hshape : Quiet (owns net) (net.heap i).channel net (batchShape net b i).2 := batchShape_quiet hnet.good
  have hgap (hpos : 0 < (batchShape net b i).1.gapId) : owns (batchShape net b i).2 (net.heap i).channel
      (batchShape net b i).1.gapId := by
    refine hshape.stillOwns fun db hd => ?_
    exact hnet.owned db hd _ _ hpos (.inl ⟨i, rfl, batchShape_gapId hpos⟩)
  have howners := hnet.quiet hshape
  have hnames := hshape.channel i
  have hconf := hopen.trans hshape.confined
  have hnext := hshape.nextSess
  generalize (batchShape net b i).1 = sh at *
  generalize (batchShape net b i).2 = net' at *
  suffices hmain : Owners (if b.messages = [] then { c with net := processEmptyBatch net' b i sh }
      else processMessages { c with net := net' } b i sh).chunks (if b.messages = [] then
        { c with net := processEmptyBatch net' b i sh } else processMessages { c with net := net' } b i sh).net ∧
      ConfinedTo (net.heap i).channel net'.db (if b.messages = [] then { c with net := processEmptyBatch net' b i sh }
        else processMessages { c with net := net' } b i sh).net.db by
    refine ⟨hmain.1, fun i' net₁ he => ?_⟩
    cases he
    exact hconf.trans hmain.2
  split
  · have hq : Quiet (owns net') (net.heap i).channel net' (processEmptyBatch net' b i sh) :=
      processEmptyBatch_quiet howners.good hnames hgap
    exact ⟨howners.quiet hq, hq.confined⟩
  · rename_i hmsgs
    unfold processMessages
    dsimp only
    split
    · rename_i hsmall
      have hrecord : ¬ (b.messages = [] ∨ ¬ (newChunk net' b i c.nextChunk sh).rawCount ≤ CHATHISTORY_CHUNK_SIZE) := by
        rintro (hno | hno)
        · exact hmsgs hno
        · exact hno hsmall
      rw [if_neg hrecord] at hfree
      refine finishAfterLoop_owners (c := { c with net := net', nextChunk := c.nextChunk + 1 })
        (k := newChunk net' b i c.nextChunk sh) howners hnames hgap fun m hm => hfree m _ ?_
      rw [hm]
      rfl
    · refine ⟨⟨howners.sane, howners.sessions, fun k hk => ?_, fun db hd name id hid hkeeps => ?_⟩, .refl _ _⟩
      · rcases List.mem_cons.1 hk with rfl | hk
        · show i < net'.nextSess
          omega
        · exact howners.chunkSess k hk
      · rcases hkeeps with hkeeps | ⟨k, hk, hch, hgk⟩
        · exact howners.owned db hd name id hid (.inl hkeeps)
        rcases List.mem_cons.1 hk with rfl | hk
        · have hch : (net'.heap i).channel = name := hch
          have hgk : sh.gapId = id := hgk
          rw [← hch, hnames, ← hgk]
          exact hgap (by omega) db hd
        · exact howners.owned db hd name id hid (.inr ⟨k, hk, hch, hgk⟩)

/-- **A tick of a chunk** keeps every id with its channel and touches the gaps of its own channel only. -/
theorem chunkIdleCb_owners {k : Chunk} (h : Owners c.chunks c.net) (hmem : k ∈ c.chunks)
    (hfree : ∀ m k', tickRecord c k = some (m, k') → WitnessFree c.chunks m k') :
    Owners (chunkIdleCb c k).chunks (chunkIdleCb c k).net ∧
      ConfinedTo (c.net.heap k.sess).channel c.net.db (chunkIdleCb c k).net.db := by
  have hfilter {chunks : List Chunk} {n : Net} (hn : Owners chunks n) :
      Owners (chunks.filter fun k' => k'.id ≠ k.id) n :=
    hn.chunks_mono fun k' hk' => ⟨k', List.mem_of_mem_filter hk', rfl, rfl⟩
  unfold chunkIdleCb
  unfold tickRecord at hfree
  split
  · have hq : Quiet (owns c.net) (c.net.heap k.sess).channel c.net (c.releaseLatestSlot k).net := by
      unfold Client.releaseLatestSlot
      split
      · exact returnSlot_quiet h.good
      · exact .refl h.good
    have hchunks : (c.releaseLatestSlot k).chunks = c.chunks := by
      unfold Client.releaseLatestSlot
      split <;> rfl
    refine ⟨?_, hq.confined⟩
    show Owners ((c.releaseLatestSlot k).chunks.filter fun k' => k'.id ≠ k.id) _
    rw [hchunks]
    exact hfilter (h.quiet hq)
  · rename_i hsess
    rw [if_neg hsess] at hfree
    dsimp only at hfree ⊢
    split
    · rename_i hdone
      rw [if_pos hdone] at hfree
      obtain ⟨howners, hconf⟩ := finishAfterLoop_owners (k := k) h rfl
        (fun hpos db hd => h.owned db hd _ _ hpos (.inr ⟨k, hmem, rfl, rfl⟩))
        fun m hm => hfree m _ (by rw [hm]; rfl)
      have hid : (processChunkMessages c k).2.id = k.id := (processChunkMessages_run c k).id
      refine ⟨?_, hconf⟩
      show Owners (((processChunkMessages c k).1.finish _).chunks.filter fun k' => k'.id ≠ (processChunkMessages c k).2.id) _
      rw [hid]
      exact hfilter howners
    · have hrun := processChunkMessages_run c k
      have hloop : Quiet (owns c.net) (c.net.heap k.sess).channel c.net (processChunkMessages c k).1.net :=
        chunkLoop_quiet _ h.good
      refine ⟨(h.quiet hloop).chunks_mono fun k' hk' => ?_, hloop.confined⟩
      rw [hrun.chunks] at hk'
      obtain ⟨k₀, hk₀, rfl⟩ := List.mem_map.1 hk'
      split
      · exact ⟨k, hmem, hrun.sess.symm, hrun.gapId.symm⟩
      · exact ⟨k₀, hk₀, rfl, rfl⟩

theorem cancelChunk_owners (h : Owners c.chunks c.net) (i : Nat) :
    Owners (chathistoryCancelChunkProcessing c i).chunks (chathistoryCancelChunkProcessing c i).net := by
  unfold chathistoryCancelChunkProcessing
  split
  · exact h
  rename_i k _
  have hq : Quiet (owns c.net) "" c.net (({ c with net := chathistoryQueueFree c.net i } : Client).releaseLatestSlot k).net := by
    unfold Client.releaseLatestSlot
    split
    · exact (queueFree_quiet h.good).andThen returnSlot_quiet
    · exact queueFree_quiet h.good
  refine (h.quiet hq).chunks_mono fun k' hk' => ⟨k', ?_, rfl, rfl⟩
  have hmem := List.mem_of_mem_filter hk'
  unfold Client.releaseLatestSlot at hmem
  split at hmem <;> exact hmem

/-- A FAIL touches only the gap of the request it answers. -/
theorem handleFail_quiet {L : String → Int → Prop} (h : Good L n) {code context : String}
    (hi : failSession n context = some i) : Quiet L (n.heap i).channel n (chathistoryHandleFail n code context) := by
  unfold chathistoryHandleFail
  simp only [hi]
  generalize hlatched : (decide (((n.heap i).chActive.map (·.type)).getD ReqType.latest = .between) &&
    betweenUnsupportedCode code) = latched
  have hbrakes : Quiet L (n.heap i).channel n { n with serv := failBrakes n.serv latched } := .rest h rfl rfl rfl rfl
  have hdone := hbrakes.andThen fun g => requestComplete_quiet (i := i) g
  split
  · rename_i hpos
    refine hdone.andThen fun g => failGap_quiet g (hdone.channel i) ?_ _ _
    refine h.held i _ hpos ?_
    cases ha : (n.heap i).chActive with
    | none =>
      rw [ha] at hpos
      simp at hpos
    | some r => exact .inr (.inl ⟨r, ha, rfl⟩)
  split
  · exact hdone.andThen fun g => failCatchup_quiet g _ _
  · exact hdone

theorem netStep_owners {chunks : List Chunk} (h : Owners chunks n) {e : Event}
    (hfill : ∀ i gapId dir, e = .requestGapFill i gapId dir → i ∈ n.sessList → owns n (n.heap i).channel gapId) :
    Owners chunks (netStep n e) := by
  have hquiet {m : Net} (hq : Quiet (owns n) "" n m) : Owners chunks m := h.quiet hq
  have hg := h.good
  cases e with
  | scheduleDeferred =>
    simp only [netStep, chathistoryScheduleDeferred]
    split
    · exact h
    · exact hquiet (.rest hg rfl rfl rfl rfl)
  | deferredStart =>
    simp only [netStep]
    split
    · exact hquiet (deferredStart_quiet hg)
    · exact h
  | targetsOnReconnect =>
    simp only [netStep, chathistoryRequestTargetsOnReconnect]
    split
    · exact hquiet (.rest hg rfl rfl rfl rfl)
    · exact hquiet (requestTargets_quiet hg)
  | targetsBatch messages => exact processTargets_owners messages h
  | requestOlder i =>
    simp only [netStep]
    split
    · exact hquiet (requestOlder_quiet hg)
    · exact h
  | requestGapFill i gapId dir =>
    simp only [netStep]
    split
    · rename_i hi
      exact h.quiet (requestGapFill_quiet hg rfl (hfill i gapId dir rfl hi) dir)
    · exact h
  | requestLatest i limit =>
    simp only [netStep]
    split
    · exact hquiet (requestLatest_quiet hg _ _)
    · exact h
  | openBatch id type =>
    simp only [netStep, chathistoryReplayWrapperBegin]
    repeat' split
    all_goals exact hquiet (.rest hg rfl rfl rfl rfl)
  | closeBatch id =>
    have hend : Quiet (owns n) "" n (if (n.serv.activeBatches.get id).any isBouncerReplay then
        chathistoryReplayWrapperEnd n else n) := by
      split
      · exact checkWhenNonePending_quiet hg
      · exact .refl hg
    exact hquiet (hend.andThen fun g => .rest g rfl rfl rfl rfl)
  | fail code context =>
    simp only [netStep]
    cases hi : failSession n context with
    | none =>
      unfold chathistoryHandleFail
      simp only [hi]
      exact h
    | some i => exact h.quiet (handleFail_quiet hg hi)
  | tabSwitch i =>
    simp only [netStep, chathistoryNotifyTabSwitch]
    have hfocus : Quiet (owns n) "" n { n with currentSess := some i } := .rest hg rfl rfl rfl rfl
    repeat' split
    · exact hquiet hfocus
    · exact hquiet (hfocus.andThen check_quiet)
    · exact hquiet hfocus
    · exact h
  | beforeTimer =>
    simp only [netStep, chathistoryBeforeTimerCb]
    have hoff : Quiet (owns n) "" n { n with serv := { n.serv with chathistoryBeforeTimer := false } } :=
      .rest hg rfl rfl rfl rfl
    repeat' split
    · exact hquiet (hoff.andThen check_quiet)
    · exact hquiet hoff
    · exact h
  | backgroundTimer i =>
    simp only [netStep]
    split
    · exact hquiet (backgroundTimer_quiet hg)
    · exact h
  | live i msgid ts ops =>
    have hstore : Quiet (owns n) "" n (n.store fun db => Scrollback.run db ops) :=
      .updStore hg fun db hd => run_tends (hg.sane db hd) ops
    simp only [netStep]
    split
    · exact hquiet (hstore.andThen fun g => track_quiet g _ _ _)
    · exact hquiet hstore
  | clock now => exact hquiet (.rest hg rfl rfl rfl rfl)
  | batch b => exact h
  | chunkTick id => exact h
  | cancelChunk i => exact h

end Steps

/-! ## Runs -/

/-- The ids under which the scan of `scrollback_gap_bootstrap` inserts. -/
def bootstrapInserts (channel : String) (thresholdSecs : Int) : Sb → List Msg → Int → Option String → List Int
  | _, [], _, _ => []
  | s, m :: rows, prevTs, prevMsgid =>
    let msgid := if isPending m.msgid then none else m.msgid
    if 0 < prevTs ∧ thresholdSecs ≤ m.timestamp - prevTs then
      (gapInsertId s channel prevTs m.timestamp).toList ++ bootstrapInserts channel thresholdSecs
        (scrollbackGapRecord s channel prevTs prevMsgid m.timestamp msgid .candidate).2 rows m.timestamp msgid
    else bootstrapInserts channel thresholdSecs s rows m.timestamp msgid

/-- The ids under which a call on the ledger inserts, with the channel of the row. -/
def ledgerInserts (s : Sb) : LedgerOp → List (String × Int)
  | .record channel startTs _ endTs _ _ => (gapInsertId s channel startTs endTs).toList.map fun id => (channel, id)
  | .bootstrap channel thresholdSecs =>
    let (channelId, s) := scrollbackGetChannelId s channel
    if thresholdSecs ≤ 0 ∨ channelId ≤ 0 ∨ s.channels.any fun c => c.id = channelId ∧ c.gapBootstrapDone then []
    else
      let rows := selectAsc s.messages fun m => m.channelId = channelId
      (bootstrapInserts channel thresholdSecs s rows 0 none).map fun id => (channel, id)
  | _ => []

section Ledger

variable {chunks : List Chunk} {n : Net} {db db' : Sb} {T : Int → Prop}

/-- A write that adds no row keeps every id with its channel. -/
theorem Owners.tends (h : Owners chunks n) (hd : n.db = some db) (ht : Tends T db db') :
    Owners chunks { n with db := some db' } where
  sane db₁ hd₁ := by
    cases hd₁
    exact ht.sane
  sessions := h.sessions
  chunkSess := h.chunkSess
  owned db₁ hd₁ ch id hid hkeeps := by
    cases hd₁
    exact (h.owned db hd ch id hid hkeeps).tends ht

theorem bootstrapDone_tends (hs : db.Sane) (channelId : Int) (done : Bool) :
    Tends T db { db with channels := setGapBootstrapDone db.channels channelId done } := by
  have hf (c : Chan) : (if c.id = channelId then { c with gapBootstrapDone := done } else c).id = c.id ∧
      (if c.id = channelId then { c with gapBootstrapDone := done } else c).name = c.name := by
    split <;> exact ⟨rfl, rfl⟩
  refine ⟨Sane.mapChannels hs hf, fun name id hl => ?_, fun _ _ => Iff.rfl, fun g hg => ⟨g, hg, rfl, rfl⟩⟩
  rw [← hl]
  exact channelLookup_map hf _ name

theorem reset_tends (hs : db.Sane) (channel : String) (gapId : Int) :
    Tends (fun _ => True) db (scrollbackGapReset db channel gapId).2 := by
  have hres : Tends (fun _ => True) db (scrollbackGetChannelId db channel).2 := .of_resolves hs channel
  unfold scrollbackGapReset
  dsimp only
  split
  · exact hres
  · refine hres.trans ⟨hres.sane, fun _ _ hl => hl, fun _ hno => absurd trivial hno, fun g' hg' => ?_⟩
    obtain ⟨g, hg, rfl⟩ := List.mem_map.1 hg'
    refine ⟨g, hg, ?_⟩
    split <;> exact ⟨rfl, rfl⟩

/-- The scan records one candidate after another. -/
theorem bootstrapLoop_owners (channel : String) (thresholdSecs : Int) (rows : List Msg) :
    ∀ {db : Sb} (prevTs : Int) (prevMsgid : Option String) (recorded : Int), Owners chunks { n with db := some db } →
      (∀ id ∈ bootstrapInserts channel thresholdSecs db rows prevTs prevMsgid, FreeFor chunks n channel id) →
      Owners chunks
        { n with db := some (bootstrapLoop channel thresholdSecs db rows prevTs prevMsgid recorded).2 } := by
  induction rows with
  | nil => exact fun _ _ _ h _ => h
  | cons m rows ih =>
    intro db prevTs prevMsgid recorded h hfree
    unfold bootstrapLoop
    unfold bootstrapInserts at hfree
    dsimp only at hfree ⊢
    split
    · rename_i hgap
      rw [if_pos hgap] at hfree
      refine ih _ _ _ ?_ fun id hid => hfree id (List.mem_append_right _ hid)
      refine (h.record rfl channel _ _ _ _ _ fun id hid => ?_).1
      exact hfree id (List.mem_append_left _ (by simp [hid]))
    · rename_i hgap
      rw [if_neg hgap] at hfree
      exact ih _ _ _ h hfree

/-- **A call on the ledger** that inserts under free ids. -/
theorem ledgerStep_owners (h : Owners chunks n) (hd : n.db = some db) {op : LedgerOp}
    (hfree : ∀ x ∈ ledgerInserts db op, FreeFor chunks n x.1 x.2) :
    Owners chunks { n with db := some (ledgerStep db op) } := by
  have hs := h.sane db hd
  have htends {db' : Sb} (ht : Tends (fun _ => True) db db') : Owners chunks { n with db := some db' } :=
    h.tends hd ht
  cases op with
  | record channel a am b bm state =>
    refine (h.record hd channel a am b bm state fun id hid => ?_).1
    exact hfree (channel, id) (by simp [ledgerInserts, hid])
  | shrink => exact htends (shrink_tends hs trivial _ _ _ _)
  | setState => exact htends (setState_tends hs trivial _)
  | touch => exact htends (touch_tends hs trivial _)
  | delete => exact htends (delete_tends hs trivial)
  | dropMsgids => exact htends (dropMsgids_tends hs trivial)
  | deleteCandidates channel => exact htends (deleteCandidates_tends hs channel).1
  | reset channel gapId => exact htends (reset_tends hs channel gapId)
  | bootstrapReset channel =>
    have hres : Tends (fun _ => True) db (scrollbackGetChannelId db channel).2 := .of_resolves hs channel
    refine htends ?_
    simp only [ledgerStep, scrollbackGapBootstrapReset]
    split
    · exact hres
    · exact hres.trans (bootstrapDone_tends hres.sane _ _)
  | bootstrap channel thresholdSecs =>
    have hres : Tends (fun _ => True) db (scrollbackGetChannelId db channel).2 := .of_resolves hs channel
    simp only [ledgerStep, scrollbackGapBootstrap]
    repeat' split
    · exact htends (.refl hs)
    · exact htends hres
    · exact htends hres
    · rename_i hthr hid hdone
      have hscan : ¬ (thresholdSecs ≤ 0 ∨ (scrollbackGetChannelId db channel).1 ≤ 0 ∨
          (scrollbackGetChannelId db channel).2.channels.any fun c =>
            c.id = (scrollbackGetChannelId db channel).1 ∧ c.gapBootstrapDone) := by
        rintro (hno | hno | hno)
        · exact hthr hno
        · exact hid hno
        · exact hdone hno
      simp only [ledgerInserts, if_neg hscan] at hfree
      have hloop := bootstrapLoop_owners channel thresholdSecs _ 0 none 0 (htends hres)
        fun id hid => hfree (channel, id) (List.mem_map_of_mem hid)
      exact hloop.tends rfl (bootstrapDone_tends (T := fun _ => True) (hloop.sane _ rfl) _ _)
  | store op => exact htends (.of_keeps (step_keeps hs op))

end Ledger

/-- What happens on a network: an event of the connection, or a call on the ledger from elsewhere (the
menus and the bootstrap scan of the front end). -/
inductive OwnerEvent where
  | chat (e : Event)
  | ledger (op : LedgerOp)

def ownerStep (c : Client) : OwnerEvent → Client
  | .chat e => step c e
  | .ledger op => { c with net := c.net.store fun db => ledgerStep db op }

/-- No row is inserted under an id that is kept for another channel, and a gap fill is asked for a gap
of the session's own channel. -/
def Unshared (c : Client) : OwnerEvent → Prop
  | .chat (.requestGapFill i gapId _) => i ∈ c.net.sessList → owns c.net (c.net.heap i).channel gapId
  | .chat (.batch b) => ∀ n k, batchRecord c b = some (n, k) → WitnessFree c.chunks n k
  | .chat (.chunkTick id) =>
    ∀ k₀, (c.chunks.find? fun k => k.id = id) = some k₀ → ∀ n k, tickRecord c k₀ = some (n, k) →
      WitnessFree c.chunks n k
  | .chat _ => True
  | .ledger op => ∀ db, c.net.db = some db → ∀ x ∈ ledgerInserts db op, FreeFor c.chunks c.net x.1 x.2

/-- The channel of the session a reply is processed for: a batch, a tick of one that is in chunks, or a
FAIL. -/
def replyChannel (c : Client) : OwnerEvent → Option String
  | .chat (.batch b) =>
    match batchSession c.net b with
    | (some i, n) => some (n.heap i).channel
    | (none, _) => none
  | .chat (.chunkTick id) => (c.chunks.find? fun k => k.id = id).map fun k => (c.net.heap k.sess).channel
  | .chat (.fail _ context) => (failSession c.net context).map fun i => (c.net.heap i).channel
  | _ => none

/-- A reply touches the rows of its own channel only. -/
def RepliesConfined (c : Client) (e : OwnerEvent) : Prop :=
  ∀ ch, replyChannel c e = some ch → ConfinedTo ch c.net.db (ownerStep c e).net.db

/-- **A step** that shares no id. -/
theorem ownerStep_owners {c : Client} (h : Owners c.chunks c.net) {e : OwnerEvent} (hu : Unshared c e) :
    Owners (ownerStep c e).chunks (ownerStep c e).net ∧ RepliesConfined c e := by
  have hother {e : Event} (hnet : step c e = { c with net := netStep c.net e }) (hu : Unshared c (.chat e))
      (hr : RepliesConfined c (.chat e)) :
      Owners (ownerStep c (.chat e)).chunks (ownerStep c (.chat e)).net ∧ RepliesConfined c (.chat e) := by
    refine ⟨?_, hr⟩
    show Owners (step c e).chunks (step c e).net
    rw [hnet]
    refine netStep_owners h fun i gapId dir he => ?_
    subst he
    exact hu
  have hsilent {e : OwnerEvent} (he : replyChannel c e = none) : RepliesConfined c e := by
    intro ch hch
    rw [he] at hch
    cases hch
  cases e with
  | ledger op =>
    refine ⟨?_, hsilent rfl⟩
    cases hd : c.net.db with
    | none =>
      have hclosed : (c.net.store fun db => ledgerStep db op).db = none := by simp [Net.store, hd]
      refine ⟨fun db hd' => ?_, h.sessions, h.chunkSess, fun db hd' => ?_⟩
      · exact absurd (hclosed.symm.trans hd') nofun
      · exact absurd (hclosed.symm.trans hd') nofun
    | some db =>
      have hnet : c.net.store (fun db => ledgerStep db op) = { c.net with db := some (ledgerStep db op) } := by
        simp [Net.store, hd]
      show Owners c.chunks (c.net.store fun db => ledgerStep db op)
      rw [hnet]
      exact ledgerStep_owners h hd (hu db hd)
  | chat e =>
    cases e with
    | batch b =>
      obtain ⟨howners, hconf⟩ := processBatch_owners h hu
      refine ⟨howners, fun ch hch => ?_⟩
      rcases hb : batchSession c.net b with ⟨_ | i, n⟩
      · simp only [replyChannel, hb] at hch
        cases hch
      · simp only [replyChannel, hb] at hch
        cases hch
        exact hconf i n hb
    | chunkTick id =>
      simp only [Unshared] at hu
      cases hk : c.chunks.find? fun k => k.id = id with
      | none =>
        refine ⟨?_, hsilent (by simp [replyChannel, hk])⟩
        simp only [ownerStep, step, hk]
        exact h
      | some k =>
        obtain ⟨howners, hconf⟩ := chunkIdleCb_owners h (List.mem_of_find?_eq_some hk) (hu k hk)
        simp only [RepliesConfined, replyChannel, ownerStep, step, hk]
        refine ⟨howners, fun ch hch => ?_⟩
        cases hch
        exact hconf
    | cancelChunk i => exact ⟨cancelChunk_owners h i, hsilent rfl⟩
    | fail code context =>
      refine hother rfl hu fun ch hch => ?_
      cases hi : failSession c.net context with
      | none =>
        simp only [replyChannel, hi] at hch
        cases hch
      | some i =>
        simp only [replyChannel, hi] at hch
        cases hch
        exact (handleFail_quiet h.good hi).confined
    | _ => exact hother rfl hu (hsilent rfl)

/-- Nothing on the network keeps the id of a gap. -/
structure Net.KeepsNoGap (n : Net) : Prop where
  sane : ∀ db, n.db = some db → db.Sane
  sessions : ∀ j ∈ n.sessList, j < n.nextSess
  keeps : ∀ j id, 0 < id → ¬ (n.heap j).KeepsId id

theorem Net.KeepsNoGap.owners {n : Net} (h : n.KeepsNoGap) : Owners [] n where
  sane := h.sane
  sessions := h.sessions
  chunkSess _ hk := absurd hk List.not_mem_nil
  owned db _ ch id hid hkeeps := by
    rcases hkeeps with ⟨j, -, hk⟩ | ⟨k, hk, -⟩
    · exact absurd hk (h.keeps j id hid)
    · cases hk

/-- **Whose gap an id names**: in a run that inserts no row under an id kept for another channel, every
reply touches the rows of its own channel only, and in every state reached no id that is kept
designates another channel's row. -/
theorem gaps_stay_owned {n : Net} (h : n.KeepsNoGap) (es : List OwnerEvent)
    (hu : Along ownerStep Unshared (Client.start n) es) :
    Along ownerStep (fun c e => IdsOwned c.chunks c.net ∧ RepliesConfined c e) (Client.start n) es ∧
      IdsOwned (es.foldl ownerStep (Client.start n)).chunks (es.foldl ownerStep (Client.start n)).net := by
  have howners : Owners (Client.start n).chunks (Client.start n).net := h.owners
  generalize Client.start n = c at *
  induction es generalizing c with
  | nil => exact ⟨trivial, howners.owned⟩
  | cons e es ih =>
    obtain ⟨hnext, hconf⟩ := ownerStep_owners howners hu.1
    obtain ⟨halong, hlast⟩ := ih _ hu.2 hnext
    exact ⟨⟨⟨howners.owned, hconf⟩, halong⟩, hlast⟩

/-- `#c` and `#d`, each with a row at 100. -/
def storedRows : Sb :=
  Scrollback.run (Sb.fresh true) [.save "#c" 100 (some "c1") "text" true, .save "#d" 100 (some "d1") "text" true]

theorem storedRows_sane : storedRows.Sane := (run_tends (T := fun _ => True) (fresh_sane true) _).sane

/-- The two channels, and handlers that store what is replayed. -/
def storedChannels : Net :=
  { twoChannels with
    db := some storedRows
    handlers :=
      { stores := fun s msg => [.save s.channel msg.timestamp msg.msgid "text" true]
        tracks := fun s _ => some (if s.channel = "#c" then 0 else 1) } }

theorem storedChannels_keepsNoGap : storedChannels.KeepsNoGap := by
  refine ⟨fun db hd => ?_, by decide, fun j id hid => ?_⟩
  · rw [← Option.some.inj hd]
    exact storedRows_sane
  · have hkeeps : (storedChannels.heap j).catchupGapId = 0 ∧ (storedChannels.heap j).chActive = none ∧
        (storedChannels.heap j).chPending = none := by
      match j with
      | 0 | 1 | j + 2 => exact ⟨rfl, rfl, rfl⟩
    rintro (hk | ⟨r, hr, -⟩ | ⟨r, hr, -⟩)
    · omega
    · exact absurd (hkeeps.2.1.symm.trans hr) nofun
    · exact absurd (hkeeps.2.2.symm.trans hr) nofun

/-- A replay wrapper. -/
def wrapperBegins : OwnerEvent := .chat (.openBatch "r" "evilnet.github.io/bouncer-replay")

/-- A batch of one line in it. -/
def OwnerEvent.nested (channel msgid : String) (timestamp : Int) : OwnerEvent :=
  .chat (.batch ⟨some channel, some "r", false, [.line msgid timestamp]⟩)

/-- The answer to a request of `#c`, of one line. -/
def OwnerEvent.reply (msgid : String) (timestamp : Int) : OwnerEvent := .chat (.batch (.plain [.line msgid timestamp]))

/-- A batch that records under an id no session keeps. -/
theorem unshared_of_new {c : Client} {b : Batch} (id : Int) (hc : c.chunks = [])
    (hid : ((batchRecord c b).bind fun r => r.1.db.bind fun db => gapInsertId db (r.1.heap r.2.sess).channel
      (r.1.heap r.2.sess).catchupPrevNewestTime r.2.oldestTimestamp) = some id)
    (hnew : ∀ j, ((batchRecord c b).any fun r => (r.1.heap j).KeepsId id) = false) : Unshared c (.chat (.batch b)) := by
  intro n k hr db hd id' hid' ch hkeeps
  simp only [hr, Option.bind_some, hd, hid', Option.some.injEq] at hid
  subst hid
  rcases hkeeps with ⟨j, -, hk⟩ | ⟨k', hmem, -⟩
  · have hno := hnew j
    rw [hr] at hno
    simp [hk] at hno
  · rw [hc] at hmem
    cases hmem

/-- Both channels have a gap when the older history of `#c` arrives; only `#c` loses its row. -/
theorem gaps_stay_owned_replayed :
    let es : List OwnerEvent := [wrapperBegins, .nested "#c" "c2" 300, .nested "#d" "d2" 300, .reply "c0" 98]
    let c := es.foldl ownerStep (Client.start storedChannels)
    IdsOwned c.chunks c.net ∧ c.net.db.map (·.gaps.map fun g => (g.id, g.channelId)) = some [(2, 2)] := by
  intro es c
  have hu : Along ownerStep Unshared (Client.start storedChannels) es := by
    refine ⟨trivial, ?_, ?_, ?_, trivial⟩
    · refine unshared_of_new 1 rfl (by decide) fun j => ?_
      match j with
      | 0 | 1 | j + 2 => rfl
    · refine unshared_of_new 2 rfl (by decide) fun j => ?_
      match j with
      | 0 | 1 | j + 2 => rfl
    · intro n k hr
      cases hr
  exact ⟨(gaps_stay_owned storedChannels_keepsNoGap es hu).2, by decide⟩

/-- The gap of `#c` is closed, and its row deleted, while its catch-up goes on; the gap of `#d` is then
recorded under the same id, and the next batch for `#c` deletes it. -/
theorem reused_gap_id_deleted :
    let es : List OwnerEvent := [wrapperBegins, .nested "#c" "c2" 300, .reply "c0" 98, .nested "#d" "d2" 300]
    let c := es.foldl ownerStep (Client.start storedChannels)
    ¬ IdsOwned c.chunks c.net ∧ ¬ RepliesConfined c (.reply "c00" 97) := by
  intro es c
  have hgaps : c.net.db.map (·.gaps) = some [⟨1, 2, 100, some "d1", 300, some "d2", .witnessed, 0, 0⟩] := by decide
  have hmine : c.net.db.map (fun db => channelLookup db.channels "#c") = some (some 1) := by decide
  have hafter : (ownerStep c (.reply "c00" 97)).net.db.map (fun db => (db.gaps, channelLookup db.channels "#c")) =
      some ([], some 1) := by decide
  obtain ⟨db, hd, hg⟩ := Option.map_eq_some_iff.1 hgaps
  rw [hd] at hmine
  refine ⟨fun h => ?_, fun h => ?_⟩
  · have hrow := h db hd "#c" 1 (by decide) (.inl ⟨0, rfl, .inl rfl⟩)
    have hrow := hrow _ (hg ▸ List.mem_singleton.2 rfl) rfl
    have hmine : channelLookup db.channels "#c" = some 1 := Option.some.inj hmine
    rw [hmine] at hrow
    exact absurd hrow (by decide)
  · obtain ⟨db', hd', hothers, -⟩ := (h "#c" (by decide)).store db hd
    rw [hd'] at hafter
    obtain ⟨hg', hmine'⟩ := Prod.mk.inj (Option.some.inj hafter)
    unfold Others at hothers
    rw [hg, hg', hmine'] at hothers
    have hrow := hothers ⟨1, 2, 100, some "d1", 300, some "d2", .witnessed, 0, 0⟩ (by decide)
    exact absurd (hrow.2 (List.mem_singleton.2 rfl)) (by simp)

end PoxChat.ChatHistory
