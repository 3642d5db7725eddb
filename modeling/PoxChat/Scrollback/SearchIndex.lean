import PoxChat.Scrollback.Tables

/-!
# The search index is sound and, once built, complete

`Indexed` is the invariant of the index and of the backfill: the indexed rows are messages of their
channel, each once; a channel flagged `fts_built`, or built in memory, has every message indexed; and
of the channel being backfilled every message outside `(fts_cur_next, fts_cur_max]` is indexed.

* `ftsBackfillChunk_indexed` — a chunk moves the cursor over indexed rows, or finishes the channel.
* `search_index_complete` — over any interleaving of calls, ticks and reopenings.
-/

set_option autoImplicit false

namespace PoxChat.Scrollback

open Lib

/-- The message is in the index. -/
def Covers (index : List FtsRow) (m : Msg) : Prop := ∃ r ∈ index, r.rowid = m.id

/-- Every message of the channel is in the index. -/
def Complete (messages : List Msg) (index : List FtsRow) (channelId : Int) : Prop :=
  ∀ m ∈ messages, m.channelId = channelId → Covers index m

/-- The index of the connection is right for these messages. -/
structure Indexed (messages : List Msg) (s : Sb) : Prop where
  /-- without FTS5 there is no index -/
  off : s.fts = false → s.messagesFts = [] ∧ s.ftsQueue = [] ∧ s.ftsCurChannel = 0
  sound : ∀ r ∈ s.messagesFts, ∃ m ∈ messages, m.id = r.rowid ∧ m.channelId = r.channelId
  once : (s.messagesFts.map (·.rowid)).Nodup
  flagged : s.fts = true → ∀ c ∈ s.channels, c.ftsBuilt = true → Complete messages s.messagesFts c.id ∧
    (s.ftsState.get c.id = none ∨ s.ftsState.get c.id = some .built)
  built : s.fts = true → ∀ id, s.ftsState.get id = some .built → Complete messages s.messagesFts id
  queued : ∀ id ∈ s.ftsQueue, id ≠ 0 ∧ s.ftsState.get id = some .building
  distinct : s.ftsQueue.Nodup
  /-- the live path indexes what the backfill has passed or will not reach -/
  current : s.ftsCurChannel ≠ 0 → s.ftsCurChannel ∉ s.ftsQueue ∧
    s.ftsState.get s.ftsCurChannel = some .building ∧
    ∀ m ∈ messages, m.channelId = s.ftsCurChannel → m.id ≤ s.ftsCurNext ∨ s.ftsCurMax < m.id →
      Covers s.messagesFts m

section Frames

variable {messages : List Msg} {s : Sb}

theorem Indexed.frame (h : Indexed messages s) (messages' : List Msg) (cache : Table String Int)
    (chanCache : Table Int ChanCache) : Indexed messages
      { s with messages := messages', channelIdCache := cache, chanCache := chanCache } :=
  { h with }

theorem Indexed.resolved (h : Indexed messages s) {channel : String} {id : Int} {channels : List Chan}
    {cache : Table String Int} {rows : List Msg} (hr : Resolves rows s.channels channel id channels cache) :
    Indexed messages { s with channels := channels, channelIdCache := cache } := by
  refine { h with flagged := fun hf c hc hb => ?_ }
  rcases hr.grown with he | ⟨d, he, -, hd⟩
  · exact h.flagged hf c (he ▸ hc) hb
  · rcases List.mem_append.1 (he ▸ hc) with hc | hc
    · exact h.flagged hf c hc hb
    · rw [List.mem_singleton.1 hc, hd] at hb
      cases hb

/-- A state may be set for a channel that is not being built. -/
theorem Indexed.setState (h : Indexed messages s) {id : Int} {st : FtsState}
    (hfree : s.ftsState.get id ≠ some .building)
    (hbuilt : s.fts = true → st = .built → Complete messages s.messagesFts id)
    (hflag : s.fts = true → ∀ c ∈ s.channels, c.ftsBuilt = true → c.id = id → st = .built) :
    Indexed messages (ftsStateSet s id st) := by
  have hget : ∀ id', (s.ftsState.put id st).get id' = if id = id' then some st else s.ftsState.get id' :=
    fun id' => Table.get_put _ _ _ _
  have hother : ∀ id', s.ftsState.get id' = some .building → (s.ftsState.put id st).get id' = some .building := by
    intro id' hb
    rw [hget, if_neg fun he : id = id' => hfree (he ▸ hb)]
    exact hb
  refine { h with flagged := fun hf c hc hb => ?_, built := fun hf id' hg => ?_,
                  queued := fun id' hq => ?_, current := fun hcur => ?_ }
  · refine ⟨(h.flagged hf c hc hb).1, ?_⟩
    simp only [ftsStateSet, hget]
    split
    · rename_i he
      exact .inr (congrArg some (hflag hf c hc hb he.symm))
    · exact (h.flagged hf c hc hb).2
  · simp only [ftsStateSet, hget] at hg
    split at hg
    · rename_i he
      exact he ▸ hbuilt hf (Option.some.inj hg)
    · exact h.built hf id' hg
  · exact ⟨(h.queued id' hq).1, hother id' (h.queued id' hq).2⟩
  · obtain ⟨hnot, hb, hcov⟩ := h.current hcur
    exact ⟨hnot, hother _ hb, hcov⟩

/-- Scheduling an unindexed channel. -/
theorem Indexed.schedule (h : Indexed messages s) {id : Int}
    (hst : s.ftsState.get id = some .unindexed) (h0 : id ≠ 0) (hf : s.fts = true) : Indexed messages
      { ftsStateSet s id .building with ftsQueue := s.ftsQueue ++ [id], ftsIdle := true } := by
  have hset := @Indexed.setState messages s h id .building (by simp [hst]) (fun _ hb => by cases hb)
    fun hf c hc hb he => by
      rcases (h.flagged hf c hc hb).2 with hs | hs <;> rw [he, hst] at hs <;> cases hs
  have hnot : id ∉ s.ftsQueue := fun hq => by
    have := (h.queued id hq).2
    rw [hst] at this
    cases this
  refine { hset with off := fun hoff => ?_, queued := fun id' hq => ?_, distinct := ?_, current := fun hcur => ?_ }
  · rw [show s.fts = false from hoff] at hf
    cases hf
  · rcases List.mem_append.1 hq with hq | hq
    · exact hset.queued id' hq
    · rw [List.mem_singleton.1 hq]
      exact ⟨h0, by simp [ftsStateSet]⟩
  · refine List.nodup_append.2 ⟨h.distinct, by simp, fun a ha b hb => ?_⟩
    rw [List.mem_singleton.1 hb]
    exact fun he => hnot (he ▸ ha)
  · obtain ⟨hq, hb, hout⟩ := hset.current hcur
    refine ⟨fun hmem => ?_, hb, hout⟩
    rcases List.mem_append.1 hmem with hmem | hmem
    · exact hq hmem
    · have hb' := (h.current hcur).2.1
      rw [show s.ftsCurChannel = id from List.mem_singleton.1 hmem, hst] at hb'
      cases hb'

/-- Reading a channel's state remembers it. -/
theorem ftsStateGet_indexed (h : Indexed messages s) (hf : s.fts = true) (id : Int) :
    Indexed messages (ftsStateGet s id).2 ∧
    (ftsStateGet s id).2.ftsState.get id = some (ftsStateGet s id).1 := by
  unfold ftsStateGet
  rw [if_neg (by simp [hf])]
  cases hg : s.ftsState.get id with
  | some st => exact ⟨h, hg⟩
  | none =>
    refine ⟨h.setState (by simp [hg]) (fun _ hst => ?_) (fun _ c hc hb he => ?_), by simp⟩
    · split at hst
      · rename_i hany
        obtain ⟨c, hc, hcb⟩ := List.any_eq_true.1 hany
        obtain ⟨rfl, hb⟩ := of_decide_eq_true hcb
        exact (h.flagged hf c hc hb).1
      · cases hst
    · rw [if_pos (List.any_eq_true.2 ⟨c, hc, by simp [he, hb]⟩)]

end Frames

/-! ## Writes -/

section Writes

variable {messages : List Msg} {s : Sb}

theorem Covers.append {index : List FtsRow} {m : Msg} (h : Covers index m) (r : FtsRow) :
    Covers (index ++ [r]) m := by
  obtain ⟨q, hq, he⟩ := h
  exact ⟨q, List.mem_append_left _ hq, he⟩

theorem Covers.filter {index : List FtsRow} {m : Msg} (h : Covers index m) {p : FtsRow → Bool}
    (hp : ∀ r ∈ index, r.rowid = m.id → p r = true) : Covers (index.filter p) m := by
  obtain ⟨r, hr, he⟩ := h
  exact ⟨r, List.mem_filter.2 ⟨hr, hp r hr he⟩, he⟩

/-- A message of a channel that is not indexed live. -/
theorem Indexed.append_unindexed (h : Indexed messages s) {m : Msg}
    (hst : s.ftsState.get m.channelId = some .unindexed) : Indexed (messages ++ [m]) s := by
  have hcomplete : ∀ id, id ≠ m.channelId → Complete messages s.messagesFts id →
      Complete (messages ++ [m]) s.messagesFts id := by
    intro id hne hc r hr he
    rcases List.mem_append.1 hr with hr | hr
    · exact hc r hr he
    · rw [List.mem_singleton.1 hr] at he
      exact absurd he.symm hne
  refine { h with sound := fun r hr => ?_, flagged := fun hf c hc hb => ?_, built := fun hf id hg => ?_,
                  current := fun hcur => ?_ }
  · obtain ⟨q, hq, he⟩ := h.sound r hr
    exact ⟨q, List.mem_append_left _ hq, he⟩
  · obtain ⟨hcomp, hstate⟩ := h.flagged hf c hc hb
    refine ⟨hcomplete c.id (fun he => ?_) hcomp, hstate⟩
    rw [he, hst] at hstate
    rcases hstate with hstate | hstate <;> cases hstate
  · refine hcomplete id (fun he => ?_) (h.built hf id hg)
    rw [he, hst] at hg
    cases hg
  · obtain ⟨hnot, hb, hcov⟩ := h.current hcur
    refine ⟨hnot, hb, fun r hr he hout => ?_⟩
    rcases List.mem_append.1 hr with hr | hr
    · exact hcov r hr he hout
    · rw [List.mem_singleton.1 hr] at he
      rw [← he, hst] at hb
      cases hb

/-- A message indexed as it is stored, or a stored one indexed later. -/
theorem Indexed.append_row (h : Indexed messages s) {messages' : List Msg} {rowid channelId : Int}
    (hf : s.fts = true) (hmem : ∀ m ∈ messages', m ∈ messages ∨ m.id = rowid)
    (hsub : ∀ m ∈ messages, m ∈ messages')
    (hrow : ∃ m ∈ messages', m.id = rowid ∧ m.channelId = channelId)
    (hnew : ∀ r ∈ s.messagesFts, r.rowid ≠ rowid) :
    Indexed messages' { s with messagesFts := s.messagesFts ++ [⟨rowid, channelId⟩] } := by
  have hcov : ∀ m ∈ messages', (m ∈ messages → Covers s.messagesFts m) →
      Covers (s.messagesFts ++ [⟨rowid, channelId⟩]) m := by
    intro m hm hc
    rcases hmem m hm with hm | hm
    · exact (hc hm).append _
    · exact ⟨⟨rowid, channelId⟩, by simp, hm.symm⟩
  refine { h with off := fun hoff => ?_, sound := fun r hr => ?_, once := ?_,
                  flagged := fun hf c hc hb => ?_, built := fun hf id hg => ?_, current := fun hcur => ?_ }
  · rw [hf] at hoff; cases hoff
  · rcases List.mem_append.1 hr with hr | hr
    · obtain ⟨m, hm, he⟩ := h.sound r hr
      exact ⟨m, hsub m hm, he⟩
    · rw [List.mem_singleton.1 hr]
      exact hrow
  · rw [List.map_append, List.nodup_append]
    refine ⟨h.once, by simp, fun a ha b hb => ?_⟩
    obtain ⟨r, hr, rfl⟩ := List.mem_map.1 ha
    rw [List.mem_singleton.1 hb]
    exact hnew r hr
  · obtain ⟨hcomp, hstate⟩ := h.flagged hf c hc hb
    exact ⟨fun m hm he => hcov m hm fun hm' => hcomp m hm' he, hstate⟩
  · exact fun m hm he => hcov m hm fun hm' => h.built hf id hg m hm' he
  · obtain ⟨hnot, hb, hout⟩ := h.current hcur
    exact ⟨hnot, hb, fun m hm he ho => hcov m hm fun hm' => hout m hm' he ho⟩

/-- Changing what is not indexed changes nothing else. -/
theorem Indexed.map (h : Indexed messages s) {f : Msg → Msg}
    (hf : ∀ m, (f m).id = m.id ∧ (f m).channelId = m.channelId ∧ (f m).timestamp = m.timestamp) :
    Indexed (messages.map f) s := by
  have hback : ∀ m ∈ messages.map f, ∃ r ∈ messages, r.id = m.id ∧ r.channelId = m.channelId := by
    intro m hm
    obtain ⟨r, hr, rfl⟩ := List.mem_map.1 hm
    exact ⟨r, hr, (hf r).1.symm, (hf r).2.1.symm⟩
  have hcomplete : ∀ id, Complete messages s.messagesFts id → Complete (messages.map f) s.messagesFts id := by
    intro id hc m hm he
    obtain ⟨r, hr, hid, hch⟩ := hback m hm
    obtain ⟨q, hq, hqid⟩ := hc r hr (hch.trans he)
    exact ⟨q, hq, hqid.trans hid⟩
  refine { h with sound := fun r hr => ?_, flagged := fun hf' c hc hb => ?_, built := fun hf' id hg => ?_,
                  current := fun hcur => ?_ }
  · obtain ⟨m, hm, hid, hch⟩ := h.sound r hr
    exact ⟨f m, List.mem_map_of_mem hm, (hf m).1.trans hid, (hf m).2.1.trans hch⟩
  · obtain ⟨hcomp, hstate⟩ := h.flagged hf' c hc hb
    exact ⟨hcomplete _ hcomp, hstate⟩
  · exact hcomplete id (h.built hf' id hg)
  · obtain ⟨hnot, hb, hout⟩ := h.current hcur
    refine ⟨hnot, hb, fun m hm he ho => ?_⟩
    obtain ⟨r, hr, hid, hch⟩ := hback m hm
    obtain ⟨q, hq, hqid⟩ := hout r hr (hch.trans he) (by rw [hid]; exact ho)
    exact ⟨q, hq, hqid.trans hid⟩

/-- Without FTS5 the messages do not matter. -/
theorem Indexed.of_off (h : Indexed messages s) (hf : s.fts = false) (messages' : List Msg) :
    Indexed messages' s := by
  obtain ⟨hnil, hq, hcur⟩ := h.off hf
  refine { h with sound := fun r hr => ?_, flagged := fun hf' => ?_, built := fun hf' => ?_,
                  current := fun hne => absurd hcur hne }
  · rw [hnil] at hr; cases hr
  · rw [hf] at hf'; cases hf'
  · rw [hf] at hf'; cases hf'

/-- **The live path**: a stored message is indexed unless its channel was never scheduled. -/
theorem ftsNoteInsert_indexed (h : Indexed messages s) {m : Msg}
    (hnew : ∀ r ∈ s.messagesFts, r.rowid ≠ m.id) :
    Indexed (messages ++ [m]) (ftsNoteInsert s m.id m.channelId) := by
  unfold ftsNoteInsert
  split
  · rename_i hf
    exact h.of_off hf _
  rename_i hf
  have hf : s.fts = true := by simpa using hf
  obtain ⟨hget, hst⟩ := ftsStateGet_indexed h hf m.channelId
  have hon : (ftsStateGet s m.channelId).2.fts = true := by rw [ftsStateGet_eq]; exact hf
  have hindex : (ftsStateGet s m.channelId).2.messagesFts = s.messagesFts := by rw [ftsStateGet_eq]
  dsimp only
  split
  · rw [ftsIndexRow, if_neg (by simp [hon])]
    refine hget.append_row hon (fun r hr => ?_) (fun r hr => List.mem_append_left _ hr)
      ⟨m, by simp, rfl, rfl⟩ (by rw [hindex]; exact hnew)
    rcases List.mem_append.1 hr with hr | hr
    · exact .inl hr
    · exact .inr (by rw [List.mem_singleton.1 hr])
  · rename_i hun
    refine hget.append_unindexed ?_
    rw [hst]
    simpa using hun

/-- Deleting messages together with their index rows. -/
theorem Indexed.filter (h : Indexed messages s) {p : Msg → Bool} {q : FtsRow → Bool}
    (hpq : ∀ m ∈ messages, ∀ r ∈ s.messagesFts, r.rowid = m.id → m.channelId = r.channelId → p m = q r)
    (hids : (messages.map (·.id)).Nodup) :
    Indexed (messages.filter p) { s with messagesFts := s.messagesFts.filter q } := by
  have hcov : ∀ m ∈ messages.filter p, Covers s.messagesFts m → Covers (s.messagesFts.filter q) m := by
    intro m hm hc
    obtain ⟨hm, hp⟩ := List.mem_filter.1 hm
    refine hc.filter fun r hr he => ?_
    obtain ⟨m', hm', hid, hch⟩ := h.sound r hr
    have hsame : m' = m := List.inj_on_of_nodup_map hids hm' hm (hid.trans he)
    rw [← hpq m hm r hr he (hsame ▸ hch)]
    exact hp
  refine { h with off := fun hoff => ?_, sound := fun r hr => ?_, once := ?_,
                  flagged := fun hf c hc hb => ?_, built := fun hf id hg => ?_, current := fun hcur => ?_ }
  · obtain ⟨hnil, hrest⟩ := h.off hoff
    exact ⟨by simp [hnil], hrest⟩
  · obtain ⟨hr, hq⟩ := List.mem_filter.1 hr
    obtain ⟨m, hm, hid, hch⟩ := h.sound r hr
    refine ⟨m, List.mem_filter.2 ⟨hm, ?_⟩, hid, hch⟩
    rw [hpq m hm r hr hid.symm hch]
    exact hq
  · exact (List.filter_sublist.map _).nodup h.once
  · obtain ⟨hcomp, hstate⟩ := h.flagged hf c hc hb
    exact ⟨fun m hm he => hcov m hm (hcomp m (List.mem_of_mem_filter hm) he), hstate⟩
  · exact fun m hm he => hcov m hm (h.built hf id hg m (List.mem_of_mem_filter hm) he)
  · obtain ⟨hnot, hb, hout⟩ := h.current hcur
    exact ⟨hnot, hb, fun m hm he ho => hcov m hm (hout m (List.mem_of_mem_filter hm) he ho)⟩

end Writes

/-! ## Calls -/

section Calls

variable {s : Sb} (hs : s.Sane) (h : Indexed s.messages s) (channel : String)

include hs h

theorem scrollbackDbSave_indexed (timestamp : Int) (msgid : Option String) (text : String)
    (isUserMsg : Bool) : Indexed (scrollbackDbSave s channel timestamp msgid text isUserMsg).2.messages
      (scrollbackDbSave s channel timestamp msgid text isUserMsg).2 := by
  obtain ⟨id, channels, cache, he, hr⟩ := scrollbackGetChannelId_resolves hs channel
  have hres := h.resolved hr
  simp only [scrollbackDbSave, he]
  split
  · exact hres
  split
  · exact hres
  rename_i m hm
  obtain ⟨hmid, rfl, -⟩ := insertMessage_eq_some hm
  have hnew : ∀ r ∈ s.messagesFts, r.rowid ≠ m.id := fun r hr => by
    obtain ⟨q, hq, hid, -⟩ := h.sound r hr
    rw [← hid, hmid]
    exact (lt_nextId (List.mem_map_of_mem hq)).ne
  rw [chanCacheNoteInsert_eq, ftsNoteInsert_messages]
  exact ftsNoteInsert_indexed (hres.frame _ _ _) hnew

theorem scrollbackPurgePending_indexed :
    Indexed (scrollbackPurgePending s channel).messages (scrollbackPurgePending s channel) := by
  obtain ⟨id, channels, cache, he, hr⟩ := scrollbackGetChannelId_resolves hs channel
  have hres := h.resolved hr
  simp only [scrollbackPurgePending, he]
  split
  · exact hres
  have hpurged := hres.filter (p := fun m => ¬ (m.channelId = id ∧ isPending m.msgid))
    (q := fun r => r.rowid ∉ (s.messages.filter fun m => m.channelId = id ∧ isPending m.msgid).map (·.id))
    (fun m hm r _ hid _ => ?_) hs.ids
  · rw [chanCacheInvalidate_eq]
    by_cases hf : s.fts = false
    · rw [if_pos hf]
      have hoff := (hres.of_off hf (s.messages.filter fun m => ¬ (m.channelId = id ∧ isPending m.msgid)))
      split <;> exact hoff.frame _ _ _
    · rw [if_neg hf]
      split <;> exact hpurged.frame _ _ _
  · have hiff : r.rowid ∈ (s.messages.filter fun m => m.channelId = id ∧ isPending m.msgid).map (·.id) ↔
        m.channelId = id ∧ isPending m.msgid = true := by
      constructor
      · intro hmem
        obtain ⟨q, hq, hqid⟩ := List.mem_map.1 hmem
        obtain ⟨hq, hp⟩ := List.mem_filter.1 hq
        rw [← List.inj_on_of_nodup_map hs.ids hq hm (hqid.trans hid)]
        exact of_decide_eq_true hp
      · intro hp
        exact List.mem_map.2 ⟨m, List.mem_filter.2 ⟨hm, decide_eq_true hp⟩, hid.symm⟩
    exact decide_eq_decide.2 (not_congr hiff.symm)

theorem scrollbackDeleteByRowid_indexed (rowid : Int) :
    Indexed (scrollbackDeleteByRowid s rowid).2.messages (scrollbackDeleteByRowid s rowid).2 := by
  unfold scrollbackDeleteByRowid
  split
  · exact h
  split
  · unfold ftsUnindexRow
    dsimp only
    split
    · rename_i hf
      exact (h.of_off hf _).frame _ _ _
    · refine (h.filter (fun m _ r _ hid _ => ?_) hs.ids).frame _ _ _
      rw [hid]
  · exact h

theorem scrollbackClear_indexed :
    Indexed (scrollbackClear s channel).messages (scrollbackClear s channel) := by
  obtain ⟨id, channels, cache, he, hr⟩ := scrollbackGetChannelId_resolves hs channel
  have hres := h.resolved hr
  simp only [scrollbackClear, he]
  split
  · exact hres
  rw [chanCacheInvalidate_eq]
  by_cases hf : s.fts = false
  · rw [if_pos hf]
    exact (hres.of_off hf _).frame _ _ _
  · rw [if_neg hf]
    refine (hres.filter (fun m _ r _ _ hch => ?_) hs.ids).frame _ _ _
    rw [hch]

theorem scrollbackUpdatePendingMsgid_indexed (pendingMsgid realMsgid : String) :
    Indexed (scrollbackUpdatePendingMsgid s channel pendingMsgid realMsgid).2.messages
      (scrollbackUpdatePendingMsgid s channel pendingMsgid realMsgid).2 := by
  obtain ⟨id, channels, cache, he, hr⟩ := scrollbackGetChannelId_resolves hs channel
  have hres := h.resolved hr
  simp only [scrollbackUpdatePendingMsgid, he]
  split
  · exact hres
  split
  · exact hres
  rename_i hu
  obtain ⟨f, rfl, hf⟩ := updateMsgid_eq_some hu
  exact (hres.map hf).frame _ _ _

omit hs in
theorem OrdinalEffect.indexed {s' : Sb} (he : OrdinalEffect s channel s') : Indexed s'.messages s' := by
  obtain ⟨id, channels, cache, hr, he⟩ := he
  rw [he]
  exact (h.resolved hr).frame _ _ _

theorem scrollbackFtsSchedule_indexed :
    Indexed (scrollbackFtsSchedule s channel).messages (scrollbackFtsSchedule s channel) := by
  obtain ⟨id, channels, cache, he, hr⟩ := scrollbackGetChannelId_resolves hs channel
  have hres := h.resolved hr
  simp only [scrollbackFtsSchedule, he]
  split
  · exact h
  split
  · exact hres
  rename_i hf hid
  have hf : s.fts = true := by simpa using hf
  obtain ⟨hget, hst⟩ := ftsStateGet_indexed hres hf id
  have hmsgs : (ftsStateGet { s with channels := channels, channelIdCache := cache } id).2.messages =
      s.messages := by
    rw [ftsStateGet_eq]
  have hon : (ftsStateGet { s with channels := channels, channelIdCache := cache } id).2.fts = true := by
    rw [ftsStateGet_eq]
    exact hf
  generalize ftsStateGet { s with channels := channels, channelIdCache := cache } id = r at *
  split
  · rw [hmsgs]; exact hget
  · rename_i hun
    have hun : r.1 = .unindexed := by simpa using hun
    have hscheduled := hget.schedule (hun ▸ hst) (by omega) hon
    change Indexed r.2.messages _
    rw [hmsgs]
    exact hscheduled

theorem scrollbackFtsReady_indexed :
    Indexed (scrollbackFtsReady s channel).2.messages (scrollbackFtsReady s channel).2 := by
  obtain ⟨id, channels, cache, he, hr⟩ := scrollbackGetChannelId_resolves hs channel
  have hres := h.resolved hr
  simp only [scrollbackFtsReady, he]
  split
  · exact h
  split
  · exact hres
  rename_i hf _
  have hget := (ftsStateGet_indexed hres (by simpa using hf) id).1
  rw [ftsStateGet_eq] at hget ⊢
  exact hget

end Calls

/-! ## The backfill -/

section Backfill

variable {messages : List Msg} {s : Sb}

/-- The row loop indexes every row it is given, none twice. -/
theorem ftsBackfillLoop_indexed {channelId : Int} {ids : List Int} (h : Indexed messages s)
    (hf : s.fts = true) (hids : ∀ id ∈ ids, ∃ m ∈ messages, m.id = id ∧ m.channelId = channelId) :
    Indexed messages (ftsBackfillLoop channelId s ids) ∧
    (∀ r ∈ s.messagesFts, r ∈ (ftsBackfillLoop channelId s ids).messagesFts) ∧
    (∀ id ∈ ids, ∃ r ∈ (ftsBackfillLoop channelId s ids).messagesFts, r.rowid = id) := by
  induction ids generalizing s with
  | nil => exact ⟨h, fun _ hr => hr, by simp⟩
  | cons id ids ih =>
    have hrest : ∀ id' ∈ ids, ∃ m ∈ messages, m.id = id' ∧ m.channelId = channelId :=
      fun id' hid' => hids id' (by simp [hid'])
    unfold ftsBackfillLoop
    by_cases hi : ftsRowIndexed s id = true
    · rw [if_pos hi]
      obtain ⟨hind, hkeep, hall⟩ := ih h hf hrest
      refine ⟨hind, hkeep, fun id' hid' => ?_⟩
      rcases List.mem_cons.1 hid' with rfl | hid'
      · obtain ⟨r, hr, he⟩ := List.any_eq_true.1 hi
        exact ⟨r, hkeep r hr, of_decide_eq_true he⟩
      · exact hall id' hid'
    · rw [if_neg hi, ftsIndexRow, if_neg (by simp [hf])]
      have hnew : ∀ r ∈ s.messagesFts, r.rowid ≠ id := fun r hr he =>
        hi (List.any_eq_true.2 ⟨r, hr, decide_eq_true he⟩)
      have hrow := h.append_row hf (fun m hm => .inl hm) (fun m hm => hm) (hids id (by simp)) hnew
      obtain ⟨hind, hkeep, hall⟩ := ih hrow hf hrest
      refine ⟨hind, fun r hr => hkeep r (List.mem_append_left _ hr), fun id' hid' => ?_⟩
      rcases List.mem_cons.1 hid' with rfl | hid'
      · exact ⟨_, hkeep ⟨id', channelId⟩ (by simp), rfl⟩
      · exact hall id' hid'

/-- The rowids a chunk reads are the first of the channel's in the cursor's window. -/
theorem mem_ftsBackfillRows {id : Int} (h : id ∈ ftsBackfillRows s) :
    ∃ m ∈ s.messages, m.id = id ∧ m.channelId = s.ftsCurChannel := by
  have hmem := (List.mem_insertionSort _).1 (List.mem_of_mem_take h)
  obtain ⟨m, hm, rfl⟩ := List.mem_map.1 hmem
  obtain ⟨hm, hp⟩ := List.mem_filter.1 hm
  exact ⟨m, hm, rfl, (of_decide_eq_true hp).1⟩

/-- A row of the window that is not read is above the last one read, and then the chunk was full. -/
theorem ftsBackfillRows_reads (hids : (s.messages.map (·.id)).Nodup) {m : Msg} (hm : m ∈ s.messages)
    (hch : m.channelId = s.ftsCurChannel) (hwin : s.ftsCurNext < m.id ∧ m.id ≤ s.ftsCurMax)
    (hle : (ftsBackfillRows s).length < FTS_BACKFILL_CHUNK ∨ m.id ≤ (ftsBackfillRows s).getLastD 0) :
    m.id ∈ ftsBackfillRows s := by
  unfold ftsBackfillRows at hle ⊢
  generalize hl : ((s.messages.filter fun m =>
    m.channelId = s.ftsCurChannel ∧ s.ftsCurNext < m.id ∧ m.id ≤ s.ftsCurMax).map
      (·.id)).insertionSort (· ≤ ·) = l at *
  have hranked : Ranked (fun x : Int => x) l := by
    rw [← hl]
    refine Ranked.of_sorted (List.pairwise_insertionSort _ _) ?_
    refine ((List.perm_insertionSort _ _).pairwise_iff fun hne he => hne he.symm).2 ?_
    exact (List.filter_sublist.map _).nodup hids
  have hmem : m.id ∈ l := by
    rw [← hl, List.mem_insertionSort]
    exact List.mem_map.2 ⟨m, List.mem_filter.2 ⟨hm, decide_eq_true ⟨hch, hwin⟩⟩, rfl⟩
  obtain ⟨j, hj⟩ := List.mem_iff_getElem?.1 hmem
  have hjl := (List.getElem?_eq_some_iff.1 hj).1
  have hjn : j < FTS_BACKFILL_CHUNK := by
    by_contra hge
    rcases hle with hlt | hle
    · rw [List.length_take] at hlt
      omega
    · have hlen : (l.take FTS_BACKFILL_CHUNK).length = FTS_BACKFILL_CHUNK := by
        rw [List.length_take]
        omega
      have hlast : l[FTS_BACKFILL_CHUNK - 1]? = some ((l.take FTS_BACKFILL_CHUNK).getLastD 0) := by
        rw [List.getLastD_eq_getLast?, List.getLast?_eq_getElem?, hlen,
          List.getElem?_take_of_lt (by unfold FTS_BACKFILL_CHUNK; omega)]
        rw [List.getElem?_eq_getElem (by omega)]
        rfl
      have := (hranked.le_iff hj hlast).1 hle
      unfold FTS_BACKFILL_CHUNK at *
      omega
  exact List.mem_of_getElem? (by rw [List.getElem?_take_of_lt hjn]; exact hj)

/-- **A chunk** moves the cursor over indexed rows, or finishes its channel. -/
theorem ftsBackfillChunk_indexed (hs : s.Sane) (h : Indexed s.messages s) (hcur : s.ftsCurChannel ≠ 0) :
    Indexed (ftsBackfillChunk s).messages (ftsBackfillChunk s) := by
  have hf : s.fts = true := by
    by_contra hf
    exact hcur (h.off (by simpa using hf)).2.2
  obtain ⟨hind, hkeep, hall⟩ := ftsBackfillLoop_indexed h hf fun id hid => mem_ftsBackfillRows hid
  obtain ⟨hnot, hbuilding, hout⟩ := h.current hcur
  have hcovers : ∀ m ∈ s.messages, m.channelId = s.ftsCurChannel →
      (ftsBackfillRows s).length < FTS_BACKFILL_CHUNK ∨ m.id ≤ (ftsBackfillRows s).getLastD 0 ∨ s.ftsCurMax < m.id →
      Covers (ftsBackfillLoop s.ftsCurChannel s (ftsBackfillRows s)).messagesFts m := by
    intro m hm hch hread
    by_cases hwin : s.ftsCurNext < m.id ∧ m.id ≤ s.ftsCurMax
    · exact hall _ (ftsBackfillRows_reads hs.ids hm hch hwin (by omega))
    · obtain ⟨r, hr, he⟩ := hout m hm hch (by omega)
      exact ⟨r, hkeep r hr, he⟩
  unfold ftsBackfillChunk
  dsimp only
  rw [ftsBackfillLoop_eq] at hind ⊢
  generalize (ftsBackfillLoop s.ftsCurChannel s (ftsBackfillRows s)).messagesFts = index at *
  split
  · rename_i hshort
    have hcomplete : Complete s.messages index s.ftsCurChannel :=
      fun m hm hch => hcovers m hm hch (.inl hshort)
    have hget : ∀ id, (s.ftsState.put s.ftsCurChannel .built).get id =
        if s.ftsCurChannel = id then some .built else s.ftsState.get id := fun id => Table.get_put _ _ _ _
    refine { hind with off := fun hoff => ?_, flagged := fun _ c hc hb => ?_, built := fun _ id hg => ?_,
                       queued := fun id hq => ?_, current := fun hz => absurd rfl hz }
    · rw [show s.fts = false from hoff] at hf
      cases hf
    · obtain ⟨d, hd, hdc⟩ := List.mem_map.1 hc
      simp only [ftsStateSet, hget]
      split at hdc
      · rename_i he
        subst hdc
        exact ⟨he ▸ hcomplete, .inr (by rw [if_pos he.symm])⟩
      · rename_i he
        subst hdc
        rw [if_neg (Ne.symm he)]
        exact hind.flagged hf d hd hb
    · simp only [ftsStateSet, hget] at hg
      split at hg
      · rename_i he
        exact he ▸ hcomplete
      · exact hind.built hf id hg
    · refine ⟨(h.queued id hq).1, ?_⟩
      simp only [ftsStateSet, hget]
      rw [if_neg fun he : s.ftsCurChannel = id => hnot (he ▸ hq)]
      exact (h.queued id hq).2
  · refine { hind with current := fun _ => ⟨hnot, hbuilding, fun m hm hch ho => hcovers m hm hch (.inr ?_)⟩ }
    exact ho

theorem ftsBackfillIdle_indexed (hs : s.Sane) (h : Indexed s.messages s) :
    Indexed (ftsBackfillIdle s).messages (ftsBackfillIdle s) := by
  unfold ftsBackfillIdle
  split
  · exact h
  split
  · split
    · exact { h with }
    · rename_i next queue hq
      obtain ⟨hnext, hbuilding⟩ := h.queued next (by simp [hq])
      have hdistinct := h.distinct
      rw [hq, List.nodup_cons] at hdistinct
      refine ftsBackfillChunk_indexed hs ?_ hnext
      refine { h with off := fun hoff => ?_, queued := fun id hid => h.queued id (by rw [hq]; exact .tail _ hid),
                      distinct := hdistinct.2, current := fun _ => ⟨hdistinct.1, hbuilding, ?_⟩ }
      · have := (h.off hoff).2.1
        rw [hq] at this
        cases this
      · -- the window starts as the whole channel
        intro m hm hch ho
        have hpos := hs.idPos m hm
        have hmax : m.id ≤ maxOrZero ((s.messages.filter fun m => m.channelId = next).map (·.id)) :=
          le_maxOrZero (List.mem_map.2 ⟨m, List.mem_filter.2 ⟨hm, decide_eq_true hch⟩, rfl⟩)
        simp only [ftsStartBackfill] at ho
        omega
  · rename_i hcur
    exact ftsBackfillChunk_indexed hs h hcur

end Backfill

/-! ## Runs -/

theorem reopen_indexed {s : Sb} (h : Indexed s.messages s) : Indexed s.reopen.messages s.reopen where
  off hf := ⟨(h.off hf).1, rfl, rfl⟩
  sound := h.sound
  once := h.once
  flagged hf c hc hb := ⟨(h.flagged hf c hc hb).1, .inl rfl⟩
  built _ _ hg := by cases hg
  queued _ hq := by cases hq
  distinct := List.nodup_nil
  current hcur := absurd rfl hcur

theorem indexed_step {s : Sb} (hs : s.Sane) (h : Indexed s.messages s) (op : Op) :
    Indexed (step s op).messages (step s op) := by
  cases op with
  | save => exact scrollbackDbSave_indexed hs h _ _ _ _ _
  | purgePending => exact scrollbackPurgePending_indexed hs h _
  | deleteByRowid => exact scrollbackDeleteByRowid_indexed hs h _
  | clear => exact scrollbackClear_indexed hs h _
  | updatePendingMsgid => exact scrollbackUpdatePendingMsgid_indexed hs h _ _ _
  | count channel => exact OrdinalEffect.indexed h channel (scrollbackCount_effect hs channel)
  | loadRange channel => exact OrdinalEffect.indexed h channel (scrollbackLoadRange_effect hs channel _ _)
  | indexOfRowid channel => exact OrdinalEffect.indexed h channel (scrollbackGetIndexOfRowid_effect hs channel _)
  | ftsSchedule => exact scrollbackFtsSchedule_indexed hs h _
  | ftsReady => exact scrollbackFtsReady_indexed hs h _
  | tick => exact ftsBackfillIdle_indexed hs h
  | reopen => exact reopen_indexed h

/-- The rowids indexed under the channel of this name. -/
def indexedRowids (s : Sb) (channel : String) : List Int :=
  match channelLookup s.channels channel with
  | none => []
  | some id => (s.messagesFts.filter fun r => r.channelId = id).map (·.rowid)

/-- A channel that is reported built has all its messages indexed, and no other rows. -/
theorem scrollbackFtsReady_complete {s : Sb} (hs : s.Sane) (h : Indexed s.messages s) {channel : String}
    (hready : (scrollbackFtsReady s channel).1 = true) (rowid : Int) :
    rowid ∈ indexedRowids s channel ↔ rowid ∈ (channelRows s.messages s.channels channel).map (·.id) := by
  obtain ⟨id, channels, cache, he, hr⟩ := scrollbackGetChannelId_resolves hs channel
  have hres := h.resolved hr
  simp only [scrollbackFtsReady, he] at hready
  split at hready
  · cases hready
  split at hready
  · cases hready
  rename_i hf hid
  have hf : s.fts = true := by simpa using hf
  obtain ⟨hget, hst⟩ := ftsStateGet_indexed hres hf id
  have hbuilt := hget.built (by rw [ftsStateGet_eq]; exact hf) id (by rw [hst]; simpa using hready)
  have hcomplete : Complete s.messages s.messagesFts id := by
    rw [ftsStateGet_eq] at hbuilt
    exact hbuilt
  have hlookup : ∀ id', channelLookup s.channels channel = some id' → id' = id := by
    intro id' hl
    rcases hr.answer with ⟨-, rfl⟩ | ⟨-, hl'⟩
    · omega
    · rcases hr.grown with hg | ⟨d, hg, -, -⟩
      · rw [hg, hl] at hl'
        exact Option.some.inj hl'
      · rw [hg, channelLookup_append, hl] at hl'
        exact Option.some.inj hl'
  unfold indexedRowids channelRows
  cases hl : channelLookup s.channels channel with
  | none => simp
  | some id' =>
    obtain rfl := hlookup id' hl
    constructor
    · intro hmem
      obtain ⟨r, hr, rfl⟩ := List.mem_map.1 hmem
      obtain ⟨hr, hch⟩ := List.mem_filter.1 hr
      obtain ⟨m, hm, hmid, hmch⟩ := h.sound r hr
      exact List.mem_map.2 ⟨m, mem_ordered.2 ⟨hm, hmch.trans (of_decide_eq_true hch)⟩, hmid⟩
    · intro hmem
      obtain ⟨m, hm, rfl⟩ := List.mem_map.1 hmem
      obtain ⟨hm, hch⟩ := mem_ordered.1 hm
      obtain ⟨r, hr, hrid⟩ := hcomplete m hm hch
      obtain ⟨m', hm', hid', hch'⟩ := h.sound r hr
      have hsame : m' = m := List.inj_on_of_nodup_map hs.ids hm' hm (hid'.trans hrid)
      refine List.mem_map.2 ⟨r, List.mem_filter.2 ⟨hr, decide_eq_true ?_⟩, hrid⟩
      rw [← hch', hsame, hch]

/-- **Search-index completeness** in every state a run reaches. -/
theorem search_index_complete {s : Sb} (hs : s.Sane) (hi : Indexed s.messages s) (ops : List Op) :
    (∀ r ∈ (run s ops).messagesFts, ∃ m ∈ (run s ops).messages,
      m.id = r.rowid ∧ m.channelId = r.channelId) ∧
    ((run s ops).messagesFts.map (·.rowid)).Nodup ∧
    ∀ channel, (scrollbackFtsReady (run s ops) channel).1 = true → ∀ rowid,
      rowid ∈ indexedRowids (run s ops) channel ↔
        rowid ∈ (channelRows (run s ops).messages (run s ops).channels channel).map (·.id) := by
  have hall : Along step (fun _ _ => True) s ops := Along.of_forall (fun _ _ _ => trivial) s
  obtain ⟨hs', hi'⟩ := Along.invariant (I := fun s => s.Sane ∧ Indexed s.messages s)
    (fun s op h _ => ⟨(step_keeps h.1 op).sane, indexed_step h.1 h.2 op⟩) ⟨hs, hi⟩ hall
  exact ⟨hi'.sound, hi'.once, fun channel hready => scrollbackFtsReady_complete hs' hi' hready⟩

theorem fresh_indexed (fts : Bool) : Indexed [] (Sb.fresh fts) := by
  constructor <;> simp [Sb.fresh]

/-- Rows before, between and after the scheduling and the backfill, with a rowid reused. -/
def savesAroundBackfill : List Op :=
  [.save "#c" 10 none "a" false, .ftsSchedule "#c", .save "#c" 20 none "b" false, .deleteByRowid 2,
    .save "#c" 30 none "c" false, .tick, .save "#c" 5 none "d" false, .reopen]

theorem search_index_complete_reopened :
    (scrollbackFtsReady (run (Sb.fresh true) savesAroundBackfill) "#c").1 = true ∧
    (2 ∈ indexedRowids (run (Sb.fresh true) savesAroundBackfill) "#c" ↔
      2 ∈ (channelRows (run (Sb.fresh true) savesAroundBackfill).messages
        (run (Sb.fresh true) savesAroundBackfill).channels "#c").map (·.id)) :=
  ⟨by decide, (search_index_complete (fresh_sane true) (fresh_indexed true) savesAroundBackfill).2.2 "#c"
    (by decide) 2⟩

end PoxChat.Scrollback
