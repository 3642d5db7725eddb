import PoxChat.Scrollback.Ledger
import PoxChat.Scrollback.Tables

/-!
# Live gaps are disjoint

Recording a gap merges it with every live gap it overlaps or touches, so the ledger stays disjoint
(`scrollbackGapRecord_sound`); narrowing, deleting and killing gaps keep that.  What can break it is
bringing a dead gap back to life: dead gaps do not merge, so a live one may cover the same span.

* `meetsLedger` — from a sound ledger, a call keeps the live gaps disjoint exactly when it
  revives no dead gap onto another gap (`Clear`).
* `live_gaps_disjoint_iff` — the runs that keep them disjoint throughout are those of clear calls.
-/

set_option autoImplicit false

namespace PoxChat.Scrollback

open Lib

/-- The spans neither overlap nor touch. -/
def Gap.Apart (g h : Gap) : Prop := g.endTs < h.startTs ∨ h.endTs < g.startTs

instance (g h : Gap) : Decidable (g.Apart h) := inferInstanceAs (Decidable (_ ∨ _))

theorem Gap.Apart.symm {g h : Gap} (ha : g.Apart h) : h.Apart g := Or.symm ha

def Gap.Live (g : Gap) : Prop := g.state ≠ .dead

instance (g : Gap) : Decidable g.Live := inferInstanceAs (Decidable (_ ≠ _))

/-- Every live gap is a proper span, and two of one channel neither overlap nor touch. -/
def LiveDisjoint (gaps : List Gap) : Prop :=
  (∀ g ∈ gaps, g.Live → g.startTs < g.endTs) ∧
  ∀ g ∈ gaps, ∀ h ∈ gaps, g.id ≠ h.id → g.channelId = h.channelId → g.Live → h.Live → g.Apart h

instance (gaps : List Gap) : Decidable (LiveDisjoint gaps) := inferInstanceAs (Decidable (_ ∧ _))

/-- A sound ledger: the store's tables, and gaps that are proper spans of known channels under
unique ids, the live ones apart. -/
structure LedgerSound (s : Sb) : Prop where
  sane : s.Sane
  owned : ∀ g ∈ s.gaps, ∃ c ∈ s.channels, c.id = g.channelId
  ids : (s.gaps.map (·.id)).Nodup
  pos : ∀ g ∈ s.gaps, 0 < g.id
  proper : ∀ g ∈ s.gaps, g.startTs < g.endTs
  apart : ∀ g ∈ s.gaps, ∀ h ∈ s.gaps, g.id ≠ h.id → g.channelId = h.channelId → g.Live → h.Live → g.Apart h

theorem LedgerSound.disjoint {s : Sb} (h : LedgerSound s) : LiveDisjoint s.gaps :=
  ⟨fun g hg _ => h.proper g hg, h.apart⟩

theorem LedgerSound.resolved {s : Sb} (h : LedgerSound s) {channel : String} {id : Int}
    {channels : List Chan} {cache : Table String Int}
    (hr : Resolves s.messages s.channels channel id channels cache) :
    LedgerSound { s with channels := channels, channelIdCache := cache } :=
  { h with
    sane := hr.sane
    owned := fun g hg => by
      obtain ⟨c, hc, he⟩ := h.owned g hg
      obtain ⟨d, hd, hid⟩ := hr.keepsIds c hc
      exact ⟨d, hd, hid.trans he⟩ }

/-! ## Recording -/

section Record

/-- The union spans the new gap, and each of its bounds is the new gap's or an absorbed one's. -/
structure Spans (u a : Gap) (rows : List Gap) : Prop where
  channelId : u.channelId = a.channelId
  start_le : u.startTs ≤ a.startTs
  le_end : a.endTs ≤ u.endTs
  startFrom : u.startTs = a.startTs ∨ ∃ g ∈ rows, u.startTs = g.startTs
  endFrom : u.endTs = a.endTs ∨ ∃ g ∈ rows, u.endTs = g.endTs

theorem Gap.absorb_bounds (u o : Gap) : (u.absorb o).channelId = u.channelId ∧
    (u.absorb o).startTs = min u.startTs o.startTs ∧ (u.absorb o).endTs = max u.endTs o.endTs := by
  by_cases hs : o.startTs < u.startTs <;> by_cases he : u.endTs < o.endTs <;>
    by_cases ht : o.state.toInt < u.state.toInt <;> simp only [Gap.absorb, hs, he, ht, if_true, if_false] <;>
    refine ⟨trivial, ?_, ?_⟩ <;> omega

/-- The merge loop. -/
theorem absorb_spans (rows : List Gap) (a : Gap) : Spans (rows.foldl Gap.absorb a) a rows := by
  induction rows generalizing a with
  | nil => exact ⟨rfl, le_rfl, le_rfl, .inl rfl, .inl rfl⟩
  | cons o rows ih =>
    obtain ⟨hch, hstart, hend, hsf, hef⟩ := ih (a.absorb o)
    obtain ⟨och, ostart, oend⟩ := Gap.absorb_bounds a o
    rw [List.foldl_cons]
    refine ⟨hch.trans och, by omega, by omega, ?_, ?_⟩
    · rcases hsf with hsf | ⟨g, hg, he⟩
      · rcases le_total a.startTs o.startTs with hm | hm
        · exact .inl (by omega)
        · exact .inr ⟨o, by simp, by omega⟩
      · exact .inr ⟨g, by simp [hg], he⟩
    · rcases hef with hef | ⟨g, hg, he⟩
      · rcases le_total o.endTs a.endTs with hm | hm
        · exact .inl (by omega)
        · exact .inr ⟨o, by simp, by omega⟩
      · exact .inr ⟨g, by simp [hg], he⟩

theorem Gap.meets_iff {g : Gap} {channelId startTs endTs : Int} : g.meets channelId startTs endTs = true ↔
    g.channelId = channelId ∧ g.Live ∧ g.startTs ≤ endTs ∧ startTs ≤ g.endTs := by
  simp [Gap.meets, Gap.Live]

variable {s : Sb}

/-- The union is apart from every live gap that was not absorbed: what it gained beyond the new gap
belongs to an absorbed gap, and those were apart already. -/
theorem union_apart (h : LedgerSound s) {a u k : Gap}
    (hu : Spans u a (s.gaps.filter fun g => g.meets a.channelId a.startTs a.endTs)) (hk : k ∈ s.gaps)
    (hch : k.channelId = a.channelId) (hlive : k.Live) (hmiss : k.meets a.channelId a.startTs a.endTs = false) :
    k.Apart u := by
  have hproper := h.proper k hk
  have hmet : ∀ g ∈ s.gaps.filter (fun g => g.meets a.channelId a.startTs a.endTs),
      k.Apart g ∧ g.startTs ≤ a.endTs ∧ a.startTs ≤ g.endTs := by
    intro g hg
    obtain ⟨hg, hm⟩ := List.mem_filter.1 hg
    obtain ⟨hgch, hglive, hge, hgs⟩ := Gap.meets_iff.1 hm
    refine ⟨h.apart k hk g hg (fun he => ?_) (hch.trans hgch.symm) hlive hglive, hge, hgs⟩
    rw [List.inj_on_of_nodup_map h.ids hk hg he, hm] at hmiss
    cases hmiss
  have hside : k.endTs < a.startTs ∨ a.endTs < k.startTs := by
    by_contra hc
    rw [Gap.meets_iff.2 ⟨hch, hlive, by omega, by omega⟩] at hmiss
    cases hmiss
  rcases hside with hside | hside
  · left
    rcases hu.startFrom with he | ⟨g, hg, he⟩
    · omega
    · obtain ⟨hapart, -, hgs⟩ := hmet g hg
      rcases hapart with hapart | hapart <;> omega
  · right
    rcases hu.endFrom with he | ⟨g, hg, he⟩
    · omega
    · obtain ⟨hapart, hge, -⟩ := hmet g hg
      rcases hapart with hapart | hapart <;> omega

/-- **Recording keeps the ledger sound.** -/
theorem scrollbackGapRecord_sound (h : LedgerSound s) (channel : String) (startTs : Int)
    (startMsgid : Option String) (endTs : Int) (endMsgid : Option String) (state : GapState) :
    LedgerSound (scrollbackGapRecord s channel startTs startMsgid endTs endMsgid state).2 := by
  unfold scrollbackGapRecord
  split
  · exact h
  rename_i hargs
  obtain ⟨id, channels, cache, he, hr⟩ := scrollbackGetChannelId_resolves h.sane channel
  simp only [he]
  split
  · exact h.resolved hr
  rename_i hid
  have hres := h.resolved hr
  have hspans := absorb_spans (s.gaps.filter fun g => g.meets id startTs endTs)
    ⟨0, id, startTs, startMsgid, endTs, endMsgid, state, 0, 0⟩
  generalize (s.gaps.filter fun g => g.meets id startTs endTs).foldl Gap.absorb
    ⟨0, id, startTs, startMsgid, endTs, endMsgid, state, 0, 0⟩ = u at *
  have hkept : ∀ g ∈ s.gaps.filter (fun g => !g.meets id startTs endTs),
      g ∈ s.gaps ∧ g.meets id startTs endTs = false := fun g hg => by simpa using hg
  generalize hk : s.gaps.filter (fun g => !g.meets id startTs endTs) = kept at *
  have hnew : ∀ g ∈ kept, g.channelId = id → g.Live →
      g.Apart { u with id := nextId (kept.map (·.id)) } := fun g hg hch hlive =>
    @union_apart s h ⟨0, id, startTs, startMsgid, endTs, endMsgid, state, 0, 0⟩ u g hspans (hkept g hg).1
      hch hlive (hkept g hg).2
  refine { sane := hr.sane, owned := fun g hg => ?_, ids := ?_, pos := fun g hg => ?_,
           proper := fun g hg => ?_, apart := fun g hg k hk' hne hch hgl hkl => ?_ }
  · rcases List.mem_append.1 hg with hg | hg
    · exact hres.owned g (hkept g hg).1
    · rw [List.mem_singleton.1 hg]
      rcases hr.answer with ⟨-, rfl⟩ | ⟨-, hl⟩
      · omega
      · obtain ⟨c, hc, -, hcid⟩ := channelLookup_eq_some hl
        exact ⟨c, hc, hcid.trans hspans.channelId.symm⟩
  · rw [List.map_append, List.nodup_append]
    refine ⟨?_, by simp, fun a ha b hb => ?_⟩
    · rw [← hk]
      exact (List.filter_sublist.map _).nodup h.ids
    · rw [List.mem_singleton.1 hb]
      exact (lt_nextId ha).ne
  · rcases List.mem_append.1 hg with hg | hg
    · exact h.pos g (hkept g hg).1
    · rw [List.mem_singleton.1 hg]
      refine nextId_pos fun x hx => ?_
      obtain ⟨k, hk, rfl⟩ := List.mem_map.1 hx
      exact h.pos k (hkept k hk).1
  · rcases List.mem_append.1 hg with hg | hg
    · exact h.proper g (hkept g hg).1
    · have := hspans.start_le
      have := hspans.le_end
      rw [List.mem_singleton.1 hg]
      dsimp only at *
      omega
  · rcases List.mem_append.1 hg with hg | hg <;> rcases List.mem_append.1 hk' with hk' | hk'
    · exact h.apart g (hkept g hg).1 k (hkept k hk').1 hne hch hgl hkl
    · rw [List.mem_singleton.1 hk'] at hch ⊢
      exact hnew g hg (hch.trans hspans.channelId) hgl
    · rw [List.mem_singleton.1 hg] at hch ⊢
      exact (hnew k hk' (hch.symm.trans hspans.channelId) hkl).symm
    · rw [List.mem_singleton.1 hg, List.mem_singleton.1 hk'] at hne
      exact absurd rfl hne

end Record

/-! ## Narrowing and deleting -/

section Narrow

variable {s : Sb}

/-- Gaps that shrink, die or disappear stay apart. -/
theorem LedgerSound.narrow (h : LedgerSound s) {gaps : List Gap} (hids : (gaps.map (·.id)).Nodup)
    (hfrom : ∀ g' ∈ gaps, ∃ g ∈ s.gaps, g'.id = g.id ∧ g'.channelId = g.channelId ∧
      g.startTs ≤ g'.startTs ∧ g'.startTs < g'.endTs ∧ g'.endTs ≤ g.endTs ∧ (g'.Live → g.Live)) :
    LedgerSound { s with gaps := gaps } := by
  refine { h with owned := fun g' hg' => ?_, ids := hids, pos := fun g' hg' => ?_,
                  proper := fun g' hg' => ?_, apart := fun g' hg' k' hk' hne hch hgl hkl => ?_ }
  · obtain ⟨g, hg, -, hch, -⟩ := hfrom g' hg'
    rw [hch]
    exact h.owned g hg
  · obtain ⟨g, hg, hid, -⟩ := hfrom g' hg'
    rw [hid]
    exact h.pos g hg
  · obtain ⟨g, hg, -, -, -, hlt, -⟩ := hfrom g' hg'
    exact hlt
  · obtain ⟨g, hg, hid, hgch, hgs, hglt, hge, hgl'⟩ := hfrom g' hg'
    obtain ⟨k, hk, kid, hkch, hks, hklt, hke, hkl'⟩ := hfrom k' hk'
    have hapart := h.apart g hg k hk (by omega) (by omega) (hgl' hgl) (hkl' hkl)
    unfold Gap.Apart at hapart ⊢
    omega

theorem LedgerSound.filter (h : LedgerSound s) (p : Gap → Bool) :
    LedgerSound { s with gaps := s.gaps.filter p } := by
  refine h.narrow ((List.filter_sublist.map _).nodup h.ids) fun g hg => ?_
  have hg := List.mem_of_mem_filter hg
  exact ⟨g, hg, rfl, rfl, le_rfl, h.proper g hg, le_rfl, id⟩

theorem updateGap_ids {gaps : List Gap} {gapId : Int} {f : Gap → Gap} (hf : ∀ g, (f g).id = g.id) :
    (updateGap gaps gapId f).map (·.id) = gaps.map (·.id) := by
  unfold updateGap
  rw [List.map_map]
  refine List.map_congr_left fun g _ => ?_
  dsimp only [Function.comp]
  split
  · exact hf g
  · rfl

/-- The row is the same span of the same channel. -/
def Gap.SameSpan (g g' : Gap) : Prop :=
  g'.id = g.id ∧ g'.channelId = g.channelId ∧ g'.startTs = g.startTs ∧ g'.endTs = g.endTs

/-- An update that moves no bound and revives nothing. -/
theorem LedgerSound.update (h : LedgerSound s) (gapId : Int) {f : Gap → Gap}
    (hf : ∀ g, g.SameSpan (f g) ∧ ((f g).Live → g.Live)) :
    LedgerSound { s with gaps := updateGap s.gaps gapId f } := by
  refine h.narrow (by rw [updateGap_ids fun g => (hf g).1.1]; exact h.ids) fun g' hg' => ?_
  obtain ⟨g, hg, rfl⟩ := List.mem_map.1 hg'
  have hlt := h.proper g hg
  refine ⟨g, hg, ?_⟩
  split
  · obtain ⟨⟨hid, hch, hs, he⟩, hl⟩ := hf g
    exact ⟨hid, hch, hs.ge, by omega, he.le, hl⟩
  · exact ⟨rfl, rfl, le_rfl, hlt, le_rfl, id⟩

theorem scrollbackGapShrink_sound (h : LedgerSound s) {gapId newStartTs newEndTs : Int}
    (newStartMsgid newEndMsgid : Option String)
    (hn : ∀ g ∈ s.gaps, g.id = gapId → (newStartTs ≤ 0 ∨ g.startTs ≤ newStartTs) ∧
      (newEndTs ≤ 0 ∨ newEndTs ≤ g.endTs)) :
    LedgerSound (scrollbackGapShrink s gapId newStartTs newStartMsgid newEndTs newEndMsgid) := by
  unfold scrollbackGapShrink
  split
  · exact h
  refine h.narrow ((List.filter_sublist.map _).nodup ?_) fun g' hg' => ?_
  · have hids := @updateGap_ids s.gaps gapId
      (fun g => g.shrink newStartTs newStartMsgid newEndTs newEndMsgid) fun _ => rfl
    rw [hids]
    exact h.ids
  · obtain ⟨hg', hkept⟩ := List.mem_filter.1 hg'
    obtain ⟨g, hg, rfl⟩ := List.mem_map.1 hg'
    refine ⟨g, hg, ?_⟩
    by_cases hid : g.id = gapId
    · obtain ⟨hns, hne⟩ := hn g hg hid
      rw [if_pos hid] at hkept ⊢
      have hlt : ¬ (g.shrink newStartTs newStartMsgid newEndTs newEndMsgid).endTs ≤
          (g.shrink newStartTs newStartMsgid newEndTs newEndMsgid).startTs := fun hle =>
        of_decide_eq_true hkept ⟨hid, hle⟩
      refine ⟨rfl, rfl, ?_, not_le.1 hlt, ?_, fun hl => hl⟩
      · dsimp only [Gap.shrink]
        split <;> omega
      · dsimp only [Gap.shrink]
        split <;> omega
    · rw [if_neg hid]
      exact ⟨rfl, rfl, le_rfl, h.proper g hg, le_rfl, fun hl => hl⟩

end Narrow

/-! ## Reviving -/

section Revive

/-- The gaps a call makes live whatever they were. -/
def Revives (s : Sb) : LedgerOp → Gap → Prop
  | .setState gapId state, g => g.id = gapId ∧ state ≠ .dead
  | .reset channel gapId, g => channelLookup s.channels channel = some g.channelId ∧ (gapId ≤ 0 ∨ g.id = gapId)
  | _, _ => False

instance decidableRevives (s : Sb) (g : Gap) : ∀ op, Decidable (Revives s op g)
  | .setState gapId state => inferInstanceAs (Decidable (g.id = gapId ∧ state ≠ .dead))
  | .reset channel gapId => inferInstanceAs (Decidable
      (channelLookup s.channels channel = some g.channelId ∧ (gapId ≤ 0 ∨ g.id = gapId)))
  | .record .. | .shrink .. | .touch .. | .delete .. | .dropMsgids .. | .deleteCandidates ..
  | .bootstrapReset .. | .bootstrap .. | .store .. => .isFalse id

/-- No dead gap the call revives overlaps or touches another gap of its channel that is live or
revived with it. -/
def Clear (s : Sb) (op : LedgerOp) : Prop :=
  ∀ g ∈ s.gaps, ¬ g.Live → Revives s op g → ∀ h ∈ s.gaps, h.id ≠ g.id → h.channelId = g.channelId →
    h.Live ∨ Revives s op h → g.Apart h

instance (s : Sb) (op : LedgerOp) : Decidable (Clear s op) :=
  inferInstanceAs (Decidable (∀ g ∈ s.gaps, ¬ g.Live → Revives s op g → ∀ h ∈ s.gaps, h.id ≠ g.id →
    h.channelId = g.channelId → h.Live ∨ Revives s op h → g.Apart h))

variable {s : Sb}

/-- Reviving keeps the live gaps disjoint exactly when it is clear, and then the ledger is sound. -/
theorem LedgerSound.revive (hs : LedgerSound s) {f : Gap → Gap} {r : Gap → Prop}
    (hf : ∀ g ∈ s.gaps, g.SameSpan (f g) ∧ ((f g).Live ↔ g.Live ∨ r g)) :
    LiveDisjoint (s.gaps.map f) ↔
      ∀ g ∈ s.gaps, ¬ g.Live → r g → ∀ h ∈ s.gaps, h.id ≠ g.id → h.channelId = g.channelId →
        h.Live ∨ r h → g.Apart h := by
  constructor
  · rintro ⟨-, hapart⟩ g hg - hr h hh hne hch hl
    obtain ⟨⟨gid, gch, gs, ge⟩, gl⟩ := hf g hg
    obtain ⟨⟨hid, hch', hs', he⟩, hl'⟩ := hf h hh
    have := hapart (f g) (List.mem_map_of_mem hg) (f h) (List.mem_map_of_mem hh) (by omega) (by omega)
      (gl.2 (.inr hr)) (hl'.2 hl)
    unfold Gap.Apart at this ⊢
    omega
  · intro hclear
    refine ⟨fun g' hg' _ => ?_, fun g' hg' h' hh' hne hch hgl hhl => ?_⟩
    · obtain ⟨g, hg, rfl⟩ := List.mem_map.1 hg'
      obtain ⟨⟨-, -, gs, ge⟩, -⟩ := hf g hg
      have := hs.proper g hg
      omega
    · obtain ⟨g, hg, rfl⟩ := List.mem_map.1 hg'
      obtain ⟨h, hh, rfl⟩ := List.mem_map.1 hh'
      obtain ⟨⟨gid, gch, gs, ge⟩, gl⟩ := hf g hg
      obtain ⟨⟨hid, hch', hs', he⟩, hl'⟩ := hf h hh
      have hapart : g.Apart h := by
        by_cases hg1 : g.Live
        · by_cases hh1 : h.Live
          · exact hs.apart g hg h hh (by omega) (by omega) hg1 hh1
          · exact (hclear h hh hh1 ((hl'.1 hhl).resolve_left hh1) g hg (by omega) (by omega) (.inl hg1)).symm
        · exact hclear g hg hg1 ((gl.1 hgl).resolve_left hg1) h hh (by omega) (by omega) (hl'.1 hhl)
      unfold Gap.Apart at hapart ⊢
      omega

/-- An update of the rows `p` that leaves them live. -/
theorem revived_spec {gaps : List Gap} {p r : Gap → Prop} [DecidablePred p] {k : Gap → Gap}
    (hk : ∀ g, g.SameSpan (k g) ∧ (k g).Live) (hp : ∀ g ∈ gaps, p g ↔ r g) : ∀ g ∈ gaps,
    g.SameSpan (if p g then k g else g) ∧ ((if p g then k g else g).Live ↔ g.Live ∨ r g) := by
  intro g hg
  by_cases h : p g
  · rw [if_pos h]
    exact ⟨(hk g).1, fun _ => .inr ((hp g hg).1 h), fun _ => (hk g).2⟩
  · rw [if_neg h]
    exact ⟨⟨rfl, rfl, rfl, rfl⟩, .inl, fun hl => hl.resolve_right fun hr => h ((hp g hg).2 hr)⟩

theorem LedgerSound.of_disjoint (hs : LedgerSound s) {f : Gap → Gap}
    (hf : ∀ g ∈ s.gaps, g.SameSpan (f g)) (hd : LiveDisjoint (s.gaps.map f)) :
    LedgerSound { s with gaps := s.gaps.map f } := by
  refine { hs with owned := fun g' hg' => ?_, ids := ?_, pos := fun g' hg' => ?_,
                   proper := fun g' hg' => ?_, apart := hd.2 }
  · obtain ⟨g, hg, rfl⟩ := List.mem_map.1 hg'
    rw [(hf g hg).2.1]
    exact hs.owned g hg
  · have hids : (s.gaps.map f).map (·.id) = s.gaps.map (·.id) := by
      rw [List.map_map]
      exact List.map_congr_left fun g hg => (hf g hg).1
    rw [hids]
    exact hs.ids
  · obtain ⟨g, hg, rfl⟩ := List.mem_map.1 hg'
    rw [(hf g hg).1]
    exact hs.pos g hg
  · obtain ⟨g, hg, rfl⟩ := List.mem_map.1 hg'
    obtain ⟨-, -, hstart, hend⟩ := hf g hg
    rw [hstart, hend]
    exact hs.proper g hg

/-- A gap belongs to the resolved channel exactly when its name was already known under that id. -/
theorem Resolves.owns {channel : String} {id : Int} {channels : List Chan} {cache : Table String Int}
    (hs : LedgerSound s) (hr : Resolves s.messages s.channels channel id channels cache) (hid : 0 < id)
    {g : Gap} (hg : g ∈ s.gaps) :
    g.channelId = id ↔ channelLookup s.channels channel = some g.channelId := by
  have hl : channelLookup channels channel = some id := by
    rcases hr.answer with ⟨-, rfl⟩ | ⟨-, hl⟩
    · omega
    · exact hl
  have hsane := hr.sane
  rcases hr.grown with he | ⟨d, he, hname, -⟩
  · rw [he] at hl
    rw [hl, Option.some.injEq, eq_comm]
  · rw [he, channelLookup_append, if_pos hname] at hl
    cases hold : channelLookup s.channels channel with
    | some x =>
      rw [hold, Option.some_or, Option.some.injEq] at hl
      rw [hl, Option.some.injEq, eq_comm]
    | none =>
      rw [hold, Option.none_or, Option.some.injEq] at hl
      refine ⟨fun hgid => ?_, fun h => by cases h⟩
      obtain ⟨c, hc, hcid⟩ := hs.owned g hg
      have hnodup := hsane.chanIds
      rw [he, List.map_append, List.nodup_append] at hnodup
      exact absurd (by omega) (hnodup.2.2 c.id (List.mem_map_of_mem hc) d.id (by simp))

end Revive

/-! ## Calls -/

section Calls

variable {s : Sb}

/-- Shrinking only narrows the gap it is given. -/
def Narrows (s : Sb) : LedgerOp → Prop
  | .shrink gapId newStartTs _ newEndTs _ => ∀ g ∈ s.gaps, g.id = gapId →
    (newStartTs ≤ 0 ∨ g.startTs ≤ newStartTs) ∧ (newEndTs ≤ 0 ∨ newEndTs ≤ g.endTs)
  | _ => True

instance decidableNarrows (s : Sb) : ∀ op, Decidable (Narrows s op)
  | .shrink gapId newStartTs _ newEndTs _ => inferInstanceAs (Decidable (∀ g ∈ s.gaps, g.id = gapId →
      (newStartTs ≤ 0 ∨ g.startTs ≤ newStartTs) ∧ (newEndTs ≤ 0 ∨ newEndTs ≤ g.endTs)))
  | .record .. | .setState .. | .reset .. | .touch .. | .delete .. | .dropMsgids .. | .deleteCandidates ..
  | .bootstrapReset .. | .bootstrap .. | .store .. => .isTrue trivial

theorem LedgerSound.bootstrapDone (h : LedgerSound s) (channelId : Int) (done : Bool) :
    LedgerSound { s with channels := setGapBootstrapDone s.channels channelId done } := by
  have hf : ∀ c : Chan, (if c.id = channelId then { c with gapBootstrapDone := done } else c).id = c.id ∧
      (if c.id = channelId then { c with gapBootstrapDone := done } else c).name = c.name := by
    intro c
    split <;> exact ⟨rfl, rfl⟩
  refine { h with sane := h.sane.mapChannels hf, owned := fun g hg => ?_ }
  obtain ⟨c, hc, he⟩ := h.owned g hg
  exact ⟨_, List.mem_map_of_mem hc, (hf c).1.trans he⟩

/-- The bootstrap scan records one candidate after another. -/
theorem bootstrapLoop_sound (channel : String) (thresholdSecs : Int) (rows : List Msg) :
    ∀ {s : Sb} (prevTs : Int) (prevMsgid : Option String) (recorded : Int), LedgerSound s →
      LedgerSound (bootstrapLoop channel thresholdSecs s rows prevTs prevMsgid recorded).2 := by
  induction rows with
  | nil => exact fun _ _ _ h => h
  | cons m rows ih =>
    intro s prevTs prevMsgid recorded h
    unfold bootstrapLoop
    dsimp only
    split
    · exact ih _ _ _ (scrollbackGapRecord_sound h _ _ _ _ _ _)
    · exact ih _ _ _ h

theorem scrollbackGapBootstrap_sound (h : LedgerSound s) (channel : String) (thresholdSecs : Int) :
    LedgerSound (scrollbackGapBootstrap s channel thresholdSecs).2 := by
  unfold scrollbackGapBootstrap
  split
  · exact h
  obtain ⟨id, channels, cache, he, hr⟩ := scrollbackGetChannelId_resolves h.sane channel
  have hres := h.resolved hr
  simp only [he]
  split
  · exact hres
  split
  · exact hres
  · exact (bootstrapLoop_sound channel thresholdSecs _ _ _ _ hres).bootstrapDone id true

/-- A call meets its specification: it keeps the live gaps disjoint exactly when it is clear, and
then the ledger stays sound. -/
def MeetsLedger (s : Sb) (op : LedgerOp) : Prop :=
  (LiveDisjoint (ledgerStep s op).gaps ↔ Clear s op) ∧ (Clear s op → LedgerSound (ledgerStep s op))

/-- A call that revives nothing. -/
theorem meetsLedger_of_sound {op : LedgerOp} (hr : ∀ g ∈ s.gaps, ¬ Revives s op g)
    (h : LedgerSound (ledgerStep s op)) : MeetsLedger s op :=
  ⟨⟨fun _ g hg _ hrev => absurd hrev (hr g hg), fun _ => h.disjoint⟩, fun _ => h⟩

theorem setState_meetsLedger (h : LedgerSound s) (gapId : Int) (state : GapState) :
    MeetsLedger s (.setState gapId state) := by
  by_cases hdead : state = .dead
  · refine meetsLedger_of_sound (fun g _ hg => hg.2 hdead) ?_
    simp only [ledgerStep, scrollbackGapSetState]
    split
    · exact h
    · exact h.update gapId fun g => ⟨⟨rfl, rfl, rfl, rfl⟩, fun hl => absurd hdead hl⟩
  by_cases hid : gapId ≤ 0
  · refine meetsLedger_of_sound (fun g hg hr => ?_) ?_
    · have := h.pos g hg
      have := hr.1
      omega
    · simp only [ledgerStep, scrollbackGapSetState, if_pos hid]
      exact h
  have hf := @revived_spec s.gaps (fun g => g.id = gapId) (Revives s (.setState gapId state)) _
    (fun g => { g with state := state }) (fun g => ⟨⟨rfl, rfl, rfl, rfl⟩, hdead⟩)
    fun g _ => ⟨fun hg => ⟨hg, hdead⟩, fun hr => hr.1⟩
  have hiff := h.revive hf
  simp only [MeetsLedger, ledgerStep, scrollbackGapSetState, if_neg hid, updateGap]
  exact ⟨hiff, fun hc => h.of_disjoint (fun g hg => (hf g hg).1) (hiff.2 hc)⟩

theorem reset_meetsLedger (h : LedgerSound s) (channel : String) (gapId : Int) :
    MeetsLedger s (.reset channel gapId) := by
  obtain ⟨id, channels, cache, he, hr⟩ := scrollbackGetChannelId_resolves h.sane channel
  have hres := h.resolved hr
  by_cases hid : id ≤ 0
  · refine meetsLedger_of_sound (fun g _ hrev => ?_) ?_
    · -- only the empty name resolves to no id, and no channel has it
      rcases hr.answer with ⟨rfl, -⟩ | ⟨hpos, -⟩
      · obtain ⟨c, hc, hn, -⟩ := channelLookup_eq_some hrev.1
        exact h.sane.named c hc hn
      · omega
    · simp only [ledgerStep, scrollbackGapReset, he, if_pos hid]
      exact hres
  have hsel : ∀ g ∈ s.gaps, g.resets id gapId = true ↔ Revives s (.reset channel gapId) g := by
    intro g hg
    rw [Gap.resets, decide_eq_true_eq, hr.owns h (by omega) hg]
    rfl
  have hf := revived_spec (fun g => ⟨⟨rfl, rfl, rfl, rfl⟩, fun hd => by cases hd⟩ : ∀ g : Gap,
    g.SameSpan g.reset ∧ g.reset.Live) hsel
  have hiff := h.revive hf
  simp only [MeetsLedger, ledgerStep, scrollbackGapReset, he, if_neg hid]
  exact ⟨hiff, fun hc => hres.of_disjoint (fun g hg => (hf g hg).1) (hiff.2 hc)⟩

/-- **One call.** -/
theorem meetsLedger (h : LedgerSound s) {op : LedgerOp} (hn : Narrows s op) : MeetsLedger s op := by
  cases op with
  | setState gapId state => exact setState_meetsLedger h gapId state
  | reset channel gapId => exact reset_meetsLedger h channel gapId
  | record => exact meetsLedger_of_sound (fun _ _ => id) (scrollbackGapRecord_sound h _ _ _ _ _ _)
  | shrink => exact meetsLedger_of_sound (fun _ _ => id) (scrollbackGapShrink_sound h _ _ hn)
  | touch gapId =>
    refine meetsLedger_of_sound (fun _ _ => id) ?_
    simp only [ledgerStep, scrollbackGapTouch]
    split
    · exact h
    · exact h.update gapId fun g => ⟨⟨rfl, rfl, rfl, rfl⟩, fun hl => hl⟩
  | delete =>
    refine meetsLedger_of_sound (fun _ _ => id) ?_
    simp only [ledgerStep, scrollbackGapDelete]
    split
    · exact h
    · exact h.filter _
  | dropMsgids gapId =>
    refine meetsLedger_of_sound (fun _ _ => id) ?_
    simp only [ledgerStep, scrollbackGapDropMsgids]
    split
    · exact h
    · refine h.update gapId fun g => ?_
      split <;> exact ⟨⟨rfl, rfl, rfl, rfl⟩, fun hl => hl⟩
  | deleteCandidates channel =>
    refine meetsLedger_of_sound (fun _ _ => id) ?_
    obtain ⟨id, channels, cache, he, hr⟩ := scrollbackGetChannelId_resolves h.sane channel
    simp only [ledgerStep, scrollbackGapDeleteCandidates, he]
    split
    · exact h.resolved hr
    · exact (h.resolved hr).filter _
  | bootstrapReset channel =>
    refine meetsLedger_of_sound (fun _ _ => id) ?_
    obtain ⟨id, channels, cache, he, hr⟩ := scrollbackGetChannelId_resolves h.sane channel
    simp only [ledgerStep, scrollbackGapBootstrapReset, he]
    split
    · exact h.resolved hr
    · exact (h.resolved hr).bootstrapDone id false
  | bootstrap => exact meetsLedger_of_sound (fun _ _ => id) (scrollbackGapBootstrap_sound h _ _)
  | store op =>
    refine meetsLedger_of_sound (fun _ _ => id) ?_
    obtain ⟨hsane, hgaps, hch, -⟩ := step_keeps h.sane op
    refine ⟨hsane, fun g hg => ?_, ?_, ?_, ?_, ?_⟩ <;> simp only [ledgerStep, hgaps] at *
    · obtain ⟨c, hc, hcid⟩ := h.owned g hg
      obtain ⟨c', hc', hid⟩ := hch c hc
      exact ⟨c', hc', hid.trans hcid⟩
    · exact h.ids
    · exact h.pos
    · exact h.proper
    · exact h.apart

end Calls

/-! ## Runs -/

/-- An empty ledger over a sane store. -/
theorem ledgerSound_empty {s : Sb} (hs : s.Sane) (hg : s.gaps = []) : LedgerSound s := by
  constructor <;> simp [hg, hs]

/-- **Gap-ledger disjointness**: from an empty ledger, the live gaps are disjoint in every state of a
run exactly when every call of it is clear. -/
theorem live_gaps_disjoint_iff {s : Sb} (hs : s.Sane) (hg : s.gaps = []) {ops : List LedgerOp}
    (hn : Along ledgerStep Narrows s ops) :
    (∀ pre, pre <+: ops → LiveDisjoint (ledgerRun s pre).gaps) ↔ Along ledgerStep Clear s ops :=
  Along.iff_prefixes (I := LedgerSound) (P := fun s => LiveDisjoint s.gaps) (fun _ h => h.disjoint)
    (fun _ _ h hn => (meetsLedger h hn).1) (fun _ _ h hn => (meetsLedger h hn).2)
    (ledgerSound_empty hs hg) hn

/-- A dead gap, a live one recorded over it, and a shrink. -/
def recordOverDead : List LedgerOp :=
  [.record "#c" 10 none 20 none .witnessed, .setState 1 .dead, .record "#c" 15 none 25 none .candidate,
    .shrink 2 18 none 0 none]

theorem live_gaps_disjoint_over_dead :
    Along ledgerStep Clear (Sb.fresh true) recordOverDead ∧
    ∀ pre, pre <+: recordOverDead → LiveDisjoint (ledgerRun (Sb.fresh true) pre).gaps :=
  ⟨by decide, (live_gaps_disjoint_iff (fresh_sane true) rfl (by decide)).2 (by decide)⟩

/-- Resetting the channel's gaps then revives the dead one inside the live one. -/
theorem reset_revives_overlapping :
    Along ledgerStep Narrows (Sb.fresh true) (recordOverDead ++ [.reset "#c" 0]) ∧
    ¬ LiveDisjoint (ledgerRun (Sb.fresh true) (recordOverDead ++ [.reset "#c" 0])).gaps := by
  decide

end PoxChat.Scrollback
