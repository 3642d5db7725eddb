import PoxChat.Scrollback.Tables

/-!
# Ordinal queries are exact

A channel's cache entry is exact for its ordered rows when the count is their number, no row is newer
than `max_ts`, and every anchor names the row at its ordinal (`ChanCache.Exact`).

* `rangeRows_eq` — the forward, the backward and the plain statement return the same slice.
* `coherent_step` — every call keeps every entry exact, or drops it.
* `ordinal_queries_exact` — after any run, counts, ranges and indices are those of the rows in order.
-/

set_option autoImplicit false

namespace PoxChat.Scrollback

open Lib

/-- The anchor names the row at its ordinal. -/
def Pinned (rows : List Msg) (a : Anchor) : Prop :=
  0 ≤ a.ordinal ∧ ∃ m, rows[a.ordinal.toNat]? = some m ∧ m.timestamp = a.ts ∧ m.id = a.id

structure ChanCache.Exact (c : ChanCache) (rows : List Msg) : Prop where
  unknown : c.count < 0 → c.anchors = []
  count : 0 ≤ c.count → c.count = rows.length
  newest : 0 ≤ c.count → ∀ m ∈ rows, m.timestamp ≤ c.maxTs
  pinned : ∀ a ∈ c.anchors, Pinned rows a

/-- Every entry of the ordinal cache is exact. -/
def Coherent (messages : List Msg) (chanCache : Table Int ChanCache) : Prop :=
  ∀ id c, chanCache.get id = some c → c.Exact (ordered messages id)

abbrev Sb.Coherent (s : Sb) : Prop := Scrollback.Coherent s.messages s.chanCache

/-! ## Anchors -/

section Anchors

variable {rows : List Msg} {c : ChanCache} {ordinal ts id : Int}

theorem mem_insertIdx_cases {l : List Anchor} {i : Nat} {a b : Anchor} (h : a ∈ l.insertIdx i b) :
    a ∈ l ∨ a = b := by
  rcases Nat.lt_or_ge l.length i with hi | hi
  · rw [List.insertIdx_of_length_lt hi] at h
    exact .inl h
  · exact ((List.mem_insertIdx hi).1 h).symm

/-- Adding an anchor adds at most that anchor, and keeps the count. -/
theorem chanCacheAddAnchor_cases : ∃ anchors, chanCacheAddAnchor c ordinal ts id = { c with anchors := anchors } ∧
    (c.count < 0 → anchors = c.anchors) ∧
    (∀ a ∈ anchors, a ∈ c.anchors ∨ 0 ≤ ordinal ∧ a = ⟨ordinal, ts, id⟩) := by
  unfold chanCacheAddAnchor
  split
  · exact ⟨c.anchors, rfl, fun _ => rfl, fun a ha => .inl ha⟩
  rename_i hneg
  split
  · refine ⟨_, rfl, fun h => absurd (.inl h) hneg, fun a ha => ?_⟩
    exact (List.mem_or_eq_of_mem_set ha).imp_right fun h => ⟨by omega, h⟩
  · split
    · refine ⟨_, rfl, fun h => absurd (.inl h) hneg, fun a ha => ?_⟩
      rcases mem_insertIdx_cases ha with ha | ha
      · exact .inl (List.mem_of_mem_eraseIdx ha)
      · exact .inr ⟨by omega, ha⟩
    · refine ⟨_, rfl, fun h => absurd (.inl h) hneg, fun a ha => ?_⟩
      exact (mem_insertIdx_cases ha).imp_right fun h => ⟨by omega, h⟩

theorem ChanCache.Exact.addAnchor (h : c.Exact rows)
    (hp : 0 ≤ ordinal → Pinned rows ⟨ordinal, ts, id⟩) :
    (chanCacheAddAnchor c ordinal ts id).Exact rows := by
  obtain ⟨anchors, he, hneg, hmem⟩ := @chanCacheAddAnchor_cases c ordinal ts id
  rw [he]
  refine ⟨fun hc => ?_, h.count, h.newest, fun a ha => ?_⟩
  · exact (hneg hc).trans (h.unknown hc)
  · rcases hmem a ha with ha | ⟨h0, rfl⟩
    · exact h.pinned a ha
    · exact hp h0

theorem pinned_of_getElem? {k : Nat} {m : Msg} (hm : rows[k]? = some m) (hk : ordinal = k) :
    Pinned rows ⟨ordinal, m.timestamp, m.id⟩ :=
  ⟨by simp [hk], m, by simpa [hk] using hm, rfl, rfl⟩

/-- The anchors a range query seeks from. -/
theorem findAnchors_spec {ordinal last : Int} {P : Anchor → Prop} {anchors : List Anchor}
    {before b' a' : Option Anchor} (hb : ∀ b ∈ before, P b ∧ b.ordinal ≤ ordinal) (ha : ∀ a ∈ anchors, P a)
    (h : findAnchors ordinal last anchors before = (b', a')) :
    (∀ b ∈ b', P b ∧ b.ordinal ≤ ordinal) ∧ (∀ a ∈ a', P a ∧ last ≤ a.ordinal) := by
  induction anchors generalizing before with
  | nil =>
    cases h
    exact ⟨hb, by simp⟩
  | cons e es ih =>
    have he := ha e (by simp)
    have hbefore : ∀ b ∈ (if e.ordinal ≤ ordinal then some e else before), P b ∧ b.ordinal ≤ ordinal := by
      split
      · rename_i hle
        intro b hbe
        cases hbe
        exact ⟨he, hle⟩
      · exact hb
    simp only [findAnchors] at h
    split at h
    · rename_i hlast
      cases h
      refine ⟨hbefore, fun a hae => ?_⟩
      cases hae
      exact ⟨he, hlast⟩
    · exact ih hbefore (fun a hae => ha a (by simp [hae])) h

end Anchors

/-! ## Ranges -/

section Ranges

variable {rows : List Msg} {channelId offset last : Int}

/-- The chosen statement seeks from an anchor on its side of the range. -/
def Path.Seeks (ordered : List Msg) (offset last : Int) : Path → Prop
  | .plain => True
  | .fwd b => Pinned ordered b ∧ b.ordinal ≤ offset
  | .bwd a => Pinned ordered a ∧ last ≤ a.ordinal
  | .nullDeref => False

theorem choosePath_seeks {list : List Msg} {before after : Option Anchor}
    (hb : ∀ b ∈ before, Pinned list b ∧ b.ordinal ≤ offset)
    (ha : ∀ a ∈ after, Pinned list a ∧ last ≤ a.ordinal) (ho : offset < G_MAXINT) :
    (choosePath before after offset last).Seeks list offset last := by
  unfold choosePath
  dsimp only
  split
  · rename_i hcost
    cases before with
    | some b => exact hb b rfl
    | none => simp only [Option.map_none, Option.getD_none] at hcost; omega
  · split
    · rename_i hcost
      cases after with
      | some a => exact ha a rfl
      | none => simp only [Option.map_none, Option.getD_none] at hcost; omega
    · trivial

theorem atOrAfter_eq {a : Anchor} {r : Msg} (hts : r.timestamp = a.ts) (hid : r.id = a.id) (m : Msg) :
    atOrAfter a m = true ↔ r.key ≤ m.key := by
  rw [Msg.key_le, hts, hid, eq_comm (a := a.ts)]
  simp [atOrAfter]

theorem atOrBefore_eq {a : Anchor} {r : Msg} (hts : r.timestamp = a.ts) (hid : r.id = a.id) (m : Msg) :
    atOrBefore a m = true ↔ m.key ≤ r.key := by
  rw [Msg.key_le, hts, hid]
  simp [atOrBefore]

/-- The rows from an anchor on are the list from its ordinal on. -/
theorem filter_atOrAfter {list : List Msg} (h : Ranked Msg.key list) {a : Anchor} (ha : Pinned list a) :
    list.filter (atOrAfter a) = list.drop a.ordinal.toNat := by
  obtain ⟨-, r, hr, hts, hid⟩ := ha
  rw [filter_eq_slice (m := a.ordinal.toNat) (n := list.length), List.take_length]
  intro i m hm
  rw [atOrAfter_eq hts hid, h.le_iff hr hm]
  have := (List.getElem?_eq_some_iff.1 hm).1
  omega

/-- The rows up to an anchor are the list up to its ordinal. -/
theorem filter_atOrBefore {list : List Msg} (h : Ranked Msg.key list) {a : Anchor} (ha : Pinned list a) :
    list.filter (atOrBefore a) = list.take (a.ordinal.toNat + 1) := by
  obtain ⟨-, r, hr, hts, hid⟩ := ha
  rw [filter_eq_slice (m := 0) (n := a.ordinal.toNat + 1), List.drop_zero]
  intro i m hm
  rw [atOrBefore_eq hts hid, h.le_iff hm hr]
  omega

/-- **Every path returns the same slice.** -/
theorem rangeRows_eq (hids : (rows.map (·.id)).Nodup) {path : Path}
    (hp : path.Seeks (ordered rows channelId) offset last) (h0 : 0 ≤ offset) (hol : offset ≤ last) :
    rangeRows rows channelId offset last (last - offset + 1) path =
      ((ordered rows channelId).drop offset.toNat).take (last - offset + 1).toNat := by
  have hranked : Ranked Msg.key (ordered rows channelId) := selectAsc_ranked hids _
  cases path with
  | plain => rfl
  | fwd b =>
    obtain ⟨hb, hle⟩ := hp
    have hord := hb.1
    simp only [rangeRows, limitOffset]
    rw [selectAsc_and hids, filter_atOrAfter hranked hb, List.drop_drop]
    congr 2
    omega
  | bwd a =>
    obtain ⟨ha, hle⟩ := hp
    have hord := ha.1
    obtain ⟨m, hm, -⟩ := ha.2
    have hlt := (List.getElem?_eq_some_iff.1 hm).1
    have hlen : ((ordered rows channelId).take (a.ordinal.toNat + 1)).length = a.ordinal.toNat + 1 := by
      rw [List.length_take]
      omega
    simp only [rangeRows, limitOffset]
    rw [selectDesc_eq_reverse hids, selectAsc_and hids, filter_atOrBefore hranked ha,
      List.drop_reverse, List.take_reverse, List.reverse_reverse, List.length_take, List.take_take,
      List.drop_take, hlen]
    congr 2 <;> omega
  | nullDeref => exact hp.elim

/-- Both edges of a slice are planted where they are. -/
theorem plantEdges_exact {list slice : List Msg} {c : ChanCache} (hc : c.Exact list) (path : Path)
    (h0 : 0 ≤ offset) (hol : offset ≤ last) (hlast : last < list.length)
    (hs : slice = (list.drop offset.toNat).take (last - offset + 1).toNat) :
    (plantEdges c path offset last slice).Exact list := by
  have hlen : slice.length = (last - offset + 1).toNat := by
    rw [hs, List.length_take, List.length_drop]
    omega
  have hget : ∀ i m, slice[i]? = some m → list[offset.toNat + i]? = some m := by
    intro i m hm
    have hi : i < (last - offset + 1).toNat := by
      have := (List.getElem?_eq_some_iff.1 hm).1
      omega
    rwa [hs, List.getElem?_take_of_lt hi, List.getElem?_drop] at hm
  unfold plantEdges
  split
  · rename_i first final hfirst hfinal
    rw [List.head?_eq_getElem?] at hfirst
    rw [List.getLast?_eq_getElem?] at hfinal
    have hord : (if path.backward then last - slice.length + 1 else offset) = offset := by
      split <;> omega
    simp only [hord]
    refine (hc.addAnchor fun _ => ?_).addAnchor fun _ => ?_
    · exact pinned_of_getElem? (hget _ _ hfirst) (by omega)
    · exact pinned_of_getElem? (hget _ _ hfinal) (by omega)
  · exact hc

end Ranges

/-! ## Positions -/

section Positions

variable {rows : List Msg} {channelId : Int}

/-- The rows in the span `(lo, hi]` are the ordinals between. -/
theorem countSpan_eq (hids : (rows.map (·.id)).Nodup) {lo hi : Anchor}
    (hlo : Pinned (ordered rows channelId) lo) (hhi : Pinned (ordered rows channelId) hi)
    (hle : lo.ordinal ≤ hi.ordinal) :
    countSpan rows channelId lo.ts lo.id hi.ts hi.id = hi.ordinal - lo.ordinal := by
  have hranked : Ranked Msg.key (ordered rows channelId) := selectAsc_ranked hids _
  have hlo0 := hlo.1
  obtain ⟨-, r, hr, hrts, hrid⟩ := hlo
  obtain ⟨-, q, hq, hqts, hqid⟩ := hhi
  have hq' := (List.getElem?_eq_some_iff.1 hq).1
  let p : Msg → Bool := fun m => decide (r.key < m.key ∧ m.key ≤ q.key)
  have hfilter : rows.filter (fun m => m.channelId = channelId ∧
      (lo.ts < m.timestamp ∨ m.timestamp = lo.ts ∧ lo.id < m.id) ∧
      (m.timestamp < hi.ts ∨ m.timestamp = hi.ts ∧ m.id ≤ hi.id)) =
      rows.filter fun m => m.channelId = channelId ∧ p m := by
    refine List.filter_congr fun m _ => ?_
    simp only [p, Msg.key_lt, Msg.key_le, hrts, hrid, hqts, hqid, eq_comm (a := lo.ts), decide_eq_true_eq]
  have hslice : (ordered rows channelId).filter p =
      ((ordered rows channelId).take (hi.ordinal.toNat + 1)).drop (lo.ordinal.toNat + 1) := by
    refine filter_eq_slice fun i m hm => ?_
    simp only [p, decide_eq_true_eq, hranked.lt_iff hr hm, hranked.le_iff hm hq]
    omega
  unfold countSpan
  rw [hfilter, ← (selectAsc_perm rows _).length_eq, selectAsc_and hids, hslice, List.length_drop,
    List.length_take]
  omega

/-- The prefix count of a row is its position. -/
theorem indexOfRowid_eq (hids : (rows.map (·.id)).Nodup) {k : Nat} {r : Msg}
    (hk : (ordered rows channelId)[k]? = some r) (hfind : rows.find? (fun m => m.id = r.id) = some r) :
    indexOfRowid rows channelId r.id = k := by
  have hranked : Ranked Msg.key (ordered rows channelId) := selectAsc_ranked hids _
  have hk' := (List.getElem?_eq_some_iff.1 hk).1
  let p : Msg → Bool := fun m => decide (m.key < r.key)
  have hfilter : rows.filter (fun m => m.channelId = channelId ∧
      (m.timestamp < r.timestamp ∨ m.timestamp = r.timestamp ∧ m.id < r.id)) =
      rows.filter fun m => m.channelId = channelId ∧ p m := by
    refine List.filter_congr fun m _ => ?_
    simp only [p, Msg.key_lt, decide_eq_true_eq]
  have hslice : (ordered rows channelId).filter p = ((ordered rows channelId).take k).drop 0 := by
    refine filter_eq_slice fun i m hm => ?_
    simp only [p, decide_eq_true_eq, hranked.lt_iff hm hk]
    omega
  simp only [indexOfRowid, hfind]
  rw [hfilter, ← (selectAsc_perm rows _).length_eq, selectAsc_and hids, hslice, List.drop_zero,
    List.length_take]
  omega

/-- The anchors a row is counted from: the last at or before it, else the first after it. -/
theorem anchorsAround_spec {ts rowid : Int} {P : Anchor → Prop} {anchors : List Anchor}
    {before b' a' : Option Anchor}
    (hb : ∀ b ∈ before, P b ∧ (b.ts < ts ∨ b.ts = ts ∧ b.id ≤ rowid)) (ha : ∀ a ∈ anchors, P a)
    (h : anchorsAround ts rowid anchors before = (b', a')) :
    (∀ b ∈ b', P b ∧ (b.ts < ts ∨ b.ts = ts ∧ b.id ≤ rowid)) ∧
    (∀ a ∈ a', P a ∧ ¬ (a.ts < ts ∨ a.ts = ts ∧ a.id ≤ rowid)) := by
  induction anchors generalizing before with
  | nil =>
    cases h
    exact ⟨hb, by simp⟩
  | cons e es ih =>
    have he := ha e (by simp)
    unfold anchorsAround at h
    split at h
    · rename_i hle
      refine ih (fun b hbe => ?_) (fun a hae => ha a (by simp [hae])) h
      cases hbe
      exact ⟨he, hle⟩
    · rename_i hgt
      cases h
      refine ⟨hb, fun a hae => ?_⟩
      cases hae
      exact ⟨he, hgt⟩

end Positions

/-! ## The cache -/

section Cache

variable {messages : List Msg} {chanCache : Table Int ChanCache} {id : Int}

theorem Coherent.put (h : Coherent messages chanCache) {c : ChanCache}
    (hc : c.Exact (ordered messages id)) : Coherent messages (chanCache.put id c) := by
  intro id' c' hg
  rw [Table.get_put] at hg
  split at hg
  · rename_i he
    cases hg
    exact he ▸ hc
  · exact h id' c' hg

/-- The entry with its count known. -/
theorem chanCacheEnsureCount_exact {s : Sb} (h : Coherent s.messages s.chanCache) (id : Int) :
    0 ≤ (chanCacheEnsureCount s id).1.count ∧
    (chanCacheEnsureCount s id).1.Exact (ordered s.messages id) ∧
    Coherent s.messages (chanCacheEnsureCount s id).2.chanCache := by
  have hold : (chanCacheGet s id).count < 0 → (chanCacheGet s id).anchors = [] := by
    unfold chanCacheGet
    cases hg : s.chanCache.get id with
    | none => exact fun _ => rfl
    | some c => exact (h id c hg).unknown
  unfold chanCacheEnsureCount
  dsimp only
  split
  · rename_i hcount
    refine ⟨hcount, ?_, h⟩
    unfold chanCacheGet at hcount ⊢
    cases hg : s.chanCache.get id with
    | none => simp [hg, ChanCache.new] at hcount
    | some c => exact h id c hg
  · rename_i hcount
    have hexact : ({ chanCacheGet s id with
        count := (countRows s.messages id).1, maxTs := (countRows s.messages id).2 } : ChanCache).Exact
        (ordered s.messages id) := by
      refine ⟨fun hneg => ?_, fun _ => ?_, fun _ m hm => ?_, fun a ha => ?_⟩
      · exact hold (by omega)
      · simp [countRows, ordered_length]
      · obtain ⟨hm, he⟩ := mem_ordered.1 hm
        refine le_maxOrZero (List.mem_map.2 ⟨m, ?_, rfl⟩)
        simp [hm, he]
      · rw [hold (by omega)] at ha
        cases ha
    refine ⟨?_, hexact, h.put hexact⟩
    simp [countRows]

theorem chanCacheInvalidate_coherent {s : Sb} {messages' : List Msg} (id : Int)
    (h : ∀ id' c, id' ≠ id → s.chanCache.get id' = some c → c.Exact (ordered messages' id')) :
    Coherent messages' (chanCacheInvalidate s id).chanCache := by
  intro id' c hg
  unfold chanCacheInvalidate at hg
  split at hg
  · rename_i hnone
    refine h id' c (fun he => ?_) hg
    rw [he, hnone] at hg
    cases hg
  · simp only [setChanCache, Table.get_put] at hg
    split at hg
    · cases hg
      exact ⟨fun _ => rfl, fun h => by simp at h, fun h => by simp at h, fun a ha => by cases ha⟩
    · rename_i hne
      exact h id' c (Ne.symm hne) hg

end Cache

/-! ## Writes -/

section Writes

variable {s : Sb} {id : Int}

theorem ChanCache.Exact.congr {c : ChanCache} {rows rows' : List Msg} (h : c.Exact rows)
    (hkey : rows'.map (·.key) = rows.map (·.key)) : c.Exact rows' := by
  have hget : ∀ (k : Nat) (m : Msg), rows[k]? = some m →
      ∃ m' : Msg, rows'[k]? = some m' ∧ m'.key = m.key := by
    intro k m hm
    have := congrArg (·[k]?) hkey
    simp only [List.getElem?_map, hm, Option.map_some, Option.map_eq_some_iff] at this
    exact this
  refine ⟨h.unknown, fun h0 => ?_, fun h0 m' hm' => ?_, fun a ha => ?_⟩
  · rw [h.count h0]
    have := congrArg List.length hkey
    simp only [List.length_map] at this
    omega
  · have : m'.key ∈ rows.map (·.key) := hkey ▸ List.mem_map.2 ⟨m', hm', rfl⟩
    obtain ⟨m, hm, he⟩ := List.mem_map.1 this
    have hts : m.timestamp = m'.timestamp := congrArg (fun k => (ofLex k).1) he
    rw [← hts]
    exact h.newest h0 m hm
  · obtain ⟨h0, m, hm, hts, hid⟩ := h.pinned a ha
    obtain ⟨m', hm', he⟩ := hget _ m hm
    have hts' : m'.timestamp = m.timestamp := congrArg (fun k => (ofLex k).1) he
    have hid' : m'.id = m.id := congrArg (fun k => (ofLex k).2) he
    exact ⟨h0, m', hm', hts'.trans hts, hid'.trans hid⟩

/-- A row that is last in the order leaves every ordinal alone. -/
theorem ChanCache.Exact.append {c : ChanCache} {rows : List Msg} {m : Msg} (h : c.Exact rows)
    (h0 : 0 ≤ c.count) (hlast : ∀ r ∈ rows, r.timestamp ≤ m.timestamp) :
    ({ c with count := c.count + 1, maxTs := m.timestamp } : ChanCache).Exact (rows ++ [m]) := by
  refine ⟨fun hneg => ?_, fun _ => ?_, fun _ r hr => ?_, fun a ha => ?_⟩
  · have : c.count + 1 < 0 := hneg
    omega
  · simp [h.count h0]
  · rcases List.mem_append.1 hr with hr | hr
    · exact hlast r hr
    · rw [List.mem_singleton.1 hr]
  · obtain ⟨ha0, r, hr, hk⟩ := h.pinned a ha
    refine ⟨ha0, r, ?_, hk⟩
    rw [List.getElem?_append_left (List.getElem?_eq_some_iff.1 hr).1]
    exact hr

/-- **An insert** bumps the count when the row is last in the order, and else drops the entry. -/
theorem chanCacheNoteInsert_coherent {rows : List Msg} (h : Coherent rows s.chanCache) {m : Msg}
    (hids : ((rows ++ [m]).map (·.id)).Nodup) (hnew : ∀ r ∈ rows, r.id < m.id) :
    Coherent (rows ++ [m]) (chanCacheNoteInsert s m.channelId m.timestamp).chanCache := by
  have hother : ∀ id c, id ≠ m.channelId → s.chanCache.get id = some c →
      c.Exact (ordered (rows ++ [m]) id) := by
    intro id c hne hg
    rw [ordered_append_of_ne (Ne.symm hne)]
    exact h id c hg
  unfold chanCacheNoteInsert
  cases hg : s.chanCache.get m.channelId with
  | none =>
    intro id c hc
    refine hother id c (fun he => ?_) hc
    rw [he, hg] at hc
    cases hc
  | some c =>
    have hc := h m.channelId c hg
    dsimp only
    split
    · rename_i hneg
      intro id c' hc'
      by_cases he : id = m.channelId
      · rw [he, hg] at hc'
        cases hc'
        refine ⟨hc.unknown, fun h0 => by omega, fun h0 => by omega, fun a ha => ?_⟩
        rw [hc.unknown hneg] at ha
        cases ha
      · exact hother id c' he hc'
    · rename_i hcount
      have h0 : 0 ≤ c.count := by omega
      split
      · rename_i hts
        have hlast : ∀ r ∈ ordered rows m.channelId, r.timestamp ≤ m.timestamp := by
          intro r hr
          rcases hts with hzero | hle
          · have hlen := hc.count h0
            have hnil : ordered rows m.channelId = [] := List.length_eq_zero_iff.1 (by omega)
            rw [hnil] at hr
            cases hr
          · exact (hc.newest h0 r hr).trans hle
        have hexact : ({ c with count := c.count + 1, maxTs := m.timestamp } : ChanCache).Exact
            (ordered (rows ++ [m]) m.channelId) := by
          rw [ordered_append hids rfl fun r hr => ?_]
          · exact hc.append h0 hlast
          · have hr' := hnew r (mem_ordered.1 hr).1
            rw [Msg.key_lt]
            rcases (hlast r hr).lt_or_eq with hlt | heq
            · exact .inl hlt
            · exact .inr ⟨heq, hr'⟩
        intro id c' hc'
        simp only [setChanCache, Table.get_put] at hc'
        split at hc'
        · rename_i he
          cases hc'
          exact he ▸ hexact
        · rename_i he
          exact hother id c' (Ne.symm he) hc'
      · exact chanCacheInvalidate_coherent _ hother

/-- Deleting rows of other channels leaves a channel's rows alone. -/
theorem ordered_filter_of_forall {rows : List Msg} {p : Msg → Bool} (hids : (rows.map (·.id)).Nodup)
    (h : ∀ m ∈ rows, m.channelId = id → p m = true) : ordered (rows.filter p) id = ordered rows id := by
  rw [ordered_filter hids, List.filter_eq_self]
  intro m hm
  obtain ⟨hm, he⟩ := mem_ordered.1 hm
  exact h m hm he

theorem scrollbackDbSave_coherent (hs : s.Sane) (h : s.Coherent) (channel : String) (timestamp : Int)
    (msgid : Option String) (text : String) (isUserMsg : Bool) :
    (scrollbackDbSave s channel timestamp msgid text isUserMsg).2.Coherent := by
  obtain ⟨id, channels, cache, he, hr⟩ := scrollbackGetChannelId_resolves hs channel
  simp only [scrollbackDbSave, he]
  split
  · exact h
  split
  · exact h
  rename_i m hm
  obtain ⟨hmid, rfl, rfl⟩ := insertMessage_eq_some hm
  have hnew : ∀ r ∈ s.messages, r.id < m.id := fun r hr => by
    rw [hmid]
    exact lt_nextId (List.mem_map_of_mem hr)
  have hids : ((s.messages ++ [m]).map (·.id)).Nodup := by
    rw [List.map_append, List.nodup_append]
    refine ⟨hs.ids, by simp, fun a ha b hb => ?_⟩
    obtain ⟨r, hr, rfl⟩ := List.mem_map.1 ha
    rw [List.mem_singleton.1 hb]
    exact (hnew r hr).ne
  have hnote := @chanCacheNoteInsert_coherent
    { s with messages := s.messages ++ [m], channels := channels, channelIdCache := cache } _ h m hids hnew
  rw [chanCacheNoteInsert_eq, ftsNoteInsert_eq]
  exact hnote

theorem scrollbackPurgePending_coherent (hs : s.Sane) (h : s.Coherent) (channel : String) :
    (scrollbackPurgePending s channel).Coherent := by
  obtain ⟨id, channels, cache, he, hr⟩ := scrollbackGetChannelId_resolves hs channel
  simp only [scrollbackPurgePending, he]
  split
  · exact h
  have hother : ∀ id' c, id' ≠ id → s.chanCache.get id' = some c → c.Exact
      (ordered (s.messages.filter fun m => ¬ (m.channelId = id ∧ isPending m.msgid)) id') := by
    intro id' c hne hg
    rw [ordered_filter_of_forall hs.ids fun m _ hm => by simp [hm, hne]]
    exact h id' c hg
  split
  · rw [chanCacheInvalidate_eq]
    split <;> exact chanCacheInvalidate_coherent id hother
  · rename_i hnone
    have hnil := List.length_eq_zero_iff.1 (Nat.eq_zero_of_not_pos hnone)
    have hall : s.messages.filter (fun m => ¬ (m.channelId = id ∧ isPending m.msgid)) = s.messages :=
      List.filter_eq_self.2 fun m hm =>
        decide_eq_true fun hp => List.filter_eq_nil_iff.1 hnil m hm (decide_eq_true hp)
    have hsame : Coherent (s.messages.filter fun m => ¬ (m.channelId = id ∧ isPending m.msgid)) s.chanCache := by
      rw [hall]
      exact h
    split <;> exact hsame

theorem scrollbackDeleteByRowid_coherent (h : s.Coherent) (rowid : Int) :
    (scrollbackDeleteByRowid s rowid).2.Coherent := by
  unfold scrollbackDeleteByRowid
  split
  · exact h
  · split
    · dsimp only
      rw [ftsUnindexRow_eq]
      exact fun id c hc => by cases hc
    · exact h

theorem scrollbackClear_coherent (hs : s.Sane) (h : s.Coherent) (channel : String) :
    (scrollbackClear s channel).Coherent := by
  obtain ⟨id, channels, cache, he, hr⟩ := scrollbackGetChannelId_resolves hs channel
  simp only [scrollbackClear, he]
  split
  · exact h
  have hother : ∀ id' c, id' ≠ id → s.chanCache.get id' = some c →
      c.Exact (ordered (s.messages.filter fun m => m.channelId ≠ id) id') := by
    intro id' c hne hg
    rw [ordered_filter_of_forall hs.ids fun m _ hm => by simp [hm, hne]]
    exact h id' c hg
  rw [chanCacheInvalidate_eq]
  split <;> exact @chanCacheInvalidate_coherent { s with channels := channels, channelIdCache := cache } _ id hother

theorem scrollbackUpdatePendingMsgid_coherent (hs : s.Sane) (h : s.Coherent) (channel : String)
    (pendingMsgid realMsgid : String) :
    (scrollbackUpdatePendingMsgid s channel pendingMsgid realMsgid).2.Coherent := by
  obtain ⟨id, channels, cache, he, hr⟩ := scrollbackGetChannelId_resolves hs channel
  simp only [scrollbackUpdatePendingMsgid, he]
  split
  · exact h
  split
  · exact h
  rename_i hu
  obtain ⟨f, rfl, hf⟩ := updateMsgid_eq_some hu
  have hkey : ∀ m, (f m).key = m.key := fun m => by simp [Msg.key, hf m]
  intro id' c hg
  refine (h id' c hg).congr ?_
  rw [ordered_map hkey fun m => (hf m).2.1, List.map_map]
  exact List.map_congr_left fun m _ => hkey m

end Writes

/-! ## Queries -/

section Queries

variable {s : Sb} {channel : String}

theorem Resolves.rows_eq {messages : List Msg} {channels channels' : List Chan} {id : Int}
    {cache' : Table String Int} (hr : Resolves messages channels channel id channels' cache')
    (hid : ¬ id < 0) : channelRows messages channels channel = ordered messages id := by
  rw [← hr.rows]
  rcases hr.answer with ⟨-, rfl⟩ | ⟨-, hl⟩
  · omega
  · simp [channelRows, hl]

theorem Resolves.rows_nil {messages : List Msg} {channels channels' : List Chan} {id : Int}
    {cache' : Table String Int} (hr : Resolves messages channels channel id channels' cache')
    (hid : id < 0) : channelRows messages channels channel = [] := by
  rcases hr.answer with ⟨rfl, -⟩ | ⟨hpos, -⟩
  · rw [← hr.rows]
    unfold channelRows
    cases hl : channelLookup channels' "" with
    | none => rfl
    | some id =>
      obtain ⟨c, hc, hn, -⟩ := channelLookup_eq_some hl
      exact absurd hn (hr.sane.named c hc)
  · omega

theorem scrollbackCount_exact (hs : s.Sane) (h : s.Coherent) :
    (scrollbackCount s channel).1 = (channelRows s.messages s.channels channel).length ∧
    (scrollbackCount s channel).2.Coherent := by
  obtain ⟨id, channels, cache, he, hr⟩ := scrollbackGetChannelId_resolves hs channel
  simp only [scrollbackCount, he]
  split
  · rename_i hid
    exact ⟨by simp [hr.rows_nil hid], h⟩
  · rename_i hid
    obtain ⟨h0, hc, hcoh⟩ := @chanCacheEnsureCount_exact
      { s with channels := channels, channelIdCache := cache } h id
    refine ⟨?_, ?_⟩
    · rw [hr.rows_eq hid]
      exact hc.count h0
    · rw [chanCacheEnsureCount_eq]
      exact hcoh

/-- The limit of a range, with its default. -/
def rowLimit (limit : Int) : Int := if limit ≤ 0 then 500 else limit

/-- The anchors found seek towards the range. -/
theorem chanCacheFindAnchors_seeks {c : ChanCache} {rows : List Msg} (hc : c.Exact rows)
    {offset last : Int} (ho : offset < G_MAXINT) :
    (choosePath (chanCacheFindAnchors c offset last).1 (chanCacheFindAnchors c offset last).2 offset
      last).Seeks rows offset last := by
  have hspec : (∀ b ∈ (chanCacheFindAnchors c offset last).1, Pinned rows b ∧ b.ordinal ≤ offset) ∧
      (∀ a ∈ (chanCacheFindAnchors c offset last).2, Pinned rows a ∧ last ≤ a.ordinal) := by
    unfold chanCacheFindAnchors
    split
    · exact ⟨by simp, by simp⟩
    · exact findAnchors_spec (by simp) hc.pinned rfl
  exact choosePath_seeks hspec.1 hspec.2 ho

theorem scrollbackLoadRange_exact (hs : s.Sane) (h : s.Coherent) {offset limit : Int}
    (hrange : max offset 0 + rowLimit limit ≤ G_MAXINT) :
    (scrollbackLoadRange s channel offset limit).1 =
      ((channelRows s.messages s.channels channel).drop offset.toNat).take (rowLimit limit).toNat ∧
    (scrollbackLoadRange s channel offset limit).2.Coherent := by
  obtain ⟨id, channels, cache, he, hr⟩ := scrollbackGetChannelId_resolves hs channel
  have hlimit : 0 < rowLimit limit := by unfold rowLimit; split <;> omega
  have hoffset : (if offset < 0 then 0 else offset) = max offset 0 := by omega
  have htoNat : offset.toNat = (max offset 0).toNat := by omega
  have h0 : 0 ≤ max offset 0 := by omega
  simp only [scrollbackLoadRange, he, hoffset, htoNat]
  simp only [show (if limit ≤ 0 then 500 else limit) = rowLimit limit from rfl]
  generalize max offset 0 = offset at *
  generalize rowLimit limit = limit at *
  split
  · rename_i hid
    exact ⟨by simp [hr.rows_nil hid], h⟩
  rename_i hid
  obtain ⟨hc0, hc, hcoh⟩ := @chanCacheEnsureCount_exact
    { s with channels := channels, channelIdCache := cache } h id
  rw [hr.rows_eq hid, chanCacheEnsureCount_eq]
  generalize chanCacheEnsureCount { s with channels := channels, channelIdCache := cache } id = r at *
  have hcount := hc.count hc0
  dsimp only at hc hcoh hcount ⊢
  split
  · rename_i hempty
    refine ⟨?_, hcoh⟩
    rw [List.drop_eq_nil_of_le (by omega), List.take_nil]
  · rename_i hne
    have hlt : offset < G_MAXINT := by omega
    generalize hlast : min (offset + limit - 1) (r.1.count - 1) = last
    have hseeks := @chanCacheFindAnchors_seeks r.1 _ hc offset last hlt
    have hrows := rangeRows_eq hs.ids hseeks h0 (by omega)
    refine ⟨?_, hcoh.put ?_⟩
    · rw [hrows, List.take_eq_take_iff, List.length_drop]
      omega
    · exact plantEdges_exact hc _ h0 (by omega) (by omega) hrows

theorem find?_eq_some_of_mem {rows : List Msg} (hids : (rows.map (·.id)).Nodup) {r : Msg}
    (hr : r ∈ rows) : rows.find? (fun m => m.id = r.id) = some r := by
  cases hf : rows.find? fun m => m.id = r.id with
  | none => simpa using List.find?_eq_none.1 hf r hr
  | some m =>
    have hid : m.id = r.id := by simpa using List.find?_some hf
    rw [List.inj_on_of_nodup_map hids (List.mem_of_find?_eq_some hf) hr hid]

/-- The index of a row, from an anchor below it, from one above it or by the prefix count. -/
theorem scrollbackGetIndexOfRowid_exact (hs : s.Sane) (h : s.Coherent) {k : Nat} {r : Msg}
    (hk : (channelRows s.messages s.channels channel)[k]? = some r) :
    (scrollbackGetIndexOfRowid s channel r.id).1 = k ∧
    (scrollbackGetIndexOfRowid s channel r.id).2.Coherent := by
  obtain ⟨id, channels, cache, he, hr⟩ := scrollbackGetChannelId_resolves hs channel
  simp only [scrollbackGetIndexOfRowid, he]
  split
  · rename_i hid
    rw [hr.rows_nil hid] at hk
    cases hk
  rename_i hid
  rw [hr.rows_eq hid] at hk
  obtain ⟨hc0, hc, hcoh⟩ := @chanCacheEnsureCount_exact
    { s with channels := channels, channelIdCache := cache } h id
  rw [chanCacheEnsureCount_eq]
  generalize chanCacheEnsureCount { s with channels := channels, channelIdCache := cache } id = e at *
  dsimp only at hc hcoh ⊢
  have hranked : Ranked Msg.key (ordered s.messages id) := selectAsc_ranked hs.ids _
  have hfind := find?_eq_some_of_mem hs.ids (mem_ordered.1 (List.mem_of_getElem? hk)).1
  have hpin : Pinned (ordered s.messages id) ⟨k, r.timestamp, r.id⟩ := pinned_of_getElem? hk rfl
  have hplain := indexOfRowid_eq hs.ids hk hfind
  rw [hfind]
  dsimp only
  split
  · exact ⟨hplain, hcoh⟩
  split
  · rename_i b _ haround
    obtain ⟨hbefore, -⟩ := anchorsAround_spec (by simp) hc.pinned haround
    obtain ⟨hb, hble⟩ := hbefore b rfl
    have hb0 := hb.1
    have hb' := hb
    obtain ⟨-, q, hq, hqts, hqid⟩ := hb
    have hle : b.ordinal.toNat ≤ k := by
      rw [← hranked.le_iff hq hk, Msg.key_le, hqts, hqid]
      exact hble
    split
    · rename_i hsame
      have hge : k ≤ b.ordinal.toNat := by
        rw [← hranked.le_iff hk hq, Msg.key_le, hqts, hqid]
        exact .inr ⟨hsame.1.symm, hsame.2.ge⟩
      exact ⟨by dsimp only; omega, hcoh⟩
    · have hspan := countSpan_eq hs.ids hb' hpin (by dsimp only; omega)
      dsimp only at hspan
      have hindex : b.ordinal + countSpan s.messages id b.ts b.id r.timestamp r.id = k := by omega
      rw [hindex]
      exact ⟨rfl, hcoh.put (hc.addAnchor fun _ => hpin)⟩
  · rename_i a haround
    obtain ⟨-, hafter⟩ := anchorsAround_spec (by simp) hc.pinned haround
    obtain ⟨ha, hagt⟩ := hafter a rfl
    have ha0 := ha.1
    have ha' := ha
    obtain ⟨-, q, hq, hqts, hqid⟩ := ha
    have hlt : k < a.ordinal.toNat := by
      rw [← hranked.lt_iff hk hq, ← not_le, Msg.key_le, hqts, hqid]
      exact hagt
    have hspan := countSpan_eq hs.ids hpin ha' (by dsimp only; omega)
    dsimp only at hspan
    have hindex : a.ordinal - countSpan s.messages id r.timestamp r.id a.ts a.id = k := by omega
    rw [hindex]
    exact ⟨rfl, hcoh.put (hc.addAnchor fun _ => hpin)⟩
  · exact ⟨hplain, hcoh⟩

/-- The index of an absent row is 0. -/
theorem scrollbackGetIndexOfRowid_absent (hs : s.Sane) (h : s.Coherent) {rowid : Int}
    (habsent : ∀ m ∈ s.messages, m.id ≠ rowid) :
    (scrollbackGetIndexOfRowid s channel rowid).1 = 0 ∧
    (scrollbackGetIndexOfRowid s channel rowid).2.Coherent := by
  obtain ⟨id, channels, cache, he, hr⟩ := scrollbackGetChannelId_resolves hs channel
  simp only [scrollbackGetIndexOfRowid, he]
  split
  · exact ⟨rfl, h⟩
  obtain ⟨-, -, hcoh⟩ := @chanCacheEnsureCount_exact
    { s with channels := channels, channelIdCache := cache } h id
  have hnone : s.messages.find? (fun m => m.id = rowid) = none := by simpa using habsent
  rw [chanCacheEnsureCount_eq]
  simp only [hnone, indexOfRowid]
  exact ⟨trivial, hcoh⟩

end Queries

/-! ## Runs -/

/-- The calls of the contract: `offset + limit` is an `int`, and a rowid that is present belongs to
the named channel. -/
def Admissible (s : Sb) : Op → Prop
  | .loadRange _ offset limit => max offset 0 + rowLimit limit ≤ G_MAXINT
  | .indexOfRowid channel rowid =>
    ∀ m ∈ s.messages, m.id = rowid → m ∈ channelRows s.messages s.channels channel
  | _ => True

instance decidableAdmissible (s : Sb) : ∀ op : Op, Decidable (Admissible s op)
  | .loadRange _ offset limit => inferInstanceAs (Decidable (max offset 0 + rowLimit limit ≤ G_MAXINT))
  | .indexOfRowid channel rowid => inferInstanceAs (Decidable
      (∀ m ∈ s.messages, m.id = rowid → m ∈ channelRows s.messages s.channels channel))
  | .save .. | .purgePending .. | .deleteByRowid .. | .clear .. | .updatePendingMsgid .. | .count ..
  | .ftsSchedule .. | .ftsReady .. | .tick | .reopen => .isTrue trivial

/-- What the ordinal queries have to answer: the number of rows, a slice of them, and the number of
rows before a row. -/
def AnswersExactly (s : Sb) : Op → Prop
  | .count channel => (scrollbackCount s channel).1 = (channelRows s.messages s.channels channel).length
  | .loadRange channel offset limit =>
    (scrollbackLoadRange s channel offset limit).1 =
      ((channelRows s.messages s.channels channel).drop offset.toNat).take (rowLimit limit).toNat
  | .indexOfRowid channel rowid =>
    (∀ before m after, channelRows s.messages s.channels channel = before ++ m :: after → m.id = rowid →
      (scrollbackGetIndexOfRowid s channel rowid).1 = before.length) ∧
    ((∀ m ∈ s.messages, m.id ≠ rowid) → (scrollbackGetIndexOfRowid s channel rowid).1 = 0)
  | _ => True

theorem coherent_step {s : Sb} (hs : s.Sane) (h : s.Coherent) {op : Op} (hop : Admissible s op) :
    (step s op).Coherent := by
  cases op with
  | save => exact scrollbackDbSave_coherent hs h _ _ _ _ _
  | purgePending => exact scrollbackPurgePending_coherent hs h _
  | deleteByRowid => exact scrollbackDeleteByRowid_coherent h _
  | clear => exact scrollbackClear_coherent hs h _
  | updatePendingMsgid => exact scrollbackUpdatePendingMsgid_coherent hs h _ _ _
  | count => exact (scrollbackCount_exact hs h).2
  | loadRange => exact (scrollbackLoadRange_exact hs h hop).2
  | indexOfRowid channel rowid =>
    by_cases hex : ∃ m ∈ s.messages, m.id = rowid
    · obtain ⟨m, hm, rfl⟩ := hex
      obtain ⟨k, hk⟩ := List.mem_iff_getElem?.1 (hop m hm rfl)
      exact (scrollbackGetIndexOfRowid_exact hs h hk).2
    · exact (scrollbackGetIndexOfRowid_absent hs h fun m hm he => hex ⟨m, hm, he⟩).2
  | ftsSchedule channel =>
    obtain ⟨id, channels, cache, he, -⟩ := scrollbackGetChannelId_resolves hs channel
    simp only [step, scrollbackFtsSchedule, he]
    rw [ftsStateGet_eq]
    repeat' split
    all_goals exact h
  | ftsReady channel =>
    obtain ⟨id, channels, cache, he, -⟩ := scrollbackGetChannelId_resolves hs channel
    simp only [step, scrollbackFtsReady, he]
    rw [ftsStateGet_eq]
    repeat' split
    all_goals exact h
  | tick =>
    have hchunk : ∀ t : Sb, t.Coherent → (ftsBackfillChunk t).Coherent := by
      intro t ht
      unfold ftsBackfillChunk
      dsimp only
      rw [ftsBackfillLoop_eq]
      split <;> exact ht
    simp only [step, ftsBackfillIdle]
    split
    · exact h
    · split
      · split
        · exact h
        · exact hchunk _ h
      · exact hchunk _ h
  | reopen => exact fun _ _ hg => by cases hg

/-- Two appends, a range that plants anchors, an append and a backdated insert. -/
def appendsAndBackdated : List Op :=
  [.save "#c" 10 none "a" false, .save "#c" 20 none "b" false, .loadRange "#c" 0 2,
    .save "#c" 20 none "c" false, .indexOfRowid "#c" 3, .save "#c" 15 none "d" false]

end PoxChat.Scrollback
