import Mathlib.Data.List.Perm.Basic
import PoxChat.Lib.Bisect
import PoxChat.Lib.Ranked
import PoxChat.Scrollback.Store

/-!
# The anchors of the ordinal cache

The array of anchors of one `sb_chan_cache`, over any calls of the `chan_cache_*` functions on its channel.

* `ChanCache.Shaped` — the ordinals increase strictly, the array has its bound, and an unknown count leaves it empty.
* `addAnchor_cases` — what `chan_cache_add_anchor` does to a shaped array; `findAnchors_nearest` — what
  `chan_cache_find_anchors` finds in one.
* `anchors_shaped` — after any calls the array is shaped, the next anchor replaces, is inserted or pushes out one that is
  farthest from it, and the anchors found are the nearest.
-/

set_option autoImplicit false

namespace PoxChat.Scrollback

open Lib

/-! ## The shape -/

structure ChanCache.Shaped (c : ChanCache) : Prop where
  ranked : Ranked Anchor.ordinal c.anchors
  bounded : c.anchors.length ≤ SB_ANCHOR_MAX
  unknown : c.count < 0 → c.anchors = []

/-- How far an anchor is from an ordinal. -/
def Anchor.distance (a : Anchor) (ordinal : Int) : Nat := (a.ordinal - ordinal).natAbs

/-- What adding an anchor makes of the array: it replaces the one of its ordinal; else it joins them, where there is no
room for one that is farthest from it. -/
structure Adds (a : Anchor) (old new : List Anchor) : Prop where
  mem : a ∈ new
  replaced : ∀ e ∈ old, e.ordinal = a.ordinal → (e :: new).Perm (a :: old)
  inserted : (∀ e ∈ old, e.ordinal ≠ a.ordinal) → old.length < SB_ANCHOR_MAX → new.Perm (a :: old)
  evicted : (∀ e ∈ old, e.ordinal ≠ a.ordinal) → SB_ANCHOR_MAX ≤ old.length →
    ∃ lost ∈ old, (∀ e ∈ old, e.distance a.ordinal ≤ lost.distance a.ordinal) ∧ (lost :: new).Perm (a :: old)

/-- The anchor with the largest ordinal up to this one, if there is any. -/
def NearestBefore (anchors : List Anchor) (ordinal : Int) : Option Anchor → Prop
  | none => ∀ a ∈ anchors, ordinal < a.ordinal
  | some b => b ∈ anchors ∧ b.ordinal ≤ ordinal ∧ ∀ a ∈ anchors, a.ordinal ≤ ordinal → a.ordinal ≤ b.ordinal

/-- The anchor with the smallest ordinal from this one on, if there is any. -/
def NearestAfter (anchors : List Anchor) (last : Int) : Option Anchor → Prop
  | none => ∀ a ∈ anchors, a.ordinal < last
  | some b => b ∈ anchors ∧ last ≤ b.ordinal ∧ ∀ a ∈ anchors, last ≤ a.ordinal → b.ordinal ≤ a.ordinal

/-! ## Adding -/

section Adding

variable {ordinal : Int} {anchors : List Anchor}

/-- Where the scan stops: behind the anchors below, at the anchor of this ordinal or before those above. -/
theorem scanAnchors_split (ordinal : Int) (h : Ranked Anchor.ordinal anchors) :
    ∀ i, ∃ l r, anchors = l ++ r ∧ (∀ x ∈ l, x.ordinal < ordinal) ∧
      ((∃ e r', r = e :: r' ∧ e.ordinal = ordinal ∧ (∀ x ∈ r', ordinal < x.ordinal) ∧
          scanAnchors ordinal anchors i = (true, i + l.length)) ∨
        (∀ x ∈ r, ordinal < x.ordinal) ∧ scanAnchors ordinal anchors i = (false, i + l.length)) := by
  induction anchors with
  | nil =>
    intro i
    exact ⟨[], [], rfl, by simp, .inr ⟨by simp, rfl⟩⟩
  | cons e es ih =>
    intro i
    obtain ⟨habove, hes⟩ := List.pairwise_cons.1 h
    rw [scanAnchors]
    by_cases heq : e.ordinal = ordinal
    · refine ⟨[], e :: es, rfl, by simp, .inl ⟨e, es, rfl, heq, ?_, by rw [if_pos heq]; rfl⟩⟩
      intro x hx
      rw [← heq]
      exact habove x hx
    by_cases hlt : ordinal < e.ordinal
    · refine ⟨[], e :: es, rfl, by simp, .inr ⟨?_, by rw [if_neg heq, if_pos hlt]; rfl⟩⟩
      intro x hx
      rcases List.mem_cons.1 hx with rfl | hx
      · exact hlt
      · exact lt_trans hlt (habove x hx)
    · obtain ⟨l, r, rfl, hl, hstop⟩ := ih hes (i + 1)
      have hlen : i + (e :: l).length = i + 1 + l.length := by
        rw [List.length_cons]
        omega
      refine ⟨e :: l, r, rfl, ?_, ?_⟩
      · intro x hx
        rcases List.mem_cons.1 hx with rfl | hx
        · omega
        · exact hl x hx
      · rw [if_neg heq, if_neg hlt, hlen]
        exact hstop

theorem farAnchor_cons (ordinal : Int) (e : Anchor) (es : List Anchor) (j : Nat) (far : Nat × Int) :
    farAnchor ordinal (e :: es) j far =
      farAnchor ordinal es (j + 1) (if far.2 < e.distance ordinal then (j, (e.distance ordinal : Int)) else far) := rfl

/-- The walk for the farthest anchor: the best so far stays, or an anchor beats it that nothing behind beats. -/
theorem farAnchor_split (ordinal : Int) (es : List Anchor) :
    ∀ (j : Nat) (far : Nat × Int),
      (farAnchor ordinal es j far = far.1 ∧ ∀ x ∈ es, (x.distance ordinal : Int) ≤ far.2) ∨
        ∃ k e, farAnchor ordinal es j far = j + k ∧ es[k]? = some e ∧ far.2 < e.distance ordinal ∧
          ∀ x ∈ es, x.distance ordinal ≤ e.distance ordinal := by
  induction es with
  | nil =>
    intro j far
    exact .inl ⟨rfl, by simp⟩
  | cons e es ih =>
    intro j far
    rw [farAnchor_cons]
    by_cases hbeats : far.2 < (e.distance ordinal : Int)
    · rw [if_pos hbeats]
      right
      rcases ih (j + 1) (j, (e.distance ordinal : Int)) with ⟨hfar, hle⟩ | ⟨k, x, hfar, hx, hlt, hle⟩
      · refine ⟨0, e, hfar, rfl, hbeats, ?_⟩
        intro y hy
        rcases List.mem_cons.1 hy with rfl | hy
        · exact Nat.le_refl _
        · have hley := hle y hy
          omega
      · refine ⟨k + 1, x, by omega, hx, by omega, ?_⟩
        intro y hy
        rcases List.mem_cons.1 hy with rfl | hy
        · omega
        · exact hle y hy
    · rw [if_neg hbeats]
      rcases ih (j + 1) far with ⟨hfar, hle⟩ | ⟨k, x, hfar, hx, hlt, hle⟩
      · left
        refine ⟨hfar, ?_⟩
        intro y hy
        rcases List.mem_cons.1 hy with rfl | hy
        · omega
        · exact hle y hy
      · right
        refine ⟨k + 1, x, by omega, hx, hlt, ?_⟩
        intro y hy
        rcases List.mem_cons.1 hy with rfl | hy
        · omega
        · exact hle y hy

/-- In an array that is not empty, an anchor is found that is farthest. -/
theorem farAnchor_spec (ordinal : Int) (hne : anchors ≠ []) :
    ∃ lost, anchors[farAnchor ordinal anchors 0 (0, -1)]? = some lost ∧
      ∀ x ∈ anchors, x.distance ordinal ≤ lost.distance ordinal := by
  rcases farAnchor_split ordinal anchors 0 (0, -1) with ⟨-, hle⟩ | ⟨k, e, hfar, he, -, hle⟩
  · obtain ⟨x, hx⟩ := List.exists_mem_of_ne_nil anchors hne
    have hneg := hle x hx
    omega
  · rw [Nat.zero_add] at hfar
    exact ⟨e, by rw [hfar]; exact he, hle⟩

/-- The array without the anchor that is lost, split where the newcomer goes: the index is corrected when the loss is before
it. -/
theorem eraseIdx_split (l r : List Anchor) (far : Nat) :
    ∃ l' r', (l ++ r).eraseIdx far = l' ++ r' ∧ (if far < l.length then l.length - 1 else l.length) = l'.length ∧
      (∀ x ∈ l', x ∈ l) ∧ ∀ x ∈ r', x ∈ r := by
  by_cases hbefore : far < l.length
  · refine ⟨l.eraseIdx far, r, List.eraseIdx_append_of_lt_length hbefore r, ?_, ?_, fun x hx => hx⟩
    · rw [if_pos hbefore, List.length_eraseIdx_of_lt hbefore]
    · intro x hx
      exact List.mem_of_mem_eraseIdx hx
  · refine ⟨l, r.eraseIdx (far - l.length), List.eraseIdx_append_of_length_le (by omega) r, ?_, fun x hx => hx, ?_⟩
    · rw [if_neg hbefore]
    · intro x hx
      exact List.mem_of_mem_eraseIdx hx

theorem perm_lost {far : Nat} {lost : Anchor} (h : anchors[far]? = some lost) :
    (lost :: anchors.eraseIdx far).Perm anchors := by
  obtain ⟨hlt, rfl⟩ := List.getElem?_eq_some_iff.1 h
  exact List.getElem_cons_eraseIdx_perm hlt

/-- **Adding an anchor** to an array in order: it stands between those below and those above, and those are the anchors there
were, but for the one of its ordinal or one that is farthest. -/
theorem addAnchor_cases {c : ChanCache} (ts id : Int) (h : c.Shaped) (hcount : 0 ≤ c.count) (hordinal : 0 ≤ ordinal) :
    ∃ l r, chanCacheAddAnchor c ordinal ts id = { c with anchors := l ++ ⟨ordinal, ts, id⟩ :: r } ∧
      (∀ x ∈ l, x.ordinal < ordinal) ∧ (∀ x ∈ r, ordinal < x.ordinal) ∧ (l ++ r).Sublist c.anchors ∧
      ((∃ e, c.anchors = l ++ e :: r ∧ e.ordinal = ordinal) ∨
        (c.anchors = l ++ r ∧ c.anchors.length < SB_ANCHOR_MAX) ∨
        ((∀ x ∈ c.anchors, x.ordinal ≠ ordinal) ∧ SB_ANCHOR_MAX ≤ c.anchors.length ∧ ∃ lost ∈ c.anchors,
          (∀ x ∈ c.anchors, x.distance ordinal ≤ lost.distance ordinal) ∧ (lost :: (l ++ r)).Perm c.anchors)) := by
  have hguard : ¬ (c.count < 0 ∨ ordinal < 0) := by omega
  unfold chanCacheAddAnchor
  rw [if_neg hguard]
  obtain ⟨l, r, hsplit, hl, hstop⟩ := scanAnchors_split ordinal h.ranked 0
  rw [Nat.zero_add] at hstop
  rcases hstop with ⟨e, r, rfl, he, hr, hscan⟩ | ⟨hr, hscan⟩
  · rw [hscan]
    refine ⟨l, r, ?_, hl, hr, ?_, .inl ⟨e, hsplit, he⟩⟩
    · dsimp only
      rw [hsplit, List.set_append_right _ _ (Nat.le_refl _), Nat.sub_self]
      rfl
    · rw [hsplit]
      exact (List.sublist_cons_self e r).append_left l
  rw [hscan]
  dsimp only
  have hne : ∀ x ∈ c.anchors, x.ordinal ≠ ordinal := by
    intro x hx
    rw [hsplit] at hx
    rcases List.mem_append.1 hx with hx | hx
    · exact ne_of_lt (hl x hx)
    · exact ne_of_gt (hr x hx)
  by_cases hfull : SB_ANCHOR_MAX ≤ c.anchors.length
  · rw [if_pos hfull]
    have hnil : c.anchors ≠ [] := by
      intro hnil
      rw [hnil] at hfull
      exact absurd hfull (by decide)
    obtain ⟨lost, hget, hfarthest⟩ := farAnchor_spec ordinal hnil
    obtain ⟨l', r', herase, hplace, hl', hr'⟩ := eraseIdx_split l r (farAnchor ordinal c.anchors 0 (0, -1))
    rw [← hsplit] at herase
    refine ⟨l', r', ?_, fun x hx => hl x (hl' x hx), fun x hx => hr x (hr' x hx), ?_, .inr (.inr ⟨hne, hfull, lost, ?_⟩)⟩
    · rw [hplace, herase, insertIdx_length]
    · rw [← herase]
      exact List.eraseIdx_sublist _ _
    · rw [← herase]
      exact ⟨List.mem_of_getElem? hget, hfarthest, perm_lost hget⟩
  · rw [if_neg hfull]
    refine ⟨l, r, ?_, hl, hr, by rw [hsplit], .inr (.inl ⟨hsplit, by omega⟩)⟩
    rw [hsplit, insertIdx_length]

theorem ChanCache.Shaped.addAnchor {c : ChanCache} (h : c.Shaped) (ordinal ts id : Int) :
    (chanCacheAddAnchor c ordinal ts id).Shaped := by
  by_cases hrefused : c.count < 0 ∨ ordinal < 0
  · rw [chanCacheAddAnchor, if_pos hrefused]
    exact h
  obtain ⟨l, r, hadd, hl, hr, hsub, hcase⟩ := addAnchor_cases ts id h (by omega) (show 0 ≤ ordinal by omega)
  rw [hadd]
  refine
    { ranked := Ranked.middle (h.ranked.sublist hsub) hl hr
      bounded := ?_
      unknown := fun hneg => absurd (.inl hneg) hrefused }
  show (l ++ _ :: r).length ≤ SB_ANCHOR_MAX
  have hlen : (l ++ (⟨ordinal, ts, id⟩ : Anchor) :: r).length = (l ++ r).length + 1 := by
    simp only [List.length_append, List.length_cons]
    omega
  have hbound := h.bounded
  rcases hcase with ⟨e, hsplit, -⟩ | ⟨hsplit, hroom⟩ | ⟨-, -, lost, -, -, hperm⟩
  · rw [hsplit] at hbound
    simp only [List.length_append, List.length_cons] at hbound ⊢
    exact hbound
  · rw [hlen, ← hsplit]
    exact hroom
  · have hsame := hperm.length_eq
    rw [List.length_cons] at hsame
    omega

/-- What adding an anchor makes of a shaped array. -/
theorem ChanCache.Shaped.adds {c : ChanCache} (h : c.Shaped) (ordinal ts id : Int) (hcount : 0 ≤ c.count)
    (hordinal : 0 ≤ ordinal) : Adds ⟨ordinal, ts, id⟩ c.anchors (chanCacheAddAnchor c ordinal ts id).anchors := by
  obtain ⟨l, r, hadd, hl, hr, hsub, hcase⟩ := addAnchor_cases ts id h hcount hordinal
  rw [hadd]
  have hmiddle : (l ++ (⟨ordinal, ts, id⟩ : Anchor) :: r).Perm (⟨ordinal, ts, id⟩ :: (l ++ r)) := List.perm_middle
  have hother : ∀ x ∈ l ++ r, x.ordinal ≠ ordinal := by
    intro x hx
    rcases List.mem_append.1 hx with hx | hx
    · exact ne_of_lt (hl x hx)
    · exact ne_of_gt (hr x hx)
  have hswap : ∀ e, (e :: (l ++ r)).Perm c.anchors →
      (e :: (l ++ (⟨ordinal, ts, id⟩ : Anchor) :: r)).Perm (⟨ordinal, ts, id⟩ :: c.anchors) := by
    intro e hperm
    exact ((hmiddle.cons e).trans (List.Perm.swap _ _ _)).trans (hperm.cons _)
  rcases hcase with ⟨e, hsplit, he⟩ | ⟨hsplit, hroom⟩ | ⟨hne, hfull, lost, hlost, hfarthest, hperm⟩
  · have hmem : e ∈ c.anchors := by simp [hsplit]
    refine
      { mem := by simp
        replaced := fun e' he' heq => ?_
        inserted := fun hne => absurd he (hne e hmem)
        evicted := fun hne => absurd he (hne e hmem) }
    have hsame : e' = e := by
      rw [hsplit] at he'
      rcases List.mem_append.1 he' with hx | hx
      · exact absurd heq (ne_of_lt (hl e' hx))
      rcases List.mem_cons.1 hx with hx | hx
      · exact hx
      · exact absurd heq (ne_of_gt (hr e' hx))
    rw [hsame]
    apply hswap
    rw [hsplit]
    exact List.perm_middle.symm
  · exact
      { mem := by simp
        replaced := fun e he heq => absurd heq (hother e (hsplit ▸ he))
        inserted := fun _ _ => by rw [hsplit]; exact hmiddle
        evicted := fun _ hfull => absurd hroom (by omega) }
  · exact
      { mem := by simp
        replaced := fun e he heq => absurd heq (hne e he)
        inserted := fun _ hroom => absurd hroom (by omega)
        evicted := fun _ _ => ⟨lost, hlost, hfarthest, hswap lost hperm⟩ }

end Adding

/-! ## Searching -/

section Searching

variable {ordinal last : Int} {anchors : List Anchor}

/-- The first anchor from `last` on is the nearest. -/
theorem findAnchors_after (h : Ranked Anchor.ordinal anchors) :
    ∀ before, NearestAfter anchors last (findAnchors ordinal last anchors before).2 := by
  induction anchors with
  | nil =>
    intro before
    simp [findAnchors, NearestAfter]
  | cons e es ih =>
    intro before
    obtain ⟨habove, hes⟩ := List.pairwise_cons.1 h
    rw [findAnchors]
    by_cases hlast : last ≤ e.ordinal
    · rw [if_pos hlast]
      refine ⟨List.mem_cons_self, hlast, fun x hx _ => ?_⟩
      rcases List.mem_cons.1 hx with rfl | hx
      · exact Int.le_refl _
      · exact le_of_lt (habove x hx)
    rw [if_neg hlast]
    have hrest := ih hes (if e.ordinal ≤ ordinal then some e else before)
    cases hafter : (findAnchors ordinal last es (if e.ordinal ≤ ordinal then some e else before)).2 with
    | none =>
      rw [hafter] at hrest
      intro x hx
      rcases List.mem_cons.1 hx with rfl | hx
      · omega
      · exact hrest x hx
    | some b =>
      rw [hafter] at hrest
      obtain ⟨hmem, hb, hbest⟩ := hrest
      refine ⟨List.mem_cons_of_mem _ hmem, hb, fun x hx hxle => ?_⟩
      rcases List.mem_cons.1 hx with rfl | hx
      · omega
      · exact hbest x hx hxle

/-- An anchor at or before `ordinal`, with only later ones behind it, is the nearest. -/
theorem nearestBefore_head {e : Anchor} {es : List Anchor} (he : e.ordinal ≤ ordinal) (hes : ∀ x ∈ es, ordinal < x.ordinal) :
    NearestBefore (e :: es) ordinal (some e) := by
  refine ⟨List.mem_cons_self, he, fun x hx hle => ?_⟩
  rcases List.mem_cons.1 hx with rfl | hx
  · exact Int.le_refl _
  · have hgt := hes x hx
    omega

/-- What was found before stays, or the nearest of these anchors takes its place. -/
theorem findAnchors_before (h : Ranked Anchor.ordinal anchors) (hle : ordinal ≤ last) :
    ∀ before, (findAnchors ordinal last anchors before).1 = before ∧ (∀ x ∈ anchors, ordinal < x.ordinal) ∨
      ∃ b, (findAnchors ordinal last anchors before).1 = some b ∧ NearestBefore anchors ordinal (some b) := by
  induction anchors with
  | nil =>
    intro before
    exact .inl ⟨rfl, by simp⟩
  | cons e es ih =>
    intro before
    obtain ⟨habove, hes⟩ := List.pairwise_cons.1 h
    -- where nothing behind counts, the head decides
    have hhead : (∀ x ∈ es, ordinal < x.ordinal) →
        (if e.ordinal ≤ ordinal then some e else before) = before ∧ (∀ x ∈ e :: es, ordinal < x.ordinal) ∨
          ∃ b, (if e.ordinal ≤ ordinal then some e else before) = some b ∧ NearestBefore (e :: es) ordinal (some b) := by
      intro hnone
      by_cases hbefore : e.ordinal ≤ ordinal
      · exact .inr ⟨e, if_pos hbefore, nearestBefore_head hbefore hnone⟩
      · refine .inl ⟨if_neg hbefore, List.forall_mem_cons.2 ⟨by omega, hnone⟩⟩
    rw [findAnchors]
    by_cases hlast : last ≤ e.ordinal
    · rw [if_pos hlast]
      apply hhead
      intro x hx
      have hgt := habove x hx
      omega
    rw [if_neg hlast]
    rcases ih hes (if e.ordinal ≤ ordinal then some e else before) with ⟨hsame, hnone⟩ | ⟨b, hfound, hmem, hb, hbest⟩
    · rw [hsame]
      exact hhead hnone
    · right
      refine ⟨b, hfound, List.mem_cons_of_mem _ hmem, hb, fun x hx hxle => ?_⟩
      rcases List.mem_cons.1 hx with rfl | hx
      · exact le_of_lt (habove b hmem)
      · exact hbest x hx hxle

/-- **The search** finds the nearest anchors on both sides. -/
theorem findAnchors_nearest {c : ChanCache} (h : c.Shaped) (hle : ordinal ≤ last) :
    NearestBefore c.anchors ordinal (chanCacheFindAnchors c ordinal last).1 ∧
      NearestAfter c.anchors last (chanCacheFindAnchors c ordinal last).2 := by
  unfold chanCacheFindAnchors
  split_ifs with hneg
  · rw [h.unknown hneg]
    exact ⟨by simp [NearestBefore], by simp [NearestAfter]⟩
  · refine ⟨?_, findAnchors_after h.ranked none⟩
    rcases findAnchors_before h.ranked hle none with ⟨hnone, habove⟩ | ⟨b, hfound, hnearest⟩
    · rw [hnone]
      exact habove
    · rw [hfound]
      exact hnearest

end Searching

/-! ## Runs -/

/-- The calls on the cache of one channel. -/
inductive CacheCall where
  | addAnchor (ordinal ts id : Int)
  | noteInsert (ts : Int)
  | invalidate
  | ensureCount

/-- The state after a call; without an entry there is none to add an anchor to. -/
def CacheCall.run (channelId : Int) (s : Sb) : CacheCall → Sb
  | .addAnchor ordinal ts id =>
    match s.chanCache.get channelId with
    | none => s
    | some c => setChanCache s channelId (chanCacheAddAnchor c ordinal ts id)
  | .noteInsert ts => chanCacheNoteInsert s channelId ts
  | .invalidate => chanCacheInvalidate s channelId
  | .ensureCount => (chanCacheEnsureCount s channelId).2

/-- The channel's entry, if it has one, is shaped. -/
def Sb.EntryShaped (s : Sb) (channelId : Int) : Prop := ∀ c, s.chanCache.get channelId = some c → c.Shaped

section Calls

variable {s : Sb} {channelId : Int}

theorem shaped_empty (count maxTs : Int) : (ChanCache.mk count maxTs []).Shaped :=
  { ranked := List.Pairwise.nil
    bounded := Nat.zero_le _
    unknown := fun _ => rfl }

theorem entryShaped_set {c : ChanCache} (h : c.Shaped) : (setChanCache s channelId c).EntryShaped channelId := by
  intro c' hc'
  rw [setChanCache, Table.get_put_self] at hc'
  rw [← Option.some.inj hc']
  exact h

theorem Sb.EntryShaped.invalidate (h : s.EntryShaped channelId) : (chanCacheInvalidate s channelId).EntryShaped channelId := by
  unfold chanCacheInvalidate
  split
  · exact h
  · exact entryShaped_set (shaped_empty _ _)

/-- **A call** keeps the channel's entry in shape. -/
theorem CacheCall.run_shaped (h : s.EntryShaped channelId) (call : CacheCall) : (call.run channelId s).EntryShaped channelId := by
  cases call with
  | addAnchor ordinal ts id =>
    unfold CacheCall.run
    dsimp only
    split
    · exact h
    · rename_i c hget
      exact entryShaped_set ((h c hget).addAnchor ordinal ts id)
  | invalidate => exact h.invalidate
  | noteInsert ts =>
    show (chanCacheNoteInsert s channelId ts).EntryShaped channelId
    unfold chanCacheNoteInsert
    split
    · exact h
    · rename_i c hget
      have hc := h c hget
      split_ifs with hneg
      · exact h
      · apply entryShaped_set
        refine { ranked := hc.ranked, bounded := hc.bounded, unknown := fun hneg' => ?_ }
        have hcount : c.count + 1 < 0 := hneg'
        omega
      · exact h.invalidate
  | ensureCount =>
    have hc : (chanCacheGet s channelId).Shaped := by
      unfold chanCacheGet
      cases hget : s.chanCache.get channelId with
      | none => exact shaped_empty _ _
      | some c => exact h c hget
    show (chanCacheEnsureCount s channelId).2.EntryShaped channelId
    unfold chanCacheEnsureCount
    dsimp only
    split_ifs with hcount
    · exact h
    · apply entryShaped_set
      refine { ranked := hc.ranked, bounded := hc.bounded, unknown := fun _ => hc.unknown (by omega) }

theorem run_entryShaped (h : s.EntryShaped channelId) (calls : List CacheCall) :
    (calls.foldl (CacheCall.run channelId) s).EntryShaped channelId := by
  induction calls generalizing s with
  | nil => exact h
  | cons call calls ih => exact ih (CacheCall.run_shaped h call)

/-- **The cache keeps its shape.**  After any calls the channel's anchors increase strictly in their ordinals and are no
more than `SB_ANCHOR_MAX`; an anchor that is added then is there, in place of one of its ordinal, or beside the others, or
where they fill the array in place of one that is farthest; and the anchors found for a range are the nearest. -/
theorem anchors_shaped (s₀ : Sb) (channelId : Int) (h₀ : ∀ c, s₀.chanCache.get channelId = some c → c.anchors = [])
    (calls : List CacheCall) :
    let s := calls.foldl (CacheCall.run channelId) s₀
    ∀ c, s.chanCache.get channelId = some c →
      (c.anchors.Pairwise fun a b => a.ordinal < b.ordinal) ∧ c.anchors.length ≤ SB_ANCHOR_MAX ∧
      (∀ ordinal ts id, if 0 ≤ c.count ∧ 0 ≤ ordinal then
          Adds ⟨ordinal, ts, id⟩ c.anchors (chanCacheAddAnchor c ordinal ts id).anchors
        else chanCacheAddAnchor c ordinal ts id = c) ∧
      ∀ ordinal last, ordinal ≤ last →
        NearestBefore c.anchors ordinal (chanCacheFindAnchors c ordinal last).1 ∧
          NearestAfter c.anchors last (chanCacheFindAnchors c ordinal last).2 := by
  intro s c hget
  have hstart : s₀.EntryShaped channelId := by
    intro c₀ hc₀
    obtain ⟨count, maxTs, anchors⟩ := c₀
    obtain rfl : anchors = [] := h₀ _ hc₀
    exact shaped_empty count maxTs
  have hc : c.Shaped := run_entryShaped hstart calls c hget
  refine ⟨hc.ranked, hc.bounded, fun ordinal ts id => ?_, fun ordinal last hle => findAnchors_nearest hc hle⟩
  split_ifs with haccepted
  · exact hc.adds ordinal ts id haccepted.1 haccepted.2
  · rw [chanCacheAddAnchor, if_pos (by omega)]

theorem anchors_shaped_two :
    let s := [CacheCall.ensureCount, .addAnchor 7 70 1, .addAnchor 3 30 2].foldl (CacheCall.run 1) (Sb.fresh false)
    s.chanCache.get 1 = some ⟨0, 0, [⟨3, 30, 2⟩, ⟨7, 70, 1⟩]⟩ ∧
      NearestBefore [⟨3, 30, 2⟩, ⟨7, 70, 1⟩] 5 (chanCacheFindAnchors ⟨0, 0, [⟨3, 30, 2⟩, ⟨7, 70, 1⟩]⟩ 5 6).1 := by
  have hget : ([CacheCall.ensureCount, .addAnchor 7 70 1, .addAnchor 3 30 2].foldl (CacheCall.run 1)
      (Sb.fresh false)).chanCache.get 1 = some ⟨0, 0, [⟨3, 30, 2⟩, ⟨7, 70, 1⟩]⟩ := by decide
  refine ⟨hget, ?_⟩
  have hshaped := anchors_shaped (Sb.fresh false) 1 (fun c hc => by cases hc) _ _ hget
  exact (hshaped.2.2.2 5 6 (by decide)).1

end Calls

end PoxChat.Scrollback
