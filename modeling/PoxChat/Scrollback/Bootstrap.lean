import PoxChat.Lib.Runs
import PoxChat.Scrollback.Recording

/-!
# The bootstrap scan

`scrollback_gap_bootstrap` walks the stored messages of a channel in order and records a candidate for every two
neighbours that are far enough apart; what it leaves in the ledger.

* `Instant` — the messages of one second: those of a channel, in order, are grouped by their timestamps.
* `silences` — the maximal runs of instants each of which is far enough from the next.
* `channelGaps_record` — what recording does to the gaps of a channel, ids apart.

Principal result: `gap_bootstrap_finds_silences` — a scan of a channel without gaps leaves exactly one candidate for
each silence; the next scan does nothing, and no scan uncovers what live gaps covered.
-/

set_option autoImplicit false

namespace PoxChat.Scrollback

open Lib

/-! ## Silences -/

/-- The msgid a message gives a gap that ends there; a placeholder gives none. -/
def boundaryMsgid (m : Msg) : Option String := if isPending m.msgid then none else m.msgid

/-- The messages of one second: the time, and the msgids of the first and the last of them. -/
structure Instant where
  ts : Int
  first : Option String
  last : Option String

def Instant.of (group : List Msg) : Instant where
  ts := (group.head?.map (·.timestamp)).getD 0
  first := group.head?.bind boundaryMsgid
  last := group.getLast?.bind boundaryMsgid

/-- Messages in order, by their seconds. -/
def instants (rows : List Msg) : List Instant :=
  (rows.splitBy fun a b => a.timestamp == b.timestamp).map Instant.of

/-- The runs of instants that are at least `threshold` apart, each from the next. -/
def silences (threshold : Int) (is : List Instant) : List (List Instant) :=
  runs (fun i j => decide (threshold ≤ j.ts - i.ts)) is

/-- The candidate for a run: from its first instant to its last. -/
def candidateOf (channelId : Int) (run : List Instant) : Gap where
  id := 0
  channelId := channelId
  startTs := (run.head?.map (·.ts)).getD 0
  startMsgid := run.head?.bind (·.last)
  endTs := (run.getLast?.map (·.ts)).getD 0
  endMsgid := run.getLast?.bind (·.first)
  state := .candidate
  attempts := 0
  lastAttempt := 0

def candidates (threshold channelId : Int) (is : List Instant) : List Gap :=
  (silences threshold is).map (candidateOf channelId)

/-! ## The gaps of a channel -/

def Gap.anonymous (g : Gap) : Gap := { g with id := 0 }

/-- The gaps of the channel in table order, without their ids. -/
def channelGaps (gaps : List Gap) (channelId : Int) : List Gap :=
  (gaps.filter fun g => g.channelId = channelId).map Gap.anonymous

/-- The gaps of the other channels. -/
def otherGaps (gaps : List Gap) (channelId : Int) : List Gap := gaps.filter fun g => g.channelId ≠ channelId

section Record

variable {s : Sb} {channel : String} {channelId startTs endTs : Int} {startMsgid endMsgid : Option String}
  {state : GapState}

/-- The channel's id is in the cache. -/
structure Settled (s : Sb) (channel : String) (channelId : Int) : Prop where
  pos : 0 < channelId
  named : channel ≠ ""
  cached : s.channelIdCache.get channel = some channelId

/-- Looking it up changes nothing. -/
theorem Settled.lookup (h : Settled s channel channelId) : scrollbackGetChannelId s channel = (channelId, s) := by
  unfold scrollbackGetChannelId
  rw [if_neg h.named, h.cached]

theorem settled_of_lookup (hpos : 0 < (scrollbackGetChannelId s channel).1) :
    Settled (scrollbackGetChannelId s channel).2 channel (scrollbackGetChannelId s channel).1 := by
  refine ⟨hpos, ?_, ?_⟩
  · rintro rfl
    exact absurd hpos (by simp [scrollbackGetChannelId])
  · unfold scrollbackGetChannelId at hpos ⊢
    split at hpos
    · cases hpos
    rename_i hnamed
    rw [if_neg hnamed]
    cases hcached : s.channelIdCache.get channel with
    | some id => exact hcached
    | none =>
      rw [hcached] at hpos
      dsimp only at hpos ⊢
      cases hlookup : channelLookup (channelInsert s.channels channel) channel with
      | some id => exact Table.get_put_self _ _ _
      | none =>
        rw [hlookup] at hpos
        cases hpos

/-- The rows of other channels, and what the rows of this one make with the new gap. -/
theorem record_settled (h : Settled s channel channelId) (hstart : 0 < startTs) (hlt : startTs < endTs) :
    scrollbackGapRecord s channel startTs startMsgid endTs endMsgid state =
      let kept := s.gaps.filter fun g => !g.meets channelId startTs endTs
      let union := (s.gaps.filter fun g => g.meets channelId startTs endTs).foldl Gap.absorb
        ⟨0, channelId, startTs, startMsgid, endTs, endMsgid, state, 0, 0⟩
      (nextId (kept.map (·.id)), { s with gaps := kept ++ [{ union with id := nextId (kept.map (·.id)) }] }) := by
  unfold scrollbackGapRecord
  rw [if_neg (by omega), h.lookup]
  dsimp only
  rw [if_neg (not_le.2 h.pos)]

theorem absorb_anonymous (u o : Gap) : u.absorb o.anonymous = u.absorb o := rfl

theorem foldl_absorb_anonymous (rows : List Gap) (u : Gap) :
    (rows.map Gap.anonymous).foldl Gap.absorb u = rows.foldl Gap.absorb u := by
  rw [List.foldl_map]
  rfl

theorem foldl_absorb_id (rows : List Gap) (u : Gap) : (rows.foldl Gap.absorb u).id = u.id := by
  induction rows generalizing u with
  | nil => rfl
  | cons o rows ih =>
    rw [List.foldl_cons, ih]
    unfold Gap.absorb
    dsimp only
    split_ifs <;> rfl

/-- **What recording does to the gaps of its channel**, ids apart. -/
theorem channelGaps_record (h : Settled s channel channelId) (hstart : 0 < startTs) (hlt : startTs < endTs) :
    channelGaps (scrollbackGapRecord s channel startTs startMsgid endTs endMsgid state).2.gaps channelId =
      ((channelGaps s.gaps channelId).filter fun g => !g.meets channelId startTs endTs) ++
        [((channelGaps s.gaps channelId).filter fun g => g.meets channelId startTs endTs).foldl Gap.absorb
          ⟨0, channelId, startTs, startMsgid, endTs, endMsgid, state, 0, 0⟩] := by
  rw [record_settled h hstart hlt]
  have hch := (absorb_spans (s.gaps.filter fun g => g.meets channelId startTs endTs)
    ⟨0, channelId, startTs, startMsgid, endTs, endMsgid, state, 0, 0⟩).channelId
  have hid := foldl_absorb_id (s.gaps.filter fun g => g.meets channelId startTs endTs)
    ⟨0, channelId, startTs, startMsgid, endTs, endMsgid, state, 0, 0⟩
  have hmerged : (s.gaps.filter fun g => decide (g.channelId = channelId)).filter
      (fun g => g.meets channelId startTs endTs) = s.gaps.filter fun g => g.meets channelId startTs endTs := by
    rw [List.filter_filter]
    refine List.filter_congr fun g _ => ?_
    simp only [Bool.and_eq_left_iff_imp, decide_eq_true_eq]
    exact fun hmeets => (Gap.meets_iff.1 hmeets).1
  unfold channelGaps
  rw [List.filter_map, List.filter_map, foldl_absorb_anonymous]
  change _ = ((s.gaps.filter fun g => decide (g.channelId = channelId)).filter
      fun g => !g.meets channelId startTs endTs).map Gap.anonymous ++
    [((s.gaps.filter fun g => decide (g.channelId = channelId)).filter
      fun g => g.meets channelId startTs endTs).foldl Gap.absorb _]
  rw [hmerged]
  generalize (s.gaps.filter fun g => g.meets channelId startTs endTs).foldl Gap.absorb
    ⟨0, channelId, startTs, startMsgid, endTs, endMsgid, state, 0, 0⟩ = u at *
  dsimp only at hch hid ⊢
  rw [List.filter_append, List.map_append, List.filter_comm]
  congr 1
  rw [List.filter_cons_of_pos (by simpa using hch)]
  show [{ u with id := 0 }] = [u]
  rw [← hid]

theorem otherGaps_record (h : Settled s channel channelId) (hstart : 0 < startTs) (hlt : startTs < endTs) :
    otherGaps (scrollbackGapRecord s channel startTs startMsgid endTs endMsgid state).2.gaps channelId =
      otherGaps s.gaps channelId := by
  rw [record_settled h hstart hlt]
  have hch := (absorb_spans (s.gaps.filter fun g => g.meets channelId startTs endTs)
    ⟨0, channelId, startTs, startMsgid, endTs, endMsgid, state, 0, 0⟩).channelId
  unfold otherGaps
  dsimp only
  rw [List.filter_append, List.filter_filter, List.filter_cons_of_neg (by simpa using hch), List.filter_nil,
    List.append_nil]
  refine List.filter_congr fun g _ => ?_
  rw [Bool.and_eq_left_iff_imp, decide_eq_true_eq]
  intro hne
  rw [Bool.not_eq_true', ← Bool.not_eq_true]
  exact fun hmeets => hne (Gap.meets_iff.1 hmeets).1

/-- Recording uncovers nothing. -/
theorem covered_record (h : Settled s channel channelId) (hstart : 0 < startTs) (hlt : startTs < endTs)
    (hlive : state ≠ .dead) : Recording.covered s.gaps channelId ⊆
      Recording.covered (scrollbackGapRecord s channel startTs startMsgid endTs endMsgid state).2.gaps channelId := by
  rw [record_settled h hstart hlt]
  have hmet : ∀ g ∈ s.gaps.filter (fun g => g.meets channelId startTs endTs),
      g.Live ∧ g.startTs ≤ endTs ∧ startTs ≤ g.endTs := fun g hg => (Gap.meets_iff.1 (List.mem_filter.1 hg).2).2
  have hch := (absorb_spans (s.gaps.filter fun g => g.meets channelId startTs endTs)
    ⟨0, channelId, startTs, startMsgid, endTs, endMsgid, state, 0, 0⟩).channelId
  have hjoins := Recording.Joins.foldl (s.gaps.filter fun g => g.meets channelId startTs endTs)
    ⟨0, channelId, startTs, startMsgid, endTs, endMsgid, state, 0, 0⟩
  have hspan := hjoins.span_eq fun g hg => (hmet g hg).2
  generalize (s.gaps.filter fun g => g.meets channelId startTs endTs).foldl Gap.absorb
    ⟨0, channelId, startTs, startMsgid, endTs, endMsgid, state, 0, 0⟩ = u at *
  have hulive : u.Live := by
    obtain ⟨g, hg, hstate⟩ := hjoins.stateFrom
    rw [Gap.Live, ← hstate]
    rcases List.mem_cons.1 hg with rfl | hg
    · exact hlive
    · exact (hmet g hg).1
  have hcovered : ∀ id, Recording.covered ((s.gaps.filter fun g => !g.meets channelId startTs endTs) ++
      [{ u with id := id }]) channelId = Recording.covered s.gaps channelId ∪ Set.Icc startTs endTs :=
    fun _ => Recording.covered_merge hch hulive hspan
  dsimp only
  rw [hcovered]
  exact Set.subset_union_left

/-- The stores differ in their gaps only. -/
def SameRest (s s' : Sb) : Prop := { s' with gaps := [] } = { s with gaps := [] }

theorem SameRest.settled {s' : Sb} (hrest : SameRest s s') (h : Settled s channel channelId) :
    Settled s' channel channelId :=
  ⟨h.pos, h.named, (congrArg (fun t : Sb => t.channelIdCache.get channel) hrest).trans h.cached⟩

theorem record_sameRest (h : Settled s channel channelId) (startTs : Int) (startMsgid : Option String) (endTs : Int)
    (endMsgid : Option String) (state : GapState) :
    SameRest s (scrollbackGapRecord s channel startTs startMsgid endTs endMsgid state).2 := by
  unfold scrollbackGapRecord
  rw [h.lookup]
  dsimp only
  split_ifs <;> rfl

end Record

/-! ## The scan -/

section Scan

variable {s : Sb} {channel : String} {channelId threshold : Int}

theorem candidates_concat_of_near {l : List Instant} {i : Instant}
    (hnear : ∀ p ∈ l.getLast?, i.ts - p.ts < threshold) :
    candidates threshold channelId (l ++ [i]) = candidates threshold channelId l := by
  unfold candidates silences
  rw [runs_concat_of_unrelated fun p hp => by simpa using hnear p hp]

theorem candidateOf_concat (first : Instant) (init : List Instant) (last : Instant) :
    candidateOf channelId (first :: init ++ [last]) =
      ⟨0, channelId, first.ts, first.last, last.ts, last.first, .candidate, 0, 0⟩ := by
  rw [candidateOf, List.getLast?_concat]
  rfl

/-- A silence after the last instant is recorded: it extends the candidate that ends there, or is one of its own. -/
theorem channelGaps_silence {l : List Instant} {p i : Instant} (h : Settled s channel channelId)
    (hsorted : (l ++ [i]).Pairwise fun a b => a.ts < b.ts) (hpos : 0 < p.ts) (hlast : l.getLast? = some p)
    (hwide : threshold ≤ i.ts - p.ts) (hgaps : channelGaps s.gaps channelId = candidates threshold channelId l) :
    channelGaps (scrollbackGapRecord s channel p.ts p.last i.ts i.first .candidate).2.gaps channelId =
      candidates threshold channelId (l ++ [i]) := by
  have hp : p ∈ l := List.mem_of_getLast? hlast
  obtain ⟨hl, -, hli⟩ := List.pairwise_append.1 hsorted
  have hpi : p.ts < i.ts := hli p hp i (by simp)
  have hrel : ∀ q ∈ l.getLast?, decide (threshold ≤ i.ts - q.ts) = true := fun q hq => by
    rw [hlast, Option.mem_some_iff] at hq
    exact decide_eq_true (hq ▸ hwide)
  obtain ⟨done, cur, hne, hflat, hruns, hruns'⟩ := runs_concat_of_related
    (r := fun i j : Instant => decide (threshold ≤ j.ts - i.ts)) (List.ne_nil_of_mem hp) hrel
  rw [channelGaps_record h hpos hpi, hgaps]
  unfold candidates silences
  rw [hruns, hruns', List.map_append, List.map_append, List.filter_append, List.filter_append]
  have hlastcur : cur.getLast? = some p := by rw [← hlast, hflat, List.getLast?_append_of_ne_nil _ hne]
  rw [hflat] at hl
  obtain ⟨-, hcur, hdone⟩ := List.pairwise_append.1 hl
  -- the candidates before the last run end before it
  have hold : ∀ g ∈ (done.filter fun run => decide (2 ≤ run.length)).map (candidateOf channelId),
      g.meets channelId p.ts i.ts = false := by
    intro g hg
    obtain ⟨run, hrun, rfl⟩ := List.mem_map.1 hg
    obtain ⟨hrun, hlen⟩ := List.mem_filter.1 hrun
    obtain ⟨init, q, rfl⟩ := (List.eq_nil_or_concat' run).resolve_left (by rintro rfl; simp at hlen)
    have hqp := hdone q (List.mem_flatten.2 ⟨_, hrun, by simp⟩) p (List.mem_of_getLast? hlastcur)
    rw [← Bool.not_eq_true, Gap.meets_iff]
    rintro ⟨-, -, -, hend⟩
    rw [candidateOf, List.getLast?_concat, Option.map_some, Option.getD_some] at hend
    exact absurd hend (not_le.2 hqp)
  have hkept : (((done.filter fun run => decide (2 ≤ run.length)).map (candidateOf channelId)).filter
      fun g => !g.meets channelId p.ts i.ts) =
        (done.filter fun run => decide (2 ≤ run.length)).map (candidateOf channelId) :=
    List.filter_eq_self.2 fun g hg => by rw [hold g hg]; rfl
  have hnone : (((done.filter fun run => decide (2 ≤ run.length)).map (candidateOf channelId)).filter
      fun g => g.meets channelId p.ts i.ts) = [] :=
    List.filter_eq_nil_iff.2 fun g hg => by rw [hold g hg]; exact Bool.false_ne_true
  rw [hkept, hnone, List.nil_append, List.append_assoc]
  congr 1
  obtain ⟨init, q, rfl⟩ := (List.eq_nil_or_concat' cur).resolve_left hne
  rw [List.getLast?_concat, Option.some_inj] at hlastcur
  subst hlastcur
  cases init with
  | nil => rfl
  | cons first init =>
    have hfirst : first.ts < q.ts := (List.pairwise_append.1 hcur).2.2 first (by simp) q (by simp)
    have hcand : candidateOf channelId (first :: init ++ [q]) =
        ⟨0, channelId, first.ts, first.last, q.ts, q.first, .candidate, 0, 0⟩ := candidateOf_concat first init q
    have hcand' : candidateOf channelId (first :: init ++ [q] ++ [i]) =
        ⟨0, channelId, first.ts, first.last, i.ts, i.first, .candidate, 0, 0⟩ := candidateOf_concat first (init ++ [q]) i
    have hmeets : Gap.meets ⟨0, channelId, first.ts, first.last, q.ts, q.first, .candidate, 0, 0⟩ channelId q.ts i.ts =
        true := Gap.meets_iff.2 ⟨rfl, by simp [Gap.Live], by dsimp only; omega, le_rfl⟩
    have hlen : 2 ≤ (first :: init ++ [q]).length := by simp
    rw [if_pos hlen, List.map_singleton, List.map_singleton, hcand, hcand', List.filter_singleton, List.filter_singleton]
    simp [hmeets, Gap.absorb, hfirst, not_lt.2 hpi.le]

/-- The rest of a group: no silence, and the last of its messages remembered. -/
theorem bootstrapLoop_same (hthreshold : 0 < threshold) (m : Msg) (rest : List Msg) (n : Int) :
    ∀ ms : List Msg, (∀ m' ∈ ms, m'.timestamp = m.timestamp) →
      bootstrapLoop channel threshold s (ms ++ rest) m.timestamp (boundaryMsgid m) n =
        bootstrapLoop channel threshold s rest m.timestamp (((m :: ms).getLast?.bind boundaryMsgid)) n := by
  intro ms
  induction ms generalizing m with
  | nil => exact fun _ => rfl
  | cons m' ms ih =>
    intro hms
    have hts := hms m' List.mem_cons_self
    have hrest := ih m' fun x hx => (hms x (List.mem_cons_of_mem _ hx)).trans hts.symm
    rw [hts] at hrest
    rw [List.cons_append, bootstrapLoop, if_neg (by omega), hts, List.getLast?_cons_cons]
    exact hrest

/-- A group of messages of one second: at most one silence before it. -/
theorem bootstrapLoop_group (channel : String) (s : Sb) (hthreshold : 0 < threshold) {g : List Msg} (hne : g ≠ [])
    (hsame : ∀ a ∈ g, ∀ b ∈ g, a.timestamp = b.timestamp) (rest : List Msg) (prevTs : Int) (prevMsgid : Option String)
    (n : Int) :
    ∃ n', bootstrapLoop channel threshold s (g ++ rest) prevTs prevMsgid n =
      bootstrapLoop channel threshold
        (if 0 < prevTs ∧ threshold ≤ (Instant.of g).ts - prevTs then
          (scrollbackGapRecord s channel prevTs prevMsgid (Instant.of g).ts (Instant.of g).first .candidate).2 else s)
        rest (Instant.of g).ts (Instant.of g).last n' := by
  obtain ⟨m, ms, rfl⟩ := List.exists_cons_of_ne_nil hne
  have hms : ∀ m' ∈ ms, m'.timestamp = m.timestamp := fun m' hm' =>
    hsame m' (List.mem_cons_of_mem m hm') m List.mem_cons_self
  have hof : Instant.of (m :: ms) = ⟨m.timestamp, boundaryMsgid m, (m :: ms).getLast?.bind boundaryMsgid⟩ := rfl
  rw [hof, List.cons_append, bootstrapLoop]
  split
  · exact ⟨_, bootstrapLoop_same hthreshold m rest _ ms hms⟩
  · exact ⟨_, bootstrapLoop_same hthreshold m rest _ ms hms⟩

/-- **The loop over the groups**: from the candidates for the instants behind it to those for all of them. -/
theorem bootstrapLoop_scans (hthreshold : 0 < threshold) (groups : List (List Msg))
    (hgroups : ∀ g ∈ groups, g ≠ [] ∧ ∀ a ∈ g, ∀ b ∈ g, a.timestamp = b.timestamp) :
    ∀ (l : List Instant) (s : Sb) (n : Int), Settled s channel channelId →
      ((l ++ groups.map Instant.of).Pairwise fun a b => a.ts < b.ts) → (∀ i ∈ l, 0 < i.ts) →
      (∀ g ∈ groups, 0 < (Instant.of g).ts) → channelGaps s.gaps channelId = candidates threshold channelId l →
      let r := (bootstrapLoop channel threshold s groups.flatten ((l.getLast?.map (·.ts)).getD 0)
        (l.getLast?.bind (·.last)) n).2
      channelGaps r.gaps channelId = candidates threshold channelId (l ++ groups.map Instant.of) ∧
        otherGaps r.gaps channelId = otherGaps s.gaps channelId := by
  induction groups with
  | nil =>
    intro l s n _ _ _ _ hgaps
    rw [List.map_nil, List.append_nil]
    exact ⟨hgaps, rfl⟩
  | cons g groups ih =>
    intro l s n h hsorted hposl hposg hgaps
    obtain ⟨hne, hsame⟩ := hgroups g List.mem_cons_self
    have hpos := hposg g List.mem_cons_self
    rw [List.map_cons, List.append_cons] at hsorted
    have hposl' : ∀ i ∈ l ++ [Instant.of g], 0 < i.ts := by
      intro i hi
      rcases List.mem_append.1 hi with hi | hi
      · exact hposl i hi
      · rwa [List.mem_singleton.1 hi]
    have hnext := ih (fun g' hg' => hgroups g' (List.mem_cons_of_mem g hg')) (l ++ [Instant.of g])
    have hone := (List.pairwise_append.1 hsorted).1
    rw [List.getLast?_concat] at hnext
    obtain ⟨n', hstep⟩ := bootstrapLoop_group channel s hthreshold hne hsame groups.flatten
      ((l.getLast?.map (·.ts)).getD 0) (l.getLast?.bind (·.last)) n
    intro r
    have hr : r = _ := congrArg Prod.snd hstep
    rw [hr, List.map_cons, List.append_cons]
    split
    · rename_i hwide
      obtain ⟨hprev, hwide⟩ := hwide
      cases hlast : l.getLast? with
      | none =>
        rw [hlast] at hprev
        exact absurd hprev (lt_irrefl 0)
      | some p =>
        rw [hlast] at hprev hwide
        have hp : p ∈ l := List.mem_of_getLast? hlast
        have hlt : p.ts < (Instant.of g).ts := (List.pairwise_append.1 hone).2.2 p hp _ (by simp)
        have hgaps' := channelGaps_silence h hone hprev hlast hwide hgaps
        obtain ⟨hfinal, hother⟩ := hnext _ n' ((record_sameRest h p.ts p.last _ _ .candidate).settled h) hsorted hposl'
          (fun g' hg' => hposg g' (List.mem_cons_of_mem g hg')) hgaps'
        exact ⟨hfinal, hother.trans (otherGaps_record h hprev hlt)⟩
    · rename_i hnear
      refine hnext s n' h hsorted hposl' (fun g' hg' => hposg g' (List.mem_cons_of_mem g hg')) ?_
      rw [hgaps, candidates_concat_of_near fun p hp => ?_]
      rw [Option.mem_def] at hp
      rw [hp] at hnear
      have hpos := hposl p (List.mem_of_getLast? hp)
      by_contra hwide
      exact hnear ⟨hpos, not_lt.1 hwide⟩

/-- The loop writes no other table and uncovers nothing. -/
theorem bootstrapLoop_keeps (hthreshold : 0 < threshold) (rows : List Msg) :
    ∀ (s : Sb) (prevTs : Int) (prevMsgid : Option String) (n : Int), Settled s channel channelId →
      SameRest s (bootstrapLoop channel threshold s rows prevTs prevMsgid n).2 ∧
        Recording.covered s.gaps channelId ⊆
          Recording.covered (bootstrapLoop channel threshold s rows prevTs prevMsgid n).2.gaps channelId := by
  induction rows with
  | nil => exact fun s _ _ _ _ => ⟨rfl, subset_rfl⟩
  | cons m rows ih =>
    intro s prevTs prevMsgid n h
    rw [bootstrapLoop]
    dsimp only
    split
    · rename_i hwide
      obtain ⟨hprev, hwide⟩ := hwide
      have hrest := record_sameRest h prevTs prevMsgid m.timestamp (boundaryMsgid m) .candidate
      have hcovers : Recording.covered s.gaps channelId ⊆ Recording.covered
          (scrollbackGapRecord s channel prevTs prevMsgid m.timestamp (boundaryMsgid m) .candidate).2.gaps channelId :=
        covered_record h hprev (by omega) (by decide)
      obtain ⟨hrest', hcovers'⟩ := ih _ m.timestamp (boundaryMsgid m)
        (if 0 < (scrollbackGapRecord s channel prevTs prevMsgid m.timestamp (boundaryMsgid m) .candidate).1 then n + 1
          else n) (hrest.settled h)
      exact ⟨hrest'.trans hrest, hcovers.trans hcovers'⟩
    · exact ih s _ _ n h

theorem instants_sorted {rows : List Msg} (h : rows.Pairwise fun a b => a.timestamp ≤ b.timestamp) :
    (instants rows).Pairwise fun i j => i.ts < j.ts := by
  unfold instants
  rw [List.pairwise_map]
  refine (splitBy_key h).2.imp_of_mem fun hg hk hlt => ?_
  obtain ⟨a, g, rfl⟩ := List.exists_cons_of_ne_nil (List.ne_nil_of_mem_splitBy hg)
  obtain ⟨b, k, rfl⟩ := List.exists_cons_of_ne_nil (List.ne_nil_of_mem_splitBy hk)
  exact hlt a List.mem_cons_self b List.mem_cons_self

/-- A channel that was not scanned, with no gaps, and messages at positive times. -/
structure Unscanned (s : Sb) (channelId : Int) : Prop where
  latch : ∀ c ∈ s.channels, c.id = channelId → c.gapBootstrapDone = false
  gaps : ∀ g ∈ s.gaps, g.channelId ≠ channelId
  positive : ∀ m ∈ s.messages, m.channelId = channelId → 0 < m.timestamp

theorem scan_silences (hthreshold : 0 < threshold) (h : Settled s channel channelId) (hs : Unscanned s channelId) (n : Int) :
    let r := (bootstrapLoop channel threshold s (ordered s.messages channelId) 0 none n).2
    channelGaps r.gaps channelId = candidates threshold channelId (instants (ordered s.messages channelId)) ∧
      otherGaps r.gaps channelId = otherGaps s.gaps channelId := by
  have hsorted : (ordered s.messages channelId).Pairwise fun a b => a.timestamp ≤ b.timestamp := by
    refine (List.pairwise_insertionSort keyLe _).imp fun hle => ?_
    rcases hle with hlt | ⟨heq, -⟩
    · exact hlt.le
    · exact heq.le
  have hflat := List.flatten_splitBy (fun a b : Msg => a.timestamp == b.timestamp) (ordered s.messages channelId)
  have hnone : channelGaps s.gaps channelId = [] := by
    rw [channelGaps, List.filter_eq_nil_iff.2 fun g hg => by simpa using hs.gaps g hg, List.map_nil]
  have hpos : ∀ g ∈ (ordered s.messages channelId).splitBy (fun a b => a.timestamp == b.timestamp),
      0 < (Instant.of g).ts := by
    intro g hg
    obtain ⟨m, ms, rfl⟩ := List.exists_cons_of_ne_nil (List.ne_nil_of_mem_splitBy hg)
    have hm : m ∈ ordered s.messages channelId := by
      rw [← hflat]
      exact List.mem_flatten.2 ⟨_, hg, List.mem_cons_self⟩
    obtain ⟨hm, hch⟩ := mem_ordered.1 hm
    exact hs.positive m hm hch
  have hscans := bootstrapLoop_scans hthreshold
    ((ordered s.messages channelId).splitBy fun a b => a.timestamp == b.timestamp)
    (fun g hg => ⟨List.ne_nil_of_mem_splitBy hg, (splitBy_key hsorted).1 g hg⟩) [] s n h (instants_sorted hsorted)
    (fun i hi => absurd hi List.not_mem_nil) hpos hnone
  rw [hflat] at hscans
  exact hscans

end Scan

section Bootstrap

variable {s : Sb} {channel : String} {channelId : Int}

/-- The channel row says that it was scanned. -/
def Latched (channels : List Chan) (channelId : Int) : Bool :=
  channels.any fun c => c.id = channelId ∧ c.gapBootstrapDone

theorem latched_setGapBootstrapDone {channels : List Chan} (h : ∃ c ∈ channels, c.id = channelId) :
    Latched (setGapBootstrapDone channels channelId true) channelId = true := by
  obtain ⟨c, hc, hid⟩ := h
  rw [Latched, List.any_eq_true]
  refine ⟨{ c with gapBootstrapDone := true }, List.mem_map.2 ⟨c, hc, if_pos hid⟩, ?_⟩
  simpa using hid

theorem bootstrap_of_latched (h : Settled s channel channelId) (hlatch : Latched s.channels channelId = true)
    (threshold : Int) : scrollbackGapBootstrap s channel threshold = (-1, s) := by
  unfold scrollbackGapBootstrap
  rw [h.lookup]
  dsimp only
  rw [if_neg (not_le.2 h.pos)]
  split_ifs with hthreshold hdone
  · rfl
  · rfl
  · exact absurd hlatch hdone

/-- A scan that goes through: the loop, and then the latch. -/
theorem bootstrap_of_not_latched (h : Settled s channel channelId) (hlatch : Latched s.channels channelId = false)
    {threshold : Int} (hthreshold : 0 < threshold) :
    (scrollbackGapBootstrap s channel threshold).2 =
      { (bootstrapLoop channel threshold s (ordered s.messages channelId) 0 none 0).2 with
        channels := setGapBootstrapDone s.channels channelId true } := by
  have hrest := (bootstrapLoop_keeps hthreshold (ordered s.messages channelId) s 0 none 0 h).1
  unfold scrollbackGapBootstrap
  rw [if_neg (not_le.2 hthreshold), h.lookup]
  dsimp only
  rw [if_neg (not_le.2 h.pos)]
  split_ifs with hdone
  · rw [Latched] at hlatch
    rw [hlatch] at hdone
    exact absurd hdone Bool.false_ne_true
  · have hchannels := congrArg Sb.channels hrest
    dsimp only at hchannels ⊢
    rw [← hchannels]
    rfl

theorem bootstrap_settled (h : Settled s channel channelId) (hrow : ∃ c ∈ s.channels, c.id = channelId)
    {threshold : Int} (hthreshold : 0 < threshold) :
    let s' := (scrollbackGapBootstrap s channel threshold).2
    (Unscanned s channelId →
      channelGaps s'.gaps channelId = candidates threshold channelId (instants (ordered s.messages channelId)) ∧
        otherGaps s'.gaps channelId = otherGaps s.gaps channelId) ∧
    (∀ threshold', scrollbackGapBootstrap s' channel threshold' = (-1, s')) ∧
    Recording.covered s.gaps channelId ⊆ Recording.covered s'.gaps channelId := by
  cases hlatch : Latched s.channels channelId with
  | true =>
    rw [bootstrap_of_latched h hlatch]
    refine ⟨fun hs' => ?_, bootstrap_of_latched h hlatch, subset_rfl⟩
    obtain ⟨c, hc, hdone⟩ := List.any_eq_true.1 hlatch
    rw [decide_eq_true_eq] at hdone
    rw [hs'.latch c hc hdone.1] at hdone
    exact absurd hdone.2 Bool.false_ne_true
  | false =>
    obtain ⟨hrest, hcovers⟩ := bootstrapLoop_keeps hthreshold (ordered s.messages channelId) s 0 none 0 h
    rw [bootstrap_of_not_latched h hlatch hthreshold]
    refine ⟨fun hs' => scan_silences hthreshold h hs' 0, ?_, hcovers⟩
    have hsettled := hrest.settled h
    exact bootstrap_of_latched ⟨h.pos, h.named, hsettled.cached⟩ (latched_setGapBootstrapDone hrow)

/-- **The bootstrap scan finds exactly the silences.**  On a known channel that was not scanned, with no gaps and
messages at positive times, a positive threshold leaves one candidate for each maximal run of instants that far apart,
from the last message of its first instant to the first message of its last, and the gaps of other channels as they
were.  After it, a scan changes nothing and returns -1, and so does a scan with a threshold that is not positive.
No scan uncovers an instant that live gaps covered. -/
theorem gap_bootstrap_finds_silences (hs : s.Sane) (hch : channelLookup s.channels channel = some channelId)
    (threshold : Int) :
    let s' := (scrollbackGapBootstrap s channel threshold).2
    (0 < threshold → Unscanned s channelId →
      channelGaps s'.gaps channelId = candidates threshold channelId (instants (ordered s.messages channelId)) ∧
        otherGaps s'.gaps channelId = otherGaps s.gaps channelId) ∧
    (0 < threshold → ∀ threshold', scrollbackGapBootstrap s' channel threshold' = (-1, s')) ∧
    (threshold ≤ 0 → scrollbackGapBootstrap s channel threshold = (-1, s)) ∧
    Recording.covered s.gaps channelId ⊆ Recording.covered s'.gaps channelId := by
  obtain ⟨c, hc, hname, hid⟩ := channelLookup_eq_some hch
  have hnamed : channel ≠ "" := hname ▸ hs.named c hc
  obtain ⟨cache, hlookup, -⟩ := scrollbackGetChannelId_known hs channel hnamed hch
  have hpos : 0 < channelId := hs.lookup_pos hch
  have hsettled : Settled { s with channelIdCache := cache } channel channelId := by
    have h : Settled (scrollbackGetChannelId s channel).2 channel (scrollbackGetChannelId s channel).1 :=
      settled_of_lookup (by rw [hlookup]; exact hpos)
    rwa [hlookup] at h
  by_cases hthreshold : threshold ≤ 0
  · have hskip : scrollbackGapBootstrap s channel threshold = (-1, s) := by
      unfold scrollbackGapBootstrap
      rw [if_pos hthreshold]
    rw [hskip]
    exact ⟨fun h => absurd hthreshold (not_le.2 h), fun h => absurd hthreshold (not_le.2 h), fun _ => rfl, subset_rfl⟩
  · have hstart : scrollbackGapBootstrap s channel threshold =
        scrollbackGapBootstrap { s with channelIdCache := cache } channel threshold := by
      unfold scrollbackGapBootstrap
      rw [if_neg hthreshold, if_neg hthreshold, hlookup, hsettled.lookup]
    obtain ⟨hscan, hagain, hcovers⟩ := bootstrap_settled hsettled ⟨c, hc, hid⟩ (not_le.1 hthreshold)
    rw [hstart]
    exact ⟨fun _ hs' => hscan ⟨hs'.latch, hs'.gaps, hs'.positive⟩, fun _ => hagain, fun h => absurd h hthreshold, hcovers⟩

end Bootstrap

/-- Two messages share a second, and are far from both their neighbours. -/
def sharedSecond : Sb :=
  { Recording.Sb.withGaps [] with messages :=
      [⟨1, 1, 1, some "m1", "", none, none, 0, false⟩, ⟨2, 1, 100, some "m2", "", none, none, 0, false⟩,
        ⟨3, 1, 100, some "pending:x", "", none, none, 0, true⟩, ⟨4, 1, 200, some "m4", "", none, none, 0, false⟩] }

theorem sharedSecond_sane : sharedSecond.Sane where
  ids := by decide
  idPos := by decide
  names := by decide
  named := by decide
  chanIds := by decide
  chanPos := by decide
  owned := by decide
  cached := fun _ _ h => by cases h

theorem gap_bootstrap_finds_silences_shared :
    sharedSecond.Sane ∧ channelLookup sharedSecond.channels "#c" = some 1 ∧
      channelGaps (scrollbackGapBootstrap sharedSecond "#c" 50).2.gaps 1 =
        candidates 50 1 (instants (ordered sharedSecond.messages 1)) :=
  have hscan := gap_bootstrap_finds_silences sharedSecond_sane (show channelLookup sharedSecond.channels "#c" = some 1 from rfl) 50
  ⟨sharedSecond_sane, rfl, (hscan.1 (by decide) ⟨by decide, by decide, by decide⟩).1⟩

/-- A message as an instant of its own. -/
def Instant.single (m : Msg) : Instant := Instant.of [m]

/-- Between the messages of one second nothing is silent, but the candidates on both sides of it touch and become one. -/
theorem gap_bootstrap_joins_across_second :
    channelGaps (scrollbackGapBootstrap sharedSecond "#c" 50).2.gaps 1 =
        [⟨0, 1, 1, some "m1", 200, some "m4", .candidate, 0, 0⟩] ∧
      candidates 50 1 ((ordered sharedSecond.messages 1).map Instant.single) =
        [⟨0, 1, 1, some "m1", 100, some "m2", .candidate, 0, 0⟩, ⟨0, 1, 100, none, 200, some "m4", .candidate, 0, 0⟩] :=
  ⟨by decide, by decide⟩

end PoxChat.Scrollback
