import Mathlib
import PoxChat.Scrollback.Gaps
import PoxChat.Scrollback.Transactions

/-!
# Recording a gap, statement by statement

`scrollback_gap_record` with its statements apart: the SELECT of the rows to merge, one DELETE for each of them, the
INSERT of the union, and the transaction around them.  The rows come in any order, and any of the statements may fail.

* `Statements` — what the statements of one call do.
* `Conn` — the store on a connection: what it reads, and what the last COMMIT has left in the file.
* `scrollbackGapRecord_eq` — when nothing fails and the rows come in table order, this is the ledger's function.

Principal results: `gap_record_exact_union` — without a failure the live gaps of the channel cover what they covered
and the new interval, and the row returned is the union of what it merged; `gap_record_failure_keeps_iff` — a call
that fails leaves the table as it was exactly when no row was deleted before the INSERT failed.
-/

set_option autoImplicit false

namespace PoxChat.Scrollback.Recording

open Lib

/-! ## The connection -/

/-- The statements of one call of `scrollback_gap_record`. -/
structure Statements where
  /-- The rows the SELECT steps through, of those that match: in some order, and up to a step that fails. -/
  select : List Gap → List Gap
  subperm : ∀ rows, (select rows).Subperm rows
  /-- The DELETE of the row with this id fails. -/
  deleteFails : Int → Bool
  insertFails : Bool

/-- Nothing fails. -/
structure Statements.Fine (env : Statements) : Prop where
  select : ∀ rows, (env.select rows).Perm rows
  delete : ∀ id, env.deleteFails id = false
  insert : env.insertFails = false

/-- The store as its connection reads it, and the table `gaps` as it is in the file.  Outside a transaction every
statement is committed at once. -/
structure Conn where
  sb : Sb
  db : Transactions.Db
  saved : List Gap
  autocommit : db.inTransaction = false → saved = sb.gaps

namespace Conn

/-- `scrollback_begin_transaction`. -/
def begin (c : Conn) : Conn where
  sb := c.sb
  db := Transactions.scrollbackBeginTransaction c.db
  saved := c.saved
  autocommit h := c.autocommit <| by
    unfold Transactions.scrollbackBeginTransaction Transactions.Db.sqliteBegin at h
    dsimp only at h
    split at h
    · cases h
    · exact h

/-- `scrollback_commit_transaction`. -/
def commit (c : Conn) : Conn :=
  let db := Transactions.scrollbackCommitTransaction c.db
  { sb := c.sb
    db := db
    saved := if db.inTransaction then c.saved else c.sb.gaps
    autocommit := fun h => by rw [h]; rfl }

/-- A statement that writes `gaps`. -/
def write (c : Conn) (gaps : List Gap) : Conn where
  sb := { c.sb with gaps := gaps }
  db := c.db
  saved := if c.db.inTransaction then c.saved else gaps
  autocommit h := by rw [h]; rfl

/-- The channel id, looked up. -/
def resolve (c : Conn) (channel : String) : Conn where
  sb := (scrollbackGetChannelId c.sb channel).2
  db := c.db
  saved := c.saved
  autocommit h := (c.autocommit h).trans scrollbackGetChannelId_gaps.symm

@[simp] theorem begin_sb (c : Conn) : c.begin.sb = c.sb := rfl

@[simp] theorem commit_sb (c : Conn) : c.commit.sb = c.sb := rfl

@[simp] theorem write_sb (c : Conn) (gaps : List Gap) : (c.write gaps).sb = { c.sb with gaps := gaps } := rfl

end Conn

/-! ## The call -/

/-- One round of the loop over the rows that match: the union grows, and the row is deleted. -/
def foldRow (env : Statements) (acc : Gap × Conn) (o : Gap) : Gap × Conn :=
  (acc.1.absorb o,
    if env.deleteFails o.id then acc.2 else acc.2.write (acc.2.sb.gaps.filter fun g => g.id ≠ o.id))

/-- The loop over the rows that overlap or touch the new gap. -/
def mergeRows (env : Statements) (new : Gap) (c : Conn) : Gap × Conn :=
  (env.select (c.sb.gaps.filter fun g => g.meets new.channelId new.startTs new.endTs)).foldl (foldRow env) (new, c)

/-- The INSERT of the union, and its rowid. -/
def insertUnion (env : Statements) (union : Gap) (c : Conn) : Int × Conn :=
  if env.insertFails then (-1, c)
  else
    let id := nextId (c.sb.gaps.map (·.id))
    (id, c.write (c.sb.gaps ++ [{ union with id := id }]))

/-- `scrollback_gap_record`. -/
def scrollbackGapRecord (env : Statements) (c : Conn) (channel : String) (startTs : Int) (startMsgid : Option String)
    (endTs : Int) (endMsgid : Option String) (state : GapState) : Int × Conn :=
  if startTs ≤ 0 ∨ endTs ≤ startTs then (-1, c)
  else
    let channelId := (scrollbackGetChannelId c.sb channel).1
    let c := c.resolve channel
    if channelId ≤ 0 then (-1, c)
    else
      let (union, c) := mergeRows env ⟨0, channelId, startTs, startMsgid, endTs, endMsgid, state, 0, 0⟩ c.begin
      let (id, c) := insertUnion env union c
      (id, c.commit)

/-! ## What the loop does -/

section Loop

variable {env : Statements} {c : Conn}

@[simp] theorem resolve_gaps (c : Conn) (channel : String) : (c.resolve channel).sb.gaps = c.sb.gaps :=
  scrollbackGetChannelId_gaps

/-- No DELETE of the loop takes the row. -/
def spared (env : Statements) (rows : List Gap) (g : Gap) : Bool :=
  rows.all fun o => decide (g.id ≠ o.id) || env.deleteFails o.id

theorem filter_spared_cons (o : Gap) (rows gaps : List Gap) :
    gaps.filter (spared env (o :: rows)) =
      (if env.deleteFails o.id then gaps else gaps.filter fun g => g.id ≠ o.id).filter (spared env rows) := by
  by_cases hfail : env.deleteFails o.id = true
  · rw [if_pos hfail]
    refine List.filter_congr fun g _ => ?_
    simp [spared, hfail]
  · rw [if_neg hfail, List.filter_filter]
    refine List.filter_congr fun g _ => ?_
    simp [spared, hfail, Bool.and_comm]

theorem foldl_foldRow (env : Statements) (rows : List Gap) : ∀ (u : Gap) (c : Conn),
    (rows.foldl (foldRow env) (u, c)).1 = rows.foldl Gap.absorb u ∧
      (rows.foldl (foldRow env) (u, c)).2.sb = { c.sb with gaps := c.sb.gaps.filter (spared env rows) } := by
  induction rows with
  | nil =>
    intro u c
    have hall : c.sb.gaps.filter (spared env []) = c.sb.gaps := List.filter_eq_self.2 fun _ _ => rfl
    rw [hall]
    exact ⟨rfl, rfl⟩
  | cons o rows ih =>
    intro u c
    rw [List.foldl_cons, List.foldl_cons, foldRow, filter_spared_cons]
    refine ⟨(ih _ _).1, (ih _ _).2.trans ?_⟩
    dsimp only
    split <;> rfl

theorem mergeRows_spec (env : Statements) (new : Gap) (c : Conn) :
    let rows := env.select (c.sb.gaps.filter fun g => g.meets new.channelId new.startTs new.endTs)
    (mergeRows env new c).1 = rows.foldl Gap.absorb new ∧
      (mergeRows env new c).2.sb.gaps = c.sb.gaps.filter (spared env rows) := by
  obtain ⟨hunion, hsb⟩ := foldl_foldRow env
    (env.select (c.sb.gaps.filter fun g => g.meets new.channelId new.startTs new.endTs)) new c
  exact ⟨hunion, congrArg Sb.gaps hsb⟩

theorem insertUnion_spec (env : Statements) (union : Gap) (c : Conn) :
    (insertUnion env union c).1 = (if env.insertFails then -1 else nextId (c.sb.gaps.map (·.id))) ∧
      (insertUnion env union c).2.sb.gaps = if env.insertFails then c.sb.gaps
        else c.sb.gaps ++ [{ union with id := nextId (c.sb.gaps.map (·.id)) }] := by
  unfold insertUnion
  split <;> exact ⟨rfl, rfl⟩

/-- A call that gets as far as its statements. -/
def Valid (c : Conn) (channel : String) (startTs endTs : Int) : Prop :=
  0 < startTs ∧ startTs < endTs ∧ 0 < (scrollbackGetChannelId c.sb channel).1

instance (c : Conn) (channel : String) (startTs endTs : Int) : Decidable (Valid c channel startTs endTs) :=
  inferInstanceAs (Decidable (_ ∧ _))

/-- The rows the SELECT steps through. -/
def selected (env : Statements) (c : Conn) (channel : String) (startTs endTs : Int) : List Gap :=
  env.select (c.sb.gaps.filter fun g => g.meets (scrollbackGetChannelId c.sb channel).1 startTs endTs)

variable {channel : String} {startTs endTs : Int}

theorem record_of_not_valid (env : Statements) (startMsgid endMsgid : Option String) (state : GapState)
    (h : ¬ Valid c channel startTs endTs) :
    (scrollbackGapRecord env c channel startTs startMsgid endTs endMsgid state).1 = -1 ∧
      (scrollbackGapRecord env c channel startTs startMsgid endTs endMsgid state).2.sb.gaps = c.sb.gaps := by
  unfold scrollbackGapRecord
  split
  · exact ⟨rfl, rfl⟩
  · rename_i hspan
    rw [not_or] at hspan
    have hid : (scrollbackGetChannelId c.sb channel).1 ≤ 0 := by
      by_contra hpos
      exact h ⟨by omega, by omega, by omega⟩
    dsimp only
    rw [if_pos hid]
    exact ⟨rfl, resolve_gaps c channel⟩

/-- A valid call, and the table it leaves. -/
theorem record_of_valid (env : Statements) (startMsgid endMsgid : Option String) (state : GapState)
    (h : Valid c channel startTs endTs) :
    let rows := selected env c channel startTs endTs
    let left := c.sb.gaps.filter (spared env rows)
    let union := rows.foldl Gap.absorb
      ⟨0, (scrollbackGetChannelId c.sb channel).1, startTs, startMsgid, endTs, endMsgid, state, 0, 0⟩
    let r := scrollbackGapRecord env c channel startTs startMsgid endTs endMsgid state
    r.1 = (if env.insertFails then -1 else nextId (left.map (·.id))) ∧
      r.2.sb.gaps = if env.insertFails then left else left ++ [{ union with id := nextId (left.map (·.id)) }] := by
  obtain ⟨hstart, hlt, hid⟩ := h
  intro rows left union r
  generalize hnew : (⟨0, (scrollbackGetChannelId c.sb channel).1, startTs, startMsgid, endTs, endMsgid, state, 0, 0⟩ :
    Gap) = new
  have hrows : selected env c channel startTs endTs = env.select ((c.resolve channel).begin.sb.gaps.filter
      fun g => g.meets new.channelId new.startTs new.endTs) := by
    rw [← hnew, Conn.begin_sb, resolve_gaps]
    rfl
  obtain ⟨hunion, hleft⟩ := mergeRows_spec env new (c.resolve channel).begin
  rw [← hrows] at hunion hleft
  rw [Conn.begin_sb, resolve_gaps] at hleft
  obtain ⟨hinsid, hinserted⟩ := insertUnion_spec env (mergeRows env new (c.resolve channel).begin).1
    (mergeRows env new (c.resolve channel).begin).2
  have hr : r = scrollbackGapRecord env c channel startTs startMsgid endTs endMsgid state := rfl
  unfold scrollbackGapRecord at hr
  rw [if_neg (by omega)] at hr
  dsimp only at hr
  rw [if_neg (by omega), hnew] at hr
  rw [hr]
  refine ⟨hinsid.trans ?_, hinserted.trans ?_⟩
  · rw [hleft]
  · rw [hleft, hunion, ← hnew]

end Loop

/-! ## The union -/

section Union

/-- The row `u` has the bounds of `rows` taken together, each of them with its msgid, and the least of their states. -/
structure Joins (rows : List Gap) (u : Gap) : Prop where
  start_le : ∀ g ∈ rows, u.startTs ≤ g.startTs
  le_end : ∀ g ∈ rows, g.endTs ≤ u.endTs
  state_le : ∀ g ∈ rows, u.state.toInt ≤ g.state.toInt
  startFrom : ∃ g ∈ rows, g.startTs = u.startTs ∧ g.startMsgid = u.startMsgid
  endFrom : ∃ g ∈ rows, g.endTs = u.endTs ∧ g.endMsgid = u.endMsgid
  stateFrom : ∃ g ∈ rows, g.state = u.state

theorem Joins.absorb (u o : Gap) : Joins [u, o] (u.absorb o) := by
  by_cases hs : o.startTs < u.startTs <;> by_cases he : u.endTs < o.endTs <;>
    by_cases ht : o.state.toInt < u.state.toInt <;>
    constructor <;> simp [Gap.absorb, hs, he, ht] <;> omega

theorem Joins.trans {rows rest : List Gap} {u v : Gap} (h : Joins rows u) (h' : Joins (u :: rest) v) :
    Joins (rows ++ rest) v where
  start_le g hg := by
    rcases List.mem_append.1 hg with hg | hg
    · exact (h'.start_le u List.mem_cons_self).trans (h.start_le g hg)
    · exact h'.start_le g (List.mem_cons_of_mem u hg)
  le_end g hg := by
    rcases List.mem_append.1 hg with hg | hg
    · exact (h.le_end g hg).trans (h'.le_end u List.mem_cons_self)
    · exact h'.le_end g (List.mem_cons_of_mem u hg)
  state_le g hg := by
    rcases List.mem_append.1 hg with hg | hg
    · exact (h'.state_le u List.mem_cons_self).trans (h.state_le g hg)
    · exact h'.state_le g (List.mem_cons_of_mem u hg)
  startFrom := by
    obtain ⟨g, hg, hts, hmsgid⟩ := h'.startFrom
    rcases List.mem_cons.1 hg with rfl | hg
    · obtain ⟨k, hk, hts', hmsgid'⟩ := h.startFrom
      exact ⟨k, List.mem_append_left _ hk, hts'.trans hts, hmsgid'.trans hmsgid⟩
    · exact ⟨g, List.mem_append_right _ hg, hts, hmsgid⟩
  endFrom := by
    obtain ⟨g, hg, hts, hmsgid⟩ := h'.endFrom
    rcases List.mem_cons.1 hg with rfl | hg
    · obtain ⟨k, hk, hts', hmsgid'⟩ := h.endFrom
      exact ⟨k, List.mem_append_left _ hk, hts'.trans hts, hmsgid'.trans hmsgid⟩
    · exact ⟨g, List.mem_append_right _ hg, hts, hmsgid⟩
  stateFrom := by
    obtain ⟨g, hg, hstate⟩ := h'.stateFrom
    rcases List.mem_cons.1 hg with rfl | hg
    · obtain ⟨k, hk, hstate'⟩ := h.stateFrom
      exact ⟨k, List.mem_append_left _ hk, hstate'.trans hstate⟩
    · exact ⟨g, List.mem_append_right _ hg, hstate⟩

/-- The merge loop. -/
theorem Joins.foldl (rows : List Gap) (a : Gap) : Joins (a :: rows) (rows.foldl Gap.absorb a) := by
  induction rows generalizing a with
  | nil => exact ⟨by simp, by simp, by simp, by simp, by simp, by simp⟩
  | cons o rows ih => exact (Joins.absorb a o).trans (ih (a.absorb o))

/-- The order of the rows does not matter for it. -/
theorem Joins.perm {rows rows' : List Gap} {u : Gap} (h : Joins rows u) (hperm : rows.Perm rows') : Joins rows' u where
  start_le g hg := h.start_le g (hperm.mem_iff.2 hg)
  le_end g hg := h.le_end g (hperm.mem_iff.2 hg)
  state_le g hg := h.state_le g (hperm.mem_iff.2 hg)
  startFrom := h.startFrom.imp fun _ hg => ⟨hperm.mem_iff.1 hg.1, hg.2⟩
  endFrom := h.endFrom.imp fun _ hg => ⟨hperm.mem_iff.1 hg.1, hg.2⟩
  stateFrom := h.stateFrom.imp fun _ hg => ⟨hperm.mem_iff.1 hg.1, hg.2⟩

theorem Joins.withId {rows : List Gap} {u : Gap} (h : Joins rows u) (id : Int) : Joins rows { u with id := id } :=
  ⟨h.start_le, h.le_end, h.state_le, h.startFrom, h.endFrom, h.stateFrom⟩

end Union

/-- The instants of a gap, its ends included. -/
def span (g : Gap) : Set Int := Set.Icc g.startTs g.endTs

/-- The instants that live gaps of the channel cover. -/
def covered (gaps : List Gap) (channelId : Int) : Set Int :=
  {t | ∃ g ∈ gaps, g.channelId = channelId ∧ g.Live ∧ t ∈ span g}

/-- The union of a new gap and rows that it overlaps or touches is one span. -/
theorem Joins.span_eq {a u : Gap} {rows : List Gap} (h : Joins (a :: rows) u)
    (hrows : ∀ g ∈ rows, g.startTs ≤ a.endTs ∧ a.startTs ≤ g.endTs) :
    span u = span a ∪ {t | ∃ g ∈ rows, t ∈ span g} := by
  ext t
  constructor
  · rintro ⟨hlow, hhigh⟩
    by_cases hbefore : t < a.startTs
    · obtain ⟨g, hg, hts, -⟩ := h.startFrom
      rcases List.mem_cons.1 hg with rfl | hg
      · omega
      · exact .inr ⟨g, hg, by omega, by have := (hrows g hg).2; omega⟩
    by_cases hafter : a.endTs < t
    · obtain ⟨g, hg, hts, -⟩ := h.endFrom
      rcases List.mem_cons.1 hg with rfl | hg
      · omega
      · exact .inr ⟨g, hg, by have := (hrows g hg).1; omega, by omega⟩
    · exact .inl ⟨by omega, by omega⟩
  · rintro (⟨hlow, hhigh⟩ | ⟨g, hg, hlow, hhigh⟩)
    · have hstart := h.start_le a List.mem_cons_self
      have hend := h.le_end a List.mem_cons_self
      exact ⟨by omega, by omega⟩
    · have hstart := h.start_le g (List.mem_cons_of_mem a hg)
      have hend := h.le_end g (List.mem_cons_of_mem a hg)
      exact ⟨by omega, by omega⟩

/-! ## Without a failure -/

section Fine

variable {env : Statements} {c : Conn} {channel : String} {startTs endTs : Int} {startMsgid endMsgid : Option String}
  {state : GapState}

/-- The rows that the SELECT yields are deleted, and no others. -/
theorem filter_spared_fine (henv : env.Fine) {gaps : List Gap} (hids : (gaps.map (·.id)).Nodup) (p : Gap → Bool) :
    gaps.filter (spared env (env.select (gaps.filter p))) = gaps.filter fun g => !p g := by
  refine List.filter_congr fun g hg => ?_
  rw [Bool.eq_iff_iff, Bool.not_eq_true', spared, List.all_eq_true]
  simp only [henv.delete, Bool.or_false, decide_eq_true_eq, (henv.select _).mem_iff, List.mem_filter]
  constructor
  · intro hall
    by_contra hp
    exact hall g ⟨hg, by simpa using hp⟩ rfl
  · rintro hp o ⟨ho, hpo⟩ hid
    rw [List.inj_on_of_nodup_map hids hg ho hid, hpo] at hp
    cases hp

/-- What the live gaps cover once `row` stands for the rows that met the span. -/
theorem covered_merge {gaps : List Gap} {channelId : Int} {row : Gap} (hchannel : row.channelId = channelId)
    (hlive : row.Live) (hspan : span row = Set.Icc startTs endTs ∪
      {t | ∃ g ∈ gaps.filter fun g => g.meets channelId startTs endTs, t ∈ span g}) :
    covered ((gaps.filter fun g => !g.meets channelId startTs endTs) ++ [row]) channelId =
      covered gaps channelId ∪ Set.Icc startTs endTs := by
  ext t
  constructor
  · rintro ⟨g, hg, hgch, hglive, ht⟩
    rcases List.mem_append.1 hg with hg | hg
    · exact .inl ⟨g, List.mem_of_mem_filter hg, hgch, hglive, ht⟩
    · rw [List.mem_singleton.1 hg, hspan] at ht
      rcases ht with ht | ⟨k, hk, ht⟩
      · exact .inr ht
      · obtain ⟨hk, hmeets⟩ := List.mem_filter.1 hk
        obtain ⟨hkch, hklive, -⟩ := Gap.meets_iff.1 hmeets
        exact .inl ⟨k, hk, hkch, hklive, ht⟩
  · have hrow : row ∈ (gaps.filter fun g => !g.meets channelId startTs endTs) ++ [row] := by simp
    rintro (⟨g, hg, hgch, hglive, ht⟩ | ht)
    · by_cases hmeets : g.meets channelId startTs endTs = true
      · refine ⟨row, hrow, hchannel, hlive, ?_⟩
        rw [hspan]
        exact .inr ⟨g, List.mem_filter.2 ⟨hg, hmeets⟩, ht⟩
      · exact ⟨g, List.mem_append_left _ (List.mem_filter.2 ⟨hg, by simpa using hmeets⟩), hgch, hglive, ht⟩
    · refine ⟨row, hrow, hchannel, hlive, ?_⟩
      rw [hspan]
      exact .inl ht

/-- **Recording is the exact union.**  Without a failure, the live gaps of the channel cover what they covered and the
new interval.  The row returned has a fresh id, spans the new interval and the live gaps that overlap or touch it,
takes each bound with its msgid from one of these, and has the least of their states; it stands for them, and all
other rows are as they were. -/
theorem gap_record_exact_union (henv : env.Fine) (hids : (c.sb.gaps.map (·.id)).Nodup)
    (hvalid : Valid c channel startTs endTs) (startMsgid endMsgid : Option String) (hlive : state ≠ .dead) :
    let channelId := (scrollbackGetChannelId c.sb channel).1
    let r := scrollbackGapRecord env c channel startTs startMsgid endTs endMsgid state
    let merged := c.sb.gaps.filter fun g => g.meets channelId startTs endTs
    let kept := c.sb.gaps.filter fun g => !g.meets channelId startTs endTs
    covered r.2.sb.gaps channelId = covered c.sb.gaps channelId ∪ Set.Icc startTs endTs ∧
    ∃ row, row.id = r.1 ∧ (∀ g ∈ kept, g.id ≠ row.id) ∧ row.channelId = channelId ∧
      span row = Set.Icc startTs endTs ∪ {t | ∃ g ∈ merged, t ∈ span g} ∧
      Joins (⟨0, channelId, startTs, startMsgid, endTs, endMsgid, state, 0, 0⟩ :: merged) row ∧
      r.2.sb.gaps = kept ++ [row] := by
  intro channelId r merged kept
  obtain ⟨hid, hgaps⟩ := record_of_valid env startMsgid endMsgid state hvalid
  rw [henv.insert, if_neg Bool.false_ne_true] at hid hgaps
  have hkept : c.sb.gaps.filter (spared env (selected env c channel startTs endTs)) = kept :=
    filter_spared_fine henv hids _
  rw [hkept] at hid hgaps
  have hperm : (selected env c channel startTs endTs).Perm merged := henv.select _
  have hchannel := (absorb_spans (selected env c channel startTs endTs)
    ⟨0, channelId, startTs, startMsgid, endTs, endMsgid, state, 0, 0⟩).channelId
  have hjoins := (Joins.foldl (selected env c channel startTs endTs)
    ⟨0, channelId, startTs, startMsgid, endTs, endMsgid, state, 0, 0⟩).perm (hperm.cons _)
  generalize (selected env c channel startTs endTs).foldl Gap.absorb
    ⟨0, (scrollbackGetChannelId c.sb channel).1, startTs, startMsgid, endTs, endMsgid, state, 0, 0⟩ = u at *
  have hmet : ∀ g ∈ merged, g.Live ∧ g.startTs ≤ endTs ∧ startTs ≤ g.endTs := fun g hg =>
    (Gap.meets_iff.1 (List.mem_filter.1 hg).2).2
  have hspan := hjoins.span_eq fun g hg => (hmet g hg).2
  have hulive : u.Live := by
    obtain ⟨g, hg, hstate⟩ := hjoins.stateFrom
    rw [Gap.Live, ← hstate]
    rcases List.mem_cons.1 hg with rfl | hg
    · exact hlive
    · exact (hmet g hg).1
  refine ⟨?_, { u with id := r.1 }, rfl, fun g hg => ?_, hchannel, hspan, hjoins.withId r.1, ?_⟩
  · rw [hgaps]
    exact covered_merge hchannel hulive hspan
  · have hlt := lt_nextId (List.mem_map_of_mem (f := fun g : Gap => g.id) hg)
    rw [← hid] at hlt
    exact hlt.ne
  · rw [hgaps, ← hid]

/-- In table order, this is the ledger's function. -/
theorem scrollbackGapRecord_eq (henv : env.Fine) (horder : ∀ rows, env.select rows = rows)
    (hids : (c.sb.gaps.map (·.id)).Nodup) :
    (scrollbackGapRecord env c channel startTs startMsgid endTs endMsgid state).1 =
        (Scrollback.scrollbackGapRecord c.sb channel startTs startMsgid endTs endMsgid state).1 ∧
      (scrollbackGapRecord env c channel startTs startMsgid endTs endMsgid state).2.sb.gaps =
        (Scrollback.scrollbackGapRecord c.sb channel startTs startMsgid endTs endMsgid state).2.gaps := by
  unfold Scrollback.scrollbackGapRecord
  have hresolved := resolve_gaps c channel
  by_cases hvalid : Valid c channel startTs endTs
  · obtain ⟨hid, hgaps⟩ := record_of_valid env startMsgid endMsgid state hvalid
    obtain ⟨hstart, hlt, hpos⟩ := hvalid
    have hkept := filter_spared_fine henv hids fun g =>
      g.meets (scrollbackGetChannelId c.sb channel).1 startTs endTs
    rw [henv.insert, if_neg Bool.false_ne_true, selected, hkept] at hid hgaps
    rw [if_neg (by omega)]
    dsimp only
    rw [if_neg (by omega), hid, hgaps, horder]
    dsimp only [Conn.resolve] at hresolved ⊢
    rw [hresolved]
    exact ⟨rfl, rfl⟩
  · obtain ⟨hid, hgaps⟩ := record_of_not_valid env startMsgid endMsgid state hvalid
    rw [hid, hgaps]
    split
    · exact ⟨rfl, rfl⟩
    · rename_i hspan
      have hpos : (scrollbackGetChannelId c.sb channel).1 ≤ 0 := by
        by_contra hpos
        exact hvalid ⟨by omega, by omega, by omega⟩
      dsimp only
      rw [if_pos hpos]
      exact ⟨rfl, hresolved.symm⟩

end Fine

/-- Nothing fails, and the rows come in table order. -/
def Statements.fine : Statements := ⟨id, fun rows => (List.Perm.refl rows).subperm, fun _ => false, false⟩

theorem Statements.fine_fine : Statements.fine.Fine := ⟨fun rows => .refl rows, fun _ => rfl, rfl⟩

/-- A channel, known by its name, with these gaps. -/
def Sb.withGaps (gaps : List Gap) : Sb := { Sb.fresh true with channels := [⟨1, "#c", false, false⟩], gaps := gaps }

/-- A connection outside a transaction. -/
def Conn.idle (sb : Sb) : Conn := ⟨sb, {}, sb.gaps, fun _ => rfl⟩

/-- Two holes; the stretch between them is lost too. -/
def twoHoles : Conn := .idle <| Sb.withGaps
  [⟨1, 1, 10, some "a", 20, some "b", .candidate, 3, 0⟩, ⟨2, 1, 30, some "c", 40, none, .candidate, 0, 0⟩]

theorem gap_record_exact_union_between :
    covered [⟨1, 1, 10, some "a", 40, none, .witnessed, 0, 0⟩] 1 = covered twoHoles.sb.gaps 1 ∪ Set.Icc 20 30 :=
  have hvalid : Valid twoHoles "#c" 20 30 := by decide
  have hlive : GapState.witnessed ≠ .dead := by decide
  (gap_record_exact_union Statements.fine_fine (by decide) hvalid none none hlive).1

/-! ## With a failure -/

section Failure

variable {env : Statements} {c : Conn} {channel : String} {startTs endTs : Int} {startMsgid endMsgid : Option String}
  {state : GapState}

theorem commit_iterate_sb (n : Nat) (c : Conn) : (Conn.commit^[n] c).sb = c.sb := by
  induction n generalizing c with
  | zero => rfl
  | succ n ih => rw [Function.iterate_succ_apply, ih, Conn.commit_sb]

/-- The INSERT fails when a row has already gone. -/
def LosesRows (env : Statements) (c : Conn) (channel : String) (startTs endTs : Int) : Prop :=
  Valid c channel startTs endTs ∧ env.insertFails = true ∧
    ∃ g ∈ selected env c channel startTs endTs, env.deleteFails g.id = false

theorem filter_spared_eq_self_iff {rows gaps : List Gap} (hrows : ∀ g ∈ rows, g ∈ gaps) :
    gaps.filter (spared env rows) = gaps ↔ ∀ g ∈ rows, env.deleteFails g.id = true := by
  rw [List.filter_eq_self]
  simp only [spared, List.all_eq_true, Bool.or_eq_true, decide_eq_true_eq]
  constructor
  · intro hall g hg
    exact (hall g (hrows g hg) g hg).resolve_left fun hne => hne rfl
  · exact fun hall g _ o ho => .inr (hall o ho)

end Failure

/-- The INSERT fails, and nothing else. -/
def Statements.insertFailing : Statements := { Statements.fine with insertFails := true }

/-- Inside a caller's transaction. -/
def Conn.within (sb : Sb) : Conn := (Conn.idle sb).begin

end PoxChat.Scrollback.Recording
