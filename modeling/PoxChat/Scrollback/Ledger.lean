import PoxChat.Scrollback.Store

/-!
# The gap ledger

The functions of `scrollback.c` on the table `gaps`: the known holes in the stored history of a
channel.  `scrollback_gap_record` is the only one that merges; the others move bounds, change states
or delete rows by id or by channel.

* The `SELECT` of the merge has no `ORDER BY`; rows are folded in table order.
* The clock is an argument of `scrollbackGapTouch`.
-/

set_option autoImplicit false

namespace PoxChat.Scrollback

/-- The values of the `state` column. -/
def GapState.toInt : GapState → Int
  | .witnessed => 0
  | .candidate => 1
  | .dead => 2

/-- The row is live and overlaps or touches the span, in its channel. -/
def Gap.meets (g : Gap) (channelId startTs endTs : Int) : Bool :=
  decide (g.channelId = channelId ∧ g.state ≠ .dead ∧ g.startTs ≤ endTs ∧ startTs ≤ g.endTs)

/-- The body of the merge loop: the union `u` takes the bounds of `o` that lie outside it, with their
msgids, and the smaller state. -/
def Gap.absorb (u o : Gap) : Gap :=
  let u := if o.startTs < u.startTs then { u with startTs := o.startTs, startMsgid := o.startMsgid } else u
  let u := if u.endTs < o.endTs then { u with endTs := o.endTs, endMsgid := o.endMsgid } else u
  if o.state.toInt < u.state.toInt then { u with state := o.state } else u

/-- `scrollback_gap_record`: the id of the row that survives, or -1. -/
def scrollbackGapRecord (s : Sb) (channel : String) (startTs : Int) (startMsgid : Option String)
    (endTs : Int) (endMsgid : Option String) (state : GapState) : Int × Sb :=
  if startTs ≤ 0 ∨ endTs ≤ startTs then (-1, s)
  else
    let (channelId, s) := scrollbackGetChannelId s channel
    if channelId ≤ 0 then (-1, s)
    else
      let union := (s.gaps.filter fun g => g.meets channelId startTs endTs).foldl Gap.absorb
        ⟨0, channelId, startTs, startMsgid, endTs, endMsgid, state, 0, 0⟩
      let kept := s.gaps.filter fun g => !g.meets channelId startTs endTs
      let id := nextId (kept.map (·.id))
      (id, { s with gaps := kept ++ [{ union with id := id }] })

/-- `scrollback_gap_list`: the gaps of a channel, `ORDER BY start_ts`. -/
def scrollbackGapList (s : Sb) (channel : String) : List Gap × Sb :=
  let (channelId, s) := scrollbackGetChannelId s channel
  if channelId ≤ 0 then ([], s)
  else ((s.gaps.filter fun g => g.channelId = channelId).insertionSort fun g h => g.startTs ≤ h.startTs, s)

/-- `scrollback_gap_get`. -/
def scrollbackGapGet (s : Sb) (gapId : Int) : Option Gap :=
  if gapId ≤ 0 then none else s.gaps.find? fun g => g.id = gapId

/-- `UPDATE gaps SET … WHERE id = ?`. -/
def updateGap (gaps : List Gap) (gapId : Int) (f : Gap → Gap) : List Gap :=
  gaps.map fun g => if g.id = gapId then f g else g

/-- The row after the `UPDATE` of `scrollback_gap_shrink`; a new bound that is not positive keeps the
old one. -/
def Gap.shrink (g : Gap) (newStartTs : Int) (newStartMsgid : Option String) (newEndTs : Int)
    (newEndMsgid : Option String) : Gap :=
  { g with
    startTs := if 0 < newStartTs then newStartTs else g.startTs
    startMsgid := if 0 < newStartTs then newStartMsgid else g.startMsgid
    endTs := if 0 < newEndTs then newEndTs else g.endTs
    endMsgid := if 0 < newEndTs then newEndMsgid else g.endMsgid
    attempts := 0
    lastAttempt := 0 }

/-- `scrollback_gap_shrink`: an inverted result is deleted. -/
def scrollbackGapShrink (s : Sb) (gapId newStartTs : Int) (newStartMsgid : Option String)
    (newEndTs : Int) (newEndMsgid : Option String) : Sb :=
  if gapId ≤ 0 then s
  else
    let gaps := updateGap s.gaps gapId fun g => g.shrink newStartTs newStartMsgid newEndTs newEndMsgid
    { s with gaps := gaps.filter fun g => ¬ (g.id = gapId ∧ g.endTs ≤ g.startTs) }

/-- `scrollback_gap_set_state`. -/
def scrollbackGapSetState (s : Sb) (gapId : Int) (state : GapState) : Sb :=
  if gapId ≤ 0 then s else { s with gaps := updateGap s.gaps gapId fun g => { g with state := state } }

/-- `scrollback_gap_touch`: the new number of attempts. -/
def scrollbackGapTouch (s : Sb) (gapId now : Int) : Int × Sb :=
  if gapId ≤ 0 then (0, s)
  else
    let s := { s with
      gaps := updateGap s.gaps gapId fun g => { g with attempts := g.attempts + 1, lastAttempt := now } }
    (((s.gaps.find? fun g => g.id = gapId).map (·.attempts)).getD 0, s)

/-- `scrollback_gap_delete`. -/
def scrollbackGapDelete (s : Sb) (gapId : Int) : Sb :=
  if gapId ≤ 0 then s else { s with gaps := s.gaps.filter fun g => g.id ≠ gapId }

/-- `scrollback_gap_drop_msgids`: whether there was a msgid to drop. -/
def scrollbackGapDropMsgids (s : Sb) (gapId : Int) : Bool × Sb :=
  if gapId ≤ 0 then (false, s)
  else
    let anchored (g : Gap) : Bool := g.startMsgid.isSome || g.endMsgid.isSome
    (s.gaps.any fun g => g.id = gapId ∧ anchored g,
      { s with gaps := updateGap s.gaps gapId fun g =>
          if anchored g then { g with startMsgid := none, endMsgid := none, attempts := 0, lastAttempt := 0 }
          else g })

/-- `scrollback_gap_delete_candidates`: the number of rows deleted. -/
def scrollbackGapDeleteCandidates (s : Sb) (channel : String) : Int × Sb :=
  let (channelId, s) := scrollbackGetChannelId s channel
  if channelId ≤ 0 then (0, s)
  else
    ((s.gaps.filter fun g => g.channelId = channelId ∧ g.state = .candidate).length,
      { s with gaps := s.gaps.filter fun g => ¬ (g.channelId = channelId ∧ g.state = .candidate) })

/-- The rows `scrollback_gap_reset` updates: one gap of the channel, or all of them. -/
def Gap.resets (g : Gap) (channelId gapId : Int) : Bool :=
  decide (g.channelId = channelId ∧ (gapId ≤ 0 ∨ g.id = gapId))

/-- The row after a reset. -/
def Gap.reset (g : Gap) : Gap :=
  { g with state := .witnessed, attempts := 0, lastAttempt := 0, startMsgid := none, endMsgid := none }

/-- `scrollback_gap_reset`: the number of rows updated. -/
def scrollbackGapReset (s : Sb) (channel : String) (gapId : Int) : Int × Sb :=
  let (channelId, s) := scrollbackGetChannelId s channel
  if channelId ≤ 0 then (0, s)
  else
    ((s.gaps.filter fun g => g.resets channelId gapId).length,
      { s with gaps := s.gaps.map fun g => if g.resets channelId gapId then g.reset else g })

/-- `UPDATE channels SET gap_bootstrap_done = ? WHERE id = ?`. -/
def setGapBootstrapDone (channels : List Chan) (channelId : Int) (done : Bool) : List Chan :=
  channels.map fun c => if c.id = channelId then { c with gapBootstrapDone := done } else c

/-- `scrollback_gap_bootstrap_reset`. -/
def scrollbackGapBootstrapReset (s : Sb) (channel : String) : Sb :=
  let (channelId, s) := scrollbackGetChannelId s channel
  if channelId ≤ 0 then s else { s with channels := setGapBootstrapDone s.channels channelId false }

/-- The row loop of `scrollback_gap_bootstrap`: the row before, and the candidates recorded so far. -/
def bootstrapLoop (channel : String) (thresholdSecs : Int) :
    Sb → List Msg → Int → Option String → Int → Int × Sb
  | s, [], _, _, recorded => (recorded, s)
  | s, m :: rows, prevTs, prevMsgid, recorded =>
    -- a placeholder of our own is never a boundary msgid
    let msgid := if isPending m.msgid then none else m.msgid
    if 0 < prevTs ∧ thresholdSecs ≤ m.timestamp - prevTs then
      let (id, s) := scrollbackGapRecord s channel prevTs prevMsgid m.timestamp msgid .candidate
      bootstrapLoop channel thresholdSecs s rows m.timestamp msgid (if 0 < id then recorded + 1 else recorded)
    else bootstrapLoop channel thresholdSecs s rows m.timestamp msgid recorded

/-- `scrollback_gap_bootstrap`: the candidates recorded, or -1. -/
def scrollbackGapBootstrap (s : Sb) (channel : String) (thresholdSecs : Int) : Int × Sb :=
  if thresholdSecs ≤ 0 then (-1, s)
  else
    let (channelId, s) := scrollbackGetChannelId s channel
    if channelId ≤ 0 then (-1, s)
    else if s.channels.any fun c => c.id = channelId ∧ c.gapBootstrapDone then (-1, s)
    else
      let rows := selectAsc s.messages fun m => m.channelId = channelId
      let (recorded, s) := bootstrapLoop channel thresholdSecs s rows 0 none 0
      (recorded, { s with channels := setGapBootstrapDone s.channels channelId true })

/-- A call on the ledger, or on the rest of the store. -/
inductive LedgerOp where
  | record (channel : String) (startTs : Int) (startMsgid : Option String) (endTs : Int)
      (endMsgid : Option String) (state : GapState)
  | shrink (gapId newStartTs : Int) (newStartMsgid : Option String) (newEndTs : Int)
      (newEndMsgid : Option String)
  | setState (gapId : Int) (state : GapState)
  | touch (gapId now : Int)
  | delete (gapId : Int)
  | dropMsgids (gapId : Int)
  | deleteCandidates (channel : String)
  | reset (channel : String) (gapId : Int)
  | bootstrapReset (channel : String)
  | bootstrap (channel : String) (thresholdSecs : Int)
  | store (op : Op)

/-- The state after a call. -/
def ledgerStep (s : Sb) : LedgerOp → Sb
  | .record channel startTs startMsgid endTs endMsgid state =>
    (scrollbackGapRecord s channel startTs startMsgid endTs endMsgid state).2
  | .shrink gapId newStartTs newStartMsgid newEndTs newEndMsgid =>
    scrollbackGapShrink s gapId newStartTs newStartMsgid newEndTs newEndMsgid
  | .setState gapId state => scrollbackGapSetState s gapId state
  | .touch gapId now => (scrollbackGapTouch s gapId now).2
  | .delete gapId => scrollbackGapDelete s gapId
  | .dropMsgids gapId => (scrollbackGapDropMsgids s gapId).2
  | .deleteCandidates channel => (scrollbackGapDeleteCandidates s channel).2
  | .reset channel gapId => (scrollbackGapReset s channel gapId).2
  | .bootstrapReset channel => scrollbackGapBootstrapReset s channel
  | .bootstrap channel thresholdSecs => (scrollbackGapBootstrap s channel thresholdSecs).2
  | .store op => step s op

def ledgerRun (s : Sb) (ops : List LedgerOp) : Sb := ops.foldl ledgerStep s

end PoxChat.Scrollback
