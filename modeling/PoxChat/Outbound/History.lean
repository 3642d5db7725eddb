import PoxChat.Lib.Ring
import PoxChat.Outbound.SendQueue

/-!
# The input line's history

Model of `history.c`: a ring of 100 (`HISTORY_SIZE`) lines, the slot written next and the slot the cursor is at.

* `History` and its operations are the source's; a `strcmp` against an empty slot has no result.
* `Recall` is what the ring is for: the last hundred lines, newest first, and how far up the cursor is.

Principal result: `history_refines` — from a new session, whatever is entered and however the arrow keys are
pressed, the ring shows what the list shows, and never compares with an empty slot.  The hundredth line is kept
but cannot be reached, and a line saved while ninety-eight up puts the cursor back at the prompt.
-/

set_option autoImplicit false

namespace PoxChat.Outbound

open Lib

/-- `struct history`. -/
structure History where
  lines : List (Option Bytes) := List.replicate 100 none
  pos : Nat := 0
  realpos : Nat := 0

namespace History

/-- `his->lines[i]`. -/
def line (his : History) (i : Nat) : Option Bytes := (his.lines[i]?).join

/-- `history_add`. -/
def add (his : History) (text : Bytes) : History :=
  let realpos := if his.realpos + 1 = 100 then 0 else his.realpos + 1
  { lines := his.lines.set his.realpos (some text), realpos := realpos, pos := realpos }

/-- `history_down`. -/
def down (his : History) : History × Option Bytes :=
  if his.pos = his.realpos then (his, none)
  else if his.realpos = 0 ∧ his.pos = 99 then ({ his with pos := 0 }, some [])
  else if his.realpos ≠ 0 ∧ his.pos = his.realpos - 1 then ({ his with pos := his.pos + 1 }, some [])
  else
    let next := if his.pos < 99 then his.pos + 1 else 0
    match his.line next with
    | some text => ({ his with pos := next }, some text)
    | none => (his, none)

/-- `strcmp (text, his->lines[i])`: whether they differ; there is no result for an empty slot. -/
def differs (his : History) (text : Bytes) (i : Nat) : Option Bool := (his.line i).map (text != ·)

/-- Whether `history_up` saves what stands in the entry. -/
def unsaved (his : History) (current : Bytes) (next : Nat) : Option Bool :=
  if current = [] then some false
  else do
    if !(← his.differs current next) then return false
    if (his.line his.pos).isSome then
      if !(← his.differs current his.pos) then return false
    if (his.line his.realpos).isNone then return true
    his.differs current his.pos

/-- `history_up`. -/
def up (his : History) (current : Bytes) : Option (History × Option Bytes) :=
  if (if his.realpos = 99 then his.pos = 0 else his.pos = his.realpos + 1) then some (his, none)
  else
    let next := if his.pos ≠ 0 then his.pos - 1 else 99
    match his.line next with
    | none => some (his, none)
    | some _ => do
      let his := if ← his.unsaved current next then his.add current else his
      return ({ his with pos := next }, his.line next)

end History

/-- What the user does to the history. -/
inductive HistoryKey where
  | enter (text : Bytes)
  | up (current : Bytes)
  | down

def History.press (his : History) : HistoryKey → Option (History × Option Bytes)
  | .enter text => some (his.add text, none)
  | .up current => his.up current
  | .down => some his.down

/-- The lines shown, one for each key. -/
def History.presses : History → List HistoryKey → Option (History × List (Option Bytes))
  | his, [] => some (his, [])
  | his, key :: keys => do
    let (his, shown) ← his.press key
    let (his, rest) ← his.presses keys
    return (his, shown :: rest)

/-! ## What it is for -/

/-- The last lines, newest first, and how far up the cursor is. -/
structure Recall where
  entries : List Bytes := []
  cursor : Nat := 0

namespace Recall

def add (r : Recall) (text : Bytes) : Recall := { entries := (text :: r.entries).take 100 }

/-- The line in the cursor's slot; at the prompt that is the slot of the oldest line. -/
def shown (r : Recall) : Option Bytes :=
  if r.cursor = 0 then r.entries[99]? else r.entries[r.cursor - 1]?

def press (r : Recall) : HistoryKey → Recall × Option Bytes
  | .enter text => (r.add text, none)
  | .up current =>
    if r.cursor = 99 then (r, none)
    else match r.entries[r.cursor]? with
      | none => (r, none)
      | some line =>
        if current ≠ [] ∧ current ≠ line ∧ r.shown ≠ some current then
          ({ r.add current with cursor := (r.cursor + 2) % 100 }, some line)
        else ({ r with cursor := r.cursor + 1 }, some line)
  | .down =>
    if r.cursor = 0 then (r, none)
    else ({ r with cursor := r.cursor - 1 }, if r.cursor = 1 then some [] else r.entries[r.cursor - 2]?)

def presses : Recall → List HistoryKey → Recall × List (Option Bytes)
  | r, [] => (r, [])
  | r, key :: keys =>
    let (r, shown) := r.press key
    let (r, rest) := r.presses keys
    (r, shown :: rest)

end Recall

/-! ## The ring is the list -/

/-- The ring holds the entries, and the cursor is as far behind the write position as it is up. -/
structure Remembers (r : Recall) (his : History) : Prop where
  size : his.lines.length = 100
  ring : Ring his.lines his.realpos r.entries
  cursor : r.cursor < 100
  reached : r.cursor ≤ r.entries.length
  pos : his.pos = (his.realpos + 100 - r.cursor) % 100

theorem remembers_new : Remembers {} {} :=
  ⟨by simp, Ring.replicate (by decide), by decide, by decide, by decide⟩

section Refinement

variable {r : Recall} {his : History}

/-- Where a place is that lies `up` places back from the write position. -/
theorem back_iff {realpos up pos : Nat} (hlt : realpos < 100) (hup : up ≤ 100) :
    pos = (realpos + 100 - up) % 100 ↔ pos + up = realpos ∨ realpos < up ∧ pos + up = realpos + 100 := by
  rcases Nat.lt_or_ge realpos up with hout | hin
  · rw [Nat.mod_eq_of_lt (by omega)]
    omega
  · rw [show realpos + 100 - up = realpos - up + 100 by omega, Nat.add_mod_right, Nat.mod_eq_of_lt (by omega)]
    omega

theorem slot_iff {realpos k pos : Nat} (hlt : realpos < 100) (hk : k < 100) :
    pos = slot 100 realpos k ↔ pos + (k + 1) = realpos ∨ realpos < k + 1 ∧ pos + (k + 1) = realpos + 100 := by
  rw [← back_iff hlt (by omega), slot, show realpos + 100 - 1 - k = realpos + 100 - (k + 1) by omega]

theorem Remembers.line (h : Remembers r his) {k : Nat} (hk : k < 100) :
    his.line (slot 100 his.realpos k) = r.entries[k]? := by
  have hcell := h.ring.cell k (by rw [h.size]; exact hk)
  rw [h.size] at hcell
  rw [History.line, hcell]
  rfl

theorem Remembers.realpos_lt (h : Remembers r his) : his.realpos < 100 := by
  rw [← h.size]
  exact h.ring.head_lt

/-- Where the cursor stands. -/
theorem Remembers.pos_cases (h : Remembers r his) :
    his.pos + r.cursor = his.realpos ∨ his.realpos < r.cursor ∧ his.pos + r.cursor = his.realpos + 100 :=
  (back_iff h.realpos_lt h.cursor.le).1 h.pos

/-- The cursor's slot. -/
theorem Remembers.shown (h : Remembers r his) : his.line his.pos = r.shown := by
  have hlt := h.realpos_lt
  have hcursor : r.cursor < 100 := h.cursor
  have hpos := h.pos_cases
  unfold Recall.shown
  split
  · rw [← h.line (by decide), slot_last hlt, show his.pos = his.realpos by omega]
  · rw [← h.line (by omega)]
    congr 1
    rw [slot_iff hlt (by omega)]
    omega

theorem Remembers.add (h : Remembers r his) (text : Bytes) : Remembers (r.add text) (his.add text) := by
  have hlt := h.realpos_lt
  have hnext : (if his.realpos + 1 = 100 then 0 else his.realpos + 1) = (his.realpos + 1) % 100 := by
    split_ifs <;> omega
  have hring := h.ring.push text
  rw [h.size] at hring
  refine ⟨by simpa [History.add] using h.size, ?_, Nat.zero_lt_succ _, Nat.zero_le _, ?_⟩
  · simp only [History.add, hnext]
    exact hring
  · simp only [History.add, hnext, Recall.add]
    omega

/-- Moving the cursor. -/
theorem Remembers.move (h : Remembers r his) {cursor pos : Nat} (hcursor : cursor < 100)
    (hreached : cursor ≤ r.entries.length)
    (hpos : pos + cursor = his.realpos ∨ his.realpos < cursor ∧ pos + cursor = his.realpos + 100) :
    Remembers { r with cursor := cursor } { his with pos := pos } :=
  ⟨h.size, h.ring, hcursor, hreached, (back_iff h.realpos_lt hcursor.le).2 hpos⟩

theorem Remembers.down (h : Remembers r his) :
    Remembers (r.press .down).1 his.down.1 ∧ his.down.2 = (r.press .down).2 := by
  have hlt := h.realpos_lt
  have hcursor : r.cursor < 100 := h.cursor
  have hreached := h.reached
  have hpos := h.pos_cases
  unfold History.down
  simp only [Recall.press]
  by_cases hzero : r.cursor = 0
  · have hbottom : his.pos = his.realpos := by omega
    rw [if_pos hbottom, if_pos hzero]
    exact ⟨h, rfl⟩
  have hmoved : his.pos ≠ his.realpos := by omega
  rw [if_neg hmoved, if_neg hzero]
  by_cases hone : r.cursor = 1
  · have hmove : ∀ pos, pos = his.realpos →
        Remembers { r with cursor := r.cursor - 1 } { his with pos := pos } := fun pos hp =>
      h.move (by omega) (by omega) (by omega)
    rw [if_pos hone]
    by_cases hstart : his.realpos = 0
    · have hwrap : his.realpos = 0 ∧ his.pos = 99 := by omega
      rw [if_pos hwrap]
      exact ⟨hmove 0 hstart.symm, rfl⟩
    · have hwrap : ¬ (his.realpos = 0 ∧ his.pos = 99) := by omega
      have hback : his.realpos ≠ 0 ∧ his.pos = his.realpos - 1 := by omega
      rw [if_neg hwrap, if_pos hback]
      exact ⟨hmove _ (by omega), rfl⟩
  · have hwrap : ¬ (his.realpos = 0 ∧ his.pos = 99) := by omega
    have hback : ¬ (his.realpos ≠ 0 ∧ his.pos = his.realpos - 1) := by omega
    rw [if_neg hwrap, if_neg hback, if_neg hone]
    have hnext : (if his.pos < 100 - 1 then his.pos + 1 else 0) = slot 100 his.realpos (r.cursor - 2) := by
      rw [slot_iff hlt (by omega)]
      split_ifs <;> omega
    have hline := h.line (k := r.cursor - 2) (by omega)
    rw [hnext, hline]
    have hin : r.cursor - 2 < r.entries.length := by omega
    rw [List.getElem?_eq_getElem hin]
    have hslot := (slot_iff hlt (by omega)).1 (Eq.refl (slot 100 his.realpos (r.cursor - 2)))
    exact ⟨h.move (by omega) (by omega) (by omega), rfl⟩

/-- What `history_up` decides to save, it decides without comparing with an empty slot. -/
theorem Remembers.unsaved (h : Remembers r his) {current line : Bytes} (hcursor : r.cursor < 99)
    (hline : r.entries[r.cursor]? = some line) :
    his.unsaved current (slot 100 his.realpos r.cursor) =
      some (decide (current ≠ [] ∧ current ≠ line ∧ r.shown ≠ some current)) := by
  have hlt := h.realpos_lt
  have hnext := h.line (k := r.cursor) (by omega)
  rw [hline] at hnext
  have hfull : his.line his.realpos = r.entries[99]? := by
    rw [← h.line (by decide), slot_last hlt]
  unfold History.unsaved History.differs
  rw [hnext, h.shown, hfull]
  by_cases hempty : current = []
  · simp [hempty]
  by_cases hsame : current = line
  · simp [hsame]
  cases hshown : r.shown with
  | some shown =>
    by_cases hcur : current = shown
    · simp [hcur]
    · cases r.entries[99]? <;> simp [hempty, hsame, hcur, Ne.symm hcur]
  | none =>
    -- an empty slot at the cursor: the ring is not full, and the slot to be written is empty too
    have hnone : r.entries[99]? = none := by
      unfold Recall.shown at hshown
      split_ifs at hshown with hzero
      · exact hshown
      · have hin := (List.getElem?_eq_some_iff.1 hline).1
        rw [List.getElem?_eq_none_iff] at hshown
        omega
    simp [hempty, hsame, hnone]

theorem Remembers.up (h : Remembers r his) (current : Bytes) :
    ∃ his', his.up current = some (his', (r.press (.up current)).2) ∧ Remembers (r.press (.up current)).1 his' := by
  have hlt := h.realpos_lt
  have hcursor : r.cursor < 100 := h.cursor
  have hpos := h.pos_cases
  unfold History.up
  simp only [Recall.press]
  by_cases htop : r.cursor = 99
  · rw [if_pos, if_pos htop]
    · exact ⟨his, rfl, h⟩
    · split_ifs <;> omega
  have hbelow : r.cursor < 99 := by
    omega
  rw [if_neg, if_neg htop]
  swap
  · split_ifs <;> omega
  have hnext : (if his.pos ≠ 0 then his.pos - 1 else 99) = slot 100 his.realpos r.cursor := by
    rw [slot_iff hlt (by omega)]
    split_ifs <;> omega
  have hline := h.line (k := r.cursor) (by omega)
  simp only [hnext, hline]
  cases hentry : r.entries[r.cursor]? with
  | none => exact ⟨his, rfl, h⟩
  | some line =>
    have hin := (List.getElem?_eq_some_iff.1 hentry).1
    have hslot := (slot_iff hlt (by omega)).1 (Eq.refl (slot 100 his.realpos r.cursor))
    simp only [h.unsaved hbelow hentry]
    by_cases hsave : current ≠ [] ∧ current ≠ line ∧ r.shown ≠ some current
    · have hkept : (his.add current).line (slot 100 his.realpos r.cursor) = some line := by
        rw [← hentry, ← hline]
        unfold History.line History.add
        rw [List.getElem?_set_ne (slot_ne_head hlt (by omega)).symm]
      have hwrote : (his.add current).realpos = if his.realpos + 1 = 100 then 0 else his.realpos + 1 := rfl
      rw [if_pos hsave, decide_eq_true hsave]
      refine ⟨{ his.add current with pos := slot 100 his.realpos r.cursor }, ?_, (h.add current).move ?_ ?_ ?_⟩
      · show some (_, (his.add current).line _) = _
        rw [hkept]
        rfl
      · omega
      · simp only [Recall.add, List.length_take, List.length_cons]
        omega
      · rw [hwrote]
        split_ifs <;> omega
    · rw [if_neg hsave, decide_eq_false hsave]
      refine ⟨{ his with pos := slot 100 his.realpos r.cursor }, ?_, h.move (by omega) (by omega) (by omega)⟩
      show some (_, his.line _) = _
      rw [hline, hentry]
      rfl

/-- One key: the ring shows what the list shows. -/
theorem Remembers.press (h : Remembers r his) (key : HistoryKey) :
    ∃ his', his.press key = some (his', (r.press key).2) ∧ Remembers (r.press key).1 his' := by
  cases key with
  | enter text => exact ⟨his.add text, rfl, h.add text⟩
  | up current => exact h.up current
  | down =>
    obtain ⟨hdown, hshown⟩ := h.down
    exact ⟨his.down.1, by rw [← hshown]; rfl, hdown⟩

theorem Remembers.presses (h : Remembers r his) (keys : List HistoryKey) :
    ∃ his', his.presses keys = some (his', (r.presses keys).2) ∧ Remembers (r.presses keys).1 his' := by
  induction keys generalizing r his with
  | nil => exact ⟨his, rfl, h⟩
  | cons key keys ih =>
    obtain ⟨his₁, hkey, h₁⟩ := h.press key
    obtain ⟨his₂, hkeys, h₂⟩ := ih h₁
    refine ⟨his₂, ?_, h₂⟩
    simp only [History.presses, hkey, hkeys, Option.bind_eq_bind, Option.bind_some]
    rfl

end Refinement

/-- **The ring is a list of the last hundred lines.**  Every key shows what it shows on the list, no comparison is
made with an empty slot, and the ring holds the list's lines afterwards. -/
theorem history_refines (keys : List HistoryKey) :
    ∃ his, History.presses {} keys = some (his, (Recall.presses {} keys).2) ∧
      Remembers (Recall.presses {} keys).1 his :=
  remembers_new.presses keys

end PoxChat.Outbound
