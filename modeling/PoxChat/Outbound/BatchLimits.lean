import PoxChat.Lib.Program
import PoxChat.Outbound.Multiline

/-!
# The limits of a batch

`handle_multiline_batch` counts the bytes and the lines of the open batch before each line, and starts a new batch where
a limit would be passed.  The receiver joins the lines with newlines, which are not among the bytes counted.

* `batches` — the batches of an output, each by its lines.
* `pieces_fit_iff` — when the batches of some pieces are within the limits, by the counts along the pieces.
* `batch_limits_kept_iff` — the limits are kept and no text is lost exactly when every line splits to its end, and no piece
  fits its batch only because the newlines are left out.
-/

set_option autoImplicit false

namespace PoxChat.Outbound

open Lib

/-! ## The batches of an output -/

/-- A batch is opened, or a line of it is sent. -/
def Output.mark? : Output → Option (Option Bytes)
  | .batchOpen => some none
  | .batchPrivmsg text => some (some text)
  | _ => none

def marks (out : List Output) : List (Option Bytes) := out.filterMap Output.mark?

/-- The lines before a batch is opened, and the batches. -/
def groups : List (Option Bytes) → List Bytes × List (List Bytes)
  | [] => ([], [])
  | none :: ms => ([], (groups ms).1 :: (groups ms).2)
  | some text :: ms => (text :: (groups ms).1, (groups ms).2)

/-- The batches of an output, each by its lines. -/
def batches (out : List Output) : List (List Bytes) := (groups (marks out)).2

theorem marks_append (out out' : List Output) : marks (out ++ out') = marks out ++ marks out' :=
  List.filterMap_append

/-- No line is lost between the batches. -/
theorem groups_flatten (ms : List (Option Bytes)) : (groups ms).1 ++ (groups ms).2.flatten = ms.filterMap id := by
  induction ms with
  | nil => rfl
  | cons m ms ih =>
    cases m with
    | none => exact ih
    | some text => exact congrArg (text :: ·) ih

/-! ## Within the limits -/

/-- The bytes of the lines, and one more for each of them. -/
def batchSize (batch : List Bytes) : Int := batch.flatten.length + batch.length

theorem batchSize_nil : batchSize [] = 0 := rfl

theorem batchSize_cons (text : Bytes) (batch : List Bytes) :
    batchSize (text :: batch) = text.length + 1 + batchSize batch := by
  unfold batchSize
  rw [List.flatten_cons, List.length_append, List.length_cons]
  omega

theorem batchSize_nonneg (batch : List Bytes) : 0 ≤ batchSize batch := by
  unfold batchSize
  omega

/-- There is a newline between any two lines, and none after the last. -/
theorem length_combined {batch : List Bytes} (h : batch ≠ []) : ((combined batch).length : Int) + 1 = batchSize batch := by
  induction batch with
  | nil => exact absurd rfl h
  | cons text batch ih =>
    cases batch with
    | nil => simp [combined, batchSize]
    | cons next batch =>
      have hrest := ih (List.cons_ne_nil next batch)
      rw [batchSize_cons, ← hrest]
      unfold combined
      rw [List.intercalate_cons_cons, List.length_append, List.length_append, List.length_singleton]
      omega

/-- A piece does not fit the open batch only because the newlines are left out. -/
def BreaksFit (win : Window) (count : BatchCount) (piece : Bytes) : Prop :=
  count.bytes + piece.length ≤ win.multilineMaxBytes → count.lines + 1 ≤ win.multilineMaxLines →
    count.bytes + piece.length + count.lines ≤ win.multilineMaxBytes

instance (win : Window) (count : BatchCount) (piece : Bytes) : Decidable (BreaksFit win count piece) :=
  inferInstanceAs (Decidable (_ → _ → _))

/-- The count after a piece. -/
def counted (win : Window) (count : BatchCount) (piece : Bytes) : BatchCount := (batchPiece win count piece).1

/-- The lines that `count` is of and those of `cur` are within the limits. -/
def OpenFits (win : Window) (count : BatchCount) (cur : List Bytes) : Prop :=
  count.lines + cur.length ≤ win.multilineMaxLines ∧
    count.bytes + count.lines + batchSize cur ≤ win.multilineMaxBytes + 1

/-- A batch of at least one line is within the limits. -/
def BatchFits (win : Window) (batch : List Bytes) : Prop := 1 ≤ batch.length ∧ OpenFits win {} batch

section Pieces

variable {win : Window} {count : BatchCount}

theorem batchFull_eq_true (hbytes : 0 < win.multilineMaxBytes) (hlines : 0 < win.multilineMaxLines) :
    win.batchFull count = true ↔ win.multilineMaxBytes < count.bytes ∨ win.multilineMaxLines < count.lines := by
  simp [Window.batchFull, hbytes, hlines]

theorem marks_batchPiece (piece : Bytes) : marks (batchPiece win count piece).2 =
    if win.batchFull ⟨count.bytes + piece.length, count.lines + 1⟩ then [none, some piece] else [some piece] := by
  unfold batchPiece marks
  dsimp only
  split_ifs <;> rfl

theorem marks_batchPieces_cons (piece : Bytes) (pieces : List Bytes) :
    marks (batchPieces win count (piece :: pieces)).2 =
      marks (batchPiece win count piece).2 ++ marks (batchPieces win (counted win count piece) pieces).2 := by
  rw [batchPieces, ← marks_append]
  rfl

theorem filterMap_marks_batchPieces (pieces : List Bytes) : ∀ count,
    (marks (batchPieces win count pieces).2).filterMap id = pieces := by
  induction pieces with
  | nil => exact fun _ => rfl
  | cons piece pieces ih =>
    intro count
    rw [marks_batchPieces_cons, List.filterMap_append, ih, marks_batchPiece]
    split_ifs <;> rfl

/-- **The batches of some pieces** are within the limits exactly when the newlines fit with every piece. -/
theorem pieces_fit_iff (hbytes : 0 < win.multilineMaxBytes) (hlines : 0 < win.multilineMaxLines) (pieces : List Bytes)
    (hpieces : ∀ piece ∈ pieces, (piece.length : Int) ≤ win.multilineMaxBytes) :
    ∀ count, OpenFits win count [] →
      ((OpenFits win count (groups (marks (batchPieces win count pieces).2)).1 ∧
          ∀ batch ∈ (groups (marks (batchPieces win count pieces).2)).2, BatchFits win batch) ↔
        Along (counted win) (BreaksFit win) count pieces) := by
  -- On the pieces: a piece opens a batch with nothing before it, or goes on with the counted lines.
  induction pieces with
  | nil => exact fun count hopen => ⟨fun _ => trivial, fun _ => ⟨hopen, fun _ hb => absurd hb List.not_mem_nil⟩⟩
  | cons piece pieces ih =>
    intro count hopen
    have hpiece := hpieces piece List.mem_cons_self
    specialize ih fun p hp => hpieces p (List.mem_cons_of_mem _ hp)
    rw [marks_batchPieces_cons, marks_batchPiece, Along]
    by_cases hfull : win.batchFull ⟨count.bytes + piece.length, count.lines + 1⟩ = true
    · have hcount : counted win count piece = ⟨piece.length, 1⟩ := by
        unfold counted batchPiece
        dsimp only
        rw [if_pos hfull]
      have hfits : BreaksFit win count piece := by
        intro hb hl
        have := (batchFull_eq_true hbytes hlines).1 hfull
        dsimp only at this
        omega
      have hopen' : OpenFits win ⟨piece.length, 1⟩ [] := by
        unfold OpenFits
        rw [batchSize_nil, List.length_nil]
        dsimp only
        omega
      have ih' := ih _ hopen'
      rw [if_pos hfull, hcount, and_iff_right hfits, ← ih']
      simp only [List.cons_append, List.nil_append, groups, List.forall_mem_cons]
      rw [and_iff_right hopen]
      refine and_congr_left fun _ => ?_
      unfold BatchFits OpenFits
      rw [batchSize_cons, List.length_cons]
      dsimp only
      omega
    · have hcount : counted win count piece = ⟨count.bytes + piece.length, count.lines + 1⟩ := by
        unfold counted batchPiece
        dsimp only
        rw [if_neg hfull]
      have hroom := mt (batchFull_eq_true hbytes hlines).2 hfull
      dsimp only at hroom
      rw [if_neg hfull, hcount]
      simp only [List.cons_append, List.nil_append, groups]
      have hnext (cur : List Bytes) : OpenFits win count (piece :: cur) ↔
          OpenFits win ⟨count.bytes + piece.length, count.lines + 1⟩ cur := by
        unfold OpenFits
        rw [batchSize_cons, List.length_cons]
        dsimp only
        omega
      rw [hnext]
      by_cases hfits : BreaksFit win count piece
      · have hopen' : OpenFits win ⟨count.bytes + piece.length, count.lines + 1⟩ [] := by
          have := hfits (by omega) (by omega)
          unfold OpenFits
          rw [batchSize_nil, List.length_nil]
          dsimp only
          omega
        rw [and_iff_right hfits]
        exact ih _ hopen'
      · refine iff_of_false (fun h => hfits fun _ _ => ?_) fun h => hfits h.1
        have hsize := batchSize_nonneg
          (groups (marks (batchPieces win ⟨count.bytes + piece.length, count.lines + 1⟩ pieces).2)).1
        have hbound := h.1.2
        dsimp only at hbound
        omega

end Pieces

/-! ## The lines -/

/-- The pieces of the lines, up to the line whose split does not end. -/
def sentPieces (win : Window) : List Bytes → List Bytes
  | [] => []
  | line :: lines => (splitPieces win line).1 ++ if (splitPieces win line).2 then sentPieces win lines else []

section Lines

variable {win : Window}

theorem batchPieces_append (pieces pieces' : List Bytes) : ∀ count, batchPieces win count (pieces ++ pieces') =
    ((batchPieces win (batchPieces win count pieces).1 pieces').1,
      (batchPieces win count pieces).2 ++ (batchPieces win (batchPieces win count pieces).1 pieces').2) := by
  induction pieces with
  | nil => exact fun _ => rfl
  | cons piece pieces ih =>
    intro count
    rw [List.cons_append, batchPieces, batchPieces]
    dsimp only
    rw [ih, List.append_assoc]

theorem marks_batchLines (lines : List Bytes) : ∀ count,
    marks (batchLines win count lines).1 = marks (batchPieces win count (sentPieces win lines)).2 := by
  induction lines with
  | nil => exact fun _ => rfl
  | cons line lines ih =>
    intro count
    rw [batchLines, sentPieces, batchPieces_append, marks_append]
    dsimp only
    cases hended : (splitPieces win line).2 with
    | true =>
      rw [if_pos rfl, if_pos rfl, ← ih, marks_append]
      rfl
    | false =>
      rw [if_neg Bool.false_ne_true, if_neg Bool.false_ne_true]
      exact (List.append_nil _).symm

/-- Where the loop over a text does not end, some of the text is not sent. -/
theorem splitFrom_short {cmdLength : Nat} (steps : Nat) : ∀ text : Bytes, text.length < steps →
    (splitFrom win cmdLength steps text).2 = false → (splitFrom win cmdLength steps text).1.flatten.length < text.length := by
  induction steps with
  | zero => exact fun _ h => absurd h (Nat.not_lt_zero _)
  | succ steps ih =>
    intro text hsteps hended
    rw [splitFrom] at hended ⊢
    rcases hsplit : splitUpText win cmdLength text with _ | piece
    · rw [hsplit] at hended
      exact absurd hended.symm Bool.false_ne_true
    · rw [hsplit] at hended
      have hlong : textRoom win cmdLength < text.length := by
        by_contra hshort
        rw [splitUpText] at hsplit
        dsimp only at hsplit
        rw [if_neg hshort] at hsplit
        cases hsplit
      obtain ⟨n, rfl⟩ := splitUpText_eq_take hsplit
      dsimp only at hended ⊢
      split_ifs at hended ⊢ with hempty
      · exact Nat.zero_lt_of_lt hlong
      · have hpos : 0 < (text.take n).length := by
          rw [List.length_pos_iff]
          simpa using hempty
        have hle : (text.take n).length ≤ text.length := List.length_take_le' n text
        have hrest := ih (text.drop (text.take n).length) (by rw [List.length_drop]; omega) hended
        rw [List.length_drop] at hrest
        rw [List.flatten_cons, List.length_append]
        omega

theorem sentPieces_of_ended {lines : List Bytes} (h : ∀ line ∈ lines, (splitPieces win line).2 = true) :
    sentPieces win lines = lines.flatMap fun line => (splitPieces win line).1 := by
  induction lines with
  | nil => rfl
  | cons line lines ih =>
    rw [sentPieces, if_pos (h line List.mem_cons_self), ih fun l hl => h l (List.mem_cons_of_mem _ hl)]
    rfl

/-- **No text is lost** exactly when every split ends. -/
theorem sentPieces_flatten_iff (lines : List Bytes) :
    (sentPieces win lines).flatten = lines.flatten ↔ ∀ line ∈ lines, (splitPieces win line).2 = true := by
  induction lines with
  | nil => exact ⟨fun _ _ h => absurd h List.not_mem_nil, fun _ => rfl⟩
  | cons line lines ih =>
    rw [sentPieces, List.flatten_append, List.flatten_cons, List.forall_mem_cons]
    cases hended : (splitPieces win line).2 with
    | true => rw [if_pos rfl, (splitPieces_flatten hended).1, List.append_cancel_left_eq, ih, and_iff_right rfl]
    | false =>
      have hshort := splitFrom_short (line.length + 1) line (Nat.lt_succ_self _) hended
      refine iff_of_false (fun heq => ?_) fun h => Bool.false_ne_true h.1
      have hlen := congrArg List.length heq
      rw [if_neg Bool.false_ne_true, List.length_append, List.length_append, List.flatten_nil, List.length_nil] at hlen
      unfold splitPieces at hlen
      omega

end Lines

/-! ## The limits -/

/-- **The batches respect the limits**: each has at least one line and at most as many as the server takes, its content is
no longer than the server takes, and the lines of all of them are the text. -/
structure LimitsKept (win : Window) (lines : List Bytes) : Prop where
  count : ∀ batch ∈ batches (handleMultilineBatch win lines).2.out,
    1 ≤ batch.length ∧ (batch.length : Int) ≤ win.multilineMaxLines
  bytes : ∀ batch ∈ batches (handleMultilineBatch win lines).2.out,
    ((combined batch).length : Int) ≤ win.multilineMaxBytes
  text : (batches (handleMultilineBatch win lines).2.out).flatten.flatten = lines.flatten

section Limits

variable {win : Window} {lines : List Bytes}

theorem batchFits_iff (batch : List Bytes) : BatchFits win batch ↔
    (1 ≤ batch.length ∧ (batch.length : Int) ≤ win.multilineMaxLines) ∧
      ((combined batch).length : Int) ≤ win.multilineMaxBytes := by
  unfold BatchFits OpenFits
  dsimp only
  by_cases hempty : batch = []
  · rw [hempty, List.length_nil]
    exact iff_of_false (fun h => absurd h.1 (by omega)) fun h => absurd h.1.1 (by omega)
  · have hlen := length_combined hempty
    omega

/-- The first batch holds the pieces up to the next. -/
theorem batches_sent (hsent : (handleMultilineBatch win lines).1 = true) :
    batches (handleMultilineBatch win lines).2.out =
      (groups (marks (batchPieces win {} (sentPieces win lines)).2)).1 ::
        (groups (marks (batchPieces win {} (sentPieces win lines)).2)).2 := by
  unfold handleMultilineBatch at hsent ⊢
  split at hsent
  · cases hsent
  · rename_i hcan
    rw [if_neg hcan, ← marks_batchLines]
    unfold batches
    dsimp only
    rw [marks_append]
    split_ifs <;> rfl

/-- The first piece goes into the first batch. -/
theorem first_batch_ne_nil (hlines : 0 < win.multilineMaxLines)
    (hpieces : ∀ piece ∈ lines.flatMap fun line => (splitPieces win line).1,
      (piece.length : Int) ≤ win.multilineMaxBytes)
    (hended : ∀ line ∈ lines, (splitPieces win line).2 = true) :
    (groups (marks (batchPieces win {} (lines.flatMap fun line => (splitPieces win line).1)).2)).1 ≠ [] ↔
      lines ≠ [] := by
  cases lines with
  | nil => exact iff_of_false (fun h => h rfl) fun h => h rfl
  | cons line lines =>
    refine iff_of_true ?_ (List.cons_ne_nil line lines)
    have hsome := (splitPieces_flatten (hended line List.mem_cons_self)).2
    rw [List.flatMap_cons] at hpieces ⊢
    cases hfirst : (splitPieces win line).1 with
    | nil => exact absurd hfirst hsome
    | cons piece pieces =>
      rw [hfirst] at hpieces
      have hpiece := hpieces piece (List.mem_append_left _ List.mem_cons_self)
      rw [List.cons_append, marks_batchPieces_cons, marks_batchPiece, if_neg]
      · exact List.cons_ne_nil piece _
      · simp [Window.batchFull]
        omega

/-- **Batches keep the limits**, where each piece does, exactly when there is a line, every line splits to its end, and no
piece fits its batch only because the newlines are left out. -/
theorem batch_limits_kept_iff (hsent : (handleMultilineBatch win lines).1 = true)
    (hbytes : 0 < win.multilineMaxBytes) (hlines : 0 < win.multilineMaxLines)
    (hpieces : ∀ line ∈ lines, ∀ piece ∈ (splitPieces win line).1, (piece.length : Int) ≤ win.multilineMaxBytes) :
    LimitsKept win lines ↔ lines ≠ [] ∧ (∀ line ∈ lines, (splitPieces win line).2 = true) ∧
      Along (counted win) (BreaksFit win) {} (lines.flatMap fun line => (splitPieces win line).1) := by
  have hbatches := batches_sent hsent
  have hflat := groups_flatten (marks (batchPieces win {} (sentPieces win lines)).2)
  rw [filterMap_marks_batchPieces, ← List.flatten_cons, ← hbatches] at hflat
  have hkept : LimitsKept win lines ↔ (∀ batch ∈ batches (handleMultilineBatch win lines).2.out, BatchFits win batch) ∧
      ∀ line ∈ lines, (splitPieces win line).2 = true := by
    rw [← sentPieces_flatten_iff, ← hflat]
    simp only [batchFits_iff]
    exact ⟨fun h => ⟨fun b hb => ⟨h.count b hb, h.bytes b hb⟩, h.text⟩,
      fun h => ⟨fun b hb => (h.1 b hb).1, fun b hb => (h.1 b hb).2, h.2⟩⟩
  rw [hkept]
  by_cases hended : ∀ line ∈ lines, (splitPieces win line).2 = true
  · have hall : ∀ piece ∈ lines.flatMap fun line => (splitPieces win line).1,
        (piece.length : Int) ≤ win.multilineMaxBytes := by
      intro piece hp
      obtain ⟨line, hline, hp⟩ := List.mem_flatMap.1 hp
      exact hpieces line hline piece hp
    have hopen : OpenFits win {} [] := by
      unfold OpenFits
      rw [batchSize_nil, List.length_nil]
      dsimp only
      omega
    rw [← pieces_fit_iff hbytes hlines _ hall {} hopen, hbatches, sentPieces_of_ended hended, List.forall_mem_cons,
      and_iff_left hended, and_iff_right hended, BatchFits, and_assoc]
    refine and_congr_left fun _ => ?_
    rw [Nat.one_le_iff_ne_zero, ← Nat.pos_iff_ne_zero, List.length_pos_iff]
    exact first_batch_ne_nil hlines hall hended
  · exact iff_of_false (fun h => hended h.2) fun h => hended h.2.1

end Limits

/-! ## Newlines that do not fit -/

/-- A channel whose server takes ten bytes and three lines in a batch. -/
def narrowBatches : Window where
  type := .channel
  channel := bytes "#c"
  nick := bytes "me"
  haveMultiline := true
  multilineMaxLines := 3
  multilineMaxBytes := 10

theorem batch_limits_kept_three : LimitsKept narrowBatches [bytes "abc", bytes "defgh", bytes "ijk"] :=
  (batch_limits_kept_iff (by decide) (by decide) (by decide) (by decide)).2
    ⟨by decide, by decide, by decide⟩

/-- Two lines of five bytes are ten bytes of text, and eleven with the newline between them. -/
theorem newline_not_counted :
    batches (handleMultilineBatch narrowBatches [bytes "abcde", bytes "fghij"]).2.out = [[bytes "abcde", bytes "fghij"]] ∧
    (combined [bytes "abcde", bytes "fghij"]).length = 11 ∧
    ¬ LimitsKept narrowBatches [bytes "abcde", bytes "fghij"] := by
  have hbatches : batches (handleMultilineBatch narrowBatches [bytes "abcde", bytes "fghij"]).2.out =
      [[bytes "abcde", bytes "fghij"]] := by decide
  refine ⟨hbatches, by decide, fun h => ?_⟩
  have hlong := h.bytes [bytes "abcde", bytes "fghij"] (by rw [hbatches]; exact List.mem_singleton_self _)
  exact absurd hlong (by decide)

end PoxChat.Outbound
