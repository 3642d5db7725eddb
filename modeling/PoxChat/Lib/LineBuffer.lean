import Mathlib.Tactic.Common

/-!
# Reading through a line buffer

A reader with a buffer of fixed size takes a file apart in pieces: each ends with the next separator, or where the
buffer is full.

* `length_le_of_mem_pieces` — no piece is larger than the buffer.
* `pieces_lines` — lines that fit come back as they were written.
* `foldl_pieces_lines` — a reader for which a separator alone is nothing also takes lines that fill the buffer.
-/

set_option autoImplicit false

namespace Lib

section Pieces

variable {α : Type*} [DecidableEq α] {sep : α} {size : Nat}

/-- How much of the file the next piece takes: up to and with the first separator, and at most `size`. -/
def pieceLength (sep : α) : Nat → List α → Nat
  | 0, _ => 0
  | _ + 1, [] => 0
  | size + 1, b :: file => if b = sep then 1 else pieceLength sep size file + 1

/-- The pieces of a file, the first `fuel` of them. -/
def piecesFrom (sep : α) (size : Nat) : Nat → List α → List (List α)
  | 0, _ => []
  | _ + 1, [] => []
  | fuel + 1, b :: file =>
    let n := pieceLength sep size (b :: file)
    (b :: file).take n :: piecesFrom sep size fuel ((b :: file).drop n)

def pieces (sep : α) (size : Nat) (file : List α) : List (List α) := piecesFrom sep size file.length file

theorem pieceLength_le (sep : α) (size : Nat) (file : List α) : pieceLength sep size file ≤ size := by
  fun_induction pieceLength sep size file with
  | case1 => exact Nat.le_refl 0
  | case2 size => exact Nat.zero_le _
  | case3 size file => omega
  | case4 size b file hb ih => omega

theorem length_le_of_mem_piecesFrom {fuel : Nat} {file piece : List α} (h : piece ∈ piecesFrom sep size fuel file) :
    piece.length ≤ size := by
  induction fuel generalizing file with
  | zero => simp [piecesFrom] at h
  | succ fuel ih =>
    cases file with
    | nil => simp [piecesFrom] at h
    | cons b file =>
      rcases List.mem_cons.1 h with rfl | h
      · exact Nat.le_trans (List.length_take_le _ _) (pieceLength_le sep size _)
      · exact ih h

/-- No piece is larger than the buffer. -/
theorem length_le_of_mem_pieces {file piece : List α} (h : piece ∈ pieces sep size file) : piece.length ≤ size :=
  length_le_of_mem_piecesFrom h

theorem pieceLength_line {line : List α} (h : sep ∉ line) (hsize : line.length < size) (rest : List α) :
    pieceLength sep size (line ++ sep :: rest) = line.length + 1 := by
  induction line generalizing size with
  | nil =>
    obtain ⟨size, rfl⟩ : ∃ n, size = n + 1 := ⟨size - 1, by simp at hsize; omega⟩
    simp [pieceLength]
  | cons b line ih =>
    obtain ⟨size, rfl⟩ : ∃ n, size = n + 1 := ⟨size - 1, by omega⟩
    have hb : b ≠ sep := fun e => h (e ▸ List.mem_cons_self)
    have hline : sep ∉ line := fun e => h (List.mem_cons_of_mem _ e)
    have hlen : line.length < size := by simpa using hsize
    simp [pieceLength, hb, ih hline hlen]

theorem piecesFrom_line {line : List α} (h : sep ∉ line) (hsize : line.length < size) (fuel : Nat) (rest : List α) :
    piecesFrom sep size (fuel + 1) (line ++ sep :: rest) = (line ++ [sep]) :: piecesFrom sep size fuel rest := by
  obtain ⟨b, file, hfile⟩ : ∃ b file, line ++ sep :: rest = b :: file := by
    cases line with
    | nil => exact ⟨sep, rest, rfl⟩
    | cons b line => exact ⟨b, line ++ sep :: rest, rfl⟩
  have hlen := pieceLength_line h hsize rest
  rw [hfile] at hlen ⊢
  rw [piecesFrom, hlen, ← hfile]
  have hsplit : line ++ sep :: rest = (line ++ [sep]) ++ rest := by simp
  rw [hsplit, List.take_left' (by simp), List.drop_left' (by simp)]

theorem piecesFrom_lines {lines : List (List α)} (h : ∀ line ∈ lines, sep ∉ line ∧ line.length < size) {fuel : Nat}
    (hfuel : lines.length ≤ fuel) :
    piecesFrom sep size fuel (lines.flatMap (· ++ [sep])) = lines.map (· ++ [sep]) := by
  induction lines generalizing fuel with
  | nil => cases fuel <;> rfl
  | cons line lines ih =>
    obtain ⟨fuel, rfl⟩ : ∃ n, fuel = n + 1 := ⟨fuel - 1, by simp at hfuel; omega⟩
    obtain ⟨hsep, hsize⟩ := h line List.mem_cons_self
    rw [List.flatMap_cons, List.append_assoc, List.singleton_append, piecesFrom_line hsep hsize,
      ih (fun l hl => h l (List.mem_cons_of_mem _ hl)) (by simpa using hfuel)]
    rfl

omit [DecidableEq α] in
theorem length_le_flatMap_sep (lines : List (List α)) : lines.length ≤ (lines.flatMap (· ++ [sep])).length := by
  induction lines with
  | nil => exact Nat.le_refl 0
  | cons line lines ih =>
    rw [List.flatMap_cons, List.length_append, List.length_append, List.length_cons, List.length_singleton]
    omega

/-- Lines that fit come back as they were written, each with its separator. -/
theorem pieces_lines {lines : List (List α)} (h : ∀ line ∈ lines, sep ∉ line ∧ line.length < size) :
    pieces sep size (lines.flatMap (· ++ [sep])) = lines.map (· ++ [sep]) :=
  piecesFrom_lines h (length_le_flatMap_sep lines)

theorem pieceLength_full {line : List α} (h : sep ∉ line) (hsize : line.length = size) (rest : List α) :
    pieceLength sep size (line ++ rest) = size := by
  induction line generalizing size with
  | nil =>
    subst hsize
    rfl
  | cons b line ih =>
    subst hsize
    have hb : b ≠ sep := fun e => h (e ▸ List.mem_cons_self)
    have hline : sep ∉ line := fun e => h (List.mem_cons_of_mem _ e)
    rw [List.cons_append, List.length_cons, pieceLength, if_neg hb, ih hline rfl]

/-- A line that fills the buffer leaves its separator for the next piece. -/
theorem piecesFrom_full {line : List α} (h : sep ∉ line) (hsize : line.length = size) (hpos : 0 < size) (fuel : Nat)
    (rest : List α) :
    piecesFrom sep size (fuel + 2) (line ++ sep :: rest) = line :: [sep] :: piecesFrom sep size fuel rest := by
  obtain ⟨b, file, hfile⟩ := List.exists_cons_of_length_pos (hsize ▸ hpos)
  have hlen : pieceLength sep size (b :: (file ++ sep :: rest)) = size := by
    rw [← List.cons_append, ← hfile]
    exact pieceLength_full h hsize _
  rw [hfile, List.cons_append, piecesFrom, hlen, ← List.cons_append, ← hfile, List.take_left' hsize,
    List.drop_left' hsize]
  exact congrArg _ (piecesFrom_line List.not_mem_nil hpos fuel rest)

variable {β : Type*} {f g : β → List α → β}

theorem foldl_piecesFrom_lines (hpos : 0 < size) (hsep : ∀ b, f b [sep] = b) {lines : List (List α)}
    (h : ∀ line ∈ lines, sep ∉ line ∧ line.length ≤ size ∧ ∀ b, f b (line ++ [sep]) = g b line ∧ f b line = g b line)
    {fuel : Nat} (hfuel : (lines.flatMap (· ++ [sep])).length ≤ fuel) (b : β) :
    (piecesFrom sep size fuel (lines.flatMap (· ++ [sep]))).foldl f b = lines.foldl g b := by
  induction lines generalizing fuel b with
  | nil => cases fuel <;> rfl
  | cons line lines ih =>
    obtain ⟨hline, hsize, hread⟩ := h line List.mem_cons_self
    replace ih := @ih fun l hl => h l (List.mem_cons_of_mem _ hl)
    rw [List.flatMap_cons, List.length_append, List.length_append, List.length_singleton] at hfuel
    rw [List.flatMap_cons, List.append_assoc, List.singleton_append, List.foldl_cons, ← (hread b).1]
    rcases Nat.lt_or_eq_of_le hsize with hlt | heq
    · obtain ⟨fuel, rfl⟩ : ∃ n, fuel = n + 1 := ⟨fuel - 1, by omega⟩
      rw [piecesFrom_line hline hlt, List.foldl_cons]
      exact ih (by omega) _
    · obtain ⟨fuel, rfl⟩ : ∃ n, fuel = n + 2 := ⟨fuel - 2, by omega⟩
      rw [piecesFrom_full hline heq hpos, List.foldl_cons, List.foldl_cons, hsep, (hread b).2, ← (hread b).1]
      exact ih (by omega) _

/-- A reader that passes over a lone separator, and that needs none after a line, reads every line that the buffer
holds. -/
theorem foldl_pieces_lines (hpos : 0 < size) (hsep : ∀ b, f b [sep] = b) {lines : List (List α)}
    (h : ∀ line ∈ lines, sep ∉ line ∧ line.length ≤ size ∧ ∀ b, f b (line ++ [sep]) = g b line ∧ f b line = g b line)
    (b : β) : (pieces sep size (lines.flatMap (· ++ [sep]))).foldl f b = lines.foldl g b :=
  foldl_piecesFrom_lines hpos hsep h (Nat.le_refl _) b

end Pieces

end Lib
