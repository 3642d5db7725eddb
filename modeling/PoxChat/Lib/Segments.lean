import Mathlib.Data.List.Induction
import Mathlib.Tactic.Common

/-!
# Segments of a stream

A stream is read element by element, and a separator ends a segment.

* `ended`, `unfinished` — the segments that have been ended, and what has come since.
* `run_segments` — what a machine has read after any stream, from what one element does.
-/

set_option autoImplicit false

namespace Lib

variable {α : Type} [DecidableEq α] {sep c : α}

/-- The segments of a stream that the separator ends. -/
def ended (sep : α) (stream : List α) : List (List α) := (stream.splitOn sep).dropLast

/-- What follows the last separator. -/
def unfinished (sep : α) (stream : List α) : List α := (stream.splitOn sep).getLast (List.splitOn_ne_nil sep stream)

/-- Another element belongs to the last segment. -/
theorem splitOn_concat (h : c ≠ sep) (stream : List α) : ∃ segments last, stream.splitOn sep = segments ++ [last] ∧
    (stream ++ [c]).splitOn sep = segments ++ [last ++ [c]] := by
  induction stream with
  | nil =>
    refine ⟨[], [], List.splitOn_nil sep, ?_⟩
    rw [List.nil_append, List.splitOn_eq_singleton (by simpa using Ne.symm h)]
    rfl
  | cons x stream ih =>
    obtain ⟨segments, last, hsplit, hconcat⟩ := ih
    rw [List.cons_append, List.splitOn_cons_eq_if_modifyHead, List.splitOn_cons_eq_if_modifyHead, hsplit, hconcat]
    split
    · exact ⟨[] :: segments, last, rfl, rfl⟩
    · cases segments with
      | nil => exact ⟨[], x :: last, rfl, rfl⟩
      | cons first segments => exact ⟨(x :: first) :: segments, last, rfl, rfl⟩

theorem ended_nil (sep : α) : ended sep [] = [] := by
  rw [ended, List.splitOn_nil]
  rfl

theorem unfinished_nil (sep : α) : unfinished sep [] = [] := by
  simp [unfinished]

theorem ended_sep (sep : α) (stream : List α) : ended sep (stream ++ [sep]) = ended sep stream ++ [unfinished sep stream] := by
  rw [ended, ended, unfinished, List.splitOn_append_cons_self, List.splitOn_nil, List.dropLast_concat,
    List.dropLast_concat_getLast]

theorem unfinished_sep (sep : α) (stream : List α) : unfinished sep (stream ++ [sep]) = [] := by
  simp [unfinished, List.splitOn_append_cons_self]

theorem ended_other (h : c ≠ sep) (stream : List α) : ended sep (stream ++ [c]) = ended sep stream := by
  obtain ⟨segments, last, hsplit, hconcat⟩ := splitOn_concat h stream
  rw [ended, ended, hsplit, hconcat, List.dropLast_concat, List.dropLast_concat]

theorem unfinished_other (h : c ≠ sep) (stream : List α) : unfinished sep (stream ++ [c]) = unfinished sep stream ++ [c] := by
  obtain ⟨segments, last, hsplit, hconcat⟩ := splitOn_concat h stream
  simp only [unfinished, hsplit, hconcat, List.getLast_concat]

/-- **A run over a stream**: if the separator ends what has been read of a segment and every other element adds to it, then after
any stream the machine has read its segments. -/
theorem run_segments {σ : Type} (sep : α) (step : σ → α → σ) (Read : σ → List (List α) → List α → Prop)
    (hsep : ∀ s segments last, Read s segments last → Read (step s sep) (segments ++ [last]) [])
    (hother : ∀ s segments last x, x ≠ sep → Read s segments last → Read (step s x) segments (last ++ [x]))
    {start : σ} (h : Read start [] []) (stream : List α) :
    Read (stream.foldl step start) (ended sep stream) (unfinished sep stream) := by
  induction stream using List.reverseRecOn with
  | nil => rwa [ended_nil, unfinished_nil]
  | append_singleton stream x ih =>
    rw [List.foldl_append, List.foldl_cons, List.foldl_nil]
    by_cases hx : x = sep
    · subst hx
      rw [ended_sep, unfinished_sep]
      exact hsep _ _ _ ih
    · rw [ended_other hx, unfinished_other hx]
      exact hother _ _ _ _ hx ih

end Lib
