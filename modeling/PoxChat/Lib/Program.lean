import Mathlib.Tactic.Common

/-!
# Programs over a fallible service, cut by crashes, and runs of them

`Prog σ α` is a program over a state `σ` that either returns a value or is cut by a crash; the
state at the cut is kept, because what is on disk at that moment is what recovery starts from.

* `wp m Q C s` — from `s`, `m` returns with `Q` or is cut with the crash condition `C`; the
  structural rules (`wp_pure`, `wp_bind`, `wp_ite`) compute it, `wp_mono` weakens it.
* `Along step ok s es` — every event of the run `es` from `s` meets the condition `ok` in the state
  it is taken in; `Along.invariant` is the induction over such runs.
-/

set_option autoImplicit false

namespace Lib

/-- How a program ends: with a value, or cut by a crash. -/
inductive Ending (σ α : Type) where
  | done (a : α) (s : σ)
  | crashed (s : σ)

/-- The state an ending leaves behind. -/
def Ending.state {σ α : Type} : Ending σ α → σ
  | .done _ s => s
  | .crashed s => s

/-- The value of an ending that was not cut. -/
def Ending.value {σ α : Type} : Ending σ α → Option α
  | .done a _ => some a
  | .crashed _ => none

def Ending.Meets {σ α : Type} (Q : α → σ → Prop) (C : σ → Prop) : Ending σ α → Prop
  | .done a s => Q a s
  | .crashed s => C s

def Prog (σ α : Type) : Type := σ → Ending σ α

namespace Prog

variable {σ α β : Type}

protected def bind (m : Prog σ α) (f : α → Prog σ β) : Prog σ β := fun s =>
  match m s with
  | .done a s' => f a s'
  | .crashed s' => .crashed s'

instance : Monad (Prog σ) where
  pure a := fun s => .done a s
  bind := Prog.bind

/-- Read the state through `g`. -/
def gets (g : σ → α) : Prog σ α := fun s => .done (g s) s

def modify (g : σ → σ) : Prog σ Unit := fun s => .done () (g s)

/-- Weakest precondition: `m` returns with `Q` or is cut with `C`. -/
def wp (m : Prog σ α) (Q : α → σ → Prop) (C : σ → Prop) (s : σ) : Prop := (m s).Meets Q C

variable {Q : α → σ → Prop} {C : σ → Prop} {s : σ}

@[simp] theorem wp_pure (a : α) : wp (pure a) Q C s ↔ Q a s := Iff.rfl

@[simp] theorem wp_gets (g : σ → α) : wp (gets g) Q C s ↔ Q (g s) s := Iff.rfl

@[simp] theorem wp_modify (g : σ → σ) {Q : Unit → σ → Prop} :
    wp (modify g) Q C s ↔ Q () (g s) := Iff.rfl

@[simp] theorem wp_bind (m : Prog σ α) (f : α → Prog σ β) {Q : β → σ → Prop} :
    wp (m >>= f) Q C s ↔ wp m (fun a s' => wp (f a) Q C s') C s := by
  unfold wp
  show Ending.Meets Q C (Prog.bind m f s) ↔ _
  unfold Prog.bind
  cases m s <;> rfl

@[simp] theorem wp_ite (c : Prop) [Decidable c] (m₁ m₂ : Prog σ α) :
    wp (if c then m₁ else m₂) Q C s ↔ (c → wp m₁ Q C s) ∧ (¬ c → wp m₂ Q C s) := by
  by_cases h : c <;> simp [h]

theorem wp_mono {m : Prog σ α} {Q' : α → σ → Prop} {C' : σ → Prop} (h : wp m Q C s)
    (hQ : ∀ a s', Q a s' → Q' a s') (hC : ∀ s', C s' → C' s') : wp m Q' C' s := by
  unfold wp at *
  cases hm : m s with
  | done a s' => rw [hm] at h; exact hQ a s' h
  | crashed s' => rw [hm] at h; exact hC s' h

/-- A program that can only end in one way ends so. -/
theorem eq_done_of_wp {m : Prog σ α} {a : α} {t : σ}
    (h : wp m (fun b s' => b = a ∧ s' = t) (fun _ => False) s) : m s = .done a t := by
  unfold wp at h
  cases hm : m s with
  | done b s' => rw [hm] at h; obtain ⟨rfl, rfl⟩ := h; rfl
  | crashed s' => rw [hm] at h; exact h.elim

theorem wp_and {m : Prog σ α} {Q' : α → σ → Prop} {C' : σ → Prop} (h : wp m Q C s)
    (h' : wp m Q' C' s) : wp m (fun a s' => Q a s' ∧ Q' a s') (fun s' => C s' ∧ C' s') s := by
  unfold wp at *
  cases hm : m s with
  | done a s' => rw [hm] at h h'; exact ⟨h, h'⟩
  | crashed s' => rw [hm] at h h'; exact ⟨h, h'⟩

end Prog

section Runs

variable {S E : Type} {step : S → E → S} {ok : S → E → Prop}

/-- Every event of the run meets `ok` in the state it is taken in. -/
def Along (step : S → E → S) (ok : S → E → Prop) : S → List E → Prop
  | _, [] => True
  | s, e :: es => ok s e ∧ Along step ok (step s e) es

instance decidableAlong [∀ s e, Decidable (ok s e)] : ∀ (s : S) (es : List E), Decidable (Along step ok s es)
  | _, [] => .isTrue trivial
  | s, e :: es =>
    have := decidableAlong (step s e) es
    inferInstanceAs (Decidable (ok s e ∧ Along step ok (step s e) es))

/-- **Induction over runs**: what every admitted step preserves holds after every run. -/
theorem Along.invariant {I : S → Prop} (hstep : ∀ s e, I s → ok s e → I (step s e)) {es : List E}
    {s : S} (hi : I s) (h : Along step ok s es) : I (es.foldl step s) := by
  induction es generalizing s with
  | nil => exact hi
  | cons e es ih => exact ih (hstep s e hi h.1) h.2

/-- Every step of a run can be judged in a state that satisfies the invariant. -/
theorem Along.imp {I : S → Prop} {ok' : S → E → Prop} (hstep : ∀ s e, I s → ok s e → I (step s e))
    (h : ∀ s e, I s → ok s e → ok' s e) {es : List E} {s : S} (hi : I s) (hes : Along step ok s es) :
    Along step ok' s es := by
  induction es generalizing s with
  | nil => trivial
  | cons e es ih => exact ⟨h s e hi hes.1, ih (hstep s e hi hes.1) hes.2⟩

theorem Along.and {ok' : S → E → Prop} {es : List E} {s : S} (h : Along step ok s es)
    (h' : Along step ok' s es) : Along step (fun s e => ok s e ∧ ok' s e) s es := by
  induction es generalizing s with
  | nil => trivial
  | cons e es ih => exact ⟨⟨h.1, h'.1⟩, ih h.2 h'.2⟩

/-- Where a step of a good state is admitted exactly when it keeps `P`, the runs that keep `P`
throughout are the admitted ones. -/
theorem Along.iff_prefixes {I P : S → Prop} {promised : S → E → Prop} (hI : ∀ s, I s → P s)
    (hstep : ∀ s e, I s → promised s e → (P (step s e) ↔ ok s e))
    (hinv : ∀ s e, I s → promised s e → ok s e → I (step s e)) {es : List E} {s : S} (hi : I s)
    (hp : Along step promised s es) :
    (∀ pre, pre <+: es → P (pre.foldl step s)) ↔ Along step ok s es := by
  induction es generalizing s with
  | nil =>
    refine ⟨fun _ => trivial, fun _ pre hpre => ?_⟩
    rw [List.prefix_nil.1 hpre]
    exact hI s hi
  | cons e es ih =>
    constructor
    · intro h
      have hok := (hstep s e hi hp.1).1 (h [e] (List.prefix_cons_iff.2 (.inr ⟨[], rfl, by simp⟩)))
      refine ⟨hok, (ih (hinv s e hi hp.1 hok) hp.2).1 fun pre hpre => ?_⟩
      exact h (e :: pre) (List.prefix_cons_iff.2 (.inr ⟨pre, rfl, hpre⟩))
    · intro h pre hpre
      rcases List.prefix_cons_iff.1 hpre with rfl | ⟨pre', rfl, hpre'⟩
      · exact hI s hi
      · exact (ih (hinv s e hi hp.1 h.1) hp.2).2 h.2 pre' hpre'

/-- Where two conditions on a step agree in every good state, and a step that meets them leads to one, they agree along
every run. -/
theorem Along.iff_of_step {I : S → Prop} {ok' : S → E → Prop} (hstep : ∀ s e, I s → ok s e → I (step s e))
    (h : ∀ s e, I s → (ok s e ↔ ok' s e)) {es : List E} {s : S} (hi : I s) : Along step ok s es ↔ Along step ok' s es := by
  induction es generalizing s with
  | nil => exact Iff.rfl
  | cons e es ih => exact (and_congr_right fun hok => ih (hstep s e hi hok)).trans (and_congr_left fun _ => h s e hi)

theorem Along.congr {I : S → Prop} {ok' : S → E → Prop} (hstep : ∀ s e, I s → I (step s e))
    (h : ∀ s e, I s → (ok s e ↔ ok' s e)) {es : List E} {s : S} (hi : I s) :
    Along step ok s es ↔ Along step ok' s es := Along.iff_of_step (fun s e hi _ => hstep s e hi) h hi

theorem Along.of_forall {es : List E} (h : ∀ e ∈ es, ∀ s, ok s e) (s : S) : Along step ok s es := by
  induction es generalizing s with
  | nil => trivial
  | cons e es ih => exact ⟨h e (by simp) s, ih (fun e' he' => h e' (by simp [he'])) _⟩

theorem Along.append {es es' : List E} {s : S} :
    Along step ok s (es ++ es') ↔ Along step ok s es ∧ Along step ok (es.foldl step s) es' := by
  induction es generalizing s with
  | nil => simp [Along]
  | cons e es ih => simp [Along, ih, and_assoc]

end Runs

end Lib
