import Mathlib.Data.List.Basic
import Mathlib.Tactic.Common

/-!
# Keyed tables and C integers

A table with a primary key is an association list in which `put` (`INSERT OR REPLACE`) drops the
old row of its key first, so a key names at most one row.

* `get_put`, `get_restrict` — what a lookup sees after a write and after a delete by key.
* `maxKey_eq_some`, `maxKey_eq_none` — `SELECT MAX(key)`, characterised by lookups alone, so two
  tables with the same keys have the same maximum (`maxKey_congr`).
* `toInt32` — the value a C `int` holds after a conversion from a wider integer.
-/

set_option autoImplicit false

namespace Lib

/-- Rows under a primary key. -/
abbrev Table (κ ρ : Type) := List (κ × ρ)

namespace Table

variable {κ ρ ρ' : Type} [DecidableEq κ]

/-- `SELECT … WHERE key = k`. -/
def get (t : Table κ ρ) (k : κ) : Option ρ := (t.find? (fun e => decide (e.1 = k))).map (·.2)

/-- `INSERT OR REPLACE`. -/
def put (t : Table κ ρ) (k : κ) (v : ρ) : Table κ ρ := (k, v) :: t.filter (fun e => decide (e.1 ≠ k))

/-- `DELETE … WHERE NOT p key`. -/
def restrict (t : Table κ ρ) (p : κ → Bool) : Table κ ρ := t.filter (fun e => p e.1)

/-- `SELECT MAX(key)`. -/
def maxKey (t : Table Int ρ) : Option Int := (t.map (·.1)).max?

@[simp] theorem get_nil (k : κ) : get ([] : Table κ ρ) k = none := rfl

theorem get_cons (e : κ × ρ) (t : Table κ ρ) (k : κ) :
    get (e :: t) k = if e.1 = k then some e.2 else get t k := by
  unfold get
  by_cases h : e.1 = k <;> simp [h]

theorem get_restrict (t : Table κ ρ) (p : κ → Bool) (k : κ) :
    get (restrict t p) k = if p k then get t k else none := by
  induction t with
  | nil => simp [restrict]
  | cons e t ih =>
    simp only [restrict, List.filter_cons] at ih ⊢
    by_cases hp : p e.1 = true
    · rw [if_pos hp, get_cons, get_cons, ih]
      by_cases he : e.1 = k
      · subst he; simp [hp]
      · simp [he]
    · rw [if_neg hp, ih, get_cons]
      by_cases he : e.1 = k
      · subst he; simp [hp]
      · simp [he]

theorem get_put (t : Table κ ρ) (k k' : κ) (v : ρ) :
    get (put t k v) k' = if k = k' then some v else get t k' := by
  have h := get_restrict t (fun x => decide (x ≠ k)) k'
  unfold restrict at h
  rw [put, get_cons, h]
  by_cases hk : k = k'
  · simp [hk]
  · simp [hk, Ne.symm hk]

@[simp] theorem get_put_self (t : Table κ ρ) (k : κ) (v : ρ) : get (put t k v) k = some v := by
  simp [get_put]

theorem mem_keys_iff (t : Table κ ρ) (k : κ) : k ∈ t.map (·.1) ↔ (get t k).isSome = true := by
  induction t with
  | nil => simp
  | cons e t ih =>
    rw [get_cons, List.map_cons, List.mem_cons, ih]
    by_cases h : e.1 = k
    · simp [h]
    · simp [h, Ne.symm h]

theorem eq_nil_iff (t : Table κ ρ) : t = [] ↔ ∀ k, get t k = none := by
  constructor
  · rintro rfl k; rfl
  · intro h
    cases t with
    | nil => rfl
    | cons e t => have := h e.1; simp [get_cons] at this

theorem restrict_eq_nil (t : Table κ ρ) {p : κ → Bool}
    (h : ∀ k, (get t k).isSome = true → p k = false) : restrict t p = [] := by
  rw [eq_nil_iff]
  intro k
  rw [get_restrict]
  split
  · rename_i hp
    cases hg : get t k with
    | none => rfl
    | some v =>
      rw [h k (by rw [hg]; rfl)] at hp
      cases hp
  · rfl

theorem maxKey_eq_some (t : Table Int ρ) (m : Int) :
    maxKey t = some m ↔ (get t m).isSome = true ∧ ∀ k, (get t k).isSome = true → k ≤ m := by
  unfold maxKey
  rw [List.max?_eq_some_iff, mem_keys_iff]
  exact and_congr_right fun _ => ⟨fun h k hk => h k ((mem_keys_iff t k).2 hk),
    fun h k hk => h k ((mem_keys_iff t k).1 hk)⟩

theorem maxKey_eq_none (t : Table Int ρ) : maxKey t = none ↔ t = [] := by
  simp [maxKey]

theorem maxKey_put (t : Table Int ρ) (k : Int) (v : ρ) :
    maxKey (put t k v) = some (max (t.maxKey.getD k) k) := by
  rw [maxKey_eq_some]
  cases hm : t.maxKey with
  | none =>
    have hg := (eq_nil_iff t).1 ((maxKey_eq_none t).1 hm)
    refine ⟨by simp, fun k' hk' => ?_⟩
    rw [get_put] at hk'
    split at hk'
    · simp; omega
    · simp [hg k'] at hk'
  | some m =>
    obtain ⟨hm1, hm2⟩ := (maxKey_eq_some t m).1 hm
    simp only [Option.getD_some]
    refine ⟨?_, fun k' hk' => ?_⟩
    · rw [get_put]
      split
      · rfl
      · have : max m k = m := by omega
        rw [this]; exact hm1
    · rw [get_put] at hk'
      split at hk'
      · omega
      · have := hm2 k' hk'; omega

/-- Cutting a table above a key that is there makes that key the maximum. -/
theorem maxKey_restrict_le (t : Table Int ρ) {n : Int} (h : (get t n).isSome = true) :
    maxKey (restrict t fun k => decide (k ≤ n)) = some n := by
  rw [maxKey_eq_some]
  refine ⟨by simp [get_restrict, h], fun k hk => ?_⟩
  rw [get_restrict] at hk
  split at hk
  · simpa using ‹decide (k ≤ n) = true›
  · cases hk

theorem maxKey_congr {t : Table Int ρ} {t' : Table Int ρ'}
    (h : ∀ k, (get t k).isSome = (get t' k).isSome) : maxKey t = maxKey t' := by
  cases h1 : maxKey t with
  | some m =>
    obtain ⟨hm, hle⟩ := (maxKey_eq_some t m).1 h1
    refine ((maxKey_eq_some t' m).2 ⟨by rw [← h]; exact hm, fun k hk => hle k ?_⟩).symm
    rw [h]; exact hk
  | none =>
    rw [maxKey_eq_none, eq_nil_iff] at h1
    refine ((maxKey_eq_none t').2 ((eq_nil_iff t').2 fun k => ?_)).symm
    have := h k
    rw [h1 k] at this
    exact Option.not_isSome_iff_eq_none.1 (by rw [← this]; simp)

end Table

/-- Conversion to a 32-bit `int` (two's complement). -/
def toInt32 (x : Int) : Int := Int.bmod x 4294967296

theorem toInt32_eq {x : Int} (h0 : -2147483648 ≤ x) (h1 : x < 2147483648) : toInt32 x = x := by
  unfold toInt32 Int.bmod
  have : x % ((4294967296 : Nat) : Int) = if 0 ≤ x then x else x + 4294967296 := by
    split <;> omega
  simp only [this]
  split <;> split <;> omega

theorem toInt32_wraps {x : Int} (h0 : 2147483648 ≤ x) (h1 : x < 4294967296) : toInt32 x = x - 4294967296 := by
  have hmod : x % ((4294967296 : Nat) : Int) = x := Int.emod_eq_of_lt (by omega) (by omega)
  rw [toInt32, Int.bmod_def, hmod]
  omega

end Lib
