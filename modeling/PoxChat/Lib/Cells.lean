import Mathlib.Data.List.ReduceOption
import Mathlib.Data.List.TakeDrop

/-!
# Cells of an allocated block

A block of memory is a list of cells, empty until they are written.  An access names a cell by an integer; one outside the
block, or of an empty cell, is a fault.

* `load`, `store`, `moveCells` — the accesses; `resize` — a block of another size with the same beginning.
* `Begins` — the elements stand in the first cells.
* `Begins.load`, `Begins.insert`, `Begins.erase` — an element is read, and one is put in or taken out by moving those
  behind it.
-/

set_option autoImplicit false

namespace Lib

inductive Fault where
  /-- A cell outside the block is accessed. -/
  | outside
  /-- A cell is read that was never written. -/
  | unset
  /-- A loop is not left. -/
  | endless

theorem ok_bind {ε α β : Type} (a : α) (f : α → Except ε β) : (Except.ok a >>= f) = f a := rfl

theorem error_ne_ok {ε α : Type} (e : ε) (a : α) : (Except.error e : Except ε α) ≠ .ok a := by
  intro h
  cases h

/-- What comes back from two steps went through both. -/
theorem bind_eq_ok {ε α β : Type} {x : Except ε α} {f : α → Except ε β} {b : β} (h : (x >>= f) = .ok b) :
    ∃ a, x = .ok a ∧ f a = .ok b := by
  cases x with
  | error e => cases h
  | ok a => exact ⟨a, rfl, h⟩

variable {α : Type}

def load (cells : List (Option α)) (i : Int) : Except Fault α :=
  if i < 0 then .error .outside
  else match cells[i.toNat]? with
    | none => .error .outside
    | some none => .error .unset
    | some (some a) => .ok a

def store (cells : List (Option α)) (i : Int) (a : α) : Except Fault (List (Option α)) :=
  if 0 ≤ i ∧ i < cells.length then .ok (cells.set i.toNat (some a)) else .error .outside

/-- `n` cells from `src` on are copied to `dst` on; the two parts may overlap. -/
def moveCells (cells : List (Option α)) (dst src : Int) (n : Nat) : Except Fault (List (Option α)) :=
  if 0 ≤ dst ∧ dst + n ≤ cells.length ∧ 0 ≤ src ∧ src + n ≤ cells.length then
    .ok (cells.take dst.toNat ++ (cells.drop src.toNat).take n ++ cells.drop (dst.toNat + n))
  else .error .outside

theorem load_of_neg {cells : List (Option α)} {i : Int} (hi : i < 0) : load cells i = .error .outside := if_pos hi

theorem load_nil (i : Int) : load ([] : List (Option α)) i = .error .outside := by
  unfold load
  split_ifs
  · rfl
  · rfl

theorem store_nil (i : Int) (a : α) : store [] i a = .error .outside :=
  if_neg fun h => absurd h.2 (Int.not_lt.2 h.1)

theorem store_getElem? {cells cells' : List (Option α)} {i : Int} {a : α} (h : store cells i a = .ok cells') {j : Nat}
    (hj : (j : Int) ≠ i) : cells'[j]? = cells[j]? := by
  unfold store at h
  split_ifs at h with hi
  cases h
  exact List.getElem?_set_ne (by omega)

section Moves

variable (front back spare : List (Option α)) (c : Option α)

theorem moveCells_of_le {cells : List (Option α)} {dst src n : Nat} (hdst : dst + n ≤ cells.length)
    (hsrc : src + n ≤ cells.length) :
    moveCells cells dst src n = .ok (cells.take dst ++ (cells.drop src).take n ++ cells.drop (dst + n)) := by
  rw [moveCells, if_pos (by omega), Int.toNat_natCast, Int.toNat_natCast]

/-- Up by one cell: the first cell of the part is left as it was. -/
theorem moveCells_up : ∃ d, moveCells (front ++ back ++ c :: spare) (front.length + 1 : Nat) front.length back.length =
    .ok (front ++ d :: back ++ spare) := by
  have hne : back ++ c :: spare ≠ [] := by simp
  refine ⟨(back ++ c :: spare).head hne, ?_⟩
  rw [moveCells_of_le (by simp; omega) (by simp)]
  have htake : (front ++ back ++ c :: spare).take (front.length + 1) = front ++ [(back ++ c :: spare).head hne] := by
    rw [List.append_assoc, List.take_length_add_append, List.take_one, List.head?_eq_some_head hne]
    rfl
  have hsrc : ((front ++ back ++ c :: spare).drop front.length).take back.length = back := by
    rw [List.append_assoc, List.drop_left, List.take_left]
  have hdrop : (front ++ back ++ c :: spare).drop (front.length + 1 + back.length) = spare := by
    rw [show front.length + 1 + back.length = (front ++ back).length + 1 by simp; omega, List.drop_length_add_append]
    rfl
  rw [htake, hsrc, hdrop]
  simp

/-- Down by one cell: the last cell of the part is left as it was. -/
theorem moveCells_down : ∃ d, moveCells (front ++ c :: back ++ spare) front.length (front.length + 1 : Nat) back.length =
    .ok (front ++ back ++ d :: spare) := by
  have hne : c :: back ≠ [] := List.cons_ne_nil c back
  refine ⟨(c :: back).getLast hne, ?_⟩
  rw [moveCells_of_le (by simp; omega) (by simp; omega)]
  have htake : (front ++ c :: back ++ spare).take front.length = front := by
    rw [List.append_assoc, List.take_left]
  have hsrc : ((front ++ c :: back ++ spare).drop (front.length + 1)).take back.length = back := by
    rw [List.append_assoc, List.drop_length_add_append]
    exact List.take_left
  have hdrop : (front ++ c :: back ++ spare).drop (front.length + back.length) = (c :: back).getLast hne :: spare := by
    have hlast : (c :: back).drop back.length = [(c :: back).getLast hne] := List.drop_length_sub_one hne
    rw [List.append_assoc, List.drop_length_add_append, List.drop_append_of_le_length (by simp), hlast]
    rfl
  rw [htake, hsrc, hdrop]

theorem moveCells_of_lt {cells : List (Option α)} {dst src : Int} {n : Nat} (h : cells.length < dst + n) :
    moveCells cells dst src n = .error .outside := if_neg fun hin => absurd hin.2.1 (Int.not_le.2 h)

/-- The cells behind the target are left as they were. -/
theorem moveCells_getElem? {cells cells' : List (Option α)} {dst src n : Nat} (h : moveCells cells dst src n = .ok cells')
    {j : Nat} (hj : dst + n ≤ j) : cells'[j]? = cells[j]? := by
  unfold moveCells at h
  split_ifs at h with hin
  cases h
  have hlen : (cells.take dst ++ (cells.drop src).take n).length = dst + n := by
    rw [List.length_append, List.length_take, List.length_take, List.length_drop]
    omega
  rw [Int.toNat_natCast, Int.toNat_natCast, List.getElem?_append_right (by omega), hlen, List.getElem?_drop,
    Nat.add_sub_cancel' hj]

end Moves

def resize (cells : List (Option α)) (n : Nat) : List (Option α) :=
  cells.take n ++ List.replicate (n - cells.length) none

theorem length_resize (cells : List (Option α)) (n : Nat) : (resize cells n).length = n := by
  rw [resize, List.length_append, List.length_take, List.length_replicate]
  omega

/-- The first cells hold these elements. -/
def Begins (cells : List (Option α)) (xs : List α) : Prop := xs.map some <+: cells

namespace Begins

variable {cells : List (Option α)} {xs : List α}

theorem length_le (h : Begins cells xs) : xs.length ≤ cells.length := by
  have hle := List.IsPrefix.length_le h
  rwa [List.length_map] at hle

/-- The elements are what the first cells hold. -/
theorem contents (h : Begins cells xs) : (cells.take xs.length).reduceOption = xs := by
  obtain ⟨spare, rfl⟩ := h
  have htake : (xs.map some ++ spare).take xs.length = xs.map some := by
    rw [List.take_append_of_le_length (by simp), List.take_of_length_le (by simp)]
  rw [htake, List.reduceOption, List.filterMap_map]
  exact List.filterMap_some

theorem resize (h : Begins cells xs) {n : Nat} (hn : cells.length ≤ n) : Begins (resize cells n) xs := by
  rw [Lib.resize, List.take_of_length_le hn]
  exact List.IsPrefix.trans h (List.prefix_append _ _)

theorem getElem? (h : Begins cells xs) {i : Nat} {a : α} (ha : xs[i]? = some a) : cells[i]? = some (some a) := by
  have hmap : (xs.map some)[i]? = some (some a) := by
    rw [List.getElem?_map, ha]
    rfl
  obtain ⟨hi, -⟩ := List.getElem?_eq_some_iff.1 hmap
  obtain ⟨spare, rfl⟩ := h
  rw [List.getElem?_append_left hi, hmap]

theorem load (h : Begins cells xs) {i : Nat} {a : α} (ha : xs[i]? = some a) : load cells i = .ok a := by
  rw [Lib.load, if_neg (by omega), Int.toNat_natCast, h.getElem? ha]

theorem load_get (h : Begins cells xs) {i : Nat} (hi : i < xs.length) : Lib.load cells i = .ok (xs.get ⟨i, hi⟩) :=
  h.load (List.getElem?_eq_getElem hi)

/-- A block whose first cells hold as many elements as there are cells begins with them. -/
theorem of_contents (h : (cells.take xs.length).reduceOption = xs) : Begins cells xs := by
  have hall : ∀ {l : List (Option α)} {ys : List α}, l.reduceOption = ys → l.length ≤ ys.length → l = ys.map some := by
    intro l
    induction l with
    | nil =>
      rintro ys rfl -
      rfl
    | cons o l ih =>
      rintro ys rfl hle
      cases o with
      | none =>
        have := List.reduceOption_length_le l
        rw [List.reduceOption_cons_of_none, List.length_cons] at hle
        omega
      | some a =>
        rw [List.reduceOption_cons_of_some, List.length_cons, List.length_cons] at hle
        rw [List.reduceOption_cons_of_some, List.map_cons, ← ih rfl (Nat.le_of_succ_le_succ hle)]
  rw [Begins, ← hall h (List.length_take_le _ _)]
  exact List.take_prefix _ _

theorem replace (h : Begins cells xs) {i : Nat} (hi : i < xs.length) (a : α) :
    ∃ cells', store cells i a = .ok cells' ∧ cells'.length = cells.length ∧ Begins cells' (xs.set i a) := by
  have hle := h.length_le
  refine ⟨_, if_pos ⟨by omega, by omega⟩, List.length_set, ?_⟩
  obtain ⟨spare, rfl⟩ := h
  refine ⟨spare, ?_⟩
  rw [Int.toNat_natCast, List.set_append_left _ _ (by simpa using hi), List.map_set]

theorem append (h : Begins cells xs) (hroom : xs.length < cells.length) (a : α) :
    ∃ cells', store cells xs.length a = .ok cells' ∧ cells'.length = cells.length ∧ Begins cells' (xs ++ [a]) := by
  refine ⟨_, if_pos ⟨by omega, by omega⟩, List.length_set, ?_⟩
  obtain ⟨spare, rfl⟩ := h
  cases spare with
  | nil => simp at hroom
  | cons c spare =>
    refine ⟨spare, ?_⟩
    simp

/-- The elements from a place on move up by one cell, and another element takes the place. -/
theorem insert {front back : List α} (h : Begins cells (front ++ back))
    (hroom : (front ++ back).length < cells.length) (a : α) :
    ∃ moved cells', moveCells cells (front.length + 1 : Nat) front.length back.length = .ok moved ∧
      store moved front.length a = .ok cells' ∧ cells'.length = cells.length ∧ Begins cells' (front ++ a :: back) := by
  obtain ⟨spare, rfl⟩ := h
  obtain ⟨c, spare, rfl⟩ := List.exists_cons_of_ne_nil (l := spare) (by rintro rfl; simp at hroom)
  obtain ⟨d, hmoved⟩ := moveCells_up (front.map some) (back.map some) spare c
  rw [List.length_map, List.length_map, ← List.map_append] at hmoved
  refine ⟨_, _, hmoved, if_pos ⟨by omega, by simp; omega⟩, by simp; omega, spare, ?_⟩
  simp

/-- The elements behind one move down by one cell. -/
theorem erase {front back : List α} {a : α} (h : Begins cells (front ++ a :: back)) :
    ∃ cells', moveCells cells front.length (front.length + 1 : Nat) back.length = .ok cells' ∧
      cells'.length = cells.length ∧ Begins cells' (front ++ back) := by
  obtain ⟨spare, rfl⟩ := h
  obtain ⟨d, hmoved⟩ := moveCells_down (front.map some) (back.map some) spare (some a)
  rw [List.length_map, List.length_map] at hmoved
  have hcells : (front ++ a :: back).map some ++ spare = front.map some ++ some a :: back.map some ++ spare := by simp
  rw [hcells]
  refine ⟨_, hmoved, by simp; omega, d :: spare, ?_⟩
  rw [List.map_append]

end Begins

end Lib
