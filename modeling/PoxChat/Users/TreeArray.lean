import PoxChat.Lib.Cells
import PoxChat.Lib.Program
import PoxChat.Lib.Table
import PoxChat.Users.Tree

/-!
# The array behind the user tree

Model of `tree.c` on its array: the allocated cells, `int` indexes and the sizes handed to `realloc` and `memmove`.  A
pointer has eight bytes.

* `Holds t xs` — the first cells of the block are the elements `xs`, and the counts are those of the block.
* `SumsFit` — the sums of bounds that a search can come to are of type `int`.
* `treeInsert_refines`, `treeFind_refines`, `treeRemove_refines` — where the numbers fit, the functions on the array are those
  on the list: no index is outside the block, and every loop is left.
-/

set_option autoImplicit false

namespace PoxChat.Users.TreeArray

open Lib

def ARRAY_GROW : Int := 32

variable {α : Type}

/-- `struct _tree`, without the comparison and its data.  An array that is NULL has no cells; an element is a pointer other
than NULL. -/
structure Tree (α : Type) where
  elements : Int := 0
  arraySize : Int := 0
  array : List (Option α) := []

/-- `tree_new`. -/
def treeNew : Tree α := {}

/-- Conversion to `size_t`. -/
def sizeT (x : Int) : Nat := (x % 18446744073709551616).toNat

/-- `sizeof (void *)`. -/
def POINTER : Int := 8

/-- `realloc`, NULL for a block that is not `granted` or is larger than an object can be. -/
def realloc (granted : Bool) (array : List (Option α)) (size : Nat) : List (Option α) :=
  if granted = true ∧ size < 9223372036854775808 then resize array (size / 8) else []

/-- `memmove` between two places of the array. -/
def memmove (array : List (Option α)) (dest src : Int) (size : Nat) : Except Fault (List (Option α)) :=
  moveCells array dest src (size / 8)

/-- `tree_grow`. -/
def treeGrow (granted : Bool) (t : Tree α) : Tree α :=
  if t.arraySize < t.elements + 1 then
    let newSize := toInt32 (t.arraySize + ARRAY_GROW)
    { t with array := realloc granted t.array (sizeT (POINTER * newSize)), arraySize := newSize }
  else t

/-- The loop of `tree_find_insertion_pos`. -/
def insertionLoop (compar : α → Int) (array : List (Option α)) : Nat → Int → Int → Except Fault Int
  | 0, _, _ => .error .endless
  | passes + 1, l, u => do
    let idx := (toInt32 (l + u)).tdiv 2
    let c := compar (← load array idx)
    if c < 0 then insertionLoop compar array passes l idx
    else if 0 < c then
      -- the element behind is read here only
      if compar (← load array (idx + 1)) < 0 then pure (idx + 1)
      else insertionLoop compar array passes (idx + 1) u
    else pure (-1)

/-- `tree_find_insertion_pos`: the position, `done`, and the tree. -/
def treeFindInsertionPos (compar : α → Int) (t : Tree α) (key : α) : Except Fault (Int × Bool × Tree α) := do
  if t.elements < 1 then
    let array ← store t.array 0 key
    pure (0, true, { t with array, elements := t.elements + 1 })
  else if t.elements < 2 then
    let first ← load t.array 0
    let c := compar first
    if c = 0 then pure (-1, true, t)
    else if 0 < c then
      let array ← store t.array 1 key
      pure (1, true, { t with array, elements := t.elements + 1 })
    else
      let array ← store t.array 1 first
      let array ← store array 0 key
      pure (0, true, { t with array, elements := t.elements + 1 })
  else if compar (← load t.array 0) < 0 then pure (0, false, t)
  else if 0 < compar (← load t.array (t.elements - 1)) then pure (t.elements, false, t)
  else
    let pos ← insertionLoop compar t.array (t.elements.toNat + 1) 0 (t.elements - 1)
    pure (pos, false, t)

/-- `post_bytes`: an `int` takes the product of type `size_t`. -/
def postBytes (elements pos : Int) : Int := toInt32 (sizeT ((elements - pos) * POINTER))

/-- `tree_insert_at_pos`. -/
def treeInsertAtPos (t : Tree α) (key : α) (pos : Int) : Except Fault (Tree α) := do
  let array ← if pos ≠ t.elements then memmove t.array (pos + 1) pos (sizeT (postBytes t.elements pos))
    else pure t.array
  let array ← store array pos key
  pure { t with array, elements := t.elements + 1 }

/-- `tree_insert`: the position and the tree. -/
def treeInsert (compar : α → Int) (granted : Bool) (t : Tree α) (key : α) : Except Fault (Int × Tree α) := do
  let (pos, done, t) ← treeFindInsertionPos compar (treeGrow granted t) key
  if done = false ∧ pos ≠ -1 then pure (pos, ← treeInsertAtPos t key pos)
  else pure (pos, t)

/-- The loop of `mybsearch`. -/
def searchLoop (compar : α → Int) (array : List (Option α)) : Nat → Int → Int → Except Fault (Option (Int × α))
  | 0, l, u => if l < u then .error .endless else pure none
  | passes + 1, l, u =>
    if l < u then do
      let idx := (toInt32 (l + u)).tdiv 2
      let a ← load array idx
      if compar a < 0 then searchLoop compar array passes l idx
      else if 0 < compar a then searchLoop compar array passes (idx + 1) u
      else pure (some (idx, a))
    else pure none

/-- `mybsearch`: the position and the element. -/
def mybsearch (compar : α → Int) (array : List (Option α)) (nmemb : Nat) : Except Fault (Option (Int × α)) :=
  searchLoop compar array (nmemb + 1) 0 (toInt32 nmemb)

/-- `tree_find`. -/
def treeFind (compar : α → Int) (t : Tree α) : Except Fault (Option (Int × α)) :=
  if t.array.isEmpty then pure none else mybsearch compar t.array (sizeT t.elements)

/-- `tree_remove_at_pos`: the element and the tree. -/
def treeRemoveAtPos (t : Tree α) (pos : Int) : Except Fault (α × Tree α) := do
  let ret ← load t.array pos
  -- `t->elements` has been lowered before the comparison
  let array ← if pos ≠ t.elements - 1 then memmove t.array pos (pos + 1) (sizeT (postBytes (t.elements - 1) pos))
    else pure t.array
  pure (ret, { t with array, elements := t.elements - 1 })

/-- `tree_remove`: what it returns, what it leaves in `*pos`, and the tree. -/
def treeRemove (compar : α → Int) (t : Tree α) : Except Fault (Int × Option Int × Tree α) := do
  match ← treeFind compar t with
  | none => pure (0, none, t)
  | some (pos, _) => pure (1, some pos, (← treeRemoveAtPos t pos).2)

/-! ## Where the numbers fit -/

/-- The elements of the tree, in the order of the array. -/
def Tree.contents (t : Tree α) : List α := (t.array.take t.elements.toNat).reduceOption

/-- The left bounds of a search up to `u` that goes to the right at every pass. -/
def rightward (u : Nat) : Nat → Nat
  | 0 => 0
  | j + 1 => (rightward u j + u) / 2 + 1

/-- The sum of the bounds is an `int` in every pass of such a search whose left bound is below `reached`. -/
def SumsFit (u reached : Nat) : Prop := ∀ j, rightward u j < reached → rightward u j + u < 2147483648

/-- The sums fit where the bounds are at most 2^30. -/
theorem sumsFit_of_le {u reached : Nat} (hu : u ≤ 1073741824) (hreached : reached ≤ u ∨ u < 1073741824 ∧ reached ≤ u + 1) :
    SumsFit u reached := by
  intro j hj
  omega

/-- The index in the middle of two bounds. -/
theorem half_eq {l u : Nat} (h : l + u < 2147483648) : (toInt32 ((l : Int) + u)).tdiv 2 = ((l + u) / 2 : Nat) := by
  rw [toInt32_eq (by omega) (by omega), Int.tdiv_eq_ediv_of_nonneg (by omega)]
  omega

/-- The bytes moved, while fewer than 2^28 elements are. -/
theorem postBytes_eq {elements pos : Int} {n : Nat} (hn : elements - pos = n) (hlt : n < 268435456) :
    sizeT (postBytes elements pos) / 8 = n := by
  unfold postBytes sizeT POINTER
  rw [toInt32_eq (by omega) (by omega)]
  omega

/-! ## Searching -/

section Searching

variable {compar : α → Int} {array : List (Option α)} {xs : List α}

theorem searchLoop_eq (hb : Begins array xs) (hd : Descends compar xs)
    (hfits : SumsFit xs.length (min (xs.countP (fun a => 0 < compar a) + 1) xs.length)) (passes : Nat) {l u : Nat}
    (hpasses : u < passes + l) (hu : u = xs.length ∧ (∃ j, l = rightward xs.length j) ∨ u < 1073741824)
    (hul : u ≤ xs.length) (hl : l ≤ xs.countP fun a => 0 < compar a) :
    searchLoop compar array passes l u = .ok ((bisect compar xs passes l u).map fun found => ((found.1 : Int), found.2)) := by
  induction passes generalizing l u with
  | zero =>
    rw [searchLoop, if_neg (by omega)]
    rfl
  | succ passes ih =>
    unfold searchLoop bisect
    by_cases hlu : l < u
    · have hsum : l + u < 2147483648 := by
        rcases hu with ⟨rfl, j, rfl⟩ | hu
        · exact hfits j (Nat.lt_min.2 ⟨Nat.lt_succ_of_le hl, hlu⟩)
        · omega
      have hm : (l + u) / 2 < xs.length := by omega
      have hget : xs[(l + u) / 2]? = some (xs.get ⟨(l + u) / 2, hm⟩) := List.getElem?_eq_getElem hm
      rw [if_pos hlu, if_pos (by omega), half_eq hsum, hget]
      simp only [hb.load hget, bind, Except.bind]
      split_ifs with hneg hpos
      · exact ih (by omega) (.inr (by omega)) (by omega) hl
      · have hbelow := (hd.pos_iff hm).2 hpos
        have hright : u = xs.length ∧ (∃ j, (l + u) / 2 + 1 = rightward xs.length j) ∨ u < 1073741824 := by
          refine hu.imp_left ?_
          rintro ⟨rfl, j, rfl⟩
          exact ⟨rfl, j + 1, rfl⟩
        rw [← Int.natCast_add_one]
        exact ih (by omega) hright hul hbelow
      · rfl
    · rw [if_neg hlu, if_neg (by omega)]
      rfl

/-- The loop over the cells is the loop over the list: it keeps the element at `l` at or below the key, and the one at `u` at
or above it. -/
theorem insertionLoop_eq (hb : Begins array xs) (hd : Descends compar xs)
    (hfits : SumsFit (xs.length - 1) (xs.countP fun a => 0 ≤ compar a)) (passes : Nat) {l u : Nat}
    (hu : u = xs.length - 1 ∧ (∃ j, l = rightward (xs.length - 1) j) ∨ u < 1073741824) (hux : u < xs.length) (hlu : l ≤ u)
    (hlow : 0 ≤ compar (xs.get ⟨l, Nat.lt_of_le_of_lt hlu hux⟩)) (hup : compar (xs.get ⟨u, hux⟩) ≤ 0) :
    insertionLoop compar array passes l u =
      (Users.insertionLoop compar xs passes l u).elim (.error .endless) .ok := by
  induction passes generalizing l u with
  | zero => rfl
  | succ passes ih =>
    have hsum : l + u < 2147483648 := by
      rcases hu with ⟨rfl, j, rfl⟩ | hu
      · exact hfits j ((hd.nonneg_iff _).2 hlow)
      · omega
    have hm : (l + u) / 2 < xs.length := by omega
    have hget : xs[(l + u) / 2]? = some (xs.get ⟨(l + u) / 2, hm⟩) := List.getElem?_eq_getElem hm
    unfold insertionLoop Users.insertionLoop
    rw [half_eq hsum]
    dsimp only
    rw [hget]
    simp only [hb.load hget, bind, Except.bind]
    by_cases hneg : compar (xs.get ⟨(l + u) / 2, hm⟩) < 0
    · rw [if_pos hneg, if_pos hneg]
      have hne : l ≠ u := by
        rintro rfl
        have hidx : (l + l) / 2 = l := by omega
        simp only [hidx] at hneg
        omega
      exact ih (.inr (by omega)) hm (by omega) hlow (Int.le_of_lt hneg)
    · rw [if_neg hneg, if_neg hneg]
      by_cases hpos : 0 < compar (xs.get ⟨(l + u) / 2, hm⟩)
      · -- the element at `u` is not below the key, so it is a later one
        have hlt : (l + u) / 2 < u := by
          by_contra hge
          have hidx : (l + u) / 2 = u := by omega
          simp only [hidx] at hpos
          omega
        have hsm : (l + u) / 2 + 1 < xs.length := by omega
        have hnext : xs[(l + u) / 2 + 1]? = some (xs.get ⟨(l + u) / 2 + 1, hsm⟩) := List.getElem?_eq_getElem hsm
        rw [if_pos hpos, ← Int.natCast_add_one, hb.load hnext, hnext]
        dsimp only [Option.any_some]
        by_cases hafter : compar (xs.get ⟨(l + u) / 2 + 1, hsm⟩) < 0
        · rw [if_pos hafter, if_pos ⟨hpos, decide_eq_true hafter⟩]
          rfl
        · rw [if_neg hafter, if_neg (fun h => hafter (of_decide_eq_true h.2)), if_neg (by omega)]
          have hright : u = xs.length - 1 ∧ (∃ j, (l + u) / 2 + 1 = rightward (xs.length - 1) j) ∨ u < 1073741824 := by
            refine hu.imp_left ?_
            rintro ⟨rfl, j, rfl⟩
            exact ⟨rfl, j + 1, rfl⟩
          exact ih hright hux hlt (Int.not_lt.1 hafter) hup
      · rw [if_neg hpos, if_neg (fun h => hpos h.1), if_pos (by omega)]
        rfl

end Searching

/-! ## The array holds a list -/

/-- The tree holds `xs`. -/
structure Holds (t : Tree α) (xs : List α) : Prop where
  elements : t.elements = xs.length
  begins : Begins t.array xs
  size : t.arraySize = t.array.length
  int : t.arraySize < 2147483648

section Refinement

variable {compar : α → Int} {t : Tree α} {xs : List α}

theorem Holds.contents (h : Holds t xs) : t.contents = xs := by
  rw [Tree.contents, h.elements, Int.toNat_natCast, h.begins.contents]

theorem holds_new : Holds (treeNew : Tree α) [] where
  elements := rfl
  begins := List.prefix_rfl
  size := rfl
  int := show (0 : Int) < 2147483648 by decide

theorem Holds.cells_lt (h : Holds t xs) : t.array.length < 2147483648 := by
  have hint := h.int
  rw [h.size] at hint
  omega

theorem Holds.length_lt (h : Holds t xs) : xs.length < 2147483648 := Nat.lt_of_le_of_lt h.begins.length_le h.cells_lt

/-- The block of few elements can grow. -/
theorem Holds.grows (h : Holds t xs) (hfew : xs.length < 1073741824) (hfull : t.arraySize ≤ t.elements) :
    t.arraySize + ARRAY_GROW < 2147483648 := by
  have helements := h.elements
  unfold ARRAY_GROW
  omega

theorem Holds.load_first (h : Holds t xs) (hne : 0 < xs.length) : load t.array 0 = .ok (xs.get ⟨0, hne⟩) :=
  h.begins.load_get hne

theorem Holds.load_last (h : Holds t xs) (hne : 0 < xs.length) :
    load t.array (t.elements - 1) = .ok (xs.get ⟨xs.length - 1, by omega⟩) := by
  rw [h.elements, show (xs.length : Int) - 1 = (xs.length - 1 : Nat) by omega]
  exact h.begins.load_get (by omega)

/-- One element more in the same block. -/
theorem Holds.more (h : Holds t xs) {array : List (Option α)} {ys : List α} (hsize : array.length = t.array.length)
    (hbegins : Begins array ys) (hys : ys.length = xs.length + 1) :
    Holds { t with array, elements := t.elements + 1 } ys where
  elements := by
    show t.elements + 1 = ys.length
    rw [h.elements, hys, Int.natCast_add_one]
  begins := hbegins
  size := h.size.trans (congrArg _ hsize.symm)
  int := h.int

theorem treeGrow_spec (h : Holds t xs) {granted : Bool}
    (hgrow : t.arraySize ≤ t.elements → granted = true ∧ t.arraySize + ARRAY_GROW < 2147483648) :
    Holds (treeGrow granted t) xs ∧ xs.length < (treeGrow granted t).array.length := by
  have hle := h.begins.length_le
  have helements := h.elements
  have hsize := h.size
  unfold treeGrow
  split_ifs with hfull
  · obtain ⟨rfl, hint⟩ := hgrow (by omega)
    unfold ARRAY_GROW at hint ⊢
    have hbytes : sizeT (POINTER * (t.arraySize + 32)) = 8 * (t.array.length + 32) := by
      unfold sizeT POINTER
      omega
    have hcells : realloc true t.array (8 * (t.array.length + 32)) = resize t.array (t.array.length + 32) := by
      rw [realloc, if_pos ⟨rfl, by omega⟩, Nat.mul_div_cancel_left _ (by decide)]
    dsimp only
    rw [toInt32_eq (by omega) hint, hbytes, hcells]
    refine ⟨⟨helements, h.begins.resize (by omega), ?_, hint⟩, ?_⟩
    · show t.arraySize + 32 = _
      rw [length_resize]
      omega
    · rw [length_resize]
      omega
  · exact ⟨h, by omega⟩

/-- The elements above the key are those from position `p` on. -/
theorem above_eq (hd : Descends compar xs) {p : Nat} (hp : p ≤ xs.length)
    (hbefore : ∀ i (hi : i < xs.length), i < p → 0 ≤ compar (xs.get ⟨i, hi⟩))
    (hfrom : ∀ hi : p < xs.length, compar (xs.get ⟨p, hi⟩) < 0) : (xs.countP fun a => compar a < 0) = xs.length - p := by
  have hsplit := List.length_eq_countP_add_countP (l := xs) fun a => decide (0 ≤ compar a)
  have hneg : (xs.countP fun a => ¬ decide (0 ≤ compar a) = true) = xs.countP fun a => compar a < 0 := by
    refine List.countP_congr fun a _ => ?_
    simp
  have hle : xs.countP (fun a => 0 ≤ compar a) ≤ p := by
    by_contra hlt
    have hpx : p < xs.length := by
      have := List.countP_le_length (p := fun a => decide (0 ≤ compar a)) (l := xs)
      omega
    have := (hd.nonneg_iff hpx).1 (by omega)
    have := hfrom hpx
    omega
  have hge : p ≤ xs.countP fun a => 0 ≤ compar a := by
    cases p with
    | zero => exact Nat.zero_le _
    | succ p => exact (hd.nonneg_iff (by omega)).2 (hbefore p (by omega) (Nat.lt_succ_self p))
  omega

/-- The elements above a key that is there are those behind it. -/
theorem above_of_found (hd : Descends compar xs) {p : Nat} {a : α} (ha : xs[p]? = some a) (hz : compar a = 0) :
    (xs.countP fun a => compar a < 0) = xs.length - (p + 1) := by
  obtain ⟨hp, rfl⟩ := List.getElem?_eq_some_iff.1 ha
  refine above_eq hd hp (fun i hi hlt => ?_) fun hi => hd.neg_of_lt (Nat.lt_succ_self p) hi (Int.le_of_eq hz)
  rcases Nat.lt_or_eq_of_le (Nat.le_of_lt_succ hlt) with hlt | rfl
  · exact Int.le_of_lt (hd.pos_of_lt hlt hp (Int.le_of_eq hz.symm))
  · exact Int.le_of_eq hz.symm

theorem treeInsertAtPos_spec (h : Holds t xs) (hroom : xs.length < t.array.length) {p : Nat} (hp : p ≤ xs.length)
    (hmoved : xs.length - p < 268435456) (key : α) :
    ∃ t', treeInsertAtPos t key p = .ok t' ∧ Holds t' (xs.insertIdx p key) := by
  have helements := h.elements
  unfold treeInsertAtPos
  rcases Nat.lt_or_eq_of_le hp with hlt | rfl
  · obtain ⟨front, back, rfl, rfl⟩ : ∃ front back, xs = front ++ back ∧ p = front.length :=
      ⟨xs.take p, xs.drop p, (List.take_append_drop p xs).symm, by rw [List.length_take]; omega⟩
    rw [List.length_append] at hmoved helements hlt
    have hbytes : sizeT (postBytes t.elements front.length) / 8 = back.length := postBytes_eq (by omega) (by omega)
    obtain ⟨moved, array, hmove, hstore, hsize, hbegins⟩ := h.begins.insert hroom key
    rw [if_pos (by omega), memmove, hbytes, ← Int.natCast_add_one, hmove]
    refine ⟨_, by simp only [bind, Except.bind, hstore]; rfl, ?_⟩
    rw [insertIdx_length]
    exact h.more hsize hbegins (by simp only [List.length_append, List.length_cons]; omega)
  · obtain ⟨array, hstore, hsize, hbegins⟩ := h.begins.append hroom key
    rw [if_neg (by omega)]
    refine ⟨_, by simp only [bind, Except.bind, pure, Except.pure, hstore]; rfl, ?_⟩
    rw [List.insertIdx_length_self]
    exact h.more hsize hbegins List.length_append

/-- A tree of at least two elements is only searched. -/
theorem treeFindInsertionPos_many (h : Holds t xs) (hd : Descends compar xs) (hlen : 2 ≤ xs.length)
    (hsums : (xs.countP fun a => 0 < compar a) < xs.length →
      SumsFit (xs.length - 1) (xs.countP fun a => 0 ≤ compar a)) (key : α) :
    ∃ pos, Users.treeFindInsertionPos compar xs = some pos ∧ treeFindInsertionPos compar t key = .ok (pos, false, t) := by
  have helements := h.elements
  have hlt : xs.length - 1 < xs.length := by omega
  obtain ⟨pos, hpos, -⟩ := treeFindInsertionPos_placed compar xs
  refine ⟨pos, hpos, ?_⟩
  rw [treeFindInsertionPos_of_two hlen] at hpos
  unfold treeFindInsertionPos
  rw [if_neg (by omega), if_neg (by omega), h.load_first (by omega), h.load_last (by omega)]
  simp only [bind, Except.bind, pure, Except.pure]
  split_ifs at hpos ⊢ with hbefore hbehind
  · cases hpos
    rfl
  · cases hpos
    rw [helements]
  · -- the key is not above the last element, so the loop is entered
    have hbelow : (xs.countP fun a => 0 < compar a) < xs.length := by
      by_contra hall
      exact hbehind ((hd.pos_iff hlt).1 (by omega))
    have hloop : insertionLoop compar t.array (xs.length + 1) 0 (xs.length - 1 : Nat) = _ :=
      insertionLoop_eq h.begins hd (hsums hbelow) (xs.length + 1) (.inl ⟨rfl, 0, rfl⟩) hlt (Nat.zero_le _)
        (Int.not_lt.1 hbefore) (Int.not_lt.1 hbehind)
    rw [hpos] at hloop
    rw [helements, Int.toNat_natCast, show (xs.length : Int) - 1 = (xs.length - 1 : Nat) by omega, hloop]
    rfl

/-- The array with the key at its position. -/
def placed (xs : List α) (key : α) (pos : Int) : List α := if pos = -1 then xs else xs.insertIdx pos.toNat key

/-- A tree of at most one element is changed at once. -/
theorem treeFindInsertionPos_few (h : Holds t xs) (hroom : xs.length < t.array.length) (hlen : xs.length < 2) (key : α) :
    ∃ pos t', Users.treeFindInsertionPos compar xs = some pos ∧ treeFindInsertionPos compar t key = .ok (pos, true, t') ∧
      Holds t' (placed xs key pos) := by
  have helements := h.elements
  unfold treeFindInsertionPos
  match xs, hlen with
  | [], _ =>
    obtain ⟨array, hstore, hsize, hbegins⟩ := h.begins.append hroom key
    have hstore : store t.array 0 key = .ok array := hstore
    rw [if_pos (by rw [helements, List.length_nil]; decide), hstore]
    exact ⟨0, _, rfl, rfl, h.more hsize hbegins rfl⟩
  | [a], _ =>
    rw [List.length_singleton] at helements
    rw [if_neg (by omega), if_pos (by omega), h.load_first Nat.one_pos]
    simp only [bind, Except.bind, pure, Except.pure]
    unfold Users.treeFindInsertionPos
    dsimp only [List.get]
    split_ifs with hzero hpos
    · exact ⟨-1, _, rfl, rfl, h⟩
    · obtain ⟨array, hstore, hsize, hbegins⟩ := h.begins.append hroom key
      have hstore : store t.array 1 key = .ok array := hstore
      rw [hstore]
      exact ⟨1, _, rfl, rfl, h.more hsize hbegins rfl⟩
    · -- the element is stored once more behind itself, and the key over it
      obtain ⟨array, hstore, hsize, hbegins⟩ := h.begins.append hroom a
      have hstore : store t.array 1 a = .ok array := hstore
      obtain ⟨array', hstore', hsize', hbegins'⟩ := hbegins.replace (i := 0) (by simp) key
      have hstore' : store array 0 key = .ok array' := hstore'
      rw [hstore]
      dsimp only
      rw [hstore']
      exact ⟨0, _, rfl, rfl, h.more (hsize'.trans hsize) hbegins' rfl⟩

/-- **`tree_insert` on the array is the insertion into the list**, while the block can grow and the sums and sizes fit. -/
theorem treeInsert_refines (h : Holds t xs) (hd : Descends compar xs) {granted : Bool} (key : α)
    (hgrow : t.arraySize ≤ t.elements → granted = true ∧ t.arraySize + ARRAY_GROW < 2147483648)
    (hsums : (xs.countP fun a => 0 < compar a) < xs.length →
      SumsFit (xs.length - 1) (xs.countP fun a => 0 ≤ compar a))
    (hmoved : (∀ a ∈ xs, compar a ≠ 0) → (xs.countP fun a => compar a < 0) < 268435456) :
    ∃ pos t', Users.treeInsert compar key xs = some (pos, placed xs key pos) ∧
      treeInsert compar granted t key = .ok (pos, t') ∧ Holds t' (placed xs key pos) := by
  obtain ⟨hgrown, hroom⟩ := treeGrow_spec h hgrow
  unfold treeInsert Users.treeInsert
  rcases Nat.lt_or_ge xs.length 2 with hfew | hmany
  · obtain ⟨pos, t', hlist, harray, hholds⟩ := treeFindInsertionPos_few hgrown hroom hfew key
    refine ⟨pos, t', by rw [hlist]; rfl, ?_, hholds⟩
    rw [harray]
    rfl
  · obtain ⟨pos, hlist, harray⟩ := treeFindInsertionPos_many hgrown hd hmany hsums key
    refine ⟨pos, ?_⟩
    rw [hlist, harray]
    simp only [bind, Except.bind, pure, Except.pure]
    obtain ⟨pos', hpos', hplace⟩ := treeFindInsertionPos_placed compar xs
    obtain rfl : pos = pos' := Option.some.inj (hlist.symm.trans hpos')
    rcases hplace with ⟨rfl, -⟩ | ⟨p, rfl, hfits⟩
    · exact ⟨_, rfl, rfl, hgrown⟩
    · have hne : ¬ (p : Int) = -1 := by omega
      have hseparates := hfits.separates hd
      have habove := above_eq hd hfits.le (fun i hi hlt => Int.le_of_lt (hseparates.below i hi hlt)) hfits.after
      obtain ⟨t', ht', hholds⟩ := treeInsertAtPos_spec hgrown hroom hfits.le (by have := hmoved hseparates.absent; omega) key
      have hplaced : placed xs key p = xs.insertIdx p key := by rw [placed, if_neg hne, Int.toNat_natCast]
      rw [hplaced, if_pos ⟨trivial, hne⟩, ht']
      exact ⟨t', by simp [hne], rfl, hholds⟩

theorem Holds.treeFind_eq (h : Holds t xs) (hcells : t.array.isEmpty = false) :
    treeFind compar t = searchLoop compar t.array (xs.length + 1) 0 xs.length := by
  have helements := h.elements
  have hint := h.length_lt
  have hnmemb : sizeT t.elements = xs.length := by
    unfold sizeT
    omega
  rw [treeFind, hcells, if_neg Bool.false_ne_true, mybsearch, hnmemb, toInt32_eq (by omega) (by omega)]

/-- **`tree_find` on the array is the search of the list**, while the sums fit. -/
theorem treeFind_refines (h : Holds t xs) (hd : Descends compar xs)
    (hsums : SumsFit xs.length (min (xs.countP (fun a => 0 < compar a) + 1) xs.length)) :
    treeFind compar t = .ok ((Users.treeFind compar xs).map fun found => ((found.1 : Int), found.2)) := by
  cases hcells : t.array.isEmpty with
  | true =>
    have hle := h.begins.length_le
    rw [List.isEmpty_iff.1 hcells] at hle
    obtain rfl : xs = [] := List.length_eq_zero_iff.1 (Nat.le_zero.1 hle)
    rw [treeFind, hcells]
    rfl
  | false =>
    rw [h.treeFind_eq hcells]
    exact searchLoop_eq h.begins hd hsums (xs.length + 1) (l := 0) (by omega) (.inl ⟨rfl, 0, rfl⟩) (Nat.le_refl _) (Nat.zero_le _)

theorem treeRemoveAtPos_spec {front back : List α} {a : α} (h : Holds t (front ++ a :: back))
    (hmoved : back.length < 268435456) :
    ∃ t', treeRemoveAtPos t front.length = .ok (a, t') ∧ Holds t' (front ++ back) := by
  have helements := h.elements
  rw [List.length_append, List.length_cons] at helements
  have hget : (front ++ a :: back)[front.length]? = some a := by simp
  unfold treeRemoveAtPos
  rw [h.begins.load hget, ok_bind]
  dsimp only
  rcases Nat.eq_zero_or_pos back.length with hback | hback
  · obtain rfl : back = [] := List.length_eq_zero_iff.1 hback
    rw [List.length_nil] at helements
    rw [if_neg (by omega)]
    refine ⟨_, rfl, ?_, ?_, h.size, h.int⟩
    · simp [helements]
    · exact List.IsPrefix.trans (by simp) h.begins
  · have hbytes : sizeT (postBytes (t.elements - 1) front.length) / 8 = back.length := postBytes_eq (by omega) hmoved
    obtain ⟨array, hmove, hsize, hbegins⟩ := h.begins.erase
    rw [if_pos (by omega), memmove, hbytes, ← Int.natCast_add_one, hmove]
    refine ⟨_, rfl, ?_, hbegins, h.size.trans (congrArg _ hsize.symm), h.int⟩
    simp only [helements, List.length_append]
    omega

/-- **`tree_remove` on the array is the removal from the list**, while the sums and sizes fit. -/
theorem treeRemove_refines (h : Holds t xs) (hd : Descends compar xs)
    (hsums : SumsFit xs.length (min (xs.countP (fun a => 0 < compar a) + 1) xs.length))
    (hmoved : (∃ a ∈ xs, compar a = 0) → (xs.countP fun a => compar a < 0) < 268435456) :
    ∃ t', Holds t' (Users.treeRemove compar xs) ∧ treeRemove compar t =
      .ok ((Users.treeFind compar xs).elim (0, none, t') fun found => (1, some (found.1 : Int), t')) := by
  unfold treeRemove Users.treeRemove
  rw [treeFind_refines h hd hsums, ok_bind]
  cases hfind : Users.treeFind compar xs with
  | none => exact ⟨t, h, rfl⟩
  | some found =>
    obtain ⟨i, a⟩ := found
    obtain ⟨hget, hzero⟩ := treeFind_sound hfind
    obtain ⟨front, back, rfl, rfl⟩ := exists_around hget
    have habove := above_of_found hd hget hzero
    have hback : back.length < 268435456 := by
      have := hmoved ⟨a, by simp, hzero⟩
      rw [List.length_append, List.length_cons] at habove
      omega
    obtain ⟨t', hremove, hholds⟩ := treeRemoveAtPos_spec h hback
    refine ⟨t', ?_, ?_⟩
    · dsimp only
      rw [List.eraseIdx_append_of_length_le (Nat.le_refl _), Nat.sub_self]
      exact hholds
    · dsimp only [Option.map_some, Option.elim_some]
      rw [hremove]
      rfl

end Refinement

end PoxChat.Users.TreeArray
