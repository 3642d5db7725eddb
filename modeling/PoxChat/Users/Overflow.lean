import PoxChat.Users.TreeArray

/-!
# Where the numbers of the tree array do not fit

The three ways in which a call on the array goes wrong.

* `treeInsert_ungrown` — the block cannot grow, and its array is NULL.
* `searchLoop_overflow`, `insertionLoop_overflow` — a sum of bounds is no `int`: its half is an index before the array.
* `treeInsertAtPos_overrun`, `treeRemoveAtPos_overrun` — the bytes of 2^28 elements or more are no `int`: too many cells are
  moved, or too few.
-/

set_option autoImplicit false

namespace PoxChat.Users.TreeArray

open Lib

variable {α : Type} {compar : α → Int} {t : Tree α} {xs : List α}

/-! ## Growing -/

theorem treeFindInsertionPos_null (ht : t.array = []) (key : α) (r : Int × Bool × Tree α) :
    treeFindInsertionPos compar t key ≠ .ok r := by
  unfold treeFindInsertionPos
  rw [ht, load_nil, store_nil]
  split_ifs
  · exact error_ne_ok _ _
  · exact error_ne_ok _ _
  · exact error_ne_ok _ _

theorem treeInsert_ungrown (h : Holds t xs) {granted : Bool} (hfull : t.arraySize ≤ t.elements)
    (hnot : ¬ (granted = true ∧ t.arraySize + ARRAY_GROW < 2147483648)) (key : α) (r : Int × Tree α) :
    treeInsert compar granted t key ≠ .ok r := by
  have hnull : (treeGrow granted t).array = [] := by
    have hsize := h.size
    have hint := h.int
    unfold ARRAY_GROW at hnot
    unfold treeGrow
    rw [if_pos (by omega)]
    refine if_neg ?_
    rintro ⟨hgranted, hbytes⟩
    have hover : 2147483648 ≤ t.arraySize + 32 := Int.not_lt.1 fun hlt => hnot ⟨hgranted, hlt⟩
    unfold ARRAY_GROW sizeT POINTER at hbytes
    rw [toInt32_wraps (by omega) (by omega)] at hbytes
    omega
  intro hok
  unfold treeInsert at hok
  cases hfind : treeFindInsertionPos compar (treeGrow granted t) key with
  | error fault =>
    rw [hfind] at hok
    cases hok
  | ok found => exact treeFindInsertionPos_null hnull key found hfind

/-! ## Searching -/

theorem rightward_le (u j : Nat) : rightward u j ≤ u + 1 := by
  induction j with
  | zero => exact Nat.zero_le _
  | succ j ih =>
    rw [rightward]
    omega

theorem rightward_mono (u : Nat) {i j : Nat} (hij : i ≤ j) : rightward u i ≤ rightward u j := by
  induction hij with
  | refl => exact Nat.le_refl _
  | step _ ih =>
    have := rightward_le u i
    rename_i j _
    have := rightward_le u j
    rw [rightward]
    omega

/-- A sum that is no `int` gives an index before the array. -/
theorem half_neg {l u : Nat} (hover : 2147483648 ≤ l + u) (hlt : l + u < 4294967295) :
    (toInt32 ((l : Int) + u)).tdiv 2 < 0 := by
  have hsum : (l : Int) + u - 4294967296 = -((4294967296 - l - u : Int)) := by omega
  rw [toInt32_wraps (by omega) (by omega), hsum, Int.neg_tdiv, Int.tdiv_eq_ediv_of_nonneg (by omega)]
  omega

theorem searchLoop_overflow (hb : Begins t.array xs) (hd : Descends compar xs) (hlen : xs.length < 2147483648) {j : Nat}
    (hreach : rightward xs.length j < min (xs.countP (fun a => 0 < compar a) + 1) xs.length)
    (hover : 2147483648 ≤ rightward xs.length j + xs.length) (passes : Nat) {i : Nat} (hij : i ≤ j)
    (r : Option (Int × α)) : searchLoop compar t.array passes (rightward xs.length i) xs.length ≠ .ok r := by
  induction passes generalizing i with
  | zero =>
    have := rightward_mono xs.length hij
    rw [searchLoop, if_pos (by omega)]
    exact error_ne_ok _ _
  | succ passes ih =>
    have hmono := rightward_mono xs.length hij
    unfold searchLoop
    rw [if_pos (by omega)]
    rcases Nat.lt_or_ge (rightward xs.length i + xs.length) 2147483648 with hsum | hsum
    · -- not here yet: the key is above the element in the middle
      have hne : i ≠ j := by
        rintro rfl
        omega
      have hnext := rightward_mono xs.length (Nat.lt_of_le_of_ne hij hne)
      rw [rightward] at hnext
      have hm : (rightward xs.length i + xs.length) / 2 < xs.length := by omega
      have hpos := (hd.pos_iff hm).1 (by omega)
      rw [half_eq hsum]
      dsimp only
      rw [hb.load_get hm, ok_bind, if_neg (by omega), if_pos hpos, ← Int.natCast_add_one]
      exact ih (i := i + 1) (Nat.lt_of_le_of_ne hij hne)
    · dsimp only
      rw [load_of_neg (half_neg hsum (by omega))]
      exact error_ne_ok _ _

theorem insertionLoop_overflow (hb : Begins t.array xs) (hd : Descends compar xs) (hlen : xs.length < 2147483648) {j : Nat}
    (hreach : rightward (xs.length - 1) j < xs.countP fun a => 0 ≤ compar a)
    (hover : 2147483648 ≤ rightward (xs.length - 1) j + (xs.length - 1)) (passes : Nat) {i : Nat} (hij : i ≤ j) (r : Int) :
    insertionLoop compar t.array passes (rightward (xs.length - 1) i) (xs.length - 1 : Nat) ≠ .ok r := by
  have hcount := List.countP_le_length (p := fun a => decide (0 ≤ compar a)) (l := xs)
  induction passes generalizing i with
  | zero => exact error_ne_ok _ _
  | succ passes ih =>
    have hmono := rightward_mono (xs.length - 1) hij
    unfold insertionLoop
    rcases Nat.lt_or_ge (rightward (xs.length - 1) i + (xs.length - 1)) 2147483648 with hsum | hsum
    · -- not here yet: the element behind the one in the middle is not above the key
      have hne : i ≠ j := by
        rintro rfl
        omega
      have hright := rightward_mono (xs.length - 1) (Nat.lt_of_le_of_ne hij hne)
      rw [rightward] at hright
      have hsm : (rightward (xs.length - 1) i + (xs.length - 1)) / 2 + 1 < xs.length := by omega
      have hm : (rightward (xs.length - 1) i + (xs.length - 1)) / 2 < xs.length := by omega
      have hnonneg := (hd.nonneg_iff hsm).1 (by omega)
      have hpos := hd.pos_of_lt (Nat.lt_succ_self _) hsm hnonneg
      rw [half_eq hsum]
      dsimp only
      rw [hb.load_get hm, ok_bind, if_neg (by omega), if_pos hpos, ← Int.natCast_add_one, hb.load_get hsm, ok_bind,
        if_neg (Int.not_lt.2 hnonneg)]
      exact ih (i := i + 1) (Nat.lt_of_le_of_ne hij hne)
    · dsimp only
      rw [load_of_neg (half_neg hsum (by omega))]
      exact error_ne_ok _ _

/-- The search for the place comes to such a sum, unless the key is above all elements. -/
theorem treeFindInsertionPos_overflow (h : Holds t xs) (hd : Descends compar xs)
    (hbelow : (xs.countP fun a => 0 < compar a) < xs.length) {j : Nat}
    (hreach : rightward (xs.length - 1) j < xs.countP fun a => 0 ≤ compar a)
    (hover : 2147483648 ≤ rightward (xs.length - 1) j + (xs.length - 1)) (key : α) (r : Int × Bool × Tree α) :
    treeFindInsertionPos compar t key ≠ .ok r := by
  have helements := h.elements
  have hint := h.length_lt
  have hright := rightward_le (xs.length - 1) j
  have hlast : ¬ 0 < compar (xs.get ⟨xs.length - 1, by omega⟩) := fun hpos => by
    have := (hd.pos_iff _).2 hpos
    omega
  have hfirst := (hd.nonneg_iff (i := 0) (by omega)).1 (by omega)
  unfold treeFindInsertionPos
  rw [if_neg (by omega), if_neg (by omega), h.load_first (by omega), h.load_last (by omega), ok_bind, ok_bind,
    if_neg (Int.not_lt.2 hfirst), if_neg hlast, helements, Int.toNat_natCast,
    show (xs.length : Int) - 1 = (xs.length - 1 : Nat) by omega]
  intro hok
  obtain ⟨pos, hloop, -⟩ := bind_eq_ok hok
  exact insertionLoop_overflow h.begins hd (by omega) hreach hover _ (Nat.zero_le j) pos hloop

theorem treeFind_overflow (h : Holds t xs) (hd : Descends compar xs) {j : Nat}
    (hreach : rightward xs.length j < min (xs.countP (fun a => 0 < compar a) + 1) xs.length)
    (hover : 2147483648 ≤ rightward xs.length j + xs.length) (r : Option (Int × α)) : treeFind compar t ≠ .ok r := by
  have hle := h.begins.length_le
  have hlt := h.length_lt
  have hcells : t.array.isEmpty = false := by
    cases harray : t.array with
    | nil =>
      rw [harray, List.length_nil] at hle
      omega
    | cons => rfl
  rw [h.treeFind_eq hcells]
  exact searchLoop_overflow h.begins hd (by omega) hreach hover _ (Nat.zero_le j) r

/-! ## Moving -/

/-- The size of 2^28 elements or more is too large by far, or that of at least 2^29 elements fewer. -/
theorem postBytes_over {elements pos : Int} {n : Nat} (hn : elements - pos = n) (hmany : 268435456 ≤ n)
    (hint : n < 2147483648) :
    sizeT (postBytes elements pos) / 8 + 536870912 ≤ n ∨ 2147483648 ≤ sizeT (postBytes elements pos) / 8 := by
  have hbytes : (sizeT ((elements - pos) * POINTER) : Int) = 8 * n := by
    unfold sizeT POINTER
    omega
  unfold postBytes
  rw [hbytes, toInt32, Int.bmod_def]
  unfold sizeT
  split_ifs
  · omega
  · omega

theorem treeInsertAtPos_overrun (h : Holds t xs) {p : Nat} (hmany : 268435456 ≤ xs.length - p)
    (hne : ∀ i (hi : i + 1 < xs.length), xs[i] ≠ xs[i + 1]) {key : α} {t' : Tree α} (hok : treeInsertAtPos t key p = .ok t') :
    t'.contents ≠ xs.insertIdx p key := by
  intro hcontents
  have helements := h.elements
  have hcells := h.cells_lt
  have hlt := h.length_lt
  have hlength : (xs.insertIdx p key).length = xs.length + 1 := List.length_insertIdx_of_le_length (by omega) key
  have hbytes : sizeT (postBytes t.elements p) / 8 + 536870912 ≤ xs.length - p ∨
      2147483648 ≤ sizeT (postBytes t.elements p) / 8 := postBytes_over (by omega) hmany (by omega)
  unfold treeInsertAtPos at hok
  rw [if_pos (by omega), memmove, ← Int.natCast_add_one] at hok
  obtain ⟨moved, hmove, hok⟩ := bind_eq_ok hok
  obtain ⟨array, hstore, hok⟩ := bind_eq_ok hok
  cases hok
  rcases hbytes with hfew | hmore
  · -- the cell behind the last one that is written keeps its element, where the one before should be
    generalize sizeT (postBytes t.elements p) / 8 = m at hmove hfew
    have hq : p + 1 + m < xs.length := by omega
    have hstays : array[p + 1 + m]? = some (some xs[p + 1 + m]) := by
      rw [store_getElem? hstore (by omega), moveCells_getElem? hmove (Nat.le_refl _),
        h.begins.getElem? (List.getElem?_eq_getElem hq)]
    have hbegins : Begins array (xs.insertIdx p key) := by
      refine Begins.of_contents ?_
      rw [hlength]
      have hcount : (t.elements + 1).toNat = xs.length + 1 := by omega
      rwa [Tree.contents, hcount] at hcontents
    have hshould : (xs.insertIdx p key)[p + 1 + m]? = some xs[p + m] := by
      rw [List.getElem?_insertIdx_of_gt (by omega), show p + 1 + m - 1 = p + m by omega]
      exact List.getElem?_eq_getElem (by omega)
    rw [hbegins.getElem? hshould] at hstays
    refine hne (p + m) (by omega) ((Option.some.inj (Option.some.inj hstays)).trans ?_)
    congr 1
    omega
  · rw [moveCells_of_lt (by omega)] at hmove
    cases hmove

/-- Up to 2^29 elements the size is negative, and taken for a huge one. -/
theorem treeInsertAtPos_outside (h : Holds t xs) {p : Nat} (hmany : 268435456 ≤ xs.length - p)
    (hfew : xs.length - p < 536870912) (key : α) : treeInsertAtPos t key p = .error .outside := by
  have helements := h.elements
  have hcells := h.cells_lt
  have hlt := h.length_lt
  have hbytes : sizeT (postBytes t.elements p) / 8 + 536870912 ≤ xs.length - p ∨
      2147483648 ≤ sizeT (postBytes t.elements p) / 8 := postBytes_over (by omega) hmany (by omega)
  unfold treeInsertAtPos
  rw [if_pos (by omega), memmove, moveCells_of_lt (by omega)]
  rfl

theorem treeRemoveAtPos_overrun (h : Holds t xs) {p : Nat} (hmany : 268435456 ≤ xs.length - 1 - p)
    (hne : ∀ i (hi : i + 1 < xs.length), xs[i] ≠ xs[i + 1]) {a : α} {t' : Tree α} (hok : treeRemoveAtPos t p = .ok (a, t')) :
    t'.contents ≠ xs.eraseIdx p := by
  intro hcontents
  have helements := h.elements
  have hcells := h.cells_lt
  have hlt := h.length_lt
  have hlength : (xs.eraseIdx p).length = xs.length - 1 := List.length_eraseIdx_of_lt (by omega)
  have hbytes : sizeT (postBytes (t.elements - 1) p) / 8 + 536870912 ≤ xs.length - 1 - p ∨
      2147483648 ≤ sizeT (postBytes (t.elements - 1) p) / 8 := postBytes_over (by omega) hmany (by omega)
  unfold treeRemoveAtPos at hok
  obtain ⟨ret, -, hok⟩ := bind_eq_ok hok
  dsimp only at hok
  rw [if_pos (by omega), memmove, ← Int.natCast_add_one] at hok
  obtain ⟨array, hmove, hok⟩ := bind_eq_ok hok
  cases hok
  rcases hbytes with hfew | hmore
  · -- the last cell that should be written keeps its element
    generalize sizeT (postBytes (t.elements - 1) p) / 8 = m at hmove hfew
    have hq : p + m + 1 < xs.length := by omega
    have hstays : array[p + m]? = some (some xs[p + m]) := by
      rw [moveCells_getElem? hmove (Nat.le_refl _), h.begins.getElem? (List.getElem?_eq_getElem (by omega))]
    have hbegins : Begins array (xs.eraseIdx p) := by
      refine Begins.of_contents ?_
      rw [hlength]
      have hcount : (t.elements - 1).toNat = xs.length - 1 := by omega
      rwa [Tree.contents, hcount] at hcontents
    have hshould : (xs.eraseIdx p)[p + m]? = some xs[p + m + 1] := by
      rw [List.getElem?_eraseIdx_of_ge (Nat.le_add_right p m)]
      exact List.getElem?_eq_getElem hq
    rw [hbegins.getElem? hshould] at hstays
    exact hne (p + m) hq (Option.some.inj (Option.some.inj hstays)).symm
  · rw [moveCells_of_lt (by omega)] at hmove
    cases hmove

end PoxChat.Users.TreeArray
