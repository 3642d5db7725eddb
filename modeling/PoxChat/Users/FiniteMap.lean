import PoxChat.Users.Overflow

/-!
# The user tree is a finite map

The calls `tree_insert`, `tree_remove` and `tree_find` in any order, on one tree that is in the order of its comparison.

* `Inserts`, `Removes`, `Finds` — what each call has to do, in terms of the elements of the array.
* `Call.Fits` — where the sizes and sums of a call stay inside an `int`, and memory is granted.
* `finite_map_iff` — in a run, each call does what it has to do exactly if each call fits.
* `fits_of_few` — up to 2^28 calls fit, while there is memory.
-/

set_option autoImplicit false

namespace PoxChat.Users.TreeArray

open Lib

variable {α : Type}

/-! ## What the calls have to do -/

/-- What a list holds for a key. -/
def held (compar : α → Int) (xs : List α) : Option α := xs.find? fun a => compar a = 0

section Purpose

variable (c : Comparison α)

/-- `tree_insert` returned `pos`. -/
structure Inserts (key : α) (t : Tree α) (pos : Int) (t' : Tree α) : Prop where
  sorted : c.Sorted t'.contents
  present : pos = -1 ↔ ∃ a ∈ t.contents, c.cmp key a = 0
  kept : pos = -1 → t'.contents = t.contents
  placed : pos ≠ -1 → ∃ p : Nat, pos = p ∧ t'.contents[p]? = some key ∧ t'.contents = t.contents.insertIdx p key
  map : ∀ k, held (c.cmp k) t'.contents =
    if c.cmp k key = 0 then (held (c.cmp k) t.contents).or (some key) else held (c.cmp k) t.contents

/-- `tree_remove` returned `ret` and left `pos` behind its pointer. -/
structure Removes (key : α) (t : Tree α) (ret : Int) (pos : Option Int) (t' : Tree α) : Prop where
  sorted : c.Sorted t'.contents
  absent : (∀ a ∈ t.contents, c.cmp key a ≠ 0) → ret = 0 ∧ pos = none ∧ t'.contents = t.contents
  exact : (∃ a ∈ t.contents, c.cmp key a = 0) → ∃ (p : Nat) (a : α), ret = 1 ∧ pos = some (p : Int) ∧
    t.contents[p]? = some a ∧ c.cmp key a = 0 ∧ (key ∈ t.contents → a = key) ∧ t'.contents = t.contents.eraseIdx p
  map : ∀ k, held (c.cmp k) t'.contents = if c.cmp k key = 0 then none else held (c.cmp k) t.contents

/-- `tree_find` returned the element and left the position behind its pointer, as a search from the first element on
does. -/
structure Finds (compar : α → Int) (t : Tree α) (found : Option (Int × α)) : Prop where
  data : found.map Prod.snd = held compar t.contents
  pos : found.map Prod.fst = (t.contents.findIdx? fun a => compar a = 0).map Int.ofNat

/-- A key that `tree_find` is given with a comparison of its own: it is compared as the elements are. -/
structure Probe where
  compar : α → Int
  descends : ∀ a b, c.cmp a b < 0 → compar a ≤ 0 → compar b < 0

/-- An element as the key. -/
def Probe.ofKey (key : α) : Probe c where
  compar := c.cmp key
  descends _ _ hab hle := Comparison.lt_of_le_of_lt hle hab

inductive Call where
  /-- `granted`: there is memory, should the array have to grow. -/
  | insert (key : α) (granted : Bool)
  | remove (key : α)
  | find (probe : Probe c)

variable {c}

/-- The call is carried out, with every index inside the block and every loop left, and does what it has to do. -/
def Call.Done (t : Tree α) : Call c → Prop
  | .insert key granted => ∃ pos t', treeInsert (c.cmp key) granted t key = .ok (pos, t') ∧ Inserts c key t pos t'
  | .remove key => ∃ ret pos t', treeRemove (c.cmp key) t = .ok (ret, pos, t') ∧ Removes c key t ret pos t'
  | .find probe => ∃ found, treeFind probe.compar t = .ok found ∧ Finds probe.compar t found

/-- The tree after a call; a fault is the end. -/
def step (s : Except Fault (Tree α)) (call : Call c) : Except Fault (Tree α) := do
  let t ← s
  match call with
  | .insert key granted => pure (← treeInsert (c.cmp key) granted t key).2
  | .remove key => pure (← treeRemove (c.cmp key) t).2.2
  | .find probe =>
    let _ ← treeFind probe.compar t
    pure t

/-- The tree is there, strictly sorted, and the next call is carried out. -/
def AsMap (s : Except Fault (Tree α)) (call : Call c) : Prop := ∃ t, s = .ok t ∧ c.Sorted t.contents ∧ call.Done t

/-! ## Where they do it -/

/-- Every sum of bounds in a search for the key is an `int`. -/
def SearchFits (compar : α → Int) (xs : List α) : Prop :=
  SumsFit xs.length (min (xs.countP (fun a => 0 < compar a) + 1) xs.length)

/-- The block can grow, and it is one of fewer than 2^31 cells; the sums of bounds are an `int` where the search for the place
is begun, which is not where the key is above all elements; and the bytes of the elements that move are. -/
structure InsertFits (compar : α → Int) (granted : Bool) (t : Tree α) : Prop where
  grows : t.arraySize ≤ t.elements → granted = true ∧ t.arraySize + ARRAY_GROW < 2147483648
  sums : (t.contents.countP fun a => 0 < compar a) < t.contents.length →
    SumsFit (t.contents.length - 1) (t.contents.countP fun a => 0 ≤ compar a)
  moved : (∀ a ∈ t.contents, compar a ≠ 0) → (t.contents.countP fun a => compar a < 0) < 268435456

structure RemoveFits (compar : α → Int) (t : Tree α) : Prop where
  sums : SearchFits compar t.contents
  moved : (∃ a ∈ t.contents, compar a = 0) → (t.contents.countP fun a => compar a < 0) < 268435456

def Call.Fits (t : Tree α) : Call c → Prop
  | .insert key granted => InsertFits (c.cmp key) granted t
  | .remove key => RemoveFits (c.cmp key) t
  | .find probe => SearchFits probe.compar t.contents

/-- The next call fits the tree it meets. -/
def Fits (s : Except Fault (Tree α)) (call : Call c) : Prop := ∃ t, s = .ok t ∧ call.Fits t

end Purpose

/-! ## One call -/

section Calls

variable {c : Comparison α} {t : Tree α} {xs : List α}

/-- The search finds what is found one by one, and where. -/
theorem treeFind_held {compar : α → Int} (hd : Descends compar xs) :
    (Users.treeFind compar xs).map Prod.snd = held compar xs ∧
      (Users.treeFind compar xs).map Prod.fst = xs.findIdx? fun a => compar a = 0 := by
  cases hfind : Users.treeFind compar xs with
  | none =>
    have habsent : ∀ a ∈ xs, ¬ compar a = 0 := by
      intro a ha hz
      obtain ⟨i, hi, rfl⟩ := List.mem_iff_getElem.1 ha
      rw [treeFind_spec hd (List.getElem?_eq_getElem hi) hz] at hfind
      cases hfind
    refine ⟨?_, ?_⟩
    · rw [held, List.find?_eq_none.2 fun a ha => by simpa using habsent a ha]
      rfl
    · rw [List.findIdx?_eq_none_iff.2 fun a ha => by simpa using habsent a ha]
      rfl
  | some found =>
    obtain ⟨i, a⟩ := found
    obtain ⟨hget, hz⟩ := treeFind_sound hfind
    obtain ⟨hi, rfl⟩ := List.getElem?_eq_some_iff.1 hget
    refine ⟨?_, ?_⟩
    · rw [held, hd.find?_iff.2 ⟨List.getElem_mem hi, hz⟩]
      rfl
    · refine (List.findIdx?_eq_some_iff_getElem.2 ⟨hi, by simpa using hz, fun j hj => ?_⟩).symm
      have := hd.pos_of_lt hj hi (Int.le_of_eq hz.symm)
      have hne : xs.get ⟨j, Nat.lt_trans hj hi⟩ = xs[j] := rfl
      rw [hne] at this
      simp only [decide_eq_true_eq]
      omega

theorem held_iff (hs : c.Sorted xs) {k a : α} : held (c.cmp k) xs = some a ↔ a ∈ xs ∧ c.cmp k a = 0 :=
  (hs.descends k).find?_iff

theorem held_eq_none {k : α} : held (c.cmp k) xs = none ↔ ∀ a ∈ xs, c.cmp k a ≠ 0 := by
  rw [held, List.find?_eq_none]
  simp

theorem Inserts.of_present {key : α} (hs : c.Sorted t.contents) (h : ∃ a ∈ t.contents, c.cmp key a = 0) {t' : Tree α}
    (ht' : t'.contents = t.contents) : Inserts c key t (-1) t' where
  sorted := by rwa [ht']
  present := iff_of_true rfl h
  kept _ := ht'
  placed hne := absurd rfl hne
  map k := by
    rw [ht']
    split_ifs with hk
    · obtain ⟨a, ha, hz⟩ := h
      rw [(held_iff hs).2 ⟨ha, (Comparison.congr hk).2 hz⟩]
      rfl
    · rfl

theorem Inserts.of_absent {key : α} (hs : c.Sorted t.contents) {p : Nat} (hp : Separates (c.cmp key) t.contents p)
    {t' : Tree α} (ht' : t'.contents = t.contents.insertIdx p key) : Inserts c key t p t' := by
  have hne : (p : Int) ≠ -1 := by omega
  have hs' : c.Sorted t'.contents := by
    rw [ht']
    exact hs.insertIdx hp.le hp.below hp.above
  refine ⟨hs', iff_of_false hne ?_, fun h => absurd h hne, fun _ => ⟨p, rfl, ?_, ht'⟩, fun k => ?_⟩
  · rintro ⟨a, ha, hz⟩
    exact hp.absent a ha hz
  · rw [ht', List.getElem?_insertIdx_self, if_pos hp.le]
  · have hmem : ∀ a, a ∈ t'.contents ↔ a = key ∨ a ∈ t.contents := fun a => by rw [ht', List.mem_insertIdx hp.le]
    split_ifs with hk
    · rw [held_eq_none.2 fun a ha hz => hp.absent a ha ((Comparison.congr hk).1 hz)]
      exact (held_iff hs').2 ⟨(hmem key).2 (.inl rfl), hk⟩
    · refine Option.ext fun a => ?_
      rw [held_iff hs', held_iff hs, hmem]
      constructor
      · rintro ⟨rfl | ha, hz⟩
        · exact absurd hz hk
        · exact ⟨ha, hz⟩
      · rintro ⟨ha, hz⟩
        exact ⟨.inr ha, hz⟩

theorem Removes.of_absent {key : α} (hs : c.Sorted t.contents) (h : ∀ a ∈ t.contents, c.cmp key a ≠ 0) {t' : Tree α}
    (ht' : t'.contents = t.contents) : Removes c key t 0 none t' where
  sorted := by rwa [ht']
  absent _ := ⟨rfl, rfl, ht'⟩
  exact hthere := by
    obtain ⟨a, ha, hz⟩ := hthere
    exact absurd hz (h a ha)
  map k := by
    rw [ht']
    split_ifs with hk
    · exact held_eq_none.2 fun a ha hz => h a ha ((Comparison.congr hk).1 hz)
    · rfl

theorem Removes.of_present {key a : α} (hs : c.Sorted t.contents) {p : Nat} (ha : t.contents[p]? = some a)
    (hz : c.cmp key a = 0) {t' : Tree α} (ht' : t'.contents = t.contents.eraseIdx p) : Removes c key t 1 (some (p : Int)) t' := by
  have hmem : a ∈ t.contents := List.mem_of_getElem? ha
  have hs' : c.Sorted t'.contents := by
    rw [ht']
    exact List.Pairwise.sublist (List.eraseIdx_sublist _ _) hs
  -- the element taken out is the only one that is equal to the key
  have hothers : ∀ b, b ∈ t'.contents ↔ b ∈ t.contents ∧ c.cmp key b ≠ 0 := by
    obtain ⟨front, back, hsplit, rfl⟩ := exists_around ha
    have hne : ∀ b, c.cmp a b < 0 ∨ c.cmp b a < 0 → c.cmp key b ≠ 0 := by
      rintro b hlt hb
      have h1 := (Comparison.congr hz).1 hb
      have h2 := Comparison.symm h1
      omega
    rw [Comparison.Sorted, hsplit, List.pairwise_append, List.pairwise_cons] at hs
    obtain ⟨-, ⟨hback, -⟩, hfront⟩ := hs
    intro b
    rw [ht', hsplit, List.eraseIdx_append_of_length_le (Nat.le_refl _), Nat.sub_self, List.eraseIdx_cons_zero,
      List.mem_append, List.mem_append, List.mem_cons]
    constructor
    · rintro (hb | hb)
      · exact ⟨.inl hb, hne b (.inr (hfront b hb a List.mem_cons_self))⟩
      · exact ⟨.inr (.inr hb), hne b (.inl (hback b hb))⟩
    · rintro ⟨hb | rfl | hb, hb'⟩
      · exact .inl hb
      · exact absurd hz hb'
      · exact .inr hb
  refine ⟨hs', fun habsent => absurd hz (habsent a hmem), fun _ => ⟨p, a, rfl, rfl, ha, hz, fun hkey => ?_, ht'⟩, fun k => ?_⟩
  · have hself : held (c.cmp key) t.contents = some key := (held_iff hs).2 ⟨hkey, Comparison.self key⟩
    rw [(held_iff hs).2 ⟨hmem, hz⟩] at hself
    exact Option.some.inj hself
  · split_ifs with hk
    · exact held_eq_none.2 fun b hb hkb => ((hothers b).1 hb).2 ((Comparison.congr hk).1 hkb)
    · refine Option.ext fun b => ?_
      rw [held_iff hs', held_iff hs, hothers]
      refine ⟨fun h => ⟨h.1.1, h.2⟩, fun h => ⟨⟨h.1, fun hb => hk ?_⟩, h.2⟩⟩
      exact (Comparison.congr h.2).2 (Comparison.symm hb)

/-- The array holds its elements, in order. -/
structure Sound (c : Comparison α) (t : Tree α) : Prop where
  holds : Holds t t.contents
  sorted : c.Sorted t.contents

theorem sound_new (c : Comparison α) : Sound c (treeNew : Tree α) := by
  have hnil : (treeNew : Tree α).contents = [] := rfl
  exact ⟨by rw [hnil]; exact holds_new, by rw [hnil]; exact List.Pairwise.nil⟩

theorem Sound.of_holds {t' : Tree α} (h : Holds t' xs) (hs : c.Sorted xs) : Sound c t' := by
  have hcontents := h.contents
  exact ⟨by rwa [hcontents], by rwa [hcontents]⟩

theorem Sound.insert (h : Sound c t) {key : α} {granted : Bool} (hfits : InsertFits (c.cmp key) granted t) :
    ∃ pos t', treeInsert (c.cmp key) granted t key = .ok (pos, t') ∧ Inserts c key t pos t' ∧ Sound c t' := by
  have hd := h.sorted.descends key
  obtain ⟨pos, t', hlist, harray, hholds⟩ := treeInsert_refines h.holds hd key hfits.grows hfits.sums hfits.moved
  refine ⟨pos, t', harray, ?_⟩
  have hinserts : Inserts c key t pos t' := by
    rcases treeInsert_spec hd key with ⟨hthere, hkept⟩ | ⟨p, hp, hplaced⟩
    · obtain ⟨rfl, hsame⟩ := Prod.mk.inj (Option.some.inj (hlist.symm.trans hkept))
      exact .of_present h.sorted hthere (hholds.contents.trans hsame)
    · obtain ⟨rfl, hsame⟩ := Prod.mk.inj (Option.some.inj (hlist.symm.trans hplaced))
      exact .of_absent h.sorted hp (hholds.contents.trans hsame)
  exact ⟨hinserts, Sound.of_holds hholds (hholds.contents ▸ hinserts.sorted)⟩

theorem Sound.remove (h : Sound c t) {key : α} (hfits : RemoveFits (c.cmp key) t) :
    ∃ ret pos t', treeRemove (c.cmp key) t = .ok (ret, pos, t') ∧ Removes c key t ret pos t' ∧ Sound c t' := by
  have hd := h.sorted.descends key
  obtain ⟨t', hholds, harray⟩ := treeRemove_refines h.holds hd hfits.sums hfits.moved
  unfold Users.treeRemove at hholds
  cases hfind : Users.treeFind (c.cmp key) t.contents with
  | none =>
    rw [hfind] at hholds harray
    have habsent : ∀ a ∈ t.contents, c.cmp key a ≠ 0 := by
      intro a ha hz
      have hheld := (treeFind_held hd).1
      rw [hfind, (held_iff h.sorted).2 ⟨ha, hz⟩] at hheld
      cases hheld
    have hremoves : Removes c key t 0 none t' := .of_absent h.sorted habsent hholds.contents
    exact ⟨_, _, t', harray, hremoves, Sound.of_holds hholds (hholds.contents ▸ hremoves.sorted)⟩
  | some found =>
    obtain ⟨p, a⟩ := found
    obtain ⟨ha, hz⟩ := treeFind_sound hfind
    rw [hfind] at hholds harray
    have hremoves : Removes c key t 1 (some (p : Int)) t' := .of_present h.sorted ha hz hholds.contents
    exact ⟨_, _, t', harray, hremoves, Sound.of_holds hholds (hholds.contents ▸ hremoves.sorted)⟩

theorem Sound.find (h : Sound c t) {probe : Probe c} (hfits : SearchFits probe.compar t.contents) :
    ∃ found, treeFind probe.compar t = .ok found ∧ Finds probe.compar t found := by
  have hd : Descends probe.compar t.contents := h.sorted.imp fun {a b} => probe.descends a b
  obtain ⟨hdata, hpos⟩ := treeFind_held hd
  refine ⟨_, treeFind_refines h.holds hd hfits, ?_, ?_⟩
  · rw [← hdata, Option.map_map]
    rfl
  · rw [← hpos, Option.map_map, Option.map_map]
    rfl

theorem Sound.ne_next (h : Sound c t) (i : Nat) (hi : i + 1 < t.contents.length) : t.contents[i] ≠ t.contents[i + 1] := by
  intro heq
  have hlt : c.cmp t.contents[i] t.contents[i + 1] < 0 :=
    List.pairwise_iff_getElem.1 h.sorted i (i + 1) (by omega) hi (Nat.lt_succ_self i)
  rw [heq, Comparison.self] at hlt
  cases hlt

theorem Sound.find_fits (h : Sound c t) {probe : Probe c} {found : Option (Int × α)}
    (hok : treeFind probe.compar t = .ok found) : SearchFits probe.compar t.contents := by
  intro j hreach
  by_contra hover
  exact treeFind_overflow h.holds (h.sorted.imp fun {a b} => probe.descends a b) hreach (Nat.not_lt.1 hover) found hok

theorem Sound.insert_fits (h : Sound c t) {key : α} {granted : Bool} {pos : Int} {t' : Tree α}
    (hok : treeInsert (c.cmp key) granted t key = .ok (pos, t')) (hinserts : Inserts c key t pos t') :
    InsertFits (c.cmp key) granted t := by
  have hd := h.sorted.descends key
  have hgrow : t.arraySize ≤ t.elements → granted = true ∧ t.arraySize + ARRAY_GROW < 2147483648 := by
    intro hfull
    by_contra hnot
    exact treeInsert_ungrown h.holds hfull hnot key _ hok
  obtain ⟨hgrown, hroom⟩ := treeGrow_spec h.holds hgrow
  unfold treeInsert at hok
  obtain ⟨⟨pos', done, found⟩, hfind, hok⟩ := bind_eq_ok hok
  have hsums : (t.contents.countP fun a => 0 < c.cmp key a) < t.contents.length →
      SumsFit (t.contents.length - 1) (t.contents.countP fun a => 0 ≤ c.cmp key a) := by
    intro hbelow j hreach
    by_contra hover
    exact treeFindInsertionPos_overflow hgrown hd hbelow hreach (Nat.not_lt.1 hover) key _ hfind
  refine ⟨hgrow, hsums, fun habsent => ?_⟩
  by_contra hmany
  have hcount := List.countP_le_length (p := fun a => decide (c.cmp key a < 0)) (l := t.contents)
  obtain ⟨place, hlist, hplace⟩ := treeFindInsertionPos_placed (c.cmp key) t.contents
  obtain ⟨place', hlist', harray⟩ := treeFindInsertionPos_many hgrown hd (by omega) hsums key
  obtain rfl : place = place' := Option.some.inj (hlist.symm.trans hlist')
  rw [harray] at hfind
  cases hfind
  rcases hplace with ⟨-, a, ha, hz⟩ | ⟨p, rfl, hfits⟩
  · exact habsent a ha hz
  · have hne : (p : Int) ≠ -1 := by omega
    have hseparates := hfits.separates hd
    have habove := above_eq hd hfits.le (fun i hi hlt => Int.le_of_lt (hseparates.below i hi hlt)) hfits.after
    dsimp only at hok
    rw [if_pos ⟨rfl, hne⟩] at hok
    obtain ⟨t₁, hinsert, hok⟩ := bind_eq_ok hok
    cases hok
    obtain ⟨q, hq, -, hcontents⟩ := hinserts.placed hne
    obtain rfl : p = q := Int.ofNat.inj hq
    exact treeInsertAtPos_overrun hgrown (by omega) h.ne_next hinsert hcontents

theorem Sound.remove_fits (h : Sound c t) {key : α} {ret : Int} {pos : Option Int} {t' : Tree α}
    (hok : treeRemove (c.cmp key) t = .ok (ret, pos, t')) (hremoves : Removes c key t ret pos t') :
    RemoveFits (c.cmp key) t := by
  have hd := h.sorted.descends key
  unfold treeRemove at hok
  obtain ⟨found, hfind, hok⟩ := bind_eq_ok hok
  have hsums : SearchFits (Probe.ofKey c key).compar t.contents := h.find_fits hfind
  refine ⟨hsums, fun hthere => ?_⟩
  by_contra hmany
  obtain ⟨p, a, -, -, ha, hz, -, hcontents⟩ := hremoves.exact hthere
  have habove := above_of_found hd ha hz
  rw [treeFind_refines h.holds hd hsums, treeFind_spec hd ha hz] at hfind
  cases hfind
  obtain ⟨⟨a', t₁⟩, hremove, hok⟩ := bind_eq_ok hok
  cases hok
  exact treeRemoveAtPos_overrun h.holds (by omega) h.ne_next hremove hcontents

/-- A call is carried out as it should be exactly where it fits. -/
theorem Sound.done_iff (h : Sound c t) (call : Call c) : call.Done t ↔ call.Fits t := by
  cases call with
  | insert key granted =>
    refine ⟨fun ⟨pos, t', hok, hinserts⟩ => h.insert_fits hok hinserts, fun hfits => ?_⟩
    obtain ⟨pos, t', hok, hinserts, -⟩ := h.insert hfits
    exact ⟨pos, t', hok, hinserts⟩
  | remove key =>
    refine ⟨fun ⟨ret, pos, t', hok, hremoves⟩ => h.remove_fits hok hremoves, fun hfits => ?_⟩
    obtain ⟨ret, pos, t', hok, hremoves, -⟩ := h.remove hfits
    exact ⟨ret, pos, t', hok, hremoves⟩
  | find probe => exact ⟨fun ⟨found, hok, _⟩ => h.find_fits hok, h.find⟩

theorem Inserts.length_le {key : α} {pos : Int} {t' : Tree α} (h : Inserts c key t pos t') :
    t'.contents.length ≤ t.contents.length + 1 := by
  by_cases hpos : pos = -1
  · rw [h.kept hpos]
    omega
  · obtain ⟨p, -, -, hcontents⟩ := h.placed hpos
    rw [hcontents]
    exact List.length_insertIdx_le_succ

theorem Removes.length_le {key : α} {ret : Int} {pos : Option Int} {t' : Tree α} (h : Removes c key t ret pos t') :
    t'.contents.length ≤ t.contents.length := by
  by_cases hthere : ∃ a ∈ t.contents, c.cmp key a = 0
  · obtain ⟨p, a, -, -, -, -, -, hcontents⟩ := h.exact hthere
    rw [hcontents]
    exact List.length_eraseIdx_le _ _
  · obtain ⟨-, -, hcontents⟩ := h.absent fun a ha hz => hthere ⟨a, ha, hz⟩
    exact Nat.le_of_eq (congrArg _ hcontents)

theorem step_insert {key : α} {granted : Bool} {pos : Int} {t' : Tree α}
    (hok : treeInsert (c.cmp key) granted t key = .ok (pos, t')) : step (.ok t) (Call.insert (c := c) key granted) = .ok t' := by
  rw [step, ok_bind]
  dsimp only
  rw [hok]
  rfl

theorem step_remove {key : α} {ret : Int} {pos : Option Int} {t' : Tree α}
    (hok : treeRemove (c.cmp key) t = .ok (ret, pos, t')) : step (.ok t) (Call.remove (c := c) key) = .ok t' := by
  rw [step, ok_bind]
  dsimp only
  rw [hok]
  rfl

theorem step_find {probe : Probe c} {found : Option (Int × α)} (hok : treeFind probe.compar t = .ok found) :
    step (.ok t) (Call.find probe) = .ok t := by
  rw [step, ok_bind]
  dsimp only
  rw [hok]
  rfl

theorem Sound.step (h : Sound c t) {call : Call c} (hfits : call.Fits t) :
    ∃ t', step (.ok t) call = .ok t' ∧ Sound c t' ∧ t'.contents.length ≤ t.contents.length + 1 := by
  cases call with
  | insert key granted =>
    obtain ⟨pos, t', hok, hinserts, hsound⟩ := h.insert hfits
    exact ⟨t', step_insert hok, hsound, hinserts.length_le⟩
  | remove key =>
    obtain ⟨ret, pos, t', hok, hremoves, hsound⟩ := h.remove hfits
    exact ⟨t', step_remove hok, hsound, Nat.le_succ_of_le hremoves.length_le⟩
  | find probe =>
    obtain ⟨found, hok, -⟩ := h.find hfits
    exact ⟨t, step_find hok, h, Nat.le_succ _⟩

end Calls

/-! ## Every run -/

section Runs

variable {c : Comparison α}

/-- **The tree is a finite map**: every call of a run does what it has to do, exactly if every call fits the tree it
meets. -/
theorem finite_map_iff (calls : List (Call c)) :
    Along step AsMap (.ok treeNew) calls ↔ Along step Fits (.ok treeNew) calls := by
  refine Along.iff_of_step (I := fun s => ∃ t, s = .ok t ∧ Sound c t) ?_ ?_ ⟨treeNew, rfl, sound_new c⟩
  · rintro s call ⟨t, rfl, hsound⟩ ⟨t', ht', -, hdone⟩
    cases ht'
    obtain ⟨t', hstep, hsound', -⟩ := hsound.step ((hsound.done_iff call).1 hdone)
    exact ⟨t', hstep, hsound'⟩
  · rintro s call ⟨t, rfl, hsound⟩
    constructor
    · rintro ⟨t', ht', -, hdone⟩
      cases ht'
      exact ⟨t, rfl, (hsound.done_iff call).1 hdone⟩
    · rintro ⟨t', ht', hfits⟩
      cases ht'
      exact ⟨t, rfl, hsound.sorted, (hsound.done_iff call).2 hfits⟩

/-- What a call needs of the memory. -/
def Call.granted : Call c → Bool
  | .insert _ granted => granted
  | .remove _ => true
  | .find _ => true

theorem Sound.fits_of_lt {t : Tree α} (h : Sound c t) (hlen : t.contents.length < 268435456) {call : Call c}
    (hgranted : call.granted = true) : call.Fits t := by
  have hcount : ∀ p : α → Bool, t.contents.countP p ≤ t.contents.length := fun p => List.countP_le_length
  have hsearch : ∀ compar : α → Int, SearchFits compar t.contents := fun compar =>
    sumsFit_of_le (by omega) (.inl (Nat.min_le_right _ _))
  cases call with
  | insert key granted =>
    refine ⟨fun hfull => ⟨hgranted, h.holds.grows (by omega) hfull⟩, fun _ => ?_, fun _ => Nat.lt_of_le_of_lt (hcount _) hlen⟩
    refine sumsFit_of_le (by omega) (.inr ⟨by omega, ?_⟩)
    have := hcount fun a => 0 ≤ c.cmp key a
    omega
  | remove key => exact ⟨hsearch _, fun _ => Nat.lt_of_le_of_lt (hcount _) hlen⟩
  | find probe => exact hsearch _

/-- **While there is memory, 2^28 calls fit.** -/
theorem fits_of_few {calls : List (Call c)} (hgranted : ∀ call ∈ calls, call.granted = true)
    (hlen : calls.length ≤ 268435456) : Along step Fits (.ok treeNew) calls := by
  have hrun : ∀ {calls : List (Call c)} {t : Tree α}, Sound c t → (∀ call ∈ calls, call.granted = true) →
      t.contents.length + calls.length ≤ 268435456 → Along step Fits (.ok t) calls := by
    intro calls
    induction calls with
    | nil => exact fun _ _ _ => trivial
    | cons call calls ih =>
      intro t h hgranted hlen
      obtain ⟨hcall, hcalls⟩ := List.forall_mem_cons.1 hgranted
      rw [List.length_cons] at hlen
      have hfits : call.Fits t := h.fits_of_lt (by omega) hcall
      obtain ⟨t', hstep, hsound, hle⟩ := h.step hfits
      refine ⟨⟨t, rfl, hfits⟩, ?_⟩
      rw [hstep]
      exact ih hsound hcalls (by omega)
  exact hrun (sound_new c) hgranted (by
    have hnil : (treeNew : Tree α).contents = [] := rfl
    rw [hnil, List.length_nil]
    omega)

/-- Natural numbers in their order. -/
def natOrder : Comparison Nat where
  cmp a b := (a : Int) - b
  swap a b := by omega
  trans a b d hab hbd := by omega

/-- The numbers from 1 to `n` are inserted one after the other, while there is memory. -/
def ascending (n : Nat) : List (Call natOrder) := (List.range n).map fun i => .insert (i + 1) true

theorem ascending_granted (n : Nat) : ∀ call ∈ ascending n, call.granted = true := by
  intro call hcall
  obtain ⟨i, -, rfl⟩ := List.mem_map.1 hcall
  rfl

/-- Each of them goes behind the others. -/
theorem ascending_run {n : Nat} (hn : n ≤ 268435456) :
    ∃ t, (ascending n).foldl step (.ok treeNew) = .ok t ∧ Sound natOrder t ∧ t.contents = (List.range n).map (· + 1) := by
  induction n with
  | zero => exact ⟨treeNew, rfl, sound_new natOrder, rfl⟩
  | succ n ih =>
    obtain ⟨t, hrun, hsound, hcontents⟩ := ih (by omega)
    have hlen : t.contents.length = n := by rw [hcontents, List.length_map, List.length_range]
    have hlt : ∀ a ∈ t.contents, natOrder.cmp a (n + 1) < 0 := by
      intro a ha
      rw [hcontents] at ha
      obtain ⟨i, hi, rfl⟩ := List.mem_map.1 ha
      have := List.mem_range.1 hi
      show ((i + 1 : Nat) : Int) - ((n + 1 : Nat) : Int) < 0
      omega
    have hfits : (Call.insert (c := natOrder) (n + 1) true).Fits t := hsound.fits_of_lt (by omega) rfl
    obtain ⟨pos, t', hok, hinserts, hsound'⟩ := hsound.insert hfits
    have hpos : pos ≠ -1 := fun h => by
      obtain ⟨a, ha, hz⟩ := hinserts.present.1 h
      have := hlt a ha
      rw [Comparison.symm hz] at this
      cases this
    obtain ⟨p, -, hget, hplaced⟩ := hinserts.placed hpos
    have hp : p ≤ t.contents.length := by
      have hin := (List.getElem?_eq_some_iff.1 hget).1
      rw [hplaced] at hin
      have := List.length_insertIdx_le_succ (l := t.contents) (x := n + 1) (i := p)
      omega
    -- the order leaves one place for it
    have hbehind : natOrder.Sorted (t.contents ++ [n + 1]) :=
      List.pairwise_append.2 ⟨hsound.sorted, List.pairwise_singleton _ _, fun a ha b hb => by
        rw [List.mem_singleton.1 hb]
        exact hlt a ha⟩
    have hperm : t'.contents.Perm (t.contents ++ [n + 1]) := by
      rw [hplaced]
      exact (List.perm_insertIdx (n + 1) t.contents hp).trans (List.perm_append_singleton (n + 1) t.contents).symm
    have hcontents' : t'.contents = t.contents ++ [n + 1] :=
      hperm.eq_of_pairwise (fun a b _ _ hab hba => by
        have := natOrder.swap a b
        omega) hinserts.sorted hbehind
    refine ⟨t', ?_, hsound', ?_⟩
    · rw [ascending, List.range_succ, List.map_append, List.foldl_append]
      rw [ascending] at hrun
      rw [hrun]
      exact step_insert hok
    · rw [hcontents', hcontents, List.range_succ, List.map_append]
      rfl

/-- A number below `n` others in the array, from 2^28 on and up to 2^29: they are moved out of it. -/
theorem insert_zero_outside {n : Nat} (hmany : 268435456 ≤ n) (hfew : n < 536870912) {t : Tree Nat} (h : Sound natOrder t)
    (hcontents : t.contents = (List.range n).map (· + 1)) : treeInsert (natOrder.cmp 0) true t 0 = .error .outside := by
  have hlen : t.contents.length = n := by rw [hcontents, List.length_map, List.length_range]
  have hd := h.sorted.descends 0
  obtain ⟨hgrown, -⟩ := treeGrow_spec h.holds fun hfull => ⟨rfl, h.holds.grows (by omega) hfull⟩
  have hsums : SumsFit (t.contents.length - 1) (t.contents.countP fun a => 0 ≤ natOrder.cmp 0 a) := by
    have := List.countP_le_length (p := fun a => decide (0 ≤ natOrder.cmp 0 a)) (l := t.contents)
    exact sumsFit_of_le (by omega) (.inr ⟨by omega, by omega⟩)
  obtain ⟨pos, hlist, harray⟩ := treeFindInsertionPos_many hgrown hd (by omega) (fun _ => hsums) 0
  have hfirst : natOrder.cmp 0 (t.contents.get ⟨0, by omega⟩) < 0 := by
    have hget : t.contents[0]? = some 1 := by
      rw [hcontents, List.getElem?_map, List.getElem?_range (by omega)]
      rfl
    have hone : t.contents.get ⟨0, by omega⟩ = 1 := (List.getElem?_eq_some_iff.1 hget).2
    rw [hone]
    decide
  rw [treeFindInsertionPos_of_two (by omega), if_pos hfirst] at hlist
  cases hlist
  have houtside : treeInsertAtPos (treeGrow true t) 0 0 = .error .outside :=
    treeInsertAtPos_outside hgrown (p := 0) (by omega) (by omega) 0
  rw [treeInsert, harray, ok_bind]
  dsimp only
  rw [if_pos ⟨rfl, by decide⟩, houtside]
  rfl

/-- 1, 2, … up to `n` are inserted, each behind the others, and 0 before them. -/
theorem ascending_outside {n : Nat} (hmany : 268435456 ≤ n) (hn : n ≤ 268435456) :
    (∀ call ∈ ascending n ++ [.insert 0 true], call.granted = true) ∧
      (∃ t, (ascending n).foldl step (.ok treeNew) = .ok t ∧ treeInsert (natOrder.cmp 0) true t 0 = .error .outside) ∧
      ¬ Along step AsMap (.ok treeNew) (ascending n ++ [.insert 0 true]) := by
  obtain ⟨t, hrun, hsound, hcontents⟩ := ascending_run hn
  have houtside := insert_zero_outside hmany (by omega) hsound hcontents
  refine ⟨?_, ⟨t, hrun, houtside⟩, fun h => ?_⟩
  · intro call hcall
    rcases List.mem_append.1 hcall with hcall | hcall
    · exact ascending_granted _ call hcall
    · rw [List.mem_singleton.1 hcall]
      rfl
  · obtain ⟨-, ⟨t', ht', -, pos, t₁, hok, -⟩, -⟩ := Along.append.1 h
    rw [hrun] at ht'
    cases ht'
    rw [houtside] at hok
    cases hok

/-- **2^28 elements cannot be moved**: 1, 2, … up to 2^28 are inserted, each behind the others.  The insertion of 0 should move
them all; their bytes are no `int`. -/
theorem all_moved_outside :
    (∀ call ∈ ascending 268435456 ++ [.insert 0 true], call.granted = true) ∧
      (∃ t, (ascending 268435456).foldl step (.ok treeNew) = .ok t ∧ treeInsert (natOrder.cmp 0) true t 0 = .error .outside) ∧
      ¬ Along step AsMap (.ok treeNew) (ascending 268435456 ++ [.insert 0 true]) :=
  ascending_outside (Nat.le_refl _) (Nat.le_refl _)

end Runs

end PoxChat.Users.TreeArray
