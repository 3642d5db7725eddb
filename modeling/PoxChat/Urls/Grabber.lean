import Mathlib.Data.List.Perm.Basic
import PoxChat.Lib.Program
import PoxChat.Users.Userlist

/-!
# The URL grabber

`url_add` of `url.c`, with the array of `tree.c` in which the URLs stand as they came and the tree in which they are
looked up.

* `Prefs` — the preferences as a call finds them; they may change between the calls.
* `Grabber` — both containers, and what went to `url.log` and to the window of URLs.
* A URL is the text of a match: not empty, without a NUL.  `strcasecmp` folds ASCII letters.

Principal results: `run_kept` — after every run the URLs differ in more than their case, stand in the order in which
they came, the oldest gone first, and are those of the lookup tree; `grabber_bounded_iff` — the list stays within the
limit if and only if each call finds room.
-/

set_option autoImplicit false

namespace PoxChat.Urls

open Lib Outbound Users

/-! ## The model -/

/-- `strcasecmp`. -/
def strcasecmp (s1 s2 : Bytes) : Int := asciiFold.cmp s1 s2

/-- A `GTree` over `strcasecmp`: its keys with their values. -/
abbrev GTree := List (Bytes × Nat)

def gTreeLookup (t : GTree) (key : Bytes) : Bool := t.any fun e => strcasecmp e.1 key == 0

def gTreeRemove (t : GTree) (key : Bytes) : GTree := t.filter fun e => strcasecmp e.1 key != 0

/-- A key that is there already keeps its spelling. -/
def gTreeInsert (t : GTree) (key : Bytes) (value : Nat) : GTree :=
  if gTreeLookup t key then t.map fun e => if strcasecmp e.1 key = 0 then (e.1, value) else e
  else (key, value) :: t

structure Prefs where
  urlGrabber : Bool
  urlLogging : Bool
  /-- 0 is unlimited. -/
  urlGrabberLimit : Nat

structure Grabber where
  urlTree : List Bytes := []
  urlBtree : GTree := []
  /-- The lines of `url.log`. -/
  logged : List Bytes := []
  /-- The calls of `fe_url_add`, one for each URL that is put into the list. -/
  shown : List Bytes := []

/-- A trailing dot goes, then a trailing `)` that has no counterpart. -/
def chopUrl (urltext : Bytes) : Bytes :=
  let data := if urltext.getLast? = some 46 then urltext.dropLast else urltext
  if data.getLast? = some 41 ∧ 40 ∉ data then data.dropLast else data

def urlFind (s : Grabber) (urltext : Bytes) : Bool := gTreeLookup s.urlBtree urltext

/-- `tree_remove_at_pos (url_tree, 0)` and `g_tree_remove`, so many times. -/
def dropOldest : Nat → Grabber → Grabber
  | 0, s => s
  | n + 1, s =>
    match s.urlTree with
    | [] => s
    | pos :: rest => dropOldest n { s with urlTree := rest, urlBtree := gTreeRemove s.urlBtree pos }

/-- The eviction: as many as there are too many before the new one is added. -/
def makeRoom (limit : Nat) (s : Grabber) : Grabber :=
  if limit > 0 ∧ s.urlTree.length ≥ limit then dropOldest (s.urlTree.length - limit) s else s

/-- `tree_append`, `g_tree_insert` and `fe_url_add`. -/
def appendUrl (s : Grabber) (data : Bytes) : Grabber :=
  { s with
    urlTree := s.urlTree ++ [data]
    urlBtree := gTreeInsert s.urlBtree data s.urlTree.length
    shown := s.shown ++ [data] }

/-- `url_add`. -/
def urlAdd (prefs : Prefs) (s : Grabber) (urltext : Bytes) : Grabber :=
  if !prefs.urlGrabber && !prefs.urlLogging then s
  else
    let data := chopUrl urltext
    let s := if prefs.urlLogging then { s with logged := s.logged ++ [data] } else s
    if !prefs.urlGrabber then s
    else if urlFind s data then s
    else appendUrl (makeRoom prefs.urlGrabberLimit s) data

/-- A call under the preferences of its time. -/
structure Call where
  prefs : Prefs
  urltext : Bytes

def step (s : Grabber) (call : Call) : Grabber := urlAdd call.prefs s call.urltext

def after (calls : List Call) : Grabber := calls.foldl step {}

/-! ## Comparing -/

theorem strcasecmp_eq_zero_iff (a b : Bytes) : strcasecmp a b = 0 ↔ asciiFold.key a = asciiFold.key b :=
  asciiFold.loop_eq_zero_iff (fun _ => cString_ne_zero) fun _ => cString_ne_zero

/-- Two URLs that are not the same to `strcasecmp`. -/
def Differ (a b : Bytes) : Prop := strcasecmp a b ≠ 0

theorem Differ.symm {a b : Bytes} (h : Differ a b) : Differ b a := by
  unfold Differ at *
  rw [Ne, strcasecmp_eq_zero_iff] at *
  exact fun e => h e.symm

theorem strcasecmp_self (a : Bytes) : strcasecmp a a = 0 := (strcasecmp_eq_zero_iff a a).2 rfl

/-! ## The lookup tree -/

theorem gTreeLookup_eq_false {t : GTree} {key : Bytes} :
    gTreeLookup t key = false ↔ ∀ u ∈ t.map Prod.fst, Differ u key := by
  simp [gTreeLookup, Differ]

theorem keys_gTreeRemove (t : GTree) (key : Bytes) :
    (gTreeRemove t key).map Prod.fst = (t.map Prod.fst).filter fun u => strcasecmp u key != 0 := by
  rw [gTreeRemove, List.filter_map]
  rfl

theorem keys_gTreeInsert {t : GTree} {key : Bytes} (h : gTreeLookup t key = false) (value : Nat) :
    (gTreeInsert t key value).map Prod.fst = key :: t.map Prod.fst := by
  rw [gTreeInsert, h]
  rfl

/-! ## What every call keeps -/

/-- The URLs are distinct, are those of the lookup tree, and are the last that were put into the list. -/
structure Kept (s : Grabber) : Prop where
  distinct : s.urlTree.Pairwise Differ
  tree : (s.urlBtree.map Prod.fst).Perm s.urlTree
  order : s.urlTree <:+ s.shown

theorem Kept.dropOldest {s : Grabber} (h : Kept s) (n : Nat) : Kept (dropOldest n s) := by
  induction n generalizing s with
  | zero => exact h
  | succ n ih =>
    rw [Urls.dropOldest]
    split
    · exact h
    · next pos rest htree =>
      refine ih ⟨?_, ?_, ?_⟩
      · exact (htree ▸ h.distinct).of_cons
      · -- the oldest URL is the only one that goes
        have hrest : rest.filter (fun u => strcasecmp u pos != 0) = rest := by
          refine List.filter_eq_self.2 fun u hu => ?_
          have := ((List.pairwise_cons.1 (htree ▸ h.distinct)).1 u hu).symm
          simpa [Differ] using this
        have hperm := (htree ▸ h.tree : (s.urlBtree.map Prod.fst).Perm (pos :: rest)).filter
          fun u => strcasecmp u pos != 0
        rw [List.filter_cons_of_neg (by simp [strcasecmp_self]), hrest] at hperm
        rwa [keys_gTreeRemove]
      · exact (List.suffix_cons pos rest).trans (htree ▸ h.order)

theorem dropOldest_urlTree (n : Nat) (s : Grabber) : (dropOldest n s).urlTree = s.urlTree.drop n := by
  induction n generalizing s with
  | zero => rfl
  | succ n ih =>
    rw [dropOldest]
    split
    · next htree => rw [htree, List.drop_nil]
    · next pos rest htree => rw [ih, htree, List.drop_succ_cons]

theorem Kept.makeRoom {s : Grabber} (h : Kept s) (limit : Nat) : Kept (makeRoom limit s) := by
  rw [Urls.makeRoom]
  split
  · exact h.dropOldest _
  · exact h

theorem makeRoom_suffix (limit : Nat) (s : Grabber) : (makeRoom limit s).urlTree <:+ s.urlTree := by
  rw [makeRoom]
  split
  · rw [dropOldest_urlTree]
    exact List.drop_suffix _ _
  · exact List.suffix_refl _

/-- A URL that is new to the list is new to what is left of it. -/
theorem Kept.new {s : Grabber} (h : Kept s) {data : Bytes} (hnew : urlFind s data = false) :
    ∀ u ∈ s.urlTree, Differ u data := by
  intro u hu
  exact gTreeLookup_eq_false.1 hnew u (h.tree.mem_iff.2 hu)

theorem Kept.appendUrl {s : Grabber} (h : Kept s) {data : Bytes} (hnew : ∀ u ∈ s.urlTree, Differ u data) :
    Kept (appendUrl s data) := by
  have hlookup : gTreeLookup s.urlBtree data = false :=
    gTreeLookup_eq_false.2 fun u hu => hnew u (h.tree.mem_iff.1 hu)
  refine ⟨?_, ?_, ?_⟩
  · refine List.pairwise_append.2 ⟨h.distinct, List.pairwise_singleton _ _, fun u hu v hv => ?_⟩
    rw [List.mem_singleton.1 hv]
    exact hnew u hu
  · simp only [Urls.appendUrl, keys_gTreeInsert hlookup]
    exact (h.tree.cons data).trans (List.perm_append_singleton _ _).symm
  · obtain ⟨old, hold⟩ := h.order
    exact ⟨old, by simp only [Urls.appendUrl, ← hold, List.append_assoc]⟩

/-- The call puts a URL into the list: the grabber is on, and the URL is not there yet. -/
def grabs (s : Grabber) (call : Call) : Bool := call.prefs.urlGrabber && !urlFind s (chopUrl call.urltext)

/-- A call writes to the log, and adds its URL or leaves the list as it is. -/
theorem step_cases (s : Grabber) (call : Call) :
    ∃ logged, step s call =
      if grabs s call then appendUrl (makeRoom call.prefs.urlGrabberLimit { s with logged }) (chopUrl call.urltext)
      else { s with logged } := by
  obtain ⟨⟨grabber, logging, limit⟩, urltext⟩ := call
  cases grabber <;> cases logging
  · exact ⟨s.logged, rfl⟩
  · exact ⟨s.logged ++ [chopUrl urltext], rfl⟩
  · refine ⟨s.logged, ?_⟩
    cases hfind : urlFind s (chopUrl urltext) <;> simp [step, urlAdd, grabs, hfind]
  · refine ⟨s.logged ++ [chopUrl urltext], ?_⟩
    have hsame : urlFind { s with logged := s.logged ++ [chopUrl urltext] } (chopUrl urltext) =
        urlFind s (chopUrl urltext) := rfl
    cases hfind : urlFind s (chopUrl urltext) <;> simp [step, urlAdd, grabs, hsame, hfind]

theorem Kept.step {s : Grabber} (h : Kept s) (call : Call) : Kept (step s call) := by
  obtain ⟨logged, heq⟩ := step_cases s call
  rw [heq]
  have hlogged : Kept { s with logged } := { h with }
  split
  · next hgrabs =>
    have hnew : urlFind s (chopUrl call.urltext) = false := by
      simp only [grabs, Bool.and_eq_true, Bool.not_eq_true'] at hgrabs
      exact hgrabs.2
    refine (hlogged.makeRoom _).appendUrl fun u hu => ?_
    exact h.new hnew u ((makeRoom_suffix _ { s with logged }).subset hu)
  · exact hlogged

/-- Whatever the calls and the limits, the URLs stay distinct, in order, and in step with the lookup tree. -/
theorem run_kept (calls : List Call) : Kept (after calls) := by
  refine List.foldlRecOn calls step ⟨.nil, .nil, List.nil_suffix⟩ ?_
  intro s hs call _
  exact hs.step call

/-! ## The bound -/

theorem length_makeRoom {limit : Nat} (hpos : 0 < limit) (s : Grabber) :
    (makeRoom limit s).urlTree.length = min s.urlTree.length limit := by
  rw [makeRoom]
  split
  · next hfull =>
    rw [dropOldest_urlTree, List.length_drop]
    omega
  · next hroom => omega

/-- The call finds room: for one more URL if it adds one. -/
def HasRoom (s : Grabber) (call : Call) : Prop :=
  if grabs s call then s.urlTree.length < call.prefs.urlGrabberLimit
  else s.urlTree.length ≤ call.prefs.urlGrabberLimit

instance (s : Grabber) (call : Call) : Decidable (HasRoom s call) := inferInstanceAs (Decidable (ite _ _ _))

theorem step_bounded_iff {s : Grabber} {call : Call} (hpos : 0 < call.prefs.urlGrabberLimit) :
    (step s call).urlTree.length ≤ call.prefs.urlGrabberLimit ↔ HasRoom s call := by
  obtain ⟨logged, heq⟩ := step_cases s call
  rw [heq, HasRoom]
  split
  · have hroom := length_makeRoom hpos { s with logged }
    rw [appendUrl, List.length_append, List.length_singleton, hroom]
    simp only
    omega
  · exact Iff.rfl

/-- What is promised after a call: the list is within the limit, and all else is kept. -/
def Bounded (limit : Nat) (s : Grabber) : Prop := s.urlTree.length ≤ limit ∧ Kept s

/-- The promise holds after each call of a run if and only if each call finds room. -/
theorem grabber_bounded_iff {calls : List Call} (hpos : ∀ call ∈ calls, 0 < call.prefs.urlGrabberLimit) :
    Along step (fun s call => Bounded call.prefs.urlGrabberLimit (step s call)) {} calls ↔
      Along step HasRoom {} calls := by
  suffices h : ∀ s, Kept s → (Along step (fun s call => Bounded call.prefs.urlGrabberLimit (step s call)) s calls ↔
      Along step HasRoom s calls) from h {} (run_kept [])
  induction calls with
  | nil => exact fun s _ => Iff.rfl
  | cons call calls ih =>
    intro s hs
    have hcall : Bounded call.prefs.urlGrabberLimit (step s call) ↔ HasRoom s call := by
      rw [Bounded, and_iff_left (hs.step call)]
      exact step_bounded_iff (hpos call List.mem_cons_self)
    exact and_congr hcall (ih (fun c hc => hpos c (List.mem_cons_of_mem _ hc)) (step s call) (hs.step call))

def limited (limit : Nat) (url : String) : Call := ⟨⟨true, false, limit⟩, bytes url⟩

/-- Two URLs, one of them twice, with room for both. -/
theorem two_urls_bounded :
    Along step (fun s call => Bounded call.prefs.urlGrabberLimit (step s call)) {}
      [limited 2 "http://a", limited 2 "HTTP://A", limited 2 "http://b."] :=
  (grabber_bounded_iff (by decide)).2 (by decide)

/-- With a limit of one the second URL is put beside the first. -/
theorem limit_exceeded :
    ¬ Along step (fun s call => Bounded call.prefs.urlGrabberLimit (step s call)) {}
        [limited 1 "http://a", limited 1 "http://b"] := by
  rintro ⟨-, ⟨hlen, -⟩, -⟩
  exact absurd hlen (by decide)

end PoxChat.Urls
