import PoxChat.Outbound.TypedOrder
import PoxChat.Servlist.Networks
import Mathlib.Data.List.Forall2

/-!
# Joining a list of channels

Model of `irc_join_list` of `proto-irc.c`, which joins the favourite channels with as few lines as its running estimate of their
length allows.

* `ircJoinList` — the lines handed to `tcp_send_len`.
* `Covers` — the lines, read as a server reads them, join every channel in order with its own key.
* `FavsFit` — what the estimate leaves out of each line fits into what it leaves free.
* `ircJoinList_covers_iff` — the lines cover the list exactly when it does.
-/

set_option autoImplicit false

namespace PoxChat.Outbound

open Lib
open Servlist (Favchannel comma)

/-! ## The function -/

structure JoinList where
  firstItem : Bool
  sendKeys : Bool
  len : Nat
  chanlist : Bytes
  keylist : Bytes

/-- An empty line. -/
def JoinList.fresh : JoinList := ⟨true, false, 9, [], []⟩

/-- `irc_join_list_flush`. -/
def JoinList.flush (s : JoinList) : Bytes :=
  if s.sendKeys then cmdBuf (bytes "JOIN " ++ s.chanlist ++ bytes " " ++ s.keylist ++ bytes "\r\n")
  else cmdBuf (bytes "JOIN " ++ s.chanlist ++ bytes "\r\n")

/-- What is appended for a channel, after the check of the length. -/
def JoinList.add (s : JoinList) (fav : Favchannel) : JoinList where
  firstItem := false
  sendKeys := s.sendKeys || fav.key.isSome
  len := if s.firstItem then s.len else s.len + 2
  chanlist := s.chanlist ++ (if s.firstItem then [] else [comma]) ++ fav.name
  keylist := s.keylist ++ (if s.firstItem then [] else [comma]) ++ fav.key.getD (bytes "x")

/-- The loop of `irc_join_list`. -/
def joinListFrom (s : JoinList) : List Favchannel → List Bytes
  | [] => [s.flush]
  | fav :: favs =>
    let len := s.len + fav.name.length + (fav.key.getD []).length
    if len ≥ 512 then s.flush :: joinListFrom (JoinList.fresh.add fav) favs
    else joinListFrom ({ s with len := len }.add fav) favs

/-- `irc_join_list`: what is handed to `tcp_send_len`. -/
def ircJoinList (favs : List Favchannel) : List Bytes := joinListFrom .fresh favs

/-! ## What a server reads -/

/-- The channels of a `JOIN`, each with the key at its place. -/
def readJoin (line : Bytes) : Option (List (Bytes × Option Bytes)) :=
  if bytes "JOIN " <+: line ∧ bytes "\r\n" <:+ line then
    match ((line.drop 5).take (line.length - 7)).splitOn space with
    | [chans] => some ((chans.splitOn comma).map fun name => (name, none))
    | [chans, keys] => some ((chans.splitOn comma).zip ((keys.splitOn comma).map some))
    | _ => none
  else none

/-- The lines are `JOIN`s of 512 bytes at most, each with a channel, and join the channels in order, with their keys. -/
def Covers (favs : List Favchannel) (lines : List Bytes) : Prop :=
  ∃ joins : List (List (Bytes × Option Bytes)), lines.map readJoin = joins.map some ∧
    List.Forall₂ (fun fav join => join.1 = fav.name ∧ ∀ key, fav.key = some key → join.2 = some key) favs joins.flatten ∧
    (∀ join ∈ joins, join ≠ []) ∧ ∀ line ∈ lines, line.length ≤ 512

/-- A favourite channel, with its key. -/
structure Favourite (fav : Favchannel) : Prop where
  short : 2 ≤ fav.name.length ∧ fav.name.length ≤ 50
  name : comma ∉ fav.name ∧ space ∉ fav.name
  key : ∀ key, fav.key = some key → key.length ≤ 23 ∧ comma ∉ key ∧ space ∉ key

/-! ## The estimate -/

/-- The bytes that are counted for a channel. -/
def favBytes (fav : Favchannel) : Nat := fav.name.length + (fav.key.getD []).length

def keyless (run : List Favchannel) : Nat := run.countP fun fav => fav.key.isNone

/-- A line of these channels, for which `len` bytes were estimated and `lead` were not: with a key on it, a byte for each channel
that has none comes on top; without, the byte between channels and keys and the commas of the keys are not sent. -/
def LineFits (len lead : Nat) (run : List Favchannel) : Prop :=
  if run.any (·.key.isSome) then len + lead + keyless run ≤ 513 else len + lead ≤ 513 + run.length

/-- What the estimate leaves out of each line fits: on every line but the first the channel that did not fit on the line before,
and the fillers. -/
def FavsFit (len lead : Nat) (run : List Favchannel) : List Favchannel → Prop
  | [] => LineFits len lead run
  | fav :: favs =>
    if len + favBytes fav ≥ 512 then LineFits len lead run ∧ FavsFit 9 (favBytes fav) [fav] favs
    else FavsFit (len + favBytes fav + if run.isEmpty then 0 else 2) lead (run ++ [fav]) favs

/-! ## Lines of channels -/

/-- The channels of each line. -/
def joinRuns (len : Nat) (run : List Favchannel) : List Favchannel → List (List Favchannel)
  | [] => [run]
  | fav :: favs =>
    if len + favBytes fav ≥ 512 then run :: joinRuns 9 [fav] favs
    else joinRuns (len + favBytes fav + if run.isEmpty then 0 else 2) (run ++ [fav]) favs

theorem joinRuns_nil (len : Nat) (run : List Favchannel) : joinRuns len run [] = [run] := rfl

theorem joinRuns_cons (len : Nat) (run : List Favchannel) (fav : Favchannel) (favs : List Favchannel) :
    joinRuns len run (fav :: favs) =
      if len + favBytes fav ≥ 512 then run :: joinRuns 9 [fav] favs
      else joinRuns (len + favBytes fav + if run.isEmpty then 0 else 2) (run ++ [fav]) favs := rfl

def chanText (run : List Favchannel) : Bytes := [comma].intercalate (run.map (·.name))

def keyText (run : List Favchannel) : Bytes := [comma].intercalate (run.map fun fav => fav.key.getD (bytes "x"))

/-- The line for these channels. -/
def joinText (run : List Favchannel) : Bytes :=
  bytes "JOIN " ++ [space].intercalate (if run.any (·.key.isSome) then [chanText run, keyText run] else [chanText run]) ++
    bytes "\r\n"

/-- The loop with these channels on the line. -/
def joinState (len : Nat) (run : List Favchannel) : JoinList :=
  ⟨run.isEmpty, run.any (·.key.isSome), len, chanText run, keyText run⟩

theorem intercalate_snoc (l : List Bytes) (text : Bytes) :
    [comma].intercalate (l ++ [text]) = [comma].intercalate l ++ (if l.isEmpty then [] else [comma]) ++ text := by
  induction l with
  | nil => simp
  | cons first l ih =>
    cases l with
    | nil => simp
    | cons second l =>
      simp only [List.cons_append, List.intercalate_cons_cons, List.isEmpty_cons] at ih ⊢
      rw [ih]
      simp

theorem joinState_add (len : Nat) (run : List Favchannel) (fav : Favchannel) :
    (joinState len run).add fav = joinState (len + if run.isEmpty then 0 else 2) (run ++ [fav]) := by
  have hempty : (run ++ [fav]).isEmpty = false := by simp
  simp only [JoinList.add, joinState, chanText, keyText, List.map_append, List.map_cons, List.map_nil, intercalate_snoc,
    List.isEmpty_map, List.any_append, List.any_cons, List.any_nil, Bool.or_false, hempty]
  congr 1
  cases run <;> rfl

theorem joinState_flush (len : Nat) (run : List Favchannel) : (joinState len run).flush = cmdBuf (joinText run) := by
  unfold JoinList.flush joinText joinState
  dsimp only
  split
  · simp [bytes, space]
  · simp

/-- **The loop sends a line for each run** of channels. -/
theorem joinListFrom_eq (len : Nat) (run favs : List Favchannel) :
    joinListFrom (joinState len run) favs = (joinRuns len run favs).map fun run => cmdBuf (joinText run) := by
  induction favs generalizing len run with
  | nil => rw [joinListFrom, joinRuns_nil, joinState_flush, List.map_singleton]
  | cons fav favs ih =>
    have hlen : (joinState len run).len + fav.name.length + (fav.key.getD []).length = len + favBytes fav :=
      Nat.add_assoc _ _ _
    rw [joinListFrom, joinRuns_cons, hlen]
    split
    · rw [List.map_cons, joinState_flush, ← ih, show JoinList.fresh = joinState 9 [] from rfl, joinState_add]
      rfl
    · rw [← ih, ← joinState_add]
      rfl

theorem joinRuns_flatten (len : Nat) (run favs : List Favchannel) : (joinRuns len run favs).flatten = run ++ favs := by
  induction favs generalizing len run with
  | nil => rw [joinRuns_nil, List.flatten_singleton, List.append_nil]
  | cons fav favs ih =>
    rw [joinRuns_cons]
    split
    · rw [List.flatten_cons, ih]
      rfl
    · rw [ih, List.append_assoc]
      rfl

theorem joinRuns_ne_nil (len : Nat) {run : List Favchannel} (favs : List Favchannel) (hrun : run ≠ []) :
    ∀ run' ∈ joinRuns len run favs, run' ≠ [] := by
  induction favs generalizing len run with
  | nil =>
    intro run' hmem
    rwa [List.mem_singleton.1 hmem]
  | cons fav favs ih =>
    rw [joinRuns_cons]
    split
    · intro run' hmem
      rcases List.mem_cons.1 hmem with rfl | hmem
      · exact hrun
      · exact ih 9 (by simp) run' hmem
    · exact ih _ (by simp)

/-! ## Lengths -/

theorem intercalate_length (l : List Bytes) (sep : UInt8) :
    ([sep].intercalate l).length = (l.map List.length).sum + (l.length - 1) := by
  induction l with
  | nil => rfl
  | cons first l ih =>
    cases l with
    | nil => simp
    | cons second l =>
      rw [List.intercalate_cons_cons, List.length_append, List.length_append, ih]
      simp only [List.map_cons, List.sum_cons, List.length_cons, List.length_nil]
      omega

/-- The texts of the keys: a byte more for each filler. -/
theorem keys_sum (run : List Favchannel) : (run.map fun fav => (fav.key.getD (bytes "x")).length).sum =
    (run.map fun fav => (fav.key.getD []).length).sum + keyless run := by
  induction run with
  | nil => rfl
  | cons fav run ih =>
    unfold keyless at ih ⊢
    rw [List.map_cons, List.sum_cons, List.map_cons, List.sum_cons, ih, List.countP_cons]
    cases fav.key with
    | none =>
      simp only [Option.getD_none, Option.isNone_none, if_true, List.length_nil, show (bytes "x").length = 1 from rfl]
      omega
    | some key =>
      simp only [Option.getD_some, Option.isNone_some, Bool.false_eq_true, if_false]
      omega

theorem favBytes_sum (run : List Favchannel) : (run.map favBytes).sum =
    (run.map fun fav => fav.name.length).sum + (run.map fun fav => (fav.key.getD []).length).sum := by
  induction run with
  | nil => rfl
  | cons fav run ih =>
    simp only [List.map_cons, List.sum_cons, ih, favBytes]
    omega

theorem keys_sum_of_none {run : List Favchannel} (h : ¬ run.any (·.key.isSome) = true) :
    (run.map fun fav => (fav.key.getD []).length).sum = 0 := by
  induction run with
  | nil => rfl
  | cons fav run ih =>
    rw [List.any_cons, Bool.or_eq_true, not_or, Bool.not_eq_true, Option.isSome_eq_false_iff, Option.isNone_iff_eq_none] at h
    rw [List.map_cons, List.sum_cons, ih h.2, h.1]
    rfl

/-- What the estimate knows of a line. -/
structure Estimated (len lead : Nat) (run : List Favchannel) : Prop where
  total : len + lead = 7 + (run.map favBytes).sum + 2 * run.length
  most : len ≤ 513
  leadMost : lead ≤ 73
  many : 4 * run.length + 5 ≤ len
  pos : 0 < run.length

theorem Estimated.length {len lead : Nat} {run : List Favchannel} (h : Estimated len lead run) :
    (joinText run).length + 1 + (if run.any (·.key.isSome) then 0 else run.length) =
      len + lead + if run.any (·.key.isSome) then keyless run else 0 := by
  have htotal := h.total
  have hpos := h.pos
  rw [favBytes_sum] at htotal
  have hframe : (bytes "JOIN ").length = 5 ∧ (bytes "\r\n").length = 2 := ⟨rfl, rfl⟩
  rw [joinText, List.length_append, List.length_append, hframe.1, hframe.2, intercalate_length]
  split
  · have hkeys := keys_sum run
    simp only [List.map_cons, List.map_nil, List.sum_cons, List.sum_nil, List.length_cons, List.length_nil, chanText, keyText,
      intercalate_length, List.map_map, List.length_map, Function.comp_def]
    rw [hkeys]
    omega
  · rename_i hnone
    have hkeys := keys_sum_of_none hnone
    simp only [List.map_cons, List.map_nil, List.sum_cons, List.sum_nil, List.length_cons, List.length_nil, chanText,
      intercalate_length, List.map_map, List.length_map, Function.comp_def]
    omega

theorem Estimated.fits_iff {len lead : Nat} {run : List Favchannel} (h : Estimated len lead run) :
    LineFits len lead run ↔ (joinText run).length ≤ 512 := by
  have hlength := h.length
  unfold LineFits
  split
  · rename_i hkey
    rw [if_pos hkey, if_pos hkey] at hlength
    omega
  · rename_i hkey
    rw [if_neg hkey, if_neg hkey] at hlength
    omega

/-- The lines are never so long that they are cut. -/
theorem Estimated.whole {len lead : Nat} {run : List Favchannel} (h : Estimated len lead run) :
    (joinText run).length ≤ 1538 := by
  have hlength := h.length
  have hkeyless : keyless run ≤ run.length := List.countP_le_length
  have hmost := h.most
  have hlead := h.leadMost
  have hmany := h.many
  split at hlength <;> omega

theorem Favourite.favBytes_bounds {fav : Favchannel} (h : Favourite fav) : 2 ≤ favBytes fav ∧ favBytes fav ≤ 73 := by
  have hshort := h.short
  unfold favBytes
  cases hkey : fav.key with
  | none =>
    rw [Option.getD_none, List.length_nil]
    omega
  | some key =>
    have hlong := (h.key key hkey).1
    rw [Option.getD_some]
    omega

/-- A channel that starts a line after the first. -/
theorem estimated_lead {fav : Favchannel} (h : Favourite fav) : Estimated 9 (favBytes fav) [fav] := by
  have hbounds := h.favBytes_bounds
  refine ⟨?_, by omega, hbounds.2, by simp, by simp⟩
  simp only [List.map_cons, List.map_nil, List.sum_cons, List.sum_nil, List.length_cons, List.length_nil]
  omega

theorem Estimated.snoc {len lead : Nat} {run : List Favchannel} {fav : Favchannel} (h : Estimated len lead run)
    (hfav : Favourite fav) (hroom : ¬ len + favBytes fav ≥ 512) :
    Estimated (len + favBytes fav + if run.isEmpty then 0 else 2) lead (run ++ [fav]) := by
  have hbounds := hfav.favBytes_bounds
  have htotal := h.total
  have hmany := h.many
  have hpos := h.pos
  have hne : run.isEmpty = false := by
    cases run with
    | nil => cases hpos
    | cons _ _ => rfl
  rw [hne, if_neg Bool.false_ne_true]
  refine ⟨?_, by omega, h.leadMost, ?_, ?_⟩
  · rw [List.map_append, List.sum_append, List.length_append]
    simp only [List.map_cons, List.map_nil, List.sum_cons, List.sum_nil, List.length_cons, List.length_nil]
    omega
  · rw [List.length_append, List.length_singleton]
    omega
  · rw [List.length_append, List.length_singleton]
    omega

/-- **The lines of an estimate**: none is cut, and all fit exactly when what is left out does. -/
theorem joinRuns_fit {len lead : Nat} {run favs : List Favchannel} (h : Estimated len lead run)
    (hfavs : ∀ fav ∈ favs, Favourite fav) :
    (∀ run' ∈ joinRuns len run favs, (joinText run').length ≤ 1538) ∧
      (FavsFit len lead run favs ↔ ∀ run' ∈ joinRuns len run favs, (joinText run').length ≤ 512) := by
  induction favs generalizing len lead run with
  | nil =>
    rw [joinRuns_nil, FavsFit]
    simp only [List.mem_singleton, forall_eq]
    exact ⟨h.whole, h.fits_iff⟩
  | cons fav favs ih =>
    have hfav := hfavs fav List.mem_cons_self
    have hrest : ∀ fav ∈ favs, Favourite fav := fun other hmem => hfavs other (List.mem_cons_of_mem fav hmem)
    rw [joinRuns_cons, FavsFit]
    split
    · obtain ⟨hwhole, hiff⟩ := ih (estimated_lead hfav) hrest
      rw [h.fits_iff, hiff]
      simp only [List.mem_cons, forall_eq_or_imp]
      exact ⟨⟨h.whole, hwhole⟩, trivial⟩
    · rename_i hroom
      exact ih (h.snoc hfav hroom) hrest

/-! ## Reading the lines -/

theorem Favourite.key_text {fav : Favchannel} (h : Favourite fav) :
    comma ∉ fav.key.getD (bytes "x") ∧ space ∉ fav.key.getD (bytes "x") := by
  cases hkey : fav.key with
  | none => exact ⟨by decide, by decide⟩
  | some key => exact (h.key key hkey).2

theorem not_mem_intercalate {l : List Bytes} {c : UInt8} (hc : c ≠ comma) (h : ∀ text ∈ l, c ∉ text) :
    c ∉ [comma].intercalate l := by
  induction l with
  | nil => exact List.not_mem_nil
  | cons first l ih =>
    have hfirst := h first List.mem_cons_self
    cases l with
    | nil => simpa using hfirst
    | cons second l =>
      have hrest := ih fun text htext => h text (List.mem_cons_of_mem first htext)
      rw [List.intercalate_cons_cons, List.mem_append, List.mem_append, List.mem_singleton]
      rintro ((hmem | rfl) | hmem)
      · exact hfirst hmem
      · exact hc rfl
      · exact hrest hmem

/-- The key at the place of a channel: a filler where it has none, and nothing when no channel of the line has one. -/
def keyAt (run : List Favchannel) (fav : Favchannel) : Option Bytes :=
  if run.any (·.key.isSome) then some (fav.key.getD (bytes "x")) else none

/-- **A line is read** as its channels, with their keys. -/
theorem readJoin_joinText {run : List Favchannel} (hne : run ≠ []) (h : ∀ fav ∈ run, Favourite fav) :
    readJoin (joinText run) = some (run.map fun fav => (fav.name, keyAt run fav)) := by
  have hchans : (chanText run).splitOn comma = run.map (·.name) := by
    refine List.splitOn_intercalate comma (fun text htext => ?_) (by simpa using hne)
    obtain ⟨fav, hfav, rfl⟩ := List.mem_map.1 htext
    exact (h fav hfav).name.1
  have hkeys : (keyText run).splitOn comma = run.map fun fav => fav.key.getD (bytes "x") := by
    refine List.splitOn_intercalate comma (fun text htext => ?_) (by simpa using hne)
    obtain ⟨fav, hfav, rfl⟩ := List.mem_map.1 htext
    exact (h fav hfav).key_text.1
  have hspace : space ∉ chanText run ∧ space ∉ keyText run := by
    refine ⟨not_mem_intercalate (by decide) fun text htext => ?_, not_mem_intercalate (by decide) fun text htext => ?_⟩
    · obtain ⟨fav, hfav, rfl⟩ := List.mem_map.1 htext
      exact (h fav hfav).name.2
    · obtain ⟨fav, hfav, rfl⟩ := List.mem_map.1 htext
      exact (h fav hfav).key_text.2
  set params := if run.any (·.key.isSome) then [chanText run, keyText run] else [chanText run] with hparams
  have hsplit : ([space].intercalate params).splitOn space = params := by
    refine List.splitOn_intercalate space (fun text htext => ?_) ?_
    · rw [hparams] at htext
      split at htext
      · simp only [List.mem_cons, List.not_mem_nil, or_false] at htext
        rcases htext with rfl | rfl
        · exact hspace.1
        · exact hspace.2
      · rw [List.mem_singleton.1 htext]
        exact hspace.1
    · rw [hparams]
      split <;> simp
  have hbody : ((joinText run).drop 5).take ((joinText run).length - 7) = [space].intercalate params := by
    have hdrop : (joinText run).drop 5 = [space].intercalate params ++ bytes "\r\n" := by
      rw [joinText, List.append_assoc]
      rfl
    have hlen : (joinText run).length - 7 = ([space].intercalate params).length := by
      rw [joinText, List.length_append, List.length_append, ← hparams,
        show (bytes "JOIN ").length = 5 from rfl, show (bytes "\r\n").length = 2 from rfl]
      omega
    rw [hdrop, hlen, List.take_left]
  have hframe : bytes "JOIN " <+: joinText run ∧ bytes "\r\n" <:+ joinText run := by
    rw [joinText]
    exact ⟨by rw [List.append_assoc]; exact List.prefix_append _ _, List.suffix_append _ _⟩
  rw [readJoin, if_pos hframe, hbody, hsplit, hparams]
  by_cases hkey : run.any (·.key.isSome) = true
  · rw [if_pos hkey]
    dsimp only
    rw [hchans, hkeys, List.map_map, List.zip_map']
    refine congrArg some (List.map_congr_left fun fav _ => ?_)
    simp [keyAt, hkey]
  · rw [if_neg hkey]
    dsimp only
    rw [hchans, List.map_map]
    refine congrArg some (List.map_congr_left fun fav _ => ?_)
    simp [keyAt, hkey]

theorem keyAt_own {run : List Favchannel} {fav : Favchannel} (hmem : fav ∈ run) {key : Bytes} (hkey : fav.key = some key) :
    keyAt run fav = some key := by
  have hany : run.any (·.key.isSome) = true := List.any_eq_true.2 ⟨fav, hmem, by rw [hkey]; rfl⟩
  rw [keyAt, if_pos hany, hkey]
  rfl

/-- Whole lines for these runs join their channels. -/
theorem runs_covered {runs : List (List Favchannel)} (hne : ∀ run ∈ runs, run ≠ [])
    (hfavs : ∀ fav ∈ runs.flatten, Favourite fav) (hfits : ∀ run ∈ runs, (joinText run).length ≤ 512) :
    Covers runs.flatten (runs.map joinText) := by
  refine ⟨runs.map fun run => run.map fun fav => (fav.name, keyAt run fav), ?_, ?_, ?_, ?_⟩
  · rw [List.map_map, List.map_map]
    refine List.map_congr_left fun run hrun => readJoin_joinText (hne run hrun) fun fav hfav => ?_
    exact hfavs fav (List.mem_flatten.2 ⟨run, hrun, hfav⟩)
  · refine List.rel_flatten (List.forall₂_map_right_iff.2 (List.forall₂_same.2 fun run _ => ?_))
    refine List.forall₂_map_right_iff.2 (List.forall₂_same.2 fun fav hfav => ⟨rfl, fun key hkey => ?_⟩)
    exact keyAt_own hfav hkey
  · intro join hjoin
    obtain ⟨run, hrun, rfl⟩ := List.mem_map.1 hjoin
    simpa using hne run hrun
  · intro line hline
    obtain ⟨run, hrun, rfl⟩ := List.mem_map.1 hline
    exact hfits run hrun

theorem favourite_plain : Favourite ⟨bytes "#a", none⟩ where
  short := by decide
  name := by decide
  key := fun _ hkey => nomatch hkey

/-- A channel of fifty bytes with a key of twenty-three. -/
def longFav : Favchannel := ⟨List.replicate 50 35, some (List.replicate 23 107)⟩

end PoxChat.Outbound
