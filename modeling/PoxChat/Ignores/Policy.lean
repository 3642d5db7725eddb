import PoxChat.Config.Survival
import PoxChat.Inbound.Multiline
import PoxChat.Text.Match

/-!
# The ignore list

The list of `ignore.c`, its file, and what it means.

* `ignoreAdd`, `ignoreDel`, `ignoreCheck` — the list; `ignoreSave`, `ignoreLoad` — the file, which turns the list round.
* `ignoreMask`, `unignoreMask` — the masks that `/IGNORE` and `/UNIGNORE` make of a word; `Misread` — a word that they
  read differently.
* `Policy` — at most one entry for every mask, without regard to case or order.
* `Op` — what can happen to the list, restarts included.

Principal results: `ignore_refines` — after any operations the list ignores what the policy ignores;
`unignore_undoes_iff` — `/UNIGNORE` takes back what `/IGNORE` did with the same word, unless it is misread.
-/

set_option autoImplicit false

namespace PoxChat.Ignores

open Lib Outbound Users Servlist Cap Config Text

/-! ## The list -/

def IG_UNIG : UInt32 := 32

def IG_NOSAVE : UInt32 := 64

structure Ignore where
  mask : Bytes
  type : UInt32

/-- The test of `ignore_exists` and of `ignore_del`. -/
def sameMask (mask : Bytes) (ig : Ignore) : Bool := rfcCasecmp ig.mask mask == 0

def ignoreExists (list : List Ignore) (mask : Bytes) : Option Ignore := list.find? (sameMask mask)

def ignoreAdd (list : List Ignore) (mask : Bytes) (type : UInt32) (overwrite : Bool) : List Ignore :=
  match ignoreExists list mask with
  | some _ => updateFirst (sameMask mask) (fun ig => ⟨mask, if overwrite then type else ig.type ||| type⟩) list
  | none => ⟨mask, type⟩ :: list

def ignoreDel (list : List Ignore) (mask : Bytes) : List Ignore := list.eraseP (sameMask mask)

/-- `match`; `behind` is its answer where it reads behind the string. -/
def masks (behind : Bytes → Bytes → Bool) (mask host : Bytes) : Bool :=
  match matchMask mask host with
  | .returns r => r
  | .overreads _ => behind mask host

/-- `ignore_check`, without its counters. -/
def ignoreCheck (behind : Bytes → Bytes → Bool) (list : List Ignore) (host : Bytes) (type : UInt32) : Bool :=
  if list.any fun ig => ig.type &&& IG_UNIG != 0 && (ig.type &&& type != 0 && masks behind ig.mask host) then false
  else list.any fun ig => ig.type &&& type != 0 && masks behind ig.mask host

/-! ## The file -/

/-- What `ignore_save` writes of an entry. -/
def ignoreText (ig : Ignore) : Bytes :=
  (assign (bytes "mask") ig.mask ++ [newline] ++ assign (bytes "type") (decimal ig.type.toNat) ++
    [newline, newline]).take 1023

def ignoreSave (list : List Ignore) : Bytes :=
  list.flatMap fun ig => if ig.type &&& IG_NOSAVE != 0 then [] else ignoreText ig

/-- `cfg_get_str`: the value of the next line of this name, and the text from its end on. -/
def cfgNext (var : Bytes) : Nat → Bytes → Option (Bytes × Bytes)
  | 0, _ => none
  | fuel + 1, cfg =>
    if cfgStarts var cfg then some (cfgValue (cfg.drop var.length), (cfg.drop var.length).dropWhile (· ≠ newline))
    else
      match (cfg.dropWhile (· ≠ newline)).drop 1 with
      | [] => none
      | cfg => cfgNext var fuel cfg

/-- `ignore_read_next_entry`, with a `char tbuf[1024]`. -/
def ignoreReadNextEntry (cfg : Bytes) : Option (Ignore × Bytes) :=
  match cfgNext (bytes "mask") (cfg.length + 1) cfg with
  | none => none
  | some (mask, cfg) =>
    match cfgNext (bytes "type") (cfg.length + 1) cfg with
    | none => none
    | some (type, cfg) => some (⟨safeStrcpy mask 1024, UInt32.ofInt (atoi (safeStrcpy type 1024))⟩, cfg)

/-- The loop of `ignore_load`, for so many entries. -/
def ignoreLoadLoop : Nat → Bytes → List Ignore → List Ignore
  | 0, _, list => list
  | fuel + 1, cfg, list =>
    match ignoreReadNextEntry cfg with
    | none => list
    | some (ig, cfg) => ignoreLoadLoop fuel cfg (ig :: list)

/-- `ignore_load` at the start. -/
def ignoreLoad (cfg : Bytes) : List Ignore := ignoreLoadLoop (cfg.length + 1) cfg []

/-! ## Commands -/

/-- The mask of `cmd_ignore`: a word that is no mask is a nick. -/
def ignoreMask (word : Bytes) : Bytes :=
  if byte '!' ∉ word ∧ byte '@' ∉ word ∧ byte '?' ∉ word ∧ byte '*' ∉ word then (word ++ bytes "!*@*").take 4095
  else word

/-- The mask of `cmd_unignore`. -/
def unignoreMask (word : Bytes) : Bytes :=
  if byte '?' ∉ word ∧ byte '*' ∉ word then (word ++ bytes "!*@*").take 4095 else word

inductive Op where
  /-- `/IGNORE`, with the type its other words make. -/
  | ignore (word : Bytes) (type : UInt32)
  | unignore (word : Bytes)
  /-- `ignore_add`, from the list's window or for a flood. -/
  | add (mask : Bytes) (type : UInt32) (overwrite : Bool)
  | del (mask : Bytes)
  | restart

def Op.apply (list : List Ignore) : Op → List Ignore
  | .ignore word type => if type = 0 then list else ignoreAdd list (ignoreMask word) type true
  | .unignore word => ignoreDel list (unignoreMask word)
  | .add mask type overwrite => ignoreAdd list mask type overwrite
  | .del mask => ignoreDel list mask
  | .restart => ignoreLoad (ignoreSave list)

/-! ## What is meant -/

/-- The entry of each mask in lower case. -/
abbrev Policy := Bytes → Option Ignore

namespace Policy

def add (p : Policy) (mask : Bytes) (type : UInt32) (overwrite : Bool) : Policy :=
  Function.update p (rfcFold.key mask)
    (some ⟨mask, (p (rfcFold.key mask)).elim type fun ig => if overwrite then type else ig.type ||| type⟩)

def del (p : Policy) (mask : Bytes) : Policy := Function.update p (rfcFold.key mask) none

/-- A restart forgets what is not to be saved. -/
def restart (p : Policy) : Policy := fun k => (p k).filter fun ig => ig.type &&& IG_NOSAVE == 0

def apply (p : Policy) : Op → Policy
  | .ignore word type => if type = 0 then p else p.add (ignoreMask word) type true
  | .unignore word => p.del (unignoreMask word)
  | .add mask type overwrite => p.add mask type overwrite
  | .del mask => p.del mask
  | .restart => p.restart

/-- A message of this type from this host is ignored: an entry for it says so, and none makes an exception. -/
def Silences (behind : Bytes → Bytes → Bool) (p : Policy) (host : Bytes) (type : UInt32) : Prop :=
  (∃ k ig, p k = some ig ∧ ig.type &&& type ≠ 0 ∧ masks behind ig.mask host = true) ∧
    ¬ ∃ k ig, p k = some ig ∧ ig.type &&& IG_UNIG ≠ 0 ∧ ig.type &&& type ≠ 0 ∧ masks behind ig.mask host = true

end Policy

/-- The list and the policy say the same. -/
structure Refines (list : List Ignore) (p : Policy) : Prop where
  distinct : DistinctKeys (fun ig : Ignore => rfcFold.key ig.mask) list
  mem : ∀ ig, ig ∈ list ↔ p (rfcFold.key ig.mask) = some ig
  keyed : ∀ k ig, p k = some ig → rfcFold.key ig.mask = k

/-! ## Adding and deleting -/

theorem sameMask_iff (mask : Bytes) (ig : Ignore) :
    sameMask mask ig = true ↔ rfcFold.key ig.mask = rfcFold.key mask := by
  rw [sameMask, beq_iff_eq]
  exact rfcFold.loop_eq_zero_iff (fun _ => cString_ne_zero) fun _ => cString_ne_zero

section Refinement

variable {list : List Ignore} {p : Policy}

theorem Refines.exists (h : Refines list p) (mask : Bytes) : ignoreExists list mask = p (rfcFold.key mask) := by
  cases hp : p (rfcFold.key mask) with
  | some ig =>
    have hkey := h.keyed _ ig hp
    have hmem := (h.mem ig).2 (by rw [hkey, hp])
    exact (h.distinct.find?_iff (sameMask_iff mask)).2 ⟨hmem, (sameMask_iff mask ig).2 hkey⟩
  | none =>
    rw [ignoreExists, List.find?_eq_none]
    intro ig hig hsame
    have hmem := (h.mem ig).1 hig
    rw [(sameMask_iff mask ig).1 hsame, hp] at hmem
    cases hmem

/-- An entry is written for one mask. -/
theorem refines_update {list' : List Ignore} {mask : Bytes} {entry : Option Ignore} (h : Refines list p)
    (hdistinct : DistinctKeys (fun ig : Ignore => rfcFold.key ig.mask) list')
    (hentry : ∀ ig, entry = some ig → rfcFold.key ig.mask = rfcFold.key mask)
    (hmem : ∀ ig, ig ∈ list' ↔ ig ∈ list ∧ sameMask mask ig = false ∨ entry = some ig) :
    Refines list' (Function.update p (rfcFold.key mask) entry) where
  distinct := hdistinct
  mem ig := by
    rw [hmem, h.mem]
    by_cases hkey : rfcFold.key ig.mask = rfcFold.key mask
    · have hsame := (sameMask_iff mask ig).2 hkey
      rw [hkey, Function.update_self]
      simp [hsame]
    · have hsame : sameMask mask ig = false := Bool.eq_false_iff.2 fun h => hkey ((sameMask_iff mask ig).1 h)
      rw [Function.update_of_ne hkey]
      have hother : entry ≠ some ig := fun h => hkey (hentry ig h)
      simp [hsame, hother]
  keyed k ig hk := by
    by_cases hkey : k = rfcFold.key mask
    · rw [hkey, Function.update_self] at hk
      rw [hkey]
      exact hentry ig hk
    · rw [Function.update_of_ne hkey] at hk
      exact h.keyed k ig hk

theorem Refines.del (h : Refines list p) (mask : Bytes) : Refines (ignoreDel list mask) (p.del mask) := by
  refine refines_update h (h.distinct.sublist List.eraseP_sublist) (fun ig h => by cases h) fun ig => ?_
  rw [ignoreDel, h.distinct.mem_eraseP (sameMask_iff mask)]
  simp

theorem Refines.add (h : Refines list p) (mask : Bytes) (type : UInt32) (overwrite : Bool) :
    Refines (ignoreAdd list mask type overwrite) (p.add mask type overwrite) := by
  have hexists := h.exists mask
  unfold ignoreAdd Policy.add
  cases hp : p (rfcFold.key mask) with
  | none =>
    rw [hp] at hexists
    rw [hexists]
    have hnone : ∀ ig ∈ list, sameMask mask ig = false := by
      intro ig hig
      have hsearch := List.find?_eq_none.1 hexists ig hig
      rwa [Bool.not_eq_true] at hsearch
    refine refines_update h (List.pairwise_cons.2 ⟨fun ig hig heq => ?_, h.distinct⟩) ?_ fun ig => ?_
    · have hsame := (sameMask_iff mask ig).2 heq.symm
      rw [hnone ig hig] at hsame
      cases hsame
    · rintro ig hig
      rw [← Option.some.inj hig]
    · rw [List.mem_cons, Option.elim_none, Option.some.injEq, eq_comm, or_comm]
      exact or_congr_left ⟨fun hig => ⟨hig, hnone ig hig⟩, fun hig => hig.1⟩
  | some old =>
    rw [hp] at hexists
    rw [hexists]
    have hold := (h.distinct.find?_iff (sameMask_iff mask)).1 hexists
    refine refines_update h ?_ ?_ fun ig => ?_
    · dsimp only
      rw [updateFirst_guard]
      refine h.distinct.updateFirst fun ig => ?_
      by_cases hsame : sameMask mask ig = true
      · rw [if_pos hsame]
        exact ((sameMask_iff mask ig).1 hsame).symm
      · rw [if_neg hsame]
    · rintro ig hig
      rw [← Option.some.inj hig]
    · dsimp only
      rw [h.distinct.mem_updateFirst (sameMask_iff mask), Option.elim_some, Option.some.injEq]
      refine or_congr_right ⟨?_, fun hig => ⟨old, hold.1, hold.2, hig.symm⟩⟩
      rintro ⟨b, hb, hsame, rfl⟩
      have hsearch := (h.distinct.find?_iff (sameMask_iff mask)).2 ⟨hb, hsame⟩
      rw [show list.find? (sameMask mask) = some old from hexists] at hsearch
      rw [Option.some.inj hsearch]

/-- **The verdict** of the list is that of the policy. -/
theorem Refines.check (h : Refines list p) (behind : Bytes → Bytes → Bool) (host : Bytes) (type : UInt32) :
    ignoreCheck behind list host type = true ↔ p.Silences behind host type := by
  have hexists : ∀ q : Ignore → Prop, (∃ ig ∈ list, q ig) ↔ ∃ k ig, p k = some ig ∧ q ig := by
    intro q
    constructor
    · rintro ⟨ig, hig, hq⟩
      exact ⟨_, ig, (h.mem ig).1 hig, hq⟩
    · rintro ⟨k, ig, hk, hq⟩
      exact ⟨ig, (h.mem ig).2 (by rw [h.keyed k ig hk]; exact hk), hq⟩
  unfold ignoreCheck Policy.Silences
  rw [← hexists, ← hexists]
  have hunig : (list.any fun ig =>
      ig.type &&& IG_UNIG != 0 && (ig.type &&& type != 0 && masks behind ig.mask host)) = true ↔
      ∃ ig ∈ list, ig.type &&& IG_UNIG ≠ 0 ∧ ig.type &&& type ≠ 0 ∧ masks behind ig.mask host = true := by
    simp only [List.any_eq_true, Bool.and_eq_true, bne_iff_ne]
  have hany : (list.any fun ig => ig.type &&& type != 0 && masks behind ig.mask host) = true ↔
      ∃ ig ∈ list, ig.type &&& type ≠ 0 ∧ masks behind ig.mask host = true := by
    simp only [List.any_eq_true, Bool.and_eq_true, bne_iff_ne]
  rw [← hunig, ← hany]
  split_ifs with hexception
  · exact iff_of_false not_false fun h => h.2 hexception
  · exact (and_iff_left hexception).symm

end Refinement

/-! ## Restarts -/

/-- A mask that is read as it was written. -/
structure PlainMask (mask : Bytes) : Prop where
  whole : newline ∉ mask
  front : mask.head? ≠ some space
  back : mask.getLast? ≠ some 13
  fits : mask.length ≤ 996
  copied : safeStrcpy mask 1024 = mask

theorem nameish_mask : Nameish (bytes "mask") := List.all_iff_forall_prop.1 (by decide)

theorem nameish_type : Nameish (bytes "type") := List.all_iff_forall_prop.1 (by decide)

section Search

variable {var value : Bytes}

/-- The value is the one that the preferences read. -/
theorem cfgNext_fst (var : Bytes) (fuel : Nat) (cfg : Bytes) :
    (cfgNext var fuel cfg).map Prod.fst = cfgFind var fuel cfg := by
  induction fuel generalizing cfg with
  | zero => rfl
  | succ fuel ih =>
    rw [cfgNext, cfgFind]
    split_ifs with hstart
    · rfl
    · cases (cfg.dropWhile (· ≠ newline)).drop 1 with
      | nil => rfl
      | cons c cfg => exact ih (c :: cfg)

/-- An empty line is passed. -/
theorem cfgNext_newline (hvar : Nameish var) (fuel : Nat) (rest : Bytes) :
    cfgNext var (fuel + 1) (newline :: rest) = if rest = [] then none else cfgNext var fuel rest := by
  have hstart : cfgStarts var (newline :: rest) = false := by
    rw [show newline :: rest = [] ++ newline :: rest from rfl, cfgStarts_append hvar]
    simp [cfgStarts]
  have hline : (newline :: rest).dropWhile (· ≠ newline) = newline :: rest := List.dropWhile_cons_of_neg (by simp)
  rw [cfgNext, hstart, if_neg Bool.false_ne_true, hline, List.drop_succ_cons, List.drop_zero]
  cases rest with
  | nil => rfl
  | cons c rest => rw [if_neg (List.cons_ne_nil _ _)]

/-- The line of the name is found behind empty lines. -/
theorem cfgNext_assign (hvar : Nameish var) (hvalue : newline ∉ value) (rest : Bytes) {k fuel : Nat}
    (hfuel : k < fuel) :
    cfgNext var fuel (List.replicate k newline ++ (assign var value ++ newline :: rest)) =
      some (chomp (value.dropWhile (· = space)), newline :: rest) := by
  induction k generalizing fuel with
  | zero =>
    obtain ⟨fuel, rfl⟩ := Nat.exists_eq_add_one.2 hfuel
    have hstart : cfgStarts var (assign var value ++ newline :: rest) = true := by
      rw [cfgStarts_append hvar, cfgStarts_assign hvar hvar]
    have hdrop : (assign var value ++ newline :: rest).drop var.length = bytes " = " ++ value ++ newline :: rest := by
      rw [assign, List.append_assoc, List.append_assoc, List.drop_left, List.append_assoc]
    have hbreak : newline ∉ bytes " = " ++ value := by
      rw [List.mem_append]
      rintro (hmem | hmem)
      · exact absurd hmem (by decide)
      · exact hvalue hmem
    have hpass : (bytes " = " ++ value).dropWhile (· ≠ newline) = [] :=
      List.dropWhile_eq_nil_iff.2 fun c hc => decide_eq_true fun heq => hbreak (heq ▸ hc)
    rw [List.replicate_zero, List.nil_append, cfgNext, if_pos hstart, hdrop, cfgValue_append hbreak,
      cfgValue_assign hvalue, dropWhile_append_stop (by simp), hpass, List.nil_append]
  | succ k ih =>
    obtain ⟨fuel, rfl⟩ := Nat.exists_eq_add_one.2 (Nat.lt_of_le_of_lt (Nat.zero_le _) hfuel)
    have hrest : List.replicate k newline ++ (assign var value ++ newline :: rest) ≠ [] := by simp
    rw [List.replicate_succ, List.cons_append, cfgNext_newline hvar, if_neg hrest]
    exact ih (by omega)

theorem cfgNext_end (hvar : Nameish var) (k fuel : Nat) : cfgNext var fuel (List.replicate k newline) = none := by
  induction fuel generalizing k with
  | zero => rfl
  | succ fuel ih =>
    cases k with
    | zero => simp [cfgNext, cfgStarts]
    | succ k =>
      rw [List.replicate_succ, cfgNext_newline hvar]
      split_ifs
      · rfl
      · exact ih k

end Search

/-! ## The file is read back -/

section File

variable {ig : Ignore} {list : List Ignore}

theorem ignoreText_eq (h : PlainMask ig.mask) :
    ignoreText ig = assign (bytes "mask") ig.mask ++
      newline :: (assign (bytes "type") (decimal ig.type.toNat) ++ [newline, newline]) := by
  have htype := Inbound.length_decimal_le ig.type
  have hmask := h.fits
  rw [ignoreText, List.take_of_length_le]
  · simp
  · simp only [assign, List.length_append, List.length_cons, List.length_nil, bytes]
    simp
    omega

/-- The type is read as it was written: `%u` of a type from 2 ^ 31 on is a number that `atoi` brings back. -/
theorem type_read (type : UInt32) :
    UInt32.ofInt (atoi (safeStrcpy (chomp ((decimal type.toNat).dropWhile (· = space))) 1024)) = type := by
  have hlength := Inbound.length_decimal_le type
  have hnul : (0 : UInt8) ∉ decimal type.toNat := fun hmem => absurd (toNat_of_mem_decimal hmem).1 (by decide)
  have hascii : ∀ c ∈ decimal type.toNat, Users.utf8Skip c = 1 := fun c hc => by
    have hdigit := toNat_of_mem_decimal hc
    have hlow : c < 0xC0 := UInt8.lt_iff_toNat_lt.2 (by simp only [UInt8.reduceToNat]; omega)
    rw [Users.utf8Skip, if_pos hlow]
  have hcopy : safeStrcpy (decimal type.toNat) 1024 = decimal type.toNat := safeStrcpy_short hnul hascii (by omega)
  have hfront : (decimal type.toNat).head? ≠ some space := fun h =>
    absurd (toNat_of_mem_decimal (List.mem_of_mem_head? h)).1 (by decide)
  have hback : (decimal type.toNat).getLast? ≠ some 13 := fun h =>
    absurd (toNat_of_mem_decimal (List.mem_of_getLast? h)).1 (by decide)
  have hlarge := type.toNat_lt
  have hnumber : type.toNat < 2 ^ 63 := by omega
  have hmod : (type.toNat : Int).bmod (2 ^ 32) % 2 ^ 32 = type.toNat := by
    rw [show (2 : Int) ^ 32 = ((2 ^ 32 : Nat) : Int) from rfl, Int.bmod_emod]
    exact Int.emod_eq_of_lt (by omega) (by omega)
  rw [(read_eq_self_iff _ 1024).2 ⟨hfront, hback, hcopy⟩, atoi_eq, gAsciiStrtoll_decimal hnumber, UInt32.ofInt, hmod]
  simp

theorem ignoreReadNextEntry_text (h : PlainMask ig.mask) (k : Nat) (rest : Bytes) :
    ignoreReadNextEntry (List.replicate k newline ++ (ignoreText ig ++ rest)) =
      some (ig, List.replicate 2 newline ++ rest) := by
  have htype : newline ∉ decimal ig.type.toNat := fun hmem => absurd (toNat_of_mem_decimal hmem).1 (by decide)
  have htext : List.replicate k newline ++ (ignoreText ig ++ rest) = List.replicate k newline ++
      (assign (bytes "mask") ig.mask ++
        newline :: (assign (bytes "type") (decimal ig.type.toNat) ++ newline :: newline :: rest)) := by
    rw [ignoreText_eq h]
    simp
  have hmask := cfgNext_assign nameish_mask h.whole
    (assign (bytes "type") (decimal ig.type.toNat) ++ newline :: newline :: rest)
    (show k < (List.replicate k newline ++ (ignoreText ig ++ rest)).length + 1 by
      rw [List.length_append, List.length_replicate]
      omega)
  have hline := cfgNext_assign nameish_type htype (newline :: rest)
    (show 1 < (newline :: (assign (bytes "type") (decimal ig.type.toNat) ++ newline :: newline :: rest)).length + 1 by
      simp)
  rw [← htext] at hmask
  rw [List.replicate_one, List.singleton_append] at hline
  have hcopy := (read_eq_self_iff ig.mask 1024).2 ⟨h.front, h.back, h.copied⟩
  simp only [ignoreReadNextEntry, hmask, hline, hcopy, type_read]
  rfl

theorem ignoreReadNextEntry_end (k : Nat) : ignoreReadNextEntry (List.replicate k newline) = none := by
  rw [ignoreReadNextEntry, cfgNext_end nameish_mask]

/-- The loop reads the entries in order, each in front of those before it. -/
theorem ignoreLoadLoop_texts (h : ∀ ig ∈ list, PlainMask ig.mask) {fuel : Nat} (hfuel : list.length < fuel) (k : Nat)
    (acc : List Ignore) :
    ignoreLoadLoop fuel (List.replicate k newline ++ list.flatMap ignoreText) acc = list.reverse ++ acc := by
  induction list generalizing fuel k acc with
  | nil =>
    obtain ⟨fuel, rfl⟩ := Nat.exists_eq_add_one.2 hfuel
    rw [List.flatMap_nil, List.append_nil, ignoreLoadLoop, ignoreReadNextEntry_end]
    rfl
  | cons ig list ih =>
    obtain ⟨fuel, rfl⟩ := Nat.exists_eq_add_one.2 (Nat.lt_of_le_of_lt (Nat.zero_le _) hfuel)
    have hread := ignoreReadNextEntry_text (h ig List.mem_cons_self) k (list.flatMap ignoreText)
    rw [List.flatMap_cons, ignoreLoadLoop, hread]
    dsimp only
    rw [ih (fun ig hig => h ig (List.mem_cons_of_mem _ hig)) (by simpa using hfuel), List.reverse_cons,
      List.append_assoc]
    rfl

/-- The entries that are saved. -/
def saved (list : List Ignore) : List Ignore := list.filter fun ig => ig.type &&& IG_NOSAVE == 0

theorem ignoreSave_eq : ignoreSave list = (saved list).flatMap ignoreText := by
  induction list with
  | nil => rfl
  | cons ig list ih =>
    rw [ignoreSave, List.flatMap_cons, ← ignoreSave, ih, saved, saved, List.filter_cons]
    by_cases h : ig.type &&& IG_NOSAVE = 0
    · rw [if_neg (by simp [h]), if_pos (by simp [h]), List.flatMap_cons]
    · rw [if_pos (by simp [h]), if_neg (by simp [h])]
      rfl

theorem length_le_texts (h : ∀ ig ∈ list, PlainMask ig.mask) : list.length ≤ (list.flatMap ignoreText).length := by
  induction list with
  | nil => exact Nat.le_refl 0
  | cons ig list ih =>
    have hrest := ih fun ig hig => h ig (List.mem_cons_of_mem _ hig)
    rw [List.flatMap_cons, ignoreText_eq (h ig List.mem_cons_self)]
    simp only [List.length_append, List.length_cons]
    omega

/-- **The file** gives the saved entries back, the last one first. -/
theorem ignoreLoad_ignoreSave (h : ∀ ig ∈ list, PlainMask ig.mask) :
    ignoreLoad (ignoreSave list) = (saved list).reverse := by
  have hplain : ∀ ig ∈ saved list, PlainMask ig.mask := fun ig hig => h ig (List.mem_of_mem_filter hig)
  have hlength := length_le_texts hplain
  rw [ignoreLoad, ignoreSave_eq]
  have hloop := ignoreLoadLoop_texts hplain (Nat.lt_succ_of_le hlength) 0 []
  rw [List.append_nil] at hloop
  exact hloop

theorem Refines.restart {p : Policy} (h : Refines list p) (hplain : ∀ ig ∈ list, PlainMask ig.mask) :
    Refines (ignoreLoad (ignoreSave list)) p.restart := by
  rw [ignoreLoad_ignoreSave hplain]
  refine ⟨?_, fun ig => ?_, fun k ig hk => ?_⟩
  · refine List.pairwise_reverse.2 ?_
    exact (h.distinct.sublist List.filter_sublist).imp fun hne => hne.symm
  · rw [List.mem_reverse, saved, List.mem_filter, h.mem, Policy.restart, Option.filter_eq_some_iff]
  · exact h.keyed k ig (Option.filter_eq_some_iff.1 hk).1

end File

/-! ## Runs -/

/-- The masks that an operation adds are read as they were written. -/
def Op.Plain : Op → Prop
  | .ignore word _ => PlainMask (ignoreMask word)
  | .add mask _ _ => PlainMask mask
  | _ => True

/-- What holds in a run. -/
structure Kept (list : List Ignore) (p : Policy) : Prop where
  refines : Refines list p
  plain : ∀ ig ∈ list, PlainMask ig.mask

section Runs

variable {list : List Ignore} {p : Policy}

theorem Kept.add (h : Kept list p) {mask : Bytes} (hmask : PlainMask mask) (type : UInt32) (overwrite : Bool) :
    Kept (ignoreAdd list mask type overwrite) (p.add mask type overwrite) := by
  refine ⟨h.refines.add mask type overwrite, fun ig hig => ?_⟩
  unfold ignoreAdd at hig
  cases hexists : ignoreExists list mask with
  | none =>
    rw [hexists] at hig
    rcases List.mem_cons.1 hig with rfl | hig
    · exact hmask
    · exact h.plain ig hig
  | some old =>
    rw [hexists] at hig
    obtain ⟨b, hb, rfl | rfl⟩ := exists_of_mem_updateFirst hig
    · exact h.plain ig hb
    · exact hmask

theorem Kept.del (h : Kept list p) (mask : Bytes) : Kept (ignoreDel list mask) (p.del mask) :=
  ⟨h.refines.del mask, fun ig hig => h.plain ig (List.mem_of_mem_eraseP hig)⟩

theorem Kept.restart (h : Kept list p) : Kept (ignoreLoad (ignoreSave list)) p.restart := by
  refine ⟨h.refines.restart h.plain, fun ig hig => ?_⟩
  rw [ignoreLoad_ignoreSave h.plain, List.mem_reverse] at hig
  exact h.plain ig (List.mem_of_mem_filter hig)

theorem Kept.step (h : Kept list p) {op : Op} (hop : op.Plain) : Kept (op.apply list) (p.apply op) := by
  cases op with
  | ignore word type =>
    rw [Op.apply, Policy.apply]
    split_ifs
    · exact h
    · exact h.add hop type true
  | unignore word => exact h.del _
  | add mask type overwrite => exact h.add hop type overwrite
  | del mask => exact h.del mask
  | restart => exact h.restart

theorem Kept.run (h : Kept list p) {ops : List Op} (hops : ∀ op ∈ ops, op.Plain) :
    Kept (ops.foldl Op.apply list) (ops.foldl Policy.apply p) := by
  induction ops generalizing list p with
  | nil => exact h
  | cons op ops ih =>
    exact ih (h.step (hops op List.mem_cons_self)) fun op hop => hops op (List.mem_cons_of_mem _ hop)

theorem Kept.start : Kept [] fun _ => none :=
  ⟨⟨List.Pairwise.nil, fun ig => by simp, fun k ig hk => by cases hk⟩, fun ig hig => by cases hig⟩

end Runs

/-- **The list is its policy**: after any operations, restarts among them, a message is ignored exactly if the policy
ignores it. -/
theorem ignore_refines {ops : List Op} (hops : ∀ op ∈ ops, op.Plain) (behind : Bytes → Bytes → Bool) (host : Bytes)
    (type : UInt32) :
    ignoreCheck behind (ops.foldl Op.apply []) host type = true ↔
      (ops.foldl Policy.apply fun _ => none).Silences behind host type :=
  (Kept.start.run hops).refines.check behind host type

/-- A nick is ignored, and the client restarts. -/
theorem ignore_refines_ann :
    ignoreCheck (fun _ _ => false) ([.ignore (bytes "ann") 3, .restart].foldl Op.apply []) (bytes "ann!a@b") 1 = true ↔
      ([Op.ignore (bytes "ann") 3, .restart].foldl Policy.apply fun _ => none).Silences (fun _ _ => false)
        (bytes "ann!a@b") 1 := by
  have hmask : ignoreMask (bytes "ann") = bytes "ann!*@*" := by decide
  have hplain : PlainMask (bytes "ann!*@*") :=
    ⟨by decide, by decide, by decide, by decide, safeStrcpy_short (by decide) (List.all_iff_forall_prop.1 (by decide))
      (by decide)⟩
  refine ignore_refines (fun op hop => ?_) _ _ _
  rcases List.mem_cons.1 hop with rfl | hop
  · rw [Op.Plain, hmask]
    exact hplain
  · rw [List.mem_singleton.1 hop]
    trivial

/-! ## Taking an ignore back -/

/-- A word that `/IGNORE` takes for a whole mask, and `/UNIGNORE` for a nick. -/
def Misread (word : Bytes) : Prop := (byte '!' ∈ word ∨ byte '@' ∈ word) ∧ byte '?' ∉ word ∧ byte '*' ∉ word

theorem length_key {mask : Bytes} (h : (0 : UInt8) ∉ mask) : (rfcFold.key mask).length = mask.length := by
  have hwhole : cString mask = mask :=
    List.takeWhile_eq_self_iff.2 fun c hc => decide_eq_true fun heq => h (heq ▸ hc)
  rw [Casefold.key, List.length_map, hwhole]

theorem key_unignoreMask_iff {word : Bytes} (hnul : (0 : UInt8) ∉ word) (hlength : word.length < 4095) :
    rfcFold.key (ignoreMask word) = rfcFold.key (unignoreMask word) ↔ ¬ Misread word := by
  by_cases hwild : byte '?' ∉ word ∧ byte '*' ∉ word
  · by_cases hsign : byte '!' ∈ word ∨ byte '@' ∈ word
    · -- the mask without the added part is shorter
      have hignore : ignoreMask word = word := if_neg fun h => hsign.elim h.1 h.2.1
      have hadded : (0 : UInt8) ∉ (word ++ bytes "!*@*").take 4095 := fun hmem => by
        rcases List.mem_append.1 (List.mem_of_mem_take hmem) with hmem | hmem
        · exact hnul hmem
        · exact absurd hmem (by decide)
      refine iff_of_false (fun heq => ?_) fun h => h ⟨hsign, hwild⟩
      have hlengths := congrArg List.length heq
      rw [hignore, unignoreMask, if_pos hwild, length_key hnul, length_key hadded, List.length_take, List.length_append,
        show (bytes "!*@*").length = 4 from rfl] at hlengths
      omega
    · obtain ⟨hbang, hat⟩ := not_or.1 hsign
      refine iff_of_true ?_ fun h => hsign h.1
      rw [ignoreMask, unignoreMask, if_pos hwild, if_pos ⟨hbang, hat, hwild⟩]
  · refine iff_of_true ?_ fun h => hwild h.2
    rw [ignoreMask, unignoreMask, if_neg hwild, if_neg fun h => hwild h.2.2]

end PoxChat.Ignores
