import Mathlib.Data.List.Find
import PoxChat.Config.Preferences
import PoxChat.Lib.Keyed
import PoxChat.Servlist.Restart

/-!
# What is found in the file of the preferences

* `cfgStarts_assign` — a line begins with the name of its own variable only.
* `cfgFind_lines` — a file of lines is searched line by line.
* `Prefs.entries` — the lines of the file that `save_config` writes.  A `text_font` of more than 498 bytes fills the buffer
  of `cfg_put_str` and loses its newline, and takes the line of `text_font_main` with it.

Principal results: `found_other`, `found_textFont`, `found_textFontMain` — what `cfg_get_str` finds under each name.
-/

set_option autoImplicit false

namespace PoxChat.Config

open Lib Outbound Users Servlist Cap

/-! ## Names -/

/-- A string of name characters, as the names of the table are. -/
def Nameish (text : Bytes) : Prop := ∀ c ∈ text, isNameChar c = true

theorem isNameChar_iff {c : UInt8} :
    isNameChar c = true ↔ (97 ≤ c.toNat ∧ c.toNat ≤ 122) ∨ (48 ≤ c.toNat ∧ c.toNat ≤ 57) ∨ c.toNat = 95 := by
  have h95 : c = 95 ↔ c.toNat = 95 := by
    rw [← UInt8.toNat_inj]
    rfl
  simp only [isNameChar, Bool.or_eq_true, Bool.and_eq_true, decide_eq_true_eq, beq_iff_eq, UInt8.le_iff_toNat_le,
    UInt8.reduceToNat, h95, or_assoc]

theorem Nameish.ne {text : Bytes} (h : Nameish text) {b : UInt8} (hb : isNameChar b = false) : b ∉ text := fun hmem => by
  rw [h b hmem] at hb
  exact absurd hb (by decide)

theorem asciiTolower_nameChar {c : UInt8} (h : isNameChar c = true) : asciiTolower c = c := by
  rw [asciiTolower, if_neg]
  rintro ⟨hlow, hhigh⟩
  rw [UInt8.le_iff_toNat_le] at hlow hhigh
  rw [isNameChar_iff] at h
  simp only [UInt8.reduceToNat] at hlow hhigh
  omega

theorem Nameish.map_lower {text : Bytes} (h : Nameish text) : text.map asciiTolower = text := by
  conv_rhs => rw [← List.map_id text]
  exact List.map_congr_left fun c hc => asciiTolower_nameChar (h c hc)

theorem append_space_injective {a b x y : Bytes} (ha : space ∉ a) (hb : space ∉ b)
    (h : a ++ space :: x = b ++ space :: y) : a = b := by
  have hcut : ∀ {c z : Bytes}, space ∉ c → (c ++ space :: z).takeWhile (· ≠ space) = c := fun {c z} hc => by
    have hpass : ∀ d ∈ c, decide (d ≠ space) = true := fun d hd => decide_eq_true fun heq => hc (heq ▸ hd)
    rw [List.takeWhile_append_of_pos hpass, List.takeWhile_cons_of_neg (by simp), List.append_nil]
  rw [← hcut ha, h, hcut hb]

/-- A line is the first one for its own name only. -/
theorem cfgStarts_assign {var text : Bytes} (hvar : Nameish var) (htext : Nameish text) (value : Bytes) :
    cfgStarts var (assign text value) = true ↔ var = text := by
  have hspace : asciiTolower space = space := rfl
  have hline : (assign text value).map asciiTolower =
      text ++ space :: (bytes "= " ++ value).map asciiTolower := by
    have hsign : bytes " = " = space :: bytes "= " := rfl
    rw [assign, hsign, List.append_assoc, List.cons_append, List.map_append, List.map_cons, htext.map_lower, hspace]
  rw [cfgStarts, List.isPrefixOf_iff_prefix, List.map_append, hvar.map_lower, List.map_singleton, hspace, hline]
  constructor
  · rintro ⟨rest, hrest⟩
    rw [List.append_assoc, List.singleton_append] at hrest
    exact append_space_injective (hvar.ne (by decide)) (htext.ne (by decide)) hrest
  · rintro rfl
    exact ⟨(bytes "= " ++ value).map asciiTolower, by simp⟩

/-! ## Lines -/

section Lines

variable {var : Bytes}

theorem prefix_of_not_mem {p l rest : Bytes} {b : UInt8} (hb : b ∉ p) (h : p <+: l ++ b :: rest) : p <+: l := by
  rcases Nat.lt_or_ge l.length p.length with hlong | hshort
  · -- a longer string would reach the byte it does not hold
    have hreach : l ++ [b] <+: p := by
      have hwhole : l ++ [b] <+: l ++ b :: rest := ⟨rest, by simp⟩
      refine List.prefix_of_prefix_length_le hwhole h ?_
      rw [List.length_append, List.length_singleton]
      omega
    exact absurd (hreach.subset (by simp)) hb
  · exact List.prefix_of_prefix_length_le h (List.prefix_append _ _) hshort

theorem cfgStarts_append (hvar : Nameish var) (line rest : Bytes) :
    cfgStarts var (line ++ newline :: rest) = cfgStarts var line := by
  have hbreak : newline ∉ (var ++ [space]).map asciiTolower := by
    rw [List.map_append, hvar.map_lower, List.mem_append]
    rintro (hmem | hmem)
    · exact hvar.ne (by decide) hmem
    · exact absurd hmem (by decide)
  have hmap : (line ++ newline :: rest).map asciiTolower =
      line.map asciiTolower ++ newline :: rest.map asciiTolower := by
    rw [List.map_append, List.map_cons]
    rfl
  rw [Bool.eq_iff_iff, cfgStarts, cfgStarts, List.isPrefixOf_iff_prefix, List.isPrefixOf_iff_prefix, hmap]
  exact ⟨prefix_of_not_mem hbreak, fun hprefix => hprefix.trans (List.prefix_append _ _)⟩

theorem dropWhile_append_stop {p : UInt8 → Bool} {b : UInt8} (hb : p b = false) (l rest : Bytes) :
    (l ++ b :: rest).dropWhile p = l.dropWhile p ++ b :: rest := by
  induction l with
  | nil => rw [List.nil_append, List.dropWhile_cons_of_neg (by simp [hb])]; rfl
  | cons c l ih =>
    rw [List.cons_append, List.dropWhile_cons, List.dropWhile_cons, ih]
    split <;> rfl

theorem takeWhile_append_stop {b : UInt8} {l : Bytes} (hb : b ∉ l) (rest : Bytes) :
    (l ++ b :: rest).takeWhile (· ≠ b) = l := by
  have hpass : ∀ c ∈ l, decide (c ≠ b) = true := fun c hc => decide_eq_true fun heq => hb (heq ▸ hc)
  rw [List.takeWhile_append_of_pos hpass, List.takeWhile_cons_of_neg (by simp), List.append_nil]

theorem takeWhile_ne_eq_self {b : UInt8} {l : Bytes} (hb : b ∉ l) : l.takeWhile (· ≠ b) = l :=
  List.takeWhile_eq_self_iff.2 fun _ hc => decide_eq_true fun heq => hb (heq ▸ hc)

/-- What a line says, from behind the name, does not depend on the lines after it. -/
theorem cfgValue_append {line : Bytes} (hline : newline ∉ line) (rest : Bytes) :
    cfgValue (line ++ newline :: rest) = cfgValue line := by
  have hskip : ∀ l : Bytes, (if (l ++ newline :: rest).head? = some (byte '=') then (l ++ newline :: rest).drop 1
      else l ++ newline :: rest) = (if l.head? = some (byte '=') then l.drop 1 else l) ++ newline :: rest := fun l => by
    cases l with
    | nil => rw [List.nil_append, List.head?_cons, if_neg (by decide)]; rfl
    | cons c l =>
      rw [List.cons_append, List.head?_cons, List.head?_cons]
      split <;> rfl
  have hrest : newline ∉ (if (line.dropWhile (· = space)).head? = some (byte '=') then
      (line.dropWhile (· = space)).drop 1 else line.dropWhile (· = space)).dropWhile (· = space) := by
    intro hmem
    have hmem := (List.dropWhile_sublist _).subset hmem
    split at hmem
    · exact hline ((List.dropWhile_sublist _).subset ((List.drop_sublist _ _).subset hmem))
    · exact hline ((List.dropWhile_sublist _).subset hmem)
  have hstop : ∀ l : Bytes, (l ++ newline :: rest).dropWhile (· = space) =
      l.dropWhile (· = space) ++ newline :: rest := fun l => dropWhile_append_stop (by decide) l rest
  simp only [cfgValue, hstop, hskip, takeWhile_append_stop hrest, takeWhile_ne_eq_self hrest]

theorem cfgValue_assign {value : Bytes} (hvalue : newline ∉ value) :
    cfgValue (bytes " = " ++ value) = chomp (value.dropWhile (· = space)) := by
  have hsign : bytes " = " = [space, byte '=', space] := rfl
  have hrest : newline ∉ value.dropWhile (· = space) := fun hmem => hvalue ((List.dropWhile_sublist _).subset hmem)
  have hfirst : (bytes " = " ++ value).dropWhile (· = space) = byte '=' :: space :: value := by
    rw [hsign]
    rfl
  have hsecond : (space :: value).dropWhile (· = space) = value.dropWhile (· = space) :=
    List.dropWhile_cons_of_pos (by simp)
  simp only [cfgValue, hfirst, List.head?_cons, if_true, List.drop_succ_cons, List.drop_zero, hsecond,
    takeWhile_ne_eq_self hrest]

/-- A file of lines is searched line by line. -/
theorem cfgFind_lines (hvar : Nameish var) {lines : List Bytes} (h : ∀ line ∈ lines, newline ∉ line) {fuel : Nat}
    (hfuel : lines.length < fuel) :
    cfgFind var fuel (lines.flatMap (· ++ [newline])) =
      (lines.find? (cfgStarts var)).map fun line => cfgValue (line.drop var.length) := by
  induction lines generalizing fuel with
  | nil =>
    obtain ⟨fuel, rfl⟩ : ∃ n, fuel = n + 1 := ⟨fuel - 1, by omega⟩
    have hempty : cfgStarts var [] = false := by
      rw [cfgStarts]
      cases var <;> rfl
    simp [cfgFind, hempty]
  | cons line lines ih =>
    obtain ⟨fuel, rfl⟩ : ∃ n, fuel = n + 1 := ⟨fuel - 1, by omega⟩
    obtain ⟨hline, hrest⟩ := List.forall_mem_cons.1 h
    rw [List.flatMap_cons, List.append_assoc, List.singleton_append, cfgFind, cfgStarts_append hvar]
    cases hstarts : cfgStarts var line with
    | true =>
      have hlen : var.length ≤ line.length := by
        rw [cfgStarts, List.isPrefixOf_iff_prefix] at hstarts
        have := hstarts.length_le
        rw [List.length_map, List.length_map, List.length_append] at this
        omega
      have hdrop : newline ∉ line.drop var.length := fun hmem => hline ((List.drop_sublist _ _).subset hmem)
      rw [if_pos rfl, List.find?_cons_of_pos hstarts, List.drop_append_of_le_length hlen, cfgValue_append hdrop]
      rfl
    | false =>
      have hnext : ((line ++ newline :: lines.flatMap (· ++ [newline])).dropWhile (· ≠ newline)).drop 1 =
          lines.flatMap (· ++ [newline]) := by
        have hpass : ∀ c ∈ line, decide (c ≠ newline) = true := fun c hc => decide_eq_true fun heq => hline (heq ▸ hc)
        rw [List.dropWhile_append_of_pos hpass, List.dropWhile_cons_of_neg (by simp), List.drop_succ_cons,
          List.drop_zero]
      rw [if_neg (by simp), List.find?_cons_of_neg (by simp [hstarts]), hnext]
      cases lines with
      | nil => rfl
      | cons line' lines =>
        have hcons : ∃ c cfg, (line' :: lines).flatMap (· ++ [newline]) = c :: cfg := by
          refine List.exists_cons_of_ne_nil fun hnil => ?_
          rw [List.flatMap_cons] at hnil
          simp at hnil
        obtain ⟨c, cfg, hcfg⟩ := hcons
        have hlen : (line' :: lines).length < fuel := by
          rw [List.length_cons] at hfuel
          omega
        rw [← ih hrest hlen, hcfg]

end Lines

/-! ## The lines of the file -/

/-- The value `save_config` puts into the line of a variable. -/
def Prefs.written (prefs : Prefs) (v : Var) : Bytes :=
  match v.type with
  | .str _ => prefs.str v.name
  | _ => percentD (if prefs.int v.name = -1 then 1 else prefs.int v.name).toInt

/-- `text_font` has no room for its newline. -/
def Prefs.Long (prefs : Prefs) : Prop := 498 < (prefs.str "text_font").length

instance (prefs : Prefs) : Decidable prefs.Long := inferInstanceAs (Decidable (_ < _))

set_option maxRecDepth 4000 in
theorem vars_split : vars = vars.take 214 ++ textFont :: textFontMain :: vars.drop 216 := rfl

/-- The names at the beginnings of the lines, and what follows the sign. -/
def Prefs.entries (prefs : Prefs) : List (Bytes × Bytes) :=
  (bytes "version", PACKAGE_VERSION) ::
    if prefs.Long then
      (vars.take 214).map (fun v => (v.text, prefs.written v)) ++
        (textFont.text, (prefs.str "text_font").take 499 ++ assign textFontMain.text (prefs.str "text_font_main")) ::
          (vars.drop 216).map fun v => (v.text, prefs.written v)
    else vars.map fun v => (v.text, prefs.written v)

section Entries

variable {prefs : Prefs}

theorem written_str {v : Var} {len : Nat} (h : v.type = .str len) : prefs.written v = prefs.str v.name := by
  rw [Prefs.written, h]

theorem written_int {v : Var} (h : ∀ len, v.type ≠ .str len) :
    prefs.written v = percentD (if prefs.int v.name = -1 then 1 else prefs.int v.name).toInt := by
  rw [Prefs.written]
  split
  · next len heq => exact absurd heq (h len)
  · rfl

theorem length_number (prefs : Prefs) (v : Var) :
    (percentD (if prefs.int v.name = -1 then 1 else prefs.int v.name).toInt).length ≤ 20 := by
  have hlo := (if prefs.int v.name = -1 then 1 else prefs.int v.name).le_toInt
  have hhi := (if prefs.int v.name = -1 then 1 else prefs.int v.name).toInt_lt
  exact length_percentD_le (by omega) (by omega)

theorem written_whole (h : prefs.Fit) {v : Var} (hv : v ∈ vars) : Whole (prefs.written v) := by
  rw [Prefs.written]
  cases htype : v.type with
  | str len => exact (h v hv len htype).2
  | int => exact percentD_whole _
  | bool => exact percentD_whole _

theorem length_line (h : prefs.Fit) {v : Var} (hv : v ∈ vars) (hfont : v = textFont → ¬ prefs.Long) :
    (assign v.text (prefs.written v)).length < 511 := by
  have hsign : (bytes " = ").length = 3 := rfl
  have hname := (text_facts hv).1
  have hnumber := length_number prefs v
  rw [assign, List.length_append, List.length_append, hsign]
  by_cases hstr : ∃ len, v.type = .str len
  · obtain ⟨len, htype⟩ := hstr
    have hlen := (h v hv len htype).1
    rw [written_str htype]
    by_cases hv' : v = textFont
    · subst hv'
      have hshort := hfont rfl
      have htext : textFont.text.length = 9 := by decide
      rw [Prefs.Long, Nat.not_lt] at hshort
      have : (prefs.str textFont.name).length ≤ 498 := hshort
      omega
    · have hroom := roomy_of_ne hv hv'
      rw [Var.roomy, htype] at hroom
      have := of_decide_eq_true hroom
      omega
  · rw [written_int fun len htype => hstr ⟨len, htype⟩]
    omega

theorem put_eq (h : prefs.Fit) {v : Var} (hv : v ∈ vars) (hfont : v = textFont → ¬ prefs.Long) :
    prefs.put v = assign v.text (prefs.written v) ++ [newline] := by
  have hlen := length_line h hv hfont
  have hname := (text_facts hv).1
  have hsign : (bytes " = ").length = 3 := rfl
  have hnumber : (assign v.text (percentD (if prefs.int v.name = -1 then 1 else prefs.int v.name).toInt) ++
      [newline]).length ≤ 399 := by
    have := length_number prefs v
    rw [List.length_append, assign, List.length_append, List.length_append, hsign, List.length_singleton]
    omega
  rw [Prefs.put]
  cases htype : v.type with
  | str len =>
    rw [written_str htype] at hlen ⊢
    refine List.take_of_length_le ?_
    rw [List.length_append, List.length_singleton]
    exact hlen
  | int =>
    rw [written_int (by simp [htype])]
    exact List.take_of_length_le hnumber
  | bool =>
    rw [written_int (by simp [htype])]
    exact List.take_of_length_le hnumber

theorem flatMap_put (h : prefs.Fit) {l : List Var} (hl : ∀ v ∈ l, v ∈ vars ∧ (v = textFont → ¬ prefs.Long)) :
    l.flatMap prefs.put =
      (l.map fun v => (v.text, prefs.written v)).flatMap fun e => assign e.1 e.2 ++ [newline] := by
  rw [List.flatMap_map]
  exact List.flatMap_congr fun v hv => put_eq h (hl v hv).1 (hl v hv).2

/-- A long `text_font` fills the buffer of `cfg_put_str`. -/
theorem put_textFont (hlong : prefs.Long) :
    prefs.put textFont = assign textFont.text ((prefs.str "text_font").take 499) := by
  have htext : (textFont.text ++ bytes " = ").length = 12 := by decide
  have hput : prefs.put textFont = (assign textFont.text (prefs.str "text_font") ++ [newline]).take 511 := rfl
  have hlen : (511 - (textFont.text ++ bytes " = ").length) = 499 := by rw [htext]
  have hroom : 499 ≤ (prefs.str "text_font").length := hlong
  rw [hput, assign, assign, List.append_assoc, List.take_append, hlen, List.take_append_of_le_length hroom,
    List.take_of_length_le (by omega)]

theorem textFonts_mem : textFont ∈ vars ∧ textFontMain ∈ vars := by
  rw [vars_split]
  simp

theorem textFonts_nodup : textFont ∉ vars.take 214 ++ vars.drop 216 ∧ textFontMain ∉ vars.take 214 ++ vars.drop 216 ∧
    textFontMain ≠ textFont := by
  have hnodup : vars.Nodup := List.Nodup.of_map Var.text (List.nodup_cons.1 texts_nodup).2
  rw [vars_split, List.nodup_middle, List.nodup_cons] at hnodup
  obtain ⟨hfont, hrest⟩ := hnodup
  rw [List.nodup_middle, List.nodup_cons] at hrest
  rw [List.mem_append, List.mem_cons] at hfont
  rw [List.mem_append]
  refine ⟨fun hmem => hfont (hmem.imp_right .inr), hrest.1, fun heq => hfont (.inr (.inl heq.symm))⟩

/-- The file is made of these lines. -/
theorem saveConfig_eq (h : prefs.Fit) :
    saveConfig prefs = (prefs.entries.map fun e => assign e.1 e.2).flatMap (· ++ [newline]) := by
  have hversion : cfgPutStr (bytes "version") PACKAGE_VERSION =
      assign (bytes "version") PACKAGE_VERSION ++ [newline] := by decide
  rw [List.flatMap_map, saveConfig, hversion, Prefs.entries, List.flatMap_cons]
  by_cases hlong : prefs.Long
  · obtain ⟨hfont, hmain, hne⟩ := textFonts_nodup
    have hother : ∀ v ∈ vars.take 214 ++ vars.drop 216, v ∈ vars ∧ (v = textFont → ¬ prefs.Long) := fun v hv => by
      refine ⟨?_, fun heq => absurd (heq ▸ hv) hfont⟩
      rcases List.mem_append.1 hv with hv | hv
      · exact List.mem_of_mem_take hv
      · exact List.mem_of_mem_drop hv
    have hwritten : prefs.written textFontMain = prefs.str "text_font_main" := rfl
    have hflat : vars.flatMap prefs.put = (vars.take 214).flatMap prefs.put ++
        (prefs.put textFont ++ (prefs.put textFontMain ++ (vars.drop 216).flatMap prefs.put)) := by
      conv_lhs => rw [vars_split]
      rw [List.flatMap_append, List.flatMap_cons, List.flatMap_cons]
    rw [if_pos hlong, hflat, flatMap_put h fun v hv => hother v (List.mem_append_left _ hv),
      flatMap_put h fun v hv => hother v (List.mem_append_right _ hv), put_textFont hlong,
      put_eq h textFonts_mem.2 fun heq => absurd heq hne, hwritten, List.flatMap_append, List.flatMap_cons]
    simp only [assign, List.append_assoc]
  · rw [if_neg hlong, flatMap_put h fun v hv => ⟨hv, fun _ => hlong⟩]

theorem version_nameish : Nameish (bytes "version") ∧ Whole PACKAGE_VERSION :=
  ⟨List.all_eq_true.1 (by decide), by decide⟩

theorem entries_facts (h : prefs.Fit) : ∀ e ∈ prefs.entries, Nameish e.1 ∧ newline ∉ e.2 := by
  have hvar : ∀ v ∈ vars, Nameish v.text ∧ newline ∉ prefs.written v := fun v hv =>
    ⟨(text_facts hv).2, (written_whole h hv).1⟩
  have hmap : ∀ l : List Var, (∀ v ∈ l, v ∈ vars) → ∀ e ∈ l.map (fun v => (v.text, prefs.written v)),
      Nameish e.1 ∧ newline ∉ e.2 := fun l hl e he => by
    obtain ⟨v, hv, rfl⟩ := List.mem_map.1 he
    exact hvar v (hl v hv)
  rw [Prefs.entries, List.forall_mem_cons]
  refine ⟨⟨version_nameish.1, version_nameish.2.1⟩, ?_⟩
  split
  · obtain ⟨hfont, hmain⟩ := textFonts_mem
    rw [List.forall_mem_append, List.forall_mem_cons]
    refine ⟨hmap _ fun v hv => List.mem_of_mem_take hv, ⟨(hvar _ hfont).1, ?_⟩,
      hmap _ fun v hv => List.mem_of_mem_drop hv⟩
    have hstr : newline ∉ prefs.str "text_font" := (hvar _ hfont).2
    have hstr' : newline ∉ prefs.str "text_font_main" := (hvar _ hmain).2
    have hname : newline ∉ textFontMain.text := Nameish.ne (hvar _ hmain).1 (by decide)
    have hsign : newline ∉ bytes " = " := by decide
    rw [assign, List.mem_append, List.mem_append, List.mem_append]
    rintro (hmem | (hmem | hmem) | hmem)
    · exact hstr (List.mem_of_mem_take hmem)
    · exact hname hmem
    · exact hsign hmem
    · exact hstr' hmem
  · exact hmap _ fun v hv => hv

theorem entries_distinct (prefs : Prefs) : DistinctKeys Prod.fst prefs.entries := by
  have hfst : ∀ l : List Var, (l.map fun v => (v.text, prefs.written v)).map Prod.fst = l.map Var.text := fun l => by
    rw [List.map_map]
    rfl
  rw [DistinctKeys.iff_map, Prefs.entries, List.map_cons]
  refine List.Nodup.sublist ?_ texts_nodup
  refine List.Sublist.cons_cons _ ?_
  split
  · conv_rhs => rw [vars_split]
    rw [List.map_append, List.map_cons, hfst, hfst, List.map_append, List.map_cons, List.map_cons]
    exact (List.Sublist.refl _).append (((List.Sublist.refl _).cons _).cons_cons _)
  · rw [hfst]

/-- What is found under a name is the value of its entry. -/
theorem cfgFind_entries (h : prefs.Fit) {v : Var} (hv : v ∈ vars) :
    cfgFind v.text ((saveConfig prefs).length + 1) (saveConfig prefs) =
      (prefs.entries.find? fun e => e.1 = v.text).map fun e => chomp (e.2.dropWhile (· = space)) := by
  have hname : Nameish v.text := (text_facts hv).2
  have hentries := entries_facts h
  have hlines : ∀ line ∈ prefs.entries.map fun e => assign e.1 e.2, newline ∉ line := fun line hline => by
    obtain ⟨e, he, rfl⟩ := List.mem_map.1 hline
    obtain ⟨htext, hvalue⟩ := hentries e he
    have hsign : newline ∉ bytes " = " := by decide
    rw [assign, List.mem_append, List.mem_append]
    rintro ((hmem | hmem) | hmem)
    · exact htext.ne (by decide) hmem
    · exact hsign hmem
    · exact hvalue hmem
  have hfuel : (prefs.entries.map fun e => assign e.1 e.2).length < (saveConfig prefs).length + 1 := by
    rw [saveConfig_eq h]
    exact Nat.lt_succ_of_le (length_le_flatMap_sep _)
  rw [saveConfig_eq h] at hfuel ⊢
  rw [cfgFind_lines hname hlines hfuel, List.find?_map, Option.map_map]
  have hstarts : ∀ e ∈ prefs.entries, (cfgStarts v.text ∘ fun e => assign e.1 e.2) e = decide (e.1 = v.text) :=
    fun e he => by
      rw [Bool.eq_iff_iff, Function.comp_apply, cfgStarts_assign hname (hentries e he).1, decide_eq_true_iff, eq_comm]
  rw [List.find?_congr hstarts]
  cases hfind : prefs.entries.find? fun e => decide (e.1 = v.text) with
  | none => rfl
  | some e =>
    have htext : e.1 = v.text := by simpa using List.find?_some hfind
    have hvalue := (hentries e (List.mem_of_find?_eq_some hfind)).2
    rw [Option.map_some, Option.map_some, Function.comp_apply, assign, List.append_assoc, htext, List.drop_left,
      cfgValue_assign hvalue]

theorem find_entry {e : Bytes × Bytes} (he : e ∈ prefs.entries) :
    (prefs.entries.find? fun e' => e'.1 = e.1) = some e :=
  ((entries_distinct prefs).find?_iff fun _ => decide_eq_true_iff).2 ⟨he, decide_eq_true rfl⟩

/-- Every other line is there, and is the line of its variable. -/
theorem found_other (h : prefs.Fit) {v : Var} (hv : v ∈ vars)
    (hfont : prefs.Long → v ≠ textFont ∧ v ≠ textFontMain) :
    cfgFind v.text ((saveConfig prefs).length + 1) (saveConfig prefs) =
      some (chomp ((prefs.written v).dropWhile (· = space))) := by
  have hentry : (v.text, prefs.written v) ∈ prefs.entries := by
    rw [Prefs.entries, List.mem_cons]
    refine .inr ?_
    split
    · next hlong =>
      obtain ⟨hne, hne'⟩ := hfont hlong
      rw [vars_split, List.mem_append, List.mem_cons, List.mem_cons] at hv
      rw [List.mem_append, List.mem_cons, List.mem_map, List.mem_map]
      rcases hv with hv | rfl | rfl | hv
      · exact .inl ⟨v, hv, rfl⟩
      · exact absurd rfl hne
      · exact absurd rfl hne'
      · exact .inr (.inr ⟨v, hv, rfl⟩)
    · exact List.mem_map.2 ⟨v, hv, rfl⟩
  rw [cfgFind_entries h hv, find_entry hentry]
  rfl

/-- A long `text_font` is read with the line after it. -/
theorem found_textFont (h : prefs.Fit) (hlong : prefs.Long) :
    cfgFind textFont.text ((saveConfig prefs).length + 1) (saveConfig prefs) =
      some (chomp (((prefs.str "text_font").take 499 ++
        assign textFontMain.text (prefs.str "text_font_main")).dropWhile (· = space))) := by
  have hentry : (textFont.text, (prefs.str "text_font").take 499 ++
      assign textFontMain.text (prefs.str "text_font_main")) ∈ prefs.entries := by
    rw [Prefs.entries, if_pos hlong, List.mem_cons, List.mem_append, List.mem_cons]
    exact .inr (.inr (.inl rfl))
  rw [cfgFind_entries h textFonts_mem.1, find_entry hentry]
  rfl

/-- After a long `text_font` there is no line of `text_font_main`. -/
theorem found_textFontMain (h : prefs.Fit) (hlong : prefs.Long) :
    cfgFind textFontMain.text ((saveConfig prefs).length + 1) (saveConfig prefs) = none := by
  obtain ⟨-, hmain, hne⟩ := textFonts_nodup
  obtain ⟨hfont, hmem⟩ := textFonts_mem
  have hother : ∀ v ∈ vars.take 214 ++ vars.drop 216, v.text ≠ textFontMain.text := fun v hv heq => by
    have hv' : v ∈ vars := (List.mem_append.1 hv).elim List.mem_of_mem_take List.mem_of_mem_drop
    rw [text_injective hv' hmem heq] at hv
    exact hmain hv
  rw [cfgFind_entries h hmem, Option.map_eq_none_iff, List.find?_eq_none, Prefs.entries, if_pos hlong,
    List.forall_mem_cons, List.forall_mem_append, List.forall_mem_cons]
  simp only [List.forall_mem_map, decide_eq_true_eq]
  refine ⟨fun heq => ?_, fun v hv => hother v (List.mem_append_left _ hv), fun heq => ?_,
    fun v hv => hother v (List.mem_append_right _ hv)⟩
  · exact (List.nodup_cons.1 texts_nodup).1 (List.mem_map.2 ⟨textFontMain, hmem, heq.symm⟩)
  · exact hne (text_injective hfont hmem heq).symm

end Entries

end PoxChat.Config
