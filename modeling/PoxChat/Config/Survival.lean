import Mathlib.Data.Bool.AllAny
import PoxChat.Config.File

/-!
# The preferences over a restart

What `load_config` makes of the file that `save_config` wrote.

* `foldl_get_str`, `foldl_get_int` — one variable is read by its own round of the loop.
* `Prefs.StrSurvives`, `Prefs.IntSurvives` — a value that comes back.

Principal result: `restored_iff` — the preferences come back, clamped and cut as `load_config` does, if and only if each
value of the table survives.
-/

set_option autoImplicit false

namespace PoxChat.Config

open Lib Outbound Users Servlist Cap

/-! ## Loading -/

section Loading

variable {cfg : Bytes} {v w : Var}

theorem get_of_ne (prefs : Prefs) (hne : v.name ≠ w.name) :
    (Prefs.get cfg prefs w).str v.name = prefs.str v.name ∧ (Prefs.get cfg prefs w).int v.name = prefs.int v.name := by
  rw [Prefs.get]
  cases w.type with
  | str len =>
    dsimp only
    cases cfgGetStr cfg w.text len with
    | none => exact ⟨rfl, rfl⟩
    | some value => exact ⟨if_neg hne, rfl⟩
  | int =>
    dsimp only
    cases cfgGetInt cfg w.text with
    | none => exact ⟨rfl, rfl⟩
    | some value => exact ⟨rfl, if_neg hne⟩
  | bool =>
    dsimp only
    cases cfgGetInt cfg w.text with
    | none => exact ⟨rfl, rfl⟩
    | some value => exact ⟨rfl, if_neg hne⟩

theorem foldl_get_of_ne (cfg : Bytes) (prefs : Prefs) {l : List Var} (hne : ∀ w ∈ l, v.name ≠ w.name) :
    (l.foldl (Prefs.get cfg) prefs).str v.name = prefs.str v.name ∧
      (l.foldl (Prefs.get cfg) prefs).int v.name = prefs.int v.name := by
  induction l generalizing prefs with
  | nil => exact ⟨rfl, rfl⟩
  | cons w l ih =>
    obtain ⟨hfirst, hrest⟩ := List.forall_mem_cons.1 hne
    obtain ⟨hstr, hint⟩ := ih (Prefs.get cfg prefs w) hrest
    rw [List.foldl_cons, hstr, hint]
    exact get_of_ne prefs hfirst

/-- The other rounds of the loop do not touch what one variable reads. -/
theorem foldl_get (prefs : Prefs) (hv : v ∈ vars) :
    ∃ before : Prefs, before.str v.name = prefs.str v.name ∧ before.int v.name = prefs.int v.name ∧
      (vars.foldl (Prefs.get cfg) prefs).str v.name = (Prefs.get cfg before v).str v.name ∧
      (vars.foldl (Prefs.get cfg) prefs).int v.name = (Prefs.get cfg before v).int v.name := by
  have hnodup : vars.Nodup := List.Nodup.of_map Var.text (List.nodup_cons.1 texts_nodup).2
  have hname : ∀ w ∈ vars, v ≠ w → v.name ≠ w.name := fun w hw hne heq =>
    hne (text_injective hv hw (by rw [Var.text, heq, Var.text]))
  obtain ⟨pre, post, hsplit⟩ := List.append_of_mem hv
  rw [hsplit, List.nodup_middle, List.nodup_cons] at hnodup
  have hother : ∀ w, w ∈ pre ∨ w ∈ post → v.name ≠ w.name := fun w hw => by
    refine hname w (hsplit ▸ ?_) fun heq => hnodup.1 (List.mem_append.2 (heq ▸ hw))
    rw [List.mem_append, List.mem_cons]
    exact hw.imp_right .inr
  obtain ⟨hstr, hint⟩ := foldl_get_of_ne cfg prefs fun w hw => hother w (.inl hw)
  refine ⟨pre.foldl (Prefs.get cfg) prefs, hstr, hint, ?_⟩
  rw [hsplit, List.foldl_append, List.foldl_cons]
  exact foldl_get_of_ne cfg _ fun w hw => hother w (.inr hw)

theorem foldl_get_str (prefs : Prefs) (hv : v ∈ vars) {len : Nat} (htype : v.type = .str len) :
    (vars.foldl (Prefs.get cfg) prefs).str v.name = (cfgGetStr cfg v.text len).getD (prefs.str v.name) := by
  obtain ⟨before, hstr, -, hread, -⟩ := foldl_get prefs hv
  rw [hread, Prefs.get, htype, ← hstr]
  dsimp only
  cases cfgGetStr cfg v.text len with
  | none => rfl
  | some value => exact if_pos rfl

theorem foldl_get_int (prefs : Prefs) (hv : v ∈ vars) (htype : ∀ len, v.type ≠ .str len) :
    (vars.foldl (Prefs.get cfg) prefs).int v.name = (cfgGetInt cfg v.text).getD (prefs.int v.name) := by
  obtain ⟨before, -, hint, -, hread⟩ := foldl_get prefs hv
  rw [hread, Prefs.get, ← hint]
  cases hv' : v.type with
  | str len => exact absurd hv' (htype len)
  | int =>
    dsimp only
    cases cfgGetInt cfg v.text with
    | none => rfl
    | some value => exact if_pos rfl
  | bool =>
    dsimp only
    cases cfgGetInt cfg v.text with
    | none => rfl
    | some value => exact if_pos rfl

end Loading

/-- What becomes of an integer at the end of `load_config`. -/
def clampInt (name : String) (value : Int32) : Int32 :=
  if name = "gui_win_height" then (if value < 138 then 138 else value)
  else if name = "gui_win_width" then (if value < 106 then 106 else value)
  else value

theorem clamp_str (prefs : Prefs) (name : String) :
    prefs.clamp.str name = if name = "irc_user_name" then cutSpace (prefs.str name) else prefs.str name := by
  by_cases hname : name = "irc_user_name"
  · subst hname
    simp only [Prefs.clamp, Prefs.setStr, Prefs.setInt, if_true]
    split <;> split <;> rfl
  · simp only [Prefs.clamp, Prefs.setStr, Prefs.setInt, if_neg hname]
    split <;> split <;> rfl

theorem clamp_int (prefs : Prefs) (name : String) : prefs.clamp.int name = clampInt name (prefs.int name) := by
  have hne : "gui_win_width" ≠ "gui_win_height" := by decide
  rw [clampInt]
  by_cases hheight : name = "gui_win_height"
  · subst hheight
    simp only [Prefs.clamp, Prefs.setStr, Prefs.setInt, if_true]
    split <;> split <;> simp [hne.symm, *]
  · by_cases hwidth : name = "gui_win_width"
    · subst hwidth
      simp only [Prefs.clamp, Prefs.setStr, Prefs.setInt, if_true, if_neg hne]
      split <;> split <;> simp_all
    · simp only [Prefs.clamp, Prefs.setStr, Prefs.setInt, if_neg hheight, if_neg hwidth]
      split <;> split <;> simp [hheight, hwidth]

/-! ## What comes back -/

/-- A string that comes back.  A user name is only wanted up to its first space; a long `text_font` is read with the name
of the next line in place of its last nine bytes, and the next variable keeps its default. -/
def Prefs.StrSurvives (defaults prefs : Prefs) (name : String) (len : Nat) : Prop :=
  if name = "irc_user_name" then
    if cutSpace (prefs.str name) = [] then chomp ((prefs.str name).dropWhile (· = space)) = []
    else cutSpace (safeStrcpy (chomp (prefs.str name)) len) = cutSpace (prefs.str name)
  else if name = "text_font" ∧ prefs.Long then
    (prefs.str name).head? ≠ some space ∧ (prefs.str name).drop 499 = bytes "text_font"
  else if name = "text_font_main" ∧ prefs.Long then prefs.str name = defaults.str name
  else
    (prefs.str name).head? ≠ some space ∧ (prefs.str name).getLast? ≠ some 13 ∧
      safeStrcpy (prefs.str name) len = prefs.str name

/-- An integer that comes back: -1 is written as 1, which only the window size hides. -/
def Prefs.IntSurvives (prefs : Prefs) (name : String) : Prop :=
  prefs.int name = -1 → name = "gui_win_height" ∨ name = "gui_win_width"

def Prefs.Survives (defaults prefs : Prefs) : Prop :=
  ∀ v ∈ vars, match v.type with
    | .str len => Prefs.StrSurvives defaults prefs v.name len
    | _ => prefs.IntSurvives v.name

section Strings

theorem length_chomp_le (str : Bytes) : (chomp str).length ≤ str.length := by
  rw [chomp]
  split
  · rw [List.length_dropLast]
    omega
  · exact Nat.le_refl _

theorem chomp_eq_self {str : Bytes} : chomp str = str ↔ str.getLast? ≠ some 13 := by
  rw [chomp]
  split
  · next hlast =>
    refine ⟨fun heq => ?_, fun hne => absurd hlast hne⟩
    have hlen := congrArg List.length heq
    have hpos : str ≠ [] := fun hnil => by
      rw [hnil] at hlast
      exact absurd hlast (by simp)
    have := List.length_pos_of_ne_nil hpos
    rw [List.length_dropLast] at hlen
    omega
  · next hlast => exact ⟨fun _ => hlast, fun _ => rfl⟩

theorem dropWhile_space_eq_self {str : Bytes} : str.dropWhile (· = space) = str ↔ str.head? ≠ some space := by
  cases str with
  | nil => simp
  | cons c str =>
    rw [List.head?_cons, Ne, Option.some.injEq]
    constructor
    · intro heq hc
      rw [List.dropWhile_cons_of_pos (by simpa using hc)] at heq
      have hlen := congrArg List.length heq
      have := (List.dropWhile_sublist (l := str) (fun c => decide (c = space))).length_le
      rw [List.length_cons] at hlen
      omega
    · exact fun hc => List.dropWhile_cons_of_neg (by simpa using hc)

/-- A string comes back whole if and only if nothing is taken off it. -/
theorem read_eq_self_iff (str : Bytes) (len : Nat) :
    safeStrcpy (chomp (str.dropWhile (· = space))) len = str ↔
      str.head? ≠ some space ∧ str.getLast? ≠ some 13 ∧ safeStrcpy str len = str := by
  rw [← dropWhile_space_eq_self, ← chomp_eq_self]
  constructor
  · intro heq
    have hcopy := length_safeStrcpy_le (chomp (str.dropWhile (· = space))) len
    have hchomp := length_chomp_le (str.dropWhile (· = space))
    have hdrop := (List.dropWhile_sublist (l := str) (fun c => decide (c = space))).length_le
    rw [heq] at hcopy
    have hself : str.dropWhile (· = space) = str := (List.dropWhile_sublist _).eq_of_length (by omega)
    rw [hself] at heq hcopy
    have hlast : chomp str = str := by
      rw [chomp]
      split
      · next hlast =>
        have hpos : str ≠ [] := fun hnil => by
          rw [hnil] at hlast
          exact absurd hlast (by simp)
        have := List.length_pos_of_ne_nil hpos
        rw [chomp, if_pos hlast, List.length_dropLast] at hcopy
        omega
      · rfl
    rw [hlast] at heq
    exact ⟨hself, hlast, heq⟩
  · rintro ⟨hself, hlast, hcopy⟩
    rw [hself, hlast, hcopy]

theorem mem_of_mem_chomp {str : Bytes} {c : UInt8} (h : c ∈ chomp str) : c ∈ str := by
  rw [chomp] at h
  split at h
  · exact (List.dropLast_sublist _).subset h
  · exact h

theorem chomp_append (str : Bytes) {rest : Bytes} (h : rest ≠ []) : chomp (str ++ rest) = str ++ chomp rest := by
  rw [chomp, chomp, List.getLast?_append_of_ne_nil _ h]
  split
  · rw [List.dropLast_append_of_ne_nil h]
  · rfl

/-- The first byte stays when something stays. -/
theorem head?_chomp {str : Bytes} (h : chomp str ≠ []) : (chomp str).head? = str.head? := by
  rw [chomp] at h ⊢
  split at h
  · next hlast =>
    rw [if_pos hlast]
    match str, h with
    | c :: d :: str, _ => rfl
  · next hlast => rw [if_neg hlast]

/-- A user name is wanted up to its first space. -/
theorem cutSpace_read_iff {str : Bytes} (hnul : (0 : UInt8) ∉ str) {len : Nat} (hlen : 7 ≤ len) :
    cutSpace (safeStrcpy (chomp (str.dropWhile (· = space))) len) = cutSpace str ↔
      if cutSpace str = [] then chomp (str.dropWhile (· = space)) = []
      else cutSpace (safeStrcpy (chomp str) len) = cutSpace str := by
  by_cases hcut : cutSpace str = []
  · rw [if_pos hcut, hcut]
    constructor
    · intro hread
      by_contra hne
      -- the first byte that is left is not a space, and is copied
      have hnul' : (0 : UInt8) ∉ chomp (str.dropWhile (· = space)) := fun hmem =>
        hnul ((List.dropWhile_sublist _).subset (mem_of_mem_chomp hmem))
      have hhead := (head?_safeStrcpy hnul' hlen).trans (head?_chomp hne)
      cases hdrop : str.dropWhile (· = space) with
      | nil =>
        rw [hdrop] at hne
        exact hne rfl
      | cons c rest =>
        have hc : c ≠ space := by
          have := List.head?_dropWhile_not (fun c => decide (c = space)) str
          rw [hdrop] at this
          simpa using this
        rw [hdrop, List.head?_cons] at hhead
        rw [hdrop] at hread
        obtain ⟨rest', hrest'⟩ := List.head?_eq_some_iff.1 hhead
        rw [hrest', cutSpace, List.takeWhile_cons_of_pos (by simpa using hc)] at hread
        exact absurd hread (by simp)
    · intro hempty
      have hnil : safeStrcpy [] len = [] := List.eq_nil_of_length_eq_zero (Nat.le_zero.1 (length_safeStrcpy_le [] len))
      rw [hempty, hnil]
      rfl
  · have hhead : str.head? ≠ some space := fun hspace => by
      obtain ⟨rest, rfl⟩ := List.head?_eq_some_iff.1 hspace
      exact hcut (List.takeWhile_cons_of_neg (by simp))
    rw [if_neg hcut, dropWhile_space_eq_self.2 hhead]

/-- A long `text_font` comes back only if it ends as the line does that follows it. -/
theorem textFont_read_iff {str main : Bytes} (hlong : 498 < str.length) (hfit : str.length < 509)
    (hnul : (0 : UInt8) ∉ str) (hnul' : (0 : UInt8) ∉ main) :
    safeStrcpy (chomp ((str.take 499 ++ assign textFontMain.text main).dropWhile (· = space))) 509 = str ↔
      str.head? ≠ some space ∧ str.drop 499 = bytes "text_font" := by
  have hname : assign textFontMain.text main = bytes "text_font_main = " ++ main := by
    have : textFontMain.text ++ bytes " = " = bytes "text_font_main = " := by decide
    rw [assign, this]
  have hlen : (bytes "text_font_main = ").length = 17 := by decide
  have htake : (str.take 499).length = 499 := by
    rw [List.length_take]
    omega
  have hsplit : str.take 499 ++ str.drop 499 = str := List.take_append_drop 499 str
  have hhead : (str.take 499 ++ (bytes "text_font_main = " ++ main)).head? = str.head? := by
    cases str with
    | nil => simp at hlong
    | cons c str => rfl
  have hchomp : chomp (bytes "text_font_main = " ++ main) = bytes "text_font_main = " ++ chomp main := by
    by_cases hmain : main = []
    · subst hmain
      decide
    · exact chomp_append _ hmain
  -- without a space in front, the copy is cut after the first nine bytes of the next line
  have hcopy : safeStrcpy (str.take 499 ++ (bytes "text_font_main = " ++ chomp main)) 509 =
      str.take 499 ++ bytes "text_font" := by
    have hzero : (0 : UInt8) ∉ str.take 499 ++ (bytes "text_font_main = " ++ chomp main) := by
      rw [List.mem_append, List.mem_append]
      rintro (hmem | hmem | hmem)
      · exact hnul (List.mem_of_mem_take hmem)
      · exact absurd hmem (by decide)
      · exact hnul' (mem_of_mem_chomp hmem)
    have hascii : ∀ i < 509, 509 ≤ i + 7 →
        ∀ b ∈ (str.take 499 ++ (bytes "text_font_main = " ++ chomp main))[i]?, Users.utf8Skip b = 1 := by
      intro i hi hlast b hb
      rw [List.getElem?_append_right (by omega), htake, List.getElem?_append_left (by omega)] at hb
      have hall : ∀ b ∈ bytes "text_font_main = ", Users.utf8Skip b = 1 :=
        List.all_iff_forall_prop.1 (by decide)
      exact hall b (List.mem_of_getElem? hb)
    have hnine : (bytes "text_font_main = ").take 9 = bytes "text_font" := by decide
    rw [safeStrcpy_eq_take hzero hascii, List.take_append, htake, List.take_of_length_le (by omega),
      List.take_append_of_le_length (by omega)]
    exact congrArg _ hnine
  have hne : bytes "text_font_main = " ++ main ≠ [] := fun hnil => by
    have := congrArg List.length hnil
    rw [List.length_append, hlen, List.length_nil] at this
    omega
  rw [hname]
  constructor
  · intro hread
    have hspace : str.head? ≠ some space := fun hspace => by
      -- what is read does not begin with a space
      have hletter : bytes "text_font_main = " = 116 :: bytes "ext_font_main = " := by decide
      have hlen' : (bytes "ext_font_main = ").length = 16 := by decide
      have hdrop : (str.take 499 ++ (bytes "text_font_main = " ++ main)).dropWhile (· = space) =
          (str.take 499).dropWhile (· = space) ++ 116 :: (bytes "ext_font_main = " ++ main) := by
        rw [hletter, List.cons_append]
        exact dropWhile_append_stop (by decide) _ _
      have hfirst := List.head?_dropWhile_not (fun c => decide (c = space))
        (str.take 499 ++ (bytes "text_font_main = " ++ main))
      have hleft : chomp ((str.take 499 ++ (bytes "text_font_main = " ++ main)).dropWhile (· = space)) ≠ [] := by
        rw [hdrop, chomp_append _ (by simp)]
        intro hnil
        have hempty := (List.append_eq_nil_iff.1 hnil).2
        have := congrArg List.length hempty
        rw [chomp] at this
        split at this
        · rw [List.length_dropLast, List.length_cons, List.length_append, hlen', List.length_nil] at this
          omega
        · simp at this
      have hzero : (0 : UInt8) ∉ chomp ((str.take 499 ++ (bytes "text_font_main = " ++ main)).dropWhile (· = space)) := by
        intro hmem
        have hmem := (List.dropWhile_sublist _).subset (mem_of_mem_chomp hmem)
        rw [List.mem_append, List.mem_append] at hmem
        rcases hmem with hmem | hmem | hmem
        · exact hnul (List.mem_of_mem_take hmem)
        · exact absurd hmem (by decide)
        · exact hnul' hmem
      have hcopied := (head?_safeStrcpy hzero (show 7 ≤ 509 by decide)).trans (head?_chomp hleft)
      rw [hread, hspace] at hcopied
      rw [← hcopied] at hfirst
      exact absurd hfirst (by decide)
    rw [← hhead] at hspace
    rw [dropWhile_space_eq_self.2 hspace, chomp_append _ hne, hchomp, hcopy] at hread
    rw [hhead] at hspace
    refine ⟨hspace, ?_⟩
    exact (List.append_cancel_left (hread.trans hsplit.symm)).symm
  · rintro ⟨hspace, hend⟩
    rw [← hhead] at hspace
    rw [dropWhile_space_eq_self.2 hspace, chomp_append _ hne, hchomp, hcopy, ← hend, hsplit]

end Strings

/-! ## The restart -/

theorem eq_of_name {v w : Var} (hv : v ∈ vars) (hw : w ∈ vars) (h : v.name = w.name) : v = w :=
  text_injective hv hw (by rw [Var.text, h, Var.text])

set_option maxRecDepth 4000 in
theorem userName_mem : str "irc_user_name" 127 ∈ vars := List.mem_of_getElem? (i := 185) rfl

set_option maxRecDepth 4000 in
theorem winDesktop_mem : int "gui_win_desktop" ∈ vars := List.mem_of_getElem? (i := 112) rfl

section Restart

variable {defaults prefs : Prefs} {v : Var}

/-- One string of the table after a restart. -/
theorem str_restored_iff (h : prefs.Fit) (hv : v ∈ vars) {len : Nat} (htype : v.type = .str len) :
    (loadConfig defaults (saveConfig prefs)).str v.name = prefs.clamp.str v.name ↔
      Prefs.StrSurvives defaults prefs v.name len := by
  have hread : (vars.foldl (Prefs.get (saveConfig prefs)) defaults).str v.name = _ := foldl_get_str defaults hv htype
  have hnul := (h v hv len htype).2.2
  have hwritten : prefs.written v = prefs.str v.name := written_str htype
  rw [loadConfig, clamp_str, clamp_str, hread, cfgGetStr, Prefs.StrSurvives]
  by_cases huser : v.name = "irc_user_name"
  · have hv' : v = str "irc_user_name" 127 := eq_of_name hv userName_mem huser
    have hlen : len = 127 := by
      rw [hv'] at htype
      exact (VarType.str.inj htype).symm
    have hfound := found_other h hv fun _ => by
      rw [hv']
      exact ⟨by decide, by decide⟩
    rw [if_pos huser, if_pos huser, if_pos huser, hfound, hwritten, Option.map_some, Option.getD_some]
    exact cutSpace_read_iff hnul (by omega)
  · rw [if_neg huser, if_neg huser, if_neg huser]
    by_cases hfont : v.name = "text_font" ∧ prefs.Long
    · obtain ⟨hname, hlong⟩ := hfont
      have hv' : v = textFont := eq_of_name hv textFonts_mem.1 hname
      subst hv'
      have hlen : len = 509 := (VarType.str.inj htype).symm
      have hmain := (h textFontMain textFonts_mem.2 _ rfl).2.2
      have hfit := (h textFont hv len htype).1
      rw [if_pos ⟨hname, hlong⟩, found_textFont h hlong, Option.map_some, Option.getD_some, hlen]
      exact textFont_read_iff hlong (by rw [hlen] at hfit; exact hfit) hnul hmain
    · rw [if_neg hfont]
      by_cases hmain : v.name = "text_font_main" ∧ prefs.Long
      · obtain ⟨hname, hlong⟩ := hmain
        have hv' : v = textFontMain := eq_of_name hv textFonts_mem.2 hname
        rw [if_pos ⟨hname, hlong⟩, hv', found_textFontMain h hlong]
        exact eq_comm
      · have hother : prefs.Long → v ≠ textFont ∧ v ≠ textFontMain := fun hlong =>
          ⟨fun heq => hfont ⟨congrArg Var.name heq, hlong⟩, fun heq => hmain ⟨congrArg Var.name heq, hlong⟩⟩
        rw [if_neg hmain, found_other h hv hother, hwritten, Option.map_some, Option.getD_some]
        exact read_eq_self_iff _ _

/-- A number is read as it was written. -/
theorem cfgGetInt_written (h : prefs.Fit) (hv : v ∈ vars) (htype : ∀ len, v.type ≠ .str len) :
    cfgGetInt (saveConfig prefs) v.text = some (if prefs.int v.name = -1 then 1 else prefs.int v.name) := by
  have hother : prefs.Long → v ≠ textFont ∧ v ≠ textFontMain := fun _ =>
    ⟨fun heq => htype (4 * FONTNAMELEN + 1) (by rw [heq]; rfl), fun heq => htype (FONTNAMELEN + 1) (by rw [heq]; rfl)⟩
  have hlen := length_number prefs v
  rw [cfgGetInt, cfgGetStr, found_other h hv hother, written_int htype]
  generalize (if prefs.int v.name = -1 then 1 else prefs.int v.name) = n at hlen ⊢
  have hchar : ∀ c ∈ percentD n.toInt, c ≠ space ∧ c ≠ 13 ∧ Users.utf8Skip c = 1 := by
    intro c hc
    rcases mem_percentD hc with rfl | ⟨hlow, hhigh⟩
    · decide
    · refine ⟨?_, ?_, ?_⟩
      · rintro rfl
        exact absurd hlow (by decide)
      · rintro rfl
        exact absurd hlow (by decide)
      · have : c < 0xC0 := UInt8.lt_iff_toNat_lt.2 (by simp only [UInt8.reduceToNat]; omega)
        rw [Users.utf8Skip, if_pos this]
  have hread : safeStrcpy (percentD n.toInt) 128 = percentD n.toInt := by
    rw [safeStrcpy_eq_take (percentD_whole _).2 fun i _ _ b hb => (hchar b (List.mem_of_getElem? hb)).2.2,
      List.take_of_length_le (by omega)]
  have hself : safeStrcpy (chomp ((percentD n.toInt).dropWhile (· = space))) 128 = percentD n.toInt := by
    refine (read_eq_self_iff _ _).2 ⟨fun hhead => ?_, fun hlast => ?_, hread⟩
    · exact (hchar _ (List.mem_of_mem_head? hhead)).1 rfl
    · exact (hchar _ (List.mem_of_getLast? hlast)).2.1 rfl
  rw [Option.map_some, Option.map_some, hself, atoi_percentD]

/-- One integer of the table after a restart. -/
theorem int_restored_iff (h : prefs.Fit) (hv : v ∈ vars) (htype : ∀ len, v.type ≠ .str len) :
    (loadConfig defaults (saveConfig prefs)).int v.name = prefs.clamp.int v.name ↔ prefs.IntSurvives v.name := by
  rw [loadConfig, clamp_int, clamp_int, foldl_get_int defaults hv htype, cfgGetInt_written h hv htype,
    Option.getD_some, Prefs.IntSurvives]
  by_cases hminus : prefs.int v.name = -1
  · rw [if_pos hminus, hminus]
    simp only [clampInt, forall_const]
    by_cases hheight : v.name = "gui_win_height"
    · simp only [hheight, if_true, true_or, iff_true]
      decide
    · by_cases hwidth : v.name = "gui_win_width"
      · simp only [hwidth, if_true, or_true, iff_true]
        decide
      · simp only [hheight, hwidth, if_false, or_self, iff_false]
        decide
  · rw [if_neg hminus]
    exact ⟨fun _ hcontra => absurd hcontra hminus, fun _ => rfl⟩

/-- **The preferences come back**, clamped and cut as `load_config` does, if and only if each value survives. -/
theorem restored_iff (h : prefs.Fit) : Prefs.Restored defaults prefs ↔ Prefs.Survives defaults prefs := by
  refine forall₂_congr fun v hv => ?_
  cases htype : v.type with
  | str len => exact str_restored_iff h hv htype
  | int => exact int_restored_iff h hv (by simp [htype])
  | bool => exact int_restored_iff h hv (by simp [htype])

end Restart

/-- A user with a name of two words, and one value for everything else. -/
def ann : Prefs := ⟨fun name => if name = "irc_user_name" then bytes "a b" else bytes "x,", fun _ => 7⟩

/-- The same, on no desktop yet. -/
def annAnywhere : Prefs := ann.setInt "gui_win_desktop" (-1)

theorem len_bounds : ∀ v ∈ vars, ∀ len, v.type = .str len → 4 ≤ len := by
  have hall : (vars.all fun v => match v.type with
      | .str len => 4 ≤ len
      | _ => true) = true := by decide
  intro v hv len htype
  have := List.all_eq_true.1 hall v hv
  rw [htype] at this
  exact of_decide_eq_true this

theorem ann_str (name : String) : ann.str name = bytes "a b" ∧ name = "irc_user_name" ∨ ann.str name = bytes "x," := by
  by_cases hname : name = "irc_user_name"
  · exact .inl ⟨if_pos hname, hname⟩
  · exact .inr (if_neg hname)

theorem ann_fit : ann.Fit := by
  intro v hv len htype
  have hlen := len_bounds v hv len htype
  rcases ann_str v.name with ⟨hstr, -⟩ | hstr <;> rw [hstr]
  · exact ⟨by simp [bytes]; omega, by decide⟩
  · exact ⟨by simp [bytes]; omega, by decide⟩

theorem annAnywhere_fit : annAnywhere.Fit := ann_fit

theorem safeStrcpy_short {str : Bytes} (hnul : (0 : UInt8) ∉ str) (hascii : ∀ c ∈ str, Users.utf8Skip c = 1) {len : Nat}
    (hlen : str.length < len) : safeStrcpy str len = str := by
  rw [safeStrcpy_eq_take hnul fun i _ _ b hb => hascii b (List.mem_of_getElem? hb), List.take_of_length_le (by omega)]

theorem ann_survives : Prefs.Survives ann ann := by
  intro v hv
  cases htype : v.type with
  | int => exact fun hminus => absurd hminus (show ¬ (7 : Int32) = -1 by decide)
  | bool => exact fun hminus => absurd hminus (show ¬ (7 : Int32) = -1 by decide)
  | str len =>
    have hlen := len_bounds v hv len htype
    show Prefs.StrSurvives ann ann v.name len
    have hfont := (ann_str "text_font").resolve_left fun h => absurd h.2 (by decide)
    have hshort : ¬ ann.Long := by
      rw [Prefs.Long, hfont]
      decide
    rw [Prefs.StrSurvives]
    rcases ann_str v.name with ⟨hstr, hname⟩ | hstr
    · have hcut : cutSpace (ann.str v.name) = bytes "a" := by rw [hstr]; decide
      have hcopy : safeStrcpy (bytes "a b") len = bytes "a b" :=
        safeStrcpy_short (by decide) (List.all_iff_forall_prop.1 (by decide)) (by simp [bytes]; omega)
      have hchomp : chomp (bytes "a b") = bytes "a b" := by decide
      rw [if_pos hname, if_neg (by rw [hcut]; decide), hcut, hstr, hchomp, hcopy]
      decide
    · have hname : v.name ≠ "irc_user_name" := fun hname => by
        have hann : ann.str "irc_user_name" = bytes "a b" := by simp [ann]
        rw [hname, hann] at hstr
        exact absurd hstr (by decide)
      have hcopy : safeStrcpy (bytes "x,") len = bytes "x," :=
        safeStrcpy_short (by decide) (List.all_iff_forall_prop.1 (by decide)) (by simp [bytes]; omega)
      rw [if_neg hname, if_neg fun hlong => hshort hlong.2, if_neg fun hlong => hshort hlong.2, hstr]
      exact ⟨by decide, by decide, hcopy⟩

theorem ann_restored : Prefs.Restored ann ann := (restored_iff ann_fit).2 ann_survives

/-- A desktop that is not known yet is written as desktop 1. -/
theorem desktop_not_restored : annAnywhere.Fit ∧ ¬ Prefs.Restored ann annAnywhere := by
  refine ⟨annAnywhere_fit, fun hrestored => ?_⟩
  have hint := hrestored (int "gui_win_desktop") winDesktop_mem
  have hminus : annAnywhere.int (int "gui_win_desktop").name = -1 := by
    simp [annAnywhere, Prefs.setInt, int]
  have hsurvives := (int_restored_iff annAnywhere_fit winDesktop_mem (by simp [int])).1 hint hminus
  exact absurd hsurvives (by decide)

end PoxChat.Config
