import Mathlib.Data.List.Forall2
import PoxChat.Modes.Live

/-!
# Displays of mode strings

When two readings of a mode string, which may give its letters other arguments, are displayed alike.

* `Token.Alike` — two readings of a letter that are displayed alike.
* `SameText` — the displays compared event for event; names are compared where they are printed.
* `Separated` — arguments that can be told from the names they end up in: names are joined by spaces, and words have
  none.

Results: `display_eq_iff` and `sameText_iff` — displays are equal exactly when every letter is read alike;
`unsigned_ne`, `longer_ne` — mode strings whose displays never are.
-/

set_option autoImplicit false

namespace PoxChat.Modes

open Lib
open Outbound (Bytes)
open Inbound (wholeChars wholeChars_append_inj)

/-! ## Event for event -/

/-- Two arguments that are displayed alike, for two spellings of the channel. -/
def Shown.Alike (chan chan' arg arg' : Bytes) : Shown → Prop
  | .grouped _ => arg = arg'
  | .event _ withArg => withArg = true → arg = arg'
  | .generic => arg = arg' ∧ chan = chan'

/-- Two readings of a sign or letter that are displayed alike. -/
def Token.Alike (supportsq : Bool) (chan chan' : Bytes) : Token → Token → Prop
  | .sign, .sign => True
  | .mode s c arg, .mode s' c' arg' => s = s' ∧ c = c' ∧ (showing supportsq s c).Alike chan chan' arg arg'
  | _, _ => False

instance (chan chan' arg arg' : Bytes) (shown : Shown) : Decidable (shown.Alike chan chan' arg arg') :=
  match shown with
  | .grouped _ => inferInstanceAs (Decidable (_ = _))
  | .event _ _ => inferInstanceAs (Decidable (_ → _))
  | .generic => inferInstanceAs (Decidable (_ ∧ _))

instance (supportsq : Bool) (chan chan' : Bytes) (t t' : Token) : Decidable (t.Alike supportsq chan chan' t') :=
  match t, t' with
  | .sign, .sign => .isTrue trivial
  | .mode _ _ _, .mode _ _ _ => inferInstanceAs (Decidable (_ ∧ _ ∧ _))
  | .sign, .mode _ _ _ => .isFalse id
  | .mode _ _ _, .sign => .isFalse id

/-- The same sign or letter, with any argument. -/
def Token.Same : Token → Token → Prop
  | .sign, .sign => True
  | .mode s c _, .mode s' c' _ => s = s' ∧ c = c'
  | _, _ => False

section Display

variable {supportsq : Bool} {sess : Nat} {nick chan chan' : Bytes}

/-- The displays of two readings, event for event; the names are compared where they are printed. -/
def SameText (supportsq : Bool) (chan chan' : Bytes) : ModeRun → ModeRun → List Token → List Token → Prop
  | mr, mr', .sign :: ts, .sign :: ts' => mr = mr' ∧ SameText supportsq chan chan' noNames noNames ts ts'
  | mr, mr', .mode s c arg :: ts, .mode _ _ arg' :: ts' =>
    match showing supportsq s c with
    | .grouped slot => SameText supportsq chan chan' (mr.cat slot arg) (mr'.cat slot arg') ts ts'
    | .event _ withArg => (withArg = true → arg = arg') ∧ SameText supportsq chan chan' mr mr' ts ts'
    | .generic => genText chan arg = genText chan' arg' ∧ SameText supportsq chan chan' mr mr' ts ts'
  | mr, mr', _, _ => mr = mr'

/-- Names have been collected for the same slots. -/
def SameSlots (mr mr' : ModeRun) : Prop := ∀ slot, (mr slot).isSome = (mr' slot).isSome

theorem SameSlots.cat {mr mr' : ModeRun} (h : SameSlots mr mr') (slot : Slot) (a b : Bytes) :
    SameSlots (mr.cat slot a) (mr'.cat slot b) := by
  intro s
  unfold ModeRun.cat
  split
  · cases mr s <;> cases mr' s <;> rfl
  · exact h s

theorem length_modePrintGrouped {mr mr' : ModeRun} (h : SameSlots mr mr') :
    (modePrintGrouped sess nick mr).length = (modePrintGrouped sess nick mr').length := by
  unfold modePrintGrouped
  rw [List.length_filterMap_eq_countP, List.length_filterMap_eq_countP]
  refine List.countP_congr fun slot _ => ?_
  rw [Option.isSome_map, Option.isSome_map, h slot]

/-- What is printed shows the names. -/
theorem modePrintGrouped_inj {mr mr' : ModeRun} (h : SameSlots mr mr')
    (heq : modePrintGrouped sess nick mr = modePrintGrouped sess nick mr') : mr = mr' := by
  have hmem : ∀ (mr : ModeRun) slot names, mr slot = some names ↔
      (⟨sess, slot.event, [nick, names]⟩ : Emitted) ∈ modePrintGrouped sess nick mr := by
    intro mr slot names
    unfold modePrintGrouped
    rw [List.mem_filterMap]
    constructor
    · intro hs
      exact ⟨slot, by cases slot <;> simp, by rw [hs]; rfl⟩
    · rintro ⟨slot', -, hs⟩
      obtain ⟨names', hs', he⟩ := Option.map_eq_some_iff.1 hs
      obtain ⟨-, hevent, hargs⟩ := Emitted.mk.inj he
      obtain rfl : slot' = slot := by cases slot <;> cases slot' <;> first | rfl | cases hevent
      obtain rfl : names' = names := by simpa using hargs
      exact hs'
  funext slot
  cases hs : mr slot with
  | none =>
    have hnone := h slot
    rw [hs] at hnone
    exact (Option.not_isSome_iff_eq_none.1 (by simp [← hnone])).symm
  | some names => exact (((hmem mr' slot names).2 (heq ▸ (hmem mr slot names).1 hs))).symm

/-- **Displays are compared event for event.** -/
theorem display_eq_iff {ts ts' : List Token} (hsame : List.Forall₂ Token.Same ts ts') : ∀ mr mr', SameSlots mr mr' →
    (display supportsq sess nick chan mr ts = display supportsq sess nick chan' mr' ts' ↔
      SameText supportsq chan chan' mr mr' ts ts') := by
  induction hsame with
  | nil =>
    intro mr mr' hslots
    exact ⟨modePrintGrouped_inj hslots, fun h => h ▸ rfl⟩
  | @cons t t' ts ts' ht _ ih =>
    intro mr mr' hslots
    cases t with
    | sign =>
      cases t' with
      | mode s c arg => exact ht.elim
      | sign =>
        rw [display, display, SameText]
        constructor
        · intro h
          obtain ⟨hgroups, hrest⟩ := List.append_inj h (length_modePrintGrouped hslots)
          exact ⟨modePrintGrouped_inj hslots hgroups, (ih noNames noNames fun _ => rfl).1 hrest⟩
        · rintro ⟨rfl, hrest⟩
          rw [(ih noNames noNames fun _ => rfl).2 hrest]
    | mode s c arg =>
      cases t' with
      | sign => exact ht.elim
      | mode s' c' arg' =>
        obtain ⟨rfl, rfl⟩ := ht
        rw [display, display, SameText]
        cases showing supportsq s c with
        | grouped slot => exact ih _ _ (hslots.cat slot arg arg')
        | event e withArg =>
          dsimp only
          rw [List.cons.injEq, ih mr mr' hslots]
          refine and_congr_left fun _ => ?_
          cases withArg <;> simp
        | generic =>
          dsimp only
          rw [List.cons.injEq, ih mr mr' hslots]
          simp

/-- Names that differ now and however they go on. -/
def Apart (names names' : Bytes) : Prop := names ≠ names' ∧ ∀ r r', names ++ 32 :: r ≠ names' ++ 32 :: r'

theorem Apart.extend {names names' : Bytes} (h : Apart names names') (a b : Bytes) :
    Apart (names ++ [32] ++ a) (names' ++ [32] ++ b) := by
  constructor
  · intro heq
    exact h.2 a b (by simpa using heq)
  · intro r r' heq
    exact h.2 (a ++ 32 :: r) (b ++ 32 :: r') (by simpa using heq)

/-- Two words are apart from the start, and behind the same names. -/
theorem apart_cat {a b : Bytes} (ha : wholeChars 0 a = true) (hb : wholeChars 0 b = true) (hne : a ≠ b)
    (names : Option Bytes) : ∃ x y, modeCat names a = some x ∧ modeCat names b = some y ∧ Apart x y := by
  have hwords : Apart a b := ⟨hne, fun r r' heq => hne (wholeChars_append_inj a 0 ha hb heq).1⟩
  cases names with
  | none => exact ⟨a, b, rfl, rfl, hwords⟩
  | some names =>
    refine ⟨_, _, rfl, rfl, fun heq => hne ?_, fun r r' heq => ?_⟩
    · simpa using heq
    · exact hwords.2 r r' (by simpa using heq)

/-- Names that are apart are seen. -/
theorem not_sameText_of_apart {ts ts' : List Token} (hsame : List.Forall₂ Token.Same ts ts') :
    ∀ mr mr', (∃ slot x y, mr slot = some x ∧ mr' slot = some y ∧ Apart x y) →
      ¬ SameText supportsq chan chan' mr mr' ts ts' := by
  induction hsame with
  | nil =>
    rintro mr mr' ⟨slot, x, y, hx, hy, hapart⟩ h
    rw [SameText] at h
    · exact hapart.1 (Option.some.inj (by rw [← hx, ← hy, h]))
    · nofun
    · nofun
  | @cons t t' ts ts' ht _ ih =>
    rintro mr mr' ⟨slot, x, y, hx, hy, hapart⟩ h
    cases t with
    | sign =>
      cases t' with
      | mode s c arg => exact ht
      | sign =>
        obtain ⟨rfl, -⟩ := h
        exact hapart.1 (Option.some.inj (hx.symm.trans hy))
    | mode s c arg =>
      cases t' with
      | sign => exact ht
      | mode s' c' arg' =>
        rw [SameText] at h
        cases hshow : showing supportsq s c with
        | grouped slot' =>
          rw [hshow] at h
          refine ih _ _ ?_ h
          by_cases hslot : slot = slot'
          · subst hslot
            refine ⟨slot, x ++ [32] ++ arg, y ++ [32] ++ arg', ?_, ?_, hapart.extend arg arg'⟩
            · simp [ModeRun.cat, hx, modeCat]
            · simp [ModeRun.cat, hy, modeCat]
          · exact ⟨slot, x, y, by simp [ModeRun.cat, hslot, hx], by simp [ModeRun.cat, hslot, hy], hapart⟩
        | event e withArg =>
          rw [hshow] at h
          exact ih mr mr' ⟨slot, x, y, hx, hy, hapart⟩ h.2
        | generic =>
          rw [hshow] at h
          exact ih mr mr' ⟨slot, x, y, hx, hy, hapart⟩ h.2

theorem ModeRun.cat_right_inj {mr mr' : ModeRun} (hslots : SameSlots mr mr') {slot : Slot} {arg : Bytes}
    (h : mr.cat slot arg = mr'.cat slot arg) : mr = mr' := by
  funext s
  have hs := congrFun h s
  have hsome := hslots s
  unfold ModeRun.cat at hs
  split_ifs at hs
  · revert hs hsome
    cases mr s <;> cases mr' s <;> simp [modeCat]
  · exact hs

theorem ModeRun.cat_left_inj {mr : ModeRun} {slot : Slot} {a b : Bytes} (h : mr.cat slot a = mr.cat slot b) :
    a = b := by
  have hs := congrFun h slot
  unfold ModeRun.cat at hs
  rw [if_pos rfl, if_pos rfl] at hs
  revert hs
  cases mr slot <;> simp [modeCat]

/-- Before the same tokens, names that differ are seen. -/
theorem names_eq_of_sameText (ts : List Token) : ∀ mr mr', SameSlots mr mr' →
    SameText supportsq chan chan' mr mr' ts ts → mr = mr' := by
  induction ts with
  | nil => exact fun mr mr' _ h => h
  | cons t ts ih =>
    intro mr mr' hslots h
    cases t with
    | sign => exact h.1
    | mode s c arg =>
      rw [SameText] at h
      cases hshow : showing supportsq s c with
      | grouped slot =>
        rw [hshow] at h
        exact ModeRun.cat_right_inj hslots (ih _ _ (hslots.cat slot arg arg) h)
      | event e withArg =>
        rw [hshow] at h
        exact ih mr mr' hslots h.2
      | generic =>
        rw [hshow] at h
        exact ih mr mr' hslots h.2

/-- Two readings whose arguments can be told from the names they are in: they are the same, or both words, or what
follows is the same. -/
inductive Separated : List Token → List Token → Prop where
  | nil : Separated [] []
  | sign {ts ts' : List Token} : Separated ts ts' → Separated (.sign :: ts) (.sign :: ts')
  | same {ts ts' : List Token} (s c : UInt8) (arg : Bytes) :
    Separated ts ts' → Separated (.mode s c arg :: ts) (.mode s c arg :: ts')
  | words {ts ts' : List Token} (s c : UInt8) {arg arg' : Bytes} : wholeChars 0 arg = true → wholeChars 0 arg' = true →
    Separated ts ts' → Separated (.mode s c arg :: ts) (.mode s c arg' :: ts')
  | last (s c : UInt8) (arg arg' : Bytes) (ts : List Token) :
    Separated (.mode s c arg :: ts) (.mode s c arg' :: ts)

theorem forall₂_same_self (ts : List Token) : List.Forall₂ Token.Same ts ts := by
  refine List.forall₂_same.2 fun t _ => ?_
  cases t with
  | sign => trivial
  | mode s c arg => exact ⟨rfl, rfl⟩

theorem Separated.same_skeleton {ts ts' : List Token} (h : Separated ts ts') : List.Forall₂ Token.Same ts ts' := by
  induction h with
  | nil => exact .nil
  | sign _ ih => exact .cons trivial ih
  | same _ _ _ _ ih => exact .cons ⟨rfl, rfl⟩ ih
  | words _ _ _ _ _ ih => exact .cons ⟨rfl, rfl⟩ ih
  | last s c arg arg' ts => exact .cons ⟨rfl, rfl⟩ (forall₂_same_self ts)

/-- Channels of one length: a generic mode shows both the spelling and the argument. -/
theorem genText_inj (hlen : chan.length = chan'.length) {arg arg' : Bytes} :
    genText chan arg = genText chan' arg' ↔ arg = arg' ∧ chan = chan' := by
  unfold genText
  constructor
  · intro h
    split_ifs at h with ha hb hb
    · exact ⟨ha.trans hb.symm, h⟩
    · have := congrArg List.length h
      simp at this
      omega
    · have := congrArg List.length h
      simp at this
      omega
    · rw [List.append_assoc, List.append_assoc] at h
      obtain ⟨hchan, harg⟩ := List.append_inj h hlen
      exact ⟨by simpa using harg, hchan⟩
  · rintro ⟨rfl, rfl⟩
    rfl

/-- One letter: what is compared at once, or the names it is added to. -/
theorem sameText_mode (hlen : chan.length = chan'.length) (s c : UInt8) {arg arg' : Bytes} {ts ts' : List Token}
    {mr : ModeRun}
    (hgroup : ∀ slot, SameText supportsq chan chan' (mr.cat slot arg) (mr.cat slot arg') ts ts' → arg = arg')
    (ih : ∀ mr, SameText supportsq chan chan' mr mr ts ts' ↔
      List.Forall₂ (Token.Alike supportsq chan chan') ts ts') :
    SameText supportsq chan chan' mr mr (.mode s c arg :: ts) (.mode s c arg' :: ts') ↔
      List.Forall₂ (Token.Alike supportsq chan chan') (.mode s c arg :: ts) (.mode s c arg' :: ts') := by
  have halike : Token.Alike supportsq chan chan' (.mode s c arg) (.mode s c arg') ↔
      (showing supportsq s c).Alike chan chan' arg arg' := by simp [Token.Alike]
  rw [SameText, List.forall₂_cons, halike]
  cases showing supportsq s c with
  | grouped slot =>
    dsimp only [Shown.Alike]
    constructor
    · intro h
      obtain rfl := hgroup slot h
      exact ⟨rfl, (ih _).1 h⟩
    · rintro ⟨rfl, h⟩
      exact (ih _).2 h
  | event e withArg => exact and_congr_right fun _ => ih mr
  | generic => exact and_congr (genText_inj hlen) (ih mr)

theorem sameText_self (hlen : chan.length = chan'.length) (ts : List Token) : ∀ mr,
    SameText supportsq chan chan' mr mr ts ts ↔ List.Forall₂ (Token.Alike supportsq chan chan') ts ts := by
  induction ts with
  | nil => exact fun mr => iff_of_true rfl .nil
  | cons t ts ih =>
    intro mr
    cases t with
    | sign =>
      rw [SameText, List.forall₂_cons, ih]
      exact and_congr_left fun _ => iff_of_true rfl trivial
    | mode s c arg => exact sameText_mode hlen s c (fun _ _ => rfl) ih

/-- **Readings are displayed alike** exactly when every letter is. -/
theorem sameText_iff (hlen : chan.length = chan'.length) {ts ts' : List Token} (h : Separated ts ts') : ∀ mr,
    SameText supportsq chan chan' mr mr ts ts' ↔ List.Forall₂ (Token.Alike supportsq chan chan') ts ts' := by
  induction h with
  | nil => exact fun mr => iff_of_true rfl .nil
  | sign _ ih =>
    intro mr
    rw [SameText, List.forall₂_cons, ih]
    exact and_congr_left fun _ => iff_of_true rfl trivial
  | same s c arg h ih => exact fun mr => sameText_mode hlen s c (fun _ _ => rfl) ih
  | @words ts ts' s c arg arg' harg harg' h ih =>
    intro mr
    refine sameText_mode hlen s c (fun slot htext => ?_) ih
    -- words that differ stay apart
    by_contra hne
    obtain ⟨x, y, hx, hy, hapart⟩ := apart_cat harg harg' hne (mr slot)
    refine not_sameText_of_apart h.same_skeleton _ _ ⟨slot, x, y, ?_, ?_, hapart⟩ htext
    · rw [ModeRun.cat, if_pos rfl, hx]
    · rw [ModeRun.cat, if_pos rfl, hy]
  | last s c arg arg' ts =>
    intro mr
    refine sameText_mode hlen s c (fun slot htext => ?_) (sameText_self hlen ts)
    have hslots : SameSlots (mr.cat slot arg) (mr.cat slot arg') := SameSlots.cat (fun _ => rfl) slot arg arg'
    exact ModeRun.cat_left_inj (names_eq_of_sameText ts _ _ hslots htext)

/-- Names or letters are displayed. -/
theorem display_ne_nil (ts : List Token) : ∀ mr, (mr ≠ noNames ∨ ∃ t ∈ ts, t ≠ .sign) →
    display supportsq sess nick chan mr ts ≠ [] := by
  have hgroups : ∀ mr, mr ≠ noNames → modePrintGrouped sess nick mr ≠ [] := by
    intro mr hmr h
    apply hmr
    funext slot
    have hnone := List.filterMap_eq_nil_iff.1 h slot (by cases slot <;> simp)
    exact Option.map_eq_none_iff.1 hnone
  induction ts with
  | nil =>
    rintro mr (hmr | ⟨t, ht, -⟩)
    · exact hgroups mr hmr
    · cases ht
  | cons t ts ih =>
    intro mr h
    cases t with
    | sign =>
      rw [display]
      intro hnil
      obtain ⟨hfirst, hrest⟩ := List.append_eq_nil_iff.1 hnil
      rcases h with hmr | ⟨t, ht, hne⟩
      · exact hgroups mr hmr hfirst
      · exact ih noNames (.inr ⟨t, (List.mem_cons.1 ht).resolve_left hne, hne⟩) hrest
    | mode s c arg =>
      rw [display]
      cases showing supportsq s c with
      | grouped slot =>
        refine ih _ (.inl fun hnone => ?_)
        have hslot := congrFun hnone slot
        rw [ModeRun.cat, if_pos rfl] at hslot
        revert hslot
        cases mr slot <;> simp [modeCat, noNames]
      | event e withArg => exact List.cons_ne_nil _ _
      | generic => exact List.cons_ne_nil _ _

theorem modePrintGrouped_noNames : modePrintGrouped sess nick noNames = [] := rfl

/-- A letter before a sign, or at the end, is one event more. -/
theorem length_display_mode (s c : UInt8) (arg : Bytes) {ts : List Token} (hts : ∀ t ∈ ts.head?, t = .sign) :
    (display supportsq sess nick chan noNames (.mode s c arg :: ts)).length =
      (display supportsq sess nick chan noNames ts).length + 1 := by
  rw [display]
  cases showing supportsq s c with
  | event e withArg => rfl
  | generic => rfl
  | grouped slot =>
    have hone : (modePrintGrouped sess nick (noNames.cat slot arg)).length = 1 := by
      cases slot <;> rfl
    cases ts with
    | nil => exact hone
    | cons t ts =>
      obtain rfl := hts t rfl
      dsimp only
      rw [display, display, List.length_append, hone, modePrintGrouped_noNames]
      exact Nat.add_comm _ _

theorem length_display {ts ts' : List Token} (hsame : List.Forall₂ Token.Same ts ts') : ∀ mr mr', SameSlots mr mr' →
    (display supportsq sess nick chan mr ts).length = (display supportsq sess nick chan' mr' ts').length := by
  induction hsame with
  | nil => exact fun mr mr' hslots => length_modePrintGrouped hslots
  | @cons t t' ts ts' ht _ ih =>
    intro mr mr' hslots
    cases t with
    | sign =>
      cases t' with
      | mode s c arg => exact ht.elim
      | sign =>
        rw [display, display, List.length_append, List.length_append, length_modePrintGrouped hslots,
          ih noNames noNames fun _ => rfl]
    | mode s c arg =>
      cases t' with
      | sign => exact ht.elim
      | mode s' c' arg' =>
        obtain ⟨rfl, rfl⟩ := ht
        rw [display, display]
        cases showing supportsq s c with
        | grouped slot => exact ih _ _ (hslots.cat slot arg arg')
        | event e withArg => exact congrArg (· + 1) (ih mr mr' hslots)
        | generic => exact congrArg (· + 1) (ih mr mr' hslots)

end Display

/-! ## Generic modes -/

section Generic

variable {supportsq : Bool} {sess : Nat} {nick chan : Bytes}

theorem isSign_iff {c : UInt8} : isSign c = true ↔ c = 43 ∨ c = 45 := by simp [isSign]

/-- Under anything but a sign, every letter is generic. -/
theorem showing_unsigned {s : UInt8} (hs : isSign s = false) (c : UInt8) : showing supportsq s c = .generic := by
  have h43 : s ≠ 43 := by
    rintro rfl
    cases hs
  have h45 : s ≠ 45 := by
    rintro rfl
    cases hs
  rw [showing, if_neg h43, if_neg h45]

theorem ite_ne {p : Prop} [Decidable p] {a b shown : Shown} (ha : a ≠ shown) (hb : b ≠ shown) :
    (if p then a else b) ≠ shown := by
  by_cases hp : p
  · rwa [if_pos hp]
  · rwa [if_neg hp]

theorem showing_event_ne (s c : UInt8) (withArg : Bool) : showing supportsq s c ≠ .event .chanmodegen withArg := by
  unfold showing
  repeat' apply ite_ne
  all_goals simp

/-- A space is a generic mode. -/
theorem showing_space (s : UInt8) : showing supportsq s 32 = .generic := by
  cases hs : isSign s with
  | false => exact showing_unsigned hs 32
  | true =>
    rcases isSign_iff.1 hs with rfl | rfl
    · cases supportsq <;> decide
    · cases supportsq <;> decide

/-- The letters of a mode string that are displayed as generic modes. -/
def generics (supportsq : Bool) : UInt8 → Bytes → Nat
  | _, [] => 0
  | s, c :: modes =>
    if isSign c then generics supportsq c modes
    else (if showing supportsq s c = .generic then 1 else 0) + generics supportsq s modes

/-- The sign at the end of a mode string. -/
def lastSign : UInt8 → Bytes → UInt8
  | s, [] => s
  | s, c :: modes => if isSign c then lastSign c modes else lastSign s modes

theorem generics_append (modes more : Bytes) : ∀ s, generics supportsq s (modes ++ more) =
    generics supportsq s modes + generics supportsq (lastSign s modes) more := by
  induction modes with
  | nil => intro s; simp [generics, lastSign]
  | cons c modes ih =>
    intro s
    rw [List.cons_append, generics, generics, lastSign]
    split_ifs
    · exact ih c
    · rw [ih s]
      omega
    · rw [ih s]
      omega

theorem generics_space (s : UInt8) (modes : Bytes) : generics supportsq s (32 :: modes) =
    generics supportsq s modes + 1 := by
  rw [generics, if_neg (by decide), if_pos (showing_space s)]
  omega

/-- The events of generic modes. -/
def genericEvents (es : List Emitted) : Nat := es.countP (·.event = .chanmodegen)

theorem genericEvents_grouped (mr : ModeRun) : genericEvents (modePrintGrouped sess nick mr) = 0 := by
  rw [genericEvents, List.countP_eq_zero]
  intro e he
  obtain ⟨slot, -, hs⟩ := List.mem_filterMap.1 he
  obtain ⟨names, -, rfl⟩ := Option.map_eq_some_iff.1 hs
  cases slot <;> simp [Slot.event]

theorem genericEvents_display (takes : UInt8 → UInt8 → Bool) (modes : Bytes) : ∀ s mr args,
    genericEvents (display supportsq sess nick chan mr (tokens takes s args modes)) = generics supportsq s modes := by
  induction modes with
  | nil => exact fun s mr args => genericEvents_grouped mr
  | cons c modes ih =>
    intro s mr args
    have hmode : ∀ arg args, genericEvents
        (display supportsq sess nick chan mr (.mode s c arg :: tokens takes s args modes)) =
          (if showing supportsq s c = .generic then 1 else 0) + generics supportsq s modes := by
      intro arg args
      rw [display]
      cases hshow : showing supportsq s c with
      | grouped slot => simpa using ih s _ args
      | event e withArg =>
        have hne : e ≠ .chanmodegen := by
          rintro rfl
          exact showing_event_ne s c withArg hshow
        rw [genericEvents, List.countP_cons_of_neg (by simpa using hne), ← genericEvents, ih s mr args]
        simp
      | generic =>
        rw [genericEvents, List.countP_cons_of_pos (by simp), ← genericEvents, ih s mr args]
        simp [Nat.add_comm]
    rw [tokens, generics]
    split_ifs with hsign
    · rw [display, genericEvents, List.countP_append, ← genericEvents, ← genericEvents, genericEvents_grouped, ih]
      omega
    all_goals
      rw [hmode]
      simp [*]

/-- A replay starts with a plus: its generic modes all have a sign. -/
theorem signed_display (takes : UInt8 → UInt8 → Bool) (modes : Bytes) : ∀ s mr args, isSign s = true →
    ∀ e ∈ display supportsq sess nick chan mr (tokens takes s args modes), e.event = .chanmodegen →
      ∃ s' c text, isSign s' = true ∧ e.args = [nick, [s'], [c], text] := by
  have hgroups : ∀ mr, ∀ e ∈ modePrintGrouped sess nick mr, e.event ≠ .chanmodegen := by
    intro mr e he
    have := List.countP_eq_zero.1 (genericEvents_grouped mr) e he
    simpa using this
  induction modes with
  | nil =>
    intro s mr args _ e he hevent
    exact absurd hevent (hgroups mr e he)
  | cons c modes ih =>
    intro s mr args hs e he hevent
    have hmode : ∀ arg args, e ∈ display supportsq sess nick chan mr (.mode s c arg :: tokens takes s args modes) →
        ∃ s' c text, isSign s' = true ∧ e.args = [nick, [s'], [c], text] := by
      intro arg args he
      rw [display] at he
      cases hshow : showing supportsq s c with
      | grouped slot =>
        rw [hshow] at he
        exact ih s _ args hs e he hevent
      | event e' withArg =>
        rw [hshow] at he
        rcases List.mem_cons.1 he with rfl | he
        · obtain rfl : e' = .chanmodegen := hevent
          exact absurd hshow (showing_event_ne s c withArg)
        · exact ih s mr args hs e he hevent
      | generic =>
        rw [hshow] at he
        rcases List.mem_cons.1 he with rfl | he
        · exact ⟨s, c, _, hs, rfl⟩
        · exact ih s mr args hs e he hevent
    rw [tokens] at he
    split_ifs at he with hsign
    · rcases List.mem_append.1 he with he | he
      · exact absurd hevent (hgroups mr e he)
      · exact ih c noNames args hsign e he hevent
    · exact hmode _ _ he
    · exact hmode _ _ he

end Generic

/-! ## Arguments -/

/-- The letters of a mode string. -/
def letters (modes : Bytes) : Nat := modes.countP (!isSign ·)

theorem letters_sign {c : UInt8} (hc : isSign c = true) (modes : Bytes) : letters (c :: modes) = letters modes :=
  List.countP_cons_of_neg (by simp [hc])

theorem letters_letter {c : UInt8} (hc : ¬ isSign c = true) (modes : Bytes) :
    letters (c :: modes) = letters modes + 1 :=
  List.countP_cons_of_pos (by simpa using hc)

theorem tokens_sign (takes : UInt8 → UInt8 → Bool) (s : UInt8) (args : List Bytes) {c : UInt8} (hc : isSign c = true)
    (modes : Bytes) : tokens takes s args (c :: modes) = .sign :: tokens takes c args modes := by
  rw [tokens, if_pos hc]

/-- Without arguments every letter is read alone. -/
theorem tokens_letter_nil (takes : UInt8 → UInt8 → Bool) (s : UInt8) {c : UInt8} (hc : ¬ isSign c = true)
    (modes : Bytes) : tokens takes s [] (c :: modes) = .mode s c [] :: tokens takes s [] modes := by
  rw [tokens, if_neg hc, if_neg (by simp)]

theorem tokens_letter_takes {takes : UInt8 → UInt8 → Bool} {s c : UInt8} (hc : ¬ isSign c = true)
    (htakes : takes s c = true) (arg : Bytes) (args : List Bytes) (modes : Bytes) :
    tokens takes s (arg :: args) (c :: modes) = .mode s c arg :: tokens takes s args modes := by
  rw [tokens, if_neg hc, if_pos (by simp [htakes])]
  rfl

theorem tokens_letter_plain {takes : UInt8 → UInt8 → Bool} {s c : UInt8} (hc : ¬ isSign c = true)
    (htakes : ¬ takes s c = true) (args : List Bytes) (modes : Bytes) :
    tokens takes s args (c :: modes) = .mode s c [] :: tokens takes s args modes := by
  rw [tokens, if_neg hc, if_neg (by simp [htakes])]

/-- Where only signs are left, arguments and rules do not matter. -/
theorem tokens_signs (takes : UInt8 → UInt8 → Bool) (modes : Bytes) : ∀ s args, letters modes = 0 →
    tokens takes s args modes = modes.map fun _ => .sign := by
  induction modes with
  | nil => intro s args _; rfl
  | cons c modes ih =>
    intro s args h
    by_cases hc : isSign c = true
    · rw [letters_sign hc] at h
      rw [tokens_sign takes s args hc, ih c args h, List.map_cons]
    · rw [letters_letter hc] at h
      omega

/-- The arguments of the two readings: words, and at the end two texts. -/
inductive ArgPairs : List Bytes → List Bytes → Prop where
  | nil : ArgPairs [] []
  | last (arg arg' : Bytes) : ArgPairs [arg] [arg']
  | word {arg : Bytes} {args args' : List Bytes} :
    wholeChars 0 arg = true → ArgPairs args args' → ArgPairs (arg :: args) (arg :: args')

theorem ArgPairs.length_eq {args args' : List Bytes} (h : ArgPairs args args') : args.length = args'.length := by
  induction h with
  | nil => rfl
  | last _ _ => rfl
  | word _ _ ih => exact congrArg (· + 1) ih

theorem ArgPairs.words {args args' : List Bytes} (h : ArgPairs args args') :
    (∀ arg ∈ args.dropLast, wholeChars 0 arg = true) ∧ ∀ arg ∈ args'.dropLast, wholeChars 0 arg = true := by
  induction h with
  | nil => simp
  | last _ _ => simp
  | @word arg args args' hwhole h ih =>
    have hcons : ∀ rest : List Bytes, (∀ a ∈ rest.dropLast, wholeChars 0 a = true) →
        ∀ a ∈ (arg :: rest).dropLast, wholeChars 0 a = true := by
      intro rest hrest a ha
      cases rest with
      | nil => cases ha
      | cons b rest =>
        rw [List.dropLast_cons_cons] at ha
        rcases List.mem_cons.1 ha with rfl | ha
        · exact hwhole
        · exact hrest a ha
    exact ⟨hcons args ih.1, hcons args' ih.2⟩

section Readings

variable {takes : UInt8 → UInt8 → Bool}

/-- The same rule, in turn. -/
theorem separated_turn (modes : Bytes) : ∀ s args args', ArgPairs args args' →
    Separated (tokens takes s args modes) (tokens takes s args' modes) := by
  induction modes with
  | nil => intro s args args' _; exact .nil
  | cons c modes ih =>
    intro s args args' h
    by_cases hc : isSign c = true
    · rw [tokens_sign takes s args hc, tokens_sign takes s args' hc]
      exact .sign (ih c args args' h)
    by_cases htakes : takes s c = true
    · cases h with
      | nil =>
        rw [tokens_letter_nil takes s hc]
        exact .same s c [] (ih s [] [] .nil)
      | last arg arg' =>
        rw [tokens_letter_takes hc htakes, tokens_letter_takes hc htakes]
        exact .last s c arg arg' _
      | @word arg args args' hwhole h =>
        rw [tokens_letter_takes hc htakes, tokens_letter_takes hc htakes]
        exact .same s c arg (ih s args args' h)
    · rw [tokens_letter_plain hc htakes, tokens_letter_plain hc htakes]
      exact .same s c [] (ih s args args' h)

/-- A letter for each argument against the rule, once the rule has left one out: it will not come to its last
argument. -/
theorem separated_words (modes : Bytes) : ∀ s args args', args.length = letters modes → letters modes < args'.length →
    (∀ arg ∈ args.dropLast, wholeChars 0 arg = true) → (∀ arg ∈ args'.dropLast, wholeChars 0 arg = true) →
    Separated (tokens (fun _ _ => true) s args modes) (tokens takes s args' modes) := by
  induction modes with
  | nil => intro s args args' _ _ _ _; exact .nil
  | cons c modes ih =>
    intro s args args' hlen hlt hwords hwords'
    by_cases hc : isSign c = true
    · rw [letters_sign hc] at hlen hlt
      rw [tokens_sign _ s args hc, tokens_sign _ s args' hc]
      exact .sign (ih c args args' hlen hlt hwords hwords')
    rw [letters_letter hc] at hlen hlt
    obtain ⟨arg, args, rfl⟩ : ∃ arg rest, args = arg :: rest := List.exists_cons_of_length_eq_add_one hlen
    obtain ⟨arg', args', rfl⟩ : ∃ arg rest, args' = arg :: rest := List.exists_cons_of_length_pos (by omega)
    simp only [List.length_cons] at hlen hlt
    rw [tokens_letter_takes hc rfl]
    have hne' : args' ≠ [] := List.ne_nil_of_length_pos (by omega)
    have harg' : wholeChars 0 arg' = true := by
      apply hwords'
      rw [List.dropLast_cons_of_ne_nil hne']
      exact List.mem_cons_self
    have hrest' : ∀ a ∈ args'.dropLast, wholeChars 0 a = true := by
      intro a ha
      apply hwords'
      rw [List.dropLast_cons_of_ne_nil hne']
      exact List.mem_cons_of_mem _ ha
    by_cases hne : args = []
    · -- the last letter
      subst hne
      have hzero : letters modes = 0 := by
        simpa using hlen.symm
      rw [tokens_signs _ modes s [] hzero]
      by_cases htakes : takes s c = true
      · rw [tokens_letter_takes hc htakes, tokens_signs _ modes s args' hzero]
        exact .last s c _ _ _
      · rw [tokens_letter_plain hc htakes, tokens_signs _ modes s _ hzero]
        exact .last s c _ _ _
    have harg : wholeChars 0 arg = true := by
      apply hwords
      rw [List.dropLast_cons_of_ne_nil hne]
      exact List.mem_cons_self
    have hrest : ∀ a ∈ args.dropLast, wholeChars 0 a = true := by
      intro a ha
      apply hwords
      rw [List.dropLast_cons_of_ne_nil hne]
      exact List.mem_cons_of_mem _ ha
    by_cases htakes : takes s c = true
    · rw [tokens_letter_takes hc htakes]
      exact .words s c harg harg' (ih s args args' (by omega) (by omega) hrest hrest')
    · rw [tokens_letter_plain hc htakes]
      exact .words s c harg rfl (ih s args _ (by omega) (by simp only [List.length_cons]; omega) hrest hwords')

/-- A letter for each argument against the rule. -/
theorem separated_all (modes : Bytes) : ∀ s args args', args.length = letters modes → ArgPairs args args' →
    Separated (tokens (fun _ _ => true) s args modes) (tokens takes s args' modes) := by
  induction modes with
  | nil => intro s args args' _ _; exact .nil
  | cons c modes ih =>
    intro s args args' hlen h
    by_cases hc : isSign c = true
    · rw [letters_sign hc] at hlen
      rw [tokens_sign _ s args hc, tokens_sign _ s args' hc]
      exact .sign (ih c args args' hlen h)
    rw [letters_letter hc] at hlen
    cases h with
    | nil => simp at hlen
    | last arg arg' =>
      have hzero : letters modes = 0 := by
        simpa using hlen.symm
      rw [tokens_letter_takes hc rfl, tokens_signs _ modes s [] hzero]
      by_cases htakes : takes s c = true
      · rw [tokens_letter_takes hc htakes, tokens_signs _ modes s [] hzero]
        exact .last s c _ _ _
      · rw [tokens_letter_plain hc htakes, tokens_signs _ modes s _ hzero]
        exact .last s c _ _ _
    | @word arg args args' hwhole h =>
      rw [tokens_letter_takes hc rfl]
      simp only [List.length_cons, Nat.add_right_cancel_iff] at hlen
      by_cases htakes : takes s c = true
      · rw [tokens_letter_takes hc htakes]
        exact .same s c arg (ih s args args' hlen h)
      · -- from here on the rule is behind
        rw [tokens_letter_plain hc htakes]
        have hlen' := h.length_eq
        exact .words s c hwhole rfl (separated_words modes s args (arg :: args') hlen
          (by simp only [List.length_cons]; omega) h.words.1 (ArgPairs.word hwhole h).words.2)

theorem separated_live (serv : Serv) (s : UInt8) (modes : Bytes) {args args' : List Bytes} (h : ArgPairs args args') :
    Separated (liveTokens serv s args modes) (tokens (modeHasArg serv) s args' modes) := by
  unfold liveTokens
  by_cases hall : args.length = modes.countP (!isSign ·)
  · have htakes : (fun s c => decide (args.length = modes.countP (!isSign ·)) || modeHasArg serv s c) =
        fun _ _ => true := by
      funext s c
      simp [hall]
    rw [htakes]
    exact separated_all modes s args args' hall h
  · have htakes : (fun s c => decide (args.length = modes.countP (!isSign ·)) || modeHasArg serv s c) =
        modeHasArg serv := by
      funext s c
      simp [hall]
    rw [htakes]
    exact separated_turn modes s args args' h

end Readings

/-! ## Lines that never read alike -/

section Unlike

variable {supportsq : Bool} {sess : Nat} {nick chan chan' : Bytes} {takes takes' : UInt8 → UInt8 → Bool}

theorem tokens_letter (takes : UInt8 → UInt8 → Bool) (s : UInt8) (args : List Bytes) {c : UInt8}
    (hc : ¬ isSign c = true) (modes : Bytes) :
    ∃ arg rest, tokens takes s args (c :: modes) = .mode s c arg :: tokens takes s rest modes := by
  rw [tokens, if_neg hc]
  split
  · exact ⟨_, _, rfl⟩
  · exact ⟨_, _, rfl⟩

/-- Something is displayed exactly when there is a letter. -/
theorem display_eq_nil_iff (modes : Bytes) : ∀ s args,
    display supportsq sess nick chan noNames (tokens takes s args modes) = [] ↔ letters modes = 0 := by
  induction modes with
  | nil => exact fun s args => iff_of_true rfl rfl
  | cons c modes ih =>
    intro s args
    by_cases hc : isSign c = true
    · rw [tokens_sign takes s args hc, display, modePrintGrouped_noNames, List.nil_append, letters_sign hc]
      exact ih c args
    · obtain ⟨arg, rest, h⟩ := tokens_letter takes s args hc modes
      rw [letters_letter hc]
      refine iff_of_false ?_ (Nat.succ_ne_zero _)
      rw [h]
      exact display_ne_nil _ noNames (.inr ⟨_, List.mem_cons_self, by simp⟩)

/-- The skeleton of tokens is the mode string. -/
theorem tokens_same (modes : Bytes) : ∀ s args args',
    List.Forall₂ Token.Same (tokens takes s args modes) (tokens takes' s args' modes) := by
  induction modes with
  | nil => intro s args args'; exact .nil
  | cons c modes ih =>
    intro s args args'
    by_cases hc : isSign c = true
    · rw [tokens_sign takes s args hc, tokens_sign takes' s args' hc]
      exact .cons trivial (ih c args args')
    · obtain ⟨arg, rest, h⟩ := tokens_letter takes s args hc modes
      obtain ⟨arg', rest', h'⟩ := tokens_letter takes' s args' hc modes
      rw [h, h']
      exact .cons ⟨rfl, rfl⟩ (ih s rest rest')

/-- A letter that stands for a sign is displayed, and only live. -/
theorem unsigned_letter_ne {c d : UInt8} (hc : isSign c = false) (hd : ¬ isSign d = true) (r modes : Bytes)
    (args args' : List Bytes) : display supportsq sess nick chan' noNames (tokens takes' 43 args' r) ≠
      display supportsq sess nick chan noNames (tokens takes c args (d :: modes)) := by
  intro heq
  obtain ⟨arg, rest, htokens⟩ := tokens_letter takes c args hd modes
  rw [htokens, display, showing_unsigned hc] at heq
  dsimp only at heq
  obtain ⟨s, _, text, hs, hargs⟩ := signed_display takes' r 43 noNames args' rfl _
    (by rw [heq]; exact List.mem_cons_self) rfl
  obtain rfl : c = s := by
    have hsigns := congrArg (fun args => args[1]?) hargs
    simpa using hsigns
  rw [hc] at hs
  cases hs

/-- **A mode string without a sign at its front**: live its first letter is taken for the sign, and lost. -/
theorem unsigned_ne {c : UInt8} (hc : isSign c = false) (modes : Bytes) (args args' : List Bytes) :
    display supportsq sess nick chan' noNames (tokens takes' 43 args' (c :: modes)) ≠
      display supportsq sess nick chan noNames (tokens takes c args modes) := by
  have hc' : ¬ isSign c = true := by simp [hc]
  obtain ⟨arg, rest, htokens⟩ := tokens_letter takes' 43 args' hc' modes
  by_cases hfirst : ∃ d more, modes = d :: more ∧ ¬ isSign d = true
  · obtain ⟨d, more, rfl, hd⟩ := hfirst
    exact unsigned_letter_ne hc hd _ more args args'
  · -- the signs that follow are the same, so that one event is missing
    intro heq
    have hlen : (display supportsq sess nick chan' noNames (tokens takes' 43 rest modes)).length =
        (display supportsq sess nick chan noNames (tokens takes c args modes)).length := by
      cases modes with
      | nil => rfl
      | cons d more =>
        have hd : isSign d = true := by
          by_contra hd
          exact hfirst ⟨d, more, rfl, hd⟩
        rw [tokens_sign takes' 43 rest hd, tokens_sign takes c args hd]
        have hsame : List.Forall₂ Token.Same (.sign :: tokens takes' d rest more) (.sign :: tokens takes d args more) :=
          .cons trivial (tokens_same more d rest args)
        exact length_display hsame noNames noNames fun _ => rfl
    have hhead : ∀ t ∈ (tokens takes' 43 rest modes).head?, t = .sign := by
      intro t ht
      cases modes with
      | nil => cases ht
      | cons d more =>
        have hd : isSign d = true := by
          by_contra hd
          exact hfirst ⟨d, more, rfl, hd⟩
        rw [tokens_sign takes' 43 rest hd] at ht
        exact (Option.some.inj ht).symm
    have hone : (display supportsq sess nick chan' noNames (.mode 43 c arg :: tokens takes' 43 rest modes)).length =
        (display supportsq sess nick chan' noNames (tokens takes' 43 rest modes)).length + 1 :=
      length_display_mode 43 c arg hhead
    rw [← htokens, heq] at hone
    omega

/-- The generic modes of a live mode string are among those of the replay of it. -/
theorem generics_le {c : UInt8} {modes : Bytes} (h : isSign c = true ∨ ∀ d ∈ modes.head?, isSign d = true) :
    generics supportsq c modes ≤ generics supportsq 43 (c :: modes) := by
  rw [generics]
  split_ifs with hc
  · exact Nat.le_refl _
  all_goals
    have hd := h.resolve_left hc
    cases modes with
    | nil => simp [generics]
    | cons d modes =>
      rw [generics, if_pos (hd d rfl), generics, if_pos (hd d rfl)]
      omega

/-- **A replay that reads more than the mode string**: it has more generic modes. -/
theorem longer_ne {m pre rest r : Bytes} (hr : r = pre ++ m ++ rest) (hpre : lastSign 43 pre = 43)
    (hmore : 0 < generics supportsq 43 pre + generics supportsq (lastSign 43 (pre ++ m)) rest)
    {es : List Emitted}
    (hes : m = [] ∧ es = [] ∨ ∃ c modes takes args, m = c :: modes ∧
      es = display supportsq sess nick chan noNames (tokens takes c args modes)) (args' : List Bytes) :
    display supportsq sess nick chan' noNames (tokens takes' 43 args' r) ≠ es := by
  intro heq
  have hcount : genericEvents (display supportsq sess nick chan' noNames (tokens takes' 43 args' r)) =
      generics supportsq 43 pre + generics supportsq 43 m + generics supportsq (lastSign 43 (pre ++ m)) rest := by
    rw [genericEvents_display, hr, generics_append, generics_append, hpre]
  rw [heq] at hcount
  rcases hes with ⟨rfl, rfl⟩ | ⟨c, modes, takes, args, rfl, rfl⟩
  · rw [genericEvents, List.countP_nil] at hcount
    omega
  · by_cases hfirst : isSign c = true ∨ ∀ d ∈ modes.head?, isSign d = true
    · rw [genericEvents_display] at hcount
      have hle : generics supportsq c modes ≤ generics supportsq 43 (c :: modes) := generics_le hfirst
      omega
    · push Not at hfirst
      obtain ⟨hc, d, hd, hdsign⟩ := hfirst
      cases modes with
      | nil => cases hd
      | cons d' modes =>
        obtain rfl := Option.some.inj hd
        exact unsigned_letter_ne (by simpa using hc) hdsign r modes args args' heq

end Unlike

end PoxChat.Modes
