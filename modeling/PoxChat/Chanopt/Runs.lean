import PoxChat.Chanopt.File
import PoxChat.Lib.Program

/-!
# Options over runs and restarts

What the list, the file and the two flags know of what was saved.

* `Keeps` — a pair in the list has there what was saved for it, and every other pair has it in the file; while nothing is
  marked as changed the file has all of it.
* `Op.Sound` — a step after which they still do.

Principal result: `options_restored` — in a run whose steps all are `Sound`, every session that is loaded has the options
last saved for its network and channel.
-/

set_option autoImplicit false

namespace PoxChat.Chanopt

open Lib Outbound Users Servlist

/-- The channels `chanopt.conf` holds. -/
def Chanopts.onFile (s : Chanopts) : List InMemory := (chanoptLoadAll [] false s.file).1

/-- Where the file is about to be written, every channel it holds is in the list. -/
def Chanopts.Covers (s : Chanopts) : Prop :=
  s.list ≠ [] → s.changed = true → ∀ co ∈ s.onFile, get s.list co.pair ≠ none

/-- A step that is in order.  A load that reads the file finds it without channels, or in agreement with the list; a load
that finds no record finds the session with no option set. -/
def Op.Sound (s : Chanopts) : Op → Prop
  | .load id =>
    ∀ name ∈ (s.sessions id).named,
      (s.isOpen = false → s.onFile = [] ∨ ∀ co ∈ s.list, co.settings = getD s.onFile co.pair) ∧
        (get s.list (pairOf name.1 name.2) = none → get s.onFile (pairOf name.1 name.2) = none →
          (s.sessions id).settings = .unset)
  | .saveAll _ => s.Covers
  | .restart => s.Covers
  | _ => True

instance (s : Chanopts) : Decidable s.Covers :=
  inferInstanceAs (Decidable (s.list ≠ [] → s.changed = true → ∀ co ∈ s.onFile, get s.list co.pair ≠ none))

instance (s : Chanopts) : (op : Op) → Decidable (op.Sound s)
  | .session .. => .isTrue trivial
  | .command .. => .isTrue trivial
  | .load id =>
    inferInstanceAs (Decidable (∀ name ∈ (s.sessions id).named,
      (s.isOpen = false → s.onFile = [] ∨ ∀ co ∈ s.list, co.settings = getD s.onFile co.pair) ∧
        (get s.list (pairOf name.1 name.2) = none → get s.onFile (pairOf name.1 name.2) = none →
          (s.sessions id).settings = .unset)))
  | .save _ => .isTrue trivial
  | .saveAll _ => inferInstanceAs (Decidable s.Covers)
  | .restart => inferInstanceAs (Decidable s.Covers)

/-- The file holds the channels `saved`, and file and list hold what was saved. -/
structure Keeps (s : Chanopts) (saves : Saves) (saved : List InMemory) : Prop where
  file : s.file = saveLoop 0 saved
  distinctFile : DistinctKeys InMemory.pair saved
  namedFile : ∀ co ∈ saved, co.Named ∧ co.Saved
  distinct : DistinctKeys InMemory.pair s.list
  named : ∀ co ∈ s.list, co.Named
  held : ∀ pair, saves pair = ((get s.list pair).or (get saved pair)).getD .unset
  clean : s.changed = false → ∀ pair, getD saved pair = saves pair
  covered : s.isOpen = true → ∀ pair, get s.list pair = none → get saved pair = none

namespace Keeps

variable {s : Chanopts} {saves : Saves} {saved : List InMemory}

theorem start : Keeps {} (fun _ => .unset) [] where
  file := rfl
  distinctFile := .nil
  namedFile _ hco := absurd hco List.not_mem_nil
  distinct := .nil
  named _ hco := absurd hco List.not_mem_nil
  held _ := rfl
  clean _ _ := rfl
  covered _ _ _ := rfl

theorem onFile_eq (h : Keeps s saves saved) : s.onFile = saved.foldl merge [] := by
  rw [Chanopts.onFile, h.file, chanoptLoadAll_saveLoop h.namedFile]

theorem get_onFile (h : Keeps s saves saved) (pair : Bytes × Bytes) : get s.onFile pair = get saved pair := by
  rw [h.onFile_eq, get_foldl_merge h.distinctFile]
  cases get saved pair with
  | none => rfl
  | some settings =>
    exact congrArg some (overlay_unset settings)

theorem onFile_eq_nil (h : Keeps s saves saved) (hnil : s.onFile = []) : saved = [] := by
  refine List.eq_nil_iff_forall_not_mem.2 fun co hco => ?_
  have hget := h.get_onFile co.pair
  rw [hnil, get_eq_of_mem h.distinctFile hco] at hget
  exact absurd hget (by simp)

theorem getD_list (h : Keeps s saves saved) {pair : Bytes × Bytes} (hin : get s.list pair ≠ none) :
    saves pair = getD s.list pair := by
  obtain ⟨settings, hsettings⟩ := Option.ne_none_iff_exists'.1 hin
  rw [h.held, getD, hsettings]
  rfl

theorem getD_file (h : Keeps s saves saved) {pair : Bytes × Bytes} (hout : get s.list pair = none) :
    saves pair = getD saved pair := by
  rw [h.held, hout, Option.none_or, getD]

/-- Reading the file again changes nothing that was saved. -/
theorem opened (h : Keeps s saves saved)
    (hsound : s.isOpen = false → s.onFile = [] ∨ ∀ co ∈ s.list, co.settings = getD s.onFile co.pair) :
    Keeps s.opened saves saved ∧ s.opened.isOpen = true ∧
      ∀ pair, get s.opened.list pair = none → get s.list pair = none := by
  rw [Chanopts.opened]
  cases hopen : s.isOpen with
  | true => exact ⟨h, hopen, fun _ hnone => hnone⟩
  | false =>
    rw [if_neg (by decide), h.file, chanoptLoadAll_saveLoop h.namedFile]
    -- what the list has is what the file has, so the file over the list is the list
    have hsame : saved = [] ∨ ∀ pair, get s.list pair ≠ none → getD s.list pair = getD saved pair := by
      refine (hsound hopen).imp h.onFile_eq_nil fun hall pair hin => ?_
      obtain ⟨settings, hsettings⟩ := Option.ne_none_iff_exists'.1 hin
      obtain ⟨co, hco, rfl, rfl⟩ := exists_of_get hsettings
      rw [getD, hsettings, Option.getD_some, hall co hco, getD, h.get_onFile, getD]
    have hvalue : ∀ pair, ((get (saved.foldl merge s.list) pair).or (get saved pair)).getD .unset = saves pair := by
      intro pair
      rw [get_foldl_merge h.distinctFile, h.held]
      cases hfile : get saved pair with
      | none => rfl
      | some settings =>
        have hne : saved ≠ [] := fun hnil => by
          rw [hnil] at hfile
          exact absurd hfile (by simp)
        cases hlist : get s.list pair with
        | none =>
          show overlay settings (getD s.list pair) = settings
          rw [getD, hlist]
          exact overlay_unset settings
        | some settings' =>
          have heq := (hsame.resolve_left hne) pair (by simp [hlist])
          rw [getD, getD, hlist, hfile, Option.getD_some, Option.getD_some] at heq
          show overlay settings (getD s.list pair) = settings'
          rw [getD, hlist, heq]
          exact overlay_self settings
    have hnone : ∀ pair, get (saved.foldl merge s.list) pair = none → get saved pair = none ∧ get s.list pair = none := by
      intro pair hnone
      rw [get_foldl_merge h.distinctFile] at hnone
      cases hfile : get saved pair with
      | none =>
        rw [hfile] at hnone
        exact ⟨rfl, hnone⟩
      | some settings =>
        rw [hfile] at hnone
        exact absurd hnone (by simp)
    refine ⟨⟨rfl, h.distinctFile, h.namedFile, distinct_foldl_merge h.distinct,
      named_foldl_merge h.named fun co hco => (h.namedFile co hco).1, fun pair => (hvalue pair).symm, ?_,
      fun _ pair hout => (hnone pair hout).1⟩, rfl, fun pair hout => (hnone pair hout).2⟩
    · intro hclean pair
      by_cases hnil : saved = []
      · refine h.clean ?_ pair
        rw [if_pos hnil] at hclean
        exact hclean
      · by_cases hin : get s.list pair = none
        · exact (h.getD_file hin).symm
        · rw [h.getD_list hin]
          exact ((hsame.resolve_left hnil) pair hin).symm

theorem setSession (h : Keeps s saves saved) (id : Nat) (sess : Session) : Keeps (s.setSession id sess) saves saved :=
  { h with }

/-- After a load the session has what was saved. -/
theorem load (h : Keeps s saves saved) {id : Nat} (hsound : Op.Sound s (.load id)) :
    Keeps (chanoptLoad s id) saves saved ∧
      ∀ network channel, (s.sessions id).named = some (network, channel) →
        ((chanoptLoad s id).sessions id).settings = saves (pairOf network channel) := by
  rw [chanoptLoad]
  cases hnamed : (s.sessions id).named with
  | none => exact ⟨h, fun _ _ hno => absurd hno (by simp)⟩
  | some name =>
    obtain ⟨network, channel⟩ := name
    obtain ⟨hagree, hfresh⟩ := hsound (network, channel) hnamed
    obtain ⟨hopened, hopen, hout⟩ := h.opened hagree
    have hsessions : s.opened.sessions = s.sessions := by
      rw [Chanopts.opened]
      split <;> rfl
    have hfind : (chanoptFind s.opened.list network channel).map InMemory.settings =
        get s.opened.list (pairOf network channel) := get_find
    dsimp only
    cases hco : chanoptFind s.opened.list network channel with
    | some co =>
      rw [hco] at hfind
      refine ⟨hopened.setSession id _, ?_⟩
      rintro network' channel' ⟨⟩
      rw [hopened.getD_list (by rw [← hfind]; simp), getD, ← hfind]
      simp [Chanopts.setSession]
    | none =>
      rw [hco] at hfind
      refine ⟨hopened, ?_⟩
      rintro network' channel' ⟨⟩
      have hlist : get s.opened.list (pairOf network channel) = none := hfind.symm
      have hfile := hopened.covered hopen _ hlist
      have hsaves : saves (pairOf network channel) = .unset := by
        rw [hopened.getD_file hlist, getD, hfile]
        rfl
      dsimp only
      rw [hsessions, hsaves]
      exact hfresh (hout _ hlist) (by rw [h.get_onFile]; exact hfile)

theorem named_session {sess : Session} {network channel : Bytes} (h : sess.named = some (network, channel)) :
    Named network ∧ Named channel := by
  rw [Session.named] at h
  split at h
  · exact absurd h (by simp)
  · obtain ⟨network', hnetwork, heq⟩ := Option.map_eq_some_iff.1 h
    obtain ⟨rfl, rfl⟩ := Prod.mk.inj heq
    exact ⟨network'.2, sess.sessionName.2⟩

/-- `chanopt_save` puts the options of the session into the list, and marks what it changes. -/
theorem save (h : Keeps s saves saved) (id : Nat) : Keeps (chanoptSave s id) (Op.note s saves (.save id)) saved := by
  rw [chanoptSave, Op.note]
  cases hnamed : (s.sessions id).named with
  | none => exact h
  | some name =>
    obtain ⟨network, channel⟩ := name
    obtain ⟨hnetwork, hchannel⟩ := named_session hnamed
    have hget : ∀ pair, get (updateFirst (samePair network channel) (InMemory.modify fun _ => (s.sessions id).settings)
        (chanoptFindNew s.list network channel).1) pair =
          if pair = pairOf network channel then some (s.sessions id).settings else get s.list pair := fun pair => by
      rw [get_updateFirst, get_findNew]
      by_cases hpair : pair = pairOf network channel
      · rw [if_pos hpair, if_pos hpair, if_pos hpair, Option.map_some]
      · rw [if_neg hpair, if_neg hpair, if_neg hpair]
    have hlist : ∀ co ∈ updateFirst (samePair network channel) (InMemory.modify fun _ => (s.sessions id).settings)
        (chanoptFindNew s.list network channel).1, co.Named :=
      named_updateFirst (named_findNew h.named hnetwork hchannel) _ _
    refine ⟨h.file, h.distinctFile, h.namedFile, (distinct_findNew h.distinct network channel).updateFirst fun _ => rfl,
      hlist, fun pair => ?_, fun hclean pair => ?_, fun hopen pair hout => ?_⟩
    · refine Eq.trans ?_ (congrArg (fun o => (o.or (get saved pair)).getD .unset) (hget pair)).symm
      dsimp only
      split
      · rfl
      · exact h.held pair
    · -- nothing was marked, so the list had these options for the pair
      have hmarks := Bool.or_eq_false_iff.1 hclean
      obtain ⟨hchanged, hadded⟩ := Bool.or_eq_false_iff.1 hmarks.1
      dsimp only
      split
      · next hpair =>
        subst hpair
        have hfind : (chanoptFind s.list network channel).map InMemory.settings =
            get s.list (pairOf network channel) := get_find
        have hdiffers := hmarks.2
        rw [chanoptFindNew] at hadded hdiffers
        cases hco : chanoptFind s.list network channel with
        | none =>
          rw [hco] at hadded
          exact absurd hadded Bool.true_eq_false.mp
        | some co =>
          rw [hco] at hdiffers hfind
          dsimp only at hdiffers
          rw [hco] at hdiffers
          have hset : co.settings = (s.sessions id).settings := by simpa using hdiffers
          rw [h.clean hchanged, h.getD_list (by rw [← hfind]; simp), getD, ← hfind, ← hset]
          rfl
      · exact h.clean hchanged pair
    · replace hout := (hget pair).symm.trans hout
      split at hout
      · exact absurd hout (by simp)
      · exact h.covered hopen pair hout

theorem command (h : Keeps s saves saved) (id : Nat) (found : ChanOption → Bool) (newval : Option Setting) :
    Keeps (chanoptCommand s id found newval) saves saved := by
  cases newval with
  | none => exact h
  | some value => exact { h with clean := fun hclean => h.clean (Bool.or_eq_false_iff.1 hclean).1 }

/-- What `chanopt_save_all` writes is all that was saved. -/
theorem written (h : Keeps s saves saved) (hcovers : s.Covers) (hwrite : ¬ (s.list = [] ∨ s.changed = false))
    (pair : Bytes × Bytes) : getD (s.list.filter fun co => co.Saved) pair = saves pair := by
  have hne : s.list ≠ [] := fun hnil => hwrite (.inl hnil)
  have hchanged : s.changed = true := Bool.eq_true_of_not_eq_false fun hclean => hwrite (.inr hclean)
  rw [get_filter_saved h.distinct]
  by_cases hin : get s.list pair = none
  · have hfile : get saved pair = none := by
      by_contra hfile
      rw [← h.get_onFile] at hfile
      obtain ⟨settings, hsettings⟩ := Option.ne_none_iff_exists'.1 hfile
      obtain ⟨co, hco, rfl, -⟩ := exists_of_get hsettings
      exact hcovers hne hchanged co hco hin
    rw [h.getD_file hin, getD, hin, getD, hfile]
  · exact (h.getD_list hin).symm

theorem namedSaved (h : Keeps s saves saved) : ∀ co ∈ s.list.filter fun co => co.Saved, co.Named ∧ co.Saved := by
  intro co hco
  obtain ⟨hco, hsaved⟩ := List.mem_filter.1 hco
  exact ⟨h.named co hco, of_decide_eq_true hsaved⟩

theorem saveLoop_filter (list : List InMemory) (numSaved : Nat) :
    saveLoop numSaved (list.filter fun co => co.Saved) = saveLoop numSaved list := by
  induction list generalizing numSaved with
  | nil => rfl
  | cons co list ih =>
    by_cases hsaved : co.Saved
    · rw [List.filter_cons_of_pos (by simpa), saveLoop, saveLoop, if_pos hsaved, if_pos hsaved, ih]
    · rw [List.filter_cons_of_neg (by simpa), saveLoop, if_neg hsaved, ih]

theorem saveAll (h : Keeps s saves saved) (hcovers : s.Covers) (flush : Bool) :
    ∃ saved', Keeps (chanoptSaveAll s flush) saves saved' := by
  rw [chanoptSaveAll]
  split
  · exact ⟨saved, h⟩
  · next hwrite =>
    have hwritten := h.written hcovers hwrite
    refine ⟨s.list.filter fun co => co.Saved, (saveLoop_filter s.list 0).symm, h.distinct.sublist List.filter_sublist,
      h.namedSaved, ?_, ?_, fun pair => ?_, fun _ => hwritten, fun hopen => absurd hopen (by simp)⟩
    · cases flush with
      | true => exact .nil
      | false => exact h.distinct
    · cases flush with
      | true => exact fun co hco => absurd hco List.not_mem_nil
      | false => exact h.named
    · cases flush with
      | true => exact (hwritten pair).symm
      | false =>
        show saves pair = ((get s.list pair).or _).getD .unset
        cases hin : get s.list pair with
        | none => exact (hwritten pair).symm
        | some settings => rw [h.getD_list (by simp [hin]), getD, hin]; rfl

/-- A program that starts again finds everything in the file. -/
theorem restart (h : Keeps s saves saved) (hcovers : s.Covers) :
    ∃ saved', Keeps { file := (chanoptSaveAll s true).file } saves saved' := by
  rw [chanoptSaveAll]
  split
  · next hskip =>
    have hall : ∀ pair, getD saved pair = saves pair := fun pair => by
      rcases hskip with hnil | hclean
      · exact (h.getD_file (by rw [hnil]; rfl)).symm
      · exact h.clean hclean pair
    exact ⟨saved, h.file, h.distinctFile, h.namedFile, .nil, fun co hco => absurd hco List.not_mem_nil,
      fun pair => (hall pair).symm, fun _ => hall, fun hopen => absurd hopen (by simp)⟩
  · next hwrite =>
    have hwritten := h.written hcovers hwrite
    exact ⟨s.list.filter fun co => co.Saved, (saveLoop_filter s.list 0).symm, h.distinct.sublist List.filter_sublist,
      h.namedSaved, .nil, fun co hco => absurd hco List.not_mem_nil, fun pair => (hwritten pair).symm,
      fun _ => hwritten, fun hopen => absurd hopen (by simp)⟩

theorem step (h : Keeps s saves saved) {op : Op} (hsound : op.Sound s) :
    ∃ saved', Keeps (op.step s) (op.note s saves) saved' := by
  cases op with
  | session id sess => exact ⟨saved, h.setSession id sess⟩
  | command id found newval => exact ⟨saved, h.command id found newval⟩
  | load id => exact ⟨saved, (h.load hsound).1⟩
  | save id => exact ⟨saved, h.save id⟩
  | saveAll flush => exact h.saveAll hsound flush
  | restart => exact h.restart hsound

end Keeps

/-- **Options are not lost**: in a run whose steps all are in order, from a program that has no file, every session that
is loaded has the options last saved for its network and channel. -/
theorem options_restored {ops : List Op}
    (h : Along Op.both (fun sm op => op.Sound sm.1) ({}, fun _ => .unset) ops) :
    Along Op.both (fun sm op => op.Restored sm) ({}, fun _ => .unset) ops := by
  refine h.imp (I := fun sm => ∃ saved, Keeps sm.1 sm.2 saved) ?_ ?_ ⟨[], Keeps.start⟩
  · rintro ⟨s, saves⟩ op ⟨saved, hkeeps⟩ hsound
    exact hkeeps.step hsound
  · rintro ⟨s, saves⟩ op ⟨saved, hkeeps⟩ hsound
    cases op with
    | load id => exact (hkeeps.load hsound).2
    | _ => trivial

/-- A session for a channel of the network `net`. -/
def sessionFor (channel : Bytes) (h : Named channel) : Session :=
  { network := some ⟨bytes "net", by decide⟩, sessionName := ⟨channel, h⟩ }

def channelA : Session := sessionFor (bytes "#a") (by decide)

def channelB : Session := sessionFor (bytes "#b") (by decide)

/-- An option is turned on, saved, kept over a write and a restart, and seen by the next session of the channel. -/
def optionRun : List Op :=
  [.session 0 channelA, .load 0, .command 0 (· == .alertBeep) (some .on), .save 0, .saveAll false,
    .session 1 channelB, .load 1, .restart, .session 0 channelA, .load 0, .command 0 (· == .textLogging) (some .off),
    .save 0, .restart, .session 0 channelA, .load 0]

theorem optionRun_restored : Along Op.both (fun sm op => op.Restored sm) ({}, fun _ => .unset) optionRun :=
  options_restored (by decide +kernel)

/-- The session of one channel closes, and that of another opens: its load reads the old file over the newer options. -/
def lostRun : List Op :=
  [.session 0 channelA, .load 0, .command 0 (· == .alertBeep) (some .on), .save 0, .saveAll false,
    .command 0 (· == .alertBeep) (some .off), .save 0, .session 1 channelB, .load 1, .session 0 channelA, .load 0]

theorem option_lost : ¬ Along Op.both (fun sm op => op.Restored sm) ({}, fun _ => .unset) lostRun := by
  rintro ⟨-, -, -, -, -, -, -, -, -, -, hload, -⟩
  have hbeep := congrFun (hload (bytes "net") (bytes "#a") (by decide)) .alertBeep
  revert hbeep
  decide +kernel

end PoxChat.Chanopt
