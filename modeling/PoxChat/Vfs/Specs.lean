import PoxChat.Vfs.File

/-!
# What the outer calls and the transaction envelope can do

The rules by which the claims about the VFS are proved.  Each states once, for every answer of the
environment, what a piece of `sqlite-zstd-vfs.c` can have done when it returns, and in which states
it can be cut.

* `wp_stmt`, `wp_query`, `wp_execBegin`, `wp_execCommit`, `wp_execRollback` — single outer calls.
* `beginOuter_ends`, `commitOuter_ends` — `begin_outer` and `commit_outer`: every way they return
  (`BeginEnds`, `CommitEnds`) and what a cut inside them leaves committed (`Cut`).
* `call_of_wp`, `call_open_of_wp` — from a program of a call to the call on the system.
-/

set_option autoImplicit false

namespace PoxChat.Vfs

open Lib Lib.Prog

section Primitives

variable {env : Env} {w : World} {C : World → Prop}

@[simp] theorem wp_file {Q : ZFile → World → Prop} : wp VFS.file Q C w ↔ Q w.file w := Iff.rfl

@[simp] theorem wp_setFile {Q : Unit → World → Prop} (g : ZFile → ZFile) :
    wp (VFS.setFile g) Q C w ↔ Q () { w with file := g w.file } := Iff.rfl

theorem wp_stmt {Q : Bool → World → Prop} (c : Call) (g : DB → DB) (evs : List OuterEv) :
    wp (stmt env c g evs) Q C w ↔
      (env c = .ok → Q true { w with outer := w.outer.apply g, log := w.log ++ evs }) ∧
      (env c = .fail → Q false w) ∧ (env c = .abort → Q false w.abort) ∧ (env c = .crash → C w) := by
  unfold wp stmt
  cases env c <;> simp [Ending.Meets]

theorem wp_query {α : Type} {Q : Option α → World → Prop} (c : Call) (g : DB → α) :
    wp (query env c g) Q C w ↔
      (env c = .ok → Q (some (g w.outer.view)) w) ∧
      (env c = .fail → Q none w) ∧ (env c = .abort → Q none w.abort) ∧ (env c = .crash → C w) := by
  unfold wp query
  cases env c <;> simp [Ending.Meets]

theorem wp_execBegin {Q : Bool → World → Prop} :
    wp (execBegin env) Q C w ↔
      (env .begin = .ok → w.outer.working = none →
        Q true { w with outer := { w.outer with working := some w.outer.committed },
                        log := w.log ++ [.begin] }) ∧
      (env .begin = .ok → w.outer.working.isSome = true → Q false w) ∧
      (env .begin = .fail → Q false w) ∧ (env .begin = .abort → Q false w.abort) ∧
      (env .begin = .crash → C w) := by
  unfold wp execBegin
  cases env .begin <;> cases w.outer.working <;> simp [Ending.Meets]

theorem wp_execCommit {Q : Bool → World → Prop} :
    wp (execCommit env) Q C w ↔
      (∀ d, env .commit = .ok → w.outer.working = some d →
        Q true { w with outer := ⟨d, none⟩, log := w.log ++ [.commit] }) ∧
      (env .commit = .ok → w.outer.working = none → Q false w) ∧
      (env .commit = .fail → Q false w) ∧ (env .commit = .abort → Q false w.abort) ∧
      (env .commit = .crash → C w) := by
  unfold wp execCommit
  cases env .commit <;> cases w.outer.working <;> simp [Ending.Meets]

theorem wp_execRollback {Q : Unit → World → Prop} :
    wp (execRollback env) Q C w ↔
      (env .rollback = .ok → Q () w.abort) ∧ (env .rollback = .fail → Q () w) ∧
      (env .rollback = .abort → Q () w.abort) ∧ (env .rollback = .crash → C w) := by
  unfold wp execRollback
  cases env .rollback <;> simp [Ending.Meets]

end Primitives

/-! ## The transaction envelope -/

/-- `w` with its `in_transaction` flag cleared. -/
def World.cleared (w : World) : World := { w with file := { w.file with inTransaction := false } }

/-- Some outer call is cut. -/
def Crashes (env : Env) : Prop := ∃ c, env c = .crash

/-- Where a program that started in `w` can be cut without having committed anything. -/
structure Cut (env : Env) (w w' : World) : Prop where
  crashes : Crashes env
  committed : w'.outer.committed = w.outer.committed
  log : ∃ n, w'.log = w.log ++ List.replicate n .rollback

/-- Every way `begin_outer` returns. -/
inductive BeginEnds (env : Env) (w : World) : Rc → World → Prop where
  | held : w.file.inTransaction = true → w.outer.working.isSome = true → BeginEnds env w .ok w
  | opened : env .begin = .ok → w.outer.working = none →
      BeginEnds env w .ok ⟨{ w.file with inTransaction := true },
        ⟨w.outer.committed, some w.outer.committed⟩, w.log ++ [.begin]⟩
  | refused : env .begin = .fail ∨ w.outer.working.isSome = true ∧ w.file.inTransaction = false →
      BeginEnds env w .error w.cleared
  | aborted : env .begin = .abort → BeginEnds env w .error w.abort.cleared

/-- The refresh of `meta.page_count` loses the transaction. -/
def RefreshAborts (env : Env) (w : World) : Prop :=
  env .savePageCount = .abort ∧ w.file.pageCount ≠ w.file.metaPageCountSaved

/-- Every way `commit_outer` returns. -/
inductive CommitEnds (env : Env) (w : World) : Rc → World → Prop where
  | idle : w.file.inTransaction = false → CommitEnds env w .ok w
  | stale : w.file.inTransaction = true → w.outer.working = none → CommitEnds env w .error w.cleared
  | committed (d : DB) (v : Option Int) (saved : Int) : w.file.inTransaction = true →
      w.outer.working = some d → env .commit = .ok → ¬ RefreshAborts env w →
      CommitEnds env w .ok ⟨{ w.file with inTransaction := false, metaPageCountSaved := saved },
        ⟨{ d with pageCount := v }, none⟩, w.log ++ [.commit]⟩
  | rolledBack (n : Nat) (saved : Int) : w.file.inTransaction = true →
      w.outer.working.isSome = true →
      RefreshAborts env w ∨ env .commit = .abort ∨ env .commit = .fail ∧ env .rollback ≠ .fail →
      CommitEnds env w .error ⟨{ w.file with inTransaction := false, metaPageCountSaved := saved },
        ⟨w.outer.committed, none⟩, w.log ++ .rollback :: List.replicate n .rollback⟩
  | stuck (d : DB) (v : Option Int) (saved : Int) : w.file.inTransaction = true →
      w.outer.working = some d → env .commit = .fail → env .rollback = .fail →
      CommitEnds env w .error ⟨{ w.file with inTransaction := false, metaPageCountSaved := saved },
        ⟨w.outer.committed, some { d with pageCount := v }⟩, w.log⟩

theorem Cut.refl {env : Env} {c : Call} (hc : env c = .crash) (w : World) : Cut env w w :=
  ⟨⟨c, hc⟩, rfl, 0, by simp⟩

theorem World.cleared_eq {w : World} (h : w.file.inTransaction = false) : w.cleared = w := by
  obtain ⟨f, o, l⟩ := w
  cases f
  simp_all [World.cleared]

theorem openTransaction_ends {env : Env} {w : World} (h : w.file.inTransaction = false) :
    wp (openTransaction env) (BeginEnds env w) (Cut env w) w := by
  unfold openTransaction
  simp only [wp_bind, wp_execBegin]
  have hc : w.cleared = w := World.cleared_eq h
  refine ⟨fun hb hw => .opened hb hw, fun _ hw => ?_, fun hb => ?_, fun hb => ?_, fun hc => Cut.refl hc w⟩
  · have hr : BeginEnds env w .error w.cleared := .refused (.inr ⟨hw, h⟩)
    rw [hc] at hr
    exact hr
  · have hr : BeginEnds env w .error w.cleared := .refused (.inl hb)
    rw [hc] at hr
    exact hr
  · have hca : w.abort.cleared = w.abort := World.cleared_eq (w := w.abort) h
    have hr : BeginEnds env w .error w.abort.cleared := .aborted hb
    rw [hca] at hr
    exact hr

/-- **What `begin_outer` does.** -/
theorem beginOuter_ends (env : Env) (w : World) :
    wp (beginOuter env) (BeginEnds env w) (Cut env w) w := by
  unfold beginOuter
  simp only [wp_bind, wp_gets, wp_ite, wp_setFile, wp_pure, id]
  refine ⟨fun ht => ⟨fun ha => ?_, fun ha => ?_⟩, fun ht => ?_⟩
  · have hw : w.outer.working = none := by simpa [Outer.autocommit] using ha
    refine wp_mono (openTransaction_ends (w := w.cleared) rfl) ?_ ?_
    · intro rc w' h
      cases h with
      | held h _ => cases h
      | opened hb _ => exact .opened hb hw
      | refused h =>
        rcases h with hb | ⟨hs, _⟩
        · exact .refused (.inl hb)
        · rw [show w.cleared.outer.working = none from hw] at hs
          cases hs
      | aborted hb => exact .aborted hb
    · rintro w' ⟨he, hc, hl⟩
      exact ⟨he, hc, hl⟩
  · exact .held ht (by simpa [Outer.autocommit, ← Option.isSome_iff_ne_none] using ha)
  · exact openTransaction_ends (by simpa using ht)

/-- What the refresh of `meta.page_count` leaves for the `COMMIT`: the working state up to that
value, or nothing when the failing statement rolled the transaction back. -/
inductive RefreshEnds (env : Env) (w : World) (d : DB) : World → Prop where
  | kept (v : Option Int) (saved : Int) : ¬ RefreshAborts env w →
      RefreshEnds env w d ⟨{ w.file with metaPageCountSaved := saved },
        ⟨w.outer.committed, some { d with pageCount := v }⟩, w.log⟩
  | lost (saved : Int) : RefreshAborts env w →
      RefreshEnds env w d ⟨{ w.file with metaPageCountSaved := saved },
        ⟨w.outer.committed, none⟩, w.log ++ [.rollback]⟩

theorem refreshPageCount_ends {env : Env} {w : World} {d : DB} (hw : w.outer.working = some d) :
    wp (refreshPageCount env) (fun _ => RefreshEnds env w d) (Cut env w) w := by
  obtain ⟨f, ⟨c, wk⟩, l⟩ := w
  subst hw
  unfold refreshPageCount
  simp only [wp_bind, wp_file, wp_ite, wp_stmt, wp_setFile, wp_pure]
  refine ⟨fun hne => ⟨fun he => ?_, fun he => ?_, fun ha => ?_, fun hc => Cut.refl hc _⟩, fun heq => ?_⟩
  · have hk : RefreshEnds env ⟨f, ⟨c, some d⟩, l⟩ d _ :=
      .kept (some f.pageCount) f.pageCount (fun hr => by rw [RefreshAborts, he] at hr; cases hr.1)
    simpa [Outer.apply, setPageCount] using hk
  · exact .kept d.pageCount f.pageCount (fun hr => by rw [RefreshAborts, he] at hr; cases hr.1)
  · exact .lost f.pageCount ⟨ha, hne⟩
  · exact .kept d.pageCount f.metaPageCountSaved (fun hr => heq hr.2)

/-- The `ROLLBACK` of a transaction that is gone already. -/
theorem rollback_again {env : Env} {w : World} (n : Nat) (saved : Int)
    (ht : w.file.inTransaction = true) (hs : w.outer.working.isSome = true)
    (hr : RefreshAborts env w ∨ env .commit = .abort ∨
      env .commit = .fail ∧ env .rollback ≠ .fail) :
    wp (execRollback env) (fun _ => CommitEnds env w .error) (Cut env w)
      ⟨{ w.file with inTransaction := false, metaPageCountSaved := saved },
        ⟨w.outer.committed, none⟩, w.log ++ .rollback :: List.replicate n .rollback⟩ := by
  have hmore : CommitEnds env w .error
      ⟨{ w.file with inTransaction := false, metaPageCountSaved := saved },
        ⟨w.outer.committed, none⟩, (w.log ++ .rollback :: List.replicate n .rollback) ++ [.rollback]⟩ := by
    have h := CommitEnds.rolledBack (n + 1) saved ht hs hr
    rw [List.replicate_succ'] at h
    simpa using h
  rw [wp_execRollback]
  refine ⟨fun _ => hmore, fun _ => .rolledBack n saved ht hs hr, fun _ => hmore, fun hc => ?_⟩
  exact ⟨⟨_, hc⟩, rfl, n + 1, by simp [List.replicate_succ]⟩

/-- **What `commit_outer` does.** -/
theorem commitOuter_ends (env : Env) (w : World) :
    wp (commitOuter env) (CommitEnds env w) (Cut env w) w := by
  unfold commitOuter
  simp only [wp_bind, wp_gets, wp_ite, wp_setFile, wp_pure, id]
  refine ⟨fun ht => ⟨fun ha => ?_, fun ha => ?_⟩, fun ht => .idle (by simpa using ht)⟩
  · exact .stale ht (by simpa [Outer.autocommit] using ha)
  · have hs : w.outer.working.isSome = true := by
      simpa [Outer.autocommit, ← Option.isSome_iff_ne_none] using ha
    obtain ⟨d, hd⟩ := Option.isSome_iff_exists.1 hs
    refine wp_mono (refreshPageCount_ends hd) ?_ (fun _ h => h)
    intro _ w' h
    unfold closeTransaction
    simp only [wp_bind, wp_execCommit, wp_setFile, wp_ite, wp_pure]
    cases h with
    | kept v saved hk =>
      refine ⟨?_, ?_, ?_, ?_, ?_⟩
      · rintro d' hc ⟨⟩
        exact ⟨fun _ => .committed d v saved ht hd hc hk, by simp⟩
      · rintro _ ⟨⟩
      · intro hc
        refine ⟨by simp, fun _ => ?_⟩
        rw [wp_execRollback]
        refine ⟨fun hr => ?_, fun hr => .stuck d v saved ht hd hc hr, fun hr => ?_, fun hr => ?_⟩
        · exact .rolledBack 0 saved ht hs (.inr (.inr ⟨hc, by simp [hr]⟩))
        · exact .rolledBack 0 saved ht hs (.inr (.inr ⟨hc, by simp [hr]⟩))
        · exact ⟨⟨_, hr⟩, rfl, 0, by simp⟩
      · intro hc
        exact ⟨by simp, fun _ => rollback_again 0 saved ht hs (.inr (.inl hc))⟩
      · intro hc
        exact ⟨⟨_, hc⟩, rfl, 0, by simp⟩
    | lost saved ha =>
      refine ⟨?_, ?_, ?_, ?_, ?_⟩
      · rintro d' _ ⟨⟩
      · intro _ _
        exact ⟨by simp, fun _ => rollback_again 0 saved ht hs (.inl ha)⟩
      · intro _
        exact ⟨by simp, fun _ => rollback_again 0 saved ht hs (.inl ha)⟩
      · intro _
        refine ⟨by simp, fun _ => ?_⟩
        have h := rollback_again 1 saved ht hs (.inl ha)
        simpa [World.abort, Outer.rollback] using h
      · intro hc
        exact ⟨⟨_, hc⟩, rfl, 1, rfl⟩

/-! ## Closing and opening -/

/-- The log after `n` rollbacks. -/
def World.rolled (w : World) (n : Nat) : List OuterEv := w.log ++ List.replicate n .rollback

/-- What the statements of `outer_db_close` leave: the committed state, with `meta.page_size` and
`meta.page_count` possibly saved once more. -/
structure Faded (w w' : World) : Prop where
  file : w'.file = w.file
  committed : ∃ p v, w'.outer.committed = { w.outer.committed with pageSize := p, pageCount := v } ∧
    (p = w.outer.committed.pageSize ∨ p = some w.file.pageSize ∧ 0 < w.file.pageSize)
  log : ∃ n, w'.log = w.rolled n

/-- What `outer_db_close` leaves. -/
structure Shut (w w' : World) : Prop extends Faded w w' where
  working : w'.outer.working = none
  rolled : ∃ n, w'.log = w.rolled (n + 1)

theorem Faded.refl (w : World) : Faded w w :=
  ⟨rfl, ⟨_, _, rfl, .inl rfl⟩, 0, by simp [World.rolled]⟩

theorem Faded.shut {w w' : World} (h : Faded w w') : Shut w w'.abort := by
  obtain ⟨n, hn⟩ := h.log
  have hlog : w'.abort.log = w.rolled (n + 1) := by
    show w'.log ++ [.rollback] = _
    rw [hn, World.rolled, World.rolled, List.replicate_succ', List.append_assoc]
  exact ⟨⟨h.file, h.committed, n + 1, hlog⟩, rfl, n, hlog⟩

theorem Faded.setPageSize {w w' : World} (h : Faded w w') (hp : 0 < w.file.pageSize) :
    Faded w { w' with outer := w'.outer.apply (setPageSize w.file.pageSize), log := w'.log ++ [] } := by
  obtain ⟨p, v, hc, hps⟩ := h.committed
  refine ⟨h.file, ?_, by simpa using h.log⟩
  unfold Outer.apply
  split
  · exact ⟨p, v, hc, hps⟩
  · exact ⟨_, v, by rw [hc]; rfl, .inr ⟨rfl, hp⟩⟩

theorem Faded.setPageCount {w w' : World} (h : Faded w w') (v' : Int) :
    Faded w { w' with outer := w'.outer.apply (setPageCount v'), log := w'.log ++ [] } := by
  obtain ⟨p, v, hc, hps⟩ := h.committed
  refine ⟨h.file, ?_, by simpa using h.log⟩
  unfold Outer.apply
  split
  · exact ⟨p, v, hc, hps⟩
  · exact ⟨p, _, by rw [hc]; rfl, hps⟩

/-- Nothing is committed by the statements of `outer_db_close` inside a transaction, and outside one
only `meta`: what a crash between them leaves. -/
theorem outerDbClose_ends (env : Env) (w : World) :
    wp (outerDbClose env) (fun _ => Shut w) (fun w' => Faded w w' ∧ Crashes env) w := by
  have hcount : ∀ w', Faded w w' → wp (stmt env .closePageCount (Vfs.setPageCount w.file.pageCount) [])
      (fun _ w'' => Shut w w''.abort) (fun w'' => Faded w w'' ∧ Crashes env) w' := by
    intro w' h
    rw [wp_stmt]
    exact ⟨fun _ => (h.setPageCount _).shut, fun _ => h.shut, fun _ => h.shut.toFaded.shut,
      fun hc => ⟨h, _, hc⟩⟩
  unfold outerDbClose
  simp only [wp_bind, wp_file, wp_ite, wp_modify]
  refine ⟨fun hp => ?_, fun _ => ⟨fun _ => hcount w (Faded.refl w), fun _ => (Faded.refl w).shut⟩⟩
  rw [wp_stmt]
  refine ⟨fun _ => ?_, fun _ => ?_, fun _ => ?_, fun hc => ⟨Faded.refl w, _, hc⟩⟩
  · have h := (Faded.refl w).setPageSize hp
    exact ⟨fun _ => hcount _ h, fun _ => h.shut⟩
  · have h := Faded.refl w
    exact ⟨fun _ => hcount _ h, fun _ => h.shut⟩
  · have h := (Faded.refl w).shut.toFaded
    exact ⟨fun _ => hcount _ h, fun _ => h.shut⟩

/-- `w` with a dictionary in the file. -/
def World.withDict (w : World) (blob : Bytes) : World :=
  { w with file := { w.file with dict := some blob } }

/-- Every way `train_dictionary` returns. -/
inductive TrainEnds (env : Env) (w : World) : World → Prop where
  | skipped : TrainEnds env w w
  | aborted : env .sample = .abort → TrainEnds env w w.abort
  | stored (blob : Bytes) : w.file.dict = none →
      TrainEnds env w (World.withDict { w with outer := w.outer.apply (saveDict blob) } blob)
  | unstored (blob : Bytes) : env .saveDict = .fail → TrainEnds env w (w.withDict blob)
  | lost (blob : Bytes) : env .saveDict = .abort → TrainEnds env w (w.abort.withDict blob)

theorem trainDictionary_ends (env : Env) (trained : Option Bytes) (w : World) :
    wp (trainDictionary env trained) (fun _ => TrainEnds env w)
      (fun w' => w' = w ∧ Crashes env) w := by
  unfold trainDictionary
  simp only [wp_bind, wp_file, wp_ite, wp_pure, wp_query]
  refine ⟨fun _ => .skipped, fun hd => ⟨fun _ => ?_, fun _ => .skipped, fun ha => .aborted ha, fun hc => ⟨trivial, _, hc⟩⟩⟩
  refine ⟨fun _ => .skipped, fun _ => ?_⟩
  cases trained with
  | none => exact .skipped
  | some blob =>
    simp only [wp_bind, wp_stmt, wp_setFile]
    refine ⟨fun _ => ?_, fun hf => .unstored blob hf, fun ha => .lost blob ha, fun hc => ⟨trivial, _, hc⟩⟩
    have hn : w.file.dict = none := by simpa using (not_or.1 hd).1
    have h : TrainEnds env w _ := .stored blob hn
    simpa [World.withDict] using h

/-- The dictionary `outer_db_init` loads from `meta`. -/
def DB.loadedDict (d : DB) : Option Bytes :=
  match d.zstdDict with
  | some blob => if 0 < blob.length then some blob else none
  | none => none

/-- A call that returns without success. -/
def Fails (env : Env) (c : Call) : Prop := env c = .fail ∨ env c = .abort

theorem Fails.ne_ok {env : Env} {c : Call} (h : Fails env c) : env c ≠ .ok := by
  rcases h with h | h <;> rw [h] <;> decide

/-- What `outer_db_init` reads as `meta.page_size`. -/
def readPageSize (env : Env) (d : DB) : Int := if env .metaPageSize = .ok then d.pageSize.getD 0 else 0

/-- The page size `outer_db_init` takes: the one in `meta`, or the one in the page-1 header. -/
def OpensWith (env : Env) (d : DB) (ps : Int) : Prop :=
  ps = readPageSize env d ∨ readPageSize env d ≤ 0 ∧ 1 ≤ d.maxPgno ∧
    ∃ row, d.pages.get 1 = some row ∧ headerPageSize row = some ps

/-- `w'` differs from `w` in its file and in rollbacks of no transaction. -/
structure Idle (w w' : World) : Prop where
  outer : w'.outer = w.outer
  log : ∃ n, w'.log = w.rolled n

theorem Idle.refl (w : World) : Idle w w := ⟨rfl, 0, by simp [World.rolled]⟩

theorem Idle.setFile {w w' : World} (h : Idle w w') (f : ZFile) : Idle w { w' with file := f } :=
  ⟨h.outer, h.log⟩

theorem Idle.abort {w w' : World} (h : Idle w w') (hw : w.outer.working = none) : Idle w w'.abort := by
  obtain ⟨n, hn⟩ := h.log
  refine ⟨?_, n + 1, ?_⟩
  · rw [World.abort, h.outer]
    obtain ⟨f, ⟨c, wk⟩, l⟩ := w
    subst hw
    rfl
  · show w'.log ++ [.rollback] = _
    rw [hn, World.rolled, World.rolled, List.replicate_succ', List.append_assoc]

/-- A query outside a transaction. -/
theorem Idle.query {α : Type} {env : Env} {c : Call} {g : DB → α} {w w' : World}
    {Q : Option α → World → Prop} {C : World → Prop} (h : Idle w w') (hw : w.outer.working = none)
    (hok : env c = .ok → Q (some (g w.outer.committed)) w')
    (hno : Fails env c → ∀ w'', w''.file = w'.file → Idle w w'' → Q none w'')
    (hC : env c = .crash → C w') : wp (query env c g) Q C w' := by
  rw [wp_query]
  have hv : w'.outer.view = w.outer.committed := by simp [h.outer, Outer.view, hw]
  refine ⟨fun he => by rw [hv]; exact hok he, fun he => ?_, fun he => ?_, hC⟩
  · exact hno (.inl he) w' rfl h
  · exact hno (.inr he) w'.abort rfl (h.abort hw)

theorem openPageSize_ends {env : Env} {w w' : World} (h : Idle w w') (hw : w.outer.working = none) :
    wp (openPageSize env (readPageSize env w.outer.committed) w.outer.committed.maxPgno)
      (fun ps w'' => OpensWith env w.outer.committed ps ∧ w''.file = w'.file ∧ Idle w w'')
      (fun w'' => Idle w w'' ∧ Crashes env) w' := by
  unfold openPageSize
  simp only [wp_ite, wp_bind, wp_pure]
  refine ⟨fun hm => ?_, fun _ => ⟨.inl rfl, trivial, h⟩⟩
  refine h.query hw (fun _ => ?_) (fun _ w'' hf hi => ⟨.inl rfl, hf, hi⟩) (fun hc => ⟨h, _, hc⟩)
  cases hr : w.outer.committed.pages.get 1 with
  | none => exact ⟨.inl rfl, rfl, h⟩
  | some row =>
    simp only [wp_pure]
    refine ⟨?_, trivial, h⟩
    cases hh : headerPageSize row with
    | none => exact .inl rfl
    | some ps => exact .inr ⟨hm.1, hm.2, row, hr, hh⟩

/-- Why `outer_db_init` fails: a call does, or stored pages have no page size. -/
def Refuses (env : Env) (d : DB) : Prop :=
  (∃ c, Fails env c) ∨ ∃ ps, OpensWith env d ps ∧ ps ≤ 0 ∧ 1 ≤ d.maxPgno

/-- The geometry `outer_db_init` gives a file over the committed state `d`. -/
inductive OpensGeometry (env : Env) (d : DB) : ZFile → Prop where
  | sized {ps saved : Int} {dict : Option Bytes} : OpensWith env d ps → 0 < ps →
      OpensGeometry env d ⟨ps, d.maxPgno, saved, ps * d.maxPgno, dict, 0, false⟩
  | unsized {ps saved : Int} {dict : Option Bytes} : OpensWith env d ps → ps ≤ 0 → d.maxPgno < 1 →
      OpensGeometry env d ⟨ps, 0, saved, 0, dict, 0, false⟩

/-- The file `zvfs_open` makes of the committed state `d`. -/
structure Opens (env : Env) (d : DB) (f : ZFile) : Prop where
  geometry : OpensGeometry env d f
  returned : env .metaPageSize = .ok ∨ Fails env .metaPageSize
  loaded : env .loadDict = .ok ∨ Fails env .loadDict
  dict : f.dict = if env .loadDict = .ok then d.loadedDict else none

theorem openGeometry_ends {env : Env} {w w' : World} (h : Idle w w') (hw : w.outer.working = none)
    (hf : w'.file = ZFile.zero) :
    wp (openGeometry env)
      (fun rc w'' => Idle w w'' ∧
        (rc = .ok → OpensGeometry env w.outer.committed w''.file ∧ w''.file.dict = none ∧
          (env .metaPageSize = .ok ∨ Fails env .metaPageSize)) ∧
        (rc ≠ .ok → w''.file.pageSize ≤ 0 ∧ Refuses env w.outer.committed)) (fun w'' => Idle w w'' ∧ Crashes env) w' := by
  unfold openGeometry
  rw [wp_bind]
  -- Both integers of `meta` count as 0 when they cannot be read.
  have hsize : wp (query env .metaPageSize (·.pageSize))
      (fun r w'' => (r.getD none).getD 0 = readPageSize env w.outer.committed ∧
        w''.file = ZFile.zero ∧ Idle w w'' ∧ (env .metaPageSize = .ok ∨ Fails env .metaPageSize))
      (fun w'' => Idle w w'' ∧ Crashes env) w' := by
    refine h.query hw (fun he => ⟨by simp [readPageSize, he], hf, h, .inl he⟩) ?_
      (fun hc => ⟨h, _, hc⟩)
    intro he w'' hf' hi
    exact ⟨by simp [readPageSize, he.ne_ok], hf'.trans hf, hi, .inr he⟩
  refine wp_mono hsize ?_ (fun _ hi => hi)
  rintro rs w₁ ⟨hrs, hf₁, h₁, hret⟩
  rw [wp_bind]
  have hcount : wp (query env .metaPageCount (·.pageCount))
      (fun _ w'' => w''.file = ZFile.zero ∧ Idle w w'') (fun w'' => Idle w w'' ∧ Crashes env) w₁ :=
    h₁.query hw (fun _ => ⟨hf₁, h₁⟩) (fun _ w'' hf' hi => ⟨hf'.trans hf₁, hi⟩)
      (fun hc => ⟨h₁, _, hc⟩)
  refine wp_mono hcount ?_ (fun _ hi => hi)
  rintro rc w₂ ⟨hf₂, h₂⟩
  rw [wp_bind]
  refine h₂.query hw (fun _ => ?_) (fun he w'' hf' hi => ?_) (fun hc => ⟨h₂, _, hc⟩)
  · simp only [hrs, wp_bind]
    refine wp_mono (openPageSize_ends h₂ hw) ?_ (fun _ hi => hi)
    rintro ps w₃ ⟨hps, hf₃, h₃⟩
    rw [hf₂] at hf₃
    simp only [wp_setFile, wp_ite, wp_bind, wp_pure, hf₃]
    refine ⟨fun h0 => ⟨h₃.setFile _, fun _ => ?_, fun hne => absurd rfl hne⟩, fun h0 => ⟨fun h1 => ?_, fun h1 => ?_⟩⟩
    · exact ⟨.sized hps h0, rfl, hret⟩
    · exact ⟨h₃.setFile _, fun hok => by (cases hok), fun _ => ⟨by omega, .inr ⟨ps, hps, by omega, h1⟩⟩⟩
    · refine ⟨h₃.setFile _, fun _ => ?_, fun hne => absurd rfl hne⟩
      exact ⟨.unsized hps (by omega) (by omega), rfl, hret⟩
  · rw [hf₂] at hf'
    exact ⟨hi, fun hok => by (cases hok), fun _ => ⟨by rw [hf']; decide, .inl ⟨_, he⟩⟩⟩

theorem OpensGeometry.inTransaction {env : Env} {d : DB} {f : ZFile} (h : OpensGeometry env d f) :
    f.inTransaction = false := by
  cases h <;> rfl

theorem OpensGeometry.withDict {env : Env} {d : DB} {f : ZFile} (h : OpensGeometry env d f)
    (dict : Option Bytes) : OpensGeometry env d { f with dict := dict } := by
  cases h with
  | sized hps h0 => exact .sized hps h0
  | unsized hps h0 h1 => exact .unsized hps h0 h1

theorem openDict_ends {env : Env} {w w' : World} (h : Idle w w') (hw : w.outer.working = none)
    (hg : OpensGeometry env w.outer.committed w'.file) (hn : w'.file.dict = none)
    (hr : env .metaPageSize = .ok ∨ Fails env .metaPageSize) :
    wp (openDict env) (fun _ w'' => Opens env w.outer.committed w''.file ∧ Idle w w'')
      (fun w'' => Idle w w'' ∧ Crashes env) w' := by
  unfold openDict
  rw [wp_bind]
  refine h.query hw (fun he => ?_) (fun he w'' hf hi => ?_) (fun hc => ⟨h, _, hc⟩)
  · cases hd : w.outer.committed.zstdDict with
    | none => exact ⟨⟨hg, hr, .inl he, by simp [he, hn, DB.loadedDict, hd]⟩, h⟩
    | some blob =>
      simp only [wp_ite, wp_setFile, wp_pure]
      refine ⟨fun hb => ⟨⟨hg.withDict _, hr, .inl he, ?_⟩, h.setFile _⟩, fun hb => ⟨⟨hg, hr, .inl he, ?_⟩, h⟩⟩
      · simp [he, DB.loadedDict, hd, hb]
      · simp [he, hn, DB.loadedDict, hd, hb]
  · exact ⟨⟨by rw [hf]; exact hg, hr, .inr he, by simp [he.ne_ok, hf, hn]⟩, hi⟩

/-- What a failed open leaves: `outer_db_close` may save the page count it has found. -/
structure Recounted (w w' : World) : Prop where
  committed : ∃ v, w'.outer.committed = { w.outer.committed with pageCount := v }
  log : ∃ n, w'.log = w.rolled n

theorem Idle.recounted {w w' : World} (h : Idle w w') : Recounted w w' :=
  ⟨⟨w.outer.committed.pageCount, by rw [h.outer]⟩, h.log⟩

theorem Faded.recounted {w w₁ w' : World} (h : Faded w₁ w') (h₁ : Idle w w₁)
    (hp : w₁.file.pageSize ≤ 0) : Recounted w w' := by
  obtain ⟨p, v, hc, hps⟩ := h.committed
  obtain ⟨n, hn⟩ := h.log
  obtain ⟨m, hm⟩ := h₁.log
  have hp' : p = w.outer.committed.pageSize := by
    rw [← h₁.outer]
    rcases hps with rfl | ⟨-, h0⟩
    · rfl
    · omega
  refine ⟨⟨v, by rw [hc, h₁.outer, hp']⟩, m + n, ?_⟩
  rw [hn, World.rolled, hm, World.rolled, World.rolled, List.append_assoc, List.replicate_append_replicate]

theorem outerDbInit_ends {env : Env} {w w' : World} (h : Idle w w') (hw : w.outer.working = none)
    (hf : w'.file = ZFile.zero) :
    wp (outerDbInit env)
      (fun rc w'' => Idle w w'' ∧ (rc = .ok → Opens env w.outer.committed w''.file) ∧
        (rc ≠ .ok → w''.file.pageSize ≤ 0 ∧ Refuses env w.outer.committed)) (fun w'' => Idle w w'' ∧ Crashes env) w' := by
  have hfail : ∀ {c : Call} {w'' : World}, Fails env c → w''.file = ZFile.zero → Idle w w'' →
      Idle w w'' ∧ (Rc.error = .ok → Opens env w.outer.committed w''.file) ∧
        (Rc.error ≠ .ok → w''.file.pageSize ≤ 0 ∧ Refuses env w.outer.committed) := by
    intro c w'' he hf'' hi
    exact ⟨hi, fun hok => by (cases hok), fun _ => ⟨by rw [hf'']; decide, .inl ⟨c, he⟩⟩⟩
  unfold outerDbInit
  rw [wp_bind]
  refine h.query hw (fun _ => ?_) (fun he w₁ hf₁ h₁ => hfail he (hf₁.trans hf) h₁)
    (fun hc => ⟨h, _, hc⟩)
  dsimp only
  rw [wp_bind]
  refine h.query hw (fun _ => ?_) (fun he w₁ hf₁ h₁ => hfail he (hf₁.trans hf) h₁)
    (fun hc => ⟨h, _, hc⟩)
  dsimp only
  rw [wp_bind]
  refine h.query hw (fun _ => ?_) (fun he w₁ hf₁ h₁ => hfail he (hf₁.trans hf) h₁)
    (fun hc => ⟨h, _, hc⟩)
  dsimp only
  rw [wp_bind]
  refine wp_mono (openGeometry_ends h hw hf) ?_ (fun _ hi => hi)
  rintro rc w₁ ⟨h₁, hok, hno⟩
  simp only [wp_ite, wp_bind, wp_pure]
  refine ⟨fun hrc => ?_, fun hrc => ⟨h₁, fun h => absurd h hrc, hno⟩⟩
  refine wp_mono (openDict_ends h₁ hw (hok hrc).1 (hok hrc).2.1 (hok hrc).2.2) ?_ (fun _ hi => hi)
  rintro _ w₂ ⟨hopens, h₂⟩
  exact ⟨h₂, fun _ => hopens, fun hne => absurd rfl hne⟩

/-- **What `zvfs_open` does.** -/
theorem zvfsOpen_ends (env : Env) {w : World} (hw : w.outer.working = none) :
    wp (zvfsOpen env)
      (fun rc w' => (rc = .ok → Idle w w' ∧ Opens env w.outer.committed w'.file) ∧
        (rc ≠ .ok → Recounted w w' ∧ w'.outer.working = none ∧ Refuses env w.outer.committed))
      (fun w' => Recounted w w' ∧ Crashes env) w := by
  unfold zvfsOpen
  simp only [wp_bind, wp_setFile]
  refine wp_mono (outerDbInit_ends ((Idle.refl w).setFile ZFile.zero) hw rfl) ?_
    (fun _ hi => ⟨hi.1.recounted, hi.2⟩)
  rintro rc w₁ ⟨h₁, hok, hno⟩
  simp only [wp_ite, wp_bind, wp_pure]
  refine ⟨fun hrc => ⟨fun _ => ⟨h₁, hok hrc⟩, fun hne => absurd rfl hne⟩, fun hrc => ?_⟩
  refine wp_mono (outerDbClose_ends env w₁) ?_ (fun _ hs => ⟨hs.1.recounted h₁ (hno hrc).1, hs.2⟩)
  intro _ w₂ hs
  exact ⟨fun h => absurd h hrc, fun _ => ⟨hs.toFaded.recounted h₁ (hno hrc).1, hs.working, (hno hrc).2⟩⟩

/-! ## Invariants of the methods -/

/-- What an invariant `I` has to withstand in the environment `env` so that every method that
stores nothing keeps it; `C` is what a cut has to leave. -/
structure Envelope (env : Env) (I C : World → Prop) : Prop where
  begin : ∀ {w rc w'}, I w → BeginEnds env w rc w' → I w'
  commit : ∀ {w rc w'}, I w → CommitEnds env w rc w' → I w'
  read : ∀ {w}, I w → env .read = .abort → I w.abort
  lock : ∀ {w}, I w → ∀ level, I { w with file := { w.file with lockLevel := level } }
  cut : ∀ {w w'}, I w → Cut env w w' → C w'

section Envelope

variable {z : Zstd} {env : Env} {I C : World → Prop} {w : World}

theorem Envelope.zvfsRead (h : Envelope env I C) (hw : I w) (iAmt : Nat) (iOfst : Int) :
    wp (zvfsRead z env iAmt iOfst) (fun _ => I) C w := by
  unfold Vfs.zvfsRead
  simp only [wp_bind, wp_file, wp_ite, wp_pure, wp_query]
  refine ⟨fun _ => hw, fun _ => ⟨fun _ => hw, fun _ => ⟨fun _ => ?_, fun _ => hw, ?_, ?_⟩⟩⟩
  · cases w.outer.view.pages.get (pgnoOf w.file.pageSize iOfst) <;> exact hw
  · exact fun ha => h.read hw ha
  · exact fun hc => h.cut hw (Cut.refl hc w)

theorem Envelope.beginOuter (h : Envelope env I C) (hw : I w) :
    wp (beginOuter env) (fun _ => I) C w :=
  wp_mono (beginOuter_ends env w) (fun _ _ hb => h.begin hw hb) (fun _ hc => h.cut hw hc)

theorem Envelope.commitOuter (h : Envelope env I C) (hw : I w) :
    wp (commitOuter env) (fun _ => I) C w :=
  wp_mono (commitOuter_ends env w) (fun _ _ hb => h.commit hw hb) (fun _ hc => h.cut hw hc)

theorem Envelope.zvfsSync (h : Envelope env I C) (hw : I w) :
    wp (zvfsSync env) (fun _ => I) C w := by
  unfold Vfs.zvfsSync
  rw [wp_bind]
  refine wp_mono (h.commitOuter hw) ?_ (fun _ hc => hc)
  intro rc w₁ h₁
  simp only [wp_ite, wp_bind, wp_file, wp_pure]
  exact ⟨fun _ => ⟨fun _ => h.beginOuter h₁, fun _ => h₁⟩, fun _ => h₁⟩

theorem Envelope.zvfsLock (h : Envelope env I C) (hw : I w) (level : Nat) :
    wp (zvfsLock env level) (fun _ => I) C w := by
  unfold Vfs.zvfsLock
  simp only [wp_ite, wp_bind, wp_setFile, wp_pure]
  refine ⟨fun _ => ?_, fun _ => h.lock hw level⟩
  exact wp_mono (h.beginOuter hw) (fun _ _ h₁ => ⟨fun _ => h.lock h₁ level, fun _ => h₁⟩) (fun _ hc => hc)

theorem Envelope.zvfsUnlock (h : Envelope env I C) (hw : I w) (level : Nat) :
    wp (zvfsUnlock env level) (fun _ => I) C w := by
  unfold Vfs.zvfsUnlock
  simp only [wp_ite, wp_bind, wp_file, wp_setFile, wp_pure]
  refine ⟨fun _ => ?_, fun _ => h.lock hw level⟩
  exact wp_mono (h.commitOuter hw) (fun _ _ h₁ => h.lock h₁ level) (fun _ hc => hc)

/-- **Invariants of the methods**: what the envelope, a stored page and a cut keep, every call on an
open file keeps. -/
theorem Envelope.code (h : Envelope env I C) (hw : I w) {op : Op} (hc : ∀ t, op ≠ .close t)
    (hwrite : ∀ buf iOfst, op = .write buf iOfst → ∀ w, I w →
      wp (do learnPageSize env buf.length; storePage z env buf iOfst) (fun _ => I) C w)
    (htruncate : ∀ nByte, op = .truncate nByte → ∀ w, I w → w.file.pageSize ≠ 0 →
      wp (cutPages env nByte) (fun _ => I) C w) :
    wp (code z env op) (fun _ => I) C w := by
  cases op with
  | «open» => exact hw
  | close t => exact absurd rfl (hc t)
  | read iAmt iOfst => exact h.zvfsRead hw iAmt iOfst
  | write buf iOfst =>
    unfold Vfs.code zvfsWrite
    simp only [wp_bind, wp_ite, wp_pure]
    refine wp_mono (h.beginOuter hw) ?_ (fun _ hc => hc)
    intro rc w₁ h₁
    refine ⟨fun _ => ?_, fun _ => h₁⟩
    have hs := hwrite buf iOfst rfl w₁ h₁
    rwa [wp_bind] at hs
  | truncate nByte =>
    unfold Vfs.code zvfsTruncate
    simp only [wp_bind, wp_ite, wp_pure, wp_file]
    refine ⟨fun _ => hw, fun hp => ?_⟩
    refine wp_mono (beginOuter_ends env w) ?_ (fun _ hc => h.cut hw hc)
    intro rc w₁ hb
    have h₁ := h.begin hw hb
    have hps : w₁.file.pageSize = w.file.pageSize := by cases hb <;> rfl
    exact ⟨fun _ => htruncate nByte rfl w₁ h₁ (by rw [hps]; exact hp), fun _ => h₁⟩
  | sync => simpa [Vfs.code] using h.zvfsSync hw
  | lock level => simpa [Vfs.code] using h.zvfsLock hw level
  | unlock level => simpa [Vfs.code] using h.zvfsUnlock hw level

end Envelope

/-! ## From the program of a call to the call -/

/-- The system when a crash cuts a call in `w`. -/
def World.lost (w : World) : Sys := ⟨none, w.abort.outer, w.abort.log⟩

/-- The system when a call returns in `w` and the file stays open, or does not. -/
def World.sys (w : World) (isOpen : Bool) : Sys := ⟨if isOpen then some w.file else none, w.outer, w.log⟩

section Calls

variable {z : Zstd} {s : Sys} {f : ZFile} {C : World → Prop} {P : Sys → Option (Rc × Bytes) → Prop}

theorem settle_of_wp {α : Type} {m : VFS α} {w : World} {Q : α → World → Prop} (keep : α → Bool)
    (out : α → Rc × Bytes) (h : wp m Q C w)
    (hQ : ∀ a w', Q a w' → P (w'.sys (keep a)) (some (out a)))
    (hC : ∀ w', C w' → P w'.lost none) : P (settle keep (m w)) ((m w).value.map out) := by
  unfold wp at h
  cases hm : m w with
  | done a w' => rw [hm] at h; exact hQ a w' h
  | crashed w' => rw [hm] at h; exact hC w' h

/-- A call on an open file, other than `close`. -/
theorem call_of_wp {e : Event} {Q : Rc × Bytes → World → Prop} (hf : s.file = some f)
    (ho : e.op ≠ .open) (hc : ∀ t, e.op ≠ .close t) (h : wp (code z e.env e.op) Q C (s.world f))
    (hQ : ∀ a w', Q a w' → P (w'.sys true) (some a)) (hC : ∀ w', C w' → P w'.lost none) :
    P (step z s e) (reply z s e) := by
  have hs := settle_of_wp (P := P) (fun _ => true) id h hQ hC
  unfold step reply call
  obtain ⟨op, env⟩ := e
  cases op <;> simp_all

theorem call_close_of_wp {env : Env} {t : Option Bytes} {Q : Rc → World → Prop}
    (hf : s.file = some f) (h : wp (zvfsClose env t) Q C (s.world f))
    (hQ : ∀ rc w', Q rc w' → P (w'.sys false) (some (rc, []))) (hC : ∀ w', C w' → P w'.lost none) :
    P (step z s ⟨.close t, env⟩) (reply z s ⟨.close t, env⟩) := by
  have hcode : wp (code z env (.close t)) (fun a w' => ∃ rc, a = (rc, []) ∧ Q rc w') C (s.world f) := by
    unfold code
    simp only [wp_bind, wp_pure]
    exact wp_mono h (fun rc _ hq => ⟨rc, rfl, hq⟩) (fun _ hc => hc)
  have hs := settle_of_wp (P := P) (fun _ => false) id hcode
    (by rintro _ w' ⟨rc, rfl, hq⟩; exact hQ rc w' hq) hC
  unfold step reply call
  simpa [hf] using hs

theorem call_open_of_wp {env : Env} {Q : Rc → World → Prop} (hf : s.file = none)
    (h : wp (zvfsOpen env) Q C (s.world ZFile.zero))
    (hQ : ∀ rc w', Q rc w' → P (w'.sys (rc == .ok)) (some (rc, []))) (hC : ∀ w', C w' → P w'.lost none) :
    P (step z s ⟨.open, env⟩) (reply z s ⟨.open, env⟩) := by
  have hs := settle_of_wp (P := P) (fun rc => rc == .ok) (·, []) h hQ hC
  unfold step reply call
  simpa [hf] using hs

/-- `I` of an open file, `K` of what a closed one leaves behind. -/
def Sys.Holds (I : World → Prop) (K : Outer → List OuterEv → Prop) (s : Sys) : Prop :=
  match s.file with
  | some f => I (s.world f)
  | none => K s.outer s.log

theorem Sys.Holds.file {I : World → Prop} {K : Outer → List OuterEv → Prop} (h : s.Holds I K)
    (hf : s.file = some f) : I (s.world f) := by
  unfold Sys.Holds at h
  rw [hf] at h
  exact h

/-- **Invariants of runs**: one VFS call keeps what its program keeps. -/
theorem step_holds {e : Event} {I : World → Prop} {K : Outer → List OuterEv → Prop}
    (h : s.Holds I K)
    (hopen : s.file = none → e.op = .open → K s.outer s.log → wp (zvfsOpen e.env)
      (fun rc w' => (rc = .ok → I w') ∧ (rc ≠ .ok → K w'.outer w'.log)) C (s.world ZFile.zero))
    (hclose : ∀ f t, s.file = some f → e.op = .close t → I (s.world f) →
      wp (zvfsClose e.env t) (fun _ w' => K w'.outer w'.log) C (s.world f))
    (hcode : ∀ f, s.file = some f → (∀ t, e.op ≠ .close t) → I (s.world f) →
      wp (code z e.env e.op) (fun _ => I) C (s.world f))
    (hC : ∀ w, C w → K w.abort.outer w.abort.log) : (step z s e).Holds I K := by
  obtain ⟨op, env⟩ := e
  have hlost : ∀ w', C w' → w'.lost.Holds I K := hC
  cases hf : s.file with
  | none =>
    have hK : K s.outer s.log := by simpa [Sys.Holds, hf] using h
    by_cases hop : op = .open
    · subst hop
      refine call_open_of_wp (P := fun s' _ => s'.Holds I K) hf (hopen hf rfl hK) ?_ hlost
      rintro rc w' ⟨hok, hno⟩
      by_cases hrc : rc = .ok
      · subst hrc
        exact hok rfl
      · have hne : (rc == .ok) = false := by simpa using hrc
        rw [hne]
        exact hno hrc
    · have hstep : step z s ⟨op, env⟩ = s := by
        unfold step call
        cases op <;> simp_all
      rw [hstep]
      exact h
  | some f =>
    have hI : I (s.world f) := h.file hf
    by_cases hop : op = .open
    · subst hop
      have hstep : step z s ⟨.open, env⟩ = s := by simp [step, call, hf]
      rw [hstep]
      exact h
    by_cases hcl : ∃ t, op = .close t
    · obtain ⟨t, rfl⟩ := hcl
      exact call_close_of_wp (P := fun s' _ => s'.Holds I K) hf (hclose f t hf rfl hI)
        (fun _ _ hw => hw) hlost
    · have hnc : ∀ t, op ≠ .close t := fun t ht => hcl ⟨t, ht⟩
      exact call_of_wp (P := fun s' _ => s'.Holds I K) (e := ⟨op, env⟩) hf hop hnc
        (hcode f hf hnc hI) (fun _ _ hw => hw) hlost

end Calls

end PoxChat.Vfs
