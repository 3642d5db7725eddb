import PoxChat.Vfs.Specs

/-!
# The geometry kept in memory

`page_count`, `page_size` and `file_size` of `zstd_vfs_file` are moved by writes, truncates and
opens; the page table under them is also moved back by rollbacks, which do not touch them.

* `Geometry f d` — what the three fields have to say about the table the connection sees.
* `KeepsGeometry` — when a call keeps it: whole-page writes and truncates, and no rollback of pages
  that `page_count` already counts.
* `geometry_run` — in every run of such calls, with any other failures, the geometry is right after
  every call.
* `geometry_lost_by_failed_commit` — a `COMMIT` that fails leaves the page count of the pages that
  were rolled back.
-/

set_option autoImplicit false

namespace PoxChat.Vfs

open Lib Lib.Prog

/-- The geometry of the file agrees with the page table of `d`. -/
structure Geometry (f : ZFile) (d : DB) : Prop where
  count : f.pageCount = d.maxPgno
  size : f.fileSize = f.pageCount * f.pageSize
  unset : f.pageSize = 0 → d.pages = []

/-- The outer calls of a VFS call at which a failure can roll an open transaction back. -/
def Op.calls : Op → List Call
  | .read _ _ => [.read]
  | .write _ _ => [.begin, .savePageSize, .page]
  | .truncate _ => [.begin, .page]
  | .sync => [.savePageCount, .commit, .begin]
  | .lock _ => [.begin]
  | .unlock _ => [.savePageCount, .commit]
  | _ => []

/-- A call of the event is answered by a rollback, its own or the one after a failed `COMMIT`. -/
def Event.rollsBack (e : Event) : Bool :=
  e.op.calls.any (fun c => e.env c == .abort) ||
    (e.op.calls.contains .commit && e.env .commit == .fail && e.env .rollback != .fail)

/-- The sizes a call is given: a page at a positive page number, or a cut behind a stored page. -/
def Op.sized (d : DB) (f : ZFile) : Op → Prop
  | .write buf iOfst =>
    buf ≠ [] ∧ 1 ≤ pgnoOf (if f.pageSize = 0 then buf.length else f.pageSize) iOfst
  | .truncate nByte =>
    f.pageSize = 0 ∨ nByte = toInt32 (nByte.tdiv f.pageSize) * f.pageSize ∧
      (toInt32 (nByte.tdiv f.pageSize) = 0 ∨
        (d.pages.get (toInt32 (nByte.tdiv f.pageSize))).isSome = true)
  | _ => True

/-- The calls that keep the geometry: sized ones, which roll back nothing that `page_count` has
counted. -/
def KeepsGeometry (s : Sys) (e : Event) : Prop :=
  ∀ f, s.file = some f → e.op.sized s.outer.view f ∧
    (e.rollsBack = true → s.outer.committed.maxPgno = f.pageCount)

instance (d : DB) (f : ZFile) (op : Op) : Decidable (op.sized d f) := by
  unfold Op.sized
  split <;> infer_instance

instance (s : Sys) (e : Event) : Decidable (KeepsGeometry s e) :=
  match hf : s.file with
  | none => .isTrue fun f h => by rw [hf] at h; cases h
  | some f =>
    decidable_of_iff (e.op.sized s.outer.view f ∧
      (e.rollsBack = true → s.outer.committed.maxPgno = f.pageCount))
      ⟨fun h f' h' => by rw [hf] at h'; cases h'; exact h, fun h => h f hf⟩

/-! ## The invariant -/

/-- Page numbers start at 1. -/
def DB.Keyed (d : DB) : Prop := ∀ k, (d.pages.get k).isSome = true → 1 ≤ k

theorem DB.maxPgno_of_nil {d : DB} (h : d.pages = []) : d.maxPgno = 0 := by
  simp [DB.maxPgno, (Table.maxKey_eq_none d.pages).2 h]

/-- In a keyed table `MAX(pgno)` is 0 only when it is empty. -/
theorem DB.Keyed.maxPgno_pos {d : DB} (hk : d.Keyed) (h : d.maxPgno < 1) : d.pages = [] := by
  cases hm : d.pages.maxKey with
  | none => exact (Table.maxKey_eq_none _).1 hm
  | some m =>
    have hm1 := hk m ((Table.maxKey_eq_some _ m).1 hm).1
    simp [DB.maxPgno, hm] at h
    omega

theorem DB.Keyed.put {d : DB} (hk : d.Keyed) {k : Int} (h1 : 1 ≤ k) (row : PageRow) :
    DB.Keyed { d with pages := d.pages.put k row } := by
  intro k' hk'
  rw [Table.get_put] at hk'
  split at hk'
  · omega
  · exact hk k' hk'

theorem DB.Keyed.restrict {d : DB} (hk : d.Keyed) (p : Int → Bool) :
    DB.Keyed { d with pages := d.pages.restrict p } := by
  intro k' hk'
  rw [Table.get_restrict] at hk'
  split at hk'
  · exact hk k' hk'
  · cases hk'

theorem DB.maxPgno_put (d : DB) {k : Int} (h1 : 1 ≤ k) (row : PageRow) :
    DB.maxPgno { d with pages := d.pages.put k row } = max d.maxPgno k := by
  unfold DB.maxPgno
  rw [Table.maxKey_put]
  cases hm : d.pages.maxKey with
  | none => simp; omega
  | some m => simp

theorem DB.Keyed.maxPgno_restrict {d : DB} (hk : d.Keyed) {n : Int}
    (hn : n = 0 ∨ (d.pages.get n).isSome = true) :
    DB.maxPgno { d with pages := d.pages.restrict fun k => decide (k ≤ n) } = n := by
  rcases hn with rfl | hn
  · have hnil : d.pages.restrict (fun k => decide (k ≤ 0)) = [] :=
      d.pages.restrict_eq_nil fun k hg => decide_eq_false (by have := hk k hg; omega)
    exact DB.maxPgno_of_nil hnil
  · simp [DB.maxPgno, Table.maxKey_restrict_le _ hn]

/-- The invariant of an open file inside a call; `R` is whether the call may roll back. -/
structure Sized (R : Prop) (w : World) : Prop where
  committed : w.outer.committed.Keyed
  working : ∀ d, w.outer.working = some d → d.Keyed
  unset : w.file.pageSize = 0 → w.outer.committed.pages = []
  geometry : Geometry w.file w.outer.view
  covered : R → w.outer.committed.maxPgno = w.file.pageCount

section Steps

variable {R : Prop} {env : Env} {w w' : World}

theorem Sized.view (h : Sized R w) : w.outer.view.Keyed := by
  unfold Outer.view
  cases hw : w.outer.working with
  | none => exact h.committed
  | some d => exact h.working d hw

theorem Sized.mono {R' : Prop} (h : Sized R w) (hR : R' → R) : Sized R' w :=
  ⟨h.committed, h.working, h.unset, h.geometry, fun h' => h.covered (hR h')⟩

theorem Sized.weaken (h : Sized R w) : Sized False w := h.mono False.elim

theorem Sized.abort (h : Sized R w) (hR : R) : Sized R w.abort := by
  refine ⟨h.committed, ?_, h.unset, ⟨(h.covered hR).symm, h.geometry.size, h.unset⟩, h.covered⟩
  intro d hd
  cases hd

theorem Sized.cleared (h : Sized R w) : Sized R w.cleared :=
  ⟨h.committed, h.working, h.unset, ⟨h.geometry.count, h.geometry.size, h.geometry.unset⟩, h.covered⟩

theorem Cut.keyed (hc : Cut env w w') (h : Sized R w) : w'.outer.committed.Keyed := by
  rw [hc.committed]
  exact h.committed

/-- A statement that leaves a table with the geometry of `f`. -/
theorem Sized.apply (h : Sized R w) {f : ZFile} {g : DB → DB} {log : List OuterEv}
    (hk : ∀ d, d.Keyed → (g d).Keyed) (hp : f.pageSize ≠ 0) (hg : Geometry f (g w.outer.view)) :
    Sized False ⟨f, w.outer.apply g, log⟩ := by
  refine ⟨?_, ?_, fun h0 => absurd h0 hp, by simpa using hg, False.elim⟩
  · unfold Outer.apply
    split
    · exact h.committed
    · exact hk _ h.committed
  · intro d hd
    unfold Outer.apply at hd
    split at hd
    · rename_i d' hd'
      cases hd
      exact hk d' (h.working d' hd')
    · rename_i hn
      simp [hn] at hd

/-- A statement on `meta` alone. -/
theorem Sized.apply_meta (h : Sized R w) (g : DB → DB) (log : List OuterEv)
    (hg : ∀ d, (g d).pages = d.pages) : Sized R { w with outer := w.outer.apply g, log := log } := by
  have hkeyed : ∀ d, d.Keyed → (g d).Keyed := fun d hd => by unfold DB.Keyed; rw [hg]; exact hd
  have hmax : ∀ d, (g d).maxPgno = d.maxPgno := fun d => by unfold DB.maxPgno; rw [hg]
  have hcom : (w.outer.apply g).committed.pages = w.outer.committed.pages := by
    unfold Outer.apply
    split
    · rfl
    · exact hg _
  refine ⟨?_, ?_, fun h0 => hcom.trans (h.unset h0), ?_, fun hR => ?_⟩
  · unfold DB.Keyed
    rw [show (w.outer.apply g).committed.pages = _ from hcom]
    exact h.committed
  · intro d hd
    cases hw : w.outer.working with
    | none => simp [Outer.apply, hw] at hd
    | some d' =>
      simp [Outer.apply, hw] at hd
      rw [← hd]
      exact hkeyed d' (h.working d' hw)
  · show Geometry w.file (w.outer.apply g).view
    rw [Outer.view_apply]
    exact ⟨h.geometry.count.trans (hmax _).symm, h.geometry.size, fun h0 => (hg _).trans (h.geometry.unset h0)⟩
  · rw [← h.covered hR]
    show DB.maxPgno _ = _
    unfold DB.maxPgno
    rw [show (w.outer.apply g).committed.pages = _ from hcom]

/-- `begin_outer` keeps the invariant, the geometry and, when it succeeds, the view. -/
theorem Sized.begin {rc : Rc} (h : Sized R w) (hb : BeginEnds env w rc w')
    (ha : env .begin = .abort → R) :
    Sized R w' ∧ w'.file.pageSize = w.file.pageSize ∧ (rc = .ok → w'.outer.view = w.outer.view) := by
  cases hb with
  | held _ _ => exact ⟨h, rfl, fun _ => rfl⟩
  | opened _ hw =>
    have hv : w.outer.view = w.outer.committed := by simp [Outer.view, hw]
    refine ⟨⟨h.committed, ?_, h.unset, ?_, h.covered⟩, rfl, fun _ => hv.symm⟩
    · intro d hd
      cases hd
      exact h.committed
    · have hg := h.geometry
      rw [hv] at hg
      exact ⟨hg.count, hg.size, hg.unset⟩
  | refused _ => exact ⟨h.cleared, rfl, fun h => by cases h⟩
  | aborted hb => exact ⟨(h.abort (ha hb)).cleared, rfl, fun h => by cases h⟩

/-- `commit_outer` keeps the invariant. -/
theorem Sized.commit {rc : Rc} (h : Sized R w) (hc : CommitEnds env w rc w')
    (hs : env .savePageCount = .abort → R) (ha : env .commit = .abort → R)
    (hf : env .commit = .fail → env .rollback ≠ .fail → R) : Sized R w' := by
  cases hc with
  | idle _ => exact h
  | stale _ _ => exact h.cleared
  | committed d v saved _ hw _ _ =>
    have hv : w.outer.view = d := by simp [Outer.view, hw]
    have hg := h.geometry
    rw [hv] at hg
    refine ⟨h.working d hw, ?_, hg.unset, ⟨hg.count, hg.size, hg.unset⟩, fun _ => hg.count.symm⟩
    intro d' hd'
    cases hd'
  | rolledBack n saved _ _ hr =>
    have hR : R := by
      rcases hr with hr | hr | ⟨hr, hr'⟩
      · exact hs hr.1
      · exact ha hr
      · exact hf hr hr'
    refine ⟨h.committed, ?_, h.unset, ⟨(h.covered hR).symm, h.geometry.size, h.unset⟩, h.covered⟩
    intro d hd
    cases hd
  | stuck d v saved _ hw _ _ =>
    have hv : w.outer.view = d := by simp [Outer.view, hw]
    have hg := h.geometry
    rw [hv] at hg
    refine ⟨h.committed, ?_, h.unset, ⟨hg.count, hg.size, hg.unset⟩, h.covered⟩
    intro d' hd'
    cases hd'
    exact h.working d hw

end Steps

/-! ## The methods -/

section Methods

variable {R : Prop} {z : Zstd} {env : Env} {w : World}

/-- What the geometry proofs ask of a method. -/
abbrev KeepsSized {α : Type} (m : VFS α) (w : World) : Prop :=
  wp m (fun _ => Sized False) (fun w' => w'.outer.committed.Keyed) w

theorem zvfsRead_sized (iAmt : Nat) (iOfst : Int) (h : Sized R w) (ha : env .read = .abort → R) :
    KeepsSized (zvfsRead z env iAmt iOfst) w := by
  unfold zvfsRead KeepsSized
  simp only [wp_bind, wp_file, wp_ite, wp_pure, wp_query]
  refine ⟨fun _ => h.weaken, fun _ => ⟨fun _ => h.weaken, fun _ => ⟨fun _ => ?_, fun _ => ?_, fun hr => ?_, fun _ => ?_⟩⟩⟩
  · cases w.outer.view.pages.get (pgnoOf w.file.pageSize iOfst) <;> exact h.weaken
  · exact h.weaken
  · exact (h.abort (ha hr)).weaken
  · exact h.committed

/-- The first write fixes the page size; an empty table has no geometry to lose. -/
theorem learnPageSize_sized {n : Int} (h : Sized R w) (hn : n ≠ 0) :
    wp (learnPageSize env n)
      (fun _ w' => Sized R w' ∧ w'.file.pageSize = if w.file.pageSize = 0 then n else w.file.pageSize)
      (fun w' => w'.outer.committed.Keyed) w := by
  unfold learnPageSize
  simp only [wp_bind, wp_file, wp_ite, wp_pure, wp_setFile, wp_stmt]
  refine ⟨fun h0 => ?_, fun h0 => ⟨h, by simp [h0]⟩⟩
  rw [if_pos h0]
  have hcount : w.file.pageCount = 0 := by
    rw [h.geometry.count]
    exact DB.maxPgno_of_nil (h.geometry.unset h0)
  have hsize : w.file.fileSize = w.file.pageCount * n := by
    rw [h.geometry.size, hcount]
    simp
  have h₁ : Sized True { w with file := { w.file with pageSize := n } } := by
    refine ⟨h.committed, h.working, fun h' => absurd h' hn, ?_, fun _ => ?_⟩
    · exact ⟨h.geometry.count, hsize, fun h' => absurd h' hn⟩
    · exact (DB.maxPgno_of_nil (h.unset h0)).trans hcount.symm
  have hR : R → True := fun _ => trivial
  exact ⟨fun _ => ⟨(h₁.apply_meta (setPageSize n) _ fun _ => rfl).mono hR, rfl⟩, fun _ => ⟨h₁.mono hR, rfl⟩,
    fun _ => ⟨(h₁.abort trivial).mono hR, rfl⟩, fun _ => h.committed⟩

theorem storePage_sized {buf : Bytes} {iOfst : Int} (h : Sized R w) (hp : w.file.pageSize ≠ 0)
    (hk : 1 ≤ pgnoOf w.file.pageSize iOfst) (ha : env .page = .abort → R) :
    KeepsSized (storePage z env buf iOfst) w := by
  unfold storePage KeepsSized
  simp only [wp_bind, wp_file, wp_ite, wp_pure, wp_setFile, wp_stmt]
  refine ⟨fun _ => ⟨fun _ => ?_, by simp⟩, fun _ => ⟨by simp, fun _ => h.weaken⟩,
    fun hab => ⟨by simp, fun _ => (h.abort (ha hab)).weaken⟩, fun _ => h.committed⟩
  refine h.apply (fun d hd => hd.put hk _) hp ⟨?_, rfl, fun h0 => absurd h0 hp⟩
  rw [DB.maxPgno_put _ hk, ← h.geometry.count]

theorem zvfsWrite_sized {buf : Bytes} {iOfst : Int} (h : Sized R w)
    (hs : (Op.write buf iOfst).sized w.outer.view w.file)
    (hb : env .begin = .abort → R) (ha : env .page = .abort → R) :
    KeepsSized (zvfsWrite z env buf iOfst) w := by
  obtain ⟨hbuf, hk⟩ := hs
  have hn : (buf.length : Int) ≠ 0 := by simpa using hbuf
  unfold zvfsWrite KeepsSized
  rw [wp_bind]
  refine wp_mono (beginOuter_ends env w) ?_ (fun _ hc => hc.keyed h)
  intro rc w₁ hw₁
  obtain ⟨h₁, hps, -⟩ := h.begin hw₁ hb
  simp only [wp_ite, wp_bind, wp_pure]
  refine ⟨fun _ => ?_, fun _ => h₁.weaken⟩
  refine wp_mono (learnPageSize_sized h₁ hn) ?_ (fun _ hc => hc)
  rintro _ w₂ ⟨h₂, hps₂⟩
  rw [hps] at hps₂
  refine storePage_sized h₂ ?_ (by rw [hps₂]; exact hk) ha
  rw [hps₂]
  split <;> assumption

theorem cutPages_sized {nByte : Int} (h : Sized R w) (hp : w.file.pageSize ≠ 0)
    (hs : (Op.truncate nByte).sized w.outer.view w.file) (ha : env .page = .abort → R) :
    KeepsSized (cutPages env nByte) w := by
  obtain ⟨hn, hrow⟩ := hs.resolve_left hp
  unfold cutPages KeepsSized
  simp only [wp_bind, wp_file, wp_ite, wp_pure, wp_setFile, wp_stmt]
  refine ⟨fun _ => ⟨fun _ => ?_, by simp⟩, fun _ => ⟨by simp, fun _ => h.weaken⟩,
    fun hab => ⟨by simp, fun _ => (h.abort (ha hab)).weaken⟩, fun _ => h.committed⟩
  refine h.apply (fun d hd => hd.restrict _) hp ⟨?_, hn, fun h0 => absurd h0 hp⟩
  exact (h.view.maxPgno_restrict hrow).symm

theorem zvfsTruncate_sized {nByte : Int} (h : Sized R w)
    (hs : (Op.truncate nByte).sized w.outer.view w.file)
    (hb : env .begin = .abort → R) (ha : env .page = .abort → R) :
    KeepsSized (zvfsTruncate env nByte) w := by
  unfold zvfsTruncate KeepsSized
  simp only [wp_bind, wp_file, wp_ite, wp_pure]
  refine ⟨fun _ => h.weaken, fun hp => ?_⟩
  refine wp_mono (beginOuter_ends env w) ?_ (fun _ hc => hc.keyed h)
  intro rc w₁ hw₁
  obtain ⟨h₁, hps, hv⟩ := h.begin hw₁ hb
  refine ⟨fun hrc => ?_, fun _ => h₁.weaken⟩
  refine cutPages_sized h₁ (by rw [hps]; exact hp) ?_ ha
  rw [hv hrc]
  unfold Op.sized at hs ⊢
  rw [hps]
  exact hs

theorem zvfsSync_sized (h : Sized R w) (hs : env .savePageCount = .abort → R)
    (ha : env .commit = .abort → R) (hf : env .commit = .fail → env .rollback ≠ .fail → R)
    (hb : env .begin = .abort → R) : KeepsSized (zvfsSync env) w := by
  unfold zvfsSync KeepsSized
  rw [wp_bind]
  refine wp_mono (commitOuter_ends env w) ?_ (fun _ hc => hc.keyed h)
  intro rc w₁ hw₁
  have h₁ := h.commit hw₁ hs ha hf
  simp only [wp_ite, wp_bind, wp_file, wp_pure]
  refine ⟨fun _ => ⟨fun _ => ?_, fun _ => h₁.weaken⟩, fun _ => h₁.weaken⟩
  refine wp_mono (beginOuter_ends env w₁) ?_ (fun _ hc => hc.keyed h₁)
  intro rc' w₂ hw₂
  exact (h₁.begin hw₂ hb).1.weaken

theorem Sized.setLock (h : Sized R w) (level : Nat) :
    Sized R { w with file := { w.file with lockLevel := level } } :=
  ⟨h.committed, h.working, h.unset, ⟨h.geometry.count, h.geometry.size, h.geometry.unset⟩, h.covered⟩

theorem zvfsLock_sized (level : Nat) (h : Sized R w) (hb : env .begin = .abort → R) :
    KeepsSized (zvfsLock env level) w := by
  unfold zvfsLock KeepsSized
  simp only [wp_ite, wp_bind, wp_setFile, wp_pure]
  refine ⟨fun _ => ?_, fun _ => (h.setLock level).weaken⟩
  refine wp_mono (beginOuter_ends env w) ?_ (fun _ hc => hc.keyed h)
  intro rc w₁ hw₁
  have h₁ := (h.begin hw₁ hb).1
  exact ⟨fun _ => (h₁.setLock level).weaken, fun _ => h₁.weaken⟩

theorem zvfsUnlock_sized (level : Nat) (h : Sized R w) (hs : env .savePageCount = .abort → R)
    (ha : env .commit = .abort → R) (hf : env .commit = .fail → env .rollback ≠ .fail → R) :
    KeepsSized (zvfsUnlock env level) w := by
  unfold zvfsUnlock KeepsSized
  simp only [wp_ite, wp_bind, wp_file, wp_setFile, wp_pure]
  refine ⟨fun _ => ?_, fun _ => (h.setLock level).weaken⟩
  refine wp_mono (commitOuter_ends env w) ?_ (fun _ hc => hc.keyed h)
  intro rc w₁ hw₁
  exact ((h.commit hw₁ hs ha hf).setLock level).weaken

/-- Both states of the outer database are keyed. -/
structure Outer.Keyed (o : Outer) : Prop where
  committed : o.committed.Keyed
  working : ∀ d, o.working = some d → d.Keyed

theorem Outer.Keyed.rollback {o : Outer} (h : o.Keyed) : o.rollback.Keyed :=
  ⟨h.committed, fun _ hd => by cases hd⟩

theorem Outer.Keyed.commit {rc : Rc} {w' : World} (h : w.outer.Keyed) (hc : CommitEnds env w rc w') :
    w'.outer.Keyed := by
  cases hc with
  | idle _ => exact h
  | stale _ _ => exact h
  | committed d v saved _ hw _ _ => exact ⟨h.working d hw, fun _ hd => by cases hd⟩
  | rolledBack n saved _ _ _ => exact h.rollback
  | stuck d v saved _ hw _ _ =>
    refine ⟨h.committed, fun d' hd' => ?_⟩
    cases hd'
    exact h.working d hw

theorem Outer.Keyed.train {w' : World} (h : w.outer.Keyed) (ht : TrainEnds env w w') :
    w'.outer.Keyed := by
  cases ht with
  | skipped => exact h
  | aborted _ => exact h.rollback
  | stored blob _ =>
    show (w.outer.apply (saveDict blob)).Keyed
    unfold Outer.apply
    split
    · rename_i d hd
      refine ⟨h.committed, fun d' hd' => ?_⟩
      cases hd'
      exact h.working d hd
    · rename_i hn
      refine ⟨h.committed, fun d' hd' => ?_⟩
      simp [hn] at hd'
  | unstored blob _ => exact h
  | lost blob _ => exact h.rollback

theorem Faded.keyed {w' : World} (h : Faded w w') (hk : w.outer.Keyed) : w'.outer.committed.Keyed := by
  obtain ⟨p, v, hc, -⟩ := h.committed
  rw [hc]
  exact hk.committed

theorem zvfsClose_keyed {trained : Option Bytes} (h : w.outer.Keyed) :
    wp (zvfsClose env trained) (fun _ w' => w'.outer.committed.Keyed ∧ w'.outer.working = none)
      (fun w' => w'.outer.committed.Keyed) w := by
  unfold zvfsClose
  rw [wp_bind]
  refine wp_mono (commitOuter_ends env w) ?_ (fun _ hc => by rw [hc.committed]; exact h.committed)
  intro rc w₁ hw₁
  have h₁ := h.commit hw₁
  rw [wp_bind]
  refine wp_mono (trainDictionary_ends env trained w₁) ?_ (by rintro _ ⟨rfl, -⟩; exact h₁.committed)
  intro _ w₂ hw₂
  have h₂ := h₁.train hw₂
  simp only [wp_bind, wp_pure]
  refine wp_mono (outerDbClose_ends env w₂) ?_ (fun _ hf => hf.1.keyed h₂)
  intro _ w₃ hw₃
  exact ⟨hw₃.toFaded.keyed h₂, hw₃.working⟩

/-- The geometry read by `outer_db_init` is that of the committed table. -/
theorem Opens.sized {f : ZFile} {o : Outer} {log : List OuterEv} (hk : o.committed.Keyed)
    (hw : o.working = none) (h : Opens env o.committed f) : Sized False ⟨f, o, log⟩ := by
  have hv : o.view = o.committed := by simp [Outer.view, hw]
  refine ⟨hk, fun d hd => ?_, ?_, ?_, False.elim⟩
  · rw [show o.working = none from hw] at hd
    cases hd
  · intro h0
    cases h.geometry with
    | sized _ hps => exact absurd h0 (by simp; omega)
    | unsized _ _ hmax => exact hk.maxPgno_pos hmax
  · show Geometry f o.view
    rw [hv]
    cases h.geometry with
    | sized _ hps => exact ⟨rfl, by simp [Int.mul_comm], fun h0 => absurd h0 (by simp; omega)⟩
    | unsized _ _ hmax =>
      have hnil := hk.maxPgno_pos hmax
      exact ⟨(DB.maxPgno_of_nil hnil).symm, by simp, fun _ => hnil⟩

end Methods

/-! ## Runs -/

/-- The invariant of runs. -/
def Sys.Sized (s : Sys) : Prop :=
  s.Holds (Vfs.Sized False) fun o _ => o.committed.Keyed ∧ o.working = none

theorem Event.rollsBack_abort {e : Event} {c : Call} (hc : c ∈ e.op.calls) (ha : e.env c = .abort) :
    e.rollsBack = true := by
  have : e.op.calls.any (fun c => e.env c == .abort) = true :=
    List.any_eq_true.2 ⟨c, hc, by simp [ha]⟩
  simp [Event.rollsBack, this]

theorem Event.rollsBack_commit {e : Event} (hc : .commit ∈ e.op.calls) (hf : e.env .commit = .fail)
    (hr : e.env .rollback ≠ .fail) : e.rollsBack = true := by
  simp [Event.rollsBack, hc, hf, hr]

theorem code_sized {z : Zstd} {w : World} {e : Event} (h : Sized (e.rollsBack = true) w)
    (hs : e.op.sized w.outer.view w.file) (hc : ∀ t, e.op ≠ .close t) :
    KeepsSized (code z e.env e.op) w := by
  obtain ⟨op, env⟩ := e
  have ha : ∀ c ∈ op.calls, env c = .abort → (⟨op, env⟩ : Event).rollsBack = true :=
    fun c hm => Event.rollsBack_abort (e := ⟨op, env⟩) hm
  have hf : .commit ∈ op.calls → env .commit = .fail → env .rollback ≠ .fail →
      (⟨op, env⟩ : Event).rollsBack = true := Event.rollsBack_commit (e := ⟨op, env⟩)
  cases op with
  | «open» => exact h.weaken
  | close t => exact absurd rfl (hc t)
  | read iAmt iOfst => exact zvfsRead_sized iAmt iOfst h (ha _ (by simp [Op.calls]))
  | write buf iOfst =>
    have hw := zvfsWrite_sized (z := z) h hs (ha _ (by simp [Op.calls])) (ha _ (by simp [Op.calls]))
    simpa [code, KeepsSized] using hw
  | truncate nByte =>
    have hw := zvfsTruncate_sized h hs (ha _ (by simp [Op.calls])) (ha _ (by simp [Op.calls]))
    simpa [code, KeepsSized] using hw
  | sync =>
    have hw := zvfsSync_sized h (ha _ (by simp [Op.calls])) (ha _ (by simp [Op.calls]))
      (hf (by simp [Op.calls])) (ha _ (by simp [Op.calls]))
    simpa [code, KeepsSized] using hw
  | lock level =>
    have hw := zvfsLock_sized level h (ha _ (by simp [Op.calls]))
    simpa [code, KeepsSized] using hw
  | unlock level =>
    have hw := zvfsUnlock_sized level h (ha _ (by simp [Op.calls]))
      (ha _ (by simp [Op.calls])) (hf (by simp [Op.calls]))
    simpa [code, KeepsSized] using hw

/-- One call keeps the invariant. -/
theorem step_sized {z : Zstd} {s : Sys} {e : Event} (h : s.Sized) (he : KeepsGeometry s e) :
    (step z s e).Sized := by
  refine step_holds (C := fun w' => w'.outer.committed.Keyed) h ?_ ?_ ?_ (fun w hw => ⟨hw, rfl⟩)
  · rintro _ _ ⟨hk, hw⟩
    refine wp_mono (zvfsOpen_ends e.env hw) ?_ ?_
    · rintro rc w' ⟨hok, hno⟩
      refine ⟨fun hrc => ?_, fun hrc => ?_⟩
      · obtain ⟨⟨ho, -⟩, hopens⟩ := hok hrc
        obtain ⟨f, o, l⟩ := w'
        subst ho
        exact Opens.sized hk hw hopens
      · obtain ⟨⟨⟨v, hv⟩, -⟩, hw', -⟩ := hno hrc
        rw [hv]
        exact ⟨hk, hw'⟩
    · rintro w' ⟨⟨⟨v, hv⟩, -⟩, -⟩
      rw [hv]
      exact hk
  · intro f t _ _ hI
    exact zvfsClose_keyed ⟨hI.committed, hI.working⟩
  · intro f hf hc hI
    obtain ⟨hs, hr⟩ := he f hf
    exact code_sized ⟨hI.committed, hI.working, hI.unset, hI.geometry, hr⟩ hs hc

/-- **The geometry invariant.**  From a closed file whose page numbers start at 1, in every run of
calls that keep the geometry, however else the outer calls fail, the geometry is right after the
last call. -/
theorem geometry_run {z : Zstd} {s : Sys} {es : List Event} (h₀ : s.file = none)
    (hw : s.outer.working = none) (hk : s.outer.committed.Keyed)
    (h : Along (step z) KeepsGeometry s es) {f : ZFile} (hf : (run z s es).file = some f) :
    Geometry f (run z s es).outer.view := by
  have hs : s.Sized := by
    unfold Sys.Sized Sys.Holds
    rw [h₀]
    exact ⟨hk, hw⟩
  have hr : (run z s es).Sized :=
    Along.invariant (I := Sys.Sized) (fun _ _ hi he => step_sized hi he) hs h
  exact (hr.file hf).geometry

/-- A first page is committed; a second write of it is rolled back by SQLite, which keeps the
geometry because the committed table has the page too. -/
theorem geometry_run_rewrite :
    Geometry ⟨512, 1, 1, 512, none, 0, true⟩
      (run incompressible Sys.fresh [⟨.open, Env.fine⟩, ⟨.lock 2, Env.fine⟩,
        ⟨.write (zeros 512) 0, Env.fine⟩, ⟨.unlock 0, Env.fine⟩,
        ⟨.write (zeros 512) 0, Env.fine.but .page .abort⟩]).outer.view :=
  geometry_run rfl rfl (fun k hk => by simp [Sys.fresh, DB.empty] at hk) (by decide +kernel)
    (by decide +kernel)

/-- A `COMMIT` fails in `zvfs_sync` and the `ROLLBACK` takes the page back: the page count stays. -/
theorem geometry_lost_by_failed_commit :
    ∃ f, (run incompressible Sys.fresh [⟨.open, Env.fine⟩, ⟨.lock 2, Env.fine⟩,
        ⟨.write (zeros 512) 0, Env.fine⟩, ⟨.sync, Env.fine.but .commit .fail⟩]).file = some f ∧
      ¬ Geometry f (run incompressible Sys.fresh [⟨.open, Env.fine⟩, ⟨.lock 2, Env.fine⟩,
        ⟨.write (zeros 512) 0, Env.fine⟩, ⟨.sync, Env.fine.but .commit .fail⟩]).outer.view := by
  refine ⟨⟨512, 1, 1, 512, none, 2, false⟩, by decide +kernel, fun h => ?_⟩
  have hcount := h.count
  revert hcount
  decide +kernel

end PoxChat.Vfs
