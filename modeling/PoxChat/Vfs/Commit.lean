import PoxChat.Vfs.Specs

/-!
# Acknowledged writes

A write transaction of the inner database is a sequence of VFS calls that locks to RESERVED or
above, writes, truncates and syncs, and unlocks.  Its commit point is a `zvfs_sync`, which reports a
failed commit, or the `zvfs_unlock`, which does not.

* `pageEffects` — what the calls of a sequence ask of the page table.
* `Tracks` — the invariant inside an acknowledged sequence: the connection sees every effect so
  far, whatever failed and was reconciled on the way.
* `acked_sequence_committed` — when every call was acknowledged, the effects are committed exactly
  when the `COMMIT` of the last unlock succeeds or nothing was left for it to commit.
* `acked_write_lost` — an acknowledged write that is lost because that `COMMIT` fails.
-/

set_option autoImplicit false

namespace PoxChat.Vfs

open Lib Lib.Prog

/-- What a call asks of the page table, given the page size known so far. -/
def pageEffect (z : Zstd) (dict : Option Bytes) (st : Int × Table Int PageRow) :
    Op → Int × Table Int PageRow
  | .write buf iOfst =>
    let ps := if st.1 = 0 then (buf.length : Int) else st.1
    (ps, st.2.put (pgnoOf ps iOfst) (pageRow z dict (pgnoOf ps iOfst) buf))
  | .truncate nByte =>
    if st.1 = 0 then st
    else (st.1, st.2.restrict fun k => decide (k ≤ toInt32 (nByte.tdiv st.1)))
  | _ => st

def pageEffects (z : Zstd) (dict : Option Bytes) (st : Int × Table Int PageRow) (es : List Event) :
    Int × Table Int PageRow :=
  es.foldl (fun st e => pageEffect z dict st e.op) st

/-- SQLite never writes zero bytes. -/
def Op.nonempty : Op → Prop
  | .write buf _ => buf ≠ []
  | _ => True

/-- The calls that can stand between the lock and the unlock. -/
def Op.underLock : Op → Prop
  | .read _ _ | .write _ _ | .truncate _ | .sync => True
  | .lock level | .unlock level => 2 ≤ level
  | .open | .close _ => False

/-- The call returns `SQLITE_OK`. -/
def Acked (z : Zstd) (s : Sys) (e : Event) : Prop := (reply z s e).map (·.1) = some .ok

instance (z : Zstd) (s : Sys) (e : Event) : Decidable (Acked z s e) :=
  inferInstanceAs (Decidable (_ = _))

/-- The `COMMIT` of an unlock in state `s` succeeds, or it has no page to commit. -/
def Commits (s : Sys) (env : Env) : Prop :=
  s.outer.committed.pages = s.outer.view.pages ∨
    env .commit = .ok ∧ ∀ f, s.file = some f → ¬ RefreshAborts env (s.world f)

theorem commits_iff {s : Sys} {f : ZFile} {env : Env} (hf : s.file = some f) :
    Commits s env ↔ s.outer.committed.pages = s.outer.view.pages ∨
      env .commit = .ok ∧ ¬ RefreshAborts env (s.world f) := by
  unfold Commits
  rw [hf]
  simp only [Option.some.injEq, forall_eq']

/-! ## Before the first write -/

/-- As long as no page size is known, a rollback takes no page back. -/
def Unwritten (w : World) : Prop :=
  w.file.pageSize = 0 → w.outer.view.pages = w.outer.committed.pages

section Methods

variable {z : Zstd} {env : Env} {w w' : World}

theorem Unwritten.of_none (hw : w.outer.working = none) : Unwritten w := by
  intro _
  simp [Outer.view, hw]

theorem unwritten_envelope (env : Env) : Envelope env Unwritten (fun _ => True) where
  begin := by
    intro w rc w' h hb
    cases hb with
    | held _ _ => exact h
    | opened _ _ => exact fun _ => rfl
    | refused _ => exact h
    | aborted _ => exact Unwritten.of_none rfl
  commit := by
    intro w rc w' h hc
    cases hc with
    | idle _ => exact h
    | stale _ hw => exact Unwritten.of_none hw
    | committed d v saved _ _ _ _ => exact Unwritten.of_none rfl
    | rolledBack n saved _ _ _ => exact Unwritten.of_none rfl
    | stuck d v saved _ hw _ _ =>
      intro h0
      have hv := h h0
      simp only [Outer.view, hw] at hv
      exact hv
  read := fun _ _ => Unwritten.of_none rfl
  lock := fun h _ => h
  cut := fun _ _ => trivial

/-- What the page-size detection of a write does: an abort at this point takes no page back. -/
structure Learned (n : Int) (w w' : World) : Prop where
  file : w'.file = { w.file with pageSize := if w.file.pageSize = 0 then n else w.file.pageSize }
  pages : w'.outer.view.pages = w.outer.view.pages

theorem learnPageSize_ends (n : Int) (h : Unwritten w) :
    wp (learnPageSize env n) (fun _ => Learned n w) (fun _ => True) w := by
  unfold learnPageSize
  simp only [wp_bind, wp_file, wp_ite, wp_pure, wp_setFile, wp_stmt]
  refine ⟨fun h0 => ⟨fun _ => ⟨?_, ?_⟩, fun _ => ⟨?_, rfl⟩, fun _ => ⟨?_, (h h0).symm⟩, fun _ => trivial⟩,
    fun h0 => ⟨?_, rfl⟩⟩
  · simp [h0]
  · show ((w.outer.apply (setPageSize n)).view).pages = _
    rw [Outer.view_apply]
    rfl
  · simp [h0]
  · simp [h0, World.abort]
  · simp [h0]

/-- The `INSERT` of a write that succeeds. -/
theorem storePage_ends (buf : Bytes) (iOfst : Int) :
    wp (storePage z env buf iOfst)
      (fun rc w' => w'.file.pageSize = w.file.pageSize ∧ (rc = .ok →
        w'.file.dict = w.file.dict ∧ w'.file.lockLevel = w.file.lockLevel ∧
        w'.file.inTransaction = w.file.inTransaction ∧
        w'.outer.view.pages = w.outer.view.pages.put (pgnoOf w.file.pageSize iOfst)
          (pageRow z w.file.dict (pgnoOf w.file.pageSize iOfst) buf))) (fun _ => True) w := by
  unfold storePage
  simp only [wp_bind, wp_file, wp_ite, wp_pure, wp_setFile, wp_stmt]
  refine ⟨fun _ => ⟨fun _ => ?_, by simp⟩, fun _ => ?_, fun _ => ?_, fun _ => trivial⟩
  · simp [Outer.view_apply]
  · simp
  · simp [World.abort]

theorem write_unwritten {buf : Bytes} {iOfst : Int} (hb : buf ≠ []) (h : Unwritten w) :
    wp (do learnPageSize env buf.length; storePage z env buf iOfst) (fun _ => Unwritten)
      (fun _ => True) w := by
  rw [wp_bind]
  refine wp_mono (learnPageSize_ends _ h) ?_ (fun _ _ => trivial)
  intro _ w₁ h₁
  refine wp_mono (storePage_ends buf iOfst) ?_ (fun _ _ => trivial)
  rintro rc w₂ ⟨hps, -⟩ h0
  rw [hps, h₁.file] at h0
  by_cases hw : w.file.pageSize = 0
  · simp [hw] at h0
    exact absurd h0 hb
  · simp [hw] at h0

theorem cutPages_unwritten {nByte : Int} (hp : w.file.pageSize ≠ 0) :
    wp (cutPages env nByte) (fun _ => Unwritten) (fun _ => True) w := by
  unfold cutPages
  simp only [wp_bind, wp_file, wp_ite, wp_pure, wp_setFile, wp_stmt]
  exact ⟨fun _ => ⟨fun _ h0 => absurd h0 hp, by simp⟩, fun _ => ⟨by simp, fun _ h0 => absurd h0 hp⟩,
    fun _ => ⟨by simp, fun _ h0 => absurd h0 hp⟩, fun _ => trivial⟩

end Methods

/-- Holds of every state a run reaches. -/
theorem step_unwritten {z : Zstd} {s : Sys} {e : Event} (he : e.op.nonempty)
    (h : s.Holds Unwritten fun o _ => o.working = none) :
    (step z s e).Holds Unwritten fun o _ => o.working = none := by
  refine step_holds (C := fun _ => True) h ?_ ?_ ?_ (fun _ _ => rfl)
  · intro _ _ hw
    refine wp_mono (zvfsOpen_ends e.env hw) ?_ (fun _ _ => trivial)
    rintro rc w' ⟨hok, hno⟩
    refine ⟨fun hrc => Unwritten.of_none ?_, fun hrc => (hno hrc).2.1⟩
    rw [(hok hrc).1.outer]
    exact hw
  · intro f t _ _ _
    unfold zvfsClose
    simp only [wp_bind, wp_pure]
    refine wp_mono (commitOuter_ends e.env _) ?_ (fun _ _ => trivial)
    intro rc w₁ _
    refine wp_mono (trainDictionary_ends e.env t w₁) ?_ (fun _ _ => trivial)
    intro _ w₂ _
    exact wp_mono (outerDbClose_ends e.env w₂) (fun _ _ hs => hs.working) (fun _ _ => trivial)
  · intro f hf hc hI
    refine (unwritten_envelope e.env).code hI hc ?_ ?_
    · intro buf iOfst hop w hw
      rw [hop] at he
      exact write_unwritten he hw
    · intro nByte _ w _ hp
      exact cutPages_unwritten hp

/-! ## Inside an acknowledged sequence -/

/-- The file holds its lock and the connection sees the pages of `st`, which starts a transaction
or is in one unless everything is committed. -/
structure Tracks (dict : Option Bytes) (st : Int × Table Int PageRow) (w : World) : Prop where
  pageSize : w.file.pageSize = st.1
  dict : w.file.dict = dict
  pages : w.outer.view.pages = st.2
  unwritten : Unwritten w
  locked : 2 ≤ w.file.lockLevel
  flag : w.file.inTransaction = false → w.outer.working = none

section Sequence

variable {z : Zstd} {env : Env} {dict : Option Bytes} {st : Int × Table Int PageRow} {w w' : World}

theorem Tracks.begin_ok (h : Tracks dict st w) (hb : BeginEnds env w .ok w') :
    Tracks dict st w' ∧ w'.file.inTransaction = true := by
  have hu := (unwritten_envelope env).begin h.unwritten hb
  cases hb with
  | held ht _ => exact ⟨h, ht⟩
  | opened _ hw =>
    have hv : w.outer.view = w.outer.committed := by simp [Outer.view, hw]
    have hp := h.pages
    rw [hv] at hp
    exact ⟨⟨h.pageSize, h.dict, hp, hu, h.locked, fun hf => by cases hf⟩, rfl⟩

/-- With everything committed, `begin_outer` may also fail. -/
theorem Tracks.begin_any {rc : Rc} (h : Tracks dict st w) (hw : w.outer.working = none)
    (hb : BeginEnds env w rc w') : Tracks dict st w' := by
  have hu := (unwritten_envelope env).begin h.unwritten hb
  have hv : w.outer.view = w.outer.committed := by simp [Outer.view, hw]
  have hp := h.pages
  rw [hv] at hp
  cases hb with
  | held _ _ => exact h
  | opened _ _ => exact ⟨h.pageSize, h.dict, hp, hu, h.locked, fun hf => by cases hf⟩
  | refused _ => exact ⟨h.pageSize, h.dict, h.pages, hu, h.locked, fun _ => hw⟩
  | aborted _ => exact ⟨h.pageSize, h.dict, hp, hu, h.locked, fun _ => rfl⟩

theorem Tracks.commit_ok (h : Tracks dict st w) (hc : CommitEnds env w .ok w') :
    Tracks dict st w' ∧ w'.outer.working = none := by
  have hu := (unwritten_envelope env).commit h.unwritten hc
  cases hc with
  | idle ht => exact ⟨h, h.flag ht⟩
  | committed d v saved _ hw _ _ =>
    have hp := h.pages
    simp only [Outer.view, hw, Option.getD_some] at hp
    exact ⟨⟨h.pageSize, h.dict, hp, hu, h.locked, fun _ => rfl⟩, rfl⟩

theorem Tracks.setLock (h : Tracks dict st w) {level : Nat} (hl : 2 ≤ level) :
    Tracks dict st { w with file := { w.file with lockLevel := level } } :=
  ⟨h.pageSize, h.dict, h.pages, h.unwritten, hl, h.flag⟩

/-- What a call of an acknowledged sequence has to do. -/
abbrev TracksOk (z : Zstd) (env : Env) (dict : Option Bytes) (st : Int × Table Int PageRow) (op : Op)
    (w : World) : Prop :=
  wp (code z env op) (fun r w' => r.1 = .ok → Tracks dict (pageEffect z dict st op) w')
    (fun _ => True) w

theorem write_tracks {buf : Bytes} {iOfst : Int} (hb : buf ≠ []) (h : Tracks dict st w) :
    TracksOk z env dict st (.write buf iOfst) w := by
  unfold TracksOk code zvfsWrite
  simp only [wp_bind, wp_ite, wp_pure]
  refine wp_mono (beginOuter_ends env w) ?_ (fun _ _ => trivial)
  intro rc w₁ hw₁
  refine ⟨fun hrc => ?_, fun _ hok => by cases hok⟩
  subst hrc
  obtain ⟨h₁, ht⟩ := h.begin_ok hw₁
  refine wp_mono (learnPageSize_ends _ h₁.unwritten) ?_ (fun _ _ => trivial)
  intro _ w₂ h₂
  refine wp_mono (storePage_ends buf iOfst) ?_ (fun _ _ => trivial)
  rintro rc w₃ ⟨hps, hrest⟩ hrc
  obtain ⟨hd, hl, hi, hpages⟩ := hrest hrc
  have hps₂ : w₂.file.pageSize = (pageEffect z dict st (.write buf iOfst)).1 := by
    rw [h₂.file, h₁.pageSize]
    rfl
  have hd₂ : w₂.file.dict = dict := by
    rw [h₂.file]
    exact h₁.dict
  have hne : (pageEffect z dict st (.write buf iOfst)).1 ≠ 0 := by
    show (if st.1 = 0 then (buf.length : Int) else st.1) ≠ 0
    split
    · simpa using hb
    · assumption
  refine ⟨hps.trans hps₂, hd.trans hd₂, ?_, ?_, ?_, ?_⟩
  · rw [hpages, hps₂, hd₂, h₂.pages, h₁.pages]
    rfl
  · intro h0
    rw [hps, hps₂] at h0
    exact absurd h0 hne
  · rw [hl, h₂.file]
    exact h₁.locked
  · intro hf
    rw [hi, h₂.file] at hf
    simp [ht] at hf

theorem truncate_tracks {nByte : Int} (h : Tracks dict st w) :
    TracksOk z env dict st (.truncate nByte) w := by
  unfold TracksOk code zvfsTruncate
  simp only [wp_bind, wp_file, wp_ite, wp_pure]
  refine ⟨fun h0 _ => ?_, fun h0 => ?_⟩
  · have hst : pageEffect z dict st (.truncate nByte) = st := by
      rw [h.pageSize] at h0
      simp [pageEffect, h0]
    rw [hst]
    exact h
  rw [h.pageSize] at h0
  refine wp_mono (beginOuter_ends env w) ?_ (fun _ _ => trivial)
  intro rc w₁ hw₁
  refine ⟨fun hrc => ?_, fun _ hok => by cases hok⟩
  subst hrc
  obtain ⟨h₁, ht⟩ := h.begin_ok hw₁
  have hst : pageEffect z dict st (.truncate nByte) =
      (st.1, st.2.restrict fun k => decide (k ≤ toInt32 (nByte.tdiv st.1))) := by
    simp [pageEffect, h0]
  unfold cutPages
  simp only [wp_bind, wp_file, wp_ite, wp_pure, wp_setFile, wp_stmt]
  refine ⟨fun _ => ⟨fun _ _ => ?_, by simp⟩, fun _ => ⟨by simp, fun _ hok => by cases hok⟩,
    fun _ => ⟨by simp, fun _ hok => by cases hok⟩, fun _ => trivial⟩
  rw [hst]
  refine ⟨h₁.pageSize, h₁.dict, ?_, ?_, h₁.locked, fun hf => by simp [ht] at hf⟩
  · simp only [Outer.view_apply, h₁.pageSize, h₁.pages]
  · intro hz
    exact absurd (h₁.pageSize.symm.trans hz) h0

theorem sync_tracks (h : Tracks dict st w) : TracksOk z env dict st .sync w := by
  unfold TracksOk code zvfsSync
  simp only [wp_bind, wp_file, wp_ite, wp_pure]
  refine wp_mono (commitOuter_ends env w) ?_ (fun _ _ => trivial)
  intro rc w₁ hw₁
  refine ⟨fun hrc => ?_, fun _ hok => by cases hok⟩
  subst hrc
  obtain ⟨h₁, hn⟩ := h.commit_ok hw₁
  refine ⟨fun _ => ?_, fun _ _ => h₁⟩
  exact wp_mono (beginOuter_ends env w₁) (fun _ _ hw₂ _ => h₁.begin_any hn hw₂) (fun _ _ => trivial)

/-- A lock that is granted starts a sequence, from any state a run reaches. -/
theorem first_lock_tracks {level : Nat} (hl : 2 ≤ level) (h : Unwritten w) :
    wp (code z env (.lock level)) (fun r w' => r.1 = .ok →
      Tracks w.file.dict (w.file.pageSize, w.outer.view.pages) w') (fun _ => True) w := by
  unfold code zvfsLock
  simp only [wp_bind, wp_ite, wp_setFile, wp_pure]
  refine ⟨fun _ => ?_, fun hn => absurd hl hn⟩
  refine wp_mono (beginOuter_ends env w) ?_ (fun _ _ => trivial)
  intro rc w₁ hw₁
  refine ⟨fun hrc _ => ?_, fun _ hok => by cases hok⟩
  subst hrc
  have hu := (unwritten_envelope env).begin h hw₁
  cases hw₁ with
  | held ht _ => exact ⟨rfl, rfl, rfl, hu, hl, fun hf => by simp [ht] at hf⟩
  | opened _ hw => exact ⟨rfl, rfl, by simp [Outer.view, hw], hu, hl, fun hf => by cases hf⟩

theorem lock_tracks {level : Nat} (hl : 2 ≤ level) (h : Tracks dict st w) :
    TracksOk z env dict st (.lock level) w := by
  refine wp_mono (first_lock_tracks hl h.unwritten) ?_ (fun _ hc => hc)
  intro r w' hw' hok
  have ht := hw' hok
  rw [h.dict, h.pageSize, h.pages] at ht
  exact ht

theorem unlock_tracks {level : Nat} (hl : 2 ≤ level) (h : Tracks dict st w) :
    TracksOk z env dict st (.unlock level) w := by
  unfold TracksOk code zvfsUnlock
  simp only [wp_bind, wp_file, wp_ite, wp_setFile, wp_pure]
  exact ⟨fun hlt => absurd hlt.1 (by omega), fun _ _ => h.setLock hl⟩

theorem read_tracks {iAmt : Nat} {iOfst : Int} (h : Tracks dict st w) :
    TracksOk z env dict st (.read iAmt iOfst) w := by
  unfold TracksOk code zvfsRead
  simp only [wp_bind, wp_file, wp_ite, wp_pure, wp_query]
  refine ⟨fun _ hok => (by cases hok), fun _ => ⟨fun _ hok => (by cases hok), fun _ => ⟨fun _ => ?_, ?_, ?_, ?_⟩⟩⟩
  · cases w.outer.view.pages.get (pgnoOf w.file.pageSize iOfst) <;> exact fun _ => h
  · exact fun _ hok => by cases hok
  · exact fun _ hok => by cases hok
  · exact fun _ => trivial

theorem code_tracks {op : Op} (hn : op.nonempty) (hu : op.underLock) (h : Tracks dict st w) :
    TracksOk z env dict st op w := by
  cases op with
  | «open» => exact hu.elim
  | close t => exact hu.elim
  | read iAmt iOfst => exact read_tracks h
  | write buf iOfst => exact write_tracks hn h
  | truncate nByte => exact truncate_tracks h
  | sync => exact sync_tracks h
  | lock level => exact lock_tracks hu h
  | unlock level => exact unlock_tracks hu h

/-- The unlock that ends a sequence commits the pages or, unnoticed, does not. -/
theorem last_unlock {level : Nat} (hl : level < 2) (h : Tracks dict st w) :
    wp (code z env (.unlock level))
      (fun _ w' => w'.outer.committed.pages = st.2 ↔
        w.outer.committed.pages = w.outer.view.pages ∨ env .commit = .ok ∧ ¬ RefreshAborts env w)
      (fun _ => True) w := by
  unfold code zvfsUnlock
  simp only [wp_bind, wp_file, wp_ite, wp_setFile, wp_pure]
  refine ⟨fun _ => ?_, fun hn => absurd ⟨hl, h.locked⟩ hn⟩
  refine wp_mono (commitOuter_ends env w) ?_ (fun _ _ => trivial)
  intro rc w₁ hw₁
  have hnone : w.outer.working = none → w.outer.view = w.outer.committed := by
    intro hw
    simp [Outer.view, hw]
  cases hw₁ with
  | idle ht =>
    have hv := hnone (h.flag ht)
    rw [← h.pages, hv]
    simp
  | stale _ hw =>
    rw [← h.pages, hnone hw]
    simp [World.cleared]
  | committed d v saved _ hw hc hr =>
    have hp := h.pages
    simp only [Outer.view, hw, Option.getD_some] at hp
    exact ⟨fun _ => .inr ⟨hc, hr⟩, fun _ => hp⟩
  | rolledBack n saved _ _ hr =>
    rw [← h.pages]
    refine ⟨fun hp => .inl hp, fun hp => hp.resolve_right ?_⟩
    rintro ⟨hc, hnr⟩
    rcases hr with hr | hr | ⟨hr, -⟩
    · exact hnr hr
    · simp [hc] at hr
    · simp [hc] at hr
  | stuck d v saved _ _ hc _ =>
    rw [← h.pages]
    refine ⟨fun hp => .inl hp, fun hp => hp.resolve_right ?_⟩
    rintro ⟨hc', -⟩
    simp [hc'] at hc

end Sequence

/-! ## Whole sequences -/

section Runs

variable {z : Zstd} {s : Sys} {f : ZFile} {dict : Option Bytes} {st : Int × Table Int PageRow}

/-- An acknowledged call on an open file, from its program. -/
theorem acked_call {e : Event} {T : World → Prop} (hf : s.file = some f) (ho : e.op ≠ .open)
    (hc : ∀ t, e.op ≠ .close t)
    (h : wp (code z e.env e.op) (fun r w' => r.1 = .ok → T w') (fun _ => True) (s.world f))
    (ha : Acked z s e) : ∃ f', (step z s e).file = some f' ∧ T ((step z s e).world f') := by
  have hcall := call_of_wp (z := z) (P := fun s' r => r.map (·.1) = some .ok →
    ∃ f', s'.file = some f' ∧ T (s'.world f')) hf ho hc h
    (fun r w' hT hok => ⟨w'.file, rfl, hT (by simpa using hok)⟩) (fun _ _ hok => by cases hok)
  exact hcall ha

theorem body_tracks {body : List Event} (hb : ∀ e ∈ body, e.op.nonempty ∧ e.op.underLock)
    (hf : s.file = some f) (h : Tracks dict st (s.world f)) (ha : Along (step z) (Acked z) s body) :
    ∃ f', (run z s body).file = some f' ∧
      Tracks dict (pageEffects z dict st body) ((run z s body).world f') := by
  induction body generalizing s f st with
  | nil => exact ⟨f, hf, h⟩
  | cons e body ih =>
    obtain ⟨hn, hu⟩ := hb e (by simp)
    have ho : e.op ≠ .open := fun h => by rw [h] at hu; exact hu
    have hc : ∀ t, e.op ≠ .close t := fun t h => by rw [h] at hu; exact hu
    obtain ⟨f₁, hf₁, h₁⟩ := acked_call hf ho hc (code_tracks hn hu h) ha.1
    exact ih (fun e he => hb e (by simp [he])) hf₁ h₁ ha.2

/-- **No acknowledged write is lost, up to the last `COMMIT`.**  In a state that a run reaches, let
a sequence lock to RESERVED, make any calls under the lock and unlock, with every call returning
`SQLITE_OK`.  Its writes and truncates are the committed page table exactly when the `COMMIT` of the
unlock succeeds, or had no page left to commit. -/
theorem acked_sequence_committed {es body : List Event} {level level' : Nat} {env env' : Env}
    (hes : ∀ e ∈ es, e.op.nonempty) (hs : s = run z Sys.fresh es) (hf : s.file = some f)
    (hl : 2 ≤ level) (hl' : level' < 2) (hb : ∀ e ∈ body, e.op.nonempty ∧ e.op.underLock)
    (ha : Along (step z) (Acked z) s (⟨.lock level, env⟩ :: body ++ [⟨.unlock level', env'⟩])) :
    (run z s (⟨.lock level, env⟩ :: body ++ [⟨.unlock level', env'⟩])).outer.committed.pages =
        (pageEffects z f.dict (f.pageSize, s.outer.view.pages) body).2 ↔
      Commits (run z s (⟨.lock level, env⟩ :: body)) env' := by
  have hu : s.Holds Unwritten fun o _ => o.working = none := by
    have hal : Along (step z) (fun _ e => e.op.nonempty) Sys.fresh es :=
      Along.of_forall (fun e he _ => hes e he) _
    rw [hs]
    exact hal.invariant (fun _ _ hi he => step_unwritten he hi) rfl
  obtain ⟨⟨ha₀, ha₁⟩, ha₂, -⟩ := Along.append.1 ha
  obtain ⟨f₁, hf₁, h₁⟩ := acked_call hf (by simp) (by simp) (first_lock_tracks hl (hu.file hf)) ha₀
  obtain ⟨f₂, hf₂, h₂⟩ := body_tracks hb hf₁ h₁ ha₁
  have hlast := call_of_wp (z := z) (e := ⟨.unlock level', env'⟩)
    (P := fun s' r => r.map (·.1) = some .ok → (s'.outer.committed.pages = _ ↔ _)) hf₂ (by simp)
    (by simp) (last_unlock hl' h₂) (fun _ _ hw _ => hw) (fun _ _ hok => by cases hok)
  have hend := hlast ha₂
  have hrun : run z s (⟨.lock level, env⟩ :: body ++ [⟨.unlock level', env'⟩]) =
      step z (run z (step z s ⟨.lock level, env⟩) body) ⟨.unlock level', env'⟩ := by
    simp [run]
  have hbefore : run z s (⟨.lock level, env⟩ :: body) = run z (step z s ⟨.lock level, env⟩) body := rfl
  rw [hrun, hbefore, commits_iff hf₂]
  exact hend

end Runs

/-- A page written under the lock is committed by the unlock. -/
theorem acked_sequence_one_page :
    (run incompressible (run incompressible Sys.fresh [⟨.open, Env.fine⟩])
      (⟨.lock 2, Env.fine⟩ :: [⟨.write (zeros 512) 0, Env.fine⟩] ++
        [⟨.unlock 0, Env.fine⟩])).outer.committed.pages =
      (pageEffects incompressible ZFile.zero.dict (ZFile.zero.pageSize,
        (run incompressible Sys.fresh [⟨.open, Env.fine⟩]).outer.view.pages)
        [⟨.write (zeros 512) 0, Env.fine⟩]).2 :=
  (acked_sequence_committed (by simp [Op.nonempty]) rfl (by decide) (by decide) (by decide)
    (fun e he => by rw [List.mem_singleton.1 he]; exact ⟨show zeros 512 ≠ [] by decide, trivial⟩)
    (by decide +kernel)).2
    (.inr ⟨rfl, fun f _ h => by cases h.1⟩)

/-- Every call is acknowledged, the unlock included, and the page is gone: its `COMMIT` failed. -/
theorem acked_write_lost :
    Along (step incompressible) (Acked incompressible) Sys.fresh [⟨.open, Env.fine⟩,
      ⟨.lock 2, Env.fine⟩, ⟨.write (zeros 512) 0, Env.fine⟩, ⟨.unlock 0, Env.fine.but .commit .fail⟩] ∧
    (run incompressible Sys.fresh [⟨.open, Env.fine⟩, ⟨.lock 2, Env.fine⟩,
      ⟨.write (zeros 512) 0, Env.fine⟩, ⟨.unlock 0, Env.fine.but .commit .fail⟩]).outer.committed.pages =
      [] ∧
    (pageEffects incompressible none (0, []) [⟨.write (zeros 512) 0, Env.fine⟩]).2 =
      [(1, ⟨zeros 512, .raw⟩)] := by
  decide +kernel

end PoxChat.Vfs
