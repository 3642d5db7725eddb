import PoxChat.Vfs.PageStore

/-!
# Crash recovery

After a crash the outer database is at its last committed state; `zvfs_open` then has to find the
geometry again, from `meta.page_size`, from `MAX(pgno)` and, failing that, from the header of page 1.

* `Stored z ps H d m` — the tables of `d` hold the pages of `m`, and whatever page size can be found
  in them is `ps`.  `H` is whether the header of page 1 can be relied on.
* `Survives` — the calls the result is about: whole pages of `ps` bytes under a page number that an
  `int` holds, dictionaries that load, and either no outer call that fails (only crashes) or page-1
  images whose header does not contradict `ps`.
* `recovery` — in every run of such calls, cut anywhere, a reopen that succeeds exposes exactly the
  page map of the last commit, whatever `meta.page_count` says.
* `recovery_wraps` — past the `int` range a committed page is not found again.
-/

set_option autoImplicit false

namespace PoxChat.Vfs

open Lib Lib.Prog

/-! ## Rollbacks and the history -/

theorem replay_append (log evs : List OuterEv) :
    replay (log ++ evs) = evs.foldl Hist.step (replay log) := by
  simp [replay, List.foldl_append]

theorem foldl_rollback_committed (n : Nat) (h : Hist) :
    ((List.replicate n OuterEv.rollback).foldl Hist.step h).committed = h.committed := by
  induction n generalizing h with
  | zero => rfl
  | succ n ih =>
    rw [List.replicate_succ, List.foldl_cons, ih]
    rfl

theorem foldl_rollback_working (n : Nat) (h : Hist) (hw : h.working = none) :
    (List.replicate n OuterEv.rollback).foldl Hist.step h = h := by
  induction n with
  | zero => rfl
  | succ n ih =>
    have hs : Hist.step h .rollback = h := by
      obtain ⟨c, wk⟩ := h
      subst hw
      rfl
    rw [List.replicate_succ, List.foldl_cons, hs, ih]

/-- The committed page map does not depend on rollbacks. -/
theorem replay_rolled (w : World) (n : Nat) :
    (replay (w.rolled n)).committed = (replay w.log).committed := by
  rw [World.rolled, replay_append, foldl_rollback_committed]

theorem replay_rolled_succ (w : World) (n : Nat) : (replay (w.rolled (n + 1))).working = none := by
  rw [World.rolled, replay_append, List.replicate_succ, List.foldl_cons,
    foldl_rollback_working n _ rfl]
  rfl

/-! ## The invariant -/

/-- The tables of `d` hold exactly the pages of `m`, all of them of `ps` bytes, and say nothing else
about the page size than `ps`. -/
structure Stored (z : Zstd) (ps : Int) (H : Prop) (d : DB) (m : PageMap) : Prop where
  rep : Rep z d.loadedDict d.pages m
  whole : ∀ k page, m.get k = some page → 1 ≤ k ∧ k < 2147483648 ∧ (page.length : Int) = ps
  inMeta : d.pageSize = none ∨ d.pageSize = some ps
  sized : ¬ H → d.pages ≠ [] → d.pageSize = some ps
  header : H → ∀ row, d.pages.get 1 = some row →
    headerPageSize row = none ∨ headerPageSize row = some ps

/-- The outer database holds the page maps of its history. -/
structure Remembers (z : Zstd) (ps : Int) (H : Prop) (o : Outer) (h : Hist) : Prop where
  committed : Stored z ps H o.committed h.committed
  working : Option.Rel (Stored z ps H) o.working h.working

/-- The invariant of an open file. -/
structure Recoverable (z : Zstd) (ps : Int) (H : Prop) (w : World) : Prop where
  outer : Remembers z ps H w.outer (replay w.log)
  pageSize : w.file.pageSize = 0 ∨ w.file.pageSize = ps
  dict : w.file.dict = w.outer.committed.loadedDict
  workingDict : ∀ d, w.outer.working = some d → w.file.dict = d.loadedDict
  known : ¬ H → w.file.pageSize = ps → w.outer.view.pageSize = some ps

/-- What a crash leaves behind. -/
def Kept (z : Zstd) (ps : Int) (H : Prop) (w : World) : Prop :=
  Stored z ps H w.outer.committed (replay w.log).committed

section Steps

variable {z : Zstd} {ps : Int} {H : Prop} {env : Env} {w w' : World} {d : DB} {m : PageMap}

theorem Stored.setPageCount (h : Stored z ps H d m) (v : Option Int) :
    Stored z ps H { d with pageCount := v } m :=
  ⟨h.rep, h.whole, h.inMeta, h.sized, h.header⟩

theorem Stored.setPageSize (h : Stored z ps H d m) : Stored z ps H { d with pageSize := some ps } m :=
  ⟨h.rep, h.whole, .inr rfl, fun _ _ => rfl, h.header⟩

/-- The first dictionary changes no stored page. -/
theorem Stored.saveDict (h : Stored z ps H d m) (hd : d.loadedDict = none) (blob : Bytes) :
    Stored z ps H (saveDict blob d) m := by
  have hrep := h.rep
  rw [hd] at hrep
  exact ⟨hrep.of_none _, h.whole, h.inMeta, h.sized, h.header⟩

theorem Stored.put (h : Stored z ps H d m) {k : Int} {page : Bytes} (hk : 1 ≤ k)
    (hk' : k < 2147483648) (hlen : (page.length : Int) = ps) (hps : ¬ H → d.pageSize = some ps)
    (hh : H → k = 1 → headerPageSize ⟨page, .raw⟩ = none ∨ headerPageSize ⟨page, .raw⟩ = some ps) :
    Stored z ps H { d with pages := d.pages.put k (pageRow z d.loadedDict k page) } (m.put k page) := by
  refine ⟨h.rep.put k (pageRow_encodes z _ k page), ?_, h.inMeta, fun hn _ => hps hn, ?_⟩
  · intro k' page' hget
    rw [Table.get_put] at hget
    split at hget
    · cases hget
      omega
    · exact h.whole k' page' hget
  · intro hH row hrow
    rw [Table.get_put] at hrow
    split at hrow
    · rename_i hk1
      cases hrow
      have hraw : pageRow z d.loadedDict k page = ⟨page, .raw⟩ := by
        unfold pageRow
        rw [if_neg (by omega)]
      rw [hraw]
      exact hh hH hk1
    · exact h.header hH row hrow

theorem Stored.restrict (h : Stored z ps H d m) (p : Int → Bool) :
    Stored z ps H { d with pages := d.pages.restrict p } (m.restrict p) := by
  refine ⟨h.rep.restrict p, ?_, h.inMeta, fun hn hne => h.sized hn ?_, ?_⟩
  · intro k page hget
    rw [Table.get_restrict] at hget
    split at hget
    · exact h.whole k page hget
    · cases hget
  · intro hnil
    exact hne (by rw [hnil]; rfl)
  · intro hH row hrow
    rw [Table.get_restrict] at hrow
    split at hrow
    · exact h.header hH row hrow
    · cases hrow

theorem Recoverable.kept (h : Recoverable z ps H w) : Kept z ps H w := h.outer.committed

theorem Cut.kept (hc : Cut env w w') (h : Recoverable z ps H w) : Kept z ps H w' := by
  obtain ⟨n, hn⟩ := hc.log
  unfold Kept
  rw [hc.committed, hn, show w.log ++ List.replicate n .rollback = w.rolled n from rfl, replay_rolled]
  exact h.kept

/-- A rollback, where the header of page 1 can be relied on. -/
theorem Recoverable.abort (h : Recoverable z ps H w) (hH : H) : Recoverable z ps H w.abort := by
  have hr : replay w.abort.log = { replay w.log with working := none } := replay_snoc _ _
  refine ⟨?_, h.pageSize, h.dict, fun d hd => (by cases hd), fun hn => absurd hH hn⟩
  rw [hr]
  exact ⟨h.outer.committed, .none⟩

theorem Recoverable.cleared (h : Recoverable z ps H w) : Recoverable z ps H w.cleared :=
  ⟨h.outer, h.pageSize, h.dict, h.workingDict, h.known⟩

theorem Recoverable.begin {rc : Rc} (h : Recoverable z ps H w) (hb : BeginEnds env w rc w')
    (ha : env .begin = .abort → H) : Recoverable z ps H w' := by
  cases hb with
  | held _ _ => exact h
  | opened _ hw =>
    have hv : w.outer.view = w.outer.committed := by simp [Outer.view, hw]
    have hknown := h.known
    rw [hv] at hknown
    refine ⟨?_, h.pageSize, h.dict, ?_, hknown⟩
    · rw [replay_snoc]
      exact ⟨h.outer.committed, .some h.outer.committed⟩
    · intro d hd
      cases hd
      exact h.dict
  | refused _ => exact h.cleared
  | aborted hb => exact (h.abort (ha hb)).cleared

/-- What the working state holds is the working page map of the history. -/
theorem Remembers.get_working {o : Outer} {hist : Hist} (h : Remembers z ps H o hist)
    (hw : o.working = some d) : ∃ m, hist.working = some m ∧ Stored z ps H d m := by
  have hrel := h.working
  rw [hw] at hrel
  cases hm : hist.working with
  | none => rw [hm] at hrel; cases hrel
  | some m =>
    rw [hm] at hrel
    cases hrel with
    | some hs => exact ⟨m, rfl, hs⟩

theorem Recoverable.commit {rc : Rc} (h : Recoverable z ps H w) (hc : CommitEnds env w rc w')
    (hH : ∀ c, Fails env c → H) : Recoverable z ps H w' := by
  cases hc with
  | idle _ => exact h
  | stale _ _ => exact h.cleared
  | committed d v saved _ hw _ _ =>
    obtain ⟨m, hm, hs⟩ := h.outer.get_working hw
    have hknown := h.known
    simp only [Outer.view, hw, Option.getD_some] at hknown
    refine ⟨?_, h.pageSize, h.workingDict d hw, fun d' hd' => (by cases hd'), hknown⟩
    rw [replay_snoc]
    simp only [Hist.step, hm, Option.getD_some]
    exact ⟨hs.setPageCount v, .none⟩
  | rolledBack n saved _ _ hr =>
    have hh : H := by
      rcases hr with hr | hr | ⟨hr, -⟩
      · exact hH _ (.inr hr.1)
      · exact hH _ (.inr hr)
      · exact hH _ (.inl hr)
    have hlog : w.log ++ .rollback :: List.replicate n .rollback = w.rolled (n + 1) := rfl
    refine ⟨?_, h.pageSize, h.dict, fun d' hd' => (by cases hd'), fun hn => absurd hh hn⟩
    rw [hlog]
    refine ⟨?_, ?_⟩
    · rw [replay_rolled]
      exact h.outer.committed
    · rw [replay_rolled_succ]
      exact .none
  | stuck d v saved _ hw hcf _ =>
    have hh : H := hH _ (.inl hcf)
    obtain ⟨m, hm, hs⟩ := h.outer.get_working hw
    refine ⟨⟨h.outer.committed, ?_⟩, h.pageSize, h.dict, ?_, fun hn => absurd hh hn⟩
    · show Option.Rel _ (some _) (replay w.log).working
      rw [hm]
      exact .some (hs.setPageCount v)
    · intro d' hd'
      cases hd'
      exact h.workingDict d hw

theorem recoverable_envelope (hH : ∀ c, Fails env c → H) :
    Envelope env (Recoverable z ps H) (Kept z ps H) where
  begin := fun h hb => h.begin hb fun ha => hH _ (.inr ha)
  commit := fun h hc => h.commit hc hH
  read := fun h ha => h.abort (hH _ (.inr ha))
  lock := fun h _ => ⟨h.outer, h.pageSize, h.dict, h.workingDict, h.known⟩
  cut := fun h hc => hc.kept h

/-- A statement acts on the state the connection sees. -/
theorem Remembers.apply {o : Outer} {hist : Hist} (h : Remembers z ps H o hist) (g : DB → DB)
    (g' : PageMap → PageMap)
    (hg : ∀ m, Stored z ps H o.view m → Stored z ps H (g o.view) (g' m)) :
    Remembers z ps H (o.apply g) (hist.apply g') := by
  unfold Outer.apply Hist.apply
  cases hd : o.working with
  | none =>
    have hv : o.view = o.committed := by simp [Outer.view, hd]
    have hm : hist.working = none := by
      have hrel := h.working
      rw [hd] at hrel
      cases hm : hist.working with
      | none => rfl
      | some m => rw [hm] at hrel; cases hrel
    rw [hv] at hg
    rw [hm]
    exact ⟨hg _ h.committed, .none⟩
  | some d =>
    have hv : o.view = d := by simp [Outer.view, hd]
    obtain ⟨m, hm, hs⟩ := h.get_working hd
    rw [hv] at hg
    rw [hm]
    exact ⟨h.committed, .some (hg m hs)⟩

theorem Hist.apply_id (h : Hist) : h.apply id = h := by
  obtain ⟨c, wk⟩ := h
  cases wk <;> rfl

theorem Recoverable.viewDict (h : Recoverable z ps H w) : w.file.dict = w.outer.view.loadedDict := by
  unfold Outer.view
  cases hw : w.outer.working with
  | none => exact h.dict
  | some d => exact h.workingDict d hw

/-- A statement that keeps the dictionary and the page size the file knows. -/
theorem Recoverable.apply {g : DB → DB} {evs : List OuterEv} {f : ZFile} (h : Recoverable z ps H w)
    (hout : Remembers z ps H (w.outer.apply g) (replay (w.log ++ evs)))
    (hps : f.pageSize = 0 ∨ f.pageSize = ps) (hd : f.dict = w.file.dict)
    (hg : ∀ d, (g d).loadedDict = d.loadedDict)
    (hk : ¬ H → f.pageSize = ps → (g w.outer.view).pageSize = some ps) :
    Recoverable z ps H ⟨f, w.outer.apply g, w.log ++ evs⟩ := by
  refine ⟨hout, hps, ?_, ?_, ?_⟩
  · show f.dict = (w.outer.apply g).committed.loadedDict
    rw [hd]
    unfold Outer.apply
    split
    · exact h.dict
    · exact h.dict.trans (hg _).symm
  · intro d hd'
    show f.dict = d.loadedDict
    rw [hd]
    cases hw : w.outer.working with
    | none => simp [Outer.apply, hw] at hd'
    | some d' =>
      simp only [Outer.apply, hw, Option.some.injEq] at hd'
      rw [← hd', hg]
      exact h.workingDict d' hw
  · intro hn hf
    show (w.outer.apply g).view.pageSize = _
    rw [Outer.view_apply]
    exact hk hn hf

theorem learnPageSize_recoverable (h : Recoverable z ps H w)
    (hH : ∀ c, Fails env c → H) :
    wp (learnPageSize env ps) (fun _ w' => Recoverable z ps H w' ∧ w'.file.pageSize = ps)
      (Kept z ps H) w := by
  unfold learnPageSize
  simp only [wp_bind, wp_file, wp_ite, wp_pure, wp_setFile, wp_stmt]
  refine ⟨fun h0 => ?_, fun h0 => ⟨h, h.pageSize.resolve_left h0⟩⟩
  have h₁ : H → Recoverable z ps H { w with file := { w.file with pageSize := ps } } := fun hh =>
    ⟨h.outer, .inr rfl, h.dict, h.workingDict, fun hn => absurd hh hn⟩
  refine ⟨fun _ => ⟨?_, trivial⟩, fun hf => ⟨h₁ (hH _ (.inl hf)), trivial⟩,
    fun ha => ⟨(h₁ (hH _ (.inr ha))).abort (hH _ (.inr ha)), rfl⟩, fun _ => h.kept⟩
  refine h.apply ?_ (.inr rfl) rfl (fun _ => rfl) (fun _ _ => rfl)
  rw [List.append_nil]
  have hr := h.outer.apply (setPageSize ps) id (fun m hs => hs.setPageSize)
  rw [Hist.apply_id] at hr
  exact hr

theorem storePage_recoverable {buf : Bytes} {iOfst : Int} (h : Recoverable z ps H w) (hps : 0 < ps)
    (hf : w.file.pageSize = ps) (hlen : (buf.length : Int) = ps) (h0 : 0 ≤ iOfst)
    (hk : iOfst / ps + 1 < 2147483648)
    (hh : H → iOfst / ps = 0 → headerPageSize ⟨buf, .raw⟩ = none ∨ headerPageSize ⟨buf, .raw⟩ = some ps)
    (hH : ∀ c, Fails env c → H) :
    wp (storePage z env buf iOfst) (fun _ => Recoverable z ps H) (Kept z ps H) w := by
  obtain ⟨hpg, hdiv, hnn⟩ := pgnoOf_eq hps h0 hk
  unfold storePage
  simp only [wp_bind, wp_file, wp_ite, wp_pure, wp_setFile, wp_stmt]
  refine ⟨fun _ => ⟨fun _ => ?_, by simp⟩, fun _ => ⟨by simp, fun _ => h⟩,
    fun ha => ⟨by simp, fun _ => h.abort (hH _ (.inr ha))⟩, fun _ => h.kept⟩
  rw [hf, hpg, hdiv]
  refine h.apply ?_ (.inr rfl) rfl (fun _ => rfl) (fun hn hp => h.known hn hf)
  rw [replay_snoc]
  refine h.outer.apply _ _ fun m hs => ?_
  rw [h.viewDict]
  exact hs.put (by omega) (by omega) hlen (fun hn => h.known hn hf) (fun hH' h1 => hh hH' (by omega))

theorem cutPages_recoverable {nByte : Int} (h : Recoverable z ps H w) (hps : 0 < ps)
    (hf : w.file.pageSize ≠ 0) (h0 : 0 ≤ nByte) (hk : nByte / ps < 2147483648)
    (hH : ∀ c, Fails env c → H) :
    wp (cutPages env nByte) (fun _ => Recoverable z ps H) (Kept z ps H) w := by
  have hp : w.file.pageSize = ps := h.pageSize.resolve_left hf
  have hdiv : nByte.tdiv ps = nByte / ps := Int.tdiv_eq_ediv_of_nonneg h0
  have hnn : 0 ≤ nByte / ps := Int.ediv_nonneg h0 (by omega)
  unfold cutPages
  simp only [wp_bind, wp_file, wp_ite, wp_pure, wp_setFile, wp_stmt]
  refine ⟨fun _ => ⟨fun _ => ?_, by simp⟩, fun _ => ⟨by simp, fun _ => h⟩,
    fun ha => ⟨by simp, fun _ => h.abort (hH _ (.inr ha))⟩, fun _ => h.kept⟩
  rw [hp, hdiv, toInt32_eq (by omega) (by omega)]
  refine h.apply ?_ (.inr rfl) rfl (fun _ => rfl) (fun hn _ => h.known hn hp)
  rw [replay_snoc]
  exact h.outer.apply _ _ fun m hs => hs.restrict _

theorem Remembers.rollback (h : Remembers z ps H w.outer (replay w.log)) :
    Remembers z ps H w.abort.outer (replay w.abort.log) := by
  rw [show w.abort.log = w.log ++ [.rollback] from rfl, replay_snoc]
  exact ⟨h.committed, .none⟩

theorem Recoverable.train (h : Recoverable z ps H w) (ht : TrainEnds env w w') :
    Remembers z ps H w'.outer (replay w'.log) ∧ w'.file.pageSize = w.file.pageSize := by
  cases ht with
  | skipped => exact ⟨h.outer, rfl⟩
  | aborted _ => exact ⟨h.outer.rollback, rfl⟩
  | stored blob hd =>
    refine ⟨?_, rfl⟩
    have hv : w.outer.view.loadedDict = none := h.viewDict.symm.trans hd
    have hr := h.outer.apply (saveDict blob) id (fun m hs => hs.saveDict hv blob)
    rw [Hist.apply_id] at hr
    exact hr
  | unstored blob _ => exact ⟨h.outer, rfl⟩
  | lost blob _ => exact ⟨h.outer.rollback, rfl⟩

theorem Faded.kept (hf : Faded w w') (h : Remembers z ps H w.outer (replay w.log))
    (hp : w.file.pageSize = 0 ∨ w.file.pageSize = ps) : Kept z ps H w' := by
  obtain ⟨p, v, hc, hps⟩ := hf.committed
  obtain ⟨n, hn⟩ := hf.log
  unfold Kept
  rw [hc, hn, replay_rolled]
  rcases hps with rfl | ⟨rfl, hpos⟩
  · exact h.committed.setPageCount v
  · have hsize : w.file.pageSize = ps := hp.resolve_left (by omega)
    rw [hsize]
    exact h.committed.setPageSize.setPageCount v

/-- A closed file: its history has no open transaction either. -/
def Closed (z : Zstd) (ps : Int) (H : Prop) (o : Outer) (log : List OuterEv) : Prop :=
  Stored z ps H o.committed (replay log).committed ∧ o.working = none ∧ (replay log).working = none

theorem Kept.lost (h : Kept z ps H w) : Closed z ps H w.abort.outer w.abort.log := by
  have hr : replay w.abort.log = { replay w.log with working := none } := replay_snoc _ _
  refine ⟨?_, rfl, by rw [hr]⟩
  rw [hr]
  exact h

theorem zvfsClose_recoverable {trained : Option Bytes} (h : Recoverable z ps H w)
    (hH : ∀ c, Fails env c → H) :
    wp (zvfsClose env trained) (fun _ w' => Closed z ps H w'.outer w'.log) (Kept z ps H) w := by
  unfold zvfsClose
  rw [wp_bind]
  refine wp_mono ((recoverable_envelope hH).commitOuter h) ?_ (fun _ hk => hk)
  intro _ w₁ h₁
  rw [wp_bind]
  refine wp_mono (trainDictionary_ends env trained w₁) ?_ (by rintro _ ⟨rfl, -⟩; exact h₁.kept)
  intro _ w₂ hw₂
  obtain ⟨h₂, hps⟩ := h₁.train hw₂
  have hp₂ : w₂.file.pageSize = 0 ∨ w₂.file.pageSize = ps := by
    rw [hps]
    exact h₁.pageSize
  simp only [wp_bind, wp_pure]
  refine wp_mono (outerDbClose_ends env w₂) ?_ (fun _ hf => hf.1.kept h₂ hp₂)
  intro _ w₃ hw₃
  obtain ⟨n, hn⟩ := hw₃.rolled
  refine ⟨hw₃.toFaded.kept h₂ hp₂, hw₃.working, ?_⟩
  rw [hn, replay_rolled_succ]

/-- The page size `outer_db_init` settles on can only be `ps`. -/
theorem Stored.opensWith {q : Int} (h : Stored z ps H d m) (hps : 0 < ps) (hH : ∀ c, Fails env c → H)
    (hret : env .metaPageSize = .ok ∨ Fails env .metaPageSize) (ho : OpensWith env d q) :
    (q = 0 ∨ q = ps) ∧ (¬ H → q = ps → d.pageSize = some ps) := by
  have hread : env .metaPageSize = .ok → readPageSize env d = 0 ∧ d.pageSize = none ∨
      readPageSize env d = ps ∧ d.pageSize = some ps := by
    intro he
    unfold readPageSize
    rw [if_pos he]
    rcases h.inMeta with hn | hs
    · exact .inl ⟨by rw [hn]; rfl, hn⟩
    · exact .inr ⟨by rw [hs]; rfl, hs⟩
  have hfail : Fails env .metaPageSize → readPageSize env d = 0 := by
    intro he
    unfold readPageSize
    rw [if_neg he.ne_ok]
  rcases ho with hq | ⟨hle, hmax, row, hrow, hhdr⟩
  · subst hq
    rcases hret with he | he
    · rcases hread he with ⟨hr, hn⟩ | ⟨hr, hs⟩
      · exact ⟨.inl hr, fun _ hq => by omega⟩
      · exact ⟨.inr hr, fun _ _ => hs⟩
    · exact ⟨.inl (hfail he), fun hn => absurd (hH _ he) hn⟩
  · by_cases hh : H
    · rcases h.header hh row hrow with hn | hs
      · rw [hn] at hhdr
        cases hhdr
      · rw [hs] at hhdr
        cases hhdr
        exact ⟨.inr rfl, fun hn => absurd hh hn⟩
    · -- Without the header, a stored page has `meta.page_size` beside it, so this branch is dead.
      have he : env .metaPageSize = .ok := hret.resolve_right fun he => hh (hH _ he)
      have hne : d.pages ≠ [] := by
        intro hnil
        rw [hnil] at hrow
        cases hrow
      rcases hread he with ⟨-, hn⟩ | ⟨hr, -⟩
      · rw [h.sized hh hne] at hn
        cases hn
      · omega

theorem Opens.pageSize_le {f : ZFile} (h : Opens env d f) : ∃ q, OpensWith env d q ∧ f.pageSize = q := by
  cases h.geometry with
  | sized ho _ => exact ⟨_, ho, rfl⟩
  | unsized ho _ _ => exact ⟨_, ho, rfl⟩

/-- A file opened over a closed one. -/
theorem Opens.recoverable {f : ZFile} {o : Outer} {log log' : List OuterEv} (h : Closed z ps H o log)
    (hlog : replay log' = replay log) (hps : 0 < ps) (hH : ∀ c, Fails env c → H)
    (hdict : Fails env .loadDict → o.committed.loadedDict = none) (ho : Opens env o.committed f) :
    Recoverable z ps H ⟨f, o, log'⟩ := by
  obtain ⟨hs, hw, hhw⟩ := h
  obtain ⟨q, hq, hfq⟩ := ho.pageSize_le
  obtain ⟨hsize, hknown⟩ := hs.opensWith hps hH ho.returned hq
  rw [← hfq] at hsize hknown
  have hv : o.view = o.committed := by simp [Outer.view, hw]
  refine ⟨?_, hsize, ?_, ?_, ?_⟩
  · rw [hlog]
    refine ⟨hs, ?_⟩
    rw [hhw, show o.working = none from hw]
    exact .none
  · show f.dict = o.committed.loadedDict
    rw [ho.dict]
    rcases ho.loaded with he | he
    · rw [if_pos he]
    · rw [if_neg he.ne_ok, hdict he]
  · intro d hd
    rw [show o.working = none from hw] at hd
    cases hd
  · show ¬ H → f.pageSize = ps → o.view.pageSize = some ps
    rw [hv]
    exact hknown

end Steps

/-! ## Runs -/

/-- The calls of a run that recovery is proved for.  With `H`, any outer call may fail and page-1
images agree with the page size; without it, outer calls are only cut. -/
def Survives (ps : Int) (H : Prop) (s : Sys) (e : Event) : Prop :=
  (∀ c, Fails e.env c → H) ∧
  match e.op with
  | .open => Fails e.env .loadDict → s.outer.committed.loadedDict = none
  | .write buf iOfst => (buf.length : Int) = ps ∧ 0 ≤ iOfst ∧ iOfst / ps + 1 < 2147483648 ∧
      (H → iOfst / ps = 0 → headerPageSize ⟨buf, .raw⟩ = none ∨ headerPageSize ⟨buf, .raw⟩ = some ps)
  | .truncate nByte => 0 ≤ nByte ∧ nByte / ps < 2147483648
  | _ => True

theorem step_recoverable {z : Zstd} {ps : Int} {H : Prop} (hps : 0 < ps) {s : Sys} {e : Event}
    (h : s.Holds (Recoverable z ps H) (Closed z ps H)) (he : Survives ps H s e) :
    (step z s e).Holds (Recoverable z ps H) (Closed z ps H) := by
  obtain ⟨op, env⟩ := e
  obtain ⟨hH, hop⟩ := he
  refine step_holds (C := Kept z ps H) h ?_ ?_ ?_ (fun _ hk => hk.lost)
  · rintro _ rfl hcl
    obtain ⟨hs, hw, hhw⟩ := hcl
    have hidle : ∀ w' : World, ∀ n, w'.log = (s.world ZFile.zero).rolled n →
        replay w'.log = replay s.log := by
      intro w' n hn
      rw [hn, World.rolled, replay_append]
      exact foldl_rollback_working n _ hhw
    refine wp_mono (zvfsOpen_ends env hw) ?_ ?_
    · rintro rc w' ⟨hok, hno⟩
      refine ⟨fun hrc => ?_, fun hrc => ?_⟩
      · obtain ⟨⟨ho, n, hn⟩, hopens⟩ := hok hrc
        have hr := hidle w' n hn
        obtain ⟨f, o, l⟩ := w'
        subst ho
        exact Opens.recoverable ⟨hs, hw, hhw⟩ hr hps hH hop hopens
      · obtain ⟨⟨⟨v, hv⟩, n, hn⟩, hw', -⟩ := hno hrc
        refine ⟨?_, hw', ?_⟩
        · rw [hidle w' n hn, hv]
          exact hs.setPageCount v
        · rw [hidle w' n hn]
          exact hhw
    · rintro w' ⟨⟨⟨v, hv⟩, n, hn⟩, -⟩
      unfold Kept
      rw [hidle w' n hn, hv]
      exact hs.setPageCount v
  · intro f t _ _ hI
    exact zvfsClose_recoverable hI hH
  · intro f _ hc hI
    refine (recoverable_envelope hH).code hI hc ?_ ?_
    · rintro buf iOfst rfl w hw
      obtain ⟨hlen, h0, hk, hh⟩ := hop
      rw [wp_bind, hlen]
      refine wp_mono (learnPageSize_recoverable hw hH) ?_ (fun _ hk => hk)
      rintro _ w₁ ⟨h₁, hps₁⟩
      exact storePage_recoverable h₁ hps hps₁ hlen h0 hk hh hH
    · rintro nByte rfl w hw hp
      exact cutPages_recoverable hw hps hp hop.1 hop.2 hH

/-- The machine dies between two calls. -/
def Sys.crash (s : Sys) : Sys := ⟨none, s.outer.rollback, s.log ++ [.rollback]⟩

/-- The same system with another value in `meta.page_count`. -/
def Sys.recount (s : Sys) (v : Option Int) : Sys :=
  { s with outer := { s.outer with committed := { s.outer.committed with pageCount := v } } }

theorem Sys.Holds.crash {z : Zstd} {ps : Int} {H : Prop} {s : Sys}
    (h : s.Holds (Recoverable z ps H) (Closed z ps H)) (v : Option Int) :
    (s.crash.recount v).Holds (Recoverable z ps H) (Closed z ps H) ∧
      (replay (s.crash.recount v).log).committed = (replay s.log).committed := by
  have hr : replay (s.crash.recount v).log = { replay s.log with working := none } := replay_snoc _ _
  refine ⟨?_, by rw [hr]⟩
  have hs : Stored z ps H s.outer.committed (replay s.log).committed := by
    unfold Sys.Holds at h
    split at h
    · exact h.outer.committed
    · exact h.1
  refine ⟨?_, rfl, ?_⟩
  · rw [hr]
    exact hs.setPageCount v
  · rw [hr]

/-- What the user of a reopened file sees of the page map `m`. -/
structure Exposes (z : Zstd) (ps : Nat) (m : PageMap) (s : Sys) (f : ZFile) : Prop where
  count : f.pageCount = m.highest
  size : zvfsFileSize f = m.highest * ps
  reads : ∀ (iOfst : Int) (iAmt : Nat), 0 ≤ iOfst → iOfst / ps + 1 < 2147483648 →
    iOfst % ps + iAmt ≤ ps →
    reply z s ⟨.read iAmt iOfst, Env.fine⟩ =
      some (readPage (m.get (iOfst / ps + 1)) (iOfst % ps).toNat iAmt)
  nonempty : m ≠ [] → zvfsFileSize f ≠ 0

/-- A file opened over a closed one shows its committed page map. -/
theorem Opens.exposes {z : Zstd} (hz : z.Inverts) {ps : Nat} (hps : 0 < ps) {H : Prop} {env : Env}
    {f : ZFile} {s : Sys} {m : PageMap} (hf : s.file = some f) (hw : s.outer.working = none)
    (hs : Stored z ps H s.outer.committed m) (hsize : f.pageSize = 0 ∨ f.pageSize = ps)
    (hd : f.dict = s.outer.committed.loadedDict) (ho : Opens env s.outer.committed f) :
    Exposes z ps m s f := by
  have hmax : s.outer.committed.maxPgno = m.highest := by
    unfold DB.maxPgno PageMap.highest
    rw [hs.rep.maxKey]
  have hpos : m ≠ [] → 1 ≤ m.highest := by
    intro hne
    cases hm : m.maxKey with
    | none => exact absurd ((Table.maxKey_eq_none m).1 hm) hne
    | some n =>
      obtain ⟨hsome, -⟩ := (Table.maxKey_eq_some m n).1 hm
      obtain ⟨page, hpage⟩ := Option.isSome_iff_exists.1 hsome
      have := (hs.whole n page hpage).1
      simpa [PageMap.highest, hm] using this
  have hgeo : f.pageCount = m.highest ∧ f.fileSize = m.highest * ps ∧ (f.pageSize = ps ∨ m = []) := by
    cases ho.geometry with
    | sized _ hq =>
      have hqs := hsize.resolve_left (by simp; omega)
      simp only at hqs
      subst hqs
      exact ⟨hmax, by rw [hmax]; exact Int.mul_comm _ _, .inl rfl⟩
    | unsized _ _ hlt =>
      have hnil : m = [] := by
        by_contra hne
        have := hpos hne
        omega
      subst hnil
      exact ⟨rfl, by simp [PageMap.highest, Table.maxKey], .inr rfl⟩
  obtain ⟨hcount, hfs, hps'⟩ := hgeo
  refine ⟨hcount, hfs, ?_, ?_⟩
  · intro iOfst iAmt h0 hk hin
    have hv : (s.world f).outer.view = s.outer.committed := by
      show s.outer.view = _
      simp [Outer.view, hw]
    have hread := zvfsRead_rep hz (w := s.world f) (m := m) hps (by rw [hv]; exact hd ▸ hs.rep) hcount ?_
      (fun k page hp => by have := (hs.whole k page hp).2.2; omega) h0 hin
    · rw [(pgnoOf_eq (by omega) h0 hk).1] at hread
      exact reply_read hf hread
    · rcases hps' with h | h
      · exact .inl h
      · rcases hsize with h' | h'
        · exact .inr ⟨h', h⟩
        · exact .inl h'
  · intro hne
    have := hpos hne
    show f.fileSize ≠ 0
    rw [hfs]
    exact Int.mul_ne_zero (by omega) (by omega)

theorem open_exposes {z : Zstd} (hz : z.Inverts) {ps : Nat} (hps : 0 < ps) {H : Prop} {env : Env}
    {s : Sys} (hfile : s.file = none) (hcl : s.Holds (Recoverable z ps H) (Closed z ps H))
    (he : Survives ps H s ⟨.open, env⟩) {f : ZFile} (hf : (step z s ⟨.open, env⟩).file = some f) :
    Exposes z ps (replay s.log).committed (step z s ⟨.open, env⟩) f := by
  have hps' : (0 : Int) < ps := by omega
  obtain ⟨hs, hw, hhw⟩ : Closed z ps H s.outer s.log := by
    unfold Sys.Holds at hcl
    rw [hfile] at hcl
    exact hcl
  refine call_open_of_wp (z := z) (P := fun s' _ => ∀ f, s'.file = some f →
    Exposes z ps (replay s.log).committed s' f) hfile (zvfsOpen_ends env hw) ?_ ?_ f hf
  · rintro rc w' ⟨hok, -⟩ f' hf'
    by_cases hrc : rc = .ok
    · obtain ⟨⟨ho, n, hn⟩, hopens⟩ := hok hrc
      subst hrc
      cases hf'
      have hlog : replay w'.log = replay s.log := by
        rw [hn, World.rolled, replay_append]
        exact foldl_rollback_working n _ hhw
      have hrec := Opens.recoverable ⟨hs, hw, hhw⟩ hlog hps' he.1 he.2 hopens
      have hout : w'.outer = s.outer := ho
      have hopens' : Opens env (w'.sys true).outer.committed w'.file := by
        show Opens env w'.outer.committed w'.file
        rw [hout]
        exact hopens
      have hs' : Stored z ps H (w'.sys true).outer.committed (replay s.log).committed := by
        show Stored z ps H w'.outer.committed _
        rw [hout]
        exact hs
      refine hopens'.exposes hz hps rfl ?_ hs' hrec.pageSize ?_
      · exact (congrArg Outer.working hout).trans hw
      · show w'.file.dict = w'.outer.committed.loadedDict
        rw [hout]
        exact hrec.dict
    · have hne : (rc == .ok) = false := by simpa using hrc
      rw [hne] at hf'
      cases hf'
  · intro w' _ f' hf'
    cases hf'

/-- **Crash recovery.**  Let a run of surviving calls be cut anywhere: inside a call, by the
environment, or after one.  Whatever `meta.page_count` holds then, a reopen that succeeds exposes
the page map left by the last commit, and nothing else. -/
theorem recovery {z : Zstd} (hz : z.Inverts) {ps : Nat} (hps : 0 < ps) {H : Prop} {es : List Event}
    (h : Along (step z) (Survives ps H) Sys.fresh es) (v : Option Int) {env : Env}
    (he : Survives ps H ((run z Sys.fresh es).crash.recount v) ⟨.open, env⟩) {f : ZFile}
    (hf : (step z ((run z Sys.fresh es).crash.recount v) ⟨.open, env⟩).file = some f) :
    Exposes z ps (replay (run z Sys.fresh es).log).committed
      (step z ((run z Sys.fresh es).crash.recount v) ⟨.open, env⟩) f := by
  have hps' : (0 : Int) < ps := by omega
  have hfresh : Sys.fresh.Holds (Recoverable z ps H) (Closed z ps H) := by
    refine ⟨⟨Rep.nil z _, ?_, .inl rfl, fun _ h => absurd rfl h, ?_⟩, rfl, rfl⟩
    · intro k page hk
      cases hk
    · intro _ row hrow
      cases hrow
  have hrun : (run z Sys.fresh es).Holds (Recoverable z ps H) (Closed z ps H) :=
    h.invariant (fun _ _ hi he => step_recoverable hps' hi he) hfresh
  obtain ⟨hcl, hcom⟩ := hrun.crash v
  rw [← hcom]
  exact open_exposes hz hps rfl hcl he hf

theorem not_fails_fine (c : Call) : ¬ Fails Env.fine c := by
  rintro (h | h) <;> cases h

theorem not_fails_crash (c c' : Call) : ¬ Fails (Env.fine.but c .crash) c' := by
  unfold Fails Env.but
  split <;> simp [Env.fine]

/-- A committed page survives a crash in the middle of rewriting it. -/
theorem recovery_of_rewrite :
    Exposes incompressible 512 (replay (run incompressible Sys.fresh [⟨.open, Env.fine⟩,
        ⟨.write (zeros 512) 0, Env.fine⟩, ⟨.sync, Env.fine⟩,
        ⟨.write (List.replicate 512 1) 0, Env.fine.but .page .crash⟩]).log).committed
      (step incompressible ((run incompressible Sys.fresh [⟨.open, Env.fine⟩,
        ⟨.write (zeros 512) 0, Env.fine⟩, ⟨.sync, Env.fine⟩,
        ⟨.write (List.replicate 512 1) 0, Env.fine.but .page .crash⟩]).crash.recount (some 7))
        ⟨.open, Env.fine⟩) ⟨512, 1, 7, 512, none, 0, false⟩ := by
  refine recovery (H := False) (fun d x c n h => by cases h) (by decide) ?_ (some 7) ?_ (by decide +kernel)
  · refine ⟨⟨not_fails_fine, fun h => absurd h (not_fails_fine _)⟩,
      ⟨not_fails_fine, by decide +kernel, by decide, by decide, False.elim⟩, ⟨not_fails_fine, trivial⟩,
      ⟨not_fails_crash .page, by decide +kernel, by decide, by decide, False.elim⟩, trivial⟩
  · exact ⟨not_fails_fine, fun h => absurd h (not_fails_fine _)⟩

/-- Two pages are committed, the second under the page number 2^31 + 1; the file opens again with
one page. -/
theorem recovery_wraps :
    ∃ f, (step incompressible (run incompressible Sys.fresh [⟨.open, Env.fine⟩, ⟨.lock 2, Env.fine⟩,
        ⟨.write (zeros 512) 0, Env.fine⟩, ⟨.write (zeros 512) (2147483648 * 512), Env.fine⟩,
        ⟨.unlock 0, Env.fine⟩]).crash ⟨.open, Env.fine⟩).file = some f ∧
      f.pageCount = 1 ∧
      PageMap.highest (replay (run incompressible Sys.fresh [⟨.open, Env.fine⟩, ⟨.lock 2, Env.fine⟩,
        ⟨.write (zeros 512) 0, Env.fine⟩, ⟨.write (zeros 512) (2147483648 * 512), Env.fine⟩,
        ⟨.unlock 0, Env.fine⟩]).log).committed = 2147483649 :=
  ⟨⟨512, 1, 1, 512, none, 0, false⟩, by decide +kernel, rfl, by decide +kernel⟩

end PoxChat.Vfs
