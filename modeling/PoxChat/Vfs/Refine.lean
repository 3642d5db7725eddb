import Mathlib.Algebra.Order.Ring.Int
import PoxChat.Vfs.Geometry
import PoxChat.Vfs.Recovery

/-!
# The zstd VFS refines a page store

With no outer call failing, the VFS is compared call by call with the reference of
`PoxChat.Vfs.PageStore`: a finite map from page numbers to page bytes and a page count.

* `Session` — the reference run: the page store, and whether the file is open.
* `Mirrors` — the page map that the outer calls so far amount to is the reference's.
* `Simulates` — the simulation relation.  Encodings and the dictionary come from `Recoverable`, the
  geometry from `Sized`; what is left is that no call fails or is lost.
* `refines_page_store` — every read inside one page returns what the reference holds there, and the
  file size is the reference's, exactly up to page numbers that an `int` does not hold.
* `read_wraps` — past them a read returns another page.
-/

set_option autoImplicit false

namespace PoxChat.Vfs

open Lib Lib.Prog

/-! ## The reference run -/

structure Session where
  store : PageStore
  isOpen : Bool

def Session.init : Session := ⟨PageStore.empty, false⟩

def Session.step (ps : Nat) (R : Session) : Op → Session
  | .open => { R with isOpen := true }
  | .close _ => { R with isOpen := false }
  | .write buf iOfst => { R with store := R.store.write (iOfst / ps + 1) buf }
  | .truncate nByte => { R with store := R.store.truncate (nByte / ps) }
  | _ => R

/-- The calls the refinement is about: page-aligned writes of one whole page whose number an `int`
holds, and truncates to a whole number of pages that keep a written page last. -/
def Admitted (ps : Nat) (R : Session) : Op → Prop
  | .open => R.isOpen = false
  | .write buf iOfst => R.isOpen = true ∧ buf.length = ps ∧ 0 ≤ iOfst ∧ iOfst % ps = 0 ∧
      iOfst / ps + 1 < 2147483648
  | .truncate nByte => R.isOpen = true ∧ 0 ≤ nByte ∧ nByte % ps = 0 ∧ nByte / ps ≤ R.store.count ∧
      (nByte / ps = 0 ∨ (R.store.pages.get (nByte / ps)).isSome = true)
  | _ => R.isOpen = true

instance (ps : Nat) (R : Session) (op : Op) : Decidable (Admitted ps R op) :=
  match op with
  | .open => inferInstanceAs (Decidable (_ = _))
  | .write _ _ => inferInstanceAs (Decidable (_ ∧ _))
  | .truncate _ => inferInstanceAs (Decidable (_ ∧ _))
  | .close _ => inferInstanceAs (Decidable (_ = _))
  | .read _ _ => inferInstanceAs (Decidable (_ = _))
  | .sync => inferInstanceAs (Decidable (_ = _))
  | .lock _ => inferInstanceAs (Decidable (_ = _))
  | .unlock _ => inferInstanceAs (Decidable (_ = _))

/-- The run of the VFS on the same calls, in an environment in which no outer call fails. -/
def fineRun (z : Zstd) (ops : List Op) : Sys := run z Sys.fresh (ops.map (⟨·, Env.fine⟩))

/-! ## No call is lost -/

def Hist.view (h : Hist) : PageMap := h.working.getD h.committed

theorem Hist.view_apply (h : Hist) (g : PageMap → PageMap) : (h.apply g).view = g h.view := by
  unfold Hist.apply Hist.view
  cases h.working <;> rfl

theorem Hist.isSome_apply (h : Hist) (g : PageMap → PageMap) :
    (h.apply g).working.isSome = h.working.isSome := by
  unfold Hist.apply
  cases hw : h.working with
  | none => simp
  | some m => rfl

theorem Outer.isSome_apply (o : Outer) (g : DB → DB) : (o.apply g).working.isSome = o.working.isSome := by
  unfold Outer.apply
  cases hw : o.working with
  | none => simp
  | some d => rfl

/-- The effects so far amount to `m`, and the transaction flag is right. -/
structure Mirrors (ps : Nat) (m : PageMap) (w : World) : Prop where
  view : (replay w.log).view = m
  same : (replay w.log).working.isSome = w.outer.working.isSome
  flag : w.file.inTransaction = w.outer.working.isSome
  pageSize : w.file.pageSize = 0 ∨ w.file.pageSize = ps

section Mirrors

variable {ps : Nat} {m : PageMap} {w w' : World} {rc : Rc}

theorem Mirrors.begin (h : Mirrors ps m w) (hb : BeginEnds Env.fine w rc w') :
    rc = .ok ∧ Mirrors ps m w' := by
  cases hb with
  | held _ _ => exact ⟨rfl, h⟩
  | opened _ hw =>
    have hn : (replay w.log).working = none := by
      have := h.same
      rw [hw] at this
      simpa using this
    refine ⟨rfl, ?_, ?_, rfl, h.pageSize⟩
    · rw [replay_snoc, ← h.view]
      simp [Hist.step, Hist.view, hn]
    · rw [replay_snoc]
      rfl
  | refused hr =>
    rcases hr with hr | ⟨hw, ht⟩
    · cases hr
    · rw [h.flag, hw] at ht
      cases ht
  | aborted hb => cases hb

theorem Mirrors.commit (h : Mirrors ps m w) (hc : CommitEnds Env.fine w rc w') :
    Mirrors ps m w' ∧ w'.outer.working = none := by
  cases hc with
  | idle ht =>
    rw [h.flag] at ht
    exact ⟨h, by simpa using ht⟩
  | stale ht hw =>
    rw [h.flag, hw] at ht
    cases ht
  | committed d v saved _ hw _ _ =>
    refine ⟨⟨?_, ?_, rfl, h.pageSize⟩, rfl⟩
    · rw [replay_snoc, ← h.view]
      rfl
    · rw [replay_snoc]
      rfl
  | rolledBack n saved _ _ hr =>
    rcases hr with hr | hr | ⟨hr, -⟩
    · cases hr.1
    · cases hr
    · cases hr
  | stuck d v saved _ _ hc _ => cases hc

theorem not_crashes_fine : ¬ Crashes Env.fine := by
  rintro ⟨c, hc⟩
  cases hc

theorem mirrors_envelope (ps : Nat) (m : PageMap) :
    Envelope Env.fine (Mirrors ps m) (fun _ => False) where
  begin := fun h hb => (h.begin hb).2
  commit := fun h hc => (h.commit hc).1
  read := fun _ ha => by cases ha
  lock := fun h _ => ⟨h.view, h.same, h.flag, h.pageSize⟩
  cut := fun _ hc => not_crashes_fine hc.crashes

theorem Mirrors.write {z : Zstd} {buf : Bytes} {iOfst : Int} (h : Mirrors ps m w)
    (hlen : buf.length = ps) (h0 : 0 ≤ iOfst) :
    wp (zvfsWrite z Env.fine buf iOfst) (fun _ => Mirrors ps (m.put (iOfst / ps + 1) buf))
      (fun _ => False) w := by
  unfold zvfsWrite
  rw [wp_bind]
  refine wp_mono (beginOuter_ends _ w) ?_ (fun _ hc => not_crashes_fine hc.crashes)
  intro rc w₁ hw₁
  obtain ⟨rfl, h₁⟩ := h.begin hw₁
  have hdiv : iOfst.tdiv ps = iOfst / ps := Int.tdiv_eq_ediv_of_nonneg h0
  simp only [wp_ite, wp_bind, wp_pure]
  refine ⟨fun _ => ?_, fun hne => absurd trivial hne⟩
  have hlearn : wp (learnPageSize Env.fine buf.length)
      (fun _ w' => Mirrors ps m w' ∧ w'.file.pageSize = ps) (fun _ => False) w₁ := by
    unfold learnPageSize
    simp only [wp_bind, wp_file, wp_ite, wp_pure, wp_setFile, wp_stmt]
    refine ⟨fun hz => ⟨fun _ => ⟨⟨?_, ?_, ?_, .inr ?_⟩, ?_⟩, ?_, ?_, ?_⟩,
      fun hz => ⟨h₁, h₁.pageSize.resolve_left hz⟩⟩
    · rw [List.append_nil]
      exact h₁.view
    · rw [List.append_nil, Outer.isSome_apply]
      exact h₁.same
    · rw [Outer.isSome_apply]
      exact h₁.flag
    · exact congrArg Int.ofNat hlen
    · exact congrArg Int.ofNat hlen
    · exact fun he => by cases he
    · exact fun he => by cases he
    · exact fun he => by cases he
  refine wp_mono hlearn ?_ (fun _ hf => hf)
  rintro _ w₂ ⟨h₂, hps₂⟩
  unfold storePage
  simp only [wp_bind, wp_file, wp_ite, wp_pure, wp_setFile, wp_stmt]
  refine ⟨fun _ => ⟨fun _ => ⟨?_, ?_, ?_, .inr hps₂⟩, by simp⟩, ?_, ?_, ?_⟩
  · rw [replay_snoc, hps₂, hdiv, ← h₂.view]
    exact Hist.view_apply _ _
  · rw [replay_snoc, Outer.isSome_apply, ← h₂.same]
    exact Hist.isSome_apply _ _
  · rw [Outer.isSome_apply]
    exact h₂.flag
  · exact fun he => by cases he
  · exact fun he => by cases he
  · exact fun he => by cases he

theorem Mirrors.truncate {nByte : Int} (h : Mirrors ps m w) (h0 : 0 ≤ nByte)
    (hm : w.file.pageSize = 0 → m = []) :
    wp (zvfsTruncate Env.fine nByte)
      (fun _ => Mirrors ps (m.restrict fun k => decide (k ≤ nByte / ps))) (fun _ => False) w := by
  unfold zvfsTruncate
  simp only [wp_ite, wp_bind, wp_pure, wp_file]
  refine ⟨fun hz => ?_, fun hz => ?_⟩
  · have hmn := hm hz
    subst hmn
    exact h
  refine wp_mono (beginOuter_ends _ w) ?_ (fun _ hc => not_crashes_fine hc.crashes)
  intro rc w₁ hw₁
  have hps₁ : w₁.file.pageSize = ps := by
    have hsame : w₁.file.pageSize = w.file.pageSize := by cases hw₁ <;> rfl
    rw [hsame]
    exact h.pageSize.resolve_left hz
  obtain ⟨rfl, h₁⟩ := h.begin hw₁
  have hdiv : nByte.tdiv ps = nByte / ps := Int.tdiv_eq_ediv_of_nonneg h0
  refine ⟨fun _ => ?_, fun hne => absurd rfl hne⟩
  unfold cutPages
  simp only [wp_bind, wp_file, wp_ite, wp_pure, wp_setFile, wp_stmt]
  refine ⟨fun _ => ⟨fun _ => ⟨?_, ?_, ?_, .inr hps₁⟩, by simp⟩, ?_, ?_, ?_⟩
  · rw [replay_snoc, hps₁, hdiv, ← h₁.view]
    exact Hist.view_apply _ _
  · rw [replay_snoc, Outer.isSome_apply, ← h₁.same]
    exact Hist.isSome_apply _ _
  · rw [Outer.isSome_apply]
    exact h₁.flag
  · exact fun he => by cases he
  · exact fun he => by cases he
  · exact fun he => by cases he

/-- A close commits what was not committed yet. -/
theorem Mirrors.close {trained : Option Bytes} (h : Mirrors ps m w) :
    wp (zvfsClose Env.fine trained) (fun _ w' => (replay w'.log).committed = m) (fun _ => False) w := by
  unfold zvfsClose
  simp only [wp_bind, wp_pure]
  refine wp_mono (commitOuter_ends _ w) ?_ (fun _ hc => not_crashes_fine hc.crashes)
  intro rc w₁ hw₁
  obtain ⟨h₁, hn⟩ := h.commit hw₁
  have hcom : (replay w₁.log).committed = m := by
    have hw : (replay w₁.log).working = none := by
      have hs := h₁.same
      rw [hn] at hs
      simpa using hs
    rw [← h₁.view, Hist.view, hw]
    rfl
  refine wp_mono (trainDictionary_ends _ trained w₁) ?_ (fun _ hc => not_crashes_fine hc.2)
  intro _ w₂ hw₂
  have hlog : w₂.log = w₁.log := by
    cases hw₂ with
    | skipped => rfl
    | aborted ha => cases ha
    | stored _ _ => rfl
    | unstored _ hf => cases hf
    | lost _ ha => cases ha
  refine wp_mono (outerDbClose_ends _ w₂) ?_ (fun _ hc => not_crashes_fine hc.2)
  intro _ w₃ hw₃
  obtain ⟨n, hlog₃⟩ := hw₃.log
  rw [hlog₃, replay_rolled, hlog]
  exact hcom

end Mirrors

/-! ## The simulation -/

/-- The VFS in the state of the reference. -/
structure Simulates (z : Zstd) (ps : Nat) (R : Session) (s : Sys) : Prop where
  recoverable : s.Holds (Recoverable z ps False) (Closed z ps False)
  sized : s.Sized
  mirrors : s.Holds (Mirrors ps R.store.pages) fun _ log => (replay log).committed = R.store.pages
  isOpen : s.file.isSome = R.isOpen
  count : R.store.count = R.store.pages.highest

section Simulation

variable {z : Zstd} {ps : Nat} {R : Session} {s : Sys} {f : ZFile}

/-- What the connection of an open file sees is the reference's page map. -/
theorem Simulates.stored (h : Simulates z ps R s) (hf : s.file = some f) :
    Stored z ps False s.outer.view R.store.pages := by
  have hr := (h.recoverable.file hf).outer
  have hm := (h.mirrors.file hf).view
  unfold Outer.view
  cases hw : s.outer.working with
  | none =>
    have hn : (replay s.log).working = none := by
      have hs := (h.mirrors.file hf).same
      rw [show (s.world f).outer.working = none from hw] at hs
      simpa [Sys.world] using hs
    rw [← hm, Hist.view, show (replay (s.world f).log).working = none from hn]
    exact hr.committed
  | some d =>
    obtain ⟨m, hm', hs⟩ := hr.get_working hw
    rw [← hm, Hist.view, hm']
    exact hs

theorem Simulates.dict (h : Simulates z ps R s) (hf : s.file = some f) :
    f.dict = s.outer.view.loadedDict := (h.recoverable.file hf).viewDict

/-- The page number a stored page is under is at most the page count. -/
theorem Simulates.pageCount (h : Simulates z ps R s) (hf : s.file = some f) :
    f.pageCount = R.store.count := by
  have hg := (h.sized.file hf).geometry.count
  rw [h.count, PageMap.highest, ← (h.stored hf).rep.maxKey]
  exact hg

theorem Simulates.unset (h : Simulates z ps R s) (hf : s.file = some f) (h0 : f.pageSize = 0) :
    R.store.pages = [] :=
  (h.stored hf).rep.eq_nil.1 ((h.sized.file hf).geometry.unset h0)

theorem Simulates.pageSize (h : Simulates z ps R s) (hf : s.file = some f) :
    f.pageSize = 0 ∨ f.pageSize = ps := (h.mirrors.file hf).pageSize

theorem Simulates.file (h : Simulates z ps R s) (ho : R.isOpen = true) : ∃ f, s.file = some f := by
  have hs := h.isOpen
  rw [ho] at hs
  exact Option.isSome_iff_exists.1 hs

theorem Simulates.survives (h : Simulates z ps R s) {op : Op} (ha : Admitted ps R op) :
    Survives ps False s ⟨op, Env.fine⟩ := by
  refine ⟨fun c hc => not_fails_fine c hc, ?_⟩
  cases op with
  | «open» => exact fun hc => absurd hc (not_fails_fine _)
  | write buf iOfst =>
    obtain ⟨-, hlen, h0, -, hk⟩ := ha
    exact ⟨congrArg Int.ofNat hlen, h0, hk, False.elim⟩
  | truncate nByte =>
    obtain ⟨ho, h0, -, -, hrow⟩ := ha
    obtain ⟨f, hf⟩ := h.file ho
    refine ⟨h0, ?_⟩
    rcases hrow with hz | hsome
    · show nByte / ps < _
      omega
    · obtain ⟨page, hpage⟩ := Option.isSome_iff_exists.1 hsome
      exact ((h.stored hf).whole _ page hpage).2.1
  | _ => trivial

theorem Simulates.keepsGeometry (h : Simulates z ps R s) (hps : 0 < ps) {op : Op}
    (ha : Admitted ps R op) : KeepsGeometry s ⟨op, Env.fine⟩ := by
  intro f hf
  have hrolls : (⟨op, Env.fine⟩ : Event).rollsBack = false := by simp [Event.rollsBack, Env.fine]
  refine ⟨?_, fun hr => by rw [hrolls] at hr; cases hr⟩
  cases op with
  | write buf iOfst =>
    obtain ⟨-, hlen, h0, -, hk⟩ := ha
    have hsize : (if f.pageSize = 0 then (buf.length : Int) else f.pageSize) = ps := by
      split
      · omega
      · exact (h.pageSize hf).resolve_left ‹_›
    obtain ⟨hpg, -, hnn⟩ := @pgnoOf_eq ps iOfst (by omega) h0 hk
    refine ⟨?_, ?_⟩
    · intro hnil
      rw [hnil] at hlen
      simp at hlen
      omega
    · rw [hsize, hpg]
      omega
  | truncate nByte =>
    obtain ⟨-, h0, hmod, -, hrow⟩ := ha
    rcases h.pageSize hf with hz | hsize
    · exact .inl hz
    refine .inr ?_
    have hdiv : nByte.tdiv ps = nByte / ps := Int.tdiv_eq_ediv_of_nonneg h0
    have hnn : 0 ≤ nByte / ps := Int.ediv_nonneg h0 (by omega)
    have hlt : nByte / ps < 2147483648 := by
      rcases hrow with hz | hsome
      · omega
      · obtain ⟨page, hpage⟩ := Option.isSome_iff_exists.1 hsome
        exact ((h.stored hf).whole _ page hpage).2.1
    rw [hsize, hdiv, toInt32_eq (by omega) hlt]
    refine ⟨?_, ?_⟩
    · have := Int.mul_ediv_add_emod nByte ps
      rw [hmod] at this
      rw [Int.mul_comm]
      omega
    · rw [(h.stored hf).rep.isSome]
      exact hrow
  | _ => trivial

/-- The reference keeps its page count at the highest page. -/
theorem Session.step_count {op : Op} (h : R.store.count = R.store.pages.highest)
    (hw : ∀ k, (R.store.pages.get k).isSome = true → 1 ≤ k) (hps : 0 < ps) (ha : Admitted ps R op) :
    (R.step ps op).store.count = (R.step ps op).store.pages.highest := by
  cases op with
  | write buf iOfst =>
    obtain ⟨-, -, h0, -, -⟩ := ha
    have hnn : 0 ≤ iOfst / ps := Int.ediv_nonneg h0 (by omega)
    show max R.store.count (iOfst / ps + 1) = PageMap.highest (R.store.pages.put _ buf)
    rw [h]
    unfold PageMap.highest
    rw [Table.maxKey_put]
    cases R.store.pages.maxKey with
    | none => simp; omega
    | some n => simp
  | truncate nByte =>
    obtain ⟨-, -, -, -, hrow⟩ := ha
    show nByte / ps = PageMap.highest (R.store.pages.restrict fun k => decide (k ≤ nByte / ps))
    rcases hrow with hz | hsome
    · rw [hz]
      have hnil : R.store.pages.restrict (fun k => decide (k ≤ 0)) = [] :=
        R.store.pages.restrict_eq_nil fun k hg => decide_eq_false (by have := hw k hg; omega)
      rw [hnil]
      rfl
    · unfold PageMap.highest
      rw [Table.maxKey_restrict_le _ hsome]
      rfl
  | _ => exact h

/-- An open in an environment without failures succeeds: stored pages have their page size. -/
theorem Stored.not_refuses {d : DB} {m : PageMap} (h : Stored z ps False d m) (hps : 0 < ps) :
    ¬ Refuses Env.fine d := by
  rintro (⟨c, hc⟩ | ⟨q, hq, hle, hmax⟩)
  · exact not_fails_fine c hc
  · have hne : d.pages ≠ [] := by
      intro hnil
      simp [DB.maxPgno, hnil, Table.maxKey] at hmax
    have hread : readPageSize Env.fine d = ps := by
      simp [readPageSize, Env.fine, h.sized not_false hne]
    rcases hq with hq | ⟨hle', -⟩
    · omega
    · omega

/-- A call on an open file other than `close` takes the mirrored page map to the reference's. -/
theorem Simulates.code (h : Simulates z ps R s) (hf : s.file = some f) {op : Op}
    (ha : Admitted ps R op) (ho : op ≠ .open) (hc : ∀ t, op ≠ .close t) :
    wp (code z Env.fine op) (fun _ => Mirrors ps (R.step ps op).store.pages) (fun _ => False)
      (s.world f) := by
  have hm := h.mirrors.file hf
  have henv := mirrors_envelope ps R.store.pages
  cases op with
  | «open» => exact absurd rfl ho
  | close t => exact absurd rfl (hc t)
  | read iAmt iOfst => exact henv.zvfsRead hm iAmt iOfst
  | write buf iOfst => simpa [Vfs.code, Session.step, PageStore.write] using hm.write (z := z) ha.2.1 ha.2.2.1
  | truncate nByte => simpa [Vfs.code, Session.step, PageStore.truncate] using hm.truncate ha.2.1 (h.unset hf)
  | sync => simpa [Vfs.code, Session.step] using henv.zvfsSync hm
  | lock level => simpa [Vfs.code, Session.step] using henv.zvfsLock hm level
  | unlock level => simpa [Vfs.code, Session.step] using henv.zvfsUnlock hm level

/-- What is left of the simulation beside the two invariants. -/
def Follows (ps : Nat) (R : Session) (s : Sys) : Prop :=
  (s.Holds (Mirrors ps R.store.pages) fun _ log => (replay log).committed = R.store.pages) ∧
    s.file.isSome = R.isOpen

theorem Simulates.follows (h : Simulates z ps R s) (hps : 0 < ps) {op : Op} (ha : Admitted ps R op) :
    Follows ps (R.step ps op) (step z s ⟨op, Env.fine⟩) := by
  by_cases ho : op = .open
  · subst ho
    have hn : s.file = none := by
      have hs := h.isOpen
      rw [show R.isOpen = false from ha] at hs
      simpa using hs
    obtain ⟨hst, hw, hhw⟩ : Closed z ps False s.outer s.log := by
      have hcl := h.recoverable
      unfold Sys.Holds at hcl
      rw [hn] at hcl
      exact hcl
    have hcom : (replay s.log).committed = R.store.pages := by
      have hm := h.mirrors
      unfold Sys.Holds at hm
      rw [hn] at hm
      exact hm
    refine call_open_of_wp (z := z) (P := fun s' _ => Follows ps (R.step ps .open) s') hn
      (zvfsOpen_ends Env.fine hw) ?_ (fun _ hc => absurd hc.2 not_crashes_fine)
    rintro rc w' ⟨hok, hno⟩
    have hrc : rc = .ok := by
      by_contra hne
      exact hst.not_refuses hps (hno hne).2.2
    subst hrc
    obtain ⟨⟨hout, n, hn⟩, hopens⟩ := hok rfl
    have hlog : replay w'.log = replay s.log := by
      rw [hn, World.rolled, replay_append]
      exact foldl_rollback_working n _ hhw
    have hrec := Opens.recoverable ⟨hst, hw, hhw⟩ hlog (by omega) (fun c hc => not_fails_fine c hc)
      (fun hc => absurd hc (not_fails_fine _)) hopens
    refine ⟨⟨?_, ?_, ?_, hrec.pageSize⟩, rfl⟩
    · show (replay w'.log).view = R.store.pages
      rw [hlog, Hist.view, hhw]
      exact hcom
    · show (replay w'.log).working.isSome = w'.outer.working.isSome
      rw [hlog, hhw, hout, show (s.world ZFile.zero).outer.working = none from hw]
      rfl
    · show w'.file.inTransaction = w'.outer.working.isSome
      rw [hout, show (s.world ZFile.zero).outer.working = none from hw]
      exact hopens.geometry.inTransaction
  have hopen : R.isOpen = true := by
    cases op <;> first | exact absurd rfl ho | exact ha | exact ha.1
  obtain ⟨f, hf⟩ := h.file hopen
  by_cases hcl : ∃ t, op = .close t
  · obtain ⟨t, rfl⟩ := hcl
    refine call_close_of_wp (z := z) (P := fun s' _ => Follows ps (R.step ps (.close t)) s') hf
      (h.mirrors.file hf).close ?_ (fun _ hc => hc.elim)
    intro rc w' hw'
    exact ⟨hw', rfl⟩
  · have hc : ∀ t, op ≠ .close t := fun t ht => hcl ⟨t, ht⟩
    have hro : (R.step ps op).isOpen = true := by
      cases op <;> first | exact absurd rfl ho | exact absurd rfl (hc _) | exact hopen
    refine call_of_wp (z := z) (e := ⟨op, Env.fine⟩) (P := fun s' _ => Follows ps (R.step ps op) s')
      hf ho hc (h.code hf ha ho hc) ?_ (fun _ hc => hc.elim)
    intro _ w' hw'
    exact ⟨hw', hro.symm⟩

/-- **One call keeps the simulation.** -/
theorem Simulates.step (h : Simulates z ps R s) (hps : 0 < ps) {op : Op} (ha : Admitted ps R op) :
    Simulates z ps (R.step ps op) (step z s ⟨op, Env.fine⟩) := by
  obtain ⟨hmirrors, hopen⟩ := h.follows hps ha
  refine ⟨step_recoverable (by omega) h.recoverable (h.survives ha),
    step_sized h.sized (h.keepsGeometry hps ha), hmirrors, hopen, ?_⟩
  by_cases ho : R.isOpen = true
  · obtain ⟨f, hf⟩ := h.file ho
    refine Session.step_count h.count (fun k hk => ?_) hps ha
    obtain ⟨page, hpage⟩ := Option.isSome_iff_exists.1 hk
    exact ((h.stored hf).whole k page hpage).1
  · cases op with
    | write buf iOfst => exact absurd ha.1 ho
    | truncate nByte => exact absurd ha.1 ho
    | _ => exact h.count

end Simulation

theorem simulates_fresh (z : Zstd) (ps : Nat) : Simulates z ps Session.init Sys.fresh := by
  refine ⟨⟨⟨Rep.nil z _, ?_, .inl rfl, fun _ h => absurd rfl h, ?_⟩, rfl, rfl⟩, ⟨?_, rfl⟩, rfl, rfl, rfl⟩
  · intro k page hk
    cases hk
  · intro _ row hrow
    cases hrow
  · intro k hk
    cases hk

/-- Every run of admitted calls stays in the simulation. -/
theorem simulates_run {z : Zstd} {ps : Nat} (hps : 0 < ps) {ops : List Op} {R : Session} {s : Sys}
    (h : Simulates z ps R s) (ha : Along (Session.step ps) (Admitted ps) R ops) :
    Simulates z ps (ops.foldl (Session.step ps) R) (run z s (ops.map (⟨·, Env.fine⟩))) := by
  induction ops generalizing R s with
  | nil => exact h
  | cons op ops ih => exact ih (h.step hps ha.1) ha.2

/-- A read on a simulating file returns what the reference holds under the page number that the VFS
computes. -/
theorem Simulates.reads {z : Zstd} (hz : z.Inverts) {ps : Nat} (hps : 0 < ps) {R : Session} {s : Sys}
    {f : ZFile} (h : Simulates z ps R s) (hf : s.file = some f) {iOfst : Int} {iAmt : Nat}
    (h0 : 0 ≤ iOfst) (hin : iOfst % ps + iAmt ≤ ps) :
    reply z s ⟨.read iAmt iOfst, Env.fine⟩ =
      some (readPage (R.store.pages.get (pgnoOf ps iOfst)) (iOfst % ps).toNat iAmt) := by
  have hst := h.stored hf
  refine reply_read hf (zvfsRead_rep hz (w := s.world f) hps ?_ ?_ ?_ ?_ h0 hin)
  · show Rep z f.dict s.outer.view.pages _
    rw [h.dict hf]
    exact hst.rep
  · exact (h.pageCount hf).trans h.count
  · rcases h.pageSize hf with hz0 | hs
    · exact .inr ⟨hz0, h.unset hf hz0⟩
    · exact .inl hs
  · intro k page hp
    have := (hst.whole k page hp).2.2
    omega

/-- **The zstd VFS refines the page store.**  After every run of admitted calls that leaves the file
open, the file size is the reference page count times the page size, and a read inside one page
returns what the reference holds there exactly when an `int` holds the page's number or the number
it wraps to names no page. -/
theorem refines_page_store {z : Zstd} (hz : z.Inverts) {ps : Nat} (hps : 0 < ps) {ops : List Op}
    (h : Along (Session.step ps) (Admitted ps) Session.init ops)
    (hopen : (ops.foldl (Session.step ps) Session.init).isOpen = true) :
    ∃ f, (fineRun z ops).file = some f ∧
      zvfsFileSize f = (ops.foldl (Session.step ps) Session.init).store.count * ps ∧
      ∀ (iOfst : Int) (iAmt : Nat), 0 ≤ iOfst → iOfst % ps + iAmt ≤ ps →
        (reply z (fineRun z ops) ⟨.read iAmt iOfst, Env.fine⟩ =
            some (readPage ((ops.foldl (Session.step ps) Session.init).store.pages.get
              (iOfst / ps + 1)) (iOfst % ps).toNat iAmt) ↔
          iOfst / ps + 1 < 2147483648 ∨
            (ops.foldl (Session.step ps) Session.init).store.pages.get (pgnoOf ps iOfst) = none) := by
  have hsim : Simulates z ps _ (fineRun z ops) := simulates_run hps (simulates_fresh z ps) h
  generalize ops.foldl (Session.step ps) Session.init = R at hsim hopen ⊢
  obtain ⟨f, hf⟩ := hsim.file hopen
  refine ⟨f, hf, ?_, ?_⟩
  · have hg := (hsim.sized.file hf).geometry.size
    have hc := hsim.pageCount hf
    show f.fileSize = _
    rw [show f.fileSize = f.pageCount * f.pageSize from hg, hc]
    rcases hsim.pageSize hf with h0 | hs
    · have hnil := hsim.unset hf h0
      have hz0 : R.store.count = 0 := by
        rw [hsim.count, hnil]
        rfl
      rw [hz0]
      simp
    · rw [hs]
  · intro iOfst iAmt h0 hin
    rw [hsim.reads hz hps hf h0 hin]
    by_cases hk : iOfst / ps + 1 < 2147483648
    · rw [(pgnoOf_eq (by omega) h0 hk).1]
      simp [hk]
    · have hnone : R.store.pages.get (iOfst / ps + 1) = none := by
        cases hg : R.store.pages.get (iOfst / ps + 1) with
        | none => rfl
        | some page => exact absurd ((hsim.stored hf).whole _ page hg).2.1 hk
      rw [hnone]
      cases R.store.pages.get (pgnoOf ps iOfst) with
      | none => simp
      | some page => simp [readPage, hk]

/-- One page, the file closed and opened again. -/
theorem refines_page_store_reopened :
    ∃ f, (fineRun incompressible [.open, .lock 2, .write (zeros 512) 0, .unlock 0, .close none,
        .open]).file = some f ∧ zvfsFileSize f = 512 := by
  obtain ⟨f, hf, hsize, -⟩ := @refines_page_store incompressible (fun d x c n h => by cases h) 512
    (by decide) [.open, .lock 2, .write (zeros 512) 0, .unlock 0, .close none, .open]
    (by decide +kernel) (by decide)
  exact ⟨f, hf, hsize.trans (by decide)⟩

/-- Page 1 is stored; a read at page 2^32 + 1, which was never written, returns it. -/
theorem read_wraps :
    Along (Session.step 512) (Admitted 512) Session.init [.open, .write (zeros 512) 0] ∧
      (([.open, .write (zeros 512) 0] : List Op).foldl (Session.step 512)
        Session.init).store.pages.get (4294967296 * 512 / 512 + 1) = none ∧
      reply incompressible (fineRun incompressible [.open, .write (zeros 512) 0])
        ⟨.read 512 (4294967296 * 512), Env.fine⟩ = some (.ok, zeros 512) := by
  decide +kernel

end PoxChat.Vfs
