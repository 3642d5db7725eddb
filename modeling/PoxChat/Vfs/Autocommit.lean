import PoxChat.Vfs.Specs

/-!
# Page statements and the outer transaction

`zvfs_write` and `zvfs_truncate` call `begin_outer` before they touch the page table.  The first write of a file
also saves `meta.page_size` in between, and a failure of that statement may roll the transaction back: the page
is then stored in autocommit mode.

* `upToPage` — a call up to its statement on the page table; `zvfsWrite_eq` and `zvfsTruncate_eq` put the rest
  after it.
* `page_statements_covered_iff` — along a run, every page statement finds a transaction of `begin_outer` open
  exactly when no first write loses it that way.
* `pages_inside` — then every change of a page in the log lies between a `BEGIN` and the end of its transaction.
-/

set_option autoImplicit false

namespace PoxChat.Vfs

open Lib Lib.Prog

/-! ## Up to the page statement -/

/-- A call up to its `INSERT OR REPLACE` or `DELETE`; `some rc` where it returns before it. -/
def upToPage (env : Env) : Op → VFS (Option Rc)
  | .write buf _ => do
    let rc ← beginOuter env
    if rc = .ok then
      learnPageSize env buf.length
      return none
    else return some .ioerrWrite
  | .truncate _ => do
    let f ← VFS.file
    if f.pageSize = 0 then return some .ok
    else
      let rc ← beginOuter env
      if rc = .ok then return none else return some .ioerrTruncate
  -- the other calls have no page statement
  | _ => return some .ok

/-- What follows `upToPage`. -/
def andThen (m : VFS (Option Rc)) (rest : VFS Rc) : VFS Rc := do
  match ← m with
  | some rc => return rc
  | none => rest

theorem bind_apply {α β : Type} (m : VFS α) (f : α → VFS β) (w : World) :
    (m >>= f) w = match m w with
      | .done a w' => f a w'
      | .crashed w' => .crashed w' := by
  show Prog.bind m f w = _
  unfold Prog.bind
  cases m w <;> rfl

theorem zvfsWrite_eq (z : Zstd) (env : Env) (buf : Bytes) (iOfst : Int) :
    zvfsWrite z env buf iOfst = andThen (upToPage env (.write buf iOfst)) (storePage z env buf iOfst) := by
  funext w
  simp only [zvfsWrite, andThen, upToPage, bind_apply]
  cases hb : beginOuter env w with
  | crashed w₁ => rfl
  | done rc w₁ =>
    by_cases hrc : rc = .ok
    · simp only [if_pos hrc, bind_apply]
      cases learnPageSize env buf.length w₁ <;> rfl
    · simp only [if_neg hrc]
      rfl

theorem zvfsTruncate_eq (env : Env) (nByte : Int) :
    zvfsTruncate env nByte = andThen (upToPage env (.truncate nByte)) (cutPages env nByte) := by
  funext w
  simp only [zvfsTruncate, andThen, upToPage, bind_apply]
  by_cases hp : w.file.pageSize = 0
  · simp only [VFS.file, Prog.gets, hp, if_true]
    rfl
  · simp only [VFS.file, Prog.gets, hp, if_false, bind_apply]
    cases hb : beginOuter env w with
    | crashed w₁ => rfl
    | done rc w₁ =>
      by_cases hrc : rc = .ok
      · simp only [if_pos hrc]
        rfl
      · simp only [if_neg hrc]
        rfl

/-- A transaction that `begin_outer` opened is open. -/
def World.InTransaction (w : World) : Prop := w.outer.autocommit = false ∧ w.file.inTransaction = true

/-- The page statement of the call, if it has one, is executed in a transaction. -/
def Covered (s : Sys) (e : Event) : Prop :=
  ∀ f, s.file = some f →
    wp (upToPage e.env e.op) (fun stop w => stop = none → w.InTransaction) (fun _ => True) (s.world f)

/-- `begin_outer` succeeds in this state. -/
def Begins (s : Sys) (f : ZFile) (env : Env) : Prop :=
  if s.outer.autocommit then env .begin = .ok else f.inTransaction = true

instance (s : Sys) (f : ZFile) (env : Env) : Decidable (Begins s f env) :=
  inferInstanceAs (Decidable (if s.outer.autocommit then env .begin = .ok else f.inTransaction = true))

/-- The call is the first write of the file, and the statement that saves `meta.page_size` loses the transaction. -/
def PageSizeAborts (s : Sys) (e : Event) : Prop :=
  match s.file, e.op with
  | some f, .write _ _ => f.pageSize = 0 ∧ Begins s f e.env ∧ e.env .savePageSize = .abort
  | _, _ => False

section Statements

variable {env : Env} {w w' : World} {s : Sys} {f : ZFile}

theorem BeginEnds.inTransaction (h : BeginEnds env w .ok w') : w'.InTransaction := by
  cases h with
  | held hf hw =>
    refine ⟨?_, hf⟩
    obtain ⟨d, hd⟩ := Option.isSome_iff_exists.1 hw
    simp [Outer.autocommit, hd]
  | opened _ _ => exact ⟨rfl, rfl⟩

theorem BeginEnds.begins (h : BeginEnds env (s.world f) .ok w') : Begins s f env := by
  unfold Begins
  cases h with
  | held hf hw =>
    obtain ⟨d, hd⟩ := Option.isSome_iff_exists.1 hw
    have ha : s.outer.autocommit = false := by
      show (s.world f).outer.autocommit = false
      simp [Outer.autocommit, hd]
    rw [ha]
    exact hf
  | opened hb hw =>
    have ha : s.outer.autocommit = true := by
      show (s.world f).outer.autocommit = true
      simp [Outer.autocommit, hw]
    rw [ha]
    exact hb

theorem BeginEnds.pageSize {rc : Rc} (h : BeginEnds env w rc w') : w'.file.pageSize = w.file.pageSize := by
  cases h <;> rfl

/-- The transaction survives the detection of the page size, unless its statement rolls it back. -/
theorem learnPageSize_inTransaction (n : Int) (h : w.InTransaction)
    (ha : w.file.pageSize = 0 → env .savePageSize ≠ .abort) :
    wp (learnPageSize env n) (fun _ w' => w'.InTransaction) (fun _ => True) w := by
  unfold learnPageSize
  simp only [wp_bind, wp_file, wp_ite, wp_pure, wp_setFile, wp_stmt]
  refine ⟨fun h0 => ⟨fun _ => ⟨?_, h.2⟩, fun _ => ⟨h.1, h.2⟩, fun hab => absurd hab (ha h0), fun _ => trivial⟩,
    fun _ => h⟩
  have ha := h.1
  cases hw : w.outer.working with
  | none => simp [Outer.autocommit, hw] at ha
  | some d => simp [Outer.apply, Outer.autocommit, hw]

theorem covered_of_not_aborts {e : Event} (h : ¬ PageSizeAborts s e) : Covered s e := by
  intro f hf
  obtain ⟨op, env⟩ := e
  cases op with
  | write buf iOfst =>
    simp only [upToPage, wp_bind]
    refine wp_mono (beginOuter_ends env _) ?_ (fun _ _ => trivial)
    intro rc w₁ hb
    simp only [wp_ite, wp_bind, wp_pure]
    refine ⟨fun hrc => ?_, fun _ => by simp⟩
    subst hrc
    refine wp_mono (learnPageSize_inTransaction _ hb.inTransaction fun h0 hab => h ?_) (fun _ _ hw _ => hw)
      (fun _ _ => trivial)
    have hps : f.pageSize = 0 := by rw [← h0, hb.pageSize]; rfl
    simp only [PageSizeAborts, hf]
    exact ⟨hps, hb.begins, hab⟩
  | truncate nByte =>
    simp only [upToPage, wp_bind, wp_file, wp_ite, wp_pure]
    refine ⟨fun _ => by simp, fun _ => ?_⟩
    refine wp_mono (beginOuter_ends env _) ?_ (fun _ _ => trivial)
    intro rc w₁ hb
    refine ⟨fun hrc _ => ?_, fun _ => by simp⟩
    subst hrc
    exact hb.inTransaction
  | _ => simp [upToPage]

/-- `begin_outer` where it succeeds: what holds after it holds in a state with the same page size. -/
theorem beginOuter_of_begins (h : Begins s f env) {Q : Rc → World → Prop} {C : World → Prop}
    (hwp : wp (beginOuter env) Q C (s.world f)) : ∃ w₁, Q .ok w₁ ∧ w₁.file.pageSize = f.pageSize := by
  unfold Begins at h
  simp only [beginOuter, openTransaction, wp_bind, wp_gets, wp_ite, wp_setFile, wp_pure, wp_execBegin, id] at hwp
  cases hw : s.outer.working with
  | none =>
    have ha : s.outer.autocommit = true := by simp [Outer.autocommit, hw]
    rw [ha, if_pos rfl] at h
    by_cases ht : f.inTransaction = true
    · exact ⟨_, (((hwp.1 ht).1 ha).1 h hw).1 trivial, rfl⟩
    · exact ⟨_, ((hwp.2 ht).1 h hw).1 trivial, rfl⟩
  | some d =>
    have ha : s.outer.autocommit = false := by simp [Outer.autocommit, hw]
    rw [ha] at h
    exact ⟨_, (hwp.1 h).2 (by rw [← Bool.not_eq_true] at ha; exact ha), rfl⟩

theorem not_covered_of_aborts {e : Event} (h : PageSizeAborts s e) : ¬ Covered s e := by
  obtain ⟨op, env⟩ := e
  intro hc
  cases hf : s.file with
  | none => simp [PageSizeAborts, hf] at h
  | some f =>
    cases op with
    | write buf iOfst =>
      obtain ⟨h0, hb, hab⟩ : f.pageSize = 0 ∧ Begins s f env ∧ env .savePageSize = .abort := by
        simpa [PageSizeAborts, hf] using h
      have hwp := hc f hf
      simp only [upToPage, wp_bind] at hwp
      obtain ⟨w₁, hq, hp₁⟩ := beginOuter_of_begins hb hwp
      simp only [learnPageSize, wp_bind, wp_ite, wp_pure, wp_file, wp_setFile, wp_stmt] at hq
      -- the aborted statement leaves the connection in autocommit mode
      obtain ⟨hauto, -⟩ := ((hq.1 trivial).1 (hp₁.trans h0)).2.2.1 hab trivial
      cases hauto
    | _ => simp [PageSizeAborts, hf] at h

/-- Along every run, each statement on the page table is executed in a transaction of `begin_outer` exactly when no
first write of a file loses it to the statement that saves the page size. -/
theorem page_statements_covered_iff (z : Zstd) (s : Sys) (es : List Event) :
    Along (step z) Covered s es ↔ Along (step z) (fun s e => ¬ PageSizeAborts s e) s es := by
  refine Along.congr (I := fun _ => True) (fun _ _ _ => trivial) (fun s e _ => ?_) trivial
  exact ⟨fun hc ha => not_covered_of_aborts ha hc, covered_of_not_aborts⟩

end Statements

/-! ## The log -/

/-- The effect changes the page table. -/
def OuterEv.onPages : OuterEv → Bool
  | .put _ _ | .deleteAbove _ => true
  | _ => false

/-- Whether a transaction is open after an effect. -/
def OuterEv.after (wasOpen : Bool) : OuterEv → Bool
  | .begin => true
  | .commit | .rollback => false
  | .put _ _ | .deleteAbove _ => wasOpen

def openAfter (log : List OuterEv) : Bool := log.foldl OuterEv.after false

/-- Every change of a page took place in a transaction. -/
def Inside (log : List OuterEv) : Prop :=
  ∀ pre ev, pre ++ [ev] <+: log → ev.onPages = true → openAfter pre = true

@[simp] theorem openAfter_concat (log : List OuterEv) (ev : OuterEv) :
    openAfter (log ++ [ev]) = ev.after (openAfter log) := by
  simp [openAfter]

theorem Inside.nil : Inside [] := by
  intro pre ev h
  simp at h

theorem Inside.concat {log : List OuterEv} {ev : OuterEv} (h : Inside log)
    (he : ev.onPages = true → openAfter log = true) : Inside (log ++ [ev]) := by
  intro pre ev' hp hon
  rcases List.prefix_concat_iff.1 hp with heq | hp
  · obtain ⟨rfl, hev⟩ := List.append_inj' heq rfl
    obtain rfl : ev' = ev := by simpa using hev
    exact he hon
  · exact h pre ev' hp hon

theorem Inside.rollbacks {log : List OuterEv} (h : Inside log) (n : Nat) :
    Inside (log ++ List.replicate n .rollback) := by
  induction n with
  | zero => simpa using h
  | succ n ih =>
    rw [List.replicate_succ', ← List.append_assoc]
    exact ih.concat (by simp [OuterEv.onPages])

theorem openAfter_rollbacks (log : List OuterEv) (n : Nat) :
    openAfter (log ++ List.replicate (n + 1) .rollback) = false := by
  rw [List.replicate_succ', ← List.append_assoc, openAfter_concat]
  rfl

/-- The log of an open file knows whether a transaction is open. -/
structure Logged (w : World) : Prop where
  inside : Inside w.log
  known : openAfter w.log = !w.outer.autocommit

section Log

variable {z : Zstd} {env : Env} {w w' : World}

theorem Logged.abort (h : Logged w) : Logged w.abort :=
  ⟨h.inside.concat (by simp [OuterEv.onPages]), by simp [World.abort, OuterEv.after, Outer.rollback, Outer.autocommit]⟩

theorem Logged.begin {rc : Rc} (h : Logged w) (hb : BeginEnds env w rc w') : Logged w' := by
  cases hb with
  | held _ _ => exact h
  | opened _ _ => exact ⟨h.inside.concat (by simp [OuterEv.onPages]), by simp [OuterEv.after, Outer.autocommit]⟩
  | refused _ => exact ⟨h.inside, h.known⟩
  | aborted _ => exact ⟨h.abort.inside, h.abort.known⟩

theorem Logged.commit {rc : Rc} (h : Logged w) (hc : CommitEnds env w rc w') : Logged w' := by
  cases hc with
  | idle _ => exact h
  | stale _ _ => exact ⟨h.inside, h.known⟩
  | committed d v saved _ _ _ _ =>
    exact ⟨h.inside.concat (by simp [OuterEv.onPages]), by simp [OuterEv.after, Outer.autocommit]⟩
  | rolledBack n saved _ _ _ =>
    have hlog : w.log ++ .rollback :: List.replicate n .rollback = w.log ++ List.replicate (n + 1) .rollback := by
      rw [List.replicate_succ]
    refine ⟨?_, ?_⟩
    · show Inside (w.log ++ .rollback :: List.replicate n .rollback)
      rw [hlog]
      exact h.inside.rollbacks _
    · show openAfter (w.log ++ .rollback :: List.replicate n .rollback) = _
      rw [hlog, openAfter_rollbacks]
      rfl
  | stuck d v saved _ hw _ _ => exact ⟨h.inside, h.known.trans (by simp [Outer.autocommit, hw])⟩

theorem logged_envelope (env : Env) : Envelope env Logged (fun w => Inside w.log) where
  begin := Logged.begin
  commit := Logged.commit
  read := fun h _ => h.abort
  lock := fun h _ => ⟨h.inside, h.known⟩
  cut := by
    rintro w w' h ⟨-, -, n, hn⟩
    rw [hn]
    exact h.inside.rollbacks n

theorem Logged.apply (h : Logged w) (g : DB → DB) {evs : List OuterEv} (hi : Inside (w.log ++ evs))
    (ho : openAfter (w.log ++ evs) = openAfter w.log) (f : ZFile) :
    Logged ⟨f, w.outer.apply g, w.log ++ evs⟩ := by
  refine ⟨hi, ho.trans (h.known.trans ?_)⟩
  show (!w.outer.autocommit) = !(w.outer.apply g).autocommit
  unfold Outer.apply Outer.autocommit
  cases w.outer.working <;> rfl

theorem learnPageSize_logged (n : Int) (h : Logged w) :
    wp (learnPageSize env n) (fun _ => Logged) (fun w => Inside w.log) w := by
  unfold learnPageSize
  simp only [wp_bind, wp_file, wp_ite, wp_pure, wp_setFile, wp_stmt]
  refine ⟨fun _ => ⟨fun _ => ?_, fun _ => ⟨h.inside, h.known⟩, fun _ => ⟨h.abort.inside, h.abort.known⟩,
    fun _ => h.inside⟩, fun _ => h⟩
  exact h.apply (setPageSize n) (by simpa using h.inside) (by simp) _

/-- A statement on the page table, in a transaction. -/
theorem stmt_logged {g : DB → DB} {ev : OuterEv} (he : ev.after (openAfter w.log) = openAfter w.log)
    (h : Logged w) (ht : w.InTransaction) :
    wp (stmt env .page g [ev]) (fun _ => Logged) (fun w => Inside w.log) w := by
  have hopen : openAfter w.log = true := by rw [h.known, ht.1]; rfl
  rw [wp_stmt]
  refine ⟨fun _ => ?_, fun _ => h, fun _ => h.abort, fun _ => h.inside⟩
  exact h.apply g (h.inside.concat fun _ => hopen) (by rw [openAfter_concat, he]) _

theorem storePage_logged (buf : Bytes) (iOfst : Int) (h : Logged w) (ht : w.InTransaction) :
    wp (storePage z env buf iOfst) (fun _ => Logged) (fun w => Inside w.log) w := by
  unfold storePage
  simp only [wp_bind, wp_file, wp_ite, wp_pure, wp_setFile]
  refine wp_mono (stmt_logged rfl h ht) ?_ (fun _ hc => hc)
  intro ok w₁ h₁
  exact ⟨fun _ => ⟨h₁.inside, h₁.known⟩, fun _ => h₁⟩

theorem cutPages_logged (nByte : Int) (h : Logged w) (ht : w.InTransaction) :
    wp (cutPages env nByte) (fun _ => Logged) (fun w => Inside w.log) w := by
  unfold cutPages
  simp only [wp_bind, wp_file, wp_ite, wp_pure, wp_setFile]
  refine wp_mono (stmt_logged rfl h ht) ?_ (fun _ hc => hc)
  intro ok w₁ h₁
  exact ⟨fun _ => ⟨h₁.inside, h₁.known⟩, fun _ => h₁⟩

theorem upToPage_logged (op : Op) (h : Logged w) :
    wp (upToPage env op) (fun _ => Logged) (fun w => Inside w.log) w := by
  cases op with
  | write buf iOfst =>
    simp only [upToPage, wp_bind]
    refine wp_mono ((logged_envelope env).beginOuter h) ?_ (fun _ hc => hc)
    intro rc w₁ h₁
    simp only [wp_ite, wp_bind, wp_pure]
    exact ⟨fun _ => learnPageSize_logged _ h₁, fun _ => h₁⟩
  | truncate nByte =>
    simp only [upToPage, wp_bind, wp_file, wp_ite, wp_pure]
    refine ⟨fun _ => h, fun _ => ?_⟩
    exact wp_mono ((logged_envelope env).beginOuter h) (fun _ _ h₁ => ⟨fun _ => h₁, fun _ => h₁⟩) (fun _ hc => hc)
  | _ => simpa [upToPage] using h

/-- A call whose page statement is covered. -/
theorem andThen_logged {op : Op} {rest : VFS Rc} (h : Logged w)
    (hc : wp (upToPage env op) (fun stop w => stop = none → w.InTransaction) (fun _ => True) w)
    (hrest : ∀ w, Logged w → w.InTransaction → wp rest (fun _ => Logged) (fun w => Inside w.log) w) :
    wp (andThen (upToPage env op) rest) (fun _ => Logged) (fun w => Inside w.log) w := by
  unfold andThen
  rw [wp_bind]
  refine wp_mono (wp_and (upToPage_logged op h) hc) ?_ (fun _ hx => hx.1)
  rintro stop w₁ ⟨h₁, ht⟩
  cases stop with
  | some rc => exact h₁
  | none => exact hrest w₁ h₁ (ht rfl)

/-- **A call** on an open file whose page statement is covered. -/
theorem code_logged {op : Op} (h : Logged w) (hclose : ∀ t, op ≠ .close t)
    (hc : wp (upToPage env op) (fun stop w => stop = none → w.InTransaction) (fun _ => True) w) :
    wp (code z env op) (fun _ => Logged) (fun w => Inside w.log) w := by
  have he := logged_envelope env
  cases op with
  | «open» => exact h
  | close t => exact absurd rfl (hclose t)
  | read iAmt iOfst => exact he.zvfsRead h iAmt iOfst
  | write buf iOfst =>
    simp only [code, wp_bind, wp_pure]
    rw [zvfsWrite_eq]
    exact andThen_logged h hc fun w h ht => storePage_logged buf iOfst h ht
  | truncate nByte =>
    simp only [code, wp_bind, wp_pure]
    rw [zvfsTruncate_eq]
    exact andThen_logged h hc fun w h ht => cutPages_logged nByte h ht
  | sync => simpa [code] using he.zvfsSync h
  | lock level => simpa [code] using he.zvfsLock h level
  | unlock level => simpa [code] using he.zvfsUnlock h level

theorem zvfsClose_logged (h : Logged w) (t : Option Bytes) :
    wp (zvfsClose env t) (fun _ w' => Inside w'.log ∧ openAfter w'.log = false ∧ w'.outer.working = none)
      (fun w => Inside w.log) w := by
  unfold zvfsClose
  simp only [wp_bind, wp_pure]
  refine wp_mono (commitOuter_ends env w) ?_ (fun _ hc => (logged_envelope env).cut h hc)
  intro rc w₁ hc
  have h₁ : Logged w₁ := h.commit hc
  refine wp_mono (trainDictionary_ends env t w₁) ?_ (fun w' hw => hw.1 ▸ h₁.inside)
  intro _ w₂ htrain
  have h₂ : Inside w₂.log := by
    cases htrain with
    | skipped => exact h₁.inside
    | aborted _ => exact h₁.abort.inside
    | stored blob _ => exact h₁.inside
    | unstored blob _ => exact h₁.inside
    | lost blob _ => exact h₁.abort.inside
  refine wp_mono (outerDbClose_ends env w₂) ?_ ?_
  · intro _ w₃ hs
    obtain ⟨n, hn⟩ := hs.rolled
    rw [hn]
    exact ⟨h₂.rollbacks _, openAfter_rollbacks _ n, hs.working⟩
  · rintro w₃ ⟨hf, -⟩
    obtain ⟨n, hn⟩ := hf.log
    rw [hn]
    exact h₂.rollbacks n

theorem zvfsOpen_logged (hi : Inside w.log) (ho : openAfter w.log = false) (hw : w.outer.working = none) :
    wp (zvfsOpen env)
      (fun rc w' => (rc = .ok → Logged w') ∧
        (rc ≠ .ok → Inside w'.log ∧ openAfter w'.log = false ∧ w'.outer.working = none))
      (fun w => Inside w.log) w := by
  have hrolled : ∀ n, Inside (w.rolled n) ∧ openAfter (w.rolled n) = false := by
    intro n
    refine ⟨hi.rollbacks n, ?_⟩
    cases n with
    | zero => simpa [World.rolled] using ho
    | succ n => exact openAfter_rollbacks _ n
  refine wp_mono (zvfsOpen_ends env hw) ?_ ?_
  · rintro rc w' ⟨hok, hno⟩
    refine ⟨fun hrc => ?_, fun hrc => ?_⟩
    · obtain ⟨hidle, -⟩ := hok hrc
      obtain ⟨n, hn⟩ := hidle.log
      refine ⟨by rw [hn]; exact (hrolled n).1, ?_⟩
      rw [hn, (hrolled n).2, hidle.outer]
      simp [Outer.autocommit, hw]
    · obtain ⟨hrec, hwork, -⟩ := hno hrc
      obtain ⟨n, hn⟩ := hrec.log
      rw [hn]
      exact ⟨(hrolled n).1, (hrolled n).2, hwork⟩
  · rintro w' ⟨hrec, -⟩
    obtain ⟨n, hn⟩ := hrec.log
    rw [hn]
    exact (hrolled n).1

end Log

/-- What holds between two calls. -/
def Sys.Logged (s : Sys) : Prop :=
  s.Holds Vfs.Logged fun o log => Inside log ∧ openAfter log = false ∧ o.working = none

theorem step_logged {z : Zstd} {s : Sys} {e : Event} (h : s.Logged) (hc : Covered s e) : (step z s e).Logged := by
  refine step_holds (C := fun w => Inside w.log) h ?_ ?_ ?_ ?_
  · rintro - - ⟨hi, ho, hw⟩
    exact zvfsOpen_logged hi ho hw
  · intro f t _ _ hw
    exact zvfsClose_logged hw t
  · intro f hf hclose hw
    exact code_logged hw hclose (hc f hf)
  · intro w hi
    exact ⟨hi.concat (by simp [OuterEv.onPages]), by simp [World.abort, OuterEv.after], rfl⟩

/-- In a run in which no first write loses its transaction, every change of a page lies in a transaction. -/
theorem pages_inside {z : Zstd} {es : List Event}
    (h : Along (step z) (fun s e => ¬ PageSizeAborts s e) Sys.fresh es) : Inside (run z Sys.fresh es).log := by
  have hfresh : Sys.fresh.Logged := ⟨.nil, rfl, rfl⟩
  have hrun : (run z Sys.fresh es).Logged :=
    Along.invariant (fun s e hs he => step_logged hs (covered_of_not_aborts he)) hfresh h
  unfold Sys.Logged Sys.Holds at hrun
  split at hrun
  · exact hrun.inside
  · exact hrun.1

/-- The first write of a file: saving the page size fails and rolls back, and the page is stored on its own. -/
theorem first_page_autocommitted :
    ¬ Along (step incompressible) Covered Sys.fresh [⟨.open, Env.fine⟩, ⟨.lock 2, Env.fine⟩,
      ⟨.write (zeros 512) 0, Env.fine.but .savePageSize .abort⟩] ∧
    (run incompressible Sys.fresh [⟨.open, Env.fine⟩, ⟨.lock 2, Env.fine⟩,
      ⟨.write (zeros 512) 0, Env.fine.but .savePageSize .abort⟩]).log =
        [.begin, .rollback, .put 1 (zeros 512)] := by
  refine ⟨?_, by decide +kernel⟩
  rintro ⟨-, -, h, -⟩
  refine not_covered_of_aborts ?_ h
  refine ⟨?_, ?_, ?_⟩ <;> decide +kernel

end PoxChat.Vfs
