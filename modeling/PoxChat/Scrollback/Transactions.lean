import PoxChat.Lib.Program

/-!
# Nested transactions of the scrollback store

`scrollback_begin_transaction` and `scrollback_commit_transaction` count how many callers are inside a
transaction; the first begins it and the last commits it.  `scrollback_migrate` issues its own `BEGIN` and
`COMMIT`, and `chathistory_cancel_chunk_processing` commits without having begun.

* `Db` — the counter, whether SQLite is inside a transaction, and two history variables that no code reads: the
  callers that have begun and not committed, and for each `COMMIT` that took effect those who had not.
* SQLite refuses a `BEGIN` inside a transaction and a `COMMIT` outside one; no other call fails.

Principal result: `transactions_balanced_iff` — the counter, the connection and the commits are as they should be
in every state of a run exactly when no migration and no cancelled chunk meets an open transaction.
-/

set_option autoImplicit false

namespace PoxChat.Scrollback.Transactions

open Lib

/-! ## The store -/

/-- Who has begun a transaction: a chunk tick, a batch, the index or another caller, or the gap ledger. -/
inductive Writer where
  | caller (id : Nat)
  | gapRecord
  | gapBootstrap
  deriving DecidableEq

structure Db where
  transactionDepth : Int := 0
  /-- The connection is not in autocommit mode. -/
  inTransaction : Bool := false
  openBy : List Writer := []
  commits : List (List Writer) := []

namespace Db

def sqliteBegin (db : Db) : Db := { db with inTransaction := true }

def sqliteCommit (db : Db) : Db :=
  if db.inTransaction then { db with inTransaction := false, commits := db.commits ++ [db.openBy] } else db

end Db

/-- `scrollback_begin_transaction`. -/
def scrollbackBeginTransaction (db : Db) : Db :=
  let db := { db with transactionDepth := db.transactionDepth + 1 }
  if db.transactionDepth = 1 then db.sqliteBegin else db

/-- `scrollback_commit_transaction`. -/
def scrollbackCommitTransaction (db : Db) : Db :=
  if db.transactionDepth ≤ 0 then db
  else
    let db := { db with transactionDepth := db.transactionDepth - 1 }
    if db.transactionDepth = 0 then db.sqliteCommit else db

/-! ## The callers -/

namespace Db

def begin (db : Db) (w : Writer) : Db := scrollbackBeginTransaction { db with openBy := w :: db.openBy }

/-- A caller's own commit; it does not occur where the caller has nothing open. -/
def commit (db : Db) (w : Writer) : Db :=
  if w ∈ db.openBy then scrollbackCommitTransaction { db with openBy := db.openBy.erase w } else db

end Db

/-- `scrollback_gap_record`; `valid` where it has a channel and a span. -/
def scrollbackGapRecord (valid : Bool) (db : Db) : Db :=
  if valid then (db.begin .gapRecord).commit .gapRecord else db

/-- `scrollback_gap_bootstrap`, with what it records; `due` where the channel has not been scanned. -/
def scrollbackGapBootstrap (due : Bool) (records : List Bool) (db : Db) : Db :=
  if due then
    (records.foldl (fun db valid => scrollbackGapRecord valid db) (db.begin .gapBootstrap)).commit .gapBootstrap
  else db

/-- `scrollback_migrate`; `found` where there is an old file. -/
def scrollbackMigrate (found : Bool) (db : Db) : Db := if found then db.sqliteBegin.sqliteCommit else db

/-- `chathistory_cancel_chunk_processing`; `held` where the session has a chunk, of a network with a store. -/
def chathistoryCancelChunkProcessing (held : Bool) (db : Db) : Db :=
  if held then scrollbackCommitTransaction db else db

/-- What happens to the store.  A chunk tick is a caller whose messages are handled between its `begin` and its
`commit`. -/
inductive TransactionEvent where
  | begin (id : Nat)
  | commit (id : Nat)
  | gapRecord (valid : Bool)
  | gapBootstrap (due : Bool) (records : List Bool)
  | migrate (found : Bool)
  | cancel (held : Bool)

def transactionStep (db : Db) : TransactionEvent → Db
  | .begin id => db.begin (.caller id)
  | .commit id => db.commit (.caller id)
  | .gapRecord valid => scrollbackGapRecord valid db
  | .gapBootstrap due records => scrollbackGapBootstrap due records db
  | .migrate found => scrollbackMigrate found db
  | .cancel held => chathistoryCancelChunkProcessing held db

/-- The counter is the number of begins without their commit, SQLite is in a transaction exactly when there are
some, and no `COMMIT` took effect while one of them was open. -/
structure Balanced (db : Db) : Prop where
  depth : db.transactionDepth = db.openBy.length
  connection : db.inTransaction = true ↔ 0 < db.openBy.length
  commits : ∀ pending ∈ db.commits, pending = []

/-- No migration and no cancelled chunk meets an open transaction. -/
def Unnested (db : Db) : TransactionEvent → Prop
  | .migrate found => found = true → db.openBy = []
  | .cancel held => held = true → db.openBy = []
  | _ => True

/-! ## One step -/

variable {db : Db} {w : Writer}

theorem Balanced.begin (h : Balanced db) (w : Writer) : Balanced (db.begin w) := by
  have hd := h.depth
  unfold Db.begin scrollbackBeginTransaction
  dsimp only
  split
  · exact ⟨by simp [Db.sqliteBegin, hd], by simp [Db.sqliteBegin], h.commits⟩
  · rename_i hne
    have hpos : 0 < db.openBy.length := by
      rw [hd] at hne
      omega
    refine ⟨by simp [hd], ?_, h.commits⟩
    simp [h.connection.2 hpos]

/-- The caller's own commit: SQLite commits with the last one. -/
theorem Balanced.commit (h : Balanced db) (w : Writer) : Balanced (db.commit w) := by
  unfold Db.commit
  split
  · rename_i hw
    have hd := h.depth
    have hlen := List.length_erase_of_mem hw
    have hpos : 0 < db.openBy.length := List.length_pos_of_mem hw
    have hin : db.inTransaction = true := h.connection.2 hpos
    have hne : ¬ db.transactionDepth ≤ 0 := by
      rw [hd]
      omega
    unfold scrollbackCommitTransaction
    dsimp only
    rw [if_neg hne]
    split
    · rename_i h0
      have hnil : db.openBy.erase w = [] := by
        rw [hd] at h0
        exact List.eq_nil_of_length_eq_zero (by omega)
      refine ⟨?_, ?_, ?_⟩
      · simp [Db.sqliteCommit, hin, hnil, h0]
      · simp [Db.sqliteCommit, hin, hnil]
      · intro pending hp
        have hp : pending ∈ db.commits ∨ pending = db.openBy.erase w := by
          simpa [Db.sqliteCommit, hin] using hp
        rcases hp with hp | rfl
        · exact h.commits pending hp
        · exact hnil
    · rename_i h0
      rw [hd] at h0
      refine ⟨?_, ?_, h.commits⟩
      · show db.transactionDepth - 1 = ((db.openBy.erase w).length : Int)
        rw [hlen, hd]
        omega
      · show db.inTransaction = true ↔ 0 < (db.openBy.erase w).length
        rw [hlen]
        exact ⟨fun _ => by omega, fun _ => hin⟩
  · exact h

theorem Balanced.gapRecord (h : Balanced db) (valid : Bool) : Balanced (scrollbackGapRecord valid db) := by
  unfold scrollbackGapRecord
  split
  · exact (h.begin _).commit _
  · exact h

theorem Balanced.gapRecords (h : Balanced db) (records : List Bool) :
    Balanced (records.foldl (fun db valid => scrollbackGapRecord valid db) db) := by
  induction records generalizing db with
  | nil => exact h
  | cons valid records ih => exact ih (h.gapRecord valid)

theorem Balanced.gapBootstrap (h : Balanced db) (due : Bool) (records : List Bool) :
    Balanced (scrollbackGapBootstrap due records db) := by
  unfold scrollbackGapBootstrap
  split
  · exact ((h.begin _).gapRecords records).commit _
  · exact h

/-- The `COMMIT` of a migration ends whatever transaction is open. -/
theorem Balanced.migrate_iff (h : Balanced db) : Balanced (scrollbackMigrate true db) ↔ db.openBy = [] := by
  have hmig : scrollbackMigrate true db =
      { db with inTransaction := false, commits := db.commits ++ [db.openBy] } := by
    simp [scrollbackMigrate, Db.sqliteBegin, Db.sqliteCommit]
  rw [hmig]
  constructor
  · intro h'
    exact h'.commits db.openBy (List.mem_append_right _ (List.mem_singleton.2 rfl))
  · intro hnil
    refine ⟨h.depth, by simp [hnil], fun pending hp => ?_⟩
    rcases List.mem_append.1 hp with hp | hp
    · exact h.commits pending hp
    · rw [List.mem_singleton.1 hp, hnil]

/-- The commit of a cancelled chunk takes one begin too many. -/
theorem Balanced.cancel_iff (h : Balanced db) :
    Balanced (chathistoryCancelChunkProcessing true db) ↔ db.openBy = [] := by
  have hd := h.depth
  show Balanced (scrollbackCommitTransaction db) ↔ _
  unfold scrollbackCommitTransaction
  by_cases h0 : db.transactionDepth ≤ 0
  · rw [if_pos h0]
    exact iff_of_true h (List.eq_nil_of_length_eq_zero (by omega))
  · rw [if_neg h0]
    refine iff_of_false (fun h' => ?_) (fun hnil => h0 (by simp [hd, hnil]))
    have hdepth := h'.depth
    dsimp only at hdepth
    split at hdepth
    · unfold Db.sqliteCommit at hdepth
      split at hdepth <;> (dsimp only at hdepth; omega)
    · dsimp only at hdepth
      omega

/-- **One event** keeps the balance exactly when it is not a migration or a cancelled chunk inside a
transaction. -/
theorem transactionStep_balanced_iff (h : Balanced db) (e : TransactionEvent) :
    Balanced (transactionStep db e) ↔ Unnested db e := by
  cases e with
  | begin id => exact iff_of_true (h.begin _) trivial
  | commit id => exact iff_of_true (h.commit _) trivial
  | gapRecord valid => exact iff_of_true (h.gapRecord valid) trivial
  | gapBootstrap due records => exact iff_of_true (h.gapBootstrap due records) trivial
  | migrate found =>
    cases found with
    | false => exact iff_of_true h (fun hf => nomatch hf)
    | true => exact h.migrate_iff.trans ⟨fun hn _ => hn, fun hn => hn rfl⟩
  | cancel held =>
    cases held with
    | false => exact iff_of_true h (fun hf => nomatch hf)
    | true => exact h.cancel_iff.trans ⟨fun hn _ => hn, fun hn => hn rfl⟩

/-! ## Runs -/

/-- The transactions of a store are balanced in every state of a run exactly when no migration and no cancelled
chunk of the run meets an open one. -/
theorem transactions_balanced_iff (es : List TransactionEvent) :
    (∀ pre, pre <+: es → Balanced (pre.foldl transactionStep {})) ↔ Along transactionStep Unnested {} es := by
  have hall : Along transactionStep (fun _ _ => True) {} es := .of_forall (fun _ _ _ => trivial) _
  refine Along.iff_prefixes (I := Balanced) (fun _ h => h) (fun db e h _ => transactionStep_balanced_iff h e)
    (fun db e h _ he => (transactionStep_balanced_iff h e).2 he) ?_ hall
  exact ⟨rfl, by simp, by simp⟩

/-- A chunk of a session is cancelled while a batch is written: the batch is committed half way and its last rows
outside any transaction. -/
theorem cancel_commits_batch :
    ¬ Balanced ([.begin 0, .cancel true].foldl transactionStep {}) ∧
      ([.begin 0, .cancel true].foldl transactionStep {} : Db).commits = [[.caller 0]] ∧
      ([.begin 0, .migrate true].foldl transactionStep {} : Db).commits = [[.caller 0]] := by
  refine ⟨fun h => ?_, by decide, by decide⟩
  exact absurd h.depth (by decide)

end PoxChat.Scrollback.Transactions
