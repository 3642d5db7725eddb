import PoxChat.Lib.Table
import PoxChat.Lib.Program

/-!
# The outer database of the zstd VFS

`sqlite-zstd-vfs.c` keeps the pages of the inner database as rows of an ordinary SQLite file, the
*outer* database.  This file models that file as the VFS sees it through its one connection:

* `DB` — one state of the tables `pages` and `meta` (`meta` has three keys in use; the integers
  are stored as decimal text and read back with `atoi`).
* `Outer` — the committed state and, while a transaction is open, the working one.  A crash leaves
  exactly the committed state.
* `Fault` — how the environment answers one outer call.  A failing statement may roll the open
  transaction back (`abort`); a process death before the call is `crash`.
* `Call` — the call sites of the VFS, each reached at most once in one VFS call, so that an
  environment of a VFS call is a function `Call → Fault`.

The log of `World` is a history variable: the effects of the outer calls in the order in which they
took place, with the pages as the VFS was given them.  No code reads it.
-/

set_option autoImplicit false

namespace PoxChat.Vfs

open Lib

abbrev Bytes := List UInt8

/-- `pages.is_compressed`: `COMPRESS_RAW`, `COMPRESS_ZSTD`, `COMPRESS_ZSTD_DICT`. -/
inductive Method where
  | raw
  | zstd
  | zstdDict
  deriving DecidableEq

/-- A row of `pages` under its `pgno`. -/
structure PageRow where
  data : Bytes
  isCompressed : Method
  deriving DecidableEq

structure DB where
  pages : Table Int PageRow
  /-- `meta.page_size` -/
  pageSize : Option Int
  /-- `meta.page_count` -/
  pageCount : Option Int
  /-- `meta.zstd_dict` -/
  zstdDict : Option Bytes

def DB.empty : DB := ⟨[], none, none, none⟩

/-- `SELECT MAX(pgno) FROM pages`; `sqlite3_column_int` reads the `NULL` of an empty table as 0. -/
def DB.maxPgno (d : DB) : Int := d.pages.maxKey.getD 0

structure Outer where
  committed : DB
  working : Option DB

/-- What the connection sees. -/
def Outer.view (o : Outer) : DB := o.working.getD o.committed

/-- `sqlite3_get_autocommit`. -/
def Outer.autocommit (o : Outer) : Bool := o.working.isNone

/-- A statement acts in the open transaction, or commits on its own. -/
def Outer.apply (o : Outer) (g : DB → DB) : Outer :=
  match o.working with
  | some w => { o with working := some (g w) }
  | none => { o with committed := g o.committed }

def Outer.rollback (o : Outer) : Outer := { o with working := none }

@[simp] theorem Outer.view_apply (o : Outer) (g : DB → DB) : (o.apply g).view = g o.view := by
  unfold Outer.apply Outer.view
  cases o.working <;> rfl

@[simp] theorem Outer.view_rollback (o : Outer) : o.rollback.view = o.committed := rfl

/-- How the environment answers one outer call. -/
inductive Fault where
  | ok
  | fail
  | abort
  | crash
  deriving DecidableEq

/-- The outer calls of the VFS, by call site. -/
inductive Call where
  | openOuter | schema | prepare | metaPageSize | metaPageCount | maxPgno | header | loadDict
  | begin | savePageSize | page | read
  | savePageCount | commit | rollback
  | sample | saveDict | closePageSize | closePageCount
  deriving DecidableEq

abbrev Env := Call → Fault

/-- The environment in which no outer call fails. -/
def Env.fine : Env := fun _ => .ok

/-- The environment that answers one call differently. -/
def Env.but (env : Env) (c : Call) (r : Fault) : Env := fun c' => if c' = c then r else env c'

/-- Effects of outer calls. -/
inductive OuterEv where
  | begin
  | put (pgno : Int) (page : Bytes)
  | deleteAbove (n : Int)
  | commit
  | rollback
  deriving DecidableEq

/-- `zstd_vfs_file`, without the handles.  `cdict` and `ddict` are always created together from one
blob and are kept as that blob. -/
structure ZFile where
  pageSize : Int
  pageCount : Int
  metaPageCountSaved : Int
  fileSize : Int
  dict : Option Bytes
  lockLevel : Nat
  inTransaction : Bool
  deriving DecidableEq

/-- `memset (f, 0, sizeof (*f))`. -/
def ZFile.zero : ZFile := ⟨0, 0, 0, 0, none, 0, false⟩

structure World where
  file : ZFile
  outer : Outer
  log : List OuterEv

/-- SQLite's own rollback of a transaction whose statement failed. -/
def World.abort (w : World) : World :=
  { w with outer := w.outer.rollback, log := w.log ++ [.rollback] }

abbrev VFS := Prog World

def VFS.file : VFS ZFile := Prog.gets (·.file)

def VFS.setFile (g : ZFile → ZFile) : VFS Unit := Prog.modify fun w => { w with file := g w.file }

/-- A modifying statement; `evs` are its effects on the page table. -/
def stmt (env : Env) (c : Call) (g : DB → DB) (evs : List OuterEv) : VFS Bool := fun w =>
  match env c with
  | .ok => .done true { w with outer := w.outer.apply g, log := w.log ++ evs }
  | .fail => .done false w
  | .abort => .done false w.abort
  | .crash => .crashed w

/-- A reading statement (also opening, schema creation and preparation, which the model needs only
for their failures). -/
def query {α : Type} (env : Env) (c : Call) (g : DB → α) : VFS (Option α) := fun w =>
  match env c with
  | .ok => .done (some (g w.outer.view)) w
  | .fail => .done none w
  | .abort => .done none w.abort
  | .crash => .crashed w

/-- `BEGIN IMMEDIATE`; it fails inside a transaction. -/
def execBegin (env : Env) : VFS Bool := fun w =>
  match env .begin with
  | .ok =>
    match w.outer.working with
    | some _ => .done false w
    | none =>
      .done true { w with outer := { w.outer with working := some w.outer.committed },
                          log := w.log ++ [.begin] }
  | .fail => .done false w
  | .abort => .done false w.abort
  | .crash => .crashed w

/-- `COMMIT`; it fails outside a transaction. -/
def execCommit (env : Env) : VFS Bool := fun w =>
  match env .commit with
  | .ok =>
    match w.outer.working with
    | some d => .done true { w with outer := ⟨d, none⟩, log := w.log ++ [.commit] }
    | none => .done false w
  | .fail => .done false w
  | .abort => .done false w.abort
  | .crash => .crashed w

/-- `ROLLBACK`. -/
def execRollback (env : Env) : VFS Unit := fun w =>
  match env .rollback with
  | .ok => .done () w.abort
  | .fail => .done () w
  | .abort => .done () w.abort
  | .crash => .crashed w

end PoxChat.Vfs
