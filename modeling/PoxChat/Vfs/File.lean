import PoxChat.Vfs.Outer

/-!
# The main-database methods of the zstd VFS

`outer_db_init`, `begin_outer`, `commit_outer`, `train_dictionary` and the `zvfs_*` methods of
`sqlite-zstd-vfs.c`, over the outer database of `PoxChat.Vfs.Outer`.

* Offsets and sizes are `sqlite3_int64`; page numbers and counts are `int`, and `pgnoOf` keeps the
  conversion `(int)(iOfst / page_size) + 1`.
* Return codes are compared with `SQLITE_OK` only by the VFS itself, so a failing outer call is
  `Rc.error` whatever code SQLite gave it.
* zstd is a parameter (`Zstd`): it is linked, not part of the repository.  What
  `ZDICT_trainFromBuffer` makes of the randomly drawn sample is an input of `close`.

`step` runs one VFS call on a file that is open or closed; a crash closes it and leaves the outer
database at its committed state.
-/

set_option autoImplicit false

namespace PoxChat.Vfs

open Lib

/-- `SQLITE_OK` and the codes the VFS returns itself. -/
inductive Rc where
  | ok
  | error
  | corrupt
  | busy
  | ioerrRead
  | ioerrShortRead
  | ioerrWrite
  | ioerrTruncate
  | ioerrFsync
  deriving DecidableEq

/-- `ZSTD_compress*` at level 3 and `ZSTD_decompress*` into a buffer of the given capacity, without
or with a dictionary; `none` is `ZSTD_isError`. -/
structure Zstd where
  compress : Option Bytes → Bytes → Option Bytes
  decompress : Option Bytes → Bytes → Nat → Option Bytes

/-- Decompression inverts compression under the same (or no) dictionary. -/
def Zstd.Inverts (z : Zstd) : Prop :=
  ∀ d x c n, z.compress d x = some c → x.length ≤ n → z.decompress d c n = some x

/-- A compressor that never succeeds: every page is stored raw. -/
def incompressible : Zstd := ⟨fun _ _ => none, fun _ _ _ => none⟩

def DICT_PAGE_THRESHOLD : Int := 200
def DICT_TRAINING_SAMPLES : Nat := 2000

def setPageSize (v : Int) (d : DB) : DB := { d with pageSize := some v }

def setPageCount (v : Int) (d : DB) : DB := { d with pageCount := some v }

def saveDict (blob : Bytes) (d : DB) : DB := { d with zstdDict := some blob }

/-! ## Opening and closing the outer database -/

/-- Page size in the header of a page-1 row: bytes 16–17, big-endian, 1 meaning 64K. -/
def headerPageSize (row : PageRow) : Option Int :=
  if row.isCompressed = .raw ∧ 100 ≤ row.data.length then
    let ps := (row.data.getD 16 0).toNat * 256 + (row.data.getD 17 0).toNat
    if ps = 1 then some 65536
    else if 512 ≤ ps ∧ ps ≤ 32768 ∧ ps &&& (ps - 1) = 0 then some ps
    else none
  else none

/-- The page size `outer_db_init` settles on, from `meta` or else from the page-1 header. -/
def openPageSize (env : Env) (metaPageSize maxPgno : Int) : VFS Int :=
  if metaPageSize ≤ 0 ∧ 1 ≤ maxPgno then do
    match ← query env .header (fun d => d.pages.get 1) with
    | some (some row) => return (headerPageSize row).getD metaPageSize
    | _ => return metaPageSize
  else return metaPageSize

/-- The geometry part of `outer_db_init`. -/
def openGeometry (env : Env) : VFS Rc := do
  let metaPageSize := ((← query env .metaPageSize (·.pageSize)).getD none).getD 0
  let metaPageCount := ((← query env .metaPageCount (·.pageCount)).getD none).getD 0
  match ← query env .maxPgno (·.maxPgno) with
  | none => return .error
  | some maxPgno =>
    let pageSize ← openPageSize env metaPageSize maxPgno
    VFS.setFile fun f =>
      { f with pageSize := pageSize, pageCount := maxPgno, metaPageCountSaved := metaPageCount }
    if 0 < pageSize then
      VFS.setFile fun f => { f with fileSize := pageSize * maxPgno }
      return .ok
    else if 1 ≤ maxPgno then return .corrupt
    else
      VFS.setFile fun f => { f with pageCount := 0 }
      return .ok

/-- The dictionary part of `outer_db_init`; a failing `SELECT` leaves the file without one. -/
def openDict (env : Env) : VFS Unit := do
  match ← query env .loadDict (·.zstdDict) with
  | some (some blob) =>
    if 0 < blob.length then VFS.setFile fun f => { f with dict := some blob } else return ()
  | _ => return ()

/-- `outer_db_init`. -/
def outerDbInit (env : Env) : VFS Rc := do
  match ← query env .openOuter (fun _ => ()) with
  | none => return .error
  | some _ =>
  match ← query env .schema (fun _ => ()) with
  | none => return .error
  | some _ =>
  match ← query env .prepare (fun _ => ()) with
  | none => return .error
  | some _ =>
  let rc ← openGeometry env
  if rc = .ok then
    openDict env
    return .ok
  else return rc

/-- `outer_db_close`: persist the geometry and close the connection, which rolls an open
transaction back. -/
def outerDbClose (env : Env) : VFS Unit := do
  let f ← VFS.file
  if 0 < f.pageSize then
    let _ ← stmt env .closePageSize (setPageSize f.pageSize) []
    if 0 < f.pageCount then
      let _ ← stmt env .closePageCount (setPageCount f.pageCount) []
      Prog.modify World.abort
    else Prog.modify World.abort
  else if 0 < f.pageCount then
    let _ ← stmt env .closePageCount (setPageCount f.pageCount) []
    Prog.modify World.abort
  else Prog.modify World.abort

/-! ## Compression -/

/-- `compress_page`: `none` when zstd fails or does not shrink the page. -/
def compressPage (z : Zstd) (dict : Option Bytes) (data : Bytes) : Option PageRow :=
  match z.compress dict data with
  | none => none
  | some c =>
    if data.length ≤ c.length then none
    else some ⟨c, if dict.isSome then .zstdDict else .zstd⟩

/-- The row `zvfs_write` stores: page 1 always raw. -/
def pageRow (z : Zstd) (dict : Option Bytes) (pgno : Int) (data : Bytes) : PageRow :=
  if 1 < pgno then (compressPage z dict data).getD ⟨data, .raw⟩ else ⟨data, .raw⟩

/-- `decompress_page` into a buffer of `bufLen` bytes; the bytes past the decompressed length keep
what the buffer held and are not part of the result. -/
def decompressPage (z : Zstd) (dict : Option Bytes) (row : PageRow) (bufLen : Nat) : Option Bytes :=
  if row.isCompressed = .zstdDict ∧ dict.isSome then z.decompress dict row.data bufLen
  else z.decompress none row.data bufLen

/-- `train_dictionary`; `trained` is what `ZDICT_trainFromBuffer` returns for the sample drawn. -/
def trainDictionary (env : Env) (trained : Option Bytes) : VFS Unit := do
  let f ← VFS.file
  if f.dict.isSome ∨ f.pageCount < DICT_PAGE_THRESHOLD then return () else
  match ← query env .sample (fun d => d.pages.filter fun e => e.2.isCompressed = .raw ∧ 1 < e.1) with
  | none => return ()
  | some rows =>
    let samples := (rows.take DICT_TRAINING_SAMPLES).filter fun e => 0 < e.2.data.length
    if samples.length < 50 then return () else
    match trained with
    | none => return ()
    | some blob =>
      let _ ← stmt env .saveDict (saveDict blob) []
      VFS.setFile fun f => { f with dict := some blob }

/-! ## Outer transactions -/

/-- The `BEGIN IMMEDIATE` of `begin_outer`. -/
def openTransaction (env : Env) : VFS Rc := do
  let ok ← execBegin env
  if ok then
    VFS.setFile fun f => { f with inTransaction := true }
    return .ok
  else return .error

/-- `begin_outer`. -/
def beginOuter (env : Env) : VFS Rc := do
  let w ← Prog.gets id
  if w.file.inTransaction then
    if w.outer.autocommit then
      VFS.setFile fun f => { f with inTransaction := false }
      openTransaction env
    else return .ok
  else openTransaction env

/-- The refresh of `meta.page_count` in `commit_outer`; its failure is ignored. -/
def refreshPageCount (env : Env) : VFS Unit := do
  let f ← VFS.file
  if f.pageCount ≠ f.metaPageCountSaved then
    let _ ← stmt env .savePageCount (setPageCount f.pageCount) []
    VFS.setFile fun f => { f with metaPageCountSaved := f.pageCount }
  else return ()

/-- The `COMMIT` of `commit_outer`, with the `ROLLBACK` after a failure. -/
def closeTransaction (env : Env) : VFS Rc := do
  let ok ← execCommit env
  VFS.setFile fun f => { f with inTransaction := false }
  if ok then return .ok
  else
    execRollback env
    return .error

/-- `commit_outer`. -/
def commitOuter (env : Env) : VFS Rc := do
  let w ← Prog.gets id
  if w.file.inTransaction then
    if w.outer.autocommit then
      VFS.setFile fun f => { f with inTransaction := false }
      return .error
    else
      refreshPageCount env
      closeTransaction env
  else return .ok

/-! ## File methods -/

/-- `(int)(iOfst / page_size) + 1`. -/
def pgnoOf (pageSize iOfst : Int) : Int := toInt32 (toInt32 (iOfst.tdiv pageSize) + 1)

def zeros (n : Nat) : Bytes := List.replicate n 0

/-- What `zvfs_read` copies out of a row of the page it is in. -/
def readRow (z : Zstd) (f : ZFile) (row : PageRow) (sub iAmt : Nat) : Rc × Bytes :=
  if row.isCompressed = .raw then
    if sub + iAmt ≤ row.data.length then (.ok, (row.data.drop sub).take iAmt)
    else
      let avail := row.data.drop sub
      (.ioerrShortRead, avail ++ zeros (iAmt - avail.length))
  else if sub = 0 ∧ (iAmt : Int) = f.pageSize then
    match decompressPage z f.dict row iAmt with
    | some page => (.ok, page)
    | none => (.ioerrRead, [])
  else
    match decompressPage z f.dict row f.pageSize.toNat with
    | some page => (.ok, (page.drop sub).take iAmt)
    | none => (.ioerrRead, [])

/-- `zvfs_read`. -/
def zvfsRead (z : Zstd) (env : Env) (iAmt : Nat) (iOfst : Int) : VFS (Rc × Bytes) := do
  let f ← VFS.file
  if f.pageSize = 0 then return (.ioerrShortRead, zeros iAmt)
  else if f.pageCount < pgnoOf f.pageSize iOfst then return (.ioerrShortRead, zeros iAmt)
  else
    match ← query env .read (fun d => d.pages.get (pgnoOf f.pageSize iOfst)) with
    | none => return (.ioerrRead, zeros iAmt)
    | some none => return (.ioerrShortRead, zeros iAmt)
    | some (some row) => return readRow z f row (iOfst.tmod f.pageSize).toNat iAmt

/-- "Page size detection: first write reveals it". -/
def learnPageSize (env : Env) (iAmt : Int) : VFS Unit := do
  let f ← VFS.file
  if f.pageSize = 0 then
    VFS.setFile fun f => { f with pageSize := iAmt }
    let _ ← stmt env .savePageSize (setPageSize iAmt) []
    return ()
  else return ()

/-- The `INSERT OR REPLACE` of `zvfs_write` and the geometry update after it. -/
def storePage (z : Zstd) (env : Env) (buf : Bytes) (iOfst : Int) : VFS Rc := do
  let f ← VFS.file
  let pgno := pgnoOf f.pageSize iOfst
  let ok ← stmt env .page (fun d => { d with pages := d.pages.put pgno (pageRow z f.dict pgno buf) })
    [.put (iOfst.tdiv f.pageSize + 1) buf]
  if ok then
    VFS.setFile fun f => { f with pageCount := max f.pageCount pgno }
    VFS.setFile fun f => { f with fileSize := f.pageCount * f.pageSize }
    return .ok
  else return .ioerrWrite

/-- `zvfs_write`. -/
def zvfsWrite (z : Zstd) (env : Env) (buf : Bytes) (iOfst : Int) : VFS Rc := do
  let rc ← beginOuter env
  if rc = .ok then
    learnPageSize env buf.length
    storePage z env buf iOfst
  else return .ioerrWrite

/-- The `DELETE … WHERE pgno > ?` of `zvfs_truncate` and the geometry update after it. -/
def cutPages (env : Env) (nByte : Int) : VFS Rc := do
  let f ← VFS.file
  let newCount := toInt32 (nByte.tdiv f.pageSize)
  let ok ← stmt env .page (fun d => { d with pages := d.pages.restrict fun k => decide (k ≤ newCount) })
    [.deleteAbove (nByte.tdiv f.pageSize)]
  if ok then
    VFS.setFile fun f => { f with pageCount := newCount, fileSize := nByte }
    return .ok
  else return .ioerrTruncate

/-- `zvfs_truncate`. -/
def zvfsTruncate (env : Env) (nByte : Int) : VFS Rc := do
  let f ← VFS.file
  if f.pageSize = 0 then return .ok
  else
    let rc ← beginOuter env
    if rc = .ok then cutPages env nByte
    else return .ioerrTruncate

/-- `zvfs_sync`: commit, then reopen the envelope while the lock is still held. -/
def zvfsSync (env : Env) : VFS Rc := do
  let rc ← commitOuter env
  if rc = .ok then
    let f ← VFS.file
    if 2 ≤ f.lockLevel then
      let _ ← beginOuter env
      return .ok
    else return .ok
  else return .ioerrFsync

/-- `zvfs_lock`. -/
def zvfsLock (env : Env) (level : Nat) : VFS Rc :=
  if 2 ≤ level then do
    let rc ← beginOuter env
    if rc = .ok then
      VFS.setFile fun f => { f with lockLevel := level }
      return .ok
    else return .busy
  else do
    VFS.setFile fun f => { f with lockLevel := level }
    return .ok

/-- `zvfs_unlock`: the result of `commit_outer` is not used. -/
def zvfsUnlock (env : Env) (level : Nat) : VFS Rc := do
  let f ← VFS.file
  if level < 2 ∧ 2 ≤ f.lockLevel then
    let _ ← commitOuter env
    VFS.setFile fun f => { f with lockLevel := level }
    return .ok
  else
    VFS.setFile fun f => { f with lockLevel := level }
    return .ok

/-- `zvfs_file_size`. -/
def zvfsFileSize (f : ZFile) : Int := f.fileSize

/-- `zvfs_close`. -/
def zvfsClose (env : Env) (trained : Option Bytes) : VFS Rc := do
  let _ ← commitOuter env
  trainDictionary env trained
  outerDbClose env
  return .ok

/-- `zvfs_open` of the main database. -/
def zvfsOpen (env : Env) : VFS Rc := do
  VFS.setFile fun _ => ZFile.zero
  let rc ← outerDbInit env
  if rc = .ok then return .ok
  else
    outerDbClose env
    return rc

/-! ## Calls on a file -/

/-- A VFS call. -/
inductive Op where
  | open
  | close (trained : Option Bytes)
  | read (iAmt : Nat) (iOfst : Int)
  | write (buf : Bytes) (iOfst : Int)
  | truncate (nByte : Int)
  | sync
  | lock (level : Nat)
  | unlock (level : Nat)
  deriving DecidableEq

/-- A VFS call with the environment it runs in. -/
structure Event where
  op : Op
  env : Env

/-- A file (`none` while closed) over its outer database. -/
structure Sys where
  file : Option ZFile
  outer : Outer
  log : List OuterEv

/-- A file that does not exist yet. -/
def Sys.fresh : Sys := ⟨none, ⟨DB.empty, none⟩, []⟩

def Sys.world (s : Sys) (f : ZFile) : World := ⟨f, s.outer, s.log⟩

/-- The code of one call on an open file; the buffer is filled by `read` only. -/
def code (z : Zstd) (env : Env) : Op → VFS (Rc × Bytes)
  | .open => return (.error, [])
  | .close trained => do return (← zvfsClose env trained, [])
  | .read iAmt iOfst => zvfsRead z env iAmt iOfst
  | .write buf iOfst => do return (← zvfsWrite z env buf iOfst, [])
  | .truncate nByte => do return (← zvfsTruncate env nByte, [])
  | .sync => do return (← zvfsSync env, [])
  | .lock level => do return (← zvfsLock env level, [])
  | .unlock level => do return (← zvfsUnlock env level, [])

/-- The system after a program on the file has ended; a crash closes the file and loses the open
transaction. -/
def settle {α : Type} (keep : α → Bool) : Ending World α → Sys
  | .done a w => ⟨if keep a then some w.file else none, w.outer, w.log⟩
  | .crashed w => ⟨none, w.abort.outer, w.abort.log⟩

/-- One VFS call: the system after it and, unless cut, its reply.  Only `open` can be called on a
closed file, and only on one. -/
def call (z : Zstd) (s : Sys) (e : Event) : Sys × Option (Rc × Bytes) :=
  match s.file, e.op with
  | none, .open =>
    let r := zvfsOpen e.env (s.world ZFile.zero)
    (settle (fun rc => rc == .ok) r, r.value.map (·, []))
  | none, _ => (s, none)
  | some _, .open => (s, none)
  | some f, .close trained =>
    let r := code z e.env (.close trained) (s.world f)
    (settle (fun _ => false) r, r.value)
  | some f, op =>
    let r := code z e.env op (s.world f)
    (settle (fun _ => true) r, r.value)

def step (z : Zstd) (s : Sys) (e : Event) : Sys := (call z s e).1

def reply (z : Zstd) (s : Sys) (e : Event) : Option (Rc × Bytes) := (call z s e).2

/-- A run of VFS calls. -/
def run (z : Zstd) (s : Sys) (es : List Event) : Sys := es.foldl (step z) s

end PoxChat.Vfs
