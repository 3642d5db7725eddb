import PoxChat.Vfs.Specs

/-!
# What the zstd VFS is for: a transactional page store

The reference the VFS is compared with.  It has no encodings, no dictionary and no geometry of its
own beyond the page count.

* `PageStore` — pages under their number and a page count; `write`, `truncate` and `readPage`.
* `Hist` — a page map with at most one open transaction; `replay` runs it over the effects that the
  outer calls had, so `(replay log).committed` is the page map the last commit left.
* `Rep z db m` — the rows of `db` encode exactly the pages of `m`, each in one of the three ways a
  row can be stored; the dictionary is the one `db` itself stores.

`Rep.put` and `Rep.restrict` are the two statements of the VFS on the page table; `Rep.decompress`
says that a row read back with the stored dictionary is its page.
-/

set_option autoImplicit false

namespace PoxChat.Vfs

open Lib Lib.Prog

/-- Pages under their number. -/
abbrev PageMap := Table Int Bytes

/-- The highest page number, 0 when there is none. -/
def PageMap.highest (m : PageMap) : Int := m.maxKey.getD 0

/-- The reference page store. -/
structure PageStore where
  pages : PageMap
  count : Int

def PageStore.empty : PageStore := ⟨[], 0⟩

def PageStore.write (r : PageStore) (pgno : Int) (page : Bytes) : PageStore :=
  ⟨r.pages.put pgno page, max r.count pgno⟩

def PageStore.truncate (r : PageStore) (n : Int) : PageStore :=
  ⟨r.pages.restrict fun k => decide (k ≤ n), n⟩

/-- What a read of `len` bytes at `off` inside a page has to return. -/
def readPage (page : Option Bytes) (off len : Nat) : Rc × Bytes :=
  match page with
  | some page => (.ok, (page.drop off).take len)
  | none => (.ioerrShortRead, zeros len)

/-- A page map with at most one open transaction. -/
structure Hist where
  committed : PageMap
  working : Option PageMap

def Hist.apply (h : Hist) (g : PageMap → PageMap) : Hist :=
  match h.working with
  | some m => { h with working := some (g m) }
  | none => { h with committed := g h.committed }

def Hist.step (h : Hist) : OuterEv → Hist
  | .begin => { h with working := some h.committed }
  | .put pgno page => h.apply (·.put pgno page)
  | .deleteAbove n => h.apply (·.restrict fun k => decide (k ≤ n))
  | .commit => ⟨h.working.getD h.committed, none⟩
  | .rollback => { h with working := none }

/-- The page map, committed and working, after the logged effects. -/
def replay (log : List OuterEv) : Hist := log.foldl Hist.step ⟨[], none⟩

theorem replay_snoc (log : List OuterEv) (e : OuterEv) :
    replay (log ++ [e]) = (replay log).step e := by
  simp [replay]

/-! ## Rows and the pages they encode -/

/-- `row` is `page` stored raw, compressed, or compressed with the dictionary `dict`. -/
inductive Encodes (z : Zstd) (dict : Option Bytes) (page : Bytes) : PageRow → Prop where
  | raw : Encodes z dict page ⟨page, .raw⟩
  | zstd {c : Bytes} : z.compress none page = some c → Encodes z dict page ⟨c, .zstd⟩
  | zstdDict {c : Bytes} : dict.isSome = true → z.compress dict page = some c →
      Encodes z dict page ⟨c, .zstdDict⟩

/-- The rows of a table encode exactly the pages of a map. -/
def Rep (z : Zstd) (dict : Option Bytes) (t : Table Int PageRow) (m : PageMap) : Prop :=
  ∀ k, Option.Rel (fun row page => Encodes z dict page row) (t.get k) (m.get k)

theorem pageRow_encodes (z : Zstd) (dict : Option Bytes) (pgno : Int) (page : Bytes) :
    Encodes z dict page (pageRow z dict pgno page) := by
  unfold pageRow compressPage
  split
  · cases hc : z.compress dict page with
    | none => exact .raw
    | some c =>
      simp only
      split
      · exact .raw
      · cases dict with
        | none => exact .zstd hc
        | some d => exact .zstdDict rfl hc
  · exact .raw

/-- A dictionary stored where there was none changes no row: none of them is compressed with one. -/
theorem Encodes.of_none {z : Zstd} {page : Bytes} {row : PageRow} (h : Encodes z none page row)
    (dict : Option Bytes) : Encodes z dict page row := by
  cases h with
  | raw => exact .raw
  | zstd hc => exact .zstd hc
  | zstdDict hd _ => cases hd

theorem Rep.of_none {z : Zstd} {t : Table Int PageRow} {m : PageMap} (h : Rep z none t m)
    (dict : Option Bytes) : Rep z dict t m := by
  intro k
  have := h k
  cases ht : t.get k <;> cases hm : m.get k <;> rw [ht, hm] at this
  · exact .none
  · cases this
  · cases this
  · cases this with
    | some he => exact .some (he.of_none dict)

theorem Rep.nil (z : Zstd) (dict : Option Bytes) : Rep z dict [] [] := fun _ => .none

theorem Rep.put {z : Zstd} {dict : Option Bytes} {t : Table Int PageRow} {m : PageMap}
    (h : Rep z dict t m) (pgno : Int) {row : PageRow} {page : Bytes} (he : Encodes z dict page row) :
    Rep z dict (t.put pgno row) (m.put pgno page) := by
  intro k
  rw [Table.get_put, Table.get_put]
  split
  · exact .some he
  · exact h k

theorem Rep.restrict {z : Zstd} {dict : Option Bytes} {t : Table Int PageRow} {m : PageMap}
    (h : Rep z dict t m) (p : Int → Bool) : Rep z dict (t.restrict p) (m.restrict p) := by
  intro k
  rw [Table.get_restrict, Table.get_restrict]
  split
  · exact h k
  · exact .none

theorem Rep.isSome {z : Zstd} {dict : Option Bytes} {t : Table Int PageRow} {m : PageMap}
    (h : Rep z dict t m) (k : Int) : (t.get k).isSome = (m.get k).isSome := by
  have := h k
  cases ht : t.get k <;> cases hm : m.get k <;> rw [ht, hm] at this
  · rfl
  · cases this
  · cases this
  · rfl

theorem Rep.maxKey {z : Zstd} {dict : Option Bytes} {t : Table Int PageRow} {m : PageMap}
    (h : Rep z dict t m) : t.maxKey = m.maxKey := Table.maxKey_congr h.isSome

theorem Rep.eq_nil {z : Zstd} {dict : Option Bytes} {t : Table Int PageRow} {m : PageMap}
    (h : Rep z dict t m) : t = [] ↔ m = [] := by
  rw [← Table.maxKey_eq_none, ← Table.maxKey_eq_none, h.maxKey]

/-- **A stored row decompresses to its page** under the dictionary it was written with. -/
theorem Encodes.decompress {z : Zstd} (hz : z.Inverts) {dict : Option Bytes} {page : Bytes}
    {row : PageRow} (h : Encodes z dict page row) (hc : row.isCompressed ≠ .raw) {n : Nat}
    (hn : page.length ≤ n) : decompressPage z dict row n = some page := by
  cases h with
  | raw => exact absurd rfl hc
  | zstd hzc => simpa [decompressPage] using hz none page _ n hzc hn
  | zstdDict hd hzc => simpa [decompressPage, hd] using hz dict page _ n hzc hn

/-- `zvfs_read` on the row of a whole page returns the bytes asked for. -/
theorem Encodes.readRow {z : Zstd} (hz : z.Inverts) {f : ZFile} {page : Bytes} {row : PageRow}
    (h : Encodes z f.dict page row) (hps : (page.length : Int) = f.pageSize) {off len : Nat}
    (hin : off + len ≤ page.length) : readRow z f row off len = readPage (some page) off len := by
  unfold Vfs.readRow readPage
  by_cases hraw : row.isCompressed = .raw
  · rw [if_pos hraw]
    cases h with
    | raw => rw [if_pos hin]
    | zstd => cases hraw
    | zstdDict => cases hraw
  · rw [if_neg hraw]
    split
    · rename_i hfull
      rw [h.decompress hz hraw (by omega)]
      have hlen : len = page.length := by omega
      subst hlen
      simp [hfull.1]
    · rw [h.decompress hz hraw (by omega)]

/-! ## Reads of a page store -/

/-- `(int)(iOfst / page_size) + 1` is the page number when an `int` holds it. -/
theorem pgnoOf_eq {ps iOfst : Int} (hps : 0 < ps) (h0 : 0 ≤ iOfst)
    (hk : iOfst / ps + 1 < 2147483648) :
    pgnoOf ps iOfst = iOfst / ps + 1 ∧ iOfst.tdiv ps = iOfst / ps ∧ 0 ≤ iOfst / ps := by
  have hdiv : iOfst.tdiv ps = iOfst / ps := Int.tdiv_eq_ediv_of_nonneg h0
  have hnn : 0 ≤ iOfst / ps := Int.ediv_nonneg h0 (by omega)
  refine ⟨?_, hdiv, hnn⟩
  have hin : toInt32 (iOfst / ps) = iOfst / ps := toInt32_eq (by omega) (by omega)
  unfold pgnoOf
  rw [hdiv, hin, toInt32_eq (by omega) (by omega)]

theorem PageMap.get_of_highest_lt {m : PageMap} {k : Int} (h : m.highest < k) : m.get k = none := by
  cases hg : m.get k with
  | none => rfl
  | some page =>
    unfold PageMap.highest at h
    cases hm : m.maxKey with
    | none => rw [(Table.maxKey_eq_none m).1 hm] at hg; cases hg
    | some n =>
      have hle := ((Table.maxKey_eq_some m n).1 hm).2 k (by rw [hg]; rfl)
      rw [hm] at h
      simp only [Option.getD_some] at h
      omega

/-- **A read inside one page** returns what the page map holds under the page number the VFS
computes for it. -/
theorem zvfsRead_rep {z : Zstd} (hz : z.Inverts) {w : World} {m : PageMap} {ps : Nat} (hps : 0 < ps)
    (hrep : Rep z w.file.dict w.outer.view.pages m) (hcount : w.file.pageCount = m.highest)
    (hsize : w.file.pageSize = ps ∨ w.file.pageSize = 0 ∧ m = [])
    (hwhole : ∀ k page, m.get k = some page → page.length = ps) {iOfst : Int} {iAmt : Nat}
    (h0 : 0 ≤ iOfst) (hin : iOfst % ps + iAmt ≤ ps) :
    zvfsRead z Env.fine iAmt iOfst w =
      .done (readPage (m.get (pgnoOf ps iOfst)) (iOfst % ps).toNat iAmt) w := by
  have hmod : iOfst.tmod ps = iOfst % ps := Int.tmod_eq_emod_of_nonneg h0
  apply eq_done_of_wp
  unfold zvfsRead
  simp only [wp_bind, wp_file, wp_ite, wp_pure]
  refine ⟨fun hz0 => ⟨?_, trivial⟩, fun hne => ?_⟩
  · obtain ⟨-, rfl⟩ := hsize.resolve_left (by omega)
    rfl
  have hs : w.file.pageSize = ps := hsize.resolve_right fun h => hne h.1
  rw [hs]
  refine ⟨fun hlt => ⟨?_, trivial⟩, fun _ => ?_⟩
  · rw [hcount] at hlt
    rw [PageMap.get_of_highest_lt hlt]
    rfl
  rw [wp_query]
  refine ⟨fun _ => ?_, by simp [Env.fine], by simp [Env.fine], by simp [Env.fine]⟩
  have hrel := hrep (pgnoOf ps iOfst)
  cases ht : w.outer.view.pages.get (pgnoOf ps iOfst) with
  | none =>
    cases hm : m.get (pgnoOf ps iOfst) with
    | none => exact ⟨rfl, rfl⟩
    | some page => rw [ht, hm] at hrel; cases hrel
  | some row =>
    cases hm : m.get (pgnoOf ps iOfst) with
    | none => rw [ht, hm] at hrel; cases hrel
    | some page =>
      rw [ht, hm] at hrel
      cases hrel with
      | some henc =>
        have hlen := hwhole _ page hm
        have hnn : 0 ≤ iOfst % ps := Int.emod_nonneg _ (by omega)
        refine ⟨?_, rfl⟩
        rw [hmod]
        exact henc.readRow hz (by rw [hlen, hs]) (by omega)

/-- The reply to a read on an open file is that of `zvfs_read`. -/
theorem reply_read {z : Zstd} {s : Sys} {f : ZFile} (hf : s.file = some f) {iAmt : Nat} {iOfst : Int}
    {r : Rc × Bytes} {w : World} (h : zvfsRead z Env.fine iAmt iOfst (s.world f) = .done r w) :
    reply z s ⟨.read iAmt iOfst, Env.fine⟩ = some r := by
  unfold reply call
  rw [hf]
  show (zvfsRead z Env.fine iAmt iOfst (s.world f)).value = some r
  rw [h]
  rfl

end PoxChat.Vfs
