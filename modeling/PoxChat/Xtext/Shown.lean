import PoxChat.Xtext.Buffer

/-!
# The list and the tree of a text view

What the two structures of a buffer say of each other, whatever order the list is in.

* `Sorted` — a list in the order of `entry_stamp_cmp`.
* `Stored` — the ids and the counts of a buffer fit its tree.
* `Shown buf l c` — the list is `l`, and the tree holds `l` and the entries `c` that are not linked yet.
* `Chromed` — what day separators and gap markers change.

Principal results: `Shown.materialize`, `Shown.link`, `Shown.kill` — an entry gets into the tree, into the list, and out
of both; `addChrome_chromed`, `linkEntry_chromed` — chrome goes where the order wants it.
-/

set_option autoImplicit false

namespace PoxChat.Xtext.View

open Lib Outbound

/-! ## The order -/

/-- Chrome sorts first on a tie of the stamps. -/
def Entry.rank (e : Entry) : Nat := if e.isChrome then 0 else 1

section Order

variable {a b c : Entry}

theorem entryStampCmp_neg : entryStampCmp a b < 0 ↔ a.stamp < b.stamp ∨
    a.stamp = b.stamp ∧ (a.rank < b.rank ∨ a.rank = b.rank ∧ a.entryId < b.entryId) := by
  unfold entryStampCmp Entry.rank
  grind

theorem entryStampCmp_pos : 0 < entryStampCmp a b ↔ entryStampCmp b a < 0 := by
  rw [entryStampCmp_neg]
  unfold entryStampCmp Entry.rank
  grind

theorem entryStampCmp_eq_zero : entryStampCmp a b = 0 ↔
    a.stamp = b.stamp ∧ a.rank = b.rank ∧ a.entryId = b.entryId := by
  unfold entryStampCmp Entry.rank
  grind

theorem before_trans (hab : entryStampCmp a b < 0) (hbc : entryStampCmp b c < 0) : entryStampCmp a c < 0 := by
  rw [entryStampCmp_neg] at *
  omega

theorem before_asymm (hab : entryStampCmp a b < 0) : ¬ entryStampCmp b a < 0 := by
  rw [entryStampCmp_neg] at *
  omega

/-- Different ids are never a tie. -/
theorem before_of_not_before (hne : a.entryId ≠ b.entryId) (h : ¬ entryStampCmp b a < 0) : entryStampCmp a b < 0 := by
  rw [entryStampCmp_neg] at *
  omega

end Order

def Sorted (l : List Entry) : Prop := l.Pairwise fun a b => entryStampCmp a b < 0

section Sorted

variable {l pre post chain : List Entry} {e : Entry}

theorem Sorted.last (h : Sorted l) {x y : Entry} (hlast : l.getLast? = some x) (hy : y ∈ l) :
    y = x ∨ entryStampCmp y x < 0 := by
  obtain ⟨l, rfl⟩ := List.getLast?_eq_some_iff.mp hlast
  obtain hy | hy := List.mem_append.mp hy
  · exact .inr ((List.pairwise_append.mp h).2.2 y hy x List.mem_cons_self)
  · exact .inl (List.mem_singleton.mp hy)

theorem Sorted.first (h : Sorted l) {x y : Entry} (hfirst : l.head? = some x) (hy : y ∈ l) :
    y = x ∨ entryStampCmp x y < 0 := by
  obtain ⟨l, rfl⟩ := List.head?_eq_some_iff.mp hfirst
  obtain rfl | hy := List.mem_cons.mp hy
  · exact .inl rfl
  · exact .inr ((List.pairwise_cons.mp h).1 y hy)

theorem Sorted.splice (h : Sorted (pre ++ post)) (hchain : Sorted chain)
    (hpre : ∀ x ∈ pre, ∀ y ∈ chain, entryStampCmp x y < 0) (hpost : ∀ y ∈ chain, ∀ z ∈ post, entryStampCmp y z < 0) :
    Sorted (pre ++ (chain ++ post)) := by
  obtain ⟨hsortedPre, hsortedPost, hcross⟩ := List.pairwise_append.mp h
  refine List.pairwise_append.mpr ⟨hsortedPre, List.pairwise_append.mpr ⟨hchain, hsortedPost, hpost⟩, fun x hx y hy => ?_⟩
  obtain hy | hy := List.mem_append.mp hy
  · exact hpre x hx y hy
  · exact hcross x hx y hy

/-- Only the neighbours of a new entry have to be compared with it. -/
theorem Sorted.insert (h : Sorted (pre ++ post)) (hpre : ∀ x, pre.getLast? = some x → entryStampCmp x e < 0)
    (hpost : ∀ y, post.head? = some y → entryStampCmp e y < 0) : Sorted (pre ++ e :: post) := by
  obtain ⟨hsortedPre, hsortedPost, -⟩ := List.pairwise_append.mp h
  have hsingle : Sorted [e] := List.pairwise_singleton _ _
  refine Sorted.splice h hsingle (fun x hx y hy => ?_) fun y hy z hz => ?_
  · obtain rfl := List.mem_singleton.mp hy
    obtain ⟨last, hlast⟩ : ∃ last, pre.getLast? = some last :=
      ⟨_, List.getLast?_eq_some_getLast (List.ne_nil_of_mem hx)⟩
    obtain rfl | hbefore := Sorted.last hsortedPre hlast hx
    · exact hpre x hlast
    · exact before_trans hbefore (hpre last hlast)
  · obtain rfl := List.mem_singleton.mp hy
    obtain ⟨first, hfirst⟩ : ∃ first, post.head? = some first :=
      ⟨_, List.head?_eq_some_head (List.ne_nil_of_mem hz)⟩
    obtain rfl | hbefore := Sorted.first hsortedPost hfirst hz
    · exact hpost z hfirst
    · exact before_trans (hpost first hfirst) hbefore

end Sorted

/-! ## The tree -/

section Tree

variable {tree : List Entry} {e : Entry}

theorem add234_perm (h : ∀ x ∈ tree, entryStampCmp e x ≠ 0) : (add234 tree e).Perm (e :: tree) := by
  induction tree with
  | nil => exact List.Perm.refl _
  | cons x tree ih =>
    obtain ⟨hx, htree⟩ := List.forall_mem_cons.mp h
    rw [add234]
    split
    · exact List.Perm.refl _
    · exact ((ih htree).cons x).trans (List.Perm.swap e x tree)

theorem del234_perm {rest : List Entry} (h : tree.Perm (e :: rest)) (hne : ∀ x ∈ rest, x.entryId ≠ e.entryId) :
    (del234 tree e).Perm rest := by
  have hself : entryStampCmp e e = 0 := entryStampCmp_eq_zero.mpr ⟨rfl, rfl, rfl⟩
  have hfilter := h.filter fun x => decide (entryStampCmp x e ≠ 0)
  rw [List.filter_cons_of_neg (by simp [hself])] at hfilter
  have hrest : rest.filter (fun x => decide (entryStampCmp x e ≠ 0)) = rest :=
    List.filter_eq_self.mpr fun x hx => decide_eq_true fun hzero => hne x hx (entryStampCmp_eq_zero.mp hzero).2.2
  rwa [hrest] at hfilter

end Tree

/-! ## Ids and counts -/

/-- Rows take their ids below the local ones, and chrome never has a row. -/
def Entry.Formed (e : Entry) (nextEntryId : Nat) : Prop :=
  if e.hasDbRow then e.entryId < localEntryIdBase ∧ e.isChrome = false
  else localEntryIdBase ≤ e.entryId ∧ e.entryId < nextEntryId

structure Stored (buf : Buffer) : Prop where
  ids : buf.entryTree.Pairwise fun a b => a.entryId ≠ b.entryId
  known : ∀ i, i ∈ buf.entriesById ↔ ∃ e ∈ buf.entryTree, e.entryId = i
  formed : ∀ e ∈ buf.entryTree, e.Formed buf.nextEntryId
  ephemeral : buf.ephemeralCount = buf.entryTree.countP (·.isEphemeral)

/-- The place of the window in the store stays. -/
structure Kept (buf buf' : Buffer) : Prop where
  first : buf'.matFirstIndex = buf.matFirstIndex
  total : buf'.totalEntries = buf.totalEntries

theorem Kept.refl (buf : Buffer) : Kept buf buf := ⟨rfl, rfl⟩

theorem Kept.trans {a b c : Buffer} (hab : Kept a b) (hbc : Kept b c) : Kept a c :=
  ⟨hbc.first.trans hab.first, hbc.total.trans hab.total⟩

/-- An id that a new entry can take. -/
def Fresh (buf : Buffer) (rowid : Nat) : Prop := 0 < rowid → rowid < localEntryIdBase ∧ rowid ∉ buf.entriesById

instance (buf : Buffer) (rowid : Nat) : Decidable (Fresh buf rowid) := inferInstanceAs (Decidable (_ → _))

/-- What `gtk_xtext_init_entry` leaves. -/
structure Inited (buf : Buffer) (rowid : Nat) (stamp : Int) (kind : Kind) (buf' : Buffer) (ent : Entry) : Prop where
  stamp : ent.stamp = stamp
  kind : ent.kind = kind
  row : ent.hasDbRow = decide (0 < rowid)
  links : buf'.links = buf.links.alloc ent
  tree : buf'.entryTree = buf.entryTree
  hint : buf'.insertHint = buf.insertHint
  kept : Kept buf buf'
  fresh : ent.entryId ∉ buf.entriesById
  stored : Stored { buf' with entryTree := add234 buf.entryTree ent }
  perm : (add234 buf.entryTree ent).Perm (ent :: buf.entryTree)

section Init

variable {buf : Buffer}

theorem Inited.fuel {rowid : Nat} {stamp : Int} {kind : Kind} {buf' : Buffer} {ent : Entry}
    (h : Inited buf rowid stamp kind buf' ent) : buf'.fuel = buf.fuel := congrArg List.length h.tree

theorem Stored.lt_of_known (h : Stored buf) {i : Nat} (hi : i ∈ buf.entriesById) :
    i < max buf.nextEntryId localEntryIdBase := by
  obtain ⟨e, he, rfl⟩ := (h.known i).mp hi
  have hformed := h.formed e he
  unfold Entry.Formed at hformed
  split at hformed <;> omega

theorem Stored.grow {buf' : Buffer} {ent : Entry} (h : Stored buf) (hfresh : ent.entryId ∉ buf.entriesById)
    (hperm : buf'.entryTree.Perm (ent :: buf.entryTree)) (hknown : buf'.entriesById = ent.entryId :: buf.entriesById)
    (hnext : ∀ e : Entry, e.Formed buf.nextEntryId → e.Formed buf'.nextEntryId) (hformed : ent.Formed buf'.nextEntryId)
    (hcount : buf'.ephemeralCount = buf.ephemeralCount + if ent.isEphemeral then 1 else 0) : Stored buf' where
  ids := by
    refine (hperm.pairwise_iff fun hne => hne.symm).mpr (List.pairwise_cons.mpr ⟨fun x hx heq => hfresh ?_, h.ids⟩)
    exact (h.known _).mpr ⟨x, hx, heq.symm⟩
  known i := by
    simp only [hknown, hperm.mem_iff, List.mem_cons, h.known, exists_eq_or_imp, @eq_comm _ i]
  formed e he := by
    obtain rfl | he := List.mem_cons.mp (hperm.mem_iff.mp he)
    · exact hformed
    · exact hnext e (h.formed e he)
  ephemeral := by
    rw [hcount, h.ephemeral, hperm.countP_eq, List.countP_cons]
    split <;> simp

theorem Stored.init (h : Stored buf) (rowid : Nat) (stamp : Int) (kind : Kind) (hrow : Fresh buf rowid) (hkind : 0 < rowid → kind = .message) :
    Inited buf rowid stamp kind (initEntry buf rowid stamp kind).1 (initEntry buf rowid stamp kind).2 := by
  have hperm : ∀ ent : Entry, ent.entryId ∉ buf.entriesById → (add234 buf.entryTree ent).Perm (ent :: buf.entryTree) := by
    refine fun ent hent => add234_perm fun x hx hzero => hent ?_
    exact (h.known _).mpr ⟨x, hx, (entryStampCmp_eq_zero.mp hzero).2.2.symm⟩
  unfold initEntry
  split
  · rename_i hpos
    obtain ⟨hlt, hfresh⟩ := hrow hpos
    have hchrome : (⟨rowid, stamp, true, kind⟩ : Entry).isChrome = false := by
      rw [hkind hpos]
      rfl
    exact ⟨rfl, rfl, by simp [hpos], rfl, rfl, rfl, ⟨rfl, rfl⟩, hfresh,
      h.grow hfresh (hperm _ hfresh) rfl (fun _ he => he) ⟨hlt, hchrome⟩ (by simp [Entry.isEphemeral]), hperm _ hfresh⟩
  · rename_i hzero
    have hfresh : max buf.nextEntryId localEntryIdBase ∉ buf.entriesById := fun hmem => by
      have := h.lt_of_known hmem
      omega
    have hnext : ∀ e : Entry, e.Formed buf.nextEntryId → e.Formed (max buf.nextEntryId localEntryIdBase + 1) := by
      intro e he
      unfold Entry.Formed at *
      split at he
      · simp_all
      · simp_all
        omega
    exact ⟨rfl, rfl, by simp [hzero], rfl, rfl, rfl, ⟨rfl, rfl⟩, hfresh,
      h.grow hfresh (hperm _ hfresh) rfl hnext
        ⟨Nat.le_max_right _ _, Nat.lt_succ_self _⟩ (by simp [Entry.isEphemeral]), hperm _ hfresh⟩

end Init

/-! ## The list and the tree -/

/-- The list is `l`; the tree holds `l`, and `c`, which is not linked yet. -/
structure Shown (buf : Buffer) (l c : List Entry) : Prop extends Stored buf where
  holds : buf.links.Holds l
  perm : buf.entryTree.Perm (l ++ c)
  hint : ∀ e, buf.insertHint = some e → e ∈ l

section Shown

variable {buf buf' : Buffer} {l c pre post : List Entry} {ent : Entry} {rowid : Nat} {stamp : Int} {kind : Kind}

theorem Shown.fuel (h : Shown buf l c) : l.length ≤ buf.fuel := by
  rw [Buffer.fuel, h.perm.length_eq, List.length_append]
  exact Nat.le_add_right _ _

theorem Shown.pairwise (h : Shown buf l c) : (l ++ c).Pairwise fun a b => a.entryId ≠ b.entryId :=
  (h.perm.pairwise_iff fun hne => hne.symm).mp h.ids

theorem Shown.mem_known (h : Shown buf l c) {e : Entry} (he : e ∈ l ++ c) : e.entryId ∈ buf.entriesById :=
  (h.known _).mpr ⟨e, h.perm.mem_iff.mpr he, rfl⟩

theorem Shown.formed_of_mem (h : Shown buf l c) {e : Entry} (he : e ∈ l ++ c) : e.Formed buf.nextEntryId :=
  h.formed e (h.perm.mem_iff.mpr he)

theorem Shown.congr {l' c' : List Entry} (h : Shown buf l c) (htree : buf'.entryTree = buf.entryTree)
    (hknown : buf'.entriesById = buf.entriesById) (hnext : buf'.nextEntryId = buf.nextEntryId)
    (hcount : buf'.ephemeralCount = buf.ephemeralCount) (hholds : buf'.links.Holds l')
    (hperm : (l ++ c).Perm (l' ++ c')) (hhint : ∀ e, buf'.insertHint = some e → e ∈ l') : Shown buf' l' c' where
  ids := htree ▸ h.ids
  known := by rw [htree, hknown]; exact h.known
  formed := by rw [htree, hnext]; exact h.formed
  ephemeral := by rw [htree, hcount]; exact h.ephemeral
  holds := hholds
  perm := htree ▸ h.perm.trans hperm
  hint := hhint

/-- Where the window is, and what is selected, does not matter. -/
theorem Shown.same (h : Shown buf l c) (hlinks : buf'.links = buf.links) (htree : buf'.entryTree = buf.entryTree)
    (hknown : buf'.entriesById = buf.entriesById) (hnext : buf'.nextEntryId = buf.nextEntryId)
    (hcount : buf'.ephemeralCount = buf.ephemeralCount) (hhint : buf'.insertHint = buf.insertHint) : Shown buf' l c :=
  h.congr htree hknown hnext hcount (hlinks ▸ h.holds) (.refl _) (hhint ▸ h.hint)

theorem Shown.setBatchMode (h : Shown buf l c) (on : Bool) :
    Shown { buf with batchMode := on, insertHint := if on then buf.insertHint else none } l c := by
  refine h.congr rfl rfl rfl rfl h.holds (.refl _) fun e he => ?_
  cases on with
  | true => exact h.hint e he
  | false => cases he

/-- A new entry gets into the tree. -/
theorem Shown.materialize (h : Shown buf l c) (hinit : Inited buf rowid stamp kind buf' ent) :
    Shown { buf' with entryTree := add234 buf'.entryTree ent } l (c ++ [ent]) where
  toStored := by
    rw [hinit.tree]
    exact hinit.stored
  holds := by
    refine hinit.links ▸ h.holds.alloc fun hmem => hinit.fresh ?_
    exact h.mem_known (List.mem_append_left _ hmem)
  perm := by
    rw [← List.append_assoc]
    exact hinit.tree ▸ hinit.perm.trans ((h.perm.cons ent).trans (List.perm_append_singleton ent (l ++ c)).symm)
  hint e he := h.hint e (hinit.hint ▸ he)

/-- An entry of the tree gets into the list. -/
theorem Shown.link (h : Shown buf (pre ++ post) [ent]) :
    Shown { buf with links := buf.links.insert ent pre.getLast? post.head? } (pre ++ ent :: post) [] := by
  refine h.congr rfl rfl rfl rfl ?_ ?_ fun e he => ?_
  · refine h.holds.insert fun hmem => ?_
    exact (List.pairwise_append.mp h.pairwise).2.2 ent hmem ent List.mem_cons_self rfl
  · rw [List.append_nil]
    exact (List.perm_append_singleton ent _).trans List.perm_middle.symm
  · have hmem := h.hint e he
    simp only [List.mem_append, List.mem_cons] at hmem ⊢
    tauto

theorem Shown.linkCore (h : Shown buf (pre ++ post) []) (hinit : Inited buf rowid stamp kind buf' ent) :
    Shown (linkCore buf' ent (.before pre.getLast? post.head?)) (pre ++ ent :: post) [] :=
  (h.materialize hinit).link

theorem Stored.shrink {rest : List Entry} (h : Stored buf) (hperm : buf.entryTree.Perm (ent :: rest)) :
    Stored (killEnt buf ent) ∧ (killEnt buf ent).entryTree.Perm rest := by
  have hids := (hperm.pairwise_iff fun hne => hne.symm).mp h.ids
  obtain ⟨hne, hrest⟩ := List.pairwise_cons.mp hids
  have hperm' : (killEnt buf ent).entryTree.Perm rest := del234_perm hperm fun x hx => (hne x hx).symm
  refine ⟨⟨?_, fun i => ?_, fun e he => ?_, ?_⟩, hperm'⟩
  · exact (hperm'.pairwise_iff fun hne => hne.symm).mpr hrest
  · simp only [killEnt, List.mem_filter, h.known, hperm.mem_iff]
    simp only [show del234 buf.entryTree ent = (killEnt buf ent).entryTree from rfl, hperm'.mem_iff, List.mem_cons,
      exists_eq_or_imp, decide_eq_true_eq]
    constructor
    · rintro ⟨rfl | hex, hi⟩
      · exact absurd rfl hi
      · exact hex
    · rintro ⟨e, he, rfl⟩
      exact ⟨.inr ⟨e, he, rfl⟩, (hne e he).symm⟩
  · exact h.formed e (hperm.mem_iff.mpr (List.mem_cons_of_mem _ (hperm'.mem_iff.mp he)))
  · rw [hperm'.countP_eq]
    show (if ent.isEphemeral then buf.ephemeralCount - 1 else buf.ephemeralCount) = _
    rw [h.ephemeral, hperm.countP_eq, List.countP_cons]
    split <;> simp

/-- An entry leaves the tree and the list. -/
theorem Shown.kill (h : Shown buf (pre ++ ent :: post) []) {links : Links Entry} (hlinks : links.Holds (pre ++ post)) :
    Shown (killEnt { buf with links := links } ent) (pre ++ post) [] := by
  have hperm : buf.entryTree.Perm (ent :: (pre ++ post)) := by
    have hperm := h.perm
    rw [List.append_nil] at hperm
    exact hperm.trans List.perm_middle
  have hstored : Stored { buf with links := links } := ⟨h.ids, h.known, h.formed, h.ephemeral⟩
  obtain ⟨hshrunk, hperm'⟩ := hstored.shrink hperm
  refine ⟨hshrunk, hlinks, ?_, fun e he => ?_⟩
  · rwa [List.append_nil]
  · have he : (if buf.insertHint = some ent then none else buf.insertHint) = some e := he
    split at he
    · cases he
    · have hmem := h.hint e he
      have hne : e ≠ ent := fun heq => ‹¬ _› (heq ▸ he)
      simp only [List.mem_append, List.mem_cons] at hmem ⊢
      tauto

end Shown

/-! ## Chrome -/

def rowsOf (l : List Entry) : List Entry := l.filter (·.hasDbRow)

@[simp] theorem rowsOf_nil : rowsOf [] = [] := rfl

@[simp] theorem rowsOf_append (l₁ l₂ : List Entry) : rowsOf (l₁ ++ l₂) = rowsOf l₁ ++ rowsOf l₂ := List.filter_append ..

theorem mem_rowsOf {l : List Entry} {e : Entry} : e ∈ rowsOf l ↔ e ∈ l ∧ e.hasDbRow = true := List.mem_filter

theorem rowsOf_cons_of_row {e : Entry} (h : e.hasDbRow = true) (l : List Entry) : rowsOf (e :: l) = e :: rowsOf l :=
  List.filter_cons_of_pos h

theorem rowsOf_cons_of_rowless {e : Entry} (h : e.hasDbRow = false) (l : List Entry) : rowsOf (e :: l) = rowsOf l :=
  List.filter_cons_of_neg (by simp [h])

theorem rowsOf_eq_nil {l : List Entry} (h : ∀ x ∈ l, x.hasDbRow = false) : rowsOf l = [] :=
  List.filter_eq_nil_iff.mpr fun x hx => by simp [h x hx]

/-- What chrome may change: the list grows, and neither its rows nor its head nor its order are touched. -/
structure Chromed (time : LocalTime) (buf : Buffer) (l : List Entry) (buf' : Buffer) (l' : List Entry) : Prop where
  shown : Shown buf' l' []
  kept : Kept buf buf'
  sub : l.Sublist l'
  rows : rowsOf l' = rowsOf l
  head : l'.head? = l.head?
  sorted : time.Forward → Sorted l → Sorted l'

section Chrome

variable {time : LocalTime} {buf buf' buf'' : Buffer} {l l' l'' pre post : List Entry}
  {ent sep : Entry} {stamp : Int} {kind : Kind}

theorem Chromed.refl (h : Shown buf l []) : Chromed time buf l buf l :=
  ⟨h, .refl buf, .refl l, rfl, rfl, fun _ hs => hs⟩

theorem Chromed.of_eq (heq : buf'' = buf') (h : Chromed time buf l buf' l') : Chromed time buf l buf'' l' := heq ▸ h

theorem Chromed.trans (h : Chromed time buf l buf' l') (h' : Chromed time buf' l' buf'' l'') :
    Chromed time buf l buf'' l'' :=
  ⟨h'.shown, h.kept.trans h'.kept, h.sub.trans h'.sub, h'.rows.trans h.rows, h'.head.trans h.head,
    fun ht hs => h'.sorted ht (h.sorted ht hs)⟩

/-- Chrome between two places that it sorts between. -/
theorem Shown.insertChrome (h : Shown buf (pre ++ post) []) (hinit : Inited buf 0 stamp kind buf' sep) (hpre : pre ≠ [])
    (hbefore : time.Forward → Sorted (pre ++ post) → ∀ x, pre.getLast? = some x → entryStampCmp x sep < 0)
    (hafter : time.Forward → Sorted (pre ++ post) → ∀ y, post.head? = some y → entryStampCmp sep y < 0) :
    Chromed time buf (pre ++ post) (View.linkCore buf' sep (.before pre.getLast? post.head?)) (pre ++ sep :: post) where
  shown := h.linkCore hinit
  kept := ⟨hinit.kept.first, hinit.kept.total⟩
  sub := (List.Sublist.refl pre).append (List.sublist_cons_self sep post)
  rows := by rw [rowsOf_append, rowsOf_append, rowsOf_cons_of_rowless (by simpa using hinit.row)]
  head := by
    cases pre with
    | nil => exact absurd rfl hpre
    | cons x pre => rfl
  sorted ht hs := hs.insert (hbefore ht hs) (hafter ht hs)

/-- The node before an entry, as the end of a part of the list. -/
theorem Shown.splitPrev {prev : Entry} (h : Shown buf l []) (hent : ent ∈ l) (hprev : buf.links.prev ent = some prev) :
    ∃ pre post, l = (pre ++ [prev]) ++ ent :: post := by
  obtain ⟨pre, post, rfl⟩ := List.append_of_mem hent
  rw [h.holds.neighbours.1] at hprev
  obtain ⟨pre, rfl⟩ := List.getLast?_eq_some_iff.mp hprev
  exact ⟨pre, post, rfl⟩

theorem rank_eq_one {e : Entry} (h : e.isChrome = false) : e.rank = 1 := by
  rw [Entry.rank, h]
  rfl

theorem rank_gapMarker {e : Entry} {gapId : Int} (h : e.kind = .gapMarker gapId) : e.rank = 0 := by
  simp [Entry.rank, Entry.isChrome, Entry.isGapMarker, h]

/-- Chrome takes an id of its own. -/
theorem Stored.initChrome (h : Stored buf) (stamp : Int) (kind : Kind) :
    Inited buf 0 stamp kind (initEntry buf 0 stamp kind).1 (initEntry buf 0 stamp kind).2 :=
  h.init 0 stamp kind (fun h0 => absurd h0 (lt_irrefl 0)) fun h0 => absurd h0 (lt_irrefl 0)

theorem maybeInsertDaySep_chromed (settings : Settings) (h : Shown buf l []) (hent : ent ∈ l) :
    ∃ l', Chromed settings.time buf l (maybeInsertDaySep settings buf ent) l' := by
  unfold maybeInsertDaySep
  split
  · exact ⟨l, .refl h⟩
  split
  · exact ⟨l, .refl h⟩
  rename_i prev hprev
  split
  · exact ⟨l, .refl h⟩
  split
  · exact ⟨l, .refl h⟩
  split
  · exact ⟨l, .refl h⟩
  rename_i hdays
  split
  · exact ⟨l, .refl h⟩
  rename_i midnight hmidnight
  split
  · exact ⟨l, .refl h⟩
  rename_i hlate
  obtain ⟨pre, post, rfl⟩ := h.splitPrev hent hprev
  have hinit := h.toStored.initChrome midnight .daySep
  have hsep : (initEntry buf 0 midnight .daySep).2.stamp = midnight := hinit.stamp
  refine ⟨_, Chromed.of_eq ?_ (h.insertChrome hinit (by simp) (fun ht hs x hx => ?_) fun ht hs y hy => ?_)⟩
  · rw [View.insertChrome, List.getLast?_concat, List.head?_cons]
  · rw [List.getLast?_concat] at hx
    obtain rfl := Option.some.inj hx
    have hle : prev.stamp ≤ ent.stamp := by
      have hbefore := (List.pairwise_append.mp hs).2.2 prev (by simp) ent List.mem_cons_self
      rw [entryStampCmp_neg] at hbefore
      omega
    simp only [Bool.or_eq_true, decide_eq_true_eq, Bool.not_eq_true', not_or, Bool.not_eq_false] at hdays
    rw [entryStampCmp_neg, hsep]
    exact .inl (ht _ _ _ hle hdays.2 hmidnight)
  · rw [List.head?_cons] at hy
    obtain rfl := Option.some.inj hy
    rw [entryStampCmp_neg, hsep]
    omega

theorem realPrev_spec {real : Entry} (fuel : Nat) (h : buf.links.Holds (pre ++ post))
    (hreal : realPrev buf fuel pre.getLast? = some real) :
    real.isChrome = false ∧ ∃ front back, pre = front ++ real :: back := by
  induction fuel generalizing pre post with
  | zero => cases hreal
  | succ fuel ih =>
    rcases List.eq_nil_or_concat pre with rfl | ⟨pre, x, rfl⟩
    · cases hreal
    · rw [List.concat_eq_append] at h hreal ⊢
      rw [List.getLast?_concat, realPrev] at hreal
      rw [List.append_assoc] at h
      cases hchrome : x.isChrome with
      | false =>
        rw [hchrome] at hreal
        obtain rfl : x = real := Option.some.inj hreal
        exact ⟨hchrome, pre, [], rfl⟩
      | true =>
        rw [hchrome, if_pos rfl] at hreal
        split at hreal
        · cases hreal
        · rw [h.neighbours.1] at hreal
          obtain ⟨hkind, front, back, rfl⟩ := ih h hreal
          exact ⟨hkind, front, back ++ [x], by simp⟩

/-- The marker goes behind the last entry that does not sort after it, and the nearest real entry is one. -/
theorem maybeInsertGapMarker_chromed (time : LocalTime) (h : Shown buf l []) (hent : ent ∈ l) :
    ∃ l', Chromed time buf l (maybeInsertGapMarker buf ent) l' := by
  unfold maybeInsertGapMarker
  split
  · exact ⟨l, .refl h⟩
  rename_i prev hprev
  split
  · exact ⟨l, .refl h⟩
  rename_i hmessage
  split
  · exact ⟨l, .refl h⟩
  rename_i real hreal
  split
  · exact ⟨l, .refl h⟩
  split
  · exact ⟨l, .refl h⟩
  rename_i gi hgap
  obtain ⟨pre, post, rfl⟩ := h.splitPrev hent hprev
  have hinit := h.toStored.initChrome gi.endTs (.gapMarker gi.gapId)
  have hlast : (pre ++ [prev]).getLast? = some prev := List.getLast?_concat
  generalize pre ++ [prev] = pre at *
  rw [← hlast] at hreal
  obtain ⟨hkind, front, back, rfl⟩ := realPrev_spec buf.fuel h.holds hreal
  have hholds : (initEntry buf 0 gi.endTs (.gapMarker gi.gapId)).1.links.Holds _ := (h.materialize hinit).holds
  have hfuel : (front ++ real :: back).length ≤ (initEntry buf 0 gi.endTs (.gapMarker gi.gapId)).1.fuel := by
    have hlen := h.fuel
    rw [List.length_append] at hlen
    exact hinit.fuel ▸ le_trans (Nat.le_add_right _ _) hlen
  rw [← hlast]
  generalize initEntry buf 0 gi.endTs (.gapMarker gi.gapId) = init at *
  obtain ⟨buf', sep⟩ := init
  dsimp only at *
  obtain ⟨before, passed, hsplit, hwalk, hpass, hstop⟩ := Links.walkPrev_spec
    (p := fun x => x ≠ real && entryStampCmp x sep > 0) hholds hfuel
  have hreal : real ∈ before := by
    have hmem : real ∈ before ++ passed := hsplit ▸ List.mem_append_right _ List.mem_cons_self
    obtain hmem | hmem := List.mem_append.mp hmem
    · exact hmem
    · simpa using hpass real hmem
  rw [hsplit, List.append_assoc] at h hholds
  have hnext := hholds.after
  have hends := gi.forward
  have hfind := List.find?_some hgap
  simp only [Bool.and_eq_true, decide_eq_true_eq] at hfind
  rw [hsplit, List.append_assoc]
  refine ⟨_, Chromed.of_eq ?_ (h.insertChrome hinit (List.ne_nil_of_mem hreal) (fun _ hs x hx => ?_) fun _ hs y hy => ?_)⟩
  · rw [← hsplit, hwalk, hnext]
  · have hsep : sep.stamp = gi.endTs := hinit.stamp
    obtain hstop | hstop := Bool.and_eq_false_iff.mp (hstop x hx)
    · obtain rfl : x = real := by simpa using hstop
      rw [entryStampCmp_neg]
      omega
    · refine before_of_not_before (fun heq => hinit.fresh ?_) ?_
      · rw [← heq]
        exact h.mem_known (by simp [List.mem_of_getLast? hx])
      · rw [← entryStampCmp_pos]
        simpa using hstop
  · have hsep : sep.stamp = gi.endTs := hinit.stamp
    cases passed with
    | nil =>
      obtain rfl : ent = y := Option.some.inj hy
      have hrank : sep.rank = 0 := rank_gapMarker hinit.kind
      simp only [Bool.or_eq_true, decide_eq_true_eq, not_or, Bool.not_eq_true] at hmessage
      have hone := rank_eq_one hmessage.1
      rw [entryStampCmp_neg]
      omega
    | cons z passed =>
      obtain rfl : z = y := Option.some.inj hy
      have hpassed := hpass z List.mem_cons_self
      simp only [Bool.and_eq_true, decide_eq_true_eq] at hpassed
      exact entryStampCmp_pos.mp hpassed.2

theorem addChrome_chromed (settings : Settings) (h : Shown buf l []) (hent : ent ∈ l) :
    ∃ l', Chromed settings.time buf l (addChrome settings buf ent) l' := by
  obtain ⟨l₁, h₁⟩ := maybeInsertDaySep_chromed settings h hent
  obtain ⟨l₂, h₂⟩ := maybeInsertGapMarker_chromed settings.time h₁.shown (h₁.sub.subset hent)
  exact ⟨l₂, h₁.trans h₂⟩

theorem Shown.next_mem (h : Shown buf l []) (hent : ent ∈ l) {next : Entry} (hnext : buf.links.next ent = some next) :
    next ∈ l := by
  obtain ⟨pre, post, rfl⟩ := List.append_of_mem hent
  rw [h.holds.neighbours.2] at hnext
  exact List.mem_append_right _ (List.mem_cons_of_mem _ (List.mem_of_head? hnext))

theorem linkEntry_chromed (settings : Settings) {pos : LinkPosition} (h : Shown (View.linkCore buf ent pos) l []) (hent : ent ∈ l) :
    ∃ l', Chromed settings.time (View.linkCore buf ent pos) l (linkEntry settings buf ent pos) l' := by
  obtain ⟨l₁, h₁⟩ := addChrome_chromed settings h hent
  have hent₁ := h₁.sub.subset hent
  unfold linkEntry
  dsimp only
  split
  · exact ⟨l₁, h₁⟩
  rename_i next hnext
  split
  · exact ⟨l₁, h₁⟩
  obtain ⟨l₂, h₂⟩ := maybeInsertDaySep_chromed settings h₁.shown (h₁.shown.next_mem hent₁ hnext)
  have hent₂ := h₂.sub.subset hent₁
  split
  · exact ⟨l₂, h₁.trans h₂⟩
  rename_i next hnext
  obtain ⟨l₃, h₃⟩ := maybeInsertGapMarker_chromed settings.time h₂.shown (h₂.shown.next_mem hent₂ hnext)
  exact ⟨l₃, (h₁.trans h₂).trans h₃⟩

/-- The loop saves the next entry first, and chrome only goes before the entry it looks at. -/
theorem chromeLoop_chromed (settings : Settings) (fuel left : Nat) (h : Shown buf l []) {pos : Option Entry}
    (hpos : ∀ x, pos = some x → x ∈ l) : ∃ l', Chromed settings.time buf l (chromeLoop settings fuel left buf pos) l' := by
  induction fuel generalizing left buf l pos with
  | zero => exact ⟨l, .refl h⟩
  | succ fuel ih =>
    cases left with
    | zero => exact ⟨l, .refl h⟩
    | succ left =>
      cases pos with
      | none => exact ⟨l, .refl h⟩
      | some e =>
        have he := hpos e rfl
        have hnext : ∀ x, buf.links.next e = some x → x ∈ l := fun x hx => h.next_mem he hx
        rw [chromeLoop]
        split
        · exact ih (left + 1) h hnext
        · obtain ⟨l₁, h₁⟩ := addChrome_chromed settings h he
          obtain ⟨l₂, h₂⟩ := ih left h₁.shown fun x hx => h₁.sub.subset (hnext x hx)
          exact ⟨l₂, h₁.trans h₂⟩

end Chrome

end PoxChat.Xtext.View
