import PoxChat.Xtext.Ends

/-!
# The rows that a text view loads

One statement for each way to load rows: which rows the list has afterwards, and what its order then rests on.

* `newRows` — the rows of a range that are not in the buffer yet.
* `PrependFits` — rows that can be prepended in one piece.
* `Ordered` — the rows of a channel are in order.

Principal results: `prependRows_effect`, `appendRows_effect`, `virtRecenter_effect`; `loadBefore_effect`,
`loadBehind_effect`, `evictEnds_trimmed` — the three parts of a slide.
-/

set_option autoImplicit false

namespace PoxChat.Xtext.View

open Lib Outbound

/-! ## Rows of a range -/

/-- The entry of a row. -/
def Row.entry (row : Row) : Entry := ⟨row.id, row.timestamp, true, .message⟩

/-- What `gtk_xtext_virt_materialize_msg` takes. -/
def isNew (buf : Buffer) (row : Row) : Bool := row.text ≠ [] ∧ row.id ∉ buf.entriesById

def newRows (buf : Buffer) (msgs : List Row) : List Entry := (msgs.filter (isNew buf)).map Row.entry

section Rows

variable {buf buf' : Buffer} {l c pre post : List Entry} {msgs : List Row} {msg row : Row}

theorem newRows_congr (h : ∀ r ∈ msgs, r.id ∈ buf'.entriesById ↔ r.id ∈ buf.entriesById) :
    newRows buf' msgs = newRows buf msgs := by
  unfold newRows
  congr 1
  exact List.filter_congr fun r hr => by simp only [isNew, h r hr]

theorem mem_newRows {e : Entry} : e ∈ newRows buf msgs ↔ ∃ r ∈ msgs, isNew buf r = true ∧ r.entry = e := by
  simp [newRows, and_assoc]

theorem hasDbRow_of_mem_newRows {e : Entry} (h : e ∈ newRows buf msgs) : e.hasDbRow = true := by
  obtain ⟨r, -, -, rfl⟩ := mem_newRows.mp h
  rfl

/-- Which rows a buffer knows is a matter of the rows in its list. -/
theorem Shown.row_known (h : Shown buf l []) (r : Row) : r.id ∈ buf.entriesById ↔ ∃ e ∈ rowsOf l, e.entryId = r.id := by
  rw [h.known]
  constructor
  · rintro ⟨e, he, heq⟩
    have hmem : e ∈ l := by simpa using h.perm.mem_iff.mp he
    refine ⟨e, mem_rowsOf.mpr ⟨hmem, ?_⟩, heq⟩
    have hformed := h.formed e he
    have hlt := r.id_bounds.2
    unfold Entry.Formed at hformed
    split at hformed
    · assumption
    · omega
  · rintro ⟨e, he, heq⟩
    exact ⟨e, by simpa using h.perm.mem_iff.mpr (List.mem_append_left _ (mem_rowsOf.mp he).1), heq⟩

/-- What a row that is taken leaves. -/
structure Materialized (buf : Buffer) (row : Row) (buf' : Buffer) : Prop where
  links : buf'.links = buf.links.alloc row.entry
  known : buf'.entriesById = row.id :: buf.entriesById
  kept : Kept buf buf'

theorem virtMaterializeMsg_new (h : Shown buf l c) (hnew : isNew buf row = true) :
    ∃ buf', virtMaterializeMsg buf row = (buf', some row.entry) ∧ Materialized buf row buf' ∧
      Shown buf' l (c ++ [row.entry]) := by
  obtain ⟨htext, hid⟩ := of_decide_eq_true hnew
  have hpos : 0 < row.id := row.id_bounds.1
  have hinit := h.toStored.init row.id row.timestamp .message (fun _ => ⟨row.id_bounds.2, hid⟩) fun _ => rfl
  have heq : initEntry buf row.id row.timestamp .message =
      ({ buf with links := buf.links.alloc row.entry, entriesById := row.id :: buf.entriesById }, row.entry) := by
    rw [initEntry, if_pos hpos]
    rfl
  rw [heq] at hinit
  have hmsg : virtMaterializeMsg buf row =
      ({ buf with
          links := buf.links.alloc row.entry
          entriesById := row.id :: buf.entriesById
          entryTree := add234 buf.entryTree row.entry }, some row.entry) := by
    rw [virtMaterializeMsg, if_neg htext, if_neg hid, heq]
  exact ⟨_, hmsg, ⟨rfl, rfl, rfl, rfl⟩, h.materialize hinit⟩

theorem virtMaterializeMsg_old (hold : isNew buf row = false) : virtMaterializeMsg buf row = (buf, none) := by
  have hold := of_decide_eq_false hold
  unfold virtMaterializeMsg
  split
  · rfl
  · rw [if_pos (by tauto)]

theorem newRows_cons_of_new (hnew : isNew buf msg = true) :
    newRows buf (msg :: msgs) = msg.entry :: newRows buf msgs := by
  rw [newRows, List.filter_cons_of_pos hnew]
  rfl

theorem newRows_cons_of_old (hold : isNew buf msg = false) : newRows buf (msg :: msgs) = newRows buf msgs := by
  rw [newRows, List.filter_cons_of_neg (by simp [hold])]
  rfl

/-- A row that is taken is not one of those that follow. -/
theorem Materialized.newRows_eq (h : Materialized buf msg buf') (hids : ((msg :: msgs).map (·.id)).Nodup) :
    newRows buf' msgs = newRows buf msgs := by
  refine newRows_congr fun r hr => ?_
  have hne : r.id ≠ msg.id := fun heq => (List.nodup_cons.mp hids).1 (List.mem_map.mpr ⟨r, hr, heq⟩)
  simp [h.known, hne]

theorem Shown.nodup (h : Shown buf l c) : (l ++ c).Nodup :=
  h.pairwise.imp fun hne heq => hne (congrArg Entry.entryId heq)

/-- The chain hangs together, and apart from the list. -/
theorem buildChain_spec (hids : (msgs.map (·.id)).Nodup) (h : Shown buf l c) (hchain : buf.links.Segment none c none)
    (loaded : Nat) : ∃ buf' loaded',
      buildChain msgs buf c.head? c.getLast? loaded =
        (buf', (c ++ newRows buf msgs).head?, (c ++ newRows buf msgs).getLast?, loaded') ∧
      Shown buf' l (c ++ newRows buf msgs) ∧ buf'.links.Segment none (c ++ newRows buf msgs) none ∧ Kept buf buf' := by
  induction msgs generalizing buf c loaded with
  | nil => exact ⟨buf, loaded, by simp [buildChain, newRows], by simpa [newRows], by simpa [newRows], .refl buf⟩
  | cons msg msgs ih =>
    cases hnew : isNew buf msg with
    | false =>
      rw [buildChain, virtMaterializeMsg_old hnew, newRows_cons_of_old hnew]
      exact ih (List.nodup_cons.mp hids).2 h hchain loaded
    | true =>
      obtain ⟨buf₁, heq, hmat, h₁⟩ := virtMaterializeMsg_new h hnew
      obtain ⟨-, hnodup, hapart⟩ := List.nodup_append.mp h₁.nodup
      have hnotin : msg.entry ∉ c := fun hmem =>
        (List.nodup_append.mp hnodup).2.2 _ hmem _ List.mem_cons_self rfl
      have hseg : (buf₁.links.chain c.getLast? msg.entry).Segment none (c ++ [msg.entry]) none := by
        rw [hmat.links]
        exact (hchain.alloc hnotin).chain (List.nodup_append.mp hnodup).1 hnotin
      have hshown : Shown { buf₁ with links := buf₁.links.chain c.getLast? msg.entry } l (c ++ [msg.entry]) := by
        refine h₁.congr rfl rfl rfl rfl ?_ (.refl _) h₁.hint
        refine h₁.holds.chain (fun hmem => ?_) fun x hx hxl => ?_
        · exact hapart _ hmem _ (List.mem_append_right _ List.mem_cons_self) rfl
        · exact hapart x hxl x (List.mem_append_left _ hx) rfl
      obtain ⟨buf', loaded', hrest, hshown', hseg', hkept⟩ := ih (List.nodup_cons.mp hids).2 hshown hseg (loaded + 1)
      have hrows : newRows { buf₁ with links := buf₁.links.chain c.getLast? msg.entry } msgs = newRows buf msgs :=
        hmat.newRows_eq hids
      rw [hrows, List.append_assoc, List.singleton_append] at hrest hshown' hseg'
      rw [buildChain, heq, newRows_cons_of_new hnew]
      refine ⟨buf', loaded', ?_, hshown', hseg', ⟨hkept.first.trans hmat.kept.first, hkept.total.trans hmat.kept.total⟩⟩
      rw [← hrest, List.head?_append, List.getLast?_concat]
      rfl

/-- Rows can be prepended in one piece: what sorts before the last of them has no row and sorts before the first. -/
def PrependFits (l chain : List Entry) : Prop :=
  ∀ e ∈ l, (∀ r ∈ chain, e.hasDbRow = false ∧ entryStampCmp e r < 0) ∨ ∀ r ∈ chain, entryStampCmp r e < 0

/-- The splice keeps the order if the rows can be prepended in one piece. -/
theorem PrependFits.sorted {chain : List Entry} {cf : Entry} (h : PrependFits (pre ++ post) chain)
    (hsorted : Sorted (pre ++ post)) (hchain : Sorted chain) (hcf : chain.head? = some cf)
    (hpre : ∀ x ∈ pre, entryStampCmp x cf < 0)
    (hpost : ∀ x, post.head? = some x → x.hasDbRow = false → ¬ entryStampCmp x cf < 0) :
    Sorted (pre ++ (chain ++ post)) := by
  have hmem := List.mem_of_head? hcf
  refine hsorted.splice hchain (fun x hx y hy => ?_) fun y hy z hz => ?_
  · obtain rfl | hbefore := hchain.first hcf hy
    · exact hpre x hx
    · exact before_trans (hpre x hx) hbefore
  · obtain ⟨first, hfirst⟩ : ∃ first, post.head? = some first :=
      ⟨_, List.head?_eq_some_head (List.ne_nil_of_mem hz)⟩
    have hyfirst : entryStampCmp y first < 0 := by
      obtain hbefore | hafter := h first (List.mem_append_right _ (List.mem_of_head? hfirst))
      · exact absurd (hbefore cf hmem).2 (hpost first hfirst (hbefore cf hmem).1)
      · exact hafter y hy
    obtain rfl | hbefore := Sorted.first (List.pairwise_append.mp hsorted).2.1 hfirst hz
    · exact hyfirst
    · exact before_trans hyfirst hbefore

theorem spliceChain_effect {chain : List Entry} (h : Shown buf l chain) (hseg : buf.links.Segment none chain none)
    (hrow : ∀ e ∈ chain, e.hasDbRow = true) : ∃ l',
      Shown (spliceChain buf chain.head? chain.getLast?) l' [] ∧
      Kept buf (spliceChain buf chain.head? chain.getLast?) ∧ rowsOf l' = chain ++ rowsOf l ∧ chain ⊆ l' ∧
      (Sorted l → Sorted chain → PrependFits l chain → Sorted l') := by
  rcases List.eq_nil_or_concat chain with rfl | ⟨front, cl, hcl⟩
  · exact ⟨l, h, .refl buf, rfl, List.nil_subset l, fun hs _ _ => hs⟩
  rw [List.concat_eq_append] at hcl
  have hlast : chain.getLast? = some cl := by rw [hcl, List.getLast?_concat]
  obtain ⟨cf, hcf⟩ : ∃ cf, chain.head? = some cf := ⟨_, List.head?_eq_some_head (by simp [hcl])⟩
  obtain ⟨hnodup, hnodupChain, hapart⟩ := List.nodup_append.mp h.nodup
  have hholds : buf.links.Holds ([] ++ l) := h.holds
  obtain ⟨pre, post, rfl, hafter, hpass, hstop⟩ := Links.lastPassed_spec
    (p := fun e => !e.hasDbRow && entryStampCmp e cf < 0) hholds h.fuel
  simp only [Bool.and_eq_true, Bool.not_eq_true', decide_eq_true_eq, Bool.and_eq_false_iff, Bool.not_eq_false',
    decide_eq_false_iff_not] at hpass hstop
  have hafter : spliceAfter buf cf = pre.getLast? := by
    rw [spliceAfter, h.holds.first]
    exact hafter
  have hnorows : rowsOf pre = [] := rowsOf_eq_nil fun x hx => (hpass x hx).1
  have hlinks := h.holds.splice hseg hnodupChain (fun x hx hxl => hapart x hxl x hx rfl) hcf hlast
  rw [hcf, hlast, spliceChain, hafter]
  refine ⟨pre ++ (chain ++ post), ?_, ⟨rfl, rfl⟩, ?_, ?_, fun hs hc hfits => ?_⟩
  · refine h.congr rfl rfl rfl rfl hlinks ?_ fun e he => ?_
    · rw [List.append_nil, List.append_assoc]
      exact List.perm_append_comm.append_left pre
    · have hmem := h.hint e he
      simp only [List.mem_append] at hmem ⊢
      tauto
  · have hrows : rowsOf chain = chain := List.filter_eq_self.mpr hrow
    simp [hnorows, hrows]
  · exact fun x hx => List.mem_append_right _ (List.mem_append_left _ hx)
  · refine hfits.sorted hs hc hcf (fun x hx => (hpass x hx).2) fun x hx hrowless => ?_
    obtain hstop | hstop := hstop x hx
    · exact absurd hrowless (by simp [hstop])
    · exact hstop

theorem prependRows_effect (settings : Settings) (hids : (msgs.map (·.id)).Nodup) (h : Shown buf l []) (wantStart : Int) :
    ∃ l', Shown (prependRows settings buf msgs wantStart) l' [] ∧ rowsOf l' = newRows buf msgs ++ rowsOf l ∧
      (prependRows settings buf msgs wantStart).matFirstIndex = wantStart ∧
      (prependRows settings buf msgs wantStart).totalEntries = buf.totalEntries ∧
      (settings.time.Forward → Sorted l → Sorted (newRows buf msgs) → PrependFits l (newRows buf msgs) → Sorted l') := by
  obtain ⟨buf₁, loaded, heq, h₁, hseg, hkept⟩ := buildChain_spec hids h trivial 0
  rw [List.nil_append] at heq h₁ hseg
  obtain ⟨l₂, h₂, hkept₂, hrows, hsub, hsorted⟩ := spliceChain_effect h₁ hseg fun e he => hasDbRow_of_mem_newRows he
  have heq : buildChain msgs buf none none 0 = _ := heq
  rw [prependRows, heq]
  dsimp only
  generalize spliceChain buf₁ (newRows buf msgs).head? (newRows buf msgs).getLast? = buf₂ at h₂ hkept₂
  have hplaced : Shown { buf₂ with matFirstIndex := wantStart } l₂ [] := h₂.same rfl rfl rfl rfl rfl rfl
  have hpos : ∀ x, (newRows buf msgs).head?.or buf₂.links.first = some x → x ∈ l₂ := by
    intro x hx
    obtain hx | ⟨-, hx⟩ := Option.or_eq_some_iff.mp hx
    · exact hsub (List.mem_of_head? hx)
    · exact List.mem_of_head? (h₂.first ▸ hx)
  obtain ⟨l', hc⟩ := chromeLoop_chromed settings buf₂.fuel (loaded + 1) hplaced hpos
  exact ⟨l', hc.shown, hc.rows.trans hrows, hc.kept.first, hc.kept.total.trans (hkept₂.total.trans hkept.total),
    fun ht hs hchain hfits => hc.sorted ht (hsorted hs hchain hfits)⟩

theorem virtLinkTailSorted_effect {ent : Entry} (h : Shown buf l [ent]) (hrow : ent.hasDbRow = true) : ∃ l',
      Shown (virtLinkTailSorted buf ent) l' [] ∧ ent ∈ l' ∧ rowsOf l' = rowsOf l ++ [ent] ∧
      (Sorted l → (∀ x ∈ rowsOf l, entryStampCmp x ent < 0) → Sorted l') := by
  have hholds : buf.links.Holds (l ++ []) := by
    rw [List.append_nil]
    exact h.holds
  obtain ⟨pre, post, rfl, hwalk, hpass, hstop⟩ := Links.walkPrev_spec
    (p := fun x => !x.hasDbRow && entryStampCmp x ent > 0) hholds h.fuel
  simp only [Bool.and_eq_true, Bool.not_eq_true', decide_eq_true_eq, Bool.and_eq_false_iff, Bool.not_eq_false',
    decide_eq_false_iff_not] at hpass hstop
  have hnorows : rowsOf post = [] := rowsOf_eq_nil fun x hx => (hpass x hx).1
  rw [virtLinkTailSorted, h.holds.last, hwalk, h.holds.after]
  refine ⟨pre ++ ent :: post, h.link, by simp, by simp [rowsOf_cons_of_row hrow, hnorows], fun hs hbefore => ?_⟩
  refine hs.insert (fun x hx => ?_) fun y hy => entryStampCmp_pos.mp (hpass y (List.mem_of_head? hy)).2
  have hmem := List.mem_of_getLast? hx
  obtain hstop | hstop := hstop x hx
  · exact hbefore x (mem_rowsOf.mpr ⟨List.mem_append_left _ hmem, hstop⟩)
  · have hne := (List.pairwise_append.mp h.pairwise).2.2 x (List.mem_append_left _ hmem) ent List.mem_cons_self
    rw [gt_iff_lt, entryStampCmp_pos] at hstop
    exact before_of_not_before hne hstop

theorem appendRows_effect (settings : Settings) (hids : (msgs.map (·.id)).Nodup) (h : Shown buf l []) :
    ∃ l', Shown (appendRows settings msgs buf) l' [] ∧ Kept buf (appendRows settings msgs buf) ∧
      rowsOf l' = rowsOf l ++ newRows buf msgs ∧
      (settings.time.Forward → Sorted l → Sorted (newRows buf msgs) →
        (∀ x ∈ rowsOf l, ∀ y ∈ newRows buf msgs, entryStampCmp x y < 0) → Sorted l') := by
  induction msgs generalizing buf l with
  | nil => exact ⟨l, h, .refl buf, by simp [newRows], fun _ hs _ _ => hs⟩
  | cons msg msgs ih =>
    have hidsRest := (List.nodup_cons.mp hids).2
    cases hnew : isNew buf msg with
    | false =>
      rw [appendRows, virtMaterializeMsg_old hnew, newRows_cons_of_old hnew]
      exact ih hidsRest h
    | true =>
      obtain ⟨buf₁, heq, hmat, h₁⟩ := virtMaterializeMsg_new h hnew
      obtain ⟨l₂, h₂, hmem, hrows₂, hsorted₂⟩ := virtLinkTailSorted_effect h₁ rfl
      obtain ⟨l₃, h₃⟩ := addChrome_chromed settings h₂ hmem
      obtain ⟨l', h', hkept', hrows', hsorted'⟩ := ih hidsRest h₃.shown
      have hrows₃ := h₃.rows.trans hrows₂
      have hsame : newRows (addChrome settings (virtLinkTailSorted buf₁ msg.entry) msg.entry) msgs = newRows buf msgs := by
        refine newRows_congr fun r hr => ?_
        have hne : msg.entry.entryId ≠ r.id := fun heq =>
          (List.nodup_cons.mp hids).1 (List.mem_map.mpr ⟨r, hr, heq.symm⟩)
        rw [h₃.shown.row_known, h.row_known, hrows₃]
        simp [or_and_right, exists_or, hne]
      rw [hsame] at hrows' hsorted'
      rw [appendRows, heq, newRows_cons_of_new hnew]
      refine ⟨l', h', ?_, ?_, fun ht hs hchain hbefore => ?_⟩
      · exact (hmat.kept.trans ⟨h₃.kept.first, h₃.kept.total⟩).trans hkept'
      · rw [hrows', hrows₃, List.append_assoc, List.singleton_append]
      · obtain ⟨hfirst, hrest⟩ := List.pairwise_cons.mp hchain
        refine hsorted' ht (h₃.sorted ht (hsorted₂ hs fun x hx => ?_)) hrest fun x hx y hy => ?_
        · exact hbefore x hx _ List.mem_cons_self
        · rw [hrows₃] at hx
          obtain hx | hx := List.mem_append.mp hx
          · exact hbefore x hx y (List.mem_cons_of_mem _ hy)
          · rw [List.mem_singleton.mp hx]
            exact hfirst y hy

/-! ## A far jump -/

/-- Only entries without a row stay, and of the chrome only the gap markers. -/
theorem evictRows_effect (fuel : Nat) (h : Shown buf (pre ++ post) []) (hfuel : post.length ≤ fuel) :
    Shown (evictRows fuel buf post.head?) (pre ++ post.filter fun e => !e.hasDbRow && !e.isDaySep) [] ∧
      Kept buf (evictRows fuel buf post.head?) := by
  induction fuel generalizing buf pre post with
  | zero =>
    obtain rfl := List.eq_nil_of_length_eq_zero (Nat.le_zero.mp hfuel)
    exact ⟨h, .refl buf⟩
  | succ fuel ih =>
    cases post with
    | nil => exact ⟨h, .refl buf⟩
    | cons e post =>
      rw [List.length_cons] at hfuel
      rw [List.head?_cons, evictRows, h.holds.neighbours.2]
      cases hkeep : !e.hasDbRow && !e.isDaySep with
      | true =>
        rw [if_pos rfl, List.filter_cons, hkeep, if_pos rfl, List.append_cons]
        rw [List.append_cons] at h
        exact ih h (by omega)
      | false =>
        rw [if_neg (by simp), List.filter_cons, hkeep, if_neg (by simp)]
        obtain ⟨hshown, hkept⟩ := ih (h.kill h.holds.unlink) (by omega)
        exact ⟨hshown, hkept.first, hkept.total⟩

/-- The cursor never goes back, so a row that is merged stands behind the rows before it. -/
theorem mergeRows_effect (hids : (msgs.map (·.id)).Nodup) (h : Shown buf (pre ++ post) [])
    (hpost : ∀ x ∈ post, x.hasDbRow = false) :
    ∃ l', Shown (mergeRows msgs buf post.head?) l' [] ∧ Kept buf (mergeRows msgs buf post.head?) ∧
      rowsOf l' = rowsOf pre ++ newRows buf msgs ∧
      (Sorted (pre ++ post) → Sorted (newRows buf msgs) →
        (∀ x ∈ pre, ∀ y ∈ newRows buf msgs, entryStampCmp x y < 0) → Sorted l') := by
  induction msgs generalizing buf pre post with
  | nil =>
    have hnorows : rowsOf post = [] := rowsOf_eq_nil hpost
    exact ⟨pre ++ post, h, .refl buf, by simp [newRows, hnorows], fun hs _ _ => hs⟩
  | cons msg msgs ih =>
    have hidsRest := (List.nodup_cons.mp hids).2
    cases hnew : isNew buf msg with
    | false =>
      rw [mergeRows, virtMaterializeMsg_old hnew, newRows_cons_of_old hnew]
      exact ih hidsRest h hpost
    | true =>
      obtain ⟨buf₁, heq, hmat, h₁⟩ := virtMaterializeMsg_new h hnew
      have hfuel : post.length ≤ buf₁.fuel := by
        have hle := h₁.fuel
        rw [List.length_append] at hle
        omega
      obtain ⟨passed, rest, rfl, hwalk, hpass, hstop⟩ := Links.walkNext_spec
        (p := fun x => entryStampCmp x msg.entry < 0) h₁.holds hfuel
      simp only [decide_eq_true_eq, decide_eq_false_iff_not] at hpass hstop
      rw [← List.append_assoc] at h₁
      have h₂ := h₁.link
      rw [List.append_cons] at h₂
      have hrest : ∀ x ∈ rest, x.hasDbRow = false := fun x hx => hpost x (List.mem_append_right _ hx)
      obtain ⟨l', h', hkept', hrows', hsorted'⟩ := ih hidsRest h₂ hrest
      have hsame : newRows { buf₁ with
          links := buf₁.links.insert msg.entry (pre ++ passed).getLast? rest.head? } msgs = newRows buf msgs :=
        hmat.newRows_eq hids
      rw [hsame] at hrows' hsorted'
      rw [mergeRows, heq]
      dsimp only
      rw [hwalk, h₁.holds.before, newRows_cons_of_new hnew]
      refine ⟨l', h', ⟨hkept'.first.trans hmat.kept.first, hkept'.total.trans hmat.kept.total⟩, ?_,
        fun hs hchain hbefore => ?_⟩
      · have hnorows : rowsOf passed = [] := rowsOf_eq_nil fun x hx => hpost x (List.mem_append_left _ hx)
        rw [hrows']
        simp [hnorows, rowsOf_cons_of_row (e := msg.entry) rfl]
      · obtain ⟨hfirst, hrestChain⟩ := List.pairwise_cons.mp hchain
        have hall : ∀ x ∈ pre ++ passed, entryStampCmp x msg.entry < 0 := by
          intro x hx
          obtain hx | hx := List.mem_append.mp hx
          · exact hbefore x hx _ List.mem_cons_self
          · exact hpass x hx
        refine hsorted' ?_ hrestChain fun x hx y hy => ?_
        · rw [← List.append_cons]
          rw [← List.append_assoc] at hs
          refine hs.insert (fun x hx => hall x (List.mem_of_getLast? hx)) fun y hy => ?_
          have hmem : y ∈ pre ++ passed ++ rest := List.mem_append_right _ (List.mem_of_head? hy)
          have hne := (List.pairwise_append.mp h₁.pairwise).2.2 y hmem msg.entry List.mem_cons_self
          exact before_of_not_before hne.symm (hstop y hy)
        · obtain hx | hx := List.mem_append.mp hx
          · exact before_trans (hall x hx) (hfirst y hy)
          · rw [List.mem_singleton.mp hx]
            exact hfirst y hy

theorem loadRange_sublist (rows : List Row) (offset limit : Int) : (loadRange rows offset limit).Sublist rows :=
  (List.take_sublist _ _).trans (List.drop_sublist _ _)

/-- The entries of the rows that have a text. -/
def loadable (msgs : List Row) : List Entry := (msgs.filter fun r => r.text ≠ []).map Row.entry

theorem newRows_eq_loadable (h : ∀ r ∈ msgs, r.id ∉ buf.entriesById) : newRows buf msgs = loadable msgs := by
  unfold newRows loadable
  congr 1
  exact List.filter_congr fun r hr => by simp [isNew, h r hr]

theorem newRows_sublist (buf : Buffer) (msgs : List Row) : (newRows buf msgs).Sublist (msgs.map Row.entry) :=
  List.filter_sublist.map _

theorem virtRecenter_empty (settings : Settings) {rows : List Row} {wantStart wantEnd : Int}
    (hload : loadRange rows wantStart (wantEnd - wantStart + 1) = []) :
    virtRecenter settings rows buf wantStart wantEnd = ({ buf with selPinStartId := 0, selPinEndId := 0 }, false) := by
  rw [virtRecenter]
  simp only [hload]

theorem virtRecenter_effect (settings : Settings) {rows : List Row} (hids : (rows.map (·.id)).Nodup)
    (h : Shown buf l []) {wantStart wantEnd : Int} (hload : loadRange rows wantStart (wantEnd - wantStart + 1) ≠ []) :
    (virtRecenter settings rows buf wantStart wantEnd).2 = true ∧ ∃ l',
      Shown (virtRecenter settings rows buf wantStart wantEnd).1 l' [] ∧
      rowsOf l' = loadable (loadRange rows wantStart (wantEnd - wantStart + 1)) ∧
      (virtRecenter settings rows buf wantStart wantEnd).1.matFirstIndex = wantStart ∧
      (virtRecenter settings rows buf wantStart wantEnd).1.totalEntries = buf.totalEntries ∧
      (settings.time.Forward → Sorted l → Sorted (rows.map Row.entry) → Sorted l') := by
  have hmsgs := loadRange_sublist rows wantStart (wantEnd - wantStart + 1)
  rw [virtRecenter]
  generalize loadRange rows wantStart (wantEnd - wantStart + 1) = msgs at *
  obtain ⟨msg, msgs, rfl⟩ := List.exists_cons_of_ne_nil hload
  refine ⟨rfl, ?_⟩
  dsimp only
  have hcleared : Shown { buf with selPinStartId := 0, selPinEndId := 0 } ([] ++ l) [] := h.same rfl rfl rfl rfl rfl rfl
  obtain ⟨h₁, hkept₁⟩ := evictRows_effect _ hcleared h.fuel
  rw [List.nil_append, ← h.first] at h₁
  rw [← h.first] at hkept₁
  set buf₁ := evictRows _ { buf with selPinStartId := 0, selPinEndId := 0 } buf.links.first with hbuf₁
  set kept := l.filter fun e => !e.hasDbRow && !e.isDaySep with hkeptDef
  have hrowless : ∀ x ∈ kept, x.hasDbRow = false := fun x hx => by
    have hx := (List.mem_filter.mp hx).2
    simp only [Bool.and_eq_true, Bool.not_eq_true'] at hx
    exact hx.1
  have hnew : newRows buf₁ (msg :: msgs) = loadable (msg :: msgs) := by
    refine newRows_eq_loadable fun r _ hknown => ?_
    obtain ⟨e, he, -⟩ := (h₁.row_known r).mp hknown
    have hmem := mem_rowsOf.mp he
    exact absurd hmem.2 (by simp [hrowless e hmem.1])
  have h₁' : Shown buf₁ ([] ++ kept) [] := h₁
  obtain ⟨l₂, h₂, hkept₂, hrows₂, hsorted₂⟩ := mergeRows_effect ((hmsgs.map _).nodup hids) h₁' hrowless
  rw [← h₁.first] at h₂ hkept₂
  obtain ⟨l₃, h₃⟩ := chromeLoop_chromed settings _ _ h₂ fun x hx => List.mem_of_head? (h₂.first ▸ hx)
  refine ⟨l₃, ?_, ?_, rfl, ?_, fun ht hs hrows => ?_⟩
  · exact h₃.shown.same rfl rfl rfl rfl rfl rfl
  · rw [h₃.rows, hrows₂, hnew]
    rfl
  · exact h₃.kept.total.trans (hkept₂.total.trans hkept₁.total)
  · refine h₃.sorted ht (hsorted₂ (hs.sublist List.filter_sublist) ?_ fun x hx => absurd hx List.not_mem_nil)
    exact (hrows.sublist (hmsgs.map _)).sublist (newRows_sublist _ _)

end Rows

/-! ## The rows of a channel -/

/-- The rows are in the order of their times and ids, and the ids are different. -/
structure Ordered (rows : List Row) : Prop where
  sorted : Sorted (rows.map Row.entry)
  ids : (rows.map (·.id)).Nodup

section Rows

variable {rows : List Row}

theorem entry_before {r s : Row} : entryStampCmp r.entry s.entry < 0 ↔
    r.timestamp < s.timestamp ∨ r.timestamp = s.timestamp ∧ r.id < s.id := by
  rw [entryStampCmp_neg]
  simp [Row.entry, Entry.rank, Entry.isChrome, Entry.isDaySep, Entry.isGapMarker]

theorem isBefore_iff {row r : Row} : isBefore row r = true ↔ entryStampCmp r.entry row.entry < 0 := by
  simp [isBefore, entry_before]

/-- A new row goes to its place. -/
theorem Ordered.save {row : Row} (h : Ordered rows) (hnew : row.id ∉ rows.map (·.id)) : Ordered (saveRow rows row) := by
  have hsplit : rows.takeWhile (isBefore row) ++ rows.dropWhile (isBefore row) = rows :=
    List.takeWhile_append_dropWhile
  obtain ⟨hsorted, hids⟩ := h
  rw [← hsplit, List.map_append] at hsorted hids hnew
  rw [saveRow]
  refine ⟨?_, ?_⟩
  · rw [List.map_append, List.map_cons]
    refine hsorted.insert (fun x hx => ?_) fun y hy => ?_
    · obtain ⟨r, hr, rfl⟩ := List.mem_map.mp (List.mem_of_getLast? hx)
      exact isBefore_iff.mp (List.mem_takeWhile_imp hr)
    · rw [List.head?_map] at hy
      obtain ⟨r, hr, rfl⟩ := Option.map_eq_some_iff.mp hy
      have hstop : isBefore row r = false := by
        have hnot := List.head?_dropWhile_not (isBefore row) rows
        rw [hr] at hnot
        exact hnot
      have hmem : r.id ∈ (rows.dropWhile (isBefore row)).map (·.id) := List.mem_map_of_mem (List.mem_of_head? hr)
      refine before_of_not_before (fun heq => hnew ?_) fun hbefore => ?_
      · exact List.mem_append_right _ (by rwa [show row.id = r.id from heq])
      · rw [isBefore_iff.mpr hbefore] at hstop
        cases hstop
  · rw [List.map_append, List.map_cons]
    exact List.nodup_middle.mpr (List.nodup_cons.mpr ⟨hnew, hids⟩)

/-- Rows of an earlier part of the store sort before those of a later part. -/
theorem Ordered.before_of_loadRange (h : Ordered rows) {from₁ from₂ count₁ count₂ : Int} (hfrom : 0 ≤ from₁) (hcount : 0 < count₁)
    (hle : from₁ + count₁ ≤ from₂) {r s : Row} (hr : r ∈ loadRange rows from₁ count₁)
    (hs : s ∈ loadRange rows from₂ count₂) : entryStampCmp r.entry s.entry < 0 := by
  have hr : r ∈ rows.take from₂.toNat := by
    rw [loadRange, if_neg (by omega), List.take_drop] at hr
    exact List.take_subset_take_left _ (by omega) (List.mem_of_mem_drop hr)
  have hs : s ∈ rows.drop from₂.toNat := List.mem_of_mem_take hs
  have hsorted := h.sorted
  rw [← List.take_append_drop from₂.toNat rows, List.map_append] at hsorted
  exact (List.pairwise_append.mp hsorted).2.2 _ (List.mem_map_of_mem hr) _ (List.mem_map_of_mem hs)

end Rows

/-! ## The range around a place -/

/-- What is loaded before the window. -/
def rowsBefore (rows : List Row) (buf : Buffer) (wantStart : Int) : List Entry :=
  if wantStart < buf.matFirstIndex then newRows buf (loadRange rows wantStart (buf.matFirstIndex - wantStart)) else []

section Range

variable {rows : List Row} {buf : Buffer} {l : List Entry} {wantStart wantEnd matEnd : Int}

theorem Ordered.newRows (h : Ordered rows) (buf : Buffer) (from₁ count : Int) :
    Sorted (newRows buf (loadRange rows from₁ count)) :=
  (h.sorted.sublist ((loadRange_sublist _ _ _).map _)).sublist (newRows_sublist _ _)

theorem Ordered.loadRange_ids (h : Ordered rows) (from₁ count : Int) : ((loadRange rows from₁ count).map (·.id)).Nodup :=
  ((loadRange_sublist _ _ _).map _).nodup h.ids

theorem loadBefore_effect (settings : Settings) (hrows : Ordered rows) (h : Shown buf l []) (wantStart : Int) :
    ∃ l', Shown (loadBefore settings rows buf wantStart) l' [] ∧ rowsOf l' = rowsBefore rows buf wantStart ++ rowsOf l ∧
      (loadBefore settings rows buf wantStart).matFirstIndex = min wantStart buf.matFirstIndex ∧
      (loadBefore settings rows buf wantStart).totalEntries = buf.totalEntries ∧
      (settings.time.Forward → Sorted l → PrependFits l (rowsBefore rows buf wantStart) → Sorted l') := by
  unfold loadBefore rowsBefore
  split
  · rename_i hlt
    obtain ⟨l', h', hrows', hfirst, htotal, hsorted⟩ :=
      prependRows_effect settings (hrows.loadRange_ids wantStart (buf.matFirstIndex - wantStart)) h wantStart
    exact ⟨l', h', hrows', by omega, htotal, fun ht hs hfits => hsorted ht hs (hrows.newRows _ _ _) hfits⟩
  · exact ⟨l, h, rfl, by omega, rfl, fun _ hs _ => hs⟩

/-- Into an empty list the rows of the wanted range are loaded, else those behind the window. -/
theorem loadBehind_effect (settings : Settings) (hrows : Ordered rows) (h : Shown buf l [])
    (matEnd wantStart wantEnd : Int) : ∃ l' chain,
      Shown (loadBehind settings rows buf matEnd wantStart wantEnd) l' [] ∧ rowsOf l' = rowsOf l ++ chain ∧
      (loadBehind settings rows buf matEnd wantStart wantEnd).totalEntries = buf.totalEntries ∧
      (settings.time.Forward → Sorted l → (∀ x ∈ rowsOf l, ∀ y ∈ chain, entryStampCmp x y < 0) → Sorted l') ∧
      (wantEnd ≤ matEnd ∧ chain = [] ∧
          (loadBehind settings rows buf matEnd wantStart wantEnd).matFirstIndex = buf.matFirstIndex ∨
        matEnd < wantEnd ∧ l ≠ [] ∧ chain = newRows buf (loadRange rows (matEnd + 1) (wantEnd - matEnd)) ∧
          (loadBehind settings rows buf matEnd wantStart wantEnd).matFirstIndex = buf.matFirstIndex ∨
        matEnd < wantEnd ∧ l = [] ∧ chain = newRows buf (loadRange rows wantStart (wantEnd - wantStart + 1)) ∧
          (loadBehind settings rows buf matEnd wantStart wantEnd).matFirstIndex = wantStart) := by
  have hcount : buf.matCount = l.length := by simp [Buffer.matCount, h.perm.length_eq]
  unfold loadBehind
  split
  · rename_i hlt
    split
    · rename_i hsome
      have hne : l ≠ [] := by
        rintro rfl
        simp [hcount] at hsome
      obtain ⟨l', h', hkept, hrows', hsorted⟩ :=
        appendRows_effect settings (hrows.loadRange_ids (matEnd + 1) (wantEnd - matEnd)) h
      exact ⟨l', _, h', hrows', hkept.total, fun ht hs hbefore => hsorted ht hs (hrows.newRows _ _ _) hbefore,
        .inr (.inl ⟨hlt, hne, rfl, hkept.first⟩)⟩
    · rename_i hnone
      have hnil : l = [] := List.eq_nil_of_length_eq_zero (by omega)
      have hplaced : Shown { buf with matFirstIndex := wantStart } l [] := h.same rfl rfl rfl rfl rfl rfl
      obtain ⟨l', h', hkept, hrows', hsorted⟩ :=
        appendRows_effect settings (hrows.loadRange_ids wantStart (wantEnd - wantStart + 1)) hplaced
      exact ⟨l', _, h', hrows', hkept.total, fun ht hs hbefore => hsorted ht hs (hrows.newRows _ _ _) hbefore,
        .inr (.inr ⟨hlt, hnil, rfl, hkept.first⟩)⟩
  · exact ⟨l, [], h, by simp, rfl, fun _ hs _ => hs, .inl ⟨by omega, rfl, rfl⟩⟩

theorem evictEnds_trimmed (h : Shown buf l []) (wantStart wantEnd : Int) :
    ∃ l' heads tails, Trimmed buf l (evictEnds buf wantStart wantEnd) l' heads tails ∧
      (heads = [] ∨ (evictEnds buf wantStart wantEnd).matFirstIndex ≤ wantStart - virtPageSize) ∧
      (tails = [] ∨ wantEnd + virtPageSize ≤
        (evictEnds buf wantStart wantEnd).matFirstIndex + (rowsOf l').length - 1) := by
  obtain ⟨l₁, heads, h₁, hheads⟩ := evictHeads_trimmed wantStart buf.fuel h
  obtain ⟨l₂, h₂⟩ := dropEdgeDaySep_trimmed h₁.shown true
  obtain ⟨l₃, tails, h₃, htails⟩ := evictTails_trimmed wantEnd
    (dropEdgeDaySep (evictHeads wantStart buf.fuel buf) true).1.fuel h₂.shown
  obtain ⟨l₄, h₄⟩ := dropEdgeDaySep_trimmed h₃.shown false
  have hall := ((h₁.trans h₂).trans h₃).trans h₄
  simp only [List.append_nil, List.nil_append] at hall
  have hfirst₂ := h₂.first
  have hfirst₃ := h₃.first
  have hfirst₄ : (evictEnds buf wantStart wantEnd).matFirstIndex = _ := h₄.first
  simp only [List.length_nil] at hfirst₂ hfirst₃ hfirst₄
  have hrows₄ : rowsOf l₃ = rowsOf l₄ := by simpa using h₄.rows
  refine ⟨l₄, heads, tails, hall, hheads.imp_right fun hle => ?_, htails.imp_right fun hle => ?_⟩
  · omega
  · rw [← hrows₄]
    omega

/-- A window is rebuilt if the range is far and anything can be loaded, and else it slides. -/
theorem moveWindow_cases (settings : Settings) (rows : List Row) (h : Shown buf l []) (wantStart wantEnd : Int) :
    (isFar buf wantStart wantEnd = true ∧ loadRange rows wantStart (wantEnd - wantStart + 1) ≠ [] ∧
        moveWindow settings rows buf wantStart wantEnd =
          if (virtRecenter settings rows buf wantStart wantEnd).2 then (virtRecenter settings rows buf wantStart wantEnd).1
          else slideWindow settings rows (virtRecenter settings rows buf wantStart wantEnd).1 wantStart wantEnd) ∨
      ¬ (isFar buf wantStart wantEnd = true ∧ loadRange rows wantStart (wantEnd - wantStart + 1) ≠ []) ∧
        ∃ startId endId, Shown { buf with selPinStartId := startId, selPinEndId := endId } l [] ∧
          moveWindow settings rows buf wantStart wantEnd =
            slideWindow settings rows { buf with selPinStartId := startId, selPinEndId := endId } wantStart wantEnd := by
  unfold moveWindow
  by_cases hfar : isFar buf wantStart wantEnd = true
  · by_cases hload : loadRange rows wantStart (wantEnd - wantStart + 1) = []
    · refine .inr ⟨fun hboth => hboth.2 hload, 0, 0, h.same rfl rfl rfl rfl rfl rfl, ?_⟩
      rw [if_pos hfar, virtRecenter_empty settings hload]
      rfl
    · refine .inl ⟨hfar, hload, ?_⟩
      rw [if_pos hfar]
  · refine .inr ⟨fun hboth => hfar hboth.1, buf.selPinStartId, buf.selPinEndId, h, ?_⟩
    rw [if_neg hfar]
    rfl

end Range

end PoxChat.Xtext.View
