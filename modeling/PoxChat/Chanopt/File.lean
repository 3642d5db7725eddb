import PoxChat.Chanopt.Options

/-!
# The options in the list and in the file

What `chanopt_load_all` makes of the file that `chanopt_save_all` wrote.

* `get`, `getD` — the options of a pair in a list.
* `overlay` — the options that are set in a file, over those that are there.
* `merge` — what reading the lines of a channel does to the list.

Principal results: `chanoptLoadAll_saveLoop` — the channels of the file are merged into the list one by one;
`get_foldl_merge` — a pair of the file then has the options of the file over its own.
-/

set_option autoImplicit false

namespace PoxChat.Chanopt

open Lib Outbound Users Servlist

/-! ## Looking up a pair -/

theorem samePair_iff {network channel : Bytes} {co : InMemory} :
    samePair network channel co = true ↔ co.pair = pairOf network channel := by
  have hcmp : ∀ a b : Bytes, gAsciiStrcasecmp a b = 0 ↔ asciiFold.key a = asciiFold.key b := fun a b =>
    asciiFold.loop_eq_zero_iff (fun _ => cString_ne_zero) (fun _ => cString_ne_zero)
  rw [samePair, Bool.and_eq_true, beq_iff_eq, beq_iff_eq, hcmp, hcmp, InMemory.pair, pairOf, pairOf, Prod.mk.injEq,
    and_comm]

theorem samePair_eq (network channel : Bytes) :
    samePair network channel = fun co => decide (co.pair = pairOf network channel) := by
  funext co
  rw [Bool.eq_iff_iff, samePair_iff, decide_eq_true_iff]

/-- A write to the options of a record. -/
def InMemory.modify (f : Settings → Settings) (co : InMemory) : InMemory := { co with settings := f co.settings }

/-- The options of a pair in a list. -/
def get (list : List InMemory) (pair : Bytes × Bytes) : Option Settings :=
  (list.find? fun co => co.pair = pair).map InMemory.settings

/-- The options a list gives a pair, unset where it has none. -/
def getD (list : List InMemory) (pair : Bytes × Bytes) : Settings := (get list pair).getD .unset

section Get

variable {list : List InMemory} {network channel : Bytes} {pair : Bytes × Bytes}

theorem get_find : (chanoptFind list network channel).map InMemory.settings = get list (pairOf network channel) := by
  rw [chanoptFind, samePair_eq, get]

@[simp] theorem get_nil : get [] pair = none := rfl

theorem get_cons (co : InMemory) : get (co :: list) pair = if co.pair = pair then some co.settings else get list pair := by
  rw [get, List.find?_cons]
  by_cases h : co.pair = pair <;> simp [h, get]

theorem get_updateFirst (f : Settings → Settings) :
    get (updateFirst (samePair network channel) (InMemory.modify f) list) pair =
      if pair = pairOf network channel then (get list pair).map f else get list pair := by
  have hpair : ∀ (co : InMemory) (pair : Bytes × Bytes), decide ((co.modify f).pair = pair) = decide (co.pair = pair) :=
    fun _ _ => rfl
  rw [samePair_eq, get, get]
  split
  · next h =>
    subst h
    rw [find?_updateFirst_self fun co => hpair co _, Option.map_map, Option.map_map]
    rfl
  · next h =>
    rw [find?_updateFirst_of_disjoint fun co => hpair co _]
    intro co hco
    exact decide_eq_false fun heq => h (heq.symm.trans (of_decide_eq_true hco))

theorem get_findNew :
    get (chanoptFindNew list network channel).1 pair =
      if pair = pairOf network channel then some (getD list pair) else get list pair := by
  have hfind : (chanoptFind list network channel).map InMemory.settings = get list (pairOf network channel) := get_find
  rw [chanoptFindNew]
  revert hfind
  cases chanoptFind list network channel with
  | some co =>
    intro hfind
    dsimp only
    split
    · next h =>
      rw [h, getD, ← hfind]
      rfl
    · rfl
  | none =>
    intro hfind
    dsimp only
    rw [get_cons]
    split
    · next h =>
      have h : pair = pairOf network channel := h.symm
      rw [if_pos h, h, getD, ← hfind]
      rfl
    · next h => rw [if_neg fun heq => h heq.symm]

theorem get_eq_of_mem (h : DistinctKeys InMemory.pair list) {co : InMemory} (hco : co ∈ list) :
    get list co.pair = some co.settings := by
  have hfind : list.find? (fun c => c.pair = co.pair) = some co :=
    (h.find?_iff fun _ => decide_eq_true_iff).2 ⟨hco, decide_eq_true rfl⟩
  rw [get, hfind]
  rfl

theorem exists_of_get {settings : Settings} (h : get list pair = some settings) :
    ∃ co ∈ list, co.pair = pair ∧ co.settings = settings := by
  obtain ⟨co, hfind, hset⟩ := Option.map_eq_some_iff.1 h
  exact ⟨co, List.mem_of_find?_eq_some hfind, by simpa using List.find?_some hfind, hset⟩

theorem get_eq_none : get list pair = none ↔ ∀ co ∈ list, co.pair ≠ pair := by
  rw [get, Option.map_eq_none_iff, List.find?_eq_none]
  simp

end Get

/-! ## Lines -/

section Lines

variable {st : Reading}

theorem readLine_assign {var : Bytes} (h : equals ∉ var) (value : Bytes) :
    readLine st (assign var value) = readVar st var value := by
  have hsplit : assign var value = (var ++ [space]) ++ equals :: (space :: value) := by
    have : bytes " = " = [space, equals, space] := rfl
    rw [assign, this]
    simp
  have hvar : equals ∉ var ++ [space] := by
    have : equals ≠ space := by decide
    simp [h, this]
  have hpass : ∀ b ∈ var ++ [space], decide (b ≠ equals) = true := fun b hb =>
    decide_eq_true fun heq => hvar (heq ▸ hb)
  have htake : (assign var value).takeWhile (· ≠ equals) = var ++ [space] := by
    rw [hsplit, List.takeWhile_append_of_pos hpass, List.takeWhile_cons_of_neg (by simp), List.append_nil]
  have hdrop : (assign var value).drop ((assign var value).idxOf equals + 2) = value := by
    have hidx : (assign var value).idxOf equals = (var ++ [space]).length := by
      rw [hsplit, List.idxOf_append_of_notMem hvar, List.idxOf_cons_self, Nat.add_zero]
    rw [hidx, hsplit, ← List.drop_drop, List.drop_left]
    rfl
  have hmem : equals ∈ assign var value := by
    rw [hsplit]
    simp
  rw [readLine, if_pos hmem, htake, hdrop]
  dsimp only
  rw [List.getLast?_concat, if_pos rfl, List.dropLast_concat]

theorem name_ne (o : ChanOption) : equals ∉ o.name ∧ o.name ≠ bytes "network" ∧ o.name ≠ bytes "channel" := by
  cases o <;> decide

theorem name_injective {o o' : ChanOption} (h : o.name = o'.name) : o = o' := by
  have hall : ∀ o o' : ChanOption, o.name = o'.name → o = o' := by decide
  exact hall o o' h

theorem strToChanopt_text {value : Setting} (h : value ≠ .unset) : strToChanopt value.text = value := by
  cases value with
  | off => decide
  | on => decide
  | unset => exact absurd rfl h

theorem readLine_option (o : ChanOption) {value : Setting} (h : value ≠ .unset) {network channel : Bytes}
    (hcurrent : st.current = some (network, channel)) :
    readLine st (assign o.name value.text) =
      { st with list := updateFirst (samePair network channel) (·.addOpt o.name value) st.list } := by
  obtain ⟨heq, hnetwork, hchannel⟩ := name_ne o
  rw [readLine_assign heq, readVar, if_neg hnetwork, if_neg hchannel, hcurrent, strToChanopt_text h]

/-- The options that are set in `s`, over those of `t`. -/
def overlay (s t : Settings) : Settings := fun o => if s o = .unset then t o else s o

theorem overlay_unset (s : Settings) : overlay s .unset = s := by
  funext o
  by_cases ho : s o = .unset
  · rw [overlay, if_pos ho, ho]
    rfl
  · rw [overlay, if_neg ho]

theorem overlay_self (s : Settings) : overlay s s = s := by
  funext o
  rw [overlay, ite_self]

theorem foldl_optionLines {options : List ChanOption} {settings : Settings} (h : ∀ o ∈ options, settings o ≠ .unset)
    {network channel : Bytes} (hcurrent : st.current = some (network, channel)) :
    (options.map fun o => assign o.name (settings o).text).foldl readLine st =
      { st with
        list := updateFirst (samePair network channel)
          (InMemory.modify fun t o => if o ∈ options then settings o else t o) st.list } := by
  induction options generalizing st with
  | nil =>
    have hmodify : InMemory.modify (fun t o => if o ∈ ([] : List ChanOption) then settings o else t o) = fun co => co := by
      funext co
      simp [InMemory.modify]
    rw [hmodify, updateFirst_id]
    rfl
  | cons o options ih =>
    have hpair : ∀ co : InMemory,
        samePair network channel (co.addOpt o.name (settings o)) = samePair network channel co := fun _ => rfl
    have hread := readLine_option o (h o List.mem_cons_self) hcurrent
    have hkept : (readLine st (assign o.name (settings o).text)).current = some (network, channel) := by
      rw [hread]
      exact hcurrent
    rw [List.map_cons, List.foldl_cons, ih (fun o' ho' => h o' (List.mem_cons_of_mem _ ho')) hkept, hread]
    simp only [updateFirst_updateFirst hpair]
    congr 2
    funext co
    simp only [InMemory.modify, InMemory.addOpt, InMemory.mk.injEq, true_and]
    funext o'
    by_cases ho : o' = o
    · subst ho
      simp
    · have hname : o.name ≠ o'.name := fun hname => ho (name_injective hname).symm
      simp [ho, hname]

/-- What reading the lines of a channel does to the list. -/
def merge (list : List InMemory) (co : InMemory) : List InMemory :=
  updateFirst (samePair co.network co.channel) (InMemory.modify (overlay co.settings))
    (chanoptFindNew list co.network co.channel).1

theorem foldl_lines (co : InMemory) :
    co.lines.foldl readLine st =
      { network := some co.network, current := some (co.network, co.channel), list := merge st.list co,
        changed := false } := by
  have hnetwork : readLine st (assign (bytes "network") co.network) = { st with network := some co.network } := by
    rw [readLine_assign (by decide), readVar, if_pos rfl]
  have hchannel : readLine { st with network := some co.network } (assign (bytes "channel") co.channel) =
      { network := some co.network, current := some (co.network, co.channel),
        list := (chanoptFindNew st.list co.network co.channel).1, changed := false } := by
    rw [readLine_assign (by decide), readVar, if_neg (by decide), if_pos rfl]
    rfl
  have hset : ∀ o ∈ ChanOption.all.filter (fun o => co.settings o ≠ .unset), co.settings o ≠ .unset := fun o ho =>
    of_decide_eq_true (List.mem_filter.1 ho).2
  rw [InMemory.lines, List.foldl_cons, hnetwork, List.foldl_cons, hchannel, InMemory.optionLines,
    foldl_optionLines hset rfl, merge]
  congr 3
  funext t o
  by_cases ho : co.settings o = .unset
  · simp [overlay, ho]
  · simp [overlay, ho, ChanOption.mem_all]

end Lines

/-! ## The file -/

theorem InMemory.not_saved {co : InMemory} (h : ¬ co.Saved) : co.settings = .unset := by
  funext o
  by_contra ho
  exact h ⟨o, ChanOption.mem_all o, ho⟩

/-- The names of a record are such as `chanopt.conf` is made for. -/
def InMemory.Named (co : InMemory) : Prop := Chanopt.Named co.network ∧ Chanopt.Named co.channel

/-- A line that the buffers of both sides hold. -/
def Kept (line : Bytes) : Prop := newline ∉ line ∧ line.length + 1 < BUFSIZE

theorem assign_kept {var value : Bytes} (hvar : newline ∉ var ∧ var.length ≤ 20) (hvalue : Named value) :
    Kept (assign var value) := by
  have hsign : bytes " = " = [32, 61, 32] := rfl
  have hbreak : newline ≠ 32 ∧ newline ≠ 61 := by decide
  have hsize : BUFSIZE = 256 := rfl
  have hlen := hvalue.1
  refine ⟨?_, ?_⟩
  · simp [assign, hsign, hvar.1, hvalue.2.1, hbreak.1, hbreak.2]
  · rw [assign, List.length_append, List.length_append, hsign, List.length_cons, List.length_cons, List.length_cons,
      List.length_nil]
    omega

theorem lines_kept {co : InMemory} (h : co.Named) : ∀ line ∈ co.lines, Kept line := by
  intro line hline
  rw [InMemory.lines, List.mem_cons, List.mem_cons, InMemory.optionLines, List.mem_map] at hline
  rcases hline with rfl | rfl | ⟨o, -, rfl⟩
  · exact assign_kept (by decide) h.1
  · exact assign_kept (by decide) h.2
  · refine assign_kept (by cases o <;> decide) ?_
    cases co.settings o <;> decide

/-- The lines of the file, after `numSaved` channels. -/
def fileLines : Nat → List InMemory → List Bytes
  | _, [] => []
  | numSaved, co :: list =>
    if co.Saved then (if numSaved ≠ 0 then [[]] else []) ++ co.lines ++ fileLines (numSaved + 1) list
    else fileLines numSaved list

theorem fileLines_kept {list : List InMemory} (h : ∀ co ∈ list, co.Named) (numSaved : Nat) :
    ∀ line ∈ fileLines numSaved list, Kept line := by
  induction list generalizing numSaved with
  | nil => exact fun line hline => absurd hline List.not_mem_nil
  | cons co list ih =>
    obtain ⟨hco, hrest⟩ := List.forall_mem_cons.1 h
    rw [fileLines]
    split
    · have hblank : ∀ line ∈ (if numSaved ≠ 0 then [[]] else [] : List Bytes), Kept line := by
        split
        · exact List.forall_mem_singleton.2 ⟨List.not_mem_nil, by decide⟩
        · exact fun line hline => absurd hline List.not_mem_nil
      rw [List.forall_mem_append, List.forall_mem_append]
      exact ⟨⟨hblank, lines_kept hco⟩, ih hrest _⟩
    · exact ih hrest _

theorem saveOneChannel_eq {co : InMemory} (h : co.Named) :
    chanoptSaveOneChannel co = co.lines.flatMap (· ++ [newline]) := by
  refine List.flatMap_congr fun line hline => ?_
  have hlen := (lines_kept h line hline).2
  have hsize : BUFSIZE = 256 := rfl
  rw [snprintfLine, List.take_of_length_le]
  rw [List.length_append, List.length_singleton]
  omega

theorem saveLoop_eq {list : List InMemory} (h : ∀ co ∈ list, co.Named) (numSaved : Nat) :
    saveLoop numSaved list = (fileLines numSaved list).flatMap (· ++ [newline]) := by
  induction list generalizing numSaved with
  | nil => rfl
  | cons co list ih =>
    obtain ⟨hco, hrest⟩ := List.forall_mem_cons.1 h
    rw [saveLoop, fileLines]
    by_cases hsaved : co.Saved
    · rw [if_pos hsaved, if_pos hsaved, List.flatMap_append, List.flatMap_append, saveOneChannel_eq hco, ih hrest]
      congr 2
      split <;> rfl
    · rw [if_neg hsaved, if_neg hsaved, ih hrest]

theorem waitlines_lines {lines : List Bytes} (h : ∀ line ∈ lines, Kept line) :
    waitlines (lines.flatMap (· ++ [newline])) = lines := by
  have hfit : ∀ line ∈ lines, newline ∉ line ∧ line.length < BUFSIZE := fun line hline =>
    ⟨(h line hline).1, Nat.lt_of_succ_lt (h line hline).2⟩
  rw [waitlines, pieces_lines hfit, List.filterMap_map]
  conv_rhs => rw [← List.filterMap_some (l := lines)]
  refine List.filterMap_congr fun line _ => ?_
  simp

/-- Blank lines are passed over, so the file is read channel by channel. -/
theorem foldl_fileLines (list : List InMemory) (numSaved : Nat) (st : Reading) :
    ((fileLines numSaved list).foldl readLine st).list =
        (list.filter fun co => co.Saved).foldl merge st.list ∧
      ((fileLines numSaved list).foldl readLine st).changed =
        if ∃ co ∈ list, co.Saved then false else st.changed := by
  induction list generalizing numSaved st with
  | nil => exact ⟨rfl, by simp [fileLines]⟩
  | cons co list ih =>
    rw [fileLines]
    by_cases hsaved : co.Saved
    · have hblank : (if numSaved ≠ 0 then [[]] else [] : List Bytes).foldl readLine st = st := by
        split <;> rfl
      rw [if_pos hsaved, List.foldl_append, List.foldl_append, hblank, foldl_lines, List.filter_cons_of_pos (by simpa),
        List.foldl_cons]
      obtain ⟨hlist, hchanged⟩ := ih (numSaved + 1)
        { network := some co.network, current := some (co.network, co.channel), list := merge st.list co,
          changed := false }
      rw [hlist, hchanged]
      refine ⟨rfl, ?_⟩
      rw [if_pos (⟨co, List.mem_cons_self, hsaved⟩ : ∃ c ∈ co :: list, c.Saved)]
      split <;> rfl
    · obtain ⟨hlist, hchanged⟩ := ih numSaved st
      rw [if_neg hsaved, hlist, hchanged, List.filter_cons_of_neg (by simpa)]
      simp [hsaved]

/-- What `chanopt_load_all` makes of a file that `chanopt_save_all` wrote. -/
theorem chanoptLoadAll_saveLoop {saved : List InMemory} (h : ∀ co ∈ saved, co.Named ∧ co.Saved) (list : List InMemory)
    (changed : Bool) :
    chanoptLoadAll list changed (saveLoop 0 saved) =
      (saved.foldl merge list, if saved = [] then changed else false) := by
  have hnamed : ∀ co ∈ saved, co.Named := fun co hco => (h co hco).1
  have hall : saved.filter (fun co => co.Saved) = saved := List.filter_eq_self.2 fun co hco => by simpa using (h co hco).2
  have hsome : (∃ co ∈ saved, co.Saved) ↔ saved ≠ [] := by
    refine ⟨?_, fun hne => ?_⟩
    · rintro ⟨co, hco, -⟩ rfl
      exact absurd hco List.not_mem_nil
    · obtain ⟨co, hco⟩ := List.exists_mem_of_ne_nil _ hne
      exact ⟨co, hco, (h co hco).2⟩
  obtain ⟨hlist, hchanged⟩ := foldl_fileLines saved 0 { list, changed }
  rw [chanoptLoadAll, saveLoop_eq hnamed, waitlines_lines (fileLines_kept hnamed 0)]
  refine Prod.ext ?_ ?_
  · rw [hall] at hlist
    exact hlist
  · refine hchanged.trans ?_
    simp only [hsome]
    by_cases hnil : saved = [] <;> simp [hnil]

/-! ## Merging -/

section Merge

variable {list saved : List InMemory} {pair : Bytes × Bytes}

theorem get_merge (co : InMemory) :
    get (merge list co) pair =
      if pair = co.pair then some (overlay co.settings (getD list pair)) else get list pair := by
  rw [merge, get_updateFirst, get_findNew]
  by_cases h : pair = pairOf co.network co.channel
  · have h' : pair = co.pair := h
    rw [if_pos h, if_pos h, if_pos h', Option.map_some]
  · have h' : ¬ pair = co.pair := h
    rw [if_neg h, if_neg h, if_neg h']

/-- Every pair of the file gets the options set there. -/
theorem get_foldl_merge (h : DistinctKeys InMemory.pair saved) :
    get (saved.foldl merge list) pair =
      match get saved pair with
      | some settings => some (overlay settings (getD list pair))
      | none => get list pair := by
  induction saved generalizing list with
  | nil => rfl
  | cons co saved ih =>
    obtain ⟨hfirst, hrest⟩ := List.pairwise_cons.1 h
    rw [List.foldl_cons, ih hrest, get_cons, getD, get_merge]
    by_cases hpair : co.pair = pair
    · have hnone : get saved pair = none := get_eq_none.2 fun c hc heq => hfirst c hc (hpair.trans heq.symm)
      rw [if_pos hpair, if_pos hpair.symm, hnone]
    · rw [if_neg hpair, if_neg fun heq => hpair heq.symm]
      rfl

theorem distinct_findNew (h : DistinctKeys InMemory.pair list) (network channel : Bytes) :
    DistinctKeys InMemory.pair (chanoptFindNew list network channel).1 := by
  have hfind : (chanoptFind list network channel).map InMemory.settings = get list (pairOf network channel) := get_find
  rw [chanoptFindNew]
  revert hfind
  cases chanoptFind list network channel with
  | some co => exact fun _ => h
  | none =>
    intro hfind
    refine List.pairwise_cons.2 ⟨fun co hco heq => ?_, h⟩
    exact get_eq_none.1 hfind.symm co hco heq.symm

theorem named_findNew (h : ∀ co ∈ list, co.Named) {network channel : Bytes} (hnetwork : Named network)
    (hchannel : Named channel) : ∀ co ∈ (chanoptFindNew list network channel).1, co.Named := by
  rw [chanoptFindNew]
  cases chanoptFind list network channel with
  | some co => exact h
  | none => exact List.forall_mem_cons.2 ⟨⟨hnetwork, hchannel⟩, h⟩

theorem named_updateFirst (h : ∀ co ∈ list, co.Named) (p : InMemory → Bool) (f : Settings → Settings) :
    ∀ co ∈ updateFirst p (InMemory.modify f) list, co.Named := by
  intro co hco
  obtain ⟨c, hc, rfl | rfl⟩ := exists_of_mem_updateFirst hco
  · exact h _ hc
  · exact h c hc

theorem distinct_foldl_merge (h : DistinctKeys InMemory.pair list) :
    DistinctKeys InMemory.pair (saved.foldl merge list) :=
  List.foldlRecOn saved merge h fun _ h co _ => (distinct_findNew h co.network co.channel).updateFirst fun _ => rfl

theorem named_foldl_merge (h : ∀ co ∈ list, co.Named) (hsaved : ∀ co ∈ saved, co.Named) :
    ∀ co ∈ saved.foldl merge list, co.Named := by
  refine List.foldlRecOn (motive := fun list => ∀ co ∈ list, co.Named) saved merge h fun _ h co hco => ?_
  exact named_updateFirst (named_findNew h (hsaved co hco).1 (hsaved co hco).2) _ _

theorem get_filter_saved (h : DistinctKeys InMemory.pair list) :
    getD (list.filter fun co => co.Saved) pair = getD list pair := by
  have hsub : DistinctKeys InMemory.pair (list.filter fun co => co.Saved) := h.sublist List.filter_sublist
  cases hget : get list pair with
  | none =>
    have hnone : get (list.filter fun co => co.Saved) pair = none :=
      get_eq_none.2 fun co hco => get_eq_none.1 hget co (List.mem_filter.1 hco).1
    rw [getD, getD, hget, hnone]
  | some settings =>
    obtain ⟨co, hco, rfl, rfl⟩ := exists_of_get hget
    by_cases hsaved : co.Saved
    · rw [getD, getD, hget, get_eq_of_mem hsub (List.mem_filter.2 ⟨hco, by simpa using hsaved⟩)]
    · have hnone : get (list.filter fun co => co.Saved) co.pair = none := by
        refine get_eq_none.2 fun c hc heq => ?_
        obtain ⟨hc, hcsaved⟩ := List.mem_filter.1 hc
        have hsame : some c.settings = some co.settings := by rw [← get_eq_of_mem h hc, heq, hget]
        obtain ⟨o, ho, hset⟩ := of_decide_eq_true hcsaved
        rw [Option.some.inj hsame] at hset
        exact hsaved ⟨o, ho, hset⟩
      rw [getD, getD, hget, hnone, Option.getD_some, InMemory.not_saved hsaved]
      rfl

end Merge

end PoxChat.Chanopt
