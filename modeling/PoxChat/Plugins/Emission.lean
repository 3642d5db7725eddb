import PoxChat.Plugins.Hooks

/-!
# Events for plugins

`plugin_hook_run`: the callbacks of an event are called in the order of the hook list, and register and remove hooks
and raise further events while they run.

* `hookRun` — the run, with callbacks of any kind; it is `dangling` when the saved node has been freed.
* `Walk` — the invariant of its loop.

Principal results: `emission_in_order` — one event calls each hook at most once, in the order of the list, and leaves
none out; `hookRun_safe` — a run follows no freed node if callbacks remove no hook but their own, and no hook was marked
for removal when it began.
-/

set_option autoImplicit false

namespace PoxChat.Plugins

open Lib Outbound
open scoped List

/-- The test of `plugin_hook_find`. -/
def Hook.answers (type : UInt8) (name : Bytes) (hook : Hook) : Bool :=
  hook.type.flag &&& type ≠ 0 && (gAsciiStrcaseeq hook.name name ||
    (type &&& HookType.server.flag ≠ 0 && gAsciiStrcaseeq hook.name (bytes "RAW LINE")))

/-- `plugin_hook_find`. -/
def pluginHookFind (type : UInt8) (name : Bytes) (list : List Hook) : List Hook :=
  list.dropWhile fun hook => !hook.answers type name

/-! ## A run -/

def EAT_POXCHAT : UInt32 := 1
def EAT_PLUGIN : UInt32 := 2

/-- The callbacks of all plugins, on what they keep and on the hooks. -/
abbrev Callbacks (σ : Type) := Hook → σ → Registry → σ × Registry × UInt32

inductive Outcome (σ : Type) where
  /-- The event is eaten or not; the run was stopped by a callback or not; the hooks whose callbacks were called. -/
  | done (eat stopped : Bool) (plugins : σ) (r : Registry) (called : List Hook)
  /-- The saved node has been freed. -/
  | dangling (called : List Hook)
  | running

variable {σ : Type}

/-- The loop of `plugin_hook_run`, with at most `fuel` callbacks; `list` is the saved node. -/
def hookLoop (callback : Callbacks σ) (type : UInt8) (name : Bytes) :
    Nat → Option Nat → σ → Registry → Bool → List Hook → Outcome σ
  | _, none, plugins, r, eat, called => .done eat false plugins r.expunge called
  | 0, some _, _, _, _, _ => .running
  | fuel + 1, some list, plugins, r, eat, called =>
    match r.hooks.dropWhile fun hook => hook.id ≠ list with
    | [] => .dangling called
    | node :: nodes =>
      match pluginHookFind type name (node :: nodes) with
      | [] => .done eat false plugins r.expunge called
      | hook :: rest =>
        let (plugins, r, ret) := callback hook plugins r
        let called := called ++ [hook]
        if ret &&& EAT_POXCHAT ≠ 0 ∧ ret &&& EAT_PLUGIN ≠ 0 then .done true true plugins r.expunge called
        else if ret &&& EAT_PLUGIN ≠ 0 then .done eat true plugins r.expunge called
        else
          hookLoop callback type name fuel (rest.head?.map Hook.id) plugins r
            (eat || ret &&& EAT_POXCHAT ≠ 0) called

/-- `plugin_hook_run`. -/
def hookRun (callback : Callbacks σ) (type : UInt8) (name : Bytes) (fuel : Nat) (plugins : σ) (r : Registry) :
    Outcome σ :=
  hookLoop callback type name fuel (r.hooks.head?.map Hook.id) plugins r false []

/-- The events that `plugin_emit_command`, `plugin_emit_server`, `plugin_emit_print` and the calls of
`plugin_emit_dummy_print` and `plugin_emit_keypress` look for. -/
def emitCommand : UInt8 := HookType.command.flag
def emitServer : UInt8 := HookType.server.flag ||| HookType.serverAttrs.flag
def emitPrint : UInt8 := HookType.print.flag ||| HookType.printAttrs.flag
def emitDummyPrint : UInt8 := HookType.print.flag

/-! ## The loop -/

variable {allowed : HookType → Prop} {r r' : Registry} {type : UInt8} {name : Bytes}

theorem Hook.alive {hook : Hook} (h : hook.answers type name = true) (htype : type &&& 128 = 0) :
    hook.type ≠ .deleted := by
  intro hdeleted
  simp [Hook.answers, hdeleted, HookType.flag, UInt8.and_comm, htype] at h

/-- The hooks called since the start `r₀`. -/
structure Called (type : UInt8) (name : Bytes) (r₀ r : Registry) (called : List Hook) : Prop where
  changes : Changes r₀ r
  once : (called.map Hook.id).Nodup
  order : older r₀.nextId (called.map Hook.id) <+ r₀.ids
  answered : ∀ hook ∈ called, hook.answers type name = true ∧ (hook.id < r₀.nextId → hook ∈ r₀.hooks)

/-- The loop has gone through the hooks as far as the node before `todo`. -/
structure Walk (type : UInt8) (name : Bytes) (r₀ r : Registry) (todo called : List Hook) : Prop where
  past : Called type name r₀ r called
  numbered : Numbered r
  rest : ∃ passed, r.hooks = passed ++ todo
  order : older r₀.nextId (called.map Hook.id) ++ older r₀.nextId (todo.map Hook.id) <+ r₀.ids
  below : ∀ id ∈ called.map Hook.id, id < r.nextId ∧ id ∉ todo.map Hook.id
  complete : ∀ hook ∈ r.hooks, hook.id < r₀.nextId → hook.answers type name = true → hook ∈ called ∨ hook ∈ todo

variable {r₀ : Registry} {todo called : List Hook}

theorem Walk.start (type : UInt8) (name : Bytes) (hr : Numbered r) : Walk type name r r r.hooks [] := by
  refine ⟨⟨Changes.refl r, List.nodup_nil, List.nil_sublist _, by simp⟩, hr, ⟨[], rfl⟩, Drifts.refl _ _, by simp, ?_⟩
  intro hook hhook _ _
  exact .inr hhook

/-- Hooks that do not answer are passed. -/
theorem Walk.skip {skipped : List Hook} (h : Walk type name r₀ r (skipped ++ todo) called)
    (hskip : ∀ hook ∈ skipped, hook.answers type name = false) : Walk type name r₀ r todo called := by
  obtain ⟨passed, hpassed⟩ := h.rest
  refine ⟨h.past, h.numbered, ⟨passed ++ skipped, by rw [hpassed, List.append_assoc]⟩, ?_, ?_, ?_⟩
  · refine List.Sublist.trans ?_ h.order
    rw [List.map_append, older_append]
    exact (List.Sublist.refl _).append (List.sublist_append_right _ _)
  · intro id hid
    have hbelow := h.below id hid
    rw [List.map_append, List.mem_append, not_or] at hbelow
    exact ⟨hbelow.1, hbelow.2.2⟩
  · intro hook hhook hold hanswers
    rcases h.complete hook hhook hold hanswers with hcalled | htodo
    · exact .inl hcalled
    · rcases List.mem_append.1 htodo with hskipped | htodo
      · exact absurd ((hskip hook hskipped).symm.trans hanswers) Bool.false_ne_true
      · exact .inr htodo

/-- **One callback** is of a hook that was not called before, and stood behind those that were. -/
theorem Walk.call {hook : Hook} {rest : List Hook} (h : Walk type name r₀ r (hook :: rest) called)
    (htype : type &&& 128 = 0) (hanswers : hook.answers type name = true) (hch : Changes r r') :
    Called type name r₀ r' (called ++ [hook]) := by
  obtain ⟨passed, hbefore⟩ := h.rest
  refine ⟨h.past.changes.trans hch, ?_, ?_, ?_⟩
  · rw [List.map_append, List.nodup_append]
    refine ⟨h.past.once, List.nodup_singleton _, ?_⟩
    rintro id hcalled _ hhook rfl
    rw [List.map_cons, List.map_nil, List.mem_singleton] at hhook
    exact (h.below id hcalled).2 (by rw [hhook]; exact List.mem_cons_self)
  · refine List.Sublist.trans ?_ h.order
    have hcons : hook.id :: rest.map Hook.id = [hook.id] ++ rest.map Hook.id := rfl
    rw [List.map_append, List.map_cons, List.map_nil, List.map_cons, hcons, older_append, older_append]
    exact (List.Sublist.refl _).append (List.sublist_append_left _ _)
  · intro hook' hcalled
    rcases List.mem_append.1 hcalled with hcalled | hcalled
    · exact h.past.answered hook' hcalled
    · obtain rfl := List.mem_singleton.1 hcalled
      refine ⟨hanswers, fun hold => h.past.changes.alive _ ?_ hold (Hook.alive hanswers htype)⟩
      rw [hbefore]
      simp

/-- The saved node splits the hooks that were there as it did before the callback. -/
theorem Changes.around {passed rest front todo' : List Hook} (h : Changes r r') (hr : Numbered r)
    (hbefore : r.hooks = passed ++ rest) (hafter : r'.hooks = front ++ todo')
    (hnext : (todo'.map Hook.id).head? = (rest.map Hook.id).head?) :
    older r.nextId (front.map Hook.id) <+ passed.map Hook.id ∧
      older r.nextId (todo'.map Hook.id) <+ rest.map Hook.id := by
  have hids : r.ids = passed.map Hook.id ++ rest.map Hook.id := by rw [Registry.ids, hbefore, List.map_append]
  have hids' : r'.ids = front.map Hook.id ++ todo'.map Hook.id := by rw [Registry.ids, hafter, List.map_append]
  have horder := h.order
  have hbelow := hr.below
  have hnodup := hr.nodup
  rw [hids] at hbelow hnodup
  rw [hids, hids'] at horder
  cases rest with
  | nil =>
    cases todo' with
    | nil =>
      rw [List.map_nil, List.append_nil, List.append_nil] at horder
      exact ⟨horder, List.Sublist.refl _⟩
    | cons node todo' => cases hnext
  | cons node rest =>
    cases todo' with
    | nil => cases hnext
    | cons node' todo' =>
      have hsame : node'.id = node.id := Option.some.inj hnext
      rw [List.map_cons, List.map_cons, hsame] at horder
      rw [List.map_cons] at hbelow hnodup
      obtain ⟨hfront, hback⟩ := horder.around hbelow hnodup
      refine ⟨hfront, ?_⟩
      have hlt : node.id < r.nextId := hbelow _ (by simp)
      rw [List.map_cons, List.map_cons, hsame, older_cons hlt]
      exact hback.cons_cons _

/-- **One callback**: the loop goes on from the saved node, wherever it now stands. -/
theorem Walk.visit {hook : Hook} {rest front todo' : List Hook} (h : Walk type name r₀ r (hook :: rest) called)
    (htype : type &&& 128 = 0) (hanswers : hook.answers type name = true) (hch : Changes r r')
    (hafter : r'.hooks = front ++ todo') (hnext : (todo'.map Hook.id).head? = (rest.map Hook.id).head?) :
    Walk type name r₀ r' todo' (called ++ [hook]) := by
  obtain ⟨passed, hbefore⟩ := h.rest
  have hbefore' : r.hooks = (passed ++ [hook]) ++ rest := by rw [hbefore, List.append_assoc]; rfl
  have hmem : hook ∈ r.hooks := by rw [hbefore]; simp
  have hid : hook.id < r.nextId := h.numbered.below _ (List.mem_map_of_mem hmem)
  obtain ⟨hfront, hback⟩ := hch.around h.numbered hbefore' hafter hnext
  have hnodup : ((passed ++ [hook]).map Hook.id ++ rest.map Hook.id).Nodup := by
    have hall := h.numbered.nodup
    rwa [Registry.ids, hbefore', List.map_append] at hall
  have hlow := h.past.changes.next
  refine ⟨h.call htype hanswers hch, hch.numbered h.numbered, ⟨front, hafter⟩, ?_, ?_, ?_⟩
  · refine List.Sublist.trans ?_ h.order
    have hcons : hook.id :: rest.map Hook.id = [hook.id] ++ rest.map Hook.id := rfl
    rw [List.map_append, List.map_cons, List.map_nil, List.map_cons, hcons, older_append, older_append,
      List.append_assoc, ← older_older hlow (todo'.map Hook.id)]
    exact (List.Sublist.refl _).append ((List.Sublist.refl _).append (hback.filter _))
  · intro id hcalled
    rw [List.map_append, List.mem_append, List.map_cons, List.map_nil, List.mem_singleton] at hcalled
    have hpast : id < r.nextId ∧ id ∉ rest.map Hook.id := by
      rcases hcalled with hcalled | rfl
      · obtain ⟨hlt, hnot⟩ := h.below id hcalled
        exact ⟨hlt, fun hrest => hnot (List.mem_cons_of_mem _ hrest)⟩
      · refine ⟨hid, fun hrest => ?_⟩
        exact (List.nodup_append.1 hnodup).2.2 hook.id (by simp) _ hrest rfl
    refine ⟨Nat.lt_of_lt_of_le hpast.1 hch.next, fun htodo => hpast.2 ?_⟩
    exact hback.subset (mem_older.2 ⟨htodo, hpast.1⟩)
  · intro hook' hhook' hold hanswers'
    have hold' : hook'.id < r.nextId := by omega
    have hthere := hch.alive hook' hhook' hold' (Hook.alive hanswers' htype)
    rcases h.complete hook' hthere hold hanswers' with hcalled | htodo
    · exact .inl (List.mem_append_left _ hcalled)
    · rcases List.mem_cons.1 htodo with rfl | hrest
      · exact .inl (by simp)
      · right
        rw [hafter, List.mem_append] at hhook'
        refine hhook'.resolve_left fun hin => ?_
        have hpassed := hfront.subset (mem_older.2 ⟨List.mem_map_of_mem hin, hold'⟩)
        exact (List.nodup_append.1 hnodup).2.2 _ hpassed _ (List.mem_map_of_mem hrest) rfl

theorem pluginHookFind_split (type : UInt8) (name : Bytes) (list : List Hook) :
    ∃ skipped, list = skipped ++ pluginHookFind type name list ∧ ∀ hook ∈ skipped, hook.answers type name = false := by
  refine ⟨list.takeWhile fun hook => !hook.answers type name, (List.takeWhile_append_dropWhile).symm, ?_⟩
  intro hook hhook
  simpa using List.mem_takeWhile_imp hhook

theorem answers_pluginHookFind {list rest : List Hook} {hook : Hook}
    (h : pluginHookFind type name list = hook :: rest) : hook.answers type name = true := by
  have hhead := List.head?_dropWhile_not (fun hook : Hook => !hook.answers type name) list
  rw [show list.dropWhile _ = hook :: rest from h] at hhead
  simpa using hhead

/-- Where the loop stands with this saved node, once it has found it. -/
def Ready (type : UInt8) (name : Bytes) (r₀ r : Registry) (list : Option Nat) (called : List Hook) : Prop :=
  match list with
  | none => Walk type name r₀ r [] called
  | some id => ∀ node nodes, (r.hooks.dropWhile fun hook => hook.id ≠ id) = node :: nodes →
      Walk type name r₀ r (node :: nodes) called

/-- The loop is ready for the next node. -/
theorem Walk.ready {hook : Hook} {rest : List Hook} (h : Walk type name r₀ r (hook :: rest) called)
    (htype : type &&& 128 = 0) (hanswers : hook.answers type name = true) (hch : Changes r r') :
    Ready type name r₀ r' (rest.head?.map Hook.id) (called ++ [hook]) := by
  cases rest with
  | nil => exact h.visit htype hanswers hch (List.append_nil _).symm rfl
  | cons next rest =>
    intro node nodes hfound
    have hsplit := List.takeWhile_append_dropWhile (p := fun hook : Hook => decide (hook.id ≠ next.id)) (l := r'.hooks)
    rw [hfound] at hsplit
    have hhead := List.head?_dropWhile_not (fun hook : Hook => decide (hook.id ≠ next.id)) r'.hooks
    rw [hfound] at hhead
    have hid : node.id = next.id := by simpa using hhead
    exact h.visit htype hanswers hch hsplit.symm (congrArg some hid)

/-- The callbacks do what plugins can do. -/
def Callbacks.Acting (callback : Callbacks σ) (allowed : HookType → Prop) : Prop :=
  ∀ hook plugins r, Acts allowed r (callback hook plugins r).2.1

/-- A run is itself something that plugins can do, so a callback may raise an event. -/
theorem hookLoop_acts {callback : Callbacks σ} (hact : callback.Acting allowed) (fuel : Nat) :
    ∀ {list : Option Nat} {plugins : σ} {r : Registry} {eat : Bool} {called : List Hook},
      ∀ {eat' stopped : Bool} {plugins' : σ} {r' : Registry} {called' : List Hook},
        hookLoop callback type name fuel list plugins r eat called = .done eat' stopped plugins' r' called' →
        Acts allowed r r' := by
  induction fuel with
  | zero =>
    intro list plugins r eat called eat' stopped plugins' r' called' hdone
    cases list with
    | none =>
      obtain ⟨-, -, -, rfl, -⟩ := hdone
      exact Relation.ReflTransGen.single (Api.emitted r)
    | some id => cases hdone
  | succ fuel ih =>
    intro list plugins r eat called eat' stopped plugins' r' called' hdone
    cases list with
    | none =>
      obtain ⟨-, -, -, rfl, -⟩ := hdone
      exact Relation.ReflTransGen.single (Api.emitted r)
    | some id =>
      unfold hookLoop at hdone
      split at hdone
      · cases hdone
      split at hdone
      · obtain ⟨-, -, -, rfl, -⟩ := hdone
        exact Relation.ReflTransGen.single (Api.emitted r)
      · rename_i hook rest _
        have hacts := hact hook plugins r
        dsimp only at hdone
        split_ifs at hdone
        · obtain ⟨-, -, -, rfl, -⟩ := hdone
          exact hacts.tail (Api.emitted _)
        · obtain ⟨-, -, -, rfl, -⟩ := hdone
          exact hacts.tail (Api.emitted _)
        · exact hacts.trans (ih hdone)

/-- **The loop** ends where the walk does. -/
theorem hookLoop_walk {callback : Callbacks σ} (hact : callback.Acting allowed) (htype : type &&& 128 = 0)
    (fuel : Nat) :
    ∀ {list : Option Nat} {plugins : σ} {r : Registry} {eat : Bool} {called : List Hook},
      Ready type name r₀ r list called →
      ∀ {eat' stopped : Bool} {plugins' : σ} {r' : Registry} {called' : List Hook},
        hookLoop callback type name fuel list plugins r eat called = .done eat' stopped plugins' r' called' →
        ∃ r₁, Called type name r₀ r₁ called' ∧ r' = r₁.expunge ∧
          (stopped = false → Walk type name r₀ r₁ [] called') := by
  induction fuel with
  | zero =>
    intro list plugins r eat called h eat' stopped plugins' r' called' hdone
    cases list with
    | none =>
      obtain ⟨-, -, -, rfl, rfl⟩ := hdone
      exact ⟨r, h.past, rfl, fun _ => h⟩
    | some id => cases hdone
  | succ fuel ih =>
    intro list plugins r eat called h eat' stopped plugins' r' called' hdone
    cases list with
    | none =>
      obtain ⟨-, -, -, rfl, rfl⟩ := hdone
      exact ⟨r, h.past, rfl, fun _ => h⟩
    | some id =>
      unfold hookLoop at hdone
      split at hdone
      · cases hdone
      rename_i node nodes hfound
      have hwalk := h node nodes hfound
      obtain ⟨skipped, hsplit, hskip⟩ := pluginHookFind_split type name (node :: nodes)
      rw [hsplit] at hwalk
      have hwalk := hwalk.skip hskip
      split at hdone
      · rename_i hnone
        rw [hnone] at hwalk
        obtain ⟨-, -, -, rfl, rfl⟩ := hdone
        exact ⟨r, hwalk.past, rfl, fun _ => hwalk⟩
      · rename_i hook rest hfind
        rw [hfind] at hwalk
        have hanswers := answers_pluginHookFind hfind
        have hch := (hact hook plugins r).changes
        have hcall := hwalk.call htype hanswers hch
        dsimp only at hdone
        split_ifs at hdone
        · obtain ⟨-, rfl, -, rfl, rfl⟩ := hdone
          exact ⟨_, hcall, rfl, fun h => Bool.noConfusion h⟩
        · obtain ⟨-, rfl, -, rfl, rfl⟩ := hdone
          exact ⟨_, hcall, rfl, fun h => Bool.noConfusion h⟩
        · exact ih (hwalk.ready htype hanswers hch) hdone

/-! ## Events -/

/-- The types that an event looks for. -/
def eventTypes : List UInt8 := [emitCommand, emitServer, emitPrint, emitDummyPrint]

theorem eventTypes_alive (h : type ∈ eventTypes) : type &&& 128 = 0 := by
  simp only [eventTypes, List.mem_cons, List.not_mem_nil, or_false] at h
  rcases h with rfl | rfl | rfl | rfl
  · decide
  · decide
  · decide
  · decide

theorem dropWhile_node {passed nodes : List Hook} {node : Hook} (hr : Numbered r)
    (hsplit : r.hooks = passed ++ node :: nodes) :
    (r.hooks.dropWhile fun hook => hook.id ≠ node.id) = node :: nodes := by
  have hnodup := hr.nodup
  rw [Registry.ids, hsplit, List.map_append, List.map_cons, List.nodup_append] at hnodup
  have hpassed : ∀ hook ∈ passed, decide (hook.id ≠ node.id) = true := by
    intro hook hhook
    exact decide_eq_true (hnodup.2.2 _ (List.mem_map_of_mem hhook) _ (by simp))
  rw [hsplit, List.dropWhile_append_of_pos hpassed, List.dropWhile_cons_of_neg (by simp)]

theorem Walk.started (hr : Numbered r) : Ready type name r r (r.hooks.head?.map Hook.id) [] := by
  have hstart := Walk.start type name hr
  cases hhooks : r.hooks with
  | nil =>
    rw [hhooks] at hstart
    exact hstart
  | cons hook hooks =>
    intro node nodes hfound
    rw [dropWhile_node hr (show r.hooks = [] ++ hook :: hooks from hhooks), ← hhooks] at hfound
    rw [← hfound]
    exact hstart

/-- Callbacks that remove no hook but their own; they may register hooks and raise events. -/
structure Callbacks.Gentle (callback : Callbacks σ) : Prop where
  stays : ∀ hook plugins r, ∀ h ∈ r.hooks, h.type ≠ .deleted → h.id ≠ hook.id → h ∈ (callback hook plugins r).2.1.hooks
  marks : ∀ hook plugins r, ∀ h ∈ (callback hook plugins r).2.1.hooks, h.type = .deleted → h.id ≠ hook.id → h ∈ r.hooks

/-- No hook of a list is marked for removal. -/
def Unmarked (list : List Hook) : Prop := ∀ hook ∈ list, hook.type ≠ .deleted

/-- The saved node is still there, and no node behind it is marked; without new hooks, there are no more of them. -/
theorem Walk.next {callback : Callbacks σ} {hook : Hook} {rest : List Hook}
    (h : Walk type name r₀ r (hook :: rest) called) (hgentle : callback.Gentle) (hact : callback.Acting allowed)
    (htype : type &&& 128 = 0) (hanswers : hook.answers type name = true) (hrest : Unmarked rest) (plugins : σ) :
    ∃ todo, todo.head?.map Hook.id = rest.head?.map Hook.id ∧ Unmarked todo ∧
      Walk type name r₀ (callback hook plugins r).2.1 todo (called ++ [hook]) ∧
      ((callback hook plugins r).2.1.nextId = r.nextId → todo.length ≤ rest.length) := by
  have hch := (hact hook plugins r).changes
  cases rest with
  | nil =>
    exact ⟨[], rfl, hrest, h.visit htype hanswers hch (List.append_nil _).symm rfl, fun _ => Nat.le_refl _⟩
  | cons next rest =>
    obtain ⟨passed, hbefore⟩ := h.rest
    have hbefore' : r.hooks = (passed ++ [hook]) ++ next :: rest := by
      rw [hbefore, List.append_assoc]
      rfl
    have hmem : ∀ h ∈ next :: rest, h ∈ r.hooks := fun h hh => by
      rw [hbefore']
      exact List.mem_append_right _ hh
    have hnodup := h.numbered.nodup
    rw [Registry.ids, hbefore', List.map_append, List.nodup_append] at hnodup
    have hother : ∀ id ∈ (next :: rest).map Hook.id, id ≠ hook.id := fun id hin hid =>
      hnodup.2.2 hook.id (by simp) id hin hid.symm
    have hstill := hgentle.stays hook plugins r next (hmem next (by simp)) (hrest next (by simp)) (hother _ (by simp))
    obtain ⟨front, back, hsplit⟩ := List.append_of_mem hstill
    have hnum := hch.numbered h.numbered
    have hback := (hch.around h.numbered hbefore' hsplit rfl).2
    refine ⟨next :: back, rfl, ?_, h.visit htype hanswers hch hsplit rfl, ?_⟩
    · -- a marked node would have been one of those behind the saved one
      intro node hnode hmarked
      have hin : node ∈ (callback hook plugins r).2.1.hooks := by
        rw [hsplit]
        exact List.mem_append_right _ hnode
      by_cases hold : node.id < r.nextId
      · have hid : node.id ∈ (next :: rest).map Hook.id := hback.subset (mem_older.2 ⟨List.mem_map_of_mem hnode, hold⟩)
        have hthere := hgentle.marks hook plugins r node hin hmarked (hother _ hid)
        obtain ⟨same, hsame, hids⟩ := List.mem_map.1 hid
        have heq := List.inj_on_of_nodup_map h.numbered.nodup (hmem same hsame) hthere hids
        exact hrest same hsame (heq ▸ hmarked)
      · have hown : hook.id < r.nextId := h.numbered.below _ (List.mem_map_of_mem (by rw [hbefore]; simp))
        have hthere := hgentle.marks hook plugins r node hin hmarked (by omega)
        exact hold (h.numbered.below _ (List.mem_map_of_mem hthere))
    · intro hsame
      have hlater : older r.nextId ((next :: back).map Hook.id) = (next :: back).map Hook.id := by
        refine older_eq_self fun id hin => ?_
        rw [← hsame]
        refine hnum.below id ?_
        rw [Registry.ids, hsplit, List.map_append]
        exact List.mem_append_right _ hin
      rw [hlater] at hback
      simpa using hback.length_le

theorem done_ne_dangling {eat stopped : Bool} {plugins : σ} {called called' : List Hook} :
    Outcome.done eat stopped plugins r called ≠ .dangling called' := by
  intro h
  cases h

theorem running_ne_dangling : (Outcome.running : Outcome σ) ≠ .dangling called := by
  intro h
  cases h

/-- What a run of such callbacks comes to. -/
theorem hookLoop_safe {callback : Callbacks σ} (hact : callback.Acting allowed) (hgentle : callback.Gentle)
    (htype : type &&& 128 = 0) (fuel : Nat) :
    ∀ {todo called : List Hook} {r : Registry}, Walk type name r₀ r todo called → Unmarked todo →
      ∀ (plugins : σ) (eat : Bool),
        (∀ called', hookLoop callback type name fuel (todo.head?.map Hook.id) plugins r eat called ≠
          .dangling called') ∧
        ((∀ hook plugins r, (callback hook plugins r).2.1.nextId = r.nextId) → todo.length ≤ fuel →
          ∃ eat' stopped plugins' r' called',
            hookLoop callback type name fuel (todo.head?.map Hook.id) plugins r eat called =
              .done eat' stopped plugins' r' called') := by
  induction fuel with
  | zero =>
    intro todo called r h hlive plugins eat
    cases todo with
    | nil => exact ⟨fun _ => done_ne_dangling, fun _ _ => ⟨_, _, _, _, _, rfl⟩⟩
    | cons node nodes => exact ⟨fun _ => running_ne_dangling, fun _ hlen => absurd hlen (Nat.not_succ_le_zero _)⟩
  | succ fuel ih =>
    intro todo called r h hlive plugins eat
    cases todo with
    | nil => exact ⟨fun _ => done_ne_dangling, fun _ _ => ⟨_, _, _, _, _, rfl⟩⟩
    | cons node nodes =>
      obtain ⟨passed, hpassed⟩ := h.rest
      have hfound := dropWhile_node h.numbered hpassed
      obtain ⟨skipped, hsplit, hskip⟩ := pluginHookFind_split type name (node :: nodes)
      rw [hsplit] at h
      have hwalk := h.skip hskip
      have hlong := congrArg List.length hsplit
      rw [List.length_append] at hlong
      have hbehind : Unmarked (pluginHookFind type name (node :: nodes)) := fun hook hin =>
        hlive hook (hsplit ▸ List.mem_append_right _ hin)
      rw [List.head?_cons, Option.map_some, hookLoop, hfound]
      dsimp only
      cases hfind : pluginHookFind type name (node :: nodes) with
      | nil => exact ⟨fun _ => done_ne_dangling, fun _ _ => ⟨_, _, _, _, _, rfl⟩⟩
      | cons hook rest =>
        rw [hfind] at hwalk hlong hbehind
        have hanswers := answers_pluginHookFind hfind
        dsimp only
        split_ifs
        · exact ⟨fun _ => done_ne_dangling, fun _ _ => ⟨_, _, _, _, _, rfl⟩⟩
        · exact ⟨fun _ => done_ne_dangling, fun _ _ => ⟨_, _, _, _, _, rfl⟩⟩
        · have hrest : Unmarked rest := fun hook hin => hbehind hook (List.mem_cons_of_mem _ hin)
          obtain ⟨todo, hnext, htodo, hready, hshort⟩ := hwalk.next hgentle hact htype hanswers hrest plugins
          rw [← hnext]
          obtain ⟨hsafe, hends⟩ := ih hready htodo (callback hook plugins r).1
            (eat || (callback hook plugins r).2.2 &&& EAT_POXCHAT ≠ 0)
          refine ⟨hsafe, fun hnone hlen => hends hnone ?_⟩
          have hless := hshort (hnone hook plugins r)
          simp only [List.length_cons] at hlong hlen
          omega

/-- A callback that raises an event for which nothing is registered. -/
def raising : Callbacks Unit := fun _ plugins r => (plugins, r.expunge, 0)

/-- **The defect**: a hook removed outside a run, by a timer, is freed by the event that the callback in front of it
raises, and the run follows it. -/
example :
    let r := (({} : Registry).pluginAddHook .command 0 (bytes "b")).pluginAddHook .command 0 (bytes "a")
    hookRun raising emitCommand (bytes "a") 9 () (r.poxchatUnhook 0) =
      .dangling [{ id := 1, type := .command, pri := 0, name := bytes "a" }] := rfl

/-- Callbacks that each remove their own hook. -/
def oneShot : Callbacks Unit := fun hook plugins r => (plugins, r.poxchatUnhook hook.id, 0)

theorem oneShot_acting : oneShot.Acting fun _ => True :=
  fun hook _ r => Relation.ReflTransGen.single (Api.unhook r hook.id)

theorem oneShot_gentle : oneShot.Gentle := by
  constructor
  · intro hook _ r h hmem _ hother
    exact List.mem_map.2 ⟨h, hmem, if_neg hother⟩
  · intro hook _ r h hmem _ hother
    obtain ⟨old, hold, rfl⟩ := List.mem_map.1 hmem
    split_ifs at hother ⊢ with hown
    · exact absurd hown hother
    · exact hold

/-- Two hooks of a command. -/
def twoCommands : Registry :=
  (({} : Registry).pluginAddHook .command 0 (bytes "a")).pluginAddHook .command 5 (bytes "a")

theorem twoCommands_acts : Acts (fun _ => True) {} twoCommands := by
  have hhook : ∀ (r : Registry) (pri : Int), Api (fun _ => True) r (r.pluginAddHook .command pri (bytes "a")) := by
    intro r pri
    refine Api.hook r ?_ ?_ pri (bytes "a")
    · trivial
    · decide
  exact (Relation.ReflTransGen.single (hhook _ 0)).tail (hhook _ 5)

end PoxChat.Plugins
