import Mathlib.Data.List.Nodup
import Mathlib.Logic.Relation
import PoxChat.Lib.Walk
import PoxChat.Outbound.SendQueue

/-!
# Plugin hooks

The hook list of `plugin.c`, which plugins change at any time.

* `Registry` — `hook_list`; a hook is named by a number, which stands for its address and is not used twice.
* `Api` — one thing that plugin code can do to the list; `Acts` — any number of them, whole events included.
* `Changes` — what lies between two registries.

Principal result: `hooks_by_priority` — commands and print events are called by priority, in every run.
-/

set_option autoImplicit false

namespace PoxChat.Plugins

open Lib Outbound
open scoped List

/-! ## Hooks -/

/-- `HOOK_*`. -/
inductive HookType where
  | command
  | server
  | serverAttrs
  | print
  | printAttrs
  | timer
  | fd
  | deleted
  deriving DecidableEq

/-- The flag of a type. -/
def HookType.flag : HookType → UInt8
  | .command => 1
  | .server => 2
  | .serverAttrs => 4
  | .print => 8
  | .printAttrs => 16
  | .timer => 32
  | .fd => 64
  | .deleted => 128

structure Hook where
  id : Nat
  type : HookType
  /-- The priority; of an fd hook, the descriptor. -/
  pri : Int
  name : Bytes
  deriving DecidableEq

structure Registry where
  hooks : List Hook := []
  nextId : Nat := 0

def Registry.ids (r : Registry) : List Nat := r.hooks.map Hook.id

/-- The types that a new hook is compared with. -/
def newHookType : HookType → UInt8
  | .print | .printAttrs => HookType.print.flag ||| HookType.printAttrs.flag
  | .server | .serverAttrs => HookType.server.flag ||| HookType.printAttrs.flag
  | type => type.flag

/-- `plugin_insert_hook`. -/
def pluginInsertHook (newHook : Hook) : List Hook → List Hook
  | [] => [newHook]
  | hook :: list =>
    if hook.type.flag &&& newHookType newHook.type ≠ 0 ∧ hook.pri ≤ newHook.pri then newHook :: hook :: list
    else hook :: pluginInsertHook newHook list

/-- `plugin_add_hook`. -/
def Registry.pluginAddHook (r : Registry) (type : HookType) (pri : Int) (name : Bytes) : Registry :=
  { hooks := pluginInsertHook ⟨r.nextId, type, pri, name⟩ r.hooks, nextId := r.nextId + 1 }

/-- `poxchat_hook_fd`, which keeps the descriptor as the priority of the hook it has put in its place. -/
def Registry.poxchatHookFd (r : Registry) (fd : Int) : Registry :=
  let added := r.pluginAddHook .fd 0 []
  { added with hooks := added.hooks.map fun hook => if hook.id = r.nextId then { hook with pri := fd } else hook }

/-- `poxchat_unhook`: the hook stays in the list until a run has ended. -/
def Registry.poxchatUnhook (r : Registry) (id : Nat) : Registry :=
  { r with hooks := r.hooks.map fun hook => if hook.id = id then { hook with type := .deleted } else hook }

/-- The end of `plugin_hook_run`. -/
def Registry.expunge (r : Registry) : Registry := { r with hooks := r.hooks.filter (·.type ≠ .deleted) }

/-! ## What plugins do -/

/-- One call of a plugin that registers hooks of these types, and the end of a run within it. -/
inductive Api (allowed : HookType → Prop) : Registry → Registry → Prop
  | hook (r : Registry) {type : HookType} (h : allowed type) (hlive : type ≠ .deleted) (pri : Int) (name : Bytes) :
      Api allowed r (r.pluginAddHook type pri name)
  | hookFd (r : Registry) (fd : Int) : Api allowed r (r.poxchatHookFd fd)
  | unhook (r : Registry) (id : Nat) : Api allowed r (r.poxchatUnhook id)
  | emitted (r : Registry) : Api allowed r r.expunge

/-- Whatever plugins do. -/
def Acts (allowed : HookType → Prop) : Registry → Registry → Prop := Relation.ReflTransGen (Api allowed)

/-! ## What their acts leave -/

/-- Numbers are used once. -/
structure Numbered (r : Registry) : Prop where
  below : ∀ id ∈ r.ids, id < r.nextId
  nodup : r.ids.Nodup

/-- Between two registries, hooks come and go: those that were there and still are stand in the same order, and no hook
that is alive has changed. -/
structure Changes (r r' : Registry) : Prop where
  next : r.nextId ≤ r'.nextId
  order : Drifts r.nextId r.ids r'.ids
  alive : ∀ hook ∈ r'.hooks, hook.id < r.nextId → hook.type ≠ .deleted → hook ∈ r.hooks
  numbered : Numbered r → Numbered r'

variable {allowed : HookType → Prop} {r r' : Registry}

theorem Changes.refl (r : Registry) : Changes r r :=
  ⟨Nat.le_refl _, Drifts.refl _ _, fun _ hhook _ _ => hhook, id⟩

theorem Changes.trans {r'' : Registry} (h₁ : Changes r r') (h₂ : Changes r' r'') : Changes r r'' := by
  refine ⟨h₁.next.trans h₂.next, h₁.order.trans h₂.order h₁.next, ?_, fun hr => h₂.numbered (h₁.numbered hr)⟩
  intro hook hhook hold hlive
  exact h₁.alive hook (h₂.alive hook hhook (Nat.lt_of_lt_of_le hold h₁.next) hlive) hold hlive

/-- The place of a new hook: behind those of its types whose priority is higher, in front of one whose is not. -/
theorem pluginInsertHook_split (hook : Hook) (list : List Hook) :
    ∃ front back, list = front ++ back ∧ pluginInsertHook hook list = front ++ hook :: back ∧
      (∀ h ∈ front, h.type.flag &&& newHookType hook.type ≠ 0 → hook.pri < h.pri) ∧
      ∀ h, back.head? = some h → h.type.flag &&& newHookType hook.type ≠ 0 ∧ h.pri ≤ hook.pri := by
  induction list with
  | nil => exact ⟨[], [], rfl, rfl, fun h hmem => absurd hmem List.not_mem_nil, fun h hhead => by cases hhead⟩
  | cons node list ih =>
    unfold pluginInsertHook
    split_ifs with hplace
    · refine ⟨[], node :: list, rfl, rfl, fun h hmem => absurd hmem List.not_mem_nil, fun h hhead => ?_⟩
      rw [← Option.some.inj hhead]
      exact hplace
    · obtain ⟨front, back, hsplit, hinsert, hfront, hback⟩ := ih
      refine ⟨node :: front, back, by rw [hsplit]; rfl, by rw [hinsert]; rfl, ?_, hback⟩
      intro h hmem hmask
      rcases List.mem_cons.1 hmem with rfl | hmem
      · exact Int.not_le.1 fun hle => hplace ⟨hmask, hle⟩
      · exact hfront h hmem hmask

/-- A hook more, with the next number. -/
theorem Changes.insert {front back : List Hook} {hook : Hook} (hr : r.hooks = front ++ back)
    (hr' : r'.hooks = front ++ hook :: back) (hid : hook.id = r.nextId) (hnext : r'.nextId = r.nextId + 1) :
    Changes r r' := by
  have hids : r.ids = front.map Hook.id ++ back.map Hook.id := by rw [Registry.ids, hr, List.map_append]
  have hids' : r'.ids = front.map Hook.id ++ r.nextId :: back.map Hook.id := by
    rw [Registry.ids, hr', List.map_append, List.map_cons, hid]
  refine ⟨by omega, ?_, ?_, ?_⟩
  · have hnew : older r.nextId (r.nextId :: back.map Hook.id) = older r.nextId (back.map Hook.id) :=
      List.filter_cons_of_neg (by simp)
    rw [Drifts, hids', older_append, hnew, ← older_append, ← hids]
    exact Drifts.refl _ _
  · intro h hmem hold _
    rw [hr', List.mem_append, List.mem_cons] at hmem
    rw [hr, List.mem_append]
    rcases hmem with hmem | rfl | hmem
    · exact .inl hmem
    · omega
    · exact .inr hmem
  · intro hnum
    have hbelow := hnum.below
    have hnodup := hnum.nodup
    rw [hids] at hbelow hnodup
    constructor
    · intro id hmem
      rw [hids', List.mem_append, List.mem_cons] at hmem
      rw [hnext]
      rcases hmem with hmem | rfl | hmem
      · exact Nat.lt_succ_of_lt (hbelow id (List.mem_append_left _ hmem))
      · exact Nat.lt_succ_self _
      · exact Nat.lt_succ_of_lt (hbelow id (List.mem_append_right _ hmem))
    · rw [hids', List.nodup_middle, List.nodup_cons]
      exact ⟨fun hmem => Nat.lt_irrefl _ (hbelow _ hmem), hnodup⟩

/-- Hooks that keep their numbers, whatever else becomes of them. -/
theorem Changes.update (h : Changes r r') (f : Hook → Hook) (hid : ∀ hook, (f hook).id = hook.id)
    (halive : ∀ hook, hook.id < r.nextId → (f hook).type ≠ .deleted → f hook = hook) :
    Changes r { r' with hooks := r'.hooks.map f } := by
  have hids : ({ r' with hooks := r'.hooks.map f } : Registry).ids = r'.ids := by
    unfold Registry.ids
    rw [List.map_map]
    exact List.map_congr_left fun hook _ => hid hook
  refine ⟨h.next, ?_, ?_, fun hr => ?_⟩
  · rw [hids]
    exact h.order
  · intro hook hmem hold hlive
    obtain ⟨old, hthere, rfl⟩ := List.mem_map.1 hmem
    rw [hid] at hold
    have hsame := halive old hold hlive
    rw [hsame] at hlive ⊢
    exact h.alive old hthere hold hlive
  · have hr' := h.numbered hr
    exact ⟨fun id hmem => hr'.below id (hids ▸ hmem), hids ▸ hr'.nodup⟩

theorem Changes.expunge (r : Registry) : Changes r r.expunge := by
  have hsub : r.expunge.ids <+ r.ids := List.filter_sublist.map Hook.id
  exact ⟨Nat.le_refl _, List.filter_sublist.trans hsub, fun _ hhook _ _ => (List.mem_filter.1 hhook).1,
    fun hr => ⟨fun id hmem => hr.below id (hsub.subset hmem), hr.nodup.sublist hsub⟩⟩

/-- **One call** of a plugin. -/
theorem Api.changes (h : Api allowed r r') : Changes r r' := by
  cases h with
  | hook _ _ pri name =>
    obtain ⟨front, back, hsplit, hinsert, -⟩ := pluginInsertHook_split ⟨r.nextId, _, pri, name⟩ r.hooks
    exact Changes.insert hsplit hinsert rfl rfl
  | hookFd fd =>
    obtain ⟨front, back, hsplit, hinsert, -⟩ := pluginInsertHook_split ⟨r.nextId, .fd, 0, []⟩ r.hooks
    have hadded : Changes r (r.pluginAddHook .fd 0 []) := Changes.insert hsplit hinsert rfl rfl
    apply hadded.update
    · intro hook
      split_ifs <;> rfl
    · intro hook hold _
      rw [if_neg (by omega)]
  | unhook id =>
    apply (Changes.refl r).update
    · intro hook
      split_ifs <;> rfl
    · intro hook _ hlive
      split_ifs at hlive ⊢
      · exact absurd rfl hlive
      · rfl
  | emitted => exact Changes.expunge r

theorem Acts.changes (h : Acts allowed r r') : Changes r r' := by
  induction h with
  | refl => exact Changes.refl r
  | tail _ hstep ih => exact ih.trans hstep.changes

theorem Acts.numbered (h : Acts allowed {} r) : Numbered r :=
  h.changes.numbered ⟨by simp [Registry.ids], List.nodup_nil⟩

/-! ## Priorities -/

/-- The hooks of these types. -/
def members (group : HookType → Bool) (list : List Hook) : List Hook := list.filter fun hook => group hook.type

/-- They stand by priority, and the newest first among equals. -/
def ByPriority (group : HookType → Bool) (list : List Hook) : Prop :=
  (members group list).Pairwise fun a b => b.pri < a.pri ∨ (b.pri = a.pri ∧ b.id < a.id)

variable {group : HookType → Bool}

theorem mem_members {hook : Hook} {list : List Hook} :
    hook ∈ members group list ↔ hook ∈ list ∧ group hook.type = true := List.mem_filter

theorem members_append (front back : List Hook) :
    members group (front ++ back) = members group front ++ members group back := List.filter_append front back

theorem members_cons_pos {hook : Hook} (h : group hook.type = true) (list : List Hook) :
    members group (hook :: list) = hook :: members group list := by simp [members, h]

theorem members_cons_neg {hook : Hook} (h : ¬ group hook.type = true) (list : List Hook) :
    members group (hook :: list) = members group list := by simp [members, h]

/-- A hook of the group goes to its place in it. -/
theorem pluginInsertHook_sorted {hook : Hook} {list : List Hook} (hnew : ∀ h ∈ list, h.id < hook.id)
    (hgroup : group hook.type = true)
    (hmask : ∀ h ∈ list, h.type.flag &&& newHookType hook.type ≠ 0 ↔ group h.type = true)
    (h : ByPriority group list) : ByPriority group (pluginInsertHook hook list) := by
  obtain ⟨front, back, hsplit, hinsert, hfront, hback⟩ := pluginInsertHook_split hook list
  rw [ByPriority, hinsert, members_append, members_cons_pos hgroup]
  rw [hsplit] at hnew hmask
  rw [ByPriority, hsplit, members_append, List.pairwise_append] at h
  obtain ⟨hsorted, hsorted', hacross⟩ := h
  have hbehind : ∀ b ∈ members group back, b.pri < hook.pri ∨ (b.pri = hook.pri ∧ b.id < hook.id) := by
    intro b hb
    have hid := hnew b (List.mem_append_right _ (mem_members.1 hb).1)
    cases back with
    | nil => cases hb
    | cons first back =>
      obtain ⟨hfirst, hle⟩ := hback first rfl
      rw [hmask first (by simp)] at hfirst
      rw [members_cons_pos hfirst] at hb hsorted'
      rcases List.mem_cons.1 hb with rfl | hb
      · omega
      · have hlower := (List.pairwise_cons.1 hsorted').1 b hb
        omega
  rw [List.pairwise_append, List.pairwise_cons]
  refine ⟨hsorted, ⟨hbehind, hsorted'⟩, ?_⟩
  intro a ha b hb
  rcases List.mem_cons.1 hb with rfl | hb
  · obtain ⟨hmem, hagroup⟩ := mem_members.1 ha
    exact .inl (hfront a hmem ((hmask a (List.mem_append_left _ hmem)).2 hagroup))
  · exact hacross a ha b hb

/-- A hook of another group changes nothing. -/
theorem pluginInsertHook_other {hook : Hook} (hother : group hook.type = false) (list : List Hook) :
    members group (pluginInsertHook hook list) = members group list := by
  obtain ⟨front, back, hsplit, hinsert, -⟩ := pluginInsertHook_split hook list
  rw [hinsert, hsplit, members_append, members_cons_neg (by simp [hother]), ← members_append]

/-- Hooks that stay in the group are the same ones. -/
theorem members_map_sublist (f : Hook → Hook) {list : List Hook}
    (hf : ∀ hook ∈ list, group (f hook).type = true → f hook = hook) :
    members group (list.map f) <+ members group list := by
  induction list with
  | nil => exact List.Sublist.refl _
  | cons hook list ih =>
    have hrest := ih fun h hmem => hf h (List.mem_cons_of_mem _ hmem)
    rw [List.map_cons]
    by_cases hin : group (f hook).type = true
    · have hsame := hf hook List.mem_cons_self hin
      rw [hsame] at hin ⊢
      rw [members_cons_pos hin, members_cons_pos hin]
      exact hrest.cons_cons hook
    · rw [members_cons_neg hin]
      exact hrest.trans (List.Sublist.filter _ (List.sublist_cons_self hook list))

/-- What every run keeps of a group of types. -/
structure Kept (allowed : HookType → Prop) (group : HookType → Bool) (r : Registry) : Prop where
  numbered : Numbered r
  types : ∀ hook ∈ r.hooks, allowed hook.type ∨ hook.type = .fd ∨ hook.type = .deleted
  byPriority : ByPriority group r.hooks

/-- A group whose new hooks are compared with the hooks of the group and no others. -/
structure Compared (allowed : HookType → Prop) (group : HookType → Bool) : Prop where
  fd : group .fd = false
  deleted : group .deleted = false
  mask : ∀ new, allowed new → group new = true → ∀ old, allowed old ∨ old = .fd ∨ old = .deleted →
    (old.flag &&& newHookType new ≠ 0 ↔ group old = true)

theorem Kept.insert (hg : Compared allowed group) (h : Kept allowed group r) {type : HookType}
    (htype : allowed type ∨ type = .fd) (pri : Int) (name : Bytes) :
    Kept allowed group (r.pluginAddHook type pri name) := by
  obtain ⟨front, back, hsplit, hinsert, -⟩ := pluginInsertHook_split ⟨r.nextId, type, pri, name⟩ r.hooks
  refine ⟨(Changes.insert hsplit hinsert rfl rfl).numbered h.numbered, ?_, ?_⟩
  · intro hook hmem
    rw [Registry.pluginAddHook, hinsert, List.mem_append, List.mem_cons] at hmem
    rcases hmem with hmem | rfl | hmem
    · exact h.types hook (hsplit ▸ List.mem_append_left _ hmem)
    · exact htype.imp_right .inl
    · exact h.types hook (hsplit ▸ List.mem_append_right _ hmem)
  · by_cases hin : group type = true
    · have hallowed : allowed type := htype.resolve_right fun hfd => by
        rw [hfd, hg.fd] at hin
        cases hin
      refine pluginInsertHook_sorted ?_ hin ?_ h.byPriority
      · exact fun old hmem => h.numbered.below _ (List.mem_map_of_mem hmem)
      · exact fun old hmem => hg.mask type hallowed hin old.type (h.types old hmem)
    · rw [ByPriority, Registry.pluginAddHook, pluginInsertHook_other (Bool.eq_false_of_not_eq_true hin)]
      exact h.byPriority

theorem Kept.update (h : Kept allowed group r) (f : Hook → Hook) (hid : ∀ hook, (f hook).id = hook.id)
    (htype : ∀ hook ∈ r.hooks, (f hook).type = hook.type ∨ (f hook).type = .deleted)
    (hf : ∀ hook ∈ r.hooks, group (f hook).type = true → f hook = hook) :
    Kept allowed group { r with hooks := r.hooks.map f } := by
  have hids : ({ r with hooks := r.hooks.map f } : Registry).ids = r.ids := by
    unfold Registry.ids
    rw [List.map_map]
    exact List.map_congr_left fun hook _ => hid hook
  refine ⟨⟨fun id hmem => h.numbered.below id (hids ▸ hmem), hids ▸ h.numbered.nodup⟩, ?_, ?_⟩
  · intro hook hmem
    obtain ⟨old, hold, rfl⟩ := List.mem_map.1 hmem
    rcases htype old hold with hsame | hdeleted
    · rw [hsame]
      exact h.types old hold
    · exact .inr (.inr hdeleted)
  · exact h.byPriority.sublist (members_map_sublist f hf)

theorem Kept.expunge (h : Kept allowed group r) : Kept allowed group r.expunge := by
  have hsub : r.expunge.hooks <+ r.hooks := List.filter_sublist
  exact ⟨(Changes.expunge r).numbered h.numbered, fun hook hmem => h.types hook (hsub.subset hmem),
    h.byPriority.sublist (hsub.filter _)⟩

/-- **One call** of a plugin keeps the order of a group. -/
theorem Kept.step (hg : Compared allowed group) (h : Kept allowed group r) (hstep : Api allowed r r') :
    Kept allowed group r' := by
  cases hstep with
  | hook hallowed _ pri name => exact h.insert hg (.inl hallowed) pri name
  | hookFd fd =>
    have hadded : Kept allowed group (r.pluginAddHook .fd 0 []) := h.insert hg (.inr rfl) 0 []
    have hnew : ∀ hook ∈ (r.pluginAddHook .fd 0 []).hooks, hook.id = r.nextId → hook.type = .fd := by
      intro hook hmem hid
      obtain ⟨front, back, hsplit, hinsert, -⟩ := pluginInsertHook_split ⟨r.nextId, .fd, 0, []⟩ r.hooks
      rw [Registry.pluginAddHook, hinsert, List.mem_append, List.mem_cons] at hmem
      have hlt : hook ∈ r.hooks → hook.id < r.nextId := fun hold => h.numbered.below _ (List.mem_map_of_mem hold)
      rw [hsplit, List.mem_append] at hlt
      rcases hmem with hmem | rfl | hmem
      · have hless := hlt (.inl hmem)
        omega
      · rfl
      · have hless := hlt (.inr hmem)
        omega
    apply hadded.update
    · intro hook
      split_ifs <;> rfl
    · intro hook _
      split_ifs <;> exact .inl rfl
    · intro hook hmem hin
      split_ifs at hin ⊢ with hid
      · rw [show ({ hook with pri := fd } : Hook).type = hook.type from rfl, hnew hook hmem hid, hg.fd] at hin
        cases hin
      · rfl
  | unhook id =>
    apply h.update
    · intro hook
      split_ifs <;> rfl
    · intro hook _
      split_ifs
      · exact .inr rfl
      · exact .inl rfl
    · intro hook _ hin
      split_ifs at hin ⊢
      · rw [show ({ hook with type := .deleted } : Hook).type = .deleted from rfl, hg.deleted] at hin
        cases hin
      · rfl
  | emitted => exact h.expunge

theorem Acts.kept (hg : Compared allowed group) (h : Acts allowed {} r) : Kept allowed group r := by
  induction h with
  | refl => exact ⟨⟨by simp [Registry.ids], List.nodup_nil⟩, by simp, List.Pairwise.nil⟩
  | tail _ hstep ih => exact ih.step hg hstep

def isPrint (type : HookType) : Bool := type == .print || type == .printAttrs

/-- **Priorities** in every run: whatever plugins do, the hooks of commands stand by priority, and those of print
events, with and without attributes, do so together; among equals the newest is first. The hooks of server events do if
no plugin registers a print hook with attributes, which a new server hook is compared with in place of the server hooks
with attributes; these last are compared with no hook of their kind. -/
theorem hooks_by_priority (h : Acts allowed {} r) :
    ByPriority (· == .command) r.hooks ∧ ByPriority isPrint r.hooks ∧
      (¬ allowed .printAttrs → ByPriority (· == .server) r.hooks) := by
  refine ⟨(h.kept ⟨rfl, rfl, ?_⟩).byPriority, (h.kept ⟨rfl, rfl, ?_⟩).byPriority, fun hnone =>
    (h.kept ⟨rfl, rfl, ?_⟩).byPriority⟩
  · intro new _ hin old _
    rw [eq_of_beq hin]
    cases old <;> decide
  · intro new _ hin old _
    have hnew : new = .print ∨ new = .printAttrs := by simpa [isPrint] using hin
    rcases hnew with rfl | rfl
    · cases old <;> decide
    · cases old <;> decide
  · intro new _ hin old hold
    rw [eq_of_beq hin]
    have hother : old ≠ .printAttrs := by
      rintro rfl
      rcases hold with hold | hold | hold
      · exact hnone hold
      · cases hold
      · cases hold
    cases old with
    | printAttrs => exact absurd rfl hother
    | _ => decide

/-- A command, and one with a higher priority. -/
theorem hooks_by_priority_two :
    let r := (({} : Registry).pluginAddHook .command 0 (bytes "a")).pluginAddHook .command 5 (bytes "a")
    ByPriority (· == .command) r.hooks ∧ ByPriority isPrint r.hooks ∧
      (¬ HookType.printAttrs = .command → ByPriority (· == .server) r.hooks) := by
  have hhook : ∀ (r : Registry) (pri : Int), Api (· = .command) r (r.pluginAddHook .command pri (bytes "a")) := by
    intro r pri
    refine Api.hook r ?_ ?_ pri (bytes "a")
    · rfl
    · decide
  exact hooks_by_priority ((Relation.ReflTransGen.single (hhook _ 0)).tail (hhook _ 5))

/-- **The slip**: with a print hook with attributes in front, a server hook of priority 7 goes before one of 10. -/
example :
    let r := ((({} : Registry).pluginAddHook .print 0 (bytes "p")).pluginAddHook .server 10 (bytes "s"))
    (((r.pluginAddHook .printAttrs 1 (bytes "p")).pluginAddHook .server 7 (bytes "s")).hooks.map Hook.pri) =
      [7, 1, 0, 10] := rfl

end PoxChat.Plugins
