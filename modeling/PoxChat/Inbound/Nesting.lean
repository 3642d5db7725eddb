import Mathlib.Data.List.Infix
import Mathlib.Data.List.Perm.Subperm
import Mathlib.Data.List.Range
import PoxChat.Inbound.Batches
import PoxChat.Lib.Program

/-!
# Nested batches

Where the PRIVMSG and NOTICE lines of nested batches go, over every sequence of BATCH lines and lines.

* `delivered` — the lines dispatched live, displayed in an assembled multiline message, or handed over with a
  history batch.
* `kept` — these, and the lines that a batch of a collecting type still holds.
* `Keeps` — an event that loses none.

Principal result: `no_line_lost` — once no batch is active, every line was delivered exactly once if and only if
every event kept its lines.
-/

set_option autoImplicit false

namespace PoxChat.Inbound

open Lib ChatHistory

/-! ## Where the lines are -/

def Batch.lines (b : Batch) : List Nat := b.messages.flatMap (·.lines)

/-- The lines a batch will hand on at its end. -/
def Batch.held (b : Batch) : List Nat := if collects b.type then b.lines else []

def Act.lines : Act → List Nat
  | .live msg => msg.lines
  | .display shown => shown.lines
  | .processBatch b => b.lines
  | .processTargetsBatch b => b.lines
  | _ => []

def State.delivered (s : State) : List Nat := s.acts.flatMap Act.lines

def State.kept (s : State) : List Nat := s.delivered ++ s.activeBatches.flatMap Batch.held

/-- The line takes part in an assembled message. -/
def Message.carries (msg : Message) : Bool := msg.isPrivmsg && msg.text?.isSome

/-- The PRIVMSG and NOTICE lines of a batch, and the messages assembled from some. -/
def Batch.chats (b : Batch) : List Message := b.messages.filter fun msg => isChat msg.command

/-- Whether what a multiline batch is assembled to goes anywhere: to a parent that hands its messages on, or
on display. -/
def Placed (s : State) (b : Batch) : Prop :=
  match b.outerBatch.bind s.lookup with
  | some parent => collects parent.type = true ∧ parent.id ≠ b.id
  | none => isEcho s b = false

/-- The end of a multiline batch with lines keeps them if all are PRIVMSGs with a text, there is something to
display and it goes somewhere. -/
def KeepsMultiline (s : State) (b : Batch) : Prop :=
  b.chats = [] ∨ (∀ msg ∈ b.chats, msg.carries = true) ∧ ¬ Silent b ∧ Placed s b

/-- The event loses no line. -/
def Keeps (s : State) : Event → Prop
  | .batchEnd id => s.haveBatch = true → ∀ b ∈ s.lookup id, isMultiline b.type = true → KeepsMultiline s b
  | _ => True

instance (b : Batch) : Decidable (Silent b) := inferInstanceAs (Decidable (_ ∨ _))

instance (s : State) (b : Batch) : Decidable (Placed s b) :=
  match h : b.outerBatch.bind s.lookup with
  | some parent => decidable_of_iff (collects parent.type = true ∧ parent.id ≠ b.id) (by simp [Placed, h])
  | none => decidable_of_iff (isEcho s b = false) (by simp [Placed, h])

instance (s : State) (b : Batch) : Decidable (KeepsMultiline s b) :=
  inferInstanceAs (Decidable (_ ∨ (∀ msg ∈ b.chats, _) ∧ _ ∧ _))

instance (s : State) (e : Event) : Decidable (Keeps s e) :=
  match e with
  | .batchEnd id => inferInstanceAs (Decidable (_ → ∀ b ∈ s.lookup id, _))
  | .batchStart _ _ _ _ => .isTrue trivial
  | .line _ _ _ _ => .isTrue trivial

/-! ## Types -/

theorem persistenceStripNamespace_suffix (fuel : Nat) (name : List Char) :
    persistenceStripNamespace fuel name <:+ name := by
  induction fuel generalizing name with
  | zero => exact List.suffix_refl _
  | succ fuel ih =>
    have hrest : (name.dropWhile (· ≠ '/')).drop 1 <:+ name :=
      (List.drop_suffix _ _).trans (List.dropWhile_suffix _)
    unfold persistenceStripNamespace
    dsimp only
    by_cases h : '/' ∉ name
    · rw [if_pos h]
    · rw [if_neg h]
      split_ifs
      · exact (ih _).trans hrest
      · exact (ih _).trans hrest
      · exact List.suffix_refl _

/-- The name of the restoration batch has a `p` in it, which no type that is collected has. -/
theorem persistence_letter {type : String} (h : persistenceIsBareName type = true) :
    'p' ∈ type.toList.map Char.toLower := by
  have hsuf : (stripNamespace type).toList <:+ type.toList := by
    simpa [stripNamespace] using persistenceStripNamespace_suffix type.length type.toList
  have hstem : ((stripNamespace type).toList.take 11).map Char.toLower = "persistence".toList := by
    unfold persistenceIsBareName persistenceMatch at h
    dsimp only at h
    split_ifs at h with hstem
    · exact hstem
    · cases h
  have hletter : 'p' ∈ ((stripNamespace type).toList.take 11).map Char.toLower := by
    rw [hstem]
    decide
  obtain ⟨c, hc, hlower⟩ := List.mem_map.1 hletter
  exact List.mem_map.2 ⟨c, hsuf.subset (List.mem_of_mem_take hc), hlower⟩

theorem not_persistence_of_caseEq {type name : String} (h : asciiCaseEq type name = true)
    (hname : 'p' ∉ name.toList.map Char.toLower) : persistenceIsBareName type = false := by
  rw [Bool.eq_false_iff]
  intro hp
  have hletter := persistence_letter hp
  rw [beq_iff_eq.1 h] at hletter
  exact hname hletter

theorem collects_chathistory {type : String} (h : asciiCaseEq type "chathistory" = true) : collects type = true := by
  simp [collects, h, not_persistence_of_caseEq h (by decide)]

theorem collects_targets {type : String} (h : asciiCaseEq type "draft/chathistory-targets" = true) :
    collects type = true := by
  simp [collects, h, not_persistence_of_caseEq h (by decide)]

theorem collects_multiline {type : String} (h : isMultiline type = true) : collects type = true := by
  have hp : persistenceIsBareName type = false := by
    rcases Bool.or_eq_true_iff.1 h with h | h
    · exact not_persistence_of_caseEq h (by decide)
    · exact not_persistence_of_caseEq h (by decide)
  simp [collects, hp, h]

/-! ## The list of batches -/

theorem lookup_id {s : State} {id : String} {b : Batch} (h : s.lookup id = some b) : b.id = id := by
  have hfound := List.find?_some h
  simpa using hfound

theorem appendTo_held {bs : List Batch} {id : String} {b : Batch} (msg : Message)
    (h : bs.find? (·.id == id) = some b) :
    ((appendTo id msg bs).flatMap Batch.held).Perm
      (bs.flatMap Batch.held ++ if collects b.type then msg.lines else []) := by
  induction bs with
  | nil => cases h
  | cons b' bs ih =>
    rw [List.find?_cons] at h
    cases hid : b'.id == id with
    | true =>
      rw [hid] at h
      obtain rfl := Option.some.inj h
      simp only [appendTo, hid, if_true, List.flatMap_cons, Batch.held, Batch.lines]
      split_ifs
      · simp only [List.flatMap_append, List.flatMap_cons, List.flatMap_nil, List.append_nil, List.append_assoc]
        exact List.perm_append_comm.append_left _
      · simp
    | false =>
      rw [hid] at h
      simp only [appendTo, hid, Bool.false_eq_true, if_false, List.flatMap_cons, List.append_assoc]
      exact (ih h).append_left _

theorem eraseP_held {bs : List Batch} {id : String} {b : Batch} (h : bs.find? (·.id == id) = some b) :
    (bs.flatMap Batch.held).Perm ((bs.eraseP (·.id == id)).flatMap Batch.held ++ b.held) := by
  induction bs with
  | nil => cases h
  | cons b' bs ih =>
    rw [List.find?_cons] at h
    cases hid : b'.id == id with
    | true =>
      rw [hid] at h
      obtain rfl := Option.some.inj h
      simp only [List.eraseP_cons, hid, cond_true, List.flatMap_cons]
      exact List.perm_append_comm
    | false =>
      rw [hid] at h
      simp only [List.eraseP_cons, hid, cond_false, List.flatMap_cons, List.append_assoc]
      exact (ih h).append_left _

theorem find?_appendTo_ne {bs : List Batch} {id other : String} (msg : Message) (hne : other ≠ id) :
    (appendTo other msg bs).find? (·.id == id) = bs.find? (·.id == id) := by
  induction bs with
  | nil => rfl
  | cons b bs ih =>
    cases hother : b.id == other with
    | true =>
      have hid : (b.id == id) = false := by
        rw [beq_iff_eq.1 hother]
        exact beq_eq_false_iff_ne.2 hne
      simp only [appendTo, hother, if_true, List.find?_cons, hid]
    | false => simp only [appendTo, hother, Bool.false_eq_true, if_false, List.find?_cons, ih]

/-- A message that a batch puts into its own list goes with the batch. -/
theorem eraseP_appendTo_self {bs : List Batch} {id : String} (msg : Message) :
    (appendTo id msg bs).eraseP (·.id == id) = bs.eraseP (·.id == id) := by
  induction bs with
  | nil => rfl
  | cons b bs ih =>
    cases hid : b.id == id with
    | true => simp only [appendTo, hid, if_true, List.eraseP_cons, cond_true]
    | false => simp only [appendTo, hid, Bool.false_eq_true, if_false, List.eraseP_cons, cond_false, ih]

/-! ## Assembled lines -/

theorem foldl_combineLine_lines (messages : List Message) (c : Combined) :
    (messages.foldl combineLine c).lines = c.lines ++ (messages.filter Message.carries).flatMap (·.lines) := by
  induction messages generalizing c with
  | nil => simp
  | cons msg messages ih =>
    rw [List.foldl_cons, ih]
    by_cases hp : msg.isPrivmsg
    · cases ht : msg.text? with
      | none => simp [combineLine, hp, ht, Message.carries]
      | some text => simp [combineLine, hp, ht, Message.carries]
    · simp [combineLine, hp, Message.carries]

/-- The lines that an assembled message is made of. -/
def Batch.carried (b : Batch) : List Nat := (b.messages.filter Message.carries).flatMap (·.lines)

/-- The lines that it leaves out. -/
def Batch.dropped (b : Batch) : List Nat := (b.messages.filter fun msg => !msg.carries).flatMap (·.lines)

theorem combine_lines (b : Batch) : (combine b.messages).lines = b.carried :=
  foldl_combineLine_lines b.messages {}

theorem lines_perm (b : Batch) : (b.carried ++ b.dropped).Perm b.lines := by
  unfold Batch.carried Batch.dropped Batch.lines
  rw [← List.flatMap_append]
  exact (List.filter_append_perm _ _).flatMap_right _

theorem collapsed_spec {b : Batch} : (Silent b ∧ collapsed b = none) ∨
    ∃ msg, ¬ Silent b ∧ collapsed b = some msg ∧ msg.command = "PRIVMSG" ∧ msg.lines = b.carried := by
  have htext := combine_text_eq_empty_iff b
  cases hf : b.messages.find? Message.isPrivmsg with
  | none => exact .inl ⟨silent_of_no_privmsg hf, by simp [collapsed, combine_firstMsg, hf]⟩
  | some first =>
    by_cases hs : Silent b
    · exact .inl ⟨hs, by simp [collapsed, combine_firstMsg, hf, htext.2 hs]⟩
    · have hne : (combine b.messages).text ≠ "" := fun h => hs (htext.1 h)
      refine .inr ⟨_, hs, by simp [collapsed, combine_firstMsg, hf, hne]; rfl, rfl, combine_lines b⟩

theorem processMultilineBatch_spec (win : Windows) (b : Batch) :
    (Silent b ∧ processMultilineBatch win b = none) ∨
      ∃ shown, ¬ Silent b ∧ processMultilineBatch win b = some shown ∧ shown.lines = b.carried := by
  have htext := combine_text_eq_empty_iff b
  cases hf : b.messages.find? Message.isPrivmsg with
  | none => exact .inl ⟨silent_of_no_privmsg hf, by simp [processMultilineBatch, combine_firstMsg, hf]⟩
  | some first =>
    by_cases hs : Silent b
    · exact .inl ⟨hs, by simp [processMultilineBatch, combine_firstMsg, hf, htext.2 hs]⟩
    · have hne : (combine b.messages).text ≠ "" := fun h => hs (htext.1 h)
      refine .inr ⟨_, hs, by simp [processMultilineBatch, combine_firstMsg, hf, hne]; rfl, combine_lines b⟩

/-! ## Numbered lines -/

/-- The messages with lines are the PRIVMSGs and NOTICEs. -/
def Batch.Numbered (b : Batch) : Prop := ∀ msg ∈ b.messages, msg.lines = [] ↔ isChat msg.command = false

def State.Numbered (s : State) : Prop := ∀ b ∈ s.activeBatches, b.Numbered

theorem Batch.Numbered.lines_eq_nil_iff {b : Batch} (h : b.Numbered) : b.lines = [] ↔ b.chats = [] := by
  rw [Batch.lines, Batch.chats, List.flatMap_eq_nil_iff, List.filter_eq_nil_iff]
  exact forall₂_congr fun msg hmsg => (h msg hmsg).trans (by simp)

theorem Batch.Numbered.dropped_eq_nil_iff {b : Batch} (h : b.Numbered) :
    b.dropped = [] ↔ ∀ msg ∈ b.chats, msg.carries = true := by
  rw [Batch.dropped, List.flatMap_eq_nil_iff]
  constructor
  · intro hnil msg hmsg
    obtain ⟨hmem, hchat⟩ := List.mem_filter.1 hmsg
    by_contra hc
    have hlines := (h msg hmem).1 (hnil msg (List.mem_filter.2 ⟨hmem, by simpa using hc⟩))
    rw [hchat] at hlines
    cases hlines
  · intro hall msg hmsg
    obtain ⟨hmem, hc⟩ := List.mem_filter.1 hmsg
    refine (h msg hmem).2 (Bool.eq_false_iff.2 fun hchat => ?_)
    have := hall msg (List.mem_filter.2 ⟨hmem, hchat⟩)
    simp [this] at hc

theorem isChat_of_carries {msg : Message} (h : msg.carries = true) : isChat msg.command = true := by
  simp only [Message.carries, Bool.and_eq_true] at h
  exact Bool.or_eq_true_iff.2 (.inl h.1)

/-- What is not silent is made of lines. -/
theorem Batch.Numbered.carried_ne_nil {b : Batch} (h : b.Numbered) (hs : ¬ Silent b) : b.carried ≠ [] := by
  intro hnil
  refine hs (.inl ?_)
  rw [Batch.carried, List.flatMap_eq_nil_iff] at hnil
  have hnone : ∀ msg ∈ b.messages, msg.carries = false := by
    intro msg hmem
    rw [Bool.eq_false_iff]
    intro hc
    have hlines := (h msg hmem).1 (hnil msg (List.mem_filter.2 ⟨hmem, hc⟩))
    rw [isChat_of_carries hc] at hlines
    cases hlines
  rw [List.map_eq_nil_iff, textLines, List.filterMap_eq_nil_iff]
  intro msg hmsg
  obtain ⟨hmem, hp⟩ := List.mem_filter.1 hmsg
  have hc := hnone msg hmem
  simp only [Message.carries, hp, Bool.true_and, Option.isSome_eq_false_iff, Option.isNone_iff_eq_none] at hc
  rw [hc]
  rfl

/-! ## The end of a batch -/

theorem endLabel_activeBatches (s : State) (b : Batch) : (endLabel s b).activeBatches = s.activeBatches := by
  unfold endLabel
  cases b.label with
  | none => rfl
  | some label =>
    dsimp only
    split_ifs <;> rfl

theorem endLabel_delivered (s : State) (b : Batch) : (endLabel s b).delivered = s.delivered := by
  unfold endLabel
  cases b.label with
  | none => rfl
  | some label =>
    dsimp only
    split_ifs
    · simp [State.delivered, State.act, Act.lines]
    · rfl

theorem delivered_act (s : State) (a : Act) : (s.act a).delivered = s.delivered ++ a.lines := by
  simp [State.delivered, State.act]

/-- The lines that the end of a multiline batch loses. -/
def gone (s : State) (b : Batch) : List Nat :=
  if ¬ Silent b ∧ Placed s b then b.dropped else b.lines

theorem gone_eq_nil_iff {s : State} {b : Batch} (h : b.Numbered) : gone s b = [] ↔ KeepsMultiline s b := by
  unfold gone KeepsMultiline
  by_cases hok : ¬ Silent b ∧ Placed s b
  · rw [if_pos hok, h.dropped_eq_nil_iff, and_iff_left hok]
    refine ⟨.inr, fun hc => hc.elim (fun hnil msg hmsg => ?_) id⟩
    rw [hnil] at hmsg
    cases hmsg
  · rw [if_neg hok, h.lines_eq_nil_iff]
    refine ⟨.inl, fun hc => hc.elim id fun hall => absurd hall.2 hok⟩

/-- The lines after a batch has ended, in terms of what its type has done. -/
def State.keptAfter (t : State) (id : String) : List Nat :=
  t.delivered ++ (t.activeBatches.eraseP (·.id == id)).flatMap Batch.held

/-- Nothing is done with a batch: its lines are gone. -/
theorem keptAfter_of_same {s t : State} {b : Batch} (hb : s.lookup b.id = some b)
    (hdel : t.delivered = s.delivered)
    (herase : t.activeBatches.eraseP (·.id == b.id) = s.activeBatches.eraseP (·.id == b.id)) :
    (t.keptAfter b.id ++ b.held).Perm s.kept := by
  have hheld := eraseP_held hb
  rw [State.keptAfter, hdel, herase, State.kept, List.append_assoc]
  exact hheld.symm.append_left _

/-- The lines of a batch are delivered. -/
theorem keptAfter_of_delivered {s t : State} {b : Batch} {lines rest : List Nat} (hb : s.lookup b.id = some b)
    (hdel : t.delivered = s.delivered ++ lines) (hactive : t.activeBatches = s.activeBatches)
    (hlines : (lines ++ rest).Perm b.held) : (t.keptAfter b.id ++ rest).Perm s.kept := by
  have hheld := eraseP_held hb
  rw [State.keptAfter, hdel, hactive, State.kept]
  refine List.perm_iff_count.2 fun k => ?_
  have h₁ := hheld.count_eq k
  have h₂ := hlines.count_eq k
  simp only [List.count_append] at h₁ h₂ ⊢
  omega

theorem endMultiline_kept (win : Windows) {s : State} {b : Batch} (hb : s.lookup b.id = some b)
    (hml : isMultiline b.type = true) :
    ((endMultiline win s b).keptAfter b.id ++ gone s b).Perm s.kept := by
  have hheld : b.held = b.lines := by simp [Batch.held, collects_multiline hml]
  have hsame : ∀ t : State, t.delivered = s.delivered → t.activeBatches.eraseP (·.id == b.id) =
      s.activeBatches.eraseP (·.id == b.id) → (t.keptAfter b.id ++ b.lines).Perm s.kept := by
    intro t hdel herase
    rw [← hheld]
    exact keptAfter_of_same hb hdel herase
  unfold endMultiline
  cases hout : b.outerBatch.bind s.lookup with
  | none =>
    have hplaced : Placed s b ↔ isEcho s b = false := by simp [Placed, hout]
    by_cases hecho : isEcho s b
    · have hgone : gone s b = b.lines := by simp [gone, hplaced, hecho]
      simp only [hecho, if_true, hgone]
      exact hsame s rfl rfl
    simp only [hecho, Bool.false_eq_true, if_false]
    rcases processMultilineBatch_spec win b with ⟨hs, hnone⟩ | ⟨shown, hs, hsome, hlines⟩
    · have hgone : gone s b = b.lines := by simp [gone, hs]
      simp only [hnone, hgone]
      exact hsame s rfl rfl
    · have hgone : gone s b = b.dropped := by simp [gone, hs, hplaced, hecho]
      simp only [hsome, hgone]
      refine keptAfter_of_delivered hb (delivered_act s _) rfl ?_
      rw [hheld, Act.lines, hlines]
      exact lines_perm b
  | some parent =>
    have hplaced : Placed s b ↔ collects parent.type = true ∧ parent.id ≠ b.id := by simp [Placed, hout]
    rcases collapsed_spec (b := b) with ⟨hs, hnone⟩ | ⟨msg, hs, hsome, -, hlines⟩
    · have hgone : gone s b = b.lines := by simp [gone, hs]
      simp only [hnone, hgone]
      exact hsame s rfl rfl
    simp only [hsome]
    by_cases hid : parent.id = b.id
    · have hgone : gone s b = b.lines := by simp [gone, hplaced, hid]
      rw [hgone, hid]
      exact hsame _ rfl (eraseP_appendTo_self msg)
    have hparent : s.activeBatches.find? (·.id == parent.id) = some parent := by
      obtain ⟨outer, -, hlook⟩ := Option.bind_eq_some_iff.1 hout
      rw [lookup_id hlook]
      exact hlook
    have happ := appendTo_held msg hparent
    have hstill : (appendTo parent.id msg s.activeBatches).find? (·.id == b.id) = some b := by
      rw [find?_appendTo_ne msg hid]
      exact hb
    have herase := eraseP_held hstill
    refine List.perm_iff_count.2 fun k => ?_
    have h₁ := happ.count_eq k
    have h₂ := herase.count_eq k
    have h₃ := (lines_perm b).count_eq k
    rw [hheld] at h₂
    simp only [State.keptAfter, State.kept, List.count_append] at h₁ h₂ h₃ ⊢
    by_cases hc : collects parent.type
    · have hgone : gone s b = b.dropped := by simp [gone, hs, hplaced, hc, hid]
      simp only [hc, if_true, hlines, hgone] at h₁ ⊢
      have hdel : ({ s with activeBatches := appendTo parent.id msg s.activeBatches } : State).delivered =
        s.delivered := rfl
      rw [hdel]
      omega
    · have hgone : gone s b = b.lines := by simp [gone, hplaced, hc]
      simp only [hc, Bool.false_eq_true, if_false, List.count_nil, hgone] at h₁ ⊢
      have hdel : ({ s with activeBatches := appendTo parent.id msg s.activeBatches } : State).delivered =
        s.delivered := rfl
      rw [hdel]
      omega

theorem endType_kept (win : Windows) {s : State} {b : Batch} (hb : s.lookup b.id = some b) (hnum : b.Numbered) :
    ∃ lost, ((endType win s b).keptAfter b.id ++ lost).Perm s.kept ∧
      (lost = [] ↔ (isMultiline b.type = true → KeepsMultiline s b)) := by
  have hdone : ∀ a : Act, a.lines = b.lines → collects b.type = true →
      ((s.act a).keptAfter b.id ++ []).Perm s.kept := by
    intro a ha hc
    refine keptAfter_of_delivered hb (delivered_act s a) rfl ?_
    simp [ha, Batch.held, hc]
  have hnone : collects b.type = false → ∀ t : State, t.delivered = s.delivered →
      t.activeBatches = s.activeBatches → (t.keptAfter b.id ++ []).Perm s.kept := by
    intro hc t hdel hactive
    have hheld : b.held = [] := by simp [Batch.held, hc]
    rw [← hheld]
    exact keptAfter_of_same hb hdel (by rw [hactive])
  unfold endType
  by_cases hch : asciiCaseEq b.type "chathistory"
  · have hml : isMultiline b.type = false := by
      rw [asciiCaseEq, beq_iff_eq] at hch
      simp only [isMultiline, asciiCaseEq, hch]
      decide
    rw [if_pos hch]
    exact ⟨[], hdone _ rfl (collects_chathistory hch), by simp [hml]⟩
  rw [if_neg hch]
  by_cases htg : asciiCaseEq b.type "draft/chathistory-targets"
  · have hml : isMultiline b.type = false := by
      rw [asciiCaseEq, beq_iff_eq] at htg
      simp only [isMultiline, asciiCaseEq, htg]
      decide
    rw [if_pos htg]
    exact ⟨[], hdone _ rfl (collects_targets htg), by simp [hml]⟩
  rw [if_neg htg]
  by_cases hml : isMultiline b.type
  · rw [if_pos hml]
    exact ⟨gone s b, endMultiline_kept win hb hml, by simp [hml, gone_eq_nil_iff hnum]⟩
  have hc : collects b.type = false := by simp [collects, hch, htg, hml]
  refine ⟨[], ?_, by simp [hml]⟩
  rw [if_neg hml]
  split_ifs
  · exact hnone hc s rfl rfl
  · exact hnone hc _ (by simp [delivered_act, Act.lines]) rfl
  · exact hnone hc s rfl rfl

theorem inboundBatchEnd_kept (win : Windows) {s : State} (hnum : s.Numbered) (id : String) :
    ∃ lost, ((inboundBatchEnd win s id).kept ++ lost).Perm s.kept ∧ (lost = [] ↔ Keeps s (.batchEnd id)) := by
  unfold inboundBatchEnd
  by_cases hh : s.haveBatch = false
  · rw [if_pos hh]
    exact ⟨[], by simp, by simp [Keeps, hh]⟩
  rw [if_neg hh]
  cases hb : s.lookup id with
  | none => exact ⟨[], by simp, by simp [Keeps, hb]⟩
  | some b =>
    obtain rfl := lookup_id hb
    obtain ⟨lost, hperm, hlost⟩ := endType_kept win hb (hnum b (List.mem_of_find?_eq_some hb))
    refine ⟨lost, ?_, hlost.trans (by simp [Keeps, hb, hh])⟩
    have hkept : ({ endLabel (endType win s b) b with
        activeBatches := (endLabel (endType win s b) b).activeBatches.eraseP (·.id == b.id) } : State).kept =
          (endType win s b).keptAfter b.id := by
      rw [State.keptAfter, ← endLabel_delivered (endType win s b) b, ← endLabel_activeBatches (endType win s b) b]
      rfl
    rw [hkept]
    exact hperm

/-! ## The other events -/

theorem inboundBatchStart_kept (s : State) (id type : String) (words : List String) (tags : Tags) :
    (inboundBatchStart s id type words tags).kept = s.kept := by
  have hheld : (batchInfoNew id type words tags).held = [] := by
    simp [Batch.held, Batch.lines, batchInfoNew]
  unfold inboundBatchStart
  split_ifs
  · rfl
  · rfl
  · simp [State.kept, State.delivered, State.act, Act.lines, hheld]
  · simp [State.kept, State.delivered, hheld]

theorem inboundBatchAddMessage_kept (win : Windows) (s : State) (batchId : Option String) {msg : Message}
    (hnum : msg.lines = [] ↔ isChat msg.command = false) :
    ((inboundBatchAddMessage win s batchId msg).kept).Perm (s.kept ++ msg.lines) := by
  have hlive : ((s.act (.live msg)).kept).Perm (s.kept ++ msg.lines) := by
    refine List.perm_iff_count.2 fun k => ?_
    simp only [State.kept, delivered_act, Act.lines, List.count_append]
    have hactive : (s.act (.live msg)).activeBatches = s.activeBatches := rfl
    rw [hactive]
    omega
  unfold inboundBatchAddMessage
  by_cases hh : s.haveBatch = false
  · rw [if_pos hh]
    exact hlive
  rw [if_neg hh]
  cases hb : batchId.bind s.lookup with
  | none => exact hlive
  | some b =>
    obtain ⟨id, -, hlook⟩ := Option.bind_eq_some_iff.1 hb
    obtain rfl := lookup_id hlook
    dsimp only
    by_cases hp : persistenceIsBareName b.type
    · rw [if_pos hp]
      by_cases he : isAttachEcho win msg
      · rw [if_pos he]
        have hchat : isChat msg.command = false := by
          simp only [isAttachEcho, Bool.and_eq_true] at he
          have hjoin := he.1.1
          rw [asciiCaseEq, beq_iff_eq] at hjoin
          simp only [isChat, asciiCaseEq, hjoin]
          decide
        rw [hnum.2 hchat, List.append_nil]
        have hkept : (s.act (.attachEcho msg)).kept = s.kept := by
          simp [State.kept, State.delivered, State.act, Act.lines]
        rw [hkept]
      · rw [if_neg he]
        exact hlive
    rw [if_neg hp]
    by_cases hc : collects b.type
    · rw [if_pos hc]
      have happ := appendTo_held msg hlook
      rw [if_pos hc] at happ
      simp only [State.kept, List.append_assoc]
      exact happ.append_left _
    · rw [if_neg hc]
      exact hlive

/-! ## Runs -/

theorem appendTo_numbered {bs : List Batch} {id : String} {msg : Message} (h : ∀ b ∈ bs, b.Numbered)
    (hmsg : msg.lines = [] ↔ isChat msg.command = false) : ∀ b ∈ appendTo id msg bs, b.Numbered := by
  induction bs with
  | nil => exact h
  | cons b' bs ih =>
    have hrest := ih fun b hb => h b (List.mem_cons_of_mem _ hb)
    have hhead := h b' List.mem_cons_self
    intro b hb
    rw [appendTo] at hb
    split_ifs at hb with hid
    · rcases List.mem_cons.1 hb with rfl | hb
      · intro msg' hmem
        rcases List.mem_append.1 hmem with hmem | hmem
        · exact hhead msg' hmem
        · rw [List.mem_singleton.1 hmem]
          exact hmsg
      · exact h b (List.mem_cons_of_mem _ hb)
    · rcases List.mem_cons.1 hb with rfl | hb
      · exact hhead
      · exact hrest b hb

theorem endMultiline_numbered (win : Windows) {s : State} {b : Batch} (h : s.Numbered) (hb : b.Numbered) :
    (endMultiline win s b).Numbered := by
  unfold endMultiline
  split
  · rcases collapsed_spec (b := b) with ⟨-, hnone⟩ | ⟨msg, hs, hsome, hcmd, hlines⟩
    · rw [hnone]
      exact h
    · rw [hsome]
      refine appendTo_numbered h ?_
      rw [hlines, hcmd]
      exact iff_of_false (hb.carried_ne_nil hs) (by decide)
  · split_ifs
    · exact h
    · split <;> exact h

theorem inboundBatchEnd_numbered (win : Windows) {s : State} (h : s.Numbered) (id : String) :
    (inboundBatchEnd win s id).Numbered := by
  unfold inboundBatchEnd
  split_ifs
  · exact h
  cases hb : s.lookup id with
  | none => exact h
  | some b =>
    have htype : (endType win s b).Numbered := by
      unfold endType
      split_ifs
      · exact h
      · exact h
      · exact endMultiline_numbered win h (h b (List.mem_of_find?_eq_some hb))
      · exact h
      · exact h
      · exact h
    intro b' hb'
    have hmem := List.mem_of_mem_eraseP hb'
    rw [endLabel_activeBatches] at hmem
    exact htype b' hmem

/-- A line is dispatched, or joins the list of a batch. -/
theorem inboundBatchAddMessage_cases (win : Windows) (s : State) (batchId : Option String) (msg : Message) :
    (∃ a, inboundBatchAddMessage win s batchId msg = s.act a) ∨
      ∃ id, inboundBatchAddMessage win s batchId msg =
        { s with activeBatches := appendTo id msg s.activeBatches } := by
  unfold inboundBatchAddMessage
  by_cases hh : s.haveBatch = false
  · exact .inl ⟨_, if_pos hh⟩
  rw [if_neg hh]
  cases batchId.bind s.lookup with
  | none => exact .inl ⟨_, rfl⟩
  | some b =>
    dsimp only
    by_cases hp : persistenceIsBareName b.type
    · rw [if_pos hp]
      split_ifs
      · exact .inl ⟨_, rfl⟩
      · exact .inl ⟨_, rfl⟩
    · rw [if_neg hp]
      split_ifs
      · exact .inr ⟨_, rfl⟩
      · exact .inl ⟨_, rfl⟩

theorem inboundBatchAddMessage_numbered (win : Windows) {s : State} (batchId : Option String) {msg : Message}
    (h : s.Numbered) (hmsg : msg.lines = [] ↔ isChat msg.command = false) :
    (inboundBatchAddMessage win s batchId msg).Numbered := by
  rcases inboundBatchAddMessage_cases win s batchId msg with ⟨a, ha⟩ | ⟨id, hid⟩
  · rw [ha]
    exact h
  · rw [hid]
    exact appendTo_numbered h hmsg

theorem inboundBatchStart_numbered {s : State} (h : s.Numbered) (id type : String) (words : List String)
    (tags : Tags) : (inboundBatchStart s id type words tags).Numbered := by
  have hmore : ∀ b ∈ s.activeBatches ++ [batchInfoNew id type words tags], b.Numbered := by
    intro b hb
    rcases List.mem_append.1 hb with hb | hb
    · exact h b hb
    · rw [List.mem_singleton.1 hb]
      intro msg hmsg
      simp [batchInfoNew] at hmsg
  unfold inboundBatchStart
  split_ifs
  · exact h
  · exact h
  · exact hmore
  · exact hmore

theorem step_numbered (win : Windows) {s : State} (h : s.Numbered) (e : Event) : (step win s e).Numbered := by
  cases e with
  | batchStart id type words tags => exact inboundBatchStart_numbered h id type words tags
  | batchEnd id => exact inboundBatchEnd_numbered win h id
  | line pfx command words tags =>
    unfold step
    dsimp only
    split_ifs with hc
    · exact inboundBatchAddMessage_numbered win _ h (by simp [messageOf, hc])
    · exact inboundBatchAddMessage_numbered win _ h (by simpa [messageOf] using hc)

/-- The number of a line that is numbered. -/
def newLines (s : State) : Event → List Nat
  | .line _ command _ _ => if isChat command then [s.nextLine] else []
  | _ => []

theorem step_nextLine (win : Windows) (s : State) (e : Event) :
    List.range (step win s e).nextLine = List.range s.nextLine ++ newLines s e := by
  have hadd : ∀ (t : State) (batchId : Option String) (msg : Message),
      (inboundBatchAddMessage win t batchId msg).nextLine = t.nextLine := by
    intro t batchId msg
    rcases inboundBatchAddMessage_cases win t batchId msg with ⟨a, ha⟩ | ⟨id, hid⟩
    · rw [ha]
      rfl
    · rw [hid]
  cases e with
  | batchStart id type words tags =>
    have hstart : (inboundBatchStart s id type words tags).nextLine = s.nextLine := by
      unfold inboundBatchStart
      split_ifs <;> rfl
    simp [step, newLines, hstart]
  | batchEnd id =>
    have hend : (inboundBatchEnd win s id).nextLine = s.nextLine := by
      have htype : ∀ b, (endType win s b).nextLine = s.nextLine := by
        intro b
        have hml : (endMultiline win s b).nextLine = s.nextLine := by
          unfold endMultiline
          split
          · split <;> rfl
          · split_ifs
            · rfl
            · split <;> rfl
        unfold endType
        split_ifs <;> first | rfl | exact hml
      have hlabel : ∀ t b, (endLabel t b).nextLine = t.nextLine := by
        intro t b
        unfold endLabel
        split
        · rfl
        · dsimp only
          split_ifs <;> rfl
      unfold inboundBatchEnd
      split_ifs
      · rfl
      · split
        · rfl
        · exact (hlabel _ _).trans (htype _)
    simp [step, newLines, hend]
  | line pfx command words tags =>
    unfold step newLines
    dsimp only
    split_ifs
    · rw [hadd, List.range_succ]
    · rw [hadd, List.append_nil]

/-- **One event**: what it does not keep is gone. -/
theorem step_kept (win : Windows) {s : State} (hnum : s.Numbered) (e : Event) :
    ∃ lost, ((step win s e).kept ++ lost).Perm (s.kept ++ newLines s e) ∧ (lost = [] ↔ Keeps s e) := by
  cases e with
  | batchStart id type words tags =>
    refine ⟨[], ?_, by simp [Keeps]⟩
    simp [step, newLines, inboundBatchStart_kept]
  | batchEnd id =>
    obtain ⟨lost, hperm, hlost⟩ := inboundBatchEnd_kept win hnum id
    exact ⟨lost, by simpa [step, newLines] using hperm, hlost⟩
  | line pfx command words tags =>
    refine ⟨[], ?_, by simp [Keeps]⟩
    rw [List.append_nil]
    unfold step newLines
    dsimp only
    split_ifs with hc
    · exact inboundBatchAddMessage_kept win _ _ (by simp [messageOf, hc])
    · exact inboundBatchAddMessage_kept win _ _ (by simpa [messageOf] using hc)

/-- **A run**: with `lost` gone before it, all lines are kept after it if and only if none was gone and every event
keeps its lines. -/
theorem run_kept (win : Windows) (es : List Event) {s : State} (hnum : s.Numbered) {lost : List Nat}
    (h : (s.kept ++ lost).Perm (List.range s.nextLine)) :
    ((es.foldl (step win) s).kept).Perm (List.range (es.foldl (step win) s).nextLine) ↔
      lost = [] ∧ Along (step win) Keeps s es := by
  induction es generalizing s lost with
  | nil =>
    rw [List.foldl_nil, Along, and_true]
    constructor
    · intro hk
      have hlen := h.length_eq
      rw [List.length_append, hk.length_eq] at hlen
      exact List.eq_nil_of_length_eq_zero (by omega)
    · rintro rfl
      rwa [List.append_nil] at h
  | cons e es ih =>
    obtain ⟨lost', hperm, hlost⟩ := step_kept win hnum e
    have hnext : ((step win s e).kept ++ (lost' ++ lost)).Perm (List.range (step win s e).nextLine) := by
      rw [step_nextLine]
      refine List.perm_iff_count.2 fun k => ?_
      have h₁ := h.count_eq k
      have h₂ := hperm.count_eq k
      simp only [List.count_append] at h₁ h₂ ⊢
      omega
    rw [List.foldl_cons, ih (step_numbered win hnum e) hnext, List.append_eq_nil_iff, hlost, Along]
    constructor
    · rintro ⟨⟨hk, hl⟩, hes⟩
      exact ⟨hl, hk, hes⟩
    · rintro ⟨hl, hk, hes⟩
      exact ⟨⟨hk, hl⟩, hes⟩

/-- A connection before its first batch. -/
def fresh (haveBatch : Bool) (pendingLabels : List Pending) : State := { haveBatch, pendingLabels }

/-- **Nested batches.**  When no batch is active any more, every PRIVMSG and NOTICE line was dispatched live,
displayed in a multiline message or handed over with a history batch exactly once, if and only if every event
kept its lines. -/
theorem no_line_lost (win : Windows) (haveBatch : Bool) (pendingLabels : List Pending) (es : List Event)
    (h : (es.foldl (step win) (fresh haveBatch pendingLabels)).activeBatches = []) :
    ((es.foldl (step win) (fresh haveBatch pendingLabels)).delivered).Perm
        (List.range (es.foldl (step win) (fresh haveBatch pendingLabels)).nextLine) ↔
      Along (step win) Keeps (fresh haveBatch pendingLabels) es := by
  have hnum : (fresh haveBatch pendingLabels).Numbered := fun b hb => by cases hb
  have hstart : ((fresh haveBatch pendingLabels).kept ++ []).Perm
      (List.range (fresh haveBatch pendingLabels).nextLine) := List.Perm.refl _
  have hrun := run_kept win es hnum hstart
  rw [State.kept, h, List.flatMap_nil, List.append_nil] at hrun
  rw [hrun]
  simp

/-- A multiline message of two lines inside a batch of this type. -/
def nestedMultiline (type : String) : List Event :=
  [.batchStart "o" type ["#chan"] {},
    .batchStart "m" "draft/multiline" ["#chan"] { batchId := some "o" },
    .line "a!b@c" "PRIVMSG" [("#chan", "#chan :one"), (":one", ":one")] { batchId := some "m" },
    .line "a!b@c" "PRIVMSG" [("#chan", "#chan :two"), (":two", ":two")] { batchId := some "m" },
    .batchEnd "m", .batchEnd "o"]

theorem no_line_lost_chathistory :
    ((((nestedMultiline "chathistory").foldl (step oneChannel) (fresh true [])).delivered)).Perm (List.range 2) :=
  (no_line_lost oneChannel true [] (nestedMultiline "chathistory") (by decide)).2 (by decide)

/-- In a labeled response the message is put into a list that is thrown away. -/
theorem labeled_response_lost :
    let s := (nestedMultiline "labeled-response").foldl (step oneChannel) (fresh true [])
    s.activeBatches = [] ∧ s.nextLine = 2 ∧ s.delivered = [] ∧ ¬ s.delivered.Perm (List.range s.nextLine) := by
  decide

end PoxChat.Inbound
