import PoxChat.ChatHistory.Delivery
import PoxChat.Scrollback.Tables

/-!
# What counts as the same message

Three places decide whether a message is already there: the keys of `known_msgids`, the lookup of
`scrollback_has_msgid` by msgid and timestamp, and the `UNIQUE (channel_id, msgid)` index behind
`scrollback_db_save`.

* `Seen` is a session of a connection with the messages it handled: `tracked` are those passed to
  `chathistory_track_msgid_ts`, `displayed` those of them that were also shown.

Principal results: `dedupKey_inj` — the text key tells any two messages with a timestamp apart;
`save_stores_iff`, `isDuplicate_iff` — what the store and the check answer; `new_is_stored_iff` — when
what is reported new is stored and what is reported known is there.
-/

set_option autoImplicit false

namespace PoxChat.ChatHistory

open Lib Scrollback

/-! ## The key -/

theorem append_at_inj {l l' r r' : List Char} (hr : '@' ∉ r) (hr' : '@' ∉ r')
    (h : l ++ '@' :: r = l' ++ '@' :: r') : l = l' ∧ r = r' := by
  induction l generalizing l' with
  | nil =>
    cases l' with
    | nil => simpa using h
    | cons c l' =>
      simp only [List.nil_append, List.cons_append, List.cons.injEq] at h
      exact absurd (h.2 ▸ by simp : '@' ∈ r) hr
  | cons c l ih =>
    cases l' with
    | nil =>
      simp only [List.nil_append, List.cons_append, List.cons.injEq] at h
      exact absurd (h.2 ▸ by simp : '@' ∈ r') hr'
    | cons c' l' =>
      simp only [List.cons_append, List.cons.injEq] at h
      obtain ⟨hl, hrest⟩ := ih h.2
      exact ⟨by rw [h.1, hl], hrest⟩

theorem toString_pos {t : Int} (ht : 0 < t) : (toString t).toList = Nat.toDigits 10 t.toNat := by
  obtain ⟨k, rfl⟩ := Int.eq_ofNat_of_zero_le ht.le
  show (Nat.repr k).toList = _
  simp [Nat.repr_eq_ofList_toDigits]

theorem at_not_mem_toString {t : Int} (ht : 0 < t) : '@' ∉ (toString t).toList := by
  rw [toString_pos ht]
  intro h
  have := Nat.isDigit_of_mem_toDigits (by decide) (by decide) h
  exact absurd this (by decide)

theorem toString_inj {t t' : Int} (ht : 0 < t) (ht' : 0 < t') (h : toString t = toString t') : t = t' := by
  have hl := congrArg String.toList h
  rw [toString_pos ht, toString_pos ht'] at hl
  have hn := congrArg (Nat.ofDigitChars 10 · 0) hl
  simp only [Nat.ofDigitChars_ten_toDigits] at hn
  omega

/-- **The key tells messages with a timestamp apart.** -/
theorem dedupKey_inj {m m' : String} {t t' : Int} (ht : 0 < t) (ht' : 0 < t')
    (h : dedupKey m t = dedupKey m' t') : m = m' ∧ t = t' := by
  rw [dedupKey, dedupKey, if_pos ht, if_pos ht'] at h
  have hl := congrArg String.toList h
  simp only [String.toList_append, List.append_assoc] at hl
  obtain ⟨hm, hs⟩ := append_at_inj (at_not_mem_toString ht) (at_not_mem_toString ht') hl
  exact ⟨String.toList_injective hm, toString_inj ht ht' (String.toList_injective hs)⟩

/-- A message without a timestamp has its msgid for a key, which can be the key of another. -/
theorem dedupKey_of_not_pos {m : String} {t : Int} (ht : ¬ 0 < t) : dedupKey m t = m := if_neg ht

/-! ## The store -/

section Store

variable {db : Sb} {channel m : String} {t : Int}

theorem channelRows_of_lookup {messages : List Msg} {channels : List Chan} {name : String} {id : Int}
    (h : channelLookup channels name = some id) : channelRows messages channels name = ordered messages id := by
  simp [channelRows, h]

/-- **`scrollback_db_save` stores** a message exactly when no row of its channel has the msgid. -/
theorem save_stores_iff (hs : db.Sane) (hc : channel ≠ "") (hm : m ≠ "") (text : String) (isUserMsg : Bool) :
    (scrollbackDbSave db channel t (some m) text isUserMsg).1 ≠ -1 ↔
      ∀ row ∈ channelRows db.messages db.channels channel, row.msgid ≠ some m := by
  obtain ⟨id, channels, cache, he, hr⟩ := scrollbackGetChannelId_resolves hs channel
  have hans : 0 < id ∧ channelLookup channels channel = some id := hr.answer.resolve_left fun h => hc h.1
  have hrows : channelRows db.messages db.channels channel = ordered db.messages id := by
    rw [← hr.rows, channelRows_of_lookup hans.2]
  have hid : ¬ id < 0 := by omega
  rw [hrows, scrollbackDbSave, he]
  simp only [if_neg hid]
  have hnext : 0 < nextId (db.messages.map (·.id)) := nextId_pos fun x hx => by
    obtain ⟨row, hrow, rfl⟩ := List.mem_map.1 hx
    exact hs.idPos row hrow
  cases hins : insertMessage db.messages id t (some m) text isUserMsg with
  | none =>
    have htaken : ∃ row ∈ db.messages, row.channelId = id ∧ row.msgid = some m := by
      simpa [insertMessage, hm] using hins
    obtain ⟨row, hrow, hch, hmsg⟩ := htaken
    simp only [ne_eq, not_true_eq_false, false_iff, not_forall]
    exact ⟨row, mem_ordered.2 ⟨hrow, hch⟩, fun hno => hno hmsg⟩
  | some row =>
    have hrowid := (insertMessage_eq_some hins).1
    have hfree : ∀ row ∈ db.messages, row.channelId = id → row.msgid ≠ some m := by
      intro r hmem hch hmsg
      have htaken : insertMessage db.messages id t (some m) text isUserMsg = none := by
        simp only [insertMessage, Option.some.injEq, hm, if_false]
        rw [if_pos]
        exact ⟨rfl, List.any_eq_true.2 ⟨r, hmem, by simp [hch, hmsg]⟩⟩
      rw [htaken] at hins
      cases hins
    refine ⟨fun _ r hmem => ?_, fun _ => ?_⟩
    · obtain ⟨hmem, hch⟩ := mem_ordered.1 hmem
      exact hfree r hmem hch
    · show row.id ≠ -1
      omega

/-- **`scrollback_has_msgid`** finds a row of the channel with this msgid and timestamp, and changes no row. -/
theorem hasMsgid_spec (hs : db.Sane) (hc : channel ≠ "") (hm : m ≠ "") (ht : 0 < t) :
    ((scrollbackHasMsgid db channel m t).1 = true ↔
      ∃ row ∈ channelRows db.messages db.channels channel, row.msgid = some m ∧ row.timestamp = t) ∧
    (scrollbackHasMsgid db channel m t).2.Sane ∧
    channelRows (scrollbackHasMsgid db channel m t).2.messages (scrollbackHasMsgid db channel m t).2.channels =
      channelRows db.messages db.channels := by
  obtain ⟨id, channels, cache, he, hr⟩ := scrollbackGetChannelId_resolves hs channel
  have hans : 0 < id ∧ channelLookup channels channel = some id := hr.answer.resolve_left fun h => hc h.1
  have hrows : channelRows db.messages db.channels channel = ordered db.messages id := by
    rw [← hr.rows, channelRows_of_lookup hans.2]
  have hid : ¬ id ≤ 0 := by omega
  have ht0 : t ≠ 0 := by omega
  simp only [scrollbackHasMsgid, if_neg hm, he, if_neg hid, hrows]
  refine ⟨?_, hr.sane, hr.rows⟩
  simp only [List.any_eq_true, decide_eq_true_eq, ht0, false_or, mem_ordered]
  constructor
  · rintro ⟨row, hrow, hch, hmsg, hts⟩
    exact ⟨row, ⟨hrow, hch⟩, hmsg, hts⟩
  · rintro ⟨row, ⟨hrow, hch⟩, hmsg, hts⟩
    exact ⟨row, hrow, hch, hmsg, hts⟩

end Store

/-! ## Sessions -/

/-- A session and the messages it handled, by msgid and timestamp. -/
structure Seen where
  net : Net
  tracked : List (String × Int) := []
  displayed : List (String × Int) := []

/-- What bears on a session's messages: calls on the store, a message that is tracked and perhaps
shown, the check itself, and a dialog that follows its nick. -/
inductive IdentityEvent where
  | stored (op : Op)
  | handled (msgid : String) (timestamp : Int) (isHistory shown : Bool)
  | checked (msgid : String) (timestamp : Int)
  | renamed (channel : String)

def IdentityEvent.step (i : Nat) (w : Seen) : IdentityEvent → Seen
  | .stored op => { w with net := w.net.store fun db => Scrollback.step db op }
  | .handled m t isHistory shown =>
    { net := chathistoryTrackMsgidTs w.net i m t isHistory
      tracked := (m, t) :: w.tracked
      displayed := if shown then (m, t) :: w.displayed else w.displayed }
  | .checked m t => { w with net := (chathistoryIsDuplicateMsgid w.net i m t).2 }
  | .renamed channel => { w with net := w.net.upd i fun s => { s with channel := channel } }

/-- The store is open and sane, the known keys are those of the tracked messages, and what is displayed
is tracked. -/
structure Seen.Sound (i : Nat) (w : Seen) : Prop where
  store : ∃ db, w.net.db = some db ∧ db.Sane
  known : ∀ key, key ∈ (w.net.heap i).knownMsgids ↔ ∃ p ∈ w.tracked, p.1 ≠ "" ∧ dedupKey p.1 p.2 = key
  shown : w.displayed ⊆ w.tracked

theorem track_db (n : Net) (i : Nat) (m : String) (t : Int) (isHistory : Bool) :
    (chathistoryTrackMsgidTs n i m t isHistory).db = n.db := by
  unfold chathistoryTrackMsgidTs
  dsimp only
  split_ifs <;> rfl

theorem track_known (n : Net) (i : Nat) (m : String) (t : Int) (isHistory : Bool) (key : String) :
    key ∈ ((chathistoryTrackMsgidTs n i m t isHistory).heap i).knownMsgids ↔
      key ∈ (n.heap i).knownMsgids ∨ (m ≠ "" ∧ dedupKey m t = key) := by
  unfold chathistoryTrackMsgidTs
  dsimp only
  by_cases hm : m = ""
  · simp [hm]
  rw [if_neg hm]
  by_cases hknown : dedupKey m t ∈ (n.heap i).knownMsgids
  · rw [if_pos hknown]
    constructor
    · exact .inl
    · rintro (h | ⟨-, rfl⟩)
      · exact h
      · exact hknown
  · rw [if_neg hknown]
    simp only [Net.upd, Function.update_self, List.mem_cons, hm, ne_eq, not_false_eq_true, true_and]
    rw [or_comm, eq_comm]

theorem isDuplicate_heap (n : Net) (i : Nat) (m : String) (t : Int) :
    (chathistoryIsDuplicateMsgid n i m t).2.heap = n.heap := by
  unfold chathistoryIsDuplicateMsgid
  split_ifs
  · rfl
  · rfl
  · rfl
  · cases n.db <;> rfl

theorem scrollbackHasMsgid_sane {db : Sb} (hs : db.Sane) (channel m : String) (t : Int) :
    (scrollbackHasMsgid db channel m t).2.Sane := by
  obtain ⟨id, channels, cache, he, hr⟩ := scrollbackGetChannelId_resolves hs channel
  unfold scrollbackHasMsgid
  split_ifs
  · exact hs
  · simp only [he]
    split_ifs <;> exact hr.sane

theorem isDuplicate_store {n : Net} (i : Nat) (m : String) (t : Int)
    (h : ∃ db, n.db = some db ∧ db.Sane) :
    ∃ db, (chathistoryIsDuplicateMsgid n i m t).2.db = some db ∧ db.Sane := by
  obtain ⟨db, hdb, hs⟩ := h
  unfold chathistoryIsDuplicateMsgid
  split_ifs
  · exact ⟨db, hdb, hs⟩
  · exact ⟨db, hdb, hs⟩
  · exact ⟨db, hdb, hs⟩
  · simp only [hdb]
    exact ⟨_, rfl, scrollbackHasMsgid_sane hs _ m t⟩

theorem IdentityEvent.step_sound {i : Nat} {w : Seen} (h : w.Sound i) (ev : IdentityEvent) :
    (ev.step i w).Sound i := by
  cases ev with
  | stored op =>
    obtain ⟨db, hdb, hs⟩ := h.store
    exact ⟨⟨Scrollback.step db op, by simp [IdentityEvent.step, Net.store, hdb], (step_keeps hs op).sane⟩,
      h.known, h.shown⟩
  | handled m t isHistory shown =>
    refine ⟨?_, fun key => ?_, ?_⟩
    · show ∃ db, (chathistoryTrackMsgidTs w.net i m t isHistory).db = some db ∧ db.Sane
      rw [track_db]
      exact h.store
    · show key ∈ ((chathistoryTrackMsgidTs w.net i m t isHistory).heap i).knownMsgids ↔
        ∃ p ∈ (m, t) :: w.tracked, p.1 ≠ "" ∧ dedupKey p.1 p.2 = key
      rw [track_known, h.known, List.exists_mem_cons_iff]
      exact or_comm
    · show (if shown then (m, t) :: w.displayed else w.displayed) ⊆ (m, t) :: w.tracked
      split_ifs
      · exact List.cons_subset_cons _ h.shown
      · exact List.subset_cons_of_subset _ h.shown
  | checked m t =>
    refine ⟨isDuplicate_store i m t h.store, fun key => ?_, h.shown⟩
    show key ∈ ((chathistoryIsDuplicateMsgid w.net i m t).2.heap i).knownMsgids ↔ _
    rw [isDuplicate_heap]
    exact h.known key
  | renamed channel =>
    refine ⟨h.store, fun key => ?_, h.shown⟩
    show key ∈ (Function.update w.net.heap i { w.net.heap i with channel := channel } i).knownMsgids ↔ _
    rw [Function.update_self]
    exact h.known key

theorem identity_run_sound {i : Nat} {w : Seen} (h : w.Sound i) (evs : List IdentityEvent) :
    (evs.foldl (IdentityEvent.step i) w).Sound i := by
  induction evs generalizing w with
  | nil => exact h
  | cons ev evs ih => exact ih (ev.step_sound h)

/-! ## The three notions compared -/

/-- The rows of the session's channel. -/
def Seen.rows (i : Nat) (w : Seen) : List Msg :=
  match w.net.db with
  | none => []
  | some db => channelRows db.messages db.channels (w.net.heap i).channel

/-- A row of the channel has the msgid and the timestamp. -/
def Seen.Stored (i : Nat) (w : Seen) (m : String) (t : Int) : Prop :=
  ∃ row ∈ w.rows i, row.msgid = some m ∧ row.timestamp = t

/-- A row of the channel has the msgid under another timestamp. -/
def Seen.Reused (i : Nat) (w : Seen) (m : String) (t : Int) : Prop :=
  ∃ row ∈ w.rows i, row.msgid = some m ∧ row.timestamp ≠ t

/-- A message without a timestamp was tracked whose msgid reads like the key of this one. -/
def Seen.Aliased (w : Seen) (m : String) (t : Int) : Prop :=
  ∃ t', t' ≤ 0 ∧ (dedupKey m t, t') ∈ w.tracked

section Compared

variable {i : Nat} {w : Seen} {m : String} {t : Int}

theorem dedupKey_ne_empty (ht : 0 < t) : dedupKey m t ≠ "" := by
  rw [dedupKey, if_pos ht]
  intro h
  have := congrArg String.toList h
  simp [String.toList_append] at this

/-- The key is known when the message was tracked, or one that looks like it. -/
theorem known_iff (h : w.Sound i) (hm : m ≠ "") (ht : 0 < t) :
    dedupKey m t ∈ (w.net.heap i).knownMsgids ↔ (m, t) ∈ w.tracked ∨ w.Aliased m t := by
  rw [h.known]
  constructor
  · rintro ⟨⟨m', t'⟩, hmem, -, hkey⟩
    by_cases ht' : 0 < t'
    · obtain ⟨rfl, rfl⟩ := dedupKey_inj ht' ht hkey
      exact .inl hmem
    · have hkey' : m' = dedupKey m t := (dedupKey_of_not_pos ht').symm.trans hkey
      exact .inr ⟨t', by omega, hkey' ▸ hmem⟩
  · rintro (hmem | ⟨t', ht', hmem⟩)
    · exact ⟨(m, t), hmem, hm, rfl⟩
    · exact ⟨(dedupKey m t, t'), hmem, dedupKey_ne_empty ht, dedupKey_of_not_pos (by omega)⟩

/-- **`chathistory_is_duplicate_msgid`** answers TRUE for a message that was tracked or is stored, and
for one that looks like a tracked one; it leaves the rows as they are. -/
theorem isDuplicate_iff (h : w.Sound i) (hm : m ≠ "") (ht : 0 < t) (hc : (w.net.heap i).channel ≠ "") :
    ((chathistoryIsDuplicateMsgid w.net i m t).1 = true ↔
      ((m, t) ∈ w.tracked ∨ w.Aliased m t) ∨ w.Stored i m t) ∧
    ∃ db, (chathistoryIsDuplicateMsgid w.net i m t).2.db = some db ∧ db.Sane ∧
      channelRows db.messages db.channels (w.net.heap i).channel = w.rows i := by
  obtain ⟨db, hdb, hs⟩ := h.store
  have hrows : w.rows i = channelRows db.messages db.channels (w.net.heap i).channel := by
    simp [Seen.rows, hdb]
  obtain ⟨hfound, hsane, hsame⟩ := hasMsgid_spec hs hc hm ht
  rw [← known_iff h hm ht, Seen.Stored, hrows]
  unfold chathistoryIsDuplicateMsgid
  rw [if_neg hm]
  by_cases hknown : dedupKey m t ∈ (w.net.heap i).knownMsgids
  · rw [if_pos hknown]
    exact ⟨by simp [hknown], db, hdb, hs, rfl⟩
  · rw [if_neg hknown, if_neg hc]
    simp only [hdb]
    exact ⟨by simp [hknown, hfound], _, rfl, hsane, congrFun hsame _⟩

end Compared

/-- **What is reported new is stored**, and what is reported known is a stored or a displayed message. -/
def Seen.Agrees (i : Nat) (w : Seen) (m : String) (t : Int) : Prop :=
  ((chathistoryIsDuplicateMsgid w.net i m t).1 = false →
    ∀ db, (chathistoryIsDuplicateMsgid w.net i m t).2.db = some db → ∀ text isUserMsg,
      (scrollbackDbSave db (w.net.heap i).channel t (some m) text isUserMsg).1 ≠ -1) ∧
  ((chathistoryIsDuplicateMsgid w.net i m t).1 = true → w.Stored i m t ∨ (m, t) ∈ w.displayed)

/-- **When the three notions agree.**  After every run of a new session, and for every message with a
msgid and a timestamp: a message that is stored or was displayed is reported known; any other is
reported new and stored exactly when it was not tracked unseen, nothing tracked without a timestamp has
its key for a msgid, and no row of the channel has its msgid under another timestamp. -/
theorem new_is_stored_iff (n : Net) (i : Nat) {db : Sb} (hdb : n.db = some db) (hs : db.Sane)
    (hnew : (n.heap i).knownMsgids = []) (evs : List IdentityEvent) (m : String) (t : Int)
    (hm : m ≠ "") (ht : 0 < t)
    (hc : ((evs.foldl (IdentityEvent.step i) { net := n }).net.heap i).channel ≠ "") :
    let w := evs.foldl (IdentityEvent.step i) { net := n }
    w.Agrees i m t ↔
      (w.Stored i m t ∨ (m, t) ∈ w.displayed) ∨
        ((m, t) ∉ w.tracked ∧ ¬ w.Aliased m t ∧ ¬ w.Reused i m t) := by
  intro w
  have h : w.Sound i := identity_run_sound ⟨⟨db, hdb, hs⟩, by simp [hnew], by simp⟩ evs
  obtain ⟨hdup, db', hdb', hs', hrows⟩ := isDuplicate_iff h hm ht hc
  have hsave : ∀ text isUserMsg,
      (scrollbackDbSave db' (w.net.heap i).channel t (some m) text isUserMsg).1 ≠ -1 ↔
        ∀ row ∈ w.rows i, row.msgid ≠ some m := fun text isUserMsg => by
    rw [save_stores_iff hs' hc hm, hrows]
  constructor
  · rintro ⟨hnewly, hknown⟩
    cases hd : (chathistoryIsDuplicateMsgid w.net i m t).1 with
    | true => exact .inl (hknown hd)
    | false =>
      have hno : ¬ (((m, t) ∈ w.tracked ∨ w.Aliased m t) ∨ w.Stored i m t) := fun hyes => by
        rw [hdup.2 hyes] at hd
        cases hd
      have hfree := (hsave "" false).1 (hnewly hd db' hdb' "" false)
      refine .inr ⟨fun hmem => hno (.inl (.inl hmem)), fun hal => hno (.inl (.inr hal)), ?_⟩
      rintro ⟨row, hrow, hmsg, -⟩
      exact hfree row hrow hmsg
  · intro hcond
    refine ⟨fun hd db₁ hdb₁ text isUserMsg => ?_, fun hd => ?_⟩
    · have hno : ¬ (((m, t) ∈ w.tracked ∨ w.Aliased m t) ∨ w.Stored i m t) := fun hyes => by
        rw [hdup.2 hyes] at hd
        cases hd
      rw [hdb'] at hdb₁
      cases hdb₁
      rcases hcond with (hst | hsh) | ⟨-, -, hreused⟩
      · exact absurd (.inr hst) hno
      · exact absurd (.inl (.inl (h.shown hsh))) hno
      · refine (hsave text isUserMsg).2 fun row hrow hmsg => ?_
        by_cases hts : row.timestamp = t
        · exact hno (.inr ⟨row, hrow, hmsg, hts⟩)
        · exact hreused ⟨row, hrow, hmsg, hts⟩
    · rcases hcond with hyes | ⟨htr, hal, -⟩
      · exact hyes
      · rcases hdup.1 hd with (hmem | halias) | hst
        · exact absurd hmem htr
        · exact absurd halias hal
        · exact .inl hst

/-- `#c` on a network with an empty store. -/
def emptyStore : Net :=
  { Net.connected [{ type := .channel, channel := "#c" }] with db := some (Sb.fresh false) }

/-- A message is shown and stored; a later one is new. -/
theorem new_is_stored_later :
    let evs : List IdentityEvent := [.handled "a" 100 false true, .stored (.save "#c" 100 (some "a") "hi" true)]
    let w := evs.foldl (IdentityEvent.step 0) { net := emptyStore }
    w.Agrees 0 "b" 200 ∧ (chathistoryIsDuplicateMsgid w.net 0 "b" 200).1 = false := by
  intro evs w
  have hfree : ¬ w.Reused 0 "b" 200 := by
    unfold Seen.Reused
    decide
  have halias : ¬ w.Aliased "b" 200 := by
    rintro ⟨t', -, hmem⟩
    have hkey : dedupKey "b" 200 ≠ "a" := by decide
    have hmem' : (dedupKey "b" 200, t') ∈ [(("a", 100) : String × Int)] := hmem
    exact hkey (Prod.mk.inj (List.mem_singleton.1 hmem')).1
  exact ⟨(new_is_stored_iff emptyStore 0 rfl (fresh_sane false) rfl evs "b" 200 (by decide) (by decide)
    (by decide)).2 (.inr ⟨by decide, halias, hfree⟩), by decide⟩

/-- A server that starts its msgids over: the message is reported new and not stored.  And a message
without a timestamp whose msgid reads like the key of another, which is then reported known. -/
theorem reused_msgid_not_stored :
    (let w := [IdentityEvent.stored (.save "#c" 100 (some "a") "hi" true)].foldl
        (IdentityEvent.step 0) { net := emptyStore };
      (chathistoryIsDuplicateMsgid w.net 0 "a" 200).1 = false ∧
      (∃ db, (chathistoryIsDuplicateMsgid w.net 0 "a" 200).2.db = some db ∧
        (scrollbackDbSave db "#c" 200 (some "a") "bye" true).1 = -1) ∧
      ¬ w.Agrees 0 "a" 200) ∧
    (let w := [IdentityEvent.handled "a@5" 0 false true].foldl
        (IdentityEvent.step 0) { net := emptyStore };
      (chathistoryIsDuplicateMsgid w.net 0 "a" 5).1 = true ∧ ¬ w.Agrees 0 "a" 5) := by
  refine ⟨⟨by decide, ⟨_, rfl, by decide⟩, fun h => ?_⟩, by decide, fun h => ?_⟩
  · exact h.1 (by decide) _ rfl "bye" true (by decide)
  · rcases h.2 (by decide) with ⟨row, hrow, -⟩ | hshown
    · have hnone : Seen.rows 0 ([IdentityEvent.handled "a@5" 0 false true].foldl
          (IdentityEvent.step 0) { net := emptyStore }) = [] := by decide
      rw [hnone] at hrow
      cases hrow
    · revert hshown
      decide

end PoxChat.ChatHistory
