import PoxChat.ChatHistory.Identity

/-!
# Own messages

With `echo-message` and `labeled-response` a message is shown and stored when it is sent, under the
placeholder msgid `pending:<label>`; the labeled echo puts the real msgid in its place, unless a
`chathistory` replay stored the message under it before.

* `Own` follows one message: the window of its target, the labels awaited, and — no function reads
  these — the rows stored for the message, its lines in the window and how often it was printed.
* `OwnEvent` is what can happen after it was sent: its echo, a replay of it, the sweep of stale
  labels, and other traffic.
* Server tabs are left out, and of the front end only the ids of the lines are kept.

Principal results: `step_frame` — other traffic leaves the rows of the message alone; `own_message_kept`
— when exactly one row and one line are left.
-/

set_option autoImplicit false

namespace PoxChat.Outbound

open Lib Scrollback ChatHistory

/-! ## Model -/

/-- The commands that send a message. -/
inductive Sender where
  | say
  | me
  | msg
  deriving DecidableEq

/-- A message sent under the label of `label_counter`; the server gives it a msgid and a timestamp. -/
structure OwnMessage where
  sender : Sender
  counter : Nat
  msgid : String
  timestamp : Int
  text : String

/-- `tcp_generate_label`. -/
def tcpGenerateLabel (counter : Nat) : String := "hc" ++ toString counter

def OwnMessage.label (o : OwnMessage) : String := tcpGenerateLabel o.counter

def pendingKey (label : String) : String := "pending:" ++ label

def OwnMessage.key (o : OwnMessage) : String := pendingKey o.label

def STALE_LABEL_TIMEOUT : Int := 60

/-- A message in the window of its target. -/
structure Own where
  net : Net
  /-- `pending_labels`, with the time each was sent. -/
  pendingLabels : Table String Int := []
  sentAt : Int := 0
  /-- The rows stored for the message. -/
  rows : List Int := []
  /-- Its lines in the window, by the id of their row if they have one. -/
  entries : List (Option Int) := []
  printed : Nat := 0
  echoed : Bool := false
  replayed : Bool := false
  /-- A replay came before the echo. -/
  early : Bool := false

/-- `scrollback_save_msg` of a channel or dialog: the rowid, at most 0 when nothing is stored. -/
def scrollbackSaveMsg (n : Net) (i : Nat) (text : String) (stamp : Int) (msgid : Option String)
    (isUserMsg : Bool) : Int × Net :=
  if n.prefs.textReplay = false then (0, n)
  else if (n.heap i).channel = "" then (0, n)
  else
    match n.db with
    | none => (0, n)
    | some db =>
      let stamp := if stamp = 0 then n.now else stamp
      let (rowid, db) := scrollbackDbSave db (n.heap i).channel stamp msgid text isUserMsg
      (rowid, { n with db := some db })

/-- `PrintTextTimeStamp` of the message: a stored line has its rowid for an id. -/
def printOwn (i : Nat) (o : OwnMessage) (w : Own) (stamp : Int) (msgid : Option String)
    (isUserMsg : Bool) : Own :=
  let (rowid, n) := scrollbackSaveMsg w.net i o.text stamp msgid isUserMsg
  { w with
    net := n
    rows := if 0 < rowid then w.rows ++ [rowid] else w.rows
    entries := w.entries ++ [if 0 < rowid then some rowid else none]
    printed := w.printed + 1 }

/-- `current_msgid` of the line printed when the message is sent: `cmd_msg` sets none. -/
def OwnMessage.placeholder (o : OwnMessage) : Option String :=
  match o.sender with
  | .say => some o.key
  | .me => some o.key
  | .msg => none

/-- The message is sent under its label and printed. -/
def sendOwn (i : Nat) (o : OwnMessage) (w : Own) : Own :=
  printOwn i o { w with pendingLabels := w.pendingLabels.put o.label w.net.now, sentAt := w.net.now }
    0 o.placeholder false

/-- `gtk_xtext_resolve_pending_dup`: the line of the pending row goes, or takes the other row's id. -/
def resolvePendingDup (entries : List (Option Int)) (oldId newId : Int) : List (Option Int) :=
  if some newId ∈ entries then entries.filter fun e => e ≠ some oldId
  else entries.map fun e => if e = some oldId then some newId else e

/-- `scrollback_confirm_pending`. -/
def scrollbackConfirmPending (i : Nat) (w : Own) (label realMsgid : String) : Own :=
  if label = "" ∨ realMsgid = "" then w
  else
    match w.net.db with
    | none => w
    | some db =>
      let channel := (w.net.heap i).channel
      let (updated, db) := scrollbackUpdatePendingMsgid db channel (pendingKey label) realMsgid
      if updated then { w with net := { w.net with db := some db } }
      else
        let (realRowid, db) := scrollbackGetRowidByMsgid db channel realMsgid
        let (pendingRowid, db) := scrollbackGetRowidByMsgid db channel (pendingKey label)
        if 0 < realRowid ∧ 0 < pendingRowid then
          let (deleted, db) := scrollbackDeleteByRowid db pendingRowid
          if deleted then
            { w with
              net := { w.net with db := some db }
              rows := w.rows.filter fun id => id ≠ pendingRowid
              entries := resolvePendingDup w.entries pendingRowid realRowid }
          else { w with net := { w.net with db := some db } }
        else { w with net := { w.net with db := some db } }

/-- `inbound_chanmsg` and `inbound_action` of the message as the server sends it. -/
def inboundOwn (i : Nat) (o : OwnMessage) (w : Own) : Own :=
  printOwn i o { w with net := chathistoryTrackMsgidTs w.net i o.msgid o.timestamp false }
    o.timestamp (some o.msgid) true

/-- The echo: `irc_inline` looks the label up, and `process_named_msg` goes on from there.  Only the echo
of an ACTION is not tracked when it is confirmed. -/
def echoOwn (i : Nat) (o : OwnMessage) (w : Own) : Own :=
  let confirmed := (w.pendingLabels.get o.label).isSome
  let w := { w with pendingLabels := w.pendingLabels.restrict fun l => l ≠ o.label, echoed := true }
  if confirmed then
    match o.sender with
    | .me => scrollbackConfirmPending i w o.label o.msgid
    | _ => scrollbackConfirmPending i
        { w with net := chathistoryTrackMsgidTs w.net i o.msgid o.timestamp false } o.label o.msgid
  else inboundOwn i o w

/-- `process_batch_message` of the message. -/
def replayOwn (i : Nat) (o : OwnMessage) (w : Own) : Own :=
  let (duplicate, n) := chathistoryIsDuplicateMsgid w.net i o.msgid o.timestamp
  let w := { w with net := n, replayed := true, early := w.early || !w.echoed }
  if duplicate then w
  else inboundOwn i o { w with net := chathistoryTrackMsgidTs w.net i o.msgid o.timestamp true }

/-- The label part of `stale_sweep_cb`. -/
def staleSweep (w : Own) : Own :=
  { w with pendingLabels := w.pendingLabels.filter fun l => ¬ STALE_LABEL_TIMEOUT < w.net.now - l.2 }

/-- What happens after the message was sent: its echo, a replay of it, the sweep, the clock, calls on the
store, other messages tracked, and other labels sent and answered. -/
inductive OwnEvent where
  | echo
  | replay
  | sweep
  | clock (now : Int)
  | stored (op : Op)
  | handled (msgid : String) (timestamp : Int) (isHistory : Bool)
  | labelled (counter : Nat)
  | answered (counter : Nat)
  deriving DecidableEq

def OwnEvent.step (i : Nat) (o : OwnMessage) (w : Own) : OwnEvent → Own
  | .echo => echoOwn i o w
  | .replay => replayOwn i o w
  | .sweep => staleSweep w
  | .clock now => { w with net := { w.net with now := now } }
  | .stored op => { w with net := w.net.store fun db => Scrollback.step db op }
  | .handled m t isHistory => { w with net := chathistoryTrackMsgidTs w.net i m t isHistory }
  | .labelled counter => { w with pendingLabels := w.pendingLabels.put (tcpGenerateLabel counter) w.net.now }
  | .answered counter => { w with pendingLabels := w.pendingLabels.restrict fun l => l ≠ tcpGenerateLabel counter }

def ownRun (i : Nat) (o : OwnMessage) (w : Own) (evs : List OwnEvent) : Own :=
  evs.foldl (OwnEvent.step i o) (sendOwn i o w)

/-- A call on the store that is not about the message: it neither writes under its msgids in its channel
nor deletes its rows. -/
def Foreign (o : OwnMessage) (channel : String) (rows : List Int) : Op → Prop
  | .save ch _ m _ _ => ch ≠ channel ∨ m ≠ some o.msgid ∧ m ≠ some o.key
  | .purgePending ch => ch ≠ channel
  | .deleteByRowid rowid => rowid ∉ rows
  | .clear ch => ch ≠ channel
  | .updatePendingMsgid ch old new =>
    ch ≠ channel ∨ (old ≠ o.msgid ∧ old ≠ o.key) ∧ new ≠ o.msgid ∧ new ≠ o.key
  | _ => True

/-! ## The rows of the message -/

/-- The rows of a channel under the msgids of the message. -/
def OwnMessage.rowsIn (o : OwnMessage) (id : Int) (messages : List Msg) : List Msg :=
  messages.filter fun r => r.channelId = id ∧ (r.msgid = some o.msgid ∨ r.msgid = some o.key)

section Frame

variable {o : OwnMessage} {chan : Int} {messages : List Msg}

theorem OwnMessage.mem_rowsIn {r : Msg} : r ∈ o.rowsIn chan messages ↔
    r ∈ messages ∧ r.channelId = chan ∧ (r.msgid = some o.msgid ∨ r.msgid = some o.key) := by
  simp [OwnMessage.rowsIn]

/-- Rows that are none of the message's come and go. -/
theorem OwnMessage.rowsIn_filter {p : Msg → Bool} (h : ∀ r ∈ o.rowsIn chan messages, p r = true) :
    o.rowsIn chan (messages.filter p) = o.rowsIn chan messages := by
  unfold OwnMessage.rowsIn at *
  rw [List.filter_comm, List.filter_eq_self]
  exact h

theorem OwnMessage.rowsIn_append {r : Msg}
    (h : ¬ (r.channelId = chan ∧ (r.msgid = some o.msgid ∨ r.msgid = some o.key))) :
    o.rowsIn chan (messages ++ [r]) = o.rowsIn chan messages := by
  simp [OwnMessage.rowsIn, h]

theorem OwnMessage.rowsIn_append_own {r : Msg} (hch : r.channelId = chan)
    (hm : r.msgid = some o.msgid ∨ r.msgid = some o.key) :
    o.rowsIn chan (messages ++ [r]) = o.rowsIn chan messages ++ [r] := by
  simp [OwnMessage.rowsIn, hch, hm]

/-- An update of other msgids, to other msgids, is none of the message's. -/
theorem OwnMessage.rowsIn_update {old new : String} {channelId : Int} {rows : List Msg}
    (h : channelId ≠ chan ∨ (old ≠ o.msgid ∧ old ≠ o.key) ∧ new ≠ o.msgid ∧ new ≠ o.key)
    (hu : updateMsgid messages channelId old new = some rows) : o.rowsIn chan rows = o.rowsIn chan messages := by
  unfold updateMsgid at hu
  split at hu
  · cases hu
  cases hu
  unfold OwnMessage.rowsIn
  rw [List.filter_map]
  -- a row that the update changes is not selected, neither before nor after
  have hsame : ∀ r : Msg, r.channelId = channelId ∧ r.msgid = some old →
      ¬ (r.channelId = chan ∧ (r.msgid = some o.msgid ∨ r.msgid = some o.key)) ∧
      ¬ (r.channelId = chan ∧ (some new = some o.msgid ∨ some new = some o.key)) := by
    rintro r ⟨hch, hmsg⟩
    rw [hch, hmsg]
    rcases h with hne | ⟨⟨h1, h2⟩, h3, h4⟩
    · exact ⟨fun hc => hne hc.1, fun hc => hne hc.1⟩
    · constructor
      · rintro ⟨-, he | he⟩
        · exact h1 (Option.some.inj he)
        · exact h2 (Option.some.inj he)
      · rintro ⟨-, he | he⟩
        · exact h3 (Option.some.inj he)
        · exact h4 (Option.some.inj he)
  rw [List.filter_congr (q := fun r => decide (r.channelId = chan ∧
    (r.msgid = some o.msgid ∨ r.msgid = some o.key))), List.map_congr_left (g := id), List.map_id]
  · intro r hr
    have hown := of_decide_eq_true (List.mem_filter.1 hr).2
    by_cases hc : r.channelId = channelId ∧ r.msgid = some old
    · exact absurd hown (hsame r hc).1
    · rw [if_neg hc]
      rfl
  · intro r hr
    refine decide_eq_decide.2 ?_
    dsimp only
    by_cases hc : r.channelId = channelId ∧ r.msgid = some old
    · rw [if_pos hc]
      exact iff_of_false (hsame r hc).2 (hsame r hc).1
    · rw [if_neg hc]

/-- The channel of the message is known under `channel`, and these are its rows. -/
structure Holds (o : OwnMessage) (channel : String) (chan : Int) (mine : List Msg) (db : Sb) : Prop where
  sane : db.Sane
  lookup : channelLookup db.channels channel = some chan
  rows : o.rowsIn chan db.messages = mine

/-- **Other traffic leaves the rows of the message alone.** -/
theorem step_frame {channel : String} {mine : List Msg} {db : Sb} (h : Holds o channel chan mine db) {op : Op}
    (hop : Foreign o channel (mine.map (·.id)) op) : Holds o channel chan mine (Scrollback.step db op) := by
  have hk := step_keeps h.sane op
  refine ⟨hk.sane, hk.lookups channel chan h.lookup, ?_⟩
  rw [← h.rows]
  cases op with
  | save ch ts m text user =>
    obtain ⟨id, channels, cache, he, -⟩ := scrollbackGetChannelId_resolves h.sane ch
    simp only [Scrollback.step, scrollbackDbSave, he]
    split
    · rfl
    split
    · rfl
    rename_i r hr
    rw [chanCacheNoteInsert_eq, ftsNoteInsert_messages]
    refine OwnMessage.rowsIn_append ?_
    rintro ⟨hch, hmsg⟩
    rcases hop with hne | ⟨hm, hkey⟩
    · refine scrollbackGetChannelId_ne h.sane ch h.lookup hne ?_
      rw [he, ← hch, (insertMessage_eq_some hr).2.1]
    · rw [insertMessage_msgid hr] at hmsg
      split at hmsg
      · rcases hmsg with hmsg | hmsg <;> cases hmsg
      · exact hmsg.elim hm hkey
  | purgePending ch =>
    obtain ⟨id, channels, cache, he, -⟩ := scrollbackGetChannelId_resolves h.sane ch
    have hne := scrollbackGetChannelId_ne h.sane ch h.lookup hop
    rw [he] at hne
    have hkept : o.rowsIn chan (db.messages.filter fun m => ¬ (m.channelId = id ∧ isPending m.msgid)) =
        o.rowsIn chan db.messages := by
      refine OwnMessage.rowsIn_filter fun r hr => decide_eq_true fun hc => ?_
      exact hne (hc.1.symm.trans (OwnMessage.mem_rowsIn.1 hr).2.1)
    simp only [Scrollback.step, scrollbackPurgePending, he]
    split
    · rfl
    · rw [chanCacheInvalidate_eq]
      split <;> split <;> exact hkept
  | deleteByRowid rowid =>
    have hkept : o.rowsIn chan (db.messages.filter fun m => m.id ≠ rowid) = o.rowsIn chan db.messages := by
      refine OwnMessage.rowsIn_filter fun r hr => decide_eq_true ?_
      rintro rfl
      exact hop (List.mem_map_of_mem (h.rows ▸ hr))
    simp only [Scrollback.step, scrollbackDeleteByRowid]
    split
    · rfl
    · split
      · dsimp only
        rw [ftsUnindexRow_eq]
        exact hkept
      · rfl
  | clear ch =>
    obtain ⟨id, channels, cache, he, -⟩ := scrollbackGetChannelId_resolves h.sane ch
    have hne := scrollbackGetChannelId_ne h.sane ch h.lookup hop
    rw [he] at hne
    have hkept : o.rowsIn chan (db.messages.filter fun m => m.channelId ≠ id) = o.rowsIn chan db.messages := by
      refine OwnMessage.rowsIn_filter fun r hr => decide_eq_true fun hc => ?_
      exact hne (hc.symm.trans (OwnMessage.mem_rowsIn.1 hr).2.1)
    simp only [Scrollback.step, scrollbackClear, he]
    split
    · rfl
    · rw [chanCacheInvalidate_eq]
      split <;> exact hkept
  | updatePendingMsgid ch old new =>
    obtain ⟨id, channels, cache, he, -⟩ := scrollbackGetChannelId_resolves h.sane ch
    simp only [Scrollback.step, scrollbackUpdatePendingMsgid, he]
    split
    · rfl
    split
    · rfl
    rename_i rows hu
    refine OwnMessage.rowsIn_update (hop.imp_left fun hne => ?_) hu
    have := scrollbackGetChannelId_ne h.sane ch h.lookup hne
    rwa [he] at this
  | _ => rw [step_messages_of_queries h.sane rfl]

end Frame

/-! ## The calls about the message -/

section Calls

variable {o : OwnMessage} {channel : String} {chan : Int} {mine : List Msg} {db : Sb}

theorem OwnMessage.label_ne (o : OwnMessage) : o.label ≠ "" := by
  intro h
  have := congrArg String.toList h
  simp [OwnMessage.label, tcpGenerateLabel, String.toList_append] at this

theorem OwnMessage.key_ne (o : OwnMessage) : o.key ≠ "" := by
  intro h
  have := congrArg String.toList h
  simp [OwnMessage.key, pendingKey, String.toList_append] at this

/-- A row of the message is saved when none has its msgid. -/
theorem save_own (hs : db.Sane) (hc : channel ≠ "") {k : String} (hk : k = o.msgid ∨ k = o.key) (hne : k ≠ "")
    (hfree : ∀ row ∈ channelRows db.messages db.channels channel, row.msgid ≠ some k) (ts : Int) (text : String)
    (user : Bool) :
    ∃ chan row, 0 < row.id ∧ row.timestamp = ts ∧ row.msgid = some k ∧
      (scrollbackDbSave db channel ts (some k) text user).1 = row.id ∧
      (∀ id, channelLookup db.channels channel = some id → id = chan) ∧
      channelRows db.messages db.channels channel = ordered db.messages chan ∧
      Holds o channel chan (o.rowsIn chan db.messages ++ [row])
        (scrollbackDbSave db channel ts (some k) text user).2 := by
  have hkeeps := scrollbackDbSave_keeps hs channel ts (some k) text user
  have hstores := (save_stores_iff hs hc hne text user (t := ts)).2 hfree
  obtain ⟨id, channels, cache, he, hr⟩ := scrollbackGetChannelId_resolves hs channel
  have hans : 0 < id ∧ channelLookup channels channel = some id := hr.answer.resolve_left fun h => hc h.1
  have hid : ¬ id < 0 := by omega
  simp only [scrollbackDbSave, he, if_neg hid] at hstores hkeeps ⊢
  cases hins : insertMessage db.messages id ts (some k) text user with
  | none =>
    simp only [hins] at hstores
    exact absurd rfl hstores
  | some row =>
    simp only [hins] at hkeeps ⊢
    obtain ⟨hrowid, hrowch, hrowts⟩ := insertMessage_eq_some hins
    have hmsg : row.msgid = some k := by
      rw [insertMessage_msgid hins, if_neg (by simpa using hne)]
    refine ⟨id, row, ?_, hrowts, hmsg, rfl, fun id' hl => ?_, ?_, hkeeps.sane, ?_, ?_⟩
    · rw [hrowid]
      exact nextId_pos fun x hx => by
        obtain ⟨r, hmem, rfl⟩ := List.mem_map.1 hx
        exact hs.idPos r hmem
    · have := hr.keepsLookups channel id' hl
      rw [hans.2] at this
      exact (Option.some.inj this).symm
    · rw [← hr.rows, channelRows_of_lookup hans.2]
    · rw [chanCacheNoteInsert_eq, ftsNoteInsert_eq]
      exact hans.2
    · rw [chanCacheNoteInsert_eq, ftsNoteInsert_messages]
      refine OwnMessage.rowsIn_append_own hrowch ?_
      rw [hmsg]
      exact hk.imp (congrArg some) (congrArg some)

/-- A row of the channel under a msgid of the message is one of its rows. -/
theorem Holds.find (h : Holds o channel chan mine db) {k : String} (hk : k = o.msgid ∨ k = o.key) :
    (db.messages.find? fun m => m.channelId = chan ∧ m.msgid = some k) =
      mine.find? fun m => m.msgid = some k := by
  rw [← h.rows, OwnMessage.rowsIn, List.find?_filter]
  congr 1
  funext r
  simp only [decide_eq_true_eq]
  refine decide_eq_decide.2 ⟨fun hr => ?_, fun hr => ⟨hr.1.1, hr.2⟩⟩
  exact ⟨⟨hr.1, hr.2 ▸ hk.imp (congrArg some) (congrArg some)⟩, hr.2⟩

theorem Holds.hasMsgid (h : Holds o channel chan mine db) (hc : channel ≠ "") (hm : o.msgid ≠ "") (t : Int) :
    ((scrollbackHasMsgid db channel o.msgid t).1 = true ↔
      ∃ row ∈ mine, row.msgid = some o.msgid ∧ (t = 0 ∨ row.timestamp = t)) ∧
    Holds o channel chan mine (scrollbackHasMsgid db channel o.msgid t).2 := by
  obtain ⟨cache, he, hs⟩ := scrollbackGetChannelId_known h.sane channel hc h.lookup
  have hpos := h.sane.lookup_pos h.lookup
  have hid : ¬ chan ≤ 0 := by omega
  simp only [scrollbackHasMsgid, if_neg hm, he, if_neg hid]
  refine ⟨?_, hs, h.lookup, h.rows⟩
  simp only [List.any_eq_true, decide_eq_true_eq, ← h.rows, OwnMessage.mem_rowsIn]
  constructor
  · rintro ⟨row, hrow, hch, hmsg, hts⟩
    exact ⟨row, ⟨hrow, hch, .inl hmsg⟩, hmsg, hts⟩
  · rintro ⟨row, ⟨hrow, hch, -⟩, hmsg, hts⟩
    exact ⟨row, hrow, hch, hmsg, hts⟩

theorem Holds.rowid (h : Holds o channel chan mine db) (hc : channel ≠ "") {k : String}
    (hk : k = o.msgid ∨ k = o.key) (hne : k ≠ "") {row : Msg}
    (hfind : (mine.find? fun m => m.msgid = some k) = some row) :
    (scrollbackGetRowidByMsgid db channel k).1 = row.id ∧
    Holds o channel chan mine (scrollbackGetRowidByMsgid db channel k).2 := by
  obtain ⟨cache, he, hs⟩ := scrollbackGetChannelId_known h.sane channel hc h.lookup
  have hpos := h.sane.lookup_pos h.lookup
  have hid : ¬ chan < 0 := by omega
  simp only [scrollbackGetRowidByMsgid, if_neg hne, he, if_neg hid, h.find hk, hfind]
  exact ⟨rfl, hs, h.lookup, h.rows⟩

theorem Holds.mem (h : Holds o channel chan mine db) {r : Msg} (hr : r ∈ mine) :
    r ∈ db.messages ∧ r.channelId = chan := by
  obtain ⟨hmem, hch, -⟩ := OwnMessage.mem_rowsIn.1 (h.rows.symm ▸ hr : r ∈ o.rowsIn chan db.messages)
  exact ⟨hmem, hch⟩

theorem Holds.any (h : Holds o channel chan mine db) {k : String} (hk : k = o.msgid ∨ k = o.key) :
    (db.messages.any fun m => m.channelId = chan ∧ m.msgid = some k) = mine.any fun m => m.msgid = some k := by
  rw [Bool.eq_iff_iff]
  simp only [List.any_eq_true, decide_eq_true_eq, ← h.rows, OwnMessage.mem_rowsIn]
  constructor
  · rintro ⟨r, hr, hch, hmsg⟩
    exact ⟨r, ⟨hr, hch, hmsg ▸ hk.imp (congrArg some) (congrArg some)⟩, hmsg⟩
  · rintro ⟨r, ⟨hr, hch, -⟩, hmsg⟩
    exact ⟨r, hr, hch, hmsg⟩

/-- The update of the placeholder goes through while no row has the real msgid. -/
theorem Holds.update_alone {p : Msg} (h : Holds o channel chan [p] db) (hc : channel ≠ "")
    (hp : p.msgid = some o.key) (hne : o.msgid ≠ o.key) :
    (scrollbackUpdatePendingMsgid db channel o.key o.msgid).1 = true ∧
    Holds o channel chan [{ p with msgid := some o.msgid }]
      (scrollbackUpdatePendingMsgid db channel o.key o.msgid).2 := by
  have hkeeps := scrollbackUpdatePendingMsgid_keeps h.sane channel o.key o.msgid
  obtain ⟨cache, he, hs⟩ := scrollbackGetChannelId_known h.sane channel hc h.lookup
  have hpos := h.sane.lookup_pos h.lookup
  have hid : ¬ chan ≤ 0 := by omega
  have hold : (db.messages.any fun m => m.channelId = chan ∧ m.msgid = some o.key) = true := by
    rw [h.any (.inr rfl)]
    simp [hp]
  have hnew : (db.messages.any fun m => m.channelId = chan ∧ m.msgid = some o.msgid) = false := by
    rw [h.any (.inl rfl)]
    simp [hp, Ne.symm hne]
  have hu : updateMsgid db.messages chan o.key o.msgid = some (db.messages.map fun m =>
      if m.channelId = chan ∧ m.msgid = some o.key then { m with msgid := some o.msgid } else m) := by
    rw [updateMsgid, if_neg]
    rintro ⟨-, -, hany⟩
    rw [hnew] at hany
    cases hany
  simp only [scrollbackUpdatePendingMsgid, he, if_neg hid, hu, hold] at hkeeps ⊢
  refine ⟨trivial, hkeeps.sane, h.lookup, ?_⟩
  -- the one row that is selected before is the one that changes, and is still selected
  show o.rowsIn chan (db.messages.map _) = _
  rw [OwnMessage.rowsIn, List.filter_map, List.filter_congr (q := fun r => decide (r.channelId = chan ∧
    (r.msgid = some o.msgid ∨ r.msgid = some o.key)))]
  · have hrows : db.messages.filter (fun r => decide (r.channelId = chan ∧
        (r.msgid = some o.msgid ∨ r.msgid = some o.key))) = [p] := h.rows
    rw [hrows]
    simp [hp, (h.mem (List.mem_singleton_self p)).2]
  · intro r hr
    refine decide_eq_decide.2 ?_
    dsimp only
    by_cases hch : r.channelId = chan ∧ r.msgid = some o.key
    · rw [if_pos hch]
      exact iff_of_true ⟨hch.1, .inl rfl⟩ ⟨hch.1, .inr hch.2⟩
    · rw [if_neg hch]

/-- The unique index refuses it once a replay stored the message. -/
theorem Holds.update_refused {p r : Msg} (h : Holds o channel chan [p, r] db) (hc : channel ≠ "")
    (hp : p.msgid = some o.key) (hr : r.msgid = some o.msgid) (hne : o.msgid ≠ o.key) :
    (scrollbackUpdatePendingMsgid db channel o.key o.msgid).1 = false ∧
    Holds o channel chan [p, r] (scrollbackUpdatePendingMsgid db channel o.key o.msgid).2 := by
  obtain ⟨cache, he, hs⟩ := scrollbackGetChannelId_known h.sane channel hc h.lookup
  have hpos := h.sane.lookup_pos h.lookup
  have hid : ¬ chan ≤ 0 := by omega
  have hold : (db.messages.any fun m => m.channelId = chan ∧ m.msgid = some o.key) = true := by
    rw [h.any (.inr rfl)]
    simp [hp]
  have hnew : (db.messages.any fun m => m.channelId = chan ∧ m.msgid = some o.msgid) = true := by
    rw [h.any (.inl rfl)]
    simp [hr]
  simp only [scrollbackUpdatePendingMsgid, he, if_neg hid, updateMsgid, hold, hnew, and_self, and_true,
    if_pos hne.symm]
  exact ⟨trivial, hs, h.lookup, h.rows⟩

/-- The pending row goes; the other one, which has another id, stays. -/
theorem Holds.delete_pending {p r : Msg} (h : Holds o channel chan [p, r] db) :
    (scrollbackDeleteByRowid db p.id).1 = true ∧ r.id ≠ p.id ∧
    Holds o channel chan [r] (scrollbackDeleteByRowid db p.id).2 := by
  have hkeeps := scrollbackDeleteByRowid_keeps h.sane p.id
  obtain ⟨hmem, -⟩ := h.mem (r := p) (by simp)
  have hpos := h.sane.idPos p hmem
  have hid : ¬ p.id ≤ 0 := by omega
  have hany : (db.messages.any fun m => m.id = p.id) = true := List.any_eq_true.2 ⟨p, hmem, by simp⟩
  have hnodup : ([p, r].map (·.id)).Nodup := by
    rw [← h.rows]
    exact (List.filter_sublist.map _).nodup h.sane.ids
  have hdiff : r.id ≠ p.id := by
    intro he
    simp [he] at hnodup
  simp only [scrollbackDeleteByRowid, if_neg hid, hany, if_true] at hkeeps ⊢
  rw [ftsUnindexRow_eq] at hkeeps ⊢
  refine ⟨trivial, hdiff, hkeeps.sane, h.lookup, ?_⟩
  show o.rowsIn chan (db.messages.filter fun m => m.id ≠ p.id) = [r]
  have hrows : db.messages.filter (fun r => decide (r.channelId = chan ∧
      (r.msgid = some o.msgid ∨ r.msgid = some o.key))) = [p, r] := h.rows
  rw [OwnMessage.rowsIn, List.filter_comm, hrows]
  simp [hdiff]

end Calls

/-! ## The message through a run -/

/-- The message is known to the window by its msgid and timestamp. -/
def Known (i : Nat) (o : OwnMessage) (n : Net) : Prop := dedupKey o.msgid o.timestamp ∈ (n.heap i).knownMsgids

/-- Where the message stands, by its rows: stored under its placeholder; stored by a replay as well; or
stored once, under its msgid. -/
inductive Phase (i : Nat) (o : OwnMessage) (w : Own) : List Msg → Prop
  | pending (p : Msg) (hecho : w.echoed = false) (hp : p.msgid = some o.key) (hts : p.timestamp = w.sentAt)
      (hseen : w.replayed = true → Known i o w.net) (hprinted : w.printed = 1) : Phase i o w [p]
  | both (p r : Msg) (hecho : w.echoed = false) (hp : p.msgid = some o.key) (hr : r.msgid = some o.msgid)
      (hearly : w.early = true) (hknown : Known i o w.net) : Phase i o w [p, r]
  | kept (r : Msg) (hecho : w.echoed = true) (hr : r.msgid = some o.msgid)
      (hts : Known i o w.net ∨ r.timestamp = w.sentAt)
      (hseen : o.sender = .say ∨ w.replayed = true → Known i o w.net ∨ r.timestamp = o.timestamp)
      (hprinted : w.early = false → w.printed = 1) : Phase i o w [r]

/-- What holds from the sending on. -/
structure OwnInv (i : Nat) (o : OwnMessage) (channel : String) (w : Own) : Prop where
  target : (w.net.heap i).channel = channel
  on : w.net.prefs.textReplay = true
  rows : ∃ db chan mine, w.net.db = some db ∧ Holds o channel chan mine db ∧ Phase i o w mine ∧
    w.rows = mine.map (·.id) ∧ w.entries = mine.map fun r => some r.id

section Steps

variable {i : Nat} {o : OwnMessage} {channel : String} {w : Own}

theorem Phase.frame {mine : List Msg} (h : Phase i o w mine) {n : Net} (hknown : Known i o w.net → Known i o n)
    (labels : Table String Int) : Phase i o { w with net := n, pendingLabels := labels } mine := by
  cases h with
  | pending p hecho hp hts hseen hprinted => exact .pending p hecho hp hts (fun hr => hknown (hseen hr)) hprinted
  | both p r hecho hp hr hearly hk => exact .both p r hecho hp hr hearly (hknown hk)
  | kept r hecho hr hts hseen hprinted =>
    exact .kept r hecho hr (hts.imp_left hknown) (fun hs => (hseen hs).imp_left hknown) hprinted

/-- A step that is not about the message: it may know more messages, and the rows of the message stay. -/
theorem OwnInv.frame (h : OwnInv i o channel w) {n : Net} (hch : (n.heap i).channel = (w.net.heap i).channel)
    (hon : n.prefs = w.net.prefs) (hknown : Known i o w.net → Known i o n)
    (hdb : ∀ db chan mine, w.net.db = some db → Holds o channel chan mine db → w.rows = mine.map (·.id) →
      ∃ db', n.db = some db' ∧ Holds o channel chan mine db') (labels : Table String Int) :
    OwnInv i o channel { w with net := n, pendingLabels := labels } := by
  obtain ⟨db, chan, mine, hw, hholds, hphase, hrows, hentries⟩ := h.rows
  obtain ⟨db', hw', hholds'⟩ := hdb db chan mine hw hholds hrows
  exact ⟨hch.trans h.target, by rw [hon]; exact h.on,
    db', chan, mine, hw', hholds', hphase.frame hknown labels, hrows, hentries⟩

theorem track_channel (n : Net) (m : String) (t : Int) (isHistory : Bool) :
    ((chathistoryTrackMsgidTs n i m t isHistory).heap i).channel = (n.heap i).channel := by
  unfold chathistoryTrackMsgidTs
  dsimp only
  split_ifs <;> simp [Net.upd]

theorem track_prefs (n : Net) (m : String) (t : Int) (isHistory : Bool) :
    (chathistoryTrackMsgidTs n i m t isHistory).prefs = n.prefs := by
  unfold chathistoryTrackMsgidTs
  dsimp only
  split_ifs <;> rfl

theorem track_knows (n : Net) (hm : o.msgid ≠ "") (isHistory : Bool) :
    Known i o (chathistoryTrackMsgidTs n i o.msgid o.timestamp isHistory) :=
  (track_known n i o.msgid o.timestamp isHistory _).2 (.inr ⟨hm, rfl⟩)

/-- **The check of a replay**: it finds the message when it is known or stored with this time. -/
theorem isDuplicate_holds {n : Net} {db : Sb} {chan : Int} {mine : List Msg} (hdb : n.db = some db)
    (hch : (n.heap i).channel = channel) (h : Holds o channel chan mine db) (hc : channel ≠ "")
    (hm : o.msgid ≠ "") :
    ((chathistoryIsDuplicateMsgid n i o.msgid o.timestamp).1 = true ↔ Known i o n ∨
      ∃ row ∈ mine, row.msgid = some o.msgid ∧ (o.timestamp = 0 ∨ row.timestamp = o.timestamp)) ∧
    ∃ db', (chathistoryIsDuplicateMsgid n i o.msgid o.timestamp).2 = { n with db := some db' } ∧
      Holds o channel chan mine db' := by
  unfold chathistoryIsDuplicateMsgid
  rw [if_neg hm, hch]
  by_cases hk : Known i o n
  · have hmem : dedupKey o.msgid o.timestamp ∈ (n.heap i).knownMsgids := hk
    rw [if_pos hmem]
    exact ⟨by simp [hk], db, by rw [← hdb], h⟩
  · have hmem : dedupKey o.msgid o.timestamp ∉ (n.heap i).knownMsgids := hk
    rw [if_neg hmem, if_neg hc]
    simp only [hdb]
    obtain ⟨hfound, hholds⟩ := h.hasMsgid hc hm o.timestamp
    exact ⟨by simp [hk, hfound], _, rfl, hholds⟩

/-- **The confirmation** puts the msgid in the place of the placeholder. -/
theorem confirm_alone {db : Sb} {chan : Int} {p : Msg} (hdb : w.net.db = some db)
    (hch : (w.net.heap i).channel = channel) (h : Holds o channel chan [p] db) (hc : channel ≠ "")
    (hm : o.msgid ≠ "") (hne : o.msgid ≠ o.key) (hp : p.msgid = some o.key) :
    ∃ db', scrollbackConfirmPending i w o.label o.msgid = { w with net := { w.net with db := some db' } } ∧
      Holds o channel chan [{ p with msgid := some o.msgid }] db' := by
  obtain ⟨hupd, hholds⟩ := h.update_alone hc hp hne
  unfold scrollbackConfirmPending
  rw [if_neg (by simp [o.label_ne, hm])]
  simp only [hdb, hch]
  rw [show pendingKey o.label = o.key from rfl, if_pos hupd]
  exact ⟨_, rfl, hholds⟩

/-- **The confirmation after a replay** drops the pending row and its line. -/
theorem confirm_both {db : Sb} {chan : Int} {p r : Msg} (hdb : w.net.db = some db)
    (hch : (w.net.heap i).channel = channel) (h : Holds o channel chan [p, r] db) (hc : channel ≠ "")
    (hm : o.msgid ≠ "") (hne : o.msgid ≠ o.key) (hp : p.msgid = some o.key) (hr : r.msgid = some o.msgid) :
    r.id ≠ p.id ∧ ∃ db', scrollbackConfirmPending i w o.label o.msgid =
        { w with
          net := { w.net with db := some db' }
          rows := w.rows.filter fun id => id ≠ p.id
          entries := resolvePendingDup w.entries p.id r.id } ∧
      Holds o channel chan [r] db' := by
  obtain ⟨hupd, h₁⟩ := h.update_refused hc hp hr hne
  have hfindr : ([p, r].find? fun m => m.msgid = some o.msgid) = some r := by simp [hp, hr, Ne.symm hne]
  have hfindp : ([p, r].find? fun m => m.msgid = some o.key) = some p := by simp [hp]
  obtain ⟨hreal, h₂⟩ := h₁.rowid hc (.inl rfl) hm hfindr
  obtain ⟨hpend, h₃⟩ := h₂.rowid hc (.inr rfl) o.key_ne hfindp
  obtain ⟨hdel, hdiff, h₄⟩ := h₃.delete_pending
  have hrpos := h.sane.idPos r (h.mem (r := r) (by simp)).1
  have hppos := h.sane.idPos p (h.mem (r := p) (by simp)).1
  refine ⟨hdiff, ?_⟩
  unfold scrollbackConfirmPending
  rw [if_neg (by simp [o.label_ne, hm])]
  simp only [hdb, hch]
  rw [show pendingKey o.label = o.key from rfl, hupd]
  simp only [hreal, hpend, hrpos, hppos, and_self, if_true, hdel]
  exact ⟨_, rfl, h₄⟩

/-- **A line of the message** under a msgid that no row has is stored, and has its rowid for an id. -/
theorem printOwn_own {db : Sb} (hdb : w.net.db = some db) (hs : db.Sane) (hon : w.net.prefs.textReplay = true)
    (hch : (w.net.heap i).channel = channel) (hc : channel ≠ "") {k : String} (hk : k = o.msgid ∨ k = o.key)
    (hne : k ≠ "") (hfree : ∀ row ∈ channelRows db.messages db.channels channel, row.msgid ≠ some k)
    (stamp : Int) (user : Bool) :
    ∃ db' chan row, printOwn i o w stamp (some k) user =
        { w with
          net := { w.net with db := some db' }
          rows := w.rows ++ [row.id]
          entries := w.entries ++ [some row.id]
          printed := w.printed + 1 } ∧
      row.timestamp = (if stamp = 0 then w.net.now else stamp) ∧ row.msgid = some k ∧
      (∀ id, channelLookup db.channels channel = some id → id = chan) ∧
      channelRows db.messages db.channels channel = ordered db.messages chan ∧
      Holds o channel chan (o.rowsIn chan db.messages ++ [row]) db' := by
  obtain ⟨chan, row, hpos, hts, hmsg, hsave, hsame, hall, hholds⟩ :=
    save_own hs hc hk hne hfree (if stamp = 0 then w.net.now else stamp) o.text user
  refine ⟨_, chan, row, ?_, hts, hmsg, hsame, hall, hholds⟩
  simp only [printOwn, scrollbackSaveMsg, hon, hdb, hch, Bool.true_eq_false, if_false, if_neg hc, hsave, if_pos hpos]

theorem Holds.free {db : Sb} {chan : Int} {p : Msg} {k : String} (h : Holds o channel chan [p] db)
    (hk : k = o.msgid ∨ k = o.key) (hp : p.msgid ≠ some k) :
    ∀ row ∈ channelRows db.messages db.channels channel, row.msgid ≠ some k := by
  intro row hrow hmsg
  rw [channelRows_of_lookup h.lookup] at hrow
  obtain ⟨hmem, hch⟩ := mem_ordered.1 hrow
  have hown : row ∈ o.rowsIn chan db.messages :=
    OwnMessage.mem_rowsIn.2 ⟨hmem, hch, hmsg ▸ hk.imp (congrArg some) (congrArg some)⟩
  rw [h.rows, List.mem_singleton] at hown
  exact hp (hown ▸ hmsg)

/-- The net after the echo is confirmed: only an ACTION is not tracked. -/
def trackEcho (i : Nat) (o : OwnMessage) (n : Net) : Net :=
  match o.sender with
  | .me => n
  | _ => chathistoryTrackMsgidTs n i o.msgid o.timestamp false

theorem echoOwn_confirmed (hpending : (w.pendingLabels.get o.label).isSome = true) : echoOwn i o w =
    scrollbackConfirmPending i { w with
      net := trackEcho i o w.net
      pendingLabels := w.pendingLabels.restrict fun l => l ≠ o.label
      echoed := true } o.label o.msgid := by
  unfold echoOwn trackEcho
  simp only [hpending, if_true]
  cases o.sender <;> rfl

theorem trackEcho_spec (n : Net) (hm : o.msgid ≠ "") :
    (trackEcho i o n).db = n.db ∧ ((trackEcho i o n).heap i).channel = (n.heap i).channel ∧
    (trackEcho i o n).prefs = n.prefs ∧ (Known i o n → Known i o (trackEcho i o n)) ∧
    (o.sender = .say → Known i o (trackEcho i o n)) := by
  unfold trackEcho
  cases hs : o.sender with
  | me => exact ⟨rfl, rfl, rfl, fun h => h, fun h => by cases h⟩
  | say | msg =>
    exact ⟨track_db _ _ _ _ _, track_channel _ _ _ _, track_prefs _ _ _ _,
      fun _ => track_knows n hm false, fun _ => track_knows n hm false⟩

/-- **The echo**, while its label is awaited. -/
theorem echoOwn_inv (h : OwnInv i o channel w) (hc : channel ≠ "") (hm : o.msgid ≠ "") (hne : o.msgid ≠ o.key)
    (hfirst : w.echoed = false) (hpending : (w.pendingLabels.get o.label).isSome = true) :
    OwnInv i o channel (echoOwn i o w) := by
  obtain ⟨db, chan, mine, hdb, hholds, hphase, hrows, hentries⟩ := h.rows
  obtain ⟨hndb, hnch, hnprefs, hknown, hsay⟩ := trackEcho_spec (i := i) w.net hm
  rw [echoOwn_confirmed hpending]
  cases hphase with
  | pending p hecho hp hts hseen hprinted =>
    obtain ⟨db', he, hholds'⟩ := confirm_alone (i := i) (w := { w with
      net := trackEcho i o w.net
      pendingLabels := w.pendingLabels.restrict fun l => l ≠ o.label
      echoed := true }) (hndb.trans hdb) (hnch.trans h.target) hholds hc hm hne hp
    rw [he]
    refine ⟨hnch.trans h.target, by rw [hnprefs]; exact h.on, db', chan, _, rfl, hholds', ?_, hrows, hentries⟩
    refine .kept _ rfl rfl (.inr hts) (fun hs => .inl ?_) fun _ => hprinted
    exact hs.elim hsay fun hr => hknown (hseen hr)
  | both p r hecho hp hr hearly hk =>
    obtain ⟨hdiff, db', he, hholds'⟩ := confirm_both (i := i) (w := { w with
      net := trackEcho i o w.net
      pendingLabels := w.pendingLabels.restrict fun l => l ≠ o.label
      echoed := true }) (hndb.trans hdb) (hnch.trans h.target) hholds hc hm hne hp hr
    rw [he]
    refine ⟨hnch.trans h.target, by rw [hnprefs]; exact h.on, db', chan, _, rfl, hholds', ?_, ?_, ?_⟩
    · refine .kept r rfl hr (.inl (hknown hk)) (fun _ => .inl (hknown hk)) fun hlate => ?_
      rw [hearly] at hlate
      cases hlate
    · show w.rows.filter _ = _
      simp [hrows, hdiff]
    · show resolvePendingDup w.entries _ _ = _
      simp [hentries, resolvePendingDup, hdiff]
  | kept r hecho => rw [hfirst] at hecho; cases hecho

/-- **A replay**: it is shown before the echo, and recognised after it. -/
theorem replayOwn_inv (h : OwnInv i o channel w) (hc : channel ≠ "") (hm : o.msgid ≠ "") (hne : o.msgid ≠ o.key)
    (hseen : w.echoed = false ∨ o.sender = .say ∨ w.replayed = true ∨ w.sentAt = o.timestamp) :
    OwnInv i o channel (replayOwn i o w) := by
  obtain ⟨db, chan, mine, hdb, hholds, hphase, hrows, hentries⟩ := h.rows
  obtain ⟨hdup, db', hn, hholds'⟩ := isDuplicate_holds hdb h.target hholds hc hm
  -- a message that is recognised stays where it is
  have hstays (hknown : Known i o w.net ∨ ∃ row ∈ mine, row.msgid = some o.msgid ∧
      (o.timestamp = 0 ∨ row.timestamp = o.timestamp)) : replayOwn i o w =
      { w with net := { w.net with db := some db' }, replayed := true, early := w.early || !w.echoed } := by
    unfold replayOwn
    simp only [hdup.2 hknown, if_true, hn]
  cases hphase with
  | pending p hecho hp hts hseen hprinted =>
    by_cases hk : Known i o w.net
    · rw [hstays (.inl hk)]
      exact ⟨h.target, h.on, db', chan, [p], rfl, hholds',
        .pending p hecho hp hts (fun _ => hk) hprinted, hrows, hentries⟩
    · -- it is shown again, and stored beside the pending row
      have hnew : (chathistoryIsDuplicateMsgid w.net i o.msgid o.timestamp).1 = false := by
        rw [← Bool.not_eq_true, hdup]
        rintro (hyes | ⟨row, hrow, hmsg, -⟩)
        · exact hk hyes
        · rw [List.mem_singleton.1 hrow, hp] at hmsg
          exact hne (Option.some.inj hmsg).symm
      unfold replayOwn
      simp only [hnew, hn, Bool.false_eq_true, if_false, inboundOwn]
      obtain ⟨db'', chan', row, he, -, hmsg, hsame, -, hholds''⟩ := printOwn_own (i := i) (o := o) (w := { w with
        net := chathistoryTrackMsgidTs (chathistoryTrackMsgidTs { w.net with db := some db' } i o.msgid o.timestamp true)
          i o.msgid o.timestamp false
        replayed := true
        early := w.early || !w.echoed })
        (by rw [track_db, track_db]) hholds'.sane (by rw [track_prefs, track_prefs]; exact h.on)
        (by rw [track_channel, track_channel]; exact h.target) hc (.inl rfl) hm
        (hholds'.free (.inl rfl) (by simp [hp, Ne.symm hne])) o.timestamp true
      rw [he]
      obtain rfl : chan = chan' := hsame chan hholds'.lookup
      rw [hholds'.rows] at hholds''
      refine ⟨?_, ?_, db'', chan, [p, row], rfl, hholds'', ?_, by simp [hrows], by simp [hentries]⟩
      · show ((chathistoryTrackMsgidTs _ i _ _ _).heap i).channel = channel
        rw [track_channel, track_channel]
        exact h.target
      · show (chathistoryTrackMsgidTs _ i _ _ _).prefs.textReplay = true
        rw [track_prefs, track_prefs]
        exact h.on
      · exact .both p row hecho hp hmsg (by simp [hecho]) (track_knows _ hm false)
  | both p r hecho hp hr hearly hknown =>
    rw [hstays (.inl hknown)]
    exact ⟨h.target, h.on, db', chan, [p, r], rfl, hholds',
      .both p r hecho hp hr (by simp [hearly]) hknown, hrows, hentries⟩
  | kept r hecho hr hts hkept hprinted =>
    have hrec : Known i o w.net ∨ r.timestamp = o.timestamp := by
      rcases hseen with hno | hsay | hre | hclock
      · rw [hecho] at hno
        cases hno
      · exact hkept (.inl hsay)
      · exact hkept (.inr hre)
      · exact hclock ▸ hts
    rw [hstays (hrec.imp_right fun ht => ⟨r, List.mem_singleton_self r, hr, .inr ht⟩)]
    refine ⟨h.target, h.on, db', chan, [r], rfl, hholds', ?_, hrows, hentries⟩
    refine .kept r hecho hr hts (fun _ => hrec) fun hlate => hprinted ?_
    simpa [hecho] using hlate

/-- **The sending** leaves one row under the placeholder. -/
theorem sendOwn_inv {n : Net} (labels : Table String Int) {db : Sb} (hdb : n.db = some db) (hs : db.Sane)
    (hon : n.prefs.textReplay = true) (hch : (n.heap i).channel = channel) (hc : channel ≠ "")
    (hnew : ∀ row ∈ channelRows db.messages db.channels channel, row.msgid ≠ some o.msgid ∧ row.msgid ≠ some o.key)
    (hsend : o.sender ≠ .msg) : OwnInv i o channel (sendOwn i o { net := n, pendingLabels := labels }) := by
  have hplace : o.placeholder = some o.key := by
    unfold OwnMessage.placeholder
    cases hsender : o.sender with
    | say => rfl
    | me => rfl
    | msg => exact absurd hsender hsend
  obtain ⟨db', chan, row, he, hts, hmsg, -, hall, hholds⟩ := printOwn_own (i := i) (o := o) (w := {
      net := n
      pendingLabels := labels.put o.label n.now
      sentAt := n.now }) hdb hs hon hch hc (.inr rfl) o.key_ne (fun row hrow => (hnew row hrow).2) 0 false
  have hnone : o.rowsIn chan db.messages = [] := by
    refine List.eq_nil_iff_forall_not_mem.2 fun r hr => ?_
    obtain ⟨hmem, hrch, hrmsg⟩ := OwnMessage.mem_rowsIn.1 hr
    obtain ⟨hmsgid, hkey⟩ := hnew r (hall ▸ mem_ordered.2 ⟨hmem, hrch⟩)
    exact hrmsg.elim hmsgid hkey
  rw [hnone] at hholds
  unfold sendOwn
  rw [hplace, he]
  exact ⟨hch, hon, db', chan, [row], rfl, hholds, .pending row rfl hmsg hts (fun h => by cases h) rfl, rfl, rfl⟩

end Steps

/-- The rows of the window's channel. -/
def Own.stored (i : Nat) (w : Own) : List Msg :=
  match w.net.db with
  | none => []
  | some db => channelRows db.messages db.channels (w.net.heap i).channel

/-- **The message is kept exactly once**: one row was stored for it and is left, under its msgid, no row
has its placeholder, and one line shows it; it was printed once unless a replay came before the echo. -/
structure Kept (i : Nat) (o : OwnMessage) (w : Own) : Prop where
  one : ∃ row ∈ w.stored i, w.rows = [row.id] ∧ row.msgid = some o.msgid ∧
    ∀ row' ∈ w.stored i, row'.msgid = some o.msgid → row' = row
  confirmed : ∀ row ∈ w.stored i, row.msgid ≠ some o.key
  shown : w.entries.length = 1
  printed : w.early = false → w.printed = 1

/-- Other traffic, and an echo that comes once. -/
def Traffic (o : OwnMessage) (channel : String) (w : Own) : OwnEvent → Prop
  | .echo => w.echoed = false
  | .stored op => Foreign o channel w.rows op
  | _ => True

/-- What the echo and a replay need: the label is still awaited; and a replay that follows the echo of an
ACTION follows another replay too, or the clock showed the server's time when the message was sent. -/
def Fits (o : OwnMessage) (w : Own) : OwnEvent → Prop
  | .echo => (w.pendingLabels.get o.label).isSome = true
  | .replay => w.echoed = false ∨ o.sender = .say ∨ w.replayed = true ∨ w.sentAt = o.timestamp
  | _ => True

section Runs

variable {i : Nat} {o : OwnMessage} {channel : String} {w : Own}

theorem OwnEvent.step_inv (h : OwnInv i o channel w) (hc : channel ≠ "") (hm : o.msgid ≠ "")
    (hne : o.msgid ≠ o.key) {ev : OwnEvent} (htraffic : Traffic o channel w ev) (hfits : Fits o w ev) :
    OwnInv i o channel (ev.step i o w) := by
  cases ev with
  | echo => exact echoOwn_inv h hc hm hne htraffic hfits
  | replay => exact replayOwn_inv h hc hm hne hfits
  | sweep => exact h.frame rfl rfl id (fun db _ _ hdb hholds _ => ⟨db, hdb, hholds⟩) _
  | clock now =>
    exact h.frame (n := { w.net with now := now }) rfl rfl id (fun db _ _ hdb hholds _ => ⟨db, hdb, hholds⟩) _
  | stored op =>
    refine h.frame (n := w.net.store fun db => Scrollback.step db op) rfl rfl id ?_ _
    intro db chan mine hdb hholds hrows
    refine ⟨Scrollback.step db op, by simp [Net.store, hdb], step_frame hholds ?_⟩
    rw [← hrows]
    exact htraffic
  | handled m t isHistory =>
    refine h.frame (track_channel _ _ _ _) (track_prefs _ _ _ _) (fun hk => (track_known _ _ _ _ _ _).2 (.inl hk)) ?_ _
    intro db chan mine hdb hholds _
    exact ⟨db, by rw [track_db]; exact hdb, hholds⟩
  | labelled counter => exact h.frame rfl rfl id (fun db _ _ hdb hholds _ => ⟨db, hdb, hholds⟩) _
  | answered counter => exact h.frame rfl rfl id (fun db _ _ hdb hholds _ => ⟨db, hdb, hholds⟩) _

theorem OwnInv.kept (h : OwnInv i o channel w) (hne : o.msgid ≠ o.key) (hecho : w.echoed = true) : Kept i o w := by
  obtain ⟨db, chan, mine, hdb, hholds, hphase, hrows, hentries⟩ := h.rows
  cases hphase with
  | pending p hno => rw [hecho] at hno; cases hno
  | both p r hno => rw [hecho] at hno; cases hno
  | kept r _ hr _ _ hprinted =>
    have hstored : w.stored i = ordered db.messages chan := by
      simp only [Own.stored, hdb, h.target]
      exact channelRows_of_lookup hholds.lookup
    have honly (row : Msg) (hrow : row ∈ ordered db.messages chan)
        (hmsg : row.msgid = some o.msgid ∨ row.msgid = some o.key) : row = r := by
      obtain ⟨hmem, hch⟩ := mem_ordered.1 hrow
      have hown := OwnMessage.mem_rowsIn.2 ⟨hmem, hch, hmsg⟩
      rw [hholds.rows] at hown
      exact List.mem_singleton.1 hown
    refine ⟨⟨r, ?_, hrows, hr, ?_⟩, ?_, by simp [hentries], hprinted⟩
    · rw [hstored]
      exact mem_ordered.2 (hholds.mem (List.mem_singleton_self r))
    · intro row hrow hmsg
      exact honly row (hstored ▸ hrow) (.inl hmsg)
    · intro row hrow hkey
      rw [honly row (hstored ▸ hrow) (.inr hkey), hr] at hkey
      exact hne (Option.some.inj hkey)

theorem printOwn_echoed (stamp : Int) (m : Option String) (user : Bool) :
    (printOwn i o w stamp m user).echoed = w.echoed := rfl

theorem confirm_echoed (label m : String) : (scrollbackConfirmPending i w label m).echoed = w.echoed := by
  unfold scrollbackConfirmPending
  dsimp only
  repeat' split
  all_goals rfl

theorem OwnEvent.step_echoed (ev : OwnEvent) : (ev.step i o w).echoed = (w.echoed || decide (ev = .echo)) := by
  cases ev with
  | echo =>
    simp only [OwnEvent.step, echoOwn]
    split
    · split <;> simp [confirm_echoed]
    · simp [inboundOwn, printOwn_echoed]
  | replay =>
    simp only [OwnEvent.step, replayOwn]
    split <;> simp [inboundOwn, printOwn_echoed]
  | _ => simp [OwnEvent.step, staleSweep]

theorem run_echoed (evs : List OwnEvent) :
    (evs.foldl (OwnEvent.step i o) w).echoed = (w.echoed || decide (.echo ∈ evs)) := by
  induction evs generalizing w with
  | nil => simp
  | cons ev evs ih =>
    rw [List.foldl_cons, ih, OwnEvent.step_echoed]
    simp [Bool.or_assoc, eq_comm]

end Runs

end PoxChat.Outbound
