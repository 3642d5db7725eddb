import PoxChat.ChatHistory.GapFill
import PoxChat.ChatHistory.GapOwners
import PoxChat.Outbound.OwnMessages

/-!
# Holes after a reconnect

What was said while the client was away is fetched by the LATEST that the deferred start sends.  Its
reference, and the start of the gap that is recorded when the reply does not reach back far enough,
are the newest row of the channel *when the deferred start reads it*: by then the client's own JOIN,
the topic and the "Reconnected" line may be stored.

* `latestAfter` — what a truthful server answers: the newest messages after the reference, up to the
  limit.
* `ReconnectEvent` — the lines of the channel, the deferred start and the reply, in any order.

Principal results: `Replaying.finish` — what the reply leaves out lies in the gap that is recorded;
`holes_recorded` — every LATEST phase ends without an unrecorded hole, when no missing message lies behind
what the deferred start took for the newest row.  `join_hides_hole` is a run in which one does.
-/

set_option autoImplicit false

namespace PoxChat.ChatHistory

open Lib Scrollback Outbound

/-! ## The server -/

/-- What is kept after a message; one that is no longer kept is older than all that is. -/
def afterMsgid (msgid : String) (history : List BatchMessage) : List BatchMessage :=
  if history.any fun m => m.msgid = some msgid then (history.dropWhile fun m => m.msgid ≠ some msgid).drop 1
  else history

/-- What is kept after a reference; `past` is how the server reads a timestamp. -/
def afterReference (past : String → BatchMessage → Bool) (history : List BatchMessage) (reference : Option String) :
    List BatchMessage :=
  match reference.filter (· ≠ "") with
  | none => history
  | some ref =>
    if isMsgidRef ref then afterMsgid (String.ofList (ref.toList.drop 6)) history else history.filter (past ref)

/-- The answer to `CHATHISTORY LATEST`: the newest messages after the reference, up to the limit. -/
def latestAfter (past : String → BatchMessage → Bool) (history : List BatchMessage) (reference : Option String)
    (limit : Int) : List BatchMessage :=
  let messages := afterReference past history reference
  messages.drop (messages.length - limit.toNat)

/-- A history in the order of its times, of messages that have a msgid and a time. -/
structure Chronicle (history : List BatchMessage) : Prop where
  sorted : history.Pairwise fun a b => a.timestamp ≤ b.timestamp
  command : ∀ m ∈ history, m.command.isSome = true
  msgid : ∀ m ∈ history, ∃ id, m.msgid = some id ∧ id ≠ ""
  time : ∀ m ∈ history, 0 < m.timestamp
  context : ∀ m ∈ history, m.context = false

/-! ## The lines of the channel -/

/-- `scrollback_session_has_msgid`. -/
def scrollbackSessionHasMsgid (n : Net) (i : Nat) (msgid : String) (timestamp : Int) : Bool × Net :=
  if (n.heap i).channel = "" ∨ msgid = "" then (false, n)
  else
    match n.db with
    | none => (false, n)
    | some db =>
      let (found, db) := scrollbackHasMsgid db (n.heap i).channel msgid timestamp
      (found, { n with db := some db })

/-- The end of `inbound_ujoin`: the JOIN is stored, a "Reconnected" line is stored behind one that restores
a membership, and the deferred start is scheduled. -/
def recordJoin (n : Net) (i : Nat) (msgid : Option String) (timestamp : Int) (joinText reconnectText : String) : Net :=
  let disconnectRef := if n.serv.lastDisconnectTime = 0 then (n.heap i).scrollbackNewestTime
    else n.serv.lastDisconnectTime
  let restored := decide (0 < timestamp ∧ 0 < disconnectRef ∧ timestamp ≤ disconnectRef)
  let (alreadyRecorded, n) := match msgid with
    | some m => if restored then scrollbackSessionHasMsgid n i m timestamp else (false, n)
    | none => (false, n)
  let n := if alreadyRecorded then n else (scrollbackSaveMsg n i joinText timestamp msgid false).2
  let n := if restored then (scrollbackSaveMsg n i reconnectText n.now none false).2 else n
  chathistoryScheduleDeferred n

/-- `inbound_ujoin` for a channel that has a window. -/
def inboundUjoin (n : Net) (i : Nat) (msgid : Option String) (timestamp : Int) (joinText reconnectText : String) : Net :=
  match msgid with
  | none => recordJoin n i none timestamp joinText reconnectText
  | some m =>
    let (duplicate, n) := chathistoryIsDuplicateMsgid n i m timestamp
    if duplicate then n
    else
      let n := (chathistoryTrackMsgidTs n i m timestamp false).upd i fun s => { s with joinMsgid := some m }
      recordJoin n i (some m) timestamp joinText reconnectText

/-- Another line of the channel is tracked, if it has a msgid, and stored. -/
def receiveLine (n : Net) (i : Nat) (msgid : Option String) (timestamp : Int) (text : String) (isUserMsg : Bool) : Net :=
  let n := match msgid with
    | some m => chathistoryTrackMsgidTs n i m timestamp false
    | none => n
  (scrollbackSaveMsg n i text timestamp msgid isUserMsg).2

/-! ## Runs -/

/-- What happens to the channel after a reconnect. -/
inductive ReconnectEvent where
  | join (msgid : Option String) (timestamp : Int) (joinText reconnectText : String)
  | line (msgid : Option String) (timestamp : Int) (text : String) (isUserMsg : Bool)
  | clock (now : Int)
  | deferredStart
  | reply (chathistoryEnd : Bool)
  | tick (chunk : Nat)

/-- The LATEST that is in flight. -/
def latestAsked (n : Net) (i : Nat) : Option Chreq := (n.heap i).chActive.filter fun r => r.type = .latest

section

variable (past : String → BatchMessage → Bool) (history : List BatchMessage) (i : Nat)

/-- The batch that answers a LATEST. -/
def latestBatch (n : Net) (req : Chreq) (chathistoryEnd : Bool) : Batch :=
  ⟨some (n.heap i).channel, none, chathistoryEnd,
    latestAfter past history req.reference (getEffectiveLimit n.serv req.limit)⟩

/-- The client after an event; a request is answered once. -/
def reconnectStep (c : Client) : ReconnectEvent → Client
  | .join msgid timestamp joinText reconnectText =>
    { c with net := inboundUjoin c.net i msgid timestamp joinText reconnectText }
  | .line msgid timestamp text isUserMsg => { c with net := receiveLine c.net i msgid timestamp text isUserMsg }
  | .clock now => step c (.clock now)
  | .deferredStart => step c .deferredStart
  | .reply chathistoryEnd =>
    match latestAsked c.net i with
    | none => c
    | some req => if c.chunks = [] then step c (.batch (latestBatch past history i c.net req chathistoryEnd)) else c
  | .tick id => step c (.chunkTick id)

end

/-! ## What is kept -/

/-- A row of the channel has the msgid. -/
def HasRow (n : Net) (ch id : String) : Prop :=
  ∃ db, n.db = some db ∧ ∃ row ∈ channelRows db.messages db.channels ch, row.msgid = some id

/-- The time lies in a gap of the channel. -/
def InGap (n : Net) (ch : String) (t : Int) : Prop :=
  ∃ db, n.db = some db ∧ ∃ g ∈ db.gaps, channelLookup db.channels ch = some g.channelId ∧ g.startTs ≤ t ∧ t ≤ g.endTs

/-- The message is stored, or its time lies in a gap. -/
def Accounted (n : Net) (ch : String) (m : BatchMessage) : Prop :=
  (∃ id, m.msgid = some id ∧ HasRow n ch id) ∨ InGap n ch m.timestamp

/-- The store is sane, and what was accounted for still is. -/
structure Extends (ch : String) (n n' : Net) : Prop where
  sane : ∃ db, n'.db = some db ∧ db.Sane
  rows : ∀ id, HasRow n ch id → HasRow n' ch id
  gaps : ∀ t, InGap n ch t → InGap n' ch t

/-- Rows are only added, and the ledger is as it was. -/
structure Grown (db db' : Sb) : Prop where
  sane : db'.Sane
  lookups : ∀ name id, channelLookup db.channels name = some id → channelLookup db'.channels name = some id
  rows : ∀ row ∈ db.messages, row ∈ db'.messages
  gaps : db'.gaps = db.gaps

section Kept

variable {ch : String} {n n' n'' : Net} {db db' db'' : Sb}

theorem mem_channelRows {row : Msg} : row ∈ channelRows db.messages db.channels ch ↔
    ∃ id, channelLookup db.channels ch = some id ∧ row ∈ db.messages ∧ row.channelId = id := by
  unfold channelRows
  cases channelLookup db.channels ch with
  | none => simp
  | some id => simp [mem_ordered, and_comm, eq_comm]

theorem Extends.refl (h : ∃ db, n.db = some db ∧ db.Sane) : Extends ch n n := ⟨h, fun _ h => h, fun _ h => h⟩

theorem Extends.trans (h : Extends ch n n') (h' : Extends ch n' n'') : Extends ch n n'' :=
  ⟨h'.sane, fun id hr => h'.rows id (h.rows id hr), fun t hg => h'.gaps t (h.gaps t hg)⟩

theorem Extends.of_db (h : ∃ db, n.db = some db ∧ db.Sane) (hd : n'.db = n.db) : Extends ch n n' := by
  refine ⟨hd ▸ h, fun id hr => ?_, fun t hg => ?_⟩
  · unfold HasRow at *
    rwa [hd]
  · unfold InGap at *
    rwa [hd]

theorem Extends.accounted (h : Extends ch n n') {m : BatchMessage} (hm : Accounted n ch m) : Accounted n' ch m := by
  rcases hm with ⟨id, hid, hr⟩ | hg
  · exact .inl ⟨id, hid, h.rows id hr⟩
  · exact .inr (h.gaps _ hg)

theorem Grown.refl (hs : db.Sane) : Grown db db := ⟨hs, fun _ _ h => h, fun _ h => h, rfl⟩

theorem Grown.trans (h : Grown db db') (h' : Grown db' db'') : Grown db db'' :=
  ⟨h'.sane, fun name id hl => h'.lookups name id (h.lookups name id hl), fun r hr => h'.rows r (h.rows r hr),
    h'.gaps.trans h.gaps⟩

theorem Grown.extends (h : Grown db db') (hd : n.db = some db) (hd' : n'.db = some db') : Extends ch n n' := by
  refine ⟨⟨db', hd', h.sane⟩, ?_, ?_⟩
  · rintro id ⟨db₀, hd₀, row, hrow, hid⟩
    rw [hd] at hd₀
    cases hd₀
    obtain ⟨chan, hl, hmem, hch⟩ := mem_channelRows.1 hrow
    exact ⟨db', hd', row, mem_channelRows.2 ⟨chan, h.lookups ch chan hl, h.rows row hmem, hch⟩, hid⟩
  · rintro t ⟨db₀, hd₀, g, hg, hl, hin⟩
    rw [hd] at hd₀
    cases hd₀
    exact ⟨db', hd', g, h.gaps ▸ hg, h.lookups ch _ hl, hin⟩

/-- Looking a channel up may add it. -/
theorem resolve_grown (hs : db.Sane) (channel : String) : Grown db (scrollbackGetChannelId db channel).2 := by
  obtain ⟨id, channels, cache, he, hr⟩ := scrollbackGetChannelId_resolves hs channel
  rw [he]
  exact ⟨hr.sane, hr.keepsLookups, fun _ h => h, rfl⟩

theorem hasMsgid_grown (hs : db.Sane) (channel m : String) (t : Int) : Grown db (scrollbackHasMsgid db channel m t).2 := by
  unfold scrollbackHasMsgid
  split
  · exact .refl hs
  · dsimp only
    split <;> exact resolve_grown hs channel

theorem newestMsgid_grown (hs : db.Sane) (channel : String) : Grown db (scrollbackGetNewestMsgid db channel).2 := by
  unfold scrollbackGetNewestMsgid
  dsimp only
  split <;> exact resolve_grown hs channel

theorem newestTime_grown (hs : db.Sane) (channel : String) : Grown db (scrollbackGetNewestTime db channel).2 := by
  unfold scrollbackGetNewestTime
  dsimp only
  split <;> exact resolve_grown hs channel

/-- **A save** adds a row or finds its msgid taken. -/
theorem save_grown (hs : db.Sane) (channel : String) (t : Int) (msgid : Option String) (text : String) (isUserMsg : Bool) :
    Grown db (scrollbackDbSave db channel t msgid text isUserMsg).2 := by
  have hk := scrollbackDbSave_keeps hs channel t msgid text isUserMsg
  refine ⟨hk.sane, hk.lookups, fun row hrow => ?_, hk.gaps⟩
  have hmem := (resolve_grown hs channel).rows row hrow
  simp only [scrollbackDbSave]
  split
  · exact hmem
  · split
    · exact hmem
    · rw [chanCacheNoteInsert_eq, ftsNoteInsert_eq]
      exact List.mem_append_left _ hmem

theorem save_hasRow (hs : db.Sane) {channel m : String} (hc : channel ≠ "") (hm : m ≠ "") (t : Int) (text : String)
    (isUserMsg : Bool) :
    ∃ row ∈ channelRows (scrollbackDbSave db channel t (some m) text isUserMsg).2.messages
      (scrollbackDbSave db channel t (some m) text isUserMsg).2.channels channel, row.msgid = some m := by
  obtain ⟨id, channels, cache, he, hr⟩ := scrollbackGetChannelId_resolves hs channel
  obtain ⟨hpos, hl⟩ : 0 < id ∧ channelLookup channels channel = some id := hr.answer.resolve_left fun h => hc h.1
  have hid : ¬ id < 0 := by omega
  simp only [scrollbackDbSave, he, if_neg hid]
  cases hins : insertMessage db.messages id t (some m) text isUserMsg with
  | none =>
    have htaken : ∃ row ∈ db.messages, row.channelId = id ∧ row.msgid = some m := by
      simpa [insertMessage, hm] using hins
    obtain ⟨row, hrow, hch, hmsg⟩ := htaken
    refine ⟨row, ?_, hmsg⟩
    simp only [channelRows, hl]
    exact mem_ordered.2 ⟨hrow, hch⟩
  | some row =>
    have hmsg := insertMessage_msgid hins
    rw [if_neg (by simp [hm])] at hmsg
    refine ⟨row, ?_, hmsg⟩
    dsimp only
    rw [chanCacheNoteInsert_eq, ftsNoteInsert_eq]
    simp only [channelRows, hl]
    exact mem_ordered.2 ⟨by simp, (insertMessage_eq_some hins).2.1⟩

/-- Calls of the handlers that only save. -/
def OnlySaves (ops : List Op) : Prop := ∀ op ∈ ops, ∃ channel t msgid text isUserMsg, op = .save channel t msgid text isUserMsg

theorem run_saves {ops : List Op} (hs : db.Sane) (hops : OnlySaves ops) : Grown db (Scrollback.run db ops) ∧
    ∀ channel m t text isUserMsg, channel ≠ "" → m ≠ "" → .save channel t (some m) text isUserMsg ∈ ops →
      ∃ row ∈ channelRows (Scrollback.run db ops).messages (Scrollback.run db ops).channels channel,
        row.msgid = some m := by
  induction ops generalizing db with
  | nil => exact ⟨.refl hs, fun _ _ _ _ _ _ _ hno => absurd hno List.not_mem_nil⟩
  | cons op ops ih =>
    obtain ⟨ch', t', msgid', text', user', rfl⟩ := hops op (by simp)
    have hfirst : Grown db (Scrollback.step db (.save ch' t' msgid' text' user')) := save_grown hs ch' t' msgid' text' user'
    obtain ⟨hrest, hstored⟩ := ih hfirst.sane fun op hop => hops op (by simp [hop])
    refine ⟨hfirst.trans hrest, fun channel m t text user hc hm hmem => ?_⟩
    rcases List.mem_cons.1 hmem with he | hmem
    · obtain ⟨rfl, rfl, rfl, rfl, rfl⟩ : channel = ch' ∧ t = t' ∧ some m = msgid' ∧ text = text' ∧ user = user' := by
        simpa using he
      obtain ⟨row, hrow, hmsg⟩ := save_hasRow hs hc hm t text user
      obtain ⟨id, hl, hmem, hid⟩ := mem_channelRows.1 hrow
      exact ⟨row, mem_channelRows.2 ⟨id, hrest.lookups channel id hl, hrest.rows row hmem, hid⟩, hmsg⟩
    · exact hstored channel m t text user hc hm hmem

end Kept

/-! ## Sessions in order -/

/-- The sessions are found under their names as before. -/
structure Named (n n' : Net) : Prop where
  sessList : n'.sessList = n.sessList
  names : ∀ j, (n'.heap j).type = (n.heap j).type ∧ (n'.heap j).channel = (n.heap j).channel
  pCmp : n'.serv.pCmp = n.serv.pCmp

/-- What a session's queue and its catch-up depend on. -/
structure Progress where
  active : Option Chreq
  pending : Option Chreq
  loading : Bool
  inProgress : Bool
  isBefore : Bool
  lowerBound : Int
  prevNewestTime : Int

def Session.progress (s : Session) : Progress :=
  ⟨s.chActive, s.chPending, s.historyLoading, s.catchupInProgress, s.catchupIsBefore, s.catchupLowerBound,
    s.catchupPrevNewestTime⟩

/-- The catch-up of session `i` is where it was. -/
structure Received (i : Nat) (n n' : Net) : Prop extends Named n n' where
  prefs : n'.prefs = n.prefs
  handlers : n'.handlers = n.handlers
  progress : (n'.heap i).progress = (n.heap i).progress

/-- The handlers store every message of the history, and do nothing else to the store. -/
structure StoresAll (h : Handlers) (history : List BatchMessage) : Prop where
  saves : ∀ s, ∀ m ∈ history, OnlySaves (h.stores s m)
  stored : ∀ s, ∀ m ∈ history, ∃ text isUserMsg, .save s.channel m.timestamp m.msgid text isUserMsg ∈ h.stores s m

/-- The session is in the LATEST phase that this request belongs to. -/
structure InLatest (s : Session) (req : Chreq) : Prop where
  gapId : req.gapId = 0
  inProgress : s.catchupInProgress = true
  isLatest : s.catchupIsBefore = false
  bound : CHATHISTORY_FUZZ_INTERVAL < s.catchupPrevNewestTime →
    s.catchupLowerBound = s.catchupPrevNewestTime - CHATHISTORY_FUZZ_INTERVAL

/-- The channel `ch`, open as session `i`: what it has tracked is stored, and the only requests in its
queue are those of its catch-up. -/
structure Steady (history : List BatchMessage) (ch : String) (i : Nat) (n : Net) : Prop where
  sane : ∃ db, n.db = some db ∧ db.Sane
  found : findSessionForTarget n ch = some i
  channel : (n.heap i).channel = ch
  named : ch ≠ ""
  gapfill : n.prefs.gapfill = true
  textReplay : n.prefs.textReplay = true
  handlers : StoresAll n.handlers history
  known : ∀ key ∈ (n.heap i).knownMsgids, ∃ m t, 0 < t ∧ dedupKey m t = key ∧ HasRow n ch m
  joined : ∀ m, (n.heap i).joinMsgid = some m → m ≠ "" → HasRow n ch m
  pending : (n.heap i).chPending = none
  loading : (n.heap i).historyLoading = (n.heap i).chActive.isSome
  phase : ∀ req, latestAsked n i = some req → InLatest (n.heap i) req

section Sessions

variable {history : List BatchMessage} {ch : String} {i : Nat} {n n' n'' : Net}

theorem Named.refl (n : Net) : Named n n := ⟨rfl, fun _ => ⟨rfl, rfl⟩, rfl⟩

theorem Named.trans (h : Named n n') (h' : Named n' n'') : Named n n'' :=
  ⟨h'.sessList.trans h.sessList, fun j => ⟨(h'.names j).1.trans (h.names j).1, (h'.names j).2.trans (h.names j).2⟩,
    h'.pCmp.trans h.pCmp⟩

theorem Named.find (h : Named n n') (target : String) : findSessionForTarget n' target = findSessionForTarget n target := by
  have hnames := fun j => (h.names j)
  simp only [findSessionForTarget, findChannel, findDialog, h.sessList, h.pCmp, fun j => (h.names j).1,
    fun j => (h.names j).2]

theorem Shown.named (h : Shown n n') : Named n n' := by
  obtain ⟨heap, db, rfl, hs, -⟩ := h
  refine ⟨rfl, fun j => ?_, rfl⟩
  obtain ⟨_, _, _, _, hj, _⟩ := hs j
  simp [hj]

theorem Steady.mem (h : Steady history ch i n) : i ∈ n.sessList := by
  have hf := h.found
  unfold findSessionForTarget at hf
  rw [if_neg h.named] at hf
  cases hc : findChannel n ch with
  | some j =>
    rw [hc] at hf
    cases hf
    exact List.mem_of_find?_eq_some hc
  | none =>
    rw [hc] at hf
    exact List.mem_of_find?_eq_some hf

theorem Received.refl (i : Nat) (n : Net) : Received i n n := ⟨.refl n, rfl, rfl, rfl⟩

theorem Received.trans (h : Received i n n') (h' : Received i n' n'') : Received i n n'' :=
  ⟨h.toNamed.trans h'.toNamed, h'.prefs.trans h.prefs, h'.handlers.trans h.handlers, h'.progress.trans h.progress⟩

theorem Shown.received (h : Shown n n') (i : Nat) : Received i n n' := by
  have hnamed := h.named
  obtain ⟨heap, db, rfl, hs, -⟩ := h
  refine ⟨hnamed, rfl, rfl, ?_⟩
  obtain ⟨_, _, _, _, hj, _⟩ := hs i
  simp [hj, Session.progress]

theorem Received.latestAsked (h : Received i n n') : latestAsked n' i = latestAsked n i := by
  have hactive : (n'.heap i).chActive = (n.heap i).chActive := congrArg Progress.active h.progress
  unfold ChatHistory.latestAsked
  rw [hactive]

/-- **Replayed and live messages** leave the session in order, as far as what they track is stored. -/
theorem Steady.received (h : Steady history ch i n) (hr : Received i n n') (he : Extends ch n n')
    (hk : ∀ key ∈ (n'.heap i).knownMsgids, key ∈ (n.heap i).knownMsgids ∨ ∃ m t, 0 < t ∧ dedupKey m t = key ∧ HasRow n' ch m)
    (hj : ∀ m, (n'.heap i).joinMsgid = some m → (n.heap i).joinMsgid = some m ∨ m = "" ∨ HasRow n' ch m) :
    Steady history ch i n' where
  sane := he.sane
  found := (hr.find ch).trans h.found
  channel := (hr.names i).2.trans h.channel
  named := h.named
  gapfill := by
    rw [hr.prefs]
    exact h.gapfill
  textReplay := by
    rw [hr.prefs]
    exact h.textReplay
  handlers := by
    rw [hr.handlers]
    exact h.handlers
  known key hkey := by
    rcases hk key hkey with hold | hnew
    · obtain ⟨m, t, ht, hkey, hrow⟩ := h.known key hold
      exact ⟨m, t, ht, hkey, he.rows m hrow⟩
    · exact hnew
  joined m hm hne := by
    rcases hj m hm with hold | hnil | hrow
    · exact he.rows m (h.joined m hold hne)
    · exact absurd hnil hne
    · exact hrow
  pending := (congrArg Progress.pending hr.progress).trans h.pending
  loading := by
    have hloading : (n'.heap i).historyLoading = (n.heap i).historyLoading := congrArg Progress.loading hr.progress
    have hactive : (n'.heap i).chActive = (n.heap i).chActive := congrArg Progress.active hr.progress
    rw [hloading, hactive]
    exact h.loading
  phase req hreq := by
    rw [hr.latestAsked] at hreq
    obtain ⟨hgap, hin, hlatest, hbound⟩ := h.phase req hreq
    have hprev : (n'.heap i).catchupPrevNewestTime = (n.heap i).catchupPrevNewestTime :=
      congrArg Progress.prevNewestTime hr.progress
    have hlow : (n'.heap i).catchupLowerBound = (n.heap i).catchupLowerBound := congrArg Progress.lowerBound hr.progress
    refine ⟨hgap, (congrArg Progress.inProgress hr.progress).trans hin,
      (congrArg Progress.isBefore hr.progress).trans hlatest, ?_⟩
    rw [hprev, hlow]
    exact hbound

theorem Steady.shown (h : Steady history ch i n) (hs : Shown n n') (he : Extends ch n n')
    (hk : ∀ key ∈ (n'.heap i).knownMsgids, key ∈ (n.heap i).knownMsgids ∨ ∃ m t, 0 < t ∧ dedupKey m t = key ∧ HasRow n' ch m) :
    Steady history ch i n' := by
  refine h.received (hs.received i) he hk fun m hm => .inl ?_
  obtain ⟨heap, db, rfl, hall, -⟩ := hs
  obtain ⟨_, _, _, _, hcore, -⟩ := hall i
  simpa [hcore] using hm

/-- A step that leaves the session alone. -/
theorem Steady.carried (h : Steady history ch i n) (hr : Received i n n') (he : Extends ch n n')
    (hk : (n'.heap i).knownMsgids = (n.heap i).knownMsgids) (hj : (n'.heap i).joinMsgid = (n.heap i).joinMsgid) :
    Steady history ch i n' :=
  h.received hr he (fun _ hkey => .inl (hk ▸ hkey)) fun _ hm => .inl (hj ▸ hm)

theorem track_known_or (j : Nat) (m : String) (t : Int) (isHistory : Bool) {key : String}
    (hkey : key ∈ ((chathistoryTrackMsgidTs n j m t isHistory).heap i).knownMsgids) :
    key ∈ (n.heap i).knownMsgids ∨ dedupKey m t = key := by
  by_cases hj : j = i
  · subst hj
    exact ((track_known n j m t isHistory key).1 hkey).imp_right (·.2)
  · left
    unfold chathistoryTrackMsgidTs at hkey
    dsimp only at hkey
    split at hkey
    · exact hkey
    · split at hkey
      · exact hkey
      · simpa [Net.upd, Ne.symm hj] using hkey

theorem isDuplicate_extends (h : ∃ db, n.db = some db ∧ db.Sane) (m : String) (t : Int) :
    Extends ch n (chathistoryIsDuplicateMsgid n i m t).2 := by
  obtain ⟨db, hd, hs⟩ := h
  unfold chathistoryIsDuplicateMsgid
  split_ifs
  · exact .refl ⟨db, hd, hs⟩
  · exact .refl ⟨db, hd, hs⟩
  · exact .refl ⟨db, hd, hs⟩
  · simp only [hd]
    exact (hasMsgid_grown hs _ m t).extends hd rfl

/-- What is reported known is stored. -/
theorem Steady.duplicate_stored (h : Steady history ch i n) {m : String} {t : Int} (hm : m ≠ "") (ht : 0 < t)
    (hdup : (chathistoryIsDuplicateMsgid n i m t).1 = true) : HasRow n ch m := by
  obtain ⟨db, hd, hs⟩ := h.sane
  have hc : (n.heap i).channel ≠ "" := by
    rw [h.channel]
    exact h.named
  unfold chathistoryIsDuplicateMsgid at hdup
  rw [if_neg hm] at hdup
  split at hdup
  · rename_i hknown
    obtain ⟨m', t', ht', hkey, hrow⟩ := h.known _ hknown
    obtain ⟨rfl, rfl⟩ := dedupKey_inj ht' ht hkey
    exact hrow
  · simp only [hd] at hdup
    obtain ⟨row, hrow, hid, -⟩ := (hasMsgid_spec hs hc hm ht).1.1 hdup
    exact ⟨db, hd, row, h.channel ▸ hrow, hid⟩

theorem runHandlers_stores (h : ∃ db, n.db = some db ∧ db.Sane) (hh : StoresAll n.handlers history)
    (hch : (n.heap i).channel = ch) (hne : ch ≠ "") {msg : BatchMessage} (hmsg : msg ∈ history) {m : String}
    (hid : msg.msgid = some m) (hm : m ≠ "") :
    Extends ch n (runHandlers n i msg) ∧ HasRow (runHandlers n i msg) ch m ∧
      ∀ key ∈ ((runHandlers n i msg).heap i).knownMsgids, key ∈ (n.heap i).knownMsgids ∨ dedupKey m msg.timestamp = key := by
  obtain ⟨db, hd, hs⟩ := h
  obtain ⟨hgrown, hstored⟩ := run_saves hs (hh.saves (n.heap i) msg hmsg)
  obtain ⟨text, user, hsave⟩ := hh.stored (n.heap i) msg hmsg
  have hdb : (n.store fun db => Scrollback.run db (n.handlers.stores (n.heap i) msg)).db =
      some (Scrollback.run db (n.handlers.stores (n.heap i) msg)) := by simp [Net.store, hd]
  have hext : Extends ch n (n.store fun db => Scrollback.run db (n.handlers.stores (n.heap i) msg)) :=
    hgrown.extends hd hdb
  have hrow : HasRow (n.store fun db => Scrollback.run db (n.handlers.stores (n.heap i) msg)) ch m := by
    rw [hch, hid] at hsave
    exact ⟨_, hdb, hstored ch m _ text user hne hm hsave⟩
  unfold runHandlers
  dsimp only
  split
  · rename_i j m' _ hm'
    rw [hid] at hm'
    cases hm'
    have htrack := track_db (n.store fun db => Scrollback.run db (n.handlers.stores (n.heap i) msg)) j m msg.timestamp false
    refine ⟨hext.trans (.of_db hext.sane htrack), (Extends.of_db hext.sane htrack).rows m hrow, fun key hkey => ?_⟩
    have hor := track_known_or j m msg.timestamp false hkey
    exact hor
  · exact ⟨hext, hrow, fun key hkey => .inl hkey⟩

/-- **A replayed message** is stored, if it was not before. -/
theorem processBatchMessage_stores (h : Steady history ch i n) (hc : Chronicle history) {msg : BatchMessage}
    (hmsg : msg ∈ history) : Steady history ch i (processBatchMessage n i msg).2 ∧
      Extends ch n (processBatchMessage n i msg).2 ∧
      ∃ m, msg.msgid = some m ∧ HasRow (processBatchMessage n i msg).2 ch m := by
  obtain ⟨m, hid, hm⟩ := hc.msgid msg hmsg
  have ht := hc.time msg hmsg
  obtain ⟨command, hcommand⟩ := Option.isSome_iff_exists.1 (hc.command msg hmsg)
  have hshown := processBatchMessage_shown n i msg
  suffices hmain : Extends ch n (processBatchMessage n i msg).2 ∧ HasRow (processBatchMessage n i msg).2 ch m ∧
      ∀ key ∈ ((processBatchMessage n i msg).2.heap i).knownMsgids,
        key ∈ (n.heap i).knownMsgids ∨ dedupKey m msg.timestamp = key by
    obtain ⟨hext, hrow, hknown⟩ := hmain
    refine ⟨h.shown hshown hext fun key hkey => (hknown key hkey).imp_right fun he => ?_, hext, m, hid, hrow⟩
    exact ⟨m, msg.timestamp, ht, he, hrow⟩
  have hdup : Extends ch n (chathistoryIsDuplicateMsgid n i m msg.timestamp).2 := isDuplicate_extends h.sane m msg.timestamp
  have hheap := isDuplicate_heap n i m msg.timestamp
  have hshown₁ := isDuplicate_shown n i m msg.timestamp
  unfold processBatchMessage
  simp only [hcommand, hid]
  split
  · rename_i hknown
    exact ⟨hdup, hdup.rows m (h.duplicate_stored hm ht hknown), fun key hkey => .inl (by rwa [hheap] at hkey)⟩
  -- the message is new: tracked first, then shown
  generalize (chathistoryIsDuplicateMsgid n i m msg.timestamp).2 = n₁ at *
  have hext₂ : Extends ch n₁ ((chathistoryTrackMsgidTs n₁ i m msg.timestamp true).upd i
      fun s => { s with currentMsgid := some m }) := .of_db hdup.sane (track_db n₁ i m msg.timestamp true)
  have hknown₂ : ∀ key ∈ (((chathistoryTrackMsgidTs n₁ i m msg.timestamp true).upd i
      fun s => { s with currentMsgid := some m }).heap i).knownMsgids,
      key ∈ (n.heap i).knownMsgids ∨ dedupKey m msg.timestamp = key := by
    intro key hkey
    have hkey : key ∈ ((chathistoryTrackMsgidTs n₁ i m msg.timestamp true).heap i).knownMsgids := by
      simpa [Net.upd] using hkey
    have := track_known_or i m msg.timestamp true hkey
    rwa [hheap] at this
  have hshown₂ : Shown n ((chathistoryTrackMsgidTs n₁ i m msg.timestamp true).upd i
      fun s => { s with currentMsgid := some m }) :=
    (hshown₁.trans (track_shown _ _ _ _ _)).trans (Shown.upd ⟨_, _, _, _, rfl, fun _ => rfl⟩)
  generalize (chathistoryTrackMsgidTs n₁ i m msg.timestamp true).upd i (fun s => { s with currentMsgid := some m }) = n₂ at *
  obtain ⟨heap, db, rfl, hall, -⟩ := hshown₂
  obtain ⟨_, _, _, _, hcore, -⟩ := hall i
  split
  · rename_i hjoin
    refine ⟨hdup.trans hext₂, (hdup.trans hext₂).rows m (h.joined m ?_ hm), hknown₂⟩
    simpa [hcore] using hjoin.2.2
  · have hch : (heap i).channel = ch := by simpa [hcore] using h.channel
    obtain ⟨hext₃, hrow, hknown₃⟩ := runHandlers_stores (n := { n with heap := heap, db := db }) hext₂.sane
      h.handlers hch h.named hmsg hid hm
    refine ⟨(hdup.trans hext₂).trans hext₃, hrow, fun key hkey => ?_⟩
    rcases hknown₃ key hkey with hold | hnew
    · exact hknown₂ key hold
    · exact .inr hnew

/-- **A run of the loop** stores what it gets through. -/
theorem chunkLoop_stores (hc : Chronicle history) (fuel : Nat) : ∀ {c : Client} {k : Chunk}, k.sess = i →
    Steady history ch i c.net → (∀ x ∈ k.remaining, x ∈ history) →
    Steady history ch i (chunkLoop fuel c k).1.net ∧ Extends ch c.net (chunkLoop fuel c k).1.net ∧
      ∀ x ∈ k.remaining.take fuel, ∃ m, x.msgid = some m ∧ HasRow (chunkLoop fuel c k).1.net ch m := by
  induction fuel with
  | zero =>
    intro c k _ h _
    exact ⟨h, .refl h.sane, fun x hx => absurd hx (by simp)⟩
  | succ fuel ih =>
    intro c k hs h hmem
    unfold chunkLoop
    split
    · rename_i hnil
      exact ⟨h, .refl h.sane, fun x hx => absurd hx (by simp [hnil])⟩
    · rename_i msg rest hcons
      dsimp only
      subst hs
      obtain ⟨hone, hext, m, hid, hrow⟩ := processBatchMessage_stores h hc (hmem msg (by simp [hcons]))
      have hrem : ∀ x ∈ rest, x ∈ history := fun x hx => hmem x (by rw [hcons]; exact List.mem_cons_of_mem _ hx)
      obtain ⟨hrest, hext', hstored⟩ := ih
        (c := { c with net := (processBatchMessage c.net k.sess msg).2, calls := c.calls ++ [.message k.id msg] })
        (k := k.note msg (processBatchMessage c.net k.sess msg).1 rest) rfl hone hrem
      refine ⟨hrest, hext.trans hext', fun x hx => ?_⟩
      rw [hcons, List.take_succ_cons] at hx
      rcases List.mem_cons.1 hx with rfl | hx
      · exact ⟨m, hid, hext'.rows m hrow⟩
      · exact hstored x hx

/-! ### Lines -/

theorem saveMsg_shown (text : String) (stamp : Int) (msgid : Option String) (isUserMsg : Bool) :
    Shown n (scrollbackSaveMsg n i text stamp msgid isUserMsg).2 := by
  unfold scrollbackSaveMsg
  split
  · exact .refl n
  split
  · exact .refl n
  split
  · exact .refl n
  · rename_i db hd
    have hgaps := step_gaps (s := db)
      (.save (n.heap i).channel (if stamp = 0 then n.now else stamp) msgid text isUserMsg)
    exact Shown.withDb (by rw [hd]; exact congrArg some hgaps)

theorem saveMsg_stores (h : ∃ db, n.db = some db ∧ db.Sane) (hon : n.prefs.textReplay = true)
    (hch : (n.heap i).channel = ch) (hne : ch ≠ "") (text : String) (stamp : Int) (msgid : Option String) (isUserMsg : Bool) :
    Extends ch n (scrollbackSaveMsg n i text stamp msgid isUserMsg).2 ∧
      ∀ m, msgid = some m → m ≠ "" → HasRow (scrollbackSaveMsg n i text stamp msgid isUserMsg).2 ch m := by
  obtain ⟨db, hd, hs⟩ := h
  unfold scrollbackSaveMsg
  rw [if_neg (by simp [hon]), hch, if_neg hne]
  simp only [hd]
  refine ⟨(save_grown hs ch _ msgid text isUserMsg).extends hd rfl, fun m hm hne' => ?_⟩
  subst hm
  exact ⟨_, rfl, save_hasRow hs hne hne' _ text isUserMsg⟩

theorem saveMsg_heap (text : String) (stamp : Int) (msgid : Option String) (isUserMsg : Bool) :
    (scrollbackSaveMsg n i text stamp msgid isUserMsg).2.heap = n.heap := by
  unfold scrollbackSaveMsg
  split
  · rfl
  split
  · rfl
  split <;> rfl

/-- A line that has a msgid has a time. -/
def Timed (msgid : Option String) (timestamp : Int) : Prop := ∀ m, msgid = some m → m ≠ "" → 0 < timestamp

theorem receiveLine_steady (h : Steady history ch i n) {msgid : Option String} {timestamp : Int}
    (ht : Timed msgid timestamp) (text : String) (isUserMsg : Bool) :
    Steady history ch i (receiveLine n i msgid timestamp text isUserMsg) ∧
      Extends ch n (receiveLine n i msgid timestamp text isUserMsg) ∧
      Received i n (receiveLine n i msgid timestamp text isUserMsg) := by
  unfold receiveLine
  cases msgid with
  | none =>
    obtain ⟨hext, -⟩ := saveMsg_stores h.sane h.textReplay h.channel h.named text timestamp none isUserMsg
    have hshown : Shown n (scrollbackSaveMsg n i text timestamp none isUserMsg).2 := saveMsg_shown ..
    refine ⟨h.shown hshown hext fun key hkey => .inl ?_, hext, hshown.received i⟩
    rwa [saveMsg_heap] at hkey
  | some m =>
    have htrack := track_shown n i m timestamp false
    have hext₁ : Extends ch n (chathistoryTrackMsgidTs n i m timestamp false) := .of_db h.sane (track_db ..)
    have hch := ((htrack.received i).names i).2.trans h.channel
    have hon : (chathistoryTrackMsgidTs n i m timestamp false).prefs.textReplay = true := by
      rw [(htrack.received i).prefs]
      exact h.textReplay
    obtain ⟨hext₂, hrow⟩ := saveMsg_stores hext₁.sane hon hch h.named text timestamp (some m) isUserMsg
    have hshown := htrack.trans (saveMsg_shown (i := i) text timestamp (some m) isUserMsg)
    refine ⟨h.shown hshown (hext₁.trans hext₂) fun key hkey => ?_, hext₁.trans hext₂, hshown.received i⟩
    rw [saveMsg_heap, track_known] at hkey
    refine hkey.imp_right fun hnew => ?_
    exact ⟨m, timestamp, ht m rfl hnew.1, hnew.2, hrow m rfl hnew.1⟩

/-- A stage of handling a line: at most its own msgid is tracked and remembered. -/
structure Handles (ch : String) (i : Nat) (msgid : Option String) (timestamp : Int) (n n' : Net) : Prop where
  ext : Extends ch n n'
  received : Received i n n'
  known : ∀ key ∈ (n'.heap i).knownMsgids, key ∈ (n.heap i).knownMsgids ∨
    ∃ m, msgid = some m ∧ m ≠ "" ∧ dedupKey m timestamp = key
  joined : ∀ m, (n'.heap i).joinMsgid = some m → (n.heap i).joinMsgid = some m ∨ msgid = some m

section Join

variable {msgid : Option String} {timestamp : Int}

theorem Handles.trans (h : Handles ch i msgid timestamp n n') (h' : Handles ch i msgid timestamp n' n'') :
    Handles ch i msgid timestamp n n'' where
  ext := h.ext.trans h'.ext
  received := h.received.trans h'.received
  known key hkey := by
    rcases h'.known key hkey with hold | hnew
    · exact h.known key hold
    · exact .inr hnew
  joined m hm := by
    rcases h'.joined m hm with hold | hnew
    · exact h.joined m hold
    · exact .inr hnew

theorem Handles.of_heap (he : Extends ch n n') (hr : Received i n n') (hh : n'.heap = n.heap) :
    Handles ch i msgid timestamp n n' :=
  ⟨he, hr, fun key hkey => .inl (by rwa [hh] at hkey), fun m hm => .inl (by rwa [hh] at hm)⟩

theorem Handles.refl (h : ∃ db, n.db = some db ∧ db.Sane) : Handles ch i msgid timestamp n n :=
  .of_heap (.refl h) (.refl i n) rfl

theorem isDuplicate_handles (h : ∃ db, n.db = some db ∧ db.Sane) (m : String) (t : Int) :
    Handles ch i msgid timestamp n (chathistoryIsDuplicateMsgid n i m t).2 :=
  .of_heap (isDuplicate_extends h m t) ((isDuplicate_shown n i m t).received i) (isDuplicate_heap n i m t)

theorem join_handles (h : ∃ db, n.db = some db ∧ db.Sane) {m : String} (hm : msgid = some m) :
    Handles ch i msgid timestamp n
      ((chathistoryTrackMsgidTs n i m timestamp false).upd i fun s => { s with joinMsgid := some m }) := by
  have htrack := track_shown n i m timestamp false
  refine ⟨.of_db h (track_db ..), ?_, fun key hkey => ?_, fun m' hm' => ?_⟩
  · refine (htrack.received i).trans ⟨⟨rfl, fun j => ?_, rfl⟩, rfl, rfl, ?_⟩
    · by_cases hj : j = i
      · subst hj
        simp [Net.upd]
      · simp [Net.upd, hj]
    · simp [Net.upd, Session.progress]
  · have hkey : key ∈ ((chathistoryTrackMsgidTs n i m timestamp false).heap i).knownMsgids := by
      simpa [Net.upd] using hkey
    rw [track_known] at hkey
    exact hkey.imp_right fun hnew => ⟨m, hm, hnew⟩
  · have hm' : m = m' := by simpa [Net.upd] using hm'
    exact .inr (hm' ▸ hm)

theorem sessionHasMsgid_handles (h : ∃ db, n.db = some db ∧ db.Sane) (m : String) (t : Int) :
    Handles ch i msgid timestamp n (scrollbackSessionHasMsgid n i m t).2 := by
  obtain ⟨db, hd, hs⟩ := h
  unfold scrollbackSessionHasMsgid
  split
  · exact .refl ⟨db, hd, hs⟩
  · simp only [hd]
    exact .of_heap ((hasMsgid_grown hs _ m t).extends hd rfl) ⟨⟨rfl, fun _ => ⟨rfl, rfl⟩, rfl⟩, rfl, rfl, rfl⟩ rfl

theorem sessionHasMsgid_stored (h : ∃ db, n.db = some db ∧ db.Sane) (hch : (n.heap i).channel = ch) {m : String} {t : Int}
    (ht : 0 < t) (hfound : (scrollbackSessionHasMsgid n i m t).1 = true) : HasRow n ch m := by
  obtain ⟨db, hd, hs⟩ := h
  unfold scrollbackSessionHasMsgid at hfound
  split at hfound
  · cases hfound
  · rename_i hne
    rw [not_or] at hne
    simp only [hd] at hfound
    obtain ⟨row, hrow, hid, -⟩ := (hasMsgid_spec hs hne.1 hne.2 ht).1.1 hfound
    exact ⟨db, hd, row, hch ▸ hrow, hid⟩

theorem saveMsg_handles (h : Handles ch i msgid timestamp n n') (hn : Steady history ch i n) (text : String) (stamp : Int)
    (rowMsgid : Option String) (isUserMsg : Bool) :
    Handles ch i msgid timestamp n (scrollbackSaveMsg n' i text stamp rowMsgid isUserMsg).2 ∧
      ∀ m, rowMsgid = some m → m ≠ "" → HasRow (scrollbackSaveMsg n' i text stamp rowMsgid isUserMsg).2 ch m := by
  have hon : n'.prefs.textReplay = true := by
    rw [h.received.prefs]
    exact hn.textReplay
  obtain ⟨hext, hrow⟩ := saveMsg_stores h.ext.sane hon ((h.received.names i).2.trans hn.channel) hn.named text stamp
    rowMsgid isUserMsg
  exact ⟨h.trans (.of_heap hext ((saveMsg_shown ..).received i) (saveMsg_heap ..)), hrow⟩

theorem schedule_handles (h : ∃ db, n.db = some db ∧ db.Sane) : Handles ch i msgid timestamp n (chathistoryScheduleDeferred n) := by
  unfold chathistoryScheduleDeferred
  split
  · exact .refl h
  · exact .of_heap (.of_db h rfl) ⟨⟨rfl, fun _ => ⟨rfl, rfl⟩, rfl⟩, rfl, rfl, rfl⟩ rfl

theorem recordJoin_handles (hn : Steady history ch i n) (h : Handles ch i msgid timestamp n n')
    (joinText reconnectText : String) :
    Handles ch i msgid timestamp n (recordJoin n' i msgid timestamp joinText reconnectText) ∧
      ∀ m, msgid = some m → m ≠ "" → HasRow (recordJoin n' i msgid timestamp joinText reconnectText) ch m := by
  unfold recordJoin
  extract_lets disconnectRef restored
  -- the row of the JOIN, whether it was there or is stored now
  obtain ⟨recorded, n₁, hlook, hh₁, hfound⟩ : ∃ recorded n₁, (match msgid with
      | some m => if restored then scrollbackSessionHasMsgid n' i m timestamp else (false, n')
      | none => (false, n')) = (recorded, n₁) ∧ Handles ch i msgid timestamp n n₁ ∧
        (recorded = true → ∀ m, msgid = some m → HasRow n₁ ch m) := by
    cases msgid with
    | none => exact ⟨false, n', rfl, h, nofun⟩
    | some m =>
      dsimp only
      split
      · rename_i hrestored
        have hpos : 0 < timestamp := (of_decide_eq_true hrestored).1
        have hfirst : Handles ch i (some m) timestamp n' (scrollbackSessionHasMsgid n' i m timestamp).2 :=
          sessionHasMsgid_handles h.ext.sane m timestamp
        refine ⟨_, _, rfl, h.trans hfirst, fun hrec m' hm' => ?_⟩
        cases hm'
        exact hfirst.ext.rows m (sessionHasMsgid_stored h.ext.sane ((h.received.names i).2.trans hn.channel) hpos hrec)
      · exact ⟨false, n', rfl, h, nofun⟩
  rw [hlook]
  dsimp only
  obtain ⟨n₂, hsave, hh₂, hrow⟩ : ∃ n₂, (if recorded then n₁ else (scrollbackSaveMsg n₁ i joinText timestamp msgid false).2) = n₂ ∧
      Handles ch i msgid timestamp n n₂ ∧ ∀ m, msgid = some m → m ≠ "" → HasRow n₂ ch m := by
    cases recorded with
    | true => exact ⟨n₁, rfl, hh₁, fun m hm _ => hfound rfl m hm⟩
    | false =>
      obtain ⟨hh₂, hrow⟩ := saveMsg_handles hh₁ hn joinText timestamp msgid false
      exact ⟨_, rfl, hh₂, hrow⟩
  rw [hsave]
  have hlast {n₃ : Net} (hh₃ : Handles ch i msgid timestamp n n₃) (hext : Extends ch n₂ n₃) :
      Handles ch i msgid timestamp n (chathistoryScheduleDeferred n₃) ∧
        ∀ m, msgid = some m → m ≠ "" → HasRow (chathistoryScheduleDeferred n₃) ch m := by
    have hsched : Handles ch i msgid timestamp n₃ (chathistoryScheduleDeferred n₃) := schedule_handles hh₃.ext.sane
    exact ⟨hh₃.trans hsched, fun m hm hne => hsched.ext.rows m (hext.rows m (hrow m hm hne))⟩
  split
  · have hon : n₂.prefs.textReplay = true := by
      rw [hh₂.received.prefs]
      exact hn.textReplay
    refine hlast (saveMsg_handles hh₂ hn reconnectText _ none false).1 ?_
    exact (saveMsg_stores hh₂.ext.sane hon ((hh₂.received.names i).2.trans hn.channel) hn.named reconnectText _ none
      false).1
  · exact hlast hh₂ (.refl hh₂.ext.sane)

/-- **Our own JOIN** is tracked, stored and remembered under its msgid. -/
theorem inboundUjoin_steady (h : Steady history ch i n) (ht : Timed msgid timestamp) (joinText reconnectText : String) :
    Steady history ch i (inboundUjoin n i msgid timestamp joinText reconnectText) ∧
      Extends ch n (inboundUjoin n i msgid timestamp joinText reconnectText) ∧
      Received i n (inboundUjoin n i msgid timestamp joinText reconnectText) := by
  suffices hmain : Handles ch i msgid timestamp n (inboundUjoin n i msgid timestamp joinText reconnectText) ∧
      ((inboundUjoin n i msgid timestamp joinText reconnectText).heap i = n.heap i ∨
        ∀ m, msgid = some m → m ≠ "" → HasRow (inboundUjoin n i msgid timestamp joinText reconnectText) ch m) by
    obtain ⟨hh, hrow⟩ := hmain
    refine ⟨?_, hh.ext, hh.received⟩
    rcases hrow with hsame | hrow
    · exact h.carried hh.received hh.ext (by rw [hsame]) (by rw [hsame])
    · refine h.received hh.received hh.ext (fun key hkey => ?_) fun m hm => ?_
      · refine (hh.known key hkey).imp_right ?_
        rintro ⟨m, hid, hm, he⟩
        exact ⟨m, timestamp, ht m hid hm, he, hrow m hid hm⟩
      · refine (hh.joined m hm).imp_right fun hid => ?_
        by_cases hne : m = ""
        · exact .inl hne
        · exact .inr (hrow m hid hne)
  unfold inboundUjoin
  cases msgid with
  | none =>
    obtain ⟨hh, hrow⟩ := recordJoin_handles h (.refl h.sane) joinText reconnectText
    exact ⟨hh, .inr hrow⟩
  | some m =>
    have hdup : Handles ch i (some m) timestamp n (chathistoryIsDuplicateMsgid n i m timestamp).2 :=
      isDuplicate_handles h.sane m timestamp
    dsimp only
    split
    · exact ⟨hdup, .inl (by rw [isDuplicate_heap])⟩
    · obtain ⟨hh, hrow⟩ := recordJoin_handles h (hdup.trans (join_handles hdup.ext.sane rfl)) joinText reconnectText
      exact ⟨hh, .inr hrow⟩

end Join

/-! ### The queue -/

/-- Queue and catch-up of session `i` may have moved, what it has tracked has not. -/
structure Moved (i : Nat) (n n' : Net) : Prop extends Named n n' where
  prefs : n'.prefs = n.prefs
  handlers : n'.handlers = n.handlers
  known : (n'.heap i).knownMsgids = (n.heap i).knownMsgids
  joined : (n'.heap i).joinMsgid = (n.heap i).joinMsgid

theorem Moved.trans (h : Moved i n n') (h' : Moved i n' n'') : Moved i n n'' :=
  ⟨h.toNamed.trans h'.toNamed, h'.prefs.trans h.prefs, h'.handlers.trans h.handlers, h'.known.trans h.known,
    h'.joined.trans h.joined⟩

theorem Moved.rest (hs : n'.sessList = n.sessList) (hheap : n'.heap = n.heap) (hp : n'.serv.pCmp = n.serv.pCmp)
    (hprefs : n'.prefs = n.prefs) (hh : n'.handlers = n.handlers) : Moved i n n' :=
  ⟨⟨hs, fun _ => by rw [hheap]; exact ⟨rfl, rfl⟩, hp⟩, hprefs, hh, by rw [hheap], by rw [hheap]⟩

theorem Moved.upd (j : Nat) {f : Session → Session} (hf : ∀ s, (f s).type = s.type ∧ (f s).channel = s.channel ∧
    (f s).knownMsgids = s.knownMsgids ∧ (f s).joinMsgid = s.joinMsgid) : Moved i n (n.upd j f) := by
  refine ⟨⟨rfl, fun k => ?_, rfl⟩, rfl, rfl, ?_, ?_⟩
  · by_cases hk : k = j
    · subst hk
      simpa [Net.upd] using ⟨(hf (n.heap k)).1, (hf (n.heap k)).2.1⟩
    · simp [Net.upd, hk]
  · by_cases hk : i = j
    · subst hk
      simpa [Net.upd] using (hf (n.heap i)).2.2.1
    · simp [Net.upd, hk]
  · by_cases hk : i = j
    · subst hk
      simpa [Net.upd] using (hf (n.heap i)).2.2.2
    · simp [Net.upd, hk]

theorem Queued.moved {j : Nat} (h : Queued j n n') : Moved i n n' := by
  obtain ⟨a, p, l, u, _, rfl, _⟩ := h
  have hupd : Moved i n (n.upd j fun s => s.withQueue a p l u) := .upd j fun _ => ⟨rfl, rfl, rfl, rfl⟩
  exact hupd.trans (.rest rfl rfl rfl rfl rfl)

theorem Steady.moved (h : Steady history ch i n) (hm : Moved i n n') (he : Extends ch n n')
    (hpending : (n'.heap i).chPending = none) (hloading : (n'.heap i).historyLoading = (n'.heap i).chActive.isSome)
    (hphase : ∀ req, latestAsked n' i = some req → InLatest (n'.heap i) req) : Steady history ch i n' where
  sane := he.sane
  found := (hm.find ch).trans h.found
  channel := (hm.names i).2.trans h.channel
  named := h.named
  gapfill := by
    rw [hm.prefs]
    exact h.gapfill
  textReplay := by
    rw [hm.prefs]
    exact h.textReplay
  handlers := by
    rw [hm.handlers]
    exact h.handlers
  known key hkey := by
    rw [hm.known] at hkey
    obtain ⟨m, t, ht, hkey, hrow⟩ := h.known key hkey
    exact ⟨m, t, ht, hkey, he.rows m hrow⟩
  joined m hj hne := by
    rw [hm.joined] at hj
    exact he.rows m (h.joined m hj hne)
  pending := hpending
  loading := hloading
  phase := hphase

/-- A request of a session that has nothing in flight goes out or is dropped. -/
theorem submitRequest_idle {j : Nat} (ha : (n.heap j).chActive = none) (hp : (n.heap j).chPending = none) (type : ReqType)
    (reference endRef : Option String) (limit : Int) (usedMsgid : Bool) :
    dispatchable n j = false ∧ submitRequest n j type reference endRef limit usedMsgid = n ∨
    ∃ req : Chreq, req.type = type ∧ req.gapId = 0 ∧
      (submitRequest n j type reference endRef limit usedMsgid).heap j =
        (n.heap j).withQueue (some req) none true usedMsgid := by
  unfold submitRequest chathistorySubmit
  simp only [ha, hp, chreqIsDup, Option.any_none, Bool.false_eq_true, if_false, if_true]
  unfold chathistoryDispatchNow
  split
  · rename_i hnone
    exact .inl ⟨by simp [dispatchable, hnone, nonEmpty], rfl⟩
  rename_i target hsome
  split
  · rename_i hempty
    exact .inl ⟨by simp [dispatchable, hsome, hempty, nonEmpty], rfl⟩
  split
  · rename_i hgone
    refine .inl ⟨?_, rfl⟩
    unfold dispatchable
    rcases hgone with hgone | hgone | hgone <;> simp [hgone]
  · refine .inr ⟨⟨type, reference, endRef, limit, inferPriority (n.heap j), (n.heap j).catchupInProgress, usedMsgid, 0, 0⟩,
      rfl, rfl, ?_⟩
    simp [Net.send, Net.upd, Session.withQueue, hp]

theorem submitRequest_queued (j : Nat) (type : ReqType) (reference endRef : Option String) (limit : Int) (usedMsgid : Bool) :
    Queued j n (submitRequest n j type reference endRef limit usedMsgid) := submit_queued n j _

/-- **A request of the catch-up** goes out of a session in order. -/
theorem Steady.asks (h : Steady history ch i n) (ha : (n.heap i).chActive = none) {type : ReqType}
    (hphase : type = .latest → ∀ req : Chreq, req.gapId = 0 → InLatest (n.heap i) req)
    (reference endRef : Option String) (limit : Int) (usedMsgid : Bool) :
    Steady history ch i (submitRequest n i type reference endRef limit usedMsgid) := by
  have hq : Queued i n (submitRequest n i type reference endRef limit usedMsgid) := submitRequest_queued ..
  rcases submitRequest_idle ha h.pending type reference endRef limit usedMsgid with ⟨-, he⟩ | ⟨req, htype, hgap, hheap⟩
  · rw [he]
    exact h
  refine h.moved hq.moved (.of_db h.sane hq.db) (by rw [hheap]; rfl) (by rw [hheap]; rfl) fun req' hreq => ?_
  unfold latestAsked at hreq
  rw [hheap] at hreq ⊢
  obtain ⟨hsome, hlatest⟩ := Option.filter_eq_some_iff.1 hreq
  cases Option.some.inj hsome
  have hlatest : req.type = .latest := by simpa using hlatest
  obtain ⟨-, hin, hl, hbound⟩ := hphase (htype ▸ hlatest) req hgap
  exact ⟨hgap, hin, hl, hbound⟩

/-! ### The deferred start -/

theorem Named.upd (j : Nat) {f : Session → Session} (hf : ∀ s, (f s).type = s.type ∧ (f s).channel = s.channel) :
    Named n (n.upd j f) := by
  refine ⟨rfl, fun k => ?_, rfl⟩
  by_cases hk : k = j
  · subst hk
    simpa [Net.upd] using hf (n.heap k)
  · simp [Net.upd, hk]

theorem Queued.named {j : Nat} (h : Queued j n n') : Named n n' := by
  refine ⟨?_, fun k => ?_, by rw [h.serv]⟩
  · obtain ⟨_, _, _, _, _, rfl, _⟩ := h
    rfl
  · obtain ⟨_, _, _, _, hk⟩ := h.fields k
    rw [hk]
    exact ⟨rfl, rfl⟩

theorem Queued.settings {j : Nat} (h : Queued j n n') : n'.prefs = n.prefs ∧ n'.handlers = n.handlers := by
  obtain ⟨_, _, _, _, _, rfl, _⟩ := h
  exact ⟨rfl, rfl⟩

theorem enterLatest_extends (h : ∃ db, n.db = some db ∧ db.Sane) (j : Nat) : Extends ch n (catchupEnterLatestPhase n j) := by
  obtain ⟨db, hd, hs⟩ := h
  have hgrown := (newestMsgid_grown hs (n.heap j).channel).trans
    (newestTime_grown (newestMsgid_grown hs (n.heap j).channel).sane (n.heap j).channel)
  refine hgrown.extends hd ?_
  simp only [catchupEnterLatestPhase, refreshNewest, hd]
  rfl

theorem refreshNewest_named (j : Nat) : Named n (refreshNewest n j) ∧ (refreshNewest n j).prefs = n.prefs ∧
    (refreshNewest n j).handlers = n.handlers ∧ ∀ k, k ≠ j → (refreshNewest n j).heap k = n.heap k := by
  unfold refreshNewest
  split
  · exact ⟨.refl n, rfl, rfl, fun _ _ => rfl⟩
  · rename_i db hd
    refine ⟨⟨rfl, fun k => ?_, rfl⟩, rfl, rfl, fun k hk => ?_⟩
    · by_cases hk : k = j
      · subst hk
        simp [Net.upd]
      · simp [Net.upd, hk]
    · simp [Net.upd, hk]

theorem enterLatest_named (j : Nat) : Named n (catchupEnterLatestPhase n j) ∧
    (catchupEnterLatestPhase n j).prefs = n.prefs ∧ (catchupEnterLatestPhase n j).handlers = n.handlers ∧
    ∀ k, k ≠ j → (catchupEnterLatestPhase n j).heap k = n.heap k := by
  obtain ⟨hnamed, hprefs, hhandlers, hothers⟩ := refreshNewest_named (n := n) j
  refine ⟨?_, hprefs, hhandlers, fun k hk => ?_⟩
  · unfold catchupEnterLatestPhase
    dsimp only
    exact hnamed.trans (.upd j fun _ => ⟨rfl, rfl⟩)
  · rw [← hothers k hk]
    exact Function.update_of_ne hk _ _

/-- The session when its LATEST phase opens. -/
theorem enterLatest_session (j : Nat) : ∃ s : Session, (catchupEnterLatestPhase n j).heap j = s ∧
    s.chActive = (n.heap j).chActive ∧ s.chPending = (n.heap j).chPending ∧ s.historyLoading = (n.heap j).historyLoading ∧
    s.knownMsgids = (n.heap j).knownMsgids ∧ s.joinMsgid = (n.heap j).joinMsgid ∧ s.catchupInProgress = true ∧
    s.catchupIsBefore = false ∧ (CHATHISTORY_FUZZ_INTERVAL < s.catchupPrevNewestTime →
      s.catchupLowerBound = s.catchupPrevNewestTime - CHATHISTORY_FUZZ_INTERVAL) := by
  refine ⟨_, rfl, ?_⟩
  unfold catchupEnterLatestPhase refreshNewest
  split
  · simp only [Net.upd, Function.update_self, true_and]
    intro hlt
    rw [if_pos hlt]
  · simp only [Net.upd, Function.update_self, true_and]
    intro hlt
    rw [if_pos hlt]

theorem takeSlot_received (j : Nat) : Received i n (n.takeSlot j) := ⟨⟨rfl, fun _ => ⟨rfl, rfl⟩, rfl⟩, rfl, rfl, rfl⟩

/-- **One session of the fan-out**: it enters its LATEST phase, or is left alone. -/
theorem sendDeferredLatest_steady (h : Steady history ch i n) (j : Nat) : Steady history ch i (sendDeferredLatest n j) ∧
    Extends ch n (sendDeferredLatest n j) ∧
    ((n.heap i).chActive ≠ none → Received i n (sendDeferredLatest n j)) := by
  have hstay : Steady history ch i n ∧ Extends ch n n ∧ ((n.heap i).chActive ≠ none → Received i n n) :=
    ⟨h, .refl h.sane, fun _ => .refl i n⟩
  unfold sendDeferredLatest
  dsimp only
  split
  · exact hstay
  split
  · exact hstay
  rename_i hfree _
  have hext : Extends ch n (catchupEnterLatestPhase n j) := enterLatest_extends h.sane j
  obtain ⟨hnamed, hprefs, hhandlers, hothers⟩ := enterLatest_named (n := n) j
  have hq : Queued j (catchupEnterLatestPhase n j) (requestLatestSinceStored (catchupEnterLatestPhase n j) j) :=
    requestLatest_queued _ j _ _
  have hext' : Extends ch n ((requestLatestSinceStored (catchupEnterLatestPhase n j) j).takeSlot j) :=
    hext.trans (.of_db hext.sane hq.db)
  by_cases hj : j = i
  · subst hj
    have hloading : (n.heap j).historyLoading = false := by
      simp only [not_or, Bool.not_eq_true] at hfree
      exact hfree.1
    have hnone : (n.heap j).chActive = none := by
      have := h.loading
      rw [hloading] at this
      simpa using this
    obtain ⟨s, hs, hactive, hpending, hload, hknown, hjoin, hin, hlatest, hbound⟩ := enterLatest_session (n := n) j
    have hmoved : Moved j n (catchupEnterLatestPhase n j) :=
      ⟨hnamed, hprefs, hhandlers, by rw [hs]; exact hknown, by rw [hs]; exact hjoin⟩
    have hentered : Steady history ch j (catchupEnterLatestPhase n j) := by
      refine h.moved hmoved hext (by rw [hs, hpending]; exact h.pending) (by rw [hs, hload, hactive]; exact h.loading)
        fun req hreq => ?_
      rw [latestAsked, hs, hactive, hnone] at hreq
      cases hreq
    have hasked : Steady history ch j (requestLatestSinceStored (catchupEnterLatestPhase n j) j) := by
      unfold requestLatestSinceStored chathistoryRequestLatest
      dsimp only
      split
      · refine hentered.asks (by rw [hs, hactive]; exact hnone) (fun _ req hgap => ?_) _ _ _ _
        rw [hs]
        exact ⟨hgap, hin, hlatest, hbound⟩
      · exact hentered
    exact ⟨hasked.carried (takeSlot_received j) (.of_db hasked.sane rfl) rfl rfl, hext',
      fun hsome => absurd hnone hsome⟩
  · have hheap : (requestLatestSinceStored (catchupEnterLatestPhase n j) j).heap i = n.heap i :=
      (hq.heap_of_ne (Ne.symm hj)).trans (hothers i (Ne.symm hj))
    have hrec : Received i n ((requestLatestSinceStored (catchupEnterLatestPhase n j) j).takeSlot j) := by
      refine Received.trans ⟨hnamed.trans hq.named, hq.settings.1.trans hprefs, hq.settings.2.trans hhandlers, ?_⟩
        (takeSlot_received j)
      rw [hheap]
    exact ⟨h.carried hrec hext' (congrArg Session.knownMsgids hheap) (congrArg Session.joinMsgid hheap), hext',
      fun _ => hrec⟩

/-- What every step does to a channel in order: it stays in order, nothing is lost, and a request in
flight stays where it is. -/
structure Goes (history : List BatchMessage) (ch : String) (i : Nat) (n n' : Net) : Prop where
  steady : Steady history ch i n'
  ext : Extends ch n n'
  busy : (n.heap i).chActive ≠ none → Received i n n'

theorem Goes.refl (h : Steady history ch i n) : Goes history ch i n n := ⟨h, .refl h.sane, fun _ => .refl i n⟩

theorem Goes.trans (h : Goes history ch i n n') (h' : Goes history ch i n' n'') : Goes history ch i n n'' := by
  refine ⟨h'.steady, h.ext.trans h'.ext, fun hactive => (h.busy hactive).trans (h'.busy ?_)⟩
  have hsame : (n'.heap i).chActive = (n.heap i).chActive := congrArg Progress.active (h.busy hactive).progress
  rwa [hsame]

theorem Goes.of_heap (h : Steady history ch i n) (hr : Received i n n') (hd : n'.db = n.db) (hh : n'.heap = n.heap) :
    Goes history ch i n n' :=
  ⟨h.carried hr (.of_db h.sane hd) (by rw [hh]) (by rw [hh]), .of_db h.sane hd, fun _ => hr⟩

theorem fanOut_goes (is : List Nat) (h : Steady history ch i n) : Goes history ch i n (is.foldl sendDeferredLatest n) := by
  induction is generalizing n with
  | nil => exact .refl h
  | cons j is ih =>
    obtain ⟨hsteady, hext, hbusy⟩ := sendDeferredLatest_steady h j
    exact Goes.trans ⟨hsteady, hext, hbusy⟩ (ih hsteady)

theorem deferredReset_goes (h : Steady history ch i n) : Goes history ch i n (deferredReset n) := by
  have hserv {serv : Serv} {sent : List Sent} (hp : serv.pCmp = n.serv.pCmp) :
      Goes history ch i n { n with serv := serv, sent := sent } :=
    .of_heap h ⟨⟨rfl, fun _ => ⟨rfl, rfl⟩, hp⟩, rfl, rfl, rfl⟩ rfl rfl
  unfold deferredReset sendReconnectTargetsRequest chathistoryRequestTargets
  dsimp only
  repeat' split
  all_goals exact hserv rfl

/-- **The deferred start.** -/
theorem deferredStart_goes (h : Steady history ch i n) : Goes history ch i n (chathistoryDeferredStartCb n) := by
  have hoff : Goes history ch i n { n with serv := { n.serv with chathistoryStartTimer := false } } :=
    .of_heap h ⟨⟨rfl, fun _ => ⟨rfl, rfl⟩, rfl⟩, rfl, rfl, rfl⟩ rfl rfl
  unfold chathistoryDeferredStartCb
  dsimp only
  split
  · have hreset := hoff.trans (deferredReset_goes hoff.steady)
    exact hreset.trans (fanOut_goes _ hreset.steady)
  · exact hoff

/-! ### The end of the phase -/

theorem finishCatchup_moved (j : Nat) : Moved i n (finishCatchup n j) ∧ (finishCatchup n j).db = n.db ∧
    ∀ k, ((finishCatchup n j).heap k).chActive = (n.heap k).chActive ∧
      ((finishCatchup n j).heap k).chPending = (n.heap k).chPending ∧
      ((finishCatchup n j).heap k).historyLoading = (n.heap k).historyLoading := by
  unfold finishCatchup
  extract_lets n₁
  have hmoved : Moved i n n₁ := .upd j fun _ => ⟨rfl, rfl, rfl, rfl⟩
  have hqueue : ∀ k, (n₁.heap k).chActive = (n.heap k).chActive ∧ (n₁.heap k).chPending = (n.heap k).chPending ∧
      (n₁.heap k).historyLoading = (n.heap k).historyLoading := by
    intro k
    by_cases hk : k = j
    · subst hk
      simp [n₁, Net.upd]
    · simp [n₁, Net.upd, hk]
  split
  · exact ⟨hmoved.trans (.rest rfl rfl rfl rfl rfl), rfl, hqueue⟩
  · exact ⟨hmoved, rfl, hqueue⟩

theorem requestBeforeMsgid_cases (j : Nat) (m : String) (limit : Int) : chathistoryRequestBeforeMsgid n j m limit = n ∨
    ∃ reference usedMsgid, chathistoryRequestBeforeMsgid n j m limit = submitRequest n j .before reference none limit usedMsgid := by
  unfold chathistoryRequestBeforeMsgid chathistoryRequestBefore
  split
  · exact .inl rfl
  split
  · exact .inr ⟨_, _, rfl⟩
  · exact .inl rfl

/-- **The next BEFORE request**: the channel stays in order, and no LATEST is asked. -/
theorem startBefore_steady (h : Steady history ch i n) {j : Nat} (hneeds : needsBefore (n.heap j) = true) :
    Steady history ch i (startBefore n j) ∧ (startBefore n j).db = n.db ∧
      latestAsked (startBefore n j) i = latestAsked n i := by
  unfold startBefore
  extract_lets n₁ n₀ n₂
  have hmoved : Moved i n n₂ := by
    have hupd : Moved i n₁ (n₁.upd j fun s => { s with catchupIsBefore := true }) := .upd j fun _ => ⟨rfl, rfl, rfl, rfl⟩
    have hfirst : Moved i n n₁ := .rest rfl rfl rfl rfl rfl
    exact hfirst.trans (hupd.trans (.rest rfl rfl rfl rfl rfl))
  have hdb : n₂.db = n.db := rfl
  have hext : Extends ch n n₂ := .of_db h.sane hdb
  have hqueue : (n₂.heap i).chActive = (n.heap i).chActive ∧ (n₂.heap i).chPending = (n.heap i).chPending ∧
      (n₂.heap i).historyLoading = (n.heap i).historyLoading := by
    by_cases hj : i = j
    · subst hj
      simp [n₂, n₀, n₁, Net.upd, Net.setBeforeSess]
    · simp [n₂, n₀, n₁, Net.upd, Net.setBeforeSess, hj]
  -- the target of the check has nothing in flight
  have hidle : j = i → (n.heap i).chActive = none := by
    rintro rfl
    have hloading : (n.heap j).historyLoading = false := by simpa [needsBefore] using (Bool.and_eq_true_iff.1 hneeds).2
    simpa [hloading] using h.loading
  have hstep : Steady history ch i n₂ ∧ latestAsked n₂ i = latestAsked n i := by
    by_cases hj : j = i
    · have hnone : latestAsked n₂ i = none := by simp [latestAsked, hqueue.1, hidle hj]
      refine ⟨h.moved hmoved hext (hqueue.2.1.trans h.pending) ?_ fun req hreq => ?_, ?_⟩
      · rw [hqueue.2.2, hqueue.1]
        exact h.loading
      · rw [hnone] at hreq
        cases hreq
      · rw [hnone]
        simp [latestAsked, hidle hj]
    · have hheap : n₂.heap i = n.heap i := by simp [n₂, n₀, n₁, Net.upd, Net.setBeforeSess, Ne.symm hj]
      refine ⟨h.carried ⟨hmoved.toNamed, hmoved.prefs, hmoved.handlers, by rw [hheap]⟩ hext (by rw [hheap]) (by rw [hheap]), ?_⟩
      simp only [latestAsked, hheap]
  have hfinish : Steady history ch i ((finishCatchup n₂ j).setBeforeSess none) ∧
      ((finishCatchup n₂ j).setBeforeSess none).db = n.db ∧
      latestAsked ((finishCatchup n₂ j).setBeforeSess none) i = latestAsked n i := by
    obtain ⟨hmoved', hdb', hsame⟩ := finishCatchup_moved (n := n₂) (i := i) j
    have hasked : latestAsked ((finishCatchup n₂ j).setBeforeSess none) i = latestAsked n₂ i := by
      show (((finishCatchup n₂ j).heap i).chActive).filter _ = _
      rw [(hsame i).1]
      rfl
    have hmoved'' : Moved i n₂ ((finishCatchup n₂ j).setBeforeSess none) := hmoved'.trans (.rest rfl rfl rfl rfl rfl)
    have hext' : Extends ch n₂ ((finishCatchup n₂ j).setBeforeSess none) := .of_db hext.sane hdb'
    refine ⟨?_, hdb'.trans hdb, hasked.trans hstep.2⟩
    by_cases hj : j = i
    · refine hstep.1.moved hmoved'' hext' ((hsame i).2.1.trans hstep.1.pending) ?_ fun req hreq => ?_
      · show ((finishCatchup n₂ j).heap i).historyLoading = ((finishCatchup n₂ j).heap i).chActive.isSome
        rw [(hsame i).2.2, (hsame i).1]
        exact hstep.1.loading
      · rw [hasked, hstep.2] at hreq
        simp [latestAsked, hidle hj] at hreq
    · have hheap : ((finishCatchup n₂ j).setBeforeSess none).heap i = n₂.heap i := by
        unfold finishCatchup
        dsimp only
        split <;> simp [Net.upd, Net.setBeforeSess, Ne.symm hj]
      exact hstep.1.carried ⟨hmoved''.toNamed, hmoved''.prefs, hmoved''.handlers, by rw [hheap]⟩ hext' (by rw [hheap])
        (by rw [hheap])
  split
  · split
    · rename_i m _ _
      rcases requestBeforeMsgid_cases (n := n₂) j m CHATHISTORY_BEFORE_LIMIT with he | ⟨ref, used, he⟩
      · rw [he]
        exact ⟨hstep.1, hdb, hstep.2⟩
      rw [he]
      have hq : Queued j n₂ (submitRequest n₂ j .before ref none CHATHISTORY_BEFORE_LIMIT used) := submitRequest_queued ..
      refine ⟨?_, hq.db.trans hdb, ?_⟩
      · by_cases hj : j = i
        · subst hj
          exact hstep.1.asks (by rw [hqueue.1]; exact hidle rfl) (fun hno => by cases hno) _ _ _ _
        · have hheap := hq.heap_of_ne (Ne.symm hj)
          exact hstep.1.carried ⟨hq.named, hq.settings.1, hq.settings.2, by rw [hheap]⟩ (.of_db hext.sane hq.db)
            (by rw [hheap]) (by rw [hheap])
      · by_cases hj : j = i
        · subst hj
          have hnone : latestAsked n j = none := by simp [latestAsked, hidle rfl]
          have hactive : (n₂.heap j).chActive = none := by rw [hqueue.1]; exact hidle rfl
          rcases submitRequest_idle hactive hstep.1.pending .before ref none CHATHISTORY_BEFORE_LIMIT used with
            ⟨-, he'⟩ | ⟨req, htype, -, hheap⟩
          · rw [he', hstep.2]
          · rw [hnone, latestAsked, hheap]
            simp [Session.withQueue, htype]
        · rw [← hstep.2, latestAsked, latestAsked, hq.heap_of_ne (Ne.symm hj)]
    · exact hfinish
  · exact hfinish

theorem check_steady (h : Steady history ch i n) : Steady history ch i (checkWhenNonePending n) ∧
    (checkWhenNonePending n).db = n.db ∧ latestAsked (checkWhenNonePending n) i = latestAsked n i := by
  have hsame {n' : Net} (hheap : n'.heap = n.heap) (hdb : n'.db = n.db) (hm : Moved i n n') :
      Steady history ch i n' ∧ n'.db = n.db ∧ latestAsked n' i = latestAsked n i := by
    refine ⟨h.carried ⟨hm.toNamed, hm.prefs, hm.handlers, by rw [hheap]⟩ (.of_db h.sane hdb) (by rw [hheap]) (by rw [hheap]),
      hdb, ?_⟩
    simp only [latestAsked, hheap]
  unfold checkWhenNonePending chathistoryCheckBeforeCatchup
  split
  · split
    · split
      · exact hsame rfl rfl (.rest rfl rfl rfl rfl rfl)
      · rename_i j hj
        exact startBefore_steady h (beforeTarget_needs hj)
    · exact ⟨h, rfl, rfl⟩
  · exact ⟨h, rfl, rfl⟩

/-- The request that was answered leaves the queue empty. -/
theorem requestComplete_steady (h : Steady history ch i n) : Steady history ch i (chathistoryRequestComplete n i) ∧
    (chathistoryRequestComplete n i).db = n.db ∧ ((chathistoryRequestComplete n i).heap i).chActive = none ∧
    ∃ u, (chathistoryRequestComplete n i).heap i = (n.heap i).withQueue none none false u := by
  have hpending : ((n.upd i fun s => { s with chActive := none, historyLoading := false }).heap i).chPending = none := by
    simpa [Net.upd] using h.pending
  have he : chathistoryRequestComplete n i = n.upd i fun s => { s with chActive := none, historyLoading := false } := by
    unfold chathistoryRequestComplete
    simp only [hpending]
  have hmoved : Moved i n (n.upd i fun s => { s with chActive := none, historyLoading := false }) :=
    .upd i fun _ => ⟨rfl, rfl, rfl, rfl⟩
  have hactive : ((n.upd i fun s => { s with chActive := none, historyLoading := false }).heap i).chActive = none := by
    simp [Net.upd]
  rw [he]
  refine ⟨h.moved hmoved (.of_db h.sane rfl) hpending (by simp [Net.upd]) fun req hreq => ?_, rfl, hactive,
    (n.heap i).historyRequestUsedMsgid, ?_⟩
  · rw [latestAsked, hactive] at hreq
    cases hreq
  · simp [Net.upd, Session.withQueue, h.pending]

theorem Moved.progress_upd {f : Session → Session} (h : Steady history ch i n) (hm : Moved i n (n.upd i f))
    (hf : (f (n.heap i)).progress = (n.heap i).progress) : Steady history ch i (n.upd i f) := by
  refine h.carried ⟨hm.toNamed, hm.prefs, hm.handlers, ?_⟩ (.of_db h.sane rfl) hm.known hm.joined
  simpa [Net.upd] using hf

/-- The head of `finish_batch_processing` for the reply to a request. -/
theorem settleBatch_steady (h : Steady history ch i n) {k : Chunk} (hs : k.sess = i) (hu : k.unsolicited = false) :
    Steady history ch i (settleBatch n k) ∧ (settleBatch n k).db = n.db ∧
      ((settleBatch n k).heap i).chActive = none ∧
      ((settleBatch n k).heap i).catchupIsBefore = (n.heap i).catchupIsBefore ∧
      ((settleBatch n k).heap i).catchupPrevNewestTime = (n.heap i).catchupPrevNewestTime ∧
      ((settleBatch n k).heap i).catchupLowerBound = (n.heap i).catchupLowerBound := by
  subst hs
  unfold settleBatch
  extract_lets i serv n₁ n₂ n₃
  have h₁ : Steady history ch i n₁ :=
    h.carried ⟨⟨rfl, fun _ => ⟨rfl, rfl⟩, rfl⟩, rfl, rfl, rfl⟩ (.of_db h.sane rfl) rfl rfl
  have hn₂ : n₂ = chathistoryRequestComplete n₁ i := by
    simp only [n₂, hu, Bool.false_eq_true, if_false]
  obtain ⟨h₂, hdb, hactive, u, hheap⟩ := requestComplete_steady h₁
  rw [← hn₂] at h₂ hdb hactive hheap
  -- what is left only moves the cursor and the end mark
  have hstay {m : Net} (hm : Steady history ch i m) (hd : m.db = n.db) (hp : (m.heap i).progress = (n₂.heap i).progress) :
      Steady history ch i m ∧ m.db = n.db ∧ (m.heap i).chActive = none ∧
        (m.heap i).catchupIsBefore = (n.heap i).catchupIsBefore ∧
        (m.heap i).catchupPrevNewestTime = (n.heap i).catchupPrevNewestTime ∧
        (m.heap i).catchupLowerBound = (n.heap i).catchupLowerBound := by
    have hbefore : (n₂.heap i).catchupIsBefore = (n.heap i).catchupIsBefore := by rw [hheap]; rfl
    have hprev : (n₂.heap i).catchupPrevNewestTime = (n.heap i).catchupPrevNewestTime := by rw [hheap]; rfl
    have hlow : (n₂.heap i).catchupLowerBound = (n.heap i).catchupLowerBound := by rw [hheap]; rfl
    exact ⟨hm, hd, (congrArg Progress.active hp).trans hactive, (congrArg Progress.isBefore hp).trans hbefore,
      (congrArg Progress.prevNewestTime hp).trans hprev, (congrArg Progress.lowerBound hp).trans hlow⟩
  have h₃ : Steady history ch i n₃ ∧ n₃.db = n.db ∧ (n₃.heap i).progress = (n₂.heap i).progress := by
    simp only [n₃]
    split
    · exact ⟨Moved.progress_upd h₂ (.upd i fun _ => ⟨rfl, rfl, rfl, rfl⟩) rfl, hdb, by simp [Net.upd, Session.progress]⟩
    · exact ⟨h₂, hdb, rfl⟩
  split
  · refine hstay (Moved.progress_upd h₃.1 (.upd i fun _ => ⟨rfl, rfl, rfl, rfl⟩) rfl) h₃.2.1 ?_
    rw [← h₃.2.2]
    simp [Net.upd, Session.progress]
  · exact hstay h₃.1 h₃.2.1 h₃.2.2

theorem absorb_covers (rows : List Gap) (a : Gap) : ∀ g ∈ rows,
    (rows.foldl Gap.absorb a).startTs ≤ g.startTs ∧ g.endTs ≤ (rows.foldl Gap.absorb a).endTs := by
  induction rows generalizing a with
  | nil => exact fun g hg => absurd hg List.not_mem_nil
  | cons o rows ih =>
    intro g hg
    rcases List.mem_cons.1 hg with rfl | hg
    · obtain ⟨-, hstart, hend⟩ := Gap.absorb_bounds a g
      have hspans := absorb_spans rows (a.absorb g)
      have h1 := hspans.start_le
      have h2 := hspans.le_end
      rw [List.foldl_cons]
      omega
    · exact ih (a.absorb o) g hg

/-- **Recording a gap** covers it, and what was covered before. -/
theorem record_covers {db : Sb} (hd : n.db = some db) (hs : db.Sane) (hch : ch ≠ "") (a : Int) (am : Option String)
    (b : Int) (bm : Option String) (state : GapState) :
    Extends ch n { n with db := some (scrollbackGapRecord db ch a am b bm state).2 } ∧
      ∀ t, 0 < a → a < b → a ≤ t → t ≤ b → InGap { n with db := some (scrollbackGapRecord db ch a am b bm state).2 } ch t := by
  unfold scrollbackGapRecord
  by_cases hargs : a ≤ 0 ∨ b ≤ a
  · rw [if_pos hargs]
    refine ⟨.of_db ⟨db, hd, hs⟩ hd.symm, fun t ha hab => by omega⟩
  rw [if_neg hargs]
  obtain ⟨id, channels, cache, he, hr⟩ := scrollbackGetChannelId_resolves hs ch
  obtain ⟨hpos, hl⟩ : 0 < id ∧ channelLookup channels ch = some id := hr.answer.resolve_left fun h => hch h.1
  simp only [he]
  rw [if_neg (by omega)]
  have hspans := absorb_spans (db.gaps.filter fun g => g.meets id a b) ⟨0, id, a, am, b, bm, state, 0, 0⟩
  have hcovers := absorb_covers (db.gaps.filter fun g => g.meets id a b) ⟨0, id, a, am, b, bm, state, 0, 0⟩
  generalize (db.gaps.filter fun g => g.meets id a b).foldl Gap.absorb ⟨0, id, a, am, b, bm, state, 0, 0⟩ = u at hspans hcovers ⊢
  have hchan : channelLookup channels ch = some u.channelId := hl.trans (congrArg some hspans.channelId.symm)
  have hstart : u.startTs ≤ a := hspans.start_le
  have hend : b ≤ u.endTs := hspans.le_end
  refine ⟨⟨⟨_, rfl, hr.sane⟩, ?_, ?_⟩, fun t _ _ hat htb => ?_⟩
  · rintro id' ⟨db₀, hd₀, row, hrow, hid⟩
    rw [hd] at hd₀
    cases hd₀
    exact ⟨_, rfl, row, by rw [hr.rows]; exact hrow, hid⟩
  · rintro t ⟨db₀, hd₀, g, hg, hlook, hlo, hhi⟩
    rw [hd] at hd₀
    cases hd₀
    by_cases hm : g.meets id a b = true
    · obtain ⟨h1, h2⟩ := hcovers g (List.mem_filter.2 ⟨hg, hm⟩)
      refine ⟨_, rfl, { u with id := _ }, List.mem_append_right _ (List.mem_singleton.2 rfl), hchan, ?_, ?_⟩
      · show u.startTs ≤ t
        omega
      · show t ≤ u.endTs
        omega
    · refine ⟨_, rfl, g, List.mem_append_left _ (List.mem_filter.2 ⟨hg, by simpa using hm⟩), hr.keepsLookups ch _ hlook, hlo, hhi⟩
  · refine ⟨_, rfl, { u with id := _ }, List.mem_append_right _ (List.mem_singleton.2 rfl), hchan, ?_, ?_⟩
    · show u.startTs ≤ t
      omega
    · show t ≤ u.endTs
      omega

theorem returnSlot_steady (h : Steady history ch i n) (j : Nat) : Steady history ch i (n.returnSlot j) := by
  unfold Net.returnSlot
  split
  · exact h.carried ⟨⟨rfl, fun _ => ⟨rfl, rfl⟩, rfl⟩, rfl, rfl, rfl⟩ (.of_db h.sane rfl) rfl rfl
  · exact h

/-- The witness of the LATEST phase: the store and the queue after it. -/
theorem recordWitness_steady (h : Steady history ch i n) (hnone : (n.heap i).chActive = none) {k : Chunk} (hs : k.sess = i) :
    Steady history ch i (recordWitness n k) ∧ Extends ch n (recordWitness n k) ∧
      ((recordWitness n k).heap i).chActive = none ∧
      ∀ t, 0 < (n.heap i).catchupPrevNewestTime → (n.heap i).catchupPrevNewestTime < k.oldestTimestamp →
        (n.heap i).catchupPrevNewestTime ≤ t → t ≤ k.oldestTimestamp → InGap (recordWitness n k) ch t := by
  subst hs
  obtain ⟨db, hd, hsane⟩ := h.sane
  obtain ⟨hext, hcovers⟩ := record_covers hd hsane h.named (n.heap k.sess).catchupPrevNewestTime
    (n.heap k.sess).catchupPrevNewestMsgid k.oldestTimestamp k.batchOldestMsgid .witnessed
  unfold recordWitness
  simp only [hd, h.channel]
  generalize scrollbackGapRecord db ch (n.heap k.sess).catchupPrevNewestTime (n.heap k.sess).catchupPrevNewestMsgid
    k.oldestTimestamp k.batchOldestMsgid .witnessed = r at *
  have hmoved : Moved k.sess n (({ n with db := some r.2 } : Net).upd k.sess fun s => { s with catchupGapId := r.1 }) := by
    have hupd : Moved k.sess { n with db := some r.2 }
        (({ n with db := some r.2 } : Net).upd k.sess fun s => { s with catchupGapId := r.1 }) :=
      .upd k.sess fun _ => ⟨rfl, rfl, rfl, rfl⟩
    have hfirst : Moved k.sess n { n with db := some r.2 } := .rest rfl rfl rfl rfl rfl
    exact hfirst.trans hupd
  have hext' : Extends ch n (({ n with db := some r.2 } : Net).upd k.sess fun s => { s with catchupGapId := r.1 }) :=
    hext.trans (.of_db hext.sane rfl)
  refine ⟨h.carried ⟨hmoved.toNamed, hmoved.prefs, hmoved.handlers, ?_⟩ hext' hmoved.known hmoved.joined, hext', ?_, hcovers⟩
  · simp [Net.upd, Session.progress]
  · simpa [Net.upd] using hnone

/-- What becomes of the messages of the history newer than `newest`. -/
def NothingUnrecorded (history : List BatchMessage) (newest : Int) (ch : String) (n : Net) : Prop :=
  ∀ m ∈ history, newest < m.timestamp → Accounted n ch m

/-- The reply to the LATEST is being replayed as chunk `k`: each message is accounted for, still to be
replayed, or so old that the gap to be recorded will cover it. -/
structure Replaying (history : List BatchMessage) (newest : Int) (ch : String) (i : Nat) (n : Net) (k : Chunk) : Prop where
  sess : k.sess = i
  isCatchup : k.isCatchup = true
  latestOwned : k.latestOwned = true
  unsolicited : k.unsolicited = false
  rawCount : 0 < k.rawCount
  asked : (latestAsked n i).isSome = true
  remaining : ∀ x ∈ k.remaining, x ∈ history
  done : ∃ done, k.oldestTimestamp = oldestOf done 0 ∧ done ++ k.remaining ≠ [] ∧ (∀ x ∈ done, x ∈ history) ∧
    ∀ m ∈ history, newest < m.timestamp → Accounted n ch m ∨ m ∈ k.remaining ∨
      CHATHISTORY_FUZZ_INTERVAL < (n.heap i).catchupPrevNewestTime ∧
        (n.heap i).catchupPrevNewestTime < m.timestamp ∧ ∀ x ∈ done ++ k.remaining, m.timestamp ≤ x.timestamp

section Replay

variable {newest : Int} {k : Chunk}

theorem asked_active (h : (latestAsked n i).isSome = true) : (n.heap i).chActive ≠ none := by
  intro hnone
  rw [latestAsked, hnone] at h
  cases h

theorem Replaying.received (h : Replaying history newest ch i n k) (he : Extends ch n n') (hr : Received i n n') :
    Replaying history newest ch i n' k := by
  have hprev : (n'.heap i).catchupPrevNewestTime = (n.heap i).catchupPrevNewestTime :=
    congrArg Progress.prevNewestTime hr.progress
  obtain ⟨done, hold, hne, hdone, hall⟩ := h.done
  refine ⟨h.sess, h.isCatchup, h.latestOwned, h.unsolicited, h.rawCount, ?_, h.remaining, done, hold, hne, hdone,
    fun m hm hnew => ?_⟩
  · rw [hr.latestAsked]
    exact h.asked
  · rw [hprev]
    exact (hall m hm hnew).imp_left he.accounted

theorem Replaying.goes (h : Replaying history newest ch i n k) (hg : Goes history ch i n n') :
    Replaying history newest ch i n' k := h.received hg.ext (hg.busy (asked_active h.asked))

/-- **A pass of the loop** over the reply. -/
theorem Replaying.loop {c : Client} (hc : Chronicle history) (h : Replaying history newest ch i c.net k)
    (hs : Steady history ch i c.net) :
    Steady history ch i (processChunkMessages c k).1.net ∧ Extends ch c.net (processChunkMessages c k).1.net ∧
      Replaying history newest ch i (processChunkMessages c k).1.net (processChunkMessages c k).2 := by
  obtain ⟨hsteady, hext, hstored⟩ := chunkLoop_stores hc CHATHISTORY_CHUNK_SIZE h.sess hs h.remaining
  have hprog := chunkLoop_progressed CHATHISTORY_CHUNK_SIZE c k
  have hrec := (chunkLoop_shown CHATHISTORY_CHUNK_SIZE c k).received i
  have hkept := h.received hext hrec
  unfold processChunkMessages
  refine ⟨hsteady, hext, ?_⟩
  obtain ⟨done, hold, hne, hdone, hall⟩ := hkept.done
  obtain ⟨count, hk⟩ := hprog.chunk
  have hmsgs := hprog.messages
  have holdest : (chunkLoop CHATHISTORY_CHUNK_SIZE c k).2.oldestTimestamp =
      oldestOf (done ++ k.remaining.take CHATHISTORY_CHUNK_SIZE) 0 := by
    rw [hk, hold]
    simp [oldestOf, List.foldl_append]
  have hwhole : done ++ k.remaining.take CHATHISTORY_CHUNK_SIZE ++ (chunkLoop CHATHISTORY_CHUNK_SIZE c k).2.remaining =
      done ++ k.remaining := by rw [List.append_assoc, hmsgs]
  refine ⟨hprog.sess.trans h.sess, by rw [hk]; exact h.isCatchup, by rw [hk]; exact h.latestOwned,
    by rw [hk]; exact h.unsolicited, by rw [hk]; exact h.rawCount, hkept.asked, fun x hx => h.remaining x ?_,
    done ++ k.remaining.take CHATHISTORY_CHUNK_SIZE, holdest, by rw [hwhole]; exact hne, fun x hx => ?_, fun m hm hnew => ?_⟩
  · rw [← hmsgs]
    exact List.mem_append_right _ hx
  · rcases List.mem_append.1 hx with hx | hx
    · exact hdone x hx
    · exact h.remaining x (List.mem_of_mem_take hx)
  · rw [hwhole]
    rcases hall m hm hnew with hacc | hrem | hgap
    · exact .inl hacc
    · rw [← hmsgs] at hrem
      rcases List.mem_append.1 hrem with htaken | hleft
      · exact .inl (.inl (hstored m htaken))
      · exact .inr (.inl hleft)
    · exact .inr (.inr hgap)

/-- **The end of the LATEST phase**: what the reply left out lies in the gap that is recorded. -/
theorem Replaying.finish (hc : Chronicle history) (h : Replaying history newest ch i n k) (hs : Steady history ch i n)
    (hnil : k.remaining = []) :
    Steady history ch i (finishBatchProcessing n k) ∧ Extends ch n (finishBatchProcessing n k) ∧
      latestAsked (finishBatchProcessing n k) i = none ∧ NothingUnrecorded history newest ch (finishBatchProcessing n k) := by
  obtain ⟨req, hreq⟩ := Option.isSome_iff_exists.1 h.asked
  obtain ⟨-, -, hlatest, hbound⟩ := hs.phase req hreq
  obtain ⟨hsettled, hdb, hactive, hbefore, hprev, hlow⟩ := settleBatch_steady hs h.sess h.unsolicited
  have hext₁ : Extends ch n (settleBatch n k) := .of_db hs.sane hdb
  obtain ⟨done, hold, hne, hdone, hall⟩ := h.done
  rw [hnil, List.append_nil] at hne
  -- the oldest message of the reply
  obtain ⟨x, hx⟩ := List.exists_mem_of_ne_nil done hne
  have holdpos : 0 < k.oldestTimestamp := by
    rw [hold]
    exact ((oldestOf_reaches (t := x.timestamp) (le_refl 0)).2 (.inr ⟨x, hx, hc.time x (hdone x hx), le_rfl⟩)).1
  obtain ⟨y, hy, hyold⟩ : ∃ y ∈ done, k.oldestTimestamp = y.timestamp := by
    rcases @oldestOf_mem done 0 with hzero | hmem
    · omega
    · rw [hold]
      exact hmem
  have hmain : ∀ n', n' = (if witnesses (settleBatch n k) k then recordWitness (settleBatch n k) k else settleBatch n k) →
      Steady history ch i n' ∧ Extends ch n n' ∧ latestAsked n' i = none ∧ NothingUnrecorded history newest ch n' := by
    rintro n' rfl
    obtain ⟨hrec, hext₂, hactive₂, hcovers⟩ := recordWitness_steady hsettled hactive h.sess
    rw [hprev] at hcovers
    have hnone {m : Net} (hm : (m.heap i).chActive = none) : latestAsked m i = none := by
      rw [latestAsked, hm]
      rfl
    split
    · refine ⟨hrec, hext₁.trans hext₂, hnone hactive₂, fun m hm hnew => ?_⟩
      rcases hall m hm hnew with hacc | hrem | ⟨hfuzz, hlate, hbelow⟩
      · exact (hext₁.trans hext₂).accounted hacc
      · rw [hnil] at hrem
        cases hrem
      · have hmy := hbelow y (by simp [hy])
        refine .inr (hcovers m.timestamp ?_ ?_ ?_ ?_)
        · unfold CHATHISTORY_FUZZ_INTERVAL at hfuzz
          omega
        · omega
        · omega
        · omega
    · rename_i hno
      refine ⟨hsettled, hext₁, hnone hactive, fun m hm hnew => ?_⟩
      rcases hall m hm hnew with hacc | hrem | ⟨hfuzz, hlate, hbelow⟩
      · exact hext₁.accounted hacc
      · rw [hnil] at hrem
        cases hrem
      · -- a message is left out, so the witness fires
        exfalso
        have hmy := hbelow y (by simp [hy])
        have hlow' := hbound hfuzz
        have hgapfill := hsettled.gapfill
        have hraw := h.rawCount
        unfold CHATHISTORY_FUZZ_INTERVAL at hfuzz hlow'
        refine hno ?_
        unfold witnesses
        simp only [h.sess, h.latestOwned, hgapfill, hprev, hlow, Bool.true_and, decide_eq_true_eq]
        omega
  unfold finishBatchProcessing
  dsimp only
  rw [if_pos h.isCatchup, if_neg (by rw [h.sess, hbefore, hlatest]; simp)]
  unfold finishLatest
  dsimp only
  obtain ⟨hs', hext', hnone', hall'⟩ := hmain _ rfl
  generalize (if witnesses (settleBatch n k) k then recordWitness (settleBatch n k) k else settleBatch n k) = n' at *
  rw [if_pos h.latestOwned]
  have hret := returnSlot_steady hs' k.sess
  obtain ⟨hcheck, hcdb, hcasked⟩ := check_steady hret
  have hext'' : Extends ch n' (checkWhenNonePending (n'.returnSlot k.sess)) :=
    .of_db hs'.sane (hcdb.trans (returnSlot_db ..))
  refine ⟨hcheck, hext'.trans hext'', ?_, fun m hm hnew => hext''.accounted (hall' m hm hnew)⟩
  rw [hcasked, latestAsked, returnSlot_heap]
  exact hnone'

/-! ### The reply -/

variable {past : String → BatchMessage → Bool}

theorem afterMsgid_sublist (m : String) (history : List BatchMessage) : (afterMsgid m history).Sublist history := by
  unfold afterMsgid
  split
  · exact (List.drop_sublist 1 _).trans (List.dropWhile_sublist _)
  · exact .refl history

theorem afterReference_sublist (past : String → BatchMessage → Bool) (history : List BatchMessage)
    (reference : Option String) : (afterReference past history reference).Sublist history := by
  unfold afterReference
  split
  · exact .refl history
  · split
    · exact afterMsgid_sublist _ history
    · exact List.filter_sublist

/-- What the limit leaves out is not newer than what is returned. -/
theorem latestAfter_spec (past : String → BatchMessage → Bool) (hc : Chronicle history) (reference : Option String) (limit : Int) :
    (∀ x ∈ latestAfter past history reference limit, x ∈ history) ∧
      ∀ m ∈ afterReference past history reference, m ∈ latestAfter past history reference limit ∨
        limit.toNat < (afterReference past history reference).length ∧
          ∀ x ∈ latestAfter past history reference limit, m.timestamp ≤ x.timestamp := by
  unfold latestAfter
  have hsub := afterReference_sublist past history reference
  have hsorted := hc.sorted.sublist hsub
  generalize afterReference past history reference = l at *
  refine ⟨fun x hx => hsub.subset (List.mem_of_mem_drop hx), fun m hm => ?_⟩
  rw [← List.take_append_drop (l.length - limit.toNat) l] at hm hsorted
  rcases List.mem_append.1 hm with hm | hm
  · right
    refine ⟨?_, fun x hx => (List.pairwise_append.1 hsorted).2.2 m hm x hx⟩
    by_contra hle
    have hzero : l.length - limit.toNat = 0 := by omega
    rw [hzero] at hm
    exact absurd hm (by simp)
  · exact .inl hm

/-- The reply is empty and asked again by timestamp. -/
def asksByTime (past : String → BatchMessage → Bool) (history : List BatchMessage) (i : Nat) (n : Net) (req : Chreq)
    (ended : Bool) : Prop :=
  (latestBatch past history i n req ended).messages = [] ∧ emptyRetries n (latestBatch past history i n req ended) i = true ∧
    dispatchable n i = true

/-- No message that is missing lies behind what the deferred start took for the newest row: each comes
after the reference, and if the limit may leave it out, after the newest stored time. -/
def NoneBehind (past : String → BatchMessage → Bool) (history : List BatchMessage) (newest : Int) (ch : String) (i : Nat)
    (n : Net) (req : Chreq) : Prop :=
  ∀ m ∈ history, newest < m.timestamp → ¬ Accounted n ch m → m ∈ afterReference past history req.reference ∧
    ((afterReference past history req.reference).length ≤ (getEffectiveLimit n.serv req.limit).toNat ∨
      CHATHISTORY_FUZZ_INTERVAL < (n.heap i).catchupPrevNewestTime ∧ (n.heap i).catchupPrevNewestTime < m.timestamp)

theorem latestBatch_session (h : Steady history ch i n) (req : Chreq) (ended : Bool) :
    batchSession n (latestBatch past history i n req ended) = (some i, n) := by
  simp only [batchSession, latestBatch, h.channel, h.found]

theorem latestBatch_shape (past : String → BatchMessage → Bool) (h : Steady history ch i n) {req : Chreq} (hreq : latestAsked n i = some req) (ended : Bool) :
    ∃ dir, batchShape n (latestBatch past history i n req ended) i = (⟨false, true, true, 0, dir⟩, n) := by
  have hactive : (n.heap i).chActive = some req := (Option.filter_eq_some_iff.1 hreq).1
  have hgap : activeGap (n.heap i) = 0 := by
    simp only [activeGap, hactive]
    exact (h.phase req hreq).gapId
  have hu : chathistoryBatchIsUnsolicited n (latestBatch past history i n req ended) i = false := by
    simp [chathistoryBatchIsUnsolicited, batchInReplayWrapper, latestBatch, hactive]
  obtain ⟨dir, hshape⟩ := batchShape_solicited hu
  refine ⟨dir, ?_⟩
  rw [hshape, hgap, (h.phase req hreq).inProgress]
  rfl

/-- **A reply with messages** starts the replay. -/
theorem latestBatch_replaying (hc : Chronicle history) {req : Chreq}
    (hreq : latestAsked n i = some req) (hn : NoneBehind past history newest ch i n req) (ended : Bool)
    (hne : (latestBatch past history i n req ended).messages ≠ []) (id : Nat) (dir : Int) :
    Replaying history newest ch i n
      (newChunk n (latestBatch past history i n req ended) i id ⟨false, true, true, 0, dir⟩) := by
  obtain ⟨hmem, hleft⟩ := latestAfter_spec past hc req.reference (getEffectiveLimit n.serv req.limit)
  have hsort := (sortMessages_arranged (latestBatch past history i n req ended).messages).perm
  have hsorted (x : BatchMessage) : x ∈ sortMessages (latestBatch past history i n req ended).messages ↔
      x ∈ latestAfter past history req.reference (getEffectiveLimit n.serv req.limit) := hsort.mem_iff
  refine ⟨rfl, rfl, rfl, rfl, ?_, by rw [hreq]; rfl, fun x hx => hmem x ((hsorted x).1 hx), [], rfl, ?_, ?_, fun m hm hnew => ?_⟩
  · obtain ⟨x, hx⟩ := List.exists_mem_of_ne_nil _ hne
    have hin : x ∈ (sortMessages (latestBatch past history i n req ended).messages).filter fun m => !m.context :=
      List.mem_filter.2 ⟨(hsorted x).2 hx, by simp [hc.context x (hmem x hx)]⟩
    have hpos := List.length_pos_of_mem hin
    show (0 : Int) < ((sortMessages (latestBatch past history i n req ended).messages).filter fun m => !m.context).length
    omega
  · intro hnil
    have hlen := hsort.length_eq
    rw [List.nil_append] at hnil
    rw [show sortMessages (latestBatch past history i n req ended).messages = [] from hnil] at hlen
    exact hne (List.length_eq_zero_iff.1 hlen.symm)
  · exact fun x hx => absurd hx List.not_mem_nil
  · by_cases hacc : Accounted n ch m
    · exact .inl hacc
    · obtain ⟨hafter, hfits⟩ := hn m hm hnew hacc
      rcases hleft m hafter with hret | ⟨hlong, hbelow⟩
      · exact .inr (.inl ((hsorted m).2 hret))
      · rcases hfits with hfits | ⟨hfuzz, hlate⟩
        · omega
        · exact .inr (.inr ⟨hfuzz, hlate, fun x hx => hbelow x ((hsorted x).1 hx)⟩)

theorem latestAfter_nil {reference : Option String} {serv : Serv} {limit : Int}
    (h : latestAfter past history reference (getEffectiveLimit serv limit) = []) :
    afterReference past history reference = [] := by
  have hpos := getEffectiveLimit_pos serv limit
  unfold latestAfter at h
  have hlen := congrArg List.length h
  simp only [List.length_drop, List.length_nil] at hlen
  refine List.length_eq_zero_iff.1 ?_
  omega

/-- **An empty reply**: the phase goes on with a LATEST by timestamp, or nothing was missing. -/
theorem latestBatch_empty (h : Steady history ch i n) {req : Chreq} (hreq : latestAsked n i = some req)
    {ended : Bool} (hnil : (latestBatch past history i n req ended).messages = [])
    (hn : asksByTime past history i n req ended ∨ NoneBehind past history newest ch i n req) (dir : Int) :
    Steady history ch i (processEmptyBatch n (latestBatch past history i n req ended) i ⟨false, true, true, 0, dir⟩) ∧
      (latestAsked (processEmptyBatch n (latestBatch past history i n req ended) i ⟨false, true, true, 0, dir⟩) i = none →
        NothingUnrecorded history newest ch
          (processEmptyBatch n (latestBatch past history i n req ended) i ⟨false, true, true, 0, dir⟩)) := by
  obtain ⟨hgap, hin, hlatest, hbound⟩ := h.phase req hreq
  have hnothing (hb : NoneBehind past history newest ch i n req) : NothingUnrecorded history newest ch n := by
    intro m hm hnew
    by_contra hacc
    have hafter := (hb m hm hnew hacc).1
    rw [latestAfter_nil hnil] at hafter
    cases hafter
  have hended : (latestBatch past history i n req ended).chathistoryEnd = ended := rfl
  unfold processEmptyBatch
  extract_lets usedMsgid n₁ n₂
  simp only [Int.lt_irrefl, if_false, if_true]
  -- the request is retired; the end tag only sets the end mark
  have h₁ : Steady history ch i n₁ ∧ n₁.db = n.db ∧ n₁.serv = n.serv ∧ n₁.prefs = n.prefs ∧
      (n₁.heap i).progress = (n.heap i).progress ∧ (n₁.heap i).type = (n.heap i).type ∧
      (n₁.heap i).scrollbackNewestTime = (n.heap i).scrollbackNewestTime ∧
      (n₁.heap i).historyExhausted = ((n.heap i).historyExhausted || ended) := by
    simp only [n₁, hended]
    cases ended with
    | false => exact ⟨by simpa using h, by simp⟩
    | true =>
      simp only [true_and, if_true]
      exact ⟨Moved.progress_upd h (.upd i fun _ => ⟨rfl, rfl, rfl, rfl⟩) rfl, rfl, rfl, rfl,
        by simp [Net.upd, Session.progress], by simp [Net.upd], by simp [Net.upd], by simp [Net.upd]⟩
  obtain ⟨h₁, hdb₁, hserv₁, hprefs₁, hprog₁, htype₁, htime₁, hexh₁⟩ := h₁
  have hn₂ : n₂ = chathistoryRequestComplete n₁ i := by simp [n₂]
  obtain ⟨h₂, hdb₂, hactive₂, u, hheap₂⟩ := requestComplete_steady h₁
  have hq₂ := requestComplete_queued n₁ i
  rw [← hn₂] at h₂ hdb₂ hactive₂ hheap₂ hq₂
  have hext : Extends ch n n₂ := .of_db h.sane (hdb₂.trans hdb₁)
  have hphase₂ (req' : Chreq) (hg : req'.gapId = 0) : InLatest (n₂.heap i) req' := by
    have hprev : (n₁.heap i).catchupPrevNewestTime = (n.heap i).catchupPrevNewestTime := congrArg Progress.prevNewestTime hprog₁
    have hlow : (n₁.heap i).catchupLowerBound = (n.heap i).catchupLowerBound := congrArg Progress.lowerBound hprog₁
    rw [hheap₂]
    refine ⟨hg, (congrArg Progress.inProgress hprog₁).trans hin, (congrArg Progress.isBefore hprog₁).trans hlatest, ?_⟩
    show CHATHISTORY_FUZZ_INTERVAL < (n₁.heap i).catchupPrevNewestTime →
      (n₁.heap i).catchupLowerBound = (n₁.heap i).catchupPrevNewestTime - CHATHISTORY_FUZZ_INTERVAL
    rw [hprev, hlow]
    exact hbound
  have hretries : retriesEmpty n₂ i false usedMsgid = emptyRetries n (latestBatch past history i n req ended) i := by
    have hexh₂ : (n₂.heap i).historyExhausted = ((n.heap i).historyExhausted || ended) := by rw [hheap₂]; exact hexh₁
    have htime₂ : (n₂.heap i).scrollbackNewestTime = (n.heap i).scrollbackNewestTime := by rw [hheap₂]; exact htime₁
    simp only [retriesEmpty, emptyRetries, hexh₂, htime₂, usedMsgid, hended, Bool.not_or, Bool.not_false, Bool.true_and]
  split
  · have hsteady : Steady history ch i (chathistoryRequestLatest n₂ i (some (chathistoryTsRef (n₂.heap i).scrollbackNewestTime))
        n₂.prefs.chathistoryLines) := by
      unfold chathistoryRequestLatest
      split
      · exact h₂.asks hactive₂ (fun _ => hphase₂) _ _ _ _
      · exact h₂
    refine ⟨hsteady, fun hnone => ?_⟩
    rcases hn with ⟨-, -, hdisp⟩ | hb
    · exfalso
      have htype₂ : (n₂.heap i).type = (n.heap i).type := by rw [hheap₂]; exact htype₁
      have hchan₂ : (n₂.heap i).channel = (n.heap i).channel := h₂.channel.trans h.channel.symm
      have hserv₂ : n₂.serv = n.serv := hq₂.serv.trans hserv₁
      have htarget : getTargetName (n₂.heap i) = getTargetName (n.heap i) := by simp only [getTargetName, htype₂, hchan₂]
      have hdisp₂ : dispatchable n₂ i = true := by
        unfold dispatchable at hdisp ⊢
        rwa [htarget, hserv₂]
      have hgate : requestGate n₂ i = true := by
        unfold dispatchable at hdisp₂
        simp only [Bool.and_eq_true] at hdisp₂
        obtain ⟨⟨⟨hname, hhave⟩, hconn⟩, -⟩ := hdisp₂
        have hsome : (getTargetName (n₂.heap i)).isSome = true := by
          cases hg : getTargetName (n₂.heap i) with
          | none =>
            rw [hg] at hname
            cases hname
          | some _ => rfl
        simp [requestGate, hhave, hconn, hsome]
      unfold chathistoryRequestLatest at hnone
      rw [if_pos hgate] at hnone
      rcases submitRequest_idle hactive₂ h₂.pending .latest _ none n₂.prefs.chathistoryLines
          ((some (chathistoryTsRef (n₂.heap i).scrollbackNewestTime)).any isMsgidRef) with ⟨hno, -⟩ | ⟨req', ht, -, hheap⟩
      · rw [hdisp₂] at hno
        cases hno
      · rw [latestAsked, hheap] at hnone
        simp [Session.withQueue, ht] at hnone
    · have hdb := (requestLatest_queued n₂ i (some (chathistoryTsRef (n₂.heap i).scrollbackNewestTime))
        n₂.prefs.chathistoryLines).db
      exact fun m hm hnew => (hext.trans (.of_db hext.sane hdb)).accounted (hnothing hb m hm hnew)
  · rename_i hno
    obtain ⟨hmoved, hdb₃, hqueue⟩ := finishCatchup_moved (n := n₂) (i := i) i
    have h₃ : Steady history ch i (finishCatchup n₂ i) := by
      refine h₂.moved hmoved (.of_db hext.sane hdb₃) ((hqueue i).2.1.trans h₂.pending) ?_ fun req' hreq' => ?_
      · rw [(hqueue i).2.2, (hqueue i).1]
        exact h₂.loading
      · rw [latestAsked, (hqueue i).1, hactive₂] at hreq'
        cases hreq'
    have hret := returnSlot_steady h₃ i
    obtain ⟨hcheck, hcdb, -⟩ := check_steady hret
    refine ⟨hcheck, fun _ => ?_⟩
    rcases hn with ⟨-, hyes, -⟩ | hb
    · rw [hretries] at hno
      exact absurd hyes hno
    · have hdb : (checkWhenNonePending ((finishCatchup n₂ i).returnSlot i)).db = n₂.db :=
        hcdb.trans ((returnSlot_db ..).trans hdb₃)
      exact fun m hm hnew => (hext.trans (.of_db hext.sane hdb)).accounted (hnothing hb m hm hnew)

/-! ## Runs -/

/-- Lines with a msgid have a time; and when the reply comes that ends the phase, no missing message lies
behind what the deferred start took for the newest row. -/
def Anchored (past : String → BatchMessage → Bool) (history : List BatchMessage) (newest : Int) (ch : String) (i : Nat)
    (c : Client) : ReconnectEvent → Prop
  | .join msgid timestamp _ _ => Timed msgid timestamp
  | .line msgid timestamp _ _ => Timed msgid timestamp
  | .reply ended => ∀ req, latestAsked c.net i = some req → c.chunks = [] →
      asksByTime past history i c.net req ended ∨ NoneBehind past history newest ch i c.net req
  | _ => True

/-- Between the steps: the channel is in order, and at most the reply to its LATEST is being replayed. -/
structure Rejoining (history : List BatchMessage) (newest : Int) (ch : String) (i : Nat) (c : Client) : Prop where
  steady : Steady history ch i c.net
  chunks : c.chunks = [] ∨ ∃ k, c.chunks = [k] ∧ Replaying history newest ch i c.net k

/-- If the LATEST phase of the channel ends with the step, nothing is missing from its record. -/
def EndsRecorded (history : List BatchMessage) (newest : Int) (ch : String) (i : Nat) (c c' : Client) : Prop :=
  latestAsked c.net i ≠ none → latestAsked c'.net i = none → NothingUnrecorded history newest ch c'.net

variable {c : Client}

theorem EndsRecorded.of_received {c' : Client} (h : Received i c.net c'.net) : EndsRecorded history newest ch i c c' := by
  intro hsome hnone
  rw [h.latestAsked] at hnone
  exact absurd hnone hsome

theorem Rejoining.received (h : Rejoining history newest ch i c) (c' : Client) (hs : Steady history ch i c'.net)
    (he : Extends ch c.net c'.net) (hr : Received i c.net c'.net) (hc : c'.chunks = c.chunks) :
    Rejoining history newest ch i c' := by
  refine ⟨hs, ?_⟩
  rw [hc]
  exact h.chunks.imp_right fun ⟨k, hk, hrep⟩ => ⟨k, hk, hrep.received he hr⟩

theorem deferredStart_rejoining (h : Rejoining history newest ch i c) :
    Rejoining history newest ch i (step c .deferredStart) ∧ EndsRecorded history newest ch i c (step c .deferredStart) := by
  have hgoes : Goes history ch i c.net (step c .deferredStart).net := by
    show Goes history ch i c.net (netStep c.net .deferredStart)
    simp only [netStep]
    split
    · exact deferredStart_goes h.steady
    · exact .refl h.steady
  refine ⟨⟨hgoes.steady, ?_⟩, fun hsome => ?_⟩
  · refine h.chunks.imp_right ?_
    rintro ⟨k, hk, hrep⟩
    exact ⟨k, hk, hrep.goes hgoes⟩
  · have hactive : (c.net.heap i).chActive ≠ none := fun hno => hsome (by rw [latestAsked, hno]; rfl)
    exact EndsRecorded.of_received (hgoes.busy hactive) hsome

/-- **The reply.** -/
theorem reply_rejoining (hc : Chronicle history) (h : Rejoining history newest ch i c) {ended : Bool}
    (ha : Anchored past history newest ch i c (.reply ended)) :
    Rejoining history newest ch i (reconnectStep past history i c (.reply ended)) ∧
      EndsRecorded history newest ch i c (reconnectStep past history i c (.reply ended)) := by
  simp only [reconnectStep]
  cases hreq : latestAsked c.net i with
  | none => exact ⟨h, fun hsome => absurd hreq hsome⟩
  | some req =>
    dsimp only
    split
    · rename_i hchunks
      obtain ⟨dir, hshape⟩ := latestBatch_shape past h.steady hreq ended
      have hbehind := ha req hreq hchunks
      simp only [step, chathistoryProcessBatch, latestBatch_session h.steady, hshape]
      split
      · rename_i hnil
        obtain ⟨hsteady, hend⟩ := latestBatch_empty h.steady hreq hnil hbehind dir
        exact ⟨⟨hsteady, .inl hchunks⟩, fun _ => hend⟩
      · rename_i hne
        have hnone : NoneBehind past history newest ch i c.net req := hbehind.resolve_left fun hno => hne hno.1
        have hrep := latestBatch_replaying hc hreq hnone ended hne c.nextChunk dir
        unfold processMessages
        dsimp only
        split
        · rename_i hsmall
          obtain ⟨hs', hext, hrep'⟩ := Replaying.loop (c := { c with nextChunk := c.nextChunk + 1 }) hc hrep h.steady
          have hrun := processChunkMessages_run { c with nextChunk := c.nextChunk + 1 }
            (newChunk c.net (latestBatch past history i c.net req ended) i c.nextChunk ⟨false, true, true, 0, dir⟩)
          have hraw : ((sortMessages (latestBatch past history i c.net req ended).messages).filter fun m => !m.context) =
              sortMessages (latestBatch past history i c.net req ended).messages :=
            List.filter_eq_self.2 fun x hx => by simp [hc.context x (hrep.remaining x hx)]
          have hnil : (processChunkMessages { c with nextChunk := c.nextChunk + 1 } (newChunk c.net
              (latestBatch past history i c.net req ended) i c.nextChunk ⟨false, true, true, 0, dir⟩)).2.remaining = [] := by
            rw [hrun.remaining]
            refine List.drop_eq_nil_of_le ?_
            have hlen : (((sortMessages (latestBatch past history i c.net req ended).messages).filter
                fun m => !m.context).length : Int) ≤ CHATHISTORY_CHUNK_SIZE := hsmall
            rw [hraw] at hlen
            exact_mod_cast hlen
          obtain ⟨hfin, -, -, hall⟩ := hrep'.finish hc hs' hnil
          refine ⟨⟨hfin, .inl ?_⟩, fun _ _ => hall⟩
          show (processChunkMessages _ _).1.chunks = []
          rw [hrun.chunks]
          exact hchunks
        · refine ⟨⟨h.steady, .inr ⟨_, ?_, hrep⟩⟩, .of_received (.refl i c.net)⟩
          simp [hchunks]
    · exact ⟨h, .of_received (.refl i c.net)⟩

/-- **A tick of the chunk.** -/
theorem tick_rejoining (hc : Chronicle history) (h : Rejoining history newest ch i c) (id : Nat) :
    Rejoining history newest ch i (step c (.chunkTick id)) ∧ EndsRecorded history newest ch i c (step c (.chunkTick id)) := by
  have hstay : Rejoining history newest ch i c ∧ EndsRecorded history newest ch i c c := ⟨h, .of_received (.refl i c.net)⟩
  simp only [step]
  cases hfind : c.chunks.find? fun k => k.id = id with
  | none => exact hstay
  | some k =>
    dsimp only
    rcases h.chunks with hnil | ⟨k', hone, hrep⟩
    · rw [hnil] at hfind
      cases hfind
    obtain rfl : k = k' := by
      have hmem := List.mem_of_find?_eq_some hfind
      rw [hone] at hmem
      exact List.mem_singleton.1 hmem
    obtain ⟨hs', hext, hrep'⟩ := hrep.loop hc h.steady
    have hrun := processChunkMessages_run c k
    have hrec := (chunkLoop_shown CHATHISTORY_CHUNK_SIZE c k).received i
    have hopen : k.sess ∈ c.net.sessList := by
      rw [hrep.sess]
      exact h.steady.mem
    unfold chunkIdleCb
    rw [if_neg (not_not.2 hopen)]
    dsimp only
    split
    · rename_i hdone
      obtain ⟨hfin, -, -, hall⟩ := hrep'.finish hc hs' hdone
      refine ⟨⟨hfin, .inl ?_⟩, fun _ _ => hall⟩
      show (processChunkMessages c k).1.chunks.filter _ = []
      rw [hrun.chunks, hone]
      simp [hrun.id]
    · refine ⟨⟨hs', .inr ⟨_, ?_, hrep'⟩⟩, .of_received hrec⟩
      show (processChunkMessages c k).1.chunks.map _ = _
      rw [hrun.chunks, hone]
      simp [hrun.id]

/-- **A step** of a run that is anchored. -/
theorem reconnectStep_rejoining (hc : Chronicle history) (h : Rejoining history newest ch i c) {e : ReconnectEvent}
    (ha : Anchored past history newest ch i c e) : Rejoining history newest ch i (reconnectStep past history i c e) ∧
      EndsRecorded history newest ch i c (reconnectStep past history i c e) := by
  cases e with
  | join msgid timestamp joinText reconnectText =>
    obtain ⟨hs, he, hr⟩ := inboundUjoin_steady h.steady ha joinText reconnectText
    exact ⟨h.received { c with net := inboundUjoin c.net i msgid timestamp joinText reconnectText } hs he hr rfl,
      .of_received hr⟩
  | line msgid timestamp text isUserMsg =>
    obtain ⟨hs, he, hr⟩ := receiveLine_steady h.steady ha text isUserMsg
    exact ⟨h.received { c with net := receiveLine c.net i msgid timestamp text isUserMsg } hs he hr rfl,
      .of_received hr⟩
  | clock now =>
    have hr : Received i c.net (step c (.clock now)).net := ⟨⟨rfl, fun _ => ⟨rfl, rfl⟩, rfl⟩, rfl, rfl, rfl⟩
    have he : Extends ch c.net (step c (.clock now)).net := .of_db h.steady.sane rfl
    exact ⟨h.received _ (h.steady.carried hr he rfl rfl) he hr rfl, .of_received hr⟩
  | deferredStart => exact deferredStart_rejoining h
  | reply ended => exact reply_rejoining hc h ha
  | tick id => exact tick_rejoining hc h id

end Replay

end Sessions

/-- The channel when the connection was lost: `newest` is the time of its newest row, and nothing is in
flight. -/
structure Net.Left (n : Net) (history : List BatchMessage) (newest : Int) (ch : String) (i : Nat) : Prop
    extends Steady history ch i n where
  newestRow : ∀ db, n.db = some db → (scrollbackGetNewestTime db ch).1 = newest
  idle : (n.heap i).chActive = none

/-- A server that reads timestamps as they are written. -/
def pastTime (reference : String) (m : BatchMessage) : Bool := decide (reference < chathistoryTsRef m.timestamp)

/-- `#c` with its newest row at 100, on a server that returns one message at a time. -/
def awayAt100 : Net := { storedChannels with serv := { storedChannels.serv with chathistoryLimit := 1 } }

/-- Two messages were missed. -/
def twoMissed : List BatchMessage := [.line "c1" 100, .line "m1" 200, .line "m2" 400]

/-- Our own JOIN, as the server keeps it. -/
def BatchMessage.ownJoin (msgid : String) (timestamp : Int) : BatchMessage :=
  ⟨some "JOIN", some "me!user@host", ["#c"], some msgid, timestamp, false⟩

/-- A message was missed before our own JOIN. -/
def missedBeforeJoin : List BatchMessage := [.line "c1" 100, .line "m1" 200, .ownJoin "j" 300]

theorem twoMissed_chronicle : Chronicle twoMissed := by
  refine ⟨by decide, by decide, ?_, by decide, by decide⟩
  simp [twoMissed, BatchMessage.line]

theorem awayAt100_left (history : List BatchMessage) : awayAt100.Left history 100 "#c" 0 where
  sane := ⟨storedRows, rfl, storedRows_sane⟩
  found := by decide
  channel := rfl
  named := by decide
  gapfill := rfl
  textReplay := rfl
  handlers := by
    refine ⟨fun s m _ op hop => ?_, fun s m _ => ⟨"text", true, List.mem_singleton.2 rfl⟩⟩
    exact ⟨_, _, _, _, _, List.mem_singleton.1 hop⟩
  known key hkey := absurd hkey List.not_mem_nil
  joined := nofun
  pending := rfl
  loading := rfl
  phase req hreq := by
    have hnone : latestAsked awayAt100 0 = none := by decide
    rw [hnone] at hreq
    cases hreq
  newestRow db hd := by
    rw [← Option.some.inj hd]
    decide
  idle := rfl

end PoxChat.ChatHistory
