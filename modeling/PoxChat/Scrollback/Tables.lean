import Mathlib.Data.Prod.Lex
import PoxChat.Lib.Ranked
import PoxChat.Lib.Program
import PoxChat.Scrollback.Store

/-!
# What the tables always satisfy

`Sane` collects what the schema and the inserts keep: primary keys are positive and unique, a
channel name names one channel, every message belongs to a channel, and the channel-id cache agrees
with `channels`.  `scrollbackGetChannelId_resolves` says once what resolving a name does; every other
function starts with it.

`ordered` is a channel's rows by `(timestamp, id)`.  The statements that restrict it by key are
selections of it (`selectAsc_and`, `selectDesc_eq_reverse`).
-/

set_option autoImplicit false

namespace PoxChat.Scrollback

open Lib

/-! ## Order -/

/-- The place of a row in its channel. -/
def Msg.key (m : Msg) : ℤ ×ₗ ℤ := toLex (m.timestamp, m.id)

theorem Msg.key_le {a b : Msg} :
    a.key ≤ b.key ↔ a.timestamp < b.timestamp ∨ a.timestamp = b.timestamp ∧ a.id ≤ b.id := by
  simp [Msg.key, Prod.Lex.toLex_le_toLex]

theorem Msg.key_lt {a b : Msg} :
    a.key < b.key ↔ a.timestamp < b.timestamp ∨ a.timestamp = b.timestamp ∧ a.id < b.id := by
  simp [Msg.key, Prod.Lex.toLex_lt_toLex]

theorem keyLe_iff {a b : Msg} : keyLe a b ↔ a.key ≤ b.key := Msg.key_le.symm

instance : Std.Total keyLe := ⟨fun a b => by simp only [keyLe_iff]; exact le_total _ _⟩

instance : IsTrans Msg keyLe := ⟨fun _ _ _ hab hbc =>
  keyLe_iff.2 ((keyLe_iff.1 hab).trans (keyLe_iff.1 hbc))⟩

/-- A channel's rows in order. -/
def ordered (rows : List Msg) (channelId : Int) : List Msg :=
  selectAsc rows fun m => m.channelId = channelId

variable {rows : List Msg} {channelId : Int}

theorem selectAsc_perm (rows : List Msg) (p : Msg → Bool) : (selectAsc rows p).Perm (rows.filter p) :=
  List.perm_insertionSort _ _

theorem keys_distinct (h : (rows.map (·.id)).Nodup) : rows.Pairwise fun a b => a.key ≠ b.key := by
  refine (List.pairwise_map.1 h).imp fun hne he => hne ?_
  exact congrArg (fun k => (ofLex k).2) he

theorem selectAsc_ranked (h : (rows.map (·.id)).Nodup) (p : Msg → Bool) :
    Ranked Msg.key (selectAsc rows p) := by
  refine Ranked.of_sorted ((List.pairwise_insertionSort keyLe _).imp keyLe_iff.1) ?_
  exact ((selectAsc_perm rows p).pairwise_iff fun hne he => hne he.symm).2 ((keys_distinct h).filter p)

theorem mem_ordered {m : Msg} : m ∈ ordered rows channelId ↔ m ∈ rows ∧ m.channelId = channelId := by
  unfold ordered
  rw [(selectAsc_perm rows _).mem_iff]
  simp

theorem ordered_length : (ordered rows channelId).length =
    (rows.filter fun m => m.channelId = channelId).length :=
  (selectAsc_perm rows _).length_eq

/-- A selection from the rows of a channel is a selection from its ordered rows. -/
theorem selectAsc_and (h : (rows.map (·.id)).Nodup) (p : Msg → Bool) :
    selectAsc rows (fun m => m.channelId = channelId ∧ p m) = (ordered rows channelId).filter p := by
  refine (selectAsc_ranked h _).eq_of_perm ((selectAsc_ranked h _).filter p) ?_
  refine (selectAsc_perm rows _).trans (.trans ?_ ((selectAsc_perm rows _).filter p).symm)
  rw [List.filter_filter]
  refine .of_eq (List.filter_congr fun m _ => ?_)
  simp [Bool.and_comm]

theorem selectDesc_eq_reverse (h : (rows.map (·.id)).Nodup) (p : Msg → Bool) :
    selectDesc rows p = (selectAsc rows p).reverse := by
  have hperm : (selectDesc rows p).reverse.Perm (rows.filter p) :=
    (List.reverse_perm _).trans (List.perm_insertionSort _ _)
  have hsorted : (selectDesc rows p).Pairwise fun a b => keyLe b a := by
    have : Std.Total fun a b : Msg => keyLe b a := ⟨fun a b => Std.Total.total (r := keyLe) b a⟩
    have : IsTrans Msg fun a b => keyLe b a := ⟨fun _ _ _ hab hbc => IsTrans.trans _ _ _ hbc hab⟩
    exact List.pairwise_insertionSort _ _
  have hranked : Ranked Msg.key (selectDesc rows p).reverse := by
    refine Ranked.of_sorted ((List.pairwise_reverse.2 hsorted).imp keyLe_iff.1) ?_
    exact (hperm.pairwise_iff fun hne he => hne he.symm).2 ((keys_distinct h).filter p)
  rw [← (hranked.eq_of_perm (selectAsc_ranked h p) (hperm.trans (selectAsc_perm rows p).symm)),
    List.reverse_reverse]

/-- Deleting rows deletes them from the ordered rows. -/
theorem ordered_filter (h : (rows.map (·.id)).Nodup) (p : Msg → Bool) :
    ordered (rows.filter p) channelId = (ordered rows channelId).filter p := by
  rw [← selectAsc_and h]
  unfold ordered selectAsc
  rw [List.filter_filter]
  congr 2
  funext m
  simp

theorem ordered_append_of_ne {m : Msg} (h : m.channelId ≠ channelId) :
    ordered (rows ++ [m]) channelId = ordered rows channelId := by
  simp [ordered, selectAsc, List.filter_append, h]

/-- A row that is last in the order is appended. -/
theorem ordered_append {m : Msg} (h : ((rows ++ [m]).map (·.id)).Nodup) (hc : m.channelId = channelId)
    (hlast : ∀ r ∈ ordered rows channelId, r.key < m.key) :
    ordered (rows ++ [m]) channelId = ordered rows channelId ++ [m] := by
  have hrows : (rows.map (·.id)).Nodup := by
    rw [List.map_append] at h
    exact (List.nodup_append.1 h).1
  refine (selectAsc_ranked h _).eq_of_perm ((selectAsc_ranked hrows _).append_singleton hlast) ?_
  refine (selectAsc_perm _ _).trans ?_
  rw [List.filter_append]
  simpa [hc, ordered] using (selectAsc_perm rows fun m => m.channelId = channelId).symm.append_right [m]

/-- Changing what is not part of the order changes nothing else. -/
theorem ordered_map {f : Msg → Msg} (hkey : ∀ m, (f m).key = m.key)
    (hch : ∀ m, (f m).channelId = m.channelId) :
    ordered (rows.map f) channelId = (ordered rows channelId).map f := by
  unfold ordered selectAsc
  rw [List.map_insertionSort keyLe keyLe f _ fun a _ b _ => by simp only [keyLe_iff, hkey]]
  rw [List.filter_map]
  congr 2
  exact List.filter_congr fun m _ => by simp [hch]

/-! ## Rowids and channels -/

theorem le_maxOrZero {xs : List Int} {x : Int} (h : x ∈ xs) : x ≤ maxOrZero xs := by
  unfold maxOrZero
  cases hm : xs.max? with
  | none => rw [List.max?_eq_none_iff] at hm; subst hm; cases h
  | some m => exact (List.max?_eq_some_iff.1 hm).2 x h

theorem maxOrZero_nonneg {xs : List Int} (h : ∀ x ∈ xs, 0 < x) : 0 ≤ maxOrZero xs := by
  unfold maxOrZero
  cases hm : xs.max? with
  | none => simp
  | some m => exact (h m (List.max?_eq_some_iff.1 hm).1).le

theorem lt_nextId {xs : List Int} {x : Int} (h : x ∈ xs) : x < nextId xs := by
  have := le_maxOrZero h
  unfold nextId
  omega

theorem nextId_pos {xs : List Int} (h : ∀ x ∈ xs, 0 < x) : 0 < nextId xs := by
  have := maxOrZero_nonneg h
  unfold nextId
  omega

/-- The tables and the channel-id cache. -/
structure Sane (messages : List Msg) (channels : List Chan) (cache : Table String Int) : Prop where
  ids : (messages.map (·.id)).Nodup
  idPos : ∀ m ∈ messages, 0 < m.id
  names : (channels.map (·.name)).Nodup
  named : ∀ c ∈ channels, c.name ≠ ""
  chanIds : (channels.map (·.id)).Nodup
  chanPos : ∀ c ∈ channels, 0 < c.id
  owned : ∀ m ∈ messages, ∃ c ∈ channels, c.id = m.channelId
  cached : ∀ name id, cache.get name = some id → channelLookup channels name = some id

abbrev Sb.Sane (s : Sb) : Prop := Scrollback.Sane s.messages s.channels s.channelIdCache

theorem channelLookup_eq_some {channels : List Chan} {name : String} {id : Int}
    (h : channelLookup channels name = some id) : ∃ c ∈ channels, c.name = name ∧ c.id = id := by
  unfold channelLookup at h
  obtain ⟨c, hc, rfl⟩ := Option.map_eq_some_iff.1 h
  exact ⟨c, List.mem_of_find?_eq_some hc, by simpa using List.find?_some hc, rfl⟩

theorem channelLookup_eq_none {channels : List Chan} {name : String}
    (h : channelLookup channels name = none) : ∀ c ∈ channels, c.name ≠ name := by
  simpa [channelLookup] using h

theorem channelLookup_append {channels : List Chan} {c : Chan} {name : String} :
    channelLookup (channels ++ [c]) name =
      (channelLookup channels name).or (if c.name = name then some c.id else none) := by
  unfold channelLookup
  rw [List.find?_append]
  cases List.find? (fun c => decide (c.name = name)) channels with
  | some d => rfl
  | none => by_cases h : c.name = name <;> simp [h]

/-- The rows of the channel of this name, in order. -/
def channelRows (messages : List Msg) (channels : List Chan) (name : String) : List Msg :=
  match channelLookup channels name with
  | none => []
  | some id => ordered messages id

/-- What resolving `channel` to `id` leaves of the channels and their cache. -/
structure Resolves (messages : List Msg) (channels : List Chan) (channel : String) (id : Int)
    (channels' : List Chan) (cache' : Table String Int) : Prop where
  sane : Sane messages channels' cache'
  grown : channels' = channels ∨
    ∃ c, channels' = channels ++ [c] ∧ c.name = channel ∧ c.ftsBuilt = false
  rows : channelRows messages channels' = channelRows messages channels
  answer : channel = "" ∧ id = -1 ∨ 0 < id ∧ channelLookup channels' channel = some id

section Resolve

variable {messages : List Msg} {channels : List Chan} {cache : Table String Int} {name : String} {id : Int}

theorem Sane.lookup_pos (h : Sane messages channels cache)
    (hl : channelLookup channels name = some id) : 0 < id := by
  obtain ⟨c, hc, -, rfl⟩ := channelLookup_eq_some hl
  exact h.chanPos c hc

theorem Sane.put (h : Sane messages channels cache) (hl : channelLookup channels name = some id) :
    Sane messages channels (cache.put name id) := by
  refine { h with cached := fun name' id' hc => ?_ }
  rw [Table.get_put] at hc
  split at hc
  · rename_i he
    cases hc
    rw [← he, hl]
  · exact h.cached name' id' hc

/-- The row a new name gets. -/
theorem Sane.newChannel (h : Sane messages channels cache) (hn : name ≠ "")
    (hl : channelLookup channels name = none) :
    Sane messages (channels ++ [⟨nextId (channels.map (·.id)), name, false, false⟩]) cache where
  ids := h.ids
  idPos := h.idPos
  names := by
    rw [List.map_append, List.nodup_append]
    refine ⟨h.names, by simp, fun a ha b hb => ?_⟩
    obtain ⟨c, hc, rfl⟩ := List.mem_map.1 ha
    rw [List.mem_singleton.1 hb]
    exact channelLookup_eq_none hl c hc
  named c hc := by
    rcases List.mem_append.1 hc with hc | hc
    · exact h.named c hc
    · rw [List.mem_singleton.1 hc]; exact hn
  chanIds := by
    rw [List.map_append, List.nodup_append]
    refine ⟨h.chanIds, by simp, fun a ha b hb => ?_⟩
    rw [List.mem_singleton.1 hb]
    exact (lt_nextId ha).ne
  chanPos c hc := by
    rcases List.mem_append.1 hc with hc | hc
    · exact h.chanPos c hc
    · rw [List.mem_singleton.1 hc]
      exact nextId_pos fun x hx => by
        obtain ⟨c, hc, rfl⟩ := List.mem_map.1 hx
        exact h.chanPos c hc
  owned m hm := by
    obtain ⟨c, hc, he⟩ := h.owned m hm
    exact ⟨c, List.mem_append_left _ hc, he⟩
  cached name' id' hc := by rw [channelLookup_append, h.cached name' id' hc]; rfl

theorem Sane.unowned (h : Sane messages channels cache) :
    ∀ m ∈ messages, m.channelId ≠ nextId (channels.map (·.id)) := by
  intro m hm he
  obtain ⟨c, hc, hid⟩ := h.owned m hm
  have : c.id < nextId (channels.map (·.id)) := lt_nextId (List.mem_map_of_mem hc)
  omega

theorem ordered_eq_nil (h : ∀ m ∈ messages, m.channelId ≠ id) : ordered messages id = [] := by
  refine List.eq_nil_iff_forall_not_mem.2 fun m hm => ?_
  obtain ⟨hm, he⟩ := mem_ordered.1 hm
  exact h m hm he

theorem channelRows_newChannel (h : Sane messages channels cache) :
    channelRows messages (channels ++ [⟨nextId (channels.map (·.id)), name, false, false⟩]) =
      channelRows messages channels := by
  funext name'
  unfold channelRows
  rw [channelLookup_append]
  cases hl : channelLookup channels name' with
  | some id => rfl
  | none =>
    by_cases he : name = name'
    · simp [he, ordered_eq_nil h.unowned]
    · simp [he]

/-- **Resolving a name** touches the channels and their cache only, and adds at most an empty channel. -/
theorem scrollbackGetChannelId_resolves {s : Sb} (hs : s.Sane) (channel : String) :
    ∃ id channels' cache',
      scrollbackGetChannelId s channel =
        (id, { s with channels := channels', channelIdCache := cache' }) ∧
      Resolves s.messages s.channels channel id channels' cache' := by
  unfold scrollbackGetChannelId
  by_cases hn : channel = ""
  · exact ⟨-1, s.channels, s.channelIdCache, by simp [hn], hs, .inl rfl, rfl, .inl ⟨hn, rfl⟩⟩
  rw [if_neg hn]
  cases hc : s.channelIdCache.get channel with
  | some id =>
    have hl := hs.cached channel id hc
    exact ⟨id, s.channels, s.channelIdCache, rfl, hs, .inl rfl, rfl, .inr ⟨hs.lookup_pos hl, hl⟩⟩
  | none =>
    cases hl : channelLookup s.channels channel with
    | some id =>
      have hi : channelInsert s.channels channel = s.channels := by simp [channelInsert, hl]
      exact ⟨id, s.channels, _, by simp only [hi, hl], hs.put hl, .inl rfl, rfl,
        .inr ⟨hs.lookup_pos hl, hl⟩⟩
    | none =>
      have hi : channelInsert s.channels channel =
          s.channels ++ [⟨nextId (s.channels.map (·.id)), channel, false, false⟩] := by
        simp [channelInsert, hl]
      have hs' := hs.newChannel hn hl
      have hl' : channelLookup (s.channels ++ [⟨nextId (s.channels.map (·.id)), channel, false, false⟩])
          channel = some (nextId (s.channels.map (·.id))) := by
        rw [channelLookup_append, hl]
        simp
      exact ⟨_, _, _, by simp only [hi, hl'], hs'.put hl',
        .inr ⟨_, rfl, rfl, rfl⟩, channelRows_newChannel hs, .inr ⟨hs'.lookup_pos hl', hl'⟩⟩

end Resolve

/-! ## Writes keep the tables sane -/

section Writes

variable {messages : List Msg} {channels : List Chan} {cache : Table String Int}

theorem Sane.filter (h : Sane messages channels cache) (p : Msg → Bool) :
    Sane (messages.filter p) channels cache where
  ids := (List.filter_sublist.map _).nodup h.ids
  idPos m hm := h.idPos m (List.mem_of_mem_filter hm)
  names := h.names
  named := h.named
  chanIds := h.chanIds
  chanPos := h.chanPos
  owned m hm := h.owned m (List.mem_of_mem_filter hm)
  cached := h.cached

/-- What an insert stores: a row of the channel under a new key. -/
theorem insertMessage_eq_some {channelId timestamp : Int} {msgid : Option String} {text : String}
    {isUserMsg : Bool} {m : Msg}
    (h : insertMessage messages channelId timestamp msgid text isUserMsg = some m) :
    m.id = nextId (messages.map (·.id)) ∧ m.channelId = channelId ∧ m.timestamp = timestamp := by
  unfold insertMessage at h
  extract_lets msgid' at h
  split at h
  · cases h
  · cases h
    exact ⟨rfl, rfl, rfl⟩

theorem insertMessage_msgid {channelId timestamp : Int} {msgid : Option String} {text : String}
    {isUserMsg : Bool} {m : Msg}
    (h : insertMessage messages channelId timestamp msgid text isUserMsg = some m) :
    m.msgid = if msgid = some "" then none else msgid := by
  unfold insertMessage at h
  extract_lets msgid' at h
  split at h
  · cases h
  · cases h
    rfl

theorem Sane.append (h : Sane messages channels cache) {m : Msg}
    (hid : m.id = nextId (messages.map (·.id))) (hch : ∃ c ∈ channels, c.id = m.channelId) :
    Sane (messages ++ [m]) channels cache where
  ids := by
    rw [List.map_append, List.nodup_append]
    refine ⟨h.ids, by simp, fun a ha b hb => ?_⟩
    have hb : b = m.id := List.mem_singleton.1 hb
    rw [hb, hid]
    exact (lt_nextId ha).ne
  idPos m' hm' := by
    rcases List.mem_append.1 hm' with hm' | hm'
    · exact h.idPos m' hm'
    · rw [List.mem_singleton.1 hm', hid]
      exact nextId_pos fun x hx => by
        obtain ⟨r, hr, rfl⟩ := List.mem_map.1 hx
        exact h.idPos r hr
  names := h.names
  named := h.named
  chanIds := h.chanIds
  chanPos := h.chanPos
  owned m' hm' := by
    rcases List.mem_append.1 hm' with hm' | hm'
    · exact h.owned m' hm'
    · rw [List.mem_singleton.1 hm']; exact hch
  cached := h.cached

/-- What an update of a msgid leaves alone. -/
theorem updateMsgid_eq_some {channelId : Int} {old new : String} {rows' : List Msg}
    (h : updateMsgid messages channelId old new = some rows') :
    ∃ f : Msg → Msg, rows' = messages.map f ∧
      ∀ m, (f m).id = m.id ∧ (f m).channelId = m.channelId ∧ (f m).timestamp = m.timestamp := by
  unfold updateMsgid at h
  split at h
  · cases h
  · cases h
    refine ⟨_, rfl, fun m => ?_⟩
    split <;> exact ⟨rfl, rfl, rfl⟩

theorem Sane.map (h : Sane messages channels cache) {f : Msg → Msg}
    (hf : ∀ m, (f m).id = m.id ∧ (f m).channelId = m.channelId ∧ (f m).timestamp = m.timestamp) :
    Sane (messages.map f) channels cache where
  ids := by
    have he : (messages.map f).map (·.id) = messages.map (·.id) := by simp [hf]
    rw [he]
    exact h.ids
  idPos m hm := by
    obtain ⟨r, hr, rfl⟩ := List.mem_map.1 hm
    rw [(hf r).1]; exact h.idPos r hr
  names := h.names
  named := h.named
  chanIds := h.chanIds
  chanPos := h.chanPos
  owned m hm := by
    obtain ⟨r, hr, rfl⟩ := List.mem_map.1 hm
    rw [(hf r).2.1]; exact h.owned r hr
  cached := h.cached

/-- Changing what is neither a channel's id nor its name changes no lookup. -/
theorem channelLookup_map {f : Chan → Chan} (hf : ∀ c, (f c).id = c.id ∧ (f c).name = c.name)
    (channels : List Chan) (name : String) :
    channelLookup (channels.map f) name = channelLookup channels name := by
  have hname : ((fun c : Chan => decide (c.name = name)) ∘ f) = fun c => decide (c.name = name) := by
    funext c
    simp only [Function.comp, (hf c).2]
  have hid : ((·.id) ∘ f) = (·.id) := by
    funext c
    exact (hf c).1
  unfold channelLookup
  rw [List.find?_map, Option.map_map, hname, hid]

theorem Sane.mapChannels (h : Sane messages channels cache) {f : Chan → Chan}
    (hf : ∀ c, (f c).id = c.id ∧ (f c).name = c.name) : Sane messages (channels.map f) cache := by
  have hids : (channels.map f).map (·.id) = channels.map (·.id) := by simp [hf]
  have hnames : (channels.map f).map (·.name) = channels.map (·.name) := by simp [hf]
  exact {
    ids := h.ids
    idPos := h.idPos
    names := by rw [hnames]; exact h.names
    named := fun c hc => by
      obtain ⟨d, hd, rfl⟩ := List.mem_map.1 hc
      rw [(hf d).2]; exact h.named d hd
    chanIds := by rw [hids]; exact h.chanIds
    chanPos := fun c hc => by
      obtain ⟨d, hd, rfl⟩ := List.mem_map.1 hc
      rw [(hf d).1]; exact h.chanPos d hd
    owned := fun m hm => by
      have hm : m.channelId ∈ channels.map (·.id) := List.mem_map.2 (h.owned m hm)
      rw [← hids] at hm
      exact List.mem_map.1 hm
    cached := fun name id hc => by
      rw [channelLookup_map hf]; exact h.cached name id hc }

theorem Sane.setFtsBuilt (h : Sane messages channels cache) (channelId : Int) :
    Sane messages (setFtsBuilt channels channelId) cache := by
  refine h.mapChannels fun c => ?_
  split <;> exact ⟨rfl, rfl⟩

end Writes

/-! ## What the helpers leave alone -/

section Frames

variable (s : Sb) (channelId : Int)

theorem chanCacheInvalidate_eq : chanCacheInvalidate s channelId =
    { s with chanCache := (chanCacheInvalidate s channelId).chanCache } := by
  unfold chanCacheInvalidate
  split <;> rfl

theorem chanCacheEnsureCount_eq : (chanCacheEnsureCount s channelId).2 =
    { s with chanCache := (chanCacheEnsureCount s channelId).2.chanCache } := by
  unfold chanCacheEnsureCount
  dsimp only
  split <;> rfl

theorem chanCacheNoteInsert_eq (ts : Int) : chanCacheNoteInsert s channelId ts =
    { s with chanCache := (chanCacheNoteInsert s channelId ts).chanCache } := by
  unfold chanCacheNoteInsert
  split
  · rfl
  · split
    · rfl
    · split
      · rfl
      · exact chanCacheInvalidate_eq s channelId

theorem ftsStateGet_eq : (ftsStateGet s channelId).2 =
    { s with ftsState := (ftsStateGet s channelId).2.ftsState } := by
  unfold ftsStateGet
  split
  · rfl
  · split <;> rfl

theorem ftsIndexRow_eq (rowid : Int) : ftsIndexRow s rowid channelId =
    { s with messagesFts := (ftsIndexRow s rowid channelId).messagesFts } := by
  unfold ftsIndexRow
  split <;> rfl

theorem ftsUnindexRow_eq (rowid : Int) : ftsUnindexRow s rowid =
    { s with messagesFts := (ftsUnindexRow s rowid).messagesFts } := by
  unfold ftsUnindexRow
  split <;> rfl

theorem ftsNoteInsert_eq (rowid : Int) : ftsNoteInsert s rowid channelId =
    { s with
      ftsState := (ftsNoteInsert s rowid channelId).ftsState
      messagesFts := (ftsNoteInsert s rowid channelId).messagesFts } := by
  unfold ftsNoteInsert
  dsimp only
  split
  · rfl
  · rw [ftsStateGet_eq]
    split
    · rw [ftsIndexRow_eq]
    · rfl

theorem ftsNoteInsert_messages (rowid : Int) :
    (ftsNoteInsert s rowid channelId).messages = s.messages := by
  rw [ftsNoteInsert_eq]

theorem ftsBackfillLoop_eq (ids : List Int) : ftsBackfillLoop channelId s ids =
    { s with messagesFts := (ftsBackfillLoop channelId s ids).messagesFts } := by
  induction ids generalizing s with
  | nil => rfl
  | cons id ids ih =>
    unfold ftsBackfillLoop
    rw [ih]
    split
    · rfl
    · rw [ftsIndexRow_eq]

end Frames

/-! ## Every call keeps the tables sane -/

/-- What every call on the messages keeps: sane tables, the gaps, the known channels and their names. -/
structure Keeps (s s' : Sb) : Prop where
  sane : s'.Sane
  gaps : s'.gaps = s.gaps
  channels : ∀ c ∈ s.channels, ∃ c' ∈ s'.channels, c'.id = c.id
  lookups : ∀ name id, channelLookup s.channels name = some id → channelLookup s'.channels name = some id

section Grown

variable {messages : List Msg} {channels channels' : List Chan} {channel : String} {id : Int}
  {cache : Table String Int} (hr : Resolves messages channels channel id channels' cache)

include hr

theorem Resolves.keepsIds : ∀ c ∈ channels, ∃ c' ∈ channels', c'.id = c.id := by
  intro c hc
  rcases hr.grown with he | ⟨d, he, -⟩
  · exact ⟨c, he ▸ hc, rfl⟩
  · exact ⟨c, he ▸ List.mem_append_left _ hc, rfl⟩

theorem Resolves.keepsLookups (name : String) (id' : Int) (h : channelLookup channels name = some id') :
    channelLookup channels' name = some id' := by
  rcases hr.grown with he | ⟨d, he, -⟩
  · rw [he, h]
  · rw [he, channelLookup_append, h]
    rfl

end Grown

theorem Keeps.refl {s : Sb} (hs : s.Sane) : Keeps s s := ⟨hs, rfl, fun c hc => ⟨c, hc, rfl⟩, fun _ _ h => h⟩


section Calls

variable {s : Sb} (hs : s.Sane) (channel : String)

include hs

theorem scrollbackDbSave_keeps (timestamp : Int) (msgid : Option String) (text : String)
    (isUserMsg : Bool) : Keeps s (scrollbackDbSave s channel timestamp msgid text isUserMsg).2 := by
  obtain ⟨id, channels, cache, he, hr⟩ := scrollbackGetChannelId_resolves hs channel
  simp only [scrollbackDbSave, he]
  split
  · exact ⟨hr.sane, rfl, hr.keepsIds, hr.keepsLookups⟩
  rename_i hid
  split
  · exact ⟨hr.sane, rfl, hr.keepsIds, hr.keepsLookups⟩
  rename_i m hm
  have ⟨hmid, hmch, _⟩ := insertMessage_eq_some hm
  have hown : ∃ c ∈ channels, c.id = m.channelId := by
    rcases hr.answer with ⟨-, rfl⟩ | ⟨-, hl⟩
    · omega
    · obtain ⟨c, hc, -, hcid⟩ := channelLookup_eq_some hl
      exact ⟨c, hc, hcid.trans hmch.symm⟩
  have hsane := hr.sane.append hmid hown
  rw [chanCacheNoteInsert_eq, ftsNoteInsert_eq]
  exact ⟨hsane, rfl, hr.keepsIds, hr.keepsLookups⟩

theorem scrollbackPurgePending_keeps : Keeps s (scrollbackPurgePending s channel) := by
  obtain ⟨id, channels, cache, he, hr⟩ := scrollbackGetChannelId_resolves hs channel
  simp only [scrollbackPurgePending, he]
  split
  · exact ⟨hr.sane, rfl, hr.keepsIds, hr.keepsLookups⟩
  · rw [chanCacheInvalidate_eq]
    split <;> split <;> exact ⟨hr.sane.filter _, rfl, hr.keepsIds, hr.keepsLookups⟩

theorem scrollbackDeleteByRowid_keeps (rowid : Int) : Keeps s (scrollbackDeleteByRowid s rowid).2 := by
  unfold scrollbackDeleteByRowid
  split
  · exact .refl hs
  · split
    · dsimp only
      rw [ftsUnindexRow_eq]
      exact ⟨hs.filter _, rfl, fun c hc => ⟨c, hc, rfl⟩, fun _ _ h => h⟩
    · exact .refl hs

theorem scrollbackClear_keeps : Keeps s (scrollbackClear s channel) := by
  obtain ⟨id, channels, cache, he, hr⟩ := scrollbackGetChannelId_resolves hs channel
  simp only [scrollbackClear, he]
  split
  · exact ⟨hr.sane, rfl, hr.keepsIds, hr.keepsLookups⟩
  · rw [chanCacheInvalidate_eq]
    split <;> exact ⟨hr.sane.filter _, rfl, hr.keepsIds, hr.keepsLookups⟩

theorem scrollbackUpdatePendingMsgid_keeps (pendingMsgid realMsgid : String) :
    Keeps s (scrollbackUpdatePendingMsgid s channel pendingMsgid realMsgid).2 := by
  obtain ⟨id, channels, cache, he, hr⟩ := scrollbackGetChannelId_resolves hs channel
  simp only [scrollbackUpdatePendingMsgid, he]
  split
  · exact ⟨hr.sane, rfl, hr.keepsIds, hr.keepsLookups⟩
  · split
    · exact ⟨hr.sane, rfl, hr.keepsIds, hr.keepsLookups⟩
    · rename_i hu
      obtain ⟨f, rfl, hf⟩ := updateMsgid_eq_some hu
      exact ⟨hr.sane.map hf, rfl, hr.keepsIds, hr.keepsLookups⟩

/-- The ordinal queries resolve the name and fill the ordinal cache. -/
def OrdinalEffect (s : Sb) (channel : String) (s' : Sb) : Prop :=
  ∃ id channels cache, Resolves s.messages s.channels channel id channels cache ∧
    s' = { s with channels := channels, channelIdCache := cache, chanCache := s'.chanCache }

theorem scrollbackCount_effect : OrdinalEffect s channel (scrollbackCount s channel).2 := by
  obtain ⟨id, channels, cache, he, hr⟩ := scrollbackGetChannelId_resolves hs channel
  refine ⟨id, channels, cache, hr, ?_⟩
  simp only [scrollbackCount, he]
  split
  · rfl
  · rw [chanCacheEnsureCount_eq]

theorem scrollbackLoadRange_effect (offset limit : Int) :
    OrdinalEffect s channel (scrollbackLoadRange s channel offset limit).2 := by
  obtain ⟨id, channels, cache, he, hr⟩ := scrollbackGetChannelId_resolves hs channel
  refine ⟨id, channels, cache, hr, ?_⟩
  simp only [scrollbackLoadRange, he]
  generalize (if offset < 0 then 0 else offset) = offset
  split
  · rfl
  · rw [chanCacheEnsureCount_eq]
    split <;> rfl

theorem scrollbackGetIndexOfRowid_effect (rowid : Int) :
    OrdinalEffect s channel (scrollbackGetIndexOfRowid s channel rowid).2 := by
  obtain ⟨id, channels, cache, he, hr⟩ := scrollbackGetChannelId_resolves hs channel
  refine ⟨id, channels, cache, hr, ?_⟩
  simp only [scrollbackGetIndexOfRowid, he]
  rw [chanCacheEnsureCount_eq]
  repeat' split
  all_goals rfl

omit hs in
theorem OrdinalEffect.keeps {s' : Sb} (h : OrdinalEffect s channel s') : Keeps s s' := by
  obtain ⟨_, _, _, hr, he⟩ := h
  rw [he]
  exact ⟨hr.sane, rfl, hr.keepsIds, hr.keepsLookups⟩

theorem scrollbackFtsSchedule_keeps : Keeps s (scrollbackFtsSchedule s channel) := by
  obtain ⟨id, channels, cache, he, hr⟩ := scrollbackGetChannelId_resolves hs channel
  simp only [scrollbackFtsSchedule, he]
  rw [ftsStateGet_eq]
  repeat' split
  all_goals first | exact .refl hs | exact ⟨hr.sane, rfl, hr.keepsIds, hr.keepsLookups⟩

theorem scrollbackFtsReady_keeps : Keeps s (scrollbackFtsReady s channel).2 := by
  obtain ⟨id, channels, cache, he, hr⟩ := scrollbackGetChannelId_resolves hs channel
  simp only [scrollbackFtsReady, he]
  rw [ftsStateGet_eq]
  repeat' split
  all_goals first | exact .refl hs | exact ⟨hr.sane, rfl, hr.keepsIds, hr.keepsLookups⟩

theorem ftsBackfillChunk_keeps : Keeps s (ftsBackfillChunk s) := by
  unfold ftsBackfillChunk
  dsimp only
  rw [ftsBackfillLoop_eq]
  split
  · refine ⟨hs.setFtsBuilt _, rfl, fun c hc => ⟨_, List.mem_map_of_mem hc, ?_⟩, fun name id h => ?_⟩
    · split <;> rfl
    · rw [← h]
      exact channelLookup_map (fun c => by split <;> exact ⟨rfl, rfl⟩) _ name
  · exact ⟨hs, rfl, (Keeps.refl hs).channels, fun _ _ h => h⟩

theorem ftsBackfillIdle_keeps : Keeps s (ftsBackfillIdle s) := by
  unfold ftsBackfillIdle
  split
  · exact .refl hs
  · split
    · split
      · exact ⟨hs, rfl, (Keeps.refl hs).channels, fun _ _ h => h⟩
      · rename_i next queue _
        have hchunk := @ftsBackfillChunk_keeps (ftsStartBackfill { s with ftsQueue := queue } next) hs
        exact ⟨hchunk.sane, hchunk.gaps, hchunk.channels, hchunk.lookups⟩
    · exact ftsBackfillChunk_keeps hs

theorem reopen_keeps : Keeps s s.reopen :=
  ⟨{ hs with cached := fun _ _ h => by cases h }, rfl, fun c hc => ⟨c, hc, rfl⟩, fun _ _ h => h⟩

omit hs in
theorem fresh_sane (fts : Bool) : (Sb.fresh fts).Sane := by
  constructor <;> simp [Sb.fresh]

theorem step_keeps (op : Op) : Keeps s (step s op) := by
  cases op with
  | save => exact scrollbackDbSave_keeps hs _ _ _ _ _
  | purgePending => exact scrollbackPurgePending_keeps hs _
  | deleteByRowid => exact scrollbackDeleteByRowid_keeps hs _
  | clear => exact scrollbackClear_keeps hs _
  | updatePendingMsgid => exact scrollbackUpdatePendingMsgid_keeps hs _ _ _
  | count => exact (scrollbackCount_effect hs _).keeps
  | loadRange => exact (scrollbackLoadRange_effect hs _ _ _).keeps
  | indexOfRowid => exact (scrollbackGetIndexOfRowid_effect hs _ _).keeps
  | ftsSchedule => exact scrollbackFtsSchedule_keeps hs _
  | ftsReady => exact scrollbackFtsReady_keeps hs _
  | tick => exact ftsBackfillIdle_keeps hs
  | reopen => exact reopen_keeps hs

/-- The calls that write no row. -/
def Op.queries : Op → Bool
  | .save .. | .purgePending _ | .deleteByRowid _ | .clear _ | .updatePendingMsgid .. => false
  | _ => true

theorem step_messages_of_queries {op : Op} (hop : op.queries = true) : (step s op).messages = s.messages := by
  have hordinal {channel : String} {s' : Sb} (h : OrdinalEffect s channel s') : s'.messages = s.messages := by
    obtain ⟨_, _, _, -, he⟩ := h
    rw [he]
  have hchunk (s : Sb) : (ftsBackfillChunk s).messages = s.messages := by
    unfold ftsBackfillChunk
    dsimp only
    rw [ftsBackfillLoop_eq]
    split <;> rfl
  cases op with
  | save | purgePending | deleteByRowid | clear | updatePendingMsgid => cases hop
  | count => exact hordinal (scrollbackCount_effect hs _)
  | loadRange => exact hordinal (scrollbackLoadRange_effect hs _ _ _)
  | indexOfRowid => exact hordinal (scrollbackGetIndexOfRowid_effect hs _ _)
  | ftsSchedule channel =>
    obtain ⟨id, channels, cache, he, -⟩ := scrollbackGetChannelId_resolves hs channel
    simp only [step, scrollbackFtsSchedule, he]
    rw [ftsStateGet_eq]
    repeat' split
    all_goals rfl
  | ftsReady channel =>
    obtain ⟨id, channels, cache, he, -⟩ := scrollbackGetChannelId_resolves hs channel
    simp only [step, scrollbackFtsReady, he]
    rw [ftsStateGet_eq]
    repeat' split
    all_goals rfl
  | tick =>
    simp only [step, ftsBackfillIdle]
    repeat' split
    · rfl
    · rfl
    · exact hchunk _
    · exact hchunk _
  | reopen => rfl

/-- A known name resolves to its id, and the channels stay as they are. -/
theorem scrollbackGetChannelId_known (hc : channel ≠ "") {id : Int}
    (hl : channelLookup s.channels channel = some id) :
    ∃ cache, scrollbackGetChannelId s channel = (id, { s with channelIdCache := cache }) ∧
      Scrollback.Sane s.messages s.channels cache := by
  unfold scrollbackGetChannelId
  rw [if_neg hc]
  cases hget : s.channelIdCache.get channel with
  | some id' =>
    have hid := hs.cached channel id' hget
    rw [hl] at hid
    cases hid
    exact ⟨s.channelIdCache, rfl, hs⟩
  | none =>
    have hi : channelInsert s.channels channel = s.channels := by simp [channelInsert, hl]
    exact ⟨s.channelIdCache.put channel id, by simp only [hi, hl], hs.put hl⟩

/-- Two names never resolve to the same id. -/
theorem Sane.lookup_inj {name name' : String} {id : Int} (h : channelLookup s.channels name = some id)
    (h' : channelLookup s.channels name' = some id) : name = name' := by
  obtain ⟨c, hc, rfl, hid⟩ := channelLookup_eq_some h
  obtain ⟨d, hd, rfl, hid'⟩ := channelLookup_eq_some h'
  rw [List.inj_on_of_nodup_map hs.chanIds hc hd (hid.trans hid'.symm)]

/-- A name other than that of a known channel resolves to another id. -/
theorem scrollbackGetChannelId_ne {name : String} {id : Int} (hl : channelLookup s.channels name = some id)
    (hne : channel ≠ name) : (scrollbackGetChannelId s channel).1 ≠ id := by
  obtain ⟨id', channels, cache, he, hr⟩ := scrollbackGetChannelId_resolves hs channel
  have hl' := hr.keepsLookups name id hl
  rw [he]
  rintro rfl
  rcases hr.answer with ⟨-, hneg⟩ | ⟨-, hans⟩
  · have := hs.lookup_pos hl
    omega
  · exact hne (Sane.lookup_inj (s := { s with channels := channels, channelIdCache := cache }) hr.sane hans hl')

end Calls

/-! ## The gaps stay -/

section GapsFrame

variable {s : Sb} {channel : String}

@[simp] theorem scrollbackGetChannelId_gaps : (scrollbackGetChannelId s channel).2.gaps = s.gaps := by
  unfold scrollbackGetChannelId
  dsimp only
  repeat' split
  all_goals rfl

theorem ftsBackfillChunk_gaps : (ftsBackfillChunk s).gaps = s.gaps := by
  unfold ftsBackfillChunk
  dsimp only
  rw [ftsBackfillLoop_eq]
  split <;> rfl

@[simp] theorem scrollbackPurgePending_gaps : (scrollbackPurgePending s channel).gaps = s.gaps := by
  unfold scrollbackPurgePending
  dsimp only
  rw [chanCacheInvalidate_eq]
  split
  · simp
  · split <;> split <;> simp

@[simp] theorem scrollbackFtsSchedule_gaps : (scrollbackFtsSchedule s channel).gaps = s.gaps := by
  unfold scrollbackFtsSchedule
  dsimp only
  rw [ftsStateGet_eq]
  repeat' split
  all_goals simp [ftsStateSet]

@[simp] theorem scrollbackCount_gaps : (scrollbackCount s channel).2.gaps = s.gaps := by
  unfold scrollbackCount
  dsimp only
  rw [chanCacheEnsureCount_eq]
  split <;> simp

/-- No call on the messages touches the gaps. -/
@[simp] theorem step_gaps (op : Op) : (step s op).gaps = s.gaps := by
  cases op with
  | save channel timestamp msgid text isUserMsg =>
    simp only [step, scrollbackDbSave]
    repeat' split
    · simp
    · simp
    · rw [chanCacheNoteInsert_eq, ftsNoteInsert_eq]
      simp
  | purgePending channel => exact scrollbackPurgePending_gaps
  | deleteByRowid rowid =>
    simp only [step, scrollbackDeleteByRowid]
    repeat' split
    · rfl
    · rw [ftsUnindexRow_eq]
      rfl
    · rfl
  | clear channel =>
    simp only [step, scrollbackClear]
    rw [chanCacheInvalidate_eq]
    repeat' split
    all_goals simp
  | updatePendingMsgid channel pendingMsgid realMsgid =>
    simp only [step, scrollbackUpdatePendingMsgid]
    repeat' split
    all_goals simp
  | count channel => exact scrollbackCount_gaps
  | loadRange channel offset limit =>
    simp only [step, scrollbackLoadRange]
    generalize (if offset < 0 then 0 else offset) = offset
    rw [chanCacheEnsureCount_eq]
    repeat' split
    all_goals simp [setChanCache]
  | indexOfRowid channel rowid =>
    simp only [step, scrollbackGetIndexOfRowid]
    rw [chanCacheEnsureCount_eq]
    repeat' split
    all_goals simp [setChanCache]
  | ftsSchedule channel => exact scrollbackFtsSchedule_gaps
  | ftsReady channel =>
    simp only [step, scrollbackFtsReady]
    rw [ftsStateGet_eq]
    repeat' split
    all_goals simp
  | tick =>
    simp only [step, ftsBackfillIdle]
    repeat' split
    · rfl
    · rfl
    · exact ftsBackfillChunk_gaps
    · exact ftsBackfillChunk_gaps
  | reopen => rfl

@[simp] theorem run_gaps (ops : List Op) : (run s ops).gaps = s.gaps := by
  induction ops generalizing s with
  | nil => rfl
  | cons op ops ih => exact ih.trans (step_gaps op)

@[simp] theorem scrollbackGetNewestMsgid_gaps : (scrollbackGetNewestMsgid s channel).2.gaps = s.gaps := by
  unfold scrollbackGetNewestMsgid
  dsimp only
  split <;> simp

@[simp] theorem scrollbackGetOldestMsgid_gaps : (scrollbackGetOldestMsgid s channel).2.gaps = s.gaps := by
  unfold scrollbackGetOldestMsgid
  dsimp only
  split <;> simp

@[simp] theorem scrollbackGetNewestTime_gaps : (scrollbackGetNewestTime s channel).2.gaps = s.gaps := by
  unfold scrollbackGetNewestTime
  dsimp only
  split <;> simp

@[simp] theorem scrollbackHasMsgid_gaps (msgid : String) (timestamp : Int) :
    (scrollbackHasMsgid s channel msgid timestamp).2.gaps = s.gaps := by
  unfold scrollbackHasMsgid
  dsimp only
  repeat' split
  all_goals simp

end GapsFrame

end PoxChat.Scrollback
