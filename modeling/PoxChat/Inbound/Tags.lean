import PoxChat.Inbound.Lines

/-!
# What becomes of tags

The values of message tags on the wire and what `unescape_tag_value` and `handle_message_tags` make of them.

* `Decodes` — what a value on the wire stands for, with a choice for the backslashes that start no escape.
* `handleMessageTags_pairs` — a list of tags with distinct keys is read back.
* `tags_survive` — both, with the values that were escaped.
-/

set_option autoImplicit false

namespace PoxChat.Inbound

open Lib
open Outbound (Bytes bytes)

/-! ## Values on the wire -/

/-- The escapes: the byte after the backslash and what the two stand for. -/
def escapes : List (UInt8 × UInt8) := [(58, 59), (115, 32), (92, 92), (114, 13), (110, 10)]

theorem unescapeByte_eq_some {d e : UInt8} : unescapeByte d = some e ↔ (d, e) ∈ escapes := by
  simp only [escapes, List.mem_cons, Prod.mk.injEq, List.not_mem_nil, or_false]
  unfold unescapeByte
  constructor
  · intro h
    split_ifs at h with h58 h115 h92 h114 h110
    · exact .inl ⟨h58, (Option.some.inj h).symm⟩
    · exact .inr (.inl ⟨h115, (Option.some.inj h).symm⟩)
    · exact .inr (.inr (.inl ⟨h92, (Option.some.inj h).symm⟩))
    · exact .inr (.inr (.inr (.inl ⟨h114, (Option.some.inj h).symm⟩)))
    · exact .inr (.inr (.inr (.inr ⟨h110, (Option.some.inj h).symm⟩)))
  · rintro (⟨rfl, rfl⟩ | ⟨rfl, rfl⟩ | ⟨rfl, rfl⟩ | ⟨rfl, rfl⟩ | ⟨rfl, rfl⟩) <;> rfl

/-- What a value on the wire stands for: `other` is the meaning of a backslash before another byte, `last` that of a backslash at
the end. -/
inductive Decodes (other : UInt8 → Bytes) (last : Bytes) : Bytes → Bytes → Prop where
  | nil : Decodes other last [] []
  | plain {c : UInt8} {w v : Bytes} (hc : c ≠ 92) (h : Decodes other last w v) : Decodes other last (c :: w) (c :: v)
  | escape {d e : UInt8} {w v : Bytes} (hd : (d, e) ∈ escapes) (h : Decodes other last w v) :
      Decodes other last (92 :: d :: w) (e :: v)
  | other {d : UInt8} {w v : Bytes} (hd : ∀ e, (d, e) ∉ escapes) (h : Decodes other last w v) :
      Decodes other last (92 :: d :: w) (other d ++ v)
  | last : Decodes other last [92] last

/-- The backslashes that start no escape are dropped. -/
def Dropping : Bytes → Bytes → Prop := Decodes (fun d => [d]) []

/-- They stand for themselves. -/
def Keeping : Bytes → Bytes → Prop := Decodes (fun d => [92, d]) [92]

theorem keeping_unescape (w : Bytes) : Keeping w (unescapeTagValue w) := by
  induction w using unescapeTagValue.induct with
  | case1 => exact .nil
  | case2 c =>
    by_cases hc : c = 92
    · subst hc
      exact .last
    · exact .plain hc .nil
  | case3 d rest e he ih =>
    rw [unescape_pair he]
    exact .escape (unescapeByte_eq_some.1 he) ih
  | case4 d rest hd ih =>
    rw [unescapeTagValue, if_pos rfl, hd]
    refine .other (fun e he => ?_) ih
    rw [unescapeByte_eq_some.2 he] at hd
    cases hd
  | case5 c d rest hc ih =>
    rw [unescape_cons hc]
    exact .plain hc ih

/-- **A value has one reading**, and `unescape_tag_value` finds it. -/
theorem keeping_iff {w v : Bytes} : Keeping w v ↔ v = unescapeTagValue w := by
  constructor
  · intro h
    induction h with
    | nil => rfl
    | plain hc _ ih => rw [unescape_cons hc, ih]
    | escape hd _ ih => rw [unescape_pair (unescapeByte_eq_some.2 hd), ih]
    | @other d w v hd _ ih =>
      have hnone : unescapeByte d = none := by
        cases he : unescapeByte d with
        | none => rfl
        | some e => exact absurd (unescapeByte_eq_some.1 he) (hd e)
      rw [unescapeTagValue, if_pos rfl, hnone, ih]
      rfl
    | last => rfl
  · rintro rfl
    exact keeping_unescape w

/-! ## Lists of tags -/

/-- A key and a value as they are sent. -/
def writeTag (p : Bytes × Bytes) : Bytes := p.1 ++ 61 :: escapeTagValue p.2

def writeTags (pairs : List (Bytes × Bytes)) : Bytes := [(59 : UInt8)].intercalate (pairs.map writeTag)

/-- Neither a semicolon nor an equals sign. -/
def TagKey (key : Bytes) : Prop := 59 ∉ key ∧ 61 ∉ key

theorem tagKey_writeTag {p : Bytes × Bytes} (h : TagKey p.1) : tagKey (writeTag p) = p.1 := by
  have hkey : ∀ c ∈ p.1, decide (c ≠ 61) = true := fun c hc => decide_eq_true fun e => h.2 (e ▸ hc)
  rw [tagKey, writeTag, List.takeWhile_append_of_pos hkey]
  simp

theorem tagValue_writeTag {p : Bytes × Bytes} (h : TagKey p.1) : tagValue (writeTag p) = p.2 := by
  have hkey : ∀ c ∈ p.1, decide (c ≠ 61) = true := fun c hc => decide_eq_true fun e => h.2 (e ▸ hc)
  have hdrop : (writeTag p).dropWhile (· ≠ 61) = 61 :: escapeTagValue p.2 := by
    rw [writeTag, List.dropWhile_append_of_pos hkey]
    simp
  rw [tagValue, hdrop, List.tail_cons, unescape_escape]

/-- **The tags are split** where they were joined. -/
theorem splitTags_writeTags {pairs : List (Bytes × Bytes)} (h : ∀ p ∈ pairs, TagKey p.1) :
    splitTags (writeTags pairs) = pairs.map writeTag := by
  cases pairs with
  | nil => rfl
  | cons p pairs =>
    have hno : ∀ tag ∈ (p :: pairs).map writeTag, (59 : UInt8) ∉ tag := by
      intro tag htag
      obtain ⟨q, hq, rfl⟩ := List.mem_map.1 htag
      simp only [writeTag, List.mem_append, List.mem_cons]
      rintro (hkey | heq | hvalue)
      · exact (h q hq).1 hkey
      · exact absurd heq (by decide)
      · exact absurd (not_isSeparator_of_mem_escape hvalue) (by decide)
    have hne : writeTags (p :: pairs) ≠ [] := by
      intro hnil
      have hmem : (61 : UInt8) ∈ writeTags (p :: pairs) := by
        cases pairs with
        | nil => simp [writeTags, writeTag]
        | cons q pairs => simp [writeTags, writeTag]
      rw [hnil] at hmem
      cases hmem
    rw [splitTags, if_neg (by simpa using hne), writeTags, List.splitOn_intercalate _ hno (by simp)]

/-- The hash table after a list of tags: they come before what was in it. -/
theorem allTags_foldl (caps : Caps) {pairs : List (Bytes × Bytes)} (hkeys : ∀ p ∈ pairs, TagKey p.1)
    (hnodup : (pairs.map Prod.fst).Nodup) {t : TagsData} {table : Table Bytes Bytes} (ht : t.allTags = some table)
    (hnew : ∀ p ∈ table, p.1 ∉ pairs.map Prod.fst) :
    ((pairs.map writeTag).foldl (handleTag caps) t).allTags = some (pairs.reverse ++ table) := by
  induction pairs generalizing t table with
  | nil => exact ht
  | cons p pairs ih =>
    obtain ⟨hp, hnodup⟩ := List.nodup_cons.1 hnodup
    have hkey := hkeys p List.mem_cons_self
    have hfilter : table.filter (fun e => decide (e.1 ≠ p.1)) = table :=
      List.filter_eq_self.2 fun e he => decide_eq_true fun heq => hnew e he (heq ▸ List.mem_cons_self)
    have hstep : (handleTag caps t (writeTag p)).allTags = some (p :: table) := by
      rw [handleTag, ht, tagKey_writeTag hkey, tagValue_writeTag hkey, Option.map_some, Table.put, hfilter]
    rw [List.map_cons, List.foldl_cons, ih (fun q hq => hkeys q (List.mem_cons_of_mem p hq)) hnodup hstep,
      List.reverse_cons, List.append_assoc]
    · rfl
    · intro q hq
      rcases List.mem_cons.1 hq with rfl | hq
      · exact hp
      · exact fun hmem => hnew q hq (List.mem_cons_of_mem p.1 hmem)

/-- A field that is set by one key. -/
theorem field_foldl (caps : Caps) (field : TagsData → Option Bytes) (key : Bytes) (asked : Prop) [Decidable asked]
    (hset : ∀ t tag, field (handleTag caps t tag) = if asked ∧ tagKey tag = key then some (tagValue tag) else field t)
    {pairs : List (Bytes × Bytes)} (hkeys : ∀ p ∈ pairs, TagKey p.1) (hnodup : (pairs.map Prod.fst).Nodup) (t : TagsData) :
    field ((pairs.map writeTag).foldl (handleTag caps) t) =
      if asked then (Table.get pairs key).or (field t) else field t := by
  induction pairs generalizing t with
  | nil => simp [Table.get]
  | cons p pairs ih =>
    obtain ⟨hp, hnodup⟩ := List.nodup_cons.1 hnodup
    have hkey := hkeys p List.mem_cons_self
    rw [List.map_cons, List.foldl_cons, ih (fun q hq => hkeys q (List.mem_cons_of_mem p hq)) hnodup, hset,
      tagKey_writeTag hkey, tagValue_writeTag hkey, Table.get_cons]
    by_cases hasked : asked
    · by_cases hthis : p.1 = key
      · -- the key does not come again
        have hnone : Table.get pairs key = none := by
          cases hget : Table.get pairs key with
          | none => rfl
          | some v =>
            have hmem := (Table.mem_keys_iff pairs key).2 (by rw [hget]; rfl)
            exact absurd (hthis ▸ hmem) hp
        rw [if_pos hasked, if_pos hasked, if_pos ⟨hasked, hthis⟩, if_pos hthis, hnone]
        rfl
      · rw [if_pos hasked, if_pos hasked, if_neg fun h => hthis h.2, if_neg hthis]
    · rw [if_neg hasked, if_neg hasked, if_neg fun h => hasked h.1]

/-- What is read of a list of tags: all of them, and the identities among them. -/
structure TagsRead (caps : Caps) (pairs : List (Bytes × Bytes)) (t : TagsData) : Prop where
  all : ∃ table, t.allTags = some table ∧ table.Perm pairs
  msgid : t.msgid = if caps.haveMessageTags = true then Table.get pairs (bytes "msgid") else none
  batchId : t.batchId = if caps.haveBatch = true then Table.get pairs (bytes "batch") else none
  label : t.label = if caps.haveLabeledResponse = true then Table.get pairs (bytes "label") else none

/-- **A list of tags is read back.** -/
theorem handleMessageTags_pairs {caps : Caps} (hstore : caps.haveMessageTags = true ∨ caps.haveBatch = true)
    {pairs : List (Bytes × Bytes)} (hkeys : ∀ p ∈ pairs, TagKey p.1) (hnodup : (pairs.map Prod.fst).Nodup) :
    TagsRead caps pairs (handleMessageTags caps (writeTags pairs)) := by
  have hstored : (caps.haveMessageTags || caps.haveBatch) = true := Bool.or_eq_true_iff.2 hstore
  rw [handleMessageTags, splitTags_writeTags hkeys, if_pos hstored]
  refine ⟨⟨_, allTags_foldl caps hkeys hnodup rfl (by simp), ?_⟩, ?_, ?_, ?_⟩
  · rw [List.append_nil]
    exact List.reverse_perm pairs
  · rw [field_foldl caps TagsData.msgid (bytes "msgid") _ (fun _ _ => rfl) hkeys hnodup, Option.or_none]
  · rw [field_foldl caps TagsData.batchId (bytes "batch") _ (fun _ _ => if_congr and_comm rfl rfl) hkeys hnodup,
      Option.or_none]
  · rw [field_foldl caps TagsData.label (bytes "label") _ (fun _ _ => rfl) hkeys hnodup, Option.or_none]

/-- **Tag values survive**: what was escaped is read back and has no byte that ends a tag, every value on the wire is read with
its other backslashes standing for themselves, and a list of tags is read back. -/
theorem tags_survive (value wire : Bytes) {caps : Caps} (hstore : caps.haveMessageTags = true ∨ caps.haveBatch = true)
    {pairs : List (Bytes × Bytes)} (hkeys : ∀ p ∈ pairs, TagKey p.1) (hnodup : (pairs.map Prod.fst).Nodup) :
    (unescapeTagValue (escapeTagValue value) = value ∧
      (59 ∉ escapeTagValue value ∧ 32 ∉ escapeTagValue value ∧ 13 ∉ escapeTagValue value ∧ 10 ∉ escapeTagValue value)) ∧
    (∀ text, Keeping wire text ↔ text = unescapeTagValue wire) ∧
    TagsRead caps pairs (handleMessageTags caps (writeTags pairs)) := by
  have hno : ∀ c, isSeparator c = true → c ∉ escapeTagValue value := by
    intro c hc hmem
    rw [not_isSeparator_of_mem_escape hmem] at hc
    cases hc
  exact ⟨⟨unescape_escape value, hno 59 rfl, hno 32 rfl, hno 13 rfl, hno 10 rfl⟩, fun _ => keeping_iff,
    handleMessageTags_pairs hstore hkeys hnodup⟩

theorem tags_survive_msgid :
    (unescapeTagValue (escapeTagValue [59]) = [59] ∧ (59 ∉ escapeTagValue [59] ∧ 32 ∉ escapeTagValue [59] ∧
      13 ∉ escapeTagValue [59] ∧ 10 ∉ escapeTagValue [59])) ∧
    (∀ text, Keeping (bytes "a\\") text ↔ text = unescapeTagValue (bytes "a\\")) ∧
    TagsRead {} [(bytes "msgid", bytes "m;1"), (bytes "batch", bytes "b")]
      (handleMessageTags {} (writeTags [(bytes "msgid", bytes "m;1"), (bytes "batch", bytes "b")])) := by
  refine tags_survive [59] (bytes "a\\") (.inl rfl) (fun p hp => ?_) (by decide)
  simp only [List.mem_cons, List.not_mem_nil, or_false] at hp
  rcases hp with rfl | rfl
  · exact ⟨by decide, by decide⟩
  · exact ⟨by decide, by decide⟩

/-- A backslash that starts no escape is kept where it should be dropped. -/
theorem backslash_kept : ¬ ∀ wire, Dropping wire (unescapeTagValue wire) := by
  intro h
  have hwire : Dropping [92] [92] := h [92]
  cases hwire with
  | plain hc _ => exact hc rfl

end PoxChat.Inbound
