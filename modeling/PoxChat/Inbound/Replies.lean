import PoxChat.Inbound.Multiline

/-!
# Replies and reactions

The tags `irc_message` puts before a reply and `handle_say` before a reaction, as `handle_message_tags` reads them.
The msgid of the message that is answered was unescaped when it was received; `tcp_sendf_with_tags` and the
reaction put it into the line as it is, and only the text of the reaction is escaped.

* The line is read as `server_read` reads it: it ends at the first LF, and without one it is no line.

Principal result: `answers_name_message_iff` — the line names the message exactly when its msgid can stand in a tag
as it is and the line fits the buffers it is formatted in.
-/

set_option autoImplicit false

namespace PoxChat.Inbound

open Lib
open Outbound (Bytes bytes Server Typist cString cmdBuf sendBuf sendBuf_eq_self sendBuf_eq_take)

/-! ## The lines -/

/-- The tags of a reaction, as `handle_say` formats them. -/
def reactTags (text msgid : Bytes) : Bytes :=
  bytes "+draft/react=" ++ escapeTagValue text ++ bytes ";+reply=" ++ msgid

/-- The line `handle_say` sends for a reaction. -/
def reactLine (s : Server) (target text msgid : Bytes) : Bytes :=
  s.labeledLine (reactTags text msgid) (bytes "TAGMSG " ++ target ++ bytes "\r\n")

/-- The line `irc_message` sends for a reply. -/
def replyLine (s : Server) (target text msgid : Bytes) : Bytes :=
  (⟨s, some msgid⟩ : Typist).messageLine target text

/-- The tags and the command of a line, as they are received. -/
def parsed (caps : Caps) (sent : Bytes) : Option (TagsData × Bytes) := (readLine sent).bind (takeTags caps)

def TagsData.tag (t : TagsData) (key : Bytes) : Option Bytes := t.allTags.bind (·.get key)

/-- The line is read as this command, with these tags. -/
def Reads (caps : Caps) (sent cmd : Bytes) (tags : List (Bytes × Bytes)) : Prop :=
  ∃ t, parsed caps sent = some (t, cmd) ∧ ∀ e ∈ tags, t.tag e.1 = some e.2

/-- A value that can stand in a tag as it is. -/
def verbatim (value : Bytes) : Bool := value.all (!isSeparator ·) && !hasEscape value

/-- What stands between the `@` and the tags of the caller. -/
def labelTag (s : Server) : Bytes :=
  if s.haveLabeledResponse then bytes "label=" ++ s.nextLabel ++ bytes ";" else []

/-- The buffers of `tcp_vsendf_labeled_with_tags` have room for the command and for the line. -/
def lineFits (s : Server) (extraTags cmd : Bytes) : Bool :=
  decide (cmd.length + 2 ≤ 1538 ∧ 1 + (labelTag s).length + extraTags.length + 1 + cmd.length + 2 ≤ 1599)

/-! ## Looking tags up -/

section Tags

variable {caps : Caps} {key : Bytes}

/-- The hash table after these tags. -/
def tagTable (tags : List Bytes) (table : Table Bytes Bytes) : Table Bytes Bytes :=
  tags.foldl (fun table tag => Table.put table (tagKey tag) (tagValue tag)) table

theorem foldl_handleTag_allTags (tags : List Bytes) (t : TagsData) :
    (tags.foldl (handleTag caps) t).allTags = t.allTags.map (tagTable tags) := by
  induction tags generalizing t with
  | nil => cases h : t.allTags <;> simp [h, tagTable]
  | cons tag tags ih =>
    rw [List.foldl_cons, ih]
    cases h : t.allTags <;> simp [handleTag, h, tagTable]

/-- A value in the table comes from a tag, or was there. -/
theorem get_tagTable {tags : List Bytes} {table : Table Bytes Bytes} {value : Bytes}
    (h : Table.get (tagTable tags table) key = some value) :
    (∃ tag ∈ tags, tagKey tag = key ∧ tagValue tag = value) ∨ Table.get table key = some value := by
  induction tags generalizing table with
  | nil => exact .inr h
  | cons tag tags ih =>
    rcases ih h with ⟨tag', htag', hkey⟩ | hget
    · exact .inl ⟨tag', by simp [htag'], hkey⟩
    · rw [Table.get_put] at hget
      split_ifs at hget with hkey
      · exact .inl ⟨tag, by simp, hkey, Option.some.inj hget⟩
      · exact .inr hget

theorem handleMessageTags_tag (hcaps : (caps.haveMessageTags || caps.haveBatch) = true) (tags key : Bytes) :
    (handleMessageTags caps tags).tag key = Table.get (tagTable (splitTags tags) []) key := by
  unfold handleMessageTags TagsData.tag
  rw [foldl_handleTag_allTags, hcaps]
  rfl

/-! ## The reply tag -/

/-- A tag that stands whole before the reply tag. -/
structure Leading (tag : Bytes) : Prop where
  whole : ∀ c ∈ tag, isSeparator c = false
  other : tagKey tag ≠ bytes "+reply"

/-- The tags with the semicolons after them. -/
def leadingTags (tags : List Bytes) : Bytes := tags.flatMap (· ++ [59])

theorem ne_of_not_isSeparator {c : UInt8} (h : isSeparator c = false) : c ≠ 59 ∧ c ≠ 32 ∧ c ≠ 13 ∧ c ≠ 10 := by
  simpa [isSeparator, and_assoc] using h

theorem not_isSeparator_leading {tags : List Bytes} (h : ∀ tag ∈ tags, Leading tag) :
    ∀ c ∈ leadingTags tags, c ≠ 32 ∧ c ≠ 13 ∧ c ≠ 10 := by
  intro c hc
  obtain ⟨tag, htag, hc⟩ := List.mem_flatMap.1 hc
  rcases List.mem_append.1 hc with hc | hc
  · exact (ne_of_not_isSeparator ((h tag htag).whole c hc)).2
  · rw [List.mem_singleton.1 hc]
    decide

theorem splitOn_leading {tags : List Bytes} (h : ∀ tag ∈ tags, Leading tag) (rest : Bytes) :
    (leadingTags tags ++ rest).splitOn 59 = tags ++ rest.splitOn 59 := by
  induction tags with
  | nil => rfl
  | cons tag tags ih =>
    have hno : 59 ∉ tag := fun hmem => (ne_of_not_isSeparator ((h tag (by simp)).whole 59 hmem)).1 rfl
    have hstep : leadingTags (tag :: tags) ++ rest = tag ++ 59 :: (leadingTags tags ++ rest) := by
      simp [leadingTags]
    rw [hstep, List.splitOn_append_cons_self_of_not_mem hno, ih fun t ht => h t (by simp [ht])]
    rfl

theorem splitTags_reply {tags : List Bytes} (h : ∀ tag ∈ tags, Leading tag) (value : Bytes) :
    splitTags (leadingTags tags ++ (bytes "+reply=" ++ value)) = tags ++ (bytes "+reply=" ++ value).splitOn 59 := by
  rw [splitTags, if_neg (by simp [bytes]), splitOn_leading h]

theorem tagKey_reply (value : Bytes) : tagKey (bytes "+reply=" ++ value) = bytes "+reply" := by
  simp [tagKey, bytes]

theorem tagValue_reply (value : Bytes) : tagValue (bytes "+reply=" ++ value) = unescapeTagValue value := by
  simp [tagValue, bytes]

theorem length_le_of_mem_splitOn {l x : Bytes} (h : x ∈ l.splitOn 59) : x.length ≤ l.length := by
  have hle : ∀ ls : List Bytes, x ∈ ls → x.length ≤ ([(59 : UInt8)].intercalate ls).length := by
    intro ls
    induction ls with
    | nil => intro hx; cases hx
    | cons y ls ih =>
      intro hx
      cases ls with
      | nil =>
        rw [List.mem_singleton.1 hx]
        simp
      | cons z ls =>
        rw [List.intercalate_cons_cons, List.length_append, List.length_append]
        rcases List.mem_cons.1 hx with rfl | hx
        · omega
        · have := ih hx
          omega
  have := hle _ h
  rwa [List.intercalate_splitOn] at this

theorem length_tagValue_le (tag : Bytes) : (tagValue tag).length ≤ tag.length := by
  have hun := length_unescape_le (tag.dropWhile (· ≠ 61)).tail
  have hdrop := (List.dropWhile_suffix (l := tag) (· ≠ 61)).length_le
  rw [List.length_tail] at hun
  unfold tagValue
  omega

/-- A value that is not longer than what stands in the reply tag was read from the whole of it. -/
theorem reply_value {tags : List Bytes} {inTag value : Bytes} (h : ∀ tag ∈ tags, Leading tag)
    (hget : Table.get (tagTable (splitTags (leadingTags tags ++ (bytes "+reply=" ++ inTag))) []) (bytes "+reply") =
      some value)
    (hlen : inTag.length ≤ value.length) : 59 ∉ inTag ∧ unescapeTagValue inTag = value := by
  rw [splitTags_reply h] at hget
  obtain ⟨tag, hmem, hkey, hvalue⟩ | hnone := get_tagTable hget
  swap
  · cases hnone
  rcases List.mem_append.1 hmem with hmem | hmem
  · exact absurd hkey (h tag hmem).other
  by_cases h59 : 59 ∈ inTag
  · -- cut at a semicolon, every part of it is shorter than the value
    exfalso
    obtain ⟨a, b, hsplit, hno⟩ := List.eq_append_cons_of_mem h59
    have hno' : 59 ∉ bytes "+reply=" ++ a := by
      intro hc
      rcases List.mem_append.1 hc with hc | hc
      · exact absurd hc (by decide)
      · exact hno hc
    have hlength := congrArg List.length hsplit
    rw [hsplit, ← List.append_assoc, List.splitOn_append_cons_self_of_not_mem hno'] at hmem
    rw [List.length_append, List.length_cons] at hlength
    rcases List.mem_cons.1 hmem with rfl | hmem
    · rw [tagValue_reply] at hvalue
      have hle := length_unescape_le a
      rw [hvalue] at hle
      omega
    · have hle := length_tagValue_le tag
      have hle' := length_le_of_mem_splitOn hmem
      rw [hvalue] at hle
      omega
  · have hno : 59 ∉ bytes "+reply=" ++ inTag := by
      intro hc
      rcases List.mem_append.1 hc with hc | hc
      · exact absurd hc (by decide)
      · exact h59 hc
    rw [List.splitOn_eq_singleton hno, List.mem_singleton] at hmem
    rw [hmem, tagValue_reply] at hvalue
    exact ⟨h59, hvalue⟩

end Tags

/-! ## The line -/

section Line

variable {caps : Caps} {tags : List Bytes} {msgid cmd : Bytes}

/-- The line that is formatted: the tags, the msgid and the command. -/
def answerLine (tags : List Bytes) (msgid cmd : Bytes) : Bytes :=
  64 :: (leadingTags tags ++ (bytes "+reply=" ++ (msgid ++ 32 :: cString (cmdBuf (cmd ++ bytes "\r\n")))))

/-- What is read of it where everything fits. -/
theorem parsed_answerLine (htags : ∀ tag ∈ tags, Leading tag) (hmsgid : ∀ c ∈ msgid, isSeparator c = false)
    (hcmd : ∀ c ∈ cmd, c ≠ 0 ∧ c ≠ 10 ∧ c ≠ 13) (hshort : cmd.length + 2 ≤ 1538)
    (hfits : 1 + (leadingTags tags).length + (7 + msgid.length) + 1 + cmd.length + 2 ≤ 1599) :
    parsed caps (sendBuf (answerLine tags msgid cmd)) =
      some (handleMessageTags caps (leadingTags tags ++ (bytes "+reply=" ++ msgid)), cmd) := by
  have hbuf : cString (cmdBuf (cmd ++ bytes "\r\n")) = cmd ++ bytes "\r\n" :=
    Outbound.cString_cmdBuf_line (fun hmem => (hcmd 0 hmem).1 rfl) hshort
  have hblock : ∀ c ∈ leadingTags tags ++ (bytes "+reply=" ++ msgid), c ≠ 32 ∧ c ≠ 13 ∧ c ≠ 10 := by
    have hlit : ∀ c ∈ bytes "+reply=", c ≠ 32 ∧ c ≠ 13 ∧ c ≠ 10 := List.all_iff_forall_prop.1 (by decide)
    intro c hc
    rcases List.mem_append.1 hc with hc | hc
    · exact not_isSeparator_leading htags c hc
    rcases List.mem_append.1 hc with hc | hc
    · exact hlit c hc
    · exact (ne_of_not_isSeparator (hmsgid c hc)).2
  have hline : ∀ c ∈ 64 :: (leadingTags tags ++ (bytes "+reply=" ++ msgid) ++ 32 :: cmd), c ≠ 10 ∧ c ≠ 13 := by
    intro c hc
    rcases List.mem_cons.1 hc with rfl | hc
    · decide
    rcases List.mem_append.1 hc with hc | hc
    · exact ⟨(hblock c hc).2.2, (hblock c hc).2.1⟩
    rcases List.mem_cons.1 hc with rfl | hc
    · decide
    · exact (hcmd c hc).2
  have hsplit : answerLine tags msgid cmd =
      64 :: (leadingTags tags ++ (bytes "+reply=" ++ msgid) ++ 32 :: cmd) ++ bytes "\r\n" := by
    simp [answerLine, hbuf]
  have hseven : (bytes "+reply=").length = 7 := rfl
  have htwo : (bytes "\r\n").length = 2 := rfl
  have hlen : (answerLine tags msgid cmd).length ≤ 1599 := by
    rw [hsplit]
    simp only [List.length_append, List.length_cons, hseven, htwo]
    omega
  rw [sendBuf_eq_self hlen, hsplit, parsed, readLine_crlf hline, Option.bind_some,
    takeTags_block caps fun h32 => (hblock 32 h32).1 rfl]

/-- What is read of the bytes as the value of the last tag. -/
def readValue (sent : Bytes) : Bytes := ((sent.takeWhile (· ≠ 10)).filter (· ≠ 13)).takeWhile (· ≠ 32)

/-- It is no longer than the msgid, and as long only where it is the msgid. -/
theorem readValue_take (rest : Bytes) (msgid : Bytes) :
    ∀ n, (readValue ((msgid ++ 32 :: rest).take n)).length ≤ msgid.length ∧
      ((readValue ((msgid ++ 32 :: rest).take n)).length = msgid.length →
        readValue ((msgid ++ 32 :: rest).take n) = msgid ∧ ∀ c ∈ msgid, c ≠ 10 ∧ c ≠ 13 ∧ c ≠ 32) := by
  induction msgid with
  | nil =>
    intro n
    cases n with
    | zero => simp [readValue]
    | succ n => simp [readValue]
  | cons c msgid ih =>
    intro n
    cases n with
    | zero => simp [readValue]
    | succ n =>
      obtain ⟨hle, heq⟩ := ih n
      rw [List.cons_append, List.take_succ_cons]
      by_cases h10 : c = 10
      · simp [readValue, h10]
      by_cases h13 : c = 13
      · have hskip : readValue (c :: (msgid ++ 32 :: rest).take n) = readValue ((msgid ++ 32 :: rest).take n) := by
          simp [readValue, h13]
        rw [hskip, List.length_cons]
        exact ⟨by omega, fun h => by omega⟩
      by_cases h32 : c = 32
      · simp [readValue, h32]
      have hcons : readValue (c :: (msgid ++ 32 :: rest).take n) =
          c :: readValue ((msgid ++ 32 :: rest).take n) := by
        simp [readValue, h10, h13, h32]
      rw [hcons, List.length_cons, List.length_cons]
      refine ⟨by omega, fun h => ?_⟩
      obtain ⟨hsame, hclean⟩ := heq (by omega)
      rw [hsame]
      refine ⟨rfl, fun d hd => ?_⟩
      rcases List.mem_cons.1 hd with rfl | hd
      · exact ⟨h10, h13, h32⟩
      · exact hclean d hd

/-- What is read before the msgid is read whole. -/
theorem parsed_front {front sent rest : Bytes} {t : TagsData} (hfront : ∀ c ∈ front, c ≠ 32 ∧ c ≠ 13 ∧ c ≠ 10)
    (h : parsed caps (64 :: (front ++ sent)) = some (t, rest)) :
    t = handleMessageTags caps (front ++ readValue sent) := by
  have hten : ∀ c ∈ 64 :: front, decide (c ≠ 10) = true := by
    simpa using fun c hc => (hfront c hc).2.2
  have hthirteen : (64 :: front).filter (· ≠ 13) = 64 :: front := by
    rw [List.filter_eq_self]
    simpa using fun c hc => (hfront c hc).2.1
  have hspace : ∀ c ∈ front, decide (c ≠ 32) = true := by
    simpa using fun c hc => (hfront c hc).1
  have hline : ((64 :: (front ++ sent)).takeWhile (· ≠ 10)).filter (· ≠ 13) =
      64 :: (front ++ (sent.takeWhile (· ≠ 10)).filter (· ≠ 13)) := by
    rw [← List.cons_append, List.takeWhile_append_of_pos hten, List.filter_append, hthirteen]
    rfl
  unfold parsed readLine at h
  split_ifs at h
  · rw [Option.bind_some, hline, takeTags, if_pos rfl] at h
    split_ifs at h
    have ht := congrArg Prod.fst (Option.some.inj h)
    dsimp only at ht
    rw [← ht, List.takeWhile_append_of_pos hspace]
    rfl
  · cases h

/-- The front of the line before the msgid. -/
theorem front_clean (htags : ∀ tag ∈ tags, Leading tag) :
    ∀ c ∈ leadingTags tags ++ bytes "+reply=", c ≠ 32 ∧ c ≠ 13 ∧ c ≠ 10 := by
  have hlit : ∀ c ∈ bytes "+reply=", c ≠ 32 ∧ c ≠ 13 ∧ c ≠ 10 := List.all_iff_forall_prop.1 (by decide)
  intro c hc
  rcases List.mem_append.1 hc with hc | hc
  · exact not_isSeparator_leading htags c hc
  · exact hlit c hc

/-- A line that is read still has its front, and a line end behind it. -/
theorem sendBuf_front {p : TagsData × Bytes} (htags : ∀ tag ∈ tags, Leading tag)
    (h : parsed caps (sendBuf (answerLine tags msgid cmd)) = some p) :
    let sent := (msgid ++ 32 :: cString (cmdBuf (cmd ++ bytes "\r\n"))).take (1591 - (leadingTags tags).length)
    sendBuf (answerLine tags msgid cmd) = 64 :: (leadingTags tags ++ bytes "+reply=" ++ sent) ∧ 10 ∈ sent := by
  intro sent
  have hline : answerLine tags msgid cmd = 64 :: (leadingTags tags ++ bytes "+reply=") ++
      (msgid ++ 32 :: cString (cmdBuf (cmd ++ bytes "\r\n"))) := by
    simp [answerLine]
  have hlength : (64 :: (leadingTags tags ++ bytes "+reply=")).length = (leadingTags tags).length + 8 := by
    simp [bytes]
  have hten : 10 ∈ sendBuf (answerLine tags msgid cmd) := by
    by_contra hno
    rw [parsed, readLine, if_neg hno] at h
    cases h
  rw [sendBuf_eq_take, hline, List.take_append, hlength] at hten ⊢
  have hsent : 10 ∈ sent := by
    rcases List.mem_append.1 hten with hmem | hmem
    · rcases List.mem_cons.1 (List.take_subset _ _ hmem) with hmem | hmem
      · cases hmem
      · exact absurd rfl (front_clean htags 10 hmem).2.2
    · rwa [show 1599 - ((leadingTags tags).length + 8) = 1591 - (leadingTags tags).length by omega] at hmem
  -- the line end stands behind the front, so the front is whole
  have hroom : (leadingTags tags).length < 1591 := by
    by_contra hfull
    have hnil : sent = [] := by
      show List.take _ _ = _
      rw [show 1591 - (leadingTags tags).length = 0 by omega, List.take_zero]
    rw [hnil] at hsent
    cases hsent
  rw [List.take_of_length_le (by omega),
    show 1599 - ((leadingTags tags).length + 8) = 1591 - (leadingTags tags).length by omega]
  exact ⟨rfl, hsent⟩

/-- A line end behind a msgid without one is that of the command, which has not been cut. -/
theorem fits_of_line_end {n : Nat} (hmsgid : 10 ∉ msgid) (hcmd : ∀ c ∈ cmd, c ≠ 0 ∧ c ≠ 10 ∧ c ≠ 13)
    (h : 10 ∈ (msgid ++ 32 :: cString (cmdBuf (cmd ++ bytes "\r\n"))).take n) :
    cmd.length + 2 ≤ 1538 ∧ msgid.length + 1 + cmd.length + 2 ≤ n := by
  have hten : 10 ∉ cmd := fun hc => (hcmd 10 hc).2.1 rfl
  have htwo : (bytes "\r\n").length = 2 := rfl
  have hshort : cmd.length + 2 ≤ 1538 := by
    by_contra hlong
    have hcut := not_mem_cmdBuf (by rw [List.length_append, htwo]; omega) hten
    rcases List.mem_append.1 (List.take_subset _ _ h) with hmem | hmem
    · exact hmsgid hmem
    rcases List.mem_cons.1 hmem with hmem | hmem
    · cases hmem
    · exact hcut ((List.takeWhile_subset _ ) hmem)
  refine ⟨hshort, ?_⟩
  rw [Outbound.cString_cmdBuf_line (fun hmem => (hcmd 0 hmem).1 rfl) hshort] at h
  by_contra hlong
  have hbefore : (msgid ++ 32 :: (cmd ++ bytes "\r\n")).take n <+: msgid ++ 32 :: (cmd ++ [13]) := by
    have heq : msgid ++ 32 :: (cmd ++ [13]) =
        (msgid ++ 32 :: (cmd ++ bytes "\r\n")).take (msgid ++ 32 :: (cmd ++ [13])).length := by
      rw [show msgid ++ 32 :: (cmd ++ bytes "\r\n") = (msgid ++ 32 :: (cmd ++ [13])) ++ [10] by simp [bytes],
        List.take_left]
    rw [heq]
    refine List.take_prefix_take_left ?_
    simp only [List.length_append, List.length_cons, List.length_nil]
    omega
  have hmem := hbefore.subset h
  simp [hmsgid, hten] at hmem

/-- **What is read names the message** only where its msgid stands in the tag as it is, and the line has not been
cut. -/
theorem verbatim_of_parsed {rest : Bytes} {t : TagsData} (hcaps : (caps.haveMessageTags || caps.haveBatch) = true)
    (htags : ∀ tag ∈ tags, Leading tag) (hcmd : ∀ c ∈ cmd, c ≠ 0 ∧ c ≠ 10 ∧ c ≠ 13)
    (h : parsed caps (sendBuf (answerLine tags msgid cmd)) = some (t, rest))
    (hreply : t.tag (bytes "+reply") = some msgid) :
    verbatim msgid = true ∧ cmd.length + 2 ≤ 1538 ∧
      1 + (leadingTags tags).length + (7 + msgid.length) + 1 + cmd.length + 2 ≤ 1599 := by
  obtain ⟨hline, hend⟩ := sendBuf_front htags h
  rw [hline] at h
  have ht := parsed_front (front_clean htags) h
  rw [ht, List.append_assoc, handleMessageTags_tag hcaps] at hreply
  obtain ⟨hle, heq⟩ := readValue_take (cString (cmdBuf (cmd ++ bytes "\r\n"))) msgid
    (1591 - (leadingTags tags).length)
  obtain ⟨h59, hvalue⟩ := reply_value htags hreply hle
  have hge := length_unescape_le (readValue
    ((msgid ++ 32 :: cString (cmdBuf (cmd ++ bytes "\r\n"))).take (1591 - (leadingTags tags).length)))
  rw [hvalue] at hge
  obtain ⟨hsame, hclean⟩ := heq (by omega)
  rw [hsame] at h59 hvalue
  have hall : ∀ c ∈ msgid, isSeparator c = false := by
    intro c hc
    obtain ⟨h10, h13, h32⟩ := hclean c hc
    have h59' : c ≠ 59 := fun e => h59 (e ▸ hc)
    simp [isSeparator, h10, h13, h32, h59']
  obtain ⟨hshort, hfits⟩ := fits_of_line_end (fun hc => (hclean 10 hc).1 rfl) hcmd hend
  refine ⟨?_, hshort, by omega⟩
  simpa [verbatim, (unescape_eq_self_iff msgid).1 hvalue] using hall

end Line

/-! ## Answers -/

section Answers

variable {caps : Caps} {s : Server} {target text msgid reaction cmd : Bytes}

/-- The label as a tag. -/
def labelTags (s : Server) : List Bytes := if s.haveLabeledResponse then [bytes "label=" ++ s.nextLabel] else []

theorem leadingTags_labelTags (s : Server) : leadingTags (labelTags s) = labelTag s := by
  unfold labelTags labelTag
  split_ifs
  · simp [leadingTags, bytes]
  · rfl

theorem labelTags_leading (s : Server) : ∀ tag ∈ labelTags s, Leading tag := by
  intro tag htag
  unfold labelTags at htag
  split_ifs at htag
  · rw [List.mem_singleton.1 htag]
    have hlit : ∀ c ∈ bytes "label=", isSeparator c = false := List.all_iff_forall_prop.1 (by decide)
    refine ⟨fun c hc => ?_, by simp [tagKey, bytes]⟩
    rcases List.mem_append.1 hc with hc | hc
    · exact hlit c hc
    · have halnum := isAlnum_of_mem_label hc
      have hne : ∀ d : UInt8, isAlnum d = false → c ≠ d := fun d hd => ne_of_isAlnum halnum hd
      simp [isSeparator, hne 59 rfl, hne 32 rfl, hne 13 rfl, hne 10 rfl]
  · cases htag

theorem react_leading (text : Bytes) : Leading (bytes "+draft/react=" ++ escapeTagValue text) := by
  have hlit : ∀ c ∈ bytes "+draft/react=", isSeparator c = false := List.all_iff_forall_prop.1 (by decide)
  refine ⟨fun c hc => ?_, by simp [tagKey, bytes]⟩
  rcases List.mem_append.1 hc with hc | hc
  · exact hlit c hc
  · exact not_isSeparator_of_mem_escape hc

theorem labeledLine_eq {tags : List Bytes} {extraTags : Bytes} (hne : extraTags ≠ [])
    (htags : labelTag s ++ extraTags = leadingTags tags ++ (bytes "+reply=" ++ msgid)) (cmd : Bytes) :
    s.labeledLine extraTags (cmd ++ bytes "\r\n") = sendBuf (answerLine tags msgid cmd) := by
  have hline : answerLine tags msgid cmd =
      64 :: (labelTag s ++ extraTags ++ 32 :: cString (cmdBuf (cmd ++ bytes "\r\n"))) := by
    rw [htags]
    simp [answerLine]
  rw [hline]
  unfold Server.labeledLine labelTag
  have hempty : ¬ extraTags.isEmpty = true := by simpa using hne
  split_ifs
  · simp [bytes]
  · simp [bytes]

theorem get_tagTable_append_singleton (tags : List Bytes) (tag key : Bytes) :
    Table.get (tagTable (tags ++ [tag]) []) key =
      if tagKey tag = key then some (tagValue tag) else Table.get (tagTable tags []) key := by
  simp only [tagTable, List.foldl_append, List.foldl_cons, List.foldl_nil]
  exact Table.get_put ..

/-- The line of an answer: it is read as the command, with the msgid in its reply tag, exactly when the msgid can
stand there as it is and the line fits. -/
theorem reads_answerLine_iff {tags : List Bytes} (msgid : Bytes) (more : List (Bytes × Bytes))
    (hcaps : (caps.haveMessageTags || caps.haveBatch) = true) (htags : ∀ tag ∈ tags, Leading tag)
    (hcmd : ∀ c ∈ cmd, c ≠ 0 ∧ c ≠ 10 ∧ c ≠ 13)
    (hmore : ∀ e ∈ more, e.1 ≠ bytes "+reply" ∧ Table.get (tagTable tags []) e.1 = some e.2) :
    Reads caps (sendBuf (answerLine tags msgid cmd)) cmd (more ++ [(bytes "+reply", msgid)]) ↔
      verbatim msgid = true ∧ cmd.length + 2 ≤ 1538 ∧
        1 + (leadingTags tags).length + (7 + msgid.length) + 1 + cmd.length + 2 ≤ 1599 := by
  constructor
  · rintro ⟨t, hparsed, hget⟩
    exact verbatim_of_parsed hcaps htags hcmd hparsed (hget (bytes "+reply", msgid) (by simp))
  · rintro ⟨hverb, hshort, hfits⟩
    simp only [verbatim, Bool.and_eq_true, List.all_eq_true, Bool.not_eq_true'] at hverb
    have hno : 59 ∉ bytes "+reply=" ++ msgid := by
      intro hc
      rcases List.mem_append.1 hc with hc | hc
      · exact absurd hc (by decide)
      · exact (ne_of_not_isSeparator (hverb.1 59 hc)).1 rfl
    refine ⟨_, parsed_answerLine htags hverb.1 hcmd hshort hfits, fun e he => ?_⟩
    rw [handleMessageTags_tag hcaps, splitTags_reply htags, List.splitOn_eq_singleton hno,
      get_tagTable_append_singleton, tagKey_reply, tagValue_reply]
    rcases List.mem_append.1 he with he | he
    · obtain ⟨hkey, hvalue⟩ := hmore e he
      rw [if_neg hkey.symm, hvalue]
    · rw [List.mem_singleton.1 he, if_pos rfl, (unescape_eq_self_iff msgid).2 hverb.2]

theorem lineFits_iff (s : Server) (extraTags cmd : Bytes) :
    lineFits s extraTags cmd = true ↔
      cmd.length + 2 ≤ 1538 ∧ 1 + (labelTag s).length + extraTags.length + 1 + cmd.length + 2 ≤ 1599 := by
  rw [lineFits, decide_eq_true_eq]

theorem reply_reads_iff (hcaps : (caps.haveMessageTags || caps.haveBatch) = true) (hserv : s.haveMessageTags = true)
    (hcmd : ∀ c ∈ bytes "PRIVMSG " ++ target ++ bytes " :" ++ text, c ≠ 0 ∧ c ≠ 10 ∧ c ≠ 13) (msgid : Bytes) :
    Reads caps (replyLine s target text msgid) (bytes "PRIVMSG " ++ target ++ bytes " :" ++ text)
        [(bytes "+reply", msgid)] ↔
      verbatim msgid = true ∧
        lineFits s (bytes "+reply=" ++ msgid) (bytes "PRIVMSG " ++ target ++ bytes " :" ++ text) = true := by
  have hline : replyLine s target text msgid = sendBuf (answerLine (labelTags s) msgid
      (bytes "PRIVMSG " ++ target ++ bytes " :" ++ text)) := by
    have htags : (⟨s, some msgid⟩ : Typist).replyTags = bytes "+reply=" ++ msgid := by
      simp [Typist.replyTags, hserv]
    rw [replyLine, Typist.messageLine, htags]
    exact labeledLine_eq (by simp [bytes]) (by rw [leadingTags_labelTags]) _
  have hlen : (bytes "+reply=" ++ msgid).length = 7 + msgid.length := by
    rw [List.length_append]
    rfl
  have hiff := reads_answerLine_iff msgid [] hcaps (labelTags_leading s) hcmd (by simp)
  rw [leadingTags_labelTags] at hiff
  rw [hline, lineFits_iff, hlen]
  exact hiff

theorem react_reads_iff (hcaps : (caps.haveMessageTags || caps.haveBatch) = true)
    (hcmd : ∀ c ∈ bytes "TAGMSG " ++ target, c ≠ 0 ∧ c ≠ 10 ∧ c ≠ 13) (msgid reaction : Bytes) :
    Reads caps (reactLine s target reaction msgid) (bytes "TAGMSG " ++ target)
        [(bytes "+draft/react", reaction), (bytes "+reply", msgid)] ↔
      verbatim msgid = true ∧ lineFits s (reactTags reaction msgid) (bytes "TAGMSG " ++ target) = true := by
  have hlead : leadingTags (labelTags s ++ [bytes "+draft/react=" ++ escapeTagValue reaction]) =
      labelTag s ++ (bytes "+draft/react=" ++ escapeTagValue reaction ++ bytes ";") := by
    rw [← leadingTags_labelTags]
    simp [leadingTags, bytes]
  have hleading : ∀ tag ∈ labelTags s ++ [bytes "+draft/react=" ++ escapeTagValue reaction], Leading tag := by
    intro tag htag
    rcases List.mem_append.1 htag with htag | htag
    · exact labelTags_leading s tag htag
    · rw [List.mem_singleton.1 htag]
      exact react_leading reaction
  have hline : reactLine s target reaction msgid = sendBuf (answerLine
      (labelTags s ++ [bytes "+draft/react=" ++ escapeTagValue reaction]) msgid (bytes "TAGMSG " ++ target)) := by
    refine labeledLine_eq (by simp [reactTags, bytes]) ?_ _
    rw [hlead]
    simp [reactTags, bytes]
  have hkey : tagKey (bytes "+draft/react=" ++ escapeTagValue reaction) = bytes "+draft/react" := by
    simp [tagKey, bytes]
  have hvalue : tagValue (bytes "+draft/react=" ++ escapeTagValue reaction) = reaction := by
    have hdrop : ((bytes "+draft/react=" ++ escapeTagValue reaction).dropWhile (· ≠ 61)).tail =
        escapeTagValue reaction := by
      simp [bytes]
    rw [tagValue, hdrop, unescape_escape]
  have hmore : ∀ e ∈ [(bytes "+draft/react", reaction)], e.1 ≠ bytes "+reply" ∧
      Table.get (tagTable (labelTags s ++ [bytes "+draft/react=" ++ escapeTagValue reaction]) []) e.1 =
        some e.2 := by
    intro e he
    have hne : bytes "+draft/react" ≠ bytes "+reply" := by decide
    rw [List.mem_singleton.1 he, get_tagTable_append_singleton, hkey, hvalue, if_pos rfl]
    exact ⟨hne, rfl⟩
  have hiff := reads_answerLine_iff msgid [(bytes "+draft/react", reaction)] hcaps hleading hcmd hmore
  have hlen : (leadingTags (labelTags s ++ [bytes "+draft/react=" ++ escapeTagValue reaction])).length +
      (7 + msgid.length) = (labelTag s).length + (reactTags reaction msgid).length := by
    rw [hlead]
    simp [reactTags, bytes]
    omega
  rw [hline, lineFits_iff, Nat.add_assoc 1 (labelTag s).length, ← hlen, ← Nat.add_assoc 1]
  exact hiff

/-- **Answers name the message they answer** — the line sent for a reply or a reaction is read as its command, with
the msgid in its reply tag, and the text of the reaction in its own — exactly when the msgid has no separator and no
escape in it, and the line fits its buffers. -/
theorem answers_name_message_iff (caps : Caps) (s : Server) (target text msgid reaction : Bytes)
    (hcaps : (caps.haveMessageTags || caps.haveBatch) = true) (hserv : s.haveMessageTags = true)
    (htarget : ∀ c ∈ target, c ≠ 0 ∧ c ≠ 10 ∧ c ≠ 13) (htext : ∀ c ∈ text, c ≠ 0 ∧ c ≠ 10 ∧ c ≠ 13) :
    (Reads caps (replyLine s target text msgid) (bytes "PRIVMSG " ++ target ++ bytes " :" ++ text)
        [(bytes "+reply", msgid)] ↔
      verbatim msgid = true ∧
        lineFits s (bytes "+reply=" ++ msgid) (bytes "PRIVMSG " ++ target ++ bytes " :" ++ text) = true) ∧
    (Reads caps (reactLine s target reaction msgid) (bytes "TAGMSG " ++ target)
        [(bytes "+draft/react", reaction), (bytes "+reply", msgid)] ↔
      verbatim msgid = true ∧ lineFits s (reactTags reaction msgid) (bytes "TAGMSG " ++ target) = true) := by
  have hlit : ∀ c ∈ bytes "PRIVMSG " ++ bytes " :" ++ bytes "TAGMSG ", c ≠ 0 ∧ c ≠ 10 ∧ c ≠ 13 :=
    List.all_iff_forall_prop.1 (by decide)
  simp only [List.mem_append] at hlit
  constructor
  · refine reply_reads_iff hcaps hserv (fun c hc => ?_) msgid
    simp only [List.mem_append] at hc
    rcases hc with ((hc | hc) | hc) | hc
    · exact hlit c (.inl (.inl hc))
    · exact htarget c hc
    · exact hlit c (.inl (.inr hc))
    · exact htext c hc
  · refine react_reads_iff hcaps (fun c hc => ?_) msgid reaction
    rcases List.mem_append.1 hc with hc | hc
    · exact hlit c (.inr hc)
    · exact htarget c hc

end Answers

/-- A server with message tags and labels. -/
def taggedServer : Server where
  haveLabeledResponse := true
  haveMessageTags := true

theorem answers_name_plain_msgid :
    Reads {} (replyLine taggedServer (bytes "#c") (bytes "yes") (bytes "a1:b")) (bytes "PRIVMSG #c :yes")
        [(bytes "+reply", bytes "a1:b")] ∧
      Reads {} (reactLine taggedServer (bytes "#c") (bytes "; x") (bytes "a1:b")) (bytes "TAGMSG #c")
        [(bytes "+draft/react", bytes "; x"), (bytes "+reply", bytes "a1:b")] := by
  have h := answers_name_message_iff {} taggedServer (bytes "#c") (bytes "yes") (bytes "a1:b") (bytes "; x") rfl rfl
    (List.all_iff_forall_prop.1 (by decide)) (List.all_iff_forall_prop.1 (by decide))
  exact ⟨h.1.2 (by decide), h.2.2 (by decide)⟩

/-- A msgid that was received as `a\:b` is sent with its semicolon bare, which ends the tag. -/
theorem msgid_cut_at_semicolon :
    (handleMessageTags {} (bytes "msgid=a\\:b")).msgid = some (bytes "a;b") ∧
      ¬ Reads {} (replyLine taggedServer (bytes "#c") (bytes "yes") (bytes "a;b")) (bytes "PRIVMSG #c :yes")
        [(bytes "+reply", bytes "a;b")] ∧
      ¬ Reads {} (reactLine taggedServer (bytes "#c") (bytes "x") (bytes "a;b")) (bytes "TAGMSG #c")
        [(bytes "+draft/react", bytes "x"), (bytes "+reply", bytes "a;b")] := by
  refine ⟨by decide, fun h => ?_, fun h => ?_⟩
  · exact absurd ((reply_reads_iff rfl rfl (List.all_iff_forall_prop.1 (by decide)) _).1 h).1 (by decide)
  · exact absurd ((react_reads_iff rfl (List.all_iff_forall_prop.1 (by decide)) _ _).1 h).1 (by decide)

end PoxChat.Inbound
