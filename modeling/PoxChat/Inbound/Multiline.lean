import Mathlib.Algebra.Order.BigOperators.Group.List
import Mathlib.Algebra.Order.Group.Nat
import Mathlib.Data.Bool.AllAny
import PoxChat.Inbound.Batches
import PoxChat.Inbound.Lines
import PoxChat.Outbound.Multiline
import PoxChat.Outbound.TypedOrder

/-!
# Multiline messages, sent and received

What `handle_multiline_batch` sends, as another client receives it: the lines of the batch go through the
functions of `server.c` onto the connection, the server relays each with its sender's prefix, and `irc_inline`
hands them to the batch functions of `inbound.c`.

* A line that `tcp_sendf` cuts has lost its line end; it is not a line, and no client receives it.
* The receiver has no batch open and no label pending.  Its strings are those of `Inbound.Batches`, one character
  for each byte.  `handle_message_tag_time` is a parameter.

Principal result: `multiline_restored_iff` — the receiver shows the lines joined by newlines exactly when none of
them had to be split, and none was cut.
-/

set_option autoImplicit false

namespace PoxChat.Inbound

open Lib
open Outbound (Bytes bytes decimal Server Window Output Flow BatchCount handleMultilineBatch batchLines batchPieces
  batchPiece splitPieces splitFrom splitUpText textRoom cutPoint wire combined cmdBuf sendBuf formatted cmdBuf_eq_self
  sendBuf_eq_self toNat_of_mem_decimal utf8Skip_bounds)

/-! ## Sending -/

/-- What `handle_multiline_batch` has put out, passed to the batch functions of `server.c`; the second part is
`batch_tag`. -/
def sendOutput (now : Int) (target : Bytes) (c : Server × Bytes) : Output → Server × Bytes
  | .batchOpen => (c.1.tcpBatchOpenMultiline now target, c.1.nextBatchTag)
  | .batchPrivmsg text => (c.1.tcpBatchPrivmsg now c.2 target text, c.2)
  | .batchClose => (c.1.tcpBatchClose now c.2, c.2)
  | _ => c

/-- The lines that go out for the input lines. -/
def sentLines (s : Server) (now : Int) (win : Window) (lines : List Bytes) : List Bytes :=
  ((handleMultilineBatch win lines).2.out.foldl (sendOutput now win.channel) (s, [])).1.sent.drop s.sent.length

/-- The line as the server relays it, from the client with this prefix. -/
def relayed (pfx sent : Bytes) : Option Bytes :=
  (readLine sent).map fun line =>
    if line.head? = some 64 then
      line.takeWhile (· ≠ 32) ++ 32 :: 58 :: pfx ++ line.dropWhile (· ≠ 32)
    else 58 :: pfx ++ 32 :: line

/-! ## Receiving -/

structure Receiver where
  caps : Caps
  win : Windows
  /-- What `handle_message_tag_time` makes of the values it is handed. -/
  timeOf : List Bytes → Int

/-- The string with these bytes. -/
def str (b : Bytes) : String := String.ofList (b.map fun c => Char.ofNat c.toNat)

/-- The word at an index; absent words are empty. -/
def wordAt (words : List (Bytes × Bytes)) (i : Nat) : Bytes := (words[i]?.map (·.1)).getD []

namespace Receiver

def tagsOf (r : Receiver) (t : TagsData) : Tags where
  batchId := t.batchId.map str
  label := t.label.map str
  msgid := t.msgid.map str
  timestamp := r.timeOf t.times
  allTags := (t.allTags.getD []).map fun e => (str e.1, str e.2)

/-- The dispatch of `irc_inline` and `process_named_msg`, for the commands that make up a multiline batch; other
lines are left out. -/
def event? (r : Receiver) (t : TagsData) (buf : Bytes) : Option Event :=
  let words := processDataInit buf
  let type := wordAt words 1
  if buf.head? ≠ some 58 ∨ type.length < 5 then none
  else if type.take 4 = bytes "BATC" then
    let ref := wordAt words 2
    if ref.head? = some 43 then
      some (.batchStart (str ref.tail) (str (wordAt words 3)) ((words.drop 4).map fun w => str w.1) (r.tagsOf t))
    else if ref.head? = some 45 then some (.batchEnd (str ref.tail))
    else none
  else if type.take 4 = bytes "PRIV" then
    some (.line (str (wordAt words 0).tail) "PRIVMSG" ((words.drop 2).map fun w => (str w.1, str w.2))
      (r.tagsOf t))
  else none

/-- `irc_inline`. -/
def ircInline (r : Receiver) (s : State) (line : Bytes) : State :=
  match takeTags r.caps line with
  | none => s
  | some (t, buf) => ((r.event? t buf).map (step r.win s)).getD s

/-- The lines of another client, one after the other. -/
def receive (r : Receiver) (pfx : Bytes) (sent : List Bytes) : State :=
  (sent.filterMap (relayed pfx)).foldl r.ircInline { haveBatch := r.caps.haveBatch }

/-- One message is shown, and its text is the lines joined by newlines. -/
def Restores (r : Receiver) (pfx : Bytes) (sent lines : List Bytes) : Prop :=
  ∃ shown, (r.receive pfx sent).acts = [.display shown] ∧ shown.text = str (combined lines)

end Receiver

/-! ## Names -/

/-- A target or a prefix as it stands in a line: whole characters, no space, and no colon in front. -/
structure Name (name : Bytes) : Prop where
  ne_nil : name ≠ []
  whole : wholeChars 0 name = true
  noColon : name.head? ≠ some 58
  text : ∀ c ∈ name, c ≠ 0 ∧ c ≠ 10 ∧ c ≠ 13

/-- The letters and digits of which batch tags and labels are made. -/
def isAlnum (c : UInt8) : Bool := (48 ≤ c && c ≤ 57) || (97 ≤ c && c ≤ 122)

theorem isAlnum_of_mem_decimal {n : Nat} {c : UInt8} (h : c ∈ decimal n) : isAlnum c = true := by
  obtain ⟨hlow, hhigh⟩ := toNat_of_mem_decimal h
  have hlow : (48 : UInt8) ≤ c := UInt8.le_iff_toNat_le.2 hlow
  have hhigh : c ≤ (57 : UInt8) := UInt8.le_iff_toNat_le.2 hhigh
  simp [isAlnum, hlow, hhigh]

theorem length_decimal_le (n : UInt32) : (decimal n.toNat).length ≤ 10 := by
  rw [decimal, List.length_map, Nat.length_toDigits_le_iff (by decide) (by decide)]
  have := n.toNat_lt
  omega

theorem isAlnum_of_mem_tag {s : Server} {c : UInt8} (h : c ∈ s.nextBatchTag) : isAlnum c = true := by
  rcases List.mem_append.1 h with h | h
  · exact List.all_eq_true.1 (by decide : (bytes "hcb").all isAlnum = true) c h
  · exact isAlnum_of_mem_decimal h

theorem isAlnum_of_mem_label {s : Server} {c : UInt8} (h : c ∈ s.nextLabel) : isAlnum c = true := by
  rcases List.mem_append.1 h with h | h
  · exact List.all_eq_true.1 (by decide : (bytes "hc").all isAlnum = true) c h
  · exact isAlnum_of_mem_decimal h

/-- Letters and digits are none of the bytes that mean something in a line. -/
theorem ne_of_isAlnum {c d : UInt8} (hc : isAlnum c = true) (hd : isAlnum d = false) : c ≠ d := by
  rintro rfl
  rw [hc] at hd
  cases hd

theorem wholeChars_of_ascii {w : Bytes} (h : ∀ c ∈ w, c < 192 ∧ c ≠ 32) : wholeChars 0 w = true := by
  induction w with
  | nil => rfl
  | cons c w ih =>
    obtain ⟨hlow, hspace⟩ := h c (by simp)
    have hskip : Outbound.utf8Skip c = 1 := if_pos hlow
    simp only [wholeChars, hskip, Bool.and_eq_true, bne_iff_ne]
    exact ⟨hspace, ih fun d hd => h d (by simp [hd])⟩

theorem wholeChars_of_isAlnum {w : Bytes} (h : ∀ c ∈ w, isAlnum c = true) : wholeChars 0 w = true := by
  refine wholeChars_of_ascii fun c hc => ⟨?_, ne_of_isAlnum (h c hc) rfl⟩
  have := h c hc
  simp only [isAlnum, Bool.or_eq_true, Bool.and_eq_true, decide_eq_true_eq, UInt8.le_iff_toNat_le] at this
  rw [UInt8.lt_iff_toNat_lt]
  have h57 : (57 : UInt8).toNat = 57 := rfl
  have h122 : (122 : UInt8).toNat = 122 := rfl
  have h192 : (192 : UInt8).toNat = 192 := rfl
  omega

/-! ## One line of the batch -/

theorem readLine_crlf {line : Bytes} (h : ∀ c ∈ line, c ≠ 10 ∧ c ≠ 13) :
    readLine (line ++ bytes "\r\n") = some line := by
  have hfilter : line.filter (· ≠ 13) = line := List.filter_eq_self.2 fun c hc => by simpa using (h c hc).2
  have hwhile : (line ++ bytes "\r\n").takeWhile (· ≠ 10) = line ++ [13] := by
    rw [List.takeWhile_append_of_pos fun c hc => by simpa using (h c hc).1]
    rfl
  rw [readLine, if_pos (by simp [bytes]), hwhile, List.filter_append, hfilter]
  simp

theorem relayed_plain {line : Bytes} (pfx : Bytes) (h : ∀ c ∈ line, c ≠ 10 ∧ c ≠ 13) (hplain : line.head? ≠ some 64) :
    relayed pfx (line ++ bytes "\r\n") = some (58 :: pfx ++ 32 :: line) := by
  rw [relayed, readLine_crlf h, Option.map_some, if_neg hplain]

theorem relayed_tagged {tags rest : Bytes} (pfx : Bytes) (h : ∀ c ∈ 64 :: (tags ++ 32 :: rest), c ≠ 10 ∧ c ≠ 13)
    (h32 : 32 ∉ tags) :
    relayed pfx (64 :: (tags ++ 32 :: rest) ++ bytes "\r\n") =
      some (64 :: (tags ++ 32 :: (58 :: pfx ++ 32 :: rest))) := by
  have hwhile : ∀ c ∈ 64 :: tags, decide (c ≠ 32) = true := by
    intro c hc
    rw [decide_eq_true_eq]
    rcases List.mem_cons.1 hc with rfl | hc
    · decide
    · exact fun e => h32 (e ▸ hc)
  rw [relayed, readLine_crlf h, Option.map_some, if_pos (by rfl), ← List.cons_append,
    List.takeWhile_append_of_pos hwhile, List.dropWhile_append_of_pos hwhile]
  simp

/-- A line that does not fit has lost its line end. -/
theorem not_mem_cmdBuf {line : Bytes} (h : 1538 < (line ++ bytes "\r\n").length) (h10 : 10 ∉ line) :
    10 ∉ cmdBuf (line ++ bytes "\r\n") := by
  have htake : ∀ n ≤ line.length + 1, 10 ∉ (line ++ bytes "\r\n").take n := by
    intro n hn hmem
    have hlonger : (line ++ bytes "\r\n").take n <+: line ++ [13] := by
      have : line ++ [13] = (line ++ bytes "\r\n").take (line.length + 1) := by
        rw [List.take_append, List.take_of_length_le (Nat.le_succ _)]
        simp [bytes]
      rw [this]
      exact List.take_prefix_take_left hn
    simpa [h10] using hlonger.subset hmem
  have hlen : (line ++ bytes "\r\n").length = line.length + 2 := by simp [bytes]
  unfold cmdBuf formatted
  split_ifs with hlong
  · exact htake _ (by omega)
  · intro hmem
    have := List.take_subset _ _ hmem
    rw [List.mem_append] at this
    rcases this with this | this
    · exact htake _ (by omega) this
    · simp at this

theorem relayed_cut {pfx line : Bytes} (h : 1538 < (line ++ bytes "\r\n").length) (h10 : 10 ∉ line) :
    relayed pfx (cmdBuf (line ++ bytes "\r\n")) = none := by
  rw [relayed, readLine, if_neg (not_mem_cmdBuf h h10)]
  rfl

/-- The line before its line end. -/
def batchLineBody (tag target text : Bytes) : Bytes :=
  bytes "@batch=" ++ tag ++ bytes " PRIVMSG " ++ target ++ bytes " :" ++ text

theorem batchLine_eq (tag target text : Bytes) :
    Server.batchLine tag target text = batchLineBody tag target text ++ bytes "\r\n" := rfl

section Line

variable {pfx tag target text : Bytes} {r : Receiver}

/-- One tag in front of a line. -/
theorem takeTags_single (caps : Caps) {tags : Bytes} (h32 : 32 ∉ tags) (h59 : 59 ∉ tags) (hne : tags ≠ [])
    (rest : Bytes) :
    takeTags caps (64 :: (tags ++ 32 :: rest)) =
      some (handleTag caps { allTags := if caps.haveMessageTags || caps.haveBatch then some [] else none } tags,
        rest) := by
  have hsplit : splitTags tags = [tags] := by
    rw [splitTags, if_neg (by simpa using hne), List.splitOn_eq_singleton h59]
  rw [takeTags_block caps h32, handleMessageTags, hsplit]
  rfl

/-- The line as it is relayed. -/
def relayedLine (pfx tag target text : Bytes) : Bytes :=
  64 :: (bytes "batch=" ++ tag ++
    32 :: (58 :: pfx ++ 32 :: (bytes "PRIVMSG" ++ 32 :: (target ++ 32 :: 58 :: text))))

theorem relayed_batchLine (pfx : Bytes) (htag : ∀ c ∈ tag, isAlnum c = true) (htarget : ∀ c ∈ target, c ≠ 10 ∧ c ≠ 13)
    (htext : ∀ c ∈ text, c ≠ 10 ∧ c ≠ 13) (hfit : (Server.batchLine tag target text).length ≤ 1538) :
    relayed pfx (cmdBuf (Server.batchLine tag target text)) = some (relayedLine pfx tag target text) := by
  have hbody : ∀ c ∈ batchLineBody tag target text, c ≠ 10 ∧ c ≠ 13 := by
    have hlit : ∀ c ∈ bytes "@batch=" ++ bytes " PRIVMSG " ++ bytes " :", c ≠ 10 ∧ c ≠ 13 :=
      List.all_iff_forall_prop.1 (by decide)
    intro c hc
    simp only [batchLineBody, List.mem_append] at hc
    simp only [List.mem_append] at hlit
    rcases hc with ((((hc | hc) | hc) | hc) | hc) | hc
    · exact hlit c (.inl (.inl hc))
    · exact ⟨ne_of_isAlnum (htag c hc) rfl, ne_of_isAlnum (htag c hc) rfl⟩
    · exact hlit c (.inl (.inr hc))
    · exact htarget c hc
    · exact hlit c (.inr hc)
    · exact htext c hc
  have hsplit : batchLineBody tag target text =
      64 :: (bytes "batch=" ++ tag ++ 32 :: (bytes "PRIVMSG" ++ 32 :: (target ++ 32 :: 58 :: text))) := by
    simp [batchLineBody, bytes]
  have h32 : 32 ∉ bytes "batch=" ++ tag := by
    intro h
    rcases List.mem_append.1 h with h | h
    · exact absurd h (by decide)
    · exact ne_of_isAlnum (htag 32 h) rfl rfl
  rw [hsplit] at hbody
  rw [cmdBuf_eq_self hfit, batchLine_eq, hsplit, relayed_tagged pfx hbody h32]
  rfl

theorem relayed_batchLine_cut (pfx : Bytes) (htag : ∀ c ∈ tag, isAlnum c = true) (htarget : ∀ c ∈ target, c ≠ 10 ∧ c ≠ 13)
    (htext : ∀ c ∈ text, c ≠ 10 ∧ c ≠ 13) (hcut : ¬ (Server.batchLine tag target text).length ≤ 1538) :
    relayed pfx (cmdBuf (Server.batchLine tag target text)) = none := by
  rw [batchLine_eq] at hcut ⊢
  refine relayed_cut (by omega) fun hmem => ?_
  simp only [batchLineBody, List.mem_append] at hmem
  rcases hmem with ((((h | h) | h) | h) | h) | h
  · exact absurd h (by decide)
  · exact ne_of_isAlnum (htag _ h) rfl rfl
  · exact absurd h (by decide)
  · exact (htarget _ h).1 rfl
  · exact absurd h (by decide)
  · exact (htext _ h).1 rfl

theorem processDataInit_privmsg (hpfx : Name pfx) (htarget : Name target) (text : Bytes) :
    ∃ eol₁ eol₂ eol₃ more words,
      processDataInit (58 :: pfx ++ 32 :: (bytes "PRIVMSG" ++ 32 :: (target ++ 32 :: 58 :: text))) =
        (58 :: pfx, eol₁) :: (bytes "PRIVMSG", eol₂) :: (target, eol₃) :: (58 :: more, 58 :: text) :: words := by
  have hfirst : wholeChars 0 (58 :: pfx) = true := hpfx.whole
  obtain ⟨more, words, htext⟩ := wordsFrom_front text [58] (58 :: text) 0 false
  have hcolon : wordsFrom [] (58 :: text) 0 true (58 :: text) = (58 :: more, 58 :: text) :: words := htext
  rw [processDataInit, wordsFrom_space _ _ _ _ _ _ hfirst (by simp),
    wordsFrom_space _ _ _ _ _ _ (by decide) (by decide),
    wordsFrom_space _ _ _ _ _ _ htarget.whole (fun h => absurd h htarget.ne_nil), hcolon]
  exact ⟨_, _, _, more, words.take 27, rfl⟩

theorem toList_str (b : Bytes) : (str b).toList = b.map fun c => Char.ofNat c.toNat := by simp [str]

theorem str_cons (c : UInt8) (b : Bytes) : str (c :: b) = String.ofList [Char.ofNat c.toNat] ++ str b := by
  apply String.toList_injective
  simp [str]

theorem str_append (a b : Bytes) : str (a ++ b) = str a ++ str b := by
  apply String.toList_injective
  simp [str]

theorem length_str (b : Bytes) : (str b).length = b.length := by
  simp [str]

theorem charOfNat_inj {c d : UInt8} (h : Char.ofNat c.toNat = Char.ofNat d.toNat) : c = d := by
  have hval : ∀ c : UInt8, (Char.ofNat c.toNat).toNat = c.toNat := by
    intro c
    have hlt := c.toNat_lt
    have hvalid : c.toNat.isValidChar := .inl (by omega)
    rw [Char.ofNat, dif_pos hvalid]
    exact UInt32.toNat_ofNatLT ..
  have := congrArg Char.toNat h
  rw [hval, hval] at this
  exact UInt8.toNat_inj.1 this

/-- The tags of a line inside the batch. -/
def memberTags (caps : Caps) (tag : Bytes) : TagsData :=
  handleTag caps { allTags := if caps.haveMessageTags || caps.haveBatch then some [] else none }
    (bytes "batch=" ++ tag)

/-- The batch message of a line inside the batch; `n` is its number. -/
def memberMessage (r : Receiver) (pfx tag target text : Bytes) (n : Nat) : Message where
  pfx := str pfx
  command := "PRIVMSG"
  params := [str target, ":" ++ str text]
  tags := (r.tagsOf (memberTags r.caps tag)).allTags
  timestamp := (r.tagsOf (memberTags r.caps tag)).timestamp
  msgid := (r.tagsOf (memberTags r.caps tag)).msgid
  lines := [n]

theorem memberTags_batchId {caps : Caps} (hbatch : caps.haveBatch = true)
    (htag : ∀ c ∈ tag, isAlnum c = true) : (memberTags caps tag).batchId = some tag := by
  have hkey : tagKey (bytes "batch=" ++ tag) = bytes "batch" := by simp [tagKey, bytes]
  have hvalue : tagValue (bytes "batch=" ++ tag) = tag := by
    have hnone : hasEscape tag = false := by
      clear hkey
      induction tag with
      | nil => rfl
      | cons c tag ih =>
        have hc : c ≠ 92 := ne_of_isAlnum (htag c (by simp)) rfl
        simp [hasEscape, hc, ih fun d hd => htag d (by simp [hd])]
    have hdrop : ((bytes "batch=" ++ tag).dropWhile (· ≠ 61)).tail = tag := by simp [bytes]
    rw [tagValue, hdrop, (unescape_eq_self_iff tag).2 hnone]
  simp only [memberTags, handleTag, hkey, hvalue, hbatch]
  rfl

theorem collectParams_privmsg {more eol : Bytes} (htarget : Name target) (words : List (String × String)) :
    collectParams ((str target, str eol) :: (str (58 :: more), str (58 :: text)) :: words) =
      [str target, ":" ++ str text] := by
  obtain ⟨c, name, rfl⟩ := List.exists_cons_of_ne_nil htarget.ne_nil
  have hne : str (c :: name) ≠ "" := fun h => by simpa [length_str] using congrArg String.length h
  have hne' : str (58 :: more) ≠ "" := fun h => by simpa [length_str] using congrArg String.length h
  have hcolon : (str (c :: name)).toList.head? ≠ some ':' := by
    rw [toList_str]
    intro h
    have : c = 58 := charOfNat_inj (Option.some.inj h)
    exact htarget.noColon (by rw [this]; rfl)
  rw [collectParams, if_neg hne, if_neg hcolon, collectParams, if_neg hne',
    if_pos (by rw [toList_str]; rfl), str_cons 58 text]
  rfl

/-- A line inside the batch is handed to `inbound_batch_add_message`. -/
theorem ircInline_privmsg (hbatch : r.caps.haveBatch = true) (hpfx : Name pfx) (htarget : Name target)
    (htag : ∀ c ∈ tag, isAlnum c = true) (s : State) :
    r.ircInline s (relayedLine pfx tag target text) =
      inboundBatchAddMessage r.win { s with nextLine := s.nextLine + 1 } (some (str tag))
        (memberMessage r pfx tag target text s.nextLine) := by
  have hmem : ∀ d : UInt8, isAlnum d = false → d ∉ bytes "batch=" → d ∉ bytes "batch=" ++ tag := by
    intro d hd hlit h
    rcases List.mem_append.1 h with h | h
    · exact hlit h
    · exact ne_of_isAlnum (htag d h) hd rfl
  obtain ⟨eol₁, eol₂, eol₃, more, words, hwords⟩ := processDataInit_privmsg hpfx htarget text
  have htags := takeTags_single r.caps (hmem 32 rfl (by decide)) (hmem 59 rfl (by decide)) (by simp [bytes])
    (58 :: pfx ++ 32 :: (bytes "PRIVMSG" ++ 32 :: (target ++ 32 :: 58 :: text)))
  have hid : (r.tagsOf (memberTags r.caps tag)).batchId = some (str tag) := by
    rw [Receiver.tagsOf, memberTags_batchId hbatch htag]
    rfl
  have hevent : r.event? (memberTags r.caps tag)
      (58 :: pfx ++ 32 :: (bytes "PRIVMSG" ++ 32 :: (target ++ 32 :: 58 :: text))) =
      some (.line (str pfx) "PRIVMSG" ((str target, str eol₃) :: (str (58 :: more), str (58 :: text)) ::
        words.map fun w => (str w.1, str w.2)) (r.tagsOf (memberTags r.caps tag))) := by
    unfold Receiver.event?
    rw [hwords]
    rfl
  rw [Receiver.ircInline, relayedLine, htags]
  show ((r.event? (memberTags r.caps tag) _).map (step r.win s)).getD s = _
  rw [hevent, Option.map_some, Option.getD_some, step, if_pos (by decide), hid, messageOf,
    collectParams_privmsg htarget]
  rfl

end Line

/-! ## What is sent -/

/-- The text of a line inside the batch. -/
def memberText? : Output → Option Bytes
  | .batchPrivmsg text => some text
  | _ => none

/-- The texts that are sent for the lines, up to a line whose split does not end. -/
def sentTexts (win : Window) : List Bytes → List Bytes
  | [] => []
  | line :: lines =>
    (splitPieces win line).1 ++ if (splitPieces win line).2 then sentTexts win lines else []

/-- Outputs between the opening and the closing of a batch. -/
def Inside (out : List Output) : Prop := ∀ o ∈ out, o ≠ .batchOpen ∧ o ≠ .batchClose

theorem Inside.append {out out' : List Output} (h : Inside out) (h' : Inside out') : Inside (out ++ out') := by
  intro o ho
  rcases List.mem_append.1 ho with ho | ho
  · exact h o ho
  · exact h' o ho

section Sent

variable {win : Window}

theorem batchPieces_inside (texts : List Bytes) :
    ∀ count, Output.batchOpen ∉ (batchPieces win count texts).2 →
      Inside (batchPieces win count texts).2 ∧ (batchPieces win count texts).2.filterMap memberText? = texts := by
  induction texts with
  | nil => intro count _; exact ⟨by simp [Inside, batchPieces], rfl⟩
  | cons text texts ih =>
    intro count hopen
    rw [batchPieces] at hopen ⊢
    simp only [List.mem_append, not_or] at hopen
    obtain ⟨hinside, htexts⟩ := ih _ hopen.2
    have hfull : win.batchFull ⟨count.bytes + text.length, count.lines + 1⟩ = false := by
      by_contra hfull
      exact hopen.1 (by simp [batchPiece, hfull])
    have hpiece : (batchPiece win count text).2 =
        .batchPrivmsg text :: if win.haveEchoMessage then [] else [.shown text] := by
      simp [batchPiece, hfull]
    constructor
    · refine Inside.append ?_ hinside
      rw [hpiece]
      intro o ho
      split_ifs at ho <;> simp at ho
      · simp [ho]
      · rcases ho with rfl | rfl <;> simp
    · dsimp only
      rw [List.filterMap_append, htexts, hpiece]
      split_ifs <;> rfl

/-- In one batch, the lines are sent as the texts of the split, and the batch is closed unless a split does not
end. -/
theorem batchLines_inside (lines : List Bytes) :
    ∀ count, Output.batchOpen ∉ (batchLines win count lines).1 →
      ∃ out, (batchLines win count lines).1 =
          out ++ (if lines.all (fun line => (splitPieces win line).2) then [.batchClose] else []) ∧
        Inside out ∧ out.filterMap memberText? = sentTexts win lines := by
  induction lines with
  | nil => intro count _; exact ⟨[], rfl, by simp [Inside], rfl⟩
  | cons line lines ih =>
    intro count hopen
    rw [batchLines] at hopen ⊢
    dsimp only at hopen ⊢
    cases hended : (splitPieces win line).2 with
    | false =>
      rw [hended] at hopen
      obtain ⟨hinside, htexts⟩ := batchPieces_inside _ count (by simpa using hopen)
      exact ⟨_, by simp [hended], hinside, by simp [sentTexts, hended, htexts]⟩
    | true =>
      rw [hended] at hopen
      simp only [if_true, List.mem_append, List.mem_cons, not_or] at hopen
      obtain ⟨hinside, htexts⟩ := batchPieces_inside _ count hopen.1
      obtain ⟨out, hout, hinside', htexts'⟩ := ih _ hopen.2.2
      refine ⟨(batchPieces win count (splitPieces win line).1).2 ++ .batched line :: out, ?_, ?_, ?_⟩
      · simp [hended, hout]
      · refine hinside.append fun o ho => ?_
        rcases List.mem_cons.1 ho with rfl | ho
        · simp
        · exact hinside' o ho
      · simp only [List.filterMap_append, htexts, sentTexts, hended, if_true]
        rw [List.filterMap_cons_none rfl, htexts']

variable {s : Server} {now : Int} {target tag : Bytes}

/-- Inside a batch, each text goes out at once. -/
theorem foldl_sendOutput (now : Int) (target tag : Bytes) (out : List Output) (hinside : Inside out) :
    ∀ s : Server, s.batchBurst = true →
      ∃ s', out.foldl (sendOutput now target) (s, tag) = (s', tag) ∧ s'.batchBurst = true ∧
        s'.sent = s.sent ++ (out.filterMap memberText?).map fun text => cmdBuf (Server.batchLine tag target text) := by
  induction out with
  | nil => intro s hburst; exact ⟨s, rfl, hburst, by simp⟩
  | cons o out ih =>
    intro s hburst
    have hrest : Inside out := fun o ho => hinside o (by simp [ho])
    obtain ⟨hopen, hclose⟩ := hinside o (by simp)
    rw [List.foldl_cons]
    cases o with
    | batchOpen => exact absurd rfl hopen
    | batchClose => exact absurd rfl hclose
    | batchPrivmsg text =>
      have hsent : s.tcpSendLen now (cmdBuf (Server.batchLine tag target text)) = _ :=
        Outbound.tcpSendLen_burst hburst _
      obtain ⟨s', hs', hburst', hsent'⟩ := ih hrest (s.tcpBatchPrivmsg now tag target text)
        (by rw [Server.tcpBatchPrivmsg, Server.tcpSendf, hsent]; exact hburst)
      refine ⟨s', hs', hburst', ?_⟩
      rw [hsent', Server.tcpBatchPrivmsg, Server.tcpSendf, hsent]
      simp [memberText?]
    | _ => exact ih hrest s hburst

/-- The line that opens a batch. -/
def openLine (s : Server) (target : Bytes) : Bytes :=
  { s with labelCounter := s.labelCounter + 1, batchBurst := true, batchBurstBytes := 0 }.labeledLine []
    (bytes "BATCH +" ++ s.nextBatchTag ++ bytes " draft/multiline " ++ target ++ bytes "\r\n")

/-- The line that closes it. -/
def closeLine (tag : Bytes) : Bytes := cmdBuf (bytes "BATCH -" ++ tag ++ bytes "\r\n")

theorem tcpBatchOpenMultiline_sent (s : Server) (now : Int) (target : Bytes) :
    (s.tcpBatchOpenMultiline now target).sent = s.sent ++ [openLine s target] ∧
      (s.tcpBatchOpenMultiline now target).batchBurst = true := by
  unfold Server.tcpBatchOpenMultiline Server.tcpVsendfLabeled Server.tcpVsendfLabeledWithTags
  dsimp only
  split_ifs
  · rw [Outbound.tcpSendLen_burst rfl]
    exact ⟨rfl, rfl⟩
  · rw [Outbound.tcpSendLen_burst rfl]
    exact ⟨rfl, rfl⟩

theorem tcpBatchClose_sent (hburst : s.batchBurst = true) :
    (s.tcpBatchClose now tag).sent = s.sent ++ [closeLine tag] := by
  unfold Server.tcpBatchClose Server.tcpSendf
  rw [Outbound.tcpSendLen_burst hburst]
  dsimp only
  split_ifs <;> rfl

/-- **What is sent** where one batch is enough: its opening, the texts, and its end unless a split does not end. -/
theorem sentLines_eq {lines : List Bytes} (hconn : win.connected = true) (hchan : win.channel ≠ [])
    (hone : (handleMultilineBatch win lines).2.out.count .batchOpen = 1) (s : Server) (now : Int) :
    sentLines s now win lines = openLine s win.channel ::
      ((sentTexts win lines).map fun text => cmdBuf (Server.batchLine s.nextBatchTag win.channel text)) ++
      if lines.all (fun line => (splitPieces win line).2) then [closeLine s.nextBatchTag] else [] := by
  have hout : ∃ echo, (handleMultilineBatch win lines).2.out = .batchOpen :: echo ++ (batchLines win {} lines).1 ∧
      Inside echo ∧ echo.filterMap memberText? = [] := by
    have hempty : win.channel.isEmpty = false := by simpa using hchan
    rw [handleMultilineBatch, if_neg (by simp [hconn, hempty])]
    refine ⟨_, rfl, ?_, ?_⟩
    · split_ifs <;> simp [Inside]
    · split_ifs <;> rfl
  obtain ⟨echo, hout, hecho, htext⟩ := hout
  have hopen : Output.batchOpen ∉ (batchLines win {} lines).1 := by
    rw [hout, List.cons_append, List.count_cons_self, List.count_append] at hone
    exact List.count_eq_zero.1 (by omega)
  obtain ⟨out, hlines, hinside, htexts⟩ := batchLines_inside lines {} hopen
  obtain ⟨hsent₁, hburst₁⟩ := tcpBatchOpenMultiline_sent s now win.channel
  obtain ⟨s₂, hs₂, hburst₂, hsent₂⟩ := foldl_sendOutput now win.channel s.nextBatchTag (echo ++ out)
    (hecho.append hinside) (s.tcpBatchOpenMultiline now win.channel) hburst₁
  rw [List.filterMap_append, htext, htexts, List.nil_append, hsent₁] at hsent₂
  have hfold : (handleMultilineBatch win lines).2.out.foldl (sendOutput now win.channel) (s, []) =
      (if lines.all (fun line => (splitPieces win line).2) then [Output.batchClose] else []).foldl
        (sendOutput now win.channel) (s₂, s.nextBatchTag) := by
    rw [hout, hlines, ← hs₂, ← List.foldl_append]
    simp only [List.cons_append, List.append_assoc, List.foldl_cons]
    rfl
  rw [sentLines, hfold]
  split_ifs with hall
  · have hclose : (s₂.tcpBatchClose now s.nextBatchTag).sent = _ := tcpBatchClose_sent hburst₂
    show (s₂.tcpBatchClose now s.nextBatchTag).sent.drop s.sent.length = _
    rw [hclose, hsent₂]
    simp
  · show s₂.sent.drop s.sent.length = _
    rw [hsent₂]
    simp

end Sent

/-! ## What is received -/

section Received

variable {pfx target : Bytes} {s : Server} {r : Receiver}

/-- The line that opens the batch, relayed and without its tags. -/
def openBuf (pfx tag target : Bytes) : Bytes :=
  58 :: pfx ++ 32 :: (bytes "BATCH" ++ 32 :: (43 :: tag ++ 32 :: (bytes "draft/multiline" ++ 32 :: target)))

def closeBuf (pfx tag : Bytes) : Bytes := 58 :: pfx ++ 32 :: (bytes "BATCH" ++ 32 :: (45 :: tag))

/-- The opening before its line end. -/
def openText (tag target : Bytes) : Bytes := bytes "BATCH +" ++ tag ++ bytes " draft/multiline " ++ target

theorem wholeChars_tag (s : Server) : wholeChars 0 s.nextBatchTag = true :=
  wholeChars_of_isAlnum fun _ => isAlnum_of_mem_tag

theorem event?_open (hpfx : Name pfx) (htarget : Name target) (t : TagsData) :
    r.event? t (openBuf pfx s.nextBatchTag target) =
      some (.batchStart (str s.nextBatchTag) "draft/multiline" [str target] (r.tagsOf t)) := by
  have hfirst : wholeChars 0 (58 :: pfx) = true := hpfx.whole
  have htag : wholeChars 0 (43 :: s.nextBatchTag) = true := wholeChars_tag s
  have hwords : ∃ eol₁ eol₂ eol₃ eol₄ eol₅, processDataInit (openBuf pfx s.nextBatchTag target) =
      [(58 :: pfx, eol₁), (bytes "BATCH", eol₂), (43 :: s.nextBatchTag, eol₃), (bytes "draft/multiline", eol₄),
        (target, eol₅)] := by
    rw [processDataInit, openBuf, wordsFrom_space _ _ _ _ _ _ hfirst (by simp),
      wordsFrom_space _ _ _ _ _ _ (by decide) (by decide), wordsFrom_space _ _ _ _ _ _ htag (by simp),
      wordsFrom_space _ _ _ _ _ _ (by decide) (by decide), wordsFrom_last _ _ _ _ _ htarget.whole]
    exact ⟨_, _, _, _, _, rfl⟩
  obtain ⟨eol₁, eol₂, eol₃, eol₄, eol₅, hwords⟩ := hwords
  have htype : str (bytes "draft/multiline") = "draft/multiline" := by decide
  unfold Receiver.event?
  rw [hwords, ← htype]
  rfl

theorem event?_close (hpfx : Name pfx) (t : TagsData) :
    r.event? t (closeBuf pfx s.nextBatchTag) = some (.batchEnd (str s.nextBatchTag)) := by
  have hfirst : wholeChars 0 (58 :: pfx) = true := hpfx.whole
  have htag : wholeChars 0 (45 :: s.nextBatchTag) = true := wholeChars_tag s
  have hwords : ∃ eol₁ eol₂ eol₃, processDataInit (closeBuf pfx s.nextBatchTag) =
      [(58 :: pfx, eol₁), (bytes "BATCH", eol₂), (45 :: s.nextBatchTag, eol₃)] := by
    rw [processDataInit, closeBuf, wordsFrom_space _ _ _ _ _ _ hfirst (by simp),
      wordsFrom_space _ _ _ _ _ _ (by decide) (by decide), wordsFrom_last _ _ _ _ _ htag]
    exact ⟨_, _, _, rfl⟩
  obtain ⟨eol₁, eol₂, eol₃, hwords⟩ := hwords
  unfold Receiver.event?
  rw [hwords]
  rfl

theorem length_tag_le (s : Server) : s.nextBatchTag.length ≤ 13 := by
  have := length_decimal_le s.labelCounter
  simp only [Server.nextBatchTag, List.length_append]
  have h3 : (bytes "hcb").length = 3 := rfl
  omega

theorem length_label_le (s : Server) : s.nextLabel.length ≤ 12 := by
  have := length_decimal_le s.labelCounter
  simp only [Server.nextLabel, List.length_append]
  have h2 : (bytes "hc").length = 2 := rfl
  omega

theorem relayed_close (pfx : Bytes) (s : Server) :
    relayed pfx (closeLine s.nextBatchTag) = some (closeBuf pfx s.nextBatchTag) := by
  have hlen := length_tag_le s
  have htext : ∀ c ∈ bytes "BATCH -" ++ s.nextBatchTag, c ≠ 10 ∧ c ≠ 13 := by
    have hlit : ∀ c ∈ bytes "BATCH -", c ≠ 10 ∧ c ≠ 13 := List.all_iff_forall_prop.1 (by decide)
    intro c hc
    rcases List.mem_append.1 hc with hc | hc
    · exact hlit c hc
    · exact ⟨ne_of_isAlnum (isAlnum_of_mem_tag hc) rfl, ne_of_isAlnum (isAlnum_of_mem_tag hc) rfl⟩
  rw [closeLine, cmdBuf_eq_self (by simp [bytes]; omega), relayed_plain pfx htext (by simp [bytes])]
  simp [closeBuf, bytes]

theorem openText_text (htarget : Name target) (s : Server) :
    ∀ c ∈ openText s.nextBatchTag target, c ≠ 0 ∧ c ≠ 10 ∧ c ≠ 13 := by
  have hlit : ∀ c ∈ bytes "BATCH +" ++ bytes " draft/multiline ", c ≠ 0 ∧ c ≠ 10 ∧ c ≠ 13 :=
    List.all_iff_forall_prop.1 (by decide)
  simp only [List.mem_append] at hlit
  intro c hc
  simp only [openText, List.mem_append] at hc
  rcases hc with ((hc | hc) | hc) | hc
  · exact hlit c (.inl hc)
  · have := isAlnum_of_mem_tag hc
    exact ⟨ne_of_isAlnum this rfl, ne_of_isAlnum this rfl, ne_of_isAlnum this rfl⟩
  · exact hlit c (.inr hc)
  · exact htarget.text c hc

/-- With a label in front. -/
theorem relayed_open_labeled {label cmd : Bytes} (caps : Caps) (pfx : Bytes) (hlabel : ∀ c ∈ label, isAlnum c = true)
    (hcmd : ∀ c ∈ cmd, c ≠ 0 ∧ c ≠ 10 ∧ c ≠ 13) (hlen : label.length + cmd.length ≤ 1000) :
    ∃ line t, relayed pfx (sendBuf (bytes "@label=" ++ label ++ bytes " " ++
        Outbound.cString (cmdBuf (cmd ++ bytes "\r\n")))) = some line ∧
      takeTags caps line = some (t, 58 :: pfx ++ 32 :: cmd) ∧ t.batchId = none := by
  have hbuf : Outbound.cString (cmdBuf (cmd ++ bytes "\r\n")) = cmd ++ bytes "\r\n" :=
    Outbound.cString_cmdBuf_line (fun hmem => (hcmd 0 hmem).1 rfl) (by omega)
  have hmem : ∀ d : UInt8, isAlnum d = false → d ∉ bytes "label=" → d ∉ bytes "label=" ++ label := by
    intro d hd hlit h
    rcases List.mem_append.1 h with h | h
    · exact hlit h
    · exact ne_of_isAlnum (hlabel d h) hd rfl
  have hline : ∀ c ∈ 64 :: (bytes "label=" ++ label ++ 32 :: cmd), c ≠ 10 ∧ c ≠ 13 := by
    intro c hc
    rcases List.mem_cons.1 hc with rfl | hc
    · decide
    rcases List.mem_append.1 hc with hc | hc
    · exact ⟨fun e => hmem 10 rfl (by decide) (e ▸ hc), fun e => hmem 13 rfl (by decide) (e ▸ hc)⟩
    rcases List.mem_cons.1 hc with rfl | hc
    · decide
    · exact (hcmd c hc).2
  have hsplit : bytes "@label=" ++ label ++ bytes " " ++ (cmd ++ bytes "\r\n") =
      64 :: (bytes "label=" ++ label ++ 32 :: cmd) ++ bytes "\r\n" := by
    simp [bytes]
  have hkey : tagKey (bytes "label=" ++ label) = bytes "label" := by simp [tagKey, bytes]
  rw [hbuf, sendBuf_eq_self (by simp [bytes]; omega), hsplit,
    relayed_tagged pfx hline (hmem 32 rfl (by decide))]
  refine ⟨_, _, rfl, takeTags_single caps (hmem 32 rfl (by decide)) (hmem 59 rfl (by decide)) (by simp [bytes]) _, ?_⟩
  simp only [handleTag, hkey]
  rfl

/-- The opening reaches the receiver whole, with or without a label. -/
theorem relayed_open (caps : Caps) (pfx : Bytes) (s : Server) (htarget : Name target) (hlen : target.length < 300) :
    ∃ line t, relayed pfx (openLine s target) = some line ∧
      takeTags caps line = some (t, openBuf pfx s.nextBatchTag target) ∧ t.batchId = none := by
  have htext := openText_text htarget s
  have htag := length_tag_le s
  have hshort : (openText s.nextBatchTag target).length ≤ 336 := by
    simp [openText, bytes]
    omega
  have hbuf : openBuf pfx s.nextBatchTag target = 58 :: pfx ++ 32 :: openText s.nextBatchTag target := by
    simp [openBuf, openText, bytes]
  rw [hbuf]
  unfold openLine Server.labeledLine
  split_ifs with hlabel hno
  · have hlab := length_label_le
      { s with labelCounter := s.labelCounter + 1, batchBurst := true, batchBurstBytes := 0 }
    exact relayed_open_labeled caps pfx (fun _ => isAlnum_of_mem_label) htext
      (by rw [openText] at hshort; omega)
  · exact absurd rfl hno
  · refine ⟨58 :: pfx ++ 32 :: openText s.nextBatchTag target, {}, ?_, rfl, rfl⟩
    show relayed pfx (cmdBuf (openText s.nextBatchTag target ++ bytes "\r\n")) = _
    rw [cmdBuf_eq_self (by simp [bytes]; omega)]
    exact relayed_plain pfx (fun c hc => (htext c hc).2) (by simp [openText, bytes])
  · exact absurd rfl (by assumption)

/-- The receiver while the batch is open. -/
def collecting (b : Batch) (messages : List Message) (n : Nat) : State where
  activeBatches := [{ b with messages := messages }]
  nextLine := n

/-- A multiline batch that is not nested. -/
structure Outermost (b : Batch) : Prop where
  type : b.type = "draft/multiline"
  outer : b.outerBatch = none

theorem add_collecting {b : Batch} (hb : Outermost b) (win : Windows) (messages : List Message) (n : Nat)
    (msg : Message) :
    inboundBatchAddMessage win { collecting b messages n with nextLine := n + 1 } (some b.id) msg =
      collecting b (messages ++ [msg]) (n + 1) := by
  have hbare : ChatHistory.persistenceIsBareName "draft/multiline" = false := by decide
  have hcollects : collects "draft/multiline" = true := by decide
  have hlookup : (some b.id).bind (State.lookup { collecting b messages n with nextLine := n + 1 }) =
      some { b with messages := messages } := by
    simp [State.lookup, collecting]
  rw [inboundBatchAddMessage, if_neg (by simp [collecting]), hlookup]
  simp [hb.type, hbare, hcollects, collecting, appendTo]

theorem endType_collecting {b : Batch} (hb : Outermost b) (win : Windows) (messages : List Message) (n : Nat) :
    endType win (collecting b messages n) { b with messages := messages } =
      match processMultilineBatch win { b with messages := messages } with
      | none => collecting b messages n
      | some shown => (collecting b messages n).act (.display shown) := by
  have hecho : ¬ isEcho (collecting b messages n) { b with messages := messages } = true := by
    simp [isEcho, collecting]
  have htype : ({ b with messages := messages } : Batch).type = "draft/multiline" := hb.type
  have houter : ({ b with messages := messages } : Batch).outerBatch = none := hb.outer
  rw [endType, htype, if_neg (by decide), if_neg (by decide), if_pos (by decide), endMultiline, houter,
    Option.bind_none]
  exact if_neg hecho

/-- The end of the batch shows the message, if there is one. -/
theorem end_collecting {b : Batch} (hb : Outermost b) (win : Windows) (messages : List Message) (n : Nat) :
    (inboundBatchEnd win (collecting b messages n) b.id).acts =
      ((processMultilineBatch win { b with messages := messages }).map Act.display).toList := by
  have hlookup : (collecting b messages n).lookup b.id = some { b with messages := messages } := by
    simp [State.lookup, collecting]
  have hlabel : ∀ s : State, s.pendingLabels = [] → (endLabel s { b with messages := messages }).acts = s.acts := by
    intro s hs
    rw [endLabel]
    cases b.label with
    | none => rfl
    | some label => simp [hs]
  rw [inboundBatchEnd, if_neg (by simp [collecting]), hlookup]
  dsimp only
  rw [endType_collecting hb]
  cases processMultilineBatch win { b with messages := messages } with
  | none => exact hlabel _ rfl
  | some shown => exact hlabel _ rfl

/-- `tcp_sendf` has room for the line with this text. -/
def fits (tag target text : Bytes) : Bool := decide ((Server.batchLine tag target text).length ≤ 1538)

theorem textLines_member (r : Receiver) (pfx tag target text : Bytes) (n : Nat) (messages : List Message) :
    (textLines (memberMessage r pfx tag target text n :: messages)).map (·.1) =
      str text :: (textLines messages).map (·.1) := by
  have hpriv : (memberMessage r pfx tag target text n).isPrivmsg = true := by
    show ChatHistory.asciiCaseEq "PRIVMSG" "PRIVMSG" = true
    decide
  have htext : (memberMessage r pfx tag target text n).text? = some (str text) := by
    show some (stripColon (":" ++ str text)) = _
    rw [stripColon_colon]
  rw [textLines_cons, if_pos hpriv, htext]
  rfl

/-- The texts that were not cut are collected in their order. -/
theorem foldl_members {b : Batch} {tag : Bytes} (hb : Outermost b) (hid : b.id = str tag)
    (hbatch : r.caps.haveBatch = true) (hpfx : Name pfx) (htarget : Name target)
    (htag : ∀ c ∈ tag, isAlnum c = true) (texts : List Bytes) (htexts : ∀ text ∈ texts, ∀ c ∈ text, c ≠ 10 ∧ c ≠ 13) :
    ∀ messages n, ∃ more n',
      ((texts.map fun text => cmdBuf (Server.batchLine tag target text)).filterMap (relayed pfx)).foldl r.ircInline
          (collecting b messages n) = collecting b (messages ++ more) n' ∧
        (textLines more).map (·.1) = (texts.filter (fits tag target)).map str := by
  have hname : ∀ c ∈ target, c ≠ 10 ∧ c ≠ 13 := fun c hc => (htarget.text c hc).2
  induction texts with
  | nil => intro messages n; exact ⟨[], n, by simp, rfl⟩
  | cons text texts ih =>
    intro messages n
    have htext := htexts text (by simp)
    have ih := ih fun t ht => htexts t (by simp [ht])
    cases hfit : fits tag target text with
    | false =>
      have hcut := relayed_batchLine_cut pfx htag hname htext (by simpa [fits] using hfit)
      obtain ⟨more, n', hmore, htextLines⟩ := ih messages n
      refine ⟨more, n', ?_, by rw [htextLines, List.filter_cons_of_neg (by simp [hfit])]⟩
      rw [List.map_cons, List.filterMap_cons_none hcut, hmore]
    | true =>
      have hline := relayed_batchLine pfx htag hname htext (by simpa [fits] using hfit)
      obtain ⟨more, n', hmore, htextLines⟩ := ih (messages ++ [memberMessage r pfx tag target text n]) (n + 1)
      refine ⟨memberMessage r pfx tag target text n :: more, n', ?_, ?_⟩
      · rw [List.map_cons, List.filterMap_cons_some hline, List.foldl_cons,
          ircInline_privmsg hbatch hpfx htarget htag, ← hid]
        show List.foldl _ (inboundBatchAddMessage r.win { collecting b messages n with nextLine := n + 1 } (some b.id)
          (memberMessage r pfx tag target text n)) _ = _
        rw [add_collecting hb, hmore]
        simp
      · rw [textLines_member, htextLines, List.filter_cons_of_pos hfit]
        rfl

theorem joinRest_str (lines : List (String × Bool)) (texts : List Bytes) (h : lines.map (·.1) = texts.map str) :
    joinRest (unmarked lines) = str (texts.flatMap fun text => 10 :: text) := by
  induction lines generalizing texts with
  | nil =>
    cases texts with
    | nil => rfl
    | cons text texts => cases h
  | cons line lines ih =>
    cases texts with
    | nil => cases h
    | cons text texts =>
      obtain ⟨htext, hrest⟩ := List.cons.inj h
      have := ih texts hrest
      rw [unmarked] at this
      simp only [unmarked, List.map_cons, joinRest, this, htext, List.flatMap_cons, List.cons_append, str_append,
        str_cons 10]
      simp [String.append_assoc]

theorem combined_cons (text : Bytes) (texts : List Bytes) :
    combined (text :: texts) = text ++ texts.flatMap fun text => 10 :: text := by
  induction texts generalizing text with
  | nil => simp [combined]
  | cons text' texts ih =>
    have hstep : combined (text :: text' :: texts) = text ++ [10] ++ combined (text' :: texts) :=
      List.intercalate_cons_cons
    rw [hstep, ih]
    simp

/-- The text that is put together is that of the texts that were not cut. -/
theorem joinLines_str {lines : List (String × Bool)} {texts : List Bytes} (h : lines.map (·.1) = texts.map str) :
    joinLines (unmarked lines) = str (combined texts) := by
  cases lines with
  | nil =>
    cases texts with
    | nil => rfl
    | cons text texts => cases h
  | cons line lines =>
    cases texts with
    | nil => cases h
    | cons text texts =>
      obtain ⟨htext, hrest⟩ := List.cons.inj h
      have := joinRest_str lines texts hrest
      rw [unmarked] at this
      simp only [unmarked, List.map_cons, joinLines, this, htext, combined_cons, str_append]

theorem processMultilineBatch_text {b : Batch} {texts : List Bytes} (win : Windows)
    (h : (textLines b.messages).map (·.1) = texts.map str) :
    (processMultilineBatch win b).map Shown.text =
      if combined texts = [] then none else some (str (combined texts)) := by
  have hsilent : Silent b ↔ combined texts = [] := by
    rw [← combine_text_eq_empty_iff, combine_text, joinLines_str h]
    constructor
    · intro hstr
      have := congrArg String.length hstr
      rw [length_str] at this
      exact List.length_eq_zero_iff.1 this
    · intro hnil
      rw [hnil]
      rfl
  rcases assemblers_eq win b with ⟨hs, hlive, -⟩ | ⟨first, -, hs, hlive, -⟩
  · rw [hlive, if_pos (hsilent.1 hs)]
    rfl
  · obtain ⟨shown, hshown, hid⟩ := Option.map_eq_some_iff.1 hlive
    have htext : shown.text = joinLines (unmarked (textLines b.messages)) := congrArg Identity.text hid
    rw [hshown, if_neg (fun e => hs (hsilent.2 e)), Option.map_some, htext, joinLines_str h]

end Received

/-! ## How long the pieces are -/

section Pieces

variable {win : Window} {text piece : Bytes}

theorem cutPoint_bounds (room steps : Nat) :
    ∀ (i : Nat) (text : Bytes), i ≤ room → room ≤ i + steps →
      cutPoint room steps i text ≤ room ∧ room ≤ cutPoint room steps i text + 6 := by
  induction steps with
  | zero =>
    intro i text hi hsteps
    rw [cutPoint]
    omega
  | succ steps ih =>
    intro i text hi hsteps
    have hskip := utf8Skip_bounds (text.headD 0)
    rw [cutPoint]
    split_ifs with hstop
    · omega
    · exact ih _ _ (by omega) (by omega)

theorem utf8Offset_le (steps : Nat) :
    ∀ (pos : Nat) (text : Bytes), Outbound.utf8Offset steps pos text ≤ pos := by
  induction steps with
  | zero => intro pos text; simp [Outbound.utf8Offset]
  | succ steps ih =>
    intro pos text
    have hskip := utf8Skip_bounds (text.headD 0)
    rw [Outbound.utf8Offset]
    split_ifs with hzero
    · omega
    · have := ih (pos - Outbound.utf8Skip (text.headD 0)) (text.drop (Outbound.utf8Skip (text.headD 0)))
      dsimp only
      omega

theorem lastSpace_lt {pos : Nat} (h : Outbound.lastSpace text = some pos) : pos < text.length := by
  obtain ⟨⟨c, i⟩, hfind, rfl⟩ := Option.map_eq_some_iff.1 h
  have hmem := List.mem_of_find?_eq_some hfind
  have := List.snd_lt_of_mem_zipIdx (List.mem_reverse.1 hmem)
  omega

/-- A text is split where it is longer than the room, into a piece that nearly fills it. -/
theorem splitUpText_length (h : splitUpText win 13 text = some piece) :
    textRoom win 13 < text.length ∧ piece.length ≤ textRoom win 13 ∧ textRoom win 13 ≤ piece.length + 26 := by
  unfold splitUpText at h
  dsimp only at h
  split at h
  · rename_i hlong
    obtain ⟨hle, hge⟩ := cutPoint_bounds (textRoom win 13) (textRoom win 13) 0 text (by omega) (by omega)
    refine ⟨hlong, ?_⟩
    split at h
    · rename_i pos hpos
      have hlt := lastSpace_lt hpos
      have hoffset := utf8Offset_le pos pos text
      rw [List.length_take] at hlt
      split at h
      · rename_i hword
        simp only [Bool.and_eq_true, decide_eq_true_eq] at hword
        obtain rfl := Option.some.inj h
        rw [List.length_take]
        omega
      · obtain rfl := Option.some.inj h
        rw [List.length_take]
        omega
    · obtain rfl := Option.some.inj h
      rw [List.length_take]
      omega
  · cases h

theorem splitUpText_eq_none_iff : splitUpText win 13 text = none ↔ text.length ≤ textRoom win 13 := by
  constructor
  · intro h
    by_contra hlong
    unfold splitUpText at h
    dsimp only at h
    rw [if_pos (by omega)] at h
    split at h
    · split at h <;> cases h
    · cases h
  · intro h
    unfold splitUpText
    dsimp only
    rw [if_neg (by omega)]

theorem splitPieces_of_le (h : text.length ≤ textRoom win 13) : splitPieces win text = ([text], true) := by
  rw [splitPieces, splitFrom, splitUpText_eq_none_iff.2 h]

/-- The recursion of the split, where it ends. -/
theorem splitFrom_ended {steps : Nat} (h : (splitFrom win 13 (steps + 1) text).2 = true) :
    (text.length ≤ textRoom win 13 ∧ (splitFrom win 13 (steps + 1) text).1 = [text]) ∨
      ∃ piece, splitUpText win 13 text = some piece ∧ piece ≠ [] ∧
        (splitFrom win 13 steps (text.drop piece.length)).2 = true ∧
        (splitFrom win 13 (steps + 1) text).1 = piece :: (splitFrom win 13 steps (text.drop piece.length)).1 := by
  rw [splitFrom] at h ⊢
  cases hsplit : splitUpText win 13 text with
  | none => exact .inl ⟨splitUpText_eq_none_iff.1 hsplit, rfl⟩
  | some piece =>
    simp only [hsplit] at h ⊢
    split_ifs at h ⊢ with hempty
    exact .inr ⟨piece, rfl, by simpa using hempty, h, rfl⟩

/-- Every piece is within the room, and a text beyond it makes more than one. -/
theorem splitFrom_pieces (steps : Nat) :
    ∀ text : Bytes, (splitFrom win 13 steps text).2 = true →
      (∀ p ∈ (splitFrom win 13 steps text).1, p.length ≤ textRoom win 13) ∧
        1 ≤ (splitFrom win 13 steps text).1.length ∧
        (textRoom win 13 < text.length → 2 ≤ (splitFrom win 13 steps text).1.length) := by
  induction steps with
  | zero => intro text h; cases h
  | succ steps ih =>
    intro text h
    rcases splitFrom_ended h with ⟨hshort, heq⟩ | ⟨piece, hsplit, -, hrest, heq⟩
    · rw [heq]
      exact ⟨by simpa using hshort, by simp, fun hlong => by omega⟩
    · obtain ⟨hle, hone, -⟩ := ih _ hrest
      rw [heq]
      refine ⟨fun p hp => ?_, by simp, fun _ => by simp only [List.length_cons]; omega⟩
      rcases List.mem_cons.1 hp with rfl | hp
      · exact (splitUpText_length hsplit).2.1
      · exact hle p hp

/-- Where the room is more than a line can hold, at most the last piece of a text is kept, and less than the text
where it was split. -/
theorem splitFrom_kept {keep : Bytes → Bool} (hkeep : ∀ p, textRoom win 13 ≤ p.length + 26 → keep p = false)
    (steps : Nat) :
    ∀ text : Bytes, (splitFrom win 13 steps text).2 = true →
      ((splitFrom win 13 steps text).1.filter keep).length ≤ 1 ∧
        ((splitFrom win 13 steps text).1.filter keep).flatten.length ≤ text.length ∧
        (textRoom win 13 < text.length →
          ((splitFrom win 13 steps text).1.filter keep).flatten.length < text.length) := by
  induction steps with
  | zero => intro text h; cases h
  | succ steps ih =>
    intro text h
    rcases splitFrom_ended h with ⟨hshort, heq⟩ | ⟨piece, hsplit, hne, hrest, heq⟩
    · rw [heq]
      cases hk : keep text with
      | false => simp [hk]; omega
      | true => simp [hk]; omega
    · obtain ⟨hone, hle, -⟩ := ih _ hrest
      obtain ⟨hlong, -, hfull⟩ := splitUpText_length hsplit
      have hpos := List.length_pos_iff.2 hne
      rw [heq, List.filter_cons_of_neg (by simp [hkeep piece hfull])]
      rw [List.length_drop] at hle
      exact ⟨hone, by omega, fun _ => by omega⟩

/-- The room is what 512 bytes leave, or it has wrapped round. -/
theorem textRoom_cases (hnick : win.nick.length < 64) (hchan : win.channel.length < 300)
    (hhost : ∀ host ∈ win.hostname, host.length < 8704) :
    textRoom win 13 + win.channel.length ≤ 496 ∨ 4294950000 ≤ textRoom win 13 := by
  unfold textRoom
  cases hh : win.hostname with
  | none => dsimp only; omega
  | some host =>
    have := hhost host (by simp [hh])
    dsimp only
    omega

theorem mem_of_mem_splitFrom (steps : Nat) :
    ∀ text : Bytes, ∀ p ∈ (splitFrom win 13 steps text).1, p ⊆ text := by
  induction steps with
  | zero => intro text p hp; cases hp
  | succ steps ih =>
    intro text p hp
    rw [splitFrom] at hp
    cases hsplit : splitUpText win 13 text with
    | none =>
      rw [hsplit] at hp
      rw [List.mem_singleton.1 hp]
      exact List.Subset.refl text
    | some piece =>
      simp only [hsplit] at hp
      split_ifs at hp with hempty
      · cases hp
      rcases List.mem_cons.1 hp with rfl | hp
      · obtain ⟨n, rfl⟩ := Outbound.splitUpText_eq_take hsplit
        exact List.take_subset n text
      · exact List.Subset.trans (ih _ p hp) (List.drop_subset _ text)

theorem mem_sentTexts (lines : List Bytes) :
    ∀ text ∈ sentTexts win lines, ∃ line ∈ lines, text ⊆ line := by
  induction lines with
  | nil => intro text h; cases h
  | cons line lines ih =>
    intro text h
    rw [sentTexts, List.mem_append] at h
    rcases h with h | h
    · exact ⟨line, by simp, mem_of_mem_splitFrom _ line text h⟩
    · split_ifs at h
      · obtain ⟨line', hline', hsub⟩ := ih text h
        exact ⟨line', by simp [hline'], hsub⟩
      · cases h

theorem sentTexts_of_ended (lines : List Bytes) (h : ∀ line ∈ lines, (splitPieces win line).2 = true) :
    sentTexts win lines = lines.flatMap fun line => (splitPieces win line).1 := by
  induction lines with
  | nil => rfl
  | cons line lines ih =>
    rw [sentTexts, if_pos (h line (by simp)), ih fun l hl => h l (by simp [hl])]
    rfl

end Pieces

/-! ## Sending and receiving -/

/-- A window from which a batch can be sent; the lengths are those of `channel`, `nick` and `linebuf`. -/
structure Sending (win : Window) : Prop where
  connected : win.connected = true
  channel : Name win.channel
  channelLength : win.channel.length < 300
  nickLength : win.nick.length < 64
  hostnameLength : ∀ host ∈ win.hostname, host.length < 8704

section Restored

variable {win : Window} {r : Receiver} {pfx : Bytes} {lines : List Bytes}

/-- The receiver shows the texts that were not cut, once the batch is closed. -/
theorem restores_iff (hwin : Sending win) (hbatch : r.caps.haveBatch = true) (hpfx : Name pfx)
    (htext : ∀ line ∈ lines, ∀ c ∈ line, c ≠ 10 ∧ c ≠ 13)
    (hone : (handleMultilineBatch win lines).2.out.count .batchOpen = 1) (s : Server) (now : Int) :
    r.Restores pfx (sentLines s now win lines) lines ↔
      (∀ line ∈ lines, (splitPieces win line).2 = true) ∧
        combined ((sentTexts win lines).filter (fits s.nextBatchTag win.channel)) ≠ [] ∧
        str (combined ((sentTexts win lines).filter (fits s.nextBatchTag win.channel))) = str (combined lines) := by
  obtain ⟨line, t, hopen, htags, hnested⟩ :=
    relayed_open r.caps pfx s hwin.channel hwin.channelLength
  let b := batchInfoNew (str s.nextBatchTag) "draft/multiline" [str win.channel] (r.tagsOf t)
  have hb : Outermost b := ⟨rfl, by
    show t.batchId.map str = none
    rw [hnested]
    rfl⟩
  have hstart : r.ircInline { haveBatch := r.caps.haveBatch } line = collecting b [] 0 := by
    have hreplay : ChatHistory.isBouncerReplay "draft/multiline" = false := by decide
    rw [Receiver.ircInline, htags]
    dsimp only
    rw [event?_open hpfx hwin.channel, Option.map_some, Option.getD_some, step, inboundBatchStart, hbatch,
      if_neg (by decide), if_neg (by simp [State.lookup]), hreplay]
    rfl
  have htexts : ∀ text ∈ sentTexts win lines, ∀ c ∈ text, c ≠ 10 ∧ c ≠ 13 := by
    intro text h c hc
    obtain ⟨line, hline, hsub⟩ := mem_sentTexts lines text h
    exact htext line hline c (hsub hc)
  obtain ⟨more, n, hfold, hmore⟩ := foldl_members hb rfl hbatch hpfx hwin.channel
    (fun _ => isAlnum_of_mem_tag) (sentTexts win lines) htexts [] 0
  have hshown := processMultilineBatch_text (b := { b with messages := more }) r.win hmore
  unfold Receiver.Restores Receiver.receive
  rw [sentLines_eq hwin.connected hwin.channel.ne_nil hone, List.cons_append, List.filterMap_cons_some hopen,
    List.foldl_cons, hstart, List.filterMap_append, List.foldl_append, hfold]
  by_cases hall : ∀ line ∈ lines, (splitPieces win line).2 = true
  · have hclose : ((if lines.all (fun line => (splitPieces win line).2) then [closeLine s.nextBatchTag] else
        []).filterMap (relayed pfx)) = [closeBuf pfx s.nextBatchTag] := by
      rw [if_pos (by simpa using hall), List.filterMap_cons_some (relayed_close pfx s)]
      rfl
    have hend : r.ircInline (collecting b ([] ++ more) n) (closeBuf pfx s.nextBatchTag) =
        inboundBatchEnd r.win (collecting b more n) b.id := by
      have hplain : takeTags r.caps (closeBuf pfx s.nextBatchTag) = some ({}, closeBuf pfx s.nextBatchTag) := rfl
      rw [Receiver.ircInline, hplain]
      dsimp only
      rw [event?_close hpfx]
      rfl
    rw [hclose, List.foldl_cons, List.foldl_nil, hend, end_collecting hb]
    cases hproc : processMultilineBatch r.win { b with messages := more } with
    | none =>
      rw [hproc, Option.map_none] at hshown
      split_ifs at hshown with hempty
      simp [hempty]
    | some shown =>
      rw [hproc, Option.map_some] at hshown
      split_ifs at hshown with hempty
      have hsame : shown.text = str (combined _) := Option.some.inj hshown
      constructor
      · rintro ⟨shown', hacts, htext'⟩
        cases hacts
        exact ⟨hall, hempty, hsame.symm.trans htext'⟩
      · rintro ⟨-, -, heq⟩
        exact ⟨shown, rfl, hsame.trans heq⟩
  · have hopen : ¬ (lines.all fun line => (splitPieces win line).2) = true := by simpa using hall
    rw [if_neg hopen]
    refine iff_of_false ?_ fun h => hall h.1
    rintro ⟨shown, hacts, -⟩
    cases hacts

/-- The length of texts that are joined, and one more. -/
def weight (texts : List Bytes) : Nat := texts.flatten.length + texts.length

theorem length_combined (text : Bytes) (texts : List Bytes) :
    (combined (text :: texts)).length + 1 = weight (text :: texts) := by
  rw [combined_cons, weight]
  induction texts with
  | nil => simp
  | cons text' texts ih =>
    simp only [List.length_append, List.flatMap_cons, List.length_cons, List.flatten_cons] at ih ⊢
    omega

theorem length_combined_of_ne_nil {texts : List Bytes} (h : texts ≠ []) :
    (combined texts).length + 1 = weight texts := by
  obtain ⟨text, rest, rfl⟩ := List.exists_cons_of_ne_nil h
  exact length_combined text rest

theorem weight_flatMap (f : Bytes → List Bytes) (lines : List Bytes) :
    weight (lines.flatMap f) = (lines.map fun line => weight (f line)).sum := by
  induction lines with
  | nil => rfl
  | cons line lines ih =>
    rw [List.map_cons, List.sum_cons, ← ih]
    simp only [weight, List.flatMap_cons, List.flatten_append, List.length_append]
    omega

theorem weight_eq_sum (lines : List Bytes) : weight lines = (lines.map fun line => line.length + 1).sum := by
  simp [weight, List.length_flatten]

theorem fits_iff (tag target text : Bytes) :
    fits tag target text = true ↔ tag.length + target.length + text.length ≤ 1518 := by
  have hlen : (Server.batchLine tag target text).length = tag.length + target.length + text.length + 20 := by
    simp [Server.batchLine, bytes]
    omega
  rw [fits, decide_eq_true_eq, hlen]
  omega

/-- Where the room has not wrapped, every piece is sent whole, and a split adds a newline. -/
theorem weight_kept_ge (hroom : textRoom win 13 + win.channel.length ≤ 496) {line : Bytes} (s : Server)
    (hended : (splitPieces win line).2 = true) :
    line.length + 1 ≤ weight ((splitPieces win line).1.filter (fits s.nextBatchTag win.channel)) ∧
      (¬ (line.length ≤ textRoom win 13 ∧ fits s.nextBatchTag win.channel line = true) →
        line.length + 1 < weight ((splitPieces win line).1.filter (fits s.nextBatchTag win.channel))) := by
  have htag := length_tag_le s
  have hpieces := splitFrom_pieces _ line hended
  rw [← splitPieces] at hpieces
  obtain ⟨hle, hone, htwo⟩ := hpieces
  have hfits : ∀ text : Bytes, text.length ≤ textRoom win 13 → fits s.nextBatchTag win.channel text = true := by
    intro text htext
    rw [fits_iff]
    omega
  have hflatten := congrArg List.length (Outbound.splitPieces_flatten hended).1
  rw [List.filter_eq_self.2 fun p hp => hfits p (hle p hp), weight, hflatten]
  refine ⟨Nat.add_le_add_left hone _, fun hnot => Nat.add_lt_add_left (htwo ?_) _⟩
  by_contra hshort
  exact hnot ⟨by omega, hfits line (by omega)⟩

/-- Where it has, a piece that fills it is cut. -/
theorem weight_kept_le (hroom : 4294950000 ≤ textRoom win 13) {line : Bytes} (hne : line ≠ []) (s : Server)
    (hended : (splitPieces win line).2 = true) :
    weight ((splitPieces win line).1.filter (fits s.nextBatchTag win.channel)) ≤ line.length + 1 ∧
      (¬ (line.length ≤ textRoom win 13 ∧ fits s.nextBatchTag win.channel line = true) →
        weight ((splitPieces win line).1.filter (fits s.nextBatchTag win.channel)) < line.length + 1) := by
  have hcut : ∀ p : Bytes, textRoom win 13 ≤ p.length + 26 → fits s.nextBatchTag win.channel p = false := by
    intro p hp
    rw [← Bool.not_eq_true, fits_iff]
    omega
  obtain ⟨hone, hle, hlong⟩ := splitFrom_kept hcut _ line hended
  have hpos := List.length_pos_iff.2 hne
  refine ⟨Nat.add_le_add hle hone, fun hnot => ?_⟩
  by_cases hshort : line.length ≤ textRoom win 13
  · have hfit : fits s.nextBatchTag win.channel line = false := by simpa [hshort] using hnot
    rw [splitPieces_of_le hshort]
    simp [hfit, weight]
  · exact Nat.add_lt_add_of_lt_of_le (hlong (by omega)) hone

/-- **A multiline message comes back whole** — what is sent for its lines in one batch is shown as these lines
joined by newlines — exactly when every line is sent in one piece: it is not longer than the room `split_up_text`
computes, and `tcp_sendf` does not cut it. -/
theorem multiline_restored_iff (hwin : Sending win) (hbatch : r.caps.haveBatch = true) (hpfx : Name pfx)
    (hlines : lines ≠ []) (htext : ∀ line ∈ lines, line ≠ [] ∧ ∀ c ∈ line, c ≠ 10 ∧ c ≠ 13)
    (hone : (handleMultilineBatch win lines).2.out.count .batchOpen = 1) (s : Server) (now : Int) :
    r.Restores pfx (sentLines s now win lines) lines ↔
      ∀ line ∈ lines, line.length ≤ textRoom win 13 ∧ fits s.nextBatchTag win.channel line = true := by
  rw [restores_iff hwin hbatch hpfx (fun line hline => (htext line hline).2) hone s now]
  constructor
  · rintro ⟨hended, hne, heq⟩
    rw [sentTexts_of_ended lines hended, List.filter_flatMap] at hne heq
    have hkept : lines.flatMap (fun line => (splitPieces win line).1.filter (fits s.nextBatchTag win.channel)) ≠ [] :=
      fun h => hne (by rw [h]; rfl)
    have hlen := congrArg String.length heq
    rw [length_str, length_str] at hlen
    have hsum := length_combined_of_ne_nil hkept
    have hsum' := length_combined_of_ne_nil hlines
    rw [weight_flatMap] at hsum
    rw [weight_eq_sum] at hsum'
    by_contra hbad
    push Not at hbad
    obtain ⟨line, hline, hnot⟩ := hbad
    rcases textRoom_cases hwin.nickLength hwin.channelLength hwin.hostnameLength with hroom | hroom
    · have := List.sum_lt_sum _ _ (fun l hl => (weight_kept_ge hroom s (hended l hl)).1)
        ⟨line, hline, (weight_kept_ge hroom s (hended line hline)).2 fun h => hnot h.1 h.2⟩
      omega
    · have := List.sum_lt_sum _ _ (fun l hl => (weight_kept_le hroom (htext l hl).1 s (hended l hl)).1)
        ⟨line, hline, (weight_kept_le hroom (htext line hline).1 s (hended line hline)).2 fun h => hnot h.1 h.2⟩
      omega
  · intro hfits
    have hended : ∀ line ∈ lines, (splitPieces win line).2 = true := fun line hline => by
      rw [splitPieces_of_le (hfits line hline).1]
    have hsame : (sentTexts win lines).filter (fits s.nextBatchTag win.channel) = lines := by
      rw [sentTexts_of_ended lines hended,
        List.flatMap_congr fun line hline => congrArg Prod.fst (splitPieces_of_le (hfits line hline).1),
        List.flatMap_singleton']
      exact List.filter_eq_self.2 fun line hline => (hfits line hline).2
    rw [hsame]
    refine ⟨hended, fun hnil => ?_, rfl⟩
    obtain ⟨line, rest, rfl⟩ := List.exists_cons_of_ne_nil hlines
    rw [combined_cons] at hnil
    exact (htext line (by simp)).1 (List.append_eq_nil_iff.1 hnil).1

end Restored

/-- A channel on a server that takes batches of ten lines. -/
def batchSender : Window where
  type := .channel
  channel := bytes "#chan"
  nick := bytes "me"
  hostname := some (bytes "u@h")
  haveMultiline := true
  multilineMaxLines := 10
  multilineMaxBytes := 4096

/-- Another client in that channel. -/
def batchReceiver : Receiver where
  caps := {}
  win := oneChannel
  timeOf _ := 0

theorem batchSender_sending : Sending batchSender where
  connected := rfl
  channel := ⟨by decide, by decide, by decide, List.all_iff_forall_prop.1 (by decide)⟩
  channelLength := by decide
  nickLength := by decide
  hostnameLength := by decide

theorem batchSender_name : Name (bytes "me!u@h") :=
  ⟨by decide, by decide, by decide, List.all_iff_forall_prop.1 (by decide)⟩

theorem multiline_restored_two_lines :
    batchReceiver.Restores (bytes "me!u@h") (sentLines {} 0 batchSender [bytes ":ab", bytes "c  d"])
      [bytes ":ab", bytes "c  d"] :=
  (multiline_restored_iff batchSender_sending rfl batchSender_name (by decide)
    (List.forall_mem_cons.2 ⟨⟨by decide, List.all_iff_forall_prop.1 (by decide)⟩,
      List.forall_mem_singleton.2 ⟨by decide, List.all_iff_forall_prop.1 (by decide)⟩⟩) (by decide) {} 0).2 (by decide)

/-- A line of 500 bytes and a short one. -/
def pastedLines : List Bytes := [List.replicate 500 97, bytes "b"]

/-- One batch is enough for them, and they come back as three lines. -/
theorem long_line_not_restored :
    Sending batchSender ∧ batchReceiver.caps.haveBatch = true ∧ Name (bytes "me!u@h") ∧
      (∀ line ∈ pastedLines, line ≠ [] ∧ ∀ c ∈ line, c ≠ 10 ∧ c ≠ 13) ∧
      (handleMultilineBatch batchSender pastedLines).2.out.count .batchOpen = 1 ∧
      ¬ batchReceiver.Restores (bytes "me!u@h") (sentLines {} 0 batchSender pastedLines) pastedLines := by
  have htext : ∀ line ∈ pastedLines, line ≠ [] ∧ ∀ c ∈ line, c ≠ 10 ∧ c ≠ 13 := by
    refine List.forall_mem_cons.2 ⟨⟨List.cons_ne_nil 97 _, fun c hc => ?_⟩, List.forall_mem_singleton.2 ⟨by decide, ?_⟩⟩
    · rw [List.eq_of_mem_replicate hc]
      decide
    · exact List.all_iff_forall_prop.1 (by decide)
  have hone : (handleMultilineBatch batchSender pastedLines).2.out.count .batchOpen = 1 := by decide +kernel
  refine ⟨batchSender_sending, rfl, batchSender_name, htext, hone, fun h => ?_⟩
  have heq := ((restores_iff batchSender_sending rfl batchSender_name (fun l hl => (htext l hl).2) hone {} 0).1 h).2.2
  have hlen := congrArg String.length heq
  rw [length_str, length_str] at hlen
  exact absurd hlen (by decide +kernel)

end PoxChat.Inbound
