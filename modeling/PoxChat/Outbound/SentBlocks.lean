import Mathlib.Data.Bool.AllAny
import PoxChat.Outbound.TypedOrder

/-!
# The blocks that are sent

What `tcp_sendf`, `tcp_sendf_labeled` and `tcp_sendf_with_tags` of `server.c` hand to `tcp_send_len`, for a formatted text
that ends in CRLF.

* A block is the bytes of the buffer that `tcp_send_len` is told to send.
* A text of a format is the bytes the format and its arguments come to.

Principal result: `blocks_oneLine_iff` — the block is one line exactly when the first line end of the text stands where
the buffers cut it, or at its end, and the text does not reach the terminator of its buffer.
-/

set_option autoImplicit false

namespace PoxChat.Outbound

/-! ## The calls -/

/-- One of the functions that format a line and send it; `tcp_sendf_labeled_tracked` sends what `tcp_sendf_labeled` does. -/
inductive SendCall where
  | sendf
  | labeled
  | withTags (key value : Bytes)
  | withRawTags (tags : Bytes)

/-- The tags the function formats itself or is given. -/
def SendCall.extraTags : SendCall → Bytes
  | .sendf => []
  | .labeled => []
  | .withTags key value => key ++ bytes "=" ++ value
  | .withRawTags tags => tags

/-- The call, with `text` for the format and its arguments. -/
def SendCall.run (call : SendCall) (s : Server) (now : Int) (text : Bytes) : Server :=
  match call with
  | .sendf => s.tcpSendf now text
  | .labeled => s.tcpVsendfLabeled now text
  | .withTags key value => s.tcpVsendfLabeledWithTags now (key ++ bytes "=" ++ value) text
  | .withRawTags tags => s.tcpVsendfLabeledWithTags now tags text

/-- The blocks the call hands to `tcp_send_len`. -/
def SendCall.blocks (call : SendCall) (s : Server) (now : Int) (text : Bytes) : List Bytes :=
  (call.run s now text).submitted.drop s.submitted.length

/-! ## Lines -/

def eol : Bytes := bytes "\r\n"

/-- The block is one line: it has one CRLF, at its end, and no NUL, so that it is as long as its string. -/
structure OneLine (block : Bytes) : Prop where
  ended : ∃ line, block = line ++ eol ∧ ¬ eol <:+: line
  noNul : (0 : UInt8) ∉ block
  length : (cString block).length = block.length

/-- How far the first line goes, with its line end; all of the text where it has none. -/
def firstLine : Bytes → Nat
  | [] => 0
  | c :: rest => if eol.isPrefixOf (c :: rest) then 2 else firstLine rest + 1

/-- What the function puts in front of the command. -/
def SendCall.front (call : SendCall) (s : Server) : Bytes :=
  match call with
  | .sendf => []
  | _ =>
    if s.haveLabeledResponse then
      if call.extraTags.isEmpty then bytes "@label=" ++ s.nextLabel ++ bytes " "
      else bytes "@label=" ++ s.nextLabel ++ bytes ";" ++ call.extraTags ++ bytes " "
    else if call.extraTags.isEmpty then []
    else bytes "@" ++ call.extraTags ++ bytes " "

/-- The bytes of the text that the buffers have room for. -/
def SendCall.room (call : SendCall) (s : Server) : Nat := min 1538 (1599 - (call.front s).length)

/-- The text ends with its first line, or is cut behind it; and a command without tags does not end in the last byte of
its buffer, where the check of its length lets the terminator through. -/
def SendCall.Fits (call : SendCall) (s : Server) (text : Bytes) : Prop :=
  firstLine text = min text.length (call.room s) ∧ (call.front s = [] → text.length ≠ 1539)

instance (call : SendCall) (s : Server) (text : Bytes) : Decidable (call.Fits s text) := by
  unfold SendCall.Fits
  infer_instance

/-- An argument that can stand in a line. -/
def Clean (arg : Bytes) : Prop := ∀ c ∈ arg, c ≠ 0 ∧ c ≠ 10 ∧ c ≠ 13

section Lines

variable {text line : Bytes}

/-- A line end does not begin inside a line and end in the line end behind it. -/
theorem not_prefix_line (rest : Bytes) {c : UInt8} (h : ¬ eol <:+: c :: line) : ¬ eol <+: c :: line ++ (eol ++ rest) := by
  rintro ⟨r, hr⟩
  cases line with
  | nil => simp [eol, bytes] at hr
  | cons d line =>
    apply h
    simp only [eol, bytes, List.cons_append] at hr
    injection hr with hc hr
    injection hr with hd hr
    rw [← hc, ← hd]
    exact (List.prefix_append eol line).isInfix

theorem firstLine_append (rest : Bytes) (h : ¬ eol <:+: line) : firstLine (line ++ (eol ++ rest)) = line.length + 2 := by
  induction line with
  | nil => rfl
  | cons c line ih =>
    have hhead := not_prefix_line rest h
    rw [← List.isPrefixOf_iff_prefix, List.cons_append] at hhead
    rw [List.cons_append, firstLine, if_neg hhead, List.length_cons,
      ih fun hin => h (hin.trans (List.suffix_cons c line).isInfix)]

/-- A text with a line end has a first one. -/
theorem exists_firstLine (h : eol <:+: text) : ∃ line rest, text = line ++ (eol ++ rest) ∧ ¬ eol <:+: line := by
  induction text with
  | nil => simp [eol, bytes] at h
  | cons c text ih =>
    rcases List.infix_cons_iff.1 h with ⟨rest, hrest⟩ | hin
    · exact ⟨[], rest, hrest.symm, by simp [eol, bytes]⟩
    by_cases hpre : eol <+: c :: text
    · obtain ⟨rest, hrest⟩ := hpre
      exact ⟨[], rest, hrest.symm, by simp [eol, bytes]⟩
    obtain ⟨line, rest, rfl, hline⟩ := ih hin
    refine ⟨c :: line, rest, rfl, fun hcons => ?_⟩
    rcases List.infix_cons_iff.1 hcons with hp | hp
    · exact hpre (hp.trans (List.prefix_append (c :: line) _))
    · exact hline hp

/-- What is kept of a text is one line exactly when the first line of the text ends there. -/
theorem take_ended_iff (h : eol <:+: text) {n : Nat} (hn : n ≤ text.length) :
    (∃ line, text.take n = line ++ eol ∧ ¬ eol <:+: line) ↔ firstLine text = n := by
  constructor
  · rintro ⟨line, htake, hline⟩
    have hlen := congrArg List.length htake
    rw [List.length_take, List.length_append, Nat.min_eq_left hn] at hlen
    rw [← List.take_append_drop n text, htake, List.append_assoc, firstLine_append _ hline, hlen]
    rfl
  · rintro rfl
    obtain ⟨line, rest, rfl, hline⟩ := exists_firstLine h
    refine ⟨line, ?_, hline⟩
    rw [firstLine_append _ hline, ← List.append_assoc]
    exact List.take_left' (by simp [eol, bytes])

/-- What stands before a command without line breaks does not count. -/
theorem ended_append_iff {front : Bytes} (hfront : ∀ c ∈ front, c ≠ 10 ∧ c ≠ 13) :
    (∃ line, front ++ text = line ++ eol ∧ ¬ eol <:+: line) ↔ ∃ line, text = line ++ eol ∧ ¬ eol <:+: line := by
  induction front with
  | nil => rfl
  | cons c front ih =>
    rw [← ih fun d hd => hfront d (by simp [hd])]
    have hc := hfront c (by simp)
    constructor
    · rintro ⟨line, hblock, hline⟩
      cases line with
      | nil =>
        injection hblock with h13 _
        exact absurd h13 hc.2
      | cons d line =>
        injection hblock with _ hblock
        exact ⟨line, hblock, fun hin => hline (hin.trans (List.suffix_cons d line).isInfix)⟩
    · rintro ⟨line, hblock, hline⟩
      refine ⟨c :: line, by rw [List.cons_append, hblock, List.cons_append], fun hin => ?_⟩
      rcases List.infix_cons_iff.1 hin with ⟨r, hr⟩ | hin
      · injection hr with h13 _
        exact hc.2 h13.symm
      · exact hline hin

end Lines

/-! ## What is handed over -/

namespace Server

theorem sendPriority_submitted (now : Int) (pri : Nat) :
    ∀ (rounds : Nat) (s : Server), (s.sendPriority now pri rounds).2.submitted = s.submitted := by
  intro rounds
  induction rounds with
  | zero =>
    intro s
    rfl
  | succ rounds ih =>
    intro s
    unfold sendPriority
    split
    · rfl
    · split
      · rfl
      · rw [ih]
        rfl

theorem sendFrom_submitted (now : Int) (pri : Nat) :
    ∀ s : Server, (s.sendFrom now pri).2.submitted = s.submitted := by
  induction pri with
  | zero =>
    intro s
    have hprio := sendPriority_submitted now 0 s.outboundQueue.length s
    unfold sendFrom
    split <;> rename_i hres <;> rw [hres] at hprio <;> exact hprio
  | succ lower ih =>
    intro s
    have hprio := sendPriority_submitted now (lower + 1) s.outboundQueue.length s
    unfold sendFrom
    split <;> rename_i hres <;> rw [hres] at hprio
    · exact hprio
    · exact (ih _).trans hprio

/-- Draining the queue submits nothing. -/
theorem tcpSendQueue_submitted (s : Server) (now : Int) : (s.tcpSendQueue now).2.submitted = s.submitted := by
  unfold tcpSendQueue
  split_ifs
  · exact sendFrom_submitted now 3 s
  · rfl

theorem tcpSendLen_submitted (s : Server) (now : Int) (line : Bytes) :
    (s.tcpSendLen now line).submitted = s.submitted ++ [line] := by
  have hqueue := ((s.note line).enqueue line).tcpSendQueue_submitted now
  unfold tcpSendLen
  dsimp only
  split_ifs
  · unfold sendNow
    split_ifs <;> rfl
  · exact hqueue
  · exact hqueue

end Server

section Blocks

variable {call : SendCall} {s : Server} {now : Int} {text : Bytes}

theorem labeledLine_eq (s : Server) (extraTags text : Bytes) :
    s.labeledLine extraTags text =
      if (SendCall.withRawTags extraTags).front s = [] then cmdBuf text
      else sendBuf ((SendCall.withRawTags extraTags).front s ++ cString (cmdBuf text)) := by
  unfold Server.labeledLine SendCall.front SendCall.extraTags
  dsimp only
  split_ifs <;> simp_all [bytes]

/-- Each call hands over one block: the command, or the tags and the command. -/
theorem blocks_eq (call : SendCall) (s : Server) (now : Int) (text : Bytes) :
    call.blocks s now text =
      [if call.front s = [] then cmdBuf text else sendBuf (call.front s ++ cString (cmdBuf text))] := by
  have hlabeled : ∀ tags, (s.tcpVsendfLabeledWithTags now tags text).submitted =
      s.submitted ++ [s.labeledLine tags text] := by
    intro tags
    unfold Server.tcpVsendfLabeledWithTags
    dsimp only
    rw [Server.tcpSendLen_submitted]
    split_ifs <;> rfl
  have hdrop : ∀ block, (s.submitted ++ [block]).drop s.submitted.length = [block] := fun block =>
    List.drop_left
  cases call with
  | sendf =>
    show (s.tcpSendf now text).submitted.drop _ = [cmdBuf text]
    rw [Server.tcpSendf, Server.tcpSendLen_submitted, hdrop]
  | labeled =>
    show (s.tcpVsendfLabeledWithTags now [] text).submitted.drop _ = _
    rw [hlabeled, hdrop, labeledLine_eq]
    rfl
  | withTags key value =>
    show (s.tcpVsendfLabeledWithTags now (key ++ bytes "=" ++ value) text).submitted.drop _ = _
    rw [hlabeled, hdrop, labeledLine_eq]
    rfl
  | withRawTags tags =>
    show (s.tcpVsendfLabeledWithTags now tags text).submitted.drop _ = _
    rw [hlabeled, hdrop, labeledLine_eq]

theorem not_mem_take {n : Nat} (h : (0 : UInt8) ∉ text) : (0 : UInt8) ∉ text.take n := fun hmem =>
  h (List.take_subset _ _ hmem)

/-- The command, but for the terminator that the check of the length can let through. -/
theorem cmdBuf_eq_take (h : text.length ≠ 1539) : cmdBuf text = text.take 1538 := by
  by_cases hlen : text.length ≤ 1538
  · rw [cmdBuf_eq_self hlen, List.take_of_length_le hlen]
  · rw [cmdBuf, formatted, if_pos (by omega)]

theorem cmdBuf_terminated (h : text.length = 1539) : cmdBuf text = text.take 1538 ++ [0] := by
  rw [cmdBuf, formatted, if_neg (by omega), h]
  exact List.take_of_length_le (by simp [h])

theorem cString_cmdBuf (h : (0 : UInt8) ∉ text) : cString (cmdBuf text) = text.take 1538 := by
  by_cases hlen : text.length = 1539
  · rw [cmdBuf_terminated hlen, cString_append (not_mem_take h)]
  · rw [cmdBuf_eq_take hlen, cString_eq_self (not_mem_take h)]

theorem oneLine_iff {block : Bytes} (h : (0 : UInt8) ∉ block) :
    OneLine block ↔ ∃ line, block = line ++ eol ∧ ¬ eol <:+: line :=
  ⟨fun hline => hline.ended, fun hended => ⟨hended, h, by rw [cString_eq_self h]⟩⟩

/-- A command that is cut to `n` bytes or less. -/
theorem take_oneLine_iff (hend : eol <:+ text) (n : Nat) :
    (∃ line, text.take n = line ++ eol ∧ ¬ eol <:+: line) ↔ firstLine text = min text.length n := by
  rw [← take_ended_iff hend.isInfix (Nat.min_le_left _ n), List.take_eq_take_min]
  rw [Nat.min_comm]

theorem clean_nextLabel (s : Server) : Clean s.nextLabel := by
  intro c hc
  rcases List.mem_append.1 hc with hc | hc
  · have hlit : c = 104 ∨ c = 99 := by simpa [bytes] using hc
    rcases hlit with rfl | rfl <;> decide
  · obtain ⟨hlow, -⟩ := toNat_of_mem_decimal hc
    refine ⟨?_, ?_, ?_⟩ <;> (rintro rfl; simp at hlow)

theorem Clean.append {a b : Bytes} (ha : Clean a) (hb : Clean b) : Clean (a ++ b) := by
  intro c hc
  rcases List.mem_append.1 hc with hc | hc
  · exact ha c hc
  · exact hb c hc

theorem clean_front (h : Clean call.extraTags) (s : Server) : Clean (call.front s) := by
  have hlabel : Clean (bytes "@label=") := List.all_iff_forall_prop.1 (by decide)
  have hspace : Clean (bytes " ") := List.all_iff_forall_prop.1 (by decide)
  have hsemicolon : Clean (bytes ";") := List.all_iff_forall_prop.1 (by decide)
  have hat : Clean (bytes "@") := List.all_iff_forall_prop.1 (by decide)
  have htags : Clean (if s.haveLabeledResponse then
      if call.extraTags.isEmpty then bytes "@label=" ++ s.nextLabel ++ bytes " "
      else bytes "@label=" ++ s.nextLabel ++ bytes ";" ++ call.extraTags ++ bytes " "
    else if call.extraTags.isEmpty then [] else bytes "@" ++ call.extraTags ++ bytes " ") := by
    split_ifs
    · exact (hlabel.append (clean_nextLabel s)).append hspace
    · exact (((hlabel.append (clean_nextLabel s)).append hsemicolon).append h).append hspace
    · intro c hc
      cases hc
    · exact (hat.append h).append hspace
  unfold SendCall.front
  split
  · intro c hc
    cases hc
  · exact htags

/-- A command without tags is one line where its first line ends with it or is cut behind it. -/
theorem oneLine_cmdBuf_iff (htext : (0 : UInt8) ∉ text) (hend : eol <:+ text) :
    OneLine (cmdBuf text) ↔ firstLine text = min text.length 1538 ∧ text.length ≠ 1539 := by
  by_cases hlen : text.length = 1539
  · rw [cmdBuf_terminated hlen]
    constructor
    · intro hline
      exact absurd (show (0 : UInt8) ∈ text.take 1538 ++ [0] by simp) hline.noNul
    · rintro ⟨-, hne⟩
      exact absurd hlen hne
  · rw [cmdBuf_eq_take hlen, oneLine_iff (not_mem_take htext), take_oneLine_iff hend]
    exact ⟨fun hfirst => ⟨hfirst, hlen⟩, fun h => h.1⟩

/-- A command with tags is cut twice: in its own buffer, and behind the tags. -/
theorem oneLine_sendBuf_iff {front : Bytes} (hfront : Clean front) (htext : (0 : UInt8) ∉ text) (hend : eol <:+ text) :
    OneLine (sendBuf (front ++ cString (cmdBuf text))) ↔
      firstLine text = min text.length (min 1538 (1599 - front.length)) := by
  have hblock : sendBuf (front ++ cString (cmdBuf text)) =
      front.take 1599 ++ text.take (min 1538 (1599 - front.length)) := by
    rw [sendBuf_eq_take, cString_cmdBuf htext, List.take_append, List.take_take, Nat.min_comm]
  have hclean : ∀ c ∈ front.take 1599, c ≠ 0 ∧ c ≠ 10 ∧ c ≠ 13 := fun c hc =>
    hfront c (List.take_subset _ _ hc)
  have hnul : (0 : UInt8) ∉ front.take 1599 ++ text.take (min 1538 (1599 - front.length)) := by
    intro hmem
    rcases List.mem_append.1 hmem with hmem | hmem
    · exact (hclean 0 hmem).1 rfl
    · exact not_mem_take htext hmem
  rw [hblock, oneLine_iff hnul, ended_append_iff fun c hc => (hclean c hc).2, take_oneLine_iff hend]

/-- **One line a block.**  The block a call hands to `tcp_send_len` is one line exactly when the text ends with its first
line or is cut behind it, and the terminator of the buffer is not taken for its last byte. -/
theorem blocks_oneLine_iff (call : SendCall) (s : Server) (now : Int) (text : Bytes) (hargs : Clean call.extraTags)
    (htext : (0 : UInt8) ∉ text) (hend : eol <:+ text) :
    (∀ block ∈ call.blocks s now text, OneLine block) ↔ call.Fits s text := by
  rw [blocks_eq, List.forall_mem_singleton]
  unfold SendCall.Fits SendCall.room
  split_ifs with hfront
  · rw [oneLine_cmdBuf_iff htext hend, hfront]
    simp
  · rw [oneLine_sendBuf_iff (clean_front hargs s) htext hend]
    simp [hfront]

theorem blocks_oneLine_join :
    (∀ block ∈ SendCall.labeled.blocks { haveLabeledResponse := true } 0 (bytes "JOIN #c\r\n"), OneLine block) ↔
      SendCall.labeled.Fits { haveLabeledResponse := true } (bytes "JOIN #c\r\n") :=
  blocks_oneLine_iff .labeled { haveLabeledResponse := true } 0 (bytes "JOIN #c\r\n") (fun c hc => by cases hc) (by decide)
    (by decide)

/-- A text of one line fits where there is room for it. -/
theorem fits_iff_length_le (h : firstLine text = text.length) : call.Fits s text ↔ text.length ≤ call.room s := by
  have hroom : call.room s ≤ 1538 := Nat.min_le_left _ _
  unfold SendCall.Fits
  rw [h]
  constructor
  · rintro ⟨hmin, -⟩
    omega
  · intro hle
    exact ⟨(Nat.min_eq_left hle).symm, fun _ => by omega⟩

end Blocks

/-- A message of so many letters. -/
def longMessage (n : Nat) : Bytes := bytes "PRIVMSG #c :" ++ List.replicate n 97 ++ eol

theorem length_longMessage (n : Nat) : (longMessage n).length = n + 14 := by
  rw [longMessage, List.length_append, List.length_append, List.length_replicate]
  show 12 + n + 2 = n + 14
  omega

theorem not_mem_longMessage {n : Nat} : (0 : UInt8) ∉ longMessage n := by
  intro h
  rcases List.mem_append.1 h with h | h
  · rcases List.mem_append.1 h with h | h
    · revert h
      decide
    · cases List.eq_of_mem_replicate h
  · revert h
    decide

theorem firstLine_longMessage (n : Nat) : firstLine (longMessage n) = n + 14 := by
  have hline : ¬ eol <:+: bytes "PRIVMSG #c :" ++ List.replicate n 97 := by
    intro hin
    rcases List.mem_append.1 (hin.subset (show (10 : UInt8) ∈ eol by decide)) with h | h
    · revert h
      decide
    · cases List.eq_of_mem_replicate h
  have hlen := length_longMessage n
  rw [longMessage, List.length_append] at hlen
  have hfirst := firstLine_append [] hline
  rw [List.append_nil] at hfirst
  exact hfirst.trans hlen

/-- A text of 1539 bytes passes the check of its length, and its last byte is sent as a NUL; a longer one is sent without
its line end. -/
theorem terminator_sent :
    let text := longMessage 1525
    (0 : UInt8) ∉ text ∧ eol <:+ text ∧ SendCall.sendf.blocks {} 0 text = [text.take 1538 ++ [0]] ∧
      (¬ ∀ block ∈ SendCall.sendf.blocks {} 0 text, OneLine block) ∧
      ¬ ∀ block ∈ SendCall.sendf.blocks {} 0 (longMessage 1526), OneLine block := by
  intro text
  have hfront : SendCall.sendf.front {} = [] := rfl
  have hblock : cmdBuf text = text.take 1538 ++ [0] := cmdBuf_terminated (length_longMessage 1525)
  refine ⟨not_mem_longMessage, ⟨_, rfl⟩, ?_, ?_, ?_⟩
  · rw [blocks_eq, if_pos hfront, hblock]
  · rw [blocks_eq, if_pos hfront, hblock, List.forall_mem_singleton]
    intro hline
    apply hline.noNul
    simp
  · rw [blocks_eq, if_pos hfront, List.forall_mem_singleton, oneLine_cmdBuf_iff not_mem_longMessage ⟨_, rfl⟩,
      firstLine_longMessage, length_longMessage]
    omega

end PoxChat.Outbound
