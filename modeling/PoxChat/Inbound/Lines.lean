import PoxChat.Lib.Table
import PoxChat.Outbound.Say

/-!
# Lines and their tags

Model of `escape_tag_value`, `unescape_tag_value` and `handle_message_tags` of `proto-irc.c`, of the head of
`irc_inline`, which takes the tags off a line, and of `process_data_init`, which splits what is left into words.

* Lines are byte strings as they are read: `readLine` is what `server_read` makes of the bytes sent as one line.
* `allTags` is the hash table `all_tags`; `times` are the values handed to `handle_message_tag_time`.
* Lines are UTF-8: a character that is cut short at the end of the line ends with it.

Principal results: `unescape_escape` — a tag value survives; `unescape_eq_self_iff` — when it survives without
having been escaped; `wordsFrom_space`, `wordsFrom_last` — the words of a line, one after the other.
-/

set_option autoImplicit false

namespace PoxChat.Inbound

open Lib
open Outbound (Bytes bytes cString utf8Skip)

/-! ## Reading -/

/-- The line `server_read` hands on: CR is skipped, LF ends the line, and what has no LF is not a line. -/
def readLine (sent : Bytes) : Option Bytes :=
  if 10 ∈ sent then some ((sent.takeWhile (· ≠ 10)).filter (· ≠ 13)) else none

/-! ## Tag values -/

/-- The cases of `escape_tag_value`. -/
def escapeByte (c : UInt8) : Bytes :=
  if c = 59 then [92, 58]         -- ;  \:
  else if c = 32 then [92, 115]   --    \s
  else if c = 92 then [92, 92]    -- \  \\
  else if c = 13 then [92, 114]   -- CR \r
  else if c = 10 then [92, 110]   -- LF \n
  else [c]

/-- `escape_tag_value`. -/
def escapeTagValue (value : Bytes) : Bytes := value.flatMap escapeByte

/-- The cases of `unescape_tag_value`, for the byte after a backslash. -/
def unescapeByte (c : UInt8) : Option UInt8 :=
  if c = 58 then some 59
  else if c = 115 then some 32
  else if c = 92 then some 92
  else if c = 114 then some 13
  else if c = 110 then some 10
  else none

/-- `unescape_tag_value`: an unknown escape and a last backslash stand for themselves. -/
def unescapeTagValue : Bytes → Bytes
  | [] => []
  | [c] => [c]
  | c :: d :: rest =>
    if c = 92 then
      match unescapeByte d with
      | some e => e :: unescapeTagValue rest
      | none => 92 :: d :: unescapeTagValue rest
    else c :: unescapeTagValue (d :: rest)

example : unescapeTagValue (bytes "a\\:b\\sc\\x\\") = bytes "a;b c\\x\\" := by decide

/-! ## Tags -/

/-- The capabilities `handle_message_tags` looks at. -/
structure Caps where
  haveMessageTags : Bool := true
  haveBatch : Bool := true
  haveLabeledResponse : Bool := false
  haveAccountTag : Bool := false
  haveIdmsg : Bool := false
  haveServerTime : Bool := false

structure TagsData where
  allTags : Option (Table Bytes Bytes) := none
  account : Option Bytes := none
  batchId : Option Bytes := none
  msgid : Option Bytes := none
  label : Option Bytes := none
  oper : Option Bytes := none
  identified : Bool := false
  times : List Bytes := []

def tagKey (tag : Bytes) : Bytes := tag.takeWhile (· ≠ 61)

/-- The value of a tag, empty where it has none. -/
def tagValue (tag : Bytes) : Bytes := unescapeTagValue (tag.dropWhile (· ≠ 61)).tail

/-- The body of the loop of `handle_message_tags`. -/
def handleTag (caps : Caps) (t : TagsData) (tag : Bytes) : TagsData where
  allTags := t.allTags.map (·.put (tagKey tag) (tagValue tag))
  oper := if tagKey tag = bytes "draft/oper" then some (tagValue tag) else t.oper
  account :=
    if tagKey tag ≠ bytes "draft/oper" ∧ caps.haveAccountTag = true ∧ tagKey tag = bytes "account" then
      some (tagValue tag)
    else t.account
  identified := t.identified || (caps.haveIdmsg && tagKey tag == bytes "solanum.chat/identified")
  times := if caps.haveServerTime = true ∧ tagKey tag = bytes "time" then t.times ++ [tagValue tag] else t.times
  batchId := if tagKey tag = bytes "batch" ∧ caps.haveBatch = true then some (tagValue tag) else t.batchId
  msgid := if caps.haveMessageTags = true ∧ tagKey tag = bytes "msgid" then some (tagValue tag) else t.msgid
  label := if caps.haveLabeledResponse = true ∧ tagKey tag = bytes "label" then some (tagValue tag) else t.label

/-- `g_strsplit (tags, ";", 0)`. -/
def splitTags (tags : Bytes) : List Bytes := if tags.isEmpty then [] else tags.splitOn 59

/-- `handle_message_tags`. -/
def handleMessageTags (caps : Caps) (tags : Bytes) : TagsData :=
  (splitTags tags).foldl (handleTag caps)
    { allTags := if caps.haveMessageTags || caps.haveBatch then some [] else none }

/-- The head of `irc_inline`: the tags of a line and the rest of it. -/
def takeTags (caps : Caps) (buf : Bytes) : Option (TagsData × Bytes) :=
  match buf with
  | [] => some ({}, [])
  | c :: tags =>
    if c = 64 then
      if 32 ∈ tags then
        some (handleMessageTags caps (tags.takeWhile (· ≠ 32)), (tags.dropWhile (· ≠ 32)).tail)
      else none
    else some ({}, buf)

/-! ## Words -/

def PDIWORDS : Nat := 32

/-- The loop of `process_data_init` without quotes, from the word `word` on, of which `word` has been read;
`skip` bytes belong to the character before. -/
def wordsFrom (word eol : Bytes) : Nat → Bool → Bytes → List (Bytes × Bytes)
  | _, _, [] => [(word, eol)]
  | skip + 1, _, c :: cmd => wordsFrom (word ++ [c]) eol skip false cmd
  | 0, afterSpace, c :: cmd =>
    if c = 32 then
      if afterSpace then wordsFrom word eol 0 true cmd else (word, eol) :: wordsFrom [] cmd 0 true cmd
    else wordsFrom (word ++ [c]) eol (utf8Skip c - 1) false cmd

/-- `process_data_init`: the words from the first on, each with the text from it to the end of the line. -/
def processDataInit (cmd : Bytes) : List (Bytes × Bytes) := (wordsFrom [] cmd 0 false cmd).take (PDIWORDS - 1)

example : processDataInit (bytes "a  bc d") =
    [(bytes "a", bytes "a  bc d"), (bytes "bc", bytes " bc d"), (bytes "d", bytes "d")] := by decide

/-! ## Escaping -/

theorem unescape_cons {c : UInt8} (hc : c ≠ 92) (rest : Bytes) :
    unescapeTagValue (c :: rest) = c :: unescapeTagValue rest := by
  cases rest with
  | nil => rfl
  | cons d rest => rw [unescapeTagValue, if_neg hc]

theorem unescape_pair {d e : UInt8} (hd : unescapeByte d = some e) (rest : Bytes) :
    unescapeTagValue (92 :: d :: rest) = e :: unescapeTagValue rest := by
  rw [unescapeTagValue, if_pos rfl, hd]

theorem unescape_escapeByte (c : UInt8) (rest : Bytes) :
    unescapeTagValue (escapeByte c ++ rest) = c :: unescapeTagValue rest := by
  unfold escapeByte
  split_ifs with h59 h32 h92 h13 h10
  · subst h59
    exact unescape_pair rfl rest
  · subst h32
    exact unescape_pair rfl rest
  · subst h92
    exact unescape_pair rfl rest
  · subst h13
    exact unescape_pair rfl rest
  · subst h10
    exact unescape_pair rfl rest
  · exact unescape_cons h92 rest

/-- **A tag value survives**: what was escaped is read back. -/
theorem unescape_escape (value : Bytes) : unescapeTagValue (escapeTagValue value) = value := by
  unfold escapeTagValue
  induction value with
  | nil => rfl
  | cons c value ih => rw [List.flatMap_cons, unescape_escapeByte, ih]

/-- The bytes that end a tag, the tags or the line. -/
def isSeparator (c : UInt8) : Bool := c == 59 || c == 32 || c == 13 || c == 10

theorem not_isSeparator_of_mem_escape {value : Bytes} {c : UInt8} (h : c ∈ escapeTagValue value) :
    isSeparator c = false := by
  obtain ⟨d, -, hd⟩ := List.mem_flatMap.1 h
  unfold escapeByte at hd
  split_ifs at hd with h59 h32 h92 h13 h10
  all_goals simp only [List.mem_cons, List.not_mem_nil, or_false] at hd
  · rcases hd with rfl | rfl <;> rfl
  · rcases hd with rfl | rfl <;> rfl
  · rcases hd with rfl | rfl <;> rfl
  · rcases hd with rfl | rfl <;> rfl
  · rcases hd with rfl | rfl <;> rfl
  · subst hd
    simp [isSeparator, h59, h32, h13, h10]

/-- A backslash of the value starts an escape. -/
def hasEscape : Bytes → Bool
  | [] => false
  | c :: rest => (c == 92 && (rest.head?.bind unescapeByte).isSome) || hasEscape rest

theorem length_unescape_le (value : Bytes) : (unescapeTagValue value).length ≤ value.length := by
  induction value using unescapeTagValue.induct with
  | case1 => simp [unescapeTagValue]
  | case2 c => simp [unescapeTagValue]
  | case3 d rest e he ih =>
    rw [unescape_pair he]
    simp only [List.length_cons]
    omega
  | case4 d rest hd ih =>
    rw [unescapeTagValue, if_pos rfl, hd]
    simp only [List.length_cons]
    omega
  | case5 c d rest hc ih =>
    rw [unescape_cons hc]
    simp only [List.length_cons] at ih ⊢
    omega

/-- **A value that was not escaped** is read back exactly when none of its backslashes starts an escape. -/
theorem unescape_eq_self_iff (value : Bytes) : unescapeTagValue value = value ↔ hasEscape value = false := by
  induction value using unescapeTagValue.induct with
  | case1 => simp [unescapeTagValue, hasEscape]
  | case2 c => simp [unescapeTagValue, hasEscape]
  | case3 d rest e he ih =>
    have hle := length_unescape_le rest
    rw [unescape_pair he]
    refine iff_of_false (fun h => ?_) (by simp [hasEscape, he])
    have hlen := congrArg List.length h
    simp only [List.length_cons] at hlen
    omega
  | case4 d rest hd ih =>
    have hd92 : d ≠ 92 := by
      rintro rfl
      cases hd
    rw [unescapeTagValue, if_pos rfl, hd]
    simp [hasEscape, hd, hd92, ih]
  | case5 c d rest hc ih =>
    rw [unescape_cons hc, List.cons_inj_right, ih]
    simp [hasEscape, hc]

/-- The tags end at the first space. -/
theorem takeTags_block (caps : Caps) {tags : Bytes} (h32 : 32 ∉ tags) (rest : Bytes) :
    takeTags caps (64 :: (tags ++ 32 :: rest)) = some (handleMessageTags caps tags, rest) := by
  have hwhile : ∀ c ∈ tags, decide (c ≠ 32) = true := by
    intro c hc
    have : c ≠ 32 := fun e => h32 (e ▸ hc)
    simpa using this
  have htake : (tags ++ 32 :: rest).takeWhile (· ≠ 32) = tags := by
    rw [List.takeWhile_append_of_pos hwhile]
    simp
  have hdrop : (tags ++ 32 :: rest).dropWhile (· ≠ 32) = 32 :: rest := by
    rw [List.dropWhile_append_of_pos hwhile]
    simp
  rw [takeTags, if_pos rfl, if_pos (by simp), htake, hdrop]
  rfl

/-! ## The words of a line -/

/-- Whole characters, none of them a space; `skip` bytes belong to the character before. -/
def wholeChars : Nat → Bytes → Bool
  | 0, [] => true
  | _ + 1, [] => false
  | skip + 1, _ :: rest => wholeChars skip rest
  | 0, c :: rest => c != 32 && wholeChars (utf8Skip c - 1) rest

/-- A word ends at the space after it. -/
theorem wordsFrom_space (w : Bytes) (cmd : Bytes) :
    ∀ (word eol : Bytes) (skip : Nat) (afterSpace : Bool), wholeChars skip w = true →
      (w = [] → afterSpace = false) →
      wordsFrom word eol skip afterSpace (w ++ 32 :: cmd) = (word ++ w, eol) :: wordsFrom [] cmd 0 true cmd := by
  induction w with
  | nil =>
    intro word eol skip afterSpace hwhole hspace
    cases skip with
    | zero => simp [wordsFrom, hspace rfl]
    | succ skip => cases hwhole
  | cons c w ih =>
    intro word eol skip afterSpace hwhole _
    cases skip with
    | zero =>
      simp only [wholeChars, Bool.and_eq_true, bne_iff_ne] at hwhole
      rw [List.cons_append, wordsFrom, if_neg hwhole.1, ih _ _ _ _ hwhole.2 (fun _ => rfl)]
      simp
    | succ skip =>
      rw [List.cons_append, wordsFrom, ih _ _ _ _ hwhole (fun _ => rfl)]
      simp

/-- The last word ends with the line. -/
theorem wordsFrom_last (w : Bytes) :
    ∀ (word eol : Bytes) (skip : Nat) (afterSpace : Bool), wholeChars skip w = true →
      wordsFrom word eol skip afterSpace w = [(word ++ w, eol)] := by
  induction w with
  | nil => intro word eol skip afterSpace _; simp [wordsFrom]
  | cons c w ih =>
    intro word eol skip afterSpace hwhole
    cases skip with
    | zero =>
      simp only [wholeChars, Bool.and_eq_true, bne_iff_ne] at hwhole
      rw [wordsFrom, if_neg hwhole.1, ih _ _ _ _ hwhole.2]
      simp
    | succ skip =>
      rw [wordsFrom, ih _ _ _ _ hwhole]
      simp

/-- How the text from a word on begins: spaces, the word, and the end or a space and the words after it. -/
theorem wordsFrom_head (cmd : Bytes) :
    ∀ (word eol : Bytes) (skip : Nat) (afterSpace : Bool), ∃ n more rest words,
      wordsFrom word eol skip afterSpace cmd = (word ++ more, eol) :: words ∧
      cmd = List.replicate n 32 ++ more ++ rest ∧ (afterSpace = true ∧ skip = 0 ∨ n = 0) ∧
      (words = [] ∧ rest = [] ∨ ∃ r, rest = 32 :: r ∧ words = wordsFrom [] r 0 true r ∧
        wholeChars skip more = true ∧ (afterSpace = true → more ≠ [])) := by
  induction cmd with
  | nil =>
    intro word eol skip afterSpace
    exact ⟨0, [], [], [], by simp [wordsFrom], rfl, .inr rfl, .inl ⟨rfl, rfl⟩⟩
  | cons c cmd ih =>
    intro word eol skip afterSpace
    have hmore : ∀ skip, ∃ more rest words,
        wordsFrom (word ++ [c]) eol skip false cmd = (word ++ c :: more, eol) :: words ∧ cmd = more ++ rest ∧
        (words = [] ∧ rest = [] ∨ ∃ r, rest = 32 :: r ∧ words = wordsFrom [] r 0 true r ∧
          wholeChars skip more = true) := by
      intro skip
      obtain ⟨n, more, rest, words, hwords, hcmd, hn, hend⟩ := ih (word ++ [c]) eol skip false
      have hzero : n = 0 := by simpa using hn
      subst hzero
      refine ⟨more, rest, words, by simpa using hwords, by simpa using hcmd, hend.imp_right ?_⟩
      rintro ⟨r, hrest, htail, hwhole, -⟩
      exact ⟨r, hrest, htail, hwhole⟩
    cases skip with
    | zero =>
      rw [wordsFrom]
      by_cases hc : c = 32
      · subst hc
        rw [if_pos rfl]
        cases afterSpace with
        | true =>
          obtain ⟨n, more, rest, words, hwords, hcmd, -, hend⟩ := ih word eol 0 true
          refine ⟨n + 1, more, rest, words, hwords, ?_, .inl ⟨rfl, rfl⟩, hend⟩
          rw [hcmd, List.replicate_succ]
          rfl
        | false => exact ⟨0, [], 32 :: cmd, _, by simp, rfl, .inr rfl, .inr ⟨cmd, rfl, rfl, rfl, nofun⟩⟩
      · rw [if_neg hc]
        obtain ⟨more, rest, words, hwords, hcmd, hend⟩ := hmore (utf8Skip c - 1)
        refine ⟨0, c :: more, rest, words, hwords, by simp [hcmd], .inr rfl, hend.imp_right ?_⟩
        rintro ⟨r, hrest, htail, hwhole⟩
        exact ⟨r, hrest, htail, by simp [wholeChars, hc, hwhole], nofun⟩
    | succ skip =>
      obtain ⟨more, rest, words, hwords, hcmd, hend⟩ := hmore skip
      refine ⟨0, c :: more, rest, words, hwords, by simp [hcmd], .inr rfl, hend.imp_right ?_⟩
      rintro ⟨r, hrest, htail, hwhole⟩
      exact ⟨r, hrest, htail, hwhole, nofun⟩

/-- Whatever follows, the word that has been started is the next one. -/
theorem wordsFrom_front (cmd word eol : Bytes) (skip : Nat) (afterSpace : Bool) :
    ∃ more words, wordsFrom word eol skip afterSpace cmd = (word ++ more, eol) :: words := by
  obtain ⟨-, more, -, words, hwords, -⟩ := wordsFrom_head cmd word eol skip afterSpace
  exact ⟨more, words, hwords⟩

/-- Two texts that begin with whole words and a space have these in common. -/
theorem wholeChars_append_inj (a : Bytes) :
    ∀ {b r s : Bytes} (skip : Nat), wholeChars skip a = true → wholeChars skip b = true →
      a ++ 32 :: r = b ++ 32 :: s → a = b ∧ r = s := by
  induction a with
  | nil =>
    intro b r s skip ha hb h
    cases skip with
    | succ skip => cases ha
    | zero =>
      cases b with
      | nil => simpa using h
      | cons c b =>
        obtain ⟨rfl, -⟩ : 32 = c ∧ _ := by simpa using h
        simp [wholeChars] at hb
  | cons c a ih =>
    intro b r s skip ha hb h
    cases b with
    | nil =>
      obtain ⟨rfl, -⟩ : c = 32 ∧ _ := by simpa using h
      cases skip with
      | zero => simp [wholeChars] at ha
      | succ skip => cases hb
    | cons d b =>
      obtain ⟨rfl, htail⟩ := List.cons.inj h
      cases skip with
      | zero =>
        simp only [wholeChars, Bool.and_eq_true] at ha hb
        obtain ⟨rfl, rfl⟩ := ih _ ha.2 hb.2 htail
        exact ⟨rfl, rfl⟩
      | succ skip =>
        obtain ⟨rfl, rfl⟩ := ih _ ha hb htail
        exact ⟨rfl, rfl⟩

end PoxChat.Inbound
