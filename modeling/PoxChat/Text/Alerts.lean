import PoxChat.Cap.Negotiation
import PoxChat.Outbound.Pieces
import PoxChat.Text.Match
import PoxChat.Text.Strip

/-!
# Highlights

`alert_match_text` looks at each word of a text, and `alert_match_word` at each mask of a list; both write terminators into
the buffer they are given and take them back.

* `alertMatchWord`, `alertMatchText` — the two scans, on buffers with their terminators.
* `calls` — the pairs of a word and a mask in the order in which they are looked at, empty ones among them.
* `alert_exact_iff` — when the answer is the one that the words and the masks give, and the buffers are as before.
-/

set_option autoImplicit false

namespace PoxChat.Text

open Lib Outbound

/-! ## A list of masks -/

/-- `match` of a word that was cut out of a text: `behind` is the text behind its terminator, and none where the word ends
the text. -/
def matchInText (mask word : Bytes) (behind : Option Bytes) : Option Bool :=
  match matchMask mask word with
  | .returns r => some r
  | .overreads bm =>
    match behind with
    | none => none
    | some [] => some false
    | some (c :: rest) =>
      match gotStar bm (c :: rest) with
      | .returns r => some r
      | .overreads _ => none

/-- `g_strchug`: the end of the string is moved to its front, and its terminator with it. -/
def gStrchug (buf : Bytes) : Bytes :=
  let start := (cString buf).dropWhile Cap.gAsciiIsspace
  start ++ 0 :: buf.drop (start.length + 1)

def endsMask (c : UInt8) : Bool := c == 0 || c == space || c == comma

/-- The loop of `alert_match_word`: `front` is before `masks`, `seg` from there to `p`. -/
def alertMatchWordFrom (word : Bytes) (behind : Option Bytes) (front seg : Bytes) : Bytes → Option (Bool × Bytes)
  | [] => none
  | endchar :: rest =>
    if endsMask endchar then
      let chugged := gStrchug (seg ++ 0 :: rest)
      let masks := chugged.set seg.length endchar
      match matchInText (cString chugged) word behind with
      | none => none
      | some true => some (true, front ++ masks)
      | some false =>
        if endchar = 0 then some (false, front ++ masks)
        else alertMatchWordFrom word behind (front ++ masks.take (seg.length + 1)) [] rest
    else alertMatchWordFrom word behind front (seg ++ [endchar]) rest

/-- `alert_match_word`: the answer, and the list of masks afterwards. -/
def alertMatchWord (word : Bytes) (behind : Option Bytes) (masks : Bytes) : Option (Bool × Bytes) :=
  if masks.headD 0 = 0 then some (false, masks) else alertMatchWordFrom word behind [] [] masks

/-! ## A text -/

/-- What RFC 1459 calls special. -/
def isSpecial (c : UInt8) : Bool := c ∈ ([45, 91, 93, 92, 96, 94, 123, 125, 95, 124] : Bytes)

/-- The text behind a terminator that was written over it, up to the terminator of the text. -/
def textBehind (buf : Bytes) : Option Bytes := if buf.isEmpty then none else some (cString buf)

/-- An answer, and the two buffers afterwards. -/
structure Alert where
  found : Bool
  text : Bytes
  masks : Bytes

/-- The loop of `alert_match_text`, where `isalpha` is `g_unichar_isalpha` of a character: `front` is before `text`, `word`
from there to `p`. -/
def alertMatchTextFrom (isalpha : Bytes → Bool) : Nat → Bytes → Bytes → Bytes → Bytes → Option Alert
  | 0, _, _, _, _ => none
  | _, _, _, _, [] => none
  | steps + 1, front, word, masks, c :: rest =>
    if isDigit c || isSpecial c then alertMatchTextFrom isalpha steps front (word ++ [c]) masks rest
    else
      let size := utf8Skip c
      if c == 0 || c == space || c == comma || !isalpha ((c :: rest).take size) then
        let p := front.length + word.length
        let text := (front ++ word ++ c :: rest).set p 0
        match alertMatchWord (cString (text.drop front.length)) (textBehind (text.drop (p + 1))) masks with
        | none => none
        | some (true, masks) => some ⟨true, text.set p c, masks⟩
        | some (false, masks) =>
          if c = 0 then some ⟨false, text.set p c, masks⟩
          else alertMatchTextFrom isalpha steps ((text.set p c).take (p + size)) [] masks ((c :: rest).drop size)
      else alertMatchTextFrom isalpha steps front (word ++ (c :: rest).take size) masks ((c :: rest).drop size)

/-- `alert_match_text`. -/
def alertMatchText (isalpha : Bytes → Bool) (text masks : Bytes) : Option Alert :=
  if masks.headD 0 = 0 then some ⟨false, text, masks⟩
  else alertMatchTextFrom isalpha text.length [] [] masks text

/-! ## What is asked for -/

/-- The characters of a text: each is a byte and the continuation bytes behind it. -/
def characters : Bytes → List Bytes
  | [] => []
  | b :: text =>
    match characters text with
    | [] => [[b]]
    | ch :: chs => if utf8Tail (ch.headD 0) then (b :: ch) :: chs else [b] :: ch :: chs

/-- A letter, a digit or a special character. -/
def isWordChar (isalpha : Bytes → Bool) (ch : Bytes) : Bool :=
  ch.head?.any (fun c => isDigit c || isSpecial c) || isalpha ch

/-- The runs of such characters, the empty ones between two others among them. -/
def textWords (isalpha : Bytes → Bool) (text : Bytes) : List Bytes :=
  ((characters text).splitOnP (!isWordChar isalpha ·)).map List.flatten

def maskList (masks : Bytes) : List Bytes := masks.splitOnP fun c => c == space || c == comma

/-- Some word that is not empty matches some mask that is not empty. -/
def Highlights (isalpha : Bytes → Bool) (text masks : Bytes) : Prop :=
  ∃ word ∈ textWords isalpha text, word ≠ [] ∧ ∃ mask ∈ maskList masks, mask ≠ [] ∧ Matches mask word

/-- The answer is the one asked for, and the buffers are as before. -/
def AlertExact (isalpha : Bytes → Bool) (text masks : Bytes) : Prop :=
  ∃ found, alertMatchText isalpha (text ++ [0]) (masks ++ [0]) = some ⟨found, text ++ [0], masks ++ [0]⟩ ∧
    (found = true ↔ Highlights isalpha text masks)

/-! ## The calls of `match` -/

/-- A word of a text and a mask of a list. -/
structure Call where
  word : Bytes
  behind : Option Bytes
  mask : Bytes

namespace Call

def answer (c : Call) : Option Bool := matchInText c.mask c.word c.behind

/-- The word matches the mask. -/
def Hits (c : Call) : Prop := Matches c.mask c.word

/-- The word is used up, and the text behind it matches the rest of the mask. -/
def Misled (c : Call) : Prop :=
  ∃ ch rest behind, Exhausts SameLetter (tokens c.mask) c.word ch rest ∧ c.behind = some behind ∧ behind ≠ [] ∧
    Glob SameLetter (.many :: .lit ch :: rest) behind

/-- The word is used up, and so is the text behind it, if there is any. -/
def Leaves (c : Call) : Prop :=
  ∃ ch rest, Exhausts SameLetter (tokens c.mask) c.word ch rest ∧ (c.behind = none ∨ ∃ behind, c.behind = some behind ∧
    behind ≠ [] ∧ ∃ ch' rest', Exhausts SameLetter (.many :: .lit ch :: rest) behind ch' rest')

/-- The mask starts with white space, which `g_strchug` takes away from the list. -/
def Spoils (c : Call) : Prop := c.mask.head?.any Cap.gAsciiIsspace = true

/-- What a call of `match` answers: it leaves the text, or it finds the mask. -/
theorem answer_spec (c : Call) : (c.answer = none ↔ c.Leaves) ∧ (c.answer = some true ↔ c.Hits ∨ c.Misled) := by
  have h := matchMask_settles c.mask c.word
  unfold answer matchInText
  cases hend : matchMask c.mask c.word with
  | returns r =>
    rw [hend] at h
    refine ⟨iff_of_false (by simp) fun ⟨ch, rest, hex, _⟩ => h.2 ch rest hex, ?_⟩
    have hmisled : ¬ c.Misled := fun ⟨ch, rest, _, hex, _⟩ => h.2 ch rest hex
    rw [or_iff_left hmisled, Option.some.injEq]
    exact h.1
  | overreads bm =>
    rw [hend] at h
    obtain ⟨ch, rest, htokens, hex⟩ := h
    have hhits : ¬ c.Hits := hex.not_glob
    rw [or_iff_right hhits]
    cases hbehind : c.behind with
    | none =>
      refine ⟨iff_of_true rfl ⟨ch, rest, hex, .inl hbehind⟩, iff_of_false (by simp) ?_⟩
      rintro ⟨-, -, behind, -, heq, -, -⟩
      rw [hbehind] at heq
      cases heq
    | some behind =>
      cases behind with
      | nil =>
        refine ⟨iff_of_false (by simp) ?_, iff_of_false (by simp) ?_⟩
        · rintro ⟨-, -, -, hnone | ⟨behind, heq, hne, -⟩⟩
          · rw [hbehind] at hnone
            cases hnone
          · exact hne (Option.some.inj (heq.symm.trans hbehind))
        · rintro ⟨-, -, behind, -, heq, hne, -⟩
          exact hne (Option.some.inj (heq.symm.trans hbehind))
      | cons b behind =>
        have hmore := gotStar_settles bm (b :: behind)
        rw [htokens] at hmore
        have hleaves : c.Leaves ↔ ∃ ch' rest', Exhausts SameLetter (.many :: .lit ch :: rest) (b :: behind) ch' rest' := by
          constructor
          · rintro ⟨ch₁, rest₁, hex₁, hnone | ⟨behind₁, heq, -, hmore⟩⟩
            · rw [hbehind] at hnone
              cases hnone
            · obtain ⟨rfl, rfl⟩ := hex.unique hex₁
              rw [hbehind] at heq
              cases heq
              exact hmore
          · exact fun hmore => ⟨ch, rest, hex, .inr ⟨_, hbehind, by simp, hmore⟩⟩
        have hmisled : c.Misled ↔ Glob SameLetter (.many :: .lit ch :: rest) (b :: behind) := by
          constructor
          · rintro ⟨ch₁, rest₁, behind₁, hex₁, heq, -, hglob⟩
            obtain ⟨rfl, rfl⟩ := hex.unique hex₁
            rw [hbehind] at heq
            cases heq
            exact hglob
          · exact fun hglob => ⟨ch, rest, _, hex, hbehind, by simp, hglob⟩
        rw [hleaves, hmisled]
        dsimp only
        cases hend' : gotStar bm (b :: behind) with
        | returns r =>
          rw [hend'] at hmore
          refine ⟨iff_of_false (by simp) fun ⟨ch', rest', hex'⟩ => hmore.2 ch' rest' hex', ?_⟩
          rw [Option.some.injEq]
          exact hmore.1
        | overreads bm' =>
          rw [hend'] at hmore
          obtain ⟨ch', rest', -, hex'⟩ := hmore
          exact ⟨iff_of_true rfl ⟨ch', rest', hex'⟩, iff_of_false (by simp) hex'.not_glob⟩

end Call

/-- The first call that does not answer no is the answer of them all. -/
def runCalls : List Call → Option Bool
  | [] => some false
  | c :: cs =>
    match c.answer with
    | some false => runCalls cs
    | answer => answer

/-- A call that is reached takes white space away. -/
def Spoilt : List Call → Prop
  | [] => False
  | c :: cs => c.Spoils ∨ c.answer = some false ∧ Spoilt cs

theorem runCalls_append (cs cs' : List Call) : runCalls (cs ++ cs') =
    if runCalls cs = some false then runCalls cs' else runCalls cs := by
  induction cs with
  | nil => rfl
  | cons c cs ih =>
    rw [List.cons_append, runCalls, runCalls]
    cases c.answer with
    | none => rfl
    | some r =>
      cases r with
      | false => exact ih
      | true => rfl

theorem spoilt_append (cs cs' : List Call) :
    Spoilt (cs ++ cs') ↔ Spoilt cs ∨ runCalls cs = some false ∧ Spoilt cs' := by
  induction cs with
  | nil => simp [Spoilt, runCalls]
  | cons c cs ih =>
    rw [List.cons_append, Spoilt, Spoilt, runCalls, ih]
    cases c.answer with
    | none => simp
    | some r =>
      cases r with
      | false => simp [or_assoc]
      | true => simp

/-! ## The masks of a list, one after the other -/

section Masks

variable {seg rest : Bytes}

/-- Without white space at its front, a mask stays where it is. -/
theorem gStrchug_quiet (h : 0 ∉ seg) (hquiet : ¬ seg.head?.any Cap.gAsciiIsspace = true) :
    gStrchug (seg ++ 0 :: rest) = seg ++ 0 :: rest := by
  have hstart : seg.dropWhile Cap.gAsciiIsspace = seg := by
    cases seg with
    | nil => rfl
    | cons c seg => exact List.dropWhile_cons_of_neg hquiet
  rw [gStrchug, cString_append h, hstart]
  simp

/-- With it, there is one more terminator before the place of the old one. -/
theorem gStrchug_spoilt (h : 0 ∉ seg) (hspace : seg.head?.any Cap.gAsciiIsspace = true) (rest : Bytes) (e : UInt8) :
    ∃ front, front.length = seg.length ∧ 0 ∈ front ∧ (gStrchug (seg ++ 0 :: rest)).set seg.length e = front ++ e :: rest := by
  have hlen : (seg.dropWhile Cap.gAsciiIsspace).length < seg.length := by
    cases seg with
    | nil => cases hspace
    | cons c seg =>
      have hc : Cap.gAsciiIsspace c = true := hspace
      rw [List.dropWhile_cons_of_pos hc]
      exact Nat.lt_succ_of_le (List.dropWhile_suffix _).length_le
  rw [gStrchug, cString_append h]
  generalize seg.dropWhile Cap.gAsciiIsspace = start at hlen
  have hdrop : (seg ++ 0 :: rest).drop (start.length + 1) = seg.drop (start.length + 1) ++ 0 :: rest :=
    List.drop_append_of_le_length (by omega)
  refine ⟨start ++ 0 :: seg.drop (start.length + 1), ?_, by simp, ?_⟩
  · simp only [List.length_append, List.length_cons, List.length_drop]
    omega
  · have hfront : (start ++ 0 :: seg.drop (start.length + 1)).length = seg.length := by
      simp only [List.length_append, List.length_cons, List.length_drop]
      omega
    rw [hdrop, ← List.cons_append, ← List.append_assoc, ← hfront, List.set_append_right _ _ le_rfl, Nat.sub_self]
    rfl

/-- In both cases the buffer is as it was from `p` on, and loses no terminator before it. -/
theorem gStrchug_set (h : 0 ∉ seg) (rest : Bytes) (e : UInt8) :
    ∃ front, front.length = seg.length ∧ (gStrchug (seg ++ 0 :: rest)).set seg.length e = front ++ e :: rest := by
  by_cases hspace : seg.head?.any Cap.gAsciiIsspace = true
  · obtain ⟨front, hlen, -, hset⟩ := gStrchug_spoilt h hspace rest e
    exact ⟨front, hlen, hset⟩
  · refine ⟨seg, rfl, ?_⟩
    rw [gStrchug_quiet h hspace, List.set_append_right _ _ le_rfl, Nat.sub_self]
    rfl

theorem endsMask_false {c : UInt8} (h : ¬ endsMask c = true) : c ≠ 0 ∧ ¬ (c == space || c == comma) = true := by
  simp only [endsMask, Bool.or_eq_true, not_or] at h
  exact ⟨by simpa using h.1.1, by simp [h.1.2, h.2]⟩

variable {word front buf : Bytes} {behind : Option Bytes} {r : Bool}

/-- At the end of a mask the function returns, or goes on behind it. -/
theorem alertMatchWordFrom_end {kept : Bytes} {e : UInt8} (hend : endsMask e = true) (hlen : kept.length = seg.length)
    (hset : (gStrchug (seg ++ 0 :: rest)).set seg.length e = kept ++ e :: rest)
    (h : alertMatchWordFrom word behind front seg (e :: rest) = some (r, buf)) :
    buf = front ++ (kept ++ e :: rest) ∨ alertMatchWordFrom word behind (front ++ (kept ++ [e])) [] rest = some (r, buf) := by
  have htake : (kept ++ e :: rest).take (seg.length + 1) = kept ++ [e] := by
    rw [← hlen, List.take_length_add_append]
    rfl
  simp only [alertMatchWordFrom, hend, if_true, hset, htake] at h
  cases hanswer : matchInText (cString (gStrchug (seg ++ 0 :: rest))) word behind with
  | none =>
    rw [hanswer] at h
    cases h
  | some found =>
    rw [hanswer] at h
    cases found with
    | true =>
      cases h
      exact .inl rfl
    | false =>
      dsimp only at h
      split_ifs at h
      · cases h
        exact .inl rfl
      · exact .inr h

/-- Terminators are never taken out of a list. -/
theorem alertMatchWordFrom_count (h0 : 0 ∉ seg) (h : alertMatchWordFrom word behind front seg rest = some (r, buf)) :
    (front ++ rest).count 0 ≤ buf.count 0 := by
  induction rest generalizing front seg with
  | nil => cases h
  | cons endchar rest ih =>
    by_cases hend : endsMask endchar = true
    · obtain ⟨kept, hlen, hset⟩ := gStrchug_set h0 rest endchar
      have hcount : (front ++ endchar :: rest).count 0 ≤ (front ++ (kept ++ endchar :: rest)).count 0 := by
        simp only [List.count_append]
        omega
      rcases alertMatchWordFrom_end hend hlen hset h with rfl | h
      · exact hcount
      · have hle := ih List.not_mem_nil h
        simp only [List.append_assoc, List.cons_append, List.nil_append] at hle
        exact hcount.trans hle
    · have hne := (endsMask_false hend).1
      rw [alertMatchWordFrom, if_neg hend] at h
      have hle := ih (by simp [h0, hne.symm]) h
      rw [List.count_append, List.count_cons_of_ne hne, ← List.count_append]
      exact hle

/-- A mask that starts with white space leaves one more in it. -/
theorem alertMatchWordFrom_spoils {e : UInt8} (h0 : 0 ∉ seg) (hend : endsMask e = true)
    (hspace : seg.head?.any Cap.gAsciiIsspace = true)
    (h : alertMatchWordFrom word behind front seg (e :: rest) = some (r, buf)) :
    (front ++ e :: rest).count 0 < buf.count 0 := by
  obtain ⟨kept, hlen, hmem, hset⟩ := gStrchug_spoilt h0 hspace rest e
  have hkept := List.count_pos_iff.2 hmem
  have hcount : (front ++ e :: rest).count 0 < (front ++ (kept ++ e :: rest)).count 0 := by
    simp only [List.count_append]
    omega
  rcases alertMatchWordFrom_end hend hlen hset h with rfl | h
  · exact hcount
  · have hle := alertMatchWordFrom_count List.not_mem_nil h
    simp only [List.append_assoc, List.cons_append, List.nil_append] at hle
    exact Nat.lt_of_lt_of_le hcount hle

/-- Any other leaves it as it was. -/
theorem alertMatchWordFrom_quiet {e : UInt8} (h0 : 0 ∉ seg) (hend : endsMask e = true)
    (hquiet : ¬ seg.head?.any Cap.gAsciiIsspace = true) :
    alertMatchWordFrom word behind front seg (e :: rest) =
      match (Call.mk word behind seg).answer with
      | none => none
      | some true => some (true, front ++ (seg ++ e :: rest))
      | some false =>
        if e = 0 then some (false, front ++ (seg ++ e :: rest))
        else alertMatchWordFrom word behind (front ++ (seg ++ [e])) [] rest := by
  have hset : (seg ++ 0 :: rest).set seg.length e = seg ++ e :: rest := by
    rw [List.set_append_right _ _ le_rfl, Nat.sub_self]
    rfl
  have htake : (seg ++ e :: rest).take (seg.length + 1) = seg ++ [e] := by
    rw [List.take_length_add_append]
    rfl
  simp only [alertMatchWordFrom, hend, if_true, gStrchug_quiet h0 hquiet, hset, htake, cString_append h0]
  rfl

/-- The calls of `match` for a word. -/
def callsOf (word : Bytes) (behind : Option Bytes) (masks : List Bytes) : List Call := masks.map (⟨word, behind, ·⟩)

/-- The loop of `alert_match_word` is a run of its calls, and leaves the list as it was where none of them takes white
space away; else there is a terminator more in it. -/
theorem alertMatchWordFrom_run {masks : Bytes} (h0 : 0 ∉ seg ++ masks)
    (hseg : ∀ c ∈ seg, (c == space || c == comma) = false) :
    (¬ Spoilt (callsOf word behind (maskList (seg ++ masks))) →
      alertMatchWordFrom word behind front seg (masks ++ [0]) =
        (runCalls (callsOf word behind (maskList (seg ++ masks)))).map (·, front ++ seg ++ masks ++ [0])) ∧
    (Spoilt (callsOf word behind (maskList (seg ++ masks))) →
      ∀ r buf, alertMatchWordFrom word behind front seg (masks ++ [0]) = some (r, buf) →
        (front ++ masks ++ [0]).count 0 < buf.count 0) := by
  have hsep {c : UInt8} (hc : endsMask c = true) (hne : c ≠ 0) : (c == space || c == comma) = true := by
    simpa [endsMask, hne] using hc
  have h0seg : 0 ∉ seg := fun h => h0 (List.mem_append_left _ h)
  induction masks generalizing front seg with
  | nil =>
    have hlist : maskList (seg ++ []) = [seg] := by
      rw [List.append_nil]
      exact List.splitOnP_eq_singleton hseg
    simp only [hlist, callsOf, List.map_cons, List.map_nil, Spoilt, runCalls, and_false, or_false, List.nil_append]
    constructor
    · intro hquiet
      rw [alertMatchWordFrom_quiet h0seg rfl hquiet]
      cases (Call.mk word behind seg).answer with
      | none => rfl
      | some found => cases found <;> simp
    · intro hspace r buf h
      have hlt := alertMatchWordFrom_spoils h0seg rfl hspace h
      simpa using hlt
  | cons c masks ih =>
    have hc : c ≠ 0 := fun h => h0 (by simp [h])
    by_cases hend : endsMask c = true
    · have hlist : maskList (seg ++ c :: masks) = seg :: maskList masks :=
        List.splitOnP_append_cons_of_forall_mem hseg c (hsep hend hc) masks
      have hmasks : 0 ∉ [] ++ masks := fun h => h0 (by simp [List.nil_append] at h; simp [h])
      obtain ⟨hrun, hspoilt⟩ := @ih [] (front ++ (seg ++ [c])) hmasks (by simp) List.not_mem_nil
      rw [hlist]
      simp only [List.nil_append, callsOf, List.map_cons, Spoilt, runCalls, List.cons_append] at hrun hspoilt ⊢
      constructor
      · intro hquiet
        obtain ⟨hquiet, hrest⟩ := not_or.1 hquiet
        rw [alertMatchWordFrom_quiet h0seg hend hquiet]
        cases hanswer : (Call.mk word behind seg).answer with
        | none => rfl
        | some found =>
          cases found with
          | true => simp
          | false =>
            simp only [if_neg hc]
            rw [hrun fun h => hrest ⟨hanswer, h⟩]
            simp
      · intro hspace r buf h
        by_cases hquiet : seg.head?.any Cap.gAsciiIsspace = true
        · have hlt := alertMatchWordFrom_spoils h0seg hend hquiet h
          simpa using hlt
        · obtain ⟨hanswer, hrest⟩ := hspace.resolve_left hquiet
          rw [alertMatchWordFrom_quiet h0seg hend hquiet, hanswer] at h
          simp only [if_neg hc] at h
          have hlt := hspoilt hrest r buf h
          refine Nat.lt_of_le_of_lt ?_ hlt
          simp only [List.count_append, List.count_cons]
          omega
    · have hassoc : seg ++ c :: masks = (seg ++ [c]) ++ masks := by simp
      obtain ⟨hne, hnosep⟩ := endsMask_false hend
      have hseg' : ∀ x ∈ seg ++ [c], (x == space || x == comma) = false :=
        List.forall_mem_append.2 ⟨hseg, by simpa using hnosep⟩
      obtain ⟨hrun, hspoilt⟩ := @ih (seg ++ [c]) front (by rwa [← hassoc]) hseg' (by simp [h0seg, hne.symm])
      rw [List.cons_append, alertMatchWordFrom, if_neg hend, hassoc]
      refine ⟨fun h => ?_, fun h r buf hres => ?_⟩
      · rw [hrun h]
        simp
      · have hlt := hspoilt h r buf hres
        simpa [List.count_append, List.count_cons_of_ne hne] using hlt

end Masks

theorem alertMatchWord_count {word masks buf : Bytes} {behind : Option Bytes} {r : Bool}
    (h : alertMatchWord word behind masks = some (r, buf)) : masks.count 0 ≤ buf.count 0 := by
  rw [alertMatchWord] at h
  split_ifs at h
  · cases h
    exact le_rfl
  · exact alertMatchWordFrom_count List.not_mem_nil h

/-- `alert_match_word` on a list of masks. -/
theorem alertMatchWord_run (word : Bytes) (behind : Option Bytes) {masks : Bytes} (h0 : 0 ∉ masks) (hne : masks ≠ []) :
    (¬ Spoilt (callsOf word behind (maskList masks)) →
      alertMatchWord word behind (masks ++ [0]) =
        (runCalls (callsOf word behind (maskList masks))).map (·, masks ++ [0])) ∧
    (Spoilt (callsOf word behind (maskList masks)) → ∀ r buf,
      alertMatchWord word behind (masks ++ [0]) = some (r, buf) → 1 < buf.count 0) := by
  have hhead : ¬ (masks ++ [0]).headD 0 = 0 := by
    cases masks with
    | nil => exact absurd rfl hne
    | cons c masks => exact fun h => h0 (h ▸ List.mem_cons_self)
  have hcount : ([] ++ masks ++ [0]).count 0 = 1 := by
    simp [List.count_append, List.count_eq_zero.2 h0]
  rw [alertMatchWord, if_neg hhead]
  obtain ⟨hrun, hspoilt⟩ := @alertMatchWordFrom_run [] word [] behind masks h0 (by simp)
  refine ⟨hrun, fun h r buf hres => ?_⟩
  have hlt := hspoilt h r buf hres
  omega

/-! ## The words of a text, one after the other -/

theorem characters_cons (c : UInt8) (text : Bytes) : ∃ ch chs, characters (c :: text) = (c :: ch) :: chs := by
  rw [characters]
  cases characters text with
  | nil => exact ⟨[], [], rfl⟩
  | cons ch chs =>
    dsimp only
    split_ifs
    · exact ⟨ch, chs, rfl⟩
    · exact ⟨[], ch :: chs, rfl⟩

theorem flatten_characters (text : Bytes) : (characters text).flatten = text := by
  induction text with
  | nil => rfl
  | cons c text ih =>
    rw [characters]
    cases hrest : characters text with
    | nil =>
      rw [hrest] at ih
      simpa using ih
    | cons ch chs =>
      rw [hrest, List.flatten_cons] at ih
      dsimp only
      split_ifs
      · simp [ih]
      · simp [ih]

theorem characters_tails {tail rest : Bytes} (htail : ∀ c ∈ tail, utf8Tail c = true)
    (hrest : ∀ c, rest.head? = some c → utf8Tail c = false) (b : UInt8) :
    characters (b :: (tail ++ rest)) = (b :: tail) :: characters rest := by
  induction tail generalizing b with
  | nil =>
    rw [List.nil_append, characters]
    cases rest with
    | nil => rfl
    | cons c rest =>
      obtain ⟨ch, chs, hchars⟩ := characters_cons c rest
      rw [hchars]
      simp [hrest c rfl]
  | cons c tail ih =>
    obtain ⟨hc, htail⟩ := List.forall_mem_cons.1 htail
    rw [List.cons_append, characters, ih htail c]
    simp [hc]

/-- The first character of a text in UTF-8. -/
theorem characters_head {b : UInt8} {text : Bytes} {state : Utf8State} (h : Utf8Head b text state) :
    characters (b :: text) = (b :: text.take state.owed) :: characters (text.drop state.owed) := by
  have hrest : ∀ c, (text.drop state.owed).head? = some c → utf8Tail c = false := by
    intro c hc
    have hutf8 := h.rest
    cases hdrop : text.drop state.owed with
    | nil =>
      rw [hdrop] at hc
      cases hc
    | cons c' rest =>
      rw [hdrop] at hc hutf8
      cases hc
      obtain ⟨state', hhead⟩ := hutf8.head
      exact utf8Lead_not_tail hhead.lead
  have h := characters_tails h.tails hrest b
  rwa [List.take_append_drop] at h

theorem alertMatchTextFrom_count {isalpha : Bytes → Bool} {steps : Nat} {front word masks rest : Bytes} {a : Alert}
    (h : alertMatchTextFrom isalpha steps front word masks rest = some a) : masks.count 0 ≤ a.masks.count 0 := by
  fun_induction alertMatchTextFrom isalpha steps front word masks rest with
  | case1 => cases h
  | case2 => cases h
  | case3 _ _ _ _ _ _ _ ih => exact ih h
  | case4 => cases h
  | case5 _ _ _ _ _ _ _ _ _ _ _ _ hword =>
    cases h
    exact alertMatchWord_count hword
  | case6 _ _ _ _ _ _ _ _ _ _ _ hword =>
    cases h
    exact alertMatchWord_count hword
  | case7 _ _ _ _ _ _ _ _ _ _ _ _ hword _ ih => exact (alertMatchWord_count hword).trans (ih h)
  | case8 _ _ _ _ _ _ _ _ _ ih => exact ih h

section Words

variable {isalpha : Bytes → Bool} {steps : Nat} {front word masks rest text : Bytes} {c : UInt8}

/-- Where a word ends, the text is as before when its masks have been looked at. -/
theorem alertMatchTextFrom_end (h0 : 0 ∉ word) (hc : ¬ (isDigit c || isSpecial c) = true)
    (hend : (c == 0 || c == space || c == comma || !isalpha ((c :: rest).take (utf8Skip c))) = true) :
    alertMatchTextFrom isalpha (steps + 1) front word masks (c :: rest) =
      match alertMatchWord word (textBehind rest) masks with
      | none => none
      | some (true, masks) => some ⟨true, front ++ word ++ c :: rest, masks⟩
      | some (false, masks) =>
        if c = 0 then some ⟨false, front ++ word ++ c :: rest, masks⟩
        else alertMatchTextFrom isalpha steps (front ++ word ++ (c :: rest).take (utf8Skip c)) [] masks
          ((c :: rest).drop (utf8Skip c)) := by
  have hlen : front.length + word.length = (front ++ word).length := List.length_append.symm
  have hset (l : Bytes) (b b' : UInt8) : (l ++ b :: rest).set l.length b' = l ++ b' :: rest := by
    rw [List.set_append_right _ _ le_rfl, Nat.sub_self]
    rfl
  have hword : cString ((front ++ word ++ 0 :: rest).drop front.length) = word := by
    rw [List.append_assoc, List.drop_left, cString_append h0]
  have hbehind : (front ++ word ++ 0 :: rest).drop ((front ++ word).length + 1) = rest := by
    rw [List.drop_length_add_append]
    rfl
  have htake : (front ++ word ++ c :: rest).take ((front ++ word).length + utf8Skip c) =
      front ++ word ++ (c :: rest).take (utf8Skip c) := List.take_length_add_append _
  rw [alertMatchTextFrom, if_neg hc, if_pos hend]
  simp only [hlen, hset, hword, hbehind, htake]

theorem owed_of_ascii {state : Utf8State} (h : Utf8Head c text state) (hc : c < 0x80) : state.owed = 0 := by
  have hlead := h.lead
  rw [utf8Lead, if_pos hc] at hlead
  cases hlead
  rfl

theorem ascii_of_special (h : (isDigit c || isSpecial c) = true) : c < 0x80 := by
  simp only [isDigit, isSpecial, Bool.or_eq_true, Bool.and_eq_true, decide_eq_true_eq, List.mem_cons,
    List.not_mem_nil, or_false] at h
  rcases h with ⟨-, h⟩ | rfl | rfl | rfl | rfl | rfl | rfl | rfl | rfl | rfl | rfl
  · exact UInt8.lt_of_le_of_lt h (by decide)
  all_goals decide

/-- The character at `p`, and what is behind it. -/
theorem character_at {state : Utf8State} (h : Utf8Head c text state) :
    (c :: (text ++ [0])).take (utf8Skip c) = c :: text.take state.owed ∧
      (c :: (text ++ [0])).drop (utf8Skip c) = text.drop state.owed ++ [0] := by
  rw [utf8Skip_of_lead h.lead, List.take_succ_cons, List.drop_succ_cons, List.take_append_of_le_length h.long,
    List.drop_append_of_le_length h.long]
  exact ⟨rfl, rfl⟩

/-- Inside of a word, `p` goes on. -/
theorem alertMatchTextFrom_inside {state : Utf8State} (hspace : isalpha [space] = false)
    (hcomma : isalpha [comma] = false) (h : Utf8Head c text state) (hc : c ≠ 0)
    (hword : isWordChar isalpha (c :: text.take state.owed) = true) :
    alertMatchTextFrom isalpha (steps + 1) front word masks (c :: (text ++ [0])) =
      alertMatchTextFrom isalpha steps front (word ++ c :: text.take state.owed) masks (text.drop state.owed ++ [0]) := by
  obtain ⟨htake, hdrop⟩ := character_at h
  rw [alertMatchTextFrom]
  by_cases hhead : (isDigit c || isSpecial c) = true
  · rw [if_pos hhead, owed_of_ascii h (ascii_of_special hhead)]
    rfl
  · have hnot {b : UInt8} (hb : b < 0x80) (hfalse : isalpha [b] = false) : (c == b) = false := by
      refine beq_eq_false_iff_ne.2 fun heq => ?_
      rw [heq] at hword hhead h
      rw [owed_of_ascii h hb] at hword
      simp [isWordChar, hfalse] at hword
      simp [hword] at hhead
    have halpha : isalpha (c :: text.take state.owed) = true := by
      simpa [isWordChar, hhead] using hword
    have hend : (c == 0 || c == space || c == comma || !isalpha (c :: text.take state.owed)) = false := by
      rw [hnot (by decide) hspace, hnot (by decide) hcomma, halpha, beq_eq_false_iff_ne.2 hc]
      rfl
    simp only [if_neg hhead, htake, hdrop, hend]
    rfl

/-- The words of some characters, each with the text behind it. -/
def wordsFrom (isalpha : Bytes → Bool) (word : Bytes) : List Bytes → List (Bytes × Option Bytes)
  | [] => [(word, none)]
  | ch :: chs =>
    if isWordChar isalpha ch then wordsFrom isalpha (word ++ ch) chs
    else (word, some (ch.tail ++ chs.flatten)) :: wordsFrom isalpha [] chs

def callsFrom (isalpha : Bytes → Bool) (word text masks : Bytes) : List Call :=
  (wordsFrom isalpha word (characters text)).flatMap fun w => callsOf w.1 w.2 (maskList masks)

/-- The rest of `alert_match_text` is a run of its calls, and leaves the buffers as they were where none of them takes white
space away; else there is a terminator more in the list of masks. -/
def RunsCalls (isalpha : Bytes → Bool) (masks text : Bytes) : Prop :=
  ∀ (steps : Nat) (front word : Bytes), text.length < steps → 0 ∉ word → 0 ∉ text →
    (¬ Spoilt (callsFrom isalpha word text masks) →
      alertMatchTextFrom isalpha steps front word (masks ++ [0]) (text ++ [0]) =
        (runCalls (callsFrom isalpha word text masks)).map (⟨·, front ++ word ++ text ++ [0], masks ++ [0]⟩)) ∧
    (Spoilt (callsFrom isalpha word text masks) → ∀ a,
      alertMatchTextFrom isalpha steps front word (masks ++ [0]) (text ++ [0]) = some a → 1 < a.masks.count 0)

theorem runsCalls (hspace : isalpha [space] = false) (hcomma : isalpha [comma] = false) (hmasks : 0 ∉ masks)
    (hne : masks ≠ []) (htext : Utf8 text) : RunsCalls isalpha masks text := by
  refine htext.by_characters ?_ ?_
  · intro steps front word hsteps hword _
    obtain ⟨steps, rfl⟩ := Nat.exists_eq_add_of_lt hsteps
    obtain ⟨hrun, hspoilt⟩ := alertMatchWord_run word none hmasks hne
    have hcalls : callsFrom isalpha word [] masks = callsOf word none (maskList masks) := by
      simp [callsFrom, characters, wordsFrom]
    rw [hcalls, List.nil_append, alertMatchTextFrom_end hword (by decide) (by simp)]
    simp only [textBehind, List.isEmpty_nil, if_true, List.append_nil]
    constructor
    · intro hquiet
      rw [hrun hquiet]
      cases runCalls (callsOf word none (maskList masks)) with
      | none => rfl
      | some r => cases r <;> rfl
    · intro h a hres
      cases hcall : alertMatchWord word none (masks ++ [0]) with
      | none =>
        rw [hcall] at hres
        cases hres
      | some p =>
        obtain ⟨r, buf⟩ := p
        have hlt := hspoilt h r buf hcall
        rw [hcall] at hres
        cases r <;> cases hres <;> exact hlt
  · intro c text state hhead ih steps front word hsteps hword h0
    obtain ⟨hc, htext0⟩ : c ≠ 0 ∧ 0 ∉ text := by simpa [eq_comm] using h0
    have htake0 : 0 ∉ text.take state.owed := fun h => htext0 (List.mem_of_mem_take h)
    have hdrop0 : 0 ∉ text.drop state.owed := fun h => htext0 (List.mem_of_mem_drop h)
    obtain ⟨steps, rfl⟩ : ∃ n, steps = n + 1 := ⟨steps - 1, by omega⟩
    have hlen : (text.drop state.owed).length < steps := by
      rw [List.length_drop]
      rw [List.length_cons] at hsteps
      omega
    have hchars := characters_head hhead
    by_cases hin : isWordChar isalpha (c :: text.take state.owed) = true
    · have hcalls : callsFrom isalpha word (c :: text) masks =
          callsFrom isalpha (word ++ c :: text.take state.owed) (text.drop state.owed) masks := by
        rw [callsFrom, hchars, wordsFrom, if_pos hin]
        rfl
      have hword' : 0 ∉ word ++ c :: text.take state.owed := by simp [hword, hc.symm, htake0]
      have hassoc : front ++ (word ++ c :: text.take state.owed) ++ text.drop state.owed = front ++ word ++ c :: text := by
        simp
      rw [hcalls, List.cons_append, alertMatchTextFrom_inside hspace hcomma hhead hc hin, ← hassoc]
      exact ih steps front _ hlen hword' hdrop0
    · have hspecial : ¬ (isDigit c || isSpecial c) = true := fun h => hin (by simp [isWordChar, h])
      have halpha : isalpha (c :: text.take state.owed) = false := by
        simpa [isWordChar, hspecial] using hin
      have hcalls : callsFrom isalpha word (c :: text) masks =
          callsOf word (some text) (maskList masks) ++ callsFrom isalpha [] (text.drop state.owed) masks := by
        rw [callsFrom, hchars, wordsFrom, if_neg hin, List.flatMap_cons, flatten_characters, List.tail_cons,
          List.take_append_drop]
        rfl
      obtain ⟨htake, hdrop⟩ := character_at hhead
      have hbehind : textBehind (text ++ [0]) = some text := by
        rw [textBehind, cString_append htext0]
        simp
      have hassoc : front ++ word ++ (c :: text.take state.owed) ++ [] ++ text.drop state.owed =
          front ++ word ++ c :: text := by
        simp
      obtain ⟨hrun, hspoilt⟩ := alertMatchWord_run word (some text) hmasks hne
      obtain ⟨hrest, hrestSpoilt⟩ := ih steps (front ++ word ++ c :: text.take state.owed) [] hlen List.not_mem_nil hdrop0
      rw [hassoc] at hrest
      rw [hcalls, List.cons_append, alertMatchTextFrom_end hword hspecial (by rw [htake, halpha]; simp), htake, hdrop,
        hbehind, runCalls_append, spoilt_append]
      simp only [if_neg hc]
      constructor
      · intro hquiet
        obtain ⟨hquiet, hmore⟩ := not_or.1 hquiet
        rw [hrun hquiet]
        cases hcall : runCalls (callsOf word (some text) (maskList masks)) with
        | none => rfl
        | some r =>
          cases r with
          | true => simp
          | false =>
            simp only [Option.map_some, if_true]
            exact hrest fun h => hmore ⟨hcall, h⟩
      · intro h a hres
        by_cases hquiet : Spoilt (callsOf word (some text) (maskList masks))
        · cases hcall : alertMatchWord word (some text) (masks ++ [0]) with
          | none =>
            rw [hcall] at hres
            cases hres
          | some p =>
            obtain ⟨r, buf⟩ := p
            have hlt := hspoilt hquiet r buf hcall
            rw [hcall] at hres
            cases r with
            | true =>
              cases hres
              exact hlt
            | false => exact Nat.lt_of_lt_of_le hlt (alertMatchTextFrom_count hres)
        · obtain ⟨hno, hmore⟩ := h.resolve_left hquiet
          rw [hrun hquiet, hno] at hres
          exact hrestSpoilt hmore a hres

end Words

/-! ## When the answer is right -/

/-- The words of the calls are those of the text. -/
theorem map_fst_wordsFrom (isalpha : Bytes → Bool) (word : Bytes) (chs : List Bytes) :
    (wordsFrom isalpha word chs).map Prod.fst =
      ((chs.splitOnP (!isWordChar isalpha ·)).map List.flatten).modifyHead (word ++ ·) := by
  induction chs generalizing word with
  | nil => simp [wordsFrom]
  | cons ch chs ih =>
    rw [wordsFrom, List.splitOnP_cons_eq_if_modifyHead]
    by_cases hin : isWordChar isalpha ch = true
    · rw [if_pos hin, ih]
      cases chs.splitOnP (!isWordChar isalpha ·) with
      | nil => simp [hin]
      | cons w ws => simp [hin]
    · rw [if_neg hin, List.map_cons, ih]
      cases chs.splitOnP (!isWordChar isalpha ·) with
      | nil => simp [hin]
      | cons w ws => simp [hin]

/-- The calls of `match` that `alert_match_text` makes, as long as none answers yes. -/
def calls (isalpha : Bytes → Bool) (text masks : Bytes) : List Call :=
  if masks = [] then [] else callsFrom isalpha [] text masks

/-- A word that is not empty, and matches. -/
def Call.Genuine (c : Call) : Prop := c.word ≠ [] ∧ c.Hits

theorem highlights_iff {isalpha : Bytes → Bool} {text masks : Bytes} :
    Highlights isalpha text masks ↔ ∃ c ∈ calls isalpha text masks, c.Genuine := by
  have hwords : textWords isalpha text = (wordsFrom isalpha [] (characters text)).map Prod.fst := by
    rw [map_fst_wordsFrom, textWords]
    cases ((characters text).splitOnP (!isWordChar isalpha ·)).map List.flatten <;> rfl
  unfold Highlights calls
  rw [hwords]
  constructor
  · rintro ⟨word, hword, hne, mask, hmask, hmne, hmatch⟩
    obtain ⟨⟨word, behind⟩, hin, rfl⟩ := List.mem_map.1 hword
    have hmasks : masks ≠ [] := by
      rintro rfl
      exact hmne (List.mem_singleton.1 hmask)
    rw [if_neg hmasks]
    exact ⟨⟨word, behind, mask⟩, List.mem_flatMap.2 ⟨_, hin, List.mem_map_of_mem hmask⟩, hne, hmatch⟩
  · rintro ⟨c, hc, hne, hmatch⟩
    split_ifs at hc
    · cases hc
    · obtain ⟨⟨word, behind⟩, hin, hc⟩ := List.mem_flatMap.1 hc
      obtain ⟨mask, hmask, rfl⟩ := List.mem_map.1 hc
      refine ⟨word, List.mem_map_of_mem hin, hne, mask, hmask, ?_, hmatch⟩
      rintro rfl
      exact hne (glob_nil.1 hmatch)

/-- The list is left alone, and the answer is that of the calls. -/
theorem alertExact_iff_run {isalpha : Bytes → Bool} {text masks : Bytes} (hspace : isalpha [space] = false)
    (hcomma : isalpha [comma] = false) (htext : Utf8 text) (h0 : 0 ∉ text) (hmasks : 0 ∉ masks) :
    AlertExact isalpha text masks ↔ ¬ Spoilt (calls isalpha text masks) ∧
      ∃ found, runCalls (calls isalpha text masks) = some found ∧ (found = true ↔ Highlights isalpha text masks) := by
  unfold AlertExact calls
  by_cases hne : masks = []
  · rw [hne, if_pos rfl]
    simp [alertMatchText, Spoilt, runCalls]
  · rw [if_neg hne]
    have hhead : ¬ (masks ++ [0]).headD 0 = 0 := by
      cases masks with
      | nil => exact absurd rfl hne
      | cons c masks => exact fun h => hmasks (h ▸ List.mem_cons_self)
    have hlen : text.length < (text ++ [0]).length := by simp
    obtain ⟨hrun, hspoilt⟩ := runsCalls hspace hcomma hmasks hne htext _ [] [] hlen List.not_mem_nil h0
    rw [alertMatchText, if_neg hhead]
    constructor
    · rintro ⟨found, hres, hfound⟩
      have hquiet : ¬ Spoilt (callsFrom isalpha [] text masks) := by
        intro h
        have hlt := hspoilt h _ hres
        simp [List.count_append, List.count_eq_zero.2 hmasks] at hlt
      rw [hrun hquiet] at hres
      obtain ⟨found', hcalls, heq⟩ := Option.map_eq_some_iff.1 hres
      cases heq
      exact ⟨hquiet, found, hcalls, hfound⟩
    · rintro ⟨hquiet, found, hcalls, hfound⟩
      refine ⟨found, ?_, hfound⟩
      rw [hrun hquiet, hcalls]
      rfl

/-- The calls up to the first that answers yes, with that one, are all as `P` says. -/
def UpToYes (P : Call → Prop) (cs : List Call) : Prop :=
  ∀ before c later, cs = before ++ c :: later → (∀ c' ∈ before, ¬ (c'.Hits ∨ c'.Misled)) → P c

theorem upToYes_cons {P : Call → Prop} {c : Call} {cs : List Call} :
    UpToYes P (c :: cs) ↔ P c ∧ (¬ (c.Hits ∨ c.Misled) → UpToYes P cs) := by
  constructor
  · refine fun h => ⟨h [] c cs rfl (by simp), fun hno before c' later heq hbefore => ?_⟩
    exact h (c :: before) c' later (by rw [heq]; rfl) (List.forall_mem_cons.2 ⟨hno, hbefore⟩)
  · rintro ⟨hc, hcs⟩ before c' later heq hbefore
    cases before with
    | nil =>
      cases heq
      exact hc
    | cons c₀ before =>
      cases heq
      obtain ⟨hno, hbefore⟩ := List.forall_mem_cons.1 hbefore
      exact hcs hno before c' later rfl hbefore

/-- A call that takes no white space away, stays in the text, and is misled or matches the empty word only where `right`
is so anyway. -/
def Call.Sound (right : Prop) (c : Call) : Prop :=
  ¬ c.Spoils ∧ ¬ c.Leaves ∧ (c.Misled ∨ c.word = [] ∧ c.Hits → right)

/-- The answer of a run, by its calls. -/
theorem run_right_iff {right : Prop} {cs : List Call} (hgenuine : ∀ c ∈ cs, c.Genuine → right)
    (hright : right → ∃ c ∈ cs, c.Hits) :
    (¬ Spoilt cs ∧ ∃ found, runCalls cs = some found ∧ (found = true ↔ right)) ↔ UpToYes (Call.Sound right) cs := by
  induction cs with
  | nil =>
    have hno : ¬ right := fun h => by simpa using hright h
    refine iff_of_true ⟨id, false, rfl, iff_of_false Bool.false_ne_true hno⟩ fun before c later heq => ?_
    simp at heq
  | cons c cs ih =>
    rw [upToYes_cons, Spoilt, runCalls]
    obtain ⟨hnone, htrue⟩ := c.answer_spec
    cases hanswer : c.answer with
    | none => exact iff_of_false (by simp) fun h => h.1.2.1 (hnone.1 hanswer)
    | some answer =>
      have hstays : ¬ c.Leaves := fun h => by
        rw [hnone.2 h] at hanswer
        cases hanswer
      cases answer with
      | true =>
        have hyes := htrue.1 hanswer
        simp only [Option.some.injEq, Bool.true_eq_false, false_and, or_false, exists_eq_left', true_iff]
        constructor
        · rintro ⟨hquiet, hr⟩
          exact ⟨⟨hquiet, hstays, fun _ => hr⟩, fun hno => absurd hyes hno⟩
        · rintro ⟨⟨hquiet, -, hsound⟩, -⟩
          refine ⟨hquiet, ?_⟩
          rcases hyes with hhits | hmisled
          · by_cases hword : c.word = []
            · exact hsound (.inr ⟨hword, hhits⟩)
            · exact hgenuine c List.mem_cons_self ⟨hword, hhits⟩
          · exact hsound (.inl hmisled)
      | false =>
        have hno : ¬ (c.Hits ∨ c.Misled) := fun h => by
          rw [htrue.2 h] at hanswer
          cases hanswer
        have hright' : right → ∃ c ∈ cs, c.Hits := by
          intro h
          obtain ⟨c', hmem, hhits⟩ := hright h
          rcases List.mem_cons.1 hmem with rfl | hmem
          · exact absurd (.inl hhits) hno
          · exact ⟨c', hmem, hhits⟩
        have ih := ih (fun c' hmem => hgenuine c' (List.mem_cons_of_mem c hmem)) hright'
        simp only [true_and, not_or, and_assoc]
        rw [ih, Call.Sound]
        constructor
        · rintro ⟨hquiet, hcs⟩
          exact ⟨⟨hquiet, hstays, fun h => absurd (h.elim .inr fun h => .inl h.2) hno⟩, fun _ => hcs⟩
        · rintro ⟨⟨hquiet, -, -⟩, hcs⟩
          exact ⟨hquiet, hcs (not_or.1 hno)⟩

/-- **When highlights are exact**: exactly when every pair of a word and a mask, up to the first that the search stops at,
is sound. -/
theorem alert_exact_iff {isalpha : Bytes → Bool} {text masks : Bytes} (hspace : isalpha [space] = false)
    (hcomma : isalpha [comma] = false) (htext : Utf8 text) (h0 : 0 ∉ text) (hmasks : 0 ∉ masks) :
    AlertExact isalpha text masks ↔
      UpToYes (Call.Sound (Highlights isalpha text masks)) (calls isalpha text masks) := by
  rw [alertExact_iff_run hspace hcomma htext h0 hmasks]
  refine run_right_iff (fun c hc hgenuine => highlights_iff.2 ⟨c, hc, hgenuine⟩) fun h => ?_
  obtain ⟨c, hc, -, hhits⟩ := highlights_iff.1 h
  exact ⟨c, hc, hhits⟩

/-- `g_unichar_isalpha` on ASCII. -/
def asciiLetter : Bytes → Bool
  | [c] => (65 ≤ c && c ≤ 90) || (97 ≤ c && c ≤ 122)
  | _ => false

/-- `hi, there` with the masks `bob, alice`: the empty word between the comma and the space matches the empty mask there. -/
theorem empty_word_alerts : ¬ ∀ text masks : Bytes, Utf8 text → 0 ∉ text → 0 ∉ masks →
    AlertExact asciiLetter text masks := by
  intro h
  obtain ⟨found, hres, hfound⟩ := h (bytes "hi, there") (bytes "bob, alice") (by decide) (by decide) (by decide)
  have hyes : (alertMatchText asciiLetter (bytes "hi, there" ++ [0]) (bytes "bob, alice" ++ [0])).map Alert.found =
      some true := by rfl
  rw [hres] at hyes
  obtain ⟨word, hword, hne, mask, hmask, hmne, hmatch⟩ := hfound.1 (Option.some.inj hyes)
  have hwords : textWords asciiLetter (bytes "hi, there") = [bytes "hi", [], bytes "there"] := by rfl
  have hmasks : maskList (bytes "bob, alice") = [bytes "bob", [], bytes "alice"] := by rfl
  rw [hwords] at hword
  rw [hmasks] at hmask
  have hno (mask word : Bytes) (hend : matchMask mask word = .returns false) : ¬ Matches mask word := by
    have hsettles := matchMask_settles mask word
    rw [hend] at hsettles
    exact fun hglob => Bool.false_ne_true (hsettles.1.2 hglob)
  simp only [List.mem_cons, List.not_mem_nil, or_false] at hword hmask
  rcases hword with rfl | rfl | rfl
  · rcases hmask with rfl | rfl | rfl
    · exact hno _ _ rfl hmatch
    · exact hmne rfl
    · exact hno _ _ rfl hmatch
  · exact hne rfl
  · rcases hmask with rfl | rfl | rfl
    · exact hno _ _ rfl hmatch
    · exact hmne rfl
    · exact hno _ _ rfl hmatch

theorem alert_exact_hello : AlertExact asciiLetter (bytes "hello bob") (bytes "bob") ↔
    UpToYes (Call.Sound (Highlights asciiLetter (bytes "hello bob") (bytes "bob")))
      (calls asciiLetter (bytes "hello bob") (bytes "bob")) :=
  alert_exact_iff (by decide) (by decide) (by decide) (by decide) (by decide)

end PoxChat.Text
