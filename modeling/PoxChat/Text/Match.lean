import PoxChat.Lib.Glob
import PoxChat.Outbound.Say

/-!
# `match` of `common/util.c`

A mask against a string, both without their terminators.

* `matchHead`, `starRun`, `seek`, `chunk` — the loops of the function; `starPass` is what runs from `got_star` to the next
  `goto got_star`, and `gotStar` repeats it.  An error is the end of the function.
* `tokens` — what the mask means: `*`, `?`, a literal byte.
* `matchMask_settles` — every call answers as the glob relation does, unless the string is used up where a star is followed
  by a literal: there the byte behind the terminator is read.
-/

set_option autoImplicit false

namespace PoxChat.Text

open Lib Outbound

/-! ## The mask -/

def starByte : UInt8 := 42

def question : UInt8 := 63

def backslash : UInt8 := 92

/-- The meaning of a mask. -/
def tokens : Bytes → List (GlobToken UInt8)
  | [] => []
  | ch :: m =>
    if ch = starByte then .many :: tokens m
    else if ch = question then .any :: tokens m
    else if ch = backslash then
      match m with
      | [] => [.lit ch]
      | next :: m' =>
        if next = question ∨ next = starByte then .lit next :: tokens m' else .lit ch :: tokens (next :: m')
    else .lit ch :: tokens m

/-- The bytes that a literal stands for. -/
def SameLetter (x c : UInt8) : Prop := rfcTolower c = rfcTolower x

instance : DecidableRel SameLetter := fun x c => inferInstanceAs (Decidable (rfcTolower c = rfcTolower x))

/-- `case '\\'` and `default`: the byte that is meant, and the mask after it. -/
def readLiteral (ch : UInt8) : Bytes → UInt8 × Bytes
  | [] => (ch, [])
  | next :: m => if ch = backslash ∧ (next = question ∨ next = starByte) then (next, m) else (ch, next :: m)

/-- `ch = *m++` and the cases of its byte. -/
def readToken : Bytes → Option (GlobToken UInt8 × Bytes)
  | [] => none
  | ch :: m =>
    if ch = starByte then some (.many, m)
    else if ch = question then some (.any, m)
    else some (.lit (readLiteral ch m).1, (readLiteral ch m).2)

theorem readLiteral_length (ch : UInt8) (m : Bytes) : (readLiteral ch m).2.length ≤ m.length := by
  cases m with
  | nil => exact le_rfl
  | cons next m =>
    rw [readLiteral]
    split
    · exact Nat.le_succ _
    · exact le_rfl

theorem tokens_star (m : Bytes) : tokens (starByte :: m) = .many :: tokens m := by
  rw [tokens.eq_def]
  exact if_pos rfl

theorem tokens_question (m : Bytes) : tokens (question :: m) = .any :: tokens m := by
  rw [tokens.eq_def]
  rfl

theorem tokens_literal {ch : UInt8} (hstar : ch ≠ starByte) (hquestion : ch ≠ question) (m : Bytes) :
    tokens (ch :: m) = .lit (readLiteral ch m).1 :: tokens (readLiteral ch m).2 := by
  rw [tokens.eq_def]
  simp only [if_neg hstar, if_neg hquestion]
  cases m with
  | nil => simp only [readLiteral, tokens, ite_self]
  | cons next m =>
    by_cases hslash : ch = backslash
    · by_cases hnext : next = question ∨ next = starByte
      · simp only [readLiteral, hslash, hnext, if_true, and_self]
      · simp only [readLiteral, hslash, hnext, if_true, if_false, and_false]
    · simp only [readLiteral, hslash, if_false, false_and]

theorem tokens_of_readToken_none {m : Bytes} (h : readToken m = none) : tokens m = [] := by
  cases m with
  | nil => rfl
  | cons ch m => grind [readToken]

theorem tokens_of_readToken_some {m m' : Bytes} {t : GlobToken UInt8} (h : readToken m = some (t, m')) :
    tokens m = t :: tokens m' := by
  cases m with
  | nil => cases h
  | cons ch m =>
    rw [readToken] at h
    split_ifs at h with hstar hquestion
    · cases h
      rw [hstar, tokens_star]
    · cases h
      rw [hquestion, tokens_question]
    · cases h
      rw [tokens_literal hstar hquestion]

theorem readToken_length {m m' : Bytes} {t : GlobToken UInt8} (h : readToken m = some (t, m')) :
    m'.length < m.length := by
  cases m with
  | nil => cases h
  | cons ch m =>
    have hlen := readLiteral_length ch m
    grind [readToken]

/-! ## The function -/

/-- How a call ends: with an answer, or by reading behind the terminator of the string, in search of the literal that `bm`
is before. -/
inductive MatchEnd where
  | returns (r : Bool)
  | overreads (bm : Bytes)

/-- The head of the mask, before its first star. -/
def matchHead (m s : Bytes) : Except MatchEnd (Bytes × Bytes) :=
  match readToken m, s with
  | none, s => .error (.returns s.isEmpty)
  | some (.many, m), s => .ok (m, s)
  | some (.any, _), [] => .error (.returns false)
  | some (.any, m), _ :: s => matchHead m s
  | some (.lit _, _), [] => .error (.returns false)
  | some (.lit ch, m), c :: s => if rfcTolower c = rfcTolower ch then matchHead m s else .error (.returns false)
termination_by structural s

/-- What `break_while` is reached with. -/
structure StarRun where
  ch : UInt8
  m : Bytes
  s : Bytes
  bm : Bytes

/-- The loop at `got_star`: stars and question marks, up to a literal. -/
def starRun (bm : Bytes) : Bytes → Bytes → Except MatchEnd StarRun
  | [], _ => .error (.returns true)
  | ch :: m, s =>
    if ch = starByte then starRun m m s
    else if ch = question then
      match s with
      | [] => .error (.returns false)
      | _ :: s => starRun m m s
    else .ok ⟨(readLiteral ch m).1, (readLiteral ch m).2, s, bm⟩

/-- `while (rfc_tolower(*s++) != ch) if (!*s) return 0;` -/
def seek (bm : Bytes) (ch : UInt8) : Bytes → Except MatchEnd Bytes
  | [] => .error (.overreads bm)
  | c :: s => if rfcTolower c = ch then .ok s else if s.isEmpty then .error (.returns false) else seek bm ch s

/-- The rest of the chunk; where it does not fit, the mask and the string are set back. -/
def chunk (bm bs m s : Bytes) : Except MatchEnd (Bytes × Bytes) :=
  match readToken m, s with
  | none, [] => .error (.returns true)
  | none, _ :: _ => .ok (bm, bs)
  | some (.many, m), s => .ok (m, s)
  | some (.any, _), [] => .error (.returns false)
  | some (.any, m), _ :: s => chunk bm bs m s
  | some (.lit _, _), [] => .error (.returns false)
  | some (.lit ch, m), c :: s => if rfcTolower c = rfcTolower ch then chunk bm bs m s else .ok (bm, bs)
termination_by structural s

/-- From `got_star` to the next `goto got_star`. -/
def starPass (m s : Bytes) : Except MatchEnd (Bytes × Bytes) := do
  let run ← starRun m m s
  let bs ← seek run.bm (rfcTolower run.ch) run.s
  chunk run.bm bs run.m bs

/-! ## Each loop -/

theorem starRun_length {bm m s : Bytes} {run : StarRun} (h : starRun bm m s = .ok run) (hbm : m.length ≤ bm.length) :
    run.m.length < run.bm.length ∧ run.bm.length + run.s.length ≤ bm.length + s.length := by
  induction m generalizing bm s with
  | nil => cases h
  | cons ch m ih =>
    rw [List.length_cons] at hbm
    rw [starRun.eq_def] at h
    dsimp only at h
    split_ifs at h with hstar hquestion
    · have hlen := ih h le_rfl
      omega
    · cases s with
      | nil => cases h
      | cons c s =>
        have hlen := ih h le_rfl
        rw [List.length_cons]
        omega
    · cases h
      have hlen := readLiteral_length ch m
      exact ⟨Nat.lt_of_le_of_lt hlen hbm, le_rfl⟩

theorem seek_length {ch : UInt8} {bm s bs : Bytes} (h : seek bm ch s = .ok bs) : bs.length < s.length := by
  induction s with
  | nil => cases h
  | cons c s ih =>
    rw [seek] at h
    split_ifs at h
    · cases h
      exact Nat.lt_succ_self _
    · exact Nat.lt_succ_of_lt (ih h)

theorem chunk_length {bm bs m s m' s' : Bytes} (h : chunk bm bs m s = .ok (m', s')) :
    m'.length + s'.length < m.length + s.length + 1 ∨ (m', s') = (bm, bs) := by
  fun_induction chunk bm bs m s with
  | case1 => cases h
  | case2 => exact .inr (Except.ok.inj h).symm
  | case3 m s m'' hread =>
    cases h
    have hlen := readToken_length hread
    omega
  | case4 => cases h
  | case5 m m'' c s hread ih =>
    have hlen := readToken_length hread
    exact (ih h).imp_left fun h => by rw [List.length_cons]; omega
  | case6 => cases h
  | case7 m ch m'' c s hread heq ih =>
    have hlen := readToken_length hread
    exact (ih h).imp_left fun h => by rw [List.length_cons]; omega
  | case8 => exact .inr (Except.ok.inj h).symm

theorem starPass_ok {m s m' s' : Bytes} (h : starPass m s = .ok (m', s')) :
    ∃ run bs, starRun m m s = .ok run ∧ seek run.bm (rfcTolower run.ch) run.s = .ok bs ∧
      chunk run.bm bs run.m bs = .ok (m', s') := by
  rw [starPass] at h
  cases hrun : starRun m m s with
  | error e =>
    rw [hrun] at h
    cases h
  | ok run =>
    rw [hrun] at h
    cases hseek : seek run.bm (rfcTolower run.ch) run.s with
    | error e =>
      change (seek run.bm (rfcTolower run.ch) run.s >>= fun bs => chunk run.bm bs run.m bs) = _ at h
      rw [hseek] at h
      cases h
    | ok bs =>
      change (seek run.bm (rfcTolower run.ch) run.s >>= fun bs => chunk run.bm bs run.m bs) = _ at h
      rw [hseek] at h
      exact ⟨run, bs, rfl, hseek, h⟩

/-- Each `goto got_star` leaves less of the mask or less of the string. -/
theorem starPass_length {m s m' s' : Bytes} (h : starPass m s = .ok (m', s')) :
    m'.length + s'.length < m.length + s.length := by
  obtain ⟨run, bs, hrun, hseek, hchunk⟩ := starPass_ok h
  obtain ⟨hm, hbm⟩ := starRun_length hrun le_rfl
  have hbs := seek_length hseek
  rcases chunk_length hchunk with hlen | heq
  · omega
  · obtain ⟨rfl, rfl⟩ := Prod.mk.inj heq
    omega

/-- `got_star`, as often as it is gone to. -/
def gotStar (m s : Bytes) : MatchEnd :=
  match _hpass : starPass m s with
  | .error e => e
  | .ok (m', s') => gotStar m' s'
termination_by m.length + s.length
decreasing_by exact starPass_length _hpass

/-- `match`. -/
def matchMask (mask string : Bytes) : MatchEnd :=
  match matchHead mask string with
  | .error e => e
  | .ok (m, s) => gotStar m s

/-! ## The answer is the pattern's -/

/-- The string is one of the mask's. -/
def Matches (mask string : Bytes) : Prop := Glob SameLetter (tokens mask) string

/-- The string is used up where a star of the mask is followed by a literal. -/
def UsedUp (mask string : Bytes) : Prop := ∃ ch rest, Exhausts SameLetter (tokens mask) string ch rest

/-- An end of the function that is right for a pattern and a string. -/
def MatchEnd.Settles (ts : List (GlobToken UInt8)) (s : Bytes) : MatchEnd → Prop
  | .returns r => (r = true ↔ Glob SameLetter ts s) ∧ ∀ ch rest, ¬ Exhausts SameLetter ts s ch rest
  | .overreads bm => ∃ ch rest, tokens bm = .lit ch :: rest ∧ Exhausts SameLetter ts s ch rest

/-- What is left to do after a part of the function is as much as before it. -/
def Keeps (ts : List (GlobToken UInt8)) (s : Bytes) : Except MatchEnd (Bytes × Bytes) → Prop
  | .error e => e.Settles ts s
  | .ok (m', s') => (Glob SameLetter ts s ↔ Glob SameLetter (.many :: tokens m') s') ∧
      ∀ ch rest, Exhausts SameLetter ts s ch rest ↔ Exhausts SameLetter (.many :: tokens m') s' ch rest

theorem MatchEnd.Settles.congr {ts ts' : List (GlobToken UInt8)} {s s' : Bytes} {e : MatchEnd} (h : e.Settles ts' s')
    (hglob : Glob SameLetter ts s ↔ Glob SameLetter ts' s')
    (hex : ∀ ch rest, Exhausts SameLetter ts s ch rest ↔ Exhausts SameLetter ts' s' ch rest) : e.Settles ts s := by
  cases e with
  | returns r => exact ⟨h.1.trans hglob.symm, fun ch rest hs => h.2 ch rest ((hex ch rest).1 hs)⟩
  | overreads bm =>
    obtain ⟨ch, rest, htokens, hs⟩ := h
    exact ⟨ch, rest, htokens, (hex ch rest).2 hs⟩

theorem settles_false {ts : List (GlobToken UInt8)} {s : Bytes} (hglob : ¬ Glob SameLetter ts s)
    (hex : ∀ ch rest, ¬ Exhausts SameLetter ts s ch rest) : (MatchEnd.returns false).Settles ts s :=
  ⟨iff_of_false Bool.false_ne_true hglob, hex⟩

theorem settles_true {ts : List (GlobToken UInt8)} {s : Bytes} (hglob : Glob SameLetter ts s)
    (hex : ∀ ch rest, ¬ Exhausts SameLetter ts s ch rest) : (MatchEnd.returns true).Settles ts s :=
  ⟨iff_of_true rfl hglob, hex⟩

theorem Keeps.congr {ts ts' : List (GlobToken UInt8)} {s s' : Bytes} {o : Except MatchEnd (Bytes × Bytes)}
    (h : Keeps ts' s' o) (hglob : Glob SameLetter ts s ↔ Glob SameLetter ts' s')
    (hex : ∀ ch rest, Exhausts SameLetter ts s ch rest ↔ Exhausts SameLetter ts' s' ch rest) : Keeps ts s o := by
  cases o with
  | error e => exact MatchEnd.Settles.congr h hglob hex
  | ok p => exact ⟨hglob.trans h.1, fun ch rest => (hex ch rest).trans (h.2 ch rest)⟩

theorem matchHead_keeps (m s : Bytes) : Keeps (tokens m) s (matchHead m s) := by
  fun_induction matchHead m s with
  | case1 m s hread =>
    rw [tokens_of_readToken_none hread]
    cases s with
    | nil => exact settles_true .nil fun _ _ => not_exhausts_nil
    | cons c s => exact settles_false (by simp) fun _ _ => not_exhausts_nil
  | case2 m s m' hread =>
    rw [tokens_of_readToken_some hread]
    exact ⟨Iff.rfl, fun _ _ => Iff.rfl⟩
  | case3 m m' hread =>
    rw [tokens_of_readToken_some hread]
    exact settles_false not_glob_any_nil fun _ _ => not_exhausts_cons_nil (by simp)
  | case4 m m' c s hread ih =>
    rw [tokens_of_readToken_some hread]
    exact ih.congr glob_any_cons fun _ _ => exhausts_any_cons
  | case5 m ch m' hread =>
    rw [tokens_of_readToken_some hread]
    exact settles_false not_glob_lit_nil fun _ _ => not_exhausts_cons_nil (by simp)
  | case6 m ch m' c s hread heq ih =>
    rw [tokens_of_readToken_some hread]
    exact ih.congr (glob_lit_cons.trans (and_iff_right heq)) fun _ _ => exhausts_lit_cons.trans (and_iff_right heq)
  | case7 m ch m' c s hread hne =>
    rw [tokens_of_readToken_some hread]
    exact settles_false (fun h => hne (glob_lit_cons.1 h).1) fun _ _ h => hne (exhausts_lit_cons.1 h).1

/-- The loop at `got_star` ends the function, -/
theorem starRun_error {m s : Bytes} {e : MatchEnd} (h : starRun m m s = .error e) :
    e.Settles (.many :: tokens m) s := by
  induction m generalizing s with
  | nil =>
    cases h
    exact settles_true glob_star fun _ _ => not_exhausts_star
  | cons ch m ih =>
    rw [starRun.eq_def] at h
    dsimp only at h
    split_ifs at h with hstar hquestion
    · rw [hstar, tokens_star]
      exact (ih h).congr glob_star_star fun _ _ => exhausts_star_star
    · rw [hquestion, tokens_question]
      cases s with
      | nil =>
        cases h
        exact settles_false not_glob_star_any_nil fun _ _ => not_exhausts_star_any_nil
      | cons c s => exact (ih h).congr glob_star_any_cons fun _ _ => exhausts_star_any_cons

/-- or stops at a literal, with `bm` before it. -/
theorem starRun_ok {m s : Bytes} {run : StarRun} (h : starRun m m s = .ok run) :
    tokens run.bm = .lit run.ch :: tokens run.m ∧
      (Glob SameLetter (.many :: tokens m) s ↔ Glob SameLetter (.many :: tokens run.bm) run.s) ∧
      ∀ ch rest, Exhausts SameLetter (.many :: tokens m) s ch rest ↔
        Exhausts SameLetter (.many :: tokens run.bm) run.s ch rest := by
  induction m generalizing s with
  | nil => cases h
  | cons ch m ih =>
    rw [starRun.eq_def] at h
    dsimp only at h
    split_ifs at h with hstar hquestion
    · obtain ⟨htokens, hglob, hex⟩ := ih h
      rw [hstar, tokens_star]
      exact ⟨htokens, glob_star_star.trans hglob, fun z rest => exhausts_star_star.trans (hex z rest)⟩
    · cases s with
      | nil => cases h
      | cons c s =>
        obtain ⟨htokens, hglob, hex⟩ := ih h
        rw [hquestion, tokens_question]
        exact ⟨htokens, glob_star_any_cons.trans hglob, fun z rest => exhausts_star_any_cons.trans (hex z rest)⟩
    · cases h
      exact ⟨tokens_literal hstar hquestion m, Iff.rfl, fun _ _ => Iff.rfl⟩

theorem seek_error {ch : UInt8} {bm s : Bytes} {e : MatchEnd} (h : seek bm ch s = .error e) :
    e = .overreads bm ∧ s = [] ∨ e = .returns false ∧ s ≠ [] ∧ ∀ z ∈ s, rfcTolower z ≠ ch := by
  induction s with
  | nil =>
    cases h
    exact .inl ⟨rfl, rfl⟩
  | cons c s ih =>
    rw [seek] at h
    split_ifs at h with heq hnil
    · cases h
      rw [List.isEmpty_iff.1 hnil]
      exact .inr ⟨rfl, by simp, by simpa using heq⟩
    · rcases ih h with ⟨-, rfl⟩ | ⟨he, -, hall⟩
      · exact absurd rfl hnil
      · exact .inr ⟨he, by simp, List.forall_mem_cons.2 ⟨heq, hall⟩⟩

theorem seek_ok {ch : UInt8} {bm s bs : Bytes} (h : seek bm ch s = .ok bs) :
    ∃ u y, s = u ++ y :: bs ∧ rfcTolower y = ch ∧ ∀ z ∈ u, rfcTolower z ≠ ch := by
  induction s with
  | nil => cases h
  | cons c s ih =>
    rw [seek] at h
    split_ifs at h with heq
    · cases h
      exact ⟨[], c, rfl, heq, by simp⟩
    · obtain ⟨u, y, rfl, hy, hu⟩ := ih h
      exact ⟨c :: u, y, rfl, hy, List.forall_mem_cons.2 ⟨heq, hu⟩⟩

/-- The ends of the loop over a chunk: at the next star, at the end of the string, at the end of both, or set back. -/
inductive ChunkEnds (bm bs : Bytes) : List (GlobToken UInt8) → Bytes → Except MatchEnd (Bytes × Bytes) → Prop where
  | star {c : List (GlobToken UInt8)} {v m s : Bytes} (hc : .many ∉ c) (hv : Glob SameLetter c v) :
      ChunkEnds bm bs (c ++ .many :: tokens m) (v ++ s) (.ok (m, s))
  | short {c r : List (GlobToken UInt8)} {s : Bytes} (hc : .many ∉ c) (hs : s.length < c.length) :
      ChunkEnds bm bs (c ++ r) s (.error (.returns false))
  | full {c : List (GlobToken UInt8)} {s : Bytes} (hc : .many ∉ c) (h : Glob SameLetter c s) :
      ChunkEnds bm bs c s (.error (.returns true))
  | back {c r : List (GlobToken UInt8)} {s : Bytes} (hc : .many ∉ c) (hs : s ≠ [])
      (hno : ∀ v, v <+: s → Glob SameLetter c v → r = [] ∧ v ≠ s) : ChunkEnds bm bs (c ++ r) s (.ok (bm, bs))

/-- One more token, and the byte it stands for. -/
theorem ChunkEnds.cons {bm bs s : Bytes} {ts : List (GlobToken UInt8)} {o : Except MatchEnd (Bytes × Bytes)}
    {t : GlobToken UInt8} {y : UInt8} (ht : t ≠ .many)
    (hy : ∀ ts s, Glob SameLetter (t :: ts) (y :: s) ↔ Glob SameLetter ts s) (h : ChunkEnds bm bs ts s o) :
    ChunkEnds bm bs (t :: ts) (y :: s) o := by
  have hmem {c : List (GlobToken UInt8)} (hc : .many ∉ c) : .many ∉ t :: c := fun h =>
    (List.mem_cons.1 h).elim (fun h => ht h.symm) hc
  cases h with
  | star hc hv => exact .star (c := t :: _) (v := y :: _) (hmem hc) ((hy _ _).2 hv)
  | short hc hs => exact .short (c := t :: _) (hmem hc) (Nat.succ_lt_succ hs)
  | full hc h => exact .full (hmem hc) ((hy _ _).2 h)
  | @back c r s hc hs hno =>
    refine .back (c := t :: c) (hmem hc) (by simp) fun v hpre hv => ?_
    cases v with
    | nil =>
      cases t with
      | many => exact absurd rfl ht
      | any => exact absurd hv not_glob_any_nil
      | lit x => exact absurd hv not_glob_lit_nil
    | cons z v =>
      obtain ⟨rfl, hpre'⟩ := List.cons_prefix_cons.1 hpre
      obtain ⟨hr, hne⟩ := hno v hpre' ((hy _ _).1 hv)
      exact ⟨hr, fun heq => hne (List.cons.inj heq).2⟩

theorem chunk_ends (bm bs m s : Bytes) : ChunkEnds bm bs (tokens m) s (chunk bm bs m s) := by
  fun_induction chunk bm bs m s with
  | case1 m hread =>
    rw [tokens_of_readToken_none hread]
    exact .full (by simp) .nil
  | case2 m c s hread =>
    rw [tokens_of_readToken_none hread]
    exact .back (c := []) (by simp) (by simp) fun v _ hv => ⟨rfl, by simp [glob_nil.1 hv]⟩
  | case3 m s m' hread =>
    rw [tokens_of_readToken_some hread]
    exact .star (c := []) (v := []) (by simp) .nil
  | case4 m m' hread =>
    rw [tokens_of_readToken_some hread]
    exact .short (c := [.any]) (by simp) (by simp)
  | case5 m m' c s hread ih =>
    rw [tokens_of_readToken_some hread]
    exact ih.cons (by simp) fun _ _ => glob_any_cons
  | case6 m ch m' hread =>
    rw [tokens_of_readToken_some hread]
    exact .short (c := [.lit ch]) (by simp) (by simp)
  | case7 m ch m' c s hread heq ih =>
    rw [tokens_of_readToken_some hread]
    exact ih.cons (by simp) fun _ _ => glob_lit_cons.trans (and_iff_right heq)
  | case8 m ch m' c s hread hne =>
    rw [tokens_of_readToken_some hread]
    refine .back (c := [.lit ch]) (by simp) (by simp) fun v hpre hv => ?_
    cases v with
    | nil => exact absurd hv not_glob_lit_nil
    | cons z v =>
      obtain ⟨rfl, -⟩ := List.cons_prefix_cons.1 hpre
      exact absurd (glob_lit_cons.1 hv).1 hne

/-- What the loop over a chunk leaves to do, after the first place for its literal. -/
theorem ChunkEnds.keeps {bm bs u : Bytes} {ts : List (GlobToken UInt8)} {o : Except MatchEnd (Bytes × Bytes)} {x y : UInt8}
    (h : ChunkEnds bm bs ts bs o) (htokens : tokens bm = .lit x :: ts) (hu : ∀ z ∈ u, ¬ SameLetter x z)
    (hy : SameLetter x y) : Keeps (.many :: .lit x :: ts) (u ++ y :: bs) o := by
  cases h with
  | star hc hv => exact ⟨glob_star_chunk hu hy hc hv, fun _ _ => exhausts_star_chunk hu hy hc hv⟩
  | short hc hs => exact settles_false (not_glob_star_short hu hy hc hs) fun _ _ => not_exhausts_star_short hu hy hc hs
  | full hc hglob =>
    exact settles_true ((glob_star_lit hu hy).2 (.inl hglob)) fun _ _ => not_exhausts_starless (by simp) hc
  | back hc hs hno =>
    rw [Keeps, htokens]
    refine ⟨?_, fun _ _ => exhausts_star_retry hu hy hc hs fun v hpre hv => (hno v hpre hv).1⟩
    rw [glob_star_lit hu hy]
    refine or_iff_right fun hglob => ?_
    obtain ⟨v, t, rfl, hv, ht⟩ := (glob_append_iff hc).1 hglob
    obtain ⟨rfl, hne⟩ := hno v (List.prefix_append v t) hv
    exact hne (by rw [glob_nil.1 ht, List.append_nil])

/-- One way from `got_star` to the next `goto got_star`. -/
theorem starPass_keeps (m s : Bytes) : Keeps (.many :: tokens m) s (starPass m s) := by
  rw [starPass]
  cases hrun : starRun m m s with
  | error e => exact starRun_error hrun
  | ok run =>
    obtain ⟨htokens, hglob, hex⟩ := starRun_ok hrun
    refine Keeps.congr ?_ hglob hex
    rw [htokens]
    change Keeps _ _ (seek run.bm (rfcTolower run.ch) run.s >>= fun bs => chunk run.bm bs run.m bs)
    cases hseek : seek run.bm (rfcTolower run.ch) run.s with
    | error e =>
      rcases seek_error hseek with ⟨rfl, hs⟩ | ⟨rfl, hs, hall⟩
      · rw [hs]
        exact ⟨run.ch, tokens run.m, htokens, exhausts_star_lit_nil⟩
      · exact settles_false (not_glob_star_lit hall) fun _ _ => not_exhausts_star_lit hs hall
    | ok bs =>
      obtain ⟨u, y, hs, hy, hu⟩ := seek_ok hseek
      rw [hs]
      exact (chunk_ends run.bm bs run.m bs).keeps htokens hu hy

/-- Every way of them, by induction on what is left of the mask and the string. -/
theorem gotStar_settles (m s : Bytes) : (gotStar m s).Settles (.many :: tokens m) s := by
  fun_induction gotStar m s with
  | case1 m s e hpass =>
    have h := starPass_keeps m s
    rw [hpass] at h
    exact h
  | case2 m s m' s' hpass ih =>
    have h := starPass_keeps m s
    rw [hpass] at h
    exact ih.congr h.1 h.2

theorem matchMask_settles (mask string : Bytes) : (matchMask mask string).Settles (tokens mask) string := by
  have h := matchHead_keeps mask string
  rw [matchMask]
  cases hhead : matchHead mask string with
  | error e =>
    rw [hhead] at h
    exact h
  | ok p =>
    rw [hhead] at h
    exact (gotStar_settles p.1 p.2).congr h.1 h.2

/-- **When `match` is the glob relation**: it answers, and answers as the mask means, exactly for the strings that are not
used up where a star of the mask is followed by a literal. -/
theorem match_is_glob_iff (mask string : Bytes) :
    (∃ r, matchMask mask string = .returns r ∧ (r = true ↔ Matches mask string)) ↔ ¬ UsedUp mask string := by
  have h := matchMask_settles mask string
  cases hend : matchMask mask string with
  | returns r =>
    rw [hend] at h
    exact iff_of_true ⟨r, rfl, h.1⟩ fun ⟨ch, rest, hs⟩ => h.2 ch rest hs
  | overreads bm =>
    rw [hend] at h
    obtain ⟨ch, rest, -, hs⟩ := h
    exact iff_of_false (by simp) (not_not_intro ⟨ch, rest, hs⟩)

/-- `a*b` against `a`: the star meets the end of the string, and the byte after its terminator is read. -/
theorem star_meets_end : ¬ ∀ mask string : Bytes,
    ∃ r, matchMask mask string = .returns r ∧ (r = true ↔ Matches mask string) := by
  intro h
  obtain ⟨r, hr, -⟩ := h (bytes "a*b") (bytes "a")
  have hhead : matchHead (bytes "a*b") (bytes "a") = .ok (bytes "b", []) := by rfl
  have hpass : starPass (bytes "b") [] = .error (.overreads (bytes "b")) := by rfl
  rw [matchMask, hhead] at hr
  dsimp only at hr
  rw [gotStar, hpass] at hr
  cases hr

end PoxChat.Text
