import PoxChat.Lib.Utf8
import PoxChat.Outbound.Say

/-!
# The pieces of a long line

`handle_say` sends a line that is too long in pieces, each as long as the server's relayed line allows.

* `LastBoundary` — where a text is cut: after its last whole character below the room.
* `Splits` — a text that is cut between characters all along.  The cut after the last space is made at as many bytes as
  there are characters before the space.
* `split_whole_iff` — nothing is lost, cut in two or too long, and the loop ends, exactly for these texts and where a line
  has room for a byte.
-/

set_option autoImplicit false

namespace PoxChat.Outbound

open Lib ChatHistory

/-! ## Cuts -/

theorem utf8Skip_of_lead {b : UInt8} {state : Utf8State} (h : utf8Lead b = some state) :
    utf8Skip b = state.owed + 1 := by
  have hb := utf8Lead_cases h
  fun_cases utf8Skip b
  all_goals
    simp only [UInt8.lt_iff_toNat_lt, UInt8.reduceToNat] at *
    omega

/-- The last character boundary below the room; the start of the text, where the first character has no room. -/
structure LastBoundary (room : Nat) (text : Bytes) (cut : Nat) : Prop where
  whole : Utf8 (text.take cut)
  below : cut = 0 ∨ cut < room
  last : ∀ i, i < room → Utf8 (text.take i) → i ≤ cut

theorem LastBoundary.unique {room cut cut' : Nat} {text : Bytes} (h : LastBoundary room text cut)
    (h' : LastBoundary room text cut') : cut = cut' := by
  have hle : ∀ {i j : Nat}, LastBoundary room text i → LastBoundary room text j → i ≤ j := by
    intro i j hi hj
    rcases hi.below with rfl | hlt
    · exact Nat.zero_le j
    · exact hj.last i hlt hi.whole
  exact Nat.le_antisymm (hle h h') (hle h' h)

/-- The place of the last space is a space. -/
theorem lastSpace_eq_some {text : Bytes} {pos : Nat} (h : lastSpace text = some pos) : text[pos]? = some space := by
  obtain ⟨⟨c, i⟩, hfind, rfl⟩ := Option.map_eq_some_iff.1 h
  have hc : c = space := by simpa using List.find?_some hfind
  have hmem := List.mem_reverse.1 (List.mem_of_find?_eq_some hfind)
  rw [hc] at hmem
  exact List.mem_zipIdx_iff_getElem?.1 hmem

theorem lastSpace_lt {text : Bytes} {cut pos : Nat} (h : lastSpace (text.take cut) = some pos) :
    pos < cut ∧ text[pos]? = some space := by
  have hget := lastSpace_eq_some h
  obtain ⟨hlt, -⟩ := List.getElem?_eq_some_iff.1 hget
  have hcut : pos < cut := by
    rw [List.length_take] at hlt
    omega
  rw [List.getElem?_take_of_lt hcut] at hget
  exact ⟨hcut, hget⟩

/-- **The loop over the characters** ends at the last boundary below the room. -/
theorem cutPoint_spec {room : Nat} (steps : Nat) : ∀ (i : Nat) {text : Bytes}, Utf8 text → room < i + text.length →
    room ≤ i + steps → ∃ cut, cutPoint room steps i text = i + cut ∧ Utf8 (text.take cut) ∧ (cut = 0 ∨ i + cut < room) ∧
      ∀ j, i + j < room → Utf8 (text.take j) → j ≤ cut := by
  induction steps with
  | zero => exact fun i text _ _ hsteps => ⟨0, rfl, Utf8.nil, .inl rfl, fun j hj _ => by omega⟩
  | succ steps ih =>
    intro i text htext hlong hsteps
    cases text with
    | nil =>
      rw [List.length_nil] at hlong
      exact ⟨0, if_pos (by omega), Utf8.nil, .inl rfl, fun j hj _ => by omega⟩
    | cons b text =>
      obtain ⟨state, hhead⟩ := htext.head
      have hskip : utf8Skip ((b :: text).headD 0) = state.owed + 1 := utf8Skip_of_lead hhead.lead
      rw [cutPoint, hskip]
      split
      · -- the next character has no room
        rename_i hfull
        refine ⟨0, rfl, Utf8.nil, .inl rfl, fun j hj hcut => ?_⟩
        by_contra hpos
        have hchar := ((hhead.take_iff (by omega)).1 hcut).1
        omega
      · rename_i hroom
        have hdrop : (b :: text).drop (state.owed + 1) = text.drop state.owed := rfl
        have hlen := hhead.long
        rw [List.length_cons] at hlong
        obtain ⟨cut, heq, hwhole, hbelow, hlast⟩ := ih (i + (state.owed + 1)) hhead.rest
          (by rw [List.length_drop]; omega) (by omega)
        rw [hdrop, heq]
        refine ⟨state.owed + 1 + cut, by omega, ?_, .inr (by omega), fun j hj hcut => ?_⟩
        · refine (hhead.take_iff (by omega)).2 ⟨by omega, ?_⟩
          rwa [Nat.add_sub_cancel_left]
        · by_cases hzero : j = 0
          · omega
          · obtain ⟨hle, hrest⟩ := (hhead.take_iff (Nat.pos_of_ne_zero hzero)).1 hcut
            have hbound := hlast (j - (state.owed + 1)) (by omega) hrest
            omega

theorem cutPoint_lastBoundary {room : Nat} {text : Bytes} (htext : Utf8 text) (hlong : room < text.length) :
    LastBoundary room text (cutPoint room room 0 text) := by
  obtain ⟨cut, heq, hwhole, hbelow, hlast⟩ := cutPoint_spec room 0 htext
    ((Nat.zero_add text.length).symm ▸ hlong) (Nat.zero_add room).ge
  rw [heq, Nat.zero_add]
  exact ⟨hwhole, by omega, fun i hi hcut => hlast i (by omega) hcut⟩

theorem cutPoint_le (room : Nat) (steps : Nat) : ∀ (i : Nat) (text : Bytes), i ≤ room → cutPoint room steps i text ≤ room := by
  induction steps with
  | zero => exact fun i text hi => hi
  | succ steps ih =>
    intro i text hi
    rw [cutPoint]
    split
    · exact hi
    · exact ih _ _ (by omega)

/-- A character starts at most at every byte. -/
theorem utf8Offset_le (steps : Nat) : ∀ (pos : Nat) (text : Bytes), utf8Offset steps pos text ≤ pos := by
  induction steps with
  | zero => exact fun pos _ => Nat.zero_le pos
  | succ steps ih =>
    intro pos text
    rw [utf8Offset]
    split
    · exact Nat.zero_le pos
    · have hle := ih (pos - utf8Skip (text.headD 0)) (text.drop (utf8Skip (text.headD 0)))
      have hskip := (utf8Skip_bounds (text.headD 0)).1
      dsimp only
      omega

/-- The offset of a character boundary counts the characters before it. -/
theorem utf8Offset_eq {text : Bytes} (htext : Utf8 text) : ∀ (steps pos : Nat), pos ≤ steps → pos ≤ text.length →
    Utf8 (text.take pos) → utf8Offset steps pos text = utf8Chars (text.take pos) := by
  refine htext.by_characters (motive := fun text => ∀ (steps pos : Nat), pos ≤ steps → pos ≤ text.length →
    Utf8 (text.take pos) → utf8Offset steps pos text = utf8Chars (text.take pos)) ?_ ?_
  · intro steps pos _ hlen _
    obtain rfl := Nat.le_zero.1 hlen
    cases steps <;> rfl
  · intro b text state hhead ih steps pos hsteps hlen hcut
    cases steps with
    | zero =>
      obtain rfl := Nat.le_zero.1 hsteps
      rfl
    | succ steps =>
      rw [utf8Offset]
      split
      · rename_i hzero
        rw [hzero]
        rfl
      · rename_i hpos
        have hskip : utf8Skip ((b :: text).headD 0) = state.owed + 1 := utf8Skip_of_lead hhead.lead
        obtain ⟨hle, hrest⟩ := (hhead.take_iff (Nat.pos_of_ne_zero hpos)).1 hcut
        have hdrop : (b :: text).drop (state.owed + 1) = text.drop state.owed := rfl
        rw [List.length_cons] at hlen
        dsimp only
        rw [hskip, hdrop, hhead.chars_take hle, ih steps _ (by omega) (by rw [List.length_drop]; omega) hrest]

/-! ## The piece of a text -/

/-- A text that is cut between characters all along, where each piece has room for `room` bytes: at the last boundary
below the room, or — where fewer than twenty bytes and more than none are between them — at one byte more than there
are characters before the last space. -/
inductive Splits (room : Nat) : Bytes → Prop where
  | fits {text : Bytes} (hshort : text.length ≤ room) : Splits room text
  | whole {text : Bytes} {cut : Nat} (hlong : room < text.length) (hcut : LastBoundary room text cut) (hpos : 0 < cut)
      (hfar : ∀ pos, lastSpace (text.take cut) = some pos →
        ¬ (utf8Chars (text.take pos) < cut ∧ cut < utf8Chars (text.take pos) + 20))
      (hrest : Splits room (text.drop cut)) : Splits room text
  | word {text : Bytes} {cut pos : Nat} (hlong : room < text.length) (hcut : LastBoundary room text cut)
      (hspace : lastSpace (text.take cut) = some pos)
      (hnear : utf8Chars (text.take pos) < cut ∧ cut < utf8Chars (text.take pos) + 20)
      (hwhole : Utf8 (text.take (utf8Chars (text.take pos) + 1)))
      (hrest : Splits room (text.drop (utf8Chars (text.take pos) + 1))) : Splits room text

section Piece

variable {win : Window} {cmdLength : Nat} {text : Bytes}

theorem splitUpText_eq_none (h : text.length ≤ textRoom win cmdLength) : splitUpText win cmdLength text = none :=
  if_neg (by omega)

/-- The cut after the last space. -/
theorem splitUpText_word (htext : Utf8 text) (hlong : textRoom win cmdLength < text.length) {cut pos : Nat}
    (hcut : LastBoundary (textRoom win cmdLength) text cut) (hspace : lastSpace (text.take cut) = some pos) :
    splitUpText win cmdLength text =
      if utf8Chars (text.take pos) < cut ∧ cut < utf8Chars (text.take pos) + 20 then
        some (text.take (utf8Chars (text.take pos) + 1))
      else some (text.take cut) := by
  obtain ⟨hlt, hget⟩ := lastSpace_lt hspace
  have hwhole : Utf8 (text.take pos) := htext.take_of_ascii hget (by decide)
  have hlen : pos < text.length := (List.getElem?_eq_some_iff.1 hget).1
  have hoffset := utf8Offset_eq htext pos pos le_rfl hlen.le hwhole
  have hle := utf8Offset_le pos pos text
  rw [hoffset] at hle
  unfold splitUpText
  dsimp only
  rw [(cutPoint_lastBoundary htext hlong).unique hcut]
  rw [if_pos hlong, hspace]
  dsimp only
  rw [hoffset]
  by_cases hnear : utf8Chars (text.take pos) < cut ∧ cut < utf8Chars (text.take pos) + 20
  · rw [if_pos (by simp; omega), if_pos hnear]
  · rw [if_neg (by simp; omega), if_neg hnear]

theorem splitUpText_unspaced (htext : Utf8 text) (hlong : textRoom win cmdLength < text.length) {cut : Nat}
    (hcut : LastBoundary (textRoom win cmdLength) text cut) (hspace : lastSpace (text.take cut) = none) :
    splitUpText win cmdLength text = some (text.take cut) := by
  unfold splitUpText
  dsimp only
  rw [(cutPoint_lastBoundary htext hlong).unique hcut]
  rw [if_pos hlong, hspace]

theorem splitUpText_length {piece : Bytes} (h : splitUpText win cmdLength text = some piece) :
    piece.length ≤ textRoom win cmdLength := by
  have hcut := cutPoint_le (textRoom win cmdLength) (textRoom win cmdLength) 0 text (Nat.zero_le _)
  unfold splitUpText at h
  dsimp only at h
  split at h
  · rcases hspace : lastSpace (text.take (cutPoint (textRoom win cmdLength) (textRoom win cmdLength) 0 text)) with _ | pos
    · rw [hspace] at h
      cases h
      exact (List.length_take_le _ _).trans hcut
    · have hlt := (lastSpace_lt hspace).1
      have hle := utf8Offset_le pos pos text
      rw [hspace] at h
      dsimp only at h
      split at h
      · cases h
        exact (List.length_take_le _ _).trans (by omega)
      · cases h
        exact (List.length_take_le _ _).trans hcut
  · cases h

/-- The loop, where it ends, has sent nothing but what fits and nothing empty. -/
theorem splitFrom_sent (steps : Nat) : ∀ text : Bytes, (splitFrom win cmdLength steps text).2 = true →
    (∀ piece ∈ (splitFrom win cmdLength steps text).1, piece.length ≤ textRoom win cmdLength) ∧
      ∀ piece ∈ (splitFrom win cmdLength steps text).1.dropLast, piece ≠ [] := by
  induction steps with
  | zero => exact fun text h => absurd h Bool.false_ne_true
  | succ steps ih =>
    intro text hended
    rw [splitFrom] at hended ⊢
    cases hsplit : splitUpText win cmdLength text with
    | none =>
      have hshort : text.length ≤ textRoom win cmdLength := by
        by_contra hlong
        unfold splitUpText at hsplit
        dsimp only at hsplit
        rw [if_pos (by omega)] at hsplit
        split at hsplit
        · split at hsplit <;> cases hsplit
        · cases hsplit
      exact ⟨fun piece hp => by rwa [List.mem_singleton.1 hp], fun piece hp => absurd hp List.not_mem_nil⟩
    | some piece =>
      simp only [hsplit] at hended ⊢
      split_ifs at hended ⊢ with hempty
      obtain ⟨hroom, hne⟩ := ih _ hended
      have hsome := (splitFrom_flatten steps _ hended).2
      refine ⟨fun p hp => ?_, fun p hp => ?_⟩
      · rcases List.mem_cons.1 hp with rfl | hp
        · exact splitUpText_length hsplit
        · exact hroom p hp
      · rw [List.dropLast_cons_of_ne_nil hsome] at hp
        rcases List.mem_cons.1 hp with rfl | hp
        · simpa using hempty
        · exact hne p hp

/-- **One pass of the loop** over a text that is too long, and what it takes for the text to split. -/
theorem splits_long_iff (htext : Utf8 text) (hlong : textRoom win cmdLength < text.length) :
    ∃ n, splitUpText win cmdLength text = some (text.take n) ∧
      (Splits (textRoom win cmdLength) text ↔
        0 < n ∧ Utf8 (text.take n) ∧ Splits (textRoom win cmdLength) (text.drop n)) := by
  have hcut := cutPoint_lastBoundary htext hlong
  generalize cutPoint (textRoom win cmdLength) (textRoom win cmdLength) 0 text = cut at hcut
  -- cut at the boundary, unless the last word is short
  have hwhole (hfar : ∀ pos, lastSpace (text.take cut) = some pos →
      ¬ (utf8Chars (text.take pos) < cut ∧ cut < utf8Chars (text.take pos) + 20)) :
      Splits (textRoom win cmdLength) text ↔
        0 < cut ∧ Utf8 (text.take cut) ∧ Splits (textRoom win cmdLength) (text.drop cut) := by
    constructor
    · rintro (hshort | ⟨-, hcut', hpos, -, hrest⟩ | ⟨-, hcut', hspace, hnear, -, -⟩)
      · exact absurd hlong (not_lt.2 hshort)
      · obtain rfl := hcut.unique hcut'
        exact ⟨hpos, hcut.whole, hrest⟩
      · obtain rfl := hcut.unique hcut'
        exact absurd hnear (hfar _ hspace)
    · rintro ⟨hpos, -, hrest⟩
      exact .whole hlong hcut hpos hfar hrest
  rcases hspace : lastSpace (text.take cut) with _ | pos
  · exact ⟨cut, splitUpText_unspaced htext hlong hcut hspace, hwhole fun pos h => by rw [hspace] at h; cases h⟩
  · have hword := splitUpText_word htext hlong hcut hspace
    by_cases hnear : utf8Chars (text.take pos) < cut ∧ cut < utf8Chars (text.take pos) + 20
    · rw [if_pos hnear] at hword
      refine ⟨_, hword, ?_⟩
      constructor
      · rintro (hshort | ⟨-, hcut', -, hfar, -⟩ | ⟨-, hcut', hspace', -, hword', hrest⟩)
        · exact absurd hlong (not_lt.2 hshort)
        · obtain rfl := hcut.unique hcut'
          exact absurd hnear (hfar pos hspace)
        · obtain rfl := hcut.unique hcut'
          obtain rfl := Option.some.inj (hspace.symm.trans hspace')
          exact ⟨Nat.succ_pos _, hword', hrest⟩
      · rintro ⟨-, hword', hrest⟩
        exact .word hlong hcut hspace hnear hword' hrest
    · rw [if_neg hnear] at hword
      refine ⟨cut, hword, hwhole fun pos' hspace' => ?_⟩
      obtain rfl := Option.some.inj (hspace.symm.trans hspace')
      exact hnear

/-- **The loop over a text** ends with whole characters in every piece exactly when the text splits. -/
theorem splitFrom_iff (win : Window) (cmdLength steps : Nat) : ∀ {text : Bytes}, Utf8 text → text.length < steps →
    (((splitFrom win cmdLength steps text).2 = true ∧ ∀ piece ∈ (splitFrom win cmdLength steps text).1, Utf8 piece) ↔
      Splits (textRoom win cmdLength) text) := by
  induction steps with
  | zero => exact fun _ h => absurd h (Nat.not_lt_zero _)
  | succ steps ih =>
    intro text htext hsteps
    rw [splitFrom]
    by_cases hshort : text.length ≤ textRoom win cmdLength
    · rw [splitUpText_eq_none hshort]
      exact iff_of_true ⟨rfl, fun piece hp => by rwa [List.mem_singleton.1 hp]⟩ (.fits hshort)
    · have hlong : textRoom win cmdLength < text.length := not_le.1 hshort
      obtain ⟨n, hpiece, hsplits⟩ := splits_long_iff htext hlong
      have hempty : (text.take n).isEmpty = true ↔ n = 0 := by
        rw [List.isEmpty_iff, List.take_eq_nil_iff, or_iff_left]
        rintro rfl
        exact absurd hlong (Nat.not_lt_zero _)
      have hdrop : text.drop (text.take n).length = text.drop n := by
        rw [List.length_take]
        rcases Nat.le_total n text.length with hle | hle
        · rw [Nat.min_eq_left hle]
        · rw [Nat.min_eq_right hle, List.drop_length, List.drop_eq_nil_of_le hle]
      rw [hpiece, hsplits]
      dsimp only
      rw [hdrop]
      by_cases hzero : n = 0
      · rw [if_pos (hempty.2 hzero)]
        exact iff_of_false (fun h => absurd h.1 Bool.false_ne_true) fun h => absurd h.1 (by omega)
      · rw [if_neg (mt hempty.1 hzero)]
        dsimp only
        rw [List.forall_mem_cons]
        constructor
        · rintro ⟨hended, hwhole, hpieces⟩
          have hlen : (text.drop n).length < steps := by
            rw [List.length_drop]
            omega
          exact ⟨Nat.pos_of_ne_zero hzero, hwhole, (ih (htext.drop hwhole) hlen).1 ⟨hended, hpieces⟩⟩
        · rintro ⟨hpos, hwhole, hrest⟩
          have hlen : (text.drop n).length < steps := by
            rw [List.length_drop]
            omega
          obtain ⟨hended, hpieces⟩ := (ih (htext.drop hwhole) hlen).2 hrest
          exact ⟨hended, hwhole, hpieces⟩

end Piece

/-! ## The line the server relays -/

/-- `:nick!user@host PRIVMSG channel :piece` and the end of the line; `host` is `user@host`. -/
def relayed (win : Window) (host piece : Bytes) : Bytes :=
  bytes ":" ++ win.nick ++ bytes "!" ++ host ++ bytes " PRIVMSG " ++ win.channel ++ bytes " :" ++ piece ++ [13, 10]

/-- A line is sent whole: the loop ends, its pieces are not empty, no character is cut in two, together the pieces and the
remainder are the text, and where the host is known the server can relay each of them. -/
structure SplitWhole (win : Window) (text : Bytes) : Prop where
  ended : (splitPieces win text).2 = true
  nonempty : ∀ piece ∈ (splitPieces win text).1.dropLast, piece ≠ []
  characters : ∀ piece ∈ (splitPieces win text).1, Utf8 piece
  whole : (splitPieces win text).1.flatten = text
  fits : ∀ host, win.hostname = some host → ∀ piece ∈ (splitPieces win text).1, (relayed win host piece).length ≤ 512

theorem length_relayed (win : Window) (host piece : Bytes) :
    (relayed win host piece).length = win.nick.length + win.channel.length + host.length + piece.length + 15 := by
  unfold relayed
  simp only [List.length_append]
  rw [show (bytes ":").length = 1 by decide, show (bytes "!").length = 1 by decide,
    show (bytes " PRIVMSG ").length = 9 by decide, show (bytes " :").length = 2 by decide,
    show ([13, 10] : Bytes).length = 2 by decide]
  omega

/-- **A long line is sent whole** exactly when, where the host is known, a relayed line has room for a byte of it, and its
text splits. -/
theorem split_whole_iff {win : Window} {text : Bytes} (htext : Utf8 text) :
    SplitWhole win text ↔
      (∀ host, win.hostname = some host →
        win.nick.length + win.channel.length + host.length + 15 + min text.length 1 ≤ 512) ∧
      Splits (textRoom win 13) text := by
  have hloop := splitFrom_iff win 13 (text.length + 1) htext (Nat.lt_succ_self _)
  constructor
  · rintro ⟨hended, -, hwhole, hflat, hrelayed⟩
    refine ⟨fun host hhost => ?_, hloop.1 ⟨hended, hwhole⟩⟩
    have hsome := (splitPieces_flatten hended).2
    by_cases hnil : text = []
    · obtain ⟨piece, hpiece⟩ := List.exists_mem_of_ne_nil _ hsome
      have hline := hrelayed host hhost piece hpiece
      rw [length_relayed] at hline
      rw [hnil, List.length_nil]
      omega
    · have hpiece : ∃ piece ∈ (splitPieces win text).1, piece ≠ [] := by
        by_contra hall
        rw [← hflat] at hnil
        exact hnil (List.flatten_eq_nil_iff.2 fun piece hpiece => by_contra fun hne => hall ⟨piece, hpiece, hne⟩)
      obtain ⟨piece, hpiece, hne⟩ := hpiece
      have hline := hrelayed host hhost piece hpiece
      have hpos := List.length_pos_iff.2 hne
      rw [length_relayed] at hline
      omega
  · rintro ⟨hroom, hsplits⟩
    obtain ⟨hended, hwhole⟩ := hloop.2 hsplits
    obtain ⟨hfits, hne⟩ := splitFrom_sent (text.length + 1) text hended
    refine ⟨hended, hne, hwhole, (splitPieces_flatten hended).1, fun host hhost piece hpiece => ?_⟩
    have hline := hroom host hhost
    rw [length_relayed]
    by_cases hnil : text = []
    · have hempty : piece = [] := by
        have hflat := (splitPieces_flatten hended).1
        rw [hnil] at hpiece hflat
        exact List.flatten_eq_nil_iff.1 hflat piece hpiece
      rw [hempty, List.length_nil]
      rw [hnil, List.length_nil] at hline
      omega
    · have hpos := List.length_pos_iff.2 hnil
      have hlen := hfits piece hpiece
      have hmax : textRoom win 13 + win.nick.length + win.channel.length + host.length = 496 := by
        unfold textRoom
        rw [hhost]
        dsimp only
        omega
      omega

/-- An ASCII text splits where there is room for two bytes. -/
theorem splits_of_ascii {room : Nat} (hroom : 2 ≤ room) {text : Bytes} (h : ∀ b ∈ text, b < 0x80) : Splits room text := by
  induction hn : text.length using Nat.strongRecOn generalizing text with
  | ind n ih =>
    have htake (i : Nat) : ∀ b ∈ text.take i, b < 0x80 := fun b hb => h b (List.mem_of_mem_take hb)
    have hdrop (i : Nat) : ∀ b ∈ text.drop i, b < 0x80 := fun b hb => h b (List.mem_of_mem_drop hb)
    by_cases hshort : text.length ≤ room
    · exact .fits hshort
    · have hlong : room < text.length := not_le.1 hshort
      have hcut : LastBoundary room text (room - 1) :=
        ⟨(utf8_of_ascii (htake _)).1, .inr (by omega), fun i hi _ => by omega⟩
      have hrest (i : Nat) (hi : 0 < i) : Splits room (text.drop i) :=
        ih (text.drop i).length (by rw [List.length_drop]; omega) (hdrop i) rfl
      by_cases hnear : ∃ pos, lastSpace (text.take (room - 1)) = some pos ∧
          utf8Chars (text.take pos) < room - 1 ∧ room - 1 < utf8Chars (text.take pos) + 20
      · obtain ⟨pos, hspace, hnear⟩ := hnear
        exact .word hlong hcut hspace hnear (utf8_of_ascii (htake _)).1 (hrest _ (Nat.succ_pos _))
      · exact .whole hlong hcut (by omega) (fun pos hspace hpos => hnear ⟨pos, hspace, hpos⟩) (hrest _ (by omega))

/-! ## A character before the last space -/

/-- A channel where the room is 480 bytes. -/
def chatting : Window :=
  { type := .channel, channel := bytes "#lounge", nick := bytes "anna", hostname := some (bytes "~a@h.") }

theorem split_whole_ascii : SplitWhole chatting (List.replicate 1000 97) := by
  have hascii : ∀ b ∈ List.replicate 1000 (97 : UInt8), b < 0x80 := fun b hb => by
    rw [List.eq_of_mem_replicate hb]
    decide
  refine (split_whole_iff (utf8_of_ascii hascii).1).2 ⟨fun host hhost => ?_, ?_⟩
  · obtain rfl : bytes "~a@h." = host := Option.some.inj hhost
    rw [List.length_replicate]
    decide
  · exact splits_of_ascii (by decide) hascii

/-- Letters, two of two bytes each at their end, a space, and a word. -/
def cafe : Bytes := List.replicate 460 97 ++ [0xC3, 0xA9, 0xC3, 0xA9, 32] ++ List.replicate 20 98

/-- The text is cut after the first byte of the last letter before the space. -/
theorem letter_cut_in_two : Utf8 cafe ∧ (splitPieces chatting cafe).2 = true ∧
    (splitPieces chatting cafe).1.head? = some (List.replicate 460 97 ++ [0xC3, 0xA9, 0xC3]) ∧
    ¬ SplitWhole chatting cafe := by
  have hhead : (splitPieces chatting cafe).1.head? = some (List.replicate 460 97 ++ [0xC3, 0xA9, 0xC3]) := by
    decide +kernel
  refine ⟨by decide +kernel, by decide +kernel, hhead, fun hwhole => ?_⟩
  have hpiece := hwhole.characters _ (List.mem_of_mem_head? (Option.mem_def.2 hhead))
  exact absurd hpiece (by decide +kernel)

end PoxChat.Outbound
