import PoxChat.Cap.Negotiation
import PoxChat.Outbound.TypedOrder
import Mathlib.Data.List.Forall2

/-!
# One mode for many nicks

Model of `send_channel_modes` of `modes.c`, and of the limit that `inbound_005` takes from MODES.

* `usableModes` — how many nicks go on a line, with a byte reserved for each mode letter that the limit allows.
* `Reached` — the lines give the mode to every nick, in order.
* `sendChannelModes_reach_iff` — they do exactly when every nick fits beside the reserve.
-/

set_option autoImplicit false

namespace PoxChat.Modes

open Lib
open Outbound (Bytes bytes space cmdBuf cmdBuf_eq_self)
open Cap (atoi)

/-! ## The function -/

/-- `inbound_005`, for the value of MODES: the new `serv->modes_per_line`. -/
def inbound005Modes (tokvalue : Bytes) : Int := atoi tokvalue

/-- The sanity check of `serv->modes_per_line`. -/
def checkedModesPerLine (modesPerLine : Int) : Int := if modesPerLine < 1 then 3 else modesPerLine

/-- The loop that counts the nicks for a line, from the `i`th on; `none` where the sum is no `int`, which C leaves undefined. -/
def usableModes (max modesPerLine : Int) (i : Nat) (len : Int) : List Bytes → Option Nat
  | [] => some i
  | nick :: nicks =>
    if (i : Int) < modesPerLine then
      let wlen : Int := nick.length + 1
      if wlen + len > 2147483647 then none
      else if wlen + len > max then some i
      else usableModes max modesPerLine (i + 1) (len + wlen) nicks
    else some i

/-- What is put into `tbuf`. -/
def modeString (sign mode : UInt8) (nicks : List Bytes) : Bytes :=
  sign :: List.replicate nicks.length mode ++ nicks.flatMap (space :: ·)

/-- What `irc_mode` formats. -/
def ircModeText (target mode : Bytes) : Bytes := bytes "MODE " ++ target ++ bytes " " ++ mode ++ bytes "\r\n"

/-- The loop over the lines: what is handed to `tcp_send_len`. -/
def modeLines (channel : Bytes) (sign mode : UInt8) (modesPerLine : Int) (nicks : List Bytes) : Option (List Bytes) :=
  if nicks = [] then some []
  else
    match usableModes (503 - channel.length) modesPerLine 0 modesPerLine nicks with
    | none => none
    | some 0 => some []
    | some (usable + 1) =>
      (modeLines channel sign mode modesPerLine (nicks.drop (usable + 1))).map
        (cmdBuf (ircModeText channel (modeString sign mode (nicks.take (usable + 1)))) :: ·)
termination_by nicks.length
decreasing_by
  rename_i hne
  have := List.length_pos_iff.2 hne
  rw [List.length_drop]
  omega

/-- The limit that counts: the argument, or that of the server where there is none. -/
def lineLimit (servModesPerLine modesPerLine : Int) : Int :=
  if modesPerLine < 1 then checkedModesPerLine servModesPerLine else modesPerLine

/-- `send_channel_modes`, with `serv->modes_per_line`. -/
def sendChannelModes (servModesPerLine : Int) (channel : Bytes) (word : List Bytes) (wpos stop : Nat) (sign mode : UInt8)
    (modesPerLine : Int) : Option (List Bytes) :=
  modeLines channel sign mode (lineLimit servModesPerLine modesPerLine) ((word.take stop).drop wpos)

/-! ## Lines that give the mode -/

/-- The line gives the mode to these nicks. -/
structure ModeLine (channel : Bytes) (sign mode : UInt8) (limit : Int) (nicks : List Bytes) (line : Bytes) : Prop where
  text : line = ircModeText channel (modeString sign mode nicks)
  most : (nicks.length : Int) ≤ limit
  short : line.length ≤ 512

/-- The lines give the mode to all of these nicks, in order. -/
def Reached (channel : Bytes) (sign mode : UInt8) (limit : Int) (nicks : List Bytes) (sent : Option (List Bytes)) : Prop :=
  ∃ lines groups, sent = some lines ∧ List.Forall₂ (ModeLine channel sign mode limit) groups lines ∧ groups.flatten = nicks

/-- A nick fits on a line beside the letters that the limit allows. -/
def FitsReserve (channel : Bytes) (limit : Int) (nick : Bytes) : Prop := limit + nick.length + 1 ≤ 503 - channel.length

/-! ## One line -/

/-- The bytes of the nicks, each with the space before it. -/
def wordBytes (nicks : List Bytes) : Nat := (nicks.map fun nick => nick.length + 1).sum

theorem wordBytes_append (nicks nicks' : List Bytes) : wordBytes (nicks ++ nicks') = wordBytes nicks + wordBytes nicks' := by
  rw [wordBytes, List.map_append, List.sum_append]
  rfl

theorem modeString_length (sign mode : UInt8) (nicks : List Bytes) :
    (modeString sign mode nicks).length = 1 + nicks.length + wordBytes nicks := by
  rw [modeString, List.length_append, List.length_cons, List.length_replicate, List.length_flatMap, wordBytes]
  simp only [List.length_cons]
  exact congrArg (· + _) (Nat.add_comm _ 1)

theorem ircModeText_length (channel mode : Bytes) : (ircModeText channel mode).length = 8 + channel.length + mode.length := by
  simp only [ircModeText, List.length_append, show (bytes "MODE ").length = 5 from rfl, show (bytes " ").length = 1 from rfl,
    show (bytes "\r\n").length = 2 from rfl]
  omega

/-- What the count of a line says of the nicks it takes, and of the one it stops at. -/
structure Taken (max limit : Int) (i : Nat) (len : Int) (nicks : List Bytes) (k : Nat) : Prop where
  enough : i ≤ k ∧ k ≤ i + nicks.length
  most : (i : Int) ≤ limit → (k : Int) ≤ limit
  fits : len ≤ max → len + wordBytes (nicks.take (k - i)) ≤ max
  each : ∀ nick ∈ nicks.take (k - i), len + nick.length + 1 ≤ max
  stops : ∀ nick nicks', nicks = nick :: nicks' → k = i → (i : Int) < limit → max < len + nick.length + 1

theorem usableModes_taken {max limit : Int} {i : Nat} {len : Int} {nicks : List Bytes} {k : Nat}
    (h : usableModes max limit i len nicks = some k) : Taken max limit i len nicks k := by
  induction nicks generalizing i len with
  | nil =>
    obtain rfl : i = k := Option.some.inj h
    exact ⟨by simp, fun hle => hle, fun hle => by simpa [wordBytes] using hle, by simp, fun _ _ he => nomatch he⟩
  | cons nick nicks ih =>
    have hlength : (nick :: nicks).length = nicks.length + 1 := rfl
    rw [usableModes] at h
    dsimp only at h
    split_ifs at h with hlimit hover hmax
    · obtain rfl : i = k := Option.some.inj h
      refine ⟨by omega, fun hle => hle, fun hle => by simpa [wordBytes] using hle, by simp, ?_⟩
      rintro nick' nicks' he - -
      cases he
      omega
    · have htaken := ih h
      obtain ⟨hle, hlong⟩ := htaken.enough
      have htake : (nick :: nicks).take (k - i) = nick :: nicks.take (k - (i + 1)) := by
        rw [show k - i = k - (i + 1) + 1 by omega, List.take_succ_cons]
      refine ⟨by omega, fun _ => htaken.most (by omega), fun _ => ?_, ?_, fun _ _ _ hk _ => by omega⟩
      · have hsum := htaken.fits (by omega)
        rw [htake, wordBytes, List.map_cons, List.sum_cons, ← wordBytes]
        omega
      · rw [htake]
        refine List.forall_mem_cons.2 ⟨by omega, fun other hmem => ?_⟩
        have := htaken.each other hmem
        omega
    · obtain rfl : i = k := Option.some.inj h
      refine ⟨by omega, fun hle => hle, fun hle => by simpa [wordBytes] using hle, by simp, fun _ _ _ _ hlt => absurd hlt hlimit⟩

/-- The sums are `int`s where the nicks are short. -/
theorem usableModes_isSome {max limit : Int} (hmax : max ≤ 503) {nicks : List Bytes} {i : Nat} {len : Int} (hlen : len ≤ max)
    (h : ∀ nick ∈ nicks, nick.length ≤ 503) : ∃ k, usableModes max limit i len nicks = some k := by
  induction nicks generalizing i len with
  | nil => exact ⟨i, rfl⟩
  | cons nick nicks ih =>
    have hnick := h nick List.mem_cons_self
    rw [usableModes]
    dsimp only
    split_ifs with hlimit hover hroom
    · omega
    · exact ⟨i, rfl⟩
    · exact ih (by omega) fun other hmem => h other (List.mem_cons_of_mem nick hmem)
    · exact ⟨i, rfl⟩

/-! ## All lines -/

/-- **A line** of the nicks that were counted. -/
theorem modeLine_of_taken {channel : Bytes} (sign mode : UInt8) {limit : Int} (hlimit : 1 ≤ limit) {nicks : List Bytes} {k : Nat}
    (h : Taken (503 - channel.length) limit 0 limit nicks (k + 1)) :
    ModeLine channel sign mode limit (nicks.take (k + 1))
        (cmdBuf (ircModeText channel (modeString sign mode (nicks.take (k + 1))))) ∧
      ∀ nick ∈ nicks.take (k + 1), FitsReserve channel limit nick := by
  have hmost := h.most (by omega)
  have heach := h.each
  have hfits := h.fits
  have hlen : (nicks.take (k + 1)).length ≤ k + 1 := List.length_take_le _ _
  rw [Nat.sub_zero] at heach hfits
  have hfirst : limit ≤ 503 - channel.length := by
    have hlong := h.enough.2
    cases nicks with
    | nil => simp at hlong
    | cons nick nicks =>
      have := heach nick List.mem_cons_self
      omega
  have hroom := hfits hfirst
  have hshort : (ircModeText channel (modeString sign mode (nicks.take (k + 1)))).length ≤ 512 := by
    rw [ircModeText_length, modeString_length]
    omega
  have hwhole := cmdBuf_eq_self (hshort.trans (by omega))
  exact ⟨⟨hwhole, by omega, by rwa [hwhole]⟩, fun nick hmem => heach nick hmem⟩

/-- **The lines** give the mode to the nicks before the first that does not fit beside the reserve. -/
theorem modeLines_covered {channel : Bytes} {sign mode : UInt8} {limit : Int} (hlimit : 1 ≤ limit) {nicks lines : List Bytes}
    (h : modeLines channel sign mode limit nicks = some lines) : ∃ groups rest, groups.flatten ++ rest = nicks ∧
      List.Forall₂ (ModeLine channel sign mode limit) groups lines ∧
      (∀ nick ∈ groups.flatten, FitsReserve channel limit nick) ∧
      ∀ nick rest', rest = nick :: rest' → ¬ FitsReserve channel limit nick := by
  fun_induction modeLines channel sign mode limit nicks generalizing lines with
  | case1 =>
    cases h
    exact ⟨[], [], rfl, .nil, by simp, by simp⟩
  | case2 => cases h
  | case3 nicks hne hcount =>
    cases h
    have htaken := usableModes_taken hcount
    refine ⟨[], nicks, rfl, .nil, by simp, fun nick rest' he hfits => ?_⟩
    have hstop := htaken.stops nick rest' he rfl (by omega)
    unfold FitsReserve at hfits
    omega
  | case4 nicks hne usable hcount ih =>
    obtain ⟨lines, hlines, rfl⟩ := Option.map_eq_some_iff.1 h
    obtain ⟨groups, rest, hflat, hall, hfits, hstop⟩ := ih hlines
    obtain ⟨hline, hgroup⟩ := modeLine_of_taken sign mode hlimit (usableModes_taken hcount)
    refine ⟨nicks.take (usable + 1) :: groups, rest, ?_, .cons hline hall, ?_, hstop⟩
    · rw [List.flatten_cons, List.append_assoc, hflat, List.take_append_drop]
    · rw [List.flatten_cons]
      exact List.forall_mem_append.2 ⟨hgroup, hfits⟩

/-- The lines tell how much they carry. -/
theorem forall₂_bytes {channel : Bytes} {sign mode : UInt8} {limit : Int} {groups : List (List Bytes)} {lines : List Bytes}
    (h : List.Forall₂ (ModeLine channel sign mode limit) groups lines) :
    (lines.map List.length).sum = lines.length * (9 + channel.length) + (groups.flatten.length + wordBytes groups.flatten) := by
  induction h with
  | nil => simp [wordBytes]
  | @cons group line groups lines hline _ ih =>
    rw [List.map_cons, List.sum_cons, ih, hline.text, ircModeText_length, modeString_length, List.length_cons, List.flatten_cons,
      List.length_append, wordBytes_append, Nat.succ_mul]
    omega

/-- The sums are `int`s where every nick fits. -/
theorem modeLines_isSome {channel : Bytes} (sign mode : UInt8) {limit : Int} (hlimit : 1 ≤ limit) {nicks : List Bytes}
    (h : ∀ nick ∈ nicks, FitsReserve channel limit nick) : ∃ lines, modeLines channel sign mode limit nicks = some lines := by
  fun_induction modeLines channel sign mode limit nicks with
  | case1 => exact ⟨[], rfl⟩
  | case2 nicks hne hcount =>
    obtain ⟨nick, hnick⟩ := List.exists_mem_of_ne_nil nicks hne
    have hfits := h nick hnick
    unfold FitsReserve at hfits
    have hshort : ∀ other ∈ nicks, other.length ≤ 503 := by
      intro other hmem
      have hother := h other hmem
      unfold FitsReserve at hother
      omega
    obtain ⟨k, hk⟩ := @usableModes_isSome (503 - channel.length) limit (by omega) nicks 0 limit (by omega) hshort
    rw [hk] at hcount
    cases hcount
  | case3 => exact ⟨[], rfl⟩
  | case4 nicks hne usable hcount ih =>
    obtain ⟨lines, hlines⟩ := ih fun nick hmem => h nick (List.mem_of_mem_drop hmem)
    exact ⟨_, Option.map_eq_some_iff.2 ⟨lines, hlines, rfl⟩⟩

theorem lineLimit_pos (servModesPerLine modesPerLine : Int) : 1 ≤ lineLimit servModesPerLine modesPerLine := by
  unfold lineLimit checkedModesPerLine
  split_ifs <;> omega

/-- **When every nick is reached**: exactly when each fits on a line beside the letters that the limit allows. -/
theorem sendChannelModes_reach_iff (servModesPerLine : Int) (channel : Bytes) (word : List Bytes) (wpos stop : Nat)
    (sign mode : UInt8) (modesPerLine : Int) :
    Reached channel sign mode (lineLimit servModesPerLine modesPerLine) ((word.take stop).drop wpos)
        (sendChannelModes servModesPerLine channel word wpos stop sign mode modesPerLine) ↔
      ∀ nick ∈ (word.take stop).drop wpos, FitsReserve channel (lineLimit servModesPerLine modesPerLine) nick := by
  have hlimit := lineLimit_pos servModesPerLine modesPerLine
  rw [sendChannelModes]
  generalize (word.take stop).drop wpos = nicks
  generalize lineLimit servModesPerLine modesPerLine = limit at *
  constructor
  · rintro ⟨lines, groups, hsent, hall, hflat⟩
    obtain ⟨groups', rest, hflat', hall', hfits, hstop⟩ := modeLines_covered hlimit hsent
    -- the same lines carry all the nicks and the ones before the stop
    have hbytes := forall₂_bytes hall
    rw [forall₂_bytes hall', hflat, ← hflat', List.length_append, wordBytes_append] at hbytes
    have hrest : rest = [] := List.eq_nil_of_length_eq_zero (by omega)
    rw [hrest, List.append_nil] at hflat'
    rwa [hflat'] at hfits
  · intro h
    obtain ⟨lines, hlines⟩ := modeLines_isSome sign mode hlimit h
    obtain ⟨groups, rest, hflat, hall, -, hstop⟩ := modeLines_covered hlimit hlines
    refine ⟨lines, groups, hlines, hall, ?_⟩
    cases rest with
    | nil => rwa [List.append_nil] at hflat
    | cons nick rest =>
      have hmem : nick ∈ nicks := hflat ▸ List.mem_append_right _ List.mem_cons_self
      exact absurd (h nick hmem) (hstop nick rest rfl)

/-- The server announces `MODES=500`, and one nick is to be made an operator: nothing is sent. -/
theorem modes_500_reach_none : ¬ ∀ (tokvalue channel : Bytes) (nicks : List Bytes) (sign mode : UInt8),
    (∀ nick ∈ nicks, (ircModeText channel ([sign, mode, space] ++ nick)).length ≤ 512) →
    Reached channel sign mode (lineLimit (inbound005Modes tokvalue) 0) nicks
      (sendChannelModes (inbound005Modes tokvalue) channel nicks 0 nicks.length sign mode 0) := by
  intro h
  obtain ⟨lines, groups, hsent, hall, hflat⟩ := h (bytes "500") (bytes "#a") [bytes "nick"] 43 111 (by decide)
  have hlimit : lineLimit (inbound005Modes (bytes "500")) 0 = 500 := by decide
  have hnone : sendChannelModes (inbound005Modes (bytes "500")) (bytes "#a") [bytes "nick"] 0 1 43 111 0 = some [] := by
    have hcount : usableModes (503 - (bytes "#a").length) 500 0 500 [bytes "nick"] = some 0 := by simp [usableModes, bytes]
    have hnicks : ([bytes "nick"].take 1).drop 0 = [bytes "nick"] := rfl
    rw [sendChannelModes, hlimit, hnicks, modeLines, if_neg (by simp), hcount]
  rw [List.length_singleton, hnone] at hsent
  cases hsent
  cases hall
  cases hflat

end PoxChat.Modes
