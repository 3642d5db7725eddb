import PoxChat.Inbound.Lines
import PoxChat.Inbound.Reading
import PoxChat.Lib.Segments

/-!
# Lines and packets

The line buffer of `server_read` byte by byte, with the slots that are written, over a stream that `recv` returns in any pieces.

* `lineByte` — the body of the loop, on `linebuf` and `pos`.
* `frames` — the lines of a stream: what LF ends, without CR, cut to the buffer.
* `server_read_frames` — however the stream is divided, these lines are passed on, and `pos` stays in the buffer.
-/

set_option autoImplicit false

namespace PoxChat.Inbound

open Lib
open Outbound (Bytes)

/-! ## The line buffer -/

/-- `serv->linebuf`, `serv->pos` and the lines passed to `server_inline`. -/
structure LineRead where
  linebuf : Bytes
  pos : Nat
  inlined : List Bytes

/-- The body of the loop of `server_read`. -/
def lineByte (s : LineRead) (c : UInt8) : LineRead :=
  if c = 13 then s
  else if c = 10 then
    let linebuf := s.linebuf.set s.pos 0
    ⟨linebuf, 0, s.inlined ++ [linebuf.take s.pos]⟩
  else
    let linebuf := s.linebuf.set s.pos c
    -- the last slot is written again by every byte that has no room
    if s.pos ≥ linebuf.length - 1 then { s with linebuf := linebuf } else { s with linebuf := linebuf, pos := s.pos + 1 }

/-- What one `recv` returned. -/
def readBlock (s : LineRead) (lbuf : Bytes) : LineRead := lbuf.foldl lineByte s

def serverReads (s : LineRead) (recvs : List Bytes) : LineRead := recvs.foldl readBlock s

/-! ## The lines of a stream -/

/-- A line as it is passed on. -/
def frame (segment : Bytes) : Bytes := (segment.filter (· ≠ 13)).take (LINEBUF - 1)

def frames (stream : Bytes) : List Bytes := (ended 10 stream).map frame

/-- These segments have been passed on, and `last` has been read of the next. -/
structure HasRead (s : LineRead) (segments : List Bytes) (last : Bytes) : Prop where
  size : s.linebuf.length = LINEBUF
  lines : s.inlined = segments.map frame
  buffer : s.linebuf.take s.pos = frame last
  inside : s.pos = (frame last).length

theorem frame_length (segment : Bytes) : (frame segment).length ≤ LINEBUF - 1 := List.length_take_le _ _

theorem frame_cr (segment : Bytes) : frame (segment ++ [13]) = frame segment := by
  unfold frame
  rw [List.filter_append, List.filter_cons_of_neg (by decide), List.filter_nil, List.append_nil]

theorem frame_full {segment : Bytes} (h : (frame segment).length = LINEBUF - 1) (rest : Bytes) :
    frame (segment ++ rest) = frame segment := by
  unfold frame at h ⊢
  rw [List.filter_append, List.take_append_of_le_length]
  rw [List.length_take] at h
  omega

theorem frame_room {segment : Bytes} {c : UInt8} (hc : c ≠ 13) (h : (frame segment).length < LINEBUF - 1) :
    frame (segment ++ [c]) = frame segment ++ [c] := by
  unfold frame at h ⊢
  rw [List.length_take] at h
  rw [List.filter_append, List.filter_cons_of_pos (by simpa using hc), List.filter_nil, List.take_of_length_le,
    List.take_of_length_le]
  · omega
  · rw [List.length_append, List.length_singleton]
    omega

theorem take_set_self (text : Bytes) (n : Nat) (c : UInt8) : (text.set n c).take n = text.take n :=
  List.take_set_of_le (Nat.le_refl n)

/-- LF passes the line on. -/
theorem lineByte_lf {s : LineRead} {segments : List Bytes} {last : Bytes} (h : HasRead s segments last) :
    HasRead (lineByte s 10) (segments ++ [last]) [] := by
  rw [lineByte, if_neg (by decide), if_pos rfl]
  refine ⟨?_, ?_, rfl, rfl⟩
  · rw [List.length_set, h.size]
  · dsimp only
    rw [take_set_self, h.buffer, h.lines, List.map_append]
    rfl

/-- Any other byte goes into the buffer, as far as there is room. -/
theorem lineByte_other {s : LineRead} {segments : List Bytes} {last : Bytes} {c : UInt8} (hc : c ≠ 10)
    (h : HasRead s segments last) : HasRead (lineByte s c) segments (last ++ [c]) := by
  by_cases hcr : c = 13
  · subst hcr
    rw [lineByte, if_pos rfl]
    exact ⟨h.size, h.lines, by rw [frame_cr]; exact h.buffer, by rw [frame_cr]; exact h.inside⟩
  · have hlen := frame_length last
    have hsize : (s.linebuf.set s.pos c).length = LINEBUF := by rw [List.length_set, h.size]
    rw [lineByte, if_neg hcr, if_neg hc]
    dsimp only
    rw [hsize]
    split
    · rename_i hfull
      have heq : (frame last).length = LINEBUF - 1 := by
        have := h.inside
        omega
      refine ⟨hsize, h.lines, ?_, ?_⟩
      · rw [frame_full heq, take_set_self]
        exact h.buffer
      · rw [frame_full heq]
        exact h.inside
    · rename_i hroom
      have hlt : (frame last).length < LINEBUF - 1 := by
        have := h.inside
        omega
      have hpos : s.pos < s.linebuf.length := by
        rw [h.size]
        omega
      refine ⟨hsize, h.lines, ?_, ?_⟩
      · rw [frame_room hcr hlt, ← h.buffer, List.take_add_one, take_set_self, List.getElem?_set_self hpos]
        rfl
      · rw [frame_room hcr hlt, List.length_append, ← h.inside]
        rfl

/-- **What has been read** of any stream: its segments have been passed on, and the rest is in the buffer. -/
theorem lineByte_reads {linebuf : Bytes} (hsize : linebuf.length = LINEBUF) (stream : Bytes) :
    HasRead (stream.foldl lineByte ⟨linebuf, 0, []⟩) (ended 10 stream) (unfinished 10 stream) :=
  run_segments 10 lineByte HasRead (fun _ _ _ h => lineByte_lf h) (fun _ _ _ _ hc h => lineByte_other hc h)
    ⟨hsize, rfl, rfl, rfl⟩ stream

/-- Reading in pieces is reading their concatenation. -/
theorem serverReads_flatten (s : LineRead) (recvs : List Bytes) : serverReads s recvs = recvs.flatten.foldl lineByte s := by
  rw [List.foldl_flatten]
  rfl

/-- **Lines do not depend on packets**: the lines passed on are those of the stream, however it is divided, and after every byte
the buffer has its size and `pos` is in it. -/
theorem server_read_frames {linebuf : Bytes} (hsize : linebuf.length = LINEBUF) (recvs : List Bytes) :
    (serverReads ⟨linebuf, 0, []⟩ recvs).inlined = frames recvs.flatten ∧
    (∀ recvs', recvs'.flatten = recvs.flatten →
      (serverReads ⟨linebuf, 0, []⟩ recvs').inlined = (serverReads ⟨linebuf, 0, []⟩ recvs).inlined) ∧
    ∀ stream, stream <+: recvs.flatten → (stream.foldl lineByte ⟨linebuf, 0, []⟩).linebuf.length = LINEBUF ∧
      (stream.foldl lineByte ⟨linebuf, 0, []⟩).pos < LINEBUF := by
  refine ⟨?_, fun recvs' hsame => ?_, fun stream _ => ?_⟩
  · rw [serverReads_flatten]
    exact (lineByte_reads hsize recvs.flatten).lines
  · rw [serverReads_flatten, serverReads_flatten, hsame]
  · have hread := lineByte_reads hsize stream
    have hlen := frame_length (unfinished 10 stream)
    refine ⟨hread.size, ?_⟩
    rw [hread.inside]
    exact Nat.lt_of_le_of_lt hlen (by decide)

theorem server_read_frames_ping : (serverReads ⟨List.replicate LINEBUF 0, 0, []⟩ [[80, 73], [78, 71, 13], [10, 80]]).inlined =
      frames [[80, 73], [78, 71, 13], [10, 80]].flatten ∧
    (∀ recvs', recvs'.flatten = [[80, 73], [78, 71, 13], [10, 80]].flatten →
      (serverReads ⟨List.replicate LINEBUF 0, 0, []⟩ recvs').inlined =
        (serverReads ⟨List.replicate LINEBUF 0, 0, []⟩ [[80, 73], [78, 71, 13], [10, 80]]).inlined) ∧
    ∀ stream, stream <+: [[80, 73], [78, 71, 13], [10, 80]].flatten →
      (stream.foldl lineByte ⟨List.replicate LINEBUF 0, 0, []⟩).linebuf.length = LINEBUF ∧
      (stream.foldl lineByte ⟨List.replicate LINEBUF 0, 0, []⟩).pos < LINEBUF :=
  server_read_frames List.length_replicate [[80, 73], [78, 71, 13], [10, 80]]

/-! ## The connection and its lines -/

/-- The buffer and the lines of a connection, without the numbers of the connections. -/
structure Reading (serv : Serv) (s : LineRead) : Prop where
  size : s.linebuf.length = LINEBUF
  buffer : s.linebuf.take s.pos = serv.linebuf.map (·.2)
  inside : s.pos = serv.linebuf.length
  lines : s.inlined = serv.inlined.map fun l => l.line.map (·.2)

theorem affect_inlined (serv : Serv) (effect : Effect) : (serv.affect effect).inlined = serv.inlined := by
  have hcleanup : ∀ s : Serv, (serverDisconnect s).inlined = s.inlined := by
    intro s
    unfold serverDisconnect serverCleanup
    split_ifs <;> rfl
  cases effect with
  | goOn => rfl
  | disconnect => exact hcleanup serv
  | reconnect =>
    rw [Serv.affect, serverConnect]
    dsimp only
    split_ifs
    · exact (hcleanup _).trans (hcleanup serv)
    · exact hcleanup serv
  | reconnectLater =>
    rw [Serv.affect, autoReconnect]
    dsimp only
    split_ifs
    · exact hcleanup serv
    · rfl

/-- **The connection reads as its line buffer does**, whatever the handling of a line does to it. -/
theorem readByte_reads {handle : List (List UInt8) → Effect} {sok : Nat} {serv : Serv} {s : LineRead} (h : Reading serv s)
    (hroom : s.pos < LINEBUF) (c : UInt8) : Reading (readByte handle sok serv c) (lineByte s c) := by
  have hsize : (s.linebuf.set s.pos c).length = LINEBUF := by rw [List.length_set, h.size]
  rw [readByte, lineByte]
  by_cases hcr : c = 13
  · rw [if_pos hcr, if_pos hcr]
    exact h
  · rw [if_neg hcr, if_neg hcr]
    by_cases hlf : c = 10
    · rw [if_pos hlf, if_pos hlf]
      refine ⟨by rw [List.length_set, h.size], rfl, rfl, ?_⟩
      dsimp only
      rw [serverInline, affect_inlined, take_set_self, h.buffer, h.lines, List.map_append]
      rfl
    · rw [if_neg hlf, if_neg hlf]
      dsimp only
      rw [hsize, ← h.inside]
      split
      · exact ⟨hsize, by rw [take_set_self]; exact h.buffer, h.inside, h.lines⟩
      · have hpos : s.pos < s.linebuf.length := h.size.symm ▸ hroom
        refine ⟨hsize, ?_, ?_, h.lines⟩
        · dsimp only
          rw [List.take_add_one, take_set_self, List.getElem?_set_self hpos, h.buffer, List.map_append]
          rfl
        · rw [List.length_append, ← h.inside]
          rfl

/-- **The lines of a connection** are those of its stream. -/
theorem readByte_frames (handle : List (List UInt8) → Effect) (sok : Nat) {serv : Serv} (hbuf : serv.linebuf = [])
    (hlines : serv.inlined = []) (stream : Bytes) :
    (stream.foldl (readByte handle sok) serv).inlined.map (fun l => l.line.map (·.2)) = frames stream := by
  have hstart : HasRead ⟨List.replicate LINEBUF 0, 0, []⟩ [] [] ∧ Reading serv ⟨List.replicate LINEBUF 0, 0, []⟩ :=
    ⟨⟨List.length_replicate, rfl, rfl, rfl⟩, ⟨List.length_replicate, by rw [hbuf]; rfl, by rw [hbuf]; rfl, by rw [hlines]; rfl⟩⟩
  have hinside : ∀ {s segments last}, HasRead s segments last → s.pos < LINEBUF := by
    intro s segments last h
    rw [h.inside]
    exact Nat.lt_of_le_of_lt (frame_length last) (by decide)
  obtain ⟨s, hread, hreading⟩ := run_segments 10 (readByte handle sok)
    (fun serv segments last => ∃ s, HasRead s segments last ∧ Reading serv s)
    (fun _ _ _ ⟨_, hread, hreading⟩ => ⟨_, lineByte_lf hread, readByte_reads hreading (hinside hread) 10⟩)
    (fun _ _ _ c hc ⟨_, hread, hreading⟩ => ⟨_, lineByte_other hc hread, readByte_reads hreading (hinside hread) c⟩)
    ⟨_, hstart⟩ stream
  rw [← hreading.lines, hread.lines, frames]

end PoxChat.Inbound
