import Mathlib.Data.List.Perm.Subperm
import PoxChat.Servlist.Restart

/-!
# DCC file transfers

Model of the transfer half of `dcc.c`: the sending client (`dcc_accept`, `dcc_send_data`, `dcc_read_ack`,
`dcc_handle_new_ack`), the receiving client (`dcc_connect_finished`, `dcc_read`, `dcc_send_ack`) and the two
byte streams between them, under any interleaving of their callbacks.

* What a system call gives is an input of the step: how much `recv`, `send` and `write` take, that they would
  block, fail or find the end of the stream.  `write` may take less than it is given; the code does not look.
* `data` is what the sender's socket took and the receiver has not read, `acks` the same the other way.
* `missing` counts the received bytes that `write` did not take.  No function reads it.
* `dcc_calc_cps` sets the throttle bits from rates; here the bits are an input.  The move of a finished file
  to the completed directory, the texts shown and the proxies are left out.

`Sends` and `Receives` say once what a callback of either side can do; `newName_free` — the name `dcc_read`
creates a file under is not taken.
-/

set_option autoImplicit false

namespace PoxChat.Transfers

open Outbound Servlist

/-! ## The receiver's disk -/

/-- The files of a machine, by path. -/
abbrev Disk := List (Bytes × Bytes)

namespace Disk

def read (d : Disk) (path : Bytes) : Option Bytes := (d.find? (·.1 == path)).map (·.2)

def write (d : Disk) (path content : Bytes) : Disk := (path, content) :: d

/-- `g_access (path, F_OK) == 0`. -/
def accessible (d : Disk) (path : Bytes) : Bool := d.any (·.1 == path)

@[simp] theorem read_write_self (d : Disk) (path content : Bytes) :
    (d.write path content).read path = some content := by simp [read, write]

theorem read_write_of_ne (d : Disk) {path other : Bytes} (content : Bytes) (h : other ≠ path) :
    (d.write path content).read other = d.read other := by simp [read, write, h.symm]

theorem accessible_iff {d : Disk} {path : Bytes} : d.accessible path = true ↔ path ∈ d.map (·.1) := by
  simp [accessible]

theorem read_eq_none_iff {d : Disk} {path : Bytes} : d.read path = none ↔ d.accessible path = false := by
  simp [read, accessible]

end Disk

/-- The `n`th other name of a file, as `dcc_read` prints it into its 4096 bytes. -/
def numbered (destfile : Bytes) (n : Nat) : Bytes := (destfile ++ bytes "." ++ decimal n).take 4095

/-- The loop of `dcc_read` over the names that are taken. -/
def freeName (disk : Disk) (destfile : Bytes) : Nat → Nat → Bytes
  | 0, n => numbered destfile n
  | fuel + 1, n =>
    if disk.accessible (numbered destfile n) then freeName disk destfile fuel (n + 1) else numbered destfile n

/-- The name under which `dcc_read` creates the file. -/
def newName (disk : Disk) (destfile : Bytes) : Bytes :=
  if disk.accessible destfile then freeName disk destfile disk.length 1 else destfile

theorem decimal_injective {m n : Nat} (h : decimal m = decimal n) : m = n := by
  rw [← foldl_decimal m, h, foldl_decimal]

theorem numbered_eq {destfile : Bytes} {n m : Nat} (hle : n ≤ m)
    (hfit : (destfile ++ bytes "." ++ decimal m).length ≤ 4095) :
    numbered destfile n = destfile ++ bytes "." ++ decimal n := by
  refine List.take_of_length_le (le_trans ?_ hfit)
  have hdigits : (decimal n).length ≤ (decimal m).length := by
    rw [decimal, decimal, List.length_map, List.length_map,
      Nat.length_toDigits_le_iff (by decide) Nat.length_toDigits_pos]
    exact lt_of_le_of_lt hle ((Nat.length_toDigits_le_iff (by decide) Nat.length_toDigits_pos).1 le_rfl)
  simp only [List.length_append]
  omega

theorem freeName_taken {disk : Disk} {destfile : Bytes} {fuel n : Nat}
    (h : disk.accessible (freeName disk destfile fuel n) = true) :
    ∀ i ≤ fuel, disk.accessible (numbered destfile (n + i)) = true := by
  induction fuel generalizing n with
  | zero =>
    intro i hi
    obtain rfl : i = 0 := by omega
    exact h
  | succ fuel ih =>
    unfold freeName at h
    split_ifs at h with htaken
    · intro i hi
      cases i with
      | zero => exact htaken
      | succ i =>
        rw [show n + (i + 1) = n + 1 + i by omega]
        exact ih h i (by omega)
    · exact absurd h htaken

/-- The loop over the names ends at one that is free: there are more names than files. -/
theorem freeName_free {disk : Disk} {destfile : Bytes}
    (hfit : (destfile ++ bytes "." ++ decimal (disk.length + 1)).length ≤ 4095) :
    disk.accessible (freeName disk destfile disk.length 1) = false := by
  by_contra h
  have htaken := freeName_taken (Bool.eq_true_of_not_eq_false h)
  have hnodup : ((List.range (disk.length + 1)).map fun i => numbered destfile (1 + i)).Nodup := by
    refine (List.nodup_map_iff_inj_on List.nodup_range).2 fun i hi j hj heq => ?_
    rw [List.mem_range] at hi hj
    rw [numbered_eq (m := disk.length + 1) (by omega) hfit, numbered_eq (m := disk.length + 1) (by omega) hfit] at heq
    have := decimal_injective (List.append_cancel_left heq)
    omega
  have hsub : ((List.range (disk.length + 1)).map fun i => numbered destfile (1 + i)) ⊆ disk.map (·.1) := by
    intro name hname
    obtain ⟨i, hi, rfl⟩ := List.mem_map.1 hname
    rw [List.mem_range] at hi
    exact Disk.accessible_iff.1 (htaken i (by omega))
  have hlen := (hnodup.subperm hsub).length_le
  simp only [List.length_map, List.length_range] at hlen
  omega

theorem newName_free {disk : Disk} {destfile : Bytes}
    (hfit : (destfile ++ bytes "." ++ decimal (disk.length + 1)).length ≤ 4095) :
    disk.accessible (newName disk destfile) = false := by
  unfold newName
  split
  · exact freeName_free hfit
  · exact Bool.eq_false_of_not_eq_true ‹_›

/-! ## The records -/

/-- `enum dcc_state`. -/
inductive Stat where
  | queued | active | failed | done | connecting | aborted
  deriving DecidableEq

/-- `struct DCC`, as far as a transfer uses it. -/
structure Dcc where
  size : Nat
  resumable : Nat := 0
  pos : Nat := 0
  ack : Nat := 0
  /-- Four bytes. -/
  ackBuf : Bytes := [0, 0, 0, 0]
  ackPos : Nat := 0
  /-- `sok != -1`. -/
  sok : Bool := true
  /-- `fp != -1`. -/
  fp : Bool := false
  iotag : Bool := false
  wiotag : Bool := false
  dccstat : Stat
  fastsend : Bool := false
  ackoffset : Bool := false
  throttled : Nat := 0
  destfile : Bytes := []

/-- `dcc_close` without the record's removal. -/
def Dcc.close (dcc : Dcc) (dccstat : Stat) : Dcc :=
  { dcc with wiotag := false, iotag := false, sok := false, fp := false, dccstat := dccstat }

/-- The two clients and what is under way between them. -/
structure Link where
  /-- What the sender's descriptor reads. -/
  file : Bytes
  /-- `prefs.hex_dcc_blocksize` of the sender. -/
  blocksize : Int := 1024
  snd : Dcc
  rcv : Dcc
  data : Bytes := []
  acks : Bytes := []
  disk : Disk := []
  missing : Nat := 0

/-- What `send` gives; `error` is also a failing `read` of the file. -/
inductive Sent where
  | took (n : Nat) | again | error
  deriving DecidableEq

/-- How much was taken. -/
def Sent.count : Sent → Nat
  | .took n => n
  | _ => 0

/-- What `recv` gives. -/
inductive Received where
  | took (n : Nat) | again | eof | error

/-- What `write` gives. -/
inductive Written where
  | took (n : Nat) | error

/-! ## The sender -/

def clampBlocksize (pref : Int) : Int := if pref < 1 then 1024 else if pref > 102400 then 102400 else pref

def Link.closeSender (l : Link) (dccstat : Stat) : Link := { l with snd := l.snd.close dccstat }

/-- `dcc_send_data`. -/
def dccSendData (l : Link) (r : Sent) : Link :=
  let l := { l with blocksize := clampBlocksize l.blocksize }
  if l.snd.throttled ≠ 0 then { l with snd := { l.snd with wiotag := false } }
  else if l.snd.fastsend = false ∧ l.snd.ack < l.snd.pos % 2 ^ 32 then l
  else
    let l := { l with snd := { l.snd with wiotag := l.snd.wiotag || l.snd.fastsend } }
    let buf := (l.file.drop l.snd.pos).take l.blocksize.toNat
    if buf = [] ∨ r = .error then l.closeSender .failed
    else
      let sent := buf.take r.count
      let pos := l.snd.pos + sent.length
      { l with
        data := l.data ++ sent
        snd := { l.snd with pos := pos, wiotag := l.snd.wiotag && decide (pos < l.snd.size) } }

/-- `ntohl` of four bytes. -/
def ntohl (buf : Bytes) : Nat := buf.foldl (fun n b => 256 * n + b.toNat) 0

/-- `htonl`, as the bytes sent. -/
def htonl (n : Nat) : Bytes :=
  [(n / 2 ^ 24).toUInt8, (n / 2 ^ 16).toUInt8, (n / 2 ^ 8).toUInt8, n.toUInt8]

/-- The acknowledged position, with the fix for BitchX. -/
def Dcc.newAck (dcc : Dcc) : Dcc :=
  let ack := ntohl dcc.ackBuf
  if dcc.size ≤ 0xffffffff then
    let ackoffset := dcc.ackoffset || decide (ack < dcc.resumable)
    { dcc with ackoffset := ackoffset, ack := if ackoffset then ack + dcc.resumable else ack }
  else { dcc with ack := ack }

/-- The top 32 bits of what was sent and the bottom 32 of what was acknowledged. -/
def Dcc.mixAck (dcc : Dcc) : Dcc := { dcc with ack := dcc.pos / 2 ^ 32 * 2 ^ 32 + dcc.ack % 2 ^ 32 }

/-- `dcc_handle_new_ack`: the records after it, and whether the transfer is over. -/
def dccHandleNewAck (l : Link) (r : Sent) : Link × Bool :=
  let l := { l with snd := l.snd.newAck }
  if l.snd.pos ≥ l.snd.size ∧ l.snd.ack ≥ l.snd.size % 2 ^ 32 then
    let l := { l with snd := { l.snd with ack := l.snd.size }.close .done }
    ({ l with snd := l.snd.mixAck }, true)
  else
    let l := if l.snd.fastsend = false ∧ l.snd.ack ≥ l.snd.pos % 2 ^ 32 then dccSendData l r else l
    ({ l with snd := l.snd.mixAck }, false)

/-- One pass of `dcc_read_ack`: its `recv`, and the `send` that a complete acknowledgement may lead to. -/
structure AckPass where
  recv : Received
  sent : Sent

/-- `dcc_read_ack`; after the passes given, `recv` would block. -/
def dccReadAck : Link → List AckPass → Link
  | l, [] => l
  | l, p :: ps =>
    if l.snd.sok = false then l.closeSender .failed
    else match p.recv with
      | .again => l
      | .eof | .error => l.closeSender .failed
      | .took n =>
        let got := l.acks.take (min n (4 - l.snd.ackPos))
        if got = [] then l
        else
          let l := { l with
            acks := l.acks.drop got.length
            snd := { l.snd with
              ackBuf := got ++ l.snd.ackBuf.drop got.length, ackPos := l.snd.ackPos + got.length } }
          if l.snd.ackPos ≥ 4 then
            let (l, done) := dccHandleNewAck { l with snd := { l.snd with ackPos := 0 } } p.sent
            if done then l else dccReadAck l ps
          else dccReadAck l ps

/-- `dcc_accept`, and `dcc_connect_finished` for a passive send. -/
def dccAccept (l : Link) (fastSend : Bool) (r : Sent) : Link :=
  dccSendData { l with
    snd := { l.snd with
      sok := true, dccstat := .active, fastsend := fastSend, wiotag := fastSend, iotag := true } } r

/-! ## The receiver -/

def Link.closeReceiver (l : Link) (dccstat : Stat) : Link := { l with rcv := l.rcv.close dccstat }

/-- `dcc_send_ack`; the socket takes `taken` of the four bytes, and nobody looks how many. -/
def dccSendAck (l : Link) (taken : Nat) : Link :=
  { l with acks := l.acks ++ (htonl (l.rcv.pos % 2 ^ 32)).take taken }

/-- The file `dcc_read` writes to, opened on its first call. -/
def openFile (l : Link) (fails : Bool) : Link :=
  if l.rcv.fp then l
  else if l.rcv.resumable ≠ 0 then
    { l with rcv := { l.rcv with
      fp := l.disk.accessible l.rcv.destfile && !fails, pos := l.rcv.resumable, ack := l.rcv.resumable } }
  else
    let destfile := newName l.disk l.rcv.destfile
    if fails then { l with rcv := { l.rcv with destfile := destfile } }
    else { l with disk := l.disk.write destfile [], rcv := { l.rcv with destfile := destfile, fp := true } }

/-- One pass of `dcc_read`. -/
structure ReadPass where
  recv : Received
  write : Written

def Link.ackIf (l : Link) (needAck : Bool) (taken : Nat) : Link := if needAck then dccSendAck l taken else l

def Link.watchReceiver (l : Link) (iotag : Bool) : Link := { l with rcv := { l.rcv with iotag := iotag } }

/-- A block is off the stream. -/
def Link.takeData (l : Link) (got : Bytes) : Link := { l with data := l.data.drop got.length }

/-- `write` takes `k` bytes of a block; `pos` moves on by all of it. -/
def Link.store (l : Link) (got : Bytes) (k : Nat) : Link :=
  { l with
    disk := l.disk.write l.rcv.destfile ((l.disk.read l.rcv.destfile).getD [] ++ got.take k)
    missing := l.missing + (got.drop k).length
    rcv := { l.rcv with pos := l.rcv.pos + got.length } }

/-- The loop of `dcc_read`; after the passes given, `recv` would block. -/
def readLoop (taken : Nat) : Link → Bool → List ReadPass → Link
  | l, needAck, ps =>
    if l.rcv.throttled ≠ 0 then (l.ackIf needAck taken).watchReceiver false
    else
      let l := l.watchReceiver true
      match ps with
      | [] => l.ackIf needAck taken
      | p :: ps => match p.recv with
        | .again => l.ackIf needAck taken
        | .eof | .error => l.closeReceiver .failed
        | .took n =>
          let got := l.data.take (min n 4096)
          if got = [] then l.ackIf needAck taken
          else match p.write with
            | .error => ((l.takeData got).ackIf needAck taken).closeReceiver .failed
            | .took k =>
              let l := (l.takeData got).store got k
              if l.rcv.pos ≥ l.rcv.size then (dccSendAck l taken).closeReceiver .done
              else readLoop taken l true ps

/-- `dcc_read`. -/
def dccRead (l : Link) (openFails : Bool) (ps : List ReadPass) (taken : Nat) : Link :=
  let l := openFile l openFails
  if l.rcv.fp = false then l.closeReceiver .failed else readLoop taken l false ps

/-! ## The system -/

/-- What can happen next: a callback of the main loop with what its system calls give. -/
inductive Event where
  /-- The sender's connection is there. -/
  | accept (fastSend : Bool) (r : Sent)
  /-- `dcc_connect_finished` of the receiver. -/
  | connected
  | writable (r : Sent)
  | ackReadable (ps : List AckPass)
  | readable (openFails : Bool) (ps : List ReadPass) (taken : Nat)
  /-- `dcc_calc_cps` of the sender. -/
  | throttleSender (bits : Nat) (r : Sent)
  /-- `dcc_calc_cps` of the receiver. -/
  | throttleReceiver (bits : Nat) (openFails : Bool) (ps : List ReadPass) (taken : Nat)
  /-- `dcc_abort`, or a stall found by `dcc_check_timeouts`. -/
  | abortSender
  | abortReceiver

/-- Whether `dcc_abort` and the timeouts still close the record. -/
def Dcc.running (dcc : Dcc) : Bool := dcc.dccstat ∈ [Stat.queued, .connecting, .active]

def step (l : Link) : Event → Link
  | .accept fastSend r =>
    if l.snd.dccstat = .queued ∨ l.snd.dccstat = .connecting then dccAccept l fastSend r else l
  | .connected =>
    if l.rcv.dccstat = .connecting then { l with rcv := { l.rcv with dccstat := .active, iotag := true } } else l
  | .writable r => if l.snd.wiotag then dccSendData l r else l
  | .ackReadable ps => if l.snd.iotag then dccReadAck l ps else l
  | .readable openFails ps taken => if l.rcv.iotag then dccRead l openFails ps taken else l
  | .throttleSender bits r =>
    if l.snd.dccstat = .active then
      let was := l.snd.throttled
      let l := { l with snd := { l.snd with throttled := bits } }
      if was ≠ 0 ∧ bits = 0 then dccSendData l r else l
    else l
  | .throttleReceiver bits openFails ps taken =>
    if l.rcv.dccstat = .active then
      let was := l.rcv.throttled
      let l := { l with rcv := { l.rcv with throttled := bits } }
      if was ≠ 0 ∧ bits = 0 then dccRead l openFails ps taken else l
    else l
  | .abortSender => if l.snd.running then l.closeSender .aborted else l
  | .abortReceiver => if l.rcv.running then l.closeReceiver .aborted else l

/-- A transfer about to start: both ends agree on the size and on the point to resume from. -/
def offered (file : Bytes) (blocksize : Int) (resume : Nat) (destfile : Bytes) (disk : Disk) : Link where
  file := file
  blocksize := blocksize
  disk := disk
  snd := {
    size := file.length, resumable := resume, pos := resume, ack := resume, fp := true, dccstat := .queued }
  rcv := {
    size := file.length, resumable := resume, pos := resume, destfile := destfile, dccstat := .connecting }

/-! ## What the sender's callbacks do -/

/-- The sender side moved: more of its file, in order, is on its way. -/
structure Sends (l l' : Link) : Prop where
  file : l'.file = l.file
  rcv : l'.rcv = l.rcv
  disk : l'.disk = l.disk
  missing : l'.missing = l.missing
  size : l'.snd.size = l.snd.size
  resumable : l'.snd.resumable = l.snd.resumable
  sent : ∃ k, k ≤ l.file.length - l.snd.pos ∧ l'.snd.pos = l.snd.pos + k ∧
    l'.data = l.data ++ (l.file.drop l.snd.pos).take k

/-- A step that neither reads the file nor sends. -/
theorem Sends.still {l l' : Link} (hfile : l'.file = l.file) (hrcv : l'.rcv = l.rcv) (hdisk : l'.disk = l.disk)
    (hmissing : l'.missing = l.missing) (hsize : l'.snd.size = l.snd.size)
    (hresumable : l'.snd.resumable = l.snd.resumable) (hpos : l'.snd.pos = l.snd.pos)
    (hdata : l'.data = l.data) : Sends l l' :=
  ⟨hfile, hrcv, hdisk, hmissing, hsize, hresumable, 0, by omega, by omega, by simp [hdata]⟩

theorem Sends.refl (l : Link) : Sends l l := .still rfl rfl rfl rfl rfl rfl rfl rfl

theorem Sends.trans {l l' l'' : Link} (h : Sends l l') (h' : Sends l' l'') : Sends l l'' := by
  obtain ⟨k, hk, hpos, hdata⟩ := h.sent
  obtain ⟨k', hk', hpos', hdata'⟩ := h'.sent
  rw [h.file] at hk' hdata'
  refine ⟨h'.file.trans h.file, h'.rcv.trans h.rcv, h'.disk.trans h.disk, h'.missing.trans h.missing,
    h'.size.trans h.size, h'.resumable.trans h.resumable, k + k', by omega, by omega, ?_⟩
  rw [hdata', hdata, hpos, List.append_assoc, List.take_add, List.drop_drop]

theorem dccSendData_sends (l : Link) (r : Sent) : Sends l (dccSendData l r) := by
  unfold dccSendData
  dsimp only
  split_ifs with hthrottled hwait hend
  · exact .still rfl rfl rfl rfl rfl rfl rfl rfl
  · exact .still rfl rfl rfl rfl rfl rfl rfl rfl
  · exact .still rfl rfl rfl rfl rfl rfl rfl rfl
  · refine ⟨rfl, rfl, rfl, rfl, rfl, rfl, _, ?_, rfl, ?_⟩
    · simp only [List.length_take, List.length_drop]
      omega
    · simp only [List.take_take, List.length_take, List.append_cancel_left_eq]
      rw [← List.take_eq_take_min]

@[simp] theorem newAck_size (dcc : Dcc) : dcc.newAck.size = dcc.size := by
  unfold Dcc.newAck
  dsimp only
  split <;> rfl

@[simp] theorem newAck_resumable (dcc : Dcc) : dcc.newAck.resumable = dcc.resumable := by
  unfold Dcc.newAck
  dsimp only
  split <;> rfl

@[simp] theorem newAck_pos (dcc : Dcc) : dcc.newAck.pos = dcc.pos := by
  unfold Dcc.newAck
  dsimp only
  split <;> rfl

theorem dccHandleNewAck_sends (l : Link) (r : Sent) : Sends l (dccHandleNewAck l r).1 := by
  have hnew : Sends l { l with snd := l.snd.newAck } := by
    apply Sends.still <;> simp
  unfold dccHandleNewAck
  dsimp only
  split_ifs with hover hnext
  · exact hnew.trans (.still rfl rfl rfl rfl rfl rfl rfl rfl)
  · exact (hnew.trans (dccSendData_sends _ r)).trans (.still rfl rfl rfl rfl rfl rfl rfl rfl)
  · exact hnew.trans (.still rfl rfl rfl rfl rfl rfl rfl rfl)

theorem dccReadAck_sends (l : Link) (ps : List AckPass) : Sends l (dccReadAck l ps) := by
  induction ps generalizing l with
  | nil => exact .refl l
  | cons p ps ih =>
    unfold dccReadAck
    have hclose : Sends l (l.closeSender .failed) := .still rfl rfl rfl rfl rfl rfl rfl rfl
    split
    · exact hclose
    split
    · exact .refl l
    · exact hclose
    · exact hclose
    · rename_i n _
      dsimp only
      split_ifs with hnone hfull hover
      · exact .refl l
      · refine Sends.trans ?_ (dccHandleNewAck_sends _ _)
        exact .still rfl rfl rfl rfl rfl rfl rfl rfl
      · refine Sends.trans (Sends.trans ?_ (dccHandleNewAck_sends _ _)) (ih _)
        exact .still rfl rfl rfl rfl rfl rfl rfl rfl
      · refine Sends.trans ?_ (ih _)
        exact .still rfl rfl rfl rfl rfl rfl rfl rfl

/-! ## What the receiver's callback does -/

/-- The receiver side moved: what it took off the stream is at the end of its file, but for what `write` left
and for the block whose `write` failed. -/
structure Receives (l l' : Link) : Prop where
  file : l'.file = l.file
  snd : l'.snd = l.snd
  size : l'.rcv.size = l.rcv.size
  resumable : l'.rcv.resumable = l.rcv.resumable
  destfile : l'.rcv.destfile = l.rcv.destfile
  others : ∀ path, path ≠ l.rcv.destfile → l'.disk.read path = l.disk.read path
  got : ∃ got dropped kept, l.data = got ++ dropped ++ l'.data ∧ l'.rcv.pos = l.rcv.pos + got.length ∧
    (l'.rcv.dccstat ≠ .failed → dropped = []) ∧ List.Sublist kept got ∧
    kept.length + l'.missing = got.length + l.missing ∧
    ∀ c, l.disk.read l.rcv.destfile = some c → l'.disk.read l.rcv.destfile = some (c ++ kept)
  done : l'.rcv.dccstat = .done → l.rcv.dccstat = .done ∨ l.rcv.size ≤ l'.rcv.pos
  stat : l'.rcv.dccstat = l.rcv.dccstat ∧ l'.rcv.fp = l.rcv.fp ∨ l'.rcv.dccstat = .failed ∨ l'.rcv.dccstat = .done
  iotag : l.rcv.dccstat = .active → l'.rcv.iotag = true → l'.rcv.dccstat = .active

/-- A step of an open record that neither reads nor writes. -/
theorem Receives.still {l l' : Link} (hfile : l'.file = l.file) (hsnd : l'.snd = l.snd)
    (hdisk : l'.disk = l.disk) (hmissing : l'.missing = l.missing) (hdata : l'.data = l.data)
    (hsize : l'.rcv.size = l.rcv.size) (hresumable : l'.rcv.resumable = l.rcv.resumable)
    (hdestfile : l'.rcv.destfile = l.rcv.destfile) (hpos : l'.rcv.pos = l.rcv.pos) (hfp : l'.rcv.fp = l.rcv.fp)
    (hstat : l'.rcv.dccstat = l.rcv.dccstat) : Receives l l' where
  file := hfile
  snd := hsnd
  size := hsize
  resumable := hresumable
  destfile := hdestfile
  others := fun _ _ => by rw [hdisk]
  got := ⟨[], [], [], by simp [hdata], by simp [hpos], fun _ => rfl, List.Sublist.refl _, by simp [hmissing],
    fun c hc => by simp [hdisk, hc]⟩
  done := fun h => .inl (hstat ▸ h)
  stat := .inl ⟨hstat, hfp⟩
  iotag := fun h _ => hstat.trans h

theorem Receives.trans {l l' l'' : Link} (h : Receives l l') (h' : Receives l' l'')
    (hmid : l'.rcv.dccstat = .active) : Receives l l'' := by
  obtain ⟨got, dropped, kept, hdata, hpos, hall, hsub, hlen, hread⟩ := h.got
  obtain ⟨got', dropped', kept', hdata', hpos', hall', hsub', hlen', hread'⟩ := h'.got
  have hnone : dropped = [] := hall (by rw [hmid]; decide)
  refine ⟨h'.file.trans h.file, h'.snd.trans h.snd, h'.size.trans h.size, h'.resumable.trans h.resumable,
    h'.destfile.trans h.destfile, fun path hpath => ?_, ?_, fun hdone => ?_, ?_, fun _ => h'.iotag hmid⟩
  · rw [h'.others path (by rwa [h.destfile]), h.others path hpath]
  · refine ⟨got ++ got', dropped', kept ++ kept', by simp [hdata, hdata', hnone],
      by simp [hpos', hpos, Nat.add_assoc], hall', hsub.append hsub', ?_, fun c hc => ?_⟩
    · simp only [List.length_append]
      omega
    · rw [h.destfile] at hread'
      simpa using hread' _ (hread c hc)
  · rcases h'.done hdone with hd | hd
    · rw [hmid] at hd
      cases hd
    · exact .inr (h.size ▸ hd)
  · rcases h'.stat with ⟨hstat', hfp'⟩ | hover
    · rcases h.stat with ⟨hstat, hfp⟩ | hover
      · exact .inl ⟨hstat'.trans hstat, hfp'.trans hfp⟩
      · rw [hmid] at hover
        rcases hover with hover | hover <;> cases hover
    · exact .inr hover

/-- An acknowledgement only adds to `acks`. -/
theorem ackIf_eq (l : Link) (needAck : Bool) (taken : Nat) :
    ∃ acks, l.ackIf needAck taken = { l with acks := acks } := by
  unfold Link.ackIf dccSendAck
  split
  · exact ⟨_, rfl⟩
  · exact ⟨_, rfl⟩

theorem ackIf_receives (l : Link) (needAck : Bool) (taken : Nat) : Receives l (l.ackIf needAck taken) := by
  obtain ⟨acks, hacks⟩ := ackIf_eq l needAck taken
  rw [hacks]
  exact .still rfl rfl rfl rfl rfl rfl rfl rfl rfl rfl rfl

theorem watch_receives (l : Link) (iotag : Bool) : Receives l (l.watchReceiver iotag) :=
  .still rfl rfl rfl rfl rfl rfl rfl rfl rfl rfl rfl

/-- The record is closed; a block that was read last may be dropped if it fails. -/
theorem close_receives {l m : Link} {dccstat : Stat} (dropped : Bytes) (hfile : m.file = l.file)
    (hrcv : m.rcv = l.rcv) (hsnd : m.snd = l.snd) (hdisk : m.disk = l.disk) (hmissing : m.missing = l.missing)
    (hdata : l.data = dropped ++ m.data) (hdropped : dccstat ≠ .failed → dropped = [])
    (hdone : dccstat = .done → l.rcv.size ≤ l.rcv.pos) (hover : dccstat = .failed ∨ dccstat = .done) :
    Receives l (m.closeReceiver dccstat) where
  file := hfile
  snd := hsnd
  size := by simp [Link.closeReceiver, Dcc.close, hrcv]
  resumable := by simp [Link.closeReceiver, Dcc.close, hrcv]
  destfile := by simp [Link.closeReceiver, Dcc.close, hrcv]
  others := fun path _ => by simp [Link.closeReceiver, hdisk]
  got := ⟨[], dropped, [], hdata, by simp [Link.closeReceiver, Dcc.close, hrcv], hdropped, List.Sublist.refl _,
    by simp [Link.closeReceiver, hmissing], fun c hc => by simp [Link.closeReceiver, hdisk, hc]⟩
  done := fun h => .inr (by simpa [Link.closeReceiver, Dcc.close, hrcv] using hdone h)
  stat := .inr hover
  iotag := fun _ h => Bool.noConfusion h

theorem closeReceiver_receives (l : Link) {dccstat : Stat} (hdone : dccstat = .done → l.rcv.size ≤ l.rcv.pos)
    (hover : dccstat = .failed ∨ dccstat = .done) : Receives l (l.closeReceiver dccstat) :=
  close_receives [] rfl rfl rfl rfl rfl rfl (fun _ => rfl) hdone hover

theorem take_append_dropped (data : Bytes) (n : Nat) : data = data.take n ++ data.drop (data.take n).length := by
  rw [List.length_take, ← List.drop_eq_drop_min, List.take_append_drop]

/-- One block read and written. -/
theorem store_receives (l : Link) (n k : Nat) : Receives l ((l.takeData (l.data.take n)).store (l.data.take n) k) where
  file := rfl
  snd := rfl
  size := rfl
  resumable := rfl
  destfile := rfl
  others := fun path hpath => Disk.read_write_of_ne _ _ hpath
  got := by
    have hlen := congrArg List.length (List.take_append_drop k (l.data.take n))
    simp only [List.length_append] at hlen
    refine ⟨l.data.take n, [], (l.data.take n).take k, ?_, rfl, fun _ => rfl, List.take_sublist _ _, ?_,
      fun c hc => by simp [Link.store, Link.takeData, hc]⟩
    · rw [List.append_nil]
      exact take_append_dropped l.data n
    · show _ + (l.missing + _) = _
      omega
  done := .inl
  stat := .inl ⟨rfl, rfl⟩
  iotag := fun h _ => h

theorem throttled_receives (taken : Nat) (l : Link) (needAck : Bool) (hactive : l.rcv.dccstat = .active) :
    Receives l ((l.ackIf needAck taken).watchReceiver false) := by
  have hacked := ackIf_receives l needAck taken
  obtain ⟨acks, hacks⟩ := ackIf_eq l needAck taken
  rw [hacks] at hacked ⊢
  exact hacked.trans (watch_receives _ _) hactive

theorem readLoop_receives (taken : Nat) (l : Link) (needAck : Bool) (ps : List ReadPass)
    (hactive : l.rcv.dccstat = .active) : Receives l (readLoop taken l needAck ps) := by
  induction ps generalizing l needAck with
  | nil =>
    unfold readLoop
    dsimp only
    split
    · exact throttled_receives taken l needAck hactive
    · exact (watch_receives l true).trans (ackIf_receives _ _ _) hactive
  | cons p ps ih =>
    unfold readLoop
    dsimp only
    have hwatch := watch_receives l true
    have hacked : Receives l ((l.watchReceiver true).ackIf needAck taken) :=
      hwatch.trans (ackIf_receives _ _ _) hactive
    have hfail : Receives l ((l.watchReceiver true).closeReceiver .failed) :=
      hwatch.trans (closeReceiver_receives _ (fun h => Stat.noConfusion h) (.inl rfl)) hactive
    split
    · exact throttled_receives taken l needAck hactive
    split
    · exact hacked
    · exact hfail
    · exact hfail
    rename_i n _
    have hstore := store_receives (l.watchReceiver true) (min n 4096)
    split
    · exact hacked
    split
    · obtain ⟨acks, hacks⟩ := ackIf_eq ((l.watchReceiver true).takeData _) needAck taken
      rw [hacks]
      exact hwatch.trans (close_receives _ rfl rfl rfl rfl rfl (take_append_dropped _ (min n 4096))
        (fun h => absurd rfl h) (fun h => Stat.noConfusion h) (.inl rfl)) hactive
    rename_i k _
    split
    · rename_i hall
      refine (hwatch.trans (hstore k) hactive).trans ?_ hactive
      exact close_receives [] rfl rfl rfl rfl rfl rfl (fun _ => rfl) (fun _ => hall) (.inr rfl)
    · exact (hwatch.trans (hstore k) hactive).trans (ih _ _ hactive) hactive

end PoxChat.Transfers
