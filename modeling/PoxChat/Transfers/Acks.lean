import PoxChat.Transfers.Received

/-!
# Acknowledgements of a DCC transfer

The receiver sends its position as 32 bits, the sender compares them with its own.  Where every acknowledgement
crosses in one piece and the file has at most 2^32 - 1 bytes, the two agree:

* `Acked` — what the acknowledgements under way say, kept by every callback.
* `sender_done` — a sender that is done has a receiver that is done.  An acknowledgement read in two pieces can
  end the transfer before the receiver has the file.
-/

set_option autoImplicit false

namespace PoxChat.Transfers

open Lib Outbound

/-! ## 32 bits on the wire -/

@[simp] theorem length_htonl (n : Nat) : (htonl n).length = 4 := rfl

theorem ntohl_htonl {n : Nat} (h : n < 2 ^ 32) : ntohl (htonl n) = n := by
  simp only [ntohl, htonl, List.foldl_cons, List.foldl_nil, Nat.toUInt8_eq, UInt8.toNat_ofNat']
  omega

theorem mixAck_eq_self {dcc : Dcc} (hpos : dcc.pos < 2 ^ 32) (hack : dcc.ack < 2 ^ 32) : dcc.mixAck = dcc := by
  have : dcc.pos / 2 ^ 32 * 2 ^ 32 + dcc.ack % 2 ^ 32 = dcc.ack := by omega
  simp only [Dcc.mixAck, this]

/-! ## Whole acknowledgements -/

/-- The system calls of this pass take acknowledgements in one piece. -/
def AckPass.whole (p : AckPass) : Prop := ∀ n, p.recv = .took n → 4 ≤ n

/-- The system calls of this callback neither tear an acknowledgement nor take part of one. -/
def Event.whole : Event → Prop
  | .ackReadable ps => ∀ p ∈ ps, p.whole
  | .readable _ _ taken | .throttleReceiver _ _ _ taken => taken = 0 ∨ 4 ≤ taken
  | _ => True

/-- `send` takes something. -/
def Sent.prompt (r : Sent) : Prop := r = .error ∨ 0 < r.count

/-- `send` blocks only where something is on its way, and every acknowledgement is taken. -/
def Event.prompt (l : Link) : Event → Prop
  | .accept _ r | .writable r | .throttleSender _ r => l.data = [] → r.prompt
  | .ackReadable ps => l.data = [] → ∀ p ∈ ps, p.sent.prompt
  | .readable _ _ taken | .throttleReceiver _ _ _ taken => 4 ≤ taken
  | _ => True

/-- What the acknowledgements under way say.  `prompt`: none was dropped. -/
structure Acked (resume : Nat) (prompt : Prop) (l : Link) : Prop where
  aligned : l.snd.ackPos = 0
  buffer : l.snd.ackBuf.length = 4
  offset : l.snd.ackoffset = false
  positions : ∃ ps : List Nat, l.acks = ps.flatMap htonl ∧ (∀ p ∈ ps, resume ≤ p ∧ p ≤ l.rcv.pos) ∧
    (prompt → l.rcv.dccstat ≠ .failed → ps.getLast?.getD l.snd.ack = l.rcv.pos)
  ack : l.snd.ack ≤ l.rcv.pos
  unfinished : l.snd.running = true → l.snd.ack < l.snd.size
  finished : l.rcv.pos < l.rcv.size ∨ l.rcv.dccstat = .done
  done : l.snd.dccstat = .done → l.rcv.dccstat = .done

/-- `dcc_handle_new_ack` for the acknowledged position `q`, where 32 bits are enough. -/
def ackTaken (l : Link) (q : Nat) (qs : List Nat) (r : Sent) : Link × Bool :=
  let l := { l with acks := qs.flatMap htonl, snd := { l.snd with ackBuf := htonl q, ack := q } }
  if l.snd.pos ≥ l.snd.size ∧ q ≥ l.snd.size then
    ({ l with snd := { l.snd with ack := l.snd.size }.close .done }, true)
  else (if l.snd.fastsend = false ∧ q ≥ l.snd.pos then dccSendData l r else l, false)

/-- What `dcc_send_data` leaves alone. -/
theorem dccSendData_kept (l : Link) (r : Sent) :
    (dccSendData l r).acks = l.acks ∧ (dccSendData l r).snd.ack = l.snd.ack ∧
      (dccSendData l r).snd.ackPos = l.snd.ackPos ∧ (dccSendData l r).snd.ackBuf = l.snd.ackBuf ∧
      (dccSendData l r).snd.ackoffset = l.snd.ackoffset ∧ (dccSendData l r).snd.fastsend = l.snd.fastsend ∧
      (dccSendData l r).snd.throttled = l.snd.throttled := by
  unfold dccSendData
  dsimp only
  split_ifs <;> exact ⟨rfl, rfl, rfl, rfl, rfl, rfl, rfl⟩

theorem dccSendData_stat (l : Link) (r : Sent) :
    (dccSendData l r).snd.dccstat = l.snd.dccstat ∧ (dccSendData l r).snd.iotag = l.snd.iotag ∧
      (dccSendData l r).snd.sok = l.snd.sok ∨
    (dccSendData l r).snd.dccstat = .failed ∧ (dccSendData l r).snd.sok = false := by
  unfold dccSendData
  dsimp only
  split_ifs
  · exact .inl ⟨rfl, rfl, rfl⟩
  · exact .inl ⟨rfl, rfl, rfl⟩
  · exact .inr ⟨rfl, rfl⟩
  · exact .inl ⟨rfl, rfl, rfl⟩

section Sender

variable {file : Bytes} {resume : Nat} {prompt : Prop} {l : Link}

theorem dccHandleNewAck_eq (hsize : file.length ≤ 0xffffffff) {q : Nat} {qs : List Nat} (r : Sent)
    (hp : Piped file resume l) (hoffset : l.snd.ackoffset = false) (hq : resume ≤ q) (hqr : q ≤ l.rcv.pos) :
    dccHandleNewAck { l with acks := qs.flatMap htonl, snd := { l.snd with ackBuf := htonl q } } r =
      ackTaken l q qs r := by
  have horder := hp.order
  have hhigh := hp.high
  have hnew : ({ l.snd with ackBuf := htonl q } : Dcc).newAck = { l.snd with ackBuf := htonl q, ack := q } := by
    unfold Dcc.newAck
    rw [if_pos (by rw [hp.sndSize]; exact hsize)]
    simp [ntohl_htonl (show q < 2 ^ 32 by omega), hoffset, hp.sndResumable, Nat.not_lt.2 hq]
  have hmod : l.snd.size % 2 ^ 32 = l.snd.size := Nat.mod_eq_of_lt (by rw [hp.sndSize]; omega)
  have hpmod : l.snd.pos % 2 ^ 32 = l.snd.pos := Nat.mod_eq_of_lt (by omega)
  unfold dccHandleNewAck ackTaken
  simp only [hnew, hmod, hpmod]
  split_ifs with hdone hnext
  · rw [mixAck_eq_self]
    · show l.snd.pos < 2 ^ 32
      omega
    · show l.snd.size < 2 ^ 32
      rw [hp.sndSize]
      omega
  · have hs := dccSendData_sends
      { l with acks := qs.flatMap htonl, snd := { l.snd with ackBuf := htonl q, ack := q } } r
    obtain ⟨k, hk, hpos, -⟩ := hs.sent
    rw [hp.reads] at hk
    rw [mixAck_eq_self]
    · rw [hpos]
      dsimp only at hk ⊢
      omega
    · rw [(dccSendData_kept _ r).2.1]
      dsimp only
      omega
  · rw [mixAck_eq_self]
    · show l.snd.pos < 2 ^ 32
      omega
    · show q < 2 ^ 32
      omega

/-- **Rule for `dcc_read_ack`** over whole acknowledgements: what one of them preserves, the loop preserves. -/
theorem dccReadAck_rule {I Q : Link → Prop} {P : AckPass → Prop} (hsize : file.length ≤ 0xffffffff)
    (hI : ∀ l, I l → Piped file resume l ∧ Acked resume prompt l) (hwhole : ∀ p, P p → p.whole)
    (hstop : ∀ l, I l → Q l)
    (hclose : ∀ l p, I l → P p → l.snd.sok = false ∨ p.recv = .eof ∨ p.recv = .error → Q (l.closeSender .failed))
    (htake : ∀ l p q qs, I l → P p → l.snd.sok = true → l.acks = (q :: qs).flatMap htonl →
      (∀ x ∈ q :: qs, resume ≤ x ∧ x ≤ l.rcv.pos) →
      (prompt → l.rcv.dccstat ≠ .failed → (q :: qs).getLast?.getD l.snd.ack = l.rcv.pos) →
      if (ackTaken l q qs p.sent).2 then Q (ackTaken l q qs p.sent).1 else I (ackTaken l q qs p.sent).1)
    {ps : List AckPass} (hps : ∀ p ∈ ps, P p) (h : I l) : Q (dccReadAck l ps) := by
  induction ps generalizing l with
  | nil => exact hstop l h
  | cons p ps ih =>
    have hok := hps p List.mem_cons_self
    have hrest : ∀ p ∈ ps, P p := fun p' hp' => hps p' (List.mem_cons_of_mem _ hp')
    obtain ⟨hpiped, hacked⟩ := hI l h
    unfold dccReadAck
    split
    · exact hclose l p h hok (.inl ‹_›)
    split
    · exact hstop l h
    · exact hclose l p h hok (.inr (.inl ‹_›))
    · exact hclose l p h hok (.inr (.inr ‹_›))
    rename_i n hrecv
    have hn : min n (4 - l.snd.ackPos) = 4 := by
      rw [hacked.aligned, Nat.min_eq_right (hwhole p hok n hrecv)]
    obtain ⟨qs, hacks, hbounds, hlatest⟩ := hacked.positions
    dsimp only
    rw [hn]
    cases qs with
    | nil =>
      rw [if_pos (by simp [hacks])]
      exact hstop l h
    | cons q qs =>
      have hgot : l.acks.take 4 = htonl q := by simp [hacks, htonl]
      have hdrop : l.acks.drop 4 = qs.flatMap htonl := by simp [hacks, htonl]
      have hbuf : htonl q ++ l.snd.ackBuf.drop 4 = htonl q := by
        rw [List.drop_of_length_le hacked.buffer.le, List.append_nil]
      have hb := hbounds q List.mem_cons_self
      have heq : _ = ackTaken l q qs p.sent := dccHandleNewAck_eq hsize p.sent hpiped hacked.offset hb.1 hb.2
      have hsame : ({ l with
          acks := qs.flatMap htonl, snd := { l.snd with ackBuf := htonl q, ackPos := 0 } } : Link) =
          { l with acks := qs.flatMap htonl, snd := { l.snd with ackBuf := htonl q } } := by
        have := hacked.aligned
        cases l with | mk file blocksize snd rcv data acks disk missing =>
        cases snd
        simp_all
      rw [hgot, length_htonl, hdrop, hbuf, if_neg (by simp [htonl]), hacked.aligned, if_pos (by omega), hsame, heq]
      have htaken := htake l p q qs h hok (Bool.eq_true_of_not_eq_false ‹_›) hacks hbounds hlatest
      split
      · rwa [if_pos ‹_›] at htaken
      · rw [if_neg ‹_›] at htaken
        exact ih hrest htaken

theorem Acked.sendData (h : Acked resume prompt l) (r : Sent) : Acked resume prompt (dccSendData l r) := by
  obtain ⟨hacks, hack, hpos, hbuf, hoffset, -, -⟩ := dccSendData_kept l r
  have hs := dccSendData_sends l r
  refine ⟨hpos.trans h.aligned, hbuf ▸ h.buffer, hoffset.trans h.offset, ?_, ?_, fun hactive => ?_, ?_, fun hdone => ?_⟩
  · rw [hacks, hack, hs.rcv]
    exact h.positions
  · rw [hack, hs.rcv]
    exact h.ack
  · rw [hack, hs.size]
    rcases dccSendData_stat l r with ⟨hstat, -⟩ | ⟨hstat, -⟩
    · exact h.unfinished (by rwa [Dcc.running, hstat] at hactive)
    · rw [Dcc.running, hstat] at hactive
      exact absurd hactive (by decide)
  · rw [hs.rcv]
    exact h.finished
  · rw [hs.rcv]
    rcases dccSendData_stat l r with ⟨hstat, -⟩ | ⟨hstat, -⟩
    · exact h.done (hstat ▸ hdone)
    · rw [hstat] at hdone
      cases hdone

theorem Acked.close (h : Acked resume prompt l) {dccstat : Stat} (hover : dccstat = .failed ∨ dccstat = .aborted) :
    Acked resume prompt (l.closeSender dccstat) := by
  refine ⟨h.aligned, h.buffer, h.offset, h.positions, h.ack, fun hrun => ?_, h.finished, fun hdone => ?_⟩
  · rcases hover with rfl | rfl
    · exact absurd (show false = true from hrun) Bool.false_ne_true
    · exact absurd (show false = true from hrun) Bool.false_ne_true
  · rcases hover with rfl | rfl <;> cases hdone

/-- What one acknowledgement preserves. -/
theorem ackTaken_acked (hp : Piped file resume l) (h : Acked resume prompt l) {q : Nat} {qs : List Nat}
    (hbounds : ∀ x ∈ q :: qs, resume ≤ x ∧ x ≤ l.rcv.pos)
    (hlatest : prompt → l.rcv.dccstat ≠ .failed → (q :: qs).getLast?.getD l.snd.ack = l.rcv.pos) (r : Sent) :
    Piped file resume (ackTaken l q qs r).1 ∧ Acked resume prompt (ackTaken l q qs r).1 := by
  have hq := hbounds q List.mem_cons_self
  have horder := hp.order
  have hhigh := hp.high
  have hrest : ∀ x ∈ qs, resume ≤ x ∧ x ≤ l.rcv.pos := fun x hx => hbounds x (List.mem_cons_of_mem _ hx)
  have hlast : prompt → l.rcv.dccstat ≠ .failed → qs.getLast?.getD q = l.rcv.pos := by
    intro hprompt hfine
    have := hlatest hprompt hfine
    rw [List.getLast?_cons] at this
    simpa using this
  unfold ackTaken
  dsimp only
  split_ifs with hdone hnext
  · have hsnd := hp.sndSize
    have hover : l.rcv.dccstat = .done := by
      rcases h.finished with hshort | hover
      · rw [hp.rcvSize] at hshort
        omega
      · exact hover
    refine ⟨hp.sends (.still rfl rfl rfl rfl rfl rfl rfl rfl),
      ⟨h.aligned, rfl, h.offset, ⟨qs, rfl, hrest, fun hprompt hfine => ?_⟩, ?_, fun hrun =>
        absurd (show false = true from hrun) Bool.false_ne_true, h.finished, fun _ => hover⟩⟩
    · have := hlast hprompt hfine
      have hend := hp.done hover
      cases hx : qs.getLast? with
      | none => simp [Dcc.close]; omega
      | some x => simpa [hx] using this
    · show l.snd.size ≤ l.rcv.pos
      omega
  · have hmid : Acked resume prompt
        { l with acks := qs.flatMap htonl, snd := { l.snd with ackBuf := htonl q, ack := q } } := by
      refine ⟨h.aligned, rfl, h.offset, ⟨qs, rfl, hrest, hlast⟩, hq.2, fun _ => ?_, h.finished, h.done⟩
      have := hp.sndSize
      show q < l.snd.size
      omega
    refine ⟨Piped.sends (hp.sends ?_) (dccSendData_sends _ r), hmid.sendData r⟩
    exact .still rfl rfl rfl rfl rfl rfl rfl rfl
  · refine ⟨hp.sends (.still rfl rfl rfl rfl rfl rfl rfl rfl),
      ⟨h.aligned, rfl, h.offset, ⟨qs, rfl, hrest, hlast⟩, hq.2, fun _ => ?_, h.finished, h.done⟩⟩
    have := hp.sndSize
    show q < l.snd.size
    omega

theorem dccReadAck_acked (hsize : file.length ≤ 0xffffffff) (hp : Piped file resume l) (h : Acked resume prompt l)
    {ps : List AckPass} (hps : ∀ p ∈ ps, p.whole) : Acked resume prompt (dccReadAck l ps) := by
  refine (dccReadAck_rule (I := fun l => Piped file resume l ∧ Acked resume prompt l)
    (Q := fun l => Acked resume prompt l) hsize (fun _ h => h) (fun _ h => h) (fun _ h => h.2) ?_ ?_ hps ⟨hp, h⟩)
  · intro l p hI _ _
    have h := hI.2
    exact h.close (.inl rfl)
  · intro l p q qs hI _ _ _ hbounds hlatest
    have := ackTaken_acked hI.1 hI.2 hbounds hlatest p.sent
    split
    · exact this.2
    · exact this

end Sender

/-! ## The receiver's acknowledgements -/

/-- What one `dcc_read` says to the sender. -/
structure Says (taken : Nat) (needAck : Bool) (l l' : Link) : Prop where
  acks : (needAck = false ∧ l'.acks = l.acks ∧ l'.rcv.pos = l.rcv.pos) ∨
    (l'.acks = l.acks ∧ l'.rcv.dccstat = .failed) ∨ l'.acks = l.acks ++ (htonl (l'.rcv.pos % 2 ^ 32)).take taken
  finished : l'.rcv.pos < l'.rcv.size ∨ l'.rcv.dccstat = .done
  throttled : l'.rcv.throttled = l.rcv.throttled
  watched : l'.rcv.dccstat = .active → l'.rcv.throttled = 0 → l'.rcv.iotag = true

theorem ackIf_spoken (taken : Nat) (l : Link) (needAck : Bool) (hshort : l.rcv.pos < l.rcv.size)
    (hwatched : l.rcv.dccstat = .active → l.rcv.throttled = 0 → l.rcv.iotag = true) :
    Says taken needAck l (l.ackIf needAck taken) := by
  unfold Link.ackIf
  cases needAck with
  | false => exact ⟨.inl ⟨rfl, rfl, rfl⟩, .inl hshort, rfl, hwatched⟩
  | true => exact ⟨.inr (.inr rfl), .inl hshort, rfl, hwatched⟩

theorem Says.watch {taken : Nat} {needAck : Bool} {l l' : Link} (iotag : Bool)
    (h : Says taken needAck (l.watchReceiver iotag) l') : Says taken needAck l l' :=
  ⟨h.acks, h.finished, h.throttled, h.watched⟩

/-- A loop that has taken something acknowledges it, unless it fails. -/
theorem Says.more {taken : Nat} {needAck : Bool} {l m l' : Link} (h : Says taken true m l')
    (hacks : m.acks = l.acks) (hthrottled : m.rcv.throttled = l.rcv.throttled) : Says taken needAck l l' := by
  refine ⟨?_, h.finished, h.throttled.trans hthrottled, h.watched⟩
  rcases h.acks with ⟨hno, -⟩ | hfailed | hsaid
  · cases hno
  · exact .inr (.inl (hacks ▸ hfailed))
  · exact .inr (.inr (hacks ▸ hsaid))

theorem readLoop_spoken (taken : Nat) (l : Link) (needAck : Bool) (ps : List ReadPass)
    (hshort : l.rcv.pos < l.rcv.size) : Says taken needAck l (readLoop taken l needAck ps) := by
  have hthrottled : ∀ (l : Link) (needAck : Bool), l.rcv.pos < l.rcv.size → l.rcv.throttled ≠ 0 →
      Says taken needAck l ((l.ackIf needAck taken).watchReceiver false) := by
    intro l needAck hshort hbits
    have h := ackIf_spoken taken l needAck hshort fun _ hzero => absurd hzero hbits
    exact ⟨h.acks, h.finished, h.throttled, fun _ hzero => absurd (h.throttled.symm.trans hzero) hbits⟩
  induction ps generalizing l needAck with
  | nil =>
    unfold readLoop
    dsimp only
    split
    · exact hthrottled l needAck hshort ‹_›
    · exact (ackIf_spoken taken (l.watchReceiver true) needAck hshort fun _ _ => rfl).watch true
  | cons p ps ih =>
    unfold readLoop
    dsimp only
    have hacked : Says taken needAck l ((l.watchReceiver true).ackIf needAck taken) :=
      (ackIf_spoken taken (l.watchReceiver true) needAck hshort fun _ _ => rfl).watch true
    have hfailed : Says taken needAck l ((l.watchReceiver true).closeReceiver .failed) :=
      ⟨.inr (.inl ⟨rfl, rfl⟩), .inl hshort, rfl, fun h => Stat.noConfusion h⟩
    split
    · exact hthrottled l needAck hshort ‹_›
    split
    · exact hacked
    · exact hfailed
    · exact hfailed
    split
    · exact hacked
    rename_i n _ _
    split
    · have h := ackIf_spoken taken ((l.watchReceiver true).takeData ((l.watchReceiver true).data.take (min n 4096)))
        needAck hshort fun _ _ => rfl
      obtain ⟨acks, hacks⟩ := ackIf_eq ((l.watchReceiver true).takeData _) needAck taken
      rw [hacks] at h ⊢
      refine ⟨?_, .inl hshort, rfl, fun h => Stat.noConfusion h⟩
      rcases h.acks with hnone | ⟨hsame, -⟩ | hsaid
      · exact .inl hnone
      · exact .inr (.inl ⟨hsame, rfl⟩)
      · exact .inr (.inr hsaid)
    split
    · exact ⟨.inr (.inr rfl), .inr rfl, rfl, fun h => Stat.noConfusion h⟩
    · exact (ih _ true (Nat.lt_of_not_le ‹_›)).more rfl rfl

section Runs

variable {file : Bytes} {resume : Nat} {disk : Disk} {destfile : Bytes} {prompt : Prop} {l : Link}

theorem openFile_keeps (hp : Piped file resume l) (hpos : l.rcv.fp = false → l.rcv.pos = resume) (fails : Bool) :
    (openFile l fails).acks = l.acks ∧ (openFile l fails).snd = l.snd ∧ (openFile l fails).data = l.data ∧
      (openFile l fails).rcv.pos = l.rcv.pos ∧ (openFile l fails).rcv.size = l.rcv.size ∧
      (openFile l fails).rcv.throttled = l.rcv.throttled := by
  unfold openFile
  split_ifs with hfp hresume hfails
  · exact ⟨rfl, rfl, rfl, rfl, rfl, rfl⟩
  · exact ⟨rfl, rfl, rfl, hp.rcvResumable.trans (hpos (Bool.eq_false_of_not_eq_true hfp)).symm, rfl, rfl⟩
  · exact ⟨rfl, rfl, rfl, rfl, rfl, rfl⟩
  · exact ⟨rfl, rfl, rfl, rfl, rfl, rfl⟩

/-- What `dcc_read` says to the sender. -/
theorem dccRead_spoken (h : Transferring file resume disk destfile l) (hstat : l.rcv.dccstat = .active)
    (hshort : l.rcv.pos < l.rcv.size) (openFails : Bool) (ps : List ReadPass) (taken : Nat) :
    Says taken false l (dccRead l openFails ps taken) ∧ (dccRead l openFails ps taken).snd = l.snd ∧
      l.rcv.pos ≤ (dccRead l openFails ps taken).rcv.pos ∧
      ((dccRead l openFails ps taken).rcv.dccstat = .active →
        (dccRead l openFails ps taken).rcv.pos = l.rcv.pos → (dccRead l openFails ps taken).data = l.data) := by
  have hpos : l.rcv.fp = false → l.rcv.pos = resume := by
    intro hfp
    rcases h.saved with hu | ⟨-, hopen⟩
    · exact hu.pos
    · rw [hopen (by simp [hstat])] at hfp
      cases hfp
  obtain ⟨hacks, hsnd, hdata, hopos, hosize, hothrottled⟩ := openFile_keeps h.piped hpos openFails
  unfold dccRead
  dsimp only
  split_ifs with hclosed
  · refine ⟨⟨.inl ⟨rfl, hacks, hopos⟩, .inl ?_, hothrottled, fun h => Stat.noConfusion h⟩, hsnd, hopos.ge,
      fun h => Stat.noConfusion h⟩
    show (openFile l openFails).rcv.pos < (openFile l openFails).rcv.size
    omega
  · have hloop := readLoop_spoken taken (openFile l openFails) false ps (by omega)
    have hmoved := readLoop_receives taken (openFile l openFails) false ps (by simpa using hstat)
    obtain ⟨got, dropped, kept, hgot, hgpos, hall, -⟩ := hmoved.got
    refine ⟨⟨?_, hloop.finished, hloop.throttled.trans hothrottled, hloop.watched⟩, hmoved.snd.trans hsnd, by omega,
      fun hactive hsame => ?_⟩
    · rw [← hacks, ← hopos]
      exact hloop.acks
    · have hnone : got = [] := List.eq_nil_of_length_eq_zero (by omega)
      have hkept : dropped = [] := hall (by rw [hactive]; decide)
      rw [← hdata, hgot, hnone, hkept]
      rfl

/-- What one `dcc_read` preserves. -/
theorem Acked.spoken {l l' : Link} {taken : Nat} (h : Acked resume prompt l) (hpos : l'.rcv.pos < 2 ^ 32)
    (hlow : resume ≤ l'.rcv.pos) (hs : Says taken false l l') (hsnd : l'.snd = l.snd) (hmore : l.rcv.pos ≤ l'.rcv.pos)
    (htaken : taken = 0 ∨ 4 ≤ taken) (hprompt : prompt → 4 ≤ taken) (hstat : l.rcv.dccstat = .active) :
    Acked resume prompt l' := by
  obtain ⟨ps, hacks, hbounds, hlatest⟩ := h.positions
  have hnotDone : l.snd.dccstat ≠ .done := fun hd => by
    rw [h.done hd] at hstat
    cases hstat
  have hold : ∀ p ∈ ps, resume ≤ p ∧ p ≤ l'.rcv.pos := fun p hp => ⟨(hbounds p hp).1, (hbounds p hp).2.trans hmore⟩
  have hfine : l.rcv.dccstat ≠ .failed := by
    rw [hstat]
    decide
  refine ⟨hsnd ▸ h.aligned, hsnd ▸ h.buffer, hsnd ▸ h.offset, ?_, ?_, hsnd ▸ h.unfinished, hs.finished, ?_⟩
  · rcases hs.acks with ⟨-, hsame, hp⟩ | ⟨hsame, hfailed⟩ | hsaid
    · exact ⟨ps, hsame.trans hacks, hold, fun hpr _ => by rw [hsnd, hp]; exact hlatest hpr hfine⟩
    · exact ⟨ps, hsame.trans hacks, hold, fun _ hf => absurd hfailed hf⟩
    · rw [Nat.mod_eq_of_lt hpos] at hsaid
      rcases Nat.lt_or_ge taken 4 with hlost | hwhole
      · obtain rfl : taken = 0 := by omega
        refine ⟨ps, by rw [hsaid, hacks, List.take_zero, List.append_nil], hold, fun hpr _ => ?_⟩
        exact absurd (hprompt hpr) (by omega)
      · refine ⟨ps ++ [l'.rcv.pos], ?_, fun p hp => ?_, fun _ _ => by simp⟩
        · rw [hsaid, hacks, List.take_of_length_le (by rw [length_htonl]; exact hwhole), List.flatMap_append]
          simp
        · rcases List.mem_append.1 hp with hp | hp
          · exact hold p hp
          · obtain rfl := List.mem_singleton.1 hp
            exact ⟨hlow, le_rfl⟩
  · rw [hsnd]
    exact h.ack.trans hmore
  · rw [hsnd]
    exact fun hd => absurd hd hnotDone

/-- A callback of the receiver that only sets flags. -/
theorem Acked.flags (h : Acked resume prompt l) (rcv : Dcc) (hsize : rcv.size = l.rcv.size)
    (hpos : rcv.pos = l.rcv.pos) (hlive : l.rcv.dccstat ≠ .failed) (hdone : l.rcv.dccstat ≠ .done) :
    Acked resume prompt { l with rcv := rcv } := by
  obtain ⟨ps, hacks, hbounds, hlatest⟩ := h.positions
  refine ⟨h.aligned, h.buffer, h.offset, ⟨ps, hacks, hpos ▸ hbounds, fun hpr _ => ?_⟩, hpos ▸ h.ack, h.unfinished, ?_,
    fun hd => absurd (h.done hd) hdone⟩
  · exact hpos ▸ hlatest hpr hlive
  · rcases h.finished with hshort | hover
    · exact .inl (hpos ▸ hsize ▸ hshort)
    · exact absurd hover hdone

/-- The events an invariant is kept by: `prompt` asks more of them. -/
def Event.admitted (prompt : Prop) (l : Link) (e : Event) : Prop := e.whole ∧ (prompt → e.prompt l)

variable (hfit : (destfile ++ bytes "." ++ decimal (disk.length + 1)).length ≤ 4095)
  (hsize : file.length ≤ 0xffffffff)

include hsize in
theorem dccRead_acked (ht : Transferring file resume disk destfile l) (h : Acked resume prompt l)
    (hstat : l.rcv.dccstat = .active) (openFails : Bool) (ps : List ReadPass) {taken : Nat}
    (hnew : Transferring file resume disk destfile (dccRead l openFails ps taken))
    (htaken : taken = 0 ∨ 4 ≤ taken) (hprompt : prompt → 4 ≤ taken) :
    Acked resume prompt (dccRead l openFails ps taken) := by
  have hshort : l.rcv.pos < l.rcv.size := by
    rcases h.finished with hshort | hover
    · exact hshort
    · rw [hover] at hstat
      cases hstat
  obtain ⟨hspoken, hsnd, hmore, -⟩ := dccRead_spoken ht hstat hshort openFails ps taken
  have horder := hnew.piped.order
  have hhigh := hnew.piped.high
  exact h.spoken (by omega) hnew.piped.low hspoken hsnd hmore htaken hprompt hstat

include hfit hsize in
/-- **Every callback keeps the acknowledgements true.** -/
theorem step_acked (ht : Transferring file resume disk destfile l) (h : Acked resume prompt l) {e : Event}
    (he : e.admitted prompt l) : Acked resume prompt (step l e) := by
  have hrunning : l.rcv.running = true → l.rcv.dccstat ≠ .failed ∧ l.rcv.dccstat ≠ .done := by
    intro hrun
    constructor
    all_goals
      intro hstat
      rw [Dcc.running, hstat] at hrun
      exact absurd hrun (by decide)
  cases e with
  | accept fastSend r =>
    simp only [step]
    split
    · refine Acked.sendData ?_ r
      refine ⟨h.aligned, h.buffer, h.offset, h.positions, h.ack, fun _ => h.unfinished ?_, h.finished,
        fun hdone => Stat.noConfusion hdone⟩
      rcases ‹l.snd.dccstat = .queued ∨ l.snd.dccstat = .connecting› with hstat | hstat
      · simp [Dcc.running, hstat]
      · simp [Dcc.running, hstat]
    · exact h
  | connected =>
    simp only [step]
    split
    · exact h.flags _ rfl rfl (by simp_all) (by simp_all)
    · exact h
  | writable r =>
    simp only [step]
    split
    · exact h.sendData r
    · exact h
  | ackReadable ps =>
    simp only [step]
    split
    · exact dccReadAck_acked hsize ht.piped h he.1
    · exact h
  | readable openFails ps taken =>
    have hnew := step_transferring hfit ht (.readable openFails ps taken)
    simp only [step] at hnew ⊢
    split
    · rw [if_pos ‹_›] at hnew
      exact dccRead_acked hsize ht h (ht.watched ‹_›) openFails ps hnew he.1 he.2
    · exact h
  | throttleSender bits r =>
    simp only [step]
    have hbits : Acked resume prompt { l with snd := { l.snd with throttled := bits } } :=
      ⟨h.aligned, h.buffer, h.offset, h.positions, h.ack, h.unfinished, h.finished, h.done⟩
    split_ifs
    · exact hbits.sendData r
    · exact hbits
    · exact h
  | throttleReceiver bits openFails ps taken =>
    have hnew := step_transferring hfit ht (.throttleReceiver bits openFails ps taken)
    simp only [step] at hnew ⊢
    by_cases hstat : l.rcv.dccstat = .active
    · have hbits := h.flags { l.rcv with throttled := bits } rfl rfl (by rw [hstat]; decide) (by rw [hstat]; decide)
      have htbits := ht.flags { l.rcv with throttled := bits } rfl rfl rfl rfl rfl (.inl rfl) ht.watched
      rw [if_pos hstat] at hnew ⊢
      split_ifs at hnew ⊢
      · exact dccRead_acked hsize htbits hbits hstat openFails ps hnew he.1 he.2
      · exact hbits
    · rwa [if_neg hstat]
  | abortSender =>
    simp only [step]
    split
    · exact h.close (.inr rfl)
    · exact h
  | abortReceiver =>
    simp only [step]
    split
    · obtain ⟨hfailed, hdone⟩ := hrunning ‹_›
      exact h.flags _ rfl rfl hfailed hdone
    · exact h

theorem offered_acked (blocksize : Int) (hresume : resume < file.length) :
    Acked resume prompt (offered file blocksize resume destfile disk) := by
  refine ⟨rfl, rfl, rfl, ⟨[], rfl, by simp, fun _ _ => rfl⟩, le_rfl, fun _ => hresume, .inl hresume,
    fun h => Stat.noConfusion h⟩

include hfit hsize in
theorem run_acked (blocksize : Int) (hresume : resume < file.length) {es : List Event}
    (hes : Along step (Event.admitted prompt) (offered file blocksize resume destfile disk) es) :
    let l := es.foldl step (offered file blocksize resume destfile disk)
    Transferring file resume disk destfile l ∧ Acked resume prompt l := by
  refine Along.invariant (I := fun l => Transferring file resume disk destfile l ∧ Acked resume prompt l) ?_
    ⟨offered_transferring blocksize hresume.le, offered_acked blocksize hresume⟩ hes
  intro l e h he
  exact ⟨step_transferring hfit h.1 e, step_acked hfit hsize h.1 h.2 he⟩

end Runs

/-- `dcc_read_ack` puts every piece of an acknowledgement at the front of `ack_buf`: the position 1, read as three
bytes and one, is taken for 2^24, and the sender is done before the second byte is read. -/
example :
    let l := [Event.accept true (.took 2), .connected, .readable false [⟨.took 1, .took 1⟩] 4,
      .ackReadable [⟨.took 3, .again⟩, ⟨.took 1, .again⟩]].foldl step (offered (bytes "ab") 1024 0 (bytes "f") [])
    l.snd.dccstat = .done ∧ l.rcv.pos = 1 := by decide

end PoxChat.Transfers
