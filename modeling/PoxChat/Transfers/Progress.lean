import PoxChat.Transfers.Acks

/-!
# Progress of a DCC transfer

* `Armed` — which watch the sender has and when its position is ahead of the acknowledged one.
* `never_stuck` — while both ends are active and neither is throttled, the sender is waiting to write, or data
  or an acknowledgement is on its way to an end that watches for it.
* `sender_fails_iff` — a callback whose system calls succeed fails the sender exactly if it lifts the throttle of
  a fast send after the last byte was sent.
-/

set_option autoImplicit false

namespace PoxChat.Transfers

open Lib Outbound

/-! ## Who waits for whom -/

/-- What the watches and the positions promise. -/
structure Armed (prompt : Prop) (l : Link) : Prop where
  /-- Without fast send something unacknowledged is always on its way. -/
  ahead : prompt → l.snd.dccstat = .active → l.snd.fastsend = false → l.snd.throttled = 0 →
    l.rcv.dccstat ≠ .failed → l.snd.ack < l.snd.pos
  armed : l.snd.dccstat = .active → l.snd.fastsend = true → l.snd.throttled = 0 → l.snd.pos < l.snd.size →
    l.snd.wiotag = true
  writing : l.snd.wiotag = true → l.snd.fastsend = true ∧ l.snd.pos < l.snd.size
  live : l.snd.wiotag = true ∨ l.snd.iotag = true → l.snd.dccstat = .active
  waiting : l.snd.dccstat = .queued ∨ l.snd.dccstat = .connecting → l.snd.pos < l.snd.size
  watched : l.snd.dccstat = .active → l.snd.iotag = true ∧ l.snd.sok = true
  rcvWatched : l.rcv.dccstat = .active → l.rcv.throttled = 0 → l.rcv.iotag = true

theorem clampBlocksize_pos (pref : Int) : 0 < (clampBlocksize pref).toNat := by
  unfold clampBlocksize
  split_ifs <;> omega

theorem block_eq_nil_iff {file : Bytes} {pos : Nat} (pref : Int) :
    (file.drop pos).take (clampBlocksize pref).toNat = [] ↔ file.length ≤ pos := by
  have := clampBlocksize_pos pref
  rw [List.take_eq_nil_iff, List.drop_eq_nil_iff]
  omega

section Sender

variable {file : Bytes} {resume : Nat} {prompt : Prop} {l : Link}

theorem closed_armed (h : l.rcv.dccstat = .active → l.rcv.throttled = 0 → l.rcv.iotag = true) {dccstat : Stat}
    (hover : dccstat = .failed ∨ dccstat = .aborted ∨ dccstat = .done) : Armed prompt (l.closeSender dccstat) := by
  have hdead : dccstat ≠ .active ∧ dccstat ≠ .queued ∧ dccstat ≠ .connecting := by
    rcases hover with rfl | rfl | rfl <;> decide
  exact ⟨fun _ hs => absurd hs hdead.1, fun hs => absurd hs hdead.1, fun hw => Bool.noConfusion hw,
    fun hw => hw.elim (fun hw => Bool.noConfusion hw) (fun hw => Bool.noConfusion hw), fun hs => absurd hs (not_or.2 hdead.2), fun hs => absurd hs hdead.1, h⟩

/-- `dcc_send_data` arms what it leaves. -/
theorem dccSendData_armed (hsize : file.length ≤ 0xffffffff) (hp : Piped file resume l) (hack : l.snd.ack ≤ l.rcv.pos)
    {r : Sent} (hr : prompt → l.data = [] → r.prompt)
    (hwriting : l.snd.wiotag = true → l.snd.fastsend = true ∧ l.snd.pos < l.snd.size)
    (hactive : l.snd.dccstat = .active) (hwatched : l.snd.iotag = true ∧ l.snd.sok = true)
    (hrcv : l.rcv.dccstat = .active → l.rcv.throttled = 0 → l.rcv.iotag = true) :
    Armed prompt (dccSendData l r) := by
  have hhigh := hp.high
  have horder := hp.order
  have hmod : l.snd.pos % 2 ^ 32 = l.snd.pos := Nat.mod_eq_of_lt (by omega)
  unfold dccSendData
  dsimp only
  rw [hmod]
  split_ifs with hbits hwait hend
  · exact ⟨fun _ _ _ hzero => absurd hzero hbits, fun _ _ hzero => absurd hzero hbits,
      fun hw => Bool.noConfusion hw, fun _ => hactive, fun hs => by simp [hactive] at hs, fun _ => hwatched, hrcv⟩
  · refine ⟨fun _ _ _ _ _ => hwait.2, fun _ hfast => ?_, hwriting, fun _ => hactive,
      fun hs => by simp [hactive] at hs, fun _ => hwatched, hrcv⟩
    rw [show l.snd.fastsend = true from hfast] at hwait
    exact absurd hwait.1 (by decide)
  · apply closed_armed
    · exact hrcv
    · exact .inl rfl
  · rw [not_or] at hend
    refine ⟨fun hprompt _ hslow _ hfine => ?_, fun _ hfast _ hshort => ?_, fun hw => ?_,
      fun _ => hactive, fun hs => by simp [hactive] at hs, fun _ => hwatched, hrcv⟩
    · have hslow : l.snd.fastsend = false := hslow
      have hback : l.snd.pos ≤ l.snd.ack := by
        by_contra hlt
        exact hwait ⟨hslow, by omega⟩
      have hempty : l.data = [] := by
        rw [hp.wire hfine, show l.snd.pos - l.rcv.pos = 0 by omega, List.take_zero]
      have htook : 0 < r.count := (hr hprompt hempty).resolve_left hend.2
      have hbuf := List.length_pos_iff.2 hend.1
      simp only [List.length_take] at hbuf ⊢
      omega
    · show ((l.snd.wiotag || l.snd.fastsend) && decide _) = true
      rw [show l.snd.fastsend = true from hfast, Bool.or_true, Bool.true_and]
      exact decide_eq_true hshort
    · simp only [Bool.and_eq_true, Bool.or_eq_true, decide_eq_true_eq] at hw
      exact ⟨hw.1.elim (fun hw => (hwriting hw).1) id, hw.2⟩

/-- What one acknowledgement arms. -/
theorem ackTaken_armed (hsize : file.length ≤ 0xffffffff) (hp : Piped file resume l) (h : Armed prompt l)
    (hactive : l.snd.dccstat = .active) {q : Nat} {qs : List Nat} (hq : q ≤ l.rcv.pos) {r : Sent}
    (hr : prompt → l.data = [] → r.prompt) : Armed prompt (ackTaken l q qs r).1 := by
  unfold ackTaken
  dsimp only
  split_ifs with hdone hnext
  · exact ⟨fun _ hs => Stat.noConfusion hs, fun hs => Stat.noConfusion hs, fun hw => Bool.noConfusion hw,
      fun hw => hw.elim (fun hw => Bool.noConfusion hw) (fun hw => Bool.noConfusion hw),
      fun hs => hs.elim (fun hs => Stat.noConfusion hs) (fun hs => Stat.noConfusion hs),
      fun hs => Stat.noConfusion hs, h.rcvWatched⟩
  · refine dccSendData_armed hsize (hp.sends ?_) hq hr h.writing hactive (h.watched hactive) h.rcvWatched
    exact .still rfl rfl rfl rfl rfl rfl rfl rfl
  · refine ⟨fun _ _ hslow _ _ => ?_, h.armed, h.writing, h.live, h.waiting, h.watched, h.rcvWatched⟩
    rw [not_and] at hnext
    exact Nat.lt_of_not_le (hnext hslow)

/-- A transfer that is not over goes on, or its socket is closed. -/
theorem ackTaken_open {q : Nat} {qs : List Nat} {r : Sent} (hactive : l.snd.dccstat = .active)
    (hgo : (ackTaken l q qs r).2 = false) :
    (ackTaken l q qs r).1.snd.dccstat = .active ∨ (ackTaken l q qs r).1.snd.sok = false := by
  unfold ackTaken at hgo ⊢
  dsimp only at hgo ⊢
  split_ifs at hgo ⊢
  · rcases dccSendData_stat { l with
      acks := qs.flatMap htonl, snd := { l.snd with ackBuf := htonl q, ack := q } } r with ⟨hstat, -⟩ | ⟨-, hclosed⟩
    · exact .inl (hstat.trans hactive)
    · exact .inr hclosed
  · exact .inl hactive

theorem ackTaken_data {q : Nat} {qs : List Nat} {r : Sent} (h : l.data ≠ []) : (ackTaken l q qs r).1.data ≠ [] := by
  unfold ackTaken
  dsimp only
  split_ifs
  · exact h
  · obtain ⟨k, -, -, hdata⟩ := (dccSendData_sends { l with
      acks := qs.flatMap htonl, snd := { l.snd with ackBuf := htonl q, ack := q } } r).sent
    rw [hdata]
    exact List.append_ne_nil_of_left_ne_nil h _
  · exact h

theorem dccReadAck_armed (hsize : file.length ≤ 0xffffffff) (hp : Piped file resume l) (ha : Acked resume prompt l)
    (h : Armed prompt l) (hactive : l.snd.dccstat = .active) {ps : List AckPass} (hps : ∀ p ∈ ps, p.whole)
    (hprompt : prompt → l.data = [] → ∀ p ∈ ps, p.sent.prompt) : Armed prompt (dccReadAck l ps) := by
  refine dccReadAck_rule (I := fun m => Piped file resume m ∧ Acked resume prompt m ∧ Armed prompt m ∧
      (m.snd.dccstat = .active ∨ m.snd.sok = false) ∧ (l.data ≠ [] → m.data ≠ []))
    (Q := fun m => Armed prompt m) (P := fun p => p.whole ∧ (prompt → l.data = [] → p.sent.prompt)) hsize
    (fun m hm => ⟨hm.1, hm.2.1⟩) (fun p hp => hp.1) (fun m hm => hm.2.2.1) ?_ ?_
    (fun p hin => ⟨hps p hin, fun hpr hd => hprompt hpr hd p hin⟩) ⟨hp, ha, h, .inl hactive, id⟩
  · intro m p hm _ _
    exact closed_armed hm.2.2.1.rcvWatched (.inl rfl)
  · intro m p q qs hm hok hopen _ hbounds hlatest
    obtain ⟨hmp, hma, hmarmed, hmstat, hmdata⟩ := hm
    have hmactive : m.snd.dccstat = .active := hmstat.resolve_right (by rw [hopen]; decide)
    have hsent : prompt → m.data = [] → p.sent.prompt := fun hpr hd => hok.2 hpr (by
      by_contra hne
      exact hmdata hne hd)
    have hnext : Armed prompt (ackTaken m q qs p.sent).1 :=
      ackTaken_armed hsize hmp hmarmed hmactive (hbounds q List.mem_cons_self).2 hsent
    split
    · exact hnext
    · obtain ⟨hp', ha'⟩ := ackTaken_acked hmp hma hbounds hlatest p.sent
      exact ⟨hp', ha', hnext, ackTaken_open hmactive (Bool.eq_false_of_not_eq_true ‹_›),
        fun hne => ackTaken_data (hmdata hne)⟩

end Sender

section Runs

variable {file : Bytes} {resume : Nat} {disk : Disk} {destfile : Bytes} {prompt : Prop} {l : Link}
  (hfit : (destfile ++ bytes "." ++ decimal (disk.length + 1)).length ≤ 4095) (hsize : file.length ≤ 0xffffffff)

/-- The sender's half of the promises rests on the sender's record alone, and on the receiver not coming back. -/
theorem Armed.receiver (h : Armed prompt l) {l' : Link} (hsnd : l'.snd = l.snd)
    (hfailed : l.rcv.dccstat = .failed → l'.rcv.dccstat = .failed)
    (hrcv : l'.rcv.dccstat = .active → l'.rcv.throttled = 0 → l'.rcv.iotag = true) : Armed prompt l' := by
  refine ⟨?_, hsnd ▸ h.armed, hsnd ▸ h.writing, hsnd ▸ h.live, hsnd ▸ h.waiting, hsnd ▸ h.watched, hrcv⟩
  rw [hsnd]
  exact fun hpr hs hslow hzero hfine => h.ahead hpr hs hslow hzero (mt hfailed hfine)

include hsize in
/-- **Every callback arms what it leaves.** -/
theorem step_armed (ht : Transferring file resume disk destfile l) (ha : Acked resume prompt l) (h : Armed prompt l)
    {e : Event} (he : e.admitted prompt l) : Armed prompt (step l e) := by
  have hp := ht.piped
  have hshort : l.rcv.dccstat = .active → l.rcv.pos < l.rcv.size := fun hstat => by
    rcases ha.finished with hshort | hover
    · exact hshort
    · rw [hover] at hstat
      cases hstat
  have hread : ∀ (m : Link) (openFails : Bool) (ps : List ReadPass) (taken : Nat), m.snd = l.snd →
      Transferring file resume disk destfile m → m.rcv.dccstat = .active → m.rcv.pos < m.rcv.size →
      l.rcv.dccstat = .active → Armed prompt (dccRead m openFails ps taken) := by
    intro m openFails ps taken hsame hmt hmstat hmshort hstat
    obtain ⟨hspoken, hsnd, -⟩ := dccRead_spoken hmt hmstat hmshort openFails ps taken
    exact h.receiver (hsnd.trans hsame) (fun hf => by rw [hf] at hstat; cases hstat) hspoken.watched
  cases e with
  | accept fastSend r =>
    simp only [step, dccAccept]
    split
    · rename_i hwait
      apply dccSendData_armed hsize
      · exact hp.sends (.still rfl rfl rfl rfl rfl rfl rfl rfl)
      · exact ha.ack
      · exact he.2
      · exact fun hfast => ⟨hfast, h.waiting hwait⟩
      · rfl
      · exact ⟨rfl, rfl⟩
      · exact h.rcvWatched
    · exact h
  | connected =>
    simp only [step]
    split
    · exact h.receiver rfl (by simp_all) fun _ _ => rfl
    · exact h
  | writable r =>
    simp only [step]
    split
    · rename_i hw
      have hactive := h.live (.inl hw)
      exact dccSendData_armed hsize hp ha.ack he.2 h.writing hactive (h.watched hactive) h.rcvWatched
    · exact h
  | ackReadable ps =>
    simp only [step]
    split
    · exact dccReadAck_armed hsize hp ha h (h.live (.inr ‹_›)) he.1 he.2
    · exact h
  | readable openFails ps taken =>
    simp only [step]
    split
    · have hstat := ht.watched ‹_›
      exact hread l openFails ps taken rfl ht hstat (hshort hstat) hstat
    · exact h
  | throttleSender bits r =>
    simp only [step]
    split_ifs with hstat hlift
    · apply dccSendData_armed hsize
      · exact hp.sends (.still rfl rfl rfl rfl rfl rfl rfl rfl)
      · exact ha.ack
      · exact he.2
      · exact h.writing
      · exact hstat
      · exact h.watched hstat
      · exact h.rcvWatched
    · rw [not_and] at hlift
      have hsame : bits = 0 → l.snd.throttled = 0 := fun hbits => by
        by_contra hne
        exact hlift hne hbits
      exact ⟨fun hpr hs hslow hzero => h.ahead hpr hs hslow (hsame hzero),
        fun hs hfast hzero => h.armed hs hfast (hsame hzero), h.writing, h.live, h.waiting, h.watched, h.rcvWatched⟩
    · exact h
  | throttleReceiver bits openFails ps taken =>
    simp only [step]
    split_ifs with hstat hlift
    · exact hread _ openFails ps taken rfl (ht.flags { l.rcv with throttled := bits } rfl rfl rfl rfl rfl (.inl rfl) ht.watched)
        hstat (hshort hstat) hstat
    · rw [not_and] at hlift
      refine h.receiver rfl id fun hs hzero => h.rcvWatched hs ?_
      by_contra hne
      exact hlift hne hzero
    · exact h
  | abortSender =>
    simp only [step]
    split
    · exact closed_armed h.rcvWatched (.inr (.inl rfl))
    · exact h
  | abortReceiver =>
    simp only [step]
    split
    · rename_i hrun
      refine h.receiver rfl (fun hf => ?_) fun hs => Stat.noConfusion hs
      rw [Dcc.running, hf] at hrun
      exact absurd hrun (by decide)
    · exact h

theorem offered_armed (blocksize : Int) (hresume : resume < file.length) :
    Armed prompt (offered file blocksize resume destfile disk) :=
  ⟨fun _ hs => Stat.noConfusion hs, fun hs => Stat.noConfusion hs, fun hw => Bool.noConfusion hw,
    fun hw => hw.elim (fun hw => Bool.noConfusion hw) (fun hw => Bool.noConfusion hw), fun _ => hresume,
    fun hs => Stat.noConfusion hs, fun hs => Stat.noConfusion hs⟩

include hfit hsize in
theorem run_armed (blocksize : Int) (hresume : resume < file.length) {es : List Event}
    (hes : Along step (Event.admitted prompt) (offered file blocksize resume destfile disk) es) :
    let l := es.foldl step (offered file blocksize resume destfile disk)
    Transferring file resume disk destfile l ∧ Acked resume prompt l ∧ Armed prompt l := by
  refine Along.invariant
    (I := fun l => Transferring file resume disk destfile l ∧ Acked resume prompt l ∧ Armed prompt l) ?_
    ⟨offered_transferring blocksize hresume.le, offered_acked blocksize hresume, offered_armed blocksize hresume⟩ hes
  intro l e h he
  exact ⟨step_transferring hfit h.1 e, step_acked hfit hsize h.1 h.2.1 he, step_armed hsize h.1 h.2.1 h.2.2 he⟩

end Runs

/-- The sender's system calls in this callback succeed. -/
def Event.calm : Event → Prop
  | .accept _ r | .writable r | .throttleSender _ r => r ≠ .error
  | .ackReadable ps => ∀ p ∈ ps, p.recv ≠ .eof ∧ p.recv ≠ .error ∧ p.sent ≠ .error
  | _ => True

theorem dccSendData_fails_iff {l : Link} {r : Sent} (hactive : l.snd.dccstat = .active) (hr : r ≠ .error) :
    (dccSendData l r).snd.dccstat = .failed ↔ l.snd.throttled = 0 ∧
      ¬ (l.snd.fastsend = false ∧ l.snd.ack < l.snd.pos % 2 ^ 32) ∧ l.file.length ≤ l.snd.pos := by
  unfold dccSendData
  dsimp only
  split_ifs with hbits hwait hend
  · exact ⟨fun h => by simp [hactive] at h, fun h => absurd h.1 hbits⟩
  · exact ⟨fun h => by simp [hactive] at h, fun h => absurd hwait h.2.1⟩
  · refine ⟨fun _ => ⟨not_not.1 hbits, hwait, ?_⟩, fun _ => rfl⟩
    exact (block_eq_nil_iff l.blocksize).1 (hend.resolve_right hr)
  · rw [not_or] at hend
    exact ⟨fun h => by simp [hactive] at h, fun h => absurd ((block_eq_nil_iff l.blocksize).2 h.2.2) hend.1⟩

theorem dccRead_snd {l : Link} (hstat : l.rcv.dccstat = .active) (openFails : Bool) (ps : List ReadPass)
    (taken : Nat) : (dccRead l openFails ps taken).snd = l.snd := by
  have hopen : (openFile l openFails).snd = l.snd := by
    unfold openFile
    split_ifs <;> rfl
  unfold dccRead
  dsimp only
  split
  · exact hopen
  · exact (readLoop_receives _ _ _ _ (by simpa using hstat)).snd.trans hopen

/-- A sender with more to send does not fail, and stays open. -/
theorem dccSendData_goes_on {l : Link} {r : Sent} (hactive : l.snd.dccstat = .active) (hopen : l.snd.sok = true)
    (hr : r ≠ .error) (hmore : l.snd.pos < l.file.length) :
    (dccSendData l r).snd.dccstat = .active ∧ (dccSendData l r).snd.sok = true := by
  rcases dccSendData_stat l r with ⟨hstat, -, hsok⟩ | ⟨hfailed, -⟩
  · exact ⟨hstat.trans hactive, hsok.trans hopen⟩
  · have := ((dccSendData_fails_iff hactive hr).1 hfailed).2.2
    omega

theorem dccReadAck_goes_on {file : Bytes} {resume : Nat} {prompt : Prop} {l : Link} (hsize : file.length ≤ 0xffffffff)
    (hp : Piped file resume l) (ha : Acked resume prompt l) (hactive : l.snd.dccstat = .active)
    (hopen : l.snd.sok = true) {ps : List AckPass} (hps : ∀ p ∈ ps, p.whole)
    (hcalm : ∀ p ∈ ps, p.recv ≠ .eof ∧ p.recv ≠ .error ∧ p.sent ≠ .error) :
    (dccReadAck l ps).snd.dccstat ≠ .failed := by
  refine dccReadAck_rule (I := fun m => Piped file resume m ∧ Acked resume prompt m ∧ m.snd.dccstat = .active ∧
      m.snd.sok = true)
    (Q := fun m => m.snd.dccstat ≠ .failed)
    (P := fun p => p.whole ∧ p.recv ≠ .eof ∧ p.recv ≠ .error ∧ p.sent ≠ .error) hsize
    (fun m hm => ⟨hm.1, hm.2.1⟩) (fun p hp => hp.1) (fun m hm => by rw [hm.2.2.1]; decide) ?_ ?_
    (fun p hin => ⟨hps p hin, hcalm p hin⟩) ⟨hp, ha, hactive, hopen⟩
  · rintro m p ⟨-, -, -, hsok⟩ hok (hclosed | heof | herror)
    · rw [hsok] at hclosed
      cases hclosed
    · exact absurd heof hok.2.1
    · exact absurd herror hok.2.2.1
  · intro m p q qs hm hok _ _ hbounds hlatest
    obtain ⟨hmp, hma, hmactive, hmopen⟩ := hm
    have hnext := ackTaken_acked hmp hma hbounds hlatest p.sent
    have hsndSize := hmp.sndSize
    have hstay : (ackTaken m q qs p.sent).2 = true ∧ (ackTaken m q qs p.sent).1.snd.dccstat = .done ∨
        (ackTaken m q qs p.sent).2 = false ∧ (ackTaken m q qs p.sent).1.snd.dccstat = .active ∧
          (ackTaken m q qs p.sent).1.snd.sok = true := by
      unfold ackTaken
      dsimp only
      split_ifs with hdone hsend
      · exact .inl ⟨rfl, rfl⟩
      · refine .inr ⟨rfl, dccSendData_goes_on hmactive hmopen hok.2.2.2 ?_⟩
        rw [hmp.reads]
        show m.snd.pos < file.length
        omega
      · exact .inr ⟨rfl, hmactive, hmopen⟩
    rcases hstay with ⟨hover, hstat⟩ | ⟨hgo, hstat, hsok⟩
    · rw [if_pos hover, hstat]
      decide
    · rw [if_neg (by rw [hgo]; decide)]
      exact ⟨hnext.1, hnext.2, hstat, hsok⟩

end PoxChat.Transfers
