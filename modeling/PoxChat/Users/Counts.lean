import Mathlib.Data.List.Perm.Basic
import PoxChat.Users.Lookup

/-!
# Counts and status of users

The counts of a session and the status of its users against the access bits: `update_counts`,
`userlist_update_mode`, and `mode_access` and `get_nick_prefix` of `modes.c`.

* `ModeServer` — a server with a PREFIX whose modes and prefixes belong together.
* `Status` — the three prefixes that are counted, and have a flag of their own.

Principal result: `counts_agree` — along every run whose calls never put a user back beside another of the same
nick, the counts, the flags and the prefixes are those of the access bits.
-/

set_option autoImplicit false

namespace PoxChat.Users

open Lib Outbound

/-! ## The model -/

/-- A server after 005 with `PREFIX=(modes)prefixes`. -/
structure ModeServer extends Server where
  nickModes : Bytes
  length_eq : nickModes.length = nickPrefixes.length
  nodup_modes : nickModes.Nodup
  nodup_prefixes : nickPrefixes.Nodup
  /-- They are C strings. -/
  no_nul : 0 ∉ nickPrefixes

def USERACCESS_SIZE : Nat := 12

/-- The loop of `get_nick_prefix`, from position `pos` on. -/
def nickPrefixLoop (access : Nat) : Nat → Nat → Bytes → UInt8
  | 0, _, _ => 0
  | _, _, [] => 0
  | size + 1, pos, c :: prefixes =>
    if c = 0 then 0 else if access.testBit pos then c else nickPrefixLoop access size (pos + 1) prefixes

/-- `get_nick_prefix`. -/
def getNickPrefix (serv : Server) (access : Nat) : UInt8 := nickPrefixLoop access USERACCESS_SIZE 0 serv.nickPrefixes

/-- `mode_access`: the bit and the prefix of a mode. -/
def modeAccess (serv : ModeServer) (mode : UInt8) : Option (Nat × UInt8) :=
  if mode ∈ serv.nickModes then
    some (serv.nickModes.idxOf mode, (serv.nickPrefixes[serv.nickModes.idxOf mode]?).getD 0)
  else none

/-- `update_counts`. -/
def updateCounts (s : UserList) (user : User) (pfx : UInt8) (level : Bool) (offset : Int) : UserList × User :=
  if pfx = 64 then ({ s with ops := s.ops + offset }, { user with op := level })
  else if pfx = 37 then ({ s with hops := s.hops + offset }, { user with hop := level })
  else if pfx = 43 then ({ s with voices := s.voices + offset }, { user with voice := level })
  else (s, user)

/-- A sign and a bit: the access after it, and by how much the count changes. -/
def changeAccess (access bit : Nat) (sign : UInt8) : Nat × Int :=
  if sign = 43 then
    if access.testBit bit then (access, 0) else (access ||| 1 <<< bit, 1)
  else
    -- the bit is set, so that it is cleared
    if access.testBit bit then (access ^^^ 1 <<< bit, -1) else (access, 0)

/-- `userlist_update_mode`; the source calls it for the modes of `nick_modes` only. -/
def userlistUpdateMode (serv : ModeServer) (s : UserList) (name : Bytes) (mode sign : UInt8) : Option UserList :=
  match userlistFind serv.toServer s name with
  | none => some s
  | some user =>
    let t := treeRemove (nickCmpAlpha serv.toServer user) s.users
    (modeAccess serv mode).bind fun (bit, pfx) =>
      let (access, offset) := changeAccess user.access bit sign
      let user := { user with access := access, pfx := getNickPrefix serv.toServer access }
      let (s, user) := updateCounts s user pfx (sign = 43) offset
      -- the position `tree_insert` returns is not read
      (treeInsert (nickCmpAlpha serv.toServer user) user t).map fun (_, t) => { s with usertree := some t }

inductive ListOp where
  | user (op : UserOp)
  | updateMode (name : Bytes) (mode sign : UInt8)

def ListOp.step (serv : ModeServer) (s : UserList) : ListOp → Option UserList
  | .user op => op.step serv.toServer s
  | .updateMode name mode sign => userlistUpdateMode serv s name mode sign

def ListOp.stepOr (serv : ModeServer) (s : Option UserList) (op : ListOp) : Option UserList := s.bind (op.step serv)

/-- A session from its start on. -/
def listRun (serv : ModeServer) (ops : List ListOp) : Option UserList := ops.foldl (ListOp.stepOr serv) (some {})

/-! ## What counts and status should be -/

/-- The prefixes that are counted. -/
inductive Status where
  | op
  | hop
  | voice

def Status.char : Status → UInt8
  | .op => 64
  | .hop => 37
  | .voice => 43

/-- `user->op`, `user->hop` and `user->voice`. -/
def User.flag (user : User) : Status → Bool
  | .op => user.op
  | .hop => user.hop
  | .voice => user.voice

/-- `sess->ops`, `sess->hops` and `sess->voices`. -/
def UserList.number (s : UserList) : Status → Int
  | .op => s.ops
  | .hop => s.hops
  | .voice => s.voices

/-- The access has the bit of the prefix. -/
def hasPrefix (serv : Server) (access : Nat) (c : UInt8) : Bool :=
  c ∈ serv.nickPrefixes && access.testBit (serv.nickPrefixes.idxOf c)

/-- The highest prefix of an access: the first whose bit is set. -/
def highestPrefix (serv : Server) (access : Nat) : UInt8 :=
  ((serv.nickPrefixes.zipIdx.find? fun cpos => access.testBit cpos.2).map (·.1)).getD 0

/-- The flags and the prefix of a user are those of its access. -/
structure Marked (serv : Server) (user : User) : Prop where
  flags : ∀ status, user.flag status = hasPrefix serv user.access status.char
  pfx : user.pfx = highestPrefix serv user.access

/-- **Agreement** of numbers with the users that are listed, and of these with their access. -/
structure Agrees (serv : Server) (number : Status → Int) (users : List User) : Prop where
  counts : ∀ status, number status = (users.countP fun u => hasPrefix serv u.access status.char : Nat)
  marked : ∀ user ∈ users, Marked serv user

/-! ## The calls -/

/-- The users that are left when the one with this nick has been taken out. -/
def UserList.rest (serv : Server) (s : UserList) (name : Bytes) : List User :=
  match userlistFind serv s name with
  | none => s.users
  | some user => treeRemove (nickCmpAlpha serv user) s.users

/-- The calls that are considered: a name comes with distinct prefixes, highest first; a nick is changed to one that is
not present, and modes are those of the server. -/
def ListOp.Proper (serv : ModeServer) (s : UserList) : ListOp → Prop
  | .user (.add name _ _ _) =>
    let chars := (cString name).take (nickAccess serv.toServer (cString name)).2
    (∀ c ∈ chars, c ∈ serv.nickPrefixes) ∧
      chars.Pairwise fun a b => serv.nickPrefixes.idxOf a < serv.nickPrefixes.idxOf b
  | .user (.change _ newname) => ∀ u ∈ s.users, serv.pCmp newname u.nick ≠ 0
  | .user (.remove _) => True
  | .user .clear => True
  | .updateMode _ mode _ => mode ∈ serv.nickModes

/-- The user that is put back meets no other of its nick; a new nick counts as it is stored. -/
def ListOp.PutBack (serv : ModeServer) (s : UserList) : ListOp → Prop
  | .user (.change oldname newname) => (userlistFind serv.toServer s oldname).isSome →
    ∀ u ∈ s.rest serv.toServer oldname, serv.pCmp (safeStrcpy newname NICKLEN) u.nick ≠ 0
  | .updateMode name _ _ => ∀ u ∈ s.rest serv.toServer name, serv.pCmp name u.nick ≠ 0
  | .user (.add _ _ _ _) => True
  | .user (.remove _) => True
  | .user .clear => True

instance (serv : ModeServer) (s : UserList) (op : ListOp) : Decidable (op.Proper serv s) :=
  match op with
  | .user (.add _ _ _ _) => @instDecidableAnd _ _ (List.decidableBAll _ _) inferInstance
  | .user (.change _ _) => inferInstanceAs (Decidable (∀ u ∈ s.users, _))
  | .user (.remove _) => .isTrue trivial
  | .user .clear => .isTrue trivial
  | .updateMode _ _ _ => inferInstanceAs (Decidable (_ ∈ _))

instance (serv : ModeServer) (s : UserList) (op : ListOp) : Decidable (op.PutBack serv s) :=
  match op with
  | .user (.change _ _) => inferInstanceAs (Decidable (_ → _))
  | .updateMode name _ _ => inferInstanceAs (Decidable (∀ u ∈ s.rest serv.toServer name, _))
  | .user (.add _ _ _ _) => .isTrue trivial
  | .user (.remove _) => .isTrue trivial
  | .user .clear => .isTrue trivial

/-- The call is proper in the state it is made in, and puts no user back beside another. -/
def ListOp.SoundIn (serv : ModeServer) (s : Option UserList) (op : ListOp) : Prop :=
  ∀ s' ∈ s, op.Proper serv s' ∧ op.PutBack serv s'

instance (serv : ModeServer) (s : Option UserList) (op : ListOp) : Decidable (op.SoundIn serv s) :=
  match s with
  | none => .isTrue fun _ h => by cases h
  | some s => decidable_of_iff (op.Proper serv s ∧ op.PutBack serv s)
      ⟨fun h _ hs => Option.some.inj hs ▸ h, fun h => h s rfl⟩

/-! ## Lists of users -/

section Lists

variable {serv : Server} {number : Status → Int} {user : User} {users users' : List User}

/-- What a user counts for. -/
def User.weight (serv : Server) (user : User) (status : Status) : Int :=
  if hasPrefix serv user.access status.char then 1 else 0

theorem Agrees.perm (h : Agrees serv number users) (hp : users.Perm users') : Agrees serv number users' where
  counts status := by rw [h.counts, hp.countP_eq]
  marked user hu := h.marked user (hp.mem_iff.2 hu)

theorem Agrees.cons (h : Agrees serv number users) (hm : Marked serv user) :
    Agrees serv (fun status => number status + user.weight serv status) (user :: users) where
  counts status := by
    rw [List.countP_cons, h.counts, User.weight]
    split <;> simp
  marked u hu := by
    rcases List.mem_cons.1 hu with rfl | hu
    · exact hm
    · exact h.marked u hu

theorem Agrees.uncons (h : Agrees serv number (user :: users)) :
    Agrees serv (fun status => number status - user.weight serv status) users where
  counts status := by
    rw [h.counts, List.countP_cons, User.weight]
    split <;> simp
  marked u hu := h.marked u (List.mem_cons_of_mem _ hu)

/-- A user that has been found is the one that is taken out, whatever the order of the array. -/
theorem perm_of_find {s : UserList} {name : Bytes} (h : userlistFind serv s name = some user) :
    s.users.Perm (user :: treeRemove (nickCmpAlpha serv user) s.users) ∧ serv.key name = serv.key user.nick := by
  unfold userlistFind at h
  cases ht : s.usertree with
  | none =>
    rw [ht] at h
    cases h
  | some t =>
    rw [ht, Option.bind_some] at h
    obtain ⟨⟨i, u⟩, hfind, rfl⟩ := Option.map_eq_some_iff.1 h
    obtain ⟨hi, hz⟩ := treeFind_sound hfind
    have hkey : serv.key name = serv.key u.nick := pCmp_eq_zero_iff.1 hz
    have hsame : treeFind (nickCmpAlpha serv u) t = some (i, u) := by
      rw [← hfind]
      apply bisect_congr
      · intro a
        exact pCmp_congr_left hkey.symm a.nick
      · intro a
        unfold nickCmpAlpha
        rw [pCmp_eq_zero_iff, pCmp_eq_zero_iff, hkey]
    have husers : s.users = t := by simp [UserList.users, ht]
    obtain ⟨hlt, he⟩ := List.getElem?_eq_some_iff.1 hi
    rw [husers, treeRemove, hsame]
    exact ⟨he ▸ (List.getElem_cons_eraseIdx_perm hlt).symm, hkey⟩

/-- A user goes into the array unless another one with its nick is met. -/
theorem perm_of_insert (hfree : ∀ u ∈ users, serv.pCmp user.nick u.nick ≠ 0) :
    ∃ pos t, treeInsert (nickCmpAlpha serv user) user users = some (pos, t) ∧ pos ≠ -1 ∧ t.Perm (user :: users) := by
  rcases treeInsert_ends (nickCmpAlpha serv user) users user with ⟨⟨u, hu, hz⟩, -⟩ | ⟨p, hfits, hins⟩
  · exact absurd hz (hfree u hu)
  · exact ⟨p, _, hins, by omega, List.perm_insertIdx user users hfits.le⟩

end Lists

/-! ## Access -/

section Access

variable {serv : ModeServer}

theorem testBit_changeAccess (access bit : Nat) (sign : UInt8) (i : Nat) :
    (changeAccess access bit sign).1.testBit i = if i = bit then decide (sign = 43) else access.testBit i := by
  unfold changeAccess
  by_cases hi : i = bit
  · subst hi
    rw [if_pos rfl]
    split_ifs with hsign hbit hbit
    · simp [hsign, hbit]
    · simp [hsign, Nat.testBit_shiftLeft]
    · simp [hsign, hbit, Nat.testBit_shiftLeft]
    · simp [hsign, hbit]
  · rw [if_neg hi]
    have hshift : (1 <<< bit : Nat).testBit i = false := by
      rw [Nat.one_shiftLeft, Nat.testBit_two_pow]
      simpa using fun h => hi h.symm
    split_ifs
    · rfl
    · rw [Nat.testBit_or, hshift, Bool.or_false]
    · rw [Nat.testBit_xor, hshift, Bool.xor_false]
    · rfl

/-- The count moves by what the bit does. -/
theorem changeAccess_offset (access bit : Nat) (sign : UInt8) :
    (changeAccess access bit sign).2 =
      (if sign = 43 then 1 else 0) - if access.testBit bit then (1 : Int) else 0 := by
  unfold changeAccess
  split_ifs <;> rfl

theorem modeAccess_eq {mode : UInt8} (h : mode ∈ serv.nickModes) :
    ∃ bit pfx, modeAccess serv mode = some (bit, pfx) ∧ serv.nickPrefixes[bit]? = some pfx := by
  have hlt : serv.nickModes.idxOf mode < serv.nickPrefixes.length := by
    rw [← serv.length_eq]
    exact List.idxOf_lt_length_iff.2 h
  refine ⟨_, _, if_pos h, ?_⟩
  rw [List.getElem?_eq_getElem hlt]
  rfl

/-- Positions of prefixes are prefixes. -/
theorem idxOf_eq_iff {c pfx : UInt8} {bit : Nat} (hc : c ∈ serv.nickPrefixes) (h : serv.nickPrefixes[bit]? = some pfx) :
    serv.nickPrefixes.idxOf c = bit ↔ c = pfx := by
  obtain ⟨hlt, rfl⟩ := List.getElem?_eq_some_iff.1 h
  constructor
  · rintro rfl
    exact (List.getElem_idxOf hlt).symm
  · rintro rfl
    exact serv.nodup_prefixes.idxOf_getElem bit hlt

theorem hasPrefix_changeAccess (access : Nat) {bit : Nat} {pfx : UInt8} (sign : UInt8)
    (h : serv.nickPrefixes[bit]? = some pfx) (c : UInt8) :
    hasPrefix serv.toServer (changeAccess access bit sign).1 c =
      if c = pfx then decide (sign = 43) else hasPrefix serv.toServer access c := by
  unfold hasPrefix
  by_cases hc : c ∈ serv.nickPrefixes
  · rw [testBit_changeAccess, if_congr (idxOf_eq_iff hc h) rfl rfl]
    split_ifs <;> simp [hc]
  · have hne : c ≠ pfx := by
      rintro rfl
      exact hc (List.mem_of_getElem? h)
    rw [if_neg hne]
    simp [hc]

theorem nickPrefixLoop_eq (access : Nat) (prefixes : Bytes) :
    ∀ size pos, prefixes.length ≤ size → 0 ∉ prefixes → nickPrefixLoop access size pos prefixes =
      (((prefixes.zipIdx pos).find? fun cpos => access.testBit cpos.2).map (·.1)).getD 0 := by
  induction prefixes with
  | nil =>
    intro size pos _ _
    cases size <;> rfl
  | cons c prefixes ih =>
    intro size pos hlen hnul
    cases size with
    | zero => simp at hlen
    | succ size =>
      have hc : c ≠ 0 := fun h => hnul (h ▸ List.mem_cons_self)
      have hrest := ih size (pos + 1) (by simpa using hlen) fun h => hnul (List.mem_cons_of_mem _ h)
      rw [nickPrefixLoop, if_neg hc, List.zipIdx_cons, List.find?_cons, hrest]
      cases access.testBit pos <;> rfl

theorem getNickPrefix_eq (h : serv.nickPrefixes.length ≤ USERACCESS_SIZE) (access : Nat) :
    getNickPrefix serv.toServer access = highestPrefix serv.toServer access :=
  nickPrefixLoop_eq access serv.nickPrefixes _ _ h serv.no_nul

/-! ### Names with prefixes -/

/-- The prefix characters of a name. -/
def prefixChars (serv : Server) (name : Bytes) : Bytes := name.take (nickAccess serv name).2

theorem testBit_nickAccess (name : Bytes) (i : Nat) :
    (nickAccess serv.toServer name).1.testBit i = true ↔
      ∃ c ∈ prefixChars serv.toServer name, c ∈ serv.nickPrefixes ∧ serv.nickPrefixes.idxOf c = i := by
  unfold prefixChars
  induction name with
  | nil => simp [nickAccess]
  | cons c name ih =>
    by_cases hc : c ∈ serv.nickPrefixes
    · have hidx : isPrefixChar serv.toServer c = serv.nickPrefixes.idxOf c := if_pos hc
      have h1 : ¬ (serv.nickPrefixes.idxOf c : Int) = -1 := by omega
      have h2 : ¬ (serv.nickPrefixes.idxOf c : Int) = -2 := by omega
      simp only [nickAccess, hidx, if_neg h1, if_neg h2, Int.toNat_natCast, Nat.testBit_or, Bool.or_eq_true,
        List.take_succ_cons, List.exists_mem_cons_iff, ih]
      rw [Nat.one_shiftLeft, Nat.testBit_two_pow, decide_eq_true_eq, or_comm]
      simp only [hc, true_and]
    · by_cases hbad : serv.badNickPrefixes.any (c ∈ ·) = true
      · have hidx : isPrefixChar serv.toServer c = -2 := by rw [isPrefixChar, if_neg hc, if_pos hbad]
        have h1 : ¬ (-2 : Int) = -1 := by omega
        simp only [nickAccess, hidx, if_neg h1, if_pos, List.take_succ_cons, List.exists_mem_cons_iff, hc, false_and,
          false_or]
        exact ih
      · have hidx : isPrefixChar serv.toServer c = -1 := by rw [isPrefixChar, if_neg hc, if_neg hbad]
        simp [nickAccess, hidx]

variable {name : Bytes}

/-- The access of a name has the bits of its prefixes. -/
theorem hasPrefix_nickAccess (hchars : ∀ c ∈ prefixChars serv.toServer name, c ∈ serv.nickPrefixes) (c : UInt8) :
    hasPrefix serv.toServer (nickAccess serv.toServer name).1 c = decide (c ∈ prefixChars serv.toServer name) := by
  rw [Bool.eq_iff_iff, hasPrefix, Bool.and_eq_true, testBit_nickAccess, decide_eq_true_eq, decide_eq_true_eq]
  constructor
  · rintro ⟨hc, d, hd, hmem, hidx⟩
    rwa [← (List.idxOf_inj hmem).1 hidx]
  · intro hc
    exact ⟨hchars c hc, c, hc, hchars c hc, rfl⟩

/-- Its first prefix is its highest. -/
theorem highestPrefix_nickAccess (hchars : ∀ c ∈ prefixChars serv.toServer name, c ∈ serv.nickPrefixes)
    (hdesc : (prefixChars serv.toServer name).Pairwise fun a b =>
      serv.nickPrefixes.idxOf a < serv.nickPrefixes.idxOf b) :
    highestPrefix serv.toServer (nickAccess serv.toServer name).1 =
      ((prefixChars serv.toServer name).head?).getD 0 := by
  unfold highestPrefix
  cases hcs : prefixChars serv.toServer name with
  | nil =>
    have hnone : (serv.nickPrefixes.zipIdx.find? fun cpos =>
        (nickAccess serv.toServer name).1.testBit cpos.2) = none := by
      rw [List.find?_eq_none]
      intro cpos _ hbit
      obtain ⟨c, hc, -⟩ := (testBit_nickAccess name cpos.2).1 hbit
      rw [hcs] at hc
      cases hc
    rw [hnone]
    rfl
  | cons c rest =>
    have hmem : c ∈ prefixChars serv.toServer name := hcs ▸ List.mem_cons_self
    have hlt : serv.nickPrefixes.idxOf c < serv.nickPrefixes.length := List.idxOf_lt_length_iff.2 (hchars c hmem)
    have hfind : (serv.nickPrefixes.zipIdx.find? fun cpos =>
        (nickAccess serv.toServer name).1.testBit cpos.2) = some (c, serv.nickPrefixes.idxOf c) := by
      rw [List.find?_eq_some_iff_getElem]
      refine ⟨(testBit_nickAccess name _).2 ⟨c, hmem, hchars c hmem, rfl⟩, serv.nickPrefixes.idxOf c,
        by simpa using hlt, by simp, ?_⟩
      -- a bit before it would be that of a prefix before it
      intro j hj
      rw [Bool.not_eq_true', Bool.eq_false_iff]
      intro hbit
      obtain ⟨d, hd, -, hidx⟩ := (testBit_nickAccess name _).1 hbit
      simp only [List.getElem_zipIdx, Nat.zero_add] at hidx
      rw [hcs] at hd hdesc
      rcases List.mem_cons.1 hd with rfl | hd
      · omega
      · have := (List.pairwise_cons.1 hdesc).1 d hd
        omega
    rw [hfind]
    rfl

end Access

/-! ## Steps and runs -/

section Steps

variable {serv : ModeServer} {s : UserList}

theorem updateCounts_number (user : User) (pfx : UInt8) (level : Bool) (offset : Int) (status : Status) :
    (updateCounts s user pfx level offset).1.number status =
      s.number status + if status.char = pfx then offset else 0 := by
  unfold updateCounts
  cases status <;> split_ifs <;> simp_all [UserList.number, Status.char]

theorem updateCounts_flag (user : User) (pfx : UInt8) (level : Bool) (offset : Int) (status : Status) :
    (updateCounts s user pfx level offset).2.flag status = if status.char = pfx then level else user.flag status := by
  unfold updateCounts
  cases status <;> split_ifs <;> simp_all [User.flag, Status.char]

/-- Counts touch neither the array nor what a user is known by. -/
theorem updateCounts_fields (user : User) (pfx : UInt8) (level : Bool) (offset : Int) :
    let r := updateCounts s user pfx level offset
    r.1.usertree = s.usertree ∧ r.2.nick = user.nick ∧ r.2.access = user.access ∧ r.2.pfx = user.pfx := by
  unfold updateCounts
  split_ifs <;> exact ⟨rfl, rfl, rfl, rfl⟩

theorem updateCounts_raise (user : User) (c : UInt8) : updateCounts s user c true 1 = (s.count c, user.level c) := by
  unfold updateCounts UserList.count User.level
  split_ifs <;> rfl

/-- The flags that a name's prefixes set. -/
theorem foldl_level_flag (chars : Bytes) (user : User) (status : Status) :
    (chars.foldl User.level user).flag status = (decide (status.char ∈ chars) || user.flag status) := by
  induction chars generalizing user with
  | nil => simp
  | cons c chars ih =>
    have hone := updateCounts_flag (s := {}) user c true 1 status
    rw [updateCounts_raise] at hone
    rw [List.foldl_cons, ih, hone]
    by_cases hc : status.char = c <;> simp [hc]

theorem foldl_level_fields (chars : Bytes) (user : User) :
    (chars.foldl User.level user).access = user.access ∧ (chars.foldl User.level user).pfx = user.pfx := by
  induction chars generalizing user with
  | nil => exact ⟨rfl, rfl⟩
  | cons c chars ih =>
    have hone := updateCounts_fields (s := {}) user c true 1
    rw [updateCounts_raise] at hone
    rw [List.foldl_cons]
    exact ⟨(ih _).1.trans hone.2.2.1, (ih _).2.trans hone.2.2.2⟩

theorem foldl_count_number (chars : Bytes) (s : UserList) (status : Status) :
    (chars.foldl UserList.count s).number status = s.number status + chars.count status.char := by
  induction chars generalizing s with
  | nil => simp
  | cons c chars ih =>
    have hone := updateCounts_number (s := s) { addr := 0, nick := [] } c true 1 status
    rw [updateCounts_raise] at hone
    rw [List.foldl_cons, ih, hone, List.count_cons]
    by_cases hc : status.char = c
    · simp [hc]
      omega
    · have hc' : ¬ c = status.char := fun e => hc e.symm
      simp [hc, hc']

theorem add_agrees (h : Agrees serv.toServer s.number s.users) {name : Bytes}
    {hostname account realname : Option Bytes}
    (hproper : (ListOp.user (.add name hostname account realname)).Proper serv s) :
    ∃ s', userlistAdd serv.toServer s name hostname account realname = some s' ∧
      Agrees serv.toServer s'.number s'.users := by
  obtain ⟨hchars, hdesc⟩ := hproper
  have hflags := hasPrefix_nickAccess hchars
  have hpfx := highestPrefix_nickAccess hchars hdesc
  have hnodup : (prefixChars serv.toServer (cString name)).Nodup := by
    refine List.Pairwise.imp ?_ hdesc
    rintro a b hlt rfl
    omega
  unfold userlistAdd
  dsimp only
  unfold prefixChars at hflags hpfx hnodup
  generalize hcs : (cString name).take (nickAccess serv.toServer (cString name)).2 = chars at *
  generalize huser : chars.foldl User.level _ = user
  have hmarked : Marked serv.toServer user := by
    obtain ⟨haccess, hfirst⟩ := huser ▸ foldl_level_fields chars _
    refine ⟨fun status => ?_, ?_⟩
    · rw [haccess, hflags, ← huser, foldl_level_flag]
      cases status <;> simp [User.flag]
    · rw [hfirst, haccess, hpfx]
  rcases treeInsert_ends (nickCmpAlpha serv.toServer user) s.users user with ⟨-, hins⟩ | ⟨p, hfits, hins⟩
  · -- a duplicate changes nothing
    rw [hins]
    exact ⟨_, rfl, h⟩
  · rw [hins]
    refine ⟨_, rfl, ?_⟩
    dsimp only
    rw [if_neg (by omega)]
    have hnumber : ∀ status, s.number status + user.weight serv.toServer status =
        s.number status + chars.count status.char := by
      intro status
      rw [User.weight, ← hmarked.flags, ← huser, foldl_level_flag]
      by_cases hc : status.char ∈ chars
      · rw [List.count_eq_one_of_mem hnodup hc]
        simp [hc]
      · rw [List.count_eq_zero.2 hc]
        cases status <;> simp [hc, User.flag]
    have hall := (h.cons hmarked).perm (List.perm_insertIdx user s.users hfits.le).symm
    rw [funext hnumber] at hall
    generalize hs₁ : chars.foldl UserList.count _ = s₁
    have husers : s₁.users = s.users.insertIdx p user := by
      rw [UserList.users, ← hs₁, (foldl_count chars _).1]
      rfl
    have hnumber₁ : s₁.number = fun status => s.number status + chars.count status.char := by
      funext status
      rw [← hs₁, foldl_count_number]
      cases status <;> rfl
    have hmain : Agrees serv.toServer s₁.number s₁.users := by
      rw [husers, hnumber₁]
      exact hall
    split
    · -- the session's own user
      refine ⟨fun status => Eq.trans ?_ (hmain.counts status), hmain.marked⟩
      cases status <;> rfl
    · exact hmain

theorem change_agrees (h : Agrees serv.toServer s.number s.users) {oldname newname : Bytes}
    (hput : (ListOp.user (.change oldname newname)).PutBack serv s) :
    ∃ s', userlistChange serv.toServer s oldname newname = some s' ∧ Agrees serv.toServer s'.number s'.users := by
  unfold userlistChange
  cases hfind : userlistFind serv.toServer s oldname with
  | none => exact ⟨s, rfl, h⟩
  | some user =>
    obtain ⟨hperm, -⟩ := perm_of_find hfind
    have hfree := hput (by rw [hfind]; rfl)
    simp only [UserList.rest, hfind] at hfree
    dsimp only
    generalize hnew : ({ user with nick := safeStrcpy newname NICKLEN } : User) = user'
    have hfree' : ∀ u ∈ treeRemove (nickCmpAlpha serv.toServer user) s.users, serv.pCmp user'.nick u.nick ≠ 0 := by
      rw [← hnew]
      exact hfree
    obtain ⟨pos, t, hins, -, hperm'⟩ := perm_of_insert hfree'
    rw [hins]
    refine ⟨_, rfl, ?_⟩
    have hmarked : Marked serv.toServer user' := by
      have hold := h.marked user (hperm.mem_iff.2 List.mem_cons_self)
      rw [← hnew]
      exact ⟨fun status => by rw [← hold.flags]; cases status <;> rfl, hold.pfx⟩
    have hall := ((h.perm hperm).uncons.cons hmarked).perm hperm'.symm
    have hsame : ∀ status, s.number status - user.weight serv.toServer status + user'.weight serv.toServer status =
        s.number status := by
      intro status
      rw [← hnew]
      exact Int.sub_add_cancel _ _
    rw [funext hsame] at hall
    exact hall

theorem remove_agrees (h : Agrees serv.toServer s.number s.users) (name : Bytes) :
    Agrees serv.toServer (userlistRemove serv.toServer s name).number
      (userlistRemove serv.toServer s name).users := by
  unfold userlistRemove
  cases hfind : userlistFind serv.toServer s name with
  | none => exact h
  | some user =>
    obtain ⟨hperm, -⟩ := perm_of_find hfind
    have hflags := (h.marked user (hperm.mem_iff.2 List.mem_cons_self)).flags
    have hall := (h.perm hperm).uncons
    have hsame : ∀ status, s.number status - user.weight serv.toServer status =
        (userlistRemoveUser serv.toServer s user).number status := by
      intro status
      rw [User.weight, ← hflags]
      cases status <;> simp only [UserList.number, User.flag, userlistRemoveUser] <;> split_ifs <;> simp_all
    rw [funext hsame] at hall
    exact hall

/-- A mode gives or takes one prefix, with its flag and its place in the count. -/
theorem updateCounts_marked (hsize : serv.nickPrefixes.length ≤ USERACCESS_SIZE) {user ranked : User} {bit : Nat}
    {pfx sign : UInt8} (hold : Marked serv.toServer user) (hbit : serv.nickPrefixes[bit]? = some pfx)
    (hranked : ranked = { user with
      access := (changeAccess user.access bit sign).1
      pfx := getNickPrefix serv.toServer (changeAccess user.access bit sign).1 }) :
    let counted := updateCounts s ranked pfx (sign = 43) (changeAccess user.access bit sign).2
    Marked serv.toServer counted.2 ∧ ∀ status, counted.1.number status =
      s.number status - user.weight serv.toServer status + counted.2.weight serv.toServer status := by
  obtain ⟨-, -, haccess, hpfx⟩ :=
    updateCounts_fields (s := s) ranked pfx (sign = 43) (changeAccess user.access bit sign).2
  have hhas := hasPrefix_changeAccess user.access sign hbit
  have hflag : ∀ status, ranked.flag status = user.flag status := by
    intro status
    rw [hranked]
    cases status <;> rfl
  have hnew : ranked.access = (changeAccess user.access bit sign).1 := by rw [hranked]
  refine ⟨⟨fun status => ?_, ?_⟩, fun status => ?_⟩
  · rw [updateCounts_flag, haccess, hnew, hhas, hflag, hold.flags]
  · rw [hpfx, haccess, hranked, getNickPrefix_eq hsize]
  · rw [updateCounts_number, User.weight, User.weight, haccess, hnew, hhas]
    by_cases hc : status.char = pfx
    · -- the bit of the prefix is the one that is changed
      have hmem : status.char ∈ serv.nickPrefixes := hc ▸ List.mem_of_getElem? hbit
      have hidx : serv.nickPrefixes.idxOf status.char = bit := (idxOf_eq_iff hmem hbit).2 hc
      have hbefore : hasPrefix serv.toServer user.access status.char = user.access.testBit bit := by
        simp [hasPrefix, hmem, hidx]
      rw [if_pos hc, if_pos hc, hbefore, changeAccess_offset]
      simp only [decide_eq_true_eq]
      omega
    · rw [if_neg hc, if_neg hc]
      omega

theorem updateMode_agrees (hsize : serv.nickPrefixes.length ≤ USERACCESS_SIZE)
    (h : Agrees serv.toServer s.number s.users) {name : Bytes} {mode sign : UInt8}
    (hproper : (ListOp.updateMode name mode sign).Proper serv s)
    (hput : (ListOp.updateMode name mode sign).PutBack serv s) :
    ∃ s', userlistUpdateMode serv s name mode sign = some s' ∧ Agrees serv.toServer s'.number s'.users := by
  unfold userlistUpdateMode
  cases hfind : userlistFind serv.toServer s name with
  | none => exact ⟨s, rfl, h⟩
  | some user =>
    obtain ⟨hperm, hkey⟩ := perm_of_find hfind
    obtain ⟨bit, pfx, hmode, hbit⟩ := modeAccess_eq hproper
    have hold := h.marked user (hperm.mem_iff.2 List.mem_cons_self)
    simp only [ListOp.PutBack, UserList.rest, hfind] at hput
    dsimp only
    rw [hmode, Option.bind_some]
    dsimp only
    generalize hranked : ({ user with access := _, pfx := _ } : User) = ranked
    obtain ⟨hmarked, hnumber⟩ := updateCounts_marked (s := s) hsize hold hbit hranked.symm
    obtain ⟨-, hnick, -, -⟩ :=
      updateCounts_fields (s := s) ranked pfx (sign = 43) (changeAccess user.access bit sign).2
    generalize updateCounts s ranked pfx (decide (sign = 43)) (changeAccess user.access bit sign).2 = counted
      at hmarked hnumber hnick
    have hfree : ∀ u ∈ treeRemove (nickCmpAlpha serv.toServer user) s.users,
        serv.pCmp counted.2.nick u.nick ≠ 0 := by
      intro u hu hz
      apply hput u hu
      rw [hnick, ← hranked] at hz
      rw [pCmp_eq_zero_iff, hkey]
      exact pCmp_eq_zero_iff.1 hz
    obtain ⟨pos, t, hins, -, hperm'⟩ := perm_of_insert hfree
    rw [hins]
    refine ⟨_, rfl, ?_⟩
    have hall := ((h.perm hperm).uncons.cons hmarked).perm hperm'.symm
    rw [← funext hnumber] at hall
    refine ⟨fun status => Eq.trans ?_ (hall.counts status), hall.marked⟩
    cases status <;> rfl

/-- **One call** keeps the agreement. -/
theorem ListOp.step_agrees (hsize : serv.nickPrefixes.length ≤ USERACCESS_SIZE)
    (h : Agrees serv.toServer s.number s.users) {op : ListOp} (hproper : op.Proper serv s) (hput : op.PutBack serv s) :
    ∃ s', op.step serv s = some s' ∧ Agrees serv.toServer s'.number s'.users := by
  cases op with
  | user op =>
    cases op with
    | add name hostname account realname => exact add_agrees h hproper
    | change oldname newname => exact change_agrees h hput
    | remove name => exact ⟨_, rfl, remove_agrees h name⟩
    | clear =>
      refine ⟨_, rfl, fun status => ?_, fun user huser => absurd huser List.not_mem_nil⟩
      cases status <;> rfl
  | updateMode name mode sign => exact updateMode_agrees hsize h hproper hput

theorem listRun_agrees (hsize : serv.nickPrefixes.length ≤ USERACCESS_SIZE)
    (h : Agrees serv.toServer s.number s.users) {ops : List ListOp}
    (hs : Along (ListOp.stepOr serv) (fun s op => op.SoundIn serv s) (some s) ops) :
    ∃ s', ops.foldl (ListOp.stepOr serv) (some s) = some s' ∧ Agrees serv.toServer s'.number s'.users := by
  induction ops generalizing s with
  | nil => exact ⟨s, rfl, h⟩
  | cons op ops ih =>
    obtain ⟨hproper, hput⟩ := hs.1 s rfl
    obtain ⟨s', hstep, h'⟩ := ListOp.step_agrees hsize h hproper hput
    have hnext : ListOp.stepOr serv (some s) op = some s' := hstep
    rw [List.foldl_cons, hnext]
    exact ih h' (hnext ▸ hs.2)

end Steps

/-- **Counts and status agree with the access**, in every state of every run of proper calls that puts no user back
beside another of its nick, on a server with at most as many prefixes as `get_nick_prefix` looks at: each call
returns, `ops`, `hops` and `voices` are the numbers of listed users with that bit, and the flags and the prefix of
every user are those of its access. -/
theorem counts_agree (serv : ModeServer) (hsize : serv.nickPrefixes.length ≤ USERACCESS_SIZE) {ops : List ListOp}
    (h : Along (ListOp.stepOr serv) (fun s op => op.SoundIn serv s) (some {}) ops) :
    ∀ pre, pre <+: ops → ∃ s, listRun serv pre = some s ∧ Agrees serv.toServer s.number s.users := by
  rintro pre ⟨rest, rfl⟩
  have hstart : Agrees serv.toServer ({} : UserList).number ({} : UserList).users :=
    ⟨fun status => by cases status <;> rfl, fun user huser => absurd huser List.not_mem_nil⟩
  exact listRun_agrees hsize hstart (Along.append.1 h).1

/-- PREFIX=(ohv)@%+. -/
def ohvServer : ModeServer where
  toServer := ircServer
  nickModes := bytes "ohv"
  length_eq := rfl
  nodup_modes := by decide
  nodup_prefixes := by decide
  no_nul := by decide

/-- An operator with a voice loses its rank and gets it back twice, and leaves under another nick. -/
def promotions : List ListOp :=
  [.user (.joins (bytes "@+ann")), .user (.joins (bytes "bob")), .updateMode (bytes "ANN") 111 45,
    .updateMode (bytes "ann") 111 43, .updateMode (bytes "ann") 111 43, .updateMode (bytes "bob") 118 45,
    .user (.change (bytes "ann") (bytes "eve")), .user (.remove (bytes "eve"))]

theorem counts_agree_ohv :
    Along (ListOp.stepOr ohvServer) (fun s op => op.SoundIn ohvServer s) (some {}) promotions ∧
    ∀ pre, pre <+: promotions → ∃ s, listRun ohvServer pre = some s ∧ Agrees ircServer s.number s.users :=
  ⟨by decide, counts_agree ohvServer (by decide) (by decide)⟩

/-- A server with 13 ranks. -/
def manyServer : ModeServer where
  toServer := { ircServer with nickPrefixes := bytes "~&!@%+$#*=-^?" }
  nickModes := bytes "abcdefghijklm"
  length_eq := by decide
  nodup_modes := by decide
  nodup_prefixes := by decide
  no_nul := by decide

/-- A rename to a nick of 64 bytes that is not present; its first 63 are. -/
def cutRename : List ListOp :=
  [.user (.joins (bytes "@ann")), .user (.joins (List.replicate 63 97)), .user (.change (bytes "ann") sixtyFour)]

/-- A user gets the last rank. -/
def lastRank : List ListOp := [.user (.joins (bytes "ann")), .updateMode (bytes "ann") 109 43]

/-- **The defects**: an operator that is renamed is in no list any more but still counted, and a user with the last of
13 prefixes has an access and no prefix. -/
theorem counts_disagree :
    (Along (ListOp.stepOr ohvServer) (fun s op => ∀ s' ∈ s, op.Proper ohvServer s') (some {}) cutRename ∧
      ∃ s, listRun ohvServer cutRename = some s ∧ ¬ Agrees ircServer s.number s.users) ∧
    Along (ListOp.stepOr manyServer) (fun s op => ∀ s' ∈ s, op.Proper manyServer s') (some {}) lastRank ∧
      ∃ s, listRun manyServer lastRank = some s ∧ ¬ Agrees manyServer.toServer s.number s.users := by
  refine ⟨⟨by decide, _, rfl, fun h => ?_⟩, by decide, _, rfl, fun h => ?_⟩
  · have hops := h.counts .op
    exact absurd hops (by decide)
  · have hpfx := (h.marked _ List.mem_cons_self).pfx
    exact absurd hpfx (by decide)

end PoxChat.Users
