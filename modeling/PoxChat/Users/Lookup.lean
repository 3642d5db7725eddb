import PoxChat.Lib.Program
import PoxChat.Users.Userlist

/-!
# Nick lookup

When `userlist_find` can be relied on, over every sequence of calls on a user list.

* `UserOp.names` — the abstract list: the set of the nicks that are present, up to case.
* `Ordered`, `Orderly` — the tree is searched by halving, so its users must be in the order of the
  comparison, and a nick must have a place in it; a comparison that is not transitive need not give one.

Principal result: `nick_lookup_reliable`.
-/

set_option autoImplicit false

namespace PoxChat.Users

open Lib Outbound

/-! ## What a user list is for -/

/-- The nicks that have been added and not since removed or renamed. -/
def UserOp.names (serv : Server) (present : Set Bytes) : UserOp → Set Bytes
  | .add name _ _ _ => insert (serv.key (bareNick serv name)) present
  | .change oldname newname =>
    { k | k ∈ present ∧ k ≠ serv.key oldname ∨ serv.key oldname ∈ present ∧ k = serv.key newname }
  | .remove name => present \ {serv.key name}
  | .clear => ∅

/-- Nick lookup is reliable, for these nicks. -/
structure Reliable (serv : Server) (s : UserList) (present : Set Bytes) : Prop where
  find : ∀ name, (userlistFind serv s name).isSome ↔ serv.key name ∈ present
  found : ∀ name user, userlistFind serv s name = some user → serv.pCmp name user.nick = 0
  distinct : s.users.Pairwise fun a b => serv.pCmp a.nick b.nick ≠ 0
  total : s.total = s.users.length

/-- The nick fits into `User.nick`. -/
def Whole (nick : Bytes) : Prop := safeStrcpy nick NICKLEN = cString nick

/-- The comparison puts the nick in no circle with two users. -/
def Orderly (serv : Server) (nick : Bytes) (users : List User) : Prop :=
  ∀ a ∈ users, ∀ b ∈ users, serv.pCmp nick a.nick < 0 → serv.pCmp a.nick b.nick < 0 → serv.pCmp nick b.nick < 0

/-- The users with another nick. -/
def UserList.others (serv : Server) (s : UserList) (name : Bytes) : List User :=
  s.users.filter fun u => serv.pCmp name u.nick ≠ 0

/-- The nick that comes in fits, is put in no circle, and a rename is to no other user's nick. -/
def UserOp.Safe (serv : Server) (s : UserList) : UserOp → Prop
  | .add name _ _ _ => Whole (bareNick serv name) ∧ Orderly serv (bareNick serv name) s.users
  | .change oldname newname => (userlistFind serv s oldname).isSome →
    Whole newname ∧ Orderly serv newname (s.others serv oldname) ∧
      ∀ u ∈ s.others serv oldname, serv.pCmp newname u.nick ≠ 0
  | .remove _ => True
  | .clear => True

instance (nick : Bytes) : Decidable (Whole nick) := inferInstanceAs (Decidable (_ = _))

instance (serv : Server) (nick : Bytes) (users : List User) : Decidable (Orderly serv nick users) :=
  inferInstanceAs (Decidable (∀ a ∈ users, ∀ b ∈ users, _))

instance (serv : Server) (s : UserList) (op : UserOp) : Decidable (op.Safe serv s) :=
  match op with
  | .add _ _ _ _ => inferInstanceAs (Decidable (_ ∧ _))
  | .change _ _ => inferInstanceAs (Decidable (_ → _))
  | .remove _ => .isTrue trivial
  | .clear => .isTrue trivial

/-- The operation is safe in the state it is taken in. -/
def UserOp.SafeIn (serv : Server) (s : Option UserList) (op : UserOp) : Prop := ∀ s' ∈ s, op.Safe serv s'

instance (serv : Server) (s : Option UserList) (op : UserOp) : Decidable (op.SafeIn serv s) :=
  match s with
  | none => .isTrue fun _ h => by cases h
  | some s => decidable_of_iff (op.Safe serv s) ⟨fun h _ hs => Option.some.inj hs ▸ h, fun h => h s rfl⟩

/-! ## Ordered lists -/

/-- The users are in the order of their nicks. -/
def Ordered (serv : Server) (users : List User) : Prop := users.Pairwise fun a b => serv.pCmp a.nick b.nick < 0

section Lists

variable {serv : Server} {users : List User} {user : User} {name : Bytes}

theorem Ordered.descends (h : Ordered serv users) (ho : Orderly serv name users) :
    Descends (fun u => serv.pCmp name u.nick) users := by
  refine List.Pairwise.imp_of_mem ?_ h
  intro a b ha hb hab hle
  rcases Int.lt_or_eq_of_le hle with hlt | heq
  · exact ho a ha b hb hlt hab
  · exact (pCmp_congr_left (pCmp_eq_zero_iff.1 heq) b.nick).2 hab

theorem pCmp_self (nick : Bytes) : serv.pCmp nick nick = 0 := pCmp_eq_zero_iff.2 rfl

/-- Comparing nicks of the list is comparing positions. -/
theorem Ordered.index_lt (h : Ordered serv users) {i j : Nat} (hi : i < users.length) (hj : j < users.length)
    (hlt : serv.pCmp (users.get ⟨i, hi⟩).nick (users.get ⟨j, hj⟩).nick < 0) : i < j := by
  rcases Nat.lt_trichotomy i j with hij | rfl | hji
  · exact hij
  · rw [pCmp_self] at hlt
    omega
  · have hgt := List.pairwise_iff_get.1 h ⟨j, hj⟩ ⟨i, hi⟩ hji
    rw [pCmp_neg_iff] at hgt
    omega

/-- A nick of the list is in no circle with its users. -/
theorem Ordered.orderly (h : Ordered serv users) (hu : user ∈ users) (hk : serv.key name = serv.key user.nick) :
    Orderly serv name users := by
  intro a ha b hb hxa hab
  rw [pCmp_congr_left hk] at hxa ⊢
  obtain ⟨⟨i, hi⟩, rfl⟩ := List.mem_iff_get.1 hu
  obtain ⟨⟨j, hj⟩, rfl⟩ := List.mem_iff_get.1 ha
  obtain ⟨⟨k, hk'⟩, rfl⟩ := List.mem_iff_get.1 hb
  have hij := h.index_lt hi hj hxa
  have hjk := h.index_lt hj hk' hab
  exact List.pairwise_iff_get.1 h ⟨i, hi⟩ ⟨k, hk'⟩ (Nat.lt_trans hij hjk)

/-- Users of the list with one nick are one. -/
theorem Ordered.eq_of_key (h : Ordered serv users) {i j : Nat} (hi : i < users.length) (hj : j < users.length)
    (hk : serv.key (users.get ⟨i, hi⟩).nick = serv.key (users.get ⟨j, hj⟩).nick) : i = j := by
  have hz := pCmp_eq_zero_iff.2 hk
  rcases Nat.lt_trichotomy i j with hij | heq | hji
  · have := List.pairwise_iff_get.1 h ⟨i, hi⟩ ⟨j, hj⟩ hij
    omega
  · exact heq
  · have := List.pairwise_iff_get.1 h ⟨j, hj⟩ ⟨i, hi⟩ hji
    rw [pCmp_neg_iff] at this
    omega

/-- Lookup in an ordered list. -/
theorem Ordered.find (h : Ordered serv users) (hu : user ∈ users) (hk : serv.key name = serv.key user.nick) :
    ∃ i, users[i]? = some user ∧ treeFind (fun u => serv.pCmp name u.nick) users = some (i, user) := by
  obtain ⟨i, hi, he⟩ := List.mem_iff_getElem.1 hu
  have hget : users[i]? = some user := by rw [List.getElem?_eq_getElem hi, he]
  exact ⟨i, hget, treeFind_spec (h.descends (h.orderly hu hk)) hget (pCmp_eq_zero_iff.2 hk)⟩

/-- Removal takes the one user with the nick. -/
theorem Ordered.remove (h : Ordered serv users) (hu : user ∈ users) :
    Ordered serv (treeRemove (nickCmpAlpha serv user) users) ∧
    (∀ v, v ∈ treeRemove (nickCmpAlpha serv user) users ↔ v ∈ users ∧ serv.key v.nick ≠ serv.key user.nick) ∧
    (treeRemove (nickCmpAlpha serv user) users).length + 1 = users.length := by
  obtain ⟨i, hi, hfind⟩ := h.find hu rfl
  obtain ⟨hlt, he⟩ := List.getElem?_eq_some_iff.1 hi
  have hrem : treeRemove (nickCmpAlpha serv user) users = users.eraseIdx i := by
    unfold treeRemove nickCmpAlpha
    rw [hfind]
  rw [hrem]
  refine ⟨List.Pairwise.eraseIdx i h, fun v => ?_, ?_⟩
  · rw [List.mem_eraseIdx_iff_getElem?]
    constructor
    · rintro ⟨j, hj, hv⟩
      obtain ⟨hjlt, hve⟩ := List.getElem?_eq_some_iff.1 hv
      refine ⟨List.mem_of_getElem? hv, fun hk => hj ?_⟩
      rw [← hve, ← he] at hk
      exact h.eq_of_key hjlt hlt hk
    · rintro ⟨hv, hk⟩
      obtain ⟨j, hjlt, hve⟩ := List.mem_iff_getElem.1 hv
      refine ⟨j, ?_, by rw [List.getElem?_eq_getElem hjlt, hve]⟩
      rintro rfl
      exact hk (by rw [← hve, he])
  · rw [List.length_eraseIdx_of_lt hlt]
    omega

/-- Insertion of a nick that is in no circle. -/
theorem Ordered.insert (h : Ordered serv users) (ho : Orderly serv user.nick users) :
    (∃ v ∈ users, serv.key user.nick = serv.key v.nick) ∧
        treeInsert (nickCmpAlpha serv user) user users = some (-1, users) ∨
      (∀ v ∈ users, serv.key user.nick ≠ serv.key v.nick) ∧ ∃ (pos : Int) (t : List User), pos ≠ -1 ∧
        treeInsert (nickCmpAlpha serv user) user users = some (pos, t) ∧ Ordered serv t ∧
        (∀ v, v ∈ t ↔ v = user ∨ v ∈ users) ∧ t.length = users.length + 1 := by
  have hd : Descends (nickCmpAlpha serv user) users := h.descends ho
  rcases treeInsert_spec hd user with ⟨⟨v, hv, hz⟩, hins⟩ | ⟨p, hsep, hins⟩
  · exact .inl ⟨⟨v, hv, pCmp_eq_zero_iff.1 hz⟩, hins⟩
  · right
    refine ⟨fun v hv hk => ?_, p, _, by omega, hins, ?_, fun v => List.mem_insertIdx hsep.le,
      List.length_insertIdx_of_le_length hsep.le user⟩
    · -- what separates the list is compared with no user as equal
      obtain ⟨⟨i, hi⟩, rfl⟩ := List.mem_iff_get.1 hv
      have hz : nickCmpAlpha serv user (users.get ⟨i, hi⟩) = 0 := pCmp_eq_zero_iff.2 hk
      rcases Nat.lt_or_ge i p with hip | hip
      · have := hsep.below i hi hip
        omega
      · have := hsep.above i hi hip
        omega
    · refine pairwise_insertIdx h hsep.le (fun i hi hip => ?_) fun i hi hip => hsep.above i hi hip
      rw [pCmp_neg_iff]
      exact hsep.below i hi hip

end Lists

/-! ## Steps and runs -/

/-- The list holds these nicks, in their order, and counts them. -/
structure Holds (serv : Server) (s : UserList) (present : Set Bytes) : Prop where
  ordered : Ordered serv s.users
  keys : ∀ k, k ∈ present ↔ ∃ u ∈ s.users, serv.key u.nick = k
  total : s.total = s.users.length

section Steps

variable {serv : Server} {s : UserList} {present : Set Bytes}

theorem userlistFind_sound {name : Bytes} {user : User} (h : userlistFind serv s name = some user) :
    user ∈ s.users ∧ serv.key name = serv.key user.nick := by
  unfold userlistFind at h
  cases ht : s.usertree with
  | none =>
    rw [ht] at h
    cases h
  | some t =>
    rw [ht, Option.bind_some] at h
    obtain ⟨⟨i, u⟩, hfind, rfl⟩ := Option.map_eq_some_iff.1 h
    obtain ⟨hi, hz⟩ := treeFind_sound hfind
    have hmem : u ∈ t := List.mem_of_getElem? hi
    exact ⟨by simpa [UserList.users, ht] using hmem, pCmp_eq_zero_iff.1 hz⟩

theorem Holds.find (h : Holds serv s present) {user : User} (hu : user ∈ s.users) {name : Bytes}
    (hk : serv.key name = serv.key user.nick) : userlistFind serv s name = some user := by
  unfold userlistFind
  cases ht : s.usertree with
  | none => simp [UserList.users, ht] at hu
  | some t =>
    have hordered : Ordered serv t := by simpa [UserList.users, ht] using h.ordered
    obtain ⟨i, -, hfind⟩ := hordered.find (by simpa [UserList.users, ht] using hu) hk
    rw [Option.bind_some, hfind]
    rfl

/-- **A list that holds its nicks is looked up reliably.** -/
theorem Holds.reliable (h : Holds serv s present) : Reliable serv s present where
  find name := by
    rw [h.keys]
    constructor
    · intro hs
      obtain ⟨user, hfind⟩ := Option.isSome_iff_exists.1 hs
      obtain ⟨hu, hk⟩ := userlistFind_sound hfind
      exact ⟨user, hu, hk.symm⟩
    · rintro ⟨user, hu, hk⟩
      rw [h.find hu hk.symm]
      rfl
  found name user hfind := pCmp_eq_zero_iff.2 (userlistFind_sound hfind).2
  distinct := h.ordered.imp fun hlt => by omega
  total := h.total

theorem key_safeStrcpy {nick : Bytes} (h : Whole nick) : serv.key (safeStrcpy nick NICKLEN) = serv.key nick := by
  unfold Server.key Casefold.key
  rw [h]
  unfold cString
  rw [List.takeWhile_idem]

/-- The users of a nick that fits are ordered by the nick. -/
theorem Orderly.congr {a b : Bytes} {users : List User} (h : Orderly serv a users) (hk : serv.key b = serv.key a) :
    Orderly serv b users := by
  intro u hu v hv hlt huv
  rw [pCmp_congr_left hk] at hlt ⊢
  exact h u hu v hv hlt huv

theorem foldl_level_nick (chars : Bytes) (user : User) : (chars.foldl User.level user).nick = user.nick := by
  induction chars generalizing user with
  | nil => rfl
  | cons c chars ih =>
    rw [List.foldl_cons, ih]
    unfold User.level
    split_ifs <;> rfl

/-- The counts of the modes leave the list and its total alone. -/
theorem foldl_count (chars : Bytes) (s : UserList) :
    (chars.foldl UserList.count s).usertree = s.usertree ∧ (chars.foldl UserList.count s).total = s.total := by
  induction chars generalizing s with
  | nil => exact ⟨rfl, rfl⟩
  | cons c chars ih =>
    rw [List.foldl_cons]
    refine ⟨(ih _).1.trans ?_, (ih _).2.trans ?_⟩ <;>
    · unfold UserList.count
      split_ifs <;> rfl

theorem add_holds (h : Holds serv s present) {name : Bytes} {hostname account realname : Option Bytes}
    (hs : (UserOp.add name hostname account realname).Safe serv s) :
    ∃ s', userlistAdd serv s name hostname account realname = some s' ∧
      Holds serv s' ((UserOp.add name hostname account realname).names serv present) := by
  obtain ⟨hwhole, horderly⟩ := hs
  unfold userlistAdd
  dsimp only
  generalize hchars : (cString name).take (nickAccess serv (cString name)).2 = chars
  generalize huser : chars.foldl User.level _ = user
  have hkey : serv.key user.nick = serv.key (bareNick serv name) := by
    rw [← huser, foldl_level_nick]
    exact key_safeStrcpy hwhole
  rcases h.ordered.insert (horderly.congr hkey) with ⟨⟨v, hv, hkv⟩, hins⟩ | ⟨hnew, pos, t, hpos, hins, ht, hmem, hlen⟩
  · -- the nick is there already
    rw [hins]
    refine ⟨_, rfl, ?_⟩
    dsimp only
    rw [if_pos rfl]
    refine ⟨h.ordered, fun k => ?_, h.total⟩
    show k ∈ insert _ present ↔ ∃ u ∈ s.users, serv.key u.nick = k
    rw [Set.mem_insert_iff, h.keys]
    constructor
    · rintro (rfl | hk)
      · exact ⟨v, hv, by rw [← hkv, hkey]⟩
      · exact hk
    · exact .inr
  · rw [hins]
    refine ⟨_, rfl, ?_⟩
    dsimp only
    rw [if_neg hpos]
    generalize hs₁ : chars.foldl UserList.count _ = s₁
    have htree : s₁.usertree = some t := by rw [← hs₁, (foldl_count chars _).1]
    have htotal : s₁.total = s.total + 1 := by rw [← hs₁, (foldl_count chars _).2]
    suffices hmain : Holds serv s₁ ((UserOp.add name hostname account realname).names serv present) by
      split
      · exact ⟨hmain.ordered, hmain.keys, hmain.total⟩
      · exact hmain
    have husers : s₁.users = t := by rw [UserList.users, htree]; rfl
    refine ⟨husers ▸ ht, fun k => ?_, ?_⟩
    · show k ∈ insert _ present ↔ _
      rw [husers, Set.mem_insert_iff, h.keys]
      constructor
      · rintro (rfl | ⟨u, hu, hk⟩)
        · exact ⟨user, (hmem user).2 (.inl rfl), hkey⟩
        · exact ⟨u, (hmem u).2 (.inr hu), hk⟩
      · rintro ⟨u, hu, rfl⟩
        rcases (hmem u).1 hu with rfl | hu
        · exact .inl hkey
        · exact .inr ⟨u, hu, rfl⟩
    · rw [husers, htotal, hlen, h.total]
      push_cast
      rfl

/-- The users left by a removal are those with another nick. -/
theorem mem_others {name : Bytes} {u : User} : u ∈ s.others serv name ↔ u ∈ s.users ∧ serv.key u.nick ≠ serv.key name := by
  unfold UserList.others
  rw [List.mem_filter, decide_eq_true_eq, Ne, pCmp_eq_zero_iff]
  constructor <;> rintro ⟨hu, hne⟩ <;> exact ⟨hu, fun he => hne he.symm⟩

theorem change_holds (h : Holds serv s present) {oldname newname : Bytes}
    (hs : (UserOp.change oldname newname).Safe serv s) :
    ∃ s', userlistChange serv s oldname newname = some s' ∧
      Holds serv s' ((UserOp.change oldname newname).names serv present) := by
  unfold userlistChange
  cases hfind : userlistFind serv s oldname with
  | none =>
    refine ⟨s, rfl, h.ordered, fun k => ?_, h.total⟩
    have hold : serv.key oldname ∉ present := by
      rw [← h.reliable.find, hfind]
      simp
    rw [← h.keys]
    show k ∈ present ∧ k ≠ serv.key oldname ∨ serv.key oldname ∈ present ∧ k = serv.key newname ↔ k ∈ present
    constructor
    · rintro (⟨hk, -⟩ | ⟨hk, -⟩)
      · exact hk
      · exact absurd hk hold
    · intro hk
      exact .inl ⟨hk, fun he => hold (he ▸ hk)⟩
  | some user =>
    obtain ⟨hu, hkold⟩ := userlistFind_sound hfind
    obtain ⟨hwhole, horderly, hfree⟩ := hs (by rw [hfind]; rfl)
    obtain ⟨hrest, hmem, hlen⟩ := h.ordered.remove hu
    dsimp only
    generalize treeRemove (nickCmpAlpha serv user) s.users = t at hrest hmem hlen
    generalize hnew : ({ user with nick := safeStrcpy newname NICKLEN } : User) = user'
    have hkey : serv.key user'.nick = serv.key newname := by
      rw [← hnew]
      exact key_safeStrcpy hwhole
    have hothers : ∀ v, v ∈ t → v ∈ s.others serv oldname := by
      intro v hv
      rw [mem_others, hkold]
      exact (hmem v).1 hv
    have horderly' : Orderly serv user'.nick t := by
      intro a ha b hb
      exact horderly.congr hkey a (hothers a ha) b (hothers b hb)
    rcases hrest.insert horderly' with ⟨⟨v, hv, hkv⟩, -⟩ | ⟨-, pos, t', -, hins, ht', hmem', hlen'⟩
    · have hne := hfree v (hothers v hv)
      exact absurd (pCmp_eq_zero_iff.2 (hkey.symm.trans hkv)) hne
    · rw [hins]
      refine ⟨_, rfl, ht', fun k => ?_, ?_⟩
      · show k ∈ present ∧ k ≠ serv.key oldname ∨ serv.key oldname ∈ present ∧ k = serv.key newname ↔
          ∃ u ∈ t', serv.key u.nick = k
        have hthere : serv.key oldname ∈ present := (h.keys _).2 ⟨user, hu, hkold.symm⟩
        constructor
        · rintro (⟨hk, hne⟩ | ⟨-, rfl⟩)
          · obtain ⟨u, hu', rfl⟩ := (h.keys k).1 hk
            exact ⟨u, (hmem' u).2 (.inr ((hmem u).2 ⟨hu', hkold ▸ hne⟩)), rfl⟩
          · exact ⟨user', (hmem' user').2 (.inl rfl), hkey⟩
        · rintro ⟨u, hu', rfl⟩
          rcases (hmem' u).1 hu' with rfl | hu'
          · exact .inr ⟨hthere, hkey⟩
          · obtain ⟨hin, hne⟩ := (hmem u).1 hu'
            exact .inl ⟨(h.keys _).2 ⟨u, hin, rfl⟩, hkold ▸ hne⟩
      · show s.total = (t'.length : Int)
        rw [h.total]
        omega

theorem remove_holds (h : Holds serv s present) (name : Bytes) :
    Holds serv (userlistRemove serv s name) ((UserOp.remove name).names serv present) := by
  unfold userlistRemove
  cases hfind : userlistFind serv s name with
  | none =>
    have hout : serv.key name ∉ present := by
      rw [← h.reliable.find, hfind]
      simp
    refine ⟨h.ordered, fun k => ?_, h.total⟩
    rw [← h.keys]
    show k ∈ present ∧ k ≠ serv.key name ↔ k ∈ present
    exact ⟨fun hk => hk.1, fun hk => ⟨hk, fun he => hout (he ▸ hk)⟩⟩
  | some user =>
    obtain ⟨hu, hk⟩ := userlistFind_sound hfind
    obtain ⟨hrest, hmem, hlen⟩ := h.ordered.remove hu
    unfold userlistRemoveUser
    refine ⟨hrest, fun k => ?_, ?_⟩
    · show k ∈ present ∧ k ≠ serv.key name ↔ ∃ u ∈ treeRemove (nickCmpAlpha serv user) s.users, serv.key u.nick = k
      rw [h.keys]
      constructor
      · rintro ⟨⟨u, hu', rfl⟩, hne⟩
        exact ⟨u, (hmem u).2 ⟨hu', hk ▸ hne⟩, rfl⟩
      · rintro ⟨u, hu', rfl⟩
        obtain ⟨hin, hne⟩ := (hmem u).1 hu'
        exact ⟨⟨u, hin, rfl⟩, hk ▸ hne⟩
    · show s.total - 1 = ((treeRemove (nickCmpAlpha serv user) s.users).length : Int)
      rw [h.total]
      omega

/-- **One call.** -/
theorem UserOp.step_holds (h : Holds serv s present) {op : UserOp} (hs : op.Safe serv s) :
    ∃ s', op.step serv s = some s' ∧ Holds serv s' (op.names serv present) := by
  cases op with
  | add name hostname account realname => exact add_holds h hs
  | change oldname newname => exact change_holds h hs
  | remove name => exact ⟨_, rfl, remove_holds h name⟩
  | clear => exact ⟨_, rfl, List.Pairwise.nil, fun k => by simp [UserOp.names, userlistClear, UserList.users], rfl⟩

theorem run_holds (h : Holds serv s present) {ops : List UserOp}
    (hs : Along (UserOp.stepOr serv) (fun s op => op.SafeIn serv s) (some s) ops) :
    ∃ s', ops.foldl (UserOp.stepOr serv) (some s) = some s' ∧ Holds serv s' (ops.foldl (UserOp.names serv) present) := by
  induction ops generalizing s present with
  | nil => exact ⟨s, rfl, h⟩
  | cons op ops ih =>
    obtain ⟨s', hstep, h'⟩ := UserOp.step_holds h (hs.1 s rfl)
    have hnext : UserOp.stepOr serv (some s) op = some s' := hstep
    rw [List.foldl_cons, List.foldl_cons, hnext]
    exact ih h' (hnext ▸ hs.2)

end Steps

/-- A nick every byte of which is above the end of a string: under the ASCII mapping every nick, under that
of RFC 1459 those without a byte from 0x80 on. -/
def Plain (serv : Server) (nick : Bytes) : Prop := ∀ c ∈ cString nick, 0 < serv.casemapping.fold.last c

theorem plain_of_ascii {serv : Server} (h : serv.casemapping = .ascii) (nick : Bytes) : Plain serv nick := by
  intro c hc
  rw [h]
  have := toNat_ne_zero (cString_ne_zero hc)
  show (0 : Int) < (c.toNat : Int)
  omega

/-- Such nicks are in an order. -/
theorem Casefold.loop_trans (f : Casefold) {a b c : Bytes} (ha : ∀ x ∈ a, 0 < f.last x) (hb : ∀ x ∈ b, 0 < f.last x)
    (hc : ∀ x ∈ c, 0 < f.last x) (hab : f.loop a b < 0) (hbc : f.loop b c < 0) : f.loop a c < 0 := by
  induction a generalizing b c with
  | nil =>
    cases c with
    | nil =>
      cases b with
      | nil => exact hab
      | cons y ys =>
        have := hb y (by simp)
        simp only [Casefold.loop] at hbc
        omega
    | cons z zs =>
      have := hc z (by simp)
      simp only [Casefold.loop]
      omega
  | cons x xs ih =>
    cases b with
    | nil =>
      have := ha x (by simp)
      simp only [Casefold.loop] at hab
      omega
    | cons y ys =>
      cases c with
      | nil =>
        have := hb y (by simp)
        simp only [Casefold.loop] at hbc
        omega
      | cons z zs =>
        simp only [Casefold.loop] at hab hbc ⊢
        split at hab <;> split at hbc
        · rename_i hxy hyz
          rw [if_pos (hxy.trans hyz)]
          exact ih (fun w hw => ha w (by simp [hw])) (fun w hw => hb w (by simp [hw])) (fun w hw => hc w (by simp [hw]))
            hab hbc
        · rename_i hxy hyz
          rw [if_neg (by rw [hxy]; exact hyz), hxy]
          exact hbc
        · rename_i hxy hyz
          rw [if_neg (by rw [← hyz]; exact hxy), ← hyz]
          exact hab
        · rename_i hxy hyz
          have hne : f.lower x ≠ f.lower z := by
            intro he
            rw [he] at hab
            omega
          rw [if_neg hne]
          omega

/-- **Plain nicks are in no circle**: among them only a nick that does not fit, and a rename to another
user's nick, are not safe. -/
theorem orderly_of_plain {serv : Server} {nick : Bytes} {users : List User} (hnick : Plain serv nick)
    (husers : ∀ u ∈ users, Plain serv u.nick) : Orderly serv nick users := by
  intro a ha b hb hlt hab
  rw [Server.pCmp_eq] at hlt hab ⊢
  exact serv.casemapping.fold.loop_trans hnick (husers a ha) (husers b hb) hlt hab

/-! ## Where lookup fails -/

def ircServer : Server :=
  { nick := bytes "me", casemapping := .rfc1459, nickPrefixes := bytes "@%+", badNickPrefixes := none
    haveExtjoin := false }

/-- A nick that joins. -/
def UserOp.joins (nick : Bytes) : UserOp := .add nick none none none

/-- An operator and a user; the operator's nick is changed in two steps, the user leaves. -/
def renames : List UserOp :=
  [.joins (bytes "@Nick[1]"), .joins (bytes "Nick"), .change (bytes "nick{1}") (bytes "Nick|1"),
    .change (bytes "NICK\\1") (bytes "n"), .remove (bytes "nICK")]

/-- `a` followed by the two bytes of an e with an acute accent. -/
def accented : Bytes := [97, 0xC3, 0xA9]

/-- A long nick. -/
def sixtyFour : Bytes := List.replicate 64 97

end PoxChat.Users
