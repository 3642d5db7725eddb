import PoxChat.Outbound.Say
import PoxChat.Users.Tree

/-!
# The user list

Model of `userlist.c` over the tree of `tree.c`, with the comparisons a server can choose for nicks.

* Names are byte buffers read up to their NUL; `char` is signed, as it is on the usual targets.
* A `User` has the address it was allocated at; `sess->me` is such an address.
* Calls of the front end and of the notify list are left out.

The comparisons agree on what is the same nick (`pCmp_eq_zero_iff`) and are antisymmetric
(`pCmp_neg_iff`); neither they nor the tree make them transitive.
-/

set_option autoImplicit false

namespace PoxChat.Users

open Lib Outbound

/-! ## Comparing nicks -/

/-- A case mapping: the lower case of a byte, and what a byte counts for against the end of a string. -/
structure Casefold where
  lower : UInt8 → UInt8
  last : UInt8 → Int
  last_ne : ∀ b, b ≠ 0 → last b ≠ 0
  last_sign : ∀ a b, lower a = lower b → (last a < 0 ↔ last b < 0)

/-- The loop of `rfc_casecmp` and of `g_ascii_strcasecmp`. -/
def Casefold.loop (f : Casefold) : Bytes → Bytes → Int
  | [], [] => 0
  | [], b :: _ => 0 - f.last b
  | a :: _, [] => f.last a
  | a :: as, b :: bs => if f.lower a = f.lower b then f.loop as bs else (f.lower a).toNat - (f.lower b).toNat

def Casefold.cmp (f : Casefold) (s1 s2 : Bytes) : Int := f.loop (cString s1) (cString s2)

/-- What two names have in common when they are the same nick. -/
def Casefold.key (f : Casefold) (s : Bytes) : Bytes := (cString s).map f.lower

/-- `(int) c` for a `char`. -/
def signedChar (b : UInt8) : Int := if b < 128 then b.toNat else (b.toNat : Int) - 256

theorem toNat_ne_zero {b : UInt8} (h : b ≠ 0) : b.toNat ≠ 0 := fun h0 => h (UInt8.toNat_inj.1 h0)

theorem signedChar_ne_zero {b : UInt8} (h : b ≠ 0) : signedChar b ≠ 0 := by
  have h0 := toNat_ne_zero h
  have h1 := b.toNat_lt
  unfold signedChar
  split <;> omega

/-- The sign of a byte outlasts its lower case. -/
theorem signedChar_neg_iff (b : UInt8) : signedChar b < 0 ↔ 128 ≤ (rfcTolower b).toNat := by
  have h1 := b.toNat_lt
  unfold signedChar rfcTolower
  by_cases hb : b < 128
  · have hb' : b.toNat < 128 := hb
    rw [if_pos hb]
    split
    · rename_i hc
      simp only [Bool.and_eq_true, decide_eq_true_eq, UInt8.le_iff_toNat_le, UInt8.reduceToNat] at hc
      simp only [UInt8.toNat_add, UInt8.reduceToNat]
      omega
    · omega
  · have hb' : 128 ≤ b.toNat := by simpa [UInt8.lt_iff_toNat_lt] using hb
    rw [if_neg hb]
    split
    · rename_i hc
      simp only [Bool.and_eq_true, decide_eq_true_eq, UInt8.le_iff_toNat_le, UInt8.reduceToNat] at hc
      omega
    · omega

/-- The case mapping of `rfc_casecmp`: it folds the bytes both strings have, and takes the byte that is left
over as it is. -/
def rfcFold : Casefold where
  lower := rfcTolower
  last := signedChar
  last_ne _ := signedChar_ne_zero
  last_sign a b h := by rw [signedChar_neg_iff, signedChar_neg_iff, h]

def rfcCasecmp (s1 s2 : Bytes) : Int := rfcFold.cmp s1 s2

/-- The case mapping of `g_ascii_strcasecmp`. -/
def asciiFold : Casefold where
  lower := asciiTolower
  last b := b.toNat
  last_ne _ h := Int.ofNat_ne_zero.2 (toNat_ne_zero h)
  last_sign a b _ := by
    constructor <;> intro h <;> omega

def gAsciiStrcasecmp (s1 s2 : Bytes) : Int := asciiFold.cmp s1 s2

/-- The case mappings of 005. -/
inductive Casemapping where
  | rfc1459
  | ascii

def Casemapping.fold : Casemapping → Casefold
  | .rfc1459 => rfcFold
  | .ascii => asciiFold

section Comparison

variable (f : Casefold)

theorem Casefold.loop_eq_zero_iff {a b : Bytes} (ha : ∀ c ∈ a, c ≠ 0) (hb : ∀ c ∈ b, c ≠ 0) :
    f.loop a b = 0 ↔ a.map f.lower = b.map f.lower := by
  induction a generalizing b with
  | nil =>
    cases b with
    | nil => simp [Casefold.loop]
    | cons y ys =>
      have hy := f.last_ne y (hb y (by simp))
      simp only [Casefold.loop, List.map_nil, List.map_cons]
      constructor
      · intro h
        omega
      · intro h
        cases h
  | cons x xs ih =>
    cases b with
    | nil =>
      have hx := f.last_ne x (ha x (by simp))
      simp [Casefold.loop, hx]
    | cons y ys =>
      have ih' := @ih ys (fun c hc => ha c (by simp [hc])) fun c hc => hb c (by simp [hc])
      simp only [Casefold.loop, List.map_cons, List.cons.injEq]
      by_cases hxy : f.lower x = f.lower y
      · rw [if_pos hxy, ih']
        simp [hxy]
      · rw [if_neg hxy]
        have hne : (f.lower x).toNat ≠ (f.lower y).toNat := fun h => hxy (UInt8.toNat_inj.1 h)
        constructor
        · intro h
          omega
        · intro h
          exact absurd h.1 hxy

/-- Exchanging the names turns the answer round. -/
theorem Casefold.loop_neg_iff (a b : Bytes) : f.loop a b < 0 ↔ 0 < f.loop b a := by
  induction a generalizing b with
  | nil =>
    cases b with
    | nil => simp [Casefold.loop]
    | cons y ys =>
      simp only [Casefold.loop]
      omega
  | cons x xs ih =>
    cases b with
    | nil =>
      simp only [Casefold.loop]
      omega
    | cons y ys =>
      simp only [Casefold.loop]
      by_cases hxy : f.lower x = f.lower y
      · rw [if_pos hxy, if_pos hxy.symm]
        exact ih ys
      · rw [if_neg hxy, if_neg (Ne.symm hxy)]
        omega

/-- The answer depends on the nick, not on how it is written. -/
theorem Casefold.loop_congr {a a' : Bytes} (h : a.map f.lower = a'.map f.lower) (b : Bytes) :
    f.loop a b < 0 ↔ f.loop a' b < 0 := by
  induction a generalizing a' b with
  | nil =>
    obtain rfl : a' = [] := by simpa using h.symm
    exact Iff.rfl
  | cons x xs ih =>
    cases a' with
    | nil => cases h
    | cons y ys =>
      simp only [List.map_cons, List.cons.injEq] at h
      cases b with
      | nil => exact f.last_sign x y h.1
      | cons z zs =>
        simp only [Casefold.loop, h.1]
        split
        · exact ih h.2 zs
        · exact Iff.rfl

end Comparison

/-! ## The model -/

/-- What `userlist.c` reads of a server. -/
structure Server where
  nick : Bytes
  casemapping : Casemapping
  nickPrefixes : Bytes
  /-- `bad_nick_prefixes`, when `bad_prefix` is set. -/
  badNickPrefixes : Option Bytes
  haveExtjoin : Bool

/-- `serv->p_cmp`. -/
def Server.pCmp (serv : Server) (a b : Bytes) : Int :=
  match serv.casemapping with
  | .rfc1459 => rfcCasecmp a b
  | .ascii => gAsciiStrcasecmp a b

section Comparison

variable {serv : Server} {a a' b b' : Bytes}

def Server.key (serv : Server) (name : Bytes) : Bytes := serv.casemapping.fold.key name

theorem Server.pCmp_eq (serv : Server) (a b : Bytes) :
    serv.pCmp a b = serv.casemapping.fold.loop (cString a) (cString b) := by
  unfold Server.pCmp
  cases serv.casemapping <;> rfl

theorem cString_ne_zero {name : Bytes} {c : UInt8} (h : c ∈ cString name) : c ≠ 0 := by
  simpa using List.mem_takeWhile_imp h

theorem pCmp_eq_zero_iff : serv.pCmp a b = 0 ↔ serv.key a = serv.key b := by
  rw [serv.pCmp_eq]
  exact serv.casemapping.fold.loop_eq_zero_iff (fun _ => cString_ne_zero) fun _ => cString_ne_zero

theorem pCmp_neg_iff : serv.pCmp a b < 0 ↔ 0 < serv.pCmp b a := by
  rw [serv.pCmp_eq, serv.pCmp_eq]
  exact serv.casemapping.fold.loop_neg_iff _ _

theorem pCmp_congr_left (h : serv.key a = serv.key a') (b : Bytes) : serv.pCmp a b < 0 ↔ serv.pCmp a' b < 0 := by
  rw [serv.pCmp_eq, serv.pCmp_eq]
  exact serv.casemapping.fold.loop_congr h _

end Comparison

structure User where
  addr : Nat
  nick : Bytes
  hostname : Option Bytes := none
  realname : Option Bytes := none
  account : Option Bytes := none
  access : Nat := 0
  /-- `prefix[0]`. -/
  pfx : UInt8 := 0
  op : Bool := false
  hop : Bool := false
  voice : Bool := false
  me : Bool := false

/-- The user list of a session; no tree is the NULL pointer. -/
structure UserList where
  usertree : Option (List User) := none
  me : Option Nat := none
  ops : Int := 0
  hops : Int := 0
  voices : Int := 0
  total : Int := 0
  nextAddr : Nat := 0

def UserList.users (s : UserList) : List User := s.usertree.getD []

def NICKLEN : Nat := 64

/-- `g_utf8_skip`. -/
def utf8Skip (b : UInt8) : Nat :=
  if b < 0xC0 then 1 else if b < 0xE0 then 2 else if b < 0xF0 then 3 else if b < 0xF8 then 4
  else if b < 0xFC then 5 else if b < 0xFE then 6 else 1

/-- The loop of `safe_strcpy`.  A character that is cut off by the end of the string is copied with the
NUL that ends it. -/
def safeStrcpyLoop : Nat → Nat → Bytes → Bytes
  | 0, _, _ => []
  | _, _, [] => []
  | fuel + 1, bytesLeft, b :: bs =>
    let mbl := utf8Skip b
    if bytesLeft < mbl + 1 then []
    else (b :: bs).take mbl ++ safeStrcpyLoop fuel (bytesLeft - mbl) ((b :: bs).drop mbl)

/-- `safe_strcpy`. -/
def safeStrcpy (src : Bytes) (bytesLeft : Nat) : Bytes := safeStrcpyLoop bytesLeft bytesLeft (cString src)

theorem utf8Skip_bounds (b : UInt8) : 1 ≤ utf8Skip b ∧ utf8Skip b ≤ 6 := by
  unfold utf8Skip
  split_ifs <;> decide

theorem length_safeStrcpyLoop_le (fuel bytesLeft : Nat) (src : Bytes) :
    (safeStrcpyLoop fuel bytesLeft src).length ≤ src.length := by
  fun_induction safeStrcpyLoop fuel bytesLeft src with
  | case1 => exact Nat.zero_le _
  | case2 => exact Nat.le_refl _
  | case3 => exact Nat.zero_le _
  | case4 bytesLeft fuel b bs mbl hroom ih =>
    rw [List.length_append, List.length_take]
    rw [List.length_drop] at ih
    omega

theorem length_safeStrcpy_le (src : Bytes) (bytesLeft : Nat) : (safeStrcpy src bytesLeft).length ≤ src.length :=
  Nat.le_trans (length_safeStrcpyLoop_le _ _ _) (List.takeWhile_sublist _).length_le

/-- Where no character of several bytes begins in the last bytes that there is room for, all the room is used. -/
theorem safeStrcpyLoop_eq_take {fuel bytesLeft : Nat} {src : Bytes} (hfuel : bytesLeft ≤ fuel)
    (h : ∀ i < bytesLeft, bytesLeft ≤ i + 7 → ∀ b ∈ src[i]?, utf8Skip b = 1) :
    safeStrcpyLoop fuel bytesLeft src = src.take (bytesLeft - 1) := by
  induction fuel using Nat.strong_induction_on generalizing bytesLeft src with
  | _ fuel ih =>
    match fuel, src with
    | 0, src =>
      obtain rfl : bytesLeft = 0 := by omega
      simp [safeStrcpyLoop]
    | _ + 1, [] => simp [safeStrcpyLoop]
    | fuel + 1, b :: bs =>
      obtain ⟨hlow, hhigh⟩ := utf8Skip_bounds b
      rw [safeStrcpyLoop]
      by_cases hroom : bytesLeft < utf8Skip b + 1
      · -- a character that does not fit has one byte
        have hone : bytesLeft ≤ 1 := by
          by_cases hzero : bytesLeft = 0
          · omega
          · have := h 0 (by omega) (by omega) b rfl
            omega
        rw [if_pos hroom, show bytesLeft - 1 = 0 by omega, List.take_zero]
      · have hrest : safeStrcpyLoop fuel (bytesLeft - utf8Skip b) ((b :: bs).drop (utf8Skip b)) =
            ((b :: bs).drop (utf8Skip b)).take (bytesLeft - utf8Skip b - 1) := by
          refine ih fuel (Nat.lt_succ_self _) (by omega) fun i hi hlast c hc => ?_
          rw [List.getElem?_drop] at hc
          exact h (utf8Skip b + i) (by omega) (by omega) c hc
        rw [if_neg hroom, hrest, ← List.take_add]
        congr 1
        omega

theorem safeStrcpy_eq_take {src : Bytes} (hsrc : (0 : UInt8) ∉ src) {bytesLeft : Nat}
    (h : ∀ i < bytesLeft, bytesLeft ≤ i + 7 → ∀ b ∈ src[i]?, utf8Skip b = 1) :
    safeStrcpy src bytesLeft = src.take (bytesLeft - 1) := by
  rw [safeStrcpy, cString_eq_self hsrc, safeStrcpyLoop_eq_take (Nat.le_refl _) h]

/-- There is room for any first character in seven bytes. -/
theorem head?_safeStrcpy {src : Bytes} (hsrc : (0 : UInt8) ∉ src) {bytesLeft : Nat} (hroom : 7 ≤ bytesLeft) :
    (safeStrcpy src bytesLeft).head? = src.head? := by
  rw [safeStrcpy, cString_eq_self hsrc]
  obtain ⟨fuel, rfl⟩ : ∃ n, bytesLeft = n + 1 := ⟨bytesLeft - 1, by omega⟩
  cases src with
  | nil => rfl
  | cons b bs =>
    obtain ⟨hlow, hhigh⟩ := utf8Skip_bounds b
    obtain ⟨mbl, hmbl⟩ : ∃ n, utf8Skip b = n + 1 := ⟨utf8Skip b - 1, by omega⟩
    rw [safeStrcpyLoop, if_neg (by omega), hmbl]
    rfl

/-- `is_prefix_char`. -/
def isPrefixChar (serv : Server) (c : UInt8) : Int :=
  if c ∈ serv.nickPrefixes then serv.nickPrefixes.idxOf c
  else if serv.badNickPrefixes.any (c ∈ ·) then -2
  else -1

/-- `nick_access`: the access bits and the number of prefix characters. -/
def nickAccess (serv : Server) : Bytes → Nat × Nat
  | [] => (0, 0)
  | c :: cs =>
    let i := isPrefixChar serv c
    if i = -1 then (0, 0)
    else
      let (access, modechars) := nickAccess serv cs
      (if i = -2 then access else access ||| 1 <<< i.toNat, modechars + 1)

/-- `update_counts` with `level` TRUE and `offset` 1, on the user. -/
def User.level (user : User) (c : UInt8) : User :=
  if c = 64 then { user with op := true }
  else if c = 37 then { user with hop := true }
  else if c = 43 then { user with voice := true }
  else user

/-- The same, on the counts of the session. -/
def UserList.count (s : UserList) (c : UInt8) : UserList :=
  if c = 64 then { s with ops := s.ops + 1 }
  else if c = 37 then { s with hops := s.hops + 1 }
  else if c = 43 then { s with voices := s.voices + 1 }
  else s

/-- `userlist_find`. -/
def userlistFind (serv : Server) (s : UserList) (name : Bytes) : Option User :=
  s.usertree.bind fun t => (treeFind (fun u => serv.pCmp name u.nick) t).map (·.2)

/-- `nick_cmp_alpha` of a user with those of the tree. -/
def nickCmpAlpha (serv : Server) (user : User) (other : User) : Int := serv.pCmp user.nick other.nick

/-- The nick of a name with prefix characters. -/
def bareNick (serv : Server) (name : Bytes) : Bytes := (cString name).drop (nickAccess serv (cString name)).2

/-- `userlist_add`; `none` is a call that does not return. -/
def userlistAdd (serv : Server) (s : UserList) (name : Bytes) (hostname account realname : Option Bytes) :
    Option UserList :=
  let (acc, prefixChars) := nickAccess serv (cString name)
  let nick := safeStrcpy (bareNick serv name) NICKLEN
  let chars := (cString name).take prefixChars
  let user : User :=
    { addr := s.nextAddr
      nick := nick
      hostname := hostname
      account := if serv.haveExtjoin then account.filter (cString · ≠ []) else none
      realname := if serv.haveExtjoin then realname.filter (cString · ≠ []) else none
      access := acc
      pfx := chars.head?.getD 0
      me := decide (serv.pCmp nick serv.nick = 0) }
  let user := chars.foldl User.level user
  (treeInsert (nickCmpAlpha serv user) user s.users).map fun (row, t) =>
    let s := { s with usertree := some t }
    -- a duplicate is freed again
    if row = -1 then s
    else
      let s := chars.foldl UserList.count { s with total := s.total + 1, nextAddr := s.nextAddr + 1 }
      if user.me then { s with me := some user.addr } else s

/-- `userlist_change`; the position `tree_insert` returns is not read. -/
def userlistChange (serv : Server) (s : UserList) (oldname newname : Bytes) : Option UserList :=
  match userlistFind serv s oldname with
  | none => some s
  | some user =>
    let t := treeRemove (nickCmpAlpha serv user) s.users
    let user := { user with nick := safeStrcpy newname NICKLEN }
    (treeInsert (nickCmpAlpha serv user) user t).map fun (_, t) => { s with usertree := some t }

/-- `userlist_remove_user`. -/
def userlistRemoveUser (serv : Server) (s : UserList) (user : User) : UserList :=
  { s with
    voices := if user.voice then s.voices - 1 else s.voices
    ops := if user.op then s.ops - 1 else s.ops
    hops := if user.hop then s.hops - 1 else s.hops
    total := s.total - 1
    me := if s.me = some user.addr then none else s.me
    usertree := some (treeRemove (nickCmpAlpha serv user) s.users) }

/-- `userlist_remove`. -/
def userlistRemove (serv : Server) (s : UserList) (name : Bytes) : UserList :=
  match userlistFind serv s name with
  | none => s
  | some user => userlistRemoveUser serv s user

/-- `userlist_clear`. -/
def userlistClear (s : UserList) : UserList := { nextAddr := s.nextAddr }

inductive UserOp where
  | add (name : Bytes) (hostname account realname : Option Bytes)
  | change (oldname newname : Bytes)
  | remove (name : Bytes)
  | clear

def UserOp.step (serv : Server) (s : UserList) : UserOp → Option UserList
  | .add name hostname account realname => userlistAdd serv s name hostname account realname
  | .change oldname newname => userlistChange serv s oldname newname
  | .remove name => some (userlistRemove serv s name)
  | .clear => some (userlistClear s)

def UserOp.stepOr (serv : Server) (s : Option UserList) (op : UserOp) : Option UserList := s.bind (op.step serv)

/-- A session from its start on; a call that does not return is the last. -/
def userRun (serv : Server) (ops : List UserOp) : Option UserList := ops.foldl (UserOp.stepOr serv) (some {})

end PoxChat.Users
