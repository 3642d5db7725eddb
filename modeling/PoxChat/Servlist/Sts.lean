import PoxChat.Lib.Keyed
import PoxChat.Servlist.Restart
import PoxChat.Users.Userlist

/-!
# Strict transport security

The policies of `servlist.c`, their file `sts.conf`, and `server_connect` up to where the attempt is decided, in a
client built with OpenSSL.

* `StsPolicy` — a policy; `expires` is a `time_t`, 0 for a policy of this session only.
* `Sts` — the clock, `sts_policy_list` and the bytes of `sts.conf`.
* `StsOp` — what can happen.  A restart saves, frees the list, lets time pass and reads the file.
* `Book` — the policies by host, as the operations are meant: nothing is deleted but by `remove`, and a policy that has
  expired is not in force.
* `StsOp.Enforced` — what a step of the client owes to the book.

Principal results: what is in the list after each operation (`Distinct.mem_find`, `Distinct.mem_add`,
`Distinct.mem_remove`), for a list with one policy for each host.
-/

set_option autoImplicit false

namespace PoxChat.Servlist

open Lib Outbound Cap Users

/-! ## Policies -/

structure StsPolicy where
  host : Bytes
  port : Int32
  expires : Int
  deriving DecidableEq

def StsPolicy.Expired (now : Nat) (policy : StsPolicy) : Prop := 0 < policy.expires ∧ policy.expires < now

instance (now : Nat) (policy : StsPolicy) : Decidable (policy.Expired now) := inferInstanceAs (Decidable (_ ∧ _))

def sameHost (host : Bytes) (policy : StsPolicy) : Bool := gAsciiStrcasecmp policy.host host == 0

/-- `sts_policy_find`: the list it leaves, and the policy it returns. -/
def stsPolicyFind (now : Nat) (list : List StsPolicy) (host : Bytes) : List StsPolicy × Option StsPolicy :=
  match list.find? (sameHost host) with
  | some policy => if policy.Expired now then (list.eraseP (sameHost host), none) else (list, some policy)
  | none => (list, none)

/-- A policy of `sts_policy_add` that is new. -/
def StsPolicy.make (now : Nat) (host : Bytes) (port duration : Int32) : StsPolicy where
  host := cString host
  port := port
  expires := if 0 < duration then now + duration.toInt else 0

/-- A policy that `sts_policy_add` found.  A negative duration leaves the expiry as it is. -/
def StsPolicy.renew (now : Nat) (port duration : Int32) (policy : StsPolicy) : StsPolicy :=
  { policy with
    port := port
    expires := if 0 < duration then now + duration.toInt else if duration = 0 then 0 else policy.expires }

/-- `sts_policy_add`. -/
def stsPolicyAdd (now : Nat) (list : List StsPolicy) (host : Bytes) (port duration : Int32) : List StsPolicy :=
  if port ≤ 0 then list
  else
    match stsPolicyFind now list host with
    | (list, some _) => updateFirst (sameHost host) (StsPolicy.renew now port duration) list
    | (list, none) => StsPolicy.make now host port duration :: list

/-- `sts_policy_remove`. -/
def stsPolicyRemove (now : Nat) (list : List StsPolicy) (host : Bytes) : List StsPolicy :=
  match stsPolicyFind now list host with
  | (list, some _) => list.eraseP (sameHost host)
  | (list, none) => list

/-- `sts_policy_check`: the list it leaves, and the port if there is a policy. -/
def stsPolicyCheck (now : Nat) (list : List StsPolicy) (host : Bytes) : List StsPolicy × Option Int32 :=
  let (list, found) := stsPolicyFind now list host
  (list, found.map StsPolicy.port)

/-! ## The file -/

/-- A separator of `strtok (buf, " \t\n")`. -/
def isSeparator (c : UInt8) : Bool := c == 32 || c == 9 || c == 10

/-- `strtok`: a token, and the string from which the next one is taken. -/
def strtok (str : Bytes) : Option (Bytes × Bytes) :=
  let str := str.dropWhile isSeparator
  if str = [] then none
  else some (str.takeWhile (! isSeparator ·), (str.dropWhile (! isSeparator ·)).drop 1)

/-- The three tokens of a line. -/
def stsTokens (buf : Bytes) : Option (Bytes × Bytes × Bytes) := do
  let (host, buf) ← strtok buf
  let (port, buf) ← strtok buf
  let (expires, _) ← strtok buf
  pure (host, port, expires)

/-- One round of the loop of `sts_policy_init`.  The expiry goes to whatever policy is first in the list. -/
def stsInitLine (now : Nat) (list : List StsPolicy) (buf : Bytes) : List StsPolicy :=
  match stsTokens (cString buf) with
  | none => list
  | some (host, port, expires) =>
    let expires := gAsciiStrtoll expires
    if 0 < expires ∧ expires < now then list
    else (stsPolicyAdd now list host (Int32.ofInt (atoi port)) 0).modifyHead fun policy => { policy with expires }

/-- What `fgets (buf, sizeof (buf), fp)` takes at most of a `char buf[512]`. -/
def stsBufSize : Nat := 512 - 1

/-- `sts_policy_init`, which adds to the list there is. -/
def stsPolicyInit (now : Nat) (list : List StsPolicy) (file : Bytes) : List StsPolicy :=
  (pieces newline stsBufSize file).foldl (stsInitLine now) list

/-- The line of a policy, without its newline. -/
def StsPolicy.line (policy : StsPolicy) : Bytes :=
  cString policy.host ++ space :: (percentD policy.port.toInt ++ space :: percentD policy.expires)

/-- `sts_policy_save`: the bytes of the file. -/
def stsPolicySave (now : Nat) (list : List StsPolicy) : Bytes :=
  (list.filter fun policy => policy.expires ≠ 0 ∧ ¬ policy.expires < (now : Int)).flatMap fun policy =>
    policy.line ++ [newline]

/-! ## `server_connect` -/

/-- The fields of a `server` that `servlist_connect` and the commands set before an attempt. -/
structure TlsSettings where
  useSsl : Bool
  acceptInvalidCert : Bool

/-- An attempt that is made, with the fields `server_child` and `ssl_do_connect` go by. -/
structure Attempt where
  hostname : Bytes
  port : Int32
  useSsl : Bool
  acceptInvalidCert : Bool
  deriving DecidableEq

/-- `char hostname[128]`. -/
def HOSTNAMELEN : Nat := 128

def connectPort (useSsl : Bool) (port : Int32) : Int32 :=
  if port < 1 ∨ 65535 < port then if useSsl then 6697 else 6667 else port

/-- `server_connect`, until the attempt is decided.  A `server` that asks for TLS itself is not looked up. -/
def serverConnect (now : Nat) (list : List StsPolicy) (serv : TlsSettings) (hostname : Bytes) (port : Int32) :
    List StsPolicy × Option Attempt :=
  if cString hostname = [] then (list, none)
  else
    let (list, stsPort) := if serv.useSsl then (list, none) else stsPolicyCheck now list hostname
    let (serv, port) := match stsPort with
      | some stsPort => ((⟨true, false⟩ : TlsSettings), stsPort)
      | none => (serv, port)
    (list, some ⟨safeStrcpy hostname HOSTNAMELEN, connectPort serv.useSsl port, serv.useSsl, serv.acceptInvalidCert⟩)

/-! ## Runs -/

structure Sts where
  now : Nat
  policies : List StsPolicy := []
  file : Bytes := []

inductive StsOp where
  | add (host : Bytes) (port duration : Int32)
  | find (host : Bytes)
  | remove (host : Bytes)
  | pass (seconds : Nat)
  | restart (seconds : Nat)
  | connect (serv : TlsSettings) (hostname : Bytes) (port : Int32)

def StsOp.step (s : Sts) : StsOp → Sts
  | .add host port duration => { s with policies := stsPolicyAdd s.now s.policies host port duration }
  | .find host => { s with policies := (stsPolicyFind s.now s.policies host).1 }
  | .remove host => { s with policies := stsPolicyRemove s.now s.policies host }
  | .pass seconds => { s with now := s.now + seconds }
  | .restart seconds =>
    let file := stsPolicySave s.now s.policies
    { now := s.now + seconds, policies := stsPolicyInit (s.now + seconds) [] file, file }
  | .connect serv hostname port => { s with policies := (serverConnect s.now s.policies serv hostname port).1 }

/-- The policies by host, in lower case. -/
structure Book where
  now : Nat
  policies : Bytes → Option StsPolicy := fun _ => none

/-- The policy in force for a host. -/
def Book.inForce (b : Book) (host : Bytes) : Option StsPolicy :=
  (b.policies (asciiFold.key host)).filter fun policy => ¬ policy.Expired b.now

def Book.set (b : Book) (host : Bytes) (policy : Option StsPolicy) : Book :=
  { b with policies := fun key => if key = asciiFold.key host then policy else b.policies key }

/-- The policy for a host after `sts_policy_add`, from the one in force before. -/
def StsPolicy.added (now : Nat) (host : Bytes) (port duration : Int32) : Option StsPolicy → StsPolicy
  | some policy => policy.renew now port duration
  | none => .make now host port duration

/-- What an operation is meant to do. -/
def StsOp.note (b : Book) : StsOp → Book
  | .add host port duration =>
    if port ≤ 0 then b
    else
      b.set host (some (.added b.now host port duration (b.inForce host)))
  | .find _ => b
  | .remove host => b.set host none
  | .pass seconds => { b with now := b.now + seconds }
  | .restart seconds =>
    { now := b.now + seconds, policies := fun key => (b.policies key).filter fun policy => policy.expires ≠ 0 }
  | .connect .. => b

/-- The client beside the book. -/
def StsOp.both (sb : Sts × Book) (op : StsOp) : Sts × Book := (op.step sb.1, op.note sb.2)

/-- An attempt goes by the policy in force for its host, if that has an expiry; a restart keeps exactly the policies whose
expiry is not over. -/
def StsOp.Enforced (sb : Sts × Book) (op : StsOp) : Prop :=
  match op with
  | .connect serv hostname port =>
    ∀ attempt ∈ (serverConnect sb.1.now sb.1.policies serv hostname port).2,
      ∀ policy ∈ sb.2.inForce attempt.hostname, 0 < policy.expires →
        attempt.useSsl = true ∧ attempt.acceptInvalidCert = false ∧
          (serv.useSsl = false → attempt.port = policy.port)
  | .restart seconds =>
    (op.step sb.1).policies.Nodup ∧
      ∀ policy, policy ∈ (op.step sb.1).policies ↔
        (∃ key, sb.2.policies key = some policy) ∧ policy.expires ≠ 0 ∧ ¬ policy.expires < ↑(sb.1.now + seconds)
  | _ => True

/-! ## The list -/

section List

variable {now : Nat} {list : List StsPolicy} {host : Bytes}

theorem sameHost_iff {policy : StsPolicy} :
    sameHost host policy = true ↔ asciiFold.key policy.host = asciiFold.key host := by
  rw [sameHost, beq_iff_eq, gAsciiStrcasecmp, Casefold.cmp]
  exact asciiFold.loop_eq_zero_iff (fun _ => cString_ne_zero) (fun _ => cString_ne_zero)

/-- No two policies are for one host. -/
abbrev Distinct (list : List StsPolicy) : Prop := DistinctKeys (fun policy => asciiFold.key policy.host) list

/-- What `sts_policy_find` returns. -/
theorem Distinct.found_iff {policy : StsPolicy} (h : Distinct list) :
    (stsPolicyFind now list host).2 = some policy ↔
      policy ∈ list ∧ sameHost host policy = true ∧ ¬ policy.Expired now := by
  rw [← and_assoc, ← h.find?_iff fun _ => sameHost_iff, stsPolicyFind]
  cases hfind : list.find? (sameHost host) with
  | none => simp
  | some first =>
    by_cases hexpired : first.Expired now
    · simp only [if_pos hexpired]
      constructor
      · intro hnone
        cases hnone
      · rintro ⟨hsome, hlive⟩
        cases hsome
        exact absurd hexpired hlive
    · simp only [if_neg hexpired]
      exact ⟨fun hsome => ⟨hsome, by cases hsome; exact hexpired⟩, fun hsome => hsome.1⟩

/-- What `sts_policy_find` leaves: it deletes at most an expired policy of the host. -/
theorem Distinct.mem_find {policy : StsPolicy} (h : Distinct list) :
    policy ∈ (stsPolicyFind now list host).1 ↔
      policy ∈ list ∧ ¬ (sameHost host policy = true ∧ policy.Expired now) := by
  rw [stsPolicyFind]
  cases hfind : list.find? (sameHost host) with
  | none =>
    refine ⟨fun hmem => ⟨hmem, fun hsame => ?_⟩, And.left⟩
    exact List.find?_eq_none.1 hfind policy hmem hsame.1
  | some first =>
    have hother : ∀ p ∈ list, sameHost host p = true → p = first := fun p hmem hsame => by
      rw [(h.find?_iff fun _ => sameHost_iff).2 ⟨hmem, hsame⟩] at hfind
      exact Option.some.inj hfind
    by_cases hexpired : first.Expired now
    · simp only [if_pos hexpired, h.mem_eraseP fun _ => sameHost_iff]
      refine and_congr_right fun hmem => ?_
      rw [Bool.eq_false_iff]
      refine not_congr ⟨fun hsame => ⟨hsame, ?_⟩, And.left⟩
      rw [hother policy hmem hsame]
      exact hexpired
    · simp only [if_neg hexpired]
      refine ⟨fun hmem => ⟨hmem, fun hsame => hexpired ?_⟩, And.left⟩
      rw [← hother policy hmem hsame.1]
      exact hsame.2

theorem find_sublist : (stsPolicyFind now list host).1.Sublist list := by
  rw [stsPolicyFind]
  cases list.find? (sameHost host) with
  | none => exact List.Sublist.refl _
  | some first =>
    by_cases hexpired : first.Expired now
    · simp only [if_pos hexpired]
      exact List.eraseP_sublist
    · simp only [if_neg hexpired]
      exact List.Sublist.refl _

theorem make_host {port duration : Int32} : sameHost host (.make now host port duration) = true := by
  have hcopy : cString (cString host) = cString host := cString_eq_self fun h => cString_ne_zero h rfl
  rw [sameHost_iff, StsPolicy.make, Casefold.key, Casefold.key, hcopy]

theorem added_host {port duration : Int32} {found : Option StsPolicy} (h : ∀ p ∈ found, sameHost host p = true) :
    sameHost host (.added now host port duration found) = true := by
  cases found with
  | none => exact make_host
  | some p => exact h p rfl

/-- What is in the list after `sts_policy_add`. -/
theorem Distinct.mem_add {policy : StsPolicy} {port duration : Int32} (h : Distinct list) (hport : 0 < port) :
    policy ∈ stsPolicyAdd now list host port duration ↔
      policy ∈ list ∧ sameHost host policy = false ∨
        policy = .added now host port duration (stsPolicyFind now list host).2 := by
  have hleft : Distinct (stsPolicyFind now list host).1 := h.sublist find_sublist
  have hmem : policy ∈ (stsPolicyFind now list host).1 ∧ sameHost host policy = false ↔
      policy ∈ list ∧ sameHost host policy = false := by
    rw [h.mem_find, and_assoc]
    refine and_congr_right fun _ => and_iff_right_of_imp fun hother hsame => ?_
    rw [hother] at hsame
    exact absurd hsame.1 (by decide)
  rw [stsPolicyAdd, if_neg (by simpa using hport)]
  have hfound : ∀ p, (stsPolicyFind now list host).2 = some p ↔ _ := fun p => h.found_iff
  have hkept : ∀ p, p ∈ (stsPolicyFind now list host).1 ↔ _ := fun p => h.mem_find
  revert hleft hmem hfound hkept
  rcases stsPolicyFind now list host with ⟨list', found⟩
  intro hleft hmem hfound hkept
  cases found with
  | none =>
    -- whatever is left is for other hosts
    have hnone : ∀ p ∈ list', sameHost host p = false := fun p hp => Bool.eq_false_iff.2 fun hsame => by
      obtain ⟨hp, hlive⟩ := (hkept p).1 hp
      exact absurd ((hfound p).2 ⟨hp, hsame, fun hexpired => hlive ⟨hsame, hexpired⟩⟩) (by simp)
    rw [← hmem, List.mem_cons, or_comm]
    exact or_congr_left ⟨fun hp => ⟨hp, hnone policy hp⟩, And.left⟩
  | some first =>
    obtain ⟨hfirst, hsame, hlive⟩ := (hfound first).1 rfl
    have hfirst' : first ∈ list' := (hkept first).2 ⟨hfirst, fun hexpired => hlive hexpired.2⟩
    rw [hleft.mem_updateFirst fun _ => sameHost_iff, hmem]
    refine or_congr_right ⟨?_, fun heq => ⟨first, hfirst', hsame, heq⟩⟩
    rintro ⟨p, hp, hsame', rfl⟩
    have hp' := (hleft.find?_iff fun _ => sameHost_iff).2 ⟨hp, hsame'⟩
    rw [(hleft.find?_iff fun _ => sameHost_iff).2 ⟨hfirst', hsame⟩] at hp'
    rw [← Option.some.inj hp']
    rfl

theorem Distinct.add (h : Distinct list) (port duration : Int32) :
    Distinct (stsPolicyAdd now list host port duration) := by
  have hleft : Distinct (stsPolicyFind now list host).1 := h.sublist find_sublist
  rw [stsPolicyAdd]
  split
  · exact h
  · split
    · next list' first heq =>
      rw [heq] at hleft
      exact hleft.updateFirst fun _ => rfl
    · next list' heq =>
      have hleft' : Distinct list' := by rwa [heq] at hleft
      refine List.pairwise_cons.2 ⟨fun p hp hsame => ?_, hleft'⟩
      have hmem : p ∈ (stsPolicyFind now list host).1 := by rwa [heq]
      have hhost : sameHost host p = true := by
        have hmade : sameHost host (.make now host port duration) = true := make_host
        exact sameHost_iff.2 (hsame.symm.trans (sameHost_iff.1 hmade))
      obtain ⟨hp, hlive⟩ := h.mem_find.1 hmem
      have hfound := h.found_iff.2 ⟨hp, hhost, fun hexpired => hlive ⟨hhost, hexpired⟩⟩
      rw [heq] at hfound
      exact absurd hfound (by simp)

theorem Distinct.mem_remove {policy : StsPolicy} (h : Distinct list) (hlive : ¬ policy.Expired now) :
    policy ∈ stsPolicyRemove now list host ↔ policy ∈ list ∧ sameHost host policy = false := by
  have hleft : Distinct (stsPolicyFind now list host).1 := h.sublist find_sublist
  have hmem : policy ∈ (stsPolicyFind now list host).1 ↔ policy ∈ list := by
    rw [h.mem_find]
    exact and_iff_left fun hexpired => hlive hexpired.2
  rw [stsPolicyRemove]
  split
  · next list' first heq =>
    rw [heq] at hleft hmem
    rw [hleft.mem_eraseP fun _ => sameHost_iff, hmem]
  · next list' heq =>
    rw [heq] at hmem
    rw [hmem]
    refine (and_iff_left_of_imp fun hp => Bool.eq_false_iff.2 fun hsame => ?_).symm
    have hfound := h.found_iff.2 ⟨hp, hsame, hlive⟩
    rw [heq] at hfound
    exact absurd hfound (by simp)

theorem remove_sublist : (stsPolicyRemove now list host).Sublist list := by
  have hfind : (stsPolicyFind now list host).1.Sublist list := find_sublist
  rw [stsPolicyRemove]
  split
  · next list' first heq =>
    rw [heq] at hfind
    exact List.eraseP_sublist.trans hfind
  · next list' heq =>
    rwa [heq] at hfind

end List

end PoxChat.Servlist
