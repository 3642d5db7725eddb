import PoxChat.Lib.Program
import PoxChat.Servlist.Sts

/-!
# Policies over runs and restarts

What the client does of what its policies are for.

* `Token`, `StsPolicy.Fits` — a policy whose line `sts_policy_init` reads as it was written.
* `Agrees` — the policies of the list that are not expired are those of the book.
* `StsOp.Sound` — a step after which they still are, and that keeps to them.

Principal result: `sts_enforced` — in a run whose steps all are `Sound`, every attempt keeps to the policy in force and
every restart keeps exactly the policies with an expiry that is not over.
-/

set_option autoImplicit false

namespace PoxChat.Servlist

open Lib Outbound Cap Users

/-! ## Lines -/

/-- A string that `strtok` takes as one token. -/
def Token (str : Bytes) : Prop := str ≠ [] ∧ ∀ c ∈ str, isSeparator c = false

instance (str : Bytes) : Decidable (Token str) := inferInstanceAs (Decidable (_ ∧ _))

theorem Token.dropWhile {str : Bytes} (h : Token str) (rest : Bytes) :
    (str ++ rest).dropWhile isSeparator = str ++ rest := by
  obtain ⟨hne, hall⟩ := h
  cases str with
  | nil => exact absurd rfl hne
  | cons c str => rw [List.cons_append, List.dropWhile_cons_of_neg (by simp [hall c List.mem_cons_self])]

theorem strtok_token {str : Bytes} (h : Token str) {c : UInt8} (hc : isSeparator c = true) (rest : Bytes) :
    strtok (str ++ c :: rest) = some (str, rest) := by
  have hpass : ∀ b ∈ str, (! isSeparator b) = true := fun b hb => by rw [h.2 b hb]; rfl
  have htake : (c :: rest).takeWhile (! isSeparator ·) = [] := by simp [hc]
  have hdrop : (c :: rest).dropWhile (! isSeparator ·) = c :: rest := by simp [hc]
  rw [strtok, h.dropWhile, if_neg (by simp), List.takeWhile_append_of_pos hpass, htake, List.append_nil,
    List.dropWhile_append_of_pos hpass, hdrop]
  rfl

theorem strtok_last {str : Bytes} (h : Token str) : strtok str = some (str, []) := by
  have hpass : ∀ b ∈ str, (! isSeparator b) = true := fun b hb => by rw [h.2 b hb]; rfl
  have hdrop := h.dropWhile []
  rw [List.append_nil] at hdrop
  rw [strtok, hdrop, if_neg h.1, List.takeWhile_eq_self_iff.2 hpass, List.dropWhile_eq_nil_iff.2 hpass]
  rfl

theorem decimal_token (n : Nat) : Token (decimal n) := by
  obtain ⟨c, digits, heq, -⟩ := decimal_cons n
  refine ⟨by simp [heq], fun c hc => ?_⟩
  obtain ⟨hlow, -⟩ := toNat_of_mem_decimal hc
  have hne : ∀ b : UInt8, b.toNat < 48 → c ≠ b := fun b hb hcb => by
    rw [hcb] at hlow
    omega
  simp [isSeparator, hne 32 (by decide), hne 9 (by decide), hne 10 (by decide)]

/-- What holds of every policy in the list. -/
structure StsPolicy.Valid (policy : StsPolicy) : Prop where
  port : 0 < policy.port
  low : 0 ≤ policy.expires
  high : policy.expires < 2 ^ 63
  host : (0 : UInt8) ∉ policy.host

/-- The line of a policy comes back in one piece, and as the three tokens it was made of. -/
def StsPolicy.Fits (policy : StsPolicy) : Prop := Token policy.host ∧ policy.line.length ≤ stsBufSize

instance (policy : StsPolicy) : Decidable policy.Fits := inferInstanceAs (Decidable (_ ∧ _))

section Line

variable {policy : StsPolicy}

theorem StsPolicy.Valid.line_eq (h : policy.Valid) :
    policy.line =
      policy.host ++ space :: (decimal policy.port.toInt.natAbs ++ space :: decimal policy.expires.natAbs) := by
  have hport : ¬ policy.port.toInt < 0 := by
    have hport : (0 : Int32).toInt < policy.port.toInt := Int32.lt_iff_toInt_lt.1 h.port
    have hzero : (0 : Int32).toInt = 0 := rfl
    omega
  have hexpires : ¬ policy.expires < 0 := by
    have := h.low
    omega
  rw [StsPolicy.line, percentD, percentD, if_neg hport, if_neg hexpires, cString_eq_self h.host]

theorem stsTokens_line (h : policy.Valid) (hfits : policy.Fits) :
    stsTokens (policy.line ++ [newline]) =
        some (policy.host, decimal policy.port.toInt.natAbs, decimal policy.expires.natAbs) ∧
      stsTokens policy.line =
        some (policy.host, decimal policy.port.toInt.natAbs, decimal policy.expires.natAbs) := by
  have hblank : isSeparator space = true := rfl
  have hbreak : isSeparator newline = true := rfl
  rw [h.line_eq, List.append_assoc, List.cons_append, List.append_assoc, List.cons_append]
  simp only [stsTokens, strtok_token hfits.1 hblank, strtok_token (decimal_token _) hblank,
    strtok_token (decimal_token _) hbreak, strtok_last (decimal_token _), Option.bind_eq_bind, Option.bind_some,
    Option.pure_def, and_self]

theorem line_whole (h : policy.Valid) (hfits : policy.Fits) : Whole policy.line := by
  have hhost : newline ∉ policy.host := fun hmem => absurd (hfits.1.2 newline hmem) (by decide)
  have hblank : newline ≠ space ∧ (0 : UInt8) ≠ space := by decide
  rw [h.line_eq]
  refine ⟨?_, ?_⟩
  · simp [hhost, hblank.1, (decimal_whole _).1]
  · simp [h.host, hblank.2, (decimal_whole _).2]

/-- A line brings its policy back, at the head of the list. -/
theorem stsInitLine_line (h : policy.Valid) (hfits : policy.Fits) (hexpires : policy.expires ≠ 0) (now : Nat)
    {list : List StsPolicy} (hnew : ∀ p ∈ list, sameHost policy.host p = false) :
    stsInitLine now list policy.line = if policy.expires < now then list else policy :: list := by
  have hlow := h.low
  have hhigh := h.high
  have hread : gAsciiStrtoll (decimal policy.expires.natAbs) = policy.expires := by
    rw [gAsciiStrtoll_decimal (by omega)]
    omega
  have hport : Int32.ofInt (atoi (decimal policy.port.toInt.natAbs)) = policy.port := by
    have hlt : (0 : Int32).toInt < policy.port.toInt := Int32.lt_iff_toInt_lt.1 h.port
    have hzero : (0 : Int32).toInt = 0 := rfl
    have hread := atoi_percentD policy.port
    rwa [percentD, if_neg (by omega)] at hread
  have hfind : stsPolicyFind now list policy.host = (list, none) := by
    rw [stsPolicyFind, List.find?_eq_none.2 fun p hp => by simp [hnew p hp]]
  have hpositive : ¬ policy.port ≤ 0 := by simpa using h.port
  rw [stsInitLine, cString_eq_self (line_whole h hfits).2, (stsTokens_line h hfits).2]
  simp only [hread, hport]
  by_cases hover : policy.expires < now
  · rw [if_pos ⟨by omega, hover⟩, if_pos hover]
  · rw [if_neg fun hboth => hover hboth.2, if_neg hover, stsPolicyAdd, if_neg hpositive, hfind]
    simp [StsPolicy.make, cString_eq_self h.host]

/-- Reading the lines of a list puts its policies that are not expired in front, the last one first. -/
theorem foldl_stsInitLine {saved : List StsPolicy} (hdistinct : Distinct saved)
    (h : ∀ p ∈ saved, p.Valid ∧ p.Fits ∧ p.expires ≠ 0) (now : Nat) {list : List StsPolicy}
    (hnew : ∀ p ∈ saved, ∀ q ∈ list, sameHost p.host q = false) :
    (saved.map StsPolicy.line).foldl (stsInitLine now) list =
      (saved.filter fun p => ¬ p.expires < (now : Int)).reverse ++ list := by
  induction saved generalizing list with
  | nil => rfl
  | cons p saved ih =>
    obtain ⟨hvalid, hfits, hexpires⟩ := h p List.mem_cons_self
    obtain ⟨hfirst, hrest⟩ := List.pairwise_cons.1 hdistinct
    have hother : ∀ q ∈ saved, ∀ r ∈ list, sameHost q.host r = false :=
      fun q hq => hnew q (List.mem_cons_of_mem _ hq)
    rw [List.map_cons, List.foldl_cons,
      stsInitLine_line hvalid hfits hexpires now (hnew p List.mem_cons_self)]
    replace ih := @ih hrest fun q hq => h q (List.mem_cons_of_mem _ hq)
    by_cases hover : p.expires < now
    · rw [if_pos hover, ih hother, List.filter_cons_of_neg (by simpa using hover)]
    · rw [if_neg hover, ih, List.filter_cons_of_pos (by simpa using hover), List.reverse_cons, List.append_assoc]
      · rfl
      · intro q hq r hr
        rcases List.mem_cons.1 hr with rfl | hr
        · exact Bool.eq_false_iff.2 fun hsame => hfirst q hq (sameHost_iff.1 hsame)
        · exact hother q hq r hr

end Line

/-- What is left of a list after a restart. -/
theorem stsPolicyInit_save {list : List StsPolicy} (hdistinct : Distinct list) (hvalid : ∀ p ∈ list, p.Valid)
    {now now' : Nat} (hfits : ∀ p ∈ list, p.expires ≠ 0 → ¬ p.expires < (now : Int) → p.Fits) (hle : now ≤ now') :
    stsPolicyInit now' [] (stsPolicySave now list) =
      (list.filter fun p => p.expires ≠ 0 ∧ ¬ p.expires < (now' : Int)).reverse := by
  have hsaved : ∀ p ∈ list.filter (fun p => p.expires ≠ 0 ∧ ¬ p.expires < (now : Int)),
      p.Valid ∧ p.Fits ∧ p.expires ≠ 0 := fun p hp => by
    obtain ⟨hp, hkeep⟩ := List.mem_filter.1 hp
    obtain ⟨hexpires, hlive⟩ := of_decide_eq_true hkeep
    exact ⟨hvalid p hp, hfits p hp hexpires hlive, hexpires⟩
  have hlines : stsPolicySave now list =
      ((list.filter fun p => p.expires ≠ 0 ∧ ¬ p.expires < (now : Int)).map StsPolicy.line).flatMap
        (· ++ [newline]) := by
    rw [stsPolicySave, List.flatMap_map]
  have hread : stsPolicyInit now' [] (stsPolicySave now list) =
      ((list.filter fun p => p.expires ≠ 0 ∧ ¬ p.expires < (now : Int)).map StsPolicy.line).foldl
        (stsInitLine now') [] := by
    rw [stsPolicyInit, hlines]
    refine foldl_pieces_lines (by decide) (fun list => rfl) (fun line hline => ?_) []
    obtain ⟨p, hp, rfl⟩ := List.mem_map.1 hline
    obtain ⟨hvalid, hfits, -⟩ := hsaved p hp
    obtain ⟨hbreak, hnul⟩ := line_whole hvalid hfits
    refine ⟨hbreak, hfits.2, fun list => ⟨?_, rfl⟩⟩
    obtain ⟨hnewline, hplain⟩ := stsTokens_line hvalid hfits
    rw [stsInitLine, stsInitLine, cString_eq_self hnul, cString_eq_self (by simp [hnul, newline]), hnewline, hplain]
  rw [hread, foldl_stsInitLine (hdistinct.sublist List.filter_sublist) hsaved now'
    (fun p _ q hq => absurd hq List.not_mem_nil), List.append_nil, List.filter_filter]
  congr 1
  refine List.filter_congr fun p _ => ?_
  by_cases hover : p.expires < now
  · have : p.expires < now' := by omega
    simp [this]
  · simp [hover, and_comm]

/-! ## The client and the book -/

/-- A step that is in order: the clock stays in a `time_t` with room for a duration; what a restart saves fits its file;
and an attempt to a host with a policy in force does not turn validation off where it asks for TLS itself, and else gives
a name that fits `serv->hostname` and finds a port that exists. -/
def StsOp.Sound (sb : Sts × Book) : StsOp → Prop
  | .pass seconds => sb.1.now + seconds < 2 ^ 62
  | .restart seconds =>
    sb.1.now + seconds < 2 ^ 62 ∧
      ∀ policy ∈ sb.1.policies, policy.expires ≠ 0 → ¬ policy.expires < (sb.1.now : Int) → policy.Fits
  | .connect serv hostname _ =>
    ∀ policy ∈ sb.2.inForce (safeStrcpy hostname HOSTNAMELEN), 0 < policy.expires →
      if serv.useSsl then serv.acceptInvalidCert = false
      else safeStrcpy hostname HOSTNAMELEN = cString hostname ∧ policy.port ≤ 65535
  | _ => True

instance (sb : Sts × Book) : (op : StsOp) → Decidable (op.Sound sb)
  | .add .. => .isTrue trivial
  | .find _ => .isTrue trivial
  | .remove _ => .isTrue trivial
  | .pass _ => inferInstanceAs (Decidable (_ < _))
  | .restart _ =>
    inferInstanceAs (Decidable (_ < _ ∧
      ∀ policy ∈ sb.1.policies, policy.expires ≠ 0 → ¬ policy.expires < (sb.1.now : Int) → policy.Fits))
  | .connect serv hostname _ =>
    inferInstanceAs (Decidable (∀ policy ∈ sb.2.inForce (safeStrcpy hostname HOSTNAMELEN), 0 < policy.expires →
      if serv.useSsl then serv.acceptInvalidCert = false
      else safeStrcpy hostname HOSTNAMELEN = cString hostname ∧ policy.port ≤ 65535))

/-- The policies of the list that are not expired are those of the book. -/
structure Agrees (sb : Sts × Book) : Prop where
  now : sb.1.now = sb.2.now
  clock : sb.1.now < 2 ^ 62
  distinct : Distinct sb.1.policies
  valid : ∀ p ∈ sb.1.policies, p.Valid
  key : ∀ key p, sb.2.policies key = some p → asciiFold.key p.host = key
  live : ∀ p, ¬ p.Expired sb.1.now → (p ∈ sb.1.policies ↔ sb.2.policies (asciiFold.key p.host) = some p)

namespace Agrees

variable {s : Sts} {b : Book}

theorem inForce (h : Agrees (s, b)) (host : Bytes) : (stsPolicyFind s.now s.policies host).2 = b.inForce host := by
  refine Option.ext fun p => ?_
  have hnow : s.now = b.now := h.now
  rw [h.distinct.found_iff, sameHost_iff, Book.inForce, Option.filter_eq_some_iff, hnow]
  simp only [decide_not, Bool.not_eq_true', decide_eq_false_iff_not]
  constructor
  · rintro ⟨hp, hsame, hlive⟩
    refine ⟨?_, hlive⟩
    rw [← hsame]
    exact (h.live p (hnow ▸ hlive)).1 hp
  · rintro ⟨hp, hlive⟩
    have hsame := h.key _ p hp
    refine ⟨(h.live p (hnow ▸ hlive)).2 ?_, hsame, hlive⟩
    rw [hsame]
    exact hp

/-- A list may lose policies that are expired. -/
theorem relist (h : Agrees (s, b)) {list : List StsPolicy} (hsub : list.Sublist s.policies)
    (hlive : ∀ p, ¬ p.Expired s.now → p ∈ s.policies → p ∈ list) : Agrees ({ s with policies := list }, b) where
  now := h.now
  clock := h.clock
  distinct := h.distinct.sublist hsub
  valid p hp := h.valid p (hsub.subset hp)
  key := h.key
  live p hp := by
    rw [← h.live p hp]
    exact ⟨fun hmem => hsub.subset hmem, hlive p hp⟩

theorem set (h : Agrees (s, b)) {host : Bytes} {list : List StsPolicy} {new : Option StsPolicy}
    (hdistinct : Distinct list) (hvalid : ∀ p ∈ list, p.Valid) (hnew : ∀ p ∈ new, sameHost host p = true)
    (hlive : ∀ p, ¬ p.Expired s.now → (p ∈ list ↔ p ∈ s.policies ∧ sameHost host p = false ∨ new = some p)) :
    Agrees ({ s with policies := list }, b.set host new) where
  now := h.now
  clock := h.clock
  distinct := hdistinct
  valid := hvalid
  key key p hp := by
    by_cases hkey : key = asciiFold.key host
    · have hp : new = some p := by simpa [Book.set, hkey] using hp
      rw [hkey]
      exact sameHost_iff.1 (hnew p hp)
    · exact h.key key p (by simpa [Book.set, hkey] using hp)
  live p hp := by
    show p ∈ list ↔ (if asciiFold.key p.host = asciiFold.key host then new else _) = some p
    rw [hlive p hp]
    by_cases hsame : sameHost host p = true
    · rw [if_pos (sameHost_iff.1 hsame), hsame]
      simp
    · have hother : ¬ new = some p := fun hn => hsame (hnew p hn)
      rw [if_neg fun hkey => hsame (sameHost_iff.2 hkey), ← h.live p hp]
      simp [hsame, hother]

theorem find (h : Agrees (s, b)) (host : Bytes) :
    Agrees ({ s with policies := (stsPolicyFind s.now s.policies host).1 }, b) :=
  h.relist find_sublist fun _ hp hmem => h.distinct.mem_find.2 ⟨hmem, fun hexpired => hp hexpired.2⟩

theorem valid_added {now : Nat} (hclock : now < 2 ^ 62) {host : Bytes} {port duration : Int32} (hport : 0 < port)
    {found : Option StsPolicy} (h : ∀ p ∈ found, p.Valid) : (StsPolicy.added now host port duration found).Valid := by
  have hduration := duration.toInt_lt
  cases found with
  | none =>
    have hhost : (0 : UInt8) ∉ cString host := fun hmem => cString_ne_zero hmem rfl
    by_cases hpos : 0 < duration
    · have hpos' : (0 : Int32).toInt < duration.toInt := Int32.lt_iff_toInt_lt.1 hpos
      have hzero : (0 : Int32).toInt = 0 := rfl
      have hexpires : (StsPolicy.added now host port duration none).expires = now + duration.toInt := if_pos hpos
      exact ⟨hport, by omega, by omega, hhost⟩
    · have hexpires : (StsPolicy.added now host port duration none).expires = 0 := if_neg hpos
      exact ⟨hport, by omega, by omega, hhost⟩
  | some p =>
    obtain ⟨-, hlow, hhigh, hhost⟩ := h p rfl
    by_cases hpos : 0 < duration
    · have hpos' : (0 : Int32).toInt < duration.toInt := Int32.lt_iff_toInt_lt.1 hpos
      have hzero : (0 : Int32).toInt = 0 := rfl
      have hexpires : (StsPolicy.added now host port duration (some p)).expires = now + duration.toInt := if_pos hpos
      exact ⟨hport, by omega, by omega, hhost⟩
    · have hexpires : (StsPolicy.added now host port duration (some p)).expires = if duration = 0 then 0 else p.expires :=
        if_neg hpos
      split at hexpires
      · exact ⟨hport, by omega, by omega, hhost⟩
      · exact ⟨hport, by omega, by omega, hhost⟩

theorem add (h : Agrees (s, b)) (host : Bytes) (port duration : Int32) :
    Agrees (StsOp.both (s, b) (.add host port duration)) := by
  by_cases hport : port ≤ 0
  · have hstep : StsOp.both (s, b) (.add host port duration) = (s, b) := by
      simp [StsOp.both, StsOp.step, StsOp.note, stsPolicyAdd, hport]
    rwa [hstep]
  · have hpos : 0 < port := by simpa using hport
    have hnow : s.now = b.now := h.now
    have hfound := h.inForce host
    have hnote : StsOp.both (s, b) (.add host port duration) =
        ({ s with policies := stsPolicyAdd s.now s.policies host port duration },
          b.set host (some (.added s.now host port duration (b.inForce host)))) := by
      simp [StsOp.both, StsOp.step, StsOp.note, hport, hnow]
    have hlisted : ∀ p ∈ b.inForce host, p ∈ s.policies ∧ sameHost host p = true := fun p hp => by
      rw [← hfound] at hp
      obtain ⟨hmem, hsame, -⟩ := h.distinct.found_iff.1 hp
      exact ⟨hmem, hsame⟩
    have hmem : ∀ p, p ∈ stsPolicyAdd s.now s.policies host port duration ↔
        p ∈ s.policies ∧ sameHost host p = false ∨ p = .added s.now host port duration (b.inForce host) := fun p => by
      rw [h.distinct.mem_add hpos, hfound]
    rw [hnote]
    refine h.set (h.distinct.add port duration) (fun p hp => ?_) (fun p hp => ?_) fun p _ => ?_
    · rcases (hmem p).1 hp with ⟨hp, -⟩ | rfl
      · exact h.valid p hp
      · exact valid_added h.clock hpos fun p hp => h.valid p (hlisted p hp).1
    · obtain rfl := Option.some.inj hp
      exact added_host fun p hp => (hlisted p hp).2
    · rw [hmem p, Option.some.injEq, eq_comm (a := p)]

theorem remove (h : Agrees (s, b)) (host : Bytes) :
    Agrees ({ s with policies := stsPolicyRemove s.now s.policies host }, b.set host none) := by
  refine h.set (h.distinct.sublist remove_sublist) (fun p hp => h.valid p (remove_sublist.subset hp))
    (fun _ hp => nomatch hp) fun p hp => ?_
  rw [h.distinct.mem_remove hp]
  simp

theorem connect (h : Agrees (s, b)) (serv : TlsSettings) (hostname : Bytes) (port : Int32) :
    Agrees ({ s with policies := (serverConnect s.now s.policies serv hostname port).1 }, b) := by
  have hlist : (serverConnect s.now s.policies serv hostname port).1 = s.policies ∨
      (serverConnect s.now s.policies serv hostname port).1 = (stsPolicyFind s.now s.policies hostname).1 := by
    rw [serverConnect]
    split
    · exact .inl rfl
    · cases serv.useSsl with
      | true => exact .inl rfl
      | false => exact .inr rfl
  rcases hlist with heq | heq <;> rw [heq]
  · exact h
  · exact h.find hostname

theorem not_expired_mono {now now' : Nat} {p : StsPolicy} (hle : now ≤ now') (h : ¬ p.Expired now') :
    ¬ p.Expired now := fun ⟨hpos, hover⟩ => h ⟨hpos, by omega⟩

theorem pass (h : Agrees (s, b)) {seconds : Nat} (hclock : s.now + seconds < 2 ^ 62) :
    Agrees (StsOp.both (s, b) (.pass seconds)) where
  now := congrArg (· + seconds) h.now
  clock := hclock
  distinct := h.distinct
  valid := h.valid
  key := h.key
  live p hp := h.live p (not_expired_mono (Nat.le_add_right _ _) hp)

/-- What a restart leaves of the list. -/
theorem restart_policies (h : Agrees (s, b)) {seconds : Nat} (hsound : StsOp.Sound (s, b) (.restart seconds)) :
    (StsOp.step s (.restart seconds)).policies =
      (s.policies.filter fun p => p.expires ≠ 0 ∧ ¬ p.expires < ((s.now + seconds : Nat) : Int)).reverse :=
  stsPolicyInit_save h.distinct h.valid hsound.2 (Nat.le_add_right _ _)

theorem restart (h : Agrees (s, b)) {seconds : Nat} (hsound : StsOp.Sound (s, b) (.restart seconds)) :
    Agrees (StsOp.both (s, b) (.restart seconds)) := by
  have hpolicies := h.restart_policies hsound
  have hmem : ∀ p, p ∈ (StsOp.step s (.restart seconds)).policies ↔
      p ∈ s.policies ∧ p.expires ≠ 0 ∧ ¬ p.expires < ((s.now + seconds : Nat) : Int) := fun p => by
    rw [hpolicies, List.mem_reverse, List.mem_filter, decide_eq_true_iff]
  refine ⟨congrArg (· + seconds) h.now, hsound.1, ?_, fun p hp => h.valid p ((hmem p).1 hp).1, fun key p hp => ?_,
    fun p hp => ?_⟩
  · show Distinct (StsOp.step s (.restart seconds)).policies
    rw [hpolicies, Distinct, DistinctKeys.iff_map, List.map_reverse, List.nodup_reverse, ← DistinctKeys.iff_map]
    exact h.distinct.sublist List.filter_sublist
  · exact h.key key p (Option.filter_eq_some_iff.1 hp).1
  · show p ∈ (StsOp.step s (.restart seconds)).policies ↔
      (b.policies (asciiFold.key p.host)).filter (fun p => p.expires ≠ 0) = some p
    have hlive : ¬ p.Expired s.now := not_expired_mono (Nat.le_add_right _ _) hp
    rw [hmem, Option.filter_eq_some_iff, decide_eq_true_iff, ← h.live p hlive]
    refine and_congr_right fun hlisted => and_iff_left_of_imp fun hexpires hover => hp ⟨?_, hover⟩
    have := (h.valid p hlisted).low
    omega

theorem step {sb : Sts × Book} (h : Agrees sb) {op : StsOp} (hsound : op.Sound sb) : Agrees (op.both sb) := by
  cases op with
  | add host port duration => exact h.add host port duration
  | find host => exact h.find host
  | remove host => exact h.remove host
  | pass seconds => exact h.pass hsound
  | restart seconds => exact h.restart hsound
  | connect serv hostname port => exact h.connect serv hostname port

theorem enforced_connect (h : Agrees (s, b)) {serv : TlsSettings} {hostname : Bytes} {port : Int32}
    (hsound : StsOp.Sound (s, b) (.connect serv hostname port)) :
    StsOp.Enforced (s, b) (.connect serv hostname port) := by
  intro attempt hattempt policy hpolicy hexpires
  rw [serverConnect] at hattempt
  split at hattempt
  · cases hattempt
  · cases huse : serv.useSsl with
    | true =>
      simp only [huse] at hattempt
      obtain rfl := Option.some.inj hattempt
      have hvalidate := hsound policy hpolicy hexpires
      rw [huse, if_pos rfl] at hvalidate
      exact ⟨huse, hvalidate, fun hno => nomatch hno⟩
    | false =>
      have hhost : attempt.hostname = safeStrcpy hostname HOSTNAMELEN := by
        simp only [huse] at hattempt
        obtain rfl := Option.some.inj hattempt
        rfl
      rw [hhost] at hpolicy
      have hport := hsound policy hpolicy hexpires
      rw [huse, if_neg (by decide)] at hport
      -- the name that was looked up is the name the attempt goes to
      have hkey : asciiFold.key (safeStrcpy hostname HOSTNAMELEN) = asciiFold.key hostname := by
        rw [hport.1, Casefold.key, cString_eq_self fun h => cString_ne_zero h rfl, Casefold.key]
      have hfound : (stsPolicyFind s.now s.policies hostname).2 = some policy := by
        rw [h.inForce, Book.inForce, ← hkey]
        exact hpolicy
      have hcheck : (stsPolicyCheck s.now s.policies hostname).2 = some policy.port := by
        simp only [stsPolicyCheck, hfound, Option.map_some]
      have hpos := (h.valid policy (h.distinct.found_iff.1 hfound).1).port
      simp only [huse, Bool.false_eq_true, if_false, hcheck] at hattempt
      obtain rfl := Option.some.inj hattempt
      refine ⟨rfl, rfl, fun _ => if_neg ?_⟩
      rintro (hlow | hhigh)
      · have := Int32.lt_iff_toInt_lt.1 hlow
        have := Int32.lt_iff_toInt_lt.1 hpos
        have hone : (1 : Int32).toInt = 1 := rfl
        have hzero : (0 : Int32).toInt = 0 := rfl
        omega
      · exact absurd hport.2 (by simpa using hhigh)

theorem enforced_restart (h : Agrees (s, b)) {seconds : Nat} (hsound : StsOp.Sound (s, b) (.restart seconds)) :
    StsOp.Enforced (s, b) (.restart seconds) := by
  have hpolicies := h.restart_policies hsound
  refine ⟨?_, fun p => ?_⟩
  · rw [hpolicies, List.nodup_reverse]
    exact (h.distinct.sublist List.filter_sublist).nodup
  · rw [hpolicies, List.mem_reverse, List.mem_filter, decide_eq_true_iff]
    refine and_congr_left fun hkept => ?_
    have hlive : ¬ p.Expired s.now := fun hexpired => hkept.2 (by have := hexpired.2; omega)
    rw [h.live p hlive]
    refine ⟨fun hp => ⟨_, hp⟩, ?_⟩
    rintro ⟨key, hp⟩
    have hkey := h.key key p hp
    rwa [hkey]

theorem enforced {sb : Sts × Book} (h : Agrees sb) {op : StsOp} (hsound : op.Sound sb) : op.Enforced sb := by
  cases op with
  | restart seconds => exact h.enforced_restart hsound
  | connect serv hostname port => exact h.enforced_connect hsound
  | _ => trivial

end Agrees

/-- **Policies are enforced**: in a run whose steps all are in order, from a client that has recorded nothing, every
attempt keeps to the policy in force and every restart keeps exactly the policies with an expiry that is not over. -/
theorem sts_enforced {now : Nat} (hclock : now < 2 ^ 62) {ops : List StsOp}
    (h : Along StsOp.both (fun sb op => op.Sound sb) ({ now }, { now }) ops) :
    Along StsOp.both (fun sb op => op.Enforced sb) ({ now }, { now }) ops := by
  have hstart : Agrees (({ now }, { now }) : Sts × Book) :=
    ⟨rfl, hclock, .nil, fun _ hp => absurd hp List.not_mem_nil, fun _ _ hp => absurd hp (Option.some_ne_none _).symm,
      fun _ _ => ⟨fun hp => absurd hp List.not_mem_nil, fun hp => absurd hp (Option.some_ne_none _).symm⟩⟩
  exact h.imp (fun _ _ hi hok => Agrees.step hi hok) (fun _ _ hi hok => Agrees.enforced hi hok) hstart

/-- Two policies over a restart, one of which expires; the other is enforced after it, in another case. -/
def stsRun : List StsOp :=
  [.add (bytes "irc.pool") 6697 3600, .add (bytes "old.pool") 6698 60, .pass 100, .restart 10,
    .connect ⟨false, true⟩ (bytes "IRC.pool") 6667, .connect ⟨true, false⟩ (bytes "irc.pool") 7000,
    .connect ⟨false, false⟩ (bytes "old.pool") 6667]

theorem stsRun_enforced :
    Along StsOp.both (fun sb op => op.Enforced sb) ({ now := 1000 }, { now := 1000 }) stsRun :=
  sts_enforced (by decide) (by decide +kernel)

/-- An attempt that asks for TLS itself and accepts any certificate is made so, whatever policy is in force. -/
theorem invalid_cert_accepted :
    ¬ Along StsOp.both (fun sb op => op.Enforced sb) ({ now := 1000 }, { now := 1000 })
      [.add (bytes "irc.pool") 6697 3600, .connect ⟨true, true⟩ (bytes "irc.pool") 6697] := by
  rintro ⟨-, hconnect, -⟩
  have := hconnect ⟨bytes "irc.pool", 6697, true, true⟩ (by decide +kernel) ⟨bytes "irc.pool", 6697, 4600⟩
    (by decide +kernel) (by decide)
  exact absurd this.2.1 (by decide)

end PoxChat.Servlist
