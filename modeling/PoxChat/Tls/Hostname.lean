import PoxChat.Lib.Fields
import PoxChat.Outbound.SendQueue

/-!
# Host names in certificates

The check of `ssl.c` that a certificate is for the host that the client has connected to.

* `Certificate` — what OpenSSL finds in one: the subject's alternative names and its common name.
* `sslMatchHostname`, `sslCheckSubjectAltname`, `sslCheckCommonName`, `sslCheckHostname` — the check.
* `labels` — the parts of a host name between its dots; `Covers` — a name of a certificate is for this host: the labels
  are the same, or the first one is a star and the others, at least two, are the same.

Principal results: `sslMatchHostname_iff` — the comparison of names is `Covers`; `hostname_accepted_iff` — a host is
accepted exactly when an alternative name is for it and none in front has a NUL in it, or no alternative name decides and
the common name is for it.
-/

set_option autoImplicit false

namespace PoxChat.Tls

open Lib Outbound

/-! ## The check -/

/-- `strchr`, for a character other than NUL. -/
def strchr (str : Bytes) (c : UInt8) : Option Bytes :=
  match str.dropWhile (· != c) with
  | [] => none
  | found => some found

/-- `_SSL_match_hostname`. -/
def sslMatchHostname (certHostname hostname : Bytes) : Int :=
  if gAsciiStrcaseeq certHostname hostname then 0
  else
    match certHostname with
    | 42 :: 46 :: rest =>
      -- "*.." and "*.bar" are no wildcards, and "*.bar.." is none
      if rest.head? = some 46 then -1
      else
        match strchr rest 46 with
        | none => -1
        | some nextDot =>
          if nextDot.tail.head? = some 46 then -1
          else
            match strchr hostname 46 with
            | none => -1
            | some domain => if domain.length ≠ 1 ∧ gAsciiStrcaseeq (46 :: rest) domain then 0 else -1
    | _ => -1

inductive GeneralName where
  /-- `GEN_DNS`, encoded as `V_ASN1_IA5STRING` or not. -/
  | dns (ia5 : Bool) (data : Bytes)
  /-- `GEN_IPADD`. -/
  | ipadd (data : Bytes)
  | other

structure Certificate where
  subjectAltName : Option (List GeneralName)
  /-- `X509_NAME_get_text_by_NID`, where it finds one. -/
  commonName : Option Bytes

/-- The loop of `_SSL_check_subject_altname`; `addr` is the address that the host is, if it is one. -/
def checkAltnames (addr : Option Bytes) (host : Bytes) : List GeneralName → Int
  | [] => -1
  | .dns true data :: altnames =>
    if addr.isSome then checkAltnames addr host altnames
    else if (0 : UInt8) ∈ data then -2
    else if sslMatchHostname data host = 0 then 0
    else checkAltnames addr host altnames
  | .ipadd data :: altnames => if addr = some data then 0 else checkAltnames addr host altnames
  | _ :: altnames => checkAltnames addr host altnames

/-- `_SSL_check_subject_altname`; `newFromString` is `g_inet_address_new_from_string`. -/
def sslCheckSubjectAltname (newFromString : Bytes → Option Bytes) (cert : Certificate) (host : Bytes) : Int :=
  match cert.subjectAltName with
  | none => -1
  | some altnames => checkAltnames (newFromString host) host altnames

/-- `_SSL_check_common_name`. -/
def sslCheckCommonName (newFromString : Bytes → Option Bytes) (cert : Certificate) (host : Bytes) : Int :=
  match cert.commonName with
  | none => -1
  | some commonName =>
    if (0 : UInt8) ∈ commonName then -2
    else if (newFromString host).isSome then if commonName = host then 0 else -1
    else if sslMatchHostname commonName host = 0 then 0
    else -1

/-- `_SSL_check_hostname`. -/
def sslCheckHostname (newFromString : Bytes → Option Bytes) (cert : Certificate) (host : Bytes) : Int :=
  let rv := sslCheckSubjectAltname newFromString cert host
  if rv = 0 ∨ rv = -2 then rv else sslCheckCommonName newFromString cert host

/-! ## What is meant -/

/-- The labels of a host name, without regard to case. -/
def labels (name : Bytes) : List Bytes := (name.map asciiTolower).splitOn 46

/-- A name of a certificate is for this host. -/
def Covers (certHostname hostname : Bytes) : Prop :=
  labels certHostname = labels hostname ∨
    ∃ own domain tld rest, labels hostname = own :: domain :: tld :: rest ∧
      labels certHostname = [42] :: domain :: tld :: rest ∧ domain ≠ [] ∧ (tld = [] → rest = [])

/-- An alternative name is for this host. -/
def GeneralName.Names (addr : Option Bytes) (host : Bytes) : GeneralName → Prop
  | .dns true data => addr = none ∧ (0 : UInt8) ∉ data ∧ Covers data host
  | .ipadd data => addr = some data
  | _ => False

/-- A NUL in a name that would be compared. -/
def GeneralName.Malicious (addr : Option Bytes) : GeneralName → Prop
  | .dns true data => addr = none ∧ (0 : UInt8) ∈ data
  | _ => False

/-! ## Labels -/

theorem asciiTolower_eq_iff {c d : UInt8} (hd : d.toNat < 65 ∨ 122 < d.toNat) : asciiTolower c = d ↔ c = d := by
  unfold asciiTolower
  split_ifs with hupper
  · have hlow : 65 ≤ c.toNat := UInt8.le_iff_toNat_le.1 hupper.1
    have hhigh : c.toNat ≤ 90 := UInt8.le_iff_toNat_le.1 hupper.2
    have hsum : (c + 32).toNat = c.toNat + 32 := by
      rw [UInt8.toNat_add]
      exact Nat.mod_eq_of_lt (by simp; omega)
    rw [← UInt8.toNat_inj, ← UInt8.toNat_inj, hsum]
    omega
  · exact Iff.rfl

theorem mem_lower_iff {name : Bytes} : 46 ∈ name.map asciiTolower ↔ 46 ∈ name := by
  simp [asciiTolower_eq_iff]

/-- Names that agree without regard to case have the same labels. -/
theorem gAsciiStrcaseeq_iff {a b : Bytes} : gAsciiStrcaseeq a b = true ↔ labels a = labels b := by
  unfold gAsciiStrcaseeq labels
  rw [beq_iff_eq]
  refine ⟨congrArg _, fun h => ?_⟩
  have hback := congrArg (List.intercalate [46]) h
  rwa [List.intercalate_splitOn, List.intercalate_splitOn] at hback

theorem labels_of_not_mem {name : Bytes} (h : 46 ∉ name) : labels name = [name.map asciiTolower] :=
  List.splitOn_eq_singleton (mem_lower_iff.not.2 h)

theorem labels_append {front : Bytes} (h : 46 ∉ front) (rest : Bytes) :
    labels (front ++ 46 :: rest) = front.map asciiTolower :: labels rest := by
  unfold labels
  rw [List.map_append, List.map_cons, (asciiTolower_eq_iff (by decide)).2 rfl]
  exact List.splitOn_append_cons_self_of_not_mem (mem_lower_iff.not.2 h) _

/-- `strchr` finds the first dot, behind the first label. -/
theorem strchr_dot (name : Bytes) :
    (46 ∉ name ∧ strchr name 46 = none) ∨
      ∃ front rest, 46 ∉ front ∧ name = front ++ 46 :: rest ∧ strchr name 46 = some (46 :: rest) := by
  induction name with
  | nil => exact .inl ⟨List.not_mem_nil, rfl⟩
  | cons c name ih =>
    by_cases hc : c = 46
    · exact .inr ⟨[], name, List.not_mem_nil, by rw [hc]; rfl, by simp [strchr, hc]⟩
    · have hdrop : (c :: name).dropWhile (· != 46) = name.dropWhile (· != 46) :=
        List.dropWhile_cons_of_pos (by simpa using hc)
      have hsame : strchr (c :: name) 46 = strchr name 46 := by rw [strchr, hdrop, strchr]
      rcases ih with ⟨hnot, hnone⟩ | ⟨front, rest, hfront, hsplit, hsome⟩
      · refine .inl ⟨?_, hsame.trans hnone⟩
        rw [List.mem_cons, not_or]
        exact ⟨Ne.symm hc, hnot⟩
      · refine .inr ⟨c :: front, rest, ?_, by rw [hsplit]; rfl, hsame.trans hsome⟩
        rw [List.mem_cons, not_or]
        exact ⟨Ne.symm hc, hfront⟩

/-! ## Names -/

theorem labels_star (rest : Bytes) : labels (42 :: 46 :: rest) = [42] :: labels rest :=
  labels_append (show 46 ∉ ([42] : Bytes) by decide) rest

/-- A name whose first label is a star, with others behind it. -/
theorem eq_star {name : Bytes} {label : Bytes} {rest : List Bytes} (h : labels name = [42] :: label :: rest) :
    ∃ rest, name = 42 :: 46 :: rest := by
  rcases strchr_dot name with ⟨hnot, -⟩ | ⟨front, rest', hfront, rfl, -⟩
  · rw [labels_of_not_mem hnot] at h
    exact absurd (List.cons.inj h).2 (by simp)
  · rw [labels_append hfront] at h
    have hstar := (List.cons.inj h).1
    cases front with
    | nil => cases hstar
    | cons c front =>
      obtain ⟨hc, hnil⟩ := List.cons.inj hstar
      rw [List.map_eq_nil_iff] at hnil
      rw [(asciiTolower_eq_iff (by decide)).1 hc, hnil]
      exact ⟨rest', rfl⟩

theorem labels_cons (name : Bytes) :
    ∃ label rest, labels name = label :: rest ∧ ((label = [] → rest = []) ↔ name.head? ≠ some 46) := by
  rcases strchr_dot name with ⟨hnot, -⟩ | ⟨front, rest, hfront, rfl, -⟩
  · refine ⟨_, _, labels_of_not_mem hnot, iff_of_true (fun _ => rfl) fun h => hnot (List.mem_of_mem_head? h)⟩
  · refine ⟨_, _, labels_append hfront rest, ?_⟩
    have hne : labels rest ≠ [] := List.splitOn_ne_nil _ _
    cases front with
    | nil => simp [hne]
    | cons c front =>
      have hc : c ≠ 46 := fun h => hfront (h ▸ List.mem_cons_self)
      simp [hc]

/-- A wildcard in front of `domain.tld`, for a host with these labels behind its first. -/
theorem star_covers_iff {domain tld own rest : Bytes} (hdomain : 46 ∉ domain) (hown : 46 ∉ own) :
    (∃ own' domain' tld' rest', labels (own ++ 46 :: rest) = own' :: domain' :: tld' :: rest' ∧
      [42] :: labels (domain ++ 46 :: tld) = [42] :: domain' :: tld' :: rest' ∧ domain' ≠ [] ∧ (tld' = [] → rest' = [])) ↔
      domain ≠ [] ∧ tld.head? ≠ some 46 ∧ labels (domain ++ 46 :: tld) = labels rest := by
  obtain ⟨label, more, htld, hempty⟩ := labels_cons tld
  rw [labels_append hown, labels_append hdomain, htld, ← hempty]
  constructor
  · rintro ⟨own', domain', tld', rest', hhost, hcert, hne, hrest⟩
    have hbehind := (List.cons.inj hhost).2
    obtain ⟨rfl, hlabels⟩ := List.cons.inj (List.cons.inj hcert).2
    obtain ⟨rfl, rfl⟩ := List.cons.inj hlabels
    exact ⟨fun h => hne (by rw [h]; rfl), hrest, hbehind.symm⟩
  · rintro ⟨hne, hrest, hsame⟩
    refine ⟨_, domain.map asciiTolower, label, more, by rw [← hsame], rfl, ?_, hrest⟩
    rw [ne_eq, List.map_eq_nil_iff]
    exact hne

/-- **The comparison** of names is on their labels. -/
theorem sslMatchHostname_iff (certHostname hostname : Bytes) :
    sslMatchHostname certHostname hostname = 0 ↔ Covers certHostname hostname := by
  have hneg : ((-1 : Int) = 0) = False := by decide
  unfold sslMatchHostname
  split_ifs with hsame
  · exact iff_of_true rfl (.inl (gAsciiStrcaseeq_iff.1 hsame))
  rw [gAsciiStrcaseeq_iff] at hsame
  rw [Covers, or_iff_right hsame]
  split
  · rename_i rest
    rw [labels_star]
    rcases strchr_dot rest with ⟨hnot, hnone⟩ | ⟨domain, tld, hdomain, rfl, hfound⟩
    · -- one label behind the star
      rw [hnone, ite_self, hneg, false_iff, labels_of_not_mem hnot]
      rintro ⟨_, _, _, _, -, hcert, -⟩
      exact absurd (List.cons.inj (List.cons.inj hcert).2).2 (by simp)
    rw [hfound]
    rcases strchr_dot hostname with ⟨hnot, hnone⟩ | ⟨own, hostrest, hown, rfl, hfound'⟩
    · -- one label of the host
      simp only [hnone, ite_self, hneg, false_iff, labels_of_not_mem hnot]
      rintro ⟨_, _, _, _, hhost, -⟩
      exact absurd (List.cons.inj hhost).2 (by simp)
    rw [hfound', star_covers_iff hdomain hown]
    dsimp only
    have hhead : (domain ++ 46 :: tld).head? = some 46 ↔ domain = [] := by
      cases domain with
      | nil => simp
      | cons c domain =>
        have hc : c ≠ 46 := fun h => hdomain (h ▸ List.mem_cons_self)
        simp [hc]
    have hlabels : gAsciiStrcaseeq (46 :: (domain ++ 46 :: tld)) (46 :: hostrest) = true ↔
        labels (domain ++ 46 :: tld) = labels hostrest := by
      rw [gAsciiStrcaseeq_iff, ← List.nil_append (46 :: (domain ++ 46 :: tld)), ← List.nil_append (46 :: hostrest),
        labels_append List.not_mem_nil, labels_append List.not_mem_nil, List.cons_inj_right]
    have hlong : labels (domain ++ 46 :: tld) = labels hostrest → hostrest ≠ [] := by
      rintro h rfl
      rw [labels_append hdomain] at h
      exact List.splitOn_ne_nil _ _ (List.cons.inj h).2
    by_cases hempty : domain = []
    · rw [if_pos (hhead.2 hempty)]
      exact iff_of_false (by decide) fun h => h.1 hempty
    rw [if_neg (mt hhead.1 hempty)]
    by_cases htld : (46 :: tld).tail.head? = some 46
    · rw [if_pos htld]
      exact iff_of_false (by decide) fun h => h.2.1 htld
    rw [if_neg htld]
    by_cases hsame : labels (domain ++ 46 :: tld) = labels hostrest
    · have hpos := List.length_pos_iff.2 (hlong hsame)
      rw [if_pos ⟨by rw [List.length_cons]; omega, hlabels.2 hsame⟩]
      exact iff_of_true rfl ⟨hempty, htld, hsame⟩
    · rw [if_neg fun h => hsame (hlabels.1 h.2)]
      exact iff_of_false (by decide) fun h => hsame h.2.2
  · rename_i hother
    rw [hneg, false_iff]
    rintro ⟨own, domain, tld, rest, -, hstar, -⟩
    obtain ⟨rest', hname⟩ := eq_star hstar
    exact hother rest' hname

/-! ## Certificates -/

variable {addr : Option Bytes} {host : Bytes}

/-- What the first alternative name decides, and what it leaves to the others. -/
theorem checkAltnames_cons (altname : GeneralName) (altnames : List GeneralName) :
    (altname.Names addr host → checkAltnames addr host (altname :: altnames) = 0) ∧
      (altname.Malicious addr → checkAltnames addr host (altname :: altnames) = -2) ∧
      (¬ altname.Names addr host → ¬ altname.Malicious addr →
        checkAltnames addr host (altname :: altnames) = checkAltnames addr host altnames) := by
  cases altname with
  | dns ia5 data =>
    cases ia5 with
    | false => exact ⟨False.elim, False.elim, fun _ _ => rfl⟩
    | true =>
      have hcheck : checkAltnames addr host (.dns true data :: altnames) =
          if addr.isSome then checkAltnames addr host altnames
          else if (0 : UInt8) ∈ data then -2
          else if sslMatchHostname data host = 0 then 0
          else checkAltnames addr host altnames := rfl
      have hnames : (GeneralName.dns true data).Names addr host ↔
          addr = none ∧ (0 : UInt8) ∉ data ∧ sslMatchHostname data host = 0 := by
        rw [sslMatchHostname_iff]
        exact Iff.rfl
      have hmalicious : (GeneralName.dns true data).Malicious addr ↔ addr = none ∧ (0 : UInt8) ∈ data := Iff.rfl
      rw [hcheck, hnames, hmalicious]
      cases addr with
      | some bytes => simp
      | none =>
        by_cases hzero : (0 : UInt8) ∈ data
        · simp [hzero]
        · by_cases hmatch : sslMatchHostname data host = 0
          · simp [hzero, hmatch]
          · simp [hzero, hmatch]
  | ipadd data =>
    have hcheck : checkAltnames addr host (.ipadd data :: altnames) =
        if addr = some data then 0 else checkAltnames addr host altnames := rfl
    rw [hcheck]
    exact ⟨fun h => if_pos h, False.elim, fun h _ => if_neg h⟩
  | other => exact ⟨False.elim, False.elim, fun _ _ => rfl⟩

theorem GeneralName.not_malicious {altname : GeneralName} (h : altname.Names addr host) : ¬ altname.Malicious addr := by
  cases altname with
  | dns ia5 data =>
    cases ia5 with
    | false => exact h.elim
    | true => exact fun hmal => h.2.1 hmal.2
  | ipadd data => exact id
  | other => exact h.elim

/-- **The alternative names** in order: the first one that decides is for the host, or it is malicious. -/
theorem checkAltnames_iff (altnames : List GeneralName) :
    (checkAltnames addr host altnames = 0 ↔ ∃ front altname back, altnames = front ++ altname :: back ∧
      altname.Names addr host ∧ ∀ earlier ∈ front, ¬ earlier.Malicious addr) ∧
    ((checkAltnames addr host altnames ≠ 0 ∧ checkAltnames addr host altnames ≠ -2) ↔
      ∀ altname ∈ altnames, ¬ altname.Names addr host ∧ ¬ altname.Malicious addr) := by
  induction altnames with
  | nil =>
    rw [show checkAltnames addr host [] = -1 from rfl]
    exact ⟨iff_of_false (by decide) (by simp), iff_of_true (by decide) (by simp)⟩
  | cons altname altnames ih =>
    obtain ⟨hnames, hmalicious, hnext⟩ := @checkAltnames_cons addr host altname altnames
    by_cases hmal : altname.Malicious addr
    · rw [hmalicious hmal]
      refine ⟨iff_of_false (by decide) ?_, iff_of_false (by decide) fun h => (h altname (by simp)).2 hmal⟩
      rintro ⟨front, found, back, hsplit, hfound, hclean⟩
      cases front with
      | nil =>
        obtain ⟨rfl, -⟩ := List.cons.inj hsplit
        exact GeneralName.not_malicious hfound hmal
      | cons first front =>
        obtain ⟨rfl, -⟩ := List.cons.inj hsplit
        exact hclean altname (by simp) hmal
    by_cases hnam : altname.Names addr host
    · rw [hnames hnam]
      exact ⟨iff_of_true rfl ⟨[], altname, altnames, rfl, hnam, by simp⟩,
        iff_of_false (by decide) fun h => (h altname (by simp)).1 hnam⟩
    rw [hnext hnam hmal, ih.1, ih.2, List.forall_mem_cons]
    refine ⟨⟨?_, ?_⟩, ⟨fun h => ⟨⟨hnam, hmal⟩, h⟩, fun h => h.2⟩⟩
    · rintro ⟨front, found, back, rfl, hfound, hclean⟩
      exact ⟨altname :: front, found, back, rfl, hfound, List.forall_mem_cons.2 ⟨hmal, hclean⟩⟩
    · rintro ⟨front, found, back, hsplit, hfound, hclean⟩
      cases front with
      | nil =>
        obtain ⟨rfl, -⟩ := List.cons.inj hsplit
        exact absurd hfound hnam
      | cons first front =>
        obtain ⟨-, rfl⟩ := List.cons.inj hsplit
        exact ⟨front, found, back, rfl, hfound, (List.forall_mem_cons.1 hclean).2⟩

/-- The common name is for this host; an address is only for itself. -/
def Certificate.CommonNames (cert : Certificate) (addr : Option Bytes) (host : Bytes) : Prop :=
  ∃ commonName, cert.commonName = some commonName ∧ (0 : UInt8) ∉ commonName ∧
    match addr with
    | some _ => commonName = host
    | none => Covers commonName host

/-- What is said of the common name is what is checked. -/
theorem sslCheckCommonName_iff (newFromString : Bytes → Option Bytes) (cert : Certificate) (host : Bytes) :
    sslCheckCommonName newFromString cert host = 0 ↔ cert.CommonNames (newFromString host) host := by
  unfold sslCheckCommonName Certificate.CommonNames
  cases cert.commonName with
  | none =>
    refine iff_of_false (by simp) ?_
    rintro ⟨_, h, -⟩
    cases h
  | some commonName =>
    have hthis : (∃ name, some commonName = some name ∧ (0 : UInt8) ∉ name ∧
        match newFromString host with
        | some _ => name = host
        | none => Covers name host) ↔ (0 : UInt8) ∉ commonName ∧
        match newFromString host with
        | some _ => commonName = host
        | none => Covers commonName host := by simp
    rw [hthis]
    dsimp only
    split_ifs with hzero haddr heq hmatch
    · rw [false_iff]
      exact fun h => h.1 hzero
    · obtain ⟨addr, haddr⟩ := Option.isSome_iff_exists.1 haddr
      rw [haddr]
      exact iff_of_true rfl ⟨hzero, heq⟩
    · obtain ⟨addr, haddr⟩ := Option.isSome_iff_exists.1 haddr
      rw [haddr, false_iff]
      exact fun h => heq h.2
    · rw [Option.not_isSome_iff_eq_none] at haddr
      rw [haddr]
      exact iff_of_true rfl ⟨hzero, (sslMatchHostname_iff _ _).1 hmatch⟩
    · rw [Option.not_isSome_iff_eq_none] at haddr
      rw [haddr, false_iff]
      exact fun h => hmatch ((sslMatchHostname_iff _ _).2 h.2)

/-- **Acceptance**: for every certificate and every host, the check succeeds exactly when an alternative name is for the
host and none in front of it has a NUL, or no alternative name is for the host or has a NUL, and the common name is for
the host. -/
theorem hostname_accepted_iff (newFromString : Bytes → Option Bytes) (cert : Certificate) (host : Bytes) :
    sslCheckHostname newFromString cert host = 0 ↔
      (∃ front altname back, cert.subjectAltName = some (front ++ altname :: back) ∧
        altname.Names (newFromString host) host ∧ ∀ earlier ∈ front, ¬ earlier.Malicious (newFromString host)) ∨
      ((∀ altname ∈ cert.subjectAltName.getD [],
          ¬ altname.Names (newFromString host) host ∧ ¬ altname.Malicious (newFromString host)) ∧
        cert.CommonNames (newFromString host) host) := by
  unfold sslCheckHostname sslCheckSubjectAltname
  rw [← sslCheckCommonName_iff]
  cases hnames : cert.subjectAltName with
  | none => simp
  | some altnames =>
    obtain ⟨haccept, hundecided⟩ := @checkAltnames_iff (newFromString host) host altnames
    have hsplit : (∃ front altname back, some altnames = some (front ++ altname :: back) ∧
        altname.Names (newFromString host) host ∧ ∀ earlier ∈ front, ¬ earlier.Malicious (newFromString host)) ↔
        checkAltnames (newFromString host) host altnames = 0 := by
      rw [haccept]
      simp only [Option.some.injEq]
    rw [hsplit, Option.getD_some, ← hundecided]
    dsimp only
    generalize checkAltnames (newFromString host) host altnames = rv
    split_ifs with hdecided
    · omega
    · rw [not_or] at hdecided
      exact ⟨fun h => .inr ⟨hdecided, h⟩, fun h => h.elim (fun h => absurd h hdecided.1) fun h => h.2⟩

end PoxChat.Tls
