import PoxChat.Servlist.Networks

/-!
# The network list over a restart

What `servlist_load` makes of the file that `servlist_save` wrote.

* `Reads` — what a group of lines does to the network it stands in.
* `Kept` — a line that the buffer of `servlist_load` takes whole.
* `Ircnet.Fits` — every line of the network is kept, and a favourite channel can be told from its key.

Principal results: `servlistLoad_fits` — whatever the file holds, the networks read from it fit; `restart_iff` — the
network list survives a restart if and only if each of its networks fits.
-/

set_option autoImplicit false

namespace PoxChat.Servlist

open Lib Outbound Cap

variable {p : Platform}

/-! ## Numbers -/

theorem isDigit_of_mem_decimal {n : Nat} {c : UInt8} (h : c ∈ decimal n) : Cap.isDigit c = true := by
  obtain ⟨hlow, hhigh⟩ := toNat_of_mem_decimal h
  have hlow : (48 : UInt8) ≤ c := UInt8.le_iff_toNat_le.2 hlow
  have hhigh : c ≤ (57 : UInt8) := UInt8.le_iff_toNat_le.2 hhigh
  simp [Cap.isDigit, hlow, hhigh]

theorem foldl_decimal (n : Nat) : (decimal n).foldl (fun n c => 10 * n + (c.toNat - 48)) 0 = n := by
  rw [decimal, List.foldl_map]
  calc (Nat.toDigits 10 n).foldl (fun n d => 10 * n + (d.toNat.toUInt8.toNat - 48)) 0
      = (Nat.toDigits 10 n).foldl (fun n d => 10 * n + (d.toNat - 48)) 0 := by
        refine List.foldl_ext _ _ _ fun m d hd => ?_
        rw [(toNat_of_mem_toDigits hd).1]
    _ = Nat.ofDigitChars 10 (Nat.toDigits 10 n) 0 := rfl
    _ = n := Nat.ofDigitChars_ten_toDigits

/-- A decimal number stands neither after a blank nor after a sign. -/
theorem decimal_cons (n : Nat) : ∃ c digits, decimal n = c :: digits ∧ 48 ≤ c.toNat ∧ c.toNat ≤ 57 := by
  cases h : decimal n with
  | nil => simp [decimal, Nat.toDigits_ne_nil] at h
  | cons c digits => exact ⟨c, digits, rfl, toNat_of_mem_decimal (h ▸ List.mem_cons_self)⟩

theorem takeWhile_decimal (n : Nat) : (decimal n).takeWhile Cap.isDigit = decimal n :=
  List.takeWhile_eq_self_iff.2 fun _ hc => isDigit_of_mem_decimal hc

theorem gAsciiStrtoll_decimal {n : Nat} (h : n < 2 ^ 63) : gAsciiStrtoll (decimal n) = n := by
  obtain ⟨c, digits, heq, hlow, hhigh⟩ := decimal_cons n
  have hblank : (c == 32 || (9 ≤ c && c ≤ 13)) = false := by
    have hspace : c ≠ 32 := by rintro rfl; simp at hlow
    have hlast : ¬ c ≤ 13 := fun h => by
      have : c.toNat ≤ 13 := UInt8.le_iff_toNat_le.1 h
      omega
    simp [hspace, hlast]
  have hplus : c ≠ 43 := by rintro rfl; simp at hlow
  have hminus : c ≠ 45 := by rintro rfl; simp at hlow
  have hdrop : (decimal n).dropWhile (fun c => c == 32 || (9 ≤ c && c ≤ 13)) = decimal n := by
    rw [heq, List.dropWhile_cons, hblank]
    rfl
  have hhead : (decimal n).head? = some c := by rw [heq]; rfl
  simp only [gAsciiStrtoll, hdrop, hhead]
  simp [hplus, hminus, takeWhile_decimal, foldl_decimal]
  omega

theorem gAsciiStrtoll_minus {n : Nat} (h : n ≤ 2 ^ 63) : gAsciiStrtoll (byte '-' :: decimal n) = -n := by
  have hdrop : (byte '-' :: decimal n).dropWhile (fun c => c == 32 || (9 ≤ c && c ≤ 13)) = byte '-' :: decimal n :=
    rfl
  have hhead : (byte '-' :: decimal n).head? = some 45 := rfl
  simp only [gAsciiStrtoll, hdrop, hhead]
  simp [takeWhile_decimal, foldl_decimal]
  omega

theorem gAsciiStrtoll_percentD {n : Int} (hlo : -2 ^ 63 ≤ n) (hhi : n < 2 ^ 63) :
    gAsciiStrtoll (percentD n) = n := by
  rw [percentD]
  split
  · rw [gAsciiStrtoll_minus (by omega)]
    omega
  · rw [gAsciiStrtoll_decimal (by omega)]
    omega

theorem atoi_eq (str : Bytes) : atoi str = (gAsciiStrtoll str).bmod (2 ^ 32) := rfl

theorem atoi_percentD (n : Int32) : Int32.ofInt (atoi (percentD n.toInt)) = n := by
  have hlo := n.le_toInt
  have hhi := n.toInt_lt
  rw [atoi_eq, gAsciiStrtoll_percentD (by omega) (by omega)]
  simp

theorem strtoll_percentD (n : Int64) : Int64.ofInt (gAsciiStrtoll (percentD n.toInt)) = n := by
  rw [gAsciiStrtoll_percentD n.le_toInt n.toInt_lt, Int64.ofInt_toInt]

/-! ## Lines -/

theorem keyOf_letter (key : Key) : keyOf (byte key.letter) = some key := by
  cases key with
  | text field => cases field <;> rfl
  | _ => rfl

theorem letter_ne_newNetwork (key : Key) : byte key.letter ≠ byte 'N' := by
  cases key with
  | text field => cases field <;> decide
  | _ => decide

/-- A line under a letter of the `switch`. -/
theorem readLine_letter {buf : Bytes} {key : Key} (hprofile : (bytes "PP=").isPrefixOf buf = false)
    (hkey : keyOf (buf.headD 0) = some key) (hnew : buf.headD 0 ≠ byte 'N') (st : Loading) :
    readLine p st buf = st.update fun net => net.read p key (buf.drop 2) := by
  rw [readLine, hprofile, if_neg (by simp), hkey, if_neg hnew]

/-- A line under another letter, which changes something only if it names a network. -/
theorem readLine_other {buf : Bytes} (hprofile : (bytes "PP=").isPrefixOf buf = false)
    (hkey : keyOf (buf.headD 0) = none) (st : Loading) :
    readLine p st buf =
      if buf.headD 0 = byte 'N' then ⟨st.networkList, some (servlistNetAdd p (buf.drop 2))⟩ else st := by
  rw [readLine, hprofile, if_neg (by simp), hkey]

/-- A line `servlist_save` writes under a letter of the `switch` is read by that case alone. -/
theorem readLine_record (key : Key) (value : Bytes) (complete : List Ircnet) (net : Ircnet) :
    readLine p ⟨complete, some net⟩ (record key.letter value) = ⟨complete, some (net.read p key value)⟩ := by
  have hprofile : (bytes "PP=").isPrefixOf (record key.letter value) = false := by
    have : bytes "PP=" = [80, 80, 61] := rfl
    rw [this, record]
    simp [List.isPrefixOf, byte]
  exact readLine_letter hprofile (keyOf_letter key) (letter_ne_newNetwork key) _

/-- The profile has a key of two letters, which the password does not hide. -/
theorem readLine_profile (value : Bytes) (complete : List Ircnet) (net : Ircnet) :
    readLine p ⟨complete, some net⟩ (bytes "PP=" ++ value) =
      ⟨complete, some { net with persistProfile := some value }⟩ := by
  rw [readLine, if_pos ⟨rfl, by simp⟩]
  rfl

theorem readLine_empty (st : Loading) : readLine p st [] = st := by
  have hkey : keyOf (([] : Bytes).headD 0) = none := by decide
  rw [readLine_other rfl hkey, if_neg (by decide)]

theorem readLine_name (st : Loading) (name : Bytes) :
    readLine p st (record 'N' name) = ⟨st.networkList, some (servlistNetAdd p name)⟩ := by
  have hkey : keyOf ((record 'N' name).headD 0) = none := by
    show keyOf (byte 'N') = none
    decide
  rw [readLine_other rfl hkey]
  exact if_pos rfl

theorem readLine_version (st : Loading) : readLine p st (record 'v' PACKAGE_VERSION) = st := by
  have hkey : keyOf ((record 'v' PACKAGE_VERSION).headD 0) = none := by
    show keyOf (byte 'v') = none
    decide
  rw [readLine_other rfl hkey, if_neg (by decide)]

/-! ## A network -/

/-- Reading the lines makes `net'` of `net`, and touches no other network. -/
def Reads (p : Platform) (net : Ircnet) (lines : List Bytes) (net' : Ircnet) : Prop :=
  ∀ complete, lines.foldl (readLine p) ⟨complete, some net⟩ = ⟨complete, some net'⟩

theorem Reads.append {net net' net'' : Ircnet} {lines lines' : List Bytes} (h : Reads p net lines net')
    (h' : Reads p net' lines' net'') : Reads p net (lines ++ lines') net'' := by
  intro complete
  rw [List.foldl_append, h complete, h' complete]

theorem reads_one (key : Key) (value : Bytes) (net : Ircnet) :
    Reads p net (key.records [value]) (net.read p key value) := by
  intro complete
  rw [Key.records, List.map_singleton, List.foldl_cons, readLine_record, List.foldl_nil]

theorem reads_nil {net net' : Ircnet} (h : net' = net) : Reads p net [] net' := fun _ => by rw [h]; rfl

/-- A string that is not set stays as it was made. -/
theorem reads_text (field : TextField) (net : Ircnet) {made : Ircnet} (h : field.get made = none) :
    Reads p made (net.textRecords field) (field.put made (field.get net)) := by
  rw [Ircnet.textRecords]
  cases field.get net with
  | none => exact reads_nil (by rw [← h, TextField.put_get])
  | some value => exact reads_one (.text field) value made

theorem reads_texts {fields : List TextField} (hnodup : fields.Nodup) (net : Ircnet) {made : Ircnet}
    (h : ∀ field ∈ fields, field.get made = none) :
    Reads p made (fields.flatMap net.textRecords)
      (fields.foldl (fun made field => field.put made (field.get net)) made) := by
  induction fields generalizing made with
  | nil => exact reads_nil rfl
  | cons field fields ih =>
    obtain ⟨hfresh, hnodup⟩ := List.nodup_cons.1 hnodup
    rw [List.flatMap_cons, List.foldl_cons]
    refine (reads_text field net (h field List.mem_cons_self)).append (ih hnodup fun field' hmem => ?_)
    have hne : field' ≠ field := fun e => hfresh (e ▸ hmem)
    rw [TextField.get_put_of_ne hne]
    exact h field' (List.mem_cons_of_mem _ hmem)

theorem reads_flags (flags : UInt32) (net : Ircnet) :
    Reads p net (Key.flags.records [percentD flags.toInt32.toInt]) { net with flags := flags } := by
  have := reads_one (p := p) .flags (percentD flags.toInt32.toInt) net
  rwa [Ircnet.read, atoi_percentD, UInt32.toUInt32_toInt32] at this

theorem reads_selected (selected : Int32) (net : Ircnet) :
    Reads p net (Key.selected.records [percentD selected.toInt]) { net with selected := selected } := by
  have := reads_one (p := p) .selected (percentD selected.toInt) net
  rwa [Ircnet.read, atoi_percentD] at this

theorem reads_logintype (logintype : Int32) {net : Ircnet} (h : net.logintype = 0) :
    Reads p net (Key.logintype.records (if logintype = 0 then [] else [percentD logintype.toInt]))
      { net with logintype := logintype } := by
  split
  · next hzero =>
    exact reads_nil (by rw [hzero, ← h])
  · have := reads_one (p := p) .logintype (percentD logintype.toInt) net
    rwa [Ircnet.read, atoi_percentD] at this

theorem reads_expires (expires : Int64) {net : Ircnet} (h : net.oauthTokenExpires = 0) :
    Reads p net (Key.tokenExpires.records (if expires = 0 then [] else [percentD expires.toInt]))
      { net with oauthTokenExpires := expires } := by
  split
  · next hzero =>
    exact reads_nil (by rw [hzero, ← h])
  · have := reads_one (p := p) .tokenExpires (percentD expires.toInt) net
    rwa [Ircnet.read, strtoll_percentD] at this

theorem reads_encoding {encoding : Option Bytes} (hknown : ∀ e ∈ encoding, servlistCheckEncoding p e = true)
    {net : Ircnet} (h : net.encoding = none) :
    Reads p net (Key.encoding.records encoding.toList) { net with encoding := encoding } := by
  cases encoding with
  | none => exact reads_nil (by rw [← h])
  | some e =>
    have := reads_one (p := p) .encoding e net
    rwa [Ircnet.read, if_pos (hknown e rfl)] at this

theorem reads_profile (profile : Option Bytes) {net : Ircnet} (h : net.persistProfile = none) :
    Reads p net (profile.toList.map (bytes "PP=" ++ ·)) { net with persistProfile := profile } := by
  cases profile with
  | none => exact reads_nil (by rw [← h])
  | some value =>
    intro complete
    rw [Option.toList_some, List.map_singleton, List.foldl_cons, readLine_profile, List.foldl_nil]

/-- Entries of a list come back in their order behind those that are there. -/
theorem reads_entries {β : Type} (key : Key) (put : List β → Ircnet) (text : β → Bytes) {entries : List β}
    (h : ∀ done, ∀ entry ∈ entries, (put done).read p key (text entry) = put (done ++ [entry])) (done : List β) :
    Reads p (put done) (key.records (entries.map text)) (put (done ++ entries)) := by
  induction entries generalizing done with
  | nil => exact reads_nil (by rw [List.append_nil])
  | cons entry entries ih =>
    have hrest := ih (fun done e he => h done e (List.mem_cons_of_mem _ he)) (done ++ [entry])
    rw [List.append_assoc, List.singleton_append, ← h done entry List.mem_cons_self] at hrest
    exact (reads_one key (text entry) (put done)).append hrest

theorem reads_servers (servers : List Bytes) (net : Ircnet) :
    Reads p net (Key.server.records servers) { net with servlist := net.servlist ++ servers } := by
  have hservers : Reads p net (Key.server.records (servers.map id))
      { net with servlist := net.servlist ++ servers } :=
    reads_entries .server (fun l => { net with servlist := l }) id (fun _ _ _ => rfl) net.servlist
  rwa [List.map_id] at hservers

theorem reads_commands (commands : List Bytes) (net : Ircnet) :
    Reads p net (Key.command.records commands) { net with commandlist := net.commandlist ++ commands } := by
  have hcommands : Reads p net (Key.command.records (commands.map id))
      { net with commandlist := net.commandlist ++ commands } :=
    reads_entries .command (fun l => { net with commandlist := l }) id (fun _ _ _ => rfl) net.commandlist
  rwa [List.map_id] at hcommands

/-- The comma in front of the key is the first of the text. -/
theorem servlistFavchanAdd_text {favchan : Favchannel} (h : comma ∉ favchan.name) (net : Ircnet) :
    servlistFavchanAdd net favchan.text = { net with favchanlist := net.favchanlist ++ [favchan] } := by
  obtain ⟨name, key⟩ := favchan
  cases key with
  | none => simp [servlistFavchanAdd, servlistFavchanListadd, Favchannel.text, show comma ∉ name from h]
  | some key =>
    have hmem : comma ∈ name ++ [comma] ++ key := by simp
    have hpos : (name ++ [comma] ++ key).idxOf comma = name.length := by
      rw [List.append_assoc, List.idxOf_append_of_notMem h]
      simp
    have hname : (name ++ [comma] ++ key).take name.length = name := by simp
    have hkey : (name ++ [comma] ++ key).drop (name.length + 1) = key := by simp
    simp only [servlistFavchanAdd, servlistFavchanListadd, Favchannel.text, if_pos hmem, hpos, hname, hkey]

theorem reads_favchans {favchans : List Favchannel} (h : ∀ f ∈ favchans, comma ∉ f.name) (net : Ircnet) :
    Reads p net (Key.favchan.records (favchans.map Favchannel.text))
      { net with favchanlist := net.favchanlist ++ favchans } :=
  reads_entries .favchan (fun l => { net with favchanlist := l }) Favchannel.text
    (fun _ f hf => servlistFavchanAdd_text (h f hf) _) net.favchanlist

/-- The network without what the OAuth lines and the lists add. -/
def Ircnet.settings (net : Ircnet) : Ircnet where
  name := net.name
  nick := net.nick
  nick2 := net.nick2
  user := net.user
  real := net.real
  pass := net.pass
  logintype := net.logintype
  encoding := net.encoding
  selected := net.selected
  flags := net.flags
  persistProfile := net.persistProfile

theorem reads_settings {net : Ircnet} (hknown : ∀ e ∈ net.encoding, servlistCheckEncoding p e = true) :
    Reads p (servlistNetAdd p net.name)
      (TextField.credentials.flatMap net.textRecords ++
        Key.logintype.records (if net.logintype = 0 then [] else [percentD net.logintype.toInt]) ++
        Key.encoding.records net.encoding.toList ++ Key.flags.records [percentD net.flags.toInt32.toInt] ++
        Key.selected.records [percentD net.selected.toInt] ++ net.persistProfile.toList.map (bytes "PP=" ++ ·))
      net.settings := by
  have hprofile : Reads p { net.settings with persistProfile := none }
      (net.persistProfile.toList.map (bytes "PP=" ++ ·)) net.settings := reads_profile net.persistProfile rfl
  have hselected : Reads p { net.settings with persistProfile := none, selected := 0 }
      (Key.selected.records [percentD net.selected.toInt]) { net.settings with persistProfile := none } :=
    reads_selected net.selected _
  let made := servlistNetAdd p net.name
  have hflags : Reads p { net.settings with persistProfile := none, selected := 0, flags := made.flags }
      (Key.flags.records [percentD net.flags.toInt32.toInt])
      { net.settings with persistProfile := none, selected := 0 } := reads_flags net.flags _
  have hencoding : Reads p
      { net.settings with persistProfile := none, selected := 0, flags := made.flags, encoding := none }
      (Key.encoding.records net.encoding.toList)
      { net.settings with persistProfile := none, selected := 0, flags := made.flags } := reads_encoding hknown rfl
  have hlogintype : Reads p
      { net.settings with
        persistProfile := none, selected := 0, flags := made.flags, encoding := none, logintype := 0 }
      (Key.logintype.records (if net.logintype = 0 then [] else [percentD net.logintype.toInt]))
      { net.settings with persistProfile := none, selected := 0, flags := made.flags, encoding := none } :=
    reads_logintype net.logintype rfl
  have hcredentials : Reads p made (TextField.credentials.flatMap net.textRecords)
      { net.settings with
        persistProfile := none, selected := 0, flags := made.flags, encoding := none, logintype := 0 } :=
    reads_texts (by decide) net fun field _ => by cases field <;> rfl
  exact hcredentials.append hlogintype |>.append hencoding |>.append hflags |>.append hselected |>.append hprofile

theorem reads_oauth (net : Ircnet) :
    Reads p net.settings
      (TextField.oauth.flatMap net.textRecords ++
        Key.tokenExpires.records (if net.oauthTokenExpires = 0 then [] else [percentD net.oauthTokenExpires.toInt]))
      { net with servlist := [], commandlist := [], favchanlist := [] } := by
  have hputs : TextField.oauth.foldl (fun made field => field.put made (field.get net)) net.settings =
      { net with servlist := [], commandlist := [], favchanlist := [], oauthTokenExpires := 0 } := by
    simp only [TextField.oauth, List.foldl_cons, List.foldl_nil, TextField.put, TextField.get, Ircnet.settings]
  have hunset : ∀ field ∈ TextField.oauth, field.get net.settings = none := by
    intro field hfield
    cases field <;> first | rfl | exact absurd hfield (by decide)
  have htexts : Reads p net.settings (TextField.oauth.flatMap net.textRecords) _ :=
    reads_texts (by decide) net hunset
  rw [hputs] at htexts
  exact htexts.append (reads_expires net.oauthTokenExpires rfl)

theorem reads_lists {net : Ircnet} (hcomma : ∀ f ∈ net.favchanlist, comma ∉ f.name) :
    Reads p { net with servlist := [], commandlist := [], favchanlist := [] }
      (Key.server.records net.servlist ++ Key.command.records net.commandlist ++
        Key.favchan.records (net.favchanlist.map Favchannel.text)) net := by
  have hservers : Reads p { net with servlist := [], commandlist := [], favchanlist := [] }
      (Key.server.records net.servlist) { net with commandlist := [], favchanlist := [] } :=
    reads_servers net.servlist _
  have hcommands : Reads p { net with commandlist := [], favchanlist := [] }
      (Key.command.records net.commandlist) { net with favchanlist := [] } := reads_commands net.commandlist _
  have hfavchans : Reads p { net with favchanlist := [] }
      (Key.favchan.records (net.favchanlist.map Favchannel.text)) net := reads_favchans hcomma _
  exact hservers.append hcommands |>.append hfavchans

/-- The lines after the name fill in the network that the name made. -/
theorem reads_fieldLines {net : Ircnet} (hknown : ∀ e ∈ net.encoding, servlistCheckEncoding p e = true)
    (hcomma : ∀ f ∈ net.favchanlist, comma ∉ f.name) : Reads p (servlistNetAdd p net.name) net.fieldLines net := by
  have hlines := (reads_settings hknown).append (reads_oauth net) |>.append (reads_lists hcomma)
  simp only [← List.append_assoc] at hlines
  exact hlines

/-- A network of the file goes behind the others. -/
theorem foldl_lines {net : Ircnet} (hknown : ∀ e ∈ net.encoding, servlistCheckEncoding p e = true)
    (hcomma : ∀ f ∈ net.favchanlist, comma ∉ f.name) (st : Loading) :
    net.lines.foldl (readLine p) st = ⟨st.networkList, some net⟩ := by
  rw [Ircnet.lines, List.foldl_cons, readLine_name, List.foldl_append, reads_fieldLines hknown hcomma,
    List.foldl_cons, readLine_empty, List.foldl_nil]

theorem foldl_networks {nets : List Ircnet}
    (hknown : ∀ net ∈ nets, ∀ e ∈ net.encoding, servlistCheckEncoding p e = true)
    (hcomma : ∀ net ∈ nets, ∀ f ∈ net.favchanlist, comma ∉ f.name) (st : Loading) :
    ((nets.flatMap Ircnet.lines).foldl (readLine p) st).networkList = st.networkList ++ nets := by
  induction nets generalizing st with
  | nil => exact (List.append_nil _).symm
  | cons net nets ih =>
    rw [List.flatMap_cons, List.foldl_append,
      foldl_lines (hknown net List.mem_cons_self) (hcomma net List.mem_cons_self),
      ih (fun n hn => hknown n (List.mem_cons_of_mem _ hn)) (fun n hn => hcomma n (List.mem_cons_of_mem _ hn)),
      Loading.networkList, Option.toList_some, List.append_assoc, List.singleton_append]

/-! ## The strings -/

/-- A string that has no line break. -/
def Whole (v : Bytes) : Prop := newline ∉ v ∧ 0 ∉ v

instance (v : Bytes) : Decidable (Whole v) := inferInstanceAs (Decidable (newline ∉ v ∧ 0 ∉ v))

/-- No string of the network has a line break. -/
structure Ircnet.Unbroken (net : Ircnet) : Prop where
  name : Whole net.name
  text : ∀ field : TextField, ∀ v ∈ field.get net, Whole v
  encoding : ∀ v ∈ net.encoding, Whole v
  profile : ∀ v ∈ net.persistProfile, Whole v
  server : ∀ v ∈ net.servlist, Whole v
  command : ∀ v ∈ net.commandlist, Whole v
  favchan : ∀ f ∈ net.favchanlist, Whole f.name ∧ ∀ key ∈ f.key, Whole key

/-- What a line of the buffer holds beside a letter, the `=` and the newline. -/
def valueRoom : Nat := fgetsSize - 3

/-- The bytes of a favourite channel in the file: its name, or its name and its key with a comma between them. -/
def Favchannel.size (favchan : Favchannel) : Nat :=
  match favchan.key with
  | some key => favchan.name.length + 1 + key.length
  | none => favchan.name.length

/-- Every line of the network fits the buffer, and no name of a channel has a comma. -/
structure Ircnet.Fits (net : Ircnet) : Prop where
  name : net.name.length ≤ valueRoom
  text : ∀ field : TextField, ∀ v ∈ field.get net, v.length ≤ valueRoom
  encoding : ∀ v ∈ net.encoding, v.length ≤ valueRoom
  -- its key has one letter more
  profile : ∀ v ∈ net.persistProfile, v.length < valueRoom
  server : ∀ v ∈ net.servlist, v.length ≤ valueRoom
  command : ∀ v ∈ net.commandlist, v.length ≤ valueRoom
  favchan : ∀ f ∈ net.favchanlist, comma ∉ f.name ∧ f.size ≤ valueRoom

/-! ## The lines that are written -/

/-- A line that comes back as it is. -/
def Kept (line : Bytes) : Prop := Whole line ∧ line.length < fgetsSize

theorem letter_whole (key : Key) : byte key.letter ≠ newline ∧ byte key.letter ≠ 0 := by
  cases key with
  | text field => cases field <;> decide
  | _ => decide

theorem record_kept {letter : Char} (hletter : byte letter ≠ newline ∧ byte letter ≠ 0) {v : Bytes} (h : Whole v)
    (hlen : v.length ≤ valueRoom) : Kept (record letter v) := by
  have hroom : valueRoom = 2042 := rfl
  have hsize : fgetsSize = 2045 := rfl
  have heq : byte '=' ≠ newline ∧ byte '=' ≠ 0 := by decide
  refine ⟨⟨?_, ?_⟩, ?_⟩
  · simp [record, hletter.1.symm, heq.1.symm, h.1]
  · simp [record, hletter.2.symm, heq.2.symm, h.2]
  · simp only [record, List.length_cons]
    omega

theorem records_kept {key : Key} {values : List Bytes} (h : ∀ v ∈ values, Whole v)
    (hlen : ∀ v ∈ values, v.length ≤ valueRoom) : ∀ line ∈ key.records values, Kept line := by
  intro line hline
  obtain ⟨v, hv, rfl⟩ := List.mem_map.1 hline
  exact record_kept (letter_whole key) (h v hv) (hlen v hv)

theorem decimal_whole (n : Nat) : Whole (decimal n) := by
  refine ⟨fun h => ?_, fun h => ?_⟩
  · exact absurd (toNat_of_mem_decimal h).1 (by decide)
  · exact absurd (toNat_of_mem_decimal h).1 (by decide)

theorem mem_percentD {n : Int} {c : UInt8} (h : c ∈ percentD n) : c = byte '-' ∨ 48 ≤ c.toNat ∧ c.toNat ≤ 57 := by
  rw [percentD] at h
  split at h
  · rcases List.mem_cons.1 h with rfl | h
    · exact .inl rfl
    · exact .inr (toNat_of_mem_decimal h)
  · exact .inr (toNat_of_mem_decimal h)

theorem percentD_whole (n : Int) : Whole (percentD n) := by
  refine ⟨fun h => ?_, fun h => ?_⟩
  · rcases mem_percentD h with h | h <;> exact absurd h (by decide)
  · rcases mem_percentD h with h | h <;> exact absurd h (by decide)

/-- A number of 64 bits has a few digits. -/
theorem length_percentD_le {n : Int} (hlo : -2 ^ 63 ≤ n) (hhi : n < 2 ^ 63) : (percentD n).length ≤ 20 := by
  have hdigits : (decimal n.natAbs).length ≤ 19 := by
    rw [decimal, List.length_map, Nat.length_toDigits_le_iff (by decide) (by decide)]
    omega
  rw [percentD]
  split
  · rw [List.length_cons]
    omega
  · omega

theorem number_kept {key : Key} {n : Int} (hlo : -2 ^ 63 ≤ n) (hhi : n < 2 ^ 63) :
    ∀ line ∈ key.records [percentD n], Kept line := by
  have hlen := length_percentD_le hlo hhi
  have hroom : valueRoom = 2042 := rfl
  refine records_kept ?_ ?_ <;> simp only [List.mem_singleton, forall_eq]
  · exact percentD_whole n
  · omega

theorem int_kept {key : Key} (n : Int32) : ∀ line ∈ key.records [percentD n.toInt], Kept line := by
  have hlo := n.le_toInt
  have hhi := n.toInt_lt
  exact number_kept (by omega) (by omega)

theorem unless_kept {key : Key} {values : List Bytes} (unset : Prop) [Decidable unset]
    (h : ∀ line ∈ key.records values, Kept line) :
    ∀ line ∈ key.records (if unset then [] else values), Kept line := by
  split
  · exact fun line hline => absurd hline List.not_mem_nil
  · exact h

theorem Favchannel.length_text (f : Favchannel) : f.text.length = f.size := by
  obtain ⟨name, key⟩ := f
  cases key with
  | none => rfl
  | some key => rw [text, size, List.length_append, List.length_append, List.length_singleton]

theorem Favchannel.text_whole {f : Favchannel} (hname : Whole f.name) (hkey : ∀ key ∈ f.key, Whole key) :
    Whole f.text := by
  obtain ⟨name, key⟩ := f
  cases key with
  | none => exact hname
  | some key =>
    have hcomma : comma ≠ newline ∧ comma ≠ 0 := by decide
    obtain ⟨hbreak, hnul⟩ := hkey key rfl
    refine ⟨?_, ?_⟩
    · simp [text, hcomma.1.symm, hbreak, show newline ∉ name from hname.1]
    · simp [text, hcomma.2.symm, hnul, show 0 ∉ name from hname.2]

theorem textRecords_kept {net : Ircnet} (h : net.Unbroken) (hfits : net.Fits) (fields : List TextField) :
    ∀ line ∈ fields.flatMap net.textRecords, Kept line := by
  intro line hline
  obtain ⟨field, -, hmem⟩ := List.mem_flatMap.1 hline
  refine records_kept (fun v hv => h.text field v ?_) (fun v hv => hfits.text field v ?_) line hmem
  · exact Option.mem_toList.1 hv
  · exact Option.mem_toList.1 hv

theorem profile_kept {net : Ircnet} (h : net.Unbroken) (hfits : net.Fits) :
    ∀ line ∈ net.persistProfile.toList.map (bytes "PP=" ++ ·), Kept line := by
  intro line hline
  obtain ⟨v, hv, rfl⟩ := List.mem_map.1 hline
  have hroom : valueRoom = 2042 := rfl
  have hsize : fgetsSize = 2045 := rfl
  have hkey : bytes "PP=" = [80, 80, 61] := rfl
  obtain ⟨hbreak, hnul⟩ := h.profile v (Option.mem_toList.1 hv)
  have hlen := hfits.profile v (Option.mem_toList.1 hv)
  refine ⟨⟨?_, ?_⟩, ?_⟩
  · simp [hkey, newline, show (10 : UInt8) ∉ v from hbreak]
  · simp [hkey, hnul]
  · rw [List.length_append, hkey]
    simp only [List.length_cons, List.length_nil]
    omega

theorem fieldLines_kept {net : Ircnet} (h : net.Unbroken) (hfits : net.Fits) :
    ∀ line ∈ net.fieldLines, Kept line := by
  have hencoding : ∀ line ∈ Key.encoding.records net.encoding.toList, Kept line :=
    records_kept (fun v hv => h.encoding v (Option.mem_toList.1 hv))
      (fun v hv => hfits.encoding v (Option.mem_toList.1 hv))
  have hfavchans : ∀ line ∈ Key.favchan.records (net.favchanlist.map Favchannel.text), Kept line := by
    refine records_kept (fun v hv => ?_) (fun v hv => ?_) <;> obtain ⟨f, hf, rfl⟩ := List.mem_map.1 hv
    · exact Favchannel.text_whole (h.favchan f hf).1 (h.favchan f hf).2
    · rw [Favchannel.length_text]
      exact (hfits.favchan f hf).2
  have hexpires : ∀ line ∈ Key.tokenExpires.records [percentD net.oauthTokenExpires.toInt], Kept line :=
    number_kept net.oauthTokenExpires.le_toInt net.oauthTokenExpires.toInt_lt
  simp only [Ircnet.fieldLines, List.forall_mem_append, and_assoc]
  exact ⟨textRecords_kept h hfits _, unless_kept _ (int_kept _), hencoding, int_kept _, int_kept _,
    profile_kept h hfits, textRecords_kept h hfits _, unless_kept _ hexpires, records_kept h.server hfits.server,
    records_kept h.command hfits.command, hfavchans⟩

theorem nil_kept : Kept [] := ⟨⟨List.not_mem_nil, List.not_mem_nil⟩, by decide⟩

theorem lines_kept {net : Ircnet} (h : net.Unbroken) (hfits : net.Fits) : ∀ line ∈ net.lines, Kept line := by
  rw [Ircnet.lines, List.forall_mem_cons, List.forall_mem_append, List.forall_mem_singleton]
  exact ⟨record_kept (by decide) h.name hfits.name, fieldLines_kept h hfits, nil_kept⟩

/-! ## Reading the file back -/

theorem loadPiece_line {line : Bytes} (h : Whole line) (st : Loading) :
    loadPiece p st (line ++ [newline]) = readLine p st line := by
  have hnul : 0 ∉ line ++ [newline] := by
    have : (0 : UInt8) ≠ newline := by decide
    simp [h.2, this]
  rw [loadPiece, cString_eq_self hnul, if_neg (by simp), List.dropLast_concat]

theorem foldl_loadPiece {lines : List Bytes} (h : ∀ line ∈ lines, Kept line) (st : Loading) :
    (lines.map (· ++ [newline])).foldl (loadPiece p) st = lines.foldl (readLine p) st := by
  rw [List.foldl_map]
  exact List.foldl_ext _ _ _ fun st line hline => loadPiece_line (h line hline).1 st

/-- Networks whose lines fit come back. -/
theorem servlistLoad_servlistSave {nets : List Ircnet} (h : ∀ net ∈ nets, net.Unbroken)
    (hknown : ∀ net ∈ nets, ∀ e ∈ net.encoding, servlistCheckEncoding p e = true) (hfits : ∀ net ∈ nets, net.Fits) :
    servlistLoad p (servlistSave nets) = nets := by
  have hlines : ∀ line ∈ [record 'v' PACKAGE_VERSION, []] ++ nets.flatMap Ircnet.lines, Kept line := by
    rw [List.forall_mem_append, List.forall_mem_cons, List.forall_mem_singleton, List.forall_mem_flatMap]
    have hversion : Kept (record 'v' PACKAGE_VERSION) := record_kept (by decide) (by decide) (by decide)
    exact ⟨⟨hversion, nil_kept⟩, fun net hnet => lines_kept (h net hnet) (hfits net hnet)⟩
  rw [servlistLoad, servlistSave, pieces_lines fun line hline => ⟨(hlines line hline).1.1, (hlines line hline).2⟩,
    foldl_loadPiece hlines, List.foldl_append, List.foldl_cons, readLine_version, List.foldl_cons, readLine_empty,
    List.foldl_nil, foldl_networks hknown fun net hnet f hf => ((hfits net hnet).favchan f hf).1]
  rfl

/-! ## What any file can give -/

theorem Ircnet.Fits.put {net : Ircnet} (h : net.Fits) (field : TextField) {value : Bytes}
    (hv : value.length ≤ valueRoom) : (field.put net (some value)).Fits where
  name := by simpa using h.name
  text field' v hmem := by
    by_cases he : field' = field
    · subst he
      obtain rfl : value = v := by simpa using hmem
      exact hv
    · rw [TextField.get_put_of_ne he] at hmem
      exact h.text field' v hmem
  encoding := by simpa using h.encoding
  profile := by simpa using h.profile
  server := by simpa using h.server
  command := by simpa using h.command
  favchan := by simpa using h.favchan

theorem Ircnet.Fits.migrate {net : Ircnet} (h : net.Fits) {value : Bytes} (hv : value.length ≤ valueRoom)
    (login : Int32) : (net.migrate value login).Fits := by
  rw [Ircnet.migrate]
  split
  · exact { h.put .pass hv with }
  · exact h

theorem forall_mem_concat {β : Type} {P : β → Prop} {l : List β} {a : β} (h : ∀ x ∈ l, P x) (ha : P a) :
    ∀ x ∈ l ++ [a], P x :=
  List.forall_mem_append.2 ⟨h, List.forall_mem_singleton.2 ha⟩

/-- A channel is split at its first comma, so none is in its name. -/
theorem Ircnet.Fits.favchanAdd {net : Ircnet} (h : net.Fits) {channel : Bytes} (hv : channel.length ≤ valueRoom) :
    (servlistFavchanAdd net channel).Fits := by
  rw [servlistFavchanAdd]
  split
  next name key hsplit =>
    refine { h with favchan := forall_mem_concat h.favchan ?_ }
    split at hsplit
    · next hcomma =>
      obtain ⟨rfl, rfl⟩ := Prod.mk.inj hsplit
      have hpos : channel.idxOf comma < channel.length := List.idxOf_lt_length_of_mem hcomma
      refine ⟨fun hmem => ?_, ?_⟩
      · exact absurd ((List.mem_take_iff_idxOf_lt hcomma).1 hmem) (Nat.lt_irrefl _)
      · simp only [Favchannel.size, List.length_take, List.length_drop]
        omega
    · next hcomma =>
      obtain ⟨rfl, rfl⟩ := Prod.mk.inj hsplit
      exact ⟨hcomma, hv⟩

theorem Ircnet.Fits.read {net : Ircnet} (h : net.Fits) (key : Key) {value : Bytes} (hv : value.length ≤ valueRoom) :
    (net.read p key value).Fits := by
  cases key with
  | text field => exact h.put field hv
  | logintype => exact { h with }
  | encoding =>
    refine { h with encoding := fun v hmem => ?_ }
    obtain rfl := Option.some.inj hmem
    split
    · exact hv
    · decide
  | flags => exact { h with }
  | server => exact { h with server := forall_mem_concat h.server hv }
  | command => exact { h with command := forall_mem_concat h.command hv }
  | favchan => exact h.favchanAdd hv
  | selected => exact { h with }
  | tokenExpires => exact { h with }
  | saslPass => exact (h.migrate hv LOGIN_SASL).migrate hv LOGIN_NICKSERV
  | nickservPass => exact h.migrate hv LOGIN_NICKSERV

theorem servlistNetAdd_fits {name : Bytes} (h : name.length ≤ valueRoom) : (servlistNetAdd p name).Fits where
  name := h
  text field v hmem := by cases field <;> cases hmem
  encoding v hmem := by cases hmem
  profile v hmem := by cases hmem
  server v hmem := by cases hmem
  command v hmem := by cases hmem
  favchan f hmem := by cases hmem

/-- Every network of the list fits. -/
def Loading.Fits (st : Loading) : Prop := ∀ net ∈ st.networkList, net.Fits

theorem Loading.Fits.update {st : Loading} (h : st.Fits) {f : Ircnet → Ircnet}
    (hf : ∀ net, net.Fits → (f net).Fits) : (st.update f).Fits := by
  obtain ⟨complete, net⟩ := st
  cases net with
  | none => exact h
  | some net =>
    have hall := List.forall_mem_append.1 h
    exact forall_mem_concat hall.1 (hf net (hall.2 net (by simp)))

theorem Loading.Fits.readLine {st : Loading} (h : st.Fits) {buf : Bytes} (hbuf : buf.length < fgetsSize) :
    (readLine p st buf).Fits := by
  have hroom : valueRoom = 2042 := rfl
  have hsize : fgetsSize = 2045 := rfl
  have hvalue : (buf.drop 2).length ≤ valueRoom := by
    rw [List.length_drop]
    omega
  rw [Servlist.readLine]
  split
  · refine h.update fun net hnet => { hnet with profile := fun v hv => ?_ }
    obtain rfl := Option.some.inj hv
    rw [List.length_drop]
    omega
  · have hend : ∀ st : Loading, st.Fits → Loading.Fits
        (if buf.headD 0 = byte 'N' then ⟨st.networkList, some (servlistNetAdd p (buf.drop 2))⟩ else st) := by
      intro st h
      split
      · exact forall_mem_concat h (servlistNetAdd_fits hvalue)
      · exact h
    cases keyOf (buf.headD 0) with
    | none => exact hend st h
    | some key => exact hend _ (h.update fun net hnet => hnet.read key hvalue)

theorem Loading.Fits.loadPiece {st : Loading} (h : st.Fits) {piece : Bytes} (hpiece : piece.length ≤ fgetsSize) :
    (loadPiece p st piece).Fits := by
  rw [Servlist.loadPiece]
  split
  · exact h
  · next hne =>
    have hlen : (cString piece).length ≤ piece.length := (List.takeWhile_sublist _).length_le
    have hpos : 0 < (cString piece).length := List.length_pos_of_ne_nil hne
    refine h.readLine ?_
    rw [List.length_dropLast]
    omega

/-- Whatever the file holds, every network that is read from it fits. -/
theorem servlistLoad_fits (file : Bytes) : ∀ net ∈ servlistLoad p file, net.Fits := by
  have hstart : Loading.Fits ⟨[], none⟩ := fun net hnet => absurd hnet List.not_mem_nil
  refine List.foldlRecOn (pieces newline fgetsSize file) (Servlist.loadPiece p) hstart ?_
  intro st hst piece hpiece
  exact hst.loadPiece (length_le_of_mem_pieces hpiece)

/-! ## The restart -/

/-- The network list survives a restart if and only if each of its networks fits. -/
theorem restart_iff {nets : List Ircnet} (h : ∀ net ∈ nets, net.Unbroken)
    (hknown : ∀ net ∈ nets, ∀ e ∈ net.encoding, servlistCheckEncoding p e = true) :
    servlistLoad p (servlistSave nets) = nets ↔ ∀ net ∈ nets, net.Fits := by
  refine ⟨fun hload net hnet => ?_, servlistLoad_servlistSave h hknown⟩
  rw [← hload] at hnet
  exact servlistLoad_fits _ net hnet

/-- A client with OpenSSL whose iconv knows two character sets. -/
def unix : Platform := ⟨true, fun charset => charset ∈ [bytes "UTF-8", bytes "CP1252"]⟩

/-- A network with a value of each kind. -/
def pool : Ircnet where
  name := bytes "pool"
  nick := some (bytes "ann")
  pass := some (bytes "P=x")
  logintype := 14
  encoding := some (bytes "CP1252 (Western)")
  servlist := [bytes "irc.pool/6697", bytes "irc2.pool"]
  commandlist := [bytes "N=msg"]
  favchanlist := [⟨bytes "#a", some (bytes "k,ey")⟩, ⟨bytes "#b", none⟩]
  selected := -1
  flags := 0x80000001
  persistProfile := some (bytes "desk")
  oauthAccessToken := some (bytes "T=token")
  oauthTokenExpires := -5

theorem pool_unbroken : pool.Unbroken where
  name := by decide
  text field := by cases field <;> decide
  encoding := by decide
  profile := by decide
  server := by decide
  command := by decide
  favchan := by decide

theorem pool_fits : pool.Fits where
  name := by decide
  text field := by cases field <;> decide
  encoding := by decide
  profile := by decide
  server := by decide
  command := by decide
  favchan := by decide

theorem pool_survives : servlistLoad unix (servlistSave [pool, pool]) = [pool, pool] := by
  refine (restart_iff ?_ ?_).2 ?_
  · intro net hnet
    obtain rfl : net = pool := by simpa using hnet
    exact pool_unbroken
  · decide
  · intro net hnet
    obtain rfl : net = pool := by simpa using hnet
    exact pool_fits

/-- A network with a token of 2046 bytes, three more than the buffer takes. -/
def longToken : Ircnet where
  name := bytes "n"
  oauthAccessToken := some (List.replicate 2043 120 ++ bytes "N=y")

theorem longToken_unbroken : longToken.Unbroken where
  name := by decide
  text field := by cases field <;> decide +kernel
  encoding := by decide
  profile := by decide
  server := by decide
  command := by decide
  favchan := by decide

/-- The end of the token is read as the name of another network. -/
theorem token_starts_network :
    longToken.Unbroken ∧ (∀ e ∈ longToken.encoding, servlistCheckEncoding unix e = true) ∧
      (servlistLoad unix (servlistSave [longToken])).map Ircnet.name = [bytes "n", bytes "y"] ∧
      servlistLoad unix (servlistSave [longToken]) ≠ [longToken] := by
  have hnames : (servlistLoad unix (servlistSave [longToken])).map Ircnet.name = [bytes "n", bytes "y"] := by
    decide +kernel
  refine ⟨longToken_unbroken, by decide, hnames, fun h => ?_⟩
  rw [h] at hnames
  exact absurd hnames (by decide)

end PoxChat.Servlist
