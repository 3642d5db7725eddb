import PoxChat.Cap.Negotiation
import PoxChat.Lib.LineBuffer
import PoxChat.Outbound.TypedOrder

/-!
# The network list and its file

`servlist_save` and `servlist_load` of `servlist.c`, over the bytes of `servlist.conf`.

* `Ircnet` — a network.  The strings are the bytes before their terminator; `none` is NULL.
* `TextField` — the fields that are one string under one letter, written where they are set and read as they stand.
* `Key` — every letter the `switch` of `servlist_load` knows.
* `Loading` — the network list while the file is read, with the network `net` points to kept apart.

The file itself opens and takes what is written.
-/

set_option autoImplicit false

namespace PoxChat.Servlist

open Lib Outbound Cap

/-! ## Networks -/

structure Favchannel where
  name : Bytes
  key : Option Bytes

structure Ircnet where
  name : Bytes
  nick : Option Bytes := none
  nick2 : Option Bytes := none
  user : Option Bytes := none
  real : Option Bytes := none
  pass : Option Bytes := none
  logintype : Int32 := 0
  encoding : Option Bytes := none
  servlist : List Bytes := []
  commandlist : List Bytes := []
  favchanlist : List Favchannel := []
  selected : Int32 := 0
  flags : UInt32 := 0
  persistProfile : Option Bytes := none
  oauthAuthorizationUrl : Option Bytes := none
  oauthTokenUrl : Option Bytes := none
  oauthClientId : Option Bytes := none
  oauthClientSecret : Option Bytes := none
  oauthScopes : Option Bytes := none
  oauthAccessToken : Option Bytes := none
  oauthRefreshToken : Option Bytes := none
  /-- A `time_t`. -/
  oauthTokenExpires : Int64 := 0

def FLAG_CYCLE : UInt32 := 1
def FLAG_USE_GLOBAL : UInt32 := 2
def FLAG_USE_SSL : UInt32 := 4
def FLAG_USE_PROXY : UInt32 := 16

def LOGIN_NICKSERV : Int32 := 2
def LOGIN_SASL : Int32 := 6

/-- How the client was built, and the character sets of its iconv. -/
structure Platform where
  useOpenssl : Bool
  /-- `g_iconv_open (charset, "UTF-8")` succeeds. -/
  iconvOpen : Bytes → Bool

/-- `servlist_net_add`: the network it makes. -/
def servlistNetAdd (p : Platform) (name : Bytes) : Ircnet :=
  { name, flags := FLAG_CYCLE ||| FLAG_USE_GLOBAL ||| FLAG_USE_PROXY ||| if p.useOpenssl then FLAG_USE_SSL else 0 }

/-- `servlist_server_add`. -/
def servlistServerAdd (net : Ircnet) (name : Bytes) : Ircnet := { net with servlist := net.servlist ++ [name] }

/-- `servlist_command_add`. -/
def servlistCommandAdd (net : Ircnet) (cmd : Bytes) : Ircnet := { net with commandlist := net.commandlist ++ [cmd] }

/-- `servlist_favchan_listadd`. -/
def servlistFavchanListadd (chanlist : List Favchannel) (channel : Bytes) (key : Option Bytes) : List Favchannel :=
  chanlist ++ [⟨channel, key⟩]

def comma : UInt8 := 44

/-- `servlist_favchan_add`: the first comma ends the name. -/
def servlistFavchanAdd (net : Ircnet) (channel : Bytes) : Ircnet :=
  let (name, key) :=
    if comma ∈ channel then
      let pos := channel.idxOf comma
      (channel.take pos, some (channel.drop (pos + 1)))
    else (channel, none)
  { net with favchanlist := servlistFavchanListadd net.favchanlist name key }

/-- `servlist_check_encoding`: what follows a space is not part of the name. -/
def servlistCheckEncoding (p : Platform) (charset : Bytes) : Bool := p.iconvOpen (charset.takeWhile (· ≠ space))

/-! ## Keys -/

/-- The fields of one string. -/
inductive TextField where
  | nick | nick2 | user | real | pass
  | oauthAuthorizationUrl | oauthTokenUrl | oauthClientId | oauthClientSecret | oauthScopes
  | oauthAccessToken | oauthRefreshToken
  deriving DecidableEq

namespace TextField

def letter : TextField → Char
  | nick => 'I'
  | nick2 => 'i'
  | user => 'U'
  | real => 'R'
  | pass => 'P'
  | oauthAuthorizationUrl => 'a'
  | oauthTokenUrl => 't'
  | oauthClientId => 'c'
  | oauthClientSecret => 's'
  | oauthScopes => 'o'
  | oauthAccessToken => 'T'
  | oauthRefreshToken => 'r'

def get (net : Ircnet) : TextField → Option Bytes
  | nick => net.nick
  | nick2 => net.nick2
  | user => net.user
  | real => net.real
  | pass => net.pass
  | oauthAuthorizationUrl => net.oauthAuthorizationUrl
  | oauthTokenUrl => net.oauthTokenUrl
  | oauthClientId => net.oauthClientId
  | oauthClientSecret => net.oauthClientSecret
  | oauthScopes => net.oauthScopes
  | oauthAccessToken => net.oauthAccessToken
  | oauthRefreshToken => net.oauthRefreshToken

def put (net : Ircnet) (value : Option Bytes) : TextField → Ircnet
  | nick => { net with nick := value }
  | nick2 => { net with nick2 := value }
  | user => { net with user := value }
  | real => { net with real := value }
  | pass => { net with pass := value }
  | oauthAuthorizationUrl => { net with oauthAuthorizationUrl := value }
  | oauthTokenUrl => { net with oauthTokenUrl := value }
  | oauthClientId => { net with oauthClientId := value }
  | oauthClientSecret => { net with oauthClientSecret := value }
  | oauthScopes => { net with oauthScopes := value }
  | oauthAccessToken => { net with oauthAccessToken := value }
  | oauthRefreshToken => { net with oauthRefreshToken := value }

section Put

variable (field : TextField) (net : Ircnet) (value : Option Bytes)

@[simp] theorem get_put : field.get (field.put net value) = value := by cases field <;> rfl

@[simp] theorem put_get : field.put net (field.get net) = net := by cases field <;> rfl

@[simp] theorem put_name : (field.put net value).name = net.name := by cases field <;> rfl

@[simp] theorem put_encoding : (field.put net value).encoding = net.encoding := by cases field <;> rfl

@[simp] theorem put_persistProfile : (field.put net value).persistProfile = net.persistProfile := by
  cases field <;> rfl

@[simp] theorem put_servlist : (field.put net value).servlist = net.servlist := by cases field <;> rfl

@[simp] theorem put_commandlist : (field.put net value).commandlist = net.commandlist := by cases field <;> rfl

@[simp] theorem put_favchanlist : (field.put net value).favchanlist = net.favchanlist := by cases field <;> rfl

end Put

theorem get_put_of_ne {field field' : TextField} (h : field ≠ field') (net : Ircnet) (value : Option Bytes) :
    field.get (field'.put net value) = field.get net := by
  cases field <;> cases field' <;> first | rfl | exact absurd rfl h

def credentials : List TextField := [nick, nick2, user, real, pass]

def oauth : List TextField :=
  [oauthAuthorizationUrl, oauthTokenUrl, oauthClientId, oauthClientSecret, oauthScopes, oauthAccessToken,
    oauthRefreshToken]

def all : List TextField := credentials ++ oauth

end TextField

/-- The cases of the `switch`. -/
inductive Key where
  | text (field : TextField)
  | logintype | encoding | flags | server | command | favchan | selected | tokenExpires
  /-- The passwords of 2.9.5. -/
  | saslPass | nickservPass

namespace Key

def letter : Key → Char
  | text field => field.letter
  | logintype => 'L'
  | encoding => 'E'
  | flags => 'F'
  | server => 'S'
  | command => 'C'
  | favchan => 'J'
  | selected => 'D'
  | tokenExpires => 'x'
  | saslPass => 'A'
  | nickservPass => 'B'

def all : List Key :=
  TextField.all.map text ++
    [logintype, encoding, flags, server, command, favchan, selected, tokenExpires, saslPass, nickservPass]

end Key

/-- The byte of an ASCII character. -/
def byte (c : Char) : UInt8 := c.toNat.toUInt8

/-- The case of the `switch` for a first byte. -/
def keyOf (b : UInt8) : Option Key := Key.all.find? fun k => byte k.letter = b

/-! ## Formats -/

/-- `%d` and `G_GINT64_FORMAT`. -/
def percentD (n : Int) : Bytes := if n < 0 then byte '-' :: decimal n.natAbs else decimal n.natAbs

/-- `%s = %s`. -/
def assign (var value : Bytes) : Bytes := var ++ bytes " = " ++ value

/-- `g_ascii_strtoll (str, NULL, 10)`. -/
def gAsciiStrtoll (str : Bytes) : Int :=
  let str := str.dropWhile fun c => c == 32 || (9 ≤ c && c ≤ 13)
  let signed := str.head? == some 43 || str.head? == some 45
  let digits := (if signed then str.drop 1 else str).takeWhile Cap.isDigit
  let n : Nat := digits.foldl (fun n c => 10 * n + (c.toNat - 48)) 0
  if str.head? == some 45 then max (-n) (-2 ^ 63) else min n (2 ^ 63 - 1)

/-! ## `servlist_load` -/

/-- A password of 2.9.5, if there is none yet. -/
def Ircnet.migrate (net : Ircnet) (value : Bytes) (login : Int32) : Ircnet :=
  if net.pass.isNone then
    { net with
      pass := some value
      logintype := if net.logintype = 0 then login else net.logintype }
  else net

/-- The `switch` over the first byte of a line. -/
def Ircnet.read (p : Platform) (net : Ircnet) (key : Key) (value : Bytes) : Ircnet :=
  match key with
  | .text field => field.put net (some value)
  | .logintype => { net with logintype := Int32.ofInt (atoi value) }
  | .encoding => { net with encoding := some (if servlistCheckEncoding p value then value else bytes "UTF-8") }
  | .flags => { net with flags := (Int32.ofInt (atoi value)).toUInt32 }
  | .server => servlistServerAdd net value
  | .command => servlistCommandAdd net value
  | .favchan => servlistFavchanAdd net value
  | .selected => { net with selected := Int32.ofInt (atoi value) }
  | .tokenExpires => { net with oauthTokenExpires := Int64.ofInt (gAsciiStrtoll value) }
  -- the case has no break
  | .saslPass => (net.migrate value LOGIN_SASL).migrate value LOGIN_NICKSERV
  | .nickservPass => net.migrate value LOGIN_NICKSERV

/-- The network list while the file is read: the networks that are complete, and the one `net` points to. -/
structure Loading where
  complete : List Ircnet
  net : Option Ircnet

def Loading.networkList (st : Loading) : List Ircnet := st.complete ++ st.net.toList

def Loading.update (st : Loading) (f : Ircnet → Ircnet) : Loading := { st with net := st.net.map f }

/-- A line without its last byte. -/
def readLine (p : Platform) (st : Loading) (buf : Bytes) : Loading :=
  if st.net.isSome ∧ (bytes "PP=").isPrefixOf buf then
    st.update fun net => { net with persistProfile := some (buf.drop 3) }
  else
    let st :=
      match keyOf (buf.headD 0) with
      | some key => st.update fun net => net.read p key (buf.drop 2)
      | none => st
    if buf.headD 0 = byte 'N' then ⟨st.networkList, some (servlistNetAdd p (buf.drop 2))⟩ else st

/-- One round of the loop of `servlist_load`.  The last byte goes without a look at what it is. -/
def loadPiece (p : Platform) (st : Loading) (piece : Bytes) : Loading :=
  let buf := cString piece
  if buf = [] then st else readLine p st buf.dropLast

def newline : UInt8 := 10

/-- `char buf[2048]`. -/
def BUF_SIZE : Nat := 2048

/-- What `fgets (buf, sizeof (buf) - 2, fp)` takes at most, with room for the terminator. -/
def fgetsSize : Nat := BUF_SIZE - 2 - 1

/-- `servlist_load` of a client that has no network yet. -/
def servlistLoad (p : Platform) (file : Bytes) : List Ircnet :=
  ((pieces newline fgetsSize file).foldl (loadPiece p) ⟨[], none⟩).networkList

/-! ## `servlist_save` -/

/-- A line without its newline. -/
def record (letter : Char) (value : Bytes) : Bytes := byte letter :: byte '=' :: value

def Key.records (key : Key) (values : List Bytes) : List Bytes := values.map (record key.letter)

def Ircnet.textRecords (net : Ircnet) (field : TextField) : List Bytes :=
  (Key.text field).records (field.get net).toList

def Favchannel.text (favchan : Favchannel) : Bytes :=
  match favchan.key with
  | some key => favchan.name ++ [comma] ++ key
  | none => favchan.name

/-- The lines of a network after its name. -/
def Ircnet.fieldLines (net : Ircnet) : List Bytes :=
  TextField.credentials.flatMap net.textRecords ++
  Key.logintype.records (if net.logintype = 0 then [] else [percentD net.logintype.toInt]) ++
  Key.encoding.records net.encoding.toList ++
  -- the flags are unsigned, and printed as an `int`
  Key.flags.records [percentD net.flags.toInt32.toInt] ++
  Key.selected.records [percentD net.selected.toInt] ++
  net.persistProfile.toList.map (bytes "PP=" ++ ·) ++
  TextField.oauth.flatMap net.textRecords ++
  Key.tokenExpires.records (if net.oauthTokenExpires = 0 then [] else [percentD net.oauthTokenExpires.toInt]) ++
  Key.server.records net.servlist ++
  Key.command.records net.commandlist ++
  Key.favchan.records (net.favchanlist.map Favchannel.text)

def Ircnet.lines (net : Ircnet) : List Bytes := record 'N' net.name :: (net.fieldLines ++ [[]])

/-- `PACKAGE_VERSION`. -/
def PACKAGE_VERSION : Bytes := bytes "3.0.0~alpha2"

/-- The file `servlist_save` writes. -/
def servlistSave (networkList : List Ircnet) : Bytes :=
  ([record 'v' PACKAGE_VERSION, []] ++ networkList.flatMap Ircnet.lines).flatMap (· ++ [newline])

/-- The warnings `servlist_save` shows on its way. -/
def servlistWarnings (p : Platform) (networkList : List Ircnet) : List Bytes :=
  networkList.flatMap fun net =>
    (net.encoding.toList.filter fun encoding => !servlistCheckEncoding p encoding).map fun encoding =>
      bytes "Warning: \"" ++ encoding ++
        bytes "\" character set is unknown. No conversion will be applied for network " ++ net.name ++ bytes "."

/-- A save is silent if and only if iconv knows every encoding. -/
theorem servlistWarnings_eq_nil_iff {p : Platform} {networkList : List Ircnet} :
    servlistWarnings p networkList = [] ↔
      ∀ net ∈ networkList, ∀ encoding ∈ net.encoding, servlistCheckEncoding p encoding = true := by
  simp [servlistWarnings, List.flatMap_eq_nil_iff, List.filter_eq_nil_iff]

end PoxChat.Servlist
