import Mathlib.Data.List.DropRight
import PoxChat.ChatHistory.Persistence
import PoxChat.Outbound.SendQueue

/-!
# Capability negotiation

Model of the CAP and SASL handlers of `inbound.c` (`inbound_cap_ls`, `inbound_cap_ack`, `inbound_cap_del`,
`inbound_cap_nak`, `inbound_sasl_authenticate`, the OAuth retry) and of the SASL numerics of
`proto-irc.c`, as built with `USE_OPENSSL` and `USE_LIBWEBSOCKETS`.

* A handler takes the text `irc_inline` hands to it, a C string: no NUL is in it.
* `calls` records, in their order, the lines sent and the calls that leave these handlers; what
  `persistence_parse_cap_value` and `persistence_send_attach` do is in `ChatHistory.Persistence`.  A line
  sent after a `disconnect` meets a closed socket.
* `Crypto` stands for GLib's base64, OpenSSL's SCRAM and the OAUTHBEARER encoder.
* `serv->network` is set, as `inbound_sasl_authenticate` reads it without a test, and so is the host name.
  The printed texts are left out.
-/

set_option autoImplicit false

namespace PoxChat.Cap

open Outbound

/-! ## Strings -/

/-- `g_strsplit (str, sep, 0)` for a separator of one byte. -/
def gStrsplit (sep : UInt8) (str : Bytes) : List Bytes := if str = [] then [] else str.splitOn sep

/-- `g_strlcat (dst, src, size)`. -/
def gStrlcat (size : Nat) (dst src : Bytes) : Bytes := dst ++ src.take (size - 1 - dst.length)

/-- `g_ascii_isspace`. -/
def gAsciiIsspace (c : UInt8) : Bool := c == 32 || (9 ≤ c && c ≤ 13 && c != 11)

/-- `g_strchomp`. -/
def gStrchomp (str : Bytes) : Bytes := str.rdropWhile gAsciiIsspace

def isDigit (c : UInt8) : Bool := 48 ≤ c && c ≤ 57

/-- `atoi`, which reads a `long` and keeps its low word. -/
def atoi (str : Bytes) : Int :=
  let str := str.dropWhile fun c => c == 32 || (9 ≤ c && c ≤ 13)
  let signed := str.head? == some 43 || str.head? == some 45
  let digits := (if signed then str.drop 1 else str).takeWhile isDigit
  let n : Nat := digits.foldl (fun n c => 10 * n + (c.toNat - 48)) 0
  let v : Int := if str.head? == some 45 then max (-n) (-2 ^ 63) else min n (2 ^ 63 - 1)
  v.bmod (2 ^ 32)

/-- `g_str_has_prefix (str, word)`, and the text after the prefix. -/
def afterPrefix (word str : Bytes) : Option Bytes :=
  if word.isPrefixOf str then some (str.drop word.length) else none

def crlf : Bytes := [13, 10]

example : gStrsplit 44 (bytes "PLAIN,EXTERNAL") = [bytes "PLAIN", bytes "EXTERNAL"] := by decide
example : atoi (bytes "6697x") = 6697 := by decide

/-! ## The server record -/

/-- `serv->loginmethod`; `unset` is `LOGIN_DEFAULT` and every number without a name. -/
inductive LoginMethod where
  | unset
  | msgNickserv
  | nickserv
  | sasl
  | pass
  | challengeauth
  | custom
  | saslExternal
  | saslScramSha1
  | saslScramSha256
  | saslScramSha512
  | saslOauthbearer
  deriving DecidableEq

inductive Mech where
  | plain
  | external
  | scramSha1
  | scramSha256
  | scramSha512
  | oauthbearer
  deriving DecidableEq

/-- `sasl_mechanisms`. -/
def Mech.name : Mech → Bytes
  | .plain => bytes "PLAIN"
  | .external => bytes "EXTERNAL"
  | .scramSha1 => bytes "SCRAM-SHA-1"
  | .scramSha256 => bytes "SCRAM-SHA-256"
  | .scramSha512 => bytes "SCRAM-SHA-512"
  | .oauthbearer => bytes "OAUTHBEARER"

/-- The mechanism a login method is bound to, if it is. -/
def LoginMethod.mech? : LoginMethod → Option Mech
  | .saslExternal => some .external
  | .saslScramSha1 => some .scramSha1
  | .saslScramSha256 => some .scramSha256
  | .saslScramSha512 => some .scramSha512
  | .saslOauthbearer => some .oauthbearer
  | _ => none

/-- The `have_` bits that `inbound_toggle_caps` sets. -/
inductive CapFlag where
  | idmsg
  | namesx
  | accnotify
  | extjoin
  | uhnames
  | serverTime
  | awaynotify
  | accountTag
  | batch
  | messageTags
  | echoMessage
  | labeledResponse
  | chathistory
  | multiline
  | eventPlayback
  | readMarker
  | redact
  | accountRegistration
  | metadata
  | channelRename
  | operTag
  | preAway
  | persistence
  | extendedIsupport
  | sasl
  deriving DecidableEq

/-- The lines of these handlers; `saslPayload` is one buffer of AUTHENTICATE lines. -/
inductive Line where
  | capLs
  | pass (password : Bytes)
  | nickUser
  | capReq (line : Bytes)
  | capEnd
  | isupport
  | authenticate (arg : Bytes)
  | saslPayload (buf : Bytes)
  deriving DecidableEq

inductive Call where
  | send (line : Line)
  | stsPolicyAdd (port duration : Int)
  | persistenceParseCapValue (value : Bytes)
  | persistenceSendAttach
  | disconnect
  | connect (ssl : Bool) (port : Int)
  deriving DecidableEq

inductive ScramStatus where
  | inProgress
  | success
  | error
  deriving DecidableEq

structure Crypto where
  /-- A `scram_session`. -/
  Scram : Type
  base64Encode : Bytes → Bytes
  base64Decode : Bytes → Bytes
  scramSessionCreate : (digest user password : Bytes) → Option Scram
  /-- `scram_process`: the session after it, its status and its output. -/
  scramProcess : Scram → Bytes → Scram × ScramStatus × Bytes
  oauthEncodeSaslOauthbearer : (token servername : Bytes) → (port : Int) → Option Bytes

structure Server (crypto : Crypto) where
  /-- `serv->ssl != NULL`: the connection is encrypted. -/
  ssl : Bool := false
  useSsl : Bool := false
  acceptInvalidCert : Bool := false
  port : Int := 6667
  servername : Bytes := []
  loginmethod : LoginMethod := .unset
  password : Bytes := []
  /-- The network's user name, or the one of the preferences. -/
  user : Bytes := []
  saslMech : Mech := .plain
  waitingOnCap : Bool := false
  waitingOnSasl : Bool := false
  sentCapend : Bool := false
  stsUpgradePort : Int := 0
  flags : CapFlag → Bool := fun _ => false
  chathistoryBetweenUnsupported : Bool := false
  chathistorySuppressed : Bool := false
  chathistoryFailStreak : Nat := 0
  accregBeforeConnect : Bool := false
  accregEmailRequired : Bool := false
  accregCustomAccount : Bool := false
  accregMaxPasswordLen : Int := 0
  accregMinPasswordLen : Int := 0
  multilineMaxBytes : Int := 0
  multilineMaxLines : Int := 0
  scramSession : Option crypto.Scram := none
  oauthAccessToken : Bytes := []
  oauthTokenExpires : Int := 0
  oauthRefreshAttempted : Bool := false
  calls : List Call := []

variable {crypto : Crypto}

namespace Server

def call (s : Server crypto) (c : Call) : Server crypto := { s with calls := s.calls ++ [c] }

def send (s : Server crypto) (line : Line) : Server crypto := s.call (.send line)

def setFlag (s : Server crypto) (flag : CapFlag) (enable : Bool) : Server crypto :=
  { s with flags := fun f => if f = flag then enable else s.flags f }

end Server

/-! ## Connecting -/

/-- The bits that `server_set_defaults` clears. -/
def defaultFlags : List CapFlag :=
  [.namesx, .awaynotify, .uhnames, .idmsg, .accnotify, .extjoin, .accountTag, .serverTime, .sasl]

def serverSetDefaults (s : Server crypto) : Server crypto :=
  { s with
    saslMech := .plain
    sentCapend := false
    flags := fun f => if f ∈ defaultFlags then false else s.flags f
    scramSession := none
    oauthRefreshAttempted := false }

/-- `server_disconnect`, of which the encryption is seen here. -/
def serverDisconnect (s : Server crypto) : Server crypto := { s.call .disconnect with ssl := false }

/-- `server_connect` after `use_ssl` has been set. -/
def serverConnect (s : Server crypto) (port : Int) : Server crypto :=
  let port := if port < 1 ∨ port > 65535 then if s.useSsl then 6697 else 6667 else port
  { serverSetDefaults (s.call (.connect s.useSsl port)) with port := port }

/-- `irc_login`, on a connection that has just been made. -/
def ircLogin (s : Server crypto) : Server crypto :=
  let s := ({ s with calls := [] } : Server crypto).send .capLs
  let s := { s with sentCapend := false }
  let s := if s.password ≠ [] ∧ s.loginmethod = .pass then s.send (.pass s.password) else s
  s.send .nickUser

/-- The reconnect with TLS that an STS policy asks for. -/
def stsUpgrade (s : Server crypto) : Server crypto :=
  let stsPort := s.stsUpgradePort
  let s := { s with
    stsUpgradePort := 0
    sentCapend := true
    useSsl := true
    acceptInvalidCert := false
    port := stsPort }
  serverConnect (serverDisconnect s) stsPort

/-- The end of the negotiation, in `inbound_cap_ls` and in `inbound_cap_nak`. -/
def finishCap (s : Server crypto) : Server crypto :=
  if s.stsUpgradePort > 0 then stsUpgrade s
  else { s with sentCapend := true }.send .capEnd

/-! ## CAP LS and CAP NEW -/

def supportedCaps : List Bytes :=
  ["multi-prefix", "away-notify", "account-notify", "extended-join", "server-time", "userhost-in-names",
    "cap-notify", "chghost", "setname", "invite-notify", "account-tag", "extended-monitor", "batch",
    "message-tags", "echo-message", "labeled-response", "draft/chathistory", "draft/multiline",
    "draft/event-playback", "draft/read-marker", "draft/message-redaction", "draft/account-registration",
    "draft/metadata-2", "draft/channel-rename", "draft/pre-away", "draft/oper-tag", "draft/persistence",
    "znc.in/server-time-iso", "znc.in/server-time", "twitch.tv/membership", "solanum.chat/identify-msg",
    "draft/extended-isupport"].map bytes

/-- `persistence_is_bare_name`. -/
def persistenceIsBareName (name : Bytes) : Bool :=
  ChatHistory.persistenceIsBareName (String.ofList (name.map fun c => Char.ofNat c.toNat))

/-- The name of an advertised capability. -/
def capName (extension : Bytes) : Bytes := extension.takeWhile (· ≠ 61)

/-- The value of an advertised capability, if it has one. -/
def capValue (extension : Bytes) : Option Bytes :=
  if 61 ∈ extension then some ((extension.dropWhile (· ≠ 61)).drop 1) else none

/-- SASL is what the user logs in with. -/
def Server.saslLogin (s : Server crypto) : Bool :=
  match s.loginmethod with
  | .sasl | .saslScramSha1 | .saslScramSha256 | .saslScramSha512 => s.password ≠ []
  | .saslExternal | .saslOauthbearer => true
  | _ => false

/-- `get_supported_mech`, with `none` for `-1`. -/
def getSupportedMech (s : Server crypto) (list : Bytes) : Option Mech :=
  let mech := s.loginmethod.mech?.getD .plain
  if mech.name ∈ gStrsplit 44 list then some mech else none

/-- The port and the duration of an `sts` value. -/
def stsTokens (value : Bytes) : Int × Int :=
  (gStrsplit 44 value).foldl (fun found token =>
    match afterPrefix (bytes "port=") token, afterPrefix (bytes "duration=") token with
    | some rest, _ => (atoi rest, found.2)
    | none, some rest => (found.1, atoi rest)
    | none, none => found) (0, 0)

/-- The `sts` branch: the policy is stored, and on a connection in the clear an upgrade is noted. -/
def noteSts (s : Server crypto) (value : Bytes) : Server crypto :=
  let (port, duration) := stsTokens value
  if port > 0 then
    let s := s.call (.stsPolicyAdd port duration)
    if s.ssl then s else { s with stsUpgradePort := port }
  else s

def accregToken (s : Server crypto) (token : Bytes) : Server crypto :=
  if token = bytes "before-connect" then { s with accregBeforeConnect := true }
  else if token = bytes "email-required" then { s with accregEmailRequired := true }
  else if token = bytes "custom-account-name" then { s with accregCustomAccount := true }
  else match afterPrefix (bytes "max-password-length=") token,
      afterPrefix (bytes "min-password-length=") token with
    | some rest, _ => { s with accregMaxPasswordLen := atoi rest }
    | none, some rest => { s with accregMinPasswordLen := atoi rest }
    | none, none => s

def multilineToken (s : Server crypto) (token : Bytes) : Server crypto :=
  match afterPrefix (bytes "max-bytes=") token, afterPrefix (bytes "max-lines=") token with
  | some rest, _ => { s with multilineMaxBytes := atoi rest }
  | none, some rest => { s with multilineMaxLines := atoi rest }
  | none, none => s

/-- What the value of a capability that is requested all the same tells the client. -/
def noteValue (s : Server crypto) (name value : Bytes) : Server crypto :=
  let s := if name = bytes "draft/account-registration" then (gStrsplit 44 value).foldl accregToken s else s
  let s := if persistenceIsBareName name then s.call (.persistenceParseCapValue value) else s
  if name = bytes "draft/multiline" then (gStrsplit 44 value).foldl multilineToken s else s

/-- `sizeof (buffer)` of `inbound_cap_ls`. -/
def CAP_BUFFER : Nat := 500

/-- The locals of the loop of `inbound_cap_ls`. -/
structure LsScan (crypto : Crypto) where
  serv : Server crypto
  buffer : Bytes
  wantCap : Bool

namespace LsScan

def append (scan : LsScan crypto) (text : Bytes) : LsScan crypto :=
  { scan with buffer := gStrlcat CAP_BUFFER scan.buffer text }

/-- One round of the loop over `supported_caps`. -/
def supported (name : Bytes) (scan : LsScan crypto) (cap : Bytes) : LsScan crypto :=
  if name = cap then { (scan.append name).append [space] with wantCap := true } else scan

/-- The `sasl` branch. -/
def sasl (scan : LsScan crypto) (value : Option Bytes) : LsScan crypto :=
  let want (s : Server crypto) : LsScan crypto :=
    ({ scan with serv := { s with waitingOnSasl := true }, wantCap := true } : LsScan crypto).append (bytes "sasl ")
  match value with
  | none => want scan.serv
  | some list =>
    match getSupportedMech scan.serv list with
    | none => scan
    | some mech => want { scan.serv with saslMech := mech }

/-- The body of the loop of `inbound_cap_ls`. -/
def extension (scan : LsScan crypto) (ext : Bytes) : LsScan crypto :=
  let name := capName ext
  let value := capValue ext
  if name = bytes "sasl" ∧ scan.serv.saslLogin then scan.sasl value
  else match value with
    | none => supportedCaps.foldl (supported name) scan
    | some value =>
      if name = bytes "sts" then { scan with serv := noteSts scan.serv value }
      else supportedCaps.foldl (supported name) { scan with serv := noteValue scan.serv name value }

end LsScan

/-- The text announces another line: `* ` before the list. -/
def continues (str : Bytes) : Bool := [42, 32].isPrefixOf str

/-- The list of a CAP LS line. -/
def capList (str : Bytes) : Bytes :=
  if continues str then
    let list := str.drop 2
    if list.head? = some 58 then list.drop 1 else list
  else str

/-- The loop of `inbound_cap_ls`, from the start of its buffer. -/
def scanLs (s : Server crypto) (str : Bytes) : LsScan crypto :=
  (gStrsplit 32 (capList str)).foldl LsScan.extension
    { serv := { s with waitingOnCap := continues str }, buffer := bytes "CAP REQ :", wantCap := false }

/-- `inbound_cap_ls`. -/
def inboundCapLs (s : Server crypto) (str : Bytes) : Server crypto :=
  let scan := scanLs s str
  let s := if scan.wantCap then scan.serv.send (.capReq (gStrchomp scan.buffer ++ crlf)) else scan.serv
  if !s.waitingOnSasl && !s.waitingOnCap then finishCap s else s

/-! ## CAP NAK, CAP ACK and CAP DEL -/

/-- `inbound_cap_nak`. -/
def inboundCapNak (s : Server crypto) (str : Bytes) : Server crypto :=
  let s := if bytes "sasl" ∈ gStrsplit 32 str then { s with waitingOnSasl := false } else s
  if !s.waitingOnCap && !s.waitingOnSasl && !s.sentCapend then finishCap s else s

/-- The bit of a capability that has nothing but its bit. -/
def capFlags : List (Bytes × CapFlag) :=
  [("solanum.chat/identify-msg", .idmsg), ("multi-prefix", .namesx), ("account-notify", .accnotify),
    ("extended-join", .extjoin), ("userhost-in-names", .uhnames), ("server-time", .serverTime),
    ("znc.in/server-time", .serverTime), ("znc.in/server-time-iso", .serverTime),
    ("away-notify", .awaynotify), ("account-tag", .accountTag), ("batch", .batch),
    ("message-tags", .messageTags), ("echo-message", .echoMessage), ("labeled-response", .labeledResponse),
    ("draft/multiline", .multiline), ("draft/event-playback", .eventPlayback),
    ("draft/read-marker", .readMarker), ("draft/message-redaction", .redact),
    ("draft/account-registration", .accountRegistration), ("draft/metadata-2", .metadata),
    ("draft/channel-rename", .channelRename), ("draft/oper-tag", .operTag),
    ("draft/pre-away", CapFlag.preAway)].map fun e => (bytes e.1, e.2)

/-- One extension of `inbound_toggle_caps`. -/
def toggleCap (enable : Bool) (s : Server crypto) (extension : Bytes) : Server crypto :=
  match capFlags.lookup extension with
  | some flag => s.setFlag flag enable
  | none =>
    if extension = bytes "draft/chathistory" then
      let s := s.setFlag .chathistory enable
      if enable then
        { s with
          chathistoryBetweenUnsupported := false
          chathistorySuppressed := false
          chathistoryFailStreak := 0 }
      else s
    else if persistenceIsBareName extension then s.setFlag .persistence enable
    else if extension = bytes "draft/extended-isupport" then
      let s := s.setFlag .extendedIsupport enable
      if enable then s.send .isupport else s
    else if extension = bytes "sasl" then
      let s := s.setFlag .sasl enable
      if enable then
        let s := { s with saslMech := s.loginmethod.mech?.getD s.saslMech }
        s.send (.authenticate s.saslMech.name)
      else s
    else s

/-- `inbound_toggle_caps`. -/
def inboundToggleCaps (s : Server crypto) (str : Bytes) (enable : Bool) : Server crypto :=
  (gStrsplit 32 str).foldl (toggleCap enable) s

/-- `inbound_cap_ack`. -/
def inboundCapAck (s : Server crypto) (str : Bytes) : Server crypto := inboundToggleCaps s str true

/-- `inbound_cap_del`. -/
def inboundCapDel (s : Server crypto) (str : Bytes) : Server crypto := inboundToggleCaps s str false

/-! ## AUTHENTICATE -/

def SASL_CHUNK : Nat := 400

/-- The loop of `sasl_send_authenticate`; `fuel` bounds its rounds by the length of the text. -/
def saslChunks : Nat → Bytes → Bytes
  | 0, _ => []
  | _, [] => []
  | fuel + 1, encoded => bytes "AUTHENTICATE " ++ encoded.take SASL_CHUNK ++ crlf ++
      saslChunks fuel (encoded.drop SASL_CHUNK)

/-- `sasl_send_authenticate`. -/
def saslSendAuthenticate (s : Server crypto) (encoded : Bytes) : Server crypto :=
  s.send (.saslPayload (saslChunks encoded.length encoded ++
    if encoded.length % SASL_CHUNK = 0 then bytes "AUTHENTICATE +" ++ crlf else []))

/-- `encode_sasl_pass_plain`. -/
def encodeSaslPassPlain (crypto : Crypto) (user password : Bytes) : Bytes :=
  crypto.base64Encode (user ++ [0] ++ user ++ [0] ++ password)

/-- `scram_authenticate` on a session. -/
def scramContinue (s : Server crypto) (session : crypto.Scram) (data : Bytes) : Server crypto :=
  match crypto.scramProcess session (crypto.base64Decode data) with
  | (session, .inProgress, output) =>
    { s with scramSession := some session }.send (.authenticate (crypto.base64Encode output))
  | (_, .success, _) => { s.send (.authenticate (bytes "+")) with scramSession := none }
  | (_, .error, _) => { s.send (.authenticate (bytes "*")) with scramSession := none }

/-- `scram_authenticate`. -/
def scramAuthenticate (s : Server crypto) (data digest : Bytes) : Server crypto :=
  match s.scramSession.or (crypto.scramSessionCreate digest s.user s.password) with
  | none => s.send (.authenticate (bytes "*"))
  | some session => scramContinue s session data

/-- The OAUTHBEARER branch of `inbound_sasl_authenticate`. -/
def oauthAuthenticate (s : Server crypto) (now : Int) : Server crypto :=
  if s.oauthAccessToken = [] then s.send (.authenticate (bytes "*"))
  else if s.oauthTokenExpires > 0 ∧ now ≥ s.oauthTokenExpires then s.send (.authenticate (bytes "*"))
  else match crypto.oauthEncodeSaslOauthbearer s.oauthAccessToken s.servername s.port with
    | none => s.send (.authenticate (bytes "*"))
    | some encoded => saslSendAuthenticate s encoded

/-- `inbound_sasl_authenticate`; a list of mechanisms is ignored. -/
def inboundSaslAuthenticate (s : Server crypto) (data : Bytes) (now : Int) : Server crypto :=
  if 44 ∈ data then s
  else match s.saslMech with
    | .plain => saslSendAuthenticate s (encodeSaslPassPlain crypto s.user s.password)
    | .external => s.send (.authenticate (bytes "+"))
    | .scramSha1 => scramAuthenticate s data (bytes "SHA1")
    | .scramSha256 => scramAuthenticate s data (bytes "SHA256")
    | .scramSha512 => scramAuthenticate s data (bytes "SHA512")
    | .oauthbearer => oauthAuthenticate s now

/-! ## The end of SASL -/

/-- `inbound_sasl_error`. -/
def inboundSaslError (s : Server crypto) : Server crypto :=
  { s with scramSession := none }.send (.authenticate (bytes "*"))

/-- SASL is over: CAP END, where it has not been sent. -/
def saslDone (s : Server crypto) : Server crypto :=
  let s := { s with waitingOnSasl := false }
  if s.sentCapend then s else { s with sentCapend := true }.send .capEnd

/-- What `oauth_sasl_retry_cb` is called with: an error, or a token. -/
inductive Refresh where
  | failed
  | token (access : Bytes) (expires : Int)

/-- `oauth_sasl_retry_cb`. -/
def oauthSaslRetryCb (s : Server crypto) (now : Int) : Refresh → Server crypto
  | .failed => saslDone (inboundSaslError s)
  | .token access expires =>
    inboundSaslAuthenticate { s with oauthAccessToken := access, oauthTokenExpires := expires } (bytes "+") now

/-- `inbound_sasl_oauth_refresh`; an `oauth_refresh_token` that cannot start calls back at once. -/
def inboundSaslOauthRefresh (s : Server crypto) (starts : Bool) (now : Int) : Server crypto × Bool :=
  if s.oauthRefreshAttempted then (s, false)
  else
    let s := { s with oauthRefreshAttempted := true }
    if starts then (s, true) else (oauthSaslRetryCb s now .failed, false)

inductive SaslNumeric where
  | n903
  | n904
  | n905
  | n906
  | n907
  deriving DecidableEq

/-- The cases that 904 falls through to. -/
def saslResult (s : Server crypto) (n : SaslNumeric) : Server crypto :=
  let s := { s with waitingOnSasl := false }
  if s.sentCapend then s
  else
    let s := if n = .n903 then s.call .persistenceSendAttach else s
    { s with sentCapend := true }.send .capEnd

/-- The SASL numerics of `process_numeric`. -/
def processSaslNumeric (s : Server crypto) (n : SaslNumeric) (starts : Bool) (now : Int) : Server crypto :=
  if n = .n904 then
    if s.saslMech = .oauthbearer then
      let (s, started) := inboundSaslOauthRefresh s starts now
      if started then s else saslResult (inboundSaslError s) n
    else saslResult (inboundSaslError s) n
  else saslResult s n

/-! ## Runs -/

inductive Event where
  | capLs (str : Bytes)
  | capNew (str : Bytes)
  | capAck (str : Bytes)
  | capNak (str : Bytes)
  | capDel (str : Bytes)
  | authenticate (data : Bytes) (now : Int)
  | saslNumeric (n : SaslNumeric) (starts : Bool) (now : Int)
  | oauthRefreshed (refresh : Refresh) (now : Int)

def step (s : Server crypto) : Event → Server crypto
  | .capLs str => inboundCapLs s str
  | .capNew str => inboundCapLs s str
  | .capAck str => inboundCapAck s str
  | .capNak str => inboundCapNak s str
  | .capDel str => inboundCapDel s str
  | .authenticate data now => inboundSaslAuthenticate s data now
  | .saslNumeric n starts now => processSaslNumeric s n starts now
  | .oauthRefreshed refresh now => oauthSaslRetryCb s now refresh

/-- The list that a CAP LS or CAP NEW line carries. -/
def Event.advertises? : Event → Option Bytes
  | .capLs str => some str
  | .capNew str => some str
  | _ => none

end PoxChat.Cap
