import GlitchCore.Base.HostPort
import GlitchCore.Links.Share

/-!
# The xray outbound of a link

`outboundFromLink` builds the outbound of a vless, vmess, trojan or ss link. A link that asks for something xray
cannot do, but another engine can, is refused with `NotCarriedError`; a link that would run in the clear, or
without the checks it names, is refused with a plain error.
-/

namespace GlitchCore.Xray

open GoText Encoding Url HostPort Links

/-! ### Stream settings -/

inductive Transport where
  | tcp
  | websocket
  | grpc
  | httpupgrade
  | xhttp
deriving DecidableEq, Repr

structure WebSocketConfig where
  path : Text
  host : Text
deriving DecidableEq, Repr

structure SplitHTTPConfig where
  path : Text
  mode : Text
  host : Text
  extra : Text
deriving DecidableEq, Repr

structure TLSConfig where
  serverName : Text
  alpn : Option (List Text)
  fingerprint : Text
  pinnedPeerCertSha256 : Text
  verifyPeerCertByName : Text
  echConfigList : Text := []
deriving DecidableEq, Repr

structure REALITYConfig where
  serverName : Text
  publicKey : Text
  shortId : Text
  spiderX : Text
  fingerprint : Text
deriving DecidableEq, Repr

structure StreamConfig where
  network : Option Transport := none
  security : Text := []
  wsSettings : Option WebSocketConfig := none
  grpcServiceName : Option Text := none
  httpupgradeSettings : Option WebSocketConfig := none
  xhttpSettings : Option SplitHTTPConfig := none
  tlsSettings : Option TLSConfig := none
  realitySettings : Option REALITYConfig := none
  tcpKeepAliveInterval : Nat := 15
deriving DecidableEq, Repr

/-- What xray lacks. -/
inductive Gap where
  | tcpHeader (header : Text)
  | transport (network : Text)
  | alterId (n : Int)
deriving DecidableEq, Repr

inductive StreamError where
  | skipsVerification
  | security (name : Text)
deriving DecidableEq, Repr

def orElse (s fallback : Text) : Text := if s ≠ [] then s else fallback

/-- The transport part of `buildStreamSettings`. -/
def streamTransport (host : Text) (q : Values) : StreamConfig × Option Gap :=
  let network := toLower (trimSpace (q.get "type".toList))
  if network = "tcp".toList ∨ network = "raw".toList ∨ network = [] then
    let header := toLower (q.get "headerType".toList)
    ({ network := some .tcp },
      if header ≠ [] ∧ header ≠ "none".toList then some (.tcpHeader header) else none)
  else if network = "ws".toList ∨ network = "websocket".toList then
    ({ network := some .websocket
       wsSettings := some ⟨q.get "path".toList, orElse (q.get "host".toList) host⟩ }, none)
  else if network = "grpc".toList then
    ({ network := some .grpc, grpcServiceName := some (q.get "serviceName".toList) }, none)
  else if network = "httpupgrade".toList then
    ({ network := some .httpupgrade
       httpupgradeSettings := some ⟨q.get "path".toList, q.get "host".toList⟩ }, none)
  else if network = "xhttp".toList ∨ network = "splithttp".toList then
    ({ network := some .xhttp
       xhttpSettings := some
         { path := q.get "path".toList
           mode := q.get "mode".toList
           host := orElse (q.get "host".toList) host
           extra := (unescape .queryComponent (q.get "extra".toList)).getD [] } }, none)
  else ({}, some (.transport network))

def tlsConfig (host : Text) (q : Values) (stream : StreamConfig) : TLSConfig :=
  let alpn := q.get "alpn".toList
  let wsHost := (stream.wsSettings.map (·.host)).getD []
  { serverName := orElse (q.get "sni".toList) (orElse wsHost (orElse (q.get "host".toList) host))
    alpn := if alpn ≠ [] then some (split ',' alpn) else none
    fingerprint := q.get "fp".toList
    pinnedPeerCertSha256 := trimSpace (q.get "pcs".toList)
    verifyPeerCertByName := trimSpace (q.get "vcn".toList) }

def realityConfig (q : Values) : REALITYConfig where
  serverName := q.get "sni".toList
  publicKey := q.get "pbk".toList
  shortId := q.get "sid".toList
  spiderX := q.get "spx".toList
  fingerprint := q.get "fp".toList

def securityOf (q : Values) : Text := toLower (trimSpace (q.get "security".toList))

/-- The build goes on past a gap: the caller returns it only after every check of the link's safety. -/
def buildStreamSettings (host : Text) (q : Values) : Except StreamError (StreamConfig × Option Gap) :=
  let (stream, gap) := streamTransport host q
  let security := securityOf q
  if security = [] ∨ security = "none".toList then .ok (stream, gap)
  else if security = "tls".toList then
    if skipsVerification q then .error .skipsVerification
    else .ok ({ stream with security := "tls".toList, tlsSettings := some (tlsConfig host q stream) }, gap)
  else if security = "reality".toList then
    .ok ({ stream with security := "reality".toList, realitySettings := some (realityConfig q) }, gap)
  else .error (.security security)

/-! ### Outbounds -/

/-- What the builders ask of their surroundings: the resolver, and xray's reading of an address with its lists of
private addresses and names. -/
structure Net where
  lookupIPv4 : Text → Option Text
  parseAddress : Text → Option NetAddr.IP
  privateIP : NetAddr.IP → Bool
  privateDomain : Text → Bool

/-- Surroundings without a resolver, in which every address is public. -/
def publicNet : Net where
  lookupIPv4 := fun _ => none
  parseAddress := NetAddr.parseIP
  privateIP := fun _ => false
  privateDomain := fun _ => false

inductive Credentials where
  | vless (id encryption flow : Text)
  | vmess (id security : Text)
  | trojan (password : Text)
  | shadowsocks (cipher password : Text)
deriving DecidableEq, Repr

def Credentials.protocol : Credentials → Text
  | .vless .. => "vless".toList
  | .vmess .. => "vmess".toList
  | .trojan .. => "trojan".toList
  | .shadowsocks .. => "shadowsocks".toList

structure ProxyOutbound where
  tag : Text
  address : Text
  port : Nat
  credentials : Credentials
  streamSetting : StreamConfig
deriving DecidableEq, Repr

/-- The outbound, the server's host and the address it is dialled at. -/
abbrev Built := ProxyOutbound × Text × Text

inductive BuildError where
  | malformed
  | unsupportedScheme (scheme : Text)
  | incomplete (protocol : Text)
  | stream (protocol : Text) (e : StreamError)
  | encryption (e : VlessEncryption.EncryptionError)
  | inTheClear
  | vmessLink (errors : List Vmess.LinkError)
  | vmessCipher (cipher : Text)
  | vmessReality
  | vmessEch
  | ssPayload
  | ssCipher (method : Text)
  /-- `NotCarriedError`, which sends the link to another engine. -/
  | notCarried (protocol : Text) (gap : Gap)
deriving DecidableEq, Repr

def BuildError.isNotCarried : BuildError → Bool
  | .notCarried _ _ => true
  | _ => false

variable (net : Net)

def preResolveIPv4 (host : Text) : Text :=
  if (NetAddr.parseIP host).isSome then host else (net.lookupIPv4 host).getD host

def isPublicHost (host : Text) : Bool :=
  match net.parseAddress host with
  | some ip => !net.privateIP ip
  | none =>
      let name := toLower host
      !net.privateDomain (if name.getLast? = some '.' then name.dropLast else name)

/-- `requireTransportSecurity` lets the link pass. -/
def carriedSafely (address : Text) (secured : Bool) : Bool := secured || !isPublicHost net address

def usernameOf (u : URL) : Text := (u.user.map (·.username)).getD []

def outboundFromVLESS (u : URL) (tag : Text) : Except BuildError Built := do
  let userID := usernameOf u
  let host := u.hostname
  match portOf u.port with
  | none => throw (.incomplete "vless".toList)
  | some port =>
      if userID = [] ∨ host = [] then throw (.incomplete "vless".toList)
      let q := u.query
      let (stream, gap) ← (buildStreamSettings host q).mapError (.stream "vless".toList)
      let encryption ← (VlessEncryption.normalize (q.get "encryption".toList)).mapError .encryption
      let addrForDial := preResolveIPv4 net host
      if !carriedSafely net addrForDial (stream.security ≠ [] ∨ encryption ≠ VlessEncryption.noneValue) then
        throw .inTheClear
      match gap with
      | some gap => throw (.notCarried "vless".toList gap)
      | none =>
          let flow := trimSpace (q.get "flow".toList)
          return (⟨tag, addrForDial, port, .vless userID encryption flow, stream⟩, host, addrForDial)

/-- A trojan link runs over TLS whatever its `security` says, REALITY apart. -/
def trojanQuery (q : Values) : Values :=
  let s := securityOf q
  q.set "security".toList (if s ≠ "tls".toList ∧ s ≠ "reality".toList then "tls".toList else s)

def outboundFromTrojan (u : URL) (tag : Text) : Except BuildError Built := do
  let password := usernameOf u
  let host := u.hostname
  match portOf u.port with
  | none => throw (.incomplete "trojan".toList)
  | some port =>
      if password = [] ∨ host = [] then throw (.incomplete "trojan".toList)
      let (stream, gap) ← (buildStreamSettings host (trojanQuery u.query)).mapError (.stream "trojan".toList)
      match gap with
      | some gap => throw (.notCarried "trojan".toList gap)
      | none =>
          let addrForDial := preResolveIPv4 net host
          return (⟨tag, addrForDial, port, .trojan password, stream⟩, host, addrForDial)

/-! ### Shadowsocks -/

def ssCiphers : List Text :=
  ["aes-128-gcm".toList, "aead_aes_128_gcm".toList, "aes-256-gcm".toList, "aead_aes_256_gcm".toList,
   "chacha20-poly1305".toList, "aead_chacha20_poly1305".toList, "chacha20-ietf-poly1305".toList,
   "xchacha20-poly1305".toList, "aead_xchacha20_poly1305".toList, "xchacha20-ietf-poly1305".toList,
   "2022-blake3-aes-128-gcm".toList, "2022-blake3-aes-256-gcm".toList, "2022-blake3-chacha20-poly1305".toList]

/-- The length counts runes: a text with a rune past ASCII decodes in no alphabet, padded or not. -/
def padBase64 (s : Text) : Text := if s.length % 4 ≠ 0 then s ++ List.replicate (4 - s.length % 4) '=' else s

def tryDecodeBase64 (s : Text) : Option Text :=
  (base64Decode .url false s <|> base64Decode .url true (padBase64 s) <|>
    base64Decode .std true (padBase64 s)).map textOf

/-- Cipher, password, host and port text of a link whose address is written out. -/
def ssPlain (u : URL) (user : Userinfo) : Text × Text × Text × Text :=
  let (method, password) := match user.password with
    | some password => (user.username, password)
    | none =>
        match tryDecodeBase64 user.username with
        | some decoded => (cut ':' decoded).getD (decoded, [])
        | none => (user.username, [])
  (method, password, u.hostname, u.port)

/-- The same of `ss://BASE64(method:password@host:port)`. -/
def ssLegacy (u : URL) : Option (Text × Text × Text × Text) := do
  let raw := trimPrefix "ss://".toList u.string
  let raw := (raw.takeWhile (· != '#')).takeWhile (· != '?')
  let decoded ← tryDecodeBase64 raw
  let (creds, addr) ← cutLast '@' decoded
  let (method, password) ← cut ':' creds
  if method = [] then failure
  let (host, port) ← HostPort.splitHostPort addr
  return (method, password, host, port)

/-- The form the link is in: written out when there is a user and an address, and else legacy. -/
def ssRead (u : URL) : Option (Text × Text × Text × Text) :=
  match u.user with
  | some user => if u.hostname ≠ [] ∧ u.port ≠ [] then some (ssPlain u user) else ssLegacy u
  | none => ssLegacy u

def outboundFromSS (u : URL) (tag : Text) : Except BuildError Built := do
  match ssRead u with
  | none => throw .ssPayload
  | some (method, password, host, portText) =>
      match portOf portText with
      | none => throw (.incomplete "ss".toList)
      | some port =>
          if method = [] ∨ password = [] ∨ host = [] then throw (.incomplete "ss".toList)
          if toLower method ∉ ssCiphers then throw (.ssCipher method)
          return (⟨tag, host, port, .shadowsocks method password, {}⟩, host, preResolveIPv4 net host)

/-! ### VMess and the dispatch -/

def vmessCiphers : List Text := ["auto".toList, "aes-128-gcm".toList, "chacha20-poly1305".toList]

/-- `ech` given as a switch, which names neither a configuration nor where to ask for one. -/
def isEchSwitch (q : Values) : Bool := isSet (q.get "ech".toList)

def echConfigOf (q : Values) : Text :=
  let ech := trimSpace (q.get "ech".toList)
  if toLower ech = "0".toList ∨ toLower ech = "false".toList then [] else ech

def outboundFromVMess (link tag : Text) : Except BuildError Built :=
  match Vmess.parse link with
  | (l, []) => do
      if l.id = [] ∨ l.host = [] then throw (.incomplete "vmess".toList)
      let cipher := toLower l.cipher
      if cipher ∉ vmessCiphers then throw (.vmessCipher l.cipher)
      let q := l.params
      if securityOf q = "reality".toList then throw .vmessReality
      let (stream, streamGap) ← (buildStreamSettings l.host q).mapError (.stream "vmess".toList)
      let gap := if 0 < l.alterId then some (.alterId l.alterId) else streamGap
      let addrForDial := preResolveIPv4 net l.host
      if stream.tlsSettings.isSome ∧ isEchSwitch q then throw .vmessEch
      let stream := { stream with tlsSettings := stream.tlsSettings.map fun tls =>
        { tls with echConfigList := echConfigOf q } }
      match gap with
      | some gap => throw (.notCarried "vmess".toList gap)
      | none =>
          return (⟨tag, addrForDial, l.port.toNat, .vmess l.id cipher, stream⟩, l.host, addrForDial)
  | (_, errors) => .error (.vmessLink errors)

def outboundFromLink (link tag : Text) : Except BuildError Built :=
  if Vmess.isLink link then outboundFromVMess net link tag
  else match Url.parse link with
    | none => .error .malformed
    | some u =>
        if u.scheme = "vless".toList then outboundFromVLESS net u tag
        else if u.scheme = "ss".toList then outboundFromSS net u tag
        else if u.scheme = "trojan".toList then outboundFromTrojan net u tag
        else .error (.unsupportedScheme u.scheme)

end GlitchCore.Xray
