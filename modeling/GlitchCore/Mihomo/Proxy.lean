import GlitchCore.Base.HostPort
import GlitchCore.Links.Share

/-!
# The mihomo proxies of vless, vmess, trojan and ss links

A builder turns a link into the map mihomo's adapters are made from; `Proxy` is that map, an option of each key. The
builders share how a link's TLS settings and certificate checks are read, and each refuses the transports and
security layers its adapter lacks.
-/

namespace GlitchCore.Mihomo

open GoText Encoding Url HostPort Links

inductive ProxyType where
  | vless
  | vmess
  | trojan
  | ss
  | hysteria2
  | tuic
  | anytls
  | wireguard
deriving DecidableEq, Repr

structure RealityOpts where
  publicKey : Option Text
  shortId : Option Text
deriving DecidableEq, Repr

structure WsOpts where
  path : Option Text := none
  /-- The `Host` header. -/
  host : Option Text := none
  httpUpgrade : Bool := false
  httpUpgradeFastOpen : Bool := false
  maxEarlyData : Option Int := none
  earlyDataHeaderName : Option Text := none
deriving DecidableEq, Repr

structure XhttpOpts where
  path : Option Text
  host : Option Text
  mode : Option Text
deriving DecidableEq, Repr

/-- The options of the HTTP and HTTP/2 transports. -/
structure HttpOpts where
  path : Text
  hosts : Option (List Text)
deriving DecidableEq, Repr

/-- ECH, with its configuration or a query for one. -/
structure EchOpts where
  config : Option Text
deriving DecidableEq, Repr

/-- A value of the device's options. -/
inductive AwgValue where
  | int (n : Int)
  | text (s : Text)
  | bool (b : Bool)
deriving DecidableEq, Repr

structure Proxy where
  name : Text
  type : ProxyType
  server : Text
  port : Int
  udp : Bool := true
  uuid : Option Text := none
  password : Option Text := none
  token : Option Text := none
  cipher : Option Text := none
  alterId : Option Int := none
  packetAddr : Bool := false
  xudp : Bool := false
  flow : Option Text := none
  encryption : Option Text := none
  network : Option Text := none
  wsOpts : Option WsOpts := none
  grpcServiceName : Option Text := none
  xhttpOpts : Option XhttpOpts := none
  httpOpts : Option HttpOpts := none
  h2Opts : Option HttpOpts := none
  tls : Bool := false
  servername : Option Text := none
  sni : Option Text := none
  disableSni : Bool := false
  clientFingerprint : Option Text := none
  alpn : Option (List Text) := none
  skipCertVerify : Bool := false
  fingerprint : Option Text := none
  nameCertVerify : Option Text := none
  echOpts : Option EchOpts := none
  realityOpts : Option RealityOpts := none
  ports : Option Text := none
  obfs : Option Text := none
  obfsPassword : Option Text := none
  obfsMinPacketSize : Option Int := none
  obfsMaxPacketSize : Option Int := none
  up : Option Text := none
  down : Option Text := none
  hopInterval : Option Text := none
  congestionController : Option Text := none
  udpRelayMode : Option Text := none
  privateKey : Option Text := none
  publicKey : Option Text := none
  preSharedKey : Option Text := none
  ip : Option Text := none
  ipv6 : Option Text := none
  allowedIPs : Option (List Text) := none
  mtu : Option Int := none
  persistentKeepalive : Option Int := none
  amneziaWgOption : List (Text × AwgValue) := []
deriving DecidableEq, Repr

inductive ProxyError where
  | unsupportedScheme
  | malformed (protocol : Text)
  | missingHost (protocol : Text)
  | missingUser (protocol : Text)
  | port (protocol : Text) (text : Text)
  | encryption (e : VlessEncryption.EncryptionError)
  | security (protocol : Text) (name : Text)
  | realityOver (protocol : Text) (network : Text)
  | realityKey
  | spiderPath
  | tcpHeader (protocol : Text) (header : Text)
  | transport (protocol : Text) (network : Text)
  | manyPins (protocol : Text)
  | manyNames (protocol : Text)
  | ech (protocol : Text)
  | vmessLink (errors : List Vmess.LinkError)
  | cipher (name : Text)
  | earlyData (size : Text)
  | ssAddress
  | ssUserinfo
  | ssPort (hostPort : Text)
  | congestionControl (name : Text)
  | udpRelayMode (name : Text)
  | awgLink
  | awgEndpoint (endpoint : Text)
  | awgKeys
  | awgNumber (key : Text) (val : Text)
  | awg3 (key : Text) (e : Awg.ValueError)
  | awgMixed (key : Text)
deriving DecidableEq, Repr

/-! ### What the builders share -/

/-- The value of a key that is left out where it is empty. -/
def given (s : Text) : Option Text := if s = [] then none else some s

def splitCSV (s : Text) : List Text := ((split ',' s).map trimSpace).filter (· ≠ [])

/-- The list of a key that is left out where it is empty. -/
def givenList (l : List Text) : Option (List Text) := if l = [] then none else some l

def paramOf (q : Values) (key : String) : Text := q.get key.toList

/-- A parameter whose case and surrounding space do not matter. -/
def wordOf (q : Values) (key : String) : Text := toLower (trimSpace (paramOf q key))

def splitALPN (q : Values) : Option (List Text) := (given (paramOf q "alpn")).map (split ',')

/-- `ech` as a switch or as a configuration. -/
def echOptions (v protocol : Text) : Except ProxyError (Option EchOpts) :=
  let v := trimSpace v
  if toLower v = [] ∨ toLower v = "0".toList ∨ toLower v = "false".toList then .ok none
  else if toLower v = "1".toList ∨ toLower v = "true".toList then .ok (some ⟨none⟩)
  else if (base64Decode .std true v).isNone then .error (.ech protocol)
  else .ok (some ⟨some v⟩)

def pinOf (q : Values) : Text :=
  trimSpace (if paramOf q "pcs" = [] then paramOf q "hpkp" else paramOf q "pcs")

def applyCertChecks (p : Proxy) (q : Values) (protocol : Text) : Except ProxyError Proxy :=
  let verify := trimSpace (paramOf q "vcn")
  if ',' ∈ pinOf q then .error (.manyPins protocol)
  else if ',' ∈ verify then .error (.manyNames protocol)
  else match echOptions (paramOf q "ech") protocol with
    | .error e => .error e
    | .ok ech =>
        .ok { p with
          skipCertVerify := p.skipCertVerify || skipsVerification q
          fingerprint := given (pinOf q)
          nameCertVerify := given verify
          echOpts := ech }

def applyTLS (p : Proxy) (q : Values) : Proxy :=
  { p with
    tls := true
    servername := given (paramOf q "sni")
    clientFingerprint := given (paramOf q "fp")
    alpn := splitALPN q }

def applyRealityOpts (p : Proxy) (q : Values) : Proxy :=
  { p with realityOpts := some ⟨given (paramOf q "pbk"), given (paramOf q "sid")⟩ }

/-! ### VLESS -/

def vlessProtocol : Text := "vless".toList

def applyVlessSecurity (p : Proxy) (q : Values) (network : Text) : Except ProxyError Proxy :=
  let security := wordOf q "security"
  if security = "tls".toList then applyCertChecks (applyTLS p q) q vlessProtocol
  else if security = "reality".toList then
    if network ∈ ["tcp", "raw", "grpc", "xhttp", "h2", "http"].map String.toList then
      .ok (applyRealityOpts (applyTLS p q) q)
    else .error (.realityOver vlessProtocol network)
  else if security = [] ∨ security = "none".toList then .ok p
  else .error (.security vlessProtocol security)

/-- A network the builder has no options for goes through as the link names it. -/
def applyVlessTransport (p : Proxy) (q : Values) (network : Text) : Proxy :=
  if network = "ws".toList ∨ network = "httpupgrade".toList then
    { p with
      network := some "ws".toList
      wsOpts := some
        { path := given (paramOf q "path")
          host := given (paramOf q "host")
          httpUpgrade := network = "httpupgrade".toList } }
  else if network = "grpc".toList then { p with grpcServiceName := given (paramOf q "serviceName") }
  else if network = "xhttp".toList then
    { p with xhttpOpts := some ⟨given (paramOf q "path"), given (paramOf q "host"), given (paramOf q "mode")⟩ }
  else p

def vlessNetwork (q : Values) : Text := if wordOf q "type" = [] then "tcp".toList else wordOf q "type"

def vlessProxy (link name : Text) : Except ProxyError Proxy :=
  match Url.parse link with
  | none => .error (.malformed vlessProtocol)
  | some u =>
      match atoi u.port with
      | none => .error (.port vlessProtocol u.port)
      | some port => do
          let q := u.query
          let encryption ← (VlessEncryption.normalize (paramOf q "encryption")).mapError .encryption
          let p : Proxy :=
            { name
              type := .vless
              server := u.hostname
              port
              uuid := some ((u.user.map (·.username)).getD [])
              network := some (vlessNetwork q)
              flow := given (paramOf q "flow")
              encryption := if encryption ≠ VlessEncryption.noneValue then some encryption else none }
          let p ← applyVlessSecurity p q (vlessNetwork q)
          return applyVlessTransport p q (vlessNetwork q)

/-! ### Trojan -/

def trojanProtocol : Text := "trojan".toList

/-- The adapter dials REALITY only on plain TCP and gRPC, and has no option for a spider path. -/
def applyTrojanReality (p : Proxy) (q : Values) : Except ProxyError Proxy :=
  if wordOf q "security" ≠ "reality".toList then .ok p
  else if paramOf q "pbk" = [] then .error .realityKey
  else if wordOf q "type" ∉ ["tcp".toList, "raw".toList, [], "grpc".toList] then
    .error (.realityOver trojanProtocol (wordOf q "type"))
  else if paramOf q "spx" ≠ [] then .error .spiderPath
  else .ok (applyRealityOpts p q)

def applyTrojanTransport (p : Proxy) (q : Values) : Except ProxyError Proxy :=
  let network := wordOf q "type"
  let header := wordOf q "headerType"
  if network = "tcp".toList ∨ network = "raw".toList ∨ network = [] then
    if header ≠ [] ∧ header ≠ "none".toList then .error (.tcpHeader trojanProtocol header) else .ok p
  else if network = "ws".toList ∨ network = "websocket".toList ∨ network = "httpupgrade".toList then
    .ok { p with
      network := some "ws".toList
      wsOpts := some
        { path := given (paramOf q "path")
          host := given (paramOf q "host")
          httpUpgrade := network = "httpupgrade".toList } }
  else if network = "grpc".toList then
    .ok { p with network := some "grpc".toList, grpcServiceName := some (paramOf q "serviceName") }
  else .error (.transport trojanProtocol network)

def trojanProxy (link name : Text) : Except ProxyError Proxy :=
  match Url.parse link with
  | none => .error (.malformed trojanProtocol)
  | some u =>
      match atoi u.port with
      | none => .error (.port trojanProtocol u.port)
      | some port => do
          let q := u.query
          let p : Proxy :=
            { name
              type := .trojan
              server := u.hostname
              port
              password := some ((u.user.map (·.username)).getD [])
              sni := given (paramOf q "sni")
              clientFingerprint := given (paramOf q "fp")
              alpn := splitALPN q }
          let p ← applyCertChecks p q trojanProtocol
          let p ← applyTrojanReality p q
          applyTrojanTransport p q

/-! ### VMess -/

def vmessProtocol : Text := "vmess".toList

/-- The ciphers of the VMess client. -/
def vmessCiphers : List Text :=
  ["auto", "aes-128-gcm", "chacha20-poly1305", "none", "zero", "aes-128-cfb"].map String.toList

def orSlash (path : Text) : Text := if path = [] then "/".toList else path

/-- Takes `?ed=2048` off a path: the path without it and the size, 0 for none. -/
def splitEarlyData (path : Text) : Except ProxyError (Text × Int) :=
  match Url.parse path with
  | none => .ok (path, 0)
  | some u =>
      let q := u.query
      if paramOf q "ed" = [] then .ok (path, 0)
      else match (atoi (paramOf q "ed")).filter fun n => decide (0 ≤ n) with
        | none => .error (.earlyData (paramOf q "ed"))
        | some n => .ok (URL.string { u with rawQuery := (q.del "ed".toList).encode }, n)

def vmessWsOpts (q : Values) (network path : Text) (earlyData : Int) : WsOpts :=
  let upgrade : Bool := network = "httpupgrade".toList
  let header := paramOf q "eh"
  { path := some path
    host := given (paramOf q "host")
    httpUpgrade := upgrade
    httpUpgradeFastOpen := decide (0 < earlyData) && upgrade
    maxEarlyData := if 0 < earlyData ∧ ¬upgrade then some earlyData else none
    earlyDataHeaderName :=
      if header ≠ [] ∧ network = "ws".toList then some header
      else if 0 < earlyData ∧ ¬upgrade then some "Sec-WebSocket-Protocol".toList
      else none }

def applyVmessTransport (p : Proxy) (q : Values) : Except ProxyError Proxy :=
  let network := paramOf q "type"
  let header := paramOf q "headerType"
  let http : HttpOpts := ⟨orSlash (paramOf q "path"), (given (paramOf q "host")).map splitCSV⟩
  if network = "tcp".toList then
    if header = [] ∨ header = "none".toList then .ok { p with network := some "tcp".toList }
    else if header = "http".toList then .ok { p with network := some "http".toList, httpOpts := some http }
    else .error (.tcpHeader vmessProtocol header)
  else if network = "h2".toList then .ok { p with network := some "h2".toList, h2Opts := some http }
  else if network = "ws".toList ∨ network = "httpupgrade".toList then
    (splitEarlyData (orSlash (paramOf q "path"))).map fun part =>
      { p with network := some "ws".toList, wsOpts := some (vmessWsOpts q network part.1 part.2) }
  else if network = "grpc".toList then
    .ok { p with network := some "grpc".toList, grpcServiceName := some (paramOf q "serviceName") }
  else .error (.transport vmessProtocol network)

def applyVmessSecurity (p : Proxy) (q : Values) : Except ProxyError Proxy :=
  let security := paramOf q "security"
  if security = [] ∨ security = "none".toList then .ok p
  else if security = "tls".toList then
    applyCertChecks
      { p with
        tls := true
        servername := given (paramOf q "sni")
        clientFingerprint := given (paramOf q "fp")
        alpn := givenList (splitCSV (paramOf q "alpn")) }
      q vmessProtocol
  else .error (.security vmessProtocol security)

def vmessProxy (link name : Text) : Except ProxyError Proxy :=
  match Vmess.parse link with
  | (l, []) =>
      if l.id = [] ∨ l.host = [] then .error (.missingUser vmessProtocol)
      else if toLower l.cipher ∉ vmessCiphers then .error (.cipher l.cipher)
      else do
        let q := l.params
        let packetEncoding := paramOf q "packetEncoding"
        let p : Proxy :=
          { name
            type := .vmess
            server := l.host
            port := l.port
            uuid := some l.id
            alterId := some l.alterId
            cipher := some (toLower l.cipher)
            packetAddr := packetEncoding = "packet".toList ∨ packetEncoding = "packetaddr".toList
            xudp := packetEncoding ∉ ["none", "packet", "packetaddr"].map String.toList }
        let p ← applyVmessTransport p q
        applyVmessSecurity p q
  | (_, errors) => .error (.vmessLink errors)

/-! ### Shadowsocks -/

def ssProtocol : Text := "ss".toList

def decodeBase64 (s : Text) : Option Text :=
  (base64Decode .url false s <|> base64Decode .std true s <|> base64Decode .std false s <|>
    base64Decode .url true s).map textOf

def ssScheme : Text := "ss://".toList

/-- The link without its scheme, its remark and its parameters. -/
def ssBody (link : Text) : Text := ((trimPrefix ssScheme link).takeWhile (· != '#')).takeWhile (· != '?')

/-- The text as it is where it holds the rune, and else what it decodes to. -/
def decodeUnless (c : Char) (s : Text) : Text := if c ∈ s then s else (decodeBase64 s).getD s

def ssProxy (link name : Text) : Except ProxyError Proxy :=
  match cutLast '@' (decodeUnless '@' (ssBody link)) with
  | none => .error .ssAddress
  | some (userInfo, hostPort) =>
      match cut ':' (decodeUnless ':' userInfo) with
      | none => .error .ssUserinfo
      | some (method, password) =>
          match HostPort.splitHostPort hostPort with
          | none => .error (.ssPort hostPort)
          | some (host, portText) =>
              match atoi portText with
              | none => .error (.port ssProtocol portText)
              | some port =>
                  .ok
                    { name
                      type := .ss
                      server := host
                      port
                      cipher := some method
                      password := some password }

end GlitchCore.Mihomo
