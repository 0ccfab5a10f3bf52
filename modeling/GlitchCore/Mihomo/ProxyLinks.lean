import GlitchCore.Awg.Readers
import GlitchCore.Mihomo.Proxy

/-!
# The other mihomo proxies, and the choice between them

`hysteria2`, `tuic` and `anytls` links and AmneziaWG configurations. A Hysteria2 link may name several ports and a
range, which a URL cannot, so its authority is rewritten with the first one before the link is parsed.
-/

namespace GlitchCore.Mihomo

open GoText Encoding Url HostPort Links

/-! ### Hysteria2 -/

def hysteria2Protocol : Text := "hysteria2".toList

/-- The text up to the first of several runes. -/
def upTo (stops : Text) (s : Text) : Text := s.takeWhile fun c => !stops.contains c

def hy2SplitHostPort (hostport : Text) : Text × Text :=
  if hostport.head? = some '[' then
    match cutText "]:".toList hostport with
    | some (front, portSpec) => (front ++ "]".toList, portSpec)
    | none => (hostport, [])
  else (cutLast ':' hostport).getD (hostport, [])

/-- The first port of a list of ports and ranges. -/
def firstOf (portSpec : Text) : Text := upTo ",-".toList portSpec

def defaultPort : Text := "443".toList

/-- The link with one port in its authority, and the ports it had. -/
def normalizeHy2Link (link : Text) : Except ProxyError (Text × Text) :=
  match cutText "://".toList link with
  | none => .error (.malformed hysteria2Protocol)
  | some (scheme, rest) =>
      let authority := upTo "?#/".toList rest
      let (userinfo, hostport) := (cutLast '@' authority).getD ([], authority)
      let (host, portSpec) := hy2SplitHostPort hostport
      if host = [] then .error (.missingHost hysteria2Protocol)
      else
        let firstPort := if firstOf portSpec = [] then defaultPort else firstOf portSpec
        let host := if ':' ∈ host ∧ host.head? ≠ some '[' then "[".toList ++ host ++ "]".toList else host
        .ok (scheme ++ "://".toList ++ (if userinfo ≠ [] then userinfo ++ "@".toList else []) ++ host ++
          ":".toList ++ firstPort ++ rest.drop authority.length, portSpec)

/-- A port as the adapter takes it, with the list where there is one. -/
def hy2Ports (portSpec : Text) : Except ProxyError (Int × Option Text) :=
  let portSpec := trimSpace portSpec
  if portSpec = [] then .ok (443, none)
  else match atoi portSpec with
    | some n => if n ≤ 0 ∨ 65535 < n then .error (.port hysteria2Protocol portSpec) else .ok (n, none)
    | none =>
        match (atoi (firstOf portSpec)).filter fun n => decide (0 < n ∧ n ≤ 65535) with
        | some n => .ok (n, some portSpec)
        | none => .error (.port hysteria2Protocol portSpec)

/-- The whole of a userinfo, a colon included. -/
def wholeUserinfo (user : Option Userinfo) : Text :=
  match user with
  | none => []
  | some ⟨username, none⟩ => username
  | some ⟨username, some password⟩ => username ++ ":".toList ++ password

def hysteria2Proxy (link name : Text) : Except ProxyError Proxy :=
  match normalizeHy2Link link with
  | .error e => .error e
  | .ok (normalized, portSpec) =>
      match Url.parse normalized with
      | none => .error (.malformed hysteria2Protocol)
      | some u =>
          if u.hostname = [] then .error (.missingHost hysteria2Protocol)
          else match hy2Ports portSpec with
            | .error e => .error e
            | .ok (port, ports) =>
                let q := u.query
                let insecure := toLower (paramOf q "insecure")
                .ok
                  { name
                    type := .hysteria2
                    server := u.hostname
                    port
                    udp := false
                    ports
                    password := some (wholeUserinfo u.user)
                    sni := given (paramOf q "sni")
                    obfs := given (paramOf q "obfs")
                    obfsPassword := if paramOf q "obfs" = [] then none else given (paramOf q "obfs-password")
                    obfsMinPacketSize := atoi (paramOf q "obfs-min-packet-size")
                    obfsMaxPacketSize := atoi (paramOf q "obfs-max-packet-size")
                    skipCertVerify := insecure = "1".toList ∨ insecure = "true".toList
                    fingerprint := given (paramOf q "pinSHA256")
                    alpn := givenList (splitCSV (paramOf q "alpn"))
                    up := given (trimSpace (paramOf q "up"))
                    down := given (trimSpace (paramOf q "down"))
                    hopInterval := given (trimSpace (paramOf q "hop-interval")) }

/-! ### TUIC and AnyTLS -/

def parseShareLink (link protocol : Text) : Except ProxyError URL :=
  match Url.parse link with
  | none => .error (.malformed protocol)
  | some u => if u.hostname = [] then .error (.missingHost protocol) else .ok u

/-- A link that names no port means 443. -/
def portOrDefault (u : URL) (protocol : Text) : Except ProxyError Int :=
  if u.port = [] then .ok 443
  else match (atoi u.port).filter fun n => decide (0 < n ∧ n ≤ 65535) with
    | some n => .ok n
    | none => .error (.port protocol u.port)

def requireTLSSecurity (q : Values) (protocol : Text) : Except ProxyError Unit :=
  let security := wordOf q "security"
  if security = [] ∨ security = "tls".toList then .ok () else .error (.security protocol security)

def tuicProtocol : Text := "tuic".toList

def tuicCongestionControls : List Text :=
  ["cubic", "new_reno", "bbr", "bbr_meta_v1", "bbr_meta_v2"].map String.toList

def tuicProxy (link name : Text) : Except ProxyError Proxy := do
  let u ← parseShareLink link tuicProtocol
  let port ← portOrDefault u tuicProtocol
  let user := (u.user.map (·.username)).getD []
  if user = [] then throw (.missingUser tuicProtocol)
  let password := u.user.bind (·.password)
  let q := u.query
  requireTLSSecurity q tuicProtocol
  let control := wordOf q "congestion_control"
  if control ≠ [] ∧ control ∉ tuicCongestionControls then throw (.congestionControl control)
  let mode := wordOf q "udp_relay_mode"
  if mode ∉ [[], "native".toList, "quic".toList] then throw (.udpRelayMode mode)
  applyCertChecks
    { name
      type := .tuic
      server := u.hostname
      port
      uuid := password.map fun _ => user
      password
      token := if password.isSome then none else some user
      sni := given (paramOf q "sni")
      disableSni := isSet (paramOf q "disable_sni")
      alpn := givenList (splitCSV (paramOf q "alpn"))
      congestionController := given control
      udpRelayMode := given mode }
    q tuicProtocol

def anytlsProtocol : Text := "anytls".toList

def anytlsProxy (link name : Text) : Except ProxyError Proxy := do
  let u ← parseShareLink link anytlsProtocol
  let port ← portOrDefault u anytlsProtocol
  let password := wholeUserinfo u.user
  if password = [] then throw (.missingUser anytlsProtocol)
  let q := u.query
  requireTLSSecurity q anytlsProtocol
  let network := wordOf q "type"
  if network ∉ [[], "tcp".toList, "raw".toList] then throw (.transport anytlsProtocol network)
  applyCertChecks
    { name
      type := .anytls
      server := u.hostname
      port
      password := some password
      sni := given (if paramOf q "sni" = [] then paramOf q "peer" else paramOf q "sni")
      clientFingerprint := given (paramOf q "fp")
      alpn := givenList (splitCSV (paramOf q "alpn")) }
    q anytlsProtocol

/-! ### AmneziaWG -/

/-- `parseINI`: the value of a key, the last one of all the sections of a name. -/
def iniValue (ini name key : Text) : Text :=
  (((Awg.entriesIn name ini).filter fun e => Awg.names key e.1).getLast?.map fun e => trimSpace e.2).getD []

def ifaceValue (ini : Text) (key : String) : Text := iniValue ini Awg.interfaceName key.toList

def peerValue (ini : Text) (key : String) : Text := iniValue ini Awg.peerName key.toList

/-- The first IPv4 and the first IPv6 address of a list, without their prefix lengths. -/
def splitWGAddresses (addr : Text) : Option Text × Option Text :=
  let ips := (splitCSV addr).map fun a => a.takeWhile (· != '/')
  let parsed := ips.filterMap fun ip => (NetAddr.parseIP (trimSpace ip)).map fun x => (ip, x.to4)
  ((parsed.find? (·.2)).map (·.1), (parsed.find? fun part => !part.2).map (·.1))

/-- A whole-number option; one that is not a number fails the configuration. -/
def awgInt (ini key : Text) : Except ProxyError (List (Text × AwgValue)) :=
  let val := iniValue ini Awg.interfaceName key
  if val = [] then .ok []
  else match atoi val with
    | some n => .ok [(key, .int n)]
    | none => .error (.awgNumber key val)

def awgText (ini key : Text) : List (Text × AwgValue) :=
  let val := iniValue ini Awg.interfaceName key
  if val = [] then [] else [(key, .text val)]

def dashes (s : Text) : Text := s.map fun c => if c = '_' then '-' else c

/-- One option of AmneziaWG 3, checked as the device reads it. -/
def awg3Option (ini : Text) (kv : Text × Text) : Except ProxyError (List (Text × AwgValue)) :=
  let val := iniValue ini Awg.interfaceName kv.1
  if val = [] then .ok []
  else match Awg.awg3Value kv.1 val with
    | .error e => .error (.awg3 (dashes kv.2) e)
    | .ok _ =>
        if kv.1 = "headerprotectionkey".toList then
          -- the check has read the key, so the empty bytes never stand here
          let key := (Awg.keyBytes val).toOption.elim [] (·.1)
          .ok [(dashes kv.2, .text (base64Encode .std true key))]
        else if kv.1 = "randomtrailers".toList ∨ kv.1 = "disablecookies".toList then
          .ok [(dashes kv.2, .bool ((Awg.parseBool val).toOption.getD false))]
        else .ok [(dashes kv.2, .text val)]

def awg15Option (ini key : Text) : Except ProxyError (List (Text × AwgValue)) :=
  if key = "itime".toList then awgInt ini key else .ok (awgText ini key)

/-- A configuration with an AmneziaWG 3 key runs on the device of that version, which refuses the keys of 1.5. -/
def amneziaOption (ini : Text) : Except ProxyError (List (Text × AwgValue)) := do
  let numbers ← (["jc", "jmin", "jmax", "s1", "s2", "s3", "s4"].map String.toList).mapM (awgInt ini)
  let texts := (["h1", "h2", "h3", "h4", "i1", "i2", "i3", "i4", "i5"].map String.toList).map (awgText ini)
  let version3 ← Awg.awg3Keys.mapM (awg3Option ini)
  let common := (numbers ++ texts).flatten
  if version3.flatten = [] then
    let version15 ← Awg.awg15Keys.mapM (awg15Option ini)
    return common ++ version15.flatten
  else match Awg.awg15Keys.find? fun key => iniValue ini Awg.interfaceName key ≠ [] with
    | some key => throw (.awgMixed key)
    | none => return common ++ version3.flatten ++ [("version".toList, .int 3)]

def positive (n : Option Int) : Option Int := n.filter fun n => decide (0 < n)

def wireguardProxy (link name : Text) : Except ProxyError Proxy :=
  match Awg.normalizeToINI link with
  | none => .error .awgLink
  | some ini =>
      match HostPort.splitHostPort (peerValue ini "endpoint") with
      | none => .error (.awgEndpoint (peerValue ini "endpoint"))
      | some (host, portText) =>
          match atoi portText with
          | none => .error (.port "awg".toList portText)
          | some port =>
              if ifaceValue ini "privatekey" = [] ∨ peerValue ini "publickey" = [] then .error .awgKeys
              else do
                let addresses := splitWGAddresses (ifaceValue ini "address")
                let keepalive := peerValue ini "persistentkeepalive"
                let option ← amneziaOption ini
                return {
                  name
                  type := .wireguard
                  server := host
                  port
                  privateKey := some (ifaceValue ini "privatekey")
                  publicKey := some (peerValue ini "publickey")
                  ip := addresses.1
                  ipv6 := addresses.2
                  preSharedKey := given (peerValue ini "presharedkey")
                  allowedIPs := some ((givenList (splitCSV (peerValue ini "allowedips"))).getD
                    ["0.0.0.0/0".toList, "::/0".toList])
                  mtu := positive (atoi (ifaceValue ini "mtu"))
                  persistentKeepalive := positive (atoi (trimSpace (keepalive.takeWhile (· != '-'))))
                  amneziaWgOption := option }

/-! ### The choice -/

def hasScheme (scheme : String) (link : Text) : Bool := (scheme ++ "://").toList.isPrefixOf (toLower link)

def proxyFromLink (link name : Text) : Except ProxyError Proxy :=
  if hasScheme "vless" link then vlessProxy link name
  else if hasScheme "ss" link then ssProxy link name
  else if hasScheme "trojan" link then trojanProxy link name
  else if hasScheme "hysteria2" link ∨ hasScheme "hy2" link then hysteria2Proxy link name
  else if hasScheme "tuic" link then tuicProxy link name
  else if hasScheme "anytls" link then anytlsProxy link name
  else if Vmess.isLink link then vmessProxy link name
  else if Awg.linkScheme.isPrefixOf (toLower link) ∨ contains link "[Interface]".toList then wireguardProxy link name
  else .error .unsupportedScheme

end GlitchCore.Mihomo
