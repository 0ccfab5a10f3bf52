import GlitchCore.Base.Encoding
import GlitchCore.Base.Fields

/-!
# AmneziaWG configurations

An AmneziaWG configuration is an INI text with an interface and its peers. `parseToUAPI` reads it in one pass
over its lines, with the section it stands in as state, and writes the `set` request of the device: a line
protocol in which a `public_key` line opens the block of a peer.
-/

namespace GlitchCore.Awg

open GoText Encoding

/-! ### Links -/

/-- The base64 forms share links come in. -/
def decodeBase64Flexible (s : Text) : Option Text :=
  (base64Decode .url false (trimSpace s) <|> base64Decode .url true (trimSpace s) <|>
    base64Decode .std false (trimSpace s) <|> base64Decode .std true (trimSpace s)).map textOf

def linkScheme : Text := "awg://".toList

/-- `NormalizeToINI` up to the form of what it returns. -/
def normalizeWith {α : Type} (decode : Text → Option α) (form : Text → α) (input : Text) : Option α :=
  let s := trimSpace input
  if linkScheme.isPrefixOf s then
    let payload := s.drop linkScheme.length
    decode (payload.takeWhile (· != '#'))
  else some (form input)

/-- The configuration of an `awg://` link; any other text is a configuration already. -/
def normalizeToINI (input : Text) : Option Text := normalizeWith decodeBase64Flexible id input

/-! ### Keys -/

inductive KeyError where
  | hexLength (digits : Nat)
  | notHexNorBase64
  | byteLength (bytes : Nat)
deriving DecidableEq, Repr

/-- The 32 bytes of a WireGuard key. -/
abbrev Key := { bytes : List UInt8 // bytes.length = 32 }

/-- `KeyBytes`: hexadecimal where every rune is a hexadecimal digit and they pair up, base64 otherwise. -/
def decodeKey (s : Text) : Except KeyError (List UInt8) :=
  let s := trimPrefix "0x".toList (trimPrefix "hex:".toList (trimSpace s))
  if (s.all fun c => (unhex c).isSome) ∧ s.length % 2 = 0 then
    if s.length ≠ 64 then .error (.hexLength s.length)
    else match hexDecode s with
      | some bytes => .ok bytes
      | none => .error .notHexNorBase64
  else match (base64Decode .std true s <|> base64Decode .std false s <|> base64Decode .url false s) with
    | some bytes => if bytes.length ≠ 32 then .error (.byteLength bytes.length) else .ok bytes
    | none => .error .notHexNorBase64

def keyOfBytes (bytes : List UInt8) : Except KeyError Key :=
  if h : bytes.length = 32 then .ok ⟨bytes, h⟩ else .error (.byteLength bytes.length)

/-- The key of a text. -/
def keyBytes (s : Text) : Except KeyError Key := (decodeKey s).bind keyOfBytes

def normalizeKeyToHex (s : Text) : Except KeyError Text := (keyBytes s).map fun key => hexEncode key.1

/-! ### Values of the device -/

/-- AmneziaWG 1.5's junk packets, which the device refuses. -/
def awg15Keys : List Text := ["j1".toList, "j2".toList, "j3".toList, "itime".toList]

/-- The interface keys only AmneziaWG 3 reads, with their UAPI names. -/
def awg3Keys : List (Text × Text) :=
  [("headerprotectionkey".toList, "header_protection_key".toList),
   ("contentpaddingaddition".toList, "content_padding_addition".toList),
   ("rekeyaftertime".toList, "rekey_after_time".toList),
   ("rekeytimeout".toList, "rekey_timeout".toList),
   ("rejectaftertime".toList, "reject_after_time".toList),
   ("keepalivetimeout".toList, "keepalive_timeout".toList),
   ("maxhandshakeattempts".toList, "max_handshake_attempts".toList),
   ("randomtrailers".toList, "random_trailers".toList),
   ("disablecookies".toList, "disable_cookies".toList)]

def plainDeviceKeys : List Text :=
  ["jc".toList, "jmin".toList, "jmax".toList, "s1".toList, "s2".toList, "s3".toList, "s4".toList, "h1".toList,
   "h2".toList, "h3".toList, "h4".toList, "i1".toList, "i2".toList, "i3".toList, "i4".toList, "i5".toList]

/-- Every interface key the device reads, with its UAPI name. -/
def deviceKeys : List (Text × Text) := plainDeviceKeys.map (fun k => (k, k)) ++ awg3Keys

inductive ValueError where
  | key (e : KeyError)
  | notBool (v : Text)
  | notRange (v : Text)
deriving DecidableEq, Repr

/-- `strconv.ParseUint(s, 10, 32)`. -/
def parseUint32 (s : Text) : Option Nat := (decimal s).filter fun n => decide (n < 4294967296)

def parseBool (v : Text) : Except ValueError Bool :=
  let word := toLower (trimSpace v)
  if word = "on".toList ∨ word = "true".toList then .ok true
  else if word = "off".toList ∨ word = "false".toList then .ok false
  else match parseUint32 (trimSpace v) with
    | some n => .ok (n != 0)
    | none => .error (.notBool v)

def checkRange (v : Text) : Except ValueError Unit :=
  let (lo, hi, isRange) := match cut '-' v with
    | some (lo, hi) => (lo, hi, true)
    | none => (v, [], false)
  match parseUint32 lo with
  | none => .error (.notRange v)
  | some low =>
      if isRange then
        match parseUint32 hi with
        | none => .error (.notRange v)
        | some high => if high < low then .error (.notRange v) else .ok ()
      else .ok ()

def awg3Value (key val : Text) : Except ValueError Text :=
  if key = "headerprotectionkey".toList then (normalizeKeyToHex val).mapError .key
  else if key = "randomtrailers".toList ∨ key = "disablecookies".toList then
    (parseBool val).map fun b => if b then "true".toList else "false".toList
  else (checkRange val).map fun _ => val

def deviceValue (key val : Text) : Except ValueError Text :=
  if (awg3Keys.lookup key).isSome then awg3Value key val else .ok val

/-- `unicode.IsControl`. -/
def isControl (c : Char) : Bool := c.toNat < 32 || (127 ≤ c.toNat && c.toNat < 160)

def hasControl (s : Text) : Bool := s.any fun c => c != '\t' && isControl c

/-! ### The pass over the lines -/

/-- Where the pass stands: the sections it reads have names of their own. -/
inductive Section where
  | interface
  | peer
  | other
deriving DecidableEq, Repr

structure Peer where
  pub : Text := []
  psk : Text := []
  endpoint : Text := []
  keepalive : Text := []
  allowed : List Text := []
deriving DecidableEq, Repr

/-- The variables of the loop. The current peer is the last one while the pass stands in a peer section. -/
structure State where
  devicePriv : Text := []
  deviceListen : Text := []
  peers : List Peer := []
  inSection : Section := .other
  deviceExtras : List Text := []
deriving DecidableEq, Repr

inductive ParseError where
  | control (inSection : Section) (key : Text)
  | privateKey (e : KeyError)
  | awg15 (key : Text)
  | device (uapiKey : Text) (e : ValueError)
  | publicKey (e : KeyError)
  | presharedKey (e : KeyError)
  | missingPrivateKey
  | noPeers
  | missingPublicKey (peer : Nat)
deriving DecidableEq, Repr

/-- What one line says: nothing, a section header, or a value for a key. -/
inductive Item where
  | header (name : Section)
  | entry (key val : Text)
deriving DecidableEq, Repr

def IsHeader (line : Text) : Prop := line.head? = some '[' ∧ line.getLast? = some ']'

instance (line : Text) : Decidable (IsHeader line) := inferInstanceAs (Decidable (_ ∧ _))

def headerName (line : Text) : Text := toLower (trim (fun c => c == '[' || c == ']' || c == ' ' || c == '\t') line)

def readHeader (line : Text) : Section :=
  if headerName line = "interface".toList then .interface
  else if headerName line = "peer".toList then .peer
  else .other

def readLine (rawLine : Text) : Option Item :=
  let line := trimSpace rawLine
  if line = [] ∨ line.head? = some '#' ∨ line.head? = some ';' then none
  else if IsHeader line then some (.header (readHeader line))
  else (cut '=' line).map fun (key, val) => .entry (toLower (trimSpace key)) (trimSpace val)

/-- The interface keys the pass tells apart. -/
inductive InterfaceKey where
  | privateKey
  | listenPort
  | awg15
  | device (uapiKey : Text)
deriving DecidableEq, Repr

def interfaceKey (key : Text) : Option InterfaceKey :=
  if key = "privatekey".toList then some .privateKey
  else if key = "listenport".toList then some .listenPort
  else if key ∈ awg15Keys then some .awg15
  else (deviceKeys.lookup key).map .device

def parseInterfaceKey (s : State) (key val : Text) : Except ParseError State :=
  match interfaceKey key with
  | some .privateKey =>
      match normalizeKeyToHex val with
      | .ok h => .ok { s with devicePriv := h }
      | .error e => .error (.privateKey e)
  | some .listenPort => .ok { s with deviceListen := val }
  | some .awg15 => .error (.awg15 key)
  | some (.device uapiKey) =>
      match deviceValue key val with
      | .ok v => .ok { s with deviceExtras := s.deviceExtras ++ [uapiKey ++ "=".toList ++ v] }
      | .error e => .error (.device uapiKey e)
  | none => .ok s

inductive PeerKey where
  | publicKey
  | presharedKey
  | endpoint
  | keepalive
  | allowedIPs
deriving DecidableEq, Repr

def peerKeys : List (Text × PeerKey) :=
  [("publickey".toList, .publicKey), ("presharedkey".toList, .presharedKey), ("endpoint".toList, .endpoint),
   ("persistentkeepalive".toList, .keepalive), ("persistent_keepalive".toList, .keepalive),
   ("allowedips".toList, .allowedIPs)]

def allowedIPs (val : Text) : List Text := ((split ',' val).map trimSpace).filter (· ≠ [])

def parsePeerKey (p : Peer) (key val : Text) : Except ParseError Peer :=
  match peerKeys.lookup key with
  | some .publicKey =>
      match normalizeKeyToHex val with
      | .ok h => .ok { p with pub := h }
      | .error e => .error (.publicKey e)
  | some .presharedKey =>
      match normalizeKeyToHex val with
      | .ok h => .ok { p with psk := h }
      | .error e => .error (.presharedKey e)
  | some .endpoint => .ok { p with endpoint := val }
  -- AmneziaWG 3 takes a range as well as one interval, so the value is not read further.
  | some .keepalive => .ok (if equalFold val "off".toList then p else { p with keepalive := val })
  | some .allowedIPs => .ok { p with allowed := p.allowed ++ allowedIPs val }
  | none => .ok p

def parseItem (s : State) : Item → Except ParseError State
  | .header .peer => .ok { s with inSection := .peer, peers := s.peers ++ [{}] }
  | .header name => .ok { s with inSection := name }
  | .entry key val =>
      if hasControl val then .error (.control s.inSection key)
      else match s.inSection with
        | .interface => parseInterfaceKey s key val
        | .peer =>
            match s.peers.getLast? with
            | some p => (parsePeerKey p key val).map fun p => { s with peers := s.peers.dropLast ++ [p] }
            | none => .ok s
        | .other => .ok s

def parseLine (s : State) (rawLine : Text) : Except ParseError State :=
  match readLine rawLine with
  | some item => parseItem s item
  | none => .ok s

/-! ### The request -/

/-- A line `name=value` where there is a value to write. -/
def optionalLine (name val : Text) : List Text := if val ≠ [] then [name ++ "=".toList ++ val] else []

def peerLines (p : Peer) : List Text :=
  ["public_key=".toList ++ p.pub] ++ optionalLine "preshared_key".toList p.psk ++
    optionalLine "endpoint".toList p.endpoint ++
    optionalLine "persistent_keepalive_interval".toList p.keepalive ++
    ["replace_allowed_ips=true".toList] ++ p.allowed.map ("allowed_ip=".toList ++ ·)

/-- The lines in the order the device requires. -/
def emit (s : State) : Except ParseError (List Text) :=
  if s.devicePriv = [] then .error .missingPrivateKey
  else if s.peers = [] then .error .noPeers
  else match s.peers.findIdx? (·.pub = []) with
    | some i => .error (.missingPublicKey i)
    | none => .ok (["replace_peers=true".toList, "private_key=".toList ++ s.devicePriv] ++
        optionalLine "listen_port".toList s.deviceListen ++ s.deviceExtras ++ s.peers.flatMap peerLines)

def writeLines (lines : List Text) : Text := lines.flatMap (· ++ "\n".toList)

def parseToUAPI (cfg : Text) : Except ParseError Text := do
  let s ← (split '\n' cfg).foldlM parseLine {}
  return writeLines (← emit s)

end GlitchCore.Awg
