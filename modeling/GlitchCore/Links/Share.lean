import GlitchCore.Base.JsonDecode
import GlitchCore.Base.Url
import GlitchCore.Awg.Config

/-!
# What share links have in common

The parts of a share link that the builders of both engines read through one package: the certificate switch
(`sharelink`), the encryption value of a vless link (`vlessencryption`) and the two forms of a vmess link
(`vmesslink`).
-/

namespace GlitchCore.Links

open GoText Encoding Url

/-- Length in bytes. -/
def byteLength (s : Text) : Nat := s.foldl (fun n c => n + c.utf8Size) 0

def isSet (v : Text) : Bool :=
  let v := toLower (trimSpace v)
  v = "1".toList ∨ v = "true".toList

/-- `SkipsVerification`: the link asks to skip certificate checks, in any of its spellings. -/
def skipsVerification (q : Values) : Bool :=
  ["allowInsecure".toList, "insecure".toList, "allow_insecure".toList].any fun key => isSet (q.get key)

/-! ### VLESS encryption -/

namespace VlessEncryption

inductive EncryptionError where
  | scheme
  | mode
  | rtt
  | paddingAfterKey
  | keyNotBase64
  | mlkemKey
  | keyLength
  | noKey
  | paddingShape
  | paddingNumber
  | firstPadding
  | totalPadding
deriving DecidableEq, Repr

/-- The value of a link that names no encryption. -/
def noneValue : Text := "none".toList

def scheme : Text := "mlkem768x25519plus".toList

def paddingLimit : Nat := 20

def maxTotalPadding : Int := 18 + 65535

/-- The encapsulation key check of ML-KEM-768: every 12-bit coefficient is reduced. -/
def coefficientsReduced : List UInt8 → Bool
  | a :: b :: c :: rest =>
      decide (a.toNat + 256 * (b.toNat % 16) < 3329) && decide (b.toNat / 16 + 16 * c.toNat < 3329) &&
        coefficientsReduced rest
  | _ => true

def checkKey (field : Text) : Except EncryptionError Unit :=
  match base64Decode .url false field with
  | none => .error .keyNotBase64
  | some key =>
      if key.length = 32 then .ok ()
      else if key.length = 1184 then
        if coefficientsReduced (key.take 1152) then .ok () else .error .mlkemKey
      else .error .keyLength

/-- A 64-bit sum. -/
def wrap64 (n : Int) : Int := (n + 9223372036854775808) % 18446744073709551616 - 9223372036854775808

/-- The first three numbers of a padding. -/
def paddingNumbers (segment : Text) : Except EncryptionError (Int × Int × Int) :=
  match split '-' segment with
  | chance :: low :: high :: _ =>
      if chance = [] ∨ low = [] ∨ high = [] then .error .paddingShape
      else match atoi chance, atoi low, atoi high with
        | some c, some l, some h => .ok (c, l, h)
        | _, _, _ => .error .paddingNumber
  | _ => .error .paddingShape

def addPadding (total : Int) (segment : Text × Nat) : Except EncryptionError Int := do
  let (chance, low, high) ← paddingNumbers segment.1
  if segment.2 = 0 ∧ (chance < 100 ∨ low < 35 ∨ high < 35) then throw .firstPadding
  return if segment.2 % 2 = 0 then wrap64 (total + max low high) else total

def checkPadding (paddings : List Text) : Except EncryptionError Unit := do
  let total ← paddings.zipIdx.foldlM addPadding 0
  if maxTotalPadding < total then throw .totalPadding

/-- The paddings so far and the number of keys. -/
def readField (acc : List Text × Nat) (field : Text) : Except EncryptionError (List Text × Nat) :=
  if field = [] then .ok acc
  else if byteLength field < paddingLimit then
    if 0 < acc.2 then .error .paddingAfterKey else .ok (acc.1 ++ [field], acc.2)
  else do
    checkKey field
    return (acc.1, acc.2 + 1)

def readFields (fields : List Text) : Except EncryptionError Unit := do
  let (paddings, keys) ← fields.foldlM readField ([], 0)
  if keys = 0 then throw .noKey
  checkPadding paddings

def normalize (raw : Text) : Except EncryptionError Text :=
  let value := trimSpace raw
  if value = [] ∨ equalFold value noneValue then .ok noneValue
  else match split '.' value with
    | head :: mode :: rtt :: field :: fields =>
        if head ≠ scheme then .error .scheme
        else if mode ∉ ["native".toList, "xorpub".toList, "random".toList] then .error .mode
        else if rtt ∉ ["0rtt".toList, "1rtt".toList] then .error .rtt
        else (readFields (field :: fields)).map fun _ => value
    | _ => .error .scheme

end VlessEncryption

/-! ### VMess links -/

namespace Vmess

inductive LinkError where
  | notVmess
  | malformed
  | payloadTooLong
  | notBase64
  | notObject
  | field (key : Text)
  | alterId (value : Text)
  | port (value : Text)
deriving DecidableEq, Repr

/-- What a vmess link says, in either of its forms; `params` holds the transport and the TLS settings under the
keys of the URI form. -/
structure Link where
  name : Text := []
  host : Text := []
  port : Int := 0
  id : Text := []
  alterId : Int := 0
  cipher : Text := []
  params : Values := []
deriving DecidableEq, Repr

def scheme : Text := "vmess://".toList

def maxSharedJSON : Nat := 65536

def isLink (link : Text) : Bool := scheme.isPrefixOf (toLower (trimSpace link))

/-- The port a text names and the error where it names none. -/
def port (s : Text) : Int × List LinkError :=
  match (atoi (trimSpace s)).filter fun n => decide (0 < n ∧ n ≤ 65535) with
  | some n => (n, [])
  | none => (0, [.port s])

/-- One name for each network: raw is tcp, and http means HTTP/2. -/
def canonicalNetwork (network : Text) : Text :=
  let network := toLower (trimSpace network)
  if network = [] ∨ network = "raw".toList then "tcp".toList
  else if network = "http".toList then "h2".toList
  else if network = "mkcp".toList then "kcp".toList
  else if network = "websocket".toList then "ws".toList
  else if network = "splithttp".toList then "xhttp".toList
  else network

def lowerParam (p : Values) (key : Text) : Values :=
  if p.get key ≠ [] then p.set key (toLower (trimSpace (p.get key))) else p

def normalizeNetwork (p : Values) : Values :=
  let p := p.set "type".toList (canonicalNetwork (p.get "type".toList))
  lowerParam (lowerParam p "headerType".toList) "security".toList

/-- A remark in a fragment: generators write `+` for a space. -/
def remark (fragment : Text) : Text := trimSpace (fragment.map fun c => if c = '+' then ' ' else c)

/-- The URI form, `vmess://uuid@host:port?type=ws&security=tls#name`. -/
def parseURI (link : Text) : Link × List LinkError :=
  match Url.parse link with
  | none => ({}, [.malformed])
  | some u =>
      let params := u.query
      let encryption := trimSpace (params.get "encryption".toList)
      let (port, errors) := port u.port
      ({ name := remark u.fragment
         host := u.hostname
         port := port
         id := (u.user.map (·.username)).getD []
         cipher := if encryption ≠ [] then encryption else "auto".toList
         params := normalizeNetwork params }, errors)

/-- A field of the JSON form: generators write numbers as strings or as numbers. -/
def field (fields : List (Text × JsonDecode.Json)) (key : Text) : Text × List LinkError :=
  match JsonDecode.member fields key with
  | none | some .null => ([], [])
  | some (.string s) => (trimSpace s, [])
  | some (.number literal) => (literal, [])
  | some _ => ([], [.field key])

/-- Where the fields that each network reads in its own way go: the parameter and the field. -/
def networkParams (network : Text) : List (Text × Text) :=
  if network = "grpc".toList then
    [("serviceName".toList, "path".toList), ("authority".toList, "host".toList), ("mode".toList, "type".toList)]
  else if network = "kcp".toList then [("seed".toList, "path".toList), ("headerType".toList, "type".toList)]
  else if network = "xhttp".toList then
    [("host".toList, "host".toList), ("path".toList, "path".toList), ("mode".toList, "type".toList)]
  else [("headerType".toList, "type".toList), ("host".toList, "host".toList), ("path".toList, "path".toList)]

def securityParams : List (Text × Text) :=
  [("security".toList, "tls".toList), ("sni".toList, "sni".toList), ("alpn".toList, "alpn".toList),
   ("fp".toList, "fp".toList), ("allowInsecure".toList, "insecure".toList), ("pcs".toList, "pcs".toList),
   ("vcn".toList, "vcn".toList)]

def setParam (p : Values) (key val : Text) : Values := if val ≠ [] then p.set key val else p

def alterIdOf (aid : Text) : Int × List LinkError :=
  if aid = [] then (0, [])
  else match (atoi aid).filter fun n => decide (0 ≤ n) with
    | some n => (n, [])
    | none => (0, [.alterId aid])

/-- v2rayN's base64 JSON. -/
def parseFields (fields : List (Text × JsonDecode.Json)) : Link × List LinkError :=
  let text key := (field fields key).1
  let errors key := (field fields key).2
  let scy := text "scy".toList
  let (alterId, alterIdErrors) := alterIdOf (text "aid".toList)
  let (port, portErrors) := port (text "port".toList)
  let network := canonicalNetwork (text "net".toList)
  let reads := networkParams network ++ securityParams
  let params := reads.foldl (fun p (param, key) => setParam p param (text key)) []
  ({ name := text "ps".toList
     host := text "add".toList
     port := port
     id := text "id".toList
     alterId := alterId
     cipher := if scy ≠ [] then scy else "auto".toList
     params := normalizeNetwork (setParam params "type".toList network) },
    errors "ps".toList ++ errors "add".toList ++ errors "id".toList ++ errors "scy".toList ++
      errors "aid".toList ++ alterIdErrors ++ errors "port".toList ++ portErrors ++ errors "net".toList ++
      reads.flatMap fun (_, key) => errors key)

def parseJSON (payload : Text) : Link × List LinkError :=
  let payload := trimSpace payload
  if maxSharedJSON < byteLength payload then ({}, [.payloadTooLong])
  else match Awg.decodeBase64Flexible payload with
    | none => ({}, [.notBase64])
    | some decoded =>
        match JsonDecode.unmarshalObject decoded with
        | none => ({}, [.notObject])
        | some fields => parseFields fields

/-- Fills what it can read also where it fails; the list of errors is empty for a link it takes. -/
def parse (link : Text) : Link × List LinkError :=
  let link := trimSpace link
  if isLink link then
    -- base64 has no `@`, and the URI form always has one before its remark
    let payload := (link.drop scheme.length).takeWhile (· != '#')
    if '@' ∈ payload then parseURI link else parseJSON payload
  else ({}, [.notVmess])

end Vmess

end GlitchCore.Links
