import GlitchCore.Base.Encoding
import GlitchCore.Base.NetAddr

/-!
# URLs

`net/url`: percent escapes by the part of the URL they stand in, `Parse`, the host and the port of an authority,
`Query` and `String`. `parse` gives `none` where `Parse` gives an error. Outside brackets a host has no colon of
its own, and inside them it is an IPv6 address with an optional zone.
-/

namespace Url

open GoText Encoding

/-! ### Escapes -/

/-- The part of a URL a text stands in. -/
inductive Mode where
  | path
  | host
  | zone
  | userPassword
  | queryComponent
  | fragment
deriving DecidableEq, Repr

def isAlphanumeric (c : Char) : Bool := ('a' ≤ c && c ≤ 'z') || ('A' ≤ c && c ≤ 'Z') || ('0' ≤ c && c ≤ '9')

def shouldEscape (mode : Mode) (c : Char) : Bool :=
  if isAlphanumeric c || c == '-' || c == '_' || c == '.' || c == '~' then false
  else match mode with
    | .host | .zone => !("!$&'()*+,;=:[]<>\"".toList.contains c)
    | .path => !("$&+,/:;=@".toList.contains c)
    | .userPassword => !("$&+,;=".toList.contains c)
    | .queryComponent => true
    | .fragment => !("$&+,/:;=?@!()*".toList.contains c)

/-- The escape `%XY` may stand in this part of a URL. -/
def mayEscape (mode : Mode) (byte : Nat) : Bool :=
  match mode with
  -- a host escapes bytes past ASCII, and the percent sign itself
  | .host => decide (128 ≤ byte) || byte == 0x25
  | .zone => byte == 0x25 || byte == 0x20 || !shouldEscape .host (Char.ofNat byte)
  | _ => true

/-- A rune that stands for itself in this part of a URL. -/
def mayStand (mode : Mode) (c : Char) : Bool :=
  match mode with
  | .host | .zone => decide (128 ≤ c.toNat) || !shouldEscape mode c
  | _ => true

def piecesOf (mode : Mode) : Text → Option (List Piece)
  | [] => some []
  | c :: rest =>
      if c = '%' then
        match rest with
        | h :: l :: rest' =>
            match unhex h, unhex l with
            | some high, some low =>
                if mayEscape mode (16 * high + low) then
                  (piecesOf mode rest').map (.inr (UInt8.ofNat (16 * high + low)) :: ·)
                else none
            | _, _ => none
        | _ => none
      else if mayStand mode c then
        (piecesOf mode rest).map (.inl (if mode = .queryComponent ∧ c = '+' then ' ' else c) :: ·)
      else none

def unescape (mode : Mode) (s : Text) : Option Text := (piecesOf mode s).map runes

def upperHexDigit (n : Nat) : Char := if n < 10 then Char.ofNat (48 + n) else Char.ofNat (55 + n)

def escapeRune (mode : Mode) (c : Char) : Text :=
  if mode = .queryComponent ∧ c = ' ' then ['+']
  else if shouldEscape mode c then
    (String.utf8EncodeChar c).flatMap fun b => ['%', upperHexDigit (b.toNat / 16), upperHexDigit (b.toNat % 16)]
  else [c]

def escape (mode : Mode) (s : Text) : Text := s.flatMap (escapeRune mode)

/-! ### Parsing -/

structure Userinfo where
  username : Text
  password : Option Text
deriving DecidableEq, Repr

structure URL where
  scheme : Text := []
  /-- What follows the scheme of a URL without a slash there. -/
  rootless : Text := []
  user : Option Userinfo := none
  host : Text := []
  path : Text := []
  /-- The path as it was written. -/
  rawPath : Text := []
  omitHost : Bool := false
  forceQuery : Bool := false
  rawQuery : Text := []
  fragment : Text := []
  rawFragment : Text := []
deriving DecidableEq, Repr

def isSchemeRune (c : Char) : Bool := isAlphanumeric c || c == '+' || c == '-' || c == '.'

/-- The scheme, empty where the text has none, and what follows its colon. -/
def getScheme (s : Text) : Option (Text × Text) :=
  let name := s.takeWhile isSchemeRune
  match name, s.dropWhile isSchemeRune with
  | [], ':' :: _ => none
  | first :: _, ':' :: rest =>
      if ('a' ≤ first ∧ first ≤ 'z') ∨ ('A' ≤ first ∧ first ≤ 'Z') then some (name, rest) else some ([], s)
  | _, _ => some ([], s)

def validOptionalPort (port : Text) : Bool :=
  match port with
  | [] => true
  | c :: digits => c == ':' && digits.all Char.isDigit

def validUserinfo (s : Text) : Bool := s.all fun c => isAlphanumeric c || "-._:~!$&'()*+,;=%@".toList.contains c

/-- `netip.ParseAddr` of an IPv6 address. -/
def isIPv6Literal (s : Text) : Bool :=
  match cut '%' s with
  | some (addr, zone) => decide (zone ≠ []) && (NetAddr.parseIPv6 addr).isSome
  | none => (NetAddr.parseIPv6 s).isSome

def unescapeLiteral (s : Text) : Option Text :=
  match cutText "%25".toList s with
  | some (addr, zone) => do
      let addr ← unescape .host addr
      let zone ← unescape .zone ("%25".toList ++ zone)
      return addr ++ zone
  | none => unescape .host s

def parseHost (host : Text) : Option Text :=
  if '[' ∈ host then
    match host with
    | '[' :: rest =>
        if '[' ∈ rest then none
        else do
          let (literal, colonPort) ← cutLast ']' rest
          if validOptionalPort colonPort then
            let literal ← unescapeLiteral literal
            if isIPv6Literal literal then some ('[' :: literal ++ ']' :: colonPort) else none
          else none
    | _ => none
  else match cut ':' host with
    | some (_, port) => if validOptionalPort (':' :: port) then unescape .host host else none
    | none => unescape .host host

def parseUserinfo (userinfo : Text) : Option Userinfo :=
  if !validUserinfo userinfo then none
  else match cut ':' userinfo with
    | none => do return ⟨← unescape .userPassword userinfo, none⟩
    | some (username, password) => do
        return ⟨← unescape .userPassword username, some (← unescape .userPassword password)⟩

def parseAuthority (authority : Text) : Option (Option Userinfo × Text) :=
  match cutLast '@' authority with
  | none => do return (none, ← parseHost authority)
  | some (userinfo, host) => do
      let host ← parseHost host
      return (some (← parseUserinfo userinfo), host)

/-- The authority and the path behind it, which begins with its slash. -/
def cutAuthority (rest : Text) : Text × Text := (rest.takeWhile (· != '/'), rest.dropWhile (· != '/'))

/-- The rest of a URL and its query. -/
def cutQuery (rest : Text) : Text × Bool × Text :=
  if rest.getLast? = some '?' ∧ rest.count '?' = 1 then (rest.dropLast, true, [])
  else match cut '?' rest with
    | some (front, query) => (front, false, query)
    | none => (rest, false, [])

def setPath (u : URL) (path : Text) : Option URL := do
  let decoded ← unescape .path path
  return { u with path := decoded, rawPath := if escape .path decoded = path then [] else path }

def isControlByte (c : Char) : Bool := decide (c.toNat < 32) || c.toNat == 127

def parseHierarchical (u : URL) (rest : Text) : Option URL :=
  if "//".toList.isPrefixOf rest ∧ (u.scheme ≠ [] ∨ ¬"///".toList.isPrefixOf rest) then do
    let (authority, path) := cutAuthority (rest.drop 2)
    let (user, host) ← parseAuthority authority
    setPath { u with user, host } path
  else setPath { u with omitHost := decide (u.scheme ≠ []) && rest.head? == some '/' } rest

/-- `parse`, for what stands before the fragment. -/
def parseFront (s : Text) : Option URL :=
  if s.any isControlByte then none
  else if s = "*".toList then some { path := s }
  else do
    let (scheme, rest) ← getScheme s
    let (rest, forceQuery, rawQuery) := cutQuery rest
    let u : URL := { scheme := toLower scheme, forceQuery, rawQuery }
    if rest.head? = some '/' then parseHierarchical u rest
    else if scheme ≠ [] then some { u with rootless := rest }
    else if ':' ∈ rest.takeWhile (· != '/') then none
    else parseHierarchical u rest

def parse (s : Text) : Option URL :=
  match cut '#' s with
  | none => parseFront s
  | some (front, fragment) => do
      let u ← parseFront front
      let decoded ← unescape .fragment fragment
      return { u with fragment := decoded, rawFragment := if escape .fragment decoded = fragment then [] else fragment }

/-! ### Reading a URL -/

/-- The host and the port of an authority; the port is empty where there is none. -/
def splitHostPort (hostPort : Text) : Text × Text :=
  let (host, port) := match cutLast ':' hostPort with
    | some (host, port) => if port.all Char.isDigit then (host, port) else (hostPort, [])
    | none => (hostPort, [])
  if host.head? = some '[' ∧ host.getLast? = some ']' then (host.tail.dropLast, port) else (host, port)

def URL.hostname (u : URL) : Text := (splitHostPort u.host).1

def URL.port (u : URL) : Text := (splitHostPort u.host).2

/-- `Values`: the pairs of a query in their order. -/
abbrev Values := List (Text × Text)

def Values.get (q : Values) (key : Text) : Text := (List.lookup key q).getD []

def Values.del (q : Values) (key : Text) : Values := List.filter (fun kv => kv.1 ≠ key) q

def Values.set (q : Values) (key val : Text) : Values := q.del key ++ [(key, val)]

theorem Values.get_del_of_ne {key other : Text} (hne : other ≠ key) (q : Values) :
    (q.del key).get other = q.get other := by
  unfold Values.get
  congr 1
  induction q with
  | nil => rfl
  | cons kv q ih =>
      by_cases hkey : kv.1 = key
      · have hother : (other == kv.1) = false := by simpa [hkey] using hne
        rw [Values.del, List.filter_cons_of_neg (by simpa using hkey), ← Values.del, ih, List.lookup_cons, hother]
      · rw [Values.del, List.filter_cons_of_pos (by simpa using hkey), ← Values.del, List.lookup_cons,
          List.lookup_cons, ih]

theorem Values.lookup_del (q : Values) (key : Text) : List.lookup key (q.del key) = none := by
  rw [List.lookup_eq_none_iff]
  intro kv hkv
  have hne := (List.mem_filter.mp hkv).2
  simp only [ne_eq, decide_not, Bool.not_eq_eq_eq_not, Bool.not_true, decide_eq_false_iff_not] at hne
  simpa using Ne.symm hne

@[simp] theorem Values.get_set_self (q : Values) (key val : Text) : (q.set key val).get key = val := by
  rw [Values.get, Values.set, List.lookup_append, Values.lookup_del]
  simp

theorem Values.get_set_of_ne {key other : Text} (hne : other ≠ key) (q : Values) (val : Text) :
    (q.set key val).get other = q.get other := by
  have hone : List.lookup other [(key, val)] = none := by
    have hbeq : (other == key) = false := by simpa using hne
    rw [List.lookup_cons, hbeq]
    rfl
  rw [Values.get, Values.set, List.lookup_append, hone, Option.or_none, ← Values.get, Values.get_del_of_ne hne]

def queryPair (s : Text) : Option (Text × Text) :=
  if s = [] ∨ ';' ∈ s then none
  else do
    let (key, val) := (cut '=' s).getD (s, [])
    return (← unescape .queryComponent key, ← unescape .queryComponent val)

/-- `Query`: a pair that does not read is left out, and a query of more than 10000 pairs is not read. -/
def parseQuery (s : Text) : Values := if 10000 < s.count '&' + 1 then [] else (split '&' s).filterMap queryPair

def URL.query (u : URL) : Values := parseQuery u.rawQuery

def textLe : Text → Text → Bool
  | [], _ => true
  | _ :: _, [] => false
  | a :: s, b :: t => decide (a.toNat < b.toNat) || (a == b && textLe s t)

def insertPair (kv : Text × Text) : Values → Values
  | [] => [kv]
  | kv' :: rest => if textLe kv.1 kv'.1 then kv :: kv' :: rest else kv' :: insertPair kv rest

/-- `Encode`: the pairs by their keys, those of one key in their order. -/
def Values.encode (q : Values) : Text :=
  join "&".toList ((List.foldr insertPair [] q).map fun kv =>
    escape .queryComponent kv.1 ++ "=".toList ++ escape .queryComponent kv.2)

/-! ### Writing a URL -/

def validEncoded (mode : Mode) (s : Text) : Bool :=
  s.all fun c => "!$&'()*+,;=:@[]%".toList.contains c || !shouldEscape mode c

def URL.escapedPath (u : URL) : Text :=
  if u.rawPath ≠ [] ∧ validEncoded .path u.rawPath ∧ unescape .path u.rawPath = some u.path then u.rawPath
  else if u.path = "*".toList then u.path
  else escape .path u.path

def URL.escapedFragment (u : URL) : Text :=
  if u.rawFragment ≠ [] ∧ validEncoded .fragment u.rawFragment ∧ unescape .fragment u.rawFragment = some u.fragment
  then u.rawFragment
  else escape .fragment u.fragment

def Userinfo.string (user : Userinfo) : Text :=
  escape .userPassword user.username ++
    match user.password with
    | some password => ':' :: escape .userPassword password
    | none => []

/-- The slashes, the user and the host. -/
def URL.authorityString (u : URL) : Text :=
  if (u.scheme = [] ∧ u.host = [] ∧ u.user = none) ∨ (u.omitHost ∧ u.host = [] ∧ u.user = none) then []
  else
    (if u.host ≠ [] ∨ u.path ≠ [] ∨ u.user ≠ none then "//".toList else []) ++
      (match u.user with | some user => user.string ++ "@".toList | none => []) ++ escape .host u.host

def URL.hierarchicalString (u : URL) : Text :=
  let path := u.escapedPath
  let front := (if u.scheme ≠ [] then u.scheme ++ ":".toList else []) ++ u.authorityString ++
    if path ≠ [] ∧ path.head? ≠ some '/' ∧ u.host ≠ [] then "/".toList else []
  -- a first segment with a colon would read as a scheme
  front ++ (if front = [] ∧ ':' ∈ path.takeWhile (· != '/') then "./".toList else []) ++ path

def URL.string (u : URL) : Text :=
  (if u.rootless ≠ [] then (if u.scheme ≠ [] then u.scheme ++ ":".toList else []) ++ u.rootless
    else u.hierarchicalString) ++
    (if u.forceQuery ∨ u.rawQuery ≠ [] then '?' :: u.rawQuery else []) ++
    if u.fragment ≠ [] then '#' :: u.escapedFragment else []

end Url
