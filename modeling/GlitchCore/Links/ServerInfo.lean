import GlitchCore.Awg.Readers
import GlitchCore.Awg.RoundTrip

/-!
# The servers of a session

`serverinfo` reads every link a third time, for the events the caller shows. A link it cannot read still makes an
entry, so that its place in the list is its place among the engine's servers.
-/

namespace GlitchCore.ServerInfo

open GoText Encoding Links

structure Server where
  index : Nat
  name : Text := []
  host : Text := []
  port : Int := 0
  protocol : Text := []
  deriving DecidableEq, Repr

/-- These links may leave the port out. -/
def defaultsTo443 (protocol : Text) : Bool := protocol == "tuic".toList || protocol == "anytls".toList

/-- The address inside the payload of a legacy ss link. -/
def ssLegacyHostPort (link : Text) : Text × Int :=
  let raw := ((trimPrefix "ss://".toList link).takeWhile (· != '#')).takeWhile (· != '?')
  match Awg.decodeBase64Flexible raw with
  | none => ([], 0)
  | some decoded =>
      match cutLast '@' decoded with
      | none => ([], 0)
      | some (_, address) =>
          if address = [] then ([], 0)
          else match HostPort.splitHostPort address with
            | none => (address, 0)
            | some (host, portStr) =>
                let port := (atoi (trimSpace portStr)).getD 0
                (host, if port < 0 ∨ 65535 < port then 0 else port)

/-- The family a URL's scheme names. -/
def familyOf (scheme : Text) : Text :=
  if scheme = "hy2".toList ∨ scheme = "hysteria2".toList then "hysteria2".toList else scheme

/-- The port of a URL, and the one the builders put where the link leaves it out. -/
def portOf (protocol port : Text) : Int :=
  match (atoi port).filter fun n => decide (0 < n ∧ n ≤ 65535) with
  | some n => n
  | none => if port = [] ∧ defaultsTo443 protocol then 443 else 0

def isAwg (link : Text) : Bool :=
  Awg.linkScheme.isPrefixOf (toLower link) || contains link "[Interface]".toList

def fromAwg (link : Text) (idx : Nat) : Server :=
  let address := ((Awg.normalizeToINI link).map Awg.endpointHostPort).getD ([], 0)
  { index := idx, name := textOf (Awg.linkName link), host := address.1, port := address.2, protocol := "awg".toList }

def fromVmess (link : Text) (idx : Nat) : Server :=
  let l := (Vmess.parse link).1
  { index := idx, name := l.name, host := l.host, port := l.port, protocol := "vmess".toList }

def fromURL (link : Text) (u : Url.URL) (idx : Nat) : Server :=
  let protocol := familyOf (toLower u.scheme)
  let address :=
    -- a legacy payload has no address of its own: what a URL reads as the host is the payload
    if protocol = "ss".toList ∧ (u.user = none ∨ u.hostname = [] ∨ u.port = []) then ssLegacyHostPort link
    else (u.hostname, portOf protocol u.port)
  { index := idx, name := Vmess.remark u.fragment, host := address.1, port := address.2, protocol := protocol }

def fromLink (link : Text) (idx : Nat) : Server :=
  let link := trimSpace link
  if isAwg link then fromAwg link idx
  else if Vmess.isLink link then fromVmess link idx
  else match Url.parse link with
    | none => { index := idx }
    | some u => fromURL link u idx

/-- One round of the loop of `FromLinks`. -/
def addLink (out : List Server) (l : Text) : List Server :=
  let l := trimSpace l
  if l = [] then out else out ++ [fromLink l out.length]

def fromLinks (links : List Text) : List Server := links.foldl addLink []

/-! ### Places in the list -/

theorem index_fromLink (link : Text) (idx : Nat) : (fromLink link idx).index = idx := by
  unfold fromLink
  dsimp only
  split
  · rfl
  · split
    · rfl
    · split <;> rfl

/-- The links that are not blank, with their places among all of them. -/
def keptLinks (links : List Text) : List (Text × Nat) :=
  (links.zipIdx.map fun (l, i) => (trimSpace l, i)).filter fun kept => kept.1 ≠ []

theorem foldl_addLink (links : List Text) (i : Nat) (out : List Server) :
    links.foldl addLink out =
      out ++ ((((links.zipIdx i).map fun (l, i) => (trimSpace l, i)).filter fun kept => kept.1 ≠ []).zipIdx
        out.length).map fun (kept, k) => fromLink kept.1 k := by
  induction links generalizing i out with
  | nil => simp
  | cons l links ih =>
      rw [List.foldl_cons, List.zipIdx_cons, List.map_cons]
      by_cases hblank : trimSpace l = []
      · rw [addLink, if_pos hblank, List.filter_cons_of_neg (by simpa using hblank)]
        exact ih (i + 1) out
      · rw [addLink, if_neg hblank, List.filter_cons_of_pos (by simpa using hblank), ih (i + 1), List.zipIdx_cons,
          List.map_cons, List.length_append, List.length_singleton, List.append_assoc, List.singleton_append]

/-- Entry `k` is that of the `k`-th link that is not blank. -/
theorem fromLinks_eq (links : List Text) :
    fromLinks links = (keptLinks links).zipIdx.map fun (kept, k) => fromLink kept.1 k := by
  rw [fromLinks, foldl_addLink links 0 []]
  rfl

end GlitchCore.ServerInfo
