import GlitchCore.Base.HostPort
import GlitchCore.Base.NetAddr

/-!
# The engine-neutral DNS intent

What a caller asks of the resolvers, before either engine turns it into servers of its own: the mode, the
general and the direct servers, the names kept off fake-ip and the static hosts.
-/

namespace GlitchCore

open GoText NetAddr

/-- The hosts stand in the order the map is walked in. -/
structure DnsConfig where
  mode : Text := []
  servers : List Text := []
  fakeIPFilter : List Text := []
  hosts : List (Text × List Text) := []
  directServers : List Text := []
  disableIPv6 : Bool := false
  deriving DecidableEq, Repr

def modeFakeIP : Text := "fake-ip".toList

def DnsConfig.fakeIP (c : DnsConfig) : Bool := equalFold (trimSpace c.mode) modeFakeIP

def trimmed (list : List Text) : List Text := (list.map trimSpace).filter (· ≠ [])

def DnsConfig.normalizedServers (c : DnsConfig) (fallback : Text) : List Text :=
  if trimmed c.servers = [] then trimmed [fallback] else trimmed c.servers

def DnsConfig.normalizedFilter (c : DnsConfig) : List Text := trimmed c.fakeIPFilter

def DnsConfig.normalizedDirectServers (c : DnsConfig) : List Text := trimmed c.directServers

/-- A name the resolver can look up again. -/
def isHostName (v : Text) : Bool :=
  v != [] && !v.any (fun c => " \t/\\:,".toList.contains c) && (v.contains '.' || equalFold v "lan".toList)

/-- A multi-value entry keeps only its addresses, a single value may also be a name. -/
def hostValues (vals : List Text) : List Text :=
  match trimmed vals with
  | [v] => if (parseIP v).isNone && !isHostName v then [] else [v]
  | clean => clean.filter fun v => (parseIP v).isSome

/-- Keys that become one by trimming overwrite each other. -/
def DnsConfig.normalizedHosts (c : DnsConfig) : List (Text × List Text) :=
  c.hosts.foldl (fun out (key, vals) =>
    let key := trimSpace key
    if key = [] ∨ hostValues vals = [] then out
    else out.filter (fun kv => kv.1 ≠ key) ++ [(key, hostValues vals)]) []

/-- The scheme a server is written with, empty for a plain host. -/
def scheme (server : Text) : Text :=
  match cutText "://".toList (trimSpace server) with
  | some (head@(_ :: _), _) => toLower head
  | _ => []

end GlitchCore
