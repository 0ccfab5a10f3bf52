import GlitchCore.Routing.Steps

/-!
# Flows and the routing policy

What a profile is meant to do with a flow, free of how either engine writes its rules: the
kill-switches first; then a force-proxy flow meets every tier's blocks and the local networks and
tunnels; any other flow takes the outcome of the first tier that matches it, then the local networks,
then the mode. Each engine's rule list is compared with this policy.
-/

namespace GlitchCore

open GoText NetAddr

inductive Network where
  | tcp
  | udp
  deriving DecidableEq, Repr

inductive Inbound where
  | app
  /-- Traffic of an app with a rule that always tunnels it. -/
  | forceProxy
  deriving DecidableEq, Repr

/-- A flow as a router sees it: `hits kind value` says whether a matcher of this kind and value takes it. -/
structure Flow where
  inbound : Inbound
  network : Network
  port : BitVec 16
  hits : MatchKind → Text → Bool

def Flow.hitsEntry (f : Flow) (e : Entry) : Bool := f.hits e.kind e.value

/-- The matcher every name meets. -/
def Flow.named (f : Flow) : Bool := f.hits .domainRegex ".".toList

def Flow.ipv6 (f : Flow) : Bool := f.hits .ipCIDR "::/0".toList

def Flow.lan (f : Flow) : Bool := localNetworkCIDRs.any (f.hits .ipCIDR)

/-! ### Policy -/

structure FlowFacts where
  force : Bool
  ipv6 : Bool
  /-- UDP the kill-switch is about. -/
  udp : Bool
  named : Bool
  lan : Bool
  hit : Entry → Bool

def Flow.facts (f : Flow) : FlowFacts where
  force := f.inbound == .forceProxy
  ipv6 := f.ipv6
  udp := f.network == .udp && f.port != 53
  named := f.named
  lan := f.lan
  hit := f.hitsEntry

@[simp] theorem Flow.facts_named (f : Flow) : f.facts.named = f.named := rfl

@[simp] theorem Flow.facts_lan (f : Flow) : f.facts.lan = f.lan := rfl

@[simp] theorem Flow.facts_ipv6 (f : Flow) : f.facts.ipv6 = f.ipv6 := rfl

@[simp] theorem Flow.facts_hit (f : Flow) : f.facts.hit = f.hitsEntry := rfl

theorem Flow.facts_udp (f : Flow) : f.facts.udp = true ↔ f.network = .udp ∧ f.port ≠ 53 := by
  simp only [Flow.facts, Bool.and_eq_true, beq_iff_eq, bne_iff_ne]

def Profile.modeOutcome (p : Profile) : Target :=
  match p.resolvedMode with
  | .directAll => .direct
  | .proxyAll => .proxy

def tiersOutcome (tiers : List Tier) (hit : Entry → Bool) : Option Target :=
  tiers.findSome? fun t => t.outcome hit

/-- Some tier blocks the flow, whatever its exceptions say. -/
def Profile.blocks (p : Profile) (hit : Entry → Bool) : Bool :=
  p.tiers.any fun t => t.entries.any fun e => decide (e.target = .block) && hit e

def Profile.killed (p : Profile) (x : FlowFacts) : Bool := p.disableIPv6 && x.ipv6 || p.disableUDP && x.udp

/-- Only a flow without a name goes direct on a local address. -/
def Profile.sentToLAN (p : Profile) (x : FlowFacts) : Bool := p.localNetworks && !x.named && x.lan

def Profile.forcePolicy (p : Profile) (x : FlowFacts) : Target :=
  if p.blocks x.hit then .block else if p.sentToLAN x then .direct else .proxy

def Profile.appPolicy (p : Profile) (x : FlowFacts) : Target :=
  (tiersOutcome p.tiers x.hit).getD (if p.sentToLAN x then .direct else p.modeOutcome)

def Profile.policy (p : Profile) (x : FlowFacts) : Target :=
  if p.killed x then .block
  else if x.force && routingHasForceProxy p then p.forcePolicy x
  else p.appPolicy x

/-! ### Destinations -/

/-- How the engines match names, address categories and apps. A matcher that is the pattern `.` takes
every name that is not made of line breaks. -/
structure Oracle where
  domain : MatchKind → Text → Text → Bool
  geoIP : Text → IP → Bool
  app : Text → Bool
  anyName : ∀ n : Text, n.any (· != '\n') = true → domain .domainRegex ".".toList n = true

/-- Matchers read as the engines read them, with no geo data and no process lookup. -/
def plainOracle : Oracle where
  domain kind value n :=
    match kind with
    | .domainSuffix => n == value || ('.' :: value).isSuffixOf n
    | .domainFull => n == value
    | .domainKeyword => contains n value
    | .domainRegex => value == ".".toList && n.any (· != '\n')
    | .geoSite | .geoIP | .ipCIDR | .process => false
  geoIP _ _ := false
  app _ := false
  anyName n hn := by simp [hn]

def inCIDR (ipOrCIDR : Text) (address : IP) : Bool :=
  (parseCIDR (normalizeCIDR ipOrCIDR)).any fun net => net.contains address.unmap

/-- Where a flow goes: its name, and the addresses its address matchers are asked about. -/
structure Destination where
  name : Option Text
  addresses : List IP
  deriving DecidableEq, Repr

def Destination.hits (o : Oracle) (d : Destination) (kind : MatchKind) (value : Text) : Bool :=
  match kind with
  | .ipCIDR => d.addresses.any (inCIDR value)
  | .geoIP => d.addresses.any (o.geoIP value)
  | .process => o.app value
  | .domainSuffix | .domainFull | .domainKeyword | .domainRegex | .geoSite => d.name.any (o.domain kind value)

/-- A name a matcher can read. -/
def Destination.Readable (d : Destination) : Prop := ∀ n, d.name = some n → n.any (· != '\n') = true

def Destination.flow (o : Oracle) (d : Destination) (inbound : Inbound) (network : Network) (port : BitVec 16) :
    Flow :=
  ⟨inbound, network, port, d.hits o⟩

theorem inCIDR_anyIPv6 (a : IP) : inCIDR "::/0".toList a = a.isIPv6 := by
  have hnet : parseCIDR (normalizeCIDR "::/0".toList) = some ⟨.v6 0, 0⟩ := by decide
  rw [inCIDR, hnet, Option.any_some, Prefix.contains_zero, IP.isIPv6]
  cases a.unmap <;> rfl

theorem inCIDR_anyIPv4 (a : IP) : inCIDR "0.0.0.0/0".toList a = !a.isIPv6 := by
  have hnet : parseCIDR (normalizeCIDR "0.0.0.0/0".toList) = some ⟨.v4 0, 0⟩ := by decide
  rw [inCIDR, hnet, Option.any_some, Prefix.contains_zero, IP.isIPv6]
  cases a.unmap <;> rfl

section Flow

variable {o : Oracle} {d : Destination} {inbound : Inbound} {network : Network} {port : BitVec 16}

theorem Destination.flow_named (hname : d.Readable) : (d.flow o inbound network port).named = d.name.isSome := by
  show d.name.any (o.domain .domainRegex ".".toList) = _
  cases hn : d.name with
  | none => rfl
  | some n => exact o.anyName n (hname n hn)

theorem Destination.flow_ipv6 : (d.flow o inbound network port).ipv6 = d.addresses.any IP.isIPv6 := by
  show d.addresses.any (inCIDR "::/0".toList) = _
  exact FirstMatch.any_congr_mem fun a _ => inCIDR_anyIPv6 a

def inLocalNetworks (a : IP) : Bool := localNetworkCIDRs.any fun cidr => inCIDR cidr a

theorem Destination.flow_lan : (d.flow o inbound network port).lan = d.addresses.any inLocalNetworks := by
  rw [Bool.eq_iff_iff]
  simp only [Flow.lan, Destination.flow, Destination.hits, inLocalNetworks, List.any_eq_true]
  constructor
  · rintro ⟨cidr, hcidr, a, ha, hin⟩
    exact ⟨a, ha, cidr, hcidr, hin⟩
  · rintro ⟨a, ha, cidr, hcidr, hin⟩
    exact ⟨cidr, hcidr, a, ha, hin⟩

end Flow

/-! ### What the policy depends on -/

theorem tiersOutcome_congr {tiers : List Tier} {m m' : Entry → Bool}
    (hsame : ∀ t ∈ tiers, ∀ e ∈ t.entries, m e = m' e) : tiersOutcome tiers m = tiersOutcome tiers m' :=
  FirstMatch.findSome?_congr fun t ht => t.outcome_congr (hsame t ht)

theorem tiersOutcome_eq_none {tiers : List Tier} {m : Entry → Bool} :
    tiersOutcome tiers m = none ↔ (tiers.any fun t => t.entries.any m) = false := by
  simp only [tiersOutcome, List.findSome?_eq_none_iff, Tier.outcome_eq_none, List.any_eq_false, Bool.not_eq_true]

theorem Profile.blocks_congr {p : Profile} {m m' : Entry → Bool}
    (hsame : ∀ t ∈ p.tiers, ∀ e ∈ t.entries, m e = m' e) : p.blocks m = p.blocks m' :=
  FirstMatch.any_congr_mem fun t ht => FirstMatch.any_congr_mem fun e he => by rw [hsame t ht e he]

theorem Profile.forcePolicy_eq_block {p : Profile} {x : FlowFacts} :
    p.forcePolicy x = .block ↔ p.blocks x.hit = true := by
  unfold Profile.forcePolicy
  cases p.blocks x.hit <;> cases p.sentToLAN x <;> simp

theorem Profile.policy_of_force {p : Profile} {x : FlowFacts} (hproxy : routingHasForceProxy p = true)
    (hforce : x.force = true) (hkilled : p.killed x = false) : p.policy x = p.forcePolicy x := by
  simp only [Profile.policy, hkilled, hforce, hproxy, Bool.and_self, if_true, Bool.false_eq_true, if_false]

theorem Profile.policy_congr {p : Profile} {x y : FlowFacts} (hhit : ∀ t ∈ p.tiers, ∀ e ∈ t.entries, x.hit e = y.hit e)
    (hsame : { x with hit := y.hit } = y) : p.policy x = p.policy y := by
  have hpolicy : p.policy x = p.policy { x with hit := y.hit } := by
    simp only [Profile.policy, Profile.killed, Profile.forcePolicy, Profile.appPolicy, Profile.sentToLAN,
      p.blocks_congr hhit, tiersOutcome_congr hhit]
    rfl
  rw [hpolicy, hsame]

end GlitchCore
