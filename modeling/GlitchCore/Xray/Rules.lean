import GlitchCore.Routing.Policy

/-!
# The field rules of an xray config

`applyRouting` writes a profile into an xray config: the outbounds its rules name, and the rule list.
A rule is a record of fields; xray takes the first rule all of whose set fields match. The rules stand
here as the records they are marshalled from.
-/

namespace GlitchCore.Xray

open GoText

def directTag : Text := "direct".toList

def blockTag : Text := "block".toList

def exitEchoTag : Text := "exitecho".toList

def appTrafficTag : Text := "tun2socks".toList

def forceProxyTag : Text := "forceproxy".toList

def outboundTag : Text := "proxy".toList

def balancerTag : Text := "vpn".toList

structure FieldRule where
  outboundTag : Text := []
  balancerTag : Text := []
  inboundTag : List Text := []
  domain : List Text := []
  ip : List Text := []
  port : Text := []
  network : Text := []
  process : List Text := []
  deriving DecidableEq, Repr

structure RouteTarget where
  tag : Text
  isBalancer : Bool
  deriving DecidableEq, Repr

def RouteTarget.apply (t : RouteTarget) (r : FieldRule) : FieldRule :=
  if t.isBalancer then { r with balancerTag := t.tag } else { r with outboundTag := t.tag }

def direct : RouteTarget := ⟨directTag, false⟩

def block : RouteTarget := ⟨blockTag, false⟩

def routeTarget (links : Nat) : RouteTarget :=
  if links = 1 then ⟨outboundTag, false⟩ else ⟨balancerTag, true⟩

def xrayMatcher (e : Entry) : Text :=
  match e.kind with
  | .geoSite => "geosite:".toList ++ e.value
  | .geoIP => "geoip:".toList ++ e.value
  | .domainSuffix => "domain:".toList ++ e.value
  | .domainFull => "full:".toList ++ e.value
  | .domainRegex => "regexp:".toList ++ e.value
  | .domainKeyword | .ipCIDR | .process => e.value

def addMatcher (r : FieldRule) (e : Entry) : FieldRule × Bool :=
  let matcher := xrayMatcher e
  if matcher = [] then (r, false)
  else if e.kind = .process then ({ r with process := r.process ++ [matcher] }, true)
  else if e.byAddress then ({ r with ip := r.ip ++ [matcher] }, true)
  else ({ r with domain := r.domain ++ [matcher] }, true)

/-- Adds the entries one after the other; the flag tells whether one of them left a matcher. -/
def addMatchers (r : FieldRule) (flag : Bool) (entries : List Entry) : FieldRule × Bool :=
  entries.foldl (fun acc e => ((addMatcher acc.1 e).1, (addMatcher acc.1 e).2 || acc.2)) (r, flag)

/-- The rule of one step, `none` for a step that leaves no matcher. -/
def stepRule (inbounds : List Text) (targetOf : Step → RouteTarget) (step : Step) : Option FieldRule :=
  let entries := addMatchers { inboundTag := inbounds } false step.entries
  let also := addMatchers entries.1 (step.also == []) step.also
  if !entries.2 || !also.2 then none else some ((targetOf step).apply also.1)

def stepRules (steps : List Step) (inbounds : List Text) (targetOf : Step → RouteTarget) : List FieldRule :=
  steps.filterMap (stepRule inbounds targetOf)

/-! ### Direct outbounds -/

structure FreedomFinalRule where
  action : Text
  ip : List Text
  blockDelay : Option Nat
  deriving DecidableEq, Repr

structure Outbound where
  protocol : Text
  tag : Text
  sendThrough : Option Text := none
  interface : Text := []
  finalRules : List FreedomFinalRule := []
  deriving DecidableEq, Repr

structure RouterConfig where
  ruleList : List FieldRule
  balancers : List Text
  domainStrategy : Option Text
  deriving DecidableEq, Repr

structure Config where
  outboundConfigs : List Outbound
  routerConfig : Option RouterConfig
  deriving DecidableEq, Repr

def hasOutbound (cfg : Config) (tag : Text) : Bool := cfg.outboundConfigs.any fun ob => ob.tag == tag

def ensureOutbound (cfg : Config) (ob : Outbound) : Config :=
  if hasOutbound cfg ob.tag then cfg else { cfg with outboundConfigs := cfg.outboundConfigs ++ [ob] }

def isDirectAddress (e : Entry) : Bool := e.target == .direct && e.byAddress

/-- One round of the second loop of `directFinalRules`. -/
def addFinalRule (rules : List FreedomFinalRule) (e : Entry) : List FreedomFinalRule :=
  let action := if isDirectAddress e then "allow".toList else "block".toList
  match rules.getLast? with
  | some last =>
      if last.action = action then rules.dropLast ++ [{ last with ip := last.ip ++ [xrayMatcher e] }]
      else rules ++ [⟨action, [xrayMatcher e], none⟩]
  | none => [⟨action, [xrayMatcher e], none⟩]

/-- The tier's address entries up to its last direct one, as the outbound that resolves a name again
reads them. -/
def directFinalRules (entries : List Entry) : List FreedomFinalRule :=
  ((entries.filter Entry.byAddress).rdropWhile fun e => !isDirectAddress e).foldl addFinalRule []

def directOutbound (p : Profile) (tag : Text) : Outbound where
  protocol := "freedom".toList
  tag := tag
  sendThrough := if p.directSendThrough ≠ [] then some p.directSendThrough else none
  interface := p.directInterface

def tierDirectTag (tierIndex : Nat) : Text := directTag ++ "-".toList ++ itoa tierIndex

def tierDirectOutbound (p : Profile) (tag : Text) (rules : List FreedomFinalRule) : Outbound :=
  { directOutbound p tag with finalRules := rules ++ [⟨"block".toList, [], some 0⟩] }

/-! ### Rules of a profile -/

/-- The matcher every flow addressed by a name meets. -/
def anyDomain : Text := "regexp:.".toList

/-- The matchers every flow addressed by IP meets, and a name once xray resolves it. -/
def anyIP : List Text := ["0.0.0.0/0".toList, "::/0".toList]

/-- The router strategy a caller's value names; the flag is false for an unknown one. -/
def normalizeDomainStrategy (s : Text) : Text × Bool :=
  let s := toLower (trimSpace s)
  if s = [] then ([], true)
  else if s = "asis".toList then ("AsIs".toList, true)
  else if s = "ipifnonmatch".toList then ("IPIfNonMatch".toList, true)
  else if s = "ipondemand".toList then ("IPOnDemand".toList, true)
  else ([], false)

def tiersHoldIPs (tiers : List Tier) : Bool := tiers.any fun t => t.entries.any Entry.byAddress

/-- The condition that keeps the app's catch-all off a name that is yet to resolve. -/
def appResolveIP (p : Profile) : List Text :=
  if (normalizeDomainStrategy p.domainStrategy).1 = "IPIfNonMatch".toList ∧ tiersHoldIPs p.tiers then anyIP
  else []

def localNetworksOnceResolved (resolveIP : List Text) : List Text :=
  if resolveIP = [] then [] else localNetworkCIDRs

def hasProcessProxy (p : Profile) : Bool := (processRules p).any fun kv => kv.2 = .proxy

def killSwitchRules (p : Profile) : List FieldRule :=
  (if p.disableIPv6 then [block.apply { ip := ["::/0".toList] }] else []) ++
    -- :53 stays open so that DNS keeps resolving
    (if p.disableUDP then [block.apply { network := "udp".toList, port := "1-52,54-65535".toList }] else [])

def echoRule (proxy : RouteTarget) : FieldRule := proxy.apply { inboundTag := [exitEchoTag] }

/-- Force-proxy flows meet every tier's block and the local networks, then always tunnel. -/
def forceRules (p : Profile) (proxy : RouteTarget) : List FieldRule :=
  if hasProcessProxy p then
    (p.tiers.flatMap fun t => stepRules (blockSteps t.steps) [forceProxyTag] fun _ => block) ++
      (if p.localNetworks then
        [proxy.apply { inboundTag := [forceProxyTag], domain := [anyDomain] },
          direct.apply { inboundTag := [forceProxyTag], ip := localNetworkCIDRs }]
      else []) ++
      [proxy.apply { inboundTag := [forceProxyTag] }]
  else []

/-- The tier's direct entries of the address plane get an outbound of their own. -/
def needsTierDirect (p : Profile) (t : Tier) : Bool := t.entries.any isDirectAddress && p.resolvedMode == .proxyAll

def tierTargetOf (p : Profile) (proxy : RouteTarget) (t : Tier) (i : Nat) (step : Step) : RouteTarget :=
  let directByIP := if needsTierDirect p t then ⟨tierDirectTag i, false⟩ else direct
  match step.target with
  | .block => block
  | .proxy => proxy
  | .direct => if step.entries.head?.any Entry.byAddress then directByIP else direct

def tierRules (p : Profile) (proxy : RouteTarget) : List FieldRule :=
  p.tiers.zipIdx.flatMap fun (t, i) => stepRules t.steps [] (tierTargetOf p proxy t i)

def modeTarget (p : Profile) (proxy : RouteTarget) : RouteTarget :=
  if p.resolvedMode = .directAll then direct else proxy

def modeRules (p : Profile) (proxy : RouteTarget) : List FieldRule :=
  (if p.localNetworks then
    [(modeTarget p proxy).apply { inboundTag := [appTrafficTag], domain := [anyDomain],
                                  ip := localNetworksOnceResolved (appResolveIP p) },
      direct.apply { ip := localNetworkCIDRs }]
  else []) ++
    [(modeTarget p proxy).apply { inboundTag := [appTrafficTag], ip := appResolveIP p }]

/-- Priority: protocol kill-switches, exit echo, force-proxy flows, tiers in order, local networks,
mode catch-all. -/
def routingRules (p : Profile) (proxy : RouteTarget) : List FieldRule :=
  killSwitchRules p ++ [echoRule proxy] ++ forceRules p proxy ++ tierRules p proxy ++ modeRules p proxy

def ensureOutbounds (p : Profile) (cfg : Config) : Config :=
  let needDirect := p.resolvedMode == .directAll || p.localNetworks || p.hasDirect
  let needBlock := p.hasBlock || p.disableIPv6 || p.disableUDP
  let cfg := if needDirect then ensureOutbound cfg (directOutbound p directTag) else cfg
  let cfg := if needBlock then ensureOutbound cfg { protocol := "blackhole".toList, tag := blockTag } else cfg
  p.tiers.zipIdx.foldl (fun cfg (t, i) =>
    if needsTierDirect p t then
      ensureOutbound cfg (tierDirectOutbound p (tierDirectTag i) (directFinalRules t.entries))
    else cfg) cfg

/-- Balancers already in the router config are kept. -/
def applyRouting (p : Profile) (cfg : Config) (proxyTag : Text) (targetIsBalancer : Bool) : Config :=
  let cfg := ensureOutbounds p cfg
  let router := cfg.routerConfig.getD ⟨[], [], none⟩
  { cfg with
    routerConfig := some
      { router with
        ruleList := routingRules p ⟨proxyTag, targetIsBalancer⟩
        domainStrategy := if p.domainStrategy ≠ [] then some p.domainStrategy else router.domainStrategy } }

/-! ### DNS rules -/

def dnsOutboundTag : Text := "dns-out".toList

/-- The inbound of the DNS module's own upstream queries. -/
def dnsInternalTag : Text := "dns-internal".toList

def dnsRule : FieldRule where
  port := "53".toList
  inboundTag := [appTrafficTag, forceProxyTag]
  outboundTag := dnsOutboundTag

def internalRule : FieldRule where
  inboundTag := [dnsInternalTag]
  outboundTag := directTag

/-- The rules fake-ip puts in front of the routing rules; pure proxy-all has no direct outbound, so there
the module's queries resolve through the tunnel. -/
def applyFakeDNSRules (cfg : Config) : Config :=
  let cfg := ensureOutbound cfg { protocol := "dns".toList, tag := dnsOutboundTag }
  let rules := if hasOutbound cfg directTag then [internalRule, dnsRule] else [dnsRule]
  let router := cfg.routerConfig.getD ⟨[], [], none⟩
  { cfg with routerConfig := some { router with ruleList := rules ++ router.ruleList } }

/-- The part of `ApplyDNS` the router sees. -/
def applyDNSRules (cfg : Config) (fakeIP : Bool) : Config := if fakeIP then applyFakeDNSRules cfg else cfg

end GlitchCore.Xray
