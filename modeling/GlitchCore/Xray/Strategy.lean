import GlitchCore.Xray.Verdict

/-!
# Names and router strategies

A flow addressed by a name is routed by the name alone, by its addresses from the start, or by the name
first and by its addresses when no rule took the name. `routedName` says what each strategy is for; the
rules keep to it because what would take every name waits, under the last strategy, for the lookup an
address entry of a tier may still need, and because a name meets the rule in front of the
local-networks rule first.
-/

namespace GlitchCore.Xray

open GoText NetAddr FirstMatch

inductive Strategy where
  | asIs
  | ipIfNonMatch
  | ipOnDemand
  deriving DecidableEq, Repr

def Strategy.text : Strategy → Text
  | .asIs => "AsIs".toList
  | .ipIfNonMatch => "IPIfNonMatch".toList
  | .ipOnDemand => "IPOnDemand".toList

/-- How xray reads the config's value: an unknown one is the default. -/
def readStrategy (s : Text) : Strategy :=
  if toLower s = "ipifnonmatch".toList then .ipIfNonMatch
  else if toLower s = "ipondemand".toList then .ipOnDemand
  else .asIs

def Config.strategy (cfg : Config) : Strategy :=
  readStrategy ((cfg.routerConfig.bind RouterConfig.domainStrategy).getD [])

/-- The router's choice: `plain` is the flow as it arrived, `resolved` the flow with the addresses of its
name. -/
def pick (strategy : Strategy) (rules : List FieldRule) (plain resolved : View) : Option Target :=
  match strategy with
  | .asIs => rules.findSome? (FieldRule.eval plain)
  | .ipIfNonMatch => (rules.findSome? (FieldRule.eval plain)).or (rules.findSome? (FieldRule.eval resolved))
  | .ipOnDemand => rules.findSome? (FieldRule.eval resolved)

def Config.route (cfg : Config) (plain resolved : View) : Target :=
  (pick cfg.strategy cfg.rules plain resolved).getD .proxy

/-- What a strategy does with a name: `byName` are the entries the name alone matches, `byAddress` those
the name with its addresses does. -/
def routedName (strategy : Strategy) (p : Profile) (byName byAddress : Entry → Bool) : Target :=
  match strategy with
  | .asIs => (tiersOutcome p.tiers byName).getD p.modeOutcome
  | .ipIfNonMatch =>
      if p.tiers.any fun t => t.entries.any byName then (tiersOutcome p.tiers byName).getD p.modeOutcome
      else if tiersHoldIPs p.tiers then (tiersOutcome p.tiers byAddress).getD p.modeOutcome
      else p.modeOutcome
  | .ipOnDemand => (tiersOutcome p.tiers byAddress).getD p.modeOutcome

/-! ### The local-networks rules -/

/-- A rule that sends the local networks to the direct outbound, whatever name the flow has. -/
def LocalNetworksRule (r : FieldRule) : Prop := r.outboundTag = directTag ∧ r.ip = localNetworkCIDRs ∧ r.domain = []

@[simp] theorem RouteTarget.apply_ip (t : RouteTarget) (r : FieldRule) : (t.apply r).ip = r.ip := by
  unfold RouteTarget.apply
  split <;> rfl

@[simp] theorem RouteTarget.apply_domain (t : RouteTarget) (r : FieldRule) : (t.apply r).domain = r.domain := by
  unfold RouteTarget.apply
  split <;> rfl

theorem not_localNetworksRule_of_ip {r : FieldRule} (h : r.ip ≠ localNetworkCIDRs) : ¬ LocalNetworksRule r :=
  fun hlocal => h hlocal.2.1

theorem not_localNetworksRule_of_domain {r : FieldRule} (h : r.domain ≠ []) : ¬ LocalNetworksRule r :=
  fun hlocal => h hlocal.2.2

theorem not_localNetworksRule_block (r : FieldRule) : ¬ LocalNetworksRule (block.apply r) := by
  have htag : blockTag ≠ directTag := by decide
  exact fun hlocal => htag hlocal.1

variable {v : View} {p : Profile} {proxy : RouteTarget} {r : FieldRule}

theorem killSwitchRules_not_local (hr : r ∈ killSwitchRules p) : ¬ LocalNetworksRule r := by
  rcases List.mem_append.mp hr with hr | hr
  all_goals
    split at hr
    · rw [List.mem_singleton.mp hr]
      exact not_localNetworksRule_block _
    · cases hr

theorem blockRules_not_local (hr : r ∈ p.tiers.flatMap fun t => stepRules (blockSteps t.steps) [forceProxyTag] fun _ =>
    block) : ¬ LocalNetworksRule r := by
  obtain ⟨t, -, hr⟩ := List.mem_flatMap.mp hr
  obtain ⟨s, -, hrule⟩ := List.mem_filterMap.mp hr
  simp only [stepRule] at hrule
  split at hrule
  · cases hrule
  · rw [← Option.some.inj hrule]
    exact not_localNetworksRule_block _

/-- A force-proxy flow with a name meets the rule for names in front of the local-networks rule. -/
theorem forceRules_not_local (hnamed : v.flow.named = true) (hr : (forceRules p proxy).find? (·.takes v) = some r) :
    ¬ LocalNetworksRule r := by
  have hall : ¬ LocalNetworksRule (proxy.apply { inboundTag := [forceProxyTag] }) :=
    not_localNetworksRule_of_ip (by rw [RouteTarget.apply_ip]; decide)
  unfold forceRules at hr
  split at hr
  swap
  · cases hr
  rw [List.append_assoc, List.find?_append, Option.or_eq_some_iff] at hr
  rcases hr with hblocked | ⟨-, hr⟩
  · exact blockRules_not_local (List.mem_of_find?_eq_some hblocked)
  rw [List.find?_append, Option.or_eq_some_iff] at hr
  rcases hr with hlocal | ⟨-, hlast⟩
  · split at hlocal
    swap
    · cases hlocal
    have hname : ¬ LocalNetworksRule (proxy.apply { inboundTag := [forceProxyTag], domain := [anyDomain] }) :=
      not_localNetworksRule_of_domain (by rw [RouteTarget.apply_domain]; decide)
    cases hin : v.flow.inbound == .forceProxy with
    | true =>
        have htakes : FieldRule.takes { inboundTag := [forceProxyTag], domain := [anyDomain] } v = true := by
          simp [FieldRule.takes, forceInbound_beq, hin, hnamed]
        rw [List.find?_cons_of_pos (by rwa [RouteTarget.apply_takes])] at hlocal
        rw [← Option.some.inj hlocal]
        exact hname
    | false =>
        simp only [List.find?_cons, RouteTarget.apply_takes] at hlocal
        simp [FieldRule.takes, forceInbound_beq, hin] at hlocal
  · rw [List.mem_singleton.mp (List.mem_of_find?_eq_some hlast)]
    exact hall

theorem modeRules_not_local (hnamed : v.flow.named = true) (happ : v.flow.inbound = .app)
    (hr : (modeRules p proxy).find? (·.takes v) = some r) : ¬ LocalNetworksRule r := by
  rw [modeRules, List.find?_append, Option.or_eq_some_iff] at hr
  rcases hr with hlocal | ⟨-, hlast⟩
  · split at hlocal
    swap
    · cases hlocal
    have hname : ∀ ip, ¬ LocalNetworksRule ((modeTarget p proxy).apply
        { inboundTag := [appTrafficTag], domain := [anyDomain], ip := ip }) := fun ip =>
      not_localNetworksRule_of_domain (by rw [RouteTarget.apply_domain]; exact List.cons_ne_nil _ _)
    cases hlan : v.flow.lan with
    | true =>
        -- the rule for names asks at most for a local address
        have honce : fieldTakes (localNetworksOnceResolved (appResolveIP p)) (v.hitsField .address) = true := by
          unfold localNetworksOnceResolved
          split
          · rfl
          · exact fieldTakes_localNetworkCIDRs.trans hlan
        have htakes : FieldRule.takes
            { inboundTag := [appTrafficTag], domain := [anyDomain],
              ip := localNetworksOnceResolved (appResolveIP p) } v = true := by
          simp [FieldRule.takes, appInbound_beq, happ, hnamed, honce]
        rw [List.find?_cons_of_pos (by rwa [RouteTarget.apply_takes])] at hlocal
        rw [← Option.some.inj hlocal]
        exact hname _
    | false =>
        rw [List.find?_cons] at hlocal
        split at hlocal
        · rw [← Option.some.inj hlocal]
          exact hname _
        · simp only [List.find?_cons, RouteTarget.apply_takes] at hlocal
          simp [FieldRule.takes, fieldTakes_localNetworkCIDRs, hlan] at hlocal
  · rw [List.mem_singleton.mp (List.mem_of_find?_eq_some hlast)]
    refine not_localNetworksRule_of_ip ?_
    rw [RouteTarget.apply_ip]
    dsimp only [appResolveIP]
    split <;> decide

/-- The first rule that takes a flow with a name is not a local-networks rule, unless a tier of the user's own says the
same. -/
theorem routingRules_not_local (hnamed : v.flow.named = true)
    (hforce : v.flow.inbound = .forceProxy → hasProcessProxy p = true)
    (hr : (routingRules p proxy).find? (·.takes v) = some r) (hlocal : LocalNetworksRule r) : r ∈ tierRules p proxy := by
  simp only [routingRules, List.find?_append, Option.or_eq_some_iff, Option.or_eq_none_iff] at hr
  rcases hr with (((hkill | ⟨-, hecho⟩) | ⟨-, hforced⟩) | ⟨-, htier⟩) | ⟨⟨⟨-, hforced⟩, -⟩, hmode⟩
  · exact absurd hlocal (killSwitchRules_not_local (List.mem_of_find?_eq_some hkill))
  · refine absurd hlocal (not_localNetworksRule_of_ip ?_)
    rw [List.mem_singleton.mp (List.mem_of_find?_eq_some hecho), echoRule, RouteTarget.apply_ip]
    decide
  · exact absurd hlocal (forceRules_not_local hnamed hforced)
  · exact List.mem_of_find?_eq_some htier
  · cases hin : v.flow.inbound with
    | app => exact absurd hlocal (modeRules_not_local hnamed hin hmode)
    | forceProxy =>
        -- the last of the force-proxy rules takes every such flow
        have hmiss := List.find?_eq_none.mp hforced (proxy.apply { inboundTag := [forceProxyTag] })
          (by simp [forceRules, hforce hin])
        rw [RouteTarget.apply_takes] at hmiss
        simp [FieldRule.takes, forceInbound_beq, hin] at hmiss

/-! ### A flow addressed by a name -/

theorem appResolveIP_eq {p : Profile} {s : Strategy} (hstrategy : p.domainStrategy = s.text) :
    appResolveIP p = if s = .ipIfNonMatch ∧ tiersHoldIPs p.tiers = true then anyIP else [] := by
  have hnormal : (normalizeDomainStrategy s.text).1 = s.text := by cases s <;> decide
  have hname : s.text = "IPIfNonMatch".toList ↔ s = .ipIfNonMatch := by cases s <;> decide
  simp only [appResolveIP, hstrategy, hnormal, hname]

theorem applyRouting_strategy {p : Profile} {s : Strategy} (hstrategy : p.domainStrategy = s.text) (cfg : Config)
    (proxy : RouteTarget) : (applyRouting p cfg proxy.tag proxy.isBalancer).strategy = s := by
  have hne : p.domainStrategy ≠ [] := by
    rw [hstrategy]
    cases s <;> decide
  have hread : readStrategy s.text = s := by cases s <;> decide
  simp only [Config.strategy, applyRouting, Option.bind_some, hne, if_true, ne_eq, not_false_eq_true,
    Option.getD_some]
  rw [hstrategy, hread]

variable {o : Oracle} {d : Destination} {network : Network} {port : BitVec 16} {foreign : Text → Bool}

theorem fieldTakes_anyIP {inbound : Inbound} :
    fieldTakes anyIP ((View.mk (d.flow o inbound network port) foreign).hitsField .address) = !d.addresses.isEmpty := by
  have hfields : fieldTakes anyIP ((View.mk (d.flow o inbound network port) foreign).hitsField .address)
      = (d.addresses.any (inCIDR "0.0.0.0/0".toList) || (d.addresses.any (inCIDR "::/0".toList) || false)) := rfl
  rw [hfields, Bool.or_false, any_congr_mem fun a _ => inCIDR_anyIPv4 a, any_congr_mem fun a _ => inCIDR_anyIPv6 a]
  cases d.addresses with
  | nil => rfl
  | cons a rest => cases hfamily : a.isIPv6 <;> simp [hfamily]

/-- The mode takes a name at once, or, where it waits for the lookup, as soon as there is an address. -/
theorem modeRules_named {proxy : RouteTarget} (hwf : proxy.WellFormed) (hproxy : proxy.outcome = .proxy)
    {p : Profile} (hresolve : appResolveIP p = [] ∨ appResolveIP p = anyIP) (hname : d.Readable)
    (hsome : d.name.isSome = true) :
    (modeRules p proxy).findSome? (FieldRule.eval ⟨d.flow o .app network port, foreign⟩)
      = if appResolveIP p = [] ∨ d.addresses ≠ [] then some p.modeOutcome else none := by
  have hnamed : (d.flow o .app network port).named = true := by rw [Destination.flow_named hname, hsome]
  have happ : (Inbound.app == Inbound.app) = true := rfl
  rw [modeRules_eval hwf hproxy]
  simp only [show (d.flow o .app network port).inbound = .app from rfl, happ, hnamed, Bool.true_and]
  rcases hresolve with hnow | hwait
  · simp only [hnow, localNetworksOnceResolved, if_true, fieldTakes_nil, Bool.and_true, true_or]
    cases p.localNetworks <;> rfl
  · have hne : anyIP ≠ [] := by decide
    have honce : localNetworksOnceResolved anyIP = localNetworkCIDRs := rfl
    have hlocal := fieldTakes_localNetworkCIDRs (v := ⟨d.flow o .app network port, foreign⟩)
    rw [hwait, honce, hlocal, fieldTakes_anyIP]
    simp only [hne, false_or]
    cases haddresses : d.addresses with
    | nil =>
        have hlan : (d.flow o .app network port).lan = false := by rw [Destination.flow_lan, haddresses]; rfl
        simp [hlan]
    | cons a rest =>
        cases p.localNetworks <;> cases (d.flow o .app network port).lan <;> simp

theorem routingRules_named (o : Oracle) (d : Destination) (port : BitVec 16) (foreign : Text → Bool)
    {proxy : RouteTarget} (hwf : proxy.WellFormed) (hproxy : proxy.outcome = .proxy) {p : Profile}
    (hvalid : p.validate = none) (hresolve : appResolveIP p = [] ∨ appResolveIP p = anyIP)
    (hname : d.Readable) (hsome : d.name.isSome = true)
    (hv6 : p.disableIPv6 = true → d.addresses.any IP.isIPv6 = false) :
    (routingRules p proxy).findSome? (FieldRule.eval ⟨d.flow o .app .tcp port, foreign⟩)
      = (tiersOutcome p.tiers fun e => d.hits o e.kind e.value).or
          (if appResolveIP p = [] ∨ d.addresses ≠ [] then some p.modeOutcome else none) := by
  have hkilled : p.killed (View.mk (d.flow o .app .tcp port) foreign).facts = false := by
    have hudp : (View.mk (d.flow o .app .tcp port) foreign).facts.udp = false := rfl
    rw [Profile.killed, hudp, Bool.and_false, Bool.or_false, View.facts_ipv6, Destination.flow_ipv6,
      Bool.and_eq_false_imp]
    exact hv6
  have htiers : tiersOutcome p.tiers (View.mk (d.flow o .app .tcp port) foreign).xrayHits
      = tiersOutcome p.tiers fun e => d.hits o e.kind e.value :=
    tiersOutcome_congr fun t ht e he => xrayHits_eq hvalid ht he
  have hforce : (View.mk (d.flow o .app .tcp port) foreign).facts.force = false := rfl
  rw [routingRules_eval hwf hproxy, hkilled, hforce, htiers, modeRules_named hwf hproxy hresolve hname hsome]
  rfl

/-- **A name is routed as its strategy says, and no local-networks rule is the first that takes it**, a rule a tier of
the user's own writes apart. -/
theorem applyRouting_routes_names (p : Profile) (hvalid : p.validate = none) (s : Strategy)
    (hstrategy : p.domainStrategy = s.text) (cfg : Config) (links : Nat) (foreign : Text → Bool) (o : Oracle)
    (n : Text) (hname : n.any (· != '\n') = true) (resolved : List IP) (hresolved : resolved ≠ [])
    (hv6 : p.disableIPv6 = true → resolved.any IP.isIPv6 = false) (port : BitVec 16) :
    (applyRouting p cfg (routeTarget links).tag (routeTarget links).isBalancer).route
        ⟨(Destination.mk (some n) []).flow o .app .tcp port, foreign⟩
        ⟨(Destination.mk (some n) resolved).flow o .app .tcp port, foreign⟩
      = routedName s p (fun e => (Destination.mk (some n) []).hits o e.kind e.value)
          (fun e => (Destination.mk (some n) resolved).hits o e.kind e.value) ∧
    ∀ inbound network port addresses r, (inbound = .forceProxy → hasProcessProxy p = true) →
      (applyRouting p cfg (routeTarget links).tag (routeTarget links).isBalancer).rules.find?
        (·.takes ⟨(Destination.mk (some n) addresses).flow o inbound network port, foreign⟩) = some r →
      LocalNetworksRule r → r ∈ tierRules p (routeTarget links) := by
  have hreadable : ∀ addresses, (Destination.mk (some n) addresses).Readable := fun addresses m hm => by
    rw [← Option.some.inj hm]
    exact hname
  have hlookup : appResolveIP p = [] ∨ appResolveIP p = anyIP := by
    rw [appResolveIP_eq hstrategy]
    split <;> simp
  have hpass := fun (addresses : List IP) (h6 : p.disableIPv6 = true → addresses.any IP.isIPv6 = false) =>
    routingRules_named o ⟨some n, addresses⟩ port foreign (routeTarget_wellFormed links) (routeTarget_outcome links)
      hvalid hlookup (hreadable addresses) rfl h6
  refine ⟨?_, fun inbound network port addresses r hforce hr =>
    routingRules_not_local (Destination.flow_named (hreadable addresses)) hforce hr⟩
  · have hplain := hpass [] fun _ => rfl
    have hfull := hpass resolved hv6
    rw [Config.route, applyRouting_strategy hstrategy, applyRouting_rules]
    have hlate : (appResolveIP p = [] ∨ resolved ≠ []) = True := by simp [hresolved]
    simp only [hlate, if_true] at hfull
    cases s with
    | asIs =>
        have hnow : appResolveIP p = [] := by simp [appResolveIP_eq hstrategy]
        simp only [hnow, true_or, if_true] at hplain
        rw [pick, hplain, routedName, Option.getD_or]
        rfl
    | ipOnDemand =>
        rw [pick, hfull, routedName, Option.getD_or]
        rfl
    | ipIfNonMatch =>
        rw [pick, hplain, hfull, routedName]
        cases hbyName : tiersOutcome p.tiers fun e => (Destination.mk (some n) []).hits o e.kind e.value with
        | some t =>
            have hany : (p.tiers.any fun t => t.entries.any fun e =>
                (Destination.mk (some n) []).hits o e.kind e.value) = true := by
              by_contra hnone
              rw [tiersOutcome_eq_none.mpr (by simpa using hnone)] at hbyName
              simp at hbyName
            simp only [hany, if_true, Option.some_or, Option.getD_some]
        | none =>
            rw [tiersOutcome_eq_none.mp hbyName, appResolveIP_eq hstrategy]
            by_cases hholds : tiersHoldIPs p.tiers = true
            · have hne : anyIP ≠ [] := by decide
              simp only [hholds, hne, and_self, if_true, ne_eq, not_true_eq_false, or_self, if_false, Option.none_or,
                Option.getD_or, Bool.false_eq_true, Option.getD_some]
            · simp [hholds]

def waitingProfile : Profile where
  mode := []
  tiers := [⟨[], ["192.0.2.0/24".toList], []⟩]
  domainStrategy := "IPIfNonMatch".toList
  localNetworks := true
  directSendThrough := []
  directInterface := []
  disableIPv6 := false
  disableUDP := false

/-- A name of the local network tunnels, a name the entry holds goes direct. -/
theorem waitingProfile_routes_names :
    waitingProfile.validate = none ∧
      (applyRouting waitingProfile ⟨[], none⟩ (routeTarget 1).tag (routeTarget 1).isBalancer).route
        ⟨(Destination.mk (some "nas.example".toList) []).flow plainOracle .app .tcp 443, fun _ => false⟩
        ⟨(Destination.mk (some "nas.example".toList) [.v4 0xc0a80105]).flow plainOracle .app .tcp 443, fun _ => false⟩
          = .proxy ∧
      (applyRouting waitingProfile ⟨[], none⟩ (routeTarget 1).tag (routeTarget 1).isBalancer).route
        ⟨(Destination.mk (some "www.example".toList) []).flow plainOracle .app .tcp 443, fun _ => false⟩
        ⟨(Destination.mk (some "www.example".toList) [.v4 0xc0000207]).flow plainOracle .app .tcp 443, fun _ => false⟩
          = .direct :=
  ⟨by decide,
    (applyRouting_routes_names waitingProfile (by decide) .ipIfNonMatch rfl ⟨[], none⟩ 1 (fun _ => false) plainOracle
      "nas.example".toList (by decide) [.v4 0xc0a80105] (by decide) (by decide) 443).1,
    (applyRouting_routes_names waitingProfile (by decide) .ipIfNonMatch rfl ⟨[], none⟩ 1 (fun _ => false) plainOracle
      "www.example".toList (by decide) [.v4 0xc0000207] (by decide) (by decide) 443).1⟩

end GlitchCore.Xray
