import GlitchCore.Xray.Router

/-!
# The verdict of xray's rules

Each part of the rule list `applyRouting` writes is evaluated once, and the parts are put together:
with the strategy that never resolves a name, the first matching rule gives a flow what the policy
says, entries being read as xray reads them.
-/

namespace GlitchCore.Xray

open GoText FirstMatch

variable {v : View}

/-- The flow as the policy sees it through xray's fields. -/
def View.facts (v : View) : FlowFacts where
  force := v.flow.inbound == .forceProxy
  ipv6 := v.flow.ipv6
  udp := v.flow.network == .udp && inPortList "1-52,54-65535".toList v.flow.port.toNat
  named := v.flow.named
  lan := v.flow.lan
  hit := v.xrayHits

theorem View.facts_force (v : View) : v.facts.force = (v.flow.inbound == .forceProxy) := rfl

theorem View.facts_ipv6 (v : View) : v.facts.ipv6 = v.flow.ipv6 := rfl

theorem View.facts_named (v : View) : v.facts.named = v.flow.named := rfl

theorem View.facts_lan (v : View) : v.facts.lan = v.flow.lan := rfl

theorem View.facts_hit (v : View) : v.facts.hit = v.xrayHits := rfl

theorem inPortList_udp (port : Nat) :
    inPortList "1-52,54-65535".toList port
      = (decide (1 ≤ port) && decide (port ≤ 52) || (decide (54 ≤ port) && decide (port ≤ 65535) || false)) := rfl

/-! ### Conditions the builder spells itself -/

@[simp] theorem hitsField_anyDomain : v.hitsField .name anyDomain = v.flow.named := rfl

@[simp] theorem hitsField_anyIPv6 : v.hitsField .address "::/0".toList = v.flow.ipv6 := rfl

theorem fieldTakes_localNetworkCIDRs : fieldTakes localNetworkCIDRs (v.hitsField .address) = v.flow.lan := rfl

theorem forceInbound_beq (i : Inbound) : (forceProxyTag == inboundTagOf i) = (i == .forceProxy) := by
  cases i <;> decide

theorem appInbound_beq (i : Inbound) : (appTrafficTag == inboundTagOf i) = (i == .app) := by
  cases i <;> decide

theorem echoInbound_beq (i : Inbound) : (exitEchoTag == inboundTagOf i) = false := by
  cases i <;> decide

theorem udpNetwork_contains (n : Network) : (split ',' "udp".toList).contains (networkText n) = (n == .udp) := by
  cases n <;> decide

/-! ### Parts of the rule list -/

theorem killSwitchRules_eval (p : Profile) :
    (killSwitchRules p).findSome? (FieldRule.eval v) = if p.killed v.facts then some .block else none := by
  have hv6 : FieldRule.takes { ip := ["::/0".toList] } v = v.facts.ipv6 := by
    simp only [FieldRule.takes, fieldTakes_nil, fieldTakes_singleton, hitsField_anyIPv6, beq_self_eq_true,
      Bool.true_or, Bool.and_true, Bool.true_and, View.facts]
  have hudp : FieldRule.takes { network := "udp".toList, port := "1-52,54-65535".toList } v = v.facts.udp := by
    have hnetwork : ("udp".toList == ([] : Text)) = false := by decide
    have hport : ("1-52,54-65535".toList == ([] : Text)) = false := by decide
    simp only [FieldRule.takes, fieldTakes_nil, udpNetwork_contains, hnetwork, hport, Bool.false_or, Bool.and_true,
      Bool.true_and, View.facts, Bool.and_comm]
  have hv6rule := RouteTarget.apply_eval block_wellFormed (r := { ip := ["::/0".toList] }) rfl v
  have hudprule := RouteTarget.apply_eval block_wellFormed
    (r := { network := "udp".toList, port := "1-52,54-65535".toList }) rfl v
  rw [hv6, block_outcome] at hv6rule
  rw [hudp, block_outcome] at hudprule
  rw [killSwitchRules, List.findSome?_append, Profile.killed]
  by_cases h6 : p.disableIPv6 = true <;> by_cases hu : p.disableUDP = true <;>
    cases hf6 : v.facts.ipv6 <;> cases hfu : v.facts.udp <;>
    simp only [h6, hu, hf6, hfu, hv6rule, hudprule, if_true, if_false, List.findSome?_singleton, List.findSome?_nil,
      Option.or_none, Option.none_or, Option.some_or, Bool.true_and, Bool.false_and, Bool.or_false, Bool.or_true,
      Bool.false_eq_true]

theorem echoRule_eval {proxy : RouteTarget} (hproxy : proxy.WellFormed) : FieldRule.eval v (echoRule proxy) = none := by
  rw [echoRule, RouteTarget.apply_eval hproxy rfl]
  simp [FieldRule.takes, echoInbound_beq]

theorem tierTargetOf_wellFormed {proxy : RouteTarget} (hproxy : proxy.WellFormed) (p : Profile) (t : Tier)
    (i : Nat) (s : Step) : (tierTargetOf p proxy t i s).WellFormed := by
  unfold tierTargetOf
  cases s.target with
  | block => exact block_wellFormed
  | proxy => exact hproxy
  | direct =>
      dsimp only
      split
      · split
        · simp [RouteTarget.WellFormed]
        · exact direct_wellFormed
      · exact direct_wellFormed

theorem tierTargetOf_outcome {proxy : RouteTarget} (hproxy : proxy.outcome = .proxy) (p : Profile) (t : Tier)
    (i : Nat) (s : Step) : (tierTargetOf p proxy t i s).outcome = s.target := by
  unfold tierTargetOf
  cases s.target with
  | block => exact block_outcome
  | proxy => exact hproxy
  | direct =>
      dsimp only
      split
      · split
        · exact tierDirectTag_outcome i
        · exact direct_outcome
      · exact direct_outcome

theorem tierRules_eval {proxy : RouteTarget} (hwf : proxy.WellFormed) (hproxy : proxy.outcome = .proxy)
    (p : Profile) :
    (tierRules p proxy).findSome? (FieldRule.eval v) = tiersOutcome p.tiers v.xrayHits := by
  have htier : ∀ x ∈ p.tiers.zipIdx,
      (stepRules x.1.steps [] (tierTargetOf p proxy x.1 x.2)).findSome? (FieldRule.eval v)
        = x.1.outcome v.xrayHits := by
    rintro ⟨t, i⟩ -
    rw [stepRules_eval (fun s hs => t.steps_shaped hs) (fun e he => t.value_ne_nil he) []
      (tierTargetOf_wellFormed hwf p t i), fieldTakes_nil, if_pos rfl]
    simp only [tierTargetOf_outcome hproxy, Step.eval_map_target]
    rfl
  rw [tierRules, findSome?_flatMap, findSome?_congr htier, tiersOutcome]
  conv_rhs => rw [← List.zipIdx_map_fst 0 p.tiers, List.findSome?_map]
  rfl

theorem blockRules_eval (p : Profile) :
    (p.tiers.flatMap fun t => stepRules (blockSteps t.steps) [forceProxyTag] fun _ => block).findSome?
        (FieldRule.eval v)
      = if v.facts.force && p.blocks v.xrayHits then some .block else none := by
  have htier : ∀ t ∈ p.tiers,
      (stepRules (blockSteps t.steps) [forceProxyTag] fun _ => block).findSome? (FieldRule.eval v)
        = if v.facts.force && t.entries.any fun e => decide (e.target = .block) && v.xrayHits e then
            some .block
          else none := by
    intro t _
    have hsteps : ∀ s ∈ blockSteps t.steps,
        ((s.eval v.xrayHits).map fun _ => block.outcome)
          = if s.entries.any v.xrayHits then some .block else none := by
      intro s hs
      simp only [Step.eval, (mem_blockSteps.mp hs).2.2, true_or, and_true, block_outcome]
      split <;> rfl
    rw [stepRules_eval (fun s hs => t.steps_shaped (mem_blockSteps.mp hs).1) (fun e he => t.value_ne_nil he)
      [forceProxyTag] fun _ => block_wellFormed, findSome?_congr hsteps, findSome?_const, t.any_blockSteps,
      fieldTakes_singleton, forceInbound_beq]
    by_cases hforce : (v.flow.inbound == Inbound.forceProxy) = true <;> simp [View.facts, hforce]
  rw [findSome?_flatMap, findSome?_congr htier, findSome?_const, Profile.blocks]
  cases v.facts.force <;> simp

theorem hasProcessProxy_eq (p : Profile) : hasProcessProxy p = routingHasForceProxy p := rfl

theorem forceRules_eval {proxy : RouteTarget} (hwf : proxy.WellFormed) (hproxy : proxy.outcome = .proxy)
    (p : Profile) :
    (forceRules p proxy).findSome? (FieldRule.eval v)
      = if v.facts.force && routingHasForceProxy p then some (p.forcePolicy v.facts) else none := by
  have hnamed : FieldRule.takes { inboundTag := [forceProxyTag], domain := [anyDomain] } v
      = (v.facts.force && v.facts.named) := by
    simp [FieldRule.takes, forceInbound_beq, View.facts]
  have hlan : FieldRule.takes { inboundTag := [forceProxyTag], ip := localNetworkCIDRs } v
      = (v.facts.force && v.facts.lan) := by
    simp [FieldRule.takes, forceInbound_beq, View.facts, fieldTakes_localNetworkCIDRs]
  have hall : FieldRule.takes { inboundTag := [forceProxyTag] } v = v.facts.force := by
    simp [FieldRule.takes, forceInbound_beq, View.facts]
  rw [forceRules, hasProcessProxy_eq]
  by_cases hpp : routingHasForceProxy p = true
  · rw [if_pos hpp, hpp, Bool.and_true, List.findSome?_append, List.findSome?_append, blockRules_eval,
      List.findSome?_singleton, RouteTarget.apply_eval hwf rfl, hall, hproxy, Profile.forcePolicy, Profile.sentToLAN]
    rw [View.facts_hit]
    by_cases hforce : v.facts.force = true
    · cases p.blocks v.xrayHits
      · cases p.localNetworks
        · simp [hforce]
        · simp only [if_true, List.findSome?_cons, RouteTarget.apply_eval hwf, RouteTarget.apply_eval direct_wellFormed,
            hnamed, hlan, hforce, hproxy]
          cases v.facts.named <;> cases v.facts.lan <;> simp
      · simp [hforce]
    · cases p.localNetworks <;>
        simp [hforce, RouteTarget.apply_eval hwf, RouteTarget.apply_eval direct_wellFormed,
            hnamed, hlan]
  · simp [hpp]

theorem modeTarget_wellFormed {proxy : RouteTarget} (hwf : proxy.WellFormed) (p : Profile) :
    (modeTarget p proxy).WellFormed := by
  unfold modeTarget
  split
  · exact direct_wellFormed
  · exact hwf

theorem modeTarget_outcome {proxy : RouteTarget} (hproxy : proxy.outcome = .proxy) (p : Profile) :
    (modeTarget p proxy).outcome = p.modeOutcome := by
  unfold modeTarget Profile.modeOutcome
  cases p.resolvedMode <;> simp [hproxy]

/-- The local networks and the catch-all, with the conditions a name may have to wait for. -/
theorem modeRules_eval {proxy : RouteTarget} (hwf : proxy.WellFormed) (hproxy : proxy.outcome = .proxy)
    (p : Profile) :
    (modeRules p proxy).findSome? (FieldRule.eval v)
      = if p.localNetworks && (v.flow.inbound == .app && v.flow.named &&
          fieldTakes (localNetworksOnceResolved (appResolveIP p)) (v.hitsField .address)) then some p.modeOutcome
        else if p.localNetworks && v.flow.lan then some .direct
        else if v.flow.inbound == .app && fieldTakes (appResolveIP p) (v.hitsField .address) then
          some p.modeOutcome
        else none := by
  have hmode := modeTarget_wellFormed hwf p
  have hnamed : FieldRule.takes { inboundTag := [appTrafficTag], domain := [anyDomain],
                                  ip := localNetworksOnceResolved (appResolveIP p) } v
      = (v.flow.inbound == .app && v.flow.named &&
          fieldTakes (localNetworksOnceResolved (appResolveIP p)) (v.hitsField .address)) := by
    simp [FieldRule.takes, appInbound_beq]
  have hlan : FieldRule.takes { ip := localNetworkCIDRs } v = v.flow.lan := by
    simp [FieldRule.takes, fieldTakes_localNetworkCIDRs]
  have hall : FieldRule.takes { inboundTag := [appTrafficTag], ip := appResolveIP p } v
      = (v.flow.inbound == .app && fieldTakes (appResolveIP p) (v.hitsField .address)) := by
    simp [FieldRule.takes, appInbound_beq]
  rw [modeRules, List.findSome?_append, List.findSome?_singleton, RouteTarget.apply_eval hmode rfl, hall,
    modeTarget_outcome hproxy]
  cases p.localNetworks with
  | false => simp
  | true =>
      simp only [if_true, List.findSome?_cons, List.findSome?_nil, RouteTarget.apply_eval hmode,
        RouteTarget.apply_eval direct_wellFormed, hnamed, hlan, modeTarget_outcome hproxy, direct_outcome,
        Bool.true_and]
      by_cases hfirst : (v.flow.inbound == .app && v.flow.named &&
          fieldTakes (localNetworksOnceResolved (appResolveIP p)) (v.hitsField .address)) = true
      · simp only [if_pos hfirst, Option.some_or]
      · by_cases hsecond : v.flow.lan = true
        · simp only [if_neg hfirst, if_pos hsecond, Option.some_or]
        · simp only [if_neg hfirst, if_neg hsecond, Option.none_or]

/-- The first rule that takes a flow, part by part. -/
theorem routingRules_eval {proxy : RouteTarget} (hwf : proxy.WellFormed) (hproxy : proxy.outcome = .proxy)
    (p : Profile) :
    (routingRules p proxy).findSome? (FieldRule.eval v)
      = if p.killed v.facts then some .block
        else if v.facts.force && routingHasForceProxy p then some (p.forcePolicy v.facts)
        else (tiersOutcome p.tiers v.xrayHits).or ((modeRules p proxy).findSome? (FieldRule.eval v)) := by
  rw [routingRules, List.findSome?_append, List.findSome?_append, List.findSome?_append,
    List.findSome?_append, List.findSome?_singleton, killSwitchRules_eval, echoRule_eval hwf, Option.or_none,
    forceRules_eval hwf hproxy, tierRules_eval hwf hproxy]
  by_cases hkilled : p.killed v.facts = true
  · simp only [if_pos hkilled, Option.some_or]
  · by_cases hforce : (v.facts.force && routingHasForceProxy p) = true
    · simp only [if_neg hkilled, if_pos hforce, Option.none_or, Option.some_or]
    · simp only [if_neg hkilled, if_neg hforce, Option.none_or]

theorem routingRules_outcome {proxy : RouteTarget} (hwf : proxy.WellFormed) (hproxy : proxy.outcome = .proxy)
    (p : Profile) :
    outcome (routingRules p proxy) v
      = if p.killed v.facts then .block
        else if v.facts.force && routingHasForceProxy p then p.forcePolicy v.facts
        else (tiersOutcome p.tiers v.xrayHits).getD
          (((modeRules p proxy).findSome? (FieldRule.eval v)).getD .proxy) := by
  rw [outcome, routingRules_eval hwf hproxy, apply_ite (Option.getD · Target.proxy),
    apply_ite (Option.getD · Target.proxy), Option.getD_or]
  rfl

/-- Where a name is never resolved, the rules give what the policy says. -/
theorem routingRules_policy {proxy : RouteTarget} (hwf : proxy.WellFormed) (hproxy : proxy.outcome = .proxy)
    {p : Profile} (hresolve : appResolveIP p = [])
    (hforce : v.flow.inbound = .forceProxy → routingHasForceProxy p = true) :
    outcome (routingRules p proxy) v = p.policy v.facts := by
  rw [routingRules_outcome hwf hproxy, modeRules_eval hwf hproxy, Profile.policy, Profile.appPolicy, hresolve]
  rw [Profile.sentToLAN, View.facts_force, View.facts_named, View.facts_lan, View.facts_hit]
  cases hinbound : v.flow.inbound with
  | forceProxy =>
      have hflag : (Inbound.forceProxy == Inbound.forceProxy && routingHasForceProxy p) = true := by
        rw [hforce hinbound]
        rfl
      simp only [if_pos hflag]
  | app =>
      have happ : (Inbound.app == Inbound.app) = true := rfl
      simp only [localNetworksOnceResolved, if_true, fieldTakes_nil, happ, Bool.true_and, Bool.and_true]
      cases p.localNetworks <;> cases v.flow.named <;> cases v.flow.lan <;> rfl

/-! ### Validated profiles -/

theorem readHeads_bare {heads : List (Text × Option MatchKind)} {bare : MatchKind} {s : Text}
    (hfree : ∀ h ∈ heads, ¬ h.1 <+: s) : readHeads heads bare s = .entry bare s := by
  have hnone : (heads.find? fun h => h.1.isPrefixOf s) = none := by
    rw [List.find?_eq_none]
    intro h hh
    simp [hfree h hh]
  rw [readHeads, hnone]

theorem readDomain_head {e : Entry} (hkind : e.kind ≠ .domainKeyword) (hplane : e.plane = .name) :
    readDomain (xrayMatcher e) = .entry e.kind e.value := by
  obtain ⟨kind, value, target⟩ := e
  cases kind with
  | domainKeyword => exact absurd rfl hkind
  | geoIP | ipCIDR | process => simp [Entry.plane, Entry.byAddress] at hplane
  | domainSuffix | domainFull | domainRegex | geoSite => rfl

theorem readDomain_keyword {value : Text} (hvalid : validKeyword value = none) :
    readDomain value = .entry .domainKeyword value := by
  have hheads : ∀ h ∈ domainHeads, h.1 ∈ xrayMatcherPrefixes := by decide
  rw [validKeyword, Option.map_eq_none_iff, List.find?_eq_none] at hvalid
  exact readHeads_bare fun h hh => by simpa using hvalid h.1 (hheads h hh)

theorem parseIP_ipHead {head : Text × Option MatchKind} (hhead : head ∈ ipHeads) (s : Text) :
    NetAddr.parseIP (head.1 ++ s) = none := by
  simp only [ipHeads, List.mem_cons, List.not_mem_nil, or_false] at hhead
  -- the head's colon makes it an IPv6 address, whose first group is no hexadecimal number
  rcases hhead with rfl | rfl | rfl
  · show (if '%' ∈ "geoip:".toList ++ s then none
      else (NetAddr.parseIPv6 ("geoip:".toList ++ s)).map NetAddr.IP.v6) = none
    split <;> rfl
  · show (if '%' ∈ "ext:".toList ++ s then none
      else (NetAddr.parseIPv6 ("ext:".toList ++ s)).map NetAddr.IP.v6) = none
    split <;> rfl
  · show (if '%' ∈ "ext-ip:".toList ++ s then none
      else (NetAddr.parseIPv6 ("ext-ip:".toList ++ s)).map NetAddr.IP.v6) = none
    split <;> rfl

theorem isIPOrCIDR_ipHead {head : Text × Option MatchKind} (hhead : head ∈ ipHeads) (s : Text) :
    isIPOrCIDR (head.1 ++ s) = false := by
  have hslashes : ∀ h ∈ ipHeads, ∀ c ∈ h.1, (c != '/') = true := by
    simp [ipHeads]
  have hfree := hslashes head hhead
  rw [isIPOrCIDR]
  split
  · rename_i hslash
    have hcut : cut '/' (head.1 ++ s)
        = some (head.1 ++ s.takeWhile (· != '/'), (s.dropWhile (· != '/')).tail) := by
      simp [cut, hslash, List.takeWhile_append_of_pos hfree, List.dropWhile_append_of_pos hfree]
    simp [NetAddr.parseCIDR, hcut, parseIP_ipHead hhead]
  · simp [parseIP_ipHead hhead]

theorem readIP_address {value : Text} (haddress : isIPOrCIDR value = true) :
    readIP value = .entry .ipCIDR value := by
  refine readHeads_bare fun h hh => ?_
  rintro ⟨rest, rfl⟩
  simp [isIPOrCIDR_ipHead hh] at haddress

/-- In a validated profile xray reads every entry as the entry itself. -/
theorem xrayHits_eq {p : Profile} (hvalid : p.validate = none) {t : Tier} (ht : t ∈ p.tiers) {e : Entry}
    (he : e ∈ t.entries) : v.xrayHits e = v.flow.hitsEntry e := by
  obtain ⟨m, hm, hclass⟩ := t.exists_matcher he
  have hmatcher := p.validate_eq_none hvalid ht hm
  rw [View.xrayHits]
  cases hplane : e.plane with
  | name =>
      have hread : readDomain (xrayMatcher e) = .entry e.kind e.value := by
        by_cases hkind : e.kind = .domainKeyword
        · rw [validateMatcher, hclass, hkind] at hmatcher
          have hkeyword : validKeyword e.value = none := by
            dsimp only at hmatcher
            split at hmatcher
            · simp at hmatcher
            · split at hmatcher
              · simp at hmatcher
              · simpa using hmatcher
          have hspelled : xrayMatcher e = e.value := by simp [xrayMatcher, hkind]
          rw [hspelled, readDomain_keyword hkeyword, hkind]
        · exact readDomain_head hkind hplane
      simp only [View.hitsField, hread, View.hitsMatcher, Flow.hitsEntry]
  | address =>
      have hread : readIP (xrayMatcher e) = .entry e.kind e.value := by
        obtain ⟨kind, value, target⟩ := e
        cases kind with
        | geoIP => rfl
        | ipCIDR => exact readIP_address (isIPOrCIDR_of_classify hclass)
        | domainSuffix | domainFull | domainKeyword | domainRegex | geoSite | process =>
            simp [Entry.plane, Entry.byAddress] at hplane
      simp only [View.hitsField, hread, View.hitsMatcher, Flow.hitsEntry]
  | app =>
      have hkind : e.kind = .process := by
        by_contra hne
        cases haddress : e.byAddress <;> simp [Entry.plane, hne, haddress] at hplane
      simp [View.hitsField, Flow.hitsEntry, xrayMatcher, hkind]

end GlitchCore.Xray
