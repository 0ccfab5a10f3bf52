import GlitchCore.Base.Fields
import GlitchCore.Routing.Engines
import GlitchCore.Xray.Build
import GlitchCore.Xray.Strategy

/-!
# Kill-switches

`DisableUDP` is to block UDP except to port 53, `DisableIPv6` all IPv6, ahead of every other rule.
Both engines put their switches behind nothing but DNS interception and the refusal of fake addresses,
so no tier, mode or local network gets past them. One port does: the port list of the field rule starts
at 1, so on xray a UDP flow to port 0 meets the rest of the rules.
-/

namespace GlitchCore

open GoText NetAddr

/-- An engine with the config around the profile's rules; `lookup` is what a name resolves to. -/
inductive Engine where
  | xray (cfg : Xray.Config) (links : Nat) (fakeIP : Bool) (foreign : Text → Bool) (lookup : Text → List IP)
  | mihomo (target : Text) (forceProxy fakeIP : Bool) (fakeIPRange fakeIPRange6 : Text)

/-- A flow addressed by a name alone gets the addresses of the name. -/
def Destination.resolve (lookup : Text → List IP) (d : Destination) : Destination :=
  match d.name, d.addresses with
  | some n, [] => ⟨some n, lookup n⟩
  | _, _ => d

def xrayConfig (p : Profile) (cfg : Xray.Config) (links : Nat) (fakeIP : Bool) : Xray.Config :=
  Xray.applyDNSRules (Xray.applyRouting p cfg (Xray.routeTarget links).tag (Xray.routeTarget links).isBalancer) fakeIP

def Engine.outcome (p : Profile) (o : Oracle) (d : Destination) (inbound : Inbound) (network : Network)
    (port : BitVec 16) : Engine → Target
  | .xray cfg links fakeIP foreign lookup =>
      (xrayConfig p cfg links fakeIP).route ⟨d.flow o inbound network port, foreign⟩
        ⟨(d.resolve lookup).flow o inbound network port, foreign⟩
  | .mihomo target forceProxy fakeIP fakeIPRange fakeIPRange6 =>
      Mihomo.outcome (Mihomo.subRules p target forceProxy)
        ((Mihomo.fakePoolRejectRules fakeIP fakeIPRange fakeIPRange6).map .rule ++
          Mihomo.buildRules p target forceProxy) (d.flow o inbound network port)

/-- What the switches promise for one flow. -/
def KillSwitchesHold (engine : Engine) (p : Profile) (o : Oracle) (d : Destination) (inbound : Inbound)
    (network : Network) (port : BitVec 16) : Prop :=
  let verdict := engine.outcome p o d inbound network port
  (p.disableUDP = true → network = .udp → port ≠ 53 → verdict = .block) ∧
    (p.disableIPv6 = true → d.addresses.any IP.isIPv6 = true → port ≠ 53 → verdict = .block)

/-! ### The condition -/

def Tunnelled (p : Profile) (v : Xray.View) : Prop :=
  v.flow.inbound = .forceProxy ∧ routingHasForceProxy p = true

instance (p : Profile) (v : Xray.View) : Decidable (Tunnelled p v) := inferInstanceAs (Decidable (_ ∧ _))

/-- The rules behind the UDP switch block the flow in one pass, entries being read by xray: the other
switch, or the tiers, whose blocks a tunnelled flow meets all. -/
def BlockedByRest (p : Profile) (v : Xray.View) : Prop :=
  p.disableIPv6 = true ∧ v.flow.ipv6 = true ∨
    if Tunnelled p v then p.blocks v.xrayHits = true else tiersOutcome p.tiers v.xrayHits = some .block

/-- No tier and no catch-all takes the flow before its name resolves. The app's catch-all lets a flow without an address
wait where the profile names a strategy and a tier holds addresses; a force-proxy flow that is not tunnelled can meet
the local networks only. -/
def WaitsForLookup (p : Profile) (d : Destination) (v : Xray.View) : Prop :=
  ¬ Tunnelled p v ∧ tiersOutcome p.tiers v.xrayHits = none ∧
    match v.flow.inbound with
    | .app => p.domainStrategy ≠ [] ∧ Xray.tiersHoldIPs p.tiers = true ∧ d.addresses = []
    | .forceProxy => ¬ (p.localNetworks = true ∧ d.addresses.any inLocalNetworks = true)

/-- The rest of the rules blocks the flow in the pass that decides about it. -/
def BlockedOtherwise (p : Profile) (d : Destination) (strategy : Xray.Strategy) (plain resolved : Xray.View) : Prop :=
  match strategy with
  | .asIs => BlockedByRest p plain
  | .ipIfNonMatch => BlockedByRest p plain ∨ WaitsForLookup p d plain ∧ BlockedByRest p resolved
  | .ipOnDemand => BlockedByRest p resolved

/-- The profile's strategy, or that of the config it is written into. -/
def strategyOf (p : Profile) (cfg : Xray.Config) : Xray.Strategy :=
  if p.domainStrategy = [] then cfg.strategy else Xray.readStrategy p.domainStrategy

/-- The condition the UDP switch needs: on xray, a UDP flow to port 0 is blocked by another rule. -/
def PortZeroCovered (p : Profile) (o : Oracle) (d : Destination) (inbound : Inbound) (network : Network)
    (port : BitVec 16) : Engine → Prop
  | .xray cfg _ _ foreign lookup =>
      p.disableUDP = true → network = .udp → port = 0 →
        BlockedOtherwise p d (strategyOf p cfg) ⟨d.flow o inbound network port, foreign⟩
          ⟨(d.resolve lookup).flow o inbound network port, foreign⟩
  | .mihomo .. => True

/-! ### xray -/

theorem Xray.dnsRule_eval {v : Xray.View} (hport : v.flow.port ≠ 53) : Xray.FieldRule.eval v Xray.dnsRule = none := by
  have hlist : Xray.inPortList "53".toList v.flow.port.toNat
      = (decide (53 ≤ v.flow.port.toNat) && decide (v.flow.port.toNat ≤ 53) || false) := rfl
  have hnot : Xray.inPortList "53".toList v.flow.port.toNat = false := by
    have hne : v.flow.port.toNat ≠ 53 := fun h => hport (BitVec.eq_of_toNat_eq h)
    rw [hlist]
    simp only [Bool.or_false, Bool.and_eq_false_iff, decide_eq_false_iff_not]
    omega
  have hset : ("53".toList == ([] : Text)) = false := by decide
  rw [Xray.FieldRule.eval, if_neg]
  simp only [Xray.FieldRule.takes, Xray.dnsRule, hnot, hset, Bool.or_self, Bool.and_false, Bool.false_and,
    Bool.false_eq_true, not_false_eq_true]

theorem Xray.internalRule_eval (v : Xray.View) : Xray.FieldRule.eval v Xray.internalRule = none := by
  have hinbound : (Xray.dnsInternalTag == Xray.inboundTagOf v.flow.inbound) = false := by
    cases v.flow.inbound <;> decide
  rw [Xray.FieldRule.eval, if_neg]
  simp only [Xray.FieldRule.takes, Xray.internalRule, Xray.fieldTakes_singleton, hinbound, Bool.false_and,
    Bool.false_eq_true, not_false_eq_true]

/-- Off port 53 the DNS rules take no flow of the apps. -/
theorem xrayConfig_eval (p : Profile) (cfg : Xray.Config) (links : Nat) (fakeIP : Bool) {v : Xray.View}
    (hport : v.flow.port ≠ 53) :
    (xrayConfig p cfg links fakeIP).rules.findSome? (Xray.FieldRule.eval v)
      = (Xray.routingRules p (Xray.routeTarget links)).findSome? (Xray.FieldRule.eval v) := by
  cases fakeIP with
  | false => rfl
  | true =>
      have hprepended : ∀ c : Bool, (if c = true then [Xray.internalRule, Xray.dnsRule] else [Xray.dnsRule]).findSome?
          (Xray.FieldRule.eval v) = none := by
        intro c
        cases c <;> simp [Xray.dnsRule_eval hport, Xray.internalRule_eval]
      simp only [xrayConfig, Xray.applyDNSRules, Xray.applyFakeDNSRules, Xray.Config.rules, if_true, Option.map_some,
        Option.getD_some, (Xray.extendsTo_ensureOutbound _ _).router, List.findSome?_append, hprepended, Option.none_or]
      rfl

theorem Xray.modeRules_ne_block {v : Xray.View} (p : Profile) (links : Nat) :
    (Xray.modeRules p (Xray.routeTarget links)).findSome? (Xray.FieldRule.eval v) ≠ some .block := by
  have hmode : p.modeOutcome ≠ .block := by
    unfold Profile.modeOutcome
    cases p.resolvedMode <;> simp
  rw [Xray.modeRules_eval (Xray.routeTarget_wellFormed links) (Xray.routeTarget_outcome links)]
  split
  · simpa using hmode
  · split
    · simp
    · split
      · simpa using hmode
      · simp

theorem Xray.tunnelled_iff {p : Profile} {v : Xray.View} :
    (v.facts.force && routingHasForceProxy p) = true ↔ Tunnelled p v := by
  rw [Xray.View.facts_force, Bool.and_eq_true, beq_iff_eq]
  rfl

theorem Xray.routingRules_eq_block {p : Profile} {v : Xray.View} (links : Nat) :
    (Xray.routingRules p (Xray.routeTarget links)).findSome? (Xray.FieldRule.eval v) = some .block
      ↔ (p.disableUDP = true ∧ v.facts.udp = true) ∨ BlockedByRest p v := by
  have hmode := Xray.modeRules_ne_block (v := v) p links
  rw [Xray.routingRules_eval (Xray.routeTarget_wellFormed links) (Xray.routeTarget_outcome links), BlockedByRest,
    Profile.killed, Xray.View.facts_ipv6]
  by_cases hudp : p.disableUDP = true ∧ v.facts.udp = true
  · simp [hudp]
  · by_cases hv6 : p.disableIPv6 = true ∧ v.flow.ipv6 = true
    · simp [hv6]
    · have hkilled : (p.disableIPv6 && v.flow.ipv6 || p.disableUDP && v.facts.udp) = false := by
        rw [Bool.or_eq_false_iff, Bool.eq_false_iff, Bool.eq_false_iff, ne_eq, ne_eq, Bool.and_eq_true,
          Bool.and_eq_true]
        exact ⟨hv6, hudp⟩
      simp only [hkilled, hudp, hv6, Bool.false_eq_true, if_false, false_or, Xray.tunnelled_iff]
      split
      · rw [Option.some_inj, Profile.forcePolicy_eq_block, Xray.View.facts_hit]
      · cases hoc : tiersOutcome p.tiers v.xrayHits with
        | none => simpa using hmode
        | some t => simp

theorem xrayConfig_strategy (p : Profile) (cfg : Xray.Config) (links : Nat) (fakeIP : Bool) :
    (xrayConfig p cfg links fakeIP).strategy = strategyOf p cfg := by
  have hrouted : (Xray.applyRouting p cfg (Xray.routeTarget links).tag (Xray.routeTarget links).isBalancer).strategy
      = strategyOf p cfg := by
    simp only [Xray.Config.strategy, Xray.applyRouting, (Xray.extendsTo_ensureOutbounds p cfg).router, strategyOf,
      Option.bind_some]
    by_cases hnone : p.domainStrategy = []
    · simp only [hnone, ne_eq, not_true_eq_false, if_false, if_true]
      cases cfg.routerConfig <;> rfl
    · simp only [hnone, ne_eq, not_false_eq_true, if_false, if_true, Option.getD_some]
  rw [← hrouted]
  cases fakeIP with
  | false => rfl
  | true =>
      simp only [xrayConfig, Xray.applyDNSRules, Xray.applyFakeDNSRules, Xray.Config.strategy, if_true,
        (Xray.extendsTo_ensureOutbound _ _).router]
      rfl

/-- A flow waits under a strategy of the profile's own that xray reads as looking names up when nothing matched. -/
theorem Xray.appResolveIP_of_readStrategy {p : Profile}
    (hread : p.domainStrategy ≠ [] → Xray.readStrategy p.domainStrategy = .ipIfNonMatch) :
    Xray.appResolveIP p = if p.domainStrategy ≠ [] ∧ Xray.tiersHoldIPs p.tiers = true then Xray.anyIP else [] := by
  rw [Xray.appResolveIP]
  by_cases hnone : p.domainStrategy = []
  · have hempty : (Xray.normalizeDomainStrategy []).1 ≠ "IPIfNonMatch".toList := by decide
    simp only [hnone, hempty, false_and, ne_eq, not_true_eq_false, if_false]
  · have hlower : toLower p.domainStrategy = "ipifnonmatch".toList := by
      have hstrategy := hread hnone
      unfold Xray.readStrategy at hstrategy
      split at hstrategy
      · assumption
      · split at hstrategy <;> cases hstrategy
    have hspaces : ∀ c ∈ p.domainStrategy, isSpace c = false := fun c hc => by
      have hletters : ∀ c ∈ "ipifnonmatch".toList, isSpace c = false := List.forall_iff_forall_mem.mp (by decide)
      rw [← isSpace_toLowerRune]
      exact hletters _ (hlower ▸ List.mem_map_of_mem hc)
    have htrim : trimSpace p.domainStrategy = p.domainStrategy := trim_eq_self.mpr (edges_of_forall hspaces)
    have hnormal : (Xray.normalizeDomainStrategy p.domainStrategy).1 = "IPIfNonMatch".toList := by
      rw [Xray.normalizeDomainStrategy, htrim, hlower]
      decide
    simp only [hnormal, hnone, true_and, ne_eq, not_false_eq_true]

theorem Xray.modeRules_eq_none {p : Profile} {d : Destination} (o : Oracle) (inbound : Inbound) (network : Network)
    (port : BitVec 16) (foreign : Text → Bool) (links : Nat)
    (hread : p.domainStrategy ≠ [] → Xray.readStrategy p.domainStrategy = .ipIfNonMatch) :
    (Xray.modeRules p (Xray.routeTarget links)).findSome?
        (Xray.FieldRule.eval ⟨d.flow o inbound network port, foreign⟩) = none
      ↔ match inbound with
        | .app => p.domainStrategy ≠ [] ∧ Xray.tiersHoldIPs p.tiers = true ∧ d.addresses = []
        | .forceProxy => ¬ (p.localNetworks = true ∧ d.addresses.any inLocalNetworks = true) := by
  have hlan : (d.flow o inbound network port).lan = d.addresses.any inLocalNetworks := Destination.flow_lan
  rw [Xray.modeRules_eval (Xray.routeTarget_wellFormed links) (Xray.routeTarget_outcome links), hlan,
    show (Xray.View.mk (d.flow o inbound network port) foreign).flow.inbound = inbound from rfl]
  cases inbound with
  | forceProxy => simp
  | app =>
      have hne : Xray.anyIP ≠ [] := by decide
      rw [Xray.appResolveIP_of_readStrategy hread]
      by_cases hwait : p.domainStrategy ≠ [] ∧ Xray.tiersHoldIPs p.tiers = true
      · rw [if_pos hwait, Xray.fieldTakes_anyIP, Xray.localNetworksOnceResolved, if_neg hne,
          Xray.fieldTakes_localNetworkCIDRs, hlan]
        cases haddresses : d.addresses with
        | nil => simp [hwait]
        | cons a rest =>
            have hnot : ¬ (p.domainStrategy ≠ [] ∧ Xray.tiersHoldIPs p.tiers = true ∧ a :: rest = []) := fun h =>
              List.cons_ne_nil a rest h.2.2
            simp only [hnot, iff_false]
            split
            · simp
            · split <;> simp
      · have hnot : ¬ (p.domainStrategy ≠ [] ∧ Xray.tiersHoldIPs p.tiers = true ∧ d.addresses = []) := fun h =>
          hwait ⟨h.1, h.2.1⟩
        rw [if_neg hwait]
        simp only [hnot, iff_false]
        split
        · simp
        · split <;> simp

theorem Xray.routingRules_eq_none {p : Profile} {d : Destination} (o : Oracle) (inbound : Inbound) (network : Network)
    (port : BitVec 16) (foreign : Text → Bool) (links : Nat)
    (hread : p.domainStrategy ≠ [] → Xray.readStrategy p.domainStrategy = .ipIfNonMatch) :
    (Xray.routingRules p (Xray.routeTarget links)).findSome?
        (Xray.FieldRule.eval ⟨d.flow o inbound network port, foreign⟩) = none
      ↔ p.killed (Xray.View.mk (d.flow o inbound network port) foreign).facts = false ∧
        WaitsForLookup p d ⟨d.flow o inbound network port, foreign⟩ := by
  rw [Xray.routingRules_eval (Xray.routeTarget_wellFormed links) (Xray.routeTarget_outcome links), WaitsForLookup]
  simp only [Xray.tunnelled_iff]
  rw [show (d.flow o inbound network port).inbound = inbound from rfl,
    ← Xray.modeRules_eq_none o inbound network port foreign links hread]
  cases p.killed (Xray.View.mk (d.flow o inbound network port) foreign).facts with
  | true => simp
  | false =>
      by_cases htunnelled : Tunnelled p ⟨d.flow o inbound network port, foreign⟩
      · simp [htunnelled]
      · simp [htunnelled]

theorem Xray.route_eq_block {cfg : Xray.Config} {plain resolved : Xray.View} :
    cfg.route plain resolved = .block ↔ Xray.pick cfg.strategy cfg.rules plain resolved = some .block := by
  rw [Xray.Config.route]
  cases Xray.pick cfg.strategy cfg.rules plain resolved <;> simp

theorem Xray.pick_of_both {strategy : Xray.Strategy} {rules : List Xray.FieldRule} {plain resolved : Xray.View}
    {t : Target} (hplain : rules.findSome? (Xray.FieldRule.eval plain) = some t)
    (hresolved : rules.findSome? (Xray.FieldRule.eval resolved) = some t) :
    Xray.pick strategy rules plain resolved = some t := by
  cases strategy <;> simp [Xray.pick, hplain, hresolved]

theorem Xray.pick_eq_block {p : Profile} {cfg : Xray.Config} {links : Nat} {fakeIP : Bool} {foreign : Text → Bool}
    {lookup : Text → List IP} (o : Oracle) (d : Destination) (inbound : Inbound) (network : Network) :
    Xray.pick (xrayConfig p cfg links fakeIP).strategy (xrayConfig p cfg links fakeIP).rules
        ⟨d.flow o inbound network 0, foreign⟩ ⟨(d.resolve lookup).flow o inbound network 0, foreign⟩ = some .block
      ↔ BlockedOtherwise p d (strategyOf p cfg) ⟨d.flow o inbound network 0, foreign⟩
          ⟨(d.resolve lookup).flow o inbound network 0, foreign⟩ := by
  have hdns : (0 : BitVec 16) ≠ 53 := by decide
  have hpass : ∀ d : Destination, (xrayConfig p cfg links fakeIP).rules.findSome?
      (Xray.FieldRule.eval ⟨d.flow o inbound network 0, foreign⟩) = some .block
        ↔ BlockedByRest p ⟨d.flow o inbound network 0, foreign⟩ := fun d => by
    rw [xrayConfig_eval p cfg links fakeIP hdns, Xray.routingRules_eq_block, Xray.View.facts_udp_zero rfl]
    simp
  rw [xrayConfig_strategy]
  cases hstrategy : strategyOf p cfg with
  | asIs => rw [Xray.pick, hpass, BlockedOtherwise]
  | ipOnDemand => rw [Xray.pick, hpass, BlockedOtherwise]
  | ipIfNonMatch =>
      have hread : p.domainStrategy ≠ [] → Xray.readStrategy p.domainStrategy = .ipIfNonMatch := fun hown => by
        rwa [strategyOf, if_neg hown] at hstrategy
      rw [Xray.pick, Option.or_eq_some_iff, hpass, hpass, xrayConfig_eval p cfg links fakeIP hdns,
        Xray.routingRules_eq_none o inbound network 0 foreign links hread, BlockedOtherwise]
      constructor
      · rintro (hfirst | ⟨⟨-, hwaits⟩, hsecond⟩)
        · exact .inl hfirst
        · exact .inr ⟨hwaits, hsecond⟩
      · rintro (hfirst | ⟨hwaits, hsecond⟩)
        · exact .inl hfirst
        · cases hkilled : p.killed (Xray.View.mk (d.flow o inbound network 0) foreign).facts with
          | false => exact .inr ⟨⟨rfl, hwaits⟩, hsecond⟩
          | true =>
              -- only the other switch can have taken the flow
              rw [Profile.killed, Xray.View.facts_udp_zero rfl, Bool.and_false, Bool.or_false,
                Bool.and_eq_true] at hkilled
              exact .inl (.inl hkilled)

/-! ### mihomo -/

/-- What the rules refuse up to the kill-switches stays refused, whatever follows. -/
theorem Mihomo.outcome_of_killed {p : Profile} {f : Flow} (hkilled : p.killed f.facts = true) (target : Text)
    (forceProxy fakeIP : Bool) (fakeIPRange fakeIPRange6 : Text) :
    Mihomo.outcome (Mihomo.subRules p target forceProxy)
      ((Mihomo.fakePoolRejectRules fakeIP fakeIPRange fakeIPRange6).map .rule ++
        Mihomo.buildRules p target forceProxy) f = .block := by
  have hpool : ∀ r ∈ Mihomo.fakePoolRejectRules fakeIP fakeIPRange fakeIPRange6,
      Mihomo.Rule.eval f r = if r.cond.holds f then some .block else none := by
    intro r hr
    unfold Mihomo.fakePoolRejectRules at hr
    split at hr
    · obtain ⟨pool, -, rfl⟩ := List.mem_map.mp hr
      rfl
    · simp at hr
  simp only [Mihomo.outcome, Mihomo.buildRules, List.findSome?_append, Mihomo.rules_eval,
    FirstMatch.findSome?_congr hpool, FirstMatch.findSome?_const, Mihomo.killSwitchRules_eval, hkilled, if_true,
    Option.some_or]
  split <;> rfl

/-! ### The switches -/

theorem Destination.resolve_of_addresses {lookup : Text → List IP} {d : Destination} (haddresses : d.addresses ≠ []) :
    d.resolve lookup = d := by
  unfold Destination.resolve
  split
  · rename_i hnil
    exact absurd hnil haddresses
  · rfl

/-- **The switches hold for a flow exactly when it is not, on xray, a UDP flow to port 0 that nothing
else of the field rules blocks.** -/
theorem killSwitches_iff (engine : Engine) (p : Profile) (o : Oracle) (d : Destination) (inbound : Inbound)
    (network : Network) (port : BitVec 16) :
    KillSwitchesHold engine p o d inbound network port ↔ PortZeroCovered p o d inbound network port engine := by
  have hipv6 : ∀ d : Destination, (d.flow o inbound network port).ipv6 = d.addresses.any IP.isIPv6 := fun d =>
    Destination.flow_ipv6
  cases engine with
  | mihomo target forceProxy fakeIP fakeIPRange fakeIPRange6 =>
      simp only [PortZeroCovered, iff_true]
      refine ⟨fun hswitch hudp hport => Mihomo.outcome_of_killed ?_ .., fun hswitch hv6 _ =>
        Mihomo.outcome_of_killed ?_ ..⟩
      · have hfacts := (d.flow o inbound network port).facts_udp.mpr ⟨hudp, hport⟩
        simp [Profile.killed, hswitch, hfacts]
      · simp [Profile.killed, hswitch, hipv6, hv6]
  | xray cfg links fakeIP foreign lookup =>
      have hpass : ∀ d : Destination, port ≠ 53 →
          ((p.disableUDP = true ∧ (Xray.View.mk (d.flow o inbound network port) foreign).facts.udp = true) ∨
            BlockedByRest p ⟨d.flow o inbound network port, foreign⟩) →
          (xrayConfig p cfg links fakeIP).rules.findSome?
            (Xray.FieldRule.eval ⟨d.flow o inbound network port, foreign⟩) = some .block := fun d hport hblocked => by
        rw [xrayConfig_eval p cfg links fakeIP hport, Xray.routingRules_eq_block]
        exact hblocked
      simp only [KillSwitchesHold, PortZeroCovered, Engine.outcome, Xray.route_eq_block]
      constructor
      · rintro ⟨hudp, -⟩ hswitch hnetwork rfl
        exact (Xray.pick_eq_block o d inbound network).mp (hudp hswitch hnetwork (by decide))
      · intro hcovered
        refine ⟨fun hswitch hnetwork hport => ?_, fun hswitch hv6 hport => ?_⟩
        · by_cases hzero : port = 0
          · subst hzero
            exact (Xray.pick_eq_block o d inbound network).mpr (hcovered hswitch hnetwork rfl)
          · have hlisted : ∀ d : Destination, (Xray.View.mk (d.flow o inbound network port) foreign).facts.udp = true :=
              fun d => by
                rw [Xray.View.facts_udp hzero, Flow.facts_udp]
                exact ⟨hnetwork, hport⟩
            exact Xray.pick_of_both (hpass _ hport (.inl ⟨hswitch, hlisted d⟩))
              (hpass _ hport (.inl ⟨hswitch, hlisted _⟩))
        · have haddresses : d.addresses ≠ [] := by
            rintro hnil
            simp [hnil] at hv6
          have hblocked := hpass d hport (.inr (.inl ⟨hswitch, (hipv6 d).trans hv6⟩))
          rw [Destination.resolve_of_addresses haddresses]
          exact Xray.pick_of_both hblocked hblocked

/-- A profile with nothing but the UDP switch. -/
def udpOffProfile : Profile where
  mode := []
  tiers := []
  domainStrategy := []
  localNetworks := false
  directSendThrough := []
  directInterface := []
  disableIPv6 := false
  disableUDP := true

/-- `203.0.113.7`. -/
def serverDestination : Destination := ⟨none, [.v4 0xcb007107]⟩

/-- xray tunnels a UDP flow to port 0 that the switch is to block; mihomo refuses it. -/
theorem udpOff_port_zero_escapes :
    ¬ KillSwitchesHold (.xray ⟨[], none⟩ 1 true (fun _ => false) fun _ => []) udpOffProfile plainOracle
        serverDestination .app .udp 0 ∧
      Engine.outcome udpOffProfile plainOracle serverDestination .app .udp 0
        (.xray ⟨[], none⟩ 1 true (fun _ => false) fun _ => []) = .proxy ∧
      Engine.outcome udpOffProfile plainOracle serverDestination .app .udp 0
        (.mihomo "server".toList false true "198.19.0.0/16".toList []) = .block := by
  refine ⟨fun hholds => ?_, by decide, by decide⟩
  exact absurd (hholds.1 rfl rfl (by decide)) (by decide)

end GlitchCore
