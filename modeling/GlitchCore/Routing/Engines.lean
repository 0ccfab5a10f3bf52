import GlitchCore.Mihomo.Verdict
import GlitchCore.Xray.Verdict

/-!
# One profile, two engines

The same rule list must mean the same on every engine. Both compilers are compared with the policy of
the profile: the field rules of one and the rule lines of the other give a flow the same outcome, and
a flow that always tunnels meets the blocks of all tiers and nothing else of them.
-/

namespace GlitchCore

open GoText NetAddr

/-- The router strategy that never resolves a name: the default, or named. -/
def Profile.asIs (p : Profile) : Prop :=
  (Xray.normalizeDomainStrategy p.domainStrategy).1 ∈ [[], "AsIs".toList]

instance (p : Profile) : Decidable p.asIs := inferInstanceAs (Decidable (_ ∈ _))

def xrayRules (p : Profile) (cfg : Xray.Config) (links : Nat) : List Xray.FieldRule :=
  (Xray.applyRouting p cfg (Xray.routeTarget links).tag (Xray.routeTarget links).isBalancer).rules

def mihomoOutcome (p : Profile) (target : Text) (f : Flow) : Target :=
  Mihomo.outcome (Mihomo.subRules p target (routingHasForceProxy p))
    (Mihomo.buildRules p target (routingHasForceProxy p)) f

theorem Profile.appResolveIP_of_asIs {p : Profile} (hasIs : p.asIs) : Xray.appResolveIP p = [] := by
  have hnames : "IPIfNonMatch".toList ∉ [[], "AsIs".toList] := by decide
  rw [Xray.appResolveIP, if_neg]
  rintro ⟨hname, -⟩
  rw [Profile.asIs, hname] at hasIs
  exact hnames hasIs

/-- The kill-switch port list leaves out port 53, and port 0. -/
theorem Xray.View.facts_udp {v : Xray.View} (hport : v.flow.port ≠ 0) : v.facts.udp = v.flow.facts.udp := by
  have hlt := v.flow.port.isLt
  have hzero : v.flow.port.toNat ≠ 0 := fun h => hport (BitVec.eq_of_toNat_eq h)
  have hdns : (v.flow.port != 53#16) = decide (v.flow.port.toNat ≠ 53) := by
    rw [Bool.eq_iff_iff, bne_iff_ne, decide_eq_true_eq, ne_eq, BitVec.toNat_eq]
    rfl
  show (_ && Xray.inPortList _ _) = (_ && (v.flow.port != 53#16))
  rw [Xray.inPortList_udp, hdns]
  congr 1
  rw [Bool.eq_iff_iff]
  simp only [Bool.or_eq_true, Bool.and_eq_true, decide_eq_true_eq, Bool.false_eq_true, or_false]
  omega

theorem Xray.View.facts_udp_zero {v : Xray.View} (hport : v.flow.port = 0) : v.facts.udp = false := by
  show (_ && Xray.inPortList _ _) = false
  rw [Xray.inPortList_udp, hport, Bool.and_eq_false_iff]
  exact .inr rfl

theorem Xray.View.policy_facts {p : Profile} (hvalid : p.validate = none) {v : Xray.View}
    (hport : v.flow.port ≠ 0) : p.policy v.facts = p.policy v.flow.facts := by
  refine p.policy_congr (fun t ht e he => Xray.xrayHits_eq hvalid ht he) ?_
  have hudp := Xray.View.facts_udp hport
  simp only [Xray.View.facts, Flow.facts] at hudp ⊢
  rw [hudp]

/-- **The field rules and the rule lines of a profile agree on every flow.** -/
theorem engines_agree (p : Profile) (hvalid : p.validate = none) (hasIs : p.asIs) (cfg : Xray.Config) (links : Nat)
    (target : Text) (v : Xray.View) (hport : v.flow.port ≠ 0)
    (hforce : v.flow.inbound = .forceProxy → routingHasForceProxy p = true) :
    Xray.outcome (xrayRules p cfg links) v = mihomoOutcome p target v.flow := by
  rw [xrayRules, Xray.applyRouting_rules, mihomoOutcome, Mihomo.buildRules_policy,
    Xray.routingRules_policy (Xray.routeTarget_wellFormed links) (Xray.routeTarget_outcome links)
      (Profile.appResolveIP_of_asIs hasIs) hforce,
    Xray.View.policy_facts hvalid hport]

/-- A tier that blocks a zone, sends a country direct and tunnels an app, in direct-all mode. -/
def splitProfile : Profile where
  mode := "direct-all".toList
  tiers := [⟨["domain:ads.example".toList], ["geoip:ru".toList], ["process:browser".toList]⟩]
  domainStrategy := []
  localNetworks := true
  directSendThrough := []
  directInterface := []
  disableIPv6 := false
  disableUDP := true

/-- The app of `splitProfile` dialing a name of the blocked zone. -/
def blockedView : Xray.View where
  flow := ⟨.forceProxy, .tcp, 443, fun kind value => decide (kind = .domainSuffix) && value == "ads.example".toList⟩
  foreign := fun _ => false

theorem engines_agree_splitProfile :
    (splitProfile.validate = none ∧ splitProfile.asIs ∧ blockedView.flow.port ≠ 0 ∧
        routingHasForceProxy splitProfile = true) ∧
      Xray.outcome (xrayRules splitProfile ⟨[], none⟩ 2) blockedView
        = mihomoOutcome splitProfile "vpn".toList blockedView.flow :=
  ⟨by decide, engines_agree splitProfile (by decide) (by decide) ⟨[], none⟩ 2 "vpn".toList blockedView (by decide)
    (by decide)⟩

/-! ### Flows that always tunnel -/

theorem Xray.View.port_ne_dns {v : Xray.View} (hudp : v.facts.udp = true) :
    v.flow.network = .udp ∧ v.flow.port ≠ 53 := by
  change (v.flow.network == .udp && Xray.inPortList "1-52,54-65535".toList v.flow.port.toNat) = true at hudp
  rw [Xray.inPortList_udp] at hudp
  simp only [Bool.and_eq_true, beq_iff_eq, Bool.or_eq_true, decide_eq_true_eq, Bool.false_eq_true, or_false] at hudp
  refine ⟨hudp.1, fun hdns => ?_⟩
  have hnat : v.flow.port.toNat = 53 := by rw [hdns]; rfl
  omega

/-- **A force-proxy flow is blocked by any tier's block that matches it, goes direct to a local address
it has no name for, and otherwise tunnels, whatever the mode and the tiers' exceptions.** -/
theorem forceFlow_outcome (p : Profile) (hvalid : p.validate = none) (hasIs : p.asIs)
    (hproxy : routingHasForceProxy p = true) (cfg : Xray.Config) (links : Nat) (target : Text)
    (foreign : Text → Bool) (o : Oracle) (d : Destination) (hname : d.Readable) (network : Network)
    (port : BitVec 16) (hudp : ¬ (p.disableUDP = true ∧ network = .udp ∧ port ≠ 53))
    (hv6 : ¬ (p.disableIPv6 = true ∧ d.addresses.any IP.isIPv6 = true)) :
    let f := d.flow o .forceProxy network port
    let expected : Target :=
      if p.tiers.any fun t => t.entries.any fun e => decide (e.target = .block) && d.hits o e.kind e.value then .block
      else if p.localNetworks && d.name.isNone && d.addresses.any inLocalNetworks then .direct
      else .proxy
    Xray.outcome (xrayRules p cfg links) ⟨f, foreign⟩ = expected ∧ mihomoOutcome p target f = expected := by
  intro f expected
  have hforce : p.forcePolicy f.facts = expected := by
    have hnamed : f.named = d.name.isSome := Destination.flow_named hname
    have hlan : f.lan = d.addresses.any inLocalNetworks := Destination.flow_lan
    rw [Profile.forcePolicy, Profile.sentToLAN, Flow.facts_named, Flow.facts_lan, hnamed, hlan]
    simp only [Option.not_isSome]
    rfl
  have hipv6 : (p.disableIPv6 && f.ipv6) = false := by
    have hflow : f.ipv6 = d.addresses.any IP.isIPv6 := Destination.flow_ipv6
    rw [hflow]
    simpa only [Bool.eq_false_iff, ne_eq, Bool.and_eq_true] using hv6
  constructor
  · have hkilled : p.killed (Xray.View.mk f foreign).facts = false := by
      have hswitch : (p.disableUDP && (Xray.View.mk f foreign).facts.udp) = false := by
        rw [Bool.eq_false_iff, ne_eq, Bool.and_eq_true]
        exact fun h => hudp ⟨h.1, Xray.View.port_ne_dns h.2⟩
      rw [Profile.killed, hswitch, Bool.or_false]
      exact hipv6
    rw [xrayRules, Xray.applyRouting_rules,
      Xray.routingRules_policy (Xray.routeTarget_wellFormed links) (Xray.routeTarget_outcome links)
        (Profile.appResolveIP_of_asIs hasIs) fun _ => hproxy,
      Profile.policy_of_force hproxy rfl hkilled, ← hforce, Profile.forcePolicy, Profile.forcePolicy]
    have hblocks : p.blocks (Xray.View.mk f foreign).facts.hit = p.blocks f.facts.hit :=
      p.blocks_congr fun t ht e he => Xray.xrayHits_eq hvalid ht he
    rw [hblocks]
    rfl
  · have hkilled : p.killed f.facts = false := by
      have hswitch : (p.disableUDP && f.facts.udp) = false := by
        rw [Bool.eq_false_iff, ne_eq, Bool.and_eq_true, Flow.facts_udp]
        exact hudp
      rw [Profile.killed, hswitch, Bool.or_false]
      exact hipv6
    rw [mihomoOutcome, Mihomo.buildRules_policy, Profile.policy_of_force hproxy rfl hkilled, hforce]

/-- `192.168.1.5`, dialed without a name. -/
def lanDestination : Destination := ⟨none, [.v4 0xc0a80105]⟩

theorem forceFlow_outcome_lan :
    (splitProfile.validate = none ∧ splitProfile.asIs ∧ routingHasForceProxy splitProfile = true) ∧
      Xray.outcome (xrayRules splitProfile ⟨[], none⟩ 1)
          ⟨lanDestination.flow plainOracle .forceProxy .tcp 443, fun _ => false⟩ = .direct ∧
        mihomoOutcome splitProfile "server".toList (lanDestination.flow plainOracle .forceProxy .tcp 443) = .direct :=
  ⟨by decide, forceFlow_outcome splitProfile (by decide) (by decide) (by decide) ⟨[], none⟩ 1 "server".toList
    (fun _ => false) plainOracle lanDestination (by simp [Destination.Readable, lanDestination]) .tcp 443 (by decide)
    (by decide)⟩

end GlitchCore
