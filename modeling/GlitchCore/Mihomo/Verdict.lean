import GlitchCore.Mihomo.Rules

/-!
# The verdict of mihomo's rules

Evaluation of the lines, and the policy they come to. A step's lines take the flows that match the
step, whether it is written entry by entry or as one pair of operands.
-/

namespace GlitchCore.Mihomo

open GoText FirstMatch

def inNameOf : Inbound → Text
  | .app => []
  | .forceProxy => forceProxyInName

mutual

def Cond.holds (f : Flow) : Cond → Bool
  | .entry kind value => f.hits kind value
  | .network n => f.network == n
  | .dstPort port => f.port.toNat == port
  | .inName name => inNameOf f.inbound == name
  | .not c => !c.holds f
  | .and a b => a.holds f && b.holds f
  | .or cs => anyHolds f cs
  | .any => true

def anyHolds (f : Flow) : List Cond → Bool
  | [] => false
  | c :: cs => c.holds f || anyHolds f cs

end

def Policy.outcome : Policy → Target
  | .reject => .block
  | .direct => .direct
  | .proxy _ => .proxy

def Rule.eval (f : Flow) (r : Rule) : Option Target := if r.cond.holds f then some r.policy.outcome else none

/-- A flow that enters a sub-rule and matches nothing there moves on to the next line. -/
def Line.eval (subRules : Text → List Rule) (f : Flow) : Line → Option Target
  | .rule r => r.eval f
  | .subRule cond name => if cond.holds f then (subRules name).findSome? (Rule.eval f) else none

def subRules (p : Profile) (target : Text) (forceProxy : Bool) (name : Text) : List Rule :=
  if forceProxy && forceFlowsNeedSubRule p && name == forceFlowsSubRule then forceFlowRules p target else []

/-- A flow no line takes is dialed direct. -/
def outcome (subRules : Text → List Rule) (lines : List Line) (f : Flow) : Target :=
  (lines.findSome? (Line.eval subRules f)).getD .direct

/-! ### Steps -/

variable {f : Flow}

theorem anyHolds_eq_any (cs : List Cond) : anyHolds f cs = cs.any (Cond.holds f) := by
  induction cs with
  | nil => rfl
  | cons c cs ih => rw [anyHolds, ih, List.any_cons]

theorem any_entry_holds (entries : List Entry) :
    (entries.map fun e => Cond.entry e.kind e.value).any (Cond.holds f) = entries.any f.hitsEntry := by
  simp only [List.any_map, Function.comp_def, Cond.holds]
  rfl

theorem anyOf_holds {entries : List Entry} (hne : entries ≠ []) :
    ∃ c, anyOf entries = some c ∧ c.holds f = entries.any f.hitsEntry := by
  match entries, hne with
  | [e], _ => exact ⟨_, rfl, by simp [Cond.holds, Flow.hitsEntry]⟩
  | e :: e' :: rest, _ =>
      refine ⟨_, rfl, ?_⟩
      rw [Cond.holds, anyHolds_eq_any]
      exact any_entry_holds (e :: e' :: rest)

theorem stepLines_eval {entries : List Entry} {s : Step} (hshape : s.Shaped entries) (policy : Policy) :
    (stepLines s policy).findSome? (Rule.eval f) = (s.eval f.hitsEntry).map fun _ => policy.outcome := by
  unfold stepLines
  by_cases halso : s.also = []
  · have hentry : ∀ e : Entry, Rule.eval f ⟨.entry e.kind e.value, policy⟩
        = if f.hitsEntry e then some policy.outcome else none := fun e => by
      rw [Rule.eval, Cond.holds, Flow.hitsEntry]
    rw [if_pos halso, List.findSome?_map]
    simp only [Function.comp_def, hentry, findSome?_const, Step.eval, halso, true_or, and_true]
    cases s.entries.any f.hitsEntry <;> rfl
  · obtain ⟨a, ha, haholds⟩ := anyOf_holds (f := f) hshape.nonempty
    obtain ⟨b, hb, hbholds⟩ := anyOf_holds (f := f) halso
    rw [if_neg halso]
    simp only [ha, hb, List.findSome?_singleton, Rule.eval, Cond.holds, haholds, hbholds, Step.eval, halso, false_or,
      Bool.and_eq_true]
    split <;> rfl

/-! ### Parts of the rule list -/

theorem killSwitchRules_eval (p : Profile) :
    (killSwitchRules p).findSome? (Rule.eval f) = if p.killed f.facts then some .block else none := by
  have hudp : (Cond.and (.network .udp) (.not (.dstPort 53))).holds f = f.facts.udp := by
    have hport : (f.port.toNat == 53) = (f.port == 53#16) := by
      rw [Bool.eq_iff_iff, beq_iff_eq, beq_iff_eq, BitVec.toNat_eq]
      rfl
    simp only [Cond.holds, hport, Flow.facts, bne]
    rfl
  rw [killSwitchRules, List.findSome?_append, Profile.killed]
  have hv6 : (Cond.entry .ipCIDR "::/0".toList).holds f = f.facts.ipv6 := by simp only [Cond.holds, Flow.facts, Flow.ipv6]
  by_cases h6 : p.disableIPv6 = true <;> by_cases hu : p.disableUDP = true <;>
    cases hf6 : f.facts.ipv6 <;> cases hfu : f.facts.udp <;>
    simp only [h6, hu, hf6, hfu, Rule.eval, hv6, hudp, if_true, if_false, List.findSome?_singleton,
      List.findSome?_nil, Option.or_none, Option.none_or, Option.some_or, Bool.true_and, Bool.false_and,
      Bool.or_false, Bool.or_true, Bool.false_eq_true, Policy.outcome]

theorem localNetworkRules_eval (p : Profile) (named : Policy) :
    (localNetworkRules p named).findSome? (Rule.eval f)
      = if p.localNetworks then
          if f.named then some named.outcome else if f.lan then some .direct else none
        else none := by
  have hcidr : ∀ cidr, Rule.eval f ⟨.entry .ipCIDR cidr, .direct⟩
      = if f.hits .ipCIDR cidr then some .direct else none := fun cidr => by
    rw [Rule.eval, Cond.holds, Policy.outcome]
  have hnamed : Rule.eval f ⟨.entry .domainRegex ".".toList, named⟩
      = if f.named then some named.outcome else none := by
    rw [Rule.eval, Cond.holds, Flow.named]
  unfold localNetworkRules
  split
  · rw [List.findSome?_cons, List.findSome?_map, hnamed]
    simp only [Function.comp_def, hcidr, findSome?_const]
    cases f.named <;> rfl
  · rfl

theorem rules_eval (subRules : Text → List Rule) (rules : List Rule) :
    (rules.map Line.rule).findSome? (Line.eval subRules f) = rules.findSome? (Rule.eval f) := by
  rw [List.findSome?_map]
  rfl

theorem anyRule_eval (policy : Policy) : Rule.eval f ⟨.any, policy⟩ = some policy.outcome := by
  rw [Rule.eval, Cond.holds, if_pos rfl]

theorem blockRules_eval (p : Profile) :
    (p.tiers.flatMap fun t => (blockSteps t.steps).flatMap fun s => stepLines s .reject).findSome? (Rule.eval f)
      = if p.blocks f.hitsEntry then some .block else none := by
  have htier : ∀ t ∈ p.tiers,
      ((blockSteps t.steps).flatMap fun s => stepLines s .reject).findSome? (Rule.eval f)
        = if t.entries.any fun e => decide (e.target = .block) && f.hitsEntry e then some .block else none := by
    intro t _
    have hsteps : ∀ s ∈ blockSteps t.steps,
        (stepLines s .reject).findSome? (Rule.eval f)
          = if s.entries.any f.hitsEntry then some .block else none := by
      intro s hs
      obtain ⟨hmem, -, halso⟩ := mem_blockSteps.mp hs
      rw [stepLines_eval (t.steps_shaped hmem)]
      simp only [Step.eval, halso, true_or, and_true, Policy.outcome]
      split <;> rfl
    rw [findSome?_flatMap, findSome?_congr hsteps, findSome?_const, t.any_blockSteps]
  rw [findSome?_flatMap, findSome?_congr htier, findSome?_const, Profile.blocks]

theorem forceFlowRules_eval (p : Profile) (target : Text) :
    (forceFlowRules p target).findSome? (Rule.eval f) = some (p.forcePolicy f.facts) := by
  rw [forceFlowRules, List.findSome?_append, List.findSome?_append, blockRules_eval, localNetworkRules_eval,
    List.findSome?_singleton, anyRule_eval, Profile.forcePolicy, Profile.sentToLAN]
  rw [Flow.facts_hit, Flow.facts_named, Flow.facts_lan]
  cases p.blocks f.hitsEntry <;> cases p.localNetworks <;> cases f.named <;> cases f.lan <;> rfl

/-- Without a block list and local networks the sub-rule would only hold its closing line. -/
theorem forcePolicy_of_no_subRule {p : Profile} (hneed : forceFlowsNeedSubRule p = false) (x : FlowFacts) :
    p.forcePolicy x = .proxy := by
  simp only [forceFlowsNeedSubRule, Bool.or_eq_false_iff] at hneed
  have hblocks : p.blocks x.hit = false := by
    simp only [Profile.blocks, List.any_eq_false, List.any_eq_true, Bool.and_eq_true, decide_eq_true_eq]
    rintro t ht ⟨e, he, htarget, -⟩
    exact p.target_ne_block hneed.1 ht he htarget
  simp [Profile.forcePolicy, Profile.sentToLAN, hblocks, hneed.2]

theorem forceLines_eval (p : Profile) (target : Text) (forceProxy : Bool) :
    (forceLines p target forceProxy).findSome? (Line.eval (subRules p target forceProxy) f)
      = if f.facts.force && forceProxy then some (p.forcePolicy f.facts) else none := by
  have hname : (Cond.inName forceProxyInName).holds f = f.facts.force := by
    simp only [Cond.holds, Flow.facts]
    cases f.inbound <;> decide
  cases forceProxy with
  | false => simp [forceLines]
  | true =>
      rw [forceLines, if_pos rfl, Bool.and_true]
      cases hneed : forceFlowsNeedSubRule p with
      | true =>
          have hsub : subRules p target true forceFlowsSubRule = forceFlowRules p target := by
            simp [subRules, hneed]
          simp only [if_true, List.findSome?_cons, List.findSome?_nil, Line.eval, hname, hsub, forceFlowRules_eval,
            Rule.eval]
          cases f.facts.force <;> rfl
      | false =>
          simp only [Bool.false_eq_true, if_false, List.findSome?_cons, List.findSome?_nil, Line.eval, hname,
            Rule.eval, forcePolicy_of_no_subRule hneed, Policy.outcome]
          cases f.facts.force <;> rfl

theorem outcomePolicy_outcome (target : Text) (t : Target) : (outcomePolicy target t).outcome = t := by
  cases t <;> rfl

theorem tierRules_eval (p : Profile) (target : Text) :
    (tierRules p target).findSome? (Rule.eval f) = tiersOutcome p.tiers f.hitsEntry := by
  have htier : ∀ t ∈ p.tiers,
      (t.steps.flatMap fun s => stepLines s (outcomePolicy target s.target)).findSome? (Rule.eval f)
        = t.outcome f.hitsEntry := by
    intro t _
    have hsteps : ∀ s ∈ t.steps,
        (stepLines s (outcomePolicy target s.target)).findSome? (Rule.eval f) = s.eval f.hitsEntry := by
      intro s hs
      rw [stepLines_eval (t.steps_shaped hs), outcomePolicy_outcome, Step.eval_map_target]
    rw [findSome?_flatMap, findSome?_congr hsteps, Tier.outcome]
  rw [tierRules, findSome?_flatMap, findSome?_congr htier, tiersOutcome]

theorem catchAll_outcome (p : Profile) (target : Text) : (catchAll p target).outcome = p.modeOutcome := by
  unfold catchAll Profile.modeOutcome
  cases p.resolvedMode <;> simp [Policy.outcome]

theorem modeRules_eval (p : Profile) (target : Text) :
    (modeRules p target).findSome? (Rule.eval f)
      = some (if p.sentToLAN f.facts then .direct else p.modeOutcome) := by
  rw [modeRules, List.findSome?_append, localNetworkRules_eval, List.findSome?_singleton, anyRule_eval,
    catchAll_outcome, Profile.sentToLAN]
  rw [Flow.facts_named, Flow.facts_lan]
  cases p.localNetworks <;> cases f.named <;> cases f.lan <;> rfl

/-- The lines give what the policy says. -/
theorem buildRules_policy (p : Profile) (target : Text) :
    outcome (subRules p target (routingHasForceProxy p)) (buildRules p target (routingHasForceProxy p)) f
      = p.policy f.facts := by
  rw [outcome, buildRules, List.findSome?_append, List.findSome?_append, rules_eval, rules_eval,
    List.findSome?_append, killSwitchRules_eval, forceLines_eval, tierRules_eval, modeRules_eval, Profile.policy,
    Profile.appPolicy]
  by_cases hkilled : p.killed f.facts = true
  · simp only [if_pos hkilled, Option.some_or, Option.getD_some]
  · by_cases hforce : (f.facts.force && routingHasForceProxy p) = true
    · simp only [if_neg hkilled, if_pos hforce, Option.none_or, Option.some_or, Option.getD_some]
    · simp only [if_neg hkilled, if_neg hforce, Option.none_or]
      rw [Flow.facts_hit]
      cases tiersOutcome p.tiers f.hitsEntry <;> rfl

end GlitchCore.Mihomo
