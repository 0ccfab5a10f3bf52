import GlitchCore.Base.FirstMatch
import GlitchCore.Xray.Rules

/-!
# How xray reads and takes its rules

The values of one field are alternatives, the fields of one rule are conjoined, an unset field is no
condition, the first rule that takes a flow decides, and a flow no rule takes goes to the first
outbound, a proxy. A matcher text is read back by its head; `xrayHits` is what an entry comes to after
that trip, and for a validated profile it is the entry itself.
-/

namespace GlitchCore.Xray

open GoText NetAddr FirstMatch

/-- A matcher as xray reads it: one that an entry can stand for, or of a type no entry has. -/
inductive FieldMatcher where
  | entry (kind : MatchKind) (value : Text)
  | foreign (text : Text)
  deriving DecidableEq, Repr

/-- The matcher whose head the text starts with, else a bare value. -/
def readHeads (heads : List (Text × Option MatchKind)) (bare : MatchKind) (s : Text) : FieldMatcher :=
  match heads.find? fun h => h.1.isPrefixOf s with
  | some (head, some kind) => .entry kind (s.drop head.length)
  | some (_, none) => .foreign s
  | none => .entry bare s

def domainHeads : List (Text × Option MatchKind) :=
  [("geosite:".toList, some .geoSite), ("ext:".toList, none), ("ext-domain:".toList, none),
    ("ext-site:".toList, none), ("regexp:".toList, some .domainRegex), ("domain:".toList, some .domainSuffix),
    ("full:".toList, some .domainFull), ("keyword:".toList, some .domainKeyword), ("dotless:".toList, none)]

def ipHeads : List (Text × Option MatchKind) :=
  [("geoip:".toList, some .geoIP), ("ext:".toList, none), ("ext-ip:".toList, none)]

def readDomain : Text → FieldMatcher := readHeads domainHeads .domainKeyword

def readIP : Text → FieldMatcher := readHeads ipHeads .ipCIDR

/-- A flow in front of xray's router: `foreign` answers for the matchers no entry stands for. -/
structure View where
  flow : Flow
  foreign : Text → Bool

def View.hitsMatcher (v : View) : FieldMatcher → Bool
  | .entry kind value => v.flow.hits kind value
  | .foreign text => v.foreign text

/-- Whether a value of the field for a plane takes the flow. -/
def View.hitsField (v : View) : Plane → Text → Bool
  | .name, s => v.hitsMatcher (readDomain s)
  | .address, s => v.hitsMatcher (readIP s)
  | .app, s => v.flow.hits .process s

def View.xrayHits (v : View) (e : Entry) : Bool := v.hitsField e.plane (xrayMatcher e)

def inboundTagOf : Inbound → Text
  | .app => appTrafficTag
  | .forceProxy => forceProxyTag

def networkText : Network → Text
  | .tcp => "tcp".toList
  | .udp => "udp".toList

def portRange (s : Text) : Option (Nat × Nat) :=
  match cut '-' s with
  | some (lo, hi) => (decimal lo).bind fun a => (decimal hi).map fun b => (a, b)
  | none => (decimal s).map fun a => (a, a)

def inPortList (s : Text) (port : Nat) : Bool :=
  (split ',' s).any fun part => (portRange part).any fun (lo, hi) => lo ≤ port && port ≤ hi

/-- An unset field is no condition. -/
def fieldTakes (values : List Text) (hit : Text → Bool) : Bool := values == [] || values.any hit

def FieldRule.takes (r : FieldRule) (v : View) : Bool :=
  fieldTakes r.inboundTag (· == inboundTagOf v.flow.inbound) &&
    fieldTakes r.domain (v.hitsField .name) &&
    fieldTakes r.ip (v.hitsField .address) &&
    (r.port == [] || inPortList r.port v.flow.port.toNat) &&
    (r.network == [] || (split ',' r.network).contains (networkText v.flow.network)) &&
    fieldTakes r.process (v.hitsField .app)

/-- The class of an outbound: every `direct-N` counts as direct. -/
def tagOutcome (tag : Text) : Target :=
  if tag = blockTag then .block
  else if tag = directTag ∨ (directTag ++ "-".toList).isPrefixOf tag then .direct
  else .proxy

def FieldRule.outcome (r : FieldRule) : Target := if r.balancerTag ≠ [] then .proxy else tagOutcome r.outboundTag

def FieldRule.eval (v : View) (r : FieldRule) : Option Target := if r.takes v then some r.outcome else none

def outcome (rules : List FieldRule) (v : View) : Target := (rules.findSome? (FieldRule.eval v)).getD .proxy

def Config.rules (cfg : Config) : List FieldRule := (cfg.routerConfig.map RouterConfig.ruleList).getD []

theorem applyRouting_rules (p : Profile) (cfg : Config) (proxy : RouteTarget) :
    (applyRouting p cfg proxy.tag proxy.isBalancer).rules = routingRules p proxy := rfl

/-! ### Targets -/

def RouteTarget.outcome (t : RouteTarget) : Target := if t.isBalancer then .proxy else tagOutcome t.tag

/-- Tag and kind of a target agree: a balancer has a tag of its own. -/
def RouteTarget.WellFormed (t : RouteTarget) : Prop := t.isBalancer = true → t.tag ≠ []

theorem RouteTarget.apply_outcome {t : RouteTarget} (ht : t.WellFormed) {r : FieldRule}
    (hr : r.balancerTag = []) : (t.apply r).outcome = t.outcome := by
  unfold RouteTarget.apply RouteTarget.outcome FieldRule.outcome
  cases hbal : t.isBalancer with
  | false => simp [hr]
  | true => simp [ht hbal]

@[simp] theorem RouteTarget.apply_takes (t : RouteTarget) (r : FieldRule) (v : View) :
    (t.apply r).takes v = r.takes v := by
  unfold RouteTarget.apply
  split <;> rfl

theorem RouteTarget.apply_eval {t : RouteTarget} (ht : t.WellFormed) {r : FieldRule} (hr : r.balancerTag = [])
    (v : View) : FieldRule.eval v (t.apply r) = if r.takes v then some t.outcome else none := by
  rw [FieldRule.eval, RouteTarget.apply_takes, RouteTarget.apply_outcome ht hr]

@[simp] theorem fieldTakes_nil (hit : Text → Bool) : fieldTakes [] hit = true := rfl

@[simp] theorem fieldTakes_singleton (value : Text) (hit : Text → Bool) : fieldTakes [value] hit = hit value := by
  simp [fieldTakes]

@[simp] theorem direct_outcome : direct.outcome = .direct := by decide

@[simp] theorem block_outcome : block.outcome = .block := by decide

theorem direct_wellFormed : direct.WellFormed := by simp [RouteTarget.WellFormed, direct]

theorem block_wellFormed : block.WellFormed := by simp [RouteTarget.WellFormed, block]

@[simp] theorem routeTarget_outcome (links : Nat) : (routeTarget links).outcome = .proxy := by
  unfold routeTarget
  split <;> decide

theorem routeTarget_wellFormed (links : Nat) : (routeTarget links).WellFormed := by
  unfold routeTarget
  split <;> simp [RouteTarget.WellFormed, balancerTag]

theorem tierDirectTag_outcome (i : Nat) : tagOutcome (tierDirectTag i) = .direct := by
  rfl

/-! ### The rule of a step -/

variable {v : View}

def FieldRule.extend (r : FieldRule) : Plane → List Text → FieldRule
  | .name, values => { r with domain := r.domain ++ values }
  | .address, values => { r with ip := r.ip ++ values }
  | .app, values => { r with process := r.process ++ values }

theorem FieldRule.extend_extend (r : FieldRule) (plane : Plane) (a b : List Text) :
    (r.extend plane a).extend plane b = r.extend plane (a ++ b) := by
  cases plane <;> simp [FieldRule.extend]

theorem FieldRule.extend_nil (r : FieldRule) (plane : Plane) : r.extend plane [] = r := by
  cases plane <;> simp [FieldRule.extend]

theorem addMatcher_eq {e : Entry} (hne : xrayMatcher e ≠ []) (r : FieldRule) :
    addMatcher r e = (r.extend e.plane [xrayMatcher e], true) := by
  simp only [addMatcher, hne, if_false, Entry.plane]
  by_cases hprocess : e.kind = .process
  · simp [hprocess, FieldRule.extend]
  · cases haddress : e.byAddress <;> simp [hprocess, FieldRule.extend]

theorem addMatchers_eq {plane : Plane} (entries : List Entry) (hplane : ∀ e ∈ entries, e.plane = plane)
    (hne : ∀ e ∈ entries, xrayMatcher e ≠ []) (r : FieldRule) (flag : Bool) :
    addMatchers r flag entries = (r.extend plane (entries.map xrayMatcher), entries != [] || flag) := by
  induction entries generalizing r flag with
  | nil => simp [addMatchers, FieldRule.extend_nil]
  | cons e entries ih =>
      have hhead : (addMatcher r e) = (r.extend plane [xrayMatcher e], true) := by
        rw [addMatcher_eq (hne e (by simp)), hplane e (by simp)]
      have htail := ih (fun x hx => hplane x (by simp [hx])) (fun x hx => hne x (by simp [hx]))
        (r.extend plane [xrayMatcher e]) true
      simp only [addMatchers, List.foldl_cons, hhead, Bool.true_or] at htail ⊢
      rw [htail, FieldRule.extend_extend]
      simp

theorem xrayMatcher_ne_nil {e : Entry} (hvalue : e.value ≠ []) : xrayMatcher e ≠ [] := by
  unfold xrayMatcher
  split <;> simp [hvalue]

structure FieldRule.Bare (r : FieldRule) : Prop where
  domain : r.domain = []
  ip : r.ip = []
  process : r.process = []

theorem any_xrayMatcher {plane : Plane} {entries : List Entry} (hplane : ∀ e ∈ entries, e.plane = plane) :
    (entries.map xrayMatcher).any (v.hitsField plane) = entries.any v.xrayHits := by
  induction entries with
  | nil => rfl
  | cons e entries ih =>
      have htail := ih fun x hx => hplane x (by simp [hx])
      simp only [List.map_cons, List.any_cons, htail, View.xrayHits, hplane e (by simp)]

theorem FieldRule.takes_extend {r : FieldRule} (hbare : r.Bare) {plane : Plane} {values : List Text} :
    (r.extend plane values).takes v = (r.takes v && fieldTakes values (v.hitsField plane)) := by
  cases plane <;> simp [FieldRule.extend, FieldRule.takes, fieldTakes, hbare.domain, hbare.ip, hbare.process] <;>
    ac_rfl

theorem FieldRule.takes_extend_extend {r : FieldRule} (hbare : r.Bare) {plane other : Plane}
    (hother : plane.other = some other) {values others : List Text} :
    ((r.extend plane values).extend other others).takes v
      = (r.takes v && fieldTakes values (v.hitsField plane) && fieldTakes others (v.hitsField other)) := by
  cases plane <;> simp only [Plane.other, Option.some.injEq, reduceCtorEq] at hother <;> subst hother <;>
    simp [FieldRule.extend, FieldRule.takes, fieldTakes, hbare.domain, hbare.ip, hbare.process] <;> ac_rfl

theorem fieldTakes_xrayMatcher {plane : Plane} {entries : List Entry} (hplane : ∀ e ∈ entries, e.plane = plane)
    (hne : entries ≠ []) :
    fieldTakes (entries.map xrayMatcher) (v.hitsField plane) = entries.any v.xrayHits := by
  have hnil : (entries.map xrayMatcher == []) = false := by simpa using hne
  rw [fieldTakes, any_xrayMatcher hplane, hnil, Bool.false_or]

/-- The field rule of a step takes the flows that match the step on the given inbounds. -/
theorem stepRule_eval {entries : List Entry} {s : Step} (hshape : s.Shaped entries)
    (hvalue : ∀ e ∈ entries, e.value ≠ []) (inbounds : List Text) {targetOf : Step → RouteTarget}
    (hwf : (targetOf s).WellFormed) :
    (stepRule inbounds targetOf s).bind (FieldRule.eval v)
      = if fieldTakes inbounds (· == inboundTagOf v.flow.inbound) then
          (s.eval v.xrayHits).map fun _ => (targetOf s).outcome
        else none := by
  obtain ⟨plane, hplane, hother⟩ := hshape.onePlane
  have hne : ∀ e ∈ s.entries ++ s.also, xrayMatcher e ≠ [] := fun e he =>
    xrayMatcher_ne_nil (hvalue e (hshape.mem e he))
  have hentries := addMatchers_eq s.entries hplane (fun e he => hne e (by simp [he]))
  have hnil := hshape.nonempty
  have hbare : FieldRule.Bare { inboundTag := inbounds } := ⟨rfl, rfl, rfl⟩
  have hinbound : FieldRule.takes { inboundTag := inbounds } v
      = fieldTakes inbounds (· == inboundTagOf v.flow.inbound) := by
    simp [FieldRule.takes, fieldTakes]
  have hfield := fieldTakes_xrayMatcher (v := v) hplane hnil
  by_cases halso : s.also = []
  · have hrule : stepRule inbounds targetOf s
        = some ((targetOf s).apply (FieldRule.extend { inboundTag := inbounds } plane
            (s.entries.map xrayMatcher))) := by
      have hdone (r : FieldRule) : addMatchers r true [] = (r, true) := rfl
      simp [stepRule, hentries, halso, hdone, hnil]
    rw [hrule, Option.bind_some, FieldRule.eval, RouteTarget.apply_takes, FieldRule.takes_extend hbare, hinbound,
      hfield, RouteTarget.apply_outcome hwf (by cases plane <;> rfl)]
    cases fieldTakes inbounds _ <;> cases hm : s.entries.any v.xrayHits <;> simp [Step.eval, halso, hm]
  · obtain ⟨first, hfirst⟩ := List.exists_mem_of_ne_nil _ halso
    obtain ⟨other, hplanes⟩ : ∃ other, plane.other = some other := ⟨_, hother first hfirst⟩
    have hotherPlane : ∀ e ∈ s.also, e.plane = other := fun e he =>
      Option.some.inj ((hother e he).symm.trans hplanes)
    have halsos := addMatchers_eq s.also hotherPlane (fun e he => hne e (by simp [he]))
    have hrule : stepRule inbounds targetOf s
        = some ((targetOf s).apply ((FieldRule.extend { inboundTag := inbounds } plane
            (s.entries.map xrayMatcher)).extend other (s.also.map xrayMatcher))) := by
      simp [stepRule, hentries, halsos, hnil, halso]
    rw [hrule, Option.bind_some, FieldRule.eval, RouteTarget.apply_takes,
      FieldRule.takes_extend_extend hbare hplanes, hinbound, hfield, fieldTakes_xrayMatcher hotherPlane halso,
      RouteTarget.apply_outcome hwf (by cases plane <;> cases other <;> rfl)]
    cases fieldTakes inbounds _ <;> cases hm : s.entries.any v.xrayHits <;>
      cases hm' : s.also.any v.xrayHits <;> simp [Step.eval, halso, hm, hm']

theorem stepRules_eval {entries : List Entry} {steps : List Step} (hshape : ∀ s ∈ steps, s.Shaped entries)
    (hvalue : ∀ e ∈ entries, e.value ≠ []) (inbounds : List Text) {targetOf : Step → RouteTarget}
    (hwf : ∀ s, (targetOf s).WellFormed) :
    (stepRules steps inbounds targetOf).findSome? (FieldRule.eval v)
      = if fieldTakes inbounds (· == inboundTagOf v.flow.inbound) then
          steps.findSome? fun s => (s.eval v.xrayHits).map fun _ => (targetOf s).outcome
        else none := by
  rw [stepRules, findSome?_filterMap, ← findSome?_guarded]
  exact findSome?_congr fun s hs => stepRule_eval (hshape s hs) hvalue inbounds (hwf s)

end GlitchCore.Xray
