import GlitchCore.Routing.Matcher
import Mathlib.Data.List.Lex
import Mathlib.Data.List.Sort
import Mathlib.Data.List.SplitBy

/-!
# Tiers and profiles

A tier is three lists of matchers, one for each outcome. `Tier.entries` classifies and orders them,
the more specific first; `Tier.steps` cuts the ordered entries into first-match rules, putting in
front of each direct or proxy run the guards that pair it with the other plane's blocks.
-/

namespace GlitchCore

open GoText

structure Entry where
  kind : MatchKind
  value : Text
  target : Target
  deriving DecidableEq, Repr

/-- The entry matches a flow's address, not its name or its app. -/
def Entry.byAddress (e : Entry) : Bool := e.kind == .ipCIDR || e.kind == .geoIP

inductive Plane where
  | name
  | address
  | app
  deriving DecidableEq, Repr

def Entry.plane (e : Entry) : Plane :=
  if e.kind = .process then .app else if e.byAddress then .address else .name

/-- The plane whose blocks a run of this plane is paired with. -/
def Plane.other : Plane → Option Plane
  | .name => some .address
  | .address => some .name
  | .app => none

/-! ### Evaluation order -/

def Target.outcomeRank : Target → Int
  | .block => 0
  | .direct => 1
  | .proxy => 2

/-- Section (app block, sites and categories, other app entries), then rank, then breadth inside the
rank, then outcome. -/
def Entry.evaluationKey (e : Entry) : List Int :=
  match e.kind with
  | .process => [if e.target = .block then 0 else 2, 0, 0, e.target.outcomeRank]
  | .domainFull => [1, 0, 0, e.target.outcomeRank]
  | .domainSuffix => [1, 1, -(e.value.count '.' : Int), e.target.outcomeRank]
  | .ipCIDR => [1, 2, hostBits e.value, e.target.outcomeRank]
  | .domainKeyword | .domainRegex => [1, 3, 0, e.target.outcomeRank]
  | .geoSite | .geoIP => [1, 4, 0, e.target.outcomeRank]

structure Tier where
  block : List Text
  direct : List Text
  proxy : List Text
  deriving DecidableEq, Repr

def listEntries (matchers : List Text) (target : Target) : List Entry :=
  matchers.filterMap fun m => (classify m).map fun (kind, value) => ⟨kind, value, target⟩

/-- The tier's entries in evaluation order. The sort is stable, so entries of one key keep the order
they were listed in. -/
def Tier.entries (t : Tier) : List Entry :=
  (listEntries t.block .block ++ listEntries t.direct .direct ++ listEntries t.proxy .proxy).insertionSort
    fun a b => a.evaluationKey ≤ b.evaluationKey

/-! ### First-match rules -/

/-- A flow matches a step when it matches one of `entries`, all of one plane and outcome, and, when
`also` is set, one of `also`, all of the other plane. -/
structure Step where
  entries : List Entry
  also : List Entry
  target : Target
  deriving DecidableEq, Repr

def upToLastBlock (otherPlane : List Entry) : List Entry :=
  otherPlane.rdropWhile fun e => e.target != .block

/-- A block of the other plane takes the flow; anything else there keeps the run's own outcome. -/
def guardOutcome (target : Target) (e : Entry) : Target := if e.target = .block then .block else target

/-- One round of the loop of `guardSteps`: the entry joins the last step when that has its outcome. -/
def addGuard (run : List Entry) (target : Target) (steps : List Step) (e : Entry) : List Step :=
  match steps.getLast? with
  | some last =>
      if last.target = guardOutcome target e then
        steps.dropLast ++ [{ last with also := last.also ++ [e] }]
      else steps ++ [⟨run, [e], guardOutcome target e⟩]
  | none => [⟨run, [e], guardOutcome target e⟩]

def guardSteps (run : List Entry) (target : Target) (otherPlane : List Entry) : List Step :=
  (upToLastBlock otherPlane).foldl (addGuard run target) []

def inPlane (entries : List Entry) (plane : Plane) : List Entry := entries.filter fun e => e.plane = plane

def sameRun (a b : Entry) : Bool := a.plane = b.plane && a.target = b.target

def runSteps (entries run : List Entry) : List Step :=
  match run with
  | [] => []
  | e :: _ =>
      let guards :=
        match e.plane.other with
        | some otherPlane =>
            if e.target ≠ .block then guardSteps run e.target (inPlane entries otherPlane) else []
        | none => []
      guards ++ [⟨run, [], e.target⟩]

def Tier.steps (t : Tier) : List Step := (t.entries.splitBy sameRun).flatMap (runSteps t.entries)

/-! ### Profiles -/

inductive Mode where
  | proxyAll
  | directAll
  deriving DecidableEq, Repr

structure Profile where
  mode : Text
  tiers : List Tier
  domainStrategy : Text
  localNetworks : Bool
  directSendThrough : Text
  directInterface : Text
  disableIPv6 : Bool
  disableUDP : Bool
  deriving DecidableEq, Repr

def Profile.resolvedMode (p : Profile) : Mode := if p.mode = "direct-all".toList then .directAll else .proxyAll

def Profile.hasDirect (p : Profile) : Bool := p.tiers.any fun t => 0 < t.direct.length

def Profile.hasBlock (p : Profile) : Bool := p.tiers.any fun t => 0 < t.block.length

/-- Routed direct, so LAN, router and loopback stay reachable while the tunnel is up. -/
def localNetworkCIDRs : List Text :=
  ["10.0.0.0/8", "172.16.0.0/12", "192.168.0.0/16", "100.64.0.0/10", "169.254.0.0/16", "127.0.0.0/8",
    "fc00::/7", "fe80::/10", "::1/128"].map String.toList

structure ValidateError where
  tier : Nat
  matcher : Text
  cause : Text
  deriving DecidableEq, Repr

/-- The first matcher an engine would cut, re-target or drop, `none` for a profile that passes. -/
def Profile.validate (p : Profile) : Option ValidateError :=
  p.tiers.zipIdx.findSome? fun (t, i) =>
    [t.block, t.direct, t.proxy].findSome? fun list =>
      list.findSome? fun m => (validateMatcher m).map fun cause => ⟨i + 1, m, cause⟩

/-- A map written key by key, the later write winning. -/
def setKey (m : List (Text × Target)) (key : Text) (target : Target) : List (Text × Target) :=
  m.filter (fun kv => kv.1 ≠ key) ++ [(key, target)]

def addProcesses (target : Target) (m : List (Text × Target)) (matchers : List Text) : List (Text × Target) :=
  matchers.foldl (fun m entry =>
    match classify entry with
    | some (.process, val) => setKey m (toLower (trimSpace val)) target
    | _ => m) m

/-- The app names with a rule and their outcome. The dialer that reads it takes one flat map, so tier
order cannot apply: block beats direct beats proxy across all tiers. -/
def processRules (p : Profile) : List (Text × Target) :=
  let proxies := (p.tiers.map Tier.proxy).foldl (addProcesses .proxy) []
  let directs := (p.tiers.map Tier.direct).foldl (addProcesses .direct) proxies
  (p.tiers.map Tier.block).foldl (addProcesses .block) directs

def routingHasForceProxy (p : Profile) : Bool := (processRules p).any fun kv => kv.2 = .proxy

/-! ### Where entries come from -/

theorem mem_listEntries {matchers : List Text} {target : Target} {e : Entry} :
    e ∈ listEntries matchers target ↔ (∃ m ∈ matchers, classify m = some (e.kind, e.value)) ∧ e.target = target := by
  obtain ⟨kind, value, target'⟩ := e
  simp only [listEntries, List.mem_filterMap, Option.map_eq_some_iff, Prod.exists, Entry.mk.injEq]
  constructor
  · rintro ⟨m, hm, k, v, hclass, rfl, rfl, rfl⟩
    exact ⟨⟨m, hm, hclass⟩, rfl⟩
  · rintro ⟨⟨m, hm, hclass⟩, rfl⟩
    exact ⟨m, hm, kind, value, hclass, rfl, rfl, rfl⟩

theorem Tier.mem_entries {t : Tier} {e : Entry} :
    e ∈ t.entries ↔ e ∈ listEntries t.block .block ∨ e ∈ listEntries t.direct .direct
      ∨ e ∈ listEntries t.proxy .proxy := by
  rw [Tier.entries, List.mem_insertionSort, List.mem_append, List.mem_append, or_assoc]

theorem Tier.entries_sorted (t : Tier) : t.entries.Pairwise fun a b => a.evaluationKey ≤ b.evaluationKey := by
  have htotal : Std.Total fun a b : Entry => a.evaluationKey ≤ b.evaluationKey := ⟨fun a b => le_total _ _⟩
  have htrans : IsTrans Entry fun a b => a.evaluationKey ≤ b.evaluationKey := ⟨fun a b c => le_trans⟩
  exact List.pairwise_insertionSort _ _

def Tier.matchers (t : Tier) : List Text := t.block ++ t.direct ++ t.proxy

theorem Tier.exists_matcher {t : Tier} {e : Entry} (he : e ∈ t.entries) :
    ∃ m ∈ t.matchers, classify m = some (e.kind, e.value) := by
  simp only [Tier.matchers, List.mem_append]
  rcases Tier.mem_entries.mp he with he | he | he <;> obtain ⟨⟨m, hm, hclass⟩, -⟩ := mem_listEntries.mp he
  · exact ⟨m, .inl (.inl hm), hclass⟩
  · exact ⟨m, .inl (.inr hm), hclass⟩
  · exact ⟨m, .inr hm, hclass⟩

theorem Tier.value_ne_nil {t : Tier} {e : Entry} (he : e ∈ t.entries) : e.value ≠ [] := by
  obtain ⟨m, -, hclass⟩ := t.exists_matcher he
  exact classify_value_ne_nil hclass

theorem Profile.target_ne_block {p : Profile} (hblock : p.hasBlock = false) {t : Tier} (ht : t ∈ p.tiers)
    {e : Entry} (he : e ∈ t.entries) : e.target ≠ .block := by
  have hnil : t.block = [] := by
    simp only [Profile.hasBlock, List.any_eq_false, decide_eq_true_eq, not_lt, Nat.le_zero,
      List.length_eq_zero_iff] at hblock
    exact hblock t ht
  rcases Tier.mem_entries.mp he with he | he | he
  · simp [hnil, listEntries] at he
  · simp [(mem_listEntries.mp he).2]
  · simp [(mem_listEntries.mp he).2]

theorem Profile.validate_eq_none {p : Profile} (hvalid : p.validate = none) {t : Tier} (ht : t ∈ p.tiers)
    {m : Text} (hm : m ∈ t.matchers) : validateMatcher m = none := by
  rw [Profile.validate, List.findSome?_eq_none_iff] at hvalid
  obtain ⟨i, hi⟩ := List.mem_iff_getElem?.mp ht
  have htier := hvalid (t, i) (List.mk_mem_zipIdx_iff_getElem?.mpr hi)
  simp only [List.findSome?_eq_none_iff, List.mem_cons, List.not_mem_nil, or_false, forall_eq_or_imp, forall_eq,
    Option.map_eq_none_iff] at htier
  simp only [Tier.matchers, List.mem_append] at hm
  rcases hm with (hm | hm) | hm
  · exact htier.1 m hm
  · exact htier.2.1 m hm
  · exact htier.2.2 m hm

end GlitchCore
