import GlitchCore.Base.FirstMatch
import GlitchCore.Routing.Policy

/-!
# The rule lines of a mihomo config

`buildRules` writes a profile as rule lines and, for the flows that always tunnel, a sub-rule. A line
stands here as what it says, a condition and where it sends the flow; `Rule.text` and `Line.text` spell
it as the config holds it. Evaluation is first match over the lines, with AND, OR, NOT, SUB-RULE and
IN-NAME as named and a proxy that carries UDP.
-/

namespace GlitchCore.Mihomo

open GoText

/-- The inbound name the bridge's force-proxy flows carry. -/
def forceProxyInName : Text := "forceproxy".toList

/-- The sub-rule that holds the force-proxy flows' rules. -/
def forceFlowsSubRule : Text := "force-flows".toList

inductive Policy where
  | reject
  | direct
  | proxy (name : Text)
  deriving DecidableEq, Repr

inductive Cond where
  | entry (kind : MatchKind) (value : Text)
  | network (n : Network)
  | dstPort (port : Nat)
  | inName (name : Text)
  | not (c : Cond)
  | and (a b : Cond)
  | or (cs : List Cond)
  | any

structure Rule where
  cond : Cond
  policy : Policy

inductive Line where
  | rule (r : Rule)
  | subRule (cond : Cond) (name : Text)

/-! ### Spelling -/

def Policy.text : Policy → Text
  | .reject => "REJECT".toList
  | .direct => "DIRECT".toList
  | .proxy name => name

/-- `regexp.QuoteMeta`. -/
def quoteMeta (s : Text) : Text :=
  s.flatMap fun c => if "\\.+*?()|[]\x7b\x7d^$".toList.contains c then ['\\', c] else [c]

/-- A process name with a comma rides a regexp, whose fields mihomo rejoins; a space in it is spelled
out because mihomo trims each field. -/
def processCondition (name : Text) : Text :=
  if ',' ∉ name then "PROCESS-NAME,".toList ++ name
  else
    "PROCESS-NAME-REGEX,^".toList ++
      ((quoteMeta name).flatMap fun c => if c = ' ' then "\\x20".toList else [c]) ++ "$".toList

def entryText (kind : MatchKind) (value : Text) : Text × Text :=
  match kind with
  | .geoSite => ("GEOSITE,".toList ++ value, [])
  | .geoIP => ("GEOIP,".toList ++ value, "no-resolve".toList)
  | .domainSuffix => ("DOMAIN-SUFFIX,".toList ++ value, [])
  | .domainFull => ("DOMAIN,".toList ++ value, [])
  | .domainKeyword => ("DOMAIN-KEYWORD,".toList ++ value, [])
  | .domainRegex => ("DOMAIN-REGEX,".toList ++ value, [])
  | .ipCIDR => ("IP-CIDR,".toList ++ normalizeCIDR value, "no-resolve".toList)
  | .process => (processCondition value, [])

/-- A matcher as a line routing to a target, or, with no target, as the inside of an operand. -/
def ruleCondition (kind : MatchKind) (value target : Text) : Text :=
  let (head, param) := entryText kind value
  join ",".toList ([head] ++ (if target ≠ [] then [target] else []) ++ (if param ≠ [] then [param] else []))

def networkText : Network → Text
  | .tcp => "tcp".toList
  | .udp => "udp".toList

def inParens (s : Text) : Text := "(".toList ++ s ++ ")".toList

mutual

/-- A condition as an operand of a logic rule. -/
def Cond.operand : Cond → Text
  | .entry kind value => inParens (ruleCondition kind value [])
  | .network n => inParens ("NETWORK,".toList ++ networkText n)
  | .dstPort port => inParens ("DST-PORT,".toList ++ itoa port)
  | .inName name => inParens ("IN-NAME,".toList ++ name)
  | .not c => inParens ("NOT,".toList ++ inParens c.operand)
  | .and a b => inParens ("AND,".toList ++ inParens (a.operand ++ ",".toList ++ b.operand))
  | .or cs => inParens ("OR,".toList ++ inParens (join ",".toList (operands cs)))
  | .any => inParens "MATCH".toList

def operands : List Cond → List Text
  | [] => []
  | c :: cs => c.operand :: operands cs

end

def Rule.text (r : Rule) : Text :=
  let target := r.policy.text
  match r.cond with
  | .entry kind value => ruleCondition kind value target
  | .network n => "NETWORK,".toList ++ networkText n ++ ",".toList ++ target
  | .dstPort port => "DST-PORT,".toList ++ itoa port ++ ",".toList ++ target
  | .inName name => "IN-NAME,".toList ++ name ++ ",".toList ++ target
  | .not c => "NOT,".toList ++ inParens c.operand ++ ",".toList ++ target
  | .and a b => "AND,".toList ++ inParens (a.operand ++ ",".toList ++ b.operand) ++ ",".toList ++ target
  | .or cs => "OR,".toList ++ inParens (join ",".toList (operands cs)) ++ ",".toList ++ target
  | .any => "MATCH,".toList ++ target

def Line.text : Line → Text
  | .rule r => r.text
  | .subRule cond name => "SUB-RULE,".toList ++ cond.operand ++ ",".toList ++ name

/-! ### Rules of a profile -/

def anyOf (entries : List Entry) : Option Cond :=
  match entries.map fun e => Cond.entry e.kind e.value with
  | [] => none
  | [c] => some c
  | cs => some (.or cs)

/-- One rule for each entry, or, for a step pairing two planes, one AND rule. -/
def stepLines (step : Step) (policy : Policy) : List Rule :=
  if step.also = [] then step.entries.map fun e => ⟨.entry e.kind e.value, policy⟩
  else
    match anyOf step.entries, anyOf step.also with
    | some entries, some also => [⟨.and entries also, policy⟩]
    | _, _ => []

/-- The force-proxy flows go straight to the proxy unless a tier blocks something or local networks are
sent direct. -/
def forceFlowsNeedSubRule (p : Profile) : Bool := p.hasBlock || p.localNetworks

/-- Only a flow without a name goes direct on a local address. -/
def localNetworkRules (p : Profile) (named : Policy) : List Rule :=
  if p.localNetworks then
    ⟨.entry .domainRegex ".".toList, named⟩ ::
      localNetworkCIDRs.map fun cidr => ⟨.entry .ipCIDR cidr, .direct⟩
  else []

/-- The sub-rule the force-proxy flows enter: every tier's blocks, the local networks, then the proxy. -/
def forceFlowRules (p : Profile) (target : Text) : List Rule :=
  (p.tiers.flatMap fun t => (blockSteps t.steps).flatMap fun s => stepLines s .reject) ++
    localNetworkRules p (.proxy target) ++ [⟨.any, .proxy target⟩]

def outcomePolicy (target : Text) : Target → Policy
  | .block => .reject
  | .direct => .direct
  | .proxy => .proxy target

def killSwitchRules (p : Profile) : List Rule :=
  (if p.disableIPv6 then [⟨.entry .ipCIDR "::/0".toList, .reject⟩] else []) ++
    -- :53 stays open so that DNS keeps resolving
    (if p.disableUDP then [⟨.and (.network .udp) (.not (.dstPort 53)), .reject⟩] else [])

def forceLines (p : Profile) (target : Text) (forceProxy : Bool) : List Line :=
  if forceProxy then
    [if forceFlowsNeedSubRule p then .subRule (.inName forceProxyInName) forceFlowsSubRule
      else .rule ⟨.inName forceProxyInName, .proxy target⟩,
      -- a matched rule whose proxy lacks UDP is skipped; such a flow must not fall through to the tiers
      .rule ⟨.inName forceProxyInName, .reject⟩]
  else []

def tierRules (p : Profile) (target : Text) : List Rule :=
  p.tiers.flatMap fun t => t.steps.flatMap fun s => stepLines s (outcomePolicy target s.target)

def catchAll (p : Profile) (target : Text) : Policy := if p.resolvedMode = .directAll then .direct else .proxy target

def modeRules (p : Profile) (target : Text) : List Rule :=
  localNetworkRules p (catchAll p target) ++ [⟨.any, catchAll p target⟩]

/-- Priority: kill-switches, force-proxy flows, tiers in order, local networks, mode catch-all. -/
def buildRules (p : Profile) (target : Text) (forceProxy : Bool) : List Line :=
  (killSwitchRules p).map .rule ++ forceLines p target forceProxy ++
    (tierRules p target ++ modeRules p target).map .rule

/-- Refuses a flow still addressed by a fake-ip; the pools are empty outside fake-ip mode. -/
def fakePoolRejectRules (fakeIP : Bool) (fakeIPRange fakeIPRange6 : Text) : List Rule :=
  if fakeIP then
    ([fakeIPRange, fakeIPRange6].filter (· ≠ [])).map fun pool => ⟨.entry .ipCIDR pool, .reject⟩
  else []

example : (Line.rule ⟨.and (.network .udp) (.not (.dstPort 53)), .reject⟩).text
    = "AND,((NETWORK,udp),(NOT,((DST-PORT,53)))),REJECT".toList := by decide

end GlitchCore.Mihomo
