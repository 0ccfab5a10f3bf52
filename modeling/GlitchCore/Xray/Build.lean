import GlitchCore.Base.Fallible
import GlitchCore.Xray.Dns
import GlitchCore.Xray.Outbound

/-!
# The config of a list of links

`buildConfig` turns the links into proxy outbounds, one named `proxy` or several named `proxy-0`, `proxy-1` and so
on behind a balancer, and writes the profile's rules over them. The outbounds a rule names are added under
conditions of their own, apart from the loops that write the rules, and xray falls back in silence on a tag it does
not know. What follows ties the two together: whatever target a rule is given, the condition that adds its outbound
holds, so every name in the finished config is defined once.
-/

namespace GlitchCore.Xray

open GoText HostPort

/-- The tag of each of several servers; the balancer and the observatory select them all by its start. -/
def proxyTagPrefix : Text := "proxy-".toList

def proxyTag (i : Nat) : Text := proxyTagPrefix ++ itoa i

structure BalancerOptions where
  strategy : Text
  probeURL : Text
  probeIntervalSec : Int
  deriving DecidableEq, Repr

inductive ConfigError where
  | noLinks
  | strategy (s : Text)
  | link (e : BuildError)
  /-- The same with the link's place in front, when there are several. -/
  | linkAt (i : Nat) (e : BuildError)
  deriving DecidableEq, Repr

def strategyLeastPing : Text := "leastping".toList

def strategies : List Text := [strategyLeastPing, "random".toList, "roundrobin".toList]

def defaultProbeURL : Text := "https://www.gstatic.com/generate_204".toList

def defaultProbeIntervalSec : Int := 60

def BalancerOptions.normalized (o : BalancerOptions) : Except ConfigError BalancerOptions := do
  let s := toLower (trimSpace o.strategy)
  if s ≠ [] ∧ s ∉ strategies then throw (.strategy o.strategy)
  return { strategy := if s = [] then strategyLeastPing else s
           probeURL := if trimSpace o.probeURL = [] then defaultProbeURL else o.probeURL
           probeIntervalSec := if o.probeIntervalSec ≤ 0 then defaultProbeIntervalSec else o.probeIntervalSec }

/-- The balancer beside its tag, and the observatory that measures its servers. -/
structure Balancing where
  selectors : List Text
  fallbackTag : Text
  options : BalancerOptions
  deriving DecidableEq, Repr

structure BuildResult where
  config : Config
  balancing : Option Balancing := none
  outboundTags : List Text
  dialIPv4s : List Text
  servers : List Text
  routeTarget : RouteTarget
  visionTags : List Text
  deriving DecidableEq, Repr

/-- Vision flow and TCP mux exclude each other. -/
def linkHasVision (link : Text) : Bool :=
  match Url.parse link with
  | some u =>
      equalFold u.scheme "vless".toList && contains (toLower (u.query.get "flow".toList)) "vision".toList
  | none => false

def ProxyOutbound.toOutbound (ob : ProxyOutbound) : Outbound where
  protocol := ob.credentials.protocol
  tag := ob.tag

def cleanLinks (links : List Text) : List Text := (links.map trimSpace).filter (· ≠ [])

variable (net : Net)

/-- One round of the loop over several links. -/
def buildLink (link : Text) (i : Nat) : Except ConfigError Built :=
  (outboundFromLink net link (proxyTag i)).mapError (.linkAt i)

def buildOne (link : Text) (p : Profile) : Except ConfigError BuildResult := do
  let (ob, server, dialIP) ← (outboundFromLink net link outboundTag).mapError .link
  return { config := applyRouting p ⟨[ob.toOutbound], none⟩ outboundTag false
           outboundTags := [outboundTag]
           dialIPv4s := [dialIP].filter (· ≠ [])
           servers := [server]
           routeTarget := ⟨outboundTag, false⟩
           visionTags := if linkHasVision link then [outboundTag] else [] }

def buildSeveral (clean : List Text) (opts : BalancerOptions) (p : Profile) : Except ConfigError BuildResult := do
  let o ← opts.normalized
  let built ← clean.zipIdx.mapM fun (link, i) => buildLink net link i
  let outbounds := built.map fun b => b.1.toOutbound
  let outboundTags := clean.zipIdx.map fun (_, i) => proxyTag i
  return { config := applyRouting p ⟨outbounds, some ⟨[], [balancerTag], none⟩⟩ balancerTag true
           balancing := some ⟨[proxyTagPrefix], outboundTags.headD [], o⟩
           outboundTags
           dialIPv4s := (built.map fun b => b.2.2).filter (· ≠ [])
           servers := built.map fun b => b.2.1
           routeTarget := ⟨balancerTag, true⟩
           visionTags := (clean.zipIdx.filter fun (link, _) => linkHasVision link).map fun (_, i) => proxyTag i }

def buildConfig (links : List Text) (opts : BalancerOptions) (p : Profile) : Except ConfigError BuildResult :=
  match cleanLinks links with
  | [] => .error .noLinks
  | [link] => buildOne net link p
  | clean => buildSeveral net clean opts p

/-! ### The tag of an outbound -/

/-- A build under another tag: nothing else of it changes. -/
def retag (tag : Text) (built : Built) : Built := ({ built.1 with tag }, built.2)

theorem outboundFromVLESS_retag (u : Url.URL) (tag : Text) :
    outboundFromVLESS net u tag = (outboundFromVLESS net u []).map (retag tag) := by
  simp only [outboundFromVLESS]
  cases portOf u.port with
  | none => rfl
  | some port =>
      by_cases hempty : usernameOf u = [] ∨ u.hostname = []
      · simp only [if_pos hempty]
        rfl
      simp only [if_neg hempty]
      cases buildStreamSettings u.hostname u.query with
      | error e => rfl
      | ok built =>
          cases Links.VlessEncryption.normalize (u.query.get "encryption".toList) with
          | error e => rfl
          | ok encryption =>
              simp only [Except.mapError, bind, Except.bind]
              split
              · rfl
              · cases built.2 <;> rfl

theorem outboundFromTrojan_retag (u : Url.URL) (tag : Text) :
    outboundFromTrojan net u tag = (outboundFromTrojan net u []).map (retag tag) := by
  simp only [outboundFromTrojan]
  cases portOf u.port with
  | none => rfl
  | some port =>
      by_cases hempty : usernameOf u = [] ∨ u.hostname = []
      · simp only [if_pos hempty]
        rfl
      simp only [if_neg hempty]
      cases buildStreamSettings u.hostname (trojanQuery u.query) with
      | error e => rfl
      | ok built =>
          simp only [Except.mapError, bind, Except.bind]
          cases built.2 <;> rfl

theorem outboundFromSS_retag (u : Url.URL) (tag : Text) :
    outboundFromSS net u tag = (outboundFromSS net u []).map (retag tag) := by
  simp only [outboundFromSS]
  cases ssRead u with
  | none => rfl
  | some fields =>
      obtain ⟨method, password, host, portText⟩ := fields
      dsimp only
      cases portOf portText with
      | none => rfl
      | some port =>
          dsimp only
          split
          · rfl
          · split <;> rfl

theorem outboundFromVMess_retag (link tag : Text) :
    outboundFromVMess net link tag = (outboundFromVMess net link []).map (retag tag) := by
  simp only [outboundFromVMess]
  generalize Links.Vmess.parse link = read
  obtain ⟨l, errors⟩ := read
  cases errors with
  | cons e errors => rfl
  | nil =>
      dsimp only
      split
      · rfl
      split
      · rfl
      split
      · rfl
      cases buildStreamSettings l.host l.params with
      | error e => rfl
      | ok built =>
          simp only [Except.mapError, bind, Except.bind]
          split
          · rfl
          · split <;> rfl

/-- The tag goes into the outbound and has no other part in the build. -/
theorem outboundFromLink_retag (link tag : Text) :
    outboundFromLink net link tag = (outboundFromLink net link []).map (retag tag) := by
  simp only [outboundFromLink]
  split
  · exact outboundFromVMess_retag net link tag
  cases Url.parse link with
  | none => rfl
  | some u =>
      dsimp only
      split
      · exact outboundFromVLESS_retag net u tag
      split
      · exact outboundFromSS_retag net u tag
      split
      · exact outboundFromTrojan_retag net u tag
      · rfl

/-! ### Outbounds added to a config -/

/-- `cfg'` is `cfg` with outbounds added behind, none under a tag that is taken. -/
structure Config.ExtendsTo (cfg cfg' : Config) : Prop where
  router : cfg'.routerConfig = cfg.routerConfig
  has : ∀ tag, hasOutbound cfg tag = true → hasOutbound cfg' tag = true
  nodup : (cfg.outboundConfigs.map Outbound.tag).Nodup → (cfg'.outboundConfigs.map Outbound.tag).Nodup
  head : ∀ ob, cfg.outboundConfigs.head? = some ob → cfg'.outboundConfigs.head? = some ob

theorem Config.ExtendsTo.refl (cfg : Config) : cfg.ExtendsTo cfg :=
  ⟨rfl, fun _ => id, id, fun _ => id⟩

theorem Config.ExtendsTo.trans {a b c : Config} (hab : a.ExtendsTo b) (hbc : b.ExtendsTo c) : a.ExtendsTo c where
  router := hbc.router.trans hab.router
  has tag htag := hbc.has tag (hab.has tag htag)
  nodup hnodup := hbc.nodup (hab.nodup hnodup)
  head ob hob := hbc.head ob (hab.head ob hob)

theorem hasOutbound_iff {cfg : Config} {tag : Text} :
    hasOutbound cfg tag = true ↔ tag ∈ cfg.outboundConfigs.map Outbound.tag := by
  simp [hasOutbound]

theorem extendsTo_ensureOutbound (cfg : Config) (ob : Outbound) : cfg.ExtendsTo (ensureOutbound cfg ob) := by
  unfold ensureOutbound
  split
  · exact .refl cfg
  next hnew =>
    refine ⟨rfl, fun tag htag => ?_, fun hnodup => ?_, fun first hfirst => ?_⟩
    · rw [hasOutbound_iff] at htag ⊢
      simp only [List.map_append, List.mem_append]
      exact .inl htag
    · rw [hasOutbound_iff] at hnew
      rw [List.map_append, List.nodup_append]
      refine ⟨hnodup, by simp, fun tag htag other hother => ?_⟩
      rw [List.map_singleton, List.mem_singleton] at hother
      rintro rfl
      exact hnew (hother ▸ htag)
    · rw [List.head?_append, hfirst, Option.some_or]

theorem hasOutbound_ensureOutbound (cfg : Config) (ob : Outbound) :
    hasOutbound (ensureOutbound cfg ob) ob.tag = true := by
  unfold ensureOutbound
  split
  · assumption
  · simp [hasOutbound]

theorem extendsTo_foldl {α : Type} {f : Config → α → Config} (hf : ∀ (cfg : Config) a, cfg.ExtendsTo (f cfg a)) (l : List α)
    (cfg : Config) : cfg.ExtendsTo (l.foldl f cfg) := by
  induction l generalizing cfg with
  | nil => exact .refl cfg
  | cons a l ih => exact (hf cfg a).trans (ih (f cfg a))

/-- What one round of a loop adds is there at the end of it. -/
theorem hasOutbound_foldl {α : Type} {f : Config → α → Config} (hf : ∀ (cfg : Config) a, cfg.ExtendsTo (f cfg a)) {l : List α}
    {a : α} (ha : a ∈ l) {tag : Text} (htag : ∀ cfg, hasOutbound (f cfg a) tag = true) (cfg : Config) :
    hasOutbound (l.foldl f cfg) tag = true := by
  obtain ⟨front, back, rfl⟩ := List.append_of_mem ha
  rw [List.foldl_append, List.foldl_cons]
  exact (extendsTo_foldl hf back _).has tag (htag _)

/-! ### The targets of the rules -/

/-- The rule names the target in the field of its kind and leaves the other unset. -/
def FieldRule.SendsTo (r : FieldRule) (t : RouteTarget) : Prop :=
  r.outboundTag = (if t.isBalancer then [] else t.tag) ∧ r.balancerTag = if t.isBalancer then t.tag else []

theorem RouteTarget.apply_sendsTo (t : RouteTarget) {r : FieldRule} (houtbound : r.outboundTag = [])
    (hbalancer : r.balancerTag = []) : (t.apply r).SendsTo t := by
  unfold FieldRule.SendsTo RouteTarget.apply
  split
  · exact ⟨houtbound, rfl⟩
  · exact ⟨rfl, hbalancer⟩

theorem addMatcher_tags (r : FieldRule) (e : Entry) :
    (addMatcher r e).1.outboundTag = r.outboundTag ∧ (addMatcher r e).1.balancerTag = r.balancerTag := by
  unfold addMatcher
  dsimp only
  split_ifs <;> exact ⟨rfl, rfl⟩

theorem addMatchers_tags (entries : List Entry) (r : FieldRule) (flag : Bool) :
    (addMatchers r flag entries).1.outboundTag = r.outboundTag ∧
      (addMatchers r flag entries).1.balancerTag = r.balancerTag := by
  induction entries generalizing r flag with
  | nil => exact ⟨rfl, rfl⟩
  | cons e entries ih =>
      obtain ⟨houtbound, hbalancer⟩ := addMatcher_tags r e
      obtain ⟨houtbound', hbalancer'⟩ := ih (addMatcher r e).1 ((addMatcher r e).2 || flag)
      exact ⟨houtbound'.trans houtbound, hbalancer'.trans hbalancer⟩

theorem exists_step_of_stepRules {steps : List Step} {inbounds : List Text} {targetOf : Step → RouteTarget}
    {r : FieldRule} (hr : r ∈ stepRules steps inbounds targetOf) : ∃ s ∈ steps, r.SendsTo (targetOf s) := by
  obtain ⟨s, hs, hrule⟩ := List.mem_filterMap.mp hr
  simp only [stepRule] at hrule
  split at hrule
  · simp at hrule
  · obtain rfl := Option.some.inj hrule
    refine ⟨s, hs, RouteTarget.apply_sendsTo _ ?_ ?_⟩
    · rw [(addMatchers_tags _ _ _).1, (addMatchers_tags _ _ _).1]
    · rw [(addMatchers_tags _ _ _).2, (addMatchers_tags _ _ _).2]

def needDirect (p : Profile) : Bool := p.resolvedMode == .directAll || p.localNetworks || p.hasDirect

def needBlock (p : Profile) : Bool := p.hasBlock || p.disableIPv6 || p.disableUDP

/-- The targets a profile's rules may be given, with the condition under which each has its outbound. -/
inductive Needed (p : Profile) (proxy : RouteTarget) : RouteTarget → Prop where
  | proxy : Needed p proxy proxy
  | direct (h : needDirect p = true) : Needed p proxy direct
  | block (h : needBlock p = true) : Needed p proxy block
  | tierDirect {t : Tier} {i : Nat} (ht : (t, i) ∈ p.tiers.zipIdx) (h : needsTierDirect p t = true) :
      Needed p proxy ⟨tierDirectTag i, false⟩

theorem needBlock_of_entry {p : Profile} {t : Tier} (ht : t ∈ p.tiers) {e : Entry} (he : e ∈ t.entries)
    (hblock : e.target = .block) : needBlock p = true := by
  cases hp : p.hasBlock with
  | true => simp [needBlock, hp]
  | false => exact absurd hblock (Profile.target_ne_block hp ht he)

theorem needDirect_of_entry {p : Profile} {t : Tier} (ht : t ∈ p.tiers) {e : Entry} (he : e ∈ t.entries)
    (hdirect : e.target = .direct) : needDirect p = true := by
  have hlist : t.direct ≠ [] := by
    rcases Tier.mem_entries.mp he with he | he | he
    · simp [(mem_listEntries.mp he).2] at hdirect
    · obtain ⟨⟨m, hm, -⟩, -⟩ := mem_listEntries.mp he
      exact List.ne_nil_of_mem hm
    · simp [(mem_listEntries.mp he).2] at hdirect
  have hhas : p.hasDirect = true :=
    List.any_eq_true.mpr ⟨t, ht, by simpa [List.length_pos_iff] using hlist⟩
  simp [needDirect, hhas]

theorem needed_tierTargetOf {p : Profile} (proxy : RouteTarget) {t : Tier} {i : Nat} (ht : (t, i) ∈ p.tiers.zipIdx)
    {s : Step} (hs : s ∈ t.steps) : Needed p proxy (tierTargetOf p proxy t i s) := by
  have hmem : t ∈ p.tiers := (List.mem_zipIdx' ht).2 ▸ List.getElem_mem _
  obtain ⟨e, he, htarget⟩ := t.exists_entry_of_step hs
  unfold tierTargetOf
  cases hstep : s.target with
  | block => exact .block (needBlock_of_entry hmem he (htarget.trans hstep))
  | proxy => exact .proxy
  | direct =>
      have hneed := needDirect_of_entry hmem he (htarget.trans hstep)
      dsimp only
      split
      · split
        · exact .tierDirect ht (by assumption)
        · exact .direct hneed
      · exact .direct hneed

theorem needed_modeTarget (p : Profile) (proxy : RouteTarget) : Needed p proxy (modeTarget p proxy) := by
  unfold modeTarget
  split
  next hmode => exact .direct (by simp [needDirect, hmode])
  · exact .proxy

def AllNeeded (p : Profile) (proxy : RouteTarget) (rules : List FieldRule) : Prop :=
  ∀ r ∈ rules, ∃ t, r.SendsTo t ∧ Needed p proxy t

variable {p : Profile} {proxy : RouteTarget}

theorem AllNeeded.nil : AllNeeded p proxy [] := by simp [AllNeeded]

theorem AllNeeded.append {a b : List FieldRule} (ha : AllNeeded p proxy a) (hb : AllNeeded p proxy b) :
    AllNeeded p proxy (a ++ b) := List.forall_mem_append.mpr ⟨ha, hb⟩

theorem AllNeeded.cons {t : RouteTarget} (ht : Needed p proxy t) {r : FieldRule} {rules : List FieldRule}
    (houtbound : r.outboundTag = []) (hbalancer : r.balancerTag = []) (hrules : AllNeeded p proxy rules) :
    AllNeeded p proxy (t.apply r :: rules) :=
  List.forall_mem_cons.mpr ⟨⟨t, t.apply_sendsTo houtbound hbalancer, ht⟩, hrules⟩

theorem allNeeded_killSwitchRules : AllNeeded p proxy (killSwitchRules p) := by
  unfold killSwitchRules
  refine .append ?_ ?_ <;> split
  · exact .cons (.block (by simp [needBlock, *])) rfl rfl .nil
  · exact .nil
  · exact .cons (.block (by simp [needBlock, *])) rfl rfl .nil
  · exact .nil

theorem allNeeded_forceRules : AllNeeded p proxy (forceRules p proxy) := by
  unfold forceRules
  split
  · refine .append (.append ?_ ?_) (.cons .proxy rfl rfl .nil)
    · intro r hr
      obtain ⟨t, ht, hr⟩ := List.mem_flatMap.mp hr
      obtain ⟨s, hs, hsends⟩ := exists_step_of_stepRules hr
      obtain ⟨hstep, htarget, -⟩ := mem_blockSteps.mp hs
      obtain ⟨e, he, hentry⟩ := t.exists_entry_of_step hstep
      exact ⟨_, hsends, .block (needBlock_of_entry ht he (hentry.trans htarget))⟩
    · split
      · exact .cons .proxy rfl rfl (.cons (.direct (by simp [needDirect, *])) rfl rfl .nil)
      · exact .nil
  · exact .nil

theorem allNeeded_tierRules : AllNeeded p proxy (tierRules p proxy) := by
  intro r hr
  obtain ⟨⟨t, i⟩, ht, hr⟩ := List.mem_flatMap.mp hr
  obtain ⟨s, hs, hsends⟩ := exists_step_of_stepRules hr
  exact ⟨_, hsends, needed_tierTargetOf proxy ht hs⟩

theorem allNeeded_modeRules : AllNeeded p proxy (modeRules p proxy) := by
  have hmode := needed_modeTarget p proxy
  unfold modeRules
  refine .append ?_ (.cons hmode rfl rfl .nil)
  split
  · exact .cons hmode rfl rfl (.cons (.direct (by simp [needDirect, *])) rfl rfl .nil)
  · exact .nil

theorem allNeeded_routingRules : AllNeeded p proxy (routingRules p proxy) :=
  .append (.append (.append (.append allNeeded_killSwitchRules (.cons .proxy rfl rfl .nil)) allNeeded_forceRules)
    allNeeded_tierRules) allNeeded_modeRules

/-! ### The outbounds of the rules -/

/-- One round of the loop that adds the tiers' own direct outbounds. -/
def ensureTierDirect (p : Profile) (cfg : Config) (tier : Tier × Nat) : Config :=
  if needsTierDirect p tier.1 then
    ensureOutbound cfg (tierDirectOutbound p (tierDirectTag tier.2) (directFinalRules tier.1.entries))
  else cfg

def ensureDirect (p : Profile) (cfg : Config) : Config :=
  if needDirect p then ensureOutbound cfg (directOutbound p directTag) else cfg

def ensureBlock (p : Profile) (cfg : Config) : Config :=
  if needBlock p then ensureOutbound cfg { protocol := "blackhole".toList, tag := blockTag } else cfg

theorem ensureOutbounds_eq (p : Profile) (cfg : Config) :
    ensureOutbounds p cfg = p.tiers.zipIdx.foldl (ensureTierDirect p) (ensureBlock p (ensureDirect p cfg)) := rfl

theorem extendsTo_ensureIf (c : Prop) [Decidable c] (cfg : Config) (ob : Outbound) :
    cfg.ExtendsTo (if c then ensureOutbound cfg ob else cfg) := by
  split
  · exact extendsTo_ensureOutbound cfg ob
  · exact .refl cfg

theorem extendsTo_ensureTierDirect (p : Profile) (cfg : Config) (tier : Tier × Nat) :
    cfg.ExtendsTo (ensureTierDirect p cfg tier) := extendsTo_ensureIf _ _ _

theorem extendsTo_tiers (p : Profile) (cfg : Config) :
    cfg.ExtendsTo (p.tiers.zipIdx.foldl (ensureTierDirect p) cfg) := extendsTo_foldl (extendsTo_ensureTierDirect p) _ _

theorem extendsTo_ensureOutbounds (p : Profile) (cfg : Config) : cfg.ExtendsTo (ensureOutbounds p cfg) := by
  rw [ensureOutbounds_eq]
  exact ((extendsTo_ensureIf _ cfg _).trans (extendsTo_ensureIf _ (ensureDirect p cfg) _)).trans (extendsTo_tiers p _)

def Config.balancers (cfg : Config) : List Text := (cfg.routerConfig.map RouterConfig.balancers).getD []

/-- The config knows the target: a balancer, or the tag of an outbound. -/
def Config.Defines (cfg : Config) (t : RouteTarget) : Prop :=
  if t.isBalancer then t.tag ∈ cfg.balancers else hasOutbound cfg t.tag = true

theorem Config.ExtendsTo.defines {cfg cfg' : Config} (hext : cfg.ExtendsTo cfg') {t : RouteTarget}
    (hdef : cfg.Defines t) : cfg'.Defines t := by
  unfold Config.Defines at *
  split
  next hkind =>
    rw [if_pos hkind, Config.balancers, ← hext.router] at hdef
    exact hdef
  next hkind =>
    rw [if_neg hkind] at hdef
    exact hext.has _ hdef

theorem defines_of_needed {t : RouteTarget} (hneeded : Needed p proxy t) {cfg : Config} (hproxy : cfg.Defines proxy) :
    (ensureOutbounds p cfg).Defines t := by
  cases hneeded with
  | proxy => exact (extendsTo_ensureOutbounds p cfg).defines hproxy
  | direct hneed =>
      have hhas : (ensureDirect p cfg).Defines direct := by
        rw [ensureDirect, if_pos hneed]
        exact hasOutbound_ensureOutbound cfg (directOutbound p directTag)
      exact ((extendsTo_ensureIf _ _ _).trans (extendsTo_tiers p _)).defines hhas
  | block hneed =>
      have hhas : (ensureBlock p (ensureDirect p cfg)).Defines block := by
        rw [ensureBlock, if_pos hneed]
        exact hasOutbound_ensureOutbound _ { protocol := "blackhole".toList, tag := blockTag }
      exact (extendsTo_tiers p _).defines hhas
  | @tierDirect t i ht hneed =>
      refine hasOutbound_foldl (extendsTo_ensureTierDirect p) ht (fun cfg => ?_) _
      rw [ensureTierDirect, if_pos hneed]
      exact hasOutbound_ensureOutbound cfg (tierDirectOutbound p (tierDirectTag i) (directFinalRules t.entries))

/-! ### Every name is defined once -/

/-- Every rule names either one outbound or a balancer, and no two outbounds share a tag. -/
structure Config.Resolves (cfg : Config) : Prop where
  rules : ∀ r ∈ cfg.rules,
    (r.balancerTag = [] ∧ (cfg.outboundConfigs.map Outbound.tag).count r.outboundTag = 1) ∨
      (r.outboundTag = [] ∧ r.balancerTag ∈ cfg.balancers)
  tags : (cfg.outboundConfigs.map Outbound.tag).Nodup

/-- The rules' targets are all defined. -/
def Config.Closed (cfg : Config) : Prop := ∀ r ∈ cfg.rules, ∃ t, r.SendsTo t ∧ cfg.Defines t

theorem Config.Closed.resolves {cfg : Config} (hclosed : cfg.Closed)
    (htags : (cfg.outboundConfigs.map Outbound.tag).Nodup) : cfg.Resolves := by
  refine ⟨fun r hr => ?_, htags⟩
  obtain ⟨t, ⟨houtbound, hbalancer⟩, hdef⟩ := hclosed r hr
  unfold Config.Defines at hdef
  cases hkind : t.isBalancer with
  | true =>
      simp only [hkind, if_true] at houtbound hbalancer hdef
      exact .inr ⟨houtbound, hbalancer ▸ hdef⟩
  | false =>
      simp only [hkind, Bool.false_eq_true, if_false] at houtbound hbalancer hdef
      refine .inl ⟨hbalancer, List.count_eq_one_of_mem htags ?_⟩
      rw [houtbound]
      exact hasOutbound_iff.mp hdef

theorem applyRouting_balancers (cfg : Config) (tag : Text) (isBalancer : Bool) :
    (applyRouting p cfg tag isBalancer).balancers = cfg.balancers := by
  have hrouter := (extendsTo_ensureOutbounds p cfg).router
  simp only [applyRouting, Config.balancers, hrouter]
  cases cfg.routerConfig <;> rfl

theorem closed_applyRouting {cfg : Config} (hproxy : cfg.Defines proxy) :
    (applyRouting p cfg proxy.tag proxy.isBalancer).Closed := by
  intro r hr
  rw [applyRouting_rules] at hr
  obtain ⟨t, hsends, hneeded⟩ := allNeeded_routingRules r hr
  have hdef := defines_of_needed hneeded hproxy
  refine ⟨t, hsends, ?_⟩
  unfold Config.Defines at hdef ⊢
  rw [applyRouting_balancers]
  rw [Config.balancers, (extendsTo_ensureOutbounds p cfg).router] at hdef
  exact hdef

def dnsOutbound : Outbound where
  protocol := "dns".toList
  tag := dnsOutboundTag

theorem applyFakeDNSRules_rules (cfg : Config) :
    (applyFakeDNSRules cfg).rules
      = (if hasOutbound (ensureOutbound cfg dnsOutbound) directTag then [internalRule, dnsRule] else [dnsRule])
          ++ cfg.rules := by
  have hrouter := (extendsTo_ensureOutbound cfg dnsOutbound).router
  rw [dnsOutbound] at hrouter
  simp only [applyFakeDNSRules, Config.rules, hrouter, Option.map_some, Option.getD_some, dnsOutbound]
  cases cfg.routerConfig <;> rfl

theorem applyFakeDNSRules_balancers (cfg : Config) : (applyFakeDNSRules cfg).balancers = cfg.balancers := by
  have hrouter := (extendsTo_ensureOutbound cfg dnsOutbound).router
  rw [dnsOutbound] at hrouter
  simp only [applyFakeDNSRules, Config.balancers, hrouter]
  cases cfg.routerConfig <;> rfl

theorem defines_applyFakeDNSRules {cfg : Config} {t : RouteTarget}
    (hdef : (ensureOutbound cfg dnsOutbound).Defines t) : (applyFakeDNSRules cfg).Defines t := by
  unfold Config.Defines at hdef ⊢
  rw [applyFakeDNSRules_balancers]
  rw [Config.balancers, (extendsTo_ensureOutbound cfg dnsOutbound).router] at hdef
  exact hdef

/-- fake-ip puts two rules in front: one to its own outbound, and one to the direct outbound where that exists. -/
theorem closed_applyFakeDNSRules {cfg : Config} (hclosed : cfg.Closed) : (applyFakeDNSRules cfg).Closed := by
  have hdns : (applyFakeDNSRules cfg).Defines ⟨dnsOutboundTag, false⟩ :=
    defines_applyFakeDNSRules (hasOutbound_ensureOutbound cfg dnsOutbound)
  intro r hr
  rw [applyFakeDNSRules_rules, List.mem_append] at hr
  rcases hr with hr | hr
  · split at hr
    next hdirect =>
      rw [List.mem_cons, List.mem_singleton] at hr
      rcases hr with rfl | rfl
      · exact ⟨direct, ⟨rfl, rfl⟩, defines_applyFakeDNSRules hdirect⟩
      · exact ⟨_, ⟨rfl, rfl⟩, hdns⟩
    next =>
      rw [List.mem_singleton.mp hr]
      exact ⟨_, ⟨rfl, rfl⟩, hdns⟩
  · obtain ⟨t, hsends, hdef⟩ := hclosed r hr
    exact ⟨t, hsends, defines_applyFakeDNSRules ((extendsTo_ensureOutbound cfg dnsOutbound).defines hdef)⟩

theorem applyDNS_config (cfg : Config) (dns : DnsConfig) (p : Profile) :
    (applyDNS cfg dns p).config = if dns.fakeIP then applyFakeDNSRules cfg else cfg := by
  unfold applyDNS applyFakeDNS applyPlainDNS
  split
  · rfl
  · dsimp only
    split_ifs <;> rfl

/-- The config of some outbounds once the rules and the DNS part are written: closed, with the first outbound and
the distinct tags it began with. -/
theorem resolves_applyDNS (p : Profile) (dns : DnsConfig) (proxy : RouteTarget) (cfg : Config) (hproxy : cfg.Defines proxy)
    (htags : (cfg.outboundConfigs.map Outbound.tag).Nodup) {first : Outbound}
    (hfirst : cfg.outboundConfigs.head? = some first) :
    (applyDNS (applyRouting p cfg proxy.tag proxy.isBalancer) dns p).config.Resolves ∧
      (applyDNS (applyRouting p cfg proxy.tag proxy.isBalancer) dns p).config.outboundConfigs.head? = some first := by
  have hclosed : (applyRouting p cfg proxy.tag proxy.isBalancer).Closed := closed_applyRouting hproxy
  have hrouted := extendsTo_ensureOutbounds p cfg
  have hdns := extendsTo_ensureOutbound (applyRouting p cfg proxy.tag proxy.isBalancer) dnsOutbound
  rw [applyDNS_config]
  split
  · exact ⟨(closed_applyFakeDNSRules hclosed).resolves (hdns.nodup (hrouted.nodup htags)),
      hdns.head first (hrouted.head first hfirst)⟩
  · exact ⟨hclosed.resolves (hrouted.nodup htags), hrouted.head first hfirst⟩

/-! ### The finished config -/

theorem proxyTag_injective : Function.Injective proxyTag := fun _ _ h =>
  itoa_injective (List.append_cancel_left h)

/-- The link builds, under any tag. -/
def Buildable (net : Net) (link : Text) : Prop := ∃ built, outboundFromLink net link [] = .ok built

instance (net : Net) (link : Text) : Decidable (Buildable net link) :=
  match h : outboundFromLink net link [] with
  | .ok built => isTrue ⟨built, h⟩
  | .error _ => isFalse (by simp [Buildable, h])

theorem outboundFromLink_of_base {link : Text} {base : Built} (hbase : outboundFromLink net link [] = .ok base)
    (tag : Text) : outboundFromLink net link tag = .ok (retag tag base) := by
  rw [outboundFromLink_retag, hbase]
  rfl

/-- What is asked of a build: the finished config resolves, and its first outbound is one of the links'. -/
def BuildsResolving (net : Net) (clean : List Text) (p : Profile) (dns : DnsConfig) (res : BuildResult) : Prop :=
  (applyDNS res.config dns p).config.Resolves ∧
    ∃ link ∈ clean, ∃ tag ∈ res.outboundTags, ∃ built, outboundFromLink net link tag = .ok built ∧
      (applyDNS res.config dns p).config.outboundConfigs.head? = some built.1.toOutbound

theorem buildOne_resolves {link : Text} (hbuild : Buildable net link) (p : Profile) (dns : DnsConfig) :
    ∃ res, buildOne net link p = .ok res ∧ BuildsResolving net [link] p dns res := by
  obtain ⟨base, hbase⟩ := hbuild
  have hok := outboundFromLink_of_base net hbase outboundTag
  rw [buildOne, hok]
  refine ⟨_, rfl, ?_⟩
  obtain ⟨hresolves, hhead⟩ := resolves_applyDNS p dns ⟨outboundTag, false⟩
    ⟨[(retag outboundTag base).1.toOutbound], none⟩
    (by simp [Config.Defines, hasOutbound, retag, ProxyOutbound.toOutbound]) (by simp) rfl
  exact ⟨hresolves, link, by simp, outboundTag, by simp, _, hok, hhead⟩

/-- The outbounds of several links, each under the tag of its place. -/
theorem nodup_proxyTags (l : List (Text × Nat)) (hl : (l.map Prod.snd).Nodup) (base : Text → Built) :
    ((l.map fun (link, i) => retag (proxyTag i) (base link)).map fun b => b.1.toOutbound.tag).Nodup := by
  have htags : ((l.map fun (link, i) => retag (proxyTag i) (base link)).map fun b => b.1.toOutbound.tag)
      = (l.map Prod.snd).map proxyTag := by
    rw [List.map_map, List.map_map]
    rfl
  rw [htags]
  exact hl.map proxyTag_injective

theorem buildSeveral_resolves {first : Text} {rest : List Text}
    (hbuild : ∀ link ∈ first :: rest, Buildable net link) {opts o : BalancerOptions} (hopts : opts.normalized = .ok o)
    (p : Profile) (dns : DnsConfig) :
    ∃ res, buildSeveral net (first :: rest) opts p = .ok res ∧ BuildsResolving net (first :: rest) p dns res := by
  have hsome : Nonempty Built := ⟨(hbuild first (by simp)).choose⟩
  choose! base hbase using hbuild
  have hround : ∀ x ∈ (first :: rest).zipIdx, buildLink net x.1 x.2 = .ok (retag (proxyTag x.2) (base x.1)) := by
    rintro ⟨link, i⟩ hx
    have hlink : link ∈ first :: rest := (List.mem_zipIdx' hx).2 ▸ List.getElem_mem _
    rw [buildLink, outboundFromLink_of_base net (hbase link hlink)]
    rfl
  rw [buildSeveral, hopts]
  dsimp only [bind, Except.bind]
  rw [Fallible.mapM_eq_ok hround]
  refine ⟨_, rfl, ?_⟩
  have hnodup := nodup_proxyTags (first :: rest).zipIdx (by rw [List.zipIdx_map_snd]; exact List.nodup_range') base
  obtain ⟨hresolves, hhead⟩ := resolves_applyDNS p dns ⟨balancerTag, true⟩
    ⟨((first :: rest).zipIdx.map fun x => retag (proxyTag x.2) (base x.1)).map fun b => b.1.toOutbound,
      some ⟨[], [balancerTag], none⟩⟩
    (by simp [Config.Defines, Config.balancers]) (by rw [List.map_map]; exact hnodup) rfl
  exact ⟨hresolves, first, by simp, proxyTag 0, by simp [List.zipIdx_cons], _,
    outboundFromLink_of_base net (hbase first (by simp)) (proxyTag 0), hhead⟩

/-- Any list of links that build, any profile and any DNS part: the config is built, each of its rules names one
outbound or a balancer it defines, no tag is given twice, and the first outbound, which takes a flow no rule
matches, is a proxy. -/
theorem buildConfig_resolves (net : Net) (links : List Text) (opts : BalancerOptions) (p : Profile) (dns : DnsConfig)
    (hlinks : cleanLinks links ≠ []) (hbuild : ∀ link ∈ cleanLinks links, Buildable net link)
    (hopts : (cleanLinks links).length = 1 ∨ ∃ o, opts.normalized = .ok o) :
    ∃ res, buildConfig net links opts p = .ok res ∧
      (applyDNS res.config dns p).config.Resolves ∧
      ∃ link ∈ cleanLinks links, ∃ tag ∈ res.outboundTags, ∃ built, outboundFromLink net link tag = .ok built ∧
        (applyDNS res.config dns p).config.outboundConfigs.head? = some built.1.toOutbound := by
  unfold buildConfig
  cases hclean : cleanLinks links with
  | nil => exact absurd hclean hlinks
  | cons first rest =>
      rw [hclean] at hbuild hopts
      cases rest with
      | nil => exact buildOne_resolves net (hbuild first (by simp)) p dns
      | cons second rest =>
          rcases hopts with hone | ⟨o, hopts⟩
          · simp at hone
          · exact buildSeveral_resolves net hbuild hopts p dns

def twoLinks : List Text := ["trojan://secret@a.example:443".toList, [], " trojan://secret@b.example:443".toList]

theorem buildConfig_resolves_twoLinks :
    ∃ res, buildConfig publicNet twoLinks ⟨[], [], 0⟩ ⟨[], [], [], true, [], [], false, true⟩ = .ok res ∧
      (applyDNS res.config {} ⟨[], [], [], true, [], [], false, true⟩).config.Resolves ∧
      ∃ link ∈ cleanLinks twoLinks, ∃ tag ∈ res.outboundTags, ∃ built,
        outboundFromLink publicNet link tag = .ok built ∧
        (applyDNS res.config {} ⟨[], [], [], true, [], [], false, true⟩).config.outboundConfigs.head?
          = some built.1.toOutbound :=
  buildConfig_resolves publicNet twoLinks ⟨[], [], 0⟩ ⟨[], [], [], true, [], [], false, true⟩ {} (by decide +kernel)
    (by decide +kernel) (.inr ⟨⟨strategyLeastPing, defaultProbeURL, defaultProbeIntervalSec⟩, by decide +kernel⟩)

end GlitchCore.Xray
