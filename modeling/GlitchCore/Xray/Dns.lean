import GlitchCore.Routing.Dns
import GlitchCore.Routing.TwoPlane
import GlitchCore.Xray.Verdict

/-!
# The DNS servers of an xray config

xray asks the servers whose scope takes a name first and the unscoped ones after them. `applyPlainDNS` uses
that to split the names: copies of the general servers scoped to what the tiers proxy stand in front, then
the direct servers, scoped to what the tiers send direct unless direct is the mode, then the general ones.
The scopes are flat sets over all tiers while routing takes the first tier that matches, so the order of the
list is what keeps a name that goes to the proxy away from the direct servers.
-/

namespace GlitchCore.Xray

open GoText HostPort

/-- Which of the caller's lists a server is from; xray has no such field. -/
inductive Origin where
  | general
  | direct
  deriving DecidableEq, Repr

structure NameServerConfig where
  origin : Origin
  address : Text
  port : Nat := 0
  domains : List Text := []
  skipFallback : Bool := false
  deriving DecidableEq, Repr

structure DNSConfig where
  servers : List NameServerConfig := []
  hosts : Option (List (Text × List Text)) := none
  queryStrategy : Text := []
  tag : Text := []
  deriving DecidableEq, Repr

structure FakeDNSPool where
  ipPool : Text
  poolSize : Nat
  deriving DecidableEq, Repr

/-- A config with its DNS part. -/
structure ResolvingConfig where
  config : Config
  dnsConfig : Option DNSConfig := none
  fakeDNS : Option (List FakeDNSPool) := none
  deriving DecidableEq, Repr

/-- The server as xray writes it; it has no DNS over TLS. -/
def toXrayServer (s : Text) : Option Text :=
  if scheme s = "quic".toList then
    some ("quic+local://".toList ++ if "quic://".toList.isPrefixOf s then s.drop "quic://".length else s)
  else if scheme s = "tls".toList then none
  else some s

def nameServer (origin : Origin) (xs : Text) : NameServerConfig :=
  if scheme xs = [] then
    match (splitHostPort xs).bind fun (host, port) => (portOf port).map fun p => (host, p) with
    | some (host, port) => { origin, address := host, port }
    | none => { origin, address := xs }
  else { origin, address := xs }

def plainNameServers (origin : Origin) (servers : List Text) : List NameServerConfig :=
  servers.filterMap fun s => (toXrayServer s).map (nameServer origin)

def scopedCopies (list : List NameServerConfig) (domains : List Text) : List NameServerConfig :=
  if domains = [] then [] else list.map fun ns => { ns with domains, skipFallback := true }

def domainMatcher : MatchKind × Text → Option Text
  | (.geoSite, val) => some ("geosite:".toList ++ val)
  | (.domainSuffix, val) => some ("domain:".toList ++ val)
  | (.domainFull, val) => some ("full:".toList ++ val)
  | (.domainKeyword, val) => some val
  | (.domainRegex, val) => some ("regexp:".toList ++ val)
  | (.geoIP, _) | (.ipCIDR, _) | (.process, _) => none

def domainMatchers (filter : List Text) : List Text := filter.filterMap fun f => (classify f).bind domainMatcher

def tierDomains (p : Profile) : Target → List Text
  | .direct => domainMatchers (p.tiers.flatMap Tier.direct)
  | .proxy => domainMatchers (p.tiers.flatMap Tier.proxy)
  | .block => []

def queryStrategy (dns : DnsConfig) : Text := if dns.disableIPv6 then "UseIPv4".toList else []

def hostsWrapper (hosts : List (Text × List Text)) : Option (List (Text × List Text)) :=
  if hosts = [] then none else some hosts

/-- The server list of normal mode. Without a direct domain rule to scope them to, the direct servers of a
proxy-all profile are left out. -/
def plainServers (p : Profile) (general direct : List NameServerConfig) : List NameServerConfig :=
  let proxyScoped := scopedCopies general (tierDomains p .proxy)
  if direct = [] then general
  else if p.resolvedMode = .directAll then proxyScoped ++ direct ++ general
  else if tierDomains p .direct ≠ [] then proxyScoped ++ scopedCopies direct (tierDomains p .direct) ++ general
  else general

def applyPlainDNS (cfg : Config) (dns : DnsConfig) (p : Profile) : ResolvingConfig :=
  let nsList := plainServers p (plainNameServers .general (dns.normalizedServers []))
    (plainNameServers .direct dns.normalizedDirectServers)
  let hosts := hostsWrapper dns.normalizedHosts
  if nsList = [] ∧ hosts = none then
    -- no servers, but AAAA still has to be kept from xray's own lookups
    if dns.disableIPv6 then { config := cfg, dnsConfig := some { queryStrategy := "UseIPv4".toList } }
    else { config := cfg }
  else { config := cfg, dnsConfig := some { servers := nsList, hosts, queryStrategy := queryStrategy dns } }

def fakeIPPoolSize : Nat := 65535

def fakePools (dns : DnsConfig) : List FakeDNSPool :=
  let v4 : FakeDNSPool := ⟨"198.19.0.0/16".toList, fakeIPPoolSize⟩
  if dns.disableIPv6 then [v4] else [v4, ⟨"fc00::/18".toList, fakeIPPoolSize⟩]

/-- The excluded names resolve for real, in front of fakedns; the rest of the list only the module's own
lookups reach. -/
def fakeServers (dns : DnsConfig) : List NameServerConfig :=
  let real := plainNameServers .general (dns.normalizedServers "1.1.1.1".toList)
  let exclude := domainMatchers dns.normalizedFilter
  scopedCopies (real.take 1) exclude ++ [{ origin := .general, address := "fakedns".toList }] ++
    plainNameServers .direct dns.normalizedDirectServers ++ real

def applyFakeDNS (cfg : Config) (dns : DnsConfig) : ResolvingConfig where
  config := applyFakeDNSRules cfg
  dnsConfig := some { servers := fakeServers dns, hosts := hostsWrapper dns.normalizedHosts,
                      queryStrategy := queryStrategy dns, tag := dnsInternalTag }
  fakeDNS := some (fakePools dns)

def applyDNS (cfg : Config) (dns : DnsConfig) (p : Profile) : ResolvingConfig :=
  if dns.fakeIP then applyFakeDNS cfg dns else applyPlainDNS cfg dns p

/-! ### Which server is asked -/

/-- The servers xray asks for a name, in order; `takes` is how it reads a scope's matcher against the name. -/
def asked (takes : Text → Bool) (servers : List NameServerConfig) : List NameServerConfig :=
  (servers.filter fun ns => ns.domains.any takes) ++
    servers.filter fun ns => ns.domains.isEmpty && !ns.skipFallback

/-- Whether an entry takes a flow of which only the name is known, as xray reads its matcher. -/
def View.nameHits (v : View) (e : Entry) : Bool := e.plane == .name && v.xrayHits e

/-- Where the tiers, evaluated on the name alone, and then the mode send it. -/
def nameOutcome (p : Profile) (hit : Entry → Bool) : Target := (tiersOutcome p.tiers hit).getD p.modeOutcome

theorem domainMatcher_eq {kind : MatchKind} {val d : Text} (target : Target) :
    domainMatcher (kind, val) = some d ↔
      (⟨kind, val, target⟩ : Entry).plane = .name ∧ xrayMatcher ⟨kind, val, target⟩ = d := by
  cases kind <;> simp [domainMatcher, xrayMatcher, Entry.plane, Entry.byAddress]

/-- The matchers of a rule list that a DNS scope keeps are those of its entries that a name can meet. -/
theorem mem_domainMatchers {matchers : List Text} {d : Text} (target : Target) :
    d ∈ domainMatchers matchers ↔
      ∃ e ∈ listEntries matchers target, e.plane = .name ∧ xrayMatcher e = d := by
  simp only [domainMatchers, List.mem_filterMap, Option.bind_eq_some_iff, mem_listEntries]
  constructor
  · rintro ⟨m, hm, ⟨kind, val⟩, hclass, hd⟩
    exact ⟨⟨kind, val, target⟩, ⟨⟨m, hm, hclass⟩, rfl⟩, (domainMatcher_eq target).mp hd⟩
  · rintro ⟨⟨kind, val, _⟩, ⟨⟨m, hm, hclass⟩, rfl⟩, hd⟩
    exact ⟨m, hm, (kind, val), hclass, (domainMatcher_eq _).mpr hd⟩

theorem any_domainMatchers {matchers : List Text} {v : View} (target : Target) :
    (domainMatchers matchers).any (v.hitsField .name) = true ↔
      ∃ e ∈ listEntries matchers target, v.nameHits e = true := by
  rw [List.any_eq_true]
  constructor
  · rintro ⟨d, hd, hhit⟩
    obtain ⟨e, he, hplane, rfl⟩ := (mem_domainMatchers target).mp hd
    exact ⟨e, he, by simp [View.nameHits, View.xrayHits, hplane, hhit]⟩
  · rintro ⟨e, he, hhit⟩
    simp only [View.nameHits, View.xrayHits, Bool.and_eq_true, beq_iff_eq] at hhit
    exact ⟨xrayMatcher e, (mem_domainMatchers target).mpr ⟨e, he, hhit.1, rfl⟩, hhit.1 ▸ hhit.2⟩

theorem tierDomains_proxy {p : Profile} {v : View} : (tierDomains p .proxy).any (v.hitsField .name) = true ↔
    ∃ t ∈ p.tiers, ∃ e ∈ listEntries t.proxy .proxy, v.nameHits e = true := by
  simp only [tierDomains, any_domainMatchers .proxy, listEntries, List.filterMap_flatMap, List.mem_flatMap]
  constructor
  · rintro ⟨e, ⟨t, ht, he⟩, hhit⟩
    exact ⟨t, ht, e, he, hhit⟩
  · rintro ⟨t, ht, e, he, hhit⟩
    exact ⟨e, ⟨t, ht, he⟩, hhit⟩

theorem tierDomains_direct {p : Profile} {v : View} : (tierDomains p .direct).any (v.hitsField .name) = true ↔
    ∃ t ∈ p.tiers, ∃ e ∈ listEntries t.direct .direct, v.nameHits e = true := by
  simp only [tierDomains, any_domainMatchers .direct, listEntries, List.filterMap_flatMap, List.mem_flatMap]
  constructor
  · rintro ⟨e, ⟨t, ht, he⟩, hhit⟩
    exact ⟨t, ht, e, he, hhit⟩
  · rintro ⟨t, ht, e, he, hhit⟩
    exact ⟨e, ⟨t, ht, he⟩, hhit⟩

/-- A tier that proxies a flow has a proxy entry that takes it. -/
theorem exists_proxy_entry {t : Tier} {m : Entry → Bool} (hout : t.outcome m = some .proxy) :
    ∃ e ∈ listEntries t.proxy .proxy, m e = true := by
  rw [t.outcome_eq_entryOutcome, Option.map_eq_some_iff] at hout
  obtain ⟨e, hfound, hproxy⟩ := hout
  have htarget : e.target = .proxy := by
    unfold entryOutcome at hproxy
    repeat' split at hproxy
    all_goals first | exact hproxy | cases hproxy
  refine ⟨e, ?_, List.find?_some hfound⟩
  obtain hlist | hlist | hlist := Tier.mem_entries.mp (List.mem_of_find?_eq_some hfound)
  · exact absurd ((mem_listEntries.mp hlist).2.symm.trans htarget) (by decide)
  · exact absurd ((mem_listEntries.mp hlist).2.symm.trans htarget) (by decide)
  · exact hlist

/-- A name that goes to the proxy is in the proxy scope, or else proxy is the mode and it is in no direct scope. -/
theorem scoped_of_proxied {p : Profile} {v : View} (hproxy : nameOutcome p v.nameHits = .proxy) :
    (tierDomains p .proxy).any (v.hitsField .name) = true ∨
      p.resolvedMode = .proxyAll ∧ (tierDomains p .direct).any (v.hitsField .name) = false := by
  cases hout : tiersOutcome p.tiers v.nameHits with
  | some target =>
      rw [nameOutcome, hout, Option.getD_some] at hproxy
      subst hproxy
      obtain ⟨front, t, back, htiers, hfirst, -⟩ := List.findSome?_eq_some_iff.mp hout
      obtain ⟨e, he, hhit⟩ := exists_proxy_entry hfirst
      exact .inl (tierDomains_proxy.mpr ⟨t, by simp [htiers], e, he, hhit⟩)
  | none =>
      rw [nameOutcome, hout, Option.getD_none] at hproxy
      refine .inr ⟨?_, Bool.eq_false_iff.mpr fun hdirect => ?_⟩
      · unfold Profile.modeOutcome at hproxy
        cases hmode : p.resolvedMode with
        | proxyAll => rfl
        | directAll => simp [hmode] at hproxy
      · obtain ⟨t, ht, e, he, hhit⟩ := tierDomains_direct.mp hdirect
        have hnone := List.any_eq_false.mp (tiersOutcome_eq_none.mp hout) t ht
        exact hnone (List.any_eq_true.mpr ⟨e, Tier.mem_entries.mpr (.inr (.inl he)), hhit⟩)

theorem plainNameServers_unscoped {origin : Origin} {servers : List Text} {ns : NameServerConfig}
    (hns : ns ∈ plainNameServers origin servers) :
    ns.origin = origin ∧ ns.domains = [] ∧ ns.skipFallback = false := by
  simp only [plainNameServers, List.mem_filterMap, Option.map_eq_some_iff] at hns
  obtain ⟨s, -, xs, -, rfl⟩ := hns
  unfold nameServer
  split
  · split <;> exact ⟨rfl, rfl, rfl⟩
  · exact ⟨rfl, rfl, rfl⟩

section Asked

variable {takes : Text → Bool} {list rest : List NameServerConfig} {domains : List Text}

theorem filter_scopedCopies (list : List NameServerConfig) (domains : List Text) :
    ((scopedCopies list domains).filter fun ns => ns.domains.any takes)
      = if domains.any takes then scopedCopies list domains else [] := by
  unfold scopedCopies
  by_cases hnil : domains = []
  · simp [hnil]
  · cases hany : domains.any takes <;> simp [hnil, List.filter_map, Function.comp_def, hany]

theorem filter_unscoped_scopedCopies (list : List NameServerConfig) (domains : List Text) :
    ((scopedCopies list domains).filter fun ns => ns.domains.isEmpty && !ns.skipFallback) = [] := by
  unfold scopedCopies
  split
  · rfl
  · simp [List.filter_map, Function.comp_def]

theorem filter_plain (hplain : ∀ ns ∈ list, ns.domains = []) :
    (list.filter fun ns => ns.domains.any takes) = [] := by
  rw [List.filter_eq_nil_iff]
  intro ns hns
  simp [hplain ns hns]

theorem asked_plain (hplain : ∀ ns ∈ list, ns.domains = [] ∧ ns.skipFallback = false) : asked takes list = list := by
  rw [asked, filter_plain fun ns hns => (hplain ns hns).1, List.nil_append, List.filter_eq_self]
  intro ns hns
  simp [hplain ns hns]

/-- Scoped copies in front are asked first for a name their scope takes. -/
theorem asked_of_scope (list rest : List NameServerConfig) (htakes : domains.any takes = true) :
    ∃ later, asked takes (scopedCopies list domains ++ rest) = scopedCopies list domains ++ later := by
  rw [asked, List.filter_append, filter_scopedCopies, if_pos htakes, List.append_assoc]
  exact ⟨_, rfl⟩

/-- and not at all for another one. -/
theorem asked_of_no_scope (hmiss : domains.any takes = false) :
    asked takes (scopedCopies list domains ++ rest) = asked takes rest := by
  rw [asked, List.filter_append, filter_scopedCopies, if_neg (by simp [hmiss]), List.filter_append,
    filter_unscoped_scopedCopies]
  rfl

theorem scopedCopies_ne_nil (hdomains : domains ≠ []) (hlist : list ≠ []) : scopedCopies list domains ≠ [] := by
  rw [scopedCopies, if_neg hdomains]
  simpa using hlist

theorem scopedCopies_origin {origin : Origin} (horigin : ∀ ns ∈ list, ns.origin = origin) :
    ∀ ns ∈ scopedCopies list domains, ns.origin = origin := by
  intro ns hns
  unfold scopedCopies at hns
  split at hns
  · cases hns
  · obtain ⟨ns', hns', rfl⟩ := List.mem_map.mp hns
    exact horigin ns' hns'

end Asked

theorem head?_append_of_forall {list later : List NameServerConfig} {origin : Origin} (hne : list ≠ [])
    (horigin : ∀ ns ∈ list, ns.origin = origin) : ∃ ns, (list ++ later).head? = some ns ∧ ns.origin = origin := by
  obtain ⟨ns, tail, rfl⟩ := List.exists_cons_of_ne_nil hne
  exact ⟨ns, rfl, horigin ns (by simp)⟩

theorem plainServers_asks_general {p : Profile} {v : View} {general : List NameServerConfig}
    (direct : List NameServerConfig) (hne : general ≠ []) (horigin : ∀ ns ∈ general, ns.origin = .general)
    (hplain : ∀ ns ∈ general, ns.domains = [] ∧ ns.skipFallback = false)
    (hscope : (tierDomains p .proxy).any (v.hitsField .name) = true ∨
      p.resolvedMode = .proxyAll ∧ (tierDomains p .direct).any (v.hitsField .name) = false) :
    ∃ ns, (asked (v.hitsField .name) (plainServers p general direct)).head? = some ns ∧ ns.origin = .general := by
  have hgeneral : ∃ ns, (asked (v.hitsField .name) general).head? = some ns ∧ ns.origin = .general := by
    rw [asked_plain hplain, ← List.append_nil general]
    exact head?_append_of_forall hne horigin
  -- in the proxy scope: whatever stands behind the scoped copies
  have hfront (rest : List NameServerConfig) (hin : (tierDomains p .proxy).any (v.hitsField .name) = true) :
      ∃ ns, (asked (v.hitsField .name) (scopedCopies general (tierDomains p .proxy) ++ rest)).head? = some ns ∧
        ns.origin = .general := by
    obtain ⟨later, hasked⟩ := asked_of_scope general rest hin
    rw [hasked]
    have hdomains : tierDomains p .proxy ≠ [] := fun hnil => by simp [hnil] at hin
    exact head?_append_of_forall (scopedCopies_ne_nil hdomains hne) (scopedCopies_origin horigin)
  unfold plainServers
  dsimp only
  split
  · exact hgeneral
  · split
    · rename_i hmode
      obtain hin | ⟨hproxyAll, -⟩ := hscope
      · rw [List.append_assoc]
        exact hfront _ hin
      · exact absurd (hmode.symm.trans hproxyAll) (by decide)
    · split
      · rw [List.append_assoc]
        cases hin : (tierDomains p .proxy).any (v.hitsField .name) with
        | true => exact hfront _ hin
        | false =>
            obtain hcon | ⟨-, hdirect⟩ := hscope
            · exact absurd (hin.symm.trans hcon) (by decide)
            · rw [asked_of_no_scope hin, asked_of_no_scope hdirect]
              exact hgeneral
      · exact hgeneral

/-- A name and nothing else, in front of xray's matchers. -/
def lookup (o : Oracle) (name : Text) : View := ⟨Destination.flow o ⟨some name, []⟩ .app .udp 53, fun _ => false⟩

/-- For a validated profile without app rules, what xray makes of a name is what the policy makes of it. -/
theorem nameOutcome_lookup {p : Profile} (hvalid : p.validate = none)
    (happ : ∀ t ∈ p.tiers, ∀ e ∈ t.entries, e.kind ≠ .process) (o : Oracle) (name : Text) :
    nameOutcome p (lookup o name).nameHits = nameOutcome p (lookup o name).flow.hitsEntry := by
  rw [nameOutcome, nameOutcome, tiersOutcome_congr fun t ht e he => ?_]
  rw [View.nameHits, xrayHits_eq hvalid ht he]
  have hkind := happ t ht e he
  cases hk : e.kind <;>
    simp_all [Entry.plane, Entry.byAddress, lookup, Flow.hitsEntry, Destination.flow, Destination.hits]

/-- The split leaks no proxied name: in normal mode, with a general server to ask, the first server asked for
a name that the tiers and then the mode send to the proxy is a general one. Where the profile is validated and has
no app rules, the tiers may as well be read with the entries' own meaning. -/
theorem proxied_name_asks_general (cfg : Config) (dns : DnsConfig) (p : Profile)
    (hnormal : dns.fakeIP = false) (hgeneral : plainNameServers .general (dns.normalizedServers []) ≠ []) :
    (∀ v : View, nameOutcome p v.nameHits = .proxy → ∃ d ns, (applyDNS cfg dns p).dnsConfig = some d ∧
      (asked (v.hitsField .name) d.servers).head? = some ns ∧ ns.origin = .general) ∧
    (p.validate = none → (∀ t ∈ p.tiers, ∀ e ∈ t.entries, e.kind ≠ .process) → ∀ (o : Oracle) (name : Text),
      nameOutcome p (lookup o name).nameHits = nameOutcome p (lookup o name).flow.hitsEntry) := by
  refine ⟨fun v hproxy => ?_, nameOutcome_lookup⟩
  let general := plainNameServers .general (dns.normalizedServers [])
  let direct := plainNameServers .direct dns.normalizedDirectServers
  obtain ⟨ns, hasked, horigin⟩ := plainServers_asks_general direct hgeneral
    (fun ns hns => (plainNameServers_unscoped hns).1) (fun ns hns => (plainNameServers_unscoped hns).2)
    (scoped_of_proxied hproxy)
  have hne : plainServers p general direct ≠ [] := fun hnil => by
    rw [hnil] at hasked
    cases hasked
  refine ⟨⟨plainServers p general direct, hostsWrapper dns.normalizedHosts, queryStrategy dns, []⟩, ns, ?_,
    hasked, horigin⟩
  rw [applyDNS, hnormal, if_neg Bool.false_ne_true, applyPlainDNS, if_neg fun h => hne h.1]

/-- vk.ru is proxied by the first tier and would go direct with the rest of the zone by the second. -/
def splitProfile (mode : Text) : Profile where
  mode := mode
  tiers := [⟨[], [], ["domain:vk.ru".toList]⟩,
    ⟨[], ["10.0.0.0/8".toList, "domain:ru".toList, "full:bank.local".toList], []⟩]
  domainStrategy := []
  localNetworks := false
  directSendThrough := []
  directInterface := []
  disableIPv6 := false
  disableUDP := false

def splitDns : DnsConfig := { servers := ["1.1.1.1".toList], directServers := ["77.88.8.8".toList] }

theorem proxied_name_asks_general_vk :
    nameOutcome (splitProfile []) (lookup plainOracle "m.vk.ru".toList).nameHits = .proxy ∧
      ∃ d ns, (applyDNS ⟨[], none⟩ splitDns (splitProfile [])).dnsConfig = some d ∧
        (asked ((lookup plainOracle "m.vk.ru".toList).hitsField .name) d.servers).head? = some ns ∧
        ns.origin = .general :=
  ⟨by decide, (proxied_name_asks_general _ splitDns _ (by decide) (by decide)).1 _ (by decide)⟩

end GlitchCore.Xray
