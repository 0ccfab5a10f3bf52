import GlitchCore.Base.Fallible
import GlitchCore.Mihomo.ProxyLinks
import GlitchCore.Xray.Refusals

/-!
# The server two engines read from one link

What an outbound of xray and a proxy of mihomo say of a server, in one vocabulary: where it is, who the client is to
it, over which transport and under which security layer. mihomo dials a network it does not know as plain TCP, and
REALITY without a public key as plain TLS.
-/

namespace GlitchCore.Links

open GoText Url HostPort

inductive Transport where
  | tcp
  | http
  | h2
  | websocket
  | httpupgrade
  | grpc
  | xhttp
deriving DecidableEq, Repr

inductive Layer where
  | none
  | tls
  | reality
deriving DecidableEq, Repr

inductive Identity where
  | vless (id : Text)
  | vmess (id cipher : Text)
  | trojan (password : Text)
  | shadowsocks (cipher password : Text)
deriving DecidableEq, Repr

structure Server where
  host : Text
  port : Int
  identity : Identity
  transport : Transport
  layer : Layer
deriving DecidableEq, Repr

/-! ### What xray reads -/

def xrayTransport : Xray.Transport → Transport
  | .tcp => .tcp
  | .websocket => .websocket
  | .grpc => .grpc
  | .httpupgrade => .httpupgrade
  | .xhttp => .xhttp

def xrayIdentity : Xray.Credentials → Identity
  | .vless id _ _ => .vless id
  | .vmess id security => .vmess id security
  | .trojan password => .trojan password
  | .shadowsocks cipher password => .shadowsocks cipher password

def xrayLayer (security : Text) : Layer :=
  if security = "tls".toList then .tls else if security = "reality".toList then .reality else .none

def serverOfOutbound (o : Xray.ProxyOutbound) : Server where
  host := o.address
  port := o.port
  identity := xrayIdentity o.credentials
  transport := (o.streamSetting.network.map xrayTransport).getD .tcp
  layer := xrayLayer o.streamSetting.security

/-! ### What mihomo reads -/

def mihomoTransport (network : Option Text) (ws : Option Mihomo.WsOpts) : Transport :=
  if network = some "ws".toList then if (ws.map (·.httpUpgrade)).getD false then .httpupgrade else .websocket
  else if network = some "grpc".toList then .grpc
  else if network = some "xhttp".toList then .xhttp
  else if network = some "h2".toList then .h2
  else if network = some "http".toList then .http
  else .tcp

/-- TLS, or REALITY where a public key is given. -/
def secured (reality : Option Mihomo.RealityOpts) : Layer :=
  if (reality.bind (·.publicKey)).isSome then .reality else .tls

def mihomoLayer (p : Mihomo.Proxy) : Layer :=
  match p.type with
  | .trojan => secured p.realityOpts
  | .ss => .none
  | _ => if p.tls then secured p.realityOpts else .none

def mihomoIdentity (p : Mihomo.Proxy) : Option Identity :=
  match p.type with
  | .vless => p.uuid.map .vless
  | .vmess => p.uuid.bind fun id => p.cipher.map (.vmess id)
  | .trojan => p.password.map .trojan
  | .ss => p.cipher.bind fun cipher => p.password.map (.shadowsocks cipher)
  | _ => none

def serverOfProxy (p : Mihomo.Proxy) : Option Server :=
  (mihomoIdentity p).map fun identity =>
    { host := p.server
      port := p.port
      identity
      transport := mihomoTransport p.network p.wsOpts
      layer := mihomoLayer p }

/-! ### Transports and layers -/

section

variable {host tag name link : Text} {q : Values} {stream : Xray.StreamConfig}

/-- The names a link may give a transport, with the transport xray dials. -/
def transportNames : List (Text × Transport) :=
  [("tcp".toList, .tcp), ("raw".toList, .tcp), ([], .tcp), ("ws".toList, .websocket), ("websocket".toList, .websocket),
   ("grpc".toList, .grpc), ("httpupgrade".toList, .httpupgrade), ("xhttp".toList, .xhttp),
   ("splithttp".toList, .xhttp)]

theorem streamTransport_carried (h : (Xray.streamTransport host q).2 = none) :
    ∃ t, (Mihomo.wordOf q "type", t) ∈ transportNames ∧
      (Xray.streamTransport host q).1.network.map xrayTransport = some t := by
  have hword : toLower (trimSpace (q.get "type".toList)) = Mihomo.wordOf q "type" := rfl
  unfold Xray.streamTransport at h ⊢
  simp only [hword] at h ⊢
  split at h
  · rename_i htcp
    rw [if_pos htcp]
    refine ⟨.tcp, ?_, rfl⟩
    obtain h | h | h := htcp <;> rw [h] <;> decide
  rename_i htcp
  rw [if_neg htcp]
  split at h
  · rename_i hws
    rw [if_pos hws]
    refine ⟨.websocket, ?_, rfl⟩
    obtain h | h := hws <;> rw [h] <;> decide
  rename_i hws
  rw [if_neg hws]
  split at h
  · rename_i hgrpc
    rw [if_pos hgrpc]
    refine ⟨.grpc, ?_, rfl⟩
    rw [hgrpc]
    decide
  rename_i hgrpc
  rw [if_neg hgrpc]
  split at h
  · rename_i hupgrade
    rw [if_pos hupgrade]
    refine ⟨.httpupgrade, ?_, rfl⟩
    rw [hupgrade]
    decide
  rename_i hupgrade
  rw [if_neg hupgrade]
  split at h
  · rename_i hxhttp
    rw [if_pos hxhttp]
    refine ⟨.xhttp, ?_, rfl⟩
    obtain h | h := hxhttp <;> rw [h] <;> decide
  · cases h

theorem network_of_buildStreamSettings {gap : Option Xray.Gap}
    (hok : Xray.buildStreamSettings host q = .ok (stream, gap)) :
    stream.network = (Xray.streamTransport host q).1.network ∧ gap = (Xray.streamTransport host q).2 := by
  unfold Xray.buildStreamSettings at hok
  dsimp only at hok
  split at hok
  · obtain ⟨rfl, rfl⟩ := Prod.mk.inj (Except.ok.inj hok)
    exact ⟨rfl, rfl⟩
  split at hok
  · split at hok
    · cases hok
    · obtain ⟨rfl, rfl⟩ := Prod.mk.inj (Except.ok.inj hok)
      exact ⟨rfl, rfl⟩
  split at hok
  · obtain ⟨rfl, rfl⟩ := Prod.mk.inj (Except.ok.inj hok)
    exact ⟨rfl, rfl⟩
  · cases hok

/-- The transport and the layer of a stream xray carries. -/
theorem stream_of_buildStreamSettings (hok : Xray.buildStreamSettings host q = .ok (stream, none)) :
    (∃ t, (Mihomo.wordOf q "type", t) ∈ transportNames ∧ (stream.network.map xrayTransport).getD .tcp = t) ∧
      (((Mihomo.wordOf q "security" = [] ∨ Mihomo.wordOf q "security" = "none".toList) ∧
          xrayLayer stream.security = .none) ∨
        (Mihomo.wordOf q "security" = "tls".toList ∧ xrayLayer stream.security = .tls) ∨
        (Mihomo.wordOf q "security" = "reality".toList ∧ xrayLayer stream.security = .reality)) := by
  obtain ⟨hnetwork, hgap⟩ := network_of_buildStreamSettings hok
  obtain ⟨t, ht, hstream⟩ := streamTransport_carried hgap.symm
  refine ⟨⟨t, ht, by rw [hnetwork, hstream]; rfl⟩, ?_⟩
  obtain ⟨hword, hlayer, -⟩ | ⟨hword, -, hlayer, -⟩ | ⟨hword, hlayer, -⟩ := Xray.buildStreamSettings_ok hok
  · exact .inl ⟨hword, by rw [hlayer]; decide⟩
  · exact .inr (.inl ⟨hword, by rw [hlayer]; decide⟩)
  · exact .inr (.inr ⟨hword, by rw [hlayer]; decide⟩)

/-! ### VLESS -/

/-- What xray builds from a vless link. -/
theorem outboundFromVLESS_ok {net : Xray.Net} {u : URL} {built : Xray.Built}
    (hok : Xray.outboundFromVLESS net u tag = .ok built) :
    ∃ port encryption flow stream, portOf u.port = some port ∧
      Xray.buildStreamSettings u.hostname u.query = .ok (stream, none) ∧
      built.1 = ⟨tag, Xray.preResolveIPv4 net u.hostname, port, .vless (Xray.usernameOf u) encryption flow, stream⟩ ∧
      built.2.1 = u.hostname ∧ u.hostname ≠ [] := by
  unfold Xray.outboundFromVLESS at hok
  dsimp only at hok
  split at hok
  · cases hok
  rename_i port hport
  split at hok
  · cases hok
  rename_i hcomplete
  obtain ⟨⟨stream, gap⟩, hstream, hok⟩ := Fallible.bind_eq_ok hok
  obtain ⟨encryption, -, hok⟩ := Fallible.bind_eq_ok hok
  dsimp only at hok
  split at hok
  · cases hok
  cases gap with
  | some gap => cases hok
  | none =>
      obtain rfl := Except.ok.inj hok
      exact ⟨port, encryption, _, stream, hport, Fallible.mapError_eq_ok hstream, rfl, rfl, (not_or.mp hcomplete).2⟩

/-- The transport mihomo dials for the network of a vless link. -/
def vlessDials (network : Text) : Transport :=
  if network = "ws".toList then .websocket
  else if network = "httpupgrade".toList then .httpupgrade
  else mihomoTransport (some network) none

theorem serverOfProxy_applyVlessTransport {p : Mihomo.Proxy} {network : Text} (hnetwork : p.network = some network)
    (hws : p.wsOpts = none) :
    serverOfProxy (Mihomo.applyVlessTransport p q network) =
      (mihomoIdentity p).map fun identity => ⟨p.server, p.port, identity, vlessDials network, mihomoLayer p⟩ := by
  unfold Mihomo.applyVlessTransport
  by_cases hname : network = "ws".toList
  · subst hname
    rfl
  by_cases hupgrade : network = "httpupgrade".toList
  · subst hupgrade
    rfl
  have hdials : vlessDials network = mihomoTransport p.network p.wsOpts := by
    rw [vlessDials, if_neg hname, if_neg hupgrade, hnetwork, hws]
  rw [if_neg (not_or.mpr ⟨hname, hupgrade⟩), hdials]
  split
  · rfl
  split <;> rfl

theorem applyCertChecks_ok {p p' : Mihomo.Proxy} {protocol : Text} (hok : Mihomo.applyCertChecks p q protocol = .ok p') :
    ∃ skip pin verify ech, p' = { p with
      skipCertVerify := skip
      fingerprint := pin
      nameCertVerify := verify
      echOpts := ech } := by
  unfold Mihomo.applyCertChecks at hok
  dsimp only at hok
  split at hok
  · cases hok
  split at hok
  · cases hok
  split at hok
  · cases hok
  · obtain rfl := Except.ok.inj hok
    exact ⟨_, _, _, _, rfl⟩

/-- The layer mihomo dials for the security of a vless link. -/
def vlessLayer (q : Values) : Layer :=
  if Mihomo.wordOf q "security" = "tls".toList then .tls
  else if Mihomo.wordOf q "security" = "reality".toList then
    if Mihomo.paramOf q "pbk" = [] then .tls else .reality
  else .none

theorem secured_given (key shortId : Text) :
    secured (some ⟨Mihomo.given key, Mihomo.given shortId⟩) = if key = [] then .tls else .reality := by
  by_cases hkey : key = []
  · subst hkey
    rfl
  · rw [if_neg hkey, secured, Option.bind_some, Mihomo.given, if_neg hkey]
    rfl

/-- A vless proxy under the layer its link names; nothing else that the server depends on changes. -/
theorem applyVlessSecurity_ok {p p' : Mihomo.Proxy} {network : Text} (htype : p.type = .vless) (htls : p.tls = false)
    (hreality : p.realityOpts = none) (hok : Mihomo.applyVlessSecurity p q network = .ok p') :
    mihomoLayer p' = vlessLayer q ∧ mihomoIdentity p' = mihomoIdentity p ∧ p'.server = p.server ∧ p'.port = p.port ∧
      p'.network = p.network ∧ p'.wsOpts = p.wsOpts := by
  unfold Mihomo.applyVlessSecurity at hok
  dsimp only at hok
  split at hok
  · rename_i hword
    obtain ⟨skip, pin, verify, ech, rfl⟩ := applyCertChecks_ok hok
    refine ⟨?_, rfl, rfl, rfl, rfl, rfl⟩
    simp only [mihomoLayer, Mihomo.applyTLS, htype, hreality, vlessLayer, if_pos hword]
    rfl
  rename_i hword
  split at hok
  · rename_i hword'
    split at hok
    · obtain rfl := Except.ok.inj hok
      refine ⟨?_, rfl, rfl, rfl, rfl, rfl⟩
      simp only [mihomoLayer, Mihomo.applyRealityOpts, Mihomo.applyTLS, htype, vlessLayer, if_neg hword, if_pos hword']
      exact secured_given ..
    · cases hok
  rename_i hword'
  split at hok
  · obtain rfl := Except.ok.inj hok
    refine ⟨?_, rfl, rfl, rfl, rfl, rfl⟩
    rw [mihomoLayer, htype, vlessLayer, if_neg hword, if_neg hword', htls]
    rfl
  · cases hok

theorem vlessProxy_ok {p : Mihomo.Proxy} {u : URL} (hparse : Url.parse link = some u)
    (hok : Mihomo.vlessProxy link name = .ok p) :
    ∃ port, atoi u.port = some port ∧
      serverOfProxy p = some ⟨u.hostname, port, .vless (Xray.usernameOf u), vlessDials (Mihomo.vlessNetwork u.query),
        vlessLayer u.query⟩ := by
  unfold Mihomo.vlessProxy at hok
  rw [hparse] at hok
  dsimp only at hok
  split at hok
  · cases hok
  rename_i port hport
  obtain ⟨encryption, -, hok⟩ := Fallible.bind_eq_ok hok
  obtain ⟨p', hp', hok⟩ := Fallible.bind_eq_ok hok
  obtain rfl := Except.ok.inj hok
  obtain ⟨hlayer, hidentity, hserver, hport', hnetwork, hws⟩ := applyVlessSecurity_ok rfl rfl rfl hp'
  refine ⟨port, hport, ?_⟩
  rw [serverOfProxy_applyVlessTransport hnetwork hws, hidentity, hlayer, hserver, hport']
  rfl

theorem atoi_of_portOf {s : Text} {port : Nat} (h : portOf s = some port) : atoi s = some (port : Int) := by
  obtain ⟨n, hn, hport⟩ := Option.map_eq_some_iff.mp h
  obtain ⟨hatoi, hrange⟩ := Option.filter_eq_some_iff.mp hn
  have hpositive := (of_decide_eq_true hrange).1
  rw [hatoi, ← hport, Int.toNat_of_nonneg (by omega)]

/-- The names of transports mihomo takes for plain TCP, each beside one that it knows. -/
def vlessAliases : List Text := ["websocket".toList, "splithttp".toList]

theorem vlessDials_iff {word : Text} {t : Transport} (h : (word, t) ∈ transportNames) :
    vlessDials (if word = [] then "tcp".toList else word) = t ↔ word ∉ vlessAliases := by
  have hall : ∀ e ∈ transportNames,
      (vlessDials (if e.1 = [] then "tcp".toList else e.1) = e.2 ↔ e.1 ∉ vlessAliases) := by decide
  exact hall (word, t) h

theorem vless_alike_iff {net : Xray.Net} {u : URL} {built : Xray.Built} {p : Mihomo.Proxy}
    (hnet : ∀ host, Xray.preResolveIPv4 net host = host) (hparse : Url.parse link = some u)
    (hx : Xray.outboundFromVLESS net u tag = .ok built) (hm : Mihomo.vlessProxy link name = .ok p) :
    serverOfProxy p = some (serverOfOutbound built.1) ↔
      Mihomo.wordOf u.query "type" ∉ vlessAliases ∧
        (Mihomo.wordOf u.query "security" = "reality".toList → Mihomo.paramOf u.query "pbk" ≠ []) := by
  obtain ⟨port, encryption, flow, stream, hport, hstream, hbuilt, -⟩ := outboundFromVLESS_ok hx
  obtain ⟨port', hport', hserver⟩ := vlessProxy_ok hparse hm
  obtain ⟨⟨t, ht, htransport⟩, hlayer⟩ := stream_of_buildStreamSettings hstream
  obtain rfl : (port : Int) = port' := Option.some.inj ((atoi_of_portOf hport).symm.trans hport')
  have hlayer' : vlessLayer u.query = xrayLayer stream.security ↔
      (Mihomo.wordOf u.query "security" = "reality".toList → Mihomo.paramOf u.query "pbk" ≠ []) := by
    have htls : "tls".toList ≠ "reality".toList := by decide
    have hnone : ∀ word ∈ [[], "none".toList], word ≠ "tls".toList ∧ word ≠ "reality".toList := by decide
    obtain ⟨hword, hlayer⟩ | ⟨hword, hlayer⟩ | ⟨hword, hlayer⟩ := hlayer
    · have hne := hnone _ (by simpa using hword)
      rw [vlessLayer, if_neg hne.1, if_neg hne.2, hlayer]
      exact ⟨fun _ hreality => absurd hreality hne.2, fun _ => rfl⟩
    · rw [vlessLayer, if_pos hword, hlayer, hword]
      exact ⟨fun _ hreality => absurd hreality htls, fun _ => rfl⟩
    · rw [vlessLayer, if_neg (by rw [hword]; exact htls.symm), if_pos hword, hlayer]
      by_cases hkey : Mihomo.paramOf u.query "pbk" = []
      · rw [if_pos hkey]
        exact ⟨(by cases ·), fun hgiven => absurd hkey (hgiven hword)⟩
      · rw [if_neg hkey]
        exact ⟨fun _ _ => hkey, fun _ => rfl⟩
  rw [hserver, hbuilt, serverOfOutbound, hnet, htransport, ← vlessDials_iff ht, ← hlayer', Option.some_inj,
    Server.mk.injEq]
  simp [xrayIdentity, Mihomo.vlessNetwork]

/-! ### Trojan -/

/-- A name stands for one transport. -/
theorem transport_unique {word : Text} {t t' : Transport} (h : (word, t) ∈ transportNames)
    (h' : (word, t') ∈ transportNames) : t = t' := by
  have hall : ∀ e ∈ transportNames, ∀ e' ∈ transportNames, e.1 = e'.1 → e.2 = e'.2 := by decide
  exact hall _ h _ h' rfl

theorem outboundFromTrojan_ok {net : Xray.Net} {u : URL} {built : Xray.Built}
    (hok : Xray.outboundFromTrojan net u tag = .ok built) :
    ∃ port stream, portOf u.port = some port ∧
      Xray.buildStreamSettings u.hostname (Xray.trojanQuery u.query) = .ok (stream, none) ∧
      built.1 = ⟨tag, Xray.preResolveIPv4 net u.hostname, port, .trojan (Xray.usernameOf u), stream⟩ ∧
      built.2.1 = u.hostname ∧ u.hostname ≠ [] := by
  unfold Xray.outboundFromTrojan at hok
  dsimp only at hok
  split at hok
  · cases hok
  rename_i port hport
  split at hok
  · cases hok
  rename_i hcomplete
  obtain ⟨⟨stream, gap⟩, hstream, hok⟩ := Fallible.bind_eq_ok hok
  cases gap with
  | some gap => cases hok
  | none =>
      obtain rfl := Except.ok.inj hok
      exact ⟨port, stream, hport, Fallible.mapError_eq_ok hstream, rfl, rfl, (not_or.mp hcomplete).2⟩

/-- The layer of a trojan link. -/
def trojanLayer (q : Values) : Layer := if Mihomo.wordOf q "security" = "reality".toList then .reality else .tls

theorem wordOf_trojanQuery (q : Values) :
    Mihomo.wordOf (Xray.trojanQuery q) "type" = Mihomo.wordOf q "type" ∧
      Mihomo.wordOf (Xray.trojanQuery q) "security" =
        if Mihomo.wordOf q "security" = "reality".toList then "reality".toList else "tls".toList := by
  have hsecurity : Xray.securityOf q = Mihomo.wordOf q "security" := rfl
  refine ⟨?_, ?_⟩
  · rw [Mihomo.wordOf, Mihomo.paramOf, Xray.trojanQuery, Values.get_set_of_ne (by decide)]
    rfl
  · rw [Mihomo.wordOf, Mihomo.paramOf, Xray.trojanQuery, Values.get_set_self, hsecurity]
    by_cases hreality : Mihomo.wordOf q "security" = "reality".toList
    · rw [hreality]
      decide
    by_cases htls : Mihomo.wordOf q "security" = "tls".toList
    · rw [htls]
      decide
    · rw [if_pos ⟨htls, hreality⟩, if_neg hreality]
      decide

theorem applyTrojanReality_ok {p p' : Mihomo.Proxy} (htype : p.type = .trojan) (hreality : p.realityOpts = none)
    (hok : Mihomo.applyTrojanReality p q = .ok p') :
    ∃ opts, p' = { p with realityOpts := opts } ∧ mihomoLayer p' = trojanLayer q := by
  unfold Mihomo.applyTrojanReality at hok
  split at hok
  · rename_i hword
    obtain rfl := Except.ok.inj hok
    refine ⟨p.realityOpts, rfl, ?_⟩
    rw [mihomoLayer, htype, hreality, trojanLayer, if_neg hword]
    rfl
  rename_i hword
  split at hok
  · cases hok
  rename_i hkey
  split at hok
  · cases hok
  split at hok
  · cases hok
  · obtain rfl := Except.ok.inj hok
    refine ⟨_, rfl, ?_⟩
    simp only [mihomoLayer, Mihomo.applyRealityOpts, htype]
    rw [secured_given, if_neg hkey, trojanLayer, if_pos (not_not.mp hword)]

theorem applyTrojanTransport_ok {p p' : Mihomo.Proxy} (hnetwork : p.network = none)
    (hok : Mihomo.applyTrojanTransport p q = .ok p') :
    ∃ t, (Mihomo.wordOf q "type", t) ∈ transportNames ∧
      serverOfProxy p' = (mihomoIdentity p).map fun identity => ⟨p.server, p.port, identity, t, mihomoLayer p⟩ := by
  unfold Mihomo.applyTrojanTransport at hok
  dsimp only at hok
  split at hok
  · rename_i hword
    split at hok
    · cases hok
    obtain rfl := Except.ok.inj hok
    refine ⟨.tcp, ?_, ?_⟩
    · obtain h | h | h := hword <;> rw [h] <;> decide
    · rw [serverOfProxy, hnetwork]
      rfl
  split at hok
  · rename_i hword
    obtain rfl := Except.ok.inj hok
    obtain h | h | h := hword
    · exact ⟨.websocket, by rw [h]; decide, by rw [h]; rfl⟩
    · exact ⟨.websocket, by rw [h]; decide, by rw [h]; rfl⟩
    · exact ⟨.httpupgrade, by rw [h]; decide, by rw [h]; rfl⟩
  split at hok
  · rename_i hword
    obtain rfl := Except.ok.inj hok
    exact ⟨.grpc, by rw [hword]; decide, rfl⟩
  · cases hok

theorem trojanProxy_ok {p : Mihomo.Proxy} {u : URL} (hparse : Url.parse link = some u)
    (hok : Mihomo.trojanProxy link name = .ok p) :
    ∃ port t, atoi u.port = some port ∧ (Mihomo.wordOf u.query "type", t) ∈ transportNames ∧
      serverOfProxy p = some ⟨u.hostname, port, .trojan (Xray.usernameOf u), t, trojanLayer u.query⟩ := by
  unfold Mihomo.trojanProxy at hok
  rw [hparse] at hok
  dsimp only at hok
  split at hok
  · cases hok
  rename_i port hport
  obtain ⟨p', hp', hok⟩ := Fallible.bind_eq_ok hok
  obtain ⟨p'', hp'', hok⟩ := Fallible.bind_eq_ok hok
  obtain ⟨skip, pin, verify, ech, rfl⟩ := applyCertChecks_ok hp'
  obtain ⟨opts, rfl, hlayer⟩ := applyTrojanReality_ok rfl rfl hp''
  obtain ⟨t, ht, hserver⟩ := applyTrojanTransport_ok rfl hok
  rw [hlayer] at hserver
  exact ⟨port, t, hport, ht, hserver⟩

theorem trojan_alike {net : Xray.Net} {u : URL} {built : Xray.Built} {p : Mihomo.Proxy}
    (hnet : ∀ host, Xray.preResolveIPv4 net host = host) (hparse : Url.parse link = some u)
    (hx : Xray.outboundFromTrojan net u tag = .ok built) (hm : Mihomo.trojanProxy link name = .ok p) :
    serverOfProxy p = some (serverOfOutbound built.1) := by
  obtain ⟨port, stream, hport, hstream, hbuilt, -⟩ := outboundFromTrojan_ok hx
  obtain ⟨port', t, hport', ht, hserver⟩ := trojanProxy_ok hparse hm
  obtain ⟨⟨t', ht', htransport⟩, hlayer⟩ := stream_of_buildStreamSettings hstream
  obtain rfl : (port : Int) = port' := Option.some.inj ((atoi_of_portOf hport).symm.trans hport')
  obtain ⟨htype, hsecurity⟩ := wordOf_trojanQuery u.query
  rw [htype] at ht'
  obtain rfl := transport_unique ht ht'
  have hlayer' : xrayLayer stream.security = trojanLayer u.query := by
    rw [hsecurity] at hlayer
    unfold trojanLayer
    split at hlayer
    · rename_i hreality
      rw [if_pos hreality]
      obtain ⟨h, -⟩ | ⟨h, -⟩ | ⟨-, h⟩ := hlayer
      · exact absurd h (by decide)
      · exact absurd h (by decide)
      · exact h
    · rename_i hreality
      rw [if_neg hreality]
      obtain ⟨h, -⟩ | ⟨-, h⟩ | ⟨h, -⟩ := hlayer
      · exact absurd h (by decide)
      · exact h
      · exact absurd h (by decide)
  rw [hserver, hbuilt, serverOfOutbound, hnet, htransport, hlayer']
  rfl

/-! ### VMess -/

theorem port_ok {s : Text} (h : (Vmess.port s).2 = []) : 0 < (Vmess.port s).1 := by
  unfold Vmess.port at h ⊢
  split at h
  · rename_i n hn
    obtain ⟨-, hrange⟩ := Option.filter_eq_some_iff.mp hn
    exact (of_decide_eq_true hrange).1
  · cases h

/-- A vmess link that reads names a port. -/
theorem port_of_parse {l : Vmess.Link} (h : Vmess.parse link = (l, [])) : 0 < l.port := by
  unfold Vmess.parse at h
  dsimp only at h
  split at h
  · split at h
    · unfold Vmess.parseURI at h
      split at h
      · cases h
      · obtain ⟨rfl, herrors⟩ := Prod.mk.inj h
        exact port_ok herrors
    · unfold Vmess.parseJSON at h
      dsimp only at h
      split at h
      · cases h
      split at h
      · cases h
      split at h
      · cases h
      · unfold Vmess.parseFields at h
        obtain ⟨rfl, herrors⟩ := Prod.mk.inj h
        simp only [List.append_eq_nil_iff] at herrors
        exact port_ok herrors.1.1.2
  · cases h

/-- What xray builds from a vmess link. -/
theorem outboundFromVMess_ok {net : Xray.Net} {l : Vmess.Link} {built : Xray.Built}
    (hparse : Vmess.parse link = (l, [])) (hok : Xray.outboundFromVMess net link tag = .ok built) :
    ∃ stream tls, Xray.buildStreamSettings l.host l.params = .ok (stream, none) ∧
      built.1 = ⟨tag, Xray.preResolveIPv4 net l.host, l.port.toNat, .vmess l.id (toLower l.cipher),
        { stream with tlsSettings := tls }⟩ ∧ built.2.1 = l.host := by
  unfold Xray.outboundFromVMess at hok
  rw [hparse] at hok
  dsimp only at hok
  split at hok
  · cases hok
  split at hok
  · cases hok
  split at hok
  · cases hok
  obtain ⟨⟨stream, gap⟩, hstream, hok⟩ := Fallible.bind_eq_ok hok
  dsimp only at hok
  split at hok
  · cases hok
  split at hok
  · cases hok
  · rename_i hgap
    split at hgap
    · cases hgap
    · subst hgap
      obtain rfl := Except.ok.inj hok
      exact ⟨stream, _, Fallible.mapError_eq_ok hstream, rfl, rfl⟩

/-- A header other than `none` on plain TCP is a gap of xray's. -/
theorem header_of_carried (hgap : (Xray.streamTransport host q).2 = none) (hword : Mihomo.wordOf q "type" = "tcp".toList) :
    toLower (Mihomo.paramOf q "headerType") = [] ∨ toLower (Mihomo.paramOf q "headerType") = "none".toList := by
  have hnetwork : toLower (trimSpace (q.get "type".toList)) = "tcp".toList := hword
  unfold Xray.streamTransport at hgap
  rw [if_pos (.inl hnetwork)] at hgap
  dsimp only at hgap
  split at hgap
  · cases hgap
  · rename_i hheader
    by_cases hempty : toLower (Mihomo.paramOf q "headerType") = []
    · exact .inl hempty
    · exact .inr (by_contra fun hnone => hheader ⟨hempty, hnone⟩)

theorem wordOf_eq {key : String} {word : Text} (h : Mihomo.paramOf q key = word)
    (hword : toLower (trimSpace word) = word) : Mihomo.wordOf q key = word := by
  rw [Mihomo.wordOf, h, hword]

/-- The transport of a vmess proxy whose link xray carries; the server depends on nothing else that changes. -/
theorem applyVmessTransport_ok {p p' : Mihomo.Proxy} (hgap : (Xray.streamTransport host q).2 = none)
    (hok : Mihomo.applyVmessTransport p q = .ok p') :
    (Mihomo.wordOf q "type", mihomoTransport p'.network p'.wsOpts) ∈ transportNames ∧
      ∃ network ws grpc http h2, p' = { p with
        network := network
        wsOpts := ws
        grpcServiceName := grpc
        httpOpts := http
        h2Opts := h2 } := by
  unfold Mihomo.applyVmessTransport at hok
  dsimp only at hok
  split at hok
  · rename_i hparam
    have hword := wordOf_eq hparam (by decide)
    split at hok
    · obtain rfl := Except.ok.inj hok
      refine ⟨?_, _, _, _, _, _, rfl⟩
      rw [hword]
      exact (by decide : ("tcp".toList, Transport.tcp) ∈ transportNames)
    split at hok
    · rename_i hheader
      have hcarried := header_of_carried hgap hword
      rw [hheader] at hcarried
      exact absurd hcarried (by decide)
    · cases hok
  split at hok
  · rename_i hparam
    have hword := wordOf_eq hparam (by decide)
    obtain ⟨t, ht, -⟩ := streamTransport_carried hgap
    have hnot : ∀ e ∈ transportNames, e.1 ≠ "h2".toList := by decide
    exact absurd hword (hnot _ ht)
  split at hok
  · rename_i hparam
    cases hsplit : Mihomo.splitEarlyData (Mihomo.orSlash (Mihomo.paramOf q "path")) with
    | error e =>
        rw [hsplit] at hok
        cases hok
    | ok part =>
        rw [hsplit] at hok
        obtain rfl := Except.ok.inj hok
        refine ⟨?_, _, _, _, _, _, rfl⟩
        obtain hparam | hparam := hparam
        · rw [wordOf_eq hparam (by decide), hparam]
          exact (by decide : ("ws".toList, Transport.websocket) ∈ transportNames)
        · rw [wordOf_eq hparam (by decide), hparam]
          exact (by decide : ("httpupgrade".toList, Transport.httpupgrade) ∈ transportNames)
  split at hok
  · rename_i hparam
    obtain rfl := Except.ok.inj hok
    refine ⟨?_, _, _, _, _, _, rfl⟩
    rw [wordOf_eq hparam (by decide)]
    exact (by decide : ("grpc".toList, Transport.grpc) ∈ transportNames)
  · cases hok

/-- The layer of a vmess proxy, which is never REALITY. -/
theorem applyVmessSecurity_ok {p p' : Mihomo.Proxy} (htype : p.type = .vmess) (htls : p.tls = false)
    (hreality : p.realityOpts = none) (hok : Mihomo.applyVmessSecurity p q = .ok p') :
    ((Mihomo.wordOf q "security" ∈ [[], "none".toList] ∧ mihomoLayer p' = .none) ∨
        (Mihomo.wordOf q "security" = "tls".toList ∧ mihomoLayer p' = .tls)) ∧
      mihomoIdentity p' = mihomoIdentity p ∧ p'.server = p.server ∧ p'.port = p.port ∧ p'.network = p.network ∧
      p'.wsOpts = p.wsOpts := by
  unfold Mihomo.applyVmessSecurity at hok
  dsimp only at hok
  split at hok
  · rename_i hparam
    obtain rfl := Except.ok.inj hok
    refine ⟨.inl ⟨?_, ?_⟩, rfl, rfl, rfl, rfl, rfl⟩
    · obtain h | h := hparam <;> rw [wordOf_eq h (by decide)] <;> decide
    · rw [mihomoLayer, htype, htls]
      rfl
  split at hok
  · rename_i hparam
    obtain ⟨skip, pin, verify, ech, rfl⟩ := applyCertChecks_ok hok
    refine ⟨.inr ⟨wordOf_eq hparam (by decide), ?_⟩, rfl, rfl, rfl, rfl, rfl⟩
    simp only [mihomoLayer, htype, hreality]
    rfl
  · cases hok

theorem vmess_alike {net : Xray.Net} {built : Xray.Built} {p : Mihomo.Proxy}
    (hnet : ∀ host, Xray.preResolveIPv4 net host = host)
    (hx : Xray.outboundFromVMess net link tag = .ok built) (hm : Mihomo.vmessProxy link name = .ok p) :
    serverOfProxy p = some (serverOfOutbound built.1) := by
  cases hparse : Vmess.parse link with
  | mk l errors =>
  cases errors with
  | cons e errors =>
      unfold Xray.outboundFromVMess at hx
      rw [hparse] at hx
      cases hx
  | nil =>
      obtain ⟨stream, tls, hstream, hbuilt, -⟩ := outboundFromVMess_ok hparse hx
      obtain ⟨⟨t, ht, htransport⟩, hlayer⟩ := stream_of_buildStreamSettings hstream
      have hgap := (network_of_buildStreamSettings hstream).2.symm
      have hport := port_of_parse hparse
      unfold Mihomo.vmessProxy at hm
      rw [hparse] at hm
      dsimp only at hm
      split at hm
      · cases hm
      split at hm
      · cases hm
      obtain ⟨p', hp', hm⟩ := Fallible.bind_eq_ok hm
      obtain ⟨ht', network, ws, grpc, http, h2, hp⟩ := applyVmessTransport_ok hgap hp'
      obtain ⟨hlayer', hidentity, hserver, hport', hnetwork, hws⟩ :=
        applyVmessSecurity_ok (by rw [hp]) (by rw [hp]) (by rw [hp]) hm
      obtain rfl := transport_unique ht ht'
      have hsame : mihomoLayer p = xrayLayer stream.security := by
        obtain ⟨hword, hlayer'⟩ | ⟨hword, hlayer'⟩ := hlayer'
        · obtain ⟨-, h⟩ | ⟨h, -⟩ | ⟨h, -⟩ := hlayer
          · rw [hlayer', h]
          · rw [h] at hword
            exact absurd hword (by decide)
          · rw [h] at hword
            exact absurd hword (by decide)
        · rw [hword] at hlayer
          obtain ⟨h, -⟩ | ⟨-, h⟩ | ⟨h, -⟩ := hlayer
          · exact absurd h (by decide)
          · rw [hlayer', h]
          · exact absurd h (by decide)
      have hnat : (l.port.toNat : Int) = l.port := Int.toNat_of_nonneg (by omega)
      rw [hbuilt, serverOfProxy, serverOfOutbound, hnet, hidentity, hserver, hport', hnetwork, hws, hsame, ← htransport,
        hnat, hp]
      rfl

end

end GlitchCore.Links
