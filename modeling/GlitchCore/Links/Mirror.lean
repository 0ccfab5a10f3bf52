import GlitchCore.Links.ReportsAwg
import GlitchCore.Links.ReportsHy2
import GlitchCore.Links.ReportsSS

/-!
# The report and the builders

The report of a link is made by a third reader, beside those of the two engines and of the device. Here is where it names
the family, the host and the port the builders made of the same link.
-/

namespace GlitchCore.ServerInfo

open GoText Encoding Links Url

variable {link : Text} {idx : Nat} {u : URL}

/-- The family of a proxy's type. -/
def family : Mihomo.ProxyType → Text
  | .vless => "vless".toList
  | .vmess => "vmess".toList
  | .trojan => "trojan".toList
  | .ss => ssName
  | .hysteria2 => "hysteria2".toList
  | .tuic => "tuic".toList
  | .anytls => "anytls".toList
  | .wireguard => "awg".toList

def typeOf : Identity → Mihomo.ProxyType
  | .vless .. => .vless
  | .vmess .. => .vmess
  | .trojan .. => .trojan
  | .shadowsocks .. => .ss

theorem type_of_identity {p : Mihomo.Proxy} {identity : Identity} (h : mihomoIdentity p = some identity) :
    p.type = typeOf identity := by
  unfold mihomoIdentity at h
  split at h
  · rename_i htype
    obtain ⟨id, -, rfl⟩ := Option.map_eq_some_iff.mp h
    exact htype
  · rename_i htype
    obtain ⟨id, -, h⟩ := Option.bind_eq_some_iff.mp h
    obtain ⟨cipher, -, rfl⟩ := Option.map_eq_some_iff.mp h
    exact htype
  · rename_i htype
    obtain ⟨password, -, rfl⟩ := Option.map_eq_some_iff.mp h
    exact htype
  · rename_i htype
    obtain ⟨cipher, -, h⟩ := Option.bind_eq_some_iff.mp h
    obtain ⟨password, -, rfl⟩ := Option.map_eq_some_iff.mp h
    exact htype
  · cases h

/-! ### Links that mihomo reads as URLs -/

/-- The port a URL names is one a socket could have. -/
def PortInRange (link : Text) : Prop := ∀ u ∈ Url.parse link, ∀ port ∈ atoi u.port, 0 ≤ port ∧ port ≤ 65535

/-- A proxy whose scheme has a URL's port and no default. -/
theorem server_reports (hbare : trimSpace link = link) {scheme : String} (hscheme : scheme ∈ ["vless", "trojan"])
    (h : Mihomo.hasScheme scheme link = true) (hparse : Url.parse link = some u) {p : Mihomo.Proxy} {server : Links.Server}
    (hserver : serverOfProxy p = some server) (hhost : server.host = u.hostname) (hport : atoi u.port = some server.port) :
    p.type = typeOf server.identity ∧
      (¬ HasHeader link ∧ PortInRange link → Reports link idx scheme.toList p.server p.port) := by
  have hfacts : ∀ s ∈ ["vless", "trojan"], s ∈ otherSchemes ∧ s ≠ "ss" ∧ familyOf s.toList = s.toList := by decide
  obtain ⟨hother, hss, hfamily⟩ := hfacts scheme hscheme
  obtain ⟨hhost', hport', hidentity⟩ := server_of_serverOfProxy hserver
  refine ⟨type_of_identity hidentity, ?_⟩
  rintro ⟨hheader, hrange⟩
  have hnamed : Reports link idx _ _ _ := reports_named hother hbare hss h hparse hheader hport (hrange u hparse _ hport)
  rwa [hfamily, ← hhost, ← hhost', ← hport'] at hnamed

theorem vlessProxy_reports {label : Text} {p : Mihomo.Proxy} (hbare : trimSpace link = link)
    (h : Mihomo.hasScheme "vless" link = true) (hok : Mihomo.vlessProxy link label = .ok p) :
    p.type = .vless ∧ (¬ HasHeader link ∧ PortInRange link → Reports link idx "vless".toList p.server p.port) := by
  cases hparse : Url.parse link with
  | none =>
      rw [Mihomo.vlessProxy, hparse] at hok
      cases hok
  | some u =>
      obtain ⟨port, hport, hserver⟩ := vlessProxy_ok hparse hok
      exact server_reports hbare (by decide) h hparse hserver rfl hport

theorem trojanProxy_reports {label : Text} {p : Mihomo.Proxy} (hbare : trimSpace link = link)
    (h : Mihomo.hasScheme "trojan" link = true) (hok : Mihomo.trojanProxy link label = .ok p) :
    p.type = .trojan ∧ (¬ HasHeader link ∧ PortInRange link → Reports link idx "trojan".toList p.server p.port) := by
  cases hparse : Url.parse link with
  | none =>
      rw [Mihomo.trojanProxy, hparse] at hok
      cases hok
  | some u =>
      obtain ⟨port, t, hport, -, hserver⟩ := trojanProxy_ok hparse hok
      exact server_reports hbare (by decide) h hparse hserver rfl hport

theorem portOrDefault_ok {protocol : Text} {port : Int} (hdefault : defaultsTo443 protocol = true)
    (h : Mihomo.portOrDefault u protocol = .ok port) : portOf protocol u.port = port := by
  unfold Mihomo.portOrDefault at h
  unfold portOf
  by_cases hnil : u.port = []
  · rw [if_pos hnil] at h
    obtain rfl := Except.ok.inj h
    rw [hnil, hdefault]
    rfl
  · rw [if_neg hnil] at h
    cases hn : (atoi u.port).filter fun n => decide (0 < n ∧ n ≤ 65535) with
    | none =>
        rw [hn] at h
        cases h
    | some n =>
        rw [hn] at h
        exact Except.ok.inj h

theorem parseShareLink_ok {protocol : Text} (h : Mihomo.parseShareLink link protocol = .ok u) : Url.parse link = some u := by
  unfold Mihomo.parseShareLink at h
  split at h
  · cases h
  · rename_i u' hparse
    split at h
    · cases h
    · obtain rfl := Except.ok.inj h
      exact hparse

theorem tuicProxy_ok {label : Text} {p : Mihomo.Proxy} (hok : Mihomo.tuicProxy link label = .ok p) :
    p.type = .tuic ∧ ∃ u, Url.parse link = some u ∧ p.server = u.hostname ∧
      Mihomo.portOrDefault u Mihomo.tuicProtocol = .ok p.port := by
  unfold Mihomo.tuicProxy at hok
  obtain ⟨u, hu, hok⟩ := Fallible.bind_eq_ok hok
  obtain ⟨port, hport, hok⟩ := Fallible.bind_eq_ok hok
  dsimp only at hok
  split at hok
  · cases hok
  obtain ⟨-, -, hok⟩ := Fallible.bind_eq_ok hok
  split at hok
  · cases hok
  split at hok
  · cases hok
  obtain ⟨skip, pin, verify, ech, rfl⟩ := applyCertChecks_ok hok
  exact ⟨rfl, u, parseShareLink_ok hu, rfl, hport⟩

theorem anytlsProxy_ok {label : Text} {p : Mihomo.Proxy} (hok : Mihomo.anytlsProxy link label = .ok p) :
    p.type = .anytls ∧ ∃ u, Url.parse link = some u ∧ p.server = u.hostname ∧
      Mihomo.portOrDefault u Mihomo.anytlsProtocol = .ok p.port := by
  unfold Mihomo.anytlsProxy at hok
  obtain ⟨u, hu, hok⟩ := Fallible.bind_eq_ok hok
  obtain ⟨port, hport, hok⟩ := Fallible.bind_eq_ok hok
  dsimp only at hok
  split at hok
  · cases hok
  obtain ⟨-, -, hok⟩ := Fallible.bind_eq_ok hok
  split at hok
  · cases hok
  obtain ⟨skip, pin, verify, ech, rfl⟩ := applyCertChecks_ok hok
  exact ⟨rfl, u, parseShareLink_ok hu, rfl, hport⟩

/-- A link whose port has a default, which the report knows. -/
theorem reports_default (hbare : trimSpace link = link) {scheme : String} (hscheme : scheme ∈ ["tuic", "anytls"])
    (h : Mihomo.hasScheme scheme link = true) (hparse : Url.parse link = some u) {p : Mihomo.Proxy}
    (hserver : p.server = u.hostname) (hport : Mihomo.portOrDefault u scheme.toList = .ok p.port)
    (hheader : ¬ HasHeader link) : Reports link idx scheme.toList p.server p.port := by
  have hfacts : ∀ s ∈ ["tuic", "anytls"], s ∈ otherSchemes ∧ s ≠ "ss" ∧ familyOf s.toList = s.toList ∧
      defaultsTo443 s.toList = true := by decide
  obtain ⟨hother, hss, hfamily, hdefault⟩ := hfacts scheme hscheme
  have hparsed : Reports link idx _ _ _ := reports_parsed hother hbare hss h hparse hheader
  rw [hfamily, portOrDefault_ok hdefault hport, ← hserver] at hparsed
  exact hparsed

/-! ### VMess -/

theorem applyVmessTransport_keeps {p p' : Mihomo.Proxy} {q : Values} (hok : Mihomo.applyVmessTransport p q = .ok p') :
    p'.type = p.type ∧ p'.server = p.server ∧ p'.port = p.port := by
  unfold Mihomo.applyVmessTransport at hok
  dsimp only at hok
  split at hok
  · split at hok
    · obtain rfl := Except.ok.inj hok
      exact ⟨rfl, rfl, rfl⟩
    split at hok
    · obtain rfl := Except.ok.inj hok
      exact ⟨rfl, rfl, rfl⟩
    · cases hok
  split at hok
  · obtain rfl := Except.ok.inj hok
    exact ⟨rfl, rfl, rfl⟩
  split at hok
  · cases hdata : Mihomo.splitEarlyData (Mihomo.orSlash (Mihomo.paramOf q "path")) with
    | error e =>
        rw [hdata] at hok
        cases hok
    | ok part =>
        rw [hdata] at hok
        obtain rfl := Except.ok.inj hok
        exact ⟨rfl, rfl, rfl⟩
  split at hok
  · obtain rfl := Except.ok.inj hok
    exact ⟨rfl, rfl, rfl⟩
  · cases hok

theorem applyVmessSecurity_keeps {p p' : Mihomo.Proxy} {q : Values} (hok : Mihomo.applyVmessSecurity p q = .ok p') :
    p'.type = p.type ∧ p'.server = p.server ∧ p'.port = p.port := by
  unfold Mihomo.applyVmessSecurity at hok
  dsimp only at hok
  split at hok
  · obtain rfl := Except.ok.inj hok
    exact ⟨rfl, rfl, rfl⟩
  split at hok
  · obtain ⟨skip, pin, verify, ech, rfl⟩ := applyCertChecks_ok hok
    exact ⟨rfl, rfl, rfl⟩
  · cases hok

theorem vmessProxy_keeps {label : Text} {p : Mihomo.Proxy} (hok : Mihomo.vmessProxy link label = .ok p) :
    p.type = .vmess ∧ ∃ l, Vmess.parse link = (l, []) ∧ p.server = l.host ∧ p.port = l.port := by
  unfold Mihomo.vmessProxy at hok
  split at hok
  · rename_i l hparse
    split at hok
    · cases hok
    split at hok
    · cases hok
    obtain ⟨p', htransport, hok⟩ := Fallible.bind_eq_ok hok
    obtain ⟨htype, hserver, hport⟩ := applyVmessSecurity_keeps hok
    obtain ⟨htype', hserver', hport'⟩ := applyVmessTransport_keeps htransport
    exact ⟨htype.trans htype', l, hparse, hserver.trans hserver', hport.trans hport'⟩
  · cases hok

/-! ### What xray dials -/

/-- The family of an outbound. -/
def outboundFamily : Xray.Credentials → Text
  | .vless .. => "vless".toList
  | .vmess .. => "vmess".toList
  | .trojan .. => "trojan".toList
  | .shadowsocks .. => ssName

/-- No header of a configuration in the link; and the address of an ss link is written out, or its scheme is in lower
case and its payload is one for the lenient decoder too. -/
structure XrayMirrored (link : Text) : Prop where
  header : ¬ HasHeader link
  payload : Vmess.isLink link = false → ∀ u ∈ Url.parse link, u.scheme = ssName →
    IsWritten u ∨ ("ss://".toList <+: link ∧ (Awg.decodeBase64Flexible (Mihomo.ssBody link)).isSome = true)

/-- A URL with a host and one of these schemes. -/
theorem xray_named_reports (hbare : trimSpace link = link) {scheme : String} (hscheme : scheme ∈ ["vless", "trojan"])
    (hparse : Url.parse link = some u) (hu : u.scheme = scheme.toList) (hhost : u.hostname ≠ []) {port : Nat}
    (hport : HostPort.portOf u.port = some port) (hheader : ¬ HasHeader link) :
    Reports link idx scheme.toList u.hostname port := by
  have hfacts : ∀ s ∈ ["vless", "trojan"], s ∈ otherSchemes ∧ s ≠ "ss" ∧ familyOf s.toList = s.toList ∧ s.toList ≠ [] := by
    decide
  obtain ⟨hother, hss, hfamily, hne⟩ := hfacts scheme hscheme
  have huhost : u.host ≠ [] := fun hnil => hhost (by rw [URL.hostname, hnil]; rfl)
  obtain ⟨name, text, hlink, hname⟩ := exists_link hparse (by rwa [hu]) huhost
  have hmihomo : Mihomo.hasScheme scheme link = true := by
    rw [hlink]
    exact hasScheme_link (hname.trans hu) text
  have hnamed : Reports link idx _ _ _ :=
    reports_named hother hbare hss hmihomo hparse hheader (atoi_of_portOf hport) (range_of_portOf hport)
  rwa [hfamily] at hnamed

theorem outboundFamily_of_identity {credentials : Xray.Credentials} {method password : Text}
    (h : xrayIdentity credentials = .shadowsocks method password) : outboundFamily credentials = ssName := by
  cases credentials <;> first | rfl | cases h

theorem xray_reports {net : Xray.Net} {tag : Text} {built : Xray.Built} (hbare : trimSpace link = link)
    (hok : Xray.outboundFromLink net link tag = .ok built) (hmirrored : XrayMirrored link) :
    Reports link idx (outboundFamily built.1.credentials) built.2.1 built.1.port := by
  have hheader := hmirrored.header
  unfold Xray.outboundFromLink at hok
  split at hok
  · rename_i hvmess
    obtain ⟨l, hparse⟩ : ∃ l, Vmess.parse link = (l, []) := by
      unfold Xray.outboundFromVMess at hok
      split at hok
      · rename_i l hparse
        exact ⟨l, hparse⟩
      · cases hok
    obtain ⟨stream, tls, -, hbuilt, hhost⟩ := outboundFromVMess_ok hparse hok
    have hpositive := port_of_parse hparse
    have hport : ((l.port.toNat : Nat) : Int) = l.port := Int.toNat_of_nonneg (by omega)
    rw [hbuilt, hhost]
    dsimp only [outboundFamily]
    rw [hport]
    exact reports_vmess hvmess hparse hheader
  · rename_i hvmess
    rw [Bool.not_eq_true] at hvmess
    split at hok
    · cases hok
    rename_i u hparse
    split at hok
    · rename_i hscheme
      obtain ⟨port, encryption, flow, stream, hport, -, hbuilt, hhost, hne⟩ := outboundFromVLESS_ok hok
      rw [hbuilt, hhost]
      exact xray_named_reports hbare (by decide : "vless" ∈ ["vless", "trojan"]) hparse hscheme hne hport hheader
    split at hok
    · rename_i hscheme
      obtain ⟨method, password, host, portText, port, -, -, -, -, hserver, -, -⟩ := outboundFromSS_ok hok
      have hidentity : xrayIdentity built.1.credentials = .shadowsocks method password :=
        congrArg Links.Server.identity hserver
      rw [outboundFamily_of_identity hidentity]
      exact xray_ss_reports hbare hparse hscheme hok hheader (hmirrored.payload hvmess u hparse hscheme)
    split at hok
    · rename_i hscheme
      obtain ⟨port, stream, hport, -, hbuilt, hhost, hne⟩ := outboundFromTrojan_ok hok
      rw [hbuilt, hhost]
      exact xray_named_reports hbare (by decide : "trojan" ∈ ["vless", "trojan"]) hparse hscheme hne hport hheader
    · cases hok

/-! ### What mihomo dials -/

/-- What a link of each kind has to be to be reported as mihomo dials it. -/
def KindMirrored (link : Text) : Mihomo.ProxyType → Prop
  | .vless | .trojan => ¬ HasHeader link ∧ PortInRange link
  | .ss => SSMirrored link
  | .hysteria2 => ¬ HasHeader link ∧ NamesOnePort link
  | .tuic | .anytls | .vmess => ¬ HasHeader link
  | .wireguard => ∀ ini ∈ Awg.normalizeToINI link, WireguardMirrored ini

theorem tuicProxy_reports {label : Text} {p : Mihomo.Proxy} (hbare : trimSpace link = link)
    (h : Mihomo.hasScheme "tuic" link = true) (hok : Mihomo.tuicProxy link label = .ok p) :
    p.type = .tuic ∧ (¬ HasHeader link → Reports link idx "tuic".toList p.server p.port) := by
  obtain ⟨htype, u, hparse, hserver, hport⟩ := tuicProxy_ok hok
  exact ⟨htype, reports_default hbare (by decide) h hparse hserver hport⟩

theorem anytlsProxy_reports {label : Text} {p : Mihomo.Proxy} (hbare : trimSpace link = link)
    (h : Mihomo.hasScheme "anytls" link = true) (hok : Mihomo.anytlsProxy link label = .ok p) :
    p.type = .anytls ∧ (¬ HasHeader link → Reports link idx "anytls".toList p.server p.port) := by
  obtain ⟨htype, u, hparse, hserver, hport⟩ := anytlsProxy_ok hok
  exact ⟨htype, reports_default hbare (by decide) h hparse hserver hport⟩

theorem hysteria2Proxy_reports {label : Text} {p : Mihomo.Proxy} (hbare : trimSpace link = link)
    (h : Mihomo.hasScheme "hysteria2" link = true ∨ Mihomo.hasScheme "hy2" link = true)
    (hok : Mihomo.hysteria2Proxy link label = .ok p) :
    p.type = .hysteria2 ∧ (¬ HasHeader link ∧ NamesOnePort link → Reports link idx "hysteria2".toList p.server p.port) := by
  obtain ⟨_, _, _, _, -, -, -, htype, -⟩ := hysteria2Proxy_ok hok
  refine ⟨htype, fun hboth => ?_⟩
  obtain h | h := h
  · exact hysteria2_reports hbare (by decide) h hok hboth.1 hboth.2
  · exact hysteria2_reports hbare (by decide) h hok hboth.1 hboth.2

theorem vmessProxy_reports {label : Text} {p : Mihomo.Proxy} (h : Vmess.isLink link = true)
    (hok : Mihomo.vmessProxy link label = .ok p) :
    p.type = .vmess ∧ (¬ HasHeader link → Reports link idx "vmess".toList p.server p.port) := by
  obtain ⟨htype, l, hparse, hserver, hport⟩ := vmessProxy_keeps hok
  rw [hserver, hport]
  exact ⟨htype, reports_vmess h hparse⟩

theorem kind_reports {label : Text} {p : Mihomo.Proxy} (hbare : trimSpace link = link)
    (hok : Mihomo.proxyFromLink link label = .ok p) (hmirrored : KindMirrored link p.type) :
    Reports link idx (family p.type) p.server p.port := by
  have hkind : ∀ kind, p.type = kind ∧ (KindMirrored link kind → Reports link idx (family kind) p.server p.port) →
      Reports link idx (family p.type) p.server p.port := by
    rintro kind ⟨rfl, hreports⟩
    exact hreports hmirrored
  unfold Mihomo.proxyFromLink at hok
  split at hok
  · rename_i h
    exact hkind .vless (vlessProxy_reports hbare h hok)
  split at hok
  · rename_i h
    obtain ⟨_, _, _, _, _, _, _, -, -, -, -, hserver⟩ := ssProxy_ok hok
    exact hkind .ss ⟨type_of_identity (server_of_serverOfProxy hserver).2.2, ss_reports hbare h hok⟩
  split at hok
  · rename_i h
    exact hkind .trojan (trojanProxy_reports hbare h hok)
  split at hok
  · rename_i h
    exact hkind .hysteria2 (hysteria2Proxy_reports hbare h hok)
  split at hok
  · rename_i h
    exact hkind .tuic (tuicProxy_reports hbare h hok)
  split at hok
  · rename_i h
    exact hkind .anytls (anytlsProxy_reports hbare h hok)
  split at hok
  · rename_i h
    exact hkind .vmess (vmessProxy_reports h hok)
  split at hok
  · rename_i h
    have hawg : isAwg (trimSpace link) = true := by
      rw [hbare, isAwg, Bool.or_eq_true]
      exact h
    exact hkind .wireguard ⟨(wireguardProxy_ok hok).1, wireguard_reports hawg hok⟩
  · cases hok

/-! ### All the builders -/

def hoppingLink : Text := "hy2://pw@vpn.example:443,5000-6000".toList

def onePortLink : Text := "hy2://pw@vpn.example:8443".toList

theorem onePortLink_mirrored : KindMirrored onePortLink .hysteria2 := by
  have haddress : hy2Address onePortLink = ("vpn.example".toList, "8443".toList) := by decide +kernel
  refine ⟨by decide +kernel, by rw [haddress]; decide, ?_, ?_, by decide +kernel⟩
  · rw [haddress]
    exact List.forall_iff_forall_mem.mp (by decide)
  · rw [haddress]
    exact fun hcolon => absurd hcolon (by decide)

/-- What mihomo dials of a link, and what is reported. -/
def dialledAndReported (link : Text) : Option ((Mihomo.ProxyType × Text × Int) × Text × Text × Int) :=
  match Mihomo.proxyFromLink link [] with
  | .ok p => some ((p.type, p.server, p.port), (fromLink link 0).protocol, (fromLink link 0).host, (fromLink link 0).port)
  | .error _ => none

end GlitchCore.ServerInfo
