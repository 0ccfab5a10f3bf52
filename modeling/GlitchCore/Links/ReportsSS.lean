import GlitchCore.Links.Reports

/-!
# What is reported of an ss link

An ss link has its address written out or inside its payload. Which of the two a link is, and what the address is, the
report reads from the URL, mihomo from the text behind the last `@` and xray from the URL written again.
-/

namespace GlitchCore.ServerInfo

open GoText Encoding Links Url

variable {link name text : Text} {idx : Nat} {u v : URL}

def ssName : Text := "ss".toList

/-- The URL has its user and its address written out. -/
def IsWritten (u : URL) : Prop := u.user ≠ none ∧ u.hostname ≠ [] ∧ u.port ≠ []

theorem fromURL_ss (link : Text) (idx : Nat) (hv : toLower v.scheme = ssName) :
    (fromURL link v idx).protocol = ssName ∧
      (IsWritten v → (fromURL link v idx).host = v.hostname ∧ (fromURL link v idx).port = portOf ssName v.port) ∧
      (¬ IsWritten v → ((fromURL link v idx).host, (fromURL link v idx).port) = ssLegacyHostPort link) := by
  have hfamily : familyOf ssName = ssName := by decide
  have hlegacy : (v.user = none ∨ v.hostname = [] ∨ v.port = []) ↔ ¬ IsWritten v := by
    simp only [IsWritten, not_and_or, not_not]
  unfold fromURL
  rw [hv, hfamily]
  dsimp only
  by_cases h : IsWritten v
  · rw [if_neg fun hboth => hlegacy.mp hboth.2 h]
    exact ⟨rfl, fun _ => ⟨rfl, rfl⟩, absurd h⟩
  · rw [if_pos ⟨rfl, hlegacy.mpr h⟩]
    exact ⟨rfl, fun hwritten => absurd hwritten h, fun _ => rfl⟩

/-- The address of a payload: none where it does not decode. -/
theorem ssLegacyHostPort_of_decode {decoded userInfo address host portText : Text} {port : Int}
    (hdecode : Awg.decodeBase64Flexible (Mihomo.ssBody link) = some decoded)
    (hcut : cutLast '@' decoded = some (userInfo, address))
    (hsplit : HostPort.splitHostPort address = some (host, portText)) (hport : atoi portText = some port) :
    ssLegacyHostPort link = (host, if port < 0 ∨ 65535 < port then 0 else port) := by
  have hne : address ≠ [] := by
    rintro rfl
    cases hsplit
  have hdecode' : Awg.decodeBase64Flexible (((trimPrefix "ss://".toList link).takeWhile (· != '#')).takeWhile (· != '?')) =
      some decoded := hdecode
  have htrim : trimSpace portText = portText := trim_eq_self.mpr (edges_of_forall (isSpace_of_atoi hport))
  unfold ssLegacyHostPort
  dsimp only
  rw [hdecode']
  dsimp only
  rw [hcut]
  dsimp only
  rw [if_neg hne, hsplit]
  dsimp only
  rw [htrim, hport]
  rfl

/-- A payload has only runes of an alphabet and white space. -/
theorem not_mem_of_decodeBase64Flexible {s decoded : Text} {c : Char} (h : Awg.decodeBase64Flexible s = some decoded)
    (hspace : isSpace c = false) (hc : c ∉ "\n\r=".toList) (hnone : sextet .std c = none ∧ sextet .url c = none) :
    c ∉ s := by
  intro hmem
  obtain ⟨bytes, hbytes, -⟩ := Option.map_eq_some_iff.mp h
  obtain ⟨a, padded, t, ht, ⟨-, rfl⟩ | ⟨hnot, -⟩⟩ := Decoder.decode_eq_some (d := .awg) hbytes
  · have htrim : c ∈ trimSpace s := (mem_trim_or hmem).resolve_left (by rw [hspace]; exact Bool.false_ne_true)
    exact absurd htrim (not_mem_of_base64Decode ht hc hnone)
  · exact absurd rfl hnot

theorem base64Decode_trimSpace {a : Alphabet} {padded : Bool} {s : Text} {bytes : List UInt8}
    (h : base64Decode a padded s = some bytes) : base64Decode a padded (trimSpace s) = some bytes := by
  have hfilter := filter_trim (p := isSpace) fun c hc hspace => break_of_isSpace h hc hspace
  unfold base64Decode at h ⊢
  rw [trimSpace, hfilter]
  exact h

/-- What mihomo decodes, the report decodes too. -/
theorem decodeBase64Flexible_of_decodeBase64 {s decoded : Text} (h : Mihomo.decodeBase64 s = some decoded) :
    Awg.decodeBase64Flexible s = some decoded := by
  obtain ⟨bytes, hbytes, rfl⟩ := Option.map_eq_some_iff.mp h
  have hread : ∃ a padded, base64Decode a padded (trimSpace s) = some bytes := by
    simp only [Option.orElse_eq_orElse, Option.orElse_eq_or, Option.or_eq_some_iff] at hbytes
    obtain h | ⟨-, h | ⟨-, h | ⟨-, h⟩⟩⟩ := hbytes
    all_goals exact ⟨_, _, base64Decode_trimSpace h⟩
  have hsome : (Decoder.awg.decode s).isSome = true := by
    obtain ⟨a, padded, hread⟩ := hread
    cases a <;> cases padded <;>
      simp [Decoder.decode, Option.orElse_eq_orElse, Option.orElse_eq_or, hread]
  obtain ⟨bytes', hbytes'⟩ := Option.isSome_iff_exists.mp hsome
  rw [decodeBase64Flexible_eq, hbytes', Decoder.agree (d := .mihomo) hbytes hbytes']
  rfl

/-! ### The text mihomo reads -/

/-- A link with the scheme and no white space around it. -/
structure Spelled (link name text : Text) : Prop where
  bare : trimSpace link = link
  scheme : Mihomo.hasScheme "ss" link = true
  link_eq : link = name ++ "://".toList ++ text
  name_eq : toLower name = ssName

theorem exists_spelled (hbare : trimSpace link = link) (h : Mihomo.hasScheme "ss" link = true) :
    ∃ name text, Spelled link name text := by
  obtain ⟨name, text, hlink, hname⟩ := exists_of_hasScheme h
  exact ⟨name, text, hbare, h, hlink, hname⟩

section

variable (ht : Spelled link name text)

include ht

theorem Spelled.not_mem_name {c : Char} (hpos : 0 < c.toNat) (hlt : c.toNat < 65) : c ∉ name :=
  not_mem_of_toLower ht.name_eq hpos hlt fun hmem => by
    have hall : ∀ c ∈ ssName, ¬ c.toNat < 65 := List.forall_iff_forall_mem.mp (by decide)
    exact hall c hmem hlt

theorem Spelled.afterScheme_eq : afterScheme link = text := by
  rw [ht.link_eq, afterScheme_link (ht.not_mem_name (by decide) (by decide))]

theorem Spelled.parsed (hparse : Url.parse link = some v) :
    toLower v.scheme = ssName ∧ parseAuthority (authorityOf text) = some (v.user, v.host) := by
  rw [ht.link_eq] at hparse
  obtain ⟨hscheme, hauthority⟩ := authority_of_hasScheme (by decide : "ss" ∈ otherSchemes) ht.name_eq hparse
  exact ⟨by rw [hscheme]; decide, hauthority⟩

theorem Spelled.reports (hparse : Url.parse link = some v) (hheader : ¬ HasHeader link) :
    Reports link idx ssName (fromURL link v idx).host (fromURL link v idx).port := by
  have hbare := ht.bare
  have hother : "ss" ∈ otherSchemes := by decide
  have hfrom : fromLink link idx = _ :=
    fromLink_url (isAwg_of_hasScheme hother ht.scheme hheader) (not_isLink hother ht.scheme) (hbare.symm ▸ hparse)
  rw [Reports, hfrom, hbare]
  exact ⟨(fromURL_ss _ _ (ht.parsed hparse).1).1, rfl, rfl⟩

theorem Spelled.reports_written (hparse : Url.parse link = some v) (hheader : ¬ HasHeader link) (h : IsWritten v) {port : Int}
    (hport : atoi v.port = some port) (hrange : 0 ≤ port ∧ port ≤ 65535) : Reports link idx ssName v.hostname port := by
  obtain ⟨hhost, hport'⟩ := (fromURL_ss link idx (ht.parsed hparse).1).2.1 h
  have hreports : Reports link idx ssName _ _ := ht.reports hparse hheader
  rwa [hhost, hport', portOf_eq hport hrange] at hreports

/-- The report of a link whose address stands behind its last `@`. -/
theorem Spelled.address_reports {userinfo address host portText : Text} {port : Int}
    (hbody : bodyOf text = userinfo ++ '@' :: address) (hat : '@' ∉ address)
    (hslash : '/' ∉ bodyOf text) (hsplit : HostPort.splitHostPort address = some (host, portText))
    (hport : atoi portText = some port) (hparse : Url.parse link = some v) (hheader : ¬ HasHeader link)
    (hrange : 0 ≤ port ∧ port ≤ 65535) (hescape : '%' ∉ address) (hne : host ≠ []) : Reports link idx ssName host port := by
  obtain ⟨hcolon, hforms⟩ := HostPort.splitHostPort_eq_some hsplit
  have hbracket : ']' ∉ portText := fun hmem => absurd (rune_of_atoi hport _ hmem) (by decide)
  obtain ⟨front, hfront⟩ : ∃ front, address = front ++ ':' :: portText := by
    obtain hform | ⟨hform, -, -⟩ := hforms
    · exact ⟨'[' :: host ++ [']'], by rw [hform]; simp⟩
    · exact ⟨host, hform⟩
  obtain ⟨hhost, huser⟩ := address_of_parseAuthority (ht.parsed hparse).2 hslash hbody hat
  have hurl : v.port = portText := by
    rw [hfront] at hhost
    exact port_of_parseHost hhost (ne_nil_of_atoi hport) hcolon hbracket
  have hnamed : v.port ≠ [] := by
    rw [hurl]
    exact ne_nil_of_atoi hport
  obtain rfl : v.hostname = host := (hostPort_agree hhost hnamed hsplit).2.1 hescape
  exact ht.reports_written hparse hheader ⟨huser, hne, hnamed⟩ (hurl ▸ hport) hrange

theorem Spelled.ssBody_literal (h : "ss://".toList <+: link) : Mihomo.ssBody link = bodyOf text := by
  obtain ⟨-, hbody⟩ | ⟨hnot, -⟩ := ssBody_eq ht.link_eq ht.name_eq
  · exact hbody
  · exact absurd h hnot

theorem Spelled.user_eq_none (hat : '@' ∉ bodyOf text) (hparse : Url.parse link = some v) : v.user = none :=
  user_eq_none_of_parseAuthority (ht.parsed hparse).2 fun hmem => hat (List.Sublist.mem hmem (List.takeWhile_sublist _))

/-- The report of a link whose address stands inside its payload. -/
theorem Spelled.legacy_reports {decoded userInfo address host portText : Text} {port : Int}
    (hliteral : "ss://".toList <+: link) (hat : '@' ∉ bodyOf text)
    (hdecode : Awg.decodeBase64Flexible (bodyOf text) = some decoded)
    (hcut : cutLast '@' decoded = some (userInfo, address))
    (hsplit : HostPort.splitHostPort address = some (host, portText)) (hport : atoi portText = some port)
    (hparse : Url.parse link = some v) (hheader : ¬ HasHeader link) (hrange : 0 ≤ port ∧ port ≤ 65535) :
    Reports link idx ssName host port := by
  have hdecode' : Awg.decodeBase64Flexible (Mihomo.ssBody link) = some decoded := by
    rw [ht.ssBody_literal hliteral]
    exact hdecode
  have hserver := (fromURL_ss link idx (ht.parsed hparse).1).2.2 fun hwritten => hwritten.1 (ht.user_eq_none hat hparse)
  rw [ssLegacyHostPort_of_decode hdecode' hcut hsplit hport, if_neg (by omega)] at hserver
  obtain ⟨hhost, hport'⟩ := Prod.mk.inj hserver
  have hreports : Reports link idx ssName _ _ := ht.reports hparse hheader
  rwa [hhost, hport'] at hreports

theorem Spelled.ssBody_cases : ∃ front, '@' ∉ front ∧ Mihomo.ssBody link = front ++ bodyOf text ∧
    (front = [] ∨ ':' ∈ front) ∧ (front = [] → "ss://".toList <+: link) := by
  obtain ⟨hliteral, hbody⟩ | ⟨-, hbody⟩ := ssBody_eq ht.link_eq ht.name_eq
  · exact ⟨[], List.not_mem_nil, hbody, .inl rfl, fun _ => hliteral⟩
  · refine ⟨name ++ "://".toList, ?_, hbody, .inr (by simp), fun hnil => ?_⟩
    · rw [List.mem_append, not_or]
      exact ⟨ht.not_mem_name (by decide) (by decide), by decide⟩
    · exact absurd (List.append_eq_nil_iff.mp hnil).2 (by decide)

theorem Spelled.address_eq (hat : '@' ∈ bodyOf text) {userInfo address : Text}
    (hcut : cutLast '@' (Mihomo.decodeUnless '@' (Mihomo.ssBody link)) = some (userInfo, address)) :
    ∃ userinfo, bodyOf text = userinfo ++ '@' :: address ∧ '@' ∉ address := by
  obtain ⟨front, -, hbody, -⟩ := ht.ssBody_cases
  obtain ⟨a, b, hab, hb⟩ := exists_last hat
  rw [hbody, decodeUnless_of_mem (List.mem_append_right _ hat), hab, ← List.append_assoc] at hcut
  obtain ⟨heq, hnot⟩ := cutLast_eq_some.mp hcut
  obtain ⟨-, rfl⟩ := eq_of_last heq hb hnot
  exact ⟨a, hab, hnot⟩

theorem Spelled.decode_eq (hat : '@' ∉ bodyOf text) {userInfo address : Text}
    (hcut : cutLast '@' (Mihomo.decodeUnless '@' (Mihomo.ssBody link)) = some (userInfo, address)) :
    "ss://".toList <+: link ∧
      Mihomo.decodeBase64 (bodyOf text) = some (Mihomo.decodeUnless '@' (Mihomo.ssBody link)) := by
  obtain ⟨front, hfront, hbody, hcolon, hliteral⟩ := ht.ssBody_cases
  have hnot : '@' ∉ Mihomo.ssBody link := by
    rw [hbody, List.mem_append, not_or]
    exact ⟨hfront, hat⟩
  have hmem : '@' ∈ Mihomo.decodeUnless '@' (Mihomo.ssBody link) := by
    rw [(cutLast_eq_some.mp hcut).1]
    simp
  have hdecode := decodeBase64_of_mem hnot hmem
  have hnil : front = [] := by
    refine hcolon.resolve_right fun hin => ?_
    refine not_mem_of_decodeBase64 hdecode (c := ':') (by decide) (by decide) ?_
    rw [hbody]
    exact List.mem_append_left _ hin
  refine ⟨hliteral hnil, ?_⟩
  rw [← hdecode, hbody, hnil, List.nil_append]

end

/-! ### Links mihomo takes -/

/-- The text of the address mihomo dials, its host and its port. -/
def ssEndpoint (link : Text) : Option (Text × Text × Int) := do
  let (_, address) ← cutLast '@' (Mihomo.decodeUnless '@' (Mihomo.ssBody link))
  let (host, portText) ← HostPort.splitHostPort address
  let port ← atoi portText
  return (address, host, port)

/-- An ss link that is reported as mihomo dials it: a URL whose port a socket could have, and where the address is
written out, no slash, no escape in the address and a host. -/
structure SSMirrored (link : Text) : Prop where
  header : ¬ HasHeader link
  url : (Url.parse link).isSome = true
  port : ∀ e ∈ ssEndpoint link, 0 ≤ e.2.2 ∧ e.2.2 ≤ 65535
  slash : '@' ∈ bodyOf (afterScheme link) → '/' ∉ bodyOf (afterScheme link)
  written : '@' ∈ bodyOf (afterScheme link) → ∀ e ∈ ssEndpoint link, '%' ∉ e.1 ∧ e.2.1 ≠ []

theorem server_of_serverOfProxy {p : Mihomo.Proxy} {s : Links.Server} (h : serverOfProxy p = some s) :
    p.server = s.host ∧ p.port = s.port ∧ mihomoIdentity p = some s.identity := by
  obtain ⟨identity, hidentity, rfl⟩ := Option.map_eq_some_iff.mp h
  exact ⟨rfl, rfl, hidentity⟩

theorem ssEndpoint_eq {userInfo address host portText : Text} {port : Int}
    (hcut : cutLast '@' (Mihomo.decodeUnless '@' (Mihomo.ssBody link)) = some (userInfo, address))
    (hsplit : HostPort.splitHostPort address = some (host, portText)) (hport : atoi portText = some port) :
    ssEndpoint link = some (address, host, port) := by
  rw [ssEndpoint, hcut]
  dsimp only [Option.bind_eq_bind, Option.bind_some]
  rw [hsplit]
  dsimp only [Option.bind_some]
  rw [hport]
  rfl

theorem ss_reports {p : Mihomo.Proxy} {label : Text} (hbare : trimSpace link = link)
    (h : Mihomo.hasScheme "ss" link = true) (hok : Mihomo.ssProxy link label = .ok p) (hmirrored : SSMirrored link) :
    Reports link idx ssName p.server p.port := by
  obtain ⟨userInfo, address, method, password, host, portText, port, hcut, -, hsplit, hport, hserver⟩ := ssProxy_ok hok
  obtain ⟨hhost, hport', -⟩ := server_of_serverOfProxy hserver
  have hendpoint := ssEndpoint_eq hcut hsplit hport
  have hrange := hmirrored.port _ hendpoint
  obtain ⟨v, hparse⟩ := Option.isSome_iff_exists.mp hmirrored.url
  obtain ⟨name, text, ht⟩ := exists_spelled hbare h
  have hslash := hmirrored.slash
  have hwritten := hmirrored.written
  rw [ht.afterScheme_eq] at hslash hwritten
  rw [hhost, hport']
  by_cases hat : '@' ∈ bodyOf text
  · obtain ⟨userinfo, hbody, hnot⟩ := ht.address_eq hat hcut
    obtain ⟨hescape, hne⟩ := hwritten hat _ hendpoint
    exact ht.address_reports hbody hnot (hslash hat) hsplit hport hparse hmirrored.header hrange hescape hne
  · obtain ⟨hliteral, hdecode⟩ := ht.decode_eq hat hcut
    exact ht.legacy_reports hliteral hat (decodeBase64Flexible_of_decodeBase64 hdecode) hcut hsplit hport hparse
      hmirrored.header hrange

/-! ### Links xray takes -/

/-- A legacy link has no user. -/
theorem written_of_ssLegacy {method password host portText : Text}
    (h : Xray.ssLegacy u = some (method, password, host, portText)) (hscheme : u.scheme = ssName)
    (hparse : Url.parse (name ++ "://".toList ++ text) = some u) (hname : toLower name = ssName) :
    ∃ authority path, Written text u authority path ∧ u.user = none ∧ '@' ∉ bodyOf text := by
  have hmem := not_mem_name (by decide : "ss" ∈ otherSchemes) hname
  obtain ⟨-, authority, path, hw⟩ :=
    exists_written hparse ⟨hmem ':' (by decide), hmem '#' (by decide)⟩ (by rw [hscheme]; decide)
  have hat : '@' ∉ bodyOf text := by
    intro hin
    rw [ssLegacy_eq_none hw hscheme hin] at h
    cases h
  exact ⟨authority, path, hw, Links.user_eq_none hw hat, hat⟩

theorem legacy_reports {method password host portText : Text} {port : Int} (hbare : trimSpace link = link)
    (hparse : Url.parse link = some u) (hscheme : u.scheme = ssName)
    (hread : Xray.ssLegacy u = some (method, password, host, portText)) (hport : atoi portText = some port)
    (hrange : 0 ≤ port ∧ port ≤ 65535) (hliteral : "ss://".toList <+: link)
    (hsome : (Awg.decodeBase64Flexible (Mihomo.ssBody link)).isSome = true) (hheader : ¬ HasHeader link) :
    Reports link idx ssName host port := by
  have hlink : Mihomo.hasScheme "ss" link = true := by
    obtain ⟨rest, rfl⟩ := hliteral
    have hlower : toLower "ss".toList = "ss".toList := by decide
    exact hasScheme_link hlower rest
  obtain ⟨name, text, ht⟩ := exists_spelled hbare hlink
  have hv := hparse
  rw [ht.link_eq] at hparse
  obtain ⟨authority, path, hw, huser, hat⟩ := written_of_ssLegacy hread hscheme hparse ht.name_eq
  rw [ht.ssBody_literal hliteral] at hsome
  obtain ⟨decoded', hflexible⟩ := Option.isSome_iff_exists.mp hsome
  obtain ⟨decoded, creds, address, hdecoded, hcut, -, hsplit⟩ := ssLegacy_eq_some hread
  rw [legacyText hw hscheme hdecoded] at hdecoded
  have hplain : '%' ∉ bodyOf text := not_mem_of_decodeBase64Flexible hflexible (by decide) (by decide) (by decide)
  have hagain : '%' ∉ u.afterSlashes := not_mem_of_tryDecodeBase64 hdecoded (by decide) (by decide)
  rw [hw.afterSlashes_of_not_mem huser hplain hagain] at hdecoded
  have hsame : decoded = decoded' := by
    obtain ⟨bytes, hbytes, rfl⟩ := Option.map_eq_some_iff.mp hdecoded
    obtain ⟨bytes', hbytes', rfl⟩ := Option.map_eq_some_iff.mp hflexible
    have hx : Decoder.xray.decode (bodyOf text) = some bytes := hbytes
    have ha : Decoder.awg.decode (bodyOf text) = some bytes' := hbytes'
    rw [Decoder.agree hx ha]
  rw [hsame] at hcut
  exact ht.legacy_reports hliteral hat hflexible hcut hsplit hport hv hheader hrange

/-- An ss link that xray takes is reported as it is dialled when its address is written out, or when its payload is also
one for the lenient decoder of the report. -/
theorem xray_ss_reports {net : Xray.Net} {tag : Text} {built : Xray.Built} (hbare : trimSpace link = link)
    (hparse : Url.parse link = some u) (hscheme : u.scheme = ssName) (hok : Xray.outboundFromSS net u tag = .ok built)
    (hheader : ¬ HasHeader link) (hpayload : IsWritten u ∨
      ("ss://".toList <+: link ∧ (Awg.decodeBase64Flexible (Mihomo.ssBody link)).isSome = true)) :
    Reports link idx ssName built.2.1 built.1.port := by
  obtain ⟨method, password, host, portText, port, hread, hport, -, -, hserver, hhost, hne⟩ := outboundFromSS_ok hok
  have hport' : (built.1.port : Int) = port := congrArg Links.Server.port hserver
  have hatoi := atoi_of_portOf hport
  have hrange := range_of_portOf hport
  rw [hhost, hport']
  by_cases hwritten : IsWritten u
  · have huhost : u.host ≠ [] := fun hnil => hwritten.2.1 (by rw [URL.hostname, hnil]; rfl)
    obtain ⟨name, text, hlink, hname⟩ := exists_link hparse (by rw [hscheme]; decide) huhost
    obtain ⟨user, huser⟩ := Option.ne_none_iff_exists'.mp hwritten.1
    obtain ⟨rfl, rfl⟩ : u.hostname = host ∧ u.port = portText := by
      rw [Xray.ssRead, huser] at hread
      dsimp only at hread
      rw [if_pos hwritten.2] at hread
      have hfields := Option.some.inj hread
      exact ⟨congrArg (·.2.2.1) hfields, congrArg (·.2.2.2) hfields⟩
    obtain ⟨name', text', ht⟩ := exists_spelled hbare (hlink ▸ hasScheme_link (hname.trans hscheme) text)
    exact ht.reports_written hparse hheader hwritten hatoi hrange
  · have hlegacy : Xray.ssLegacy u = some (method, password, host, portText) := by
      unfold Xray.ssRead at hread
      split at hread
      · rename_i user huser
        rwa [if_neg fun hboth => hwritten ⟨by rw [huser]; exact Option.some_ne_none _, hboth⟩] at hread
      · exact hread
    obtain ⟨hliteral, hsome⟩ := hpayload.resolve_left hwritten
    exact legacy_reports hbare hparse hscheme hlegacy hatoi hrange hliteral hsome hheader

end GlitchCore.ServerInfo
