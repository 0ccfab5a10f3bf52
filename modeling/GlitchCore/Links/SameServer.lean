import GlitchCore.Base.UrlString
import GlitchCore.Base.UrlParts
import GlitchCore.Links.Decoders
import GlitchCore.Links.Server

/-!
# One link, one server

Both engines read a link with parsers of their own. They part over the vless names that only xray folds, over REALITY
without a public key, and over ss links with their address written out, where mihomo takes what stands in the link and
xray what a URL makes of it.
-/

namespace GlitchCore.Links

open GoText Encoding Url HostPort

variable {net : Xray.Net} {link tag name text : Text} {u : URL} {built : Xray.Built} {p : Mihomo.Proxy}

/-! ### Schemes -/

theorem eq_of_toLower {s t : Text} (ht : ∀ c ∈ t, 0 < c.toNat ∧ c.toNat < 65) (h : toLower s = t) : s = t := by
  induction s generalizing t with
  | nil => exact h
  | cons c s ih =>
      subst h
      rw [toLower, List.map_cons] at ht ⊢
      obtain ⟨hpos, hlt⟩ := ht _ (List.mem_cons_self ..)
      have hc : c = toLowerRune c := (toLowerRune_eq_iff hpos hlt).mp rfl
      rw [← hc, ← ih (fun d hd => ht d (List.mem_cons_of_mem _ hd)) rfl]

theorem mem_toLower {c : Char} {s : Text} (hpos : 0 < c.toNat) (hlt : c.toNat < 65) (hmem : c ∈ s) : c ∈ toLower s :=
  List.mem_map.mpr ⟨c, hmem, (toLowerRune_eq_iff hpos hlt).mpr rfl⟩

theorem not_mem_of_toLower {c : Char} {s t : Text} (h : toLower s = t) (hpos : 0 < c.toNat) (hlt : c.toNat < 65)
    (hnot : c ∉ t) : c ∉ s := by
  intro hmem
  rw [← h] at hnot
  exact hnot (mem_toLower hpos hlt hmem)

theorem exists_of_hasScheme {scheme : String} (h : Mihomo.hasScheme scheme link = true) :
    ∃ name text, link = name ++ "://".toList ++ text ∧ toLower name = scheme.toList := by
  obtain ⟨rest, hrest⟩ := List.isPrefixOf_iff_prefix.mp h
  rw [String.toList_append] at hrest
  obtain ⟨front, text, rfl, hfront, -⟩ := List.map_eq_append_iff.mp hrest.symm
  obtain ⟨name, slashes, rfl, hname, hslashes⟩ := List.map_eq_append_iff.mp hfront
  obtain rfl : slashes = "://".toList :=
    eq_of_toLower (List.forall_iff_forall_mem.mp (by decide)) hslashes
  exact ⟨name, text, rfl, hname⟩

/-- A link has one scheme. -/
theorem hasScheme_comparable {a b : String} (ha : Mihomo.hasScheme a link = true) (hb : Mihomo.hasScheme b link = true) :
    (a ++ "://").toList <+: (b ++ "://").toList ∨ (b ++ "://").toList <+: (a ++ "://").toList :=
  List.prefix_or_prefix_of_prefix (List.isPrefixOf_iff_prefix.mp ha) (List.isPrefixOf_iff_prefix.mp hb)

def otherSchemes : List String := ["vless", "ss", "trojan", "hysteria2", "hy2", "tuic", "anytls"]

theorem isSpace_head_of_hasScheme {scheme : String} (hscheme : scheme ∈ otherSchemes) {name : Text}
    (hname : toLower name = scheme.toList) : ∀ c ∈ name.head?, isSpace c = false := by
  have hhead : ∀ s ∈ otherSchemes, (s.toList.head?.any isSpace) = false := by decide
  intro c hc
  have hfirst := hhead scheme hscheme
  rw [← hname, toLower, List.head?_map, Option.mem_def.mp hc, Option.map_some, Option.any_some,
    isSpace_toLowerRune] at hfirst
  exact hfirst

/-- Also behind white space, which none of these schemes begins with, a link has no other scheme. -/
theorem not_prefix_of_hasScheme {word : Text} {scheme : String} (hscheme : scheme ∈ otherSchemes)
    (hword : ∀ s ∈ otherSchemes, ¬ word <+: (s ++ "://").toList ∧ ¬ (s ++ "://").toList <+: word)
    (h : Mihomo.hasScheme scheme link = true) : ¬ word <+: toLower (trimSpace link) := by
  intro hprefix
  obtain ⟨name, text, hlink, hname⟩ := exists_of_hasScheme h
  have htrim : trimSpace link <+: link := by
    rw [hlink, trimSpace_link (isSpace_head_of_hasScheme hscheme hname), List.prefix_append_right_inj]
    exact List.rdropWhile_prefix _ _
  have hfirst : word <+: toLower link := hprefix.trans (htrim.map _)
  have hsecond : (scheme ++ "://").toList <+: toLower link := List.isPrefixOf_iff_prefix.mp h
  exact (List.prefix_or_prefix_of_prefix hfirst hsecond).elim (hword scheme hscheme).1 (hword scheme hscheme).2

theorem not_isLink {scheme : String} (hscheme : scheme ∈ otherSchemes) (h : Mihomo.hasScheme scheme link = true) :
    Vmess.isLink link = false := by
  rw [← Bool.not_eq_true, Vmess.isLink, List.isPrefixOf_iff_prefix]
  exact not_prefix_of_hasScheme hscheme (by decide) h

/-- What xray reads of a link whose scheme mihomo reads. -/
theorem outboundFromLink_ok {scheme : String} (hscheme : scheme ∈ ["vless", "ss", "trojan"])
    (h : Mihomo.hasScheme scheme link = true) (hok : Xray.outboundFromLink net link tag = .ok built) :
    ∃ name text u authority path, link = name ++ "://".toList ++ text ∧ toLower name = scheme.toList ∧
      Url.parse link = some u ∧ u.scheme = scheme.toList ∧ Written text u authority path ∧
      (if u.scheme = "vless".toList then Xray.outboundFromVLESS net u tag
        else if u.scheme = "ss".toList then Xray.outboundFromSS net u tag
        else if u.scheme = "trojan".toList then Xray.outboundFromTrojan net u tag
        else .error (.unsupportedScheme u.scheme)) = .ok built := by
  have hother : ∀ s ∈ ["vless", "ss", "trojan"], s ∈ otherSchemes := by decide
  have hplain : ∀ s ∈ ["vless", "ss", "trojan"], ':' ∉ s.toList ∧ '#' ∉ s.toList := by decide
  obtain ⟨name, text, hlink, hname⟩ := exists_of_hasScheme h
  unfold Xray.outboundFromLink at hok
  rw [not_isLink (hother scheme hscheme) h, if_neg Bool.false_ne_true] at hok
  split at hok
  · cases hok
  rename_i u hparse
  have hempty : u.scheme ≠ [] := by
    intro hnil
    rw [hnil, if_neg (by decide), if_neg (by decide), if_neg (by decide)] at hok
    cases hok
  have hname' : ':' ∉ name ∧ '#' ∉ name := by
    obtain ⟨hcolon, hhash⟩ := hplain scheme hscheme
    exact ⟨not_mem_of_toLower hname (by decide) (by decide) hcolon,
      not_mem_of_toLower hname (by decide) (by decide) hhash⟩
  rw [hlink] at hparse
  obtain ⟨hlower, authority, path, hwritten⟩ := exists_written hparse hname' hempty
  rw [← hlink] at hparse
  exact ⟨name, text, u, authority, path, hlink, hname, hparse, hlower.trans hname, hwritten, hok⟩

/-! ### Shadowsocks -/

theorem outboundFromSS_ok (hok : Xray.outboundFromSS net u tag = .ok built) :
    ∃ method password host portText port, Xray.ssRead u = some (method, password, host, portText) ∧
      portOf portText = some port ∧ password ≠ [] ∧ toLower method ∈ Xray.ssCiphers ∧
      serverOfOutbound built.1 = ⟨host, port, .shadowsocks method password, .tcp, .none⟩ ∧ built.2.1 = host ∧
      host ≠ [] := by
  unfold Xray.outboundFromSS at hok
  split at hok
  · cases hok
  rename_i method password host portText hread
  split at hok
  · cases hok
  rename_i port hport
  dsimp only at hok
  split at hok
  · cases hok
  rename_i hcomplete
  split at hok
  · cases hok
  rename_i hcipher
  obtain rfl := Except.ok.inj hok
  exact ⟨method, password, host, portText, port, hread, hport, fun hnil => hcomplete (.inr (.inl hnil)),
    not_not.mp hcipher, rfl, rfl, fun hnil => hcomplete (.inr (.inr hnil))⟩

theorem ssProxy_ok (hok : Mihomo.ssProxy link name = .ok p) :
    ∃ userInfo hostPort method password host portText port,
      cutLast '@' (Mihomo.decodeUnless '@' (Mihomo.ssBody link)) = some (userInfo, hostPort) ∧
      cut ':' (Mihomo.decodeUnless ':' userInfo) = some (method, password) ∧
      HostPort.splitHostPort hostPort = some (host, portText) ∧ atoi portText = some port ∧
      serverOfProxy p = some ⟨host, port, .shadowsocks method password, .tcp, .none⟩ := by
  unfold Mihomo.ssProxy at hok
  split at hok
  · cases hok
  rename_i userInfo hostPort hcut
  split at hok
  · cases hok
  rename_i method password hcut'
  split at hok
  · cases hok
  rename_i host portText hsplit
  split at hok
  · cases hok
  rename_i port hport
  obtain rfl := Except.ok.inj hok
  exact ⟨userInfo, hostPort, method, password, host, portText, port, hcut, hcut', hsplit, hport, rfl⟩

theorem decoders_agree {s decoded decoded' : Text} (h : Xray.tryDecodeBase64 s = some decoded)
    (h' : Mihomo.decodeBase64 s = some decoded') : decoded = decoded' := by
  obtain ⟨bytes, hbytes, rfl⟩ := Option.map_eq_some_iff.mp h
  obtain ⟨bytes', hbytes', rfl⟩ := Option.map_eq_some_iff.mp h'
  have hx : Decoder.xray.decode s = some bytes := hbytes
  have hm : Decoder.mihomo.decode s = some bytes' := hbytes'
  rw [Decoder.agree hx hm]

theorem not_mem_of_decodeBase64 {s decoded : Text} (h : Mihomo.decodeBase64 s = some decoded) {c : Char}
    (hc : c ∉ "\n\r=".toList) (hnone : sextet .std c = none ∧ sextet .url c = none) : c ∉ s := by
  obtain ⟨bytes, hbytes, -⟩ := Option.map_eq_some_iff.mp h
  exact Decoder.not_mem (d := .mihomo) (by decide) hbytes hc hnone

theorem not_mem_of_tryDecodeBase64 {s decoded : Text} (h : Xray.tryDecodeBase64 s = some decoded) {c : Char}
    (hc : c ∉ "\n\r=".toList) (hnone : sextet .std c = none ∧ sextet .url c = none) : c ∉ s := by
  obtain ⟨bytes, hbytes, -⟩ := Option.map_eq_some_iff.mp h
  exact Decoder.not_mem (d := .xray) (by decide) hbytes hc hnone

theorem isPlainRune_of_sextet {a : Alphabet} {c : Char} (h : (sextet a c).isSome = true) : isPlainRune c = true := by
  unfold sextet at h
  unfold isPlainRune isAlphanumeric
  split at h
  · rename_i hupper
    simp [hupper]
  split at h
  · rename_i hlower
    simp [hlower]
  split at h
  · rename_i hdigit
    simp [hdigit]
  cases a <;> dsimp only at h <;> split at h
  · rename_i hc
    rw [hc]
    decide
  · split at h
    · rename_i hc
      rw [hc]
      decide
    · cases h
  · rename_i hc
    rw [hc]
    decide
  · split at h
    · rename_i hc
      rw [hc]
      decide
    · cases h

section

variable {authority path : Text}

theorem ssLegacy_eq_some {method password host portText : Text}
    (h : Xray.ssLegacy u = some (method, password, host, portText)) :
    ∃ decoded creds addr, Xray.tryDecodeBase64 (bodyOf (trimPrefix "ss://".toList u.string)) = some decoded ∧
      cutLast '@' decoded = some (creds, addr) ∧ cut ':' creds = some (method, password) ∧
      HostPort.splitHostPort addr = some (host, portText) := by
  unfold Xray.ssLegacy at h
  obtain ⟨decoded, hdecoded, h⟩ := Option.bind_eq_some_iff.mp h
  obtain ⟨⟨creds, addr⟩, hcut, h⟩ := Option.bind_eq_some_iff.mp h
  obtain ⟨⟨method', password'⟩, hcut', h⟩ := Option.bind_eq_some_iff.mp h
  dsimp only at h
  split at h
  · cases h
  obtain ⟨⟨host', port'⟩, hsplit, h⟩ := Option.bind_eq_some_iff.mp h
  obtain ⟨rfl, rfl, rfl, rfl⟩ : method' = method ∧ password' = password ∧ host' = host ∧ port' = portText := by
    simpa using h
  exact ⟨decoded, creds, addr, hdecoded, hcut, hcut', hsplit⟩

/-- The text xray decodes of an ss link in the legacy form. -/
theorem legacyText (hw : Written text u authority path) (hscheme : u.scheme = "ss".toList) {decoded : Text}
    (h : Xray.tryDecodeBase64 (bodyOf (trimPrefix "ss://".toList u.string)) = some decoded) :
    bodyOf (trimPrefix "ss://".toList u.string) = u.afterSlashes := by
  have hstring := hw.bodyOf_string (by rw [hscheme]; decide) (by rw [hscheme]; decide)
  rw [hscheme] at hstring
  refine hstring.resolve_right fun hcolon => ?_
  refine not_mem_of_tryDecodeBase64 h (c := ':') (by decide) (by decide) ?_
  have happend : "ss://".toList = "ss".toList ++ "://".toList := by decide
  rw [happend, hcolon]
  decide

theorem ssLegacy_eq_none (hw : Written text u authority path) (hscheme : u.scheme = "ss".toList)
    (hat : '@' ∈ bodyOf text) : Xray.ssLegacy u = none := by
  cases hlegacy : Xray.ssLegacy u with
  | none => rfl
  | some read =>
      obtain ⟨method, password, host, portText⟩ := read
      obtain ⟨decoded, -, -, hdecoded, -⟩ := ssLegacy_eq_some hlegacy
      have hraw := legacyText hw hscheme hdecoded
      rw [hraw] at hdecoded
      exact absurd (hw.at_mem_afterSlashes hat) (not_mem_of_tryDecodeBase64 hdecoded (by decide) (by decide))

theorem user_eq_none (hw : Written text u authority path) (hat : '@' ∉ bodyOf text) : u.user = none :=
  user_eq_none_of_parseAuthority hw.parsed fun hmem => hat (hw.body ▸ List.mem_append_left _ hmem)

theorem ssBody_eq (hlink : link = name ++ "://".toList ++ text) (hname : toLower name = "ss".toList) :
    ("ss://".toList <+: link ∧ Mihomo.ssBody link = bodyOf text) ∨
      (¬ "ss://".toList <+: link ∧ Mihomo.ssBody link = name ++ "://".toList ++ bodyOf text) := by
  have hlen : name.length = 2 := by
    have hlength := congrArg List.length hname
    rw [toLower, List.length_map] at hlength
    exact hlength
  have hbody : Mihomo.ssBody link = bodyOf (trimPrefix "ss://".toList link) := rfl
  by_cases hliteral : "ss://".toList <+: link
  · refine .inl ⟨hliteral, ?_⟩
    have hdrop : link.drop 5 = text := by
      rw [hlink]
      exact List.drop_left' (by rw [List.length_append, hlen]; rfl)
    rw [hbody, trimPrefix, if_pos (List.isPrefixOf_iff_prefix.mpr hliteral)]
    exact congrArg bodyOf hdrop
  · refine .inr ⟨hliteral, ?_⟩
    have hplain : '#' ∉ name ++ "://".toList ∧ '?' ∉ name ++ "://".toList := by
      simp only [List.mem_append, not_or]
      exact ⟨⟨not_mem_of_toLower hname (by decide) (by decide) (by decide), by decide⟩,
        not_mem_of_toLower hname (by decide) (by decide) (by decide), by decide⟩
    rw [hbody, trimPrefix, if_neg (fun h => hliteral (List.isPrefixOf_iff_prefix.mp h)), hlink, bodyOf_append hplain]

theorem decodeUnless_of_mem {c : Char} {s : Text} (h : c ∈ s) : Mihomo.decodeUnless c s = s := if_pos h

/-- A text without the rune that reads with it was decoded. -/
theorem decodeBase64_of_mem {c : Char} {s : Text} (hnot : c ∉ s) (hmem : c ∈ Mihomo.decodeUnless c s) :
    Mihomo.decodeBase64 s = some (Mihomo.decodeUnless c s) := by
  rw [Mihomo.decodeUnless, if_neg hnot] at hmem ⊢
  cases hdecode : Mihomo.decodeBase64 s with
  | none =>
      rw [hdecode] at hmem
      exact absurd hmem hnot
  | some decoded => rfl

/-- The legacy form, in which everything is base64: both engines decode the same text. -/
theorem ss_legacy_alike (hw : Written text u authority path) (hscheme : u.scheme = "ss".toList)
    (hlink : link = name ++ "://".toList ++ text) (hname : toLower name = "ss".toList) (hat : '@' ∉ bodyOf text)
    (hx : Xray.outboundFromSS net u tag = .ok built) {label : Text} (hm : Mihomo.ssProxy link label = .ok p) :
    serverOfProxy p = some (serverOfOutbound built.1) := by
  obtain ⟨method, password, host, portText, port, hread, hport, -, -, hserver, -⟩ := outboundFromSS_ok hx
  obtain ⟨userInfo, hostPort, method', password', host', portText', port', hcut, hcut', hsplit', hport', hserver'⟩ :=
    ssProxy_ok hm
  rw [Xray.ssRead, user_eq_none hw hat] at hread
  obtain ⟨decoded, creds, addr, hdecoded, hcreds, hmethod, hsplit⟩ := ssLegacy_eq_some hread
  have hmem : '@' ∈ Mihomo.decodeUnless '@' (Mihomo.ssBody link) := by
    rw [(cutLast_eq_some.mp hcut).1]
    simp
  have hbody : Mihomo.ssBody link = bodyOf text := by
    obtain ⟨-, hbody⟩ | ⟨-, hbody⟩ := ssBody_eq hlink hname
    · exact hbody
    · -- the scheme would stand in what is decoded
      have hnot : '@' ∉ Mihomo.ssBody link := by
        rw [hbody]
        simp only [List.mem_append, not_or]
        exact ⟨⟨not_mem_of_toLower hname (by decide) (by decide) (by decide), by decide⟩, hat⟩
      refine absurd ?_ (not_mem_of_decodeBase64 (decodeBase64_of_mem hnot hmem) (c := ':') (by decide) (by decide))
      rw [hbody]
      simp
  rw [hbody] at hcut hmem
  have hdecoded' := decodeBase64_of_mem hat hmem
  have hplain : ∀ c ∈ bodyOf text, isPlainRune c = true := by
    intro c hc
    obtain ⟨bytes, hbytes, -⟩ := Option.map_eq_some_iff.mp hdecoded'
    obtain ⟨a, padded, t, hdecode, ⟨hawg, -⟩ | ⟨-, n, rfl⟩⟩ := Decoder.decode_eq_some (d := .mihomo) hbytes
    · cases hawg
    have hcontrol := hw.plain c hc
    obtain rfl | rfl | rfl | hsome := rune_of_base64Decode hdecode (List.mem_append_left _ hc)
    · exact absurd hcontrol (by decide)
    · exact absurd hcontrol (by decide)
    · decide
    · exact isPlainRune_of_sextet hsome
  rw [legacyText hw hscheme hdecoded, hw.afterSlashes_eq (user_eq_none hw hat) hplain] at hdecoded
  rw [← decoders_agree hdecoded hdecoded', hcreds] at hcut
  obtain ⟨rfl, rfl⟩ := Prod.mk.inj (Option.some.inj hcut)
  have hcolon : ':' ∈ creds := by
    rw [(cut_eq_some.mp hmethod).1]
    simp
  rw [decodeUnless_of_mem hcolon, hmethod] at hcut'
  obtain ⟨rfl, rfl⟩ := Prod.mk.inj (Option.some.inj hcut')
  rw [hsplit] at hsplit'
  obtain ⟨rfl, rfl⟩ := Prod.mk.inj (Option.some.inj hsplit')
  rw [atoi_of_portOf hport] at hport'
  obtain rfl := Option.some.inj hport'
  rw [hserver', hserver]

/-- Where xray takes cipher and password from: a userinfo with both, or one that decodes to both. -/
def Credentials (userInfo method password : Text) : Prop :=
  (∃ a b, cut ':' userInfo = some (a, b) ∧ unescape .userPassword a = some method ∧
      unescape .userPassword b = some password) ∨
    (':' ∉ userInfo ∧ ∃ username decoded, unescape .userPassword userInfo = some username ∧
      Xray.tryDecodeBase64 username = some decoded ∧ cut ':' decoded = some (method, password))

theorem credentials_of_parseUserinfo {userInfo method password host portText : Text} {user : Userinfo}
    (hparse : parseUserinfo userInfo = some user)
    (hplain : Xray.ssPlain u user = (method, password, host, portText)) (hpassword : password ≠ []) :
    Credentials userInfo method password := by
  unfold parseUserinfo at hparse
  split at hparse
  · cases hparse
  unfold Xray.ssPlain at hplain
  split at hparse
  · rename_i hcut
    obtain ⟨username, husername, hparse⟩ := Option.bind_eq_some_iff.mp hparse
    obtain rfl := Option.some.inj hparse
    refine .inr ⟨cut_eq_none.mp hcut, username, ?_⟩
    dsimp only at hplain
    split at hplain
    · rename_i decoded hdecoded
      cases hcut' : cut ':' decoded with
      | none =>
          rw [hcut'] at hplain
          exact absurd (Prod.mk.inj (Prod.mk.inj hplain).2).1.symm hpassword
      | some part =>
          rw [hcut'] at hplain
          obtain ⟨hmethod, hplain⟩ := Prod.mk.inj hplain
          obtain ⟨hpassword', -⟩ := Prod.mk.inj hplain
          refine ⟨decoded, husername, hdecoded, ?_⟩
          rw [hcut', ← hmethod, ← hpassword']
          rfl
    · exact absurd (Prod.mk.inj (Prod.mk.inj hplain).2).1.symm hpassword
  · rename_i a b hcut
    obtain ⟨username, husername, hparse⟩ := Option.bind_eq_some_iff.mp hparse
    obtain ⟨secret, hsecret, hparse⟩ := Option.bind_eq_some_iff.mp hparse
    obtain rfl := Option.some.inj hparse
    obtain ⟨hmethod, hplain⟩ := Prod.mk.inj hplain
    obtain ⟨hpassword', -⟩ := Prod.mk.inj hplain
    rw [← hmethod, ← hpassword']
    exact .inl ⟨a, b, hcut, husername, hsecret⟩

/-- What xray reads of an ss link with its address written out. -/
theorem ssRead_plain (hw : Written text u authority path) (hscheme : u.scheme = "ss".toList) (hat : '@' ∈ bodyOf text)
    {method password host portText : Text} (hread : Xray.ssRead u = some (method, password, host, portText))
    (hpassword : password ≠ []) :
    ∃ userInfo hostPort, authority = userInfo ++ '@' :: hostPort ∧ '@' ∉ hostPort ∧ parseHost hostPort = some u.host ∧
      u.port ≠ [] ∧ host = u.hostname ∧ portText = u.port ∧ Credentials userInfo method password := by
  unfold Xray.ssRead at hread
  rw [ssLegacy_eq_none hw hscheme hat] at hread
  split at hread
  · rename_i user huser
    split at hread
    · rename_i haddress
      have hparsed := hw.parsed
      rw [huser] at hparsed
      unfold parseAuthority at hparsed
      split at hparsed
      · obtain ⟨_, -, hparsed⟩ := Option.bind_eq_some_iff.mp hparsed
        cases hparsed
      · rename_i userInfo hostPort hcut
        obtain ⟨host', hhost, hparsed⟩ := Option.bind_eq_some_iff.mp hparsed
        obtain ⟨user', huser', hparsed⟩ := Option.bind_eq_some_iff.mp hparsed
        obtain ⟨hsome, rfl⟩ := Prod.mk.inj (Option.some.inj hparsed)
        obtain rfl := Option.some.inj hsome
        obtain ⟨hauthority, hnot⟩ := cutLast_eq_some.mp hcut
        have hplain := Option.some.inj hread
        have haddr : (u.hostname, u.port) = (host, portText) :=
          (Prod.mk.inj (Prod.mk.inj hplain).2).2
        obtain ⟨hhostname, hport⟩ := Prod.mk.inj haddr
        exact ⟨userInfo, hostPort, hauthority, hnot, hhost, haddress.2, hhostname.symm, hport.symm,
          credentials_of_parseUserinfo huser' hplain hpassword⟩
    · cases hread
  · cases hread

/-- mihomo takes a userinfo as it stands. -/
theorem credentials_alike_iff {userInfo method password method' password' : Text}
    (hx : Credentials userInfo method password)
    (hm : cut ':' (Mihomo.decodeUnless ':' userInfo) = some (method', password')) :
    (method' = method ∧ password' = password) ↔ '%' ∉ userInfo := by
  obtain ⟨a, b, hcut, hmethod, hpassword⟩ | ⟨hnot, username, decoded, husername, hdecoded, hcut⟩ := hx
  · obtain ⟨rfl, -⟩ := cut_eq_some.mp hcut
    rw [decodeUnless_of_mem (by simp), hcut] at hm
    obtain ⟨rfl, rfl⟩ := Prod.mk.inj (Option.some.inj hm)
    rw [unescape_eq_self_iff (by decide) hmethod, unescape_eq_self_iff (by decide) hpassword]
    simp
  · have hmem : ':' ∈ Mihomo.decodeUnless ':' userInfo := by
      rw [(cut_eq_some.mp hm).1]
      simp
    have hdecoded' := decodeBase64_of_mem hnot hmem
    have hpercent : '%' ∉ userInfo := not_mem_of_decodeBase64 hdecoded' (by decide) (by decide)
    obtain rfl := unescape_of_not_mem (by decide) husername hpercent
    rw [← decoders_agree hdecoded hdecoded', hcut] at hm
    obtain ⟨rfl, rfl⟩ := Prod.mk.inj (Option.some.inj hm)
    exact ⟨fun _ => hpercent, fun _ => ⟨rfl, rfl⟩⟩

/-- An `@` behind the address makes mihomo take the address for a part of the password or of the cipher. -/
theorem credentials_differ {userInfo rest method password method' password' : Text}
    (hx : Credentials userInfo method password) (hcipher : toLower method ∈ Xray.ssCiphers)
    (hm : cut ':' (Mihomo.decodeUnless ':' (userInfo ++ '@' :: rest)) = some (method', password')) :
    ¬ (method' = method ∧ password' = password) := by
  rintro ⟨rfl, rfl⟩
  by_cases hcolon : ':' ∈ userInfo ++ '@' :: rest
  · rw [decodeUnless_of_mem hcolon] at hm
    obtain ⟨a, b, hcut, hmethod, hpassword⟩ | ⟨hnot, -⟩ := hx
    · obtain ⟨rfl, ha⟩ := cut_eq_some.mp hcut
      have hlonger : cut ':' (a ++ ':' :: b ++ '@' :: rest) = some (a, b ++ '@' :: rest) :=
        cut_eq_some.mpr ⟨by simp, ha⟩
      rw [hlonger] at hm
      obtain ⟨-, rfl⟩ := Prod.mk.inj (Option.some.inj hm)
      have hle := length_unescape_le hpassword
      simp only [List.length_append, List.length_cons] at hle
      omega
    · have hat : ∀ s ∈ Xray.ssCiphers, '@' ∉ s := by decide
      have hclean : '@' ∉ method' := fun hmem => hat _ hcipher (mem_toLower (by decide) (by decide) hmem)
      obtain ⟨heq, -⟩ := cut_eq_some.mp hm
      obtain ⟨mid, hmethod, hrest⟩ | ⟨mid, huser, hrest⟩ := List.append_eq_append_iff.mp heq
      · cases mid with
        | nil => exact absurd (List.cons.inj hrest).1 (by decide)
        | cons c mid =>
            rw [hmethod, (List.cons.inj hrest).1] at hclean
            simp at hclean
      · cases mid with
        | nil => exact absurd (List.cons.inj hrest).1 (by decide)
        | cons c mid =>
            rw [huser, ← (List.cons.inj hrest).1] at hnot
            simp at hnot
  · have hmem : ':' ∈ Mihomo.decodeUnless ':' (userInfo ++ '@' :: rest) := by
      rw [(cut_eq_some.mp hm).1]
      simp
    refine absurd ?_ (not_mem_of_decodeBase64 (decodeBase64_of_mem hcolon hmem) (c := '@') (by decide) (by decide))
    simp

/-- The form with the address written out: mihomo takes it as it stands behind a lower-case scheme. -/
theorem ss_plain_alike_iff (hw : Written text u authority path) (hscheme : u.scheme = "ss".toList)
    (hlink : link = name ++ "://".toList ++ text) (hname : toLower name = "ss".toList) (hat : '@' ∈ bodyOf text)
    (hx : Xray.outboundFromSS net u tag = .ok built) {label : Text} (hm : Mihomo.ssProxy link label = .ok p) :
    serverOfProxy p = some (serverOfOutbound built.1) ↔
      "ss://".toList <+: link ∧ '/' ∉ bodyOf text ∧ '%' ∉ bodyOf text := by
  obtain ⟨method, password, host, portText, port, hread, hport, hpassword, hcipher, hserver, -⟩ :=
    outboundFromSS_ok hx
  obtain ⟨userInfo', hostPort', method', password', host', portText', port', hcut, hcut', hsplit', hport', hserver'⟩ :=
    ssProxy_ok hm
  obtain ⟨userInfo, hostPort, rfl, hnot, hhost, hne, rfl, rfl, hcreds⟩ := ssRead_plain hw hscheme hat hread hpassword
  have halike : serverOfProxy p = some (serverOfOutbound built.1) ↔
      host' = u.hostname ∧ port' = port ∧ method' = method ∧ password' = password := by
    rw [hserver, hserver', Option.some_inj, Server.mk.injEq, Identity.shadowsocks.injEq]
    simp
  rw [halike]
  obtain ⟨hliteral, hbody⟩ | ⟨hliteral, hbody⟩ := ssBody_eq hlink hname
  · rw [hbody, decodeUnless_of_mem hat, hw.body] at hcut
    obtain rfl | hslash := hw.pathHead
    · -- nothing behind the address
      rw [List.append_nil] at hcut
      rw [cutLast_eq_some.mpr ⟨rfl, hnot⟩] at hcut
      obtain ⟨rfl, rfl⟩ := Prod.mk.inj (Option.some.inj hcut)
      obtain ⟨hsamePort, hsame, hlonger⟩ := hostPort_agree hhost hne hsplit'
      have hports : port' = port := by
        have hurl : atoi u.port = some port' := by
          rw [URL.port, hsamePort]
          exact hport'
        exact Option.some.inj (hurl.symm.trans (atoi_of_portOf hport))
      have hhosts : host' = u.hostname ↔ '%' ∉ hostPort := by
        refine ⟨fun heq hmem => ?_, fun hmem => (hsame hmem).symm⟩
        have hlt := hlonger hmem
        rw [heq] at hlt
        exact Nat.lt_irrefl _ hlt
      have hnoslash := hw.slash
      rw [credentials_alike_iff hcreds hcut', hhosts, hw.body, List.append_nil]
      simp only [hports, hliteral, hnoslash, not_false_eq_true, true_and, List.mem_append, List.mem_cons, not_or]
      constructor
      · rintro ⟨hpercent, hpercent'⟩
        exact ⟨hpercent', by decide, hpercent⟩
      · rintro ⟨hpercent', -, hpercent⟩
        exact ⟨hpercent, hpercent'⟩
    · -- a path behind the address
      have hmem : '/' ∈ bodyOf text := by
        rw [hw.body]
        exact List.mem_append_right _ (List.mem_of_mem_head? hslash)
      refine ⟨fun hall => ?_, fun hall => absurd hmem hall.2.1⟩
      exfalso
      by_cases hat' : '@' ∈ path
      · obtain ⟨mid, rest, rfl, hrest⟩ := exists_last hat'
        have hcut'' : cutLast '@' (userInfo ++ '@' :: hostPort ++ (mid ++ '@' :: rest)) =
            some (userInfo ++ '@' :: (hostPort ++ mid), rest) := cutLast_eq_some.mpr ⟨by simp, hrest⟩
        rw [hcut''] at hcut
        obtain ⟨rfl, -⟩ := Prod.mk.inj (Option.some.inj hcut)
        exact credentials_differ hcreds hcipher hcut' hall.2.2
      · have hcut'' : cutLast '@' (userInfo ++ '@' :: hostPort ++ path) = some (userInfo, hostPort ++ path) := by
          refine cutLast_eq_some.mpr ⟨by simp, fun hmem' => ?_⟩
          exact (List.mem_append.mp hmem').elim hnot hat'
        rw [hcut''] at hcut
        obtain ⟨-, rfl⟩ := Prod.mk.inj (Option.some.inj hcut)
        have hlt := length_hostname_lt hhost hne hslash hsplit' hport'
        rw [hall.1] at hlt
        exact Nat.lt_irrefl _ hlt
  · -- the scheme is taken for the cipher
    refine ⟨fun hall => ?_, fun hall => absurd hall.1 hliteral⟩
    exfalso
    have hatBody : '@' ∈ Mihomo.ssBody link := by
      rw [hbody]
      exact List.mem_append_right _ hat
    obtain ⟨before, after, hsplitBody, hafter⟩ := exists_last hat
    have hcut'' : cutLast '@' (Mihomo.ssBody link) = some (name ++ "://".toList ++ before, after) :=
      cutLast_eq_some.mpr ⟨by rw [hbody, hsplitBody]; simp, hafter⟩
    rw [decodeUnless_of_mem hatBody, hcut''] at hcut
    obtain ⟨rfl, -⟩ := Prod.mk.inj (Option.some.inj hcut)
    have hcolon : ':' ∉ name := not_mem_of_toLower hname (by decide) (by decide) (by decide)
    have hcut3 : cut ':' (name ++ "://".toList ++ before) = some (name, "//".toList ++ before) :=
      cut_eq_some.mpr ⟨by simp, hcolon⟩
    rw [decodeUnless_of_mem (by simp), hcut3] at hcut'
    obtain ⟨rfl, -⟩ := Prod.mk.inj (Option.some.inj hcut')
    rw [← hall.2.2.1, hname] at hcipher
    exact absurd hcipher (by decide)

end

/-! ### Both engines -/

/-- A link of a protocol both engines speak. -/
def IsShareLink (link : Text) : Prop :=
  Mihomo.hasScheme "vless" link = true ∨ Mihomo.hasScheme "trojan" link = true ∨ Mihomo.hasScheme "ss" link = true ∨
    Vmess.isLink link = true

/-- What a link must be like for both engines to read one server from it: a vless link names its transport as mihomo
does and gives REALITY a public key, and an ss link with its address written out stands behind a lower-case scheme and
has neither a path nor an escape. -/
structure ReadsAlike (link : Text) : Prop where
  vless : Mihomo.hasScheme "vless" link = true → ∀ u, Url.parse link = some u →
    Mihomo.wordOf u.query "type" ∉ vlessAliases ∧
      (Mihomo.wordOf u.query "security" = "reality".toList → Mihomo.paramOf u.query "pbk" ≠ [])
  ss : Mihomo.hasScheme "ss" link = true → '@' ∈ bodyOf (link.drop 5) →
    "ss://".toList <+: link ∧ '/' ∉ bodyOf (link.drop 5) ∧ '%' ∉ bodyOf (link.drop 5)

theorem not_hasScheme_of_isLink (h : Vmess.isLink link = true) {scheme : String} (hscheme : scheme ∈ otherSchemes) :
    Mihomo.hasScheme scheme link = false := by
  by_contra hscheme'
  rw [not_isLink hscheme (Bool.not_eq_false _ ▸ hscheme')] at h
  cases h

theorem not_hasScheme {a b : String} (ha : Mihomo.hasScheme a link = true)
    (hne : ¬ (a ++ "://").toList <+: (b ++ "://").toList ∧ ¬ (b ++ "://").toList <+: (a ++ "://").toList) :
    Mihomo.hasScheme b link = false := by
  by_contra hb
  exact (hasScheme_comparable ha (Bool.not_eq_false _ ▸ hb)).elim hne.1 hne.2

/-- Both engines read the same server from a link they both accept, exactly from the links that read alike. -/
theorem engines_read_alike_iff (net : Xray.Net) (hnet : ∀ host, Xray.preResolveIPv4 net host = host)
    (link tag name : Text) (hlink : IsShareLink link) (built : Xray.Built) (p : Mihomo.Proxy)
    (hx : Xray.outboundFromLink net link tag = .ok built) (hm : Mihomo.proxyFromLink link name = .ok p) :
    serverOfProxy p = some (serverOfOutbound built.1) ↔ ReadsAlike link := by
  unfold Mihomo.proxyFromLink at hm
  obtain hvless | htrojan | hss | hvmess := hlink
  · obtain ⟨-, -, u, -, -, -, -, hparse, hscheme, -, hx⟩ := outboundFromLink_ok (by decide) hvless hx
    have hnotss := not_hasScheme hvless (by decide : ¬ ("vless" ++ "://").toList <+: ("ss" ++ "://").toList ∧ _)
    rw [if_pos hvless] at hm
    rw [if_pos hscheme] at hx
    rw [vless_alike_iff hnet hparse hx hm]
    refine ⟨fun halike => ⟨fun _ u' hparse' => ?_, fun hss => ?_⟩, fun halike => halike.vless hvless u hparse⟩
    · rw [hparse] at hparse'
      obtain rfl := Option.some.inj hparse'
      exact halike
    · rw [hnotss] at hss
      cases hss
  · obtain ⟨-, -, u, -, -, -, -, hparse, hscheme, -, hx⟩ := outboundFromLink_ok (by decide) htrojan hx
    have hnotss := not_hasScheme htrojan (by decide : ¬ ("trojan" ++ "://").toList <+: ("ss" ++ "://").toList ∧ _)
    have hnotvless :=
      not_hasScheme htrojan (by decide : ¬ ("trojan" ++ "://").toList <+: ("vless" ++ "://").toList ∧ _)
    rw [hnotvless, hnotss, if_neg Bool.false_ne_true, if_neg Bool.false_ne_true, if_pos htrojan] at hm
    rw [hscheme, if_neg (by decide), if_neg (by decide), if_pos rfl] at hx
    refine ⟨fun _ => ⟨fun hvless => ?_, fun hss => ?_⟩, fun _ => trojan_alike hnet hparse hx hm⟩
    · rw [hnotvless] at hvless
      cases hvless
    · rw [hnotss] at hss
      cases hss
  · obtain ⟨spelling, text, u, authority, path, htext, hspelling, hparse, hscheme, hwritten, hx⟩ :=
      outboundFromLink_ok (by decide) hss hx
    have hnotvless := not_hasScheme hss (by decide : ¬ ("ss" ++ "://").toList <+: ("vless" ++ "://").toList ∧ _)
    have hlen : spelling.length = 2 := by
      have hlength := congrArg List.length hspelling
      rw [toLower, List.length_map] at hlength
      exact hlength
    have hdrop : link.drop 5 = text := by
      rw [htext]
      exact List.drop_left' (by rw [List.length_append, hlen]; rfl)
    rw [hnotvless, if_neg Bool.false_ne_true, if_pos hss] at hm
    rw [hscheme, if_neg (by decide), if_pos rfl] at hx
    have hreads : ReadsAlike link ↔ ('@' ∈ bodyOf text →
        "ss://".toList <+: link ∧ '/' ∉ bodyOf text ∧ '%' ∉ bodyOf text) := by
      rw [← hdrop]
      refine ⟨fun halike => halike.ss hss, fun halike => ⟨fun hvless => ?_, fun _ => halike⟩⟩
      rw [hnotvless] at hvless
      cases hvless
    rw [hreads]
    by_cases hat : '@' ∈ bodyOf text
    · rw [ss_plain_alike_iff hwritten hscheme htext hspelling hat hx hm]
      exact ⟨fun halike _ => halike, fun halike => halike hat⟩
    · exact ⟨fun _ hmem => absurd hmem hat, fun _ => ss_legacy_alike hwritten hscheme htext hspelling hat hx hm⟩
  · have hnot : ∀ scheme ∈ otherSchemes, Mihomo.hasScheme scheme link = false :=
      fun scheme hscheme => not_hasScheme_of_isLink hvmess hscheme
    unfold Xray.outboundFromLink at hx
    rw [if_pos hvmess] at hx
    rw [hnot "vless" (by decide), hnot "ss" (by decide), hnot "trojan" (by decide), hnot "hysteria2" (by decide),
      hnot "hy2" (by decide), hnot "tuic" (by decide), hnot "anytls" (by decide), if_neg Bool.false_ne_true,
      if_neg Bool.false_ne_true, if_neg Bool.false_ne_true, if_neg (by simp), if_neg Bool.false_ne_true,
      if_neg Bool.false_ne_true, if_pos hvmess] at hm
    refine ⟨fun _ => ⟨fun hvless => ?_, fun hss => ?_⟩, fun _ => vmess_alike hnet hx hm⟩
    · rw [hnot "vless" (by decide)] at hvless
      cases hvless
    · rw [hnot "ss" (by decide)] at hss
      cases hss

def trojanLink : Text := "trojan://secret@vpn.example:443?type=ws&path=%2Fws".toList

theorem preResolveIPv4_publicNet (host : Text) : Xray.preResolveIPv4 Xray.publicNet host = host := by
  unfold Xray.preResolveIPv4
  split <;> rfl

theorem engines_read_alike_iff_trojan :
    ∃ built p, Xray.outboundFromLink Xray.publicNet trojanLink [] = .ok built ∧
      Mihomo.proxyFromLink trojanLink [] = .ok p ∧
      (serverOfProxy p = some (serverOfOutbound built.1) ↔ ReadsAlike trojanLink) := by
  cases hx : Xray.outboundFromLink Xray.publicNet trojanLink [] with
  | error e =>
      have hok : (Xray.outboundFromLink Xray.publicNet trojanLink []).isOk = true := by decide +kernel
      rw [hx] at hok
      cases hok
  | ok built =>
      cases hm : Mihomo.proxyFromLink trojanLink [] with
      | error e =>
          have hok : (Mihomo.proxyFromLink trojanLink []).isOk = true := by decide +kernel
          rw [hm] at hok
          cases hok
      | ok p =>
          exact ⟨built, p, rfl, rfl, engines_read_alike_iff Xray.publicNet preResolveIPv4_publicNet trojanLink [] []
            (.inr (.inl (by decide +kernel))) built p hx hm⟩

/-- The servers the engines read, where both accept the link. -/
def serversOf (link : Text) : Option (Option Server × Server) :=
  match Mihomo.proxyFromLink link [], Xray.outboundFromLink Xray.publicNet link [] with
  | .ok p, .ok built => some (serverOfProxy p, serverOfOutbound built.1)
  | _, _ => none

/-- A password with an escape, an upper-case scheme, an alias of a transport and REALITY without a key: mihomo dials
another server with other credentials, or in another way. -/
theorem engines_differ :
    (∀ host, Xray.preResolveIPv4 Xray.publicNet host = host) ∧
      serversOf "ss://aes-128-gcm:p%40ss@vpn.example:443".toList =
        some (some ⟨"vpn.example".toList, 443, .shadowsocks "aes-128-gcm".toList "p%40ss".toList, .tcp, .none⟩,
          ⟨"vpn.example".toList, 443, .shadowsocks "aes-128-gcm".toList "p@ss".toList, .tcp, .none⟩) ∧
      serversOf "SS://aes-128-gcm:pass@vpn.example:443".toList =
        some (some ⟨"vpn.example".toList, 443, .shadowsocks "SS".toList "//aes-128-gcm:pass".toList, .tcp, .none⟩,
          ⟨"vpn.example".toList, 443, .shadowsocks "aes-128-gcm".toList "pass".toList, .tcp, .none⟩) ∧
      serversOf "vless://id@vpn.example:443?type=websocket&security=tls".toList =
        some (some ⟨"vpn.example".toList, 443, .vless "id".toList, .tcp, .tls⟩,
          ⟨"vpn.example".toList, 443, .vless "id".toList, .websocket, .tls⟩) ∧
      serversOf "vless://id@vpn.example:443?security=reality".toList =
        some (some ⟨"vpn.example".toList, 443, .vless "id".toList, .tcp, .tls⟩,
          ⟨"vpn.example".toList, 443, .vless "id".toList, .tcp, .reality⟩) := by
  refine ⟨preResolveIPv4_publicNet, ?_, ?_, ?_, ?_⟩
  all_goals decide +kernel

end GlitchCore.Links
