import GlitchCore.Links.Reports

/-!
# What is reported of a hysteria2 link

The builder reads the ports of a hysteria2 link from its text, where a URL has one port or none, and parses the link with
the first of them. The report is what the URL says; where the link names exactly one port the two parse one text.
-/

namespace GlitchCore.ServerInfo

open GoText Encoding Links Url

variable {link name text : Text} {idx : Nat} {u v : URL}

/-- The user and the address of an authority. -/
def userAndAddress (authority : Text) : Text × Text := (cutLast '@' authority).getD ([], authority)

/-- The host and the ports of a hysteria2 link, as the builder cuts them. -/
def hy2Address (link : Text) : Text × Text :=
  Mihomo.hy2SplitHostPort (userAndAddress (authorityOf (afterScheme link))).2

/-- One port, no colon in a host without brackets and no empty user. -/
structure NamesOnePort (link : Text) : Prop where
  named : (hy2Address link).2 ≠ []
  digits : Digits (hy2Address link).2
  host : ':' ∈ (hy2Address link).1 → (hy2Address link).1.head? = some '['
  user : (authorityOf (afterScheme link)).head? ≠ some '@'

/-! ### The parts of the link -/

theorem userAndAddress_cases (authority : Text) :
    (authority = (userAndAddress authority).2 ∧ (userAndAddress authority).1 = []) ∨
      authority = (userAndAddress authority).1 ++ '@' :: (userAndAddress authority).2 := by
  unfold userAndAddress
  cases hcut : cutLast '@' authority with
  | none => exact .inl ⟨rfl, rfl⟩
  | some part => exact .inr (cutLast_eq_some.mp hcut).1

theorem parseHost_of_parseAuthority {authority host : Text} {user : Option Userinfo}
    (h : parseAuthority authority = some (user, host)) : parseHost (userAndAddress authority).2 = some host := by
  unfold parseAuthority at h
  unfold userAndAddress
  cases hcut : cutLast '@' authority with
  | none =>
      rw [hcut] at h
      obtain ⟨host', hhost, h⟩ := Option.bind_eq_some_iff.mp h
      obtain ⟨-, rfl⟩ := Prod.mk.inj (Option.some.inj h)
      exact hhost
  | some part =>
      rw [hcut] at h
      obtain ⟨host', hhost, h⟩ := Option.bind_eq_some_iff.mp h
      obtain ⟨user', -, h⟩ := Option.bind_eq_some_iff.mp h
      obtain ⟨-, rfl⟩ := Prod.mk.inj (Option.some.inj h)
      exact hhost

theorem upTo_stops (text : Text) : Mihomo.upTo "?#/".toList text = authorityOf text := by
  rw [authorityOf_eq, Mihomo.upTo]
  congr 1
  funext c
  have hsame : ['?', '#', '/'].contains c = isStop c := by
    rw [List.contains_cons, List.contains_cons, List.contains_cons, List.contains_nil, Bool.or_false, ← Bool.or_assoc,
      Bool.or_comm, ← Bool.or_assoc]
    rfl
  rw [show "?#/".toList = ['?', '#', '/'] from by decide, hsame]

theorem hy2SplitHostPort_cases (address : Text) :
    Mihomo.hy2SplitHostPort address = (address, []) ∨
      address = (Mihomo.hy2SplitHostPort address).1 ++ ':' :: (Mihomo.hy2SplitHostPort address).2 := by
  unfold Mihomo.hy2SplitHostPort
  split
  · cases hcut : cutText "]:".toList address with
    | none => exact .inl rfl
    | some part =>
        refine .inr ?_
        conv_lhs => rw [eq_of_cutText hcut]
        simp
  · cases hcut : cutLast ':' address with
    | none => exact .inl rfl
    | some part => exact .inr (cutLast_eq_some.mp hcut).1

/-- The host in brackets where it needs them. -/
def bracketed (host : Text) : Text :=
  if ':' ∈ host ∧ host.head? ≠ some '[' then "[".toList ++ host ++ "]".toList else host

def firstPort (portSpec : Text) : Text :=
  if Mihomo.firstOf portSpec = [] then Mihomo.defaultPort else Mihomo.firstOf portSpec

theorem bracketed_eq {host : Text} (h : ':' ∈ host → host.head? = some '[') : bracketed host = host :=
  if_neg fun hboth => hboth.2 (h hboth.1)

/-- The authority with one port. -/
def oneAddress (address : Text × Text) : Text := bracketed address.1 ++ ':' :: firstPort address.2

def oneAuthority (authority : Text) : Text :=
  let part := userAndAddress authority
  (if part.1 ≠ [] then part.1 ++ "@".toList else []) ++ oneAddress (Mihomo.hy2SplitHostPort part.2)

theorem normalizeHy2Link_ok (hname : ':' ∉ name) {normalized portSpec : Text}
    (h : Mihomo.normalizeHy2Link (name ++ "://".toList ++ text) = .ok (normalized, portSpec)) :
    portSpec = (hy2Address (name ++ "://".toList ++ text)).2 ∧
      normalized = name ++ "://".toList ++ (oneAuthority (authorityOf text) ++ text.drop (authorityOf text).length) := by
  have hcut : cutText "://".toList (name ++ "://".toList ++ text) = some (name, text) :=
    cutText_of_not_mem hname "//".toList text
  unfold Mihomo.normalizeHy2Link at h
  rw [hcut] at h
  dsimp only at h
  rw [upTo_stops] at h
  split at h
  · cases h
  · obtain ⟨rfl, rfl⟩ := Prod.mk.inj (Except.ok.inj h)
    rw [hy2Address, afterScheme_link hname]
    refine ⟨rfl, ?_⟩
    simp only [oneAuthority, oneAddress, userAndAddress, bracketed, firstPort, List.append_assoc]
    rfl

theorem hysteria2Proxy_ok {label : Text} {p : Mihomo.Proxy} (hok : Mihomo.hysteria2Proxy link label = .ok p) :
    ∃ normalized portSpec u ports, Mihomo.normalizeHy2Link link = .ok (normalized, portSpec) ∧
      Url.parse normalized = some u ∧ Mihomo.hy2Ports portSpec = .ok (p.port, ports) ∧
      p.type = .hysteria2 ∧ p.server = u.hostname := by
  unfold Mihomo.hysteria2Proxy at hok
  split at hok
  · cases hok
  rename_i normalized portSpec hnormalized
  split at hok
  · cases hok
  rename_i u hparse
  split at hok
  · cases hok
  split at hok
  · cases hok
  rename_i port ports hports
  obtain rfl := Except.ok.inj hok
  exact ⟨normalized, portSpec, u, ports, hnormalized, hparse, hports, rfl, rfl⟩

/-! ### Ports -/

theorem firstOf_eq_self {portSpec : Text} (h : Digits portSpec) : Mihomo.firstOf portSpec = portSpec := by
  refine List.takeWhile_eq_self_iff.mpr fun c hc => ?_
  have hstops : ∀ d ∈ ",-".toList, d.isDigit = false := List.forall_iff_forall_mem.mp (by decide)
  rw [Bool.not_eq_true', ← Bool.not_eq_true, List.contains_iff_mem]
  intro hmem
  have hdigit := hstops c hmem
  rw [h c hc] at hdigit
  cases hdigit

theorem hy2Ports_ok {portSpec : Text} {port : Int} {ports : Option Text} (h : Mihomo.hy2Ports portSpec = .ok (port, ports)) :
    0 < port ∧ port ≤ 65535 ∧ (trimSpace portSpec = [] ∨ atoi (trimSpace portSpec) = some port ∨
      atoi (Mihomo.firstOf (trimSpace portSpec)) = some port) := by
  unfold Mihomo.hy2Ports at h
  dsimp only at h
  split at h
  · rename_i hnil
    obtain ⟨rfl, -⟩ := Prod.mk.inj (Except.ok.inj h)
    exact ⟨by decide, by decide, .inl hnil⟩
  split at h
  · rename_i n hatoi
    split at h
    · cases h
    obtain ⟨rfl, -⟩ := Prod.mk.inj (Except.ok.inj h)
    exact ⟨by omega, by omega, .inr (.inl hatoi)⟩
  split at h
  · rename_i n hfilter
    obtain ⟨rfl, -⟩ := Prod.mk.inj (Except.ok.inj h)
    obtain ⟨hatoi, hrange⟩ := Option.filter_eq_some_iff.mp hfilter
    obtain ⟨hpos, hle⟩ := of_decide_eq_true hrange
    exact ⟨hpos, hle, .inr (.inr hatoi)⟩
  · cases h

theorem atoi_of_digits {portSpec : Text} {port : Int} {ports : Option Text} (hne : portSpec ≠ []) (hdigits : Digits portSpec)
    (h : Mihomo.hy2Ports portSpec = .ok (port, ports)) : atoi portSpec = some port := by
  have hspace : ∀ c ∈ portSpec, isSpace c = false := by
    intro c hc
    have hrange := toNat_of_isDigit (hdigits c hc)
    exact isSpace_of_toNat ⟨by omega, by omega⟩
  have htrim : trimSpace portSpec = portSpec := trim_eq_self.mpr (edges_of_forall hspace)
  obtain ⟨-, -, hcases⟩ := hy2Ports_ok h
  rw [htrim, firstOf_eq_self hdigits, or_self] at hcases
  exact hcases.resolve_left hne

/-! ### One port -/

theorem address_of_namesOnePort (hname : ':' ∉ name) (hone : NamesOnePort (name ++ "://".toList ++ text)) :
    oneAddress (hy2Address (name ++ "://".toList ++ text)) = (userAndAddress (authorityOf text)).2 ∧
      (userAndAddress (authorityOf text)).2 =
        (hy2Address (name ++ "://".toList ++ text)).1 ++ ':' :: (hy2Address (name ++ "://".toList ++ text)).2 := by
  have haddress : hy2Address (name ++ "://".toList ++ text) =
      Mihomo.hy2SplitHostPort (userAndAddress (authorityOf text)).2 := by
    rw [hy2Address, afterScheme_link hname]
  have hsplit : (userAndAddress (authorityOf text)).2 =
      (hy2Address (name ++ "://".toList ++ text)).1 ++ ':' :: (hy2Address (name ++ "://".toList ++ text)).2 := by
    obtain heq | heq := hy2SplitHostPort_cases (userAndAddress (authorityOf text)).2
    · have hnamed := hone.named
      rw [haddress, heq] at hnamed
      exact absurd rfl hnamed
    · rw [haddress]
      exact heq
  refine ⟨?_, hsplit⟩
  rw [oneAddress, bracketed_eq hone.host, firstPort, firstOf_eq_self hone.digits, if_neg hone.named]
  exact hsplit.symm

/-- The builder parses a link that names one port as it stands. -/
theorem normalized_of_namesOnePort (hname : ':' ∉ name) (hone : NamesOnePort (name ++ "://".toList ++ text)) :
    oneAuthority (authorityOf text) ++ text.drop (authorityOf text).length = text := by
  have haddress := (address_of_namesOnePort hname hone).1
  rw [hy2Address, afterScheme_link hname] at haddress
  have huser := hone.user
  rw [afterScheme_link hname] at huser
  have hsame : oneAuthority (authorityOf text) = authorityOf text := by
    rw [oneAuthority, haddress]
    obtain ⟨heq, hnil⟩ | heq := userAndAddress_cases (authorityOf text)
    · rw [if_neg (not_not.mpr hnil)]
      exact heq.symm
    · rw [if_pos, List.append_assoc]
      · exact heq.symm
      · intro hnil
        rw [heq, hnil] at huser
        exact huser rfl
  rw [hsame, authorityOf_eq]
  exact List.prefix_iff_eq_append.mp (List.takeWhile_prefix _)

/-- A hysteria2 link that names one port is reported as the builder dials it. -/
theorem hysteria2_reports (hbare : trimSpace link = link) {scheme : String} (hscheme : scheme ∈ ["hysteria2", "hy2"])
    (h : Mihomo.hasScheme scheme link = true) {label : Text} {p : Mihomo.Proxy}
    (hok : Mihomo.hysteria2Proxy link label = .ok p) (hheader : ¬ HasHeader link) (hone : NamesOnePort link) :
    Reports link idx "hysteria2".toList p.server p.port := by
  have hfacts : ∀ s ∈ ["hysteria2", "hy2"], s ∈ otherSchemes ∧ s ≠ "ss" ∧ familyOf s.toList = "hysteria2".toList := by decide
  obtain ⟨hother, hss, hfamily⟩ := hfacts scheme hscheme
  obtain ⟨name, text, rfl, hname⟩ := exists_of_hasScheme h
  have hcolon := not_mem_name hother hname ':' (by decide)
  obtain ⟨normalized, portSpec, u, ports, hnormalized, hparse, hports, -, hserver⟩ := hysteria2Proxy_ok hok
  obtain ⟨rfl, rfl⟩ := normalizeHy2Link_ok hcolon hnormalized
  rw [normalized_of_namesOnePort hcolon hone] at hparse
  have hhost := parseHost_of_parseAuthority (authority_of_hasScheme hother hname hparse).2
  rw [(address_of_namesOnePort hcolon hone).2] at hhost
  have hport : u.port = (hy2Address (name ++ "://".toList ++ text)).2 :=
    port_of_parseHost hhost hone.named (hone.digits.not_mem (by decide)) (hone.digits.not_mem (by decide))
  obtain ⟨hpos, hle, -⟩ := hy2Ports_ok hports
  have hatoi : atoi u.port = some p.port := by
    rw [hport]
    exact atoi_of_digits hone.named hone.digits hports
  rw [← hfamily, hserver]
  exact reports_named hother hbare hss h hparse hheader hatoi ⟨by omega, hle⟩

end GlitchCore.ServerInfo
