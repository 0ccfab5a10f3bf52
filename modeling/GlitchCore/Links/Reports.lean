import GlitchCore.Links.SameServer
import GlitchCore.Links.ServerInfo

/-!
# What is reported of a link

`FromLink` trims a link and reads it once more. It takes a configuration's header anywhere in a link for AmneziaWG,
and of any other link but vmess what a URL says, where the builders have readers of their own.
-/

namespace GlitchCore.ServerInfo

open GoText Encoding Links Url

/-- The entry of a link names this family, host and port. -/
def Reports (link : Text) (idx : Nat) (protocol host : Text) (port : Int) : Prop :=
  (fromLink link idx).protocol = protocol ∧ (fromLink link idx).host = host ∧ (fromLink link idx).port = port

instance (link : Text) (idx : Nat) (protocol host : Text) (port : Int) : Decidable (Reports link idx protocol host port) :=
  inferInstanceAs (Decidable (_ ∧ _ ∧ _))

def interfaceHeader : Text := "[Interface]".toList

/-- The header of a configuration stands somewhere in the link. -/
def HasHeader (link : Text) : Prop := contains link interfaceHeader = true

instance (link : Text) : Decidable (HasHeader link) := inferInstanceAs (Decidable (_ = _))

variable {link name text : Text} {idx : Nat} {u v : URL}

/-! ### The choice of a reader -/

theorem trimSpace_trimSpace (s : Text) : trimSpace (trimSpace s) = trimSpace s := trim_eq_self.mpr (edges_trim ..)

theorem contains_trimSpace (link : Text) : contains (trimSpace link) interfaceHeader = contains link interfaceHeader := by
  have hedges : Edges isSpace interfaceHeader := edges_of_forall (List.forall_iff_forall_mem.mp (by decide))
  exact decide_eq_decide.mpr (infix_trim_iff (by decide) hedges)

theorem isLink_trimSpace (link : Text) : Vmess.isLink (trimSpace link) = Vmess.isLink link := by
  rw [Vmess.isLink, Vmess.isLink, trimSpace_trimSpace]

theorem parse_trimSpace_vmess (link : Text) : Vmess.parse (trimSpace link) = Vmess.parse link := by
  rw [Vmess.parse, Vmess.parse, trimSpace_trimSpace]

theorem isAwg_of_hasHeader (h : HasHeader link) : isAwg (trimSpace link) = true := by
  rw [isAwg, Bool.or_eq_true]
  exact .inr ((contains_trimSpace link).trans h)

theorem fromLink_awg (h : isAwg (trimSpace link) = true) : fromLink link idx = fromAwg (trimSpace link) idx := if_pos h

theorem fromLink_vmess (hawg : isAwg (trimSpace link) = false) (h : Vmess.isLink link = true) :
    fromLink link idx = fromVmess (trimSpace link) idx := by
  rw [← isLink_trimSpace] at h
  rw [fromLink, if_neg (by rw [hawg]; exact Bool.false_ne_true), if_pos h]

theorem fromLink_url (hawg : isAwg (trimSpace link) = false) (hvmess : Vmess.isLink link = false)
    (hparse : Url.parse (trimSpace link) = some v) : fromLink link idx = fromURL (trimSpace link) v idx := by
  rw [← isLink_trimSpace] at hvmess
  rw [fromLink, if_neg (by rw [hawg]; exact Bool.false_ne_true), if_neg (by rw [hvmess]; exact Bool.false_ne_true),
    hparse]

theorem contains_of_not_hasHeader (h : ¬ HasHeader link) : contains (trimSpace link) "[Interface]".toList = false := by
  rw [← Bool.not_eq_true]
  exact (contains_trimSpace link).symm ▸ h

theorem isAwg_of_hasScheme {scheme : String} (hscheme : scheme ∈ otherSchemes)
    (h : Mihomo.hasScheme scheme link = true) (hheader : ¬ HasHeader link) : isAwg (trimSpace link) = false := by
  rw [isAwg, Bool.or_eq_false_iff]
  constructor
  · rw [← Bool.not_eq_true, List.isPrefixOf_iff_prefix]
    exact not_prefix_of_hasScheme hscheme (by decide) h
  · exact contains_of_not_hasHeader hheader

/-! ### Ports -/

theorem isSpace_of_atoi {s : Text} {n : Int} (h : atoi s = some n) : ∀ c ∈ s, isSpace c = false := by
  intro c hc
  obtain hdigit | rfl | rfl := rune_of_atoi h c hc
  · have := toNat_of_isDigit hdigit
    exact isSpace_of_toNat ⟨by omega, by omega⟩
  · decide
  · decide

theorem ne_nil_of_atoi {s : Text} {n : Int} (h : atoi s = some n) : s ≠ [] := by
  rintro rfl
  cases h

theorem range_of_portOf {s : Text} {port : Nat} (h : HostPort.portOf s = some port) :
    (0 : Int) ≤ port ∧ (port : Int) ≤ 65535 := by
  obtain ⟨n, hn, rfl⟩ := Option.map_eq_some_iff.mp h
  have hn' := of_decide_eq_true (Option.filter_eq_some_iff.mp hn).2
  omega

theorem portOf_eq {protocol s : Text} {n : Int} (h : atoi s = some n) (hrange : 0 ≤ n ∧ n ≤ 65535) :
    portOf protocol s = n := by
  unfold portOf
  rw [h]
  by_cases hpos : 0 < n ∧ n ≤ 65535
  · rw [Option.filter_some, if_pos (decide_eq_true hpos)]
  · rw [Option.filter_some, if_neg (by rw [decide_eq_true_iff]; exact hpos)]
    dsimp only
    rw [if_neg fun hboth => ne_nil_of_atoi h hboth.1]
    omega

/-! ### Links with an address of their own -/

/-- What stands behind the scheme of a link. -/
def afterScheme (link : Text) : Text := ((cutText "://".toList link).map (·.2)).getD []

theorem afterScheme_link (hname : ':' ∉ name) (text : Text) : afterScheme (name ++ "://".toList ++ text) = text := by
  have hcut : cutText "://".toList (name ++ "://".toList ++ text) = some (name, text) := cutText_of_not_mem hname "//".toList text
  rw [afterScheme, hcut]
  rfl

theorem hasScheme_link {scheme : String} (hname : toLower name = scheme.toList) (text : Text) :
    Mihomo.hasScheme scheme (name ++ "://".toList ++ text) = true := by
  rw [Mihomo.hasScheme, List.isPrefixOf_iff_prefix, String.toList_append, toLower, List.map_append, List.map_append]
  have hslashes : ("://".toList).map toLowerRune = "://".toList := by decide
  rw [hslashes]
  exact hname ▸ List.prefix_append _ _

section Scheme

variable {scheme : String} (hscheme : scheme ∈ otherSchemes)

include hscheme

theorem not_mem_name (hname : toLower name = scheme.toList) : ∀ c ∈ "/:#?".toList, c ∉ name := by
  have hplain : ∀ s ∈ otherSchemes, '/' ∉ s.toList ∧ ':' ∉ s.toList ∧ '#' ∉ s.toList ∧ '?' ∉ s.toList := by decide
  obtain ⟨hslash, hcolon, hhash, hquery⟩ := hplain scheme hscheme
  exact List.forall_iff_forall_mem.mp
    ⟨not_mem_of_toLower hname (by decide) (by decide) hslash, not_mem_of_toLower hname (by decide) (by decide) hcolon,
      not_mem_of_toLower hname (by decide) (by decide) hhash, not_mem_of_toLower hname (by decide) (by decide) hquery⟩

/-- A link with one of these schemes that is a URL. -/
theorem authority_of_hasScheme (hname : toLower name = scheme.toList)
    (hparse : Url.parse (name ++ "://".toList ++ text) = some u) :
    u.scheme = scheme.toList ∧ parseAuthority (authorityOf text) = some (u.user, u.host) := by
  have hne : name ≠ [] := by
    rintro rfl
    have hall : ∀ s ∈ otherSchemes, s.toList ≠ [] := by decide
    exact hall scheme hscheme hname.symm
  rw [← hname]
  exact authority_of_parse hparse hne (not_mem_name hscheme hname)

/-- A URL is reported as it is. -/
theorem reports_parsed (hbare : trimSpace link = link) (hss : scheme ≠ "ss") (h : Mihomo.hasScheme scheme link = true)
    (hparse : Url.parse link = some u) (hheader : ¬ HasHeader link) :
    Reports link idx (familyOf scheme.toList) u.hostname (portOf (familyOf scheme.toList) u.port) := by
  obtain ⟨name, text, hlink, hname⟩ := exists_of_hasScheme h
  have hu := (authority_of_hasScheme hscheme hname (hlink ▸ hparse)).1
  have hlower : ∀ s ∈ otherSchemes, toLower s.toList = s.toList ∧ (s ≠ "ss" → familyOf s.toList ≠ "ss".toList) := by decide
  obtain ⟨hlower, hnot⟩ := hlower scheme hscheme
  rw [Reports, fromLink_url (isAwg_of_hasScheme hscheme h hheader) (not_isLink hscheme h) (hbare.symm ▸ hparse)]
  unfold fromURL
  rw [hu, hlower]
  dsimp only
  rw [if_neg fun hboth => hnot hss hboth.1]
  exact ⟨rfl, rfl, rfl⟩

/-- A URL that names a port is reported with its host and the port, where a socket could have it. -/
theorem reports_named (hbare : trimSpace link = link) (hss : scheme ≠ "ss") (h : Mihomo.hasScheme scheme link = true)
    (hparse : Url.parse link = some u) (hheader : ¬ HasHeader link) {port : Int} (hport : atoi u.port = some port)
    (hrange : 0 ≤ port ∧ port ≤ 65535) : Reports link idx (familyOf scheme.toList) u.hostname port := by
  have hreports : Reports link idx _ _ _ := reports_parsed hscheme hbare hss h hparse hheader
  rwa [portOf_eq hport hrange] at hreports

end Scheme

/-! ### VMess -/

theorem reports_vmess (h : Vmess.isLink link = true) {l : Vmess.Link} {errors : List Vmess.LinkError}
    (hparse : Vmess.parse link = (l, errors)) (hheader : ¬ HasHeader link) :
    Reports link idx "vmess".toList l.host l.port := by
  have hawg : isAwg (trimSpace link) = false := by
    rw [isAwg, Bool.or_eq_false_iff]
    constructor
    · rw [← Bool.not_eq_true, List.isPrefixOf_iff_prefix]
      intro hprefix
      have hboth := List.prefix_or_prefix_of_prefix hprefix (List.isPrefixOf_iff_prefix.mp h)
      exact absurd hboth (by decide)
    · exact contains_of_not_hasHeader hheader
  rw [Reports, fromLink_vmess hawg h, fromVmess, parse_trimSpace_vmess, hparse]
  exact ⟨rfl, rfl, rfl⟩

end GlitchCore.ServerInfo
