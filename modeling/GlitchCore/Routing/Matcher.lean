import GlitchCore.Base.NetAddr

/-!
# Matchers

What one line of a rule list means. `classify` gives a matcher its kind and value, `validateMatcher`
refuses those an engine would cut, re-target or drop, and `normalizeCIDR` and `hostBits` give an
address matcher the prefix it is compared by.
-/

namespace GlitchCore

open GoText NetAddr

inductive Target where
  | block
  | direct
  | proxy
  deriving DecidableEq, Repr

inductive MatchKind where
  /-- A domain and its subdomains, also the bare default. -/
  | domainSuffix
  | domainFull
  | domainKeyword
  | domainRegex
  | geoSite
  | geoIP
  | ipCIDR
  | process
  deriving DecidableEq, Repr

def isIPOrCIDR (s : Text) : Bool :=
  if '/' ∈ s then (parseCIDR s).isSome else (parseIP s).isSome

/-- An address is written with address runes only. -/
theorem isAddressRune_of_isIPOrCIDR {s : Text} (h : isIPOrCIDR s = true) : ∀ c ∈ s, isAddressRune c = true := by
  unfold isIPOrCIDR at h
  split at h
  · obtain ⟨net, hnet⟩ := Option.isSome_iff_exists.mp h
    exact parseCIDR_runes hnet
  · obtain ⟨ip, hip⟩ := Option.isSome_iff_exists.mp h
    exact parseIP_runes hip

/-- Strips the dots callers wrap a zone in: the engines match domains on label boundaries. -/
def domainEntry (kind : MatchKind) (val : Text) : Option (MatchKind × Text) :=
  let val := trim (· == '.') val
  if val = [] then none else some (kind, val)

/-- An IP or CIDR first, as the colons of IPv6 are no matcher's head; then the known heads; then a domain. -/
def classify (entry : Text) : Option (MatchKind × Text) :=
  let e := trimSpace entry
  if e = [] then none
  else if isIPOrCIDR e then some (.ipCIDR, e)
  else
    match cut ':' e with
    | some (head@(_ :: _), rest) =>
        let val := trimSpace rest
        if val = [] then none
        else if toLower head = "geoip".toList then some (.geoIP, toLower val)
        else if toLower head = "geosite".toList then some (.geoSite, toLower val)
        else if toLower head = "domain".toList then domainEntry .domainSuffix val
        else if toLower head = "full".toList then domainEntry .domainFull val
        else if toLower head = "keyword".toList then some (.domainKeyword, val)
        else if toLower head = "regexp".toList ∨ toLower head = "regex".toList then some (.domainRegex, val)
        else if toLower head = "process".toList then some (.process, val)
        else domainEntry .domainSuffix e
    | _ => domainEntry .domainSuffix e

/-- The prefix an IP or CIDR stands for. An address net.IP can shorten to four bytes gets `/32`,
whichever family it is written in. -/
def normalizeCIDR (ipOrCIDR : Text) : Text :=
  let s := trimSpace ipOrCIDR
  if '/' ∈ s then s
  else
    match parseIP s with
    | some ip => if ip.to4 then s ++ "/32".toList else s ++ "/128".toList
    | none => s

/-- How many bits of the address the prefix leaves free, 0 for what does not parse. -/
def hostBits (ipOrCIDR : Text) : Nat :=
  match parseCIDR (normalizeCIDR ipOrCIDR) with
  | some net => net.addr.bitLen - net.bits
  | none => 0

/-! ### What validation refuses -/

def validGeoChars (s extra : Text) : Bool :=
  s.all fun r => r.isLower || r.isUpper || r.isDigit || r == '-' || r == '_' || extra.contains r

/-- A geosite code. A leading `!` is an inverse match on one engine and a list name on the other. -/
def validGeoCode (code : Text) : Bool :=
  let code := trimSpace code
  code != [] && code.head? != some '!' && (split '@' code).all fun seg => seg != [] && validGeoChars seg "!".toList

def validGeoIPCode (code : Text) : Bool :=
  let code := trimSpace code
  let code := if code.head? = some '!' then code.tail else code
  code != [] && validGeoChars code []

def parenthesesPairFrom : Nat → Text → Bool
  | depth, [] => depth == 0
  | depth, '(' :: s => parenthesesPairFrom (depth + 1) s
  | 0, ')' :: _ => false
  | depth + 1, ')' :: s => parenthesesPairFrom depth s
  | depth, _ :: s => parenthesesPairFrom depth s

def parenthesesPair (s : Text) : Bool := parenthesesPairFrom 0 s

/-- The heads xray's domain rule parser reads as a matcher type; a bare value starting with one is no
plain keyword. -/
def xrayMatcherPrefixes : List Text :=
  ["regexp:", "domain:", "full:", "keyword:", "dotless:", "geosite:", "ext:", "ext-domain:", "ext-site:"].map
    String.toList

def quoted (s : Text) : Text := "\"".toList ++ s ++ "\"".toList

def validKeyword (val : Text) : Option Text :=
  (xrayMatcherPrefixes.find? fun head => head.isPrefixOf val).map fun head =>
    "a keyword cannot start with ".toList ++ quoted head ++ ", which xray reads as another matcher".toList

def errUnpairedParentheses : Text :=
  "parentheses must pair up, escaped ones included: mihomo reads them when it nests a rule".toList

/-- The error of a matcher, `none` for one that passes. -/
def validateMatcher (m : Text) : Option Text :=
  match classify m with
  | none => none
  | some (kind, val) =>
      match kind with
      | .domainSuffix | .domainFull | .domainKeyword =>
          if ',' ∈ val then some "a domain cannot contain a comma".toList
          else if ¬ parenthesesPair val then some errUnpairedParentheses
          else if kind = .domainKeyword then validKeyword val
          else none
      | .geoSite =>
          if validGeoCode val then none
          else some ("invalid geosite code: ASCII letters, digits, '-', '_', '!' and '@' only, " ++
            "no leading '!'").toList
      | .geoIP =>
          if validGeoIPCode val then none
          else some ("invalid geoip code: ASCII letters, digits, '-' and '_' only, " ++
            "with an optional leading '!'").toList
      | .domainRegex =>
          if contains val " ,".toList ∨ contains val ", ".toList then
            some "a regexp cannot have a space beside a comma".toList
          else if ¬ parenthesesPair val then some errUnpairedParentheses
          else none
      | .ipCIDR | .process => none

/-! ### What classification returns -/

/-- The heads of the matchers that are no domains. -/
def valueHeads : List Text := ["geoip", "geosite", "keyword", "regexp", "regex", "process"].map String.toList

/-- The part of an entry that is read as a domain, dots included; `none` for an address and for a matcher whose
value is no domain. -/
def domainText (entry : Text) : Option Text :=
  let e := trimSpace entry
  if isIPOrCIDR e then none
  else
    match cut ':' e with
    | some (head@(_ :: _), rest) =>
        if toLower head ∈ valueHeads then none
        else if toLower head = "domain".toList ∨ toLower head = "full".toList then some (trimSpace rest)
        else some e
    | _ => some e

/-- How an entry got its kind and value. -/
inductive Classified (entry : Text) : MatchKind → Text → Prop
  | address (hne : trimSpace entry ≠ []) (hip : isIPOrCIDR (trimSpace entry) = true)
      (htext : domainText entry = none) : Classified entry .ipCIDR (trimSpace entry)
  | geo {kind : MatchKind} {rest : Text} (hkind : kind = .geoIP ∨ kind = .geoSite) (hne : trimSpace rest ≠ [])
      (htext : domainText entry = none) : Classified entry kind (toLower (trimSpace rest))
  | text {kind : MatchKind} {rest : Text} (hkind : kind = .domainKeyword ∨ kind = .domainRegex ∨ kind = .process)
      (hne : trimSpace rest ≠ []) (htext : domainText entry = none) : Classified entry kind (trimSpace rest)
  | domain {kind : MatchKind} {t : Text} (hkind : kind = .domainSuffix ∨ kind = .domainFull)
      (htext : domainText entry = some t) (hne : trim (· == '.') t ≠ []) :
      Classified entry kind (trim (· == '.') t)

theorem domainEntry_eq_some {kind k : MatchKind} {val v : Text} (hentry : domainEntry kind val = some (k, v)) :
    k = kind ∧ v = trim (· == '.') val ∧ v ≠ [] := by
  rw [domainEntry] at hentry
  by_cases hnil : trim (· == '.') val = []
  · simp [hnil] at hentry
  · simp only [hnil, if_false, Option.some.injEq, Prod.mk.injEq] at hentry
    exact ⟨hentry.1.symm, hentry.2.symm, hentry.2 ▸ hnil⟩

theorem Classified.of_domainEntry {entry t v : Text} {kind k : MatchKind}
    (hkind : kind = .domainSuffix ∨ kind = .domainFull) (htext : domainText entry = some t)
    (hentry : domainEntry kind t = some (k, v)) : Classified entry k v := by
  obtain ⟨rfl, rfl, hne⟩ := domainEntry_eq_some hentry
  exact .domain hkind htext hne

/-- An entry with a head before its first colon. -/
theorem Classified.of_head {entry head rest v : Text} {k : MatchKind} (hip : isIPOrCIDR (trimSpace entry) = false)
    (hne : trimSpace entry ≠ []) (hcut : cut ':' (trimSpace entry) = some (head, rest)) (hhead : head ≠ [])
    (hclass : classify entry = some (k, v)) : Classified entry k v := by
  obtain ⟨c, head, rfl⟩ := List.exists_cons_of_ne_nil hhead
  simp only [classify, hne, hip, hcut, if_false, Bool.false_eq_true] at hclass
  have htext : domainText entry = if toLower (c :: head) ∈ valueHeads then none
      else if toLower (c :: head) = "domain".toList ∨ toLower (c :: head) = "full".toList then some (trimSpace rest)
      else some (trimSpace entry) := by
    simp only [domainText, hip, hcut, if_false, Bool.false_eq_true]
  generalize toLower (c :: head) = word at hclass htext
  by_cases hval : trimSpace rest = []
  · simp [hval] at hclass
  rw [if_neg hval] at hclass
  have hnone (hword : word ∈ valueHeads) : domainText entry = none := by rw [htext, if_pos hword]
  split at hclass
  next hword =>
    obtain ⟨rfl, rfl⟩ := Prod.mk.inj (Option.some.inj hclass)
    exact .geo (.inl rfl) hval (hnone (by rw [hword]; decide))
  split at hclass
  next hword =>
    obtain ⟨rfl, rfl⟩ := Prod.mk.inj (Option.some.inj hclass)
    exact .geo (.inr rfl) hval (hnone (by rw [hword]; decide))
  split at hclass
  next hword =>
    refine .of_domainEntry (.inl rfl) ?_ hclass
    rw [htext, hword, if_neg (by decide), if_pos (.inl rfl)]
  split at hclass
  next hword =>
    refine .of_domainEntry (.inr rfl) ?_ hclass
    rw [htext, hword, if_neg (by decide), if_pos (.inr rfl)]
  split at hclass
  next hword =>
    obtain ⟨rfl, rfl⟩ := Prod.mk.inj (Option.some.inj hclass)
    exact .text (.inl rfl) hval (hnone (by rw [hword]; decide))
  split at hclass
  next hword =>
    obtain ⟨rfl, rfl⟩ := Prod.mk.inj (Option.some.inj hclass)
    refine .text (.inr (.inl rfl)) hval (hnone ?_)
    obtain rfl | rfl := hword <;> decide
  split at hclass
  next hword =>
    obtain ⟨rfl, rfl⟩ := Prod.mk.inj (Option.some.inj hclass)
    exact .text (.inr (.inr rfl)) hval (hnone (by rw [hword]; decide))
  next hgeoip hgeosite hdomain hfull hkeyword hregex hprocess =>
    refine .of_domainEntry (.inl rfl) ?_ hclass
    rw [not_or] at hregex
    have hother : word ∉ valueHeads := by
      simp only [valueHeads, List.map_cons, List.map_nil, List.mem_cons, List.not_mem_nil, or_false, not_or]
      exact ⟨hgeoip, hgeosite, hkeyword, hregex.1, hregex.2, hprocess⟩
    rw [htext, if_neg hother, if_neg (not_or.mpr ⟨hdomain, hfull⟩)]

theorem classified_of_classify {entry v : Text} {k : MatchKind} (hclass : classify entry = some (k, v)) :
    Classified entry k v := by
  by_cases hne : trimSpace entry = []
  · simp [classify, hne] at hclass
  cases hip : isIPOrCIDR (trimSpace entry) with
  | true =>
      simp only [classify, hne, hip, if_false, if_true, Option.some.injEq, Prod.mk.injEq] at hclass
      obtain ⟨rfl, rfl⟩ := hclass
      exact .address hne hip (by simp only [domainText, hip, if_true])
  | false =>
      cases hcut : cut ':' (trimSpace entry) with
      | none =>
          simp only [classify, hne, hip, hcut, if_false, Bool.false_eq_true] at hclass
          refine .of_domainEntry (.inl rfl) ?_ hclass
          simp only [domainText, hip, hcut, if_false, Bool.false_eq_true]
      | some parts =>
          obtain ⟨head, rest⟩ := parts
          by_cases hhead : head = []
          · subst hhead
            simp only [classify, hne, hip, hcut, if_false, Bool.false_eq_true] at hclass
            refine .of_domainEntry (.inl rfl) ?_ hclass
            simp only [domainText, hip, hcut, if_false, Bool.false_eq_true]
          · exact .of_head hip hne hcut hhead hclass

theorem toLower_eq_nil {s : Text} : toLower s = [] ↔ s = [] := List.map_eq_nil_iff

/-- A classified value is never empty, so neither engine drops the entry. -/
theorem classify_value_ne_nil {m : Text} {kind : MatchKind} {val : Text}
    (hclass : classify m = some (kind, val)) : val ≠ [] := by
  cases classified_of_classify hclass with
  | address hne => exact hne
  | geo _ hne => exact fun hnil => hne (toLower_eq_nil.mp hnil)
  | text _ hne => exact hne
  | domain _ _ hne => exact hne

theorem isIPOrCIDR_of_classify {m val : Text} (hclass : classify m = some (.ipCIDR, val)) :
    isIPOrCIDR val = true := by
  cases classified_of_classify hclass with
  | address _ hip => exact hip
  | geo hkind => exact absurd hkind (by decide)
  | text hkind => exact absurd hkind (by decide)
  | domain hkind => exact absurd hkind (by decide)

end GlitchCore
