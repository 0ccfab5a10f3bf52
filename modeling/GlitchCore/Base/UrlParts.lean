import GlitchCore.Base.Fields
import GlitchCore.Base.UrlString

/-!
# The parts of a link

How the front of a link `name://text` is read, what its scheme and its authority are in the URL, and which port an
authority names.
-/

namespace Url

open GoText Encoding

def authorityOf (text : Text) : Text := (bodyOf text).takeWhile (· != '/')

/-- Where one of these runes stands, what follows it is not part of the authority. -/
def isStop (c : Char) : Bool := c == '/' || c == '?' || c == '#'

/-- What stands before the first stop. -/
theorem authorityOf_eq (text : Text) : authorityOf text = text.takeWhile fun c => !isStop c := by
  unfold authorityOf bodyOf
  rw [List.takeWhile_takeWhile, List.takeWhile_takeWhile]
  congr 1
  funext c
  rw [Bool.eq_iff_iff]
  simp [isStop, and_assoc]

/-! ### The front of a link -/

section Front

variable {name text s : Text} {u : URL}

theorem link_ne_star (name text : Text) : name ++ "://".toList ++ text ≠ "*".toList := by
  intro h
  have hlength := congrArg List.length h
  rw [List.length_append, List.length_append] at hlength
  have hslashes : "://".toList.length = 3 := rfl
  have hone : "*".toList.length = 1 := rfl
  omega

theorem takeWhile_link (hname : '#' ∉ name) :
    (name ++ "://".toList ++ text).takeWhile (· != '#') = name ++ "://".toList ++ text.takeWhile (· != '#') := by
  refine takeWhile_ne_append ?_ text
  rw [List.mem_append, not_or]
  exact ⟨hname, by decide⟩

theorem eq_of_getScheme_nil {rest : Text} (h : getScheme s = some ([], rest)) : rest = s := by
  unfold getScheme at h
  dsimp only at h
  split at h
  · cases h
  · rename_i hname hrest
    split at h
    · rw [hname] at h
      cases h
    · exact (Prod.mk.inj (Option.some.inj h)).2.symm
  · exact (Prod.mk.inj (Option.some.inj h)).2.symm

theorem scheme_ne_nil_of_parse (h : parse (name ++ "://".toList ++ text) = some u) (hne : name ≠ [])
    (hname : ∀ c ∈ "/:#?".toList, c ∉ name) : u.scheme ≠ [] := by
  obtain ⟨v, hv, hu⟩ := parse_eq_some h
  have hsame : u.scheme = v.scheme := by rw [hu]
  rw [takeWhile_link (hname '#' (by decide))] at hv
  unfold parseFront at hv
  split at hv
  · cases hv
  split at hv
  · rename_i hstar
    exact absurd hstar (link_ne_star _ _)
  obtain ⟨⟨scheme, rest⟩, hget, hv⟩ := Option.bind_eq_some_iff.mp hv
  by_cases hscheme : scheme = []
  · -- without a scheme the colon would stand in the first segment of a path
    subst hscheme
    obtain rfl := eq_of_getScheme_nil hget
    obtain ⟨c, tail, rfl⟩ := List.exists_cons_of_ne_nil hne
    obtain ⟨rest, forceQuery, rawQuery, hquery⟩ : ∃ rest forceQuery rawQuery,
        cutQuery (c :: tail ++ "://".toList ++ text.takeWhile (· != '#')) = (rest, forceQuery, rawQuery) :=
      ⟨_, _, _, rfl⟩
    have hrest : rest = c :: tail ++ "://".toList ++ (text.takeWhile (· != '#')).takeWhile (· != '?') := by
      have hfirst := cutQuery_fst (c :: tail ++ "://".toList ++ text.takeWhile (· != '#'))
      rw [hquery] at hfirst
      refine hfirst.trans (takeWhile_ne_append ?_ _)
      rw [List.mem_append, not_or]
      exact ⟨hname '?' (by decide), by decide⟩
    have hcolon : ':' ∈ rest.takeWhile (· != '/') := by
      rw [hrest, List.append_assoc, takeWhile_ne_append (hname '/' (by decide))]
      exact List.mem_append_right _ List.mem_cons_self
    have hhead : rest.head? ≠ some '/' := by
      rw [hrest]
      exact fun heq => hname '/' (by decide) (Option.some.inj heq ▸ List.mem_cons_self)
    dsimp only at hv
    rw [hquery] at hv
    dsimp only at hv
    rw [if_neg hhead, if_neg (not_not.mpr rfl), if_pos hcolon] at hv
    cases hv
  · have hlower : v.scheme = toLower scheme := by
      dsimp only at hv
      split at hv
      · exact scheme_of_parseHierarchical hv
      · obtain rfl := Option.some.inj hv
        rfl
    rw [hsame, hlower]
    exact fun hnil => hscheme (List.map_eq_nil_iff.mp hnil)

/-- The scheme and the authority of a link that is a URL. -/
theorem authority_of_parse (h : parse (name ++ "://".toList ++ text) = some u) (hne : name ≠ [])
    (hname : ∀ c ∈ "/:#?".toList, c ∉ name) :
    u.scheme = toLower name ∧ parseAuthority (authorityOf text) = some (u.user, u.host) := by
  obtain ⟨hscheme, authority, path, hw⟩ :=
    exists_written h ⟨hname ':' (by decide), hname '#' (by decide)⟩ (scheme_ne_nil_of_parse h hne hname)
  have hauthority : authorityOf text = authority := by
    rw [authorityOf, hw.body, takeWhile_ne_append hw.slash]
    obtain rfl | hhead := hw.pathHead
    · exact List.append_nil _
    · obtain ⟨rest, rfl⟩ := List.head?_eq_some_iff.mp hhead
      exact List.append_nil _
  exact ⟨hscheme, hauthority ▸ hw.parsed⟩

theorem trimSpace_append {w : Text} (hne : w ≠ []) (hw : Edges isSpace w) (s : Text) :
    trimSpace (w ++ s) = w ++ s.rdropWhile isSpace := by
  rw [trimSpace, trim, dropWhile_append_of_head hne hw.1, rdropWhile_append_of_last hw.2]

theorem trimSpace_link (hname : ∀ c ∈ name.head?, isSpace c = false) (text : Text) :
    trimSpace (name ++ "://".toList ++ text) = name ++ "://".toList ++ text.rdropWhile isSpace := by
  refine trimSpace_append (List.append_ne_nil_of_right_ne_nil _ (by decide)) ⟨?_, ?_⟩ text
  · cases name with
    | nil => exact fun c hc => Option.some.inj hc ▸ rfl
    | cons c name => exact hname
  · rw [List.getLast?_append_of_ne_nil _ (by decide)]
    exact fun c hc => Option.some.inj hc ▸ rfl

theorem host_of_parseHierarchical {v : URL} {rest : Text} (hu : u.host = []) (h : parseHierarchical u rest = some v)
    (hhost : v.host ≠ []) : "//".toList <+: rest := by
  unfold parseHierarchical at h
  split at h
  · rename_i hslashes
    exact List.isPrefixOf_iff_prefix.mp hslashes.1
  · obtain ⟨decoded, -, rfl⟩ := setPath_eq_some h
    exact absurd hu hhost

/-- Only a link `name://text` has a host. -/
theorem exists_link {link : Text} (h : parse link = some u) (hscheme : u.scheme ≠ []) (hhost : u.host ≠ []) :
    ∃ name text, link = name ++ "://".toList ++ text ∧ toLower name = u.scheme := by
  obtain ⟨v, hv, hu⟩ := parse_eq_some h
  rw [hu] at hscheme hhost ⊢
  dsimp only at hscheme hhost ⊢
  unfold parseFront at hv
  split at hv
  · cases hv
  split at hv
  · obtain rfl := Option.some.inj hv
    exact absurd rfl hscheme
  obtain ⟨⟨name, rest⟩, hget, hv⟩ := Option.bind_eq_some_iff.mp hv
  have hquery := cutQuery_fst rest
  obtain ⟨front, forceQuery, rawQuery, hcut⟩ : ∃ front forceQuery rawQuery,
      cutQuery rest = (front, forceQuery, rawQuery) := ⟨_, _, _, rfl⟩
  rw [hcut] at hquery
  dsimp only at hv
  rw [hcut] at hv
  dsimp only at hv
  have hslashes : "//".toList <+: front ∧ v.scheme = toLower name := by
    split at hv
    · exact ⟨host_of_parseHierarchical rfl hv hhost, scheme_of_parseHierarchical hv⟩
    split at hv
    · obtain rfl := Option.some.inj hv
      exact absurd rfl hhost
    split at hv
    · cases hv
    · exact ⟨host_of_parseHierarchical rfl hv hhost, scheme_of_parseHierarchical hv⟩
  have hne : name ≠ [] := by
    rintro rfl
    exact hscheme hslashes.2
  obtain ⟨hs, -⟩ := getScheme_eq_some hget hne
  obtain ⟨tail, htail⟩ := hslashes.1
  have hrest := List.takeWhile_append_dropWhile (p := (· != '?')) (l := rest)
  have hlink := List.takeWhile_append_dropWhile (p := (· != '#')) (l := link)
  dsimp only at hquery
  rw [← hquery, ← htail] at hrest
  rw [hs, ← hrest] at hlink
  refine ⟨name, tail ++ rest.dropWhile (· != '?') ++ link.dropWhile (· != '#'), hlink.symm.trans ?_,
    hslashes.2.symm⟩
  simp only [List.append_assoc, List.cons_append]
  rfl

end Front

/-! ### The address of an authority -/

section Address

variable {text : Text} {user : Option Userinfo} {host : Text}

/-- A port that stands in the text of an authority is the URL's. -/
theorem port_of_parseHost {front port h : Text} (hparse : parseHost (front ++ ':' :: port) = some h) (hne : port ≠ [])
    (hcolon : ':' ∉ port) (hbracket : ']' ∉ port) : (splitHostPort h).2 = port := by
  unfold parseHost at hparse
  split at hparse
  · split at hparse
    · rename_i rest heq
      split at hparse
      · cases hparse
      obtain ⟨⟨literal, colonPort⟩, hcut, hparse⟩ := Option.bind_eq_some_iff.mp hparse
      dsimp only at hparse
      split at hparse
      · rename_i hvalid
        obtain ⟨decoded, -, hparse⟩ := Option.bind_eq_some_iff.mp hparse
        split at hparse
        · obtain rfl := Option.some.inj hparse
          rw [(cutLast_eq_some.mp hcut).1] at heq
          cases colonPort with
          | nil =>
              have hlast := congrArg List.getLast? heq
              rw [List.getLast?_append_of_ne_nil _ (List.cons_ne_nil _ _), List.getLast?_cons_of_ne_nil hne,
                ← List.cons_append, List.getLast?_concat] at hlast
              exact absurd (List.mem_of_getLast? hlast) hbracket
          | cons c digits =>
              obtain rfl : c = ':' := beq_iff_eq.mp (Bool.and_eq_true_iff.mp hvalid).1
              have hdigits := digits_of_validOptionalPort hvalid
              have hform : front ++ ':' :: port = ('[' :: literal ++ [']']) ++ ':' :: digits := by
                rw [heq]
                simp
              obtain ⟨-, rfl⟩ := eq_of_last hform hcolon (hdigits.not_mem (by decide))
              have happend : '[' :: decoded ++ ']' :: ':' :: port = ('[' :: decoded ++ [']']) ++ ':' :: port := by simp
              rw [happend, splitHostPort_colon hdigits]
        · cases hparse
      · cases hparse
    · cases hparse
  · split at hparse
    · rename_i front' port' hcut
      split at hparse
      · rename_i hvalid
        have hdigits := digits_of_validOptionalPort hvalid
        obtain ⟨-, rfl⟩ := eq_of_last (cut_eq_some.mp hcut).1 hcolon (hdigits.not_mem (by decide))
        obtain ⟨decoded, port', -, hport', rfl⟩ := unescape_append (by decide) (by decide) (by decide) hparse
        obtain rfl := unescape_of_not_mem (by decide) hport' (hdigits.not_mem (by decide))
        rw [splitHostPort_colon hdigits]
      · cases hparse
    · rename_i hcut
      exact absurd (by simp) (cut_eq_none.mp hcut)

theorem address_of_parseAuthority (h : parseAuthority (authorityOf text) = some (user, host)) (hslash : '/' ∉ bodyOf text)
    {userinfo address : Text} (hbody : bodyOf text = userinfo ++ '@' :: address) (hat : '@' ∉ address) :
    parseHost address = some host ∧ user ≠ none := by
  unfold authorityOf parseAuthority at h
  rw [takeWhile_ne_of_not_mem hslash, cutLast_eq_some.mpr ⟨hbody, hat⟩] at h
  obtain ⟨host', hhost, h⟩ := Option.bind_eq_some_iff.mp h
  obtain ⟨user', -, h⟩ := Option.bind_eq_some_iff.mp h
  obtain ⟨rfl, rfl⟩ := Prod.mk.inj (Option.some.inj h)
  exact ⟨hhost, Option.some_ne_none _⟩

theorem user_eq_none_of_parseAuthority {authority : Text} (h : parseAuthority authority = some (user, host))
    (hat : '@' ∉ authority) : user = none := by
  unfold parseAuthority at h
  rw [cutLast_eq_none.mpr hat] at h
  obtain ⟨host', -, h⟩ := Option.bind_eq_some_iff.mp h
  exact (Prod.mk.inj (Option.some.inj h)).1.symm

end Address

end Url
