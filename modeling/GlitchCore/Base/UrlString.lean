import GlitchCore.Base.Authority

/-!
# URLs written again

What `String` makes of a URL that was parsed: an `@` of its authority or its path comes back, and a text of runes that
no part of a URL escapes comes back whole.
-/

namespace Url

open GoText Encoding

theorem bodyOf_append {a : Text} (ha : '#' ∉ a ∧ '?' ∉ a) (t : Text) : bodyOf (a ++ t) = a ++ bodyOf t := by
  rw [bodyOf, takeWhile_ne_append ha.1, takeWhile_ne_append ha.2]
  rfl

theorem not_mem_bodyOf (text : Text) : '#' ∉ bodyOf text ∧ '?' ∉ bodyOf text := by
  refine ⟨fun hmem => ?_, fun hmem => ?_⟩
  · exact absurd (List.mem_takeWhile_imp (List.Sublist.mem hmem (List.takeWhile_sublist _))) (by decide)
  · exact absurd (List.mem_takeWhile_imp hmem) (by decide)

theorem upperHexDigit_mem {n : Nat} (hn : n < 16) : upperHexDigit n ∈ "0123456789ABCDEF".toList := by
  have hall : ∀ n < 16, upperHexDigit n ∈ "0123456789ABCDEF".toList := by decide
  exact hall n hn

/-- A rune that is escaped does not stand in an escaped text, nor does any that escapes are not made of. -/
theorem not_mem_escape {mode : Mode} {c : Char} (hc : shouldEscape mode c = true)
    (hplain : c ∉ "%+0123456789ABCDEF".toList) (s : Text) : c ∉ escape mode s := by
  intro hmem
  obtain ⟨d, -, hd⟩ := List.mem_flatMap.mp hmem
  unfold escapeRune at hd
  split at hd
  · obtain rfl := List.mem_singleton.mp hd
    exact hplain (by decide)
  split at hd
  · obtain ⟨b, -, hb⟩ := List.mem_flatMap.mp hd
    have hbyte : b.toNat < 256 := b.toNat_lt
    simp only [List.mem_cons, List.not_mem_nil, or_false] at hb
    obtain rfl | rfl | rfl := hb
    · exact hplain (by decide)
    · exact hplain (List.mem_cons_of_mem _ (List.mem_cons_of_mem _ (upperHexDigit_mem (by omega))))
    · exact hplain (List.mem_cons_of_mem _ (List.mem_cons_of_mem _ (upperHexDigit_mem (by omega))))
  · rename_i hself
    obtain rfl := List.mem_singleton.mp hd
    exact hself hc

theorem mem_escape {mode : Mode} {c : Char} {s : Text} (hmode : mode ≠ .queryComponent)
    (hc : shouldEscape mode c = false) (hmem : c ∈ s) : c ∈ escape mode s := by
  refine List.mem_flatMap.mpr ⟨c, hmem, ?_⟩
  rw [escapeRune, if_neg fun hplus => hmode hplus.1, hc]
  exact List.mem_singleton_self c

/-- What `String` writes between the slashes and the query. -/
def URL.afterSlashes (u : URL) : Text :=
  (match u.user with | some user => user.string ++ "@".toList | none => []) ++ escape .host u.host ++
    (if u.escapedPath ≠ [] ∧ u.escapedPath.head? ≠ some '/' ∧ u.host ≠ [] then "/".toList else []) ++ u.escapedPath

theorem not_mem_escape_stops {mode : Mode} (hmode : mode = .host ∨ mode = .path ∨ mode = .userPassword) (s : Text) :
    '#' ∉ escape mode s ∧ '?' ∉ escape mode s := by
  obtain rfl | rfl | rfl := hmode
  all_goals exact ⟨not_mem_escape (by decide) (by decide) s, not_mem_escape (by decide) (by decide) s⟩

section

variable {text authority path : Text} {u : URL}

/-- The decoded path is empty or begins with a slash, as the path it was written as. -/
theorem Written.path_cases (h : Written text u authority path) :
    (path = [] ∧ u.path = []) ∨ (path.head? = some '/' ∧ u.path.head? = some '/') := by
  obtain rfl | hpath := h.pathHead
  · exact .inl ⟨rfl, (Option.some.inj h.decoded).symm⟩
  · obtain ⟨rest, rfl⟩ := List.head?_eq_some_iff.mp hpath
    obtain ⟨a, b, ha, -, heq⟩ := unescape_append (s := []) (by decide) (by decide) (by decide) h.decoded
    obtain rfl : [] = a := Option.some.inj ha
    exact .inr ⟨hpath, by rw [heq]; rfl⟩

theorem Written.escapedPath_eq (h : Written text u authority path) :
    u.escapedPath = path ∨ u.escapedPath = escape .path u.path := by
  unfold URL.escapedPath
  split
  · rename_i hraw
    have heq := h.rawPath
    split at heq
    · exact absurd heq hraw.1
    · exact .inl heq
  · rw [if_neg]
    · exact .inr rfl
    · intro hstar
      obtain ⟨-, hpath⟩ | ⟨-, hpath⟩ := h.path_cases
      · rw [hpath] at hstar
        cases hstar
      · rw [hstar] at hpath
        exact absurd hpath (by decide)

theorem Written.not_mem_path (h : Written text u authority path) : '#' ∉ path ∧ '?' ∉ path := by
  obtain ⟨hhash, hquery⟩ := not_mem_bodyOf text
  rw [h.body] at hhash hquery
  exact ⟨fun hmem => hhash (List.mem_append_right _ hmem), fun hmem => hquery (List.mem_append_right _ hmem)⟩

theorem Written.not_mem_afterSlashes (h : Written text u authority path) :
    '#' ∉ u.afterSlashes ∧ '?' ∉ u.afterSlashes := by
  have huser : ∀ c : Char, c = '#' ∨ c = '?' →
      c ∉ (match u.user with | some user => user.string ++ "@".toList | none => []) := by
    intro c hc
    cases u.user with
    | none => exact List.not_mem_nil
    | some user =>
        have hname := not_mem_escape_stops (.inr (.inr rfl)) user.username
        simp only [Userinfo.string, List.mem_append, not_or]
        refine ⟨⟨?_, ?_⟩, ?_⟩
        · obtain rfl | rfl := hc
          · exact hname.1
          · exact hname.2
        · cases user.password with
          | none => exact List.not_mem_nil
          | some password =>
              have hpassword := not_mem_escape_stops (.inr (.inr rfl)) password
              obtain rfl | rfl := hc
              · exact fun hmem => hpassword.1 ((List.mem_cons.mp hmem).resolve_left (by decide))
              · exact fun hmem => hpassword.2 ((List.mem_cons.mp hmem).resolve_left (by decide))
        · obtain rfl | rfl := hc <;> decide
  have hslash : ∀ c : Char, c = '#' ∨ c = '?' →
      c ∉ (if u.escapedPath ≠ [] ∧ u.escapedPath.head? ≠ some '/' ∧ u.host ≠ [] then "/".toList else []) := by
    intro c hc
    split
    · obtain rfl | rfl := hc <;> decide
    · exact List.not_mem_nil
  have hpath : '#' ∉ u.escapedPath ∧ '?' ∉ u.escapedPath := by
    obtain heq | heq := h.escapedPath_eq
    · rw [heq]
      exact h.not_mem_path
    · rw [heq]
      exact not_mem_escape_stops (.inr (.inl rfl)) u.path
  have hhost := not_mem_escape_stops (.inl rfl) u.host
  unfold URL.afterSlashes
  simp only [List.mem_append, not_or]
  exact ⟨⟨⟨⟨huser _ (.inl rfl), hhost.1⟩, hslash _ (.inl rfl)⟩, hpath.1⟩,
    ⟨⟨huser _ (.inr rfl), hhost.2⟩, hslash _ (.inr rfl)⟩, hpath.2⟩

/-- The query and the fragment as `String` writes them. -/
def URL.tailString (u : URL) : Text :=
  (if u.forceQuery ∨ u.rawQuery ≠ [] then '?' :: u.rawQuery else []) ++
    if u.fragment ≠ [] then '#' :: u.escapedFragment else []

theorem bodyOf_tailString (u : URL) : bodyOf u.tailString = [] := by
  unfold URL.tailString
  split
  · rfl
  · split <;> rfl

theorem Written.string_eq (h : Written text u authority path) (hscheme : u.scheme ≠ []) :
    u.string = u.scheme ++ ":".toList ++ u.tailString ∨
      u.string = u.scheme ++ "://".toList ++ u.afterSlashes ++ u.tailString := by
  -- a scheme stands in front, so the first segment is never taken for one
  have hfront : ∀ a b : Text, ¬ (u.scheme ++ ":".toList ++ a ++ b = [] ∧ ':' ∈ u.escapedPath.takeWhile (· != '/')) := by
    intro a b hboth
    simp at hboth
  have homit : ¬ ((u.scheme = [] ∧ u.host = [] ∧ u.user = none) ∨ (u.omitHost = true ∧ u.host = [] ∧ u.user = none)) := by
    rw [h.omitHost]
    rintro (⟨hnil, -⟩ | ⟨hfalse, -⟩)
    · exact hscheme hnil
    · cases hfalse
  unfold URL.string URL.hierarchicalString URL.authorityString
  rw [if_neg (not_not.mpr h.rootless), if_pos hscheme, if_neg homit]
  dsimp only
  rw [if_neg (hfront _ _)]
  by_cases hslashes : u.host ≠ [] ∨ u.path ≠ [] ∨ u.user ≠ none
  · refine .inr ?_
    rw [if_pos hslashes]
    simp only [URL.afterSlashes, URL.tailString, List.append_assoc, List.nil_append]
    rfl
  · refine .inl ?_
    rw [if_neg hslashes]
    simp only [not_or, not_not] at hslashes
    obtain ⟨hhost, hpath, huser⟩ := hslashes
    have hescaped : u.escapedPath = [] := by
      obtain heq | heq := h.escapedPath_eq
      · rw [heq]
        obtain ⟨hnil, -⟩ | ⟨-, hhead⟩ := h.path_cases
        · exact hnil
        · rw [hpath] at hhead
          cases hhead
      · rw [heq, hpath]
        rfl
    rw [hhost, huser, hescaped]
    simp [URL.tailString, escape]

/-- What stands behind the scheme of a URL that is written again, up to its query and its remark. -/
theorem Written.bodyOf_string (h : Written text u authority path) (hscheme : u.scheme ≠ [])
    (hplain : '#' ∉ u.scheme ∧ '?' ∉ u.scheme) :
    bodyOf (trimPrefix (u.scheme ++ "://".toList) u.string) = u.afterSlashes ∨
      bodyOf (trimPrefix (u.scheme ++ "://".toList) u.string) = u.scheme ++ ":".toList := by
  obtain hstring | hstring := h.string_eq hscheme
  · refine .inr ?_
    have hcolon : '#' ∉ u.scheme ++ ":".toList ∧ '?' ∉ u.scheme ++ ":".toList := by
      simp only [List.mem_append, not_or]
      exact ⟨⟨hplain.1, by decide⟩, hplain.2, by decide⟩
    have hnot : ¬ (u.scheme ++ "://".toList).isPrefixOf (u.scheme ++ ":".toList ++ u.tailString) = true := by
      intro hprefix
      obtain ⟨rest, heq⟩ := List.isPrefixOf_iff_prefix.mp hprefix
      rw [List.append_assoc, List.append_assoc] at heq
      have htail : "//".toList ++ rest = u.tailString := (List.cons.inj (List.append_cancel_left heq)).2
      have hnil := bodyOf_tailString u
      rw [← htail, bodyOf_append (by decide)] at hnil
      cases hnil
    rw [hstring, trimPrefix, if_neg hnot, bodyOf_append hcolon, bodyOf_tailString, List.append_nil]
  · refine .inl ?_
    have hprefix : (u.scheme ++ "://".toList).isPrefixOf
        (u.scheme ++ "://".toList ++ u.afterSlashes ++ u.tailString) = true := by
      rw [List.isPrefixOf_iff_prefix, List.append_assoc _ u.afterSlashes]
      exact List.prefix_append ..
    rw [hstring, trimPrefix, if_pos hprefix, List.append_assoc _ u.afterSlashes, List.drop_left,
      bodyOf_append h.not_mem_afterSlashes, bodyOf_tailString, List.append_nil]

/-- An `@` of the authority or the path is written again. -/
theorem Written.at_mem_afterSlashes (h : Written text u authority path) (hat : '@' ∈ bodyOf text) :
    '@' ∈ u.afterSlashes := by
  unfold URL.afterSlashes
  simp only [List.mem_append]
  rw [h.body, List.mem_append] at hat
  obtain hat | hat := hat
  · have hparsed := h.parsed
    unfold parseAuthority at hparsed
    split at hparsed
    · rename_i hcut
      exact absurd hat (cutLast_eq_none.mp hcut)
    · obtain ⟨host, -, hparsed⟩ := Option.bind_eq_some_iff.mp hparsed
      obtain ⟨user, -, hparsed⟩ := Option.bind_eq_some_iff.mp hparsed
      obtain ⟨huser, -⟩ := Prod.mk.inj (Option.some.inj hparsed)
      rw [← huser]
      exact .inl (.inl (.inl (List.mem_append_right _ (by decide))))
  · refine .inr ?_
    obtain heq | heq := h.escapedPath_eq
    · rw [heq]
      exact hat
    · obtain ⟨front, back, hpath⟩ := List.append_of_mem hat
      have hdecoded := h.decoded
      rw [hpath] at hdecoded
      obtain ⟨a, b, -, -, hu⟩ := unescape_append (by decide) (by decide) (by decide) hdecoded
      rw [heq]
      exact mem_escape (by decide) (by decide) (by rw [hu]; simp)

theorem Written.host_eq (h : Written text u authority path) (huser : u.user = none) : parseHost authority = some u.host := by
  have hparsed := h.parsed
  unfold parseAuthority at hparsed
  split at hparsed
  · obtain ⟨host, hhost, hparsed⟩ := Option.bind_eq_some_iff.mp hparsed
    obtain ⟨-, rfl⟩ := Prod.mk.inj (Option.some.inj hparsed)
    exact hhost
  · obtain ⟨host, -, hparsed⟩ := Option.bind_eq_some_iff.mp hparsed
    obtain ⟨user, -, hparsed⟩ := Option.bind_eq_some_iff.mp hparsed
    obtain ⟨heq, -⟩ := Prod.mk.inj (Option.some.inj hparsed)
    rw [huser] at heq
    cases heq

/-- A text without an escape after it is escaped is as it was. -/
theorem escape_of_not_mem {mode : Mode} {s : Text} (hmode : mode ≠ .queryComponent) (h : '%' ∉ escape mode s) :
    escape mode s = s := by
  refine escape_of_forall hmode fun c hc => ?_
  by_contra hescape
  rw [Bool.not_eq_false] at hescape
  refine h (List.mem_flatMap.mpr ⟨c, hc, ?_⟩)
  rw [escapeRune, if_neg fun hplus => hmode hplus.1, if_pos hescape]
  obtain ⟨b, bytes, hbytes⟩ := List.exists_cons_of_ne_nil (String.utf8EncodeChar_ne_nil (c := c))
  rw [hbytes]
  exact List.mem_flatMap.mpr ⟨b, List.mem_cons_self, List.mem_cons_self⟩

theorem parseHost_of_not_mem {s host : Text} (h : parseHost s = some host) (hs : '%' ∉ s) : host = s := by
  unfold parseHost at h
  split at h
  · split at h
    · rename_i rest
      split at h
      · cases h
      obtain ⟨⟨literal, colonPort⟩, hcut, h⟩ := Option.bind_eq_some_iff.mp h
      dsimp only at h
      split at h
      · obtain ⟨decoded, hdecoded, h⟩ := Option.bind_eq_some_iff.mp h
        split at h
        · obtain rfl := Option.some.inj h
          obtain ⟨rfl, -⟩ := cutLast_eq_some.mp hcut
          rw [(unescapeLiteral_eq_some hdecoded).1 fun hmem => hs (by simp [hmem])]
          rfl
        · cases h
      · cases h
    · cases h
  · split at h
    · split at h
      · exact unescape_of_not_mem (by decide) h hs
      · cases h
    · exact unescape_of_not_mem (by decide) h hs

/-- A rune no part of a URL escapes, but a slash in its host. -/
def isPlainRune (c : Char) : Bool := isAlphanumeric c || "+/-_=".toList.contains c

theorem shouldEscape_of_isPlainRune {c : Char} (hc : isPlainRune c = true) :
    shouldEscape .path c = false ∧ (c ≠ '/' → shouldEscape .host c = false) := by
  obtain hc | hc := Bool.or_eq_true_iff.mp hc
  · simp [shouldEscape, hc]
  · have hpath : ∀ c ∈ "+/-_=".toList, shouldEscape .path c = false := by
      simpa using List.all_eq_true.mp (by decide : ("+/-_=".toList.all fun c => !shouldEscape .path c) = true)
    have hhost : ∀ c ∈ "+/-_=".toList, c ≠ '/' → shouldEscape .host c = false := by
      simpa using List.all_eq_true.mp (by decide : ("+/-_=".toList.all fun c => c == '/' || !shouldEscape .host c) = true)
    have hmem : c ∈ "+/-_=".toList := List.contains_iff_mem.mp hc
    exact ⟨hpath c hmem, hhost c hmem⟩

/-- A text of plain runes is written again as it was. -/
theorem Written.afterSlashes_eq (h : Written text u authority path) (huser : u.user = none)
    (hrunes : ∀ c ∈ bodyOf text, isPlainRune c = true) : u.afterSlashes = bodyOf text := by
  have hfront : ∀ c ∈ authority, isPlainRune c = true := fun c hc =>
    hrunes c (by rw [h.body]; exact List.mem_append_left _ hc)
  have hback : ∀ c ∈ path, isPlainRune c = true := fun c hc =>
    hrunes c (by rw [h.body]; exact List.mem_append_right _ hc)
  have hhost : u.host = authority := by
    have hparse := h.host_eq huser
    have hbracket : '[' ∉ authority := fun hmem => absurd (hfront _ hmem) (by decide)
    have hcolon : cut ':' authority = none := cut_eq_none.mpr fun hmem => absurd (hfront _ hmem) (by decide)
    unfold parseHost at hparse
    rw [if_neg hbracket, hcolon] at hparse
    exact unescape_of_not_mem (by decide) hparse fun hmem => absurd (hfront _ hmem) (by decide)
  have hpath : u.path = path :=
    unescape_of_not_mem (by decide) h.decoded fun hmem => absurd (hback _ hmem) (by decide)
  have hescapePath : escape .path path = path :=
    escape_of_forall (by decide) fun c hc => (shouldEscape_of_isPlainRune (hback c hc)).1
  have hescapeHost : escape .host authority = authority := by
    refine escape_of_forall (by decide) fun c hc => (shouldEscape_of_isPlainRune (hfront c hc)).2 ?_
    rintro rfl
    exact h.slash hc
  have hescaped : u.escapedPath = path := by
    obtain heq | heq := h.escapedPath_eq
    · exact heq
    · rw [heq, hpath, hescapePath]
  have hslash : ¬ (path ≠ [] ∧ path.head? ≠ some '/' ∧ u.host ≠ []) := by
    rintro ⟨hne, hhead, -⟩
    exact h.pathHead.elim hne hhead
  rw [URL.afterSlashes, huser, hescaped, if_neg hslash, hhost, hescapeHost, h.body]
  simp

/-- A text without escapes that gets none when it is written again comes back as it was. -/
theorem Written.afterSlashes_of_not_mem (h : Written text u authority path) (huser : u.user = none)
    (hbody : '%' ∉ bodyOf text) (hagain : '%' ∉ u.afterSlashes) : u.afterSlashes = bodyOf text := by
  rw [h.body, List.mem_append, not_or] at hbody
  have hhost : u.host = authority := parseHost_of_not_mem (h.host_eq huser) hbody.1
  have hpath : u.path = path := unescape_of_not_mem (by decide) h.decoded hbody.2
  unfold URL.afterSlashes at hagain ⊢
  simp only [List.mem_append, not_or] at hagain
  have hescapeHost : escape .host u.host = u.host := escape_of_not_mem (by decide) hagain.1.1.2
  have hescaped : u.escapedPath = path := by
    obtain heq | heq := h.escapedPath_eq
    · exact heq
    · have hescape := hagain.2
      rw [heq] at hescape
      rw [heq, escape_of_not_mem (by decide) hescape, hpath]
  have hslash : ¬ (path ≠ [] ∧ path.head? ≠ some '/' ∧ u.host ≠ []) := by
    rintro ⟨hne, hhead, -⟩
    exact h.pathHead.elim hne hhead
  rw [huser, hescaped, if_neg hslash, hescapeHost, hhost, h.body]
  simp

end

end Url
