import GlitchCore.Base.HostPort
import GlitchCore.Base.Unescape

/-!
# Authorities

What a URL that parses was written as, and how its host and port stand to the ones `net.SplitHostPort` takes from the
same text: the ports are one text, and the hosts are one where the text has no escape.
-/

namespace Url

open GoText Encoding

/-! ### Hosts and ports -/

def Digits (s : Text) : Prop := ∀ c ∈ s, c.isDigit = true

theorem Digits.not_mem {s : Text} {c : Char} (hs : Digits s) (hc : c.isDigit = false) : c ∉ s := by
  intro hmem
  rw [hs c hmem] at hc
  cases hc

theorem digits_of_validOptionalPort {port : Text} (h : validOptionalPort (':' :: port) = true) : Digits port := by
  have hall : (':' == ':' && port.all Char.isDigit) = true := h
  rw [Bool.and_eq_true] at hall
  exact fun c hc => List.all_eq_true.mp hall.2 c hc

/-- Brackets around a host are not part of it. -/
def bare (host : Text) : Text := if host.head? = some '[' ∧ host.getLast? = some ']' then host.tail.dropLast else host

theorem length_bare_le (host : Text) : (bare host).length ≤ host.length := by
  unfold bare
  split
  · rw [List.length_dropLast, List.length_tail]
    omega
  · exact Nat.le_refl _

theorem bare_of_not_mem {host : Text} (h : '[' ∉ host) : bare host = host := by
  refine if_neg fun hb => h ?_
  exact List.mem_of_mem_head? hb.1

theorem bare_bracketed (literal : Text) : bare ('[' :: literal ++ [']']) = literal := by
  have hlast : ('[' :: literal ++ [']']).getLast? = some ']' := List.getLast?_concat ..
  rw [bare, if_pos ⟨rfl, hlast⟩]
  simp

theorem splitHostPort_colon {host port : Text} (hport : Digits port) :
    splitHostPort (host ++ ':' :: port) = (bare host, port) := by
  have hcut : cutLast ':' (host ++ ':' :: port) = some (host, port) :=
    cutLast_eq_some.mpr ⟨rfl, hport.not_mem (by decide)⟩
  have hall : port.all Char.isDigit = true := List.all_eq_true.mpr hport
  rw [splitHostPort, hcut]
  simp only [hall, if_true]
  rw [bare]
  split <;> rfl

theorem exists_of_port_ne_nil {s : Text} (h : (splitHostPort s).2 ≠ []) :
    ∃ host port, s = host ++ ':' :: port ∧ Digits port ∧ port ≠ [] ∧ splitHostPort s = (bare host, port) := by
  cases hcut : cutLast ':' s with
  | none =>
      rw [splitHostPort, hcut] at h
      simp only at h
      split at h <;> exact absurd rfl h
  | some part =>
      obtain ⟨host, port⟩ := part
      obtain ⟨rfl, -⟩ := cutLast_eq_some.mp hcut
      by_cases hdigits : Digits port
      · rw [splitHostPort_colon hdigits] at h ⊢
        exact ⟨host, port, rfl, hdigits, h, rfl⟩
      · have hall : ¬ port.all Char.isDigit = true := fun hall => hdigits fun c hc => List.all_eq_true.mp hall c hc
        rw [splitHostPort, hcut] at h
        simp only [if_neg hall] at h
        split at h <;> exact absurd rfl h

/-- How an authority with a port is written: a bracketed address and a port, or a name and a port. -/
theorem parseHost_eq_some {host h : Text} (hparse : parseHost host = some h) (hport : (splitHostPort h).2 ≠ []) :
    ∃ port, Digits port ∧
      ((∃ literal decoded, host = '[' :: literal ++ ']' :: ':' :: port ∧ unescapeLiteral literal = some decoded ∧
          splitHostPort h = (decoded, port)) ∨
        ∃ front decoded, host = front ++ ':' :: port ∧ ':' ∉ front ∧ '[' ∉ host ∧ unescape .host front = some decoded ∧
          splitHostPort h = (bare decoded, port)) := by
  unfold parseHost at hparse
  split at hparse
  · -- an address in brackets
    split at hparse
    · rename_i rest
      split at hparse
      · cases hparse
      obtain ⟨⟨literal, colonPort⟩, hcut, hparse⟩ := Option.bind_eq_some_iff.mp hparse
      simp only at hparse
      split at hparse
      · rename_i hvalid
        obtain ⟨decoded, hdecoded, hparse⟩ := Option.bind_eq_some_iff.mp hparse
        split at hparse
        · obtain rfl := Option.some.inj hparse
          obtain ⟨rfl, -⟩ := cutLast_eq_some.mp hcut
          cases colonPort with
          | nil =>
              obtain ⟨front, port, heq, hdigits, hne, -⟩ := exists_of_port_ne_nil hport
              have hlast := congrArg List.getLast? heq
              rw [List.getLast?_concat, List.getLast?_append_of_ne_nil _ (List.cons_ne_nil ':' port),
                List.getLast?_cons_of_ne_nil hne] at hlast
              have hdigit := hdigits ']' (List.mem_of_mem_getLast? hlast.symm)
              exact absurd hdigit (by decide)
          | cons c port =>
              have hc : c = ':' := by
                rw [validOptionalPort, Bool.and_eq_true, beq_iff_eq] at hvalid
                exact hvalid.1
              subst hc
              have hdigits := digits_of_validOptionalPort hvalid
              refine ⟨port, hdigits, .inl ⟨literal, decoded, rfl, hdecoded, ?_⟩⟩
              have happend : '[' :: decoded ++ ']' :: ':' :: port = ('[' :: decoded ++ [']']) ++ ':' :: port := by simp
              rw [happend, splitHostPort_colon hdigits, bare_bracketed]
        · cases hparse
      · cases hparse
    · cases hparse
  · rename_i hbracket
    split at hparse
    · rename_i front port hcut
      obtain ⟨rfl, hfront⟩ := cut_eq_some.mp hcut
      split at hparse
      · rename_i hvalid
        have hdigits := digits_of_validOptionalPort hvalid
        obtain ⟨decoded, port', hdecoded, hport', rfl⟩ :=
          unescape_append (by decide) (by decide) (by decide) hparse
        obtain rfl : port' = port := unescape_of_not_mem (by decide) hport' (hdigits.not_mem (by decide))
        exact ⟨port', hdigits, .inr ⟨front, decoded, rfl, hfront, hbracket, hdecoded, splitHostPort_colon hdigits⟩⟩
      · cases hparse
    · rename_i hcut
      obtain ⟨front, port, rfl, -⟩ := exists_of_port_ne_nil hport
      have hcolon := mem_of_mem_unescape hparse (c := ':') (by simp) (by decide) (by decide) (by decide)
      exact absurd hcolon (cut_eq_none.mp hcut)

theorem unescapeLiteral_eq_some {literal decoded : Text} (h : unescapeLiteral literal = some decoded) :
    ('%' ∉ literal → decoded = literal) ∧ ('%' ∈ literal → decoded.length < literal.length) := by
  unfold unescapeLiteral at h
  split at h
  · rename_i addr zone hcut
    obtain rfl := eq_of_cutText hcut
    obtain ⟨addr', haddr, h⟩ := Option.bind_eq_some_iff.mp h
    obtain ⟨zone', hzone, h⟩ := Option.bind_eq_some_iff.mp h
    obtain rfl := Option.some.inj h
    have hescape : '%' ∈ "%25".toList ++ zone := List.mem_append_left _ (by decide)
    refine ⟨fun hnot => absurd ?_ hnot, fun _ => ?_⟩
    · rw [List.append_assoc]
      exact List.mem_append_right _ hescape
    · have hle := length_unescape_le haddr
      have hlt := length_unescape_lt hzone hescape
      rw [List.append_assoc]
      simp only [List.length_append] at hle hlt ⊢
      omega
  · exact ⟨unescape_of_not_mem (by decide) h, length_unescape_lt h⟩

/-- The host and port of a URL beside those `net.SplitHostPort` takes from the text of its authority. -/
theorem hostPort_agree {text h host port : Text} (hparse : parseHost text = some h)
    (hne : (splitHostPort h).2 ≠ []) (hsplit : HostPort.splitHostPort text = some (host, port)) :
    (splitHostPort h).2 = port ∧ ('%' ∉ text → (splitHostPort h).1 = host) ∧
      ('%' ∈ text → (splitHostPort h).1.length < host.length) := by
  obtain ⟨hcolon, hforms⟩ := HostPort.splitHostPort_eq_some hsplit
  obtain ⟨port', hdigits, hurl⟩ := parseHost_eq_some hparse hne
  have hcolon' : ':' ∉ port' := hdigits.not_mem (by decide)
  have hpercent : '%' ∉ port' := hdigits.not_mem (by decide)
  obtain ⟨literal, decoded, htext, hdecoded, hsplit'⟩ | ⟨front, decoded, htext, -, hbracket, hdecoded, hsplit'⟩ := hurl
  · -- both read what stands between the brackets
    obtain hform | ⟨-, -, hnot⟩ := hforms
    · have heq : ('[' :: literal ++ [']']) ++ ':' :: port' = ('[' :: host ++ [']']) ++ ':' :: port := by
        rw [hform] at htext
        simpa using htext.symm
      obtain ⟨hfront, rfl⟩ := eq_of_last heq hcolon' hcolon
      obtain rfl : literal = host := (List.cons.inj (List.append_cancel_right hfront)).2
      obtain ⟨hsame, hshort⟩ := unescapeLiteral_eq_some hdecoded
      rw [hsplit', htext]
      refine ⟨rfl, fun hnot => hsame fun hin => hnot (by simp [hin]), fun hin => hshort ?_⟩
      simpa [hpercent] using hin
    · rw [htext] at hnot
      exact absurd (List.mem_cons_self ..) hnot
  · obtain hform | ⟨hform, -, -⟩ := hforms
    · rw [hform] at hbracket
      exact absurd (List.mem_cons_self ..) hbracket
    · obtain ⟨rfl, rfl⟩ := eq_of_last (htext.symm.trans hform) hcolon' hcolon
      rw [hsplit']
      refine ⟨rfl, fun hnot => ?_, fun hin => ?_⟩
      · have hplain : '%' ∉ front := fun hin => hnot (by rw [htext]; simp [hin])
        obtain rfl := unescape_of_not_mem (by decide) hdecoded hplain
        refine bare_of_not_mem fun hin => hbracket ?_
        rw [htext]
        simp [hin]
      · have hin' : '%' ∈ front := by
          rw [htext] at hin
          simpa [hpercent] using hin
        exact Nat.lt_of_le_of_lt (length_bare_le decoded) (length_unescape_lt hdecoded hin')

theorem length_parseHost_le {host h : Text} (hparse : parseHost host = some h) : h.length ≤ host.length := by
  unfold parseHost at hparse
  split at hparse
  · split at hparse
    · split at hparse
      · cases hparse
      obtain ⟨⟨literal, colonPort⟩, hcut, hparse⟩ := Option.bind_eq_some_iff.mp hparse
      simp only at hparse
      split at hparse
      · obtain ⟨decoded, hdecoded, hparse⟩ := Option.bind_eq_some_iff.mp hparse
        split at hparse
        · obtain rfl := Option.some.inj hparse
          obtain ⟨rfl, -⟩ := cutLast_eq_some.mp hcut
          have hle : decoded.length ≤ literal.length := by
            obtain ⟨hsame, hshort⟩ := unescapeLiteral_eq_some hdecoded
            by_cases hescape : '%' ∈ literal
            · exact Nat.le_of_lt (hshort hescape)
            · rw [hsame hescape]
          simp only [List.length_append, List.length_cons]
          omega
        · cases hparse
      · cases hparse
    · cases hparse
  · split at hparse
    · split at hparse
      · exact length_unescape_le hparse
      · cases hparse
    · exact length_unescape_le hparse

/-- A port shortens the host by itself and its colon. -/
theorem length_hostname_add_le {hostPort : Text} (hne : (splitHostPort hostPort).2 ≠ []) :
    (splitHostPort hostPort).1.length + 2 ≤ hostPort.length := by
  obtain ⟨host, port, rfl, -, hport, hsplit⟩ := exists_of_port_ne_nil hne
  have hle := length_bare_le host
  have hpos := List.length_pos_iff.mpr hport
  rw [hsplit]
  simp only [List.length_append, List.length_cons]
  omega

/-- What follows an authority makes the host that `net.SplitHostPort` takes longer, or leaves it no number for a port. -/
theorem length_hostname_lt {text h path host port : Text} {n : Int} (hparse : parseHost text = some h)
    (hne : (splitHostPort h).2 ≠ []) (hpath : path.head? = some '/')
    (hsplit : HostPort.splitHostPort (text ++ path) = some (host, port)) (hport : atoi port = some n) :
    (splitHostPort h).1.length < host.length := by
  have hshort := length_hostname_add_le hne
  have hle := length_parseHost_le hparse
  obtain ⟨hcolon, hforms⟩ := HostPort.splitHostPort_eq_some hsplit
  have hslash : '/' ∉ port := fun hmem => absurd (rune_of_atoi hport _ hmem) (by decide)
  obtain ⟨rest, rfl⟩ := List.head?_eq_some_iff.mp hpath
  have hlen : text.length + 2 ≤ (text ++ '/' :: rest).length - port.length := by
    -- the port stands behind the last colon, and the slash before it
    have hsome : ∃ front, text ++ '/' :: rest = front ++ ':' :: port := by
      obtain hform | ⟨hform, -, -⟩ := hforms
      · exact ⟨'[' :: host ++ [']'], by rw [hform]; simp⟩
      · exact ⟨host, hform⟩
    obtain ⟨front, hfront⟩ := hsome
    obtain ⟨mid, hfront', hrest⟩ | ⟨mid, htext, hport'⟩ := List.append_eq_append_iff.mp hfront
    · cases mid with
      | nil => exact absurd (List.cons.inj hrest).1 (by decide)
      | cons c mid =>
          rw [hfront, hfront']
          simp only [List.length_append, List.length_cons]
          omega
    · cases mid with
      | nil => exact absurd (List.cons.inj hport').1.symm (by decide)
      | cons c mid =>
          refine absurd ?_ hslash
          rw [(List.cons.inj hport').2]
          simp
  obtain hform | ⟨hform, -, -⟩ := hforms
  all_goals
    rw [hform] at hlen
    simp only [List.length_append, List.length_cons] at hlen
    omega

/-! ### The text of a URL -/

theorem takeWhile_ne_of_not_mem {c : Char} {s : Text} (h : c ∉ s) : s.takeWhile (· != c) = s :=
  List.takeWhile_eq_self_iff.mpr fun d hd => by
    rw [bne_iff_ne]
    rintro rfl
    exact h hd

theorem takeWhile_ne_append {c : Char} {s : Text} (h : c ∉ s) (t : Text) :
    (s ++ t).takeWhile (· != c) = s ++ t.takeWhile (· != c) :=
  List.takeWhile_append_of_pos fun d hd => by
    rw [bne_iff_ne]
    rintro rfl
    exact h hd

theorem cutQuery_fst (rest : Text) : (cutQuery rest).1 = rest.takeWhile (· != '?') := by
  unfold cutQuery
  split
  · rename_i h
    obtain ⟨front, rfl⟩ : ∃ front, rest = front ++ ['?'] := by
      obtain ⟨hne, heq⟩ := List.mem_getLast?_eq_getLast h.1
      exact ⟨rest.dropLast, by rw [heq, List.dropLast_append_getLast hne]⟩
    have hfront : '?' ∉ front := by
      have hcount := h.2
      rw [List.count_append, List.count_singleton_self] at hcount
      exact List.count_eq_zero.mp (by omega)
    rw [takeWhile_ne_append hfront]
    simp
  · split
    · rename_i front query hcut
      obtain ⟨rfl, hfront⟩ := cut_eq_some.mp hcut
      rw [takeWhile_ne_append hfront]
      simp
    · rename_i hcut
      rw [takeWhile_ne_of_not_mem (cut_eq_none.mp hcut)]

/-- A URL is its front's with the fragment set. -/
theorem parse_eq_some {link : Text} {u : URL} (h : parse link = some u) :
    ∃ v, parseFront (link.takeWhile (· != '#')) = some v ∧
      u = { v with fragment := u.fragment, rawFragment := u.rawFragment } := by
  unfold parse at h
  split at h
  · rename_i hcut
    rw [takeWhile_ne_of_not_mem (cut_eq_none.mp hcut)]
    exact ⟨u, h, rfl⟩
  · rename_i front fragment hcut
    obtain ⟨rfl, hfront⟩ := cut_eq_some.mp hcut
    obtain ⟨v, hv, h⟩ := Option.bind_eq_some_iff.mp h
    obtain ⟨decoded, -, h⟩ := Option.bind_eq_some_iff.mp h
    obtain rfl := Option.some.inj h
    refine ⟨v, ?_, rfl⟩
    rw [takeWhile_ne_append hfront]
    simpa using hv

theorem getScheme_eq_some {s name rest : Text} (h : getScheme s = some (name, rest)) (hne : name ≠ []) :
    s = name ++ ':' :: rest ∧ ':' ∉ name := by
  have hs := List.takeWhile_append_dropWhile (p := isSchemeRune) (l := s)
  have hcolon : ':' ∉ s.takeWhile isSchemeRune := fun hmem => absurd (List.mem_takeWhile_imp hmem) (by decide)
  unfold getScheme at h
  simp only at h
  split at h
  · cases h
  · rename_i first tail rest' hname hrest
    split at h
    · obtain ⟨rfl, rfl⟩ := Prod.mk.inj (Option.some.inj h)
      rw [hrest] at hs
      exact ⟨hs.symm, hcolon⟩
    · obtain ⟨rfl, rfl⟩ := Prod.mk.inj (Option.some.inj h)
      exact absurd rfl hne
  · obtain ⟨rfl, rfl⟩ := Prod.mk.inj (Option.some.inj h)
    exact absurd rfl hne

theorem setPath_eq_some {u v : URL} {path : Text} (h : setPath u path = some v) :
    ∃ decoded, unescape .path path = some decoded ∧
      v = { u with path := decoded, rawPath := if escape .path decoded = path then [] else path } := by
  obtain ⟨decoded, hdecoded, h⟩ := Option.bind_eq_some_iff.mp h
  exact ⟨decoded, hdecoded, (Option.some.inj h).symm⟩

theorem scheme_of_parseHierarchical {u v : URL} {rest : Text} (h : parseHierarchical u rest = some v) :
    v.scheme = u.scheme := by
  unfold parseHierarchical at h
  split at h
  · obtain ⟨part, -, h⟩ := Option.bind_eq_some_iff.mp h
    obtain ⟨decoded, -, rfl⟩ := setPath_eq_some h
    rfl
  · obtain ⟨decoded, -, rfl⟩ := setPath_eq_some h
    rfl

theorem plain_of_parseFront {s : Text} {u : URL} (h : parseFront s = some u) : ∀ c ∈ s, isControlByte c = false := by
  unfold parseFront at h
  split at h
  · cases h
  · rename_i hplain
    rw [Bool.not_eq_true, List.any_eq_false] at hplain
    exact fun c hc => Bool.not_eq_true _ ▸ hplain c hc

/-- The scheme of a URL, what stands behind its colon and what is made of that where it begins with a slash. -/
theorem parseFront_eq_some {s : Text} {u : URL} (h : parseFront s = some u) (hscheme : u.scheme ≠ []) :
    ∃ name rest, s = name ++ ':' :: rest ∧ ':' ∉ name ∧ toLower name = u.scheme ∧
      (rest.head? = some '/' → ∃ forceQuery rawQuery,
        parseHierarchical { scheme := u.scheme, forceQuery, rawQuery } (rest.takeWhile (· != '?')) = some u) := by
  unfold parseFront at h
  split at h
  · cases h
  split at h
  · obtain rfl := Option.some.inj h
    exact absurd rfl hscheme
  obtain ⟨⟨name, rest⟩, hget, h⟩ := Option.bind_eq_some_iff.mp h
  have hname : u.scheme = toLower name := by
    simp only at h
    split at h
    · exact scheme_of_parseHierarchical h
    split at h
    · obtain rfl := Option.some.inj h
      rfl
    split at h
    · cases h
    · exact scheme_of_parseHierarchical h
  have hne : name ≠ [] := by
    rintro rfl
    exact hscheme hname
  obtain ⟨hs, hcolon⟩ := getScheme_eq_some hget hne
  refine ⟨name, rest, hs, hcolon, hname.symm, fun hslash => ?_⟩
  have hhead : (cutQuery rest).1.head? = some '/' := by
    obtain ⟨tail, rfl⟩ := List.head?_eq_some_iff.mp hslash
    rw [cutQuery_fst]
    rfl
  refine ⟨(cutQuery rest).2.1, (cutQuery rest).2.2, ?_⟩
  rw [hname, ← cutQuery_fst]
  simp only [if_pos hhead] at h
  exact h

/-- What stands behind the scheme of a link, up to its query and its remark. -/
def bodyOf (text : Text) : Text := (text.takeWhile (· != '#')).takeWhile (· != '?')

/-- The authority and the path of a link `name://text`. -/
structure Written (text : Text) (u : URL) (authority path : Text) : Prop where
  body : bodyOf text = authority ++ path
  slash : '/' ∉ authority
  pathHead : path = [] ∨ path.head? = some '/'
  parsed : parseAuthority authority = some (u.user, u.host)
  decoded : unescape .path path = some u.path
  rawPath : u.rawPath = if escape .path u.path = path then [] else path
  rootless : u.rootless = []
  omitHost : u.omitHost = false
  plain : ∀ c ∈ bodyOf text, isControlByte c = false

theorem exists_written {name text : Text} {u : URL} (h : parse (name ++ "://".toList ++ text) = some u)
    (hname : ':' ∉ name ∧ '#' ∉ name) (hscheme : u.scheme ≠ []) :
    u.scheme = toLower name ∧ ∃ authority path, Written text u authority path := by
  obtain ⟨v, hv, hu⟩ := parse_eq_some h
  have hvscheme : v.scheme ≠ [] := by
    rw [hu] at hscheme
    exact hscheme
  have hplain := plain_of_parseFront hv
  obtain ⟨name', rest, hs, hcolon, hlower, hrest⟩ := parseFront_eq_some hv hvscheme
  have hfront : (name ++ "://".toList ++ text).takeWhile (· != '#') =
      name ++ ':' :: '/' :: '/' :: text.takeWhile (· != '#') := by
    have hplain : '#' ∉ name ++ "://".toList := by
      rw [List.mem_append, not_or]
      exact ⟨hname.2, by decide⟩
    rw [takeWhile_ne_append hplain]
    simp
  obtain ⟨rfl, rfl⟩ := eq_of_first (hs.symm.trans hfront) hcolon hname.1
  obtain ⟨forceQuery, rawQuery, hv⟩ := hrest rfl
  have hbody : ('/' :: '/' :: text.takeWhile (· != '#')).takeWhile (· != '?') = "//".toList ++ bodyOf text := by
    rw [bodyOf]
    rfl
  have hslashes : "//".toList.isPrefixOf ("//".toList ++ bodyOf text) = true :=
    List.isPrefixOf_iff_prefix.mpr (List.prefix_append ..)
  rw [hbody, parseHierarchical, if_pos ⟨hslashes, .inl hvscheme⟩] at hv
  obtain ⟨⟨user, host⟩, hauthority, hv⟩ := Option.bind_eq_some_iff.mp hv
  obtain ⟨decoded, hdecoded, hveq⟩ := setPath_eq_some hv
  have hmem : ∀ c ∈ bodyOf text, c ∈ (name' ++ "://".toList ++ text).takeWhile (· != '#') := by
    intro c hc
    rw [hfront]
    have htext := List.Sublist.mem hc (List.takeWhile_sublist _)
    simp [htext]
  refine ⟨by rw [hu]; exact hlower.symm, (bodyOf text).takeWhile (· != '/'), (bodyOf text).dropWhile (· != '/'), ?_⟩
  rw [hu, hveq]
  exact
    { body := (List.takeWhile_append_dropWhile ..).symm
      slash := fun hmem => absurd (List.mem_takeWhile_imp hmem) (by decide)
      pathHead := by
        have hhead := List.head?_dropWhile_not (· != '/') (bodyOf text)
        cases hdrop : (bodyOf text).dropWhile (· != '/') with
        | nil => exact .inl rfl
        | cons c path =>
            rw [hdrop] at hhead
            simp only [List.head?_cons, bne_eq_false_iff_eq] at hhead
            exact .inr (by rw [hhead]; rfl)
      parsed := hauthority
      decoded := hdecoded
      rawPath := rfl
      rootless := rfl
      omitHost := rfl
      plain := fun c hc => hplain c (hmem c hc) }

end Url
