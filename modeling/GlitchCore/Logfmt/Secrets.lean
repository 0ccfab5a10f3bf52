import GlitchCore.Logfmt.Scrub

/-!
# What a scrubbed line says about a secret

Two lines that differ in the secret of a share link have one scrubbed form. Either link pass meets the whole link
in one match and puts the scheme in its place: the quoted pass because `strconv.Quote` never leaves a bare quote
before the closing one, the bare pass because no match that starts before the link can end inside it.
-/

namespace GlitchCore.Logfmt

open GoText GoQuote Regex

/-! ### A listed scheme, in either case of its letters -/

theorem isAlphanum_of_toLower {c : Char} (h : (c.toLower.isLower || c.toLower.isDigit) = true) :
    c.isAlphanum = true := by
  have halnum : c.isAlphanum = (c.isUpper || c.isLower || c.isDigit) := rfl
  unfold Char.toLower at h
  rw [halnum]
  split at h
  next hupper =>
    have : c.isUpper = true := decide_eq_true hupper
    rw [this]
    rfl
  next => rw [Bool.or_assoc, h, Bool.or_true]

theorem toNat_of_isAlphanum {c : Char} (h : c.isAlphanum = true) :
    48 ≤ c.toNat ∧ c.toNat ≤ 57 ∨ 65 ≤ c.toNat ∧ c.toNat ≤ 90 ∨ 97 ≤ c.toNat ∧ c.toNat ≤ 122 := by
  have halnum : (c.isUpper || c.isLower || c.isDigit) = true := h
  simp only [Bool.or_eq_true] at halnum
  obtain (h | h) | h := halnum
  · exact .inr (.inl (toNat_of_isUpper h))
  · exact .inr (.inr (toNat_of_isLower h))
  · exact .inl (toNat_of_isDigit h)

theorem toLowerRune_of_isAlphanum {c : Char} (h : c.isAlphanum = true) : toLowerRune c = c.toLower := by
  have hrange := toNat_of_isAlphanum h
  have hval : c.toNat = c.val.toNat := rfl
  have hA : 'A'.val.toNat = 65 := rfl
  have hZ : 'Z'.val.toNat = 90 := rfl
  rw [toLowerRune, if_pos (by omega)]
  unfold Char.toLower
  by_cases hup : 65 ≤ c.toNat ∧ c.toNat ≤ 90
  · rw [if_pos hup, dif_pos (by simp only [ge_iff_le, UInt32.le_iff_toNat_le]; omega)]
    refine Char.toNat_inj.mp ?_
    have hvalid : (c.toNat + 32).isValidChar := .inl (by omega)
    rw [Char.ofNat, dif_pos hvalid]
    change c.toNat + 32 = (c.val + ('a'.val - 'A'.val)).toNat
    rw [UInt32.toNat_add]
    change c.toNat + 32 = (c.val.toNat + 32) % 2 ^ 32
    omega
  · rw [if_neg hup, dif_neg (by simp only [ge_iff_le, UInt32.le_iff_toNat_le]; omega)]

theorem urlRune_of_isAlphanum {c : Char} (h : c.isAlphanum = true) : urlRune c = true := by
  have hrange := toNat_of_isAlphanum h
  have hne : ∀ d : Char, d.toNat < 48 ∨ 57 < d.toNat ∧ d.toNat < 65 → (c == d) = false := by
    intro d hd
    refine beq_eq_false_iff_ne.mpr ?_
    rintro rfl
    omega
  simp only [urlRune, isBlank, hne '\t' (by decide), hne '\n' (by decide), hne '\r' (by decide), hne ' ' (by decide),
    hne '"' (by decide), hne '<' (by decide), hne '>' (by decide), Bool.or_false, Bool.false_or, Bool.not_or,
    Bool.and_eq_true, Bool.not_eq_true', beq_eq_false_iff_ne]
  omega

/-- What the patterns read as a scheme. -/
structure Opens (scheme : Text) : Prop where
  starts : ∀ c s, scheme = c :: s → isWord c = true ∧ schemeStart c = true ∧ ∀ d ∈ s, schemeRune d = true
  nonempty : scheme ≠ []

structure Scheme (scheme : Text) : Prop extends Opens scheme where
  alphanum : ∀ c ∈ scheme, c.isAlphanum = true
  listed : toLower scheme ∈ shareLinkSchemes

/-- A listed scheme: a letter and then letters and digits, all lower-case. -/
def tidyScheme : Text → Bool
  | [] => false
  | c :: s => c.isLower && s.all fun d => d.isLower || d.isDigit

theorem tidyScheme_listed {scheme : Text} (h : scheme ∈ shareLinkSchemes) : tidyScheme scheme = true := by
  have hall : (shareLinkSchemes.all tidyScheme) = true := by decide
  exact List.all_eq_true.mp hall scheme h

theorem foldCase_of_toLower {f : Char → Bool} {c : Char} (h : f c.toLower = true) : foldCase f c = true := by
  simp [foldCase, h]

theorem scheme_of_listed {scheme : Text} (h : scheme.map Char.toLower ∈ shareLinkSchemes) : Scheme scheme := by
  have htidy := tidyScheme_listed h
  cases scheme with
  | nil => cases htidy
  | cons c s =>
      rw [List.map_cons, tidyScheme, Bool.and_eq_true, List.all_eq_true] at htidy
      have hrest : ∀ d ∈ s, (d.toLower.isLower || d.toLower.isDigit) = true := fun d hd =>
        htidy.2 _ (List.mem_map_of_mem hd)
      have halnum : ∀ d ∈ c :: s, d.isAlphanum = true := by
        intro d hd
        obtain rfl | hd := List.mem_cons.mp hd
        · exact isAlphanum_of_toLower (by rw [htidy.1, Bool.true_or])
        · exact isAlphanum_of_toLower (hrest d hd)
      refine ⟨⟨?_, List.cons_ne_nil c s⟩, halnum, ?_⟩
      · rintro c' s' heq
        cases heq
        refine ⟨by rw [isWord, halnum c List.mem_cons_self, Bool.true_or], foldCase_of_toLower htidy.1,
          fun d hd => foldCase_of_toLower ?_⟩
        simp only [hrest d hd, Bool.true_or]
      · have hlower : toLower (c :: s) = (c :: s).map Char.toLower :=
          List.map_congr_left fun d hd => toLowerRune_of_isAlphanum (halnum d hd)
        rwa [hlower]

theorem Scheme.notMem {scheme : Text} (hscheme : Scheme scheme) {c : Char} (hc : c.isAlphanum = false) :
    c ∉ scheme := fun hmem => by
  rw [hscheme.alphanum c hmem] at hc
  cases hc

/-! ### What a match leaves -/

theorem scrubURL_listed {scheme : Text} (hscheme : Scheme scheme) (t : Text) :
    scrubURL (scheme ++ "://".toList ++ t) = scheme ++ "://".toList ++ redacted := by
  rw [scrubURL_link (hscheme.notMem (by decide)), hideRest, if_pos hscheme.listed]

theorem spans_append {f : Char → Bool} {s : Text} (hs : ∃ c ∈ s, f c = false) (t : Text) :
    (s ++ t).takeWhile f = s.takeWhile f ∧ (s ++ t).dropWhile f = s.dropWhile f ++ t := by
  obtain ⟨c, hc, hfc⟩ := hs
  have hne : s.dropWhile f ≠ [] := fun hnil => by
    rw [List.dropWhile_eq_nil_iff.mp hnil c hc] at hfc
    cases hfc
  have hlength := congrArg List.length (List.takeWhile_append_dropWhile (p := f) (l := s))
  rw [List.length_append] at hlength
  have hpos := List.length_pos_iff.mpr hne
  rw [List.takeWhile_append, if_neg (by omega), List.dropWhile_append, if_neg (by simpa using hne)]
  exact ⟨rfl, rfl⟩

/-- Nothing that stands behind a second `//` comes out. -/
theorem scrubURL_slashes {s : Text} (hs : ':' ∉ s) (w z z' : Text) :
    scrubURL (s ++ "://".toList ++ (w ++ '/' :: '/' :: z)) = scrubURL (s ++ "://".toList ++ (w ++ '/' :: '/' :: z')) := by
  rw [scrubURL_link hs, scrubURL_link hs, hideRest, hideRest]
  split
  · rfl
  · have hspan := spans_append (f := fun c => !isEnd c) (s := w ++ ['/']) ⟨'/', by simp, rfl⟩
    have hne : ((w ++ ['/']).dropWhile fun c => !isEnd c) ≠ [] := fun hnil =>
      absurd (List.dropWhile_eq_nil_iff.mp hnil '/' (by simp)) (by decide)
    obtain ⟨e, t, hdrop⟩ := List.exists_cons_of_ne_nil hne
    rw [List.append_cons, List.append_cons w '/' ('/' :: z'), (hspan _).1, (hspan _).2, (hspan _).1, (hspan _).2, hdrop,
      hideTail, hideTail, if_pos (by simp), if_pos (by simp)]
    rfl

/-! ### The quoted pass -/

theorem outcomes_quotedPiece_plain {p : Pos} {c : Char} {s : Text} (hrest : p.rest = c :: s) (hquote : c ≠ '"')
    (hback : c ≠ '\\') : quotedPiece.outcomes p = [p.after [c] s] := by
  rw [quotedPiece, Expr.outcomes, outcomes_rune_of_pos hrest (by simp [hquote, hback]), outcomes_cat,
    outcomes_rune_of_neg]
  · rfl
  · rintro d t heq
    rw [hrest] at heq
    cases heq
    exact beq_eq_false_iff_ne.mpr hback

theorem outcomes_quotedPiece_escaped {p : Pos} {c : Char} {s : Text} (hrest : p.rest = '\\' :: c :: s)
    (hc : c ≠ '\n') : quotedPiece.outcomes p = [p.after ['\\', c] s] := by
  rw [quotedPiece, Expr.outcomes, outcomes_rune_of_neg, outcomes_cat, outcomes_rune_of_pos hrest (by rfl),
    List.flatMap_singleton, outcomes_rune_of_pos rfl (by simpa using hc)]
  · rfl
  · rintro d t heq
    rw [hrest] at heq
    cases heq
    rfl

/-- The pieces of a quoted body are read one after another, up to the closing quote. -/
theorem loop_quotedPiece {body : Text} (hbody : Pieces body) (t : Text) {p : Pos} (hrest : p.rest = body ++ '"' :: t) :
    Loop quotedPiece (fun r => ∃ c s, r.rest = c :: s ∧ c ≠ '"') p (p.after body ('"' :: t)) := by
  induction hbody generalizing p with
  | nil =>
      have hp : p.after [] ('"' :: t) = p := by
        rw [Pos.after, List.getLast?_nil, Option.none_or, ← List.nil_append ('"' :: t), ← hrest]
      rw [hp]
      refine .stop ?_
      simp [quotedPiece, Expr.outcomes, hrest]
  | @cons w s hpiece _ ih =>
      rw [List.append_assoc] at hrest
      have hafter : (p.after w (s ++ '"' :: t)).after s ('"' :: t) = p.after (w ++ s) ('"' :: t) := by
        simp only [Pos.after, List.getLast?_append, Option.or_assoc]
      have hlt : (s ++ '"' :: t).length < p.rest.length := by
        have hw : 0 < w.length := by cases hpiece <;> exact Nat.succ_pos _
        have hsum : (w ++ (s ++ '"' :: t)).length = w.length + (s ++ '"' :: t).length := List.length_append
        rw [hrest, hsum]
        omega
      rw [← hafter]
      cases hpiece with
      | plain hquote hback =>
          exact .turn (outcomes_quotedPiece_plain hrest hquote hback) hlt ⟨_, _, hrest, hquote⟩ (ih rfl)
      | escaped hc =>
          exact .turn (outcomes_quotedPiece_escaped hrest hc) hlt ⟨_, _, hrest, by decide⟩ (ih rfl)

/-- A scheme is read as a whole, with the slashes after it. -/
theorem outcomes_urlExpr_scheme {scheme : Text} (hscheme : Opens scheme) (tail : Expr) {p : Pos} {t : Text}
    (hrest : p.rest = scheme ++ "://".toList ++ t) :
    (urlExpr tail).outcomes p = tail.outcomes (p.after (scheme ++ "://".toList) t) := by
  obtain ⟨c, s, rfl⟩ := List.exists_cons_of_ne_nil hscheme.nonempty
  obtain ⟨-, hc, hs⟩ := hscheme.starts c s rfl
  have hstop : ¬schemeRune ':' = true := by decide
  have htake : (s ++ ("://".toList ++ t)).takeWhile schemeRune = s := by
    rw [List.takeWhile_append_of_pos hs]
    exact (congrArg (s ++ ·) (List.takeWhile_cons_of_neg hstop)).trans (List.append_nil s)
  have hdrop : (s ++ ("://".toList ++ t)).dropWhile schemeRune = "://".toList ++ t := by
    rw [List.dropWhile_append_of_pos hs]
    exact List.dropWhile_cons_of_neg hstop
  rw [List.append_assoc, List.cons_append] at hrest
  rw [outcomes_urlExpr tail hrest hc, htake, hdrop, outcomes_slashes]
  change tail.outcomes ((p.after (c :: s) _).after "://".toList t) = _
  simp only [Pos.after, List.getLast?_append, Option.or_assoc]

theorem matchAt_quotedURLPattern {scheme body : Text} (hscheme : Opens scheme) (hbody : Pieces body)
    (prev : Option Char) (t : Text) :
    ∃ groups, quotedURLPattern.matchAt prev ('"' :: (scheme ++ "://".toList ++ body) ++ ['"'] ++ t) =
      some ⟨'"' :: (scheme ++ "://".toList ++ body) ++ ['"'], groups⟩ := by
  have htext : '"' :: (scheme ++ "://".toList ++ body) ++ ['"'] ++ t =
      '"' :: (scheme ++ "://".toList ++ (body ++ '"' :: t)) := by
    simp only [List.cons_append, List.append_assoc, List.nil_append]
  have hboundary : Pos.atWordBoundary ⟨some '"', scheme ++ "://".toList ++ (body ++ '"' :: t), []⟩ = true := by
    obtain ⟨c, s, rfl⟩ := List.exists_cons_of_ne_nil hscheme.nonempty
    change (false != isWord c) = true
    rw [(hscheme.starts c s rfl).1]
    rfl
  have hloop := loop_quotedPiece hbody t
    (p := Pos.after ⟨some '"', scheme ++ "://".toList ++ (body ++ '"' :: t), []⟩ (scheme ++ "://".toList)
      (body ++ '"' :: t)) rfl
  rw [Expr.matchAt, htext, quotedURLPattern, outcomes_cat, outcomes_rune_of_pos rfl (by rfl), List.flatMap_singleton,
    outcomes_cat, Expr.outcomes, if_pos hboundary, List.flatMap_singleton, outcomes_cat, Expr.outcomes,
    List.flatMap_map, outcomes_urlExpr_scheme hscheme _ rfl, hloop.flatMap_star]
  · rw [outcomes_rune_of_pos rfl (by rfl), List.head?_cons, Option.map_some, Pos.until_of_append]
    · exact ⟨_, rfl⟩
    · simp only [List.cons_append, List.append_assoc, List.nil_append]
  · rintro r ⟨c, s, hr, hc⟩
    refine outcomes_rune_of_neg ?_
    rintro d u heq
    change r.rest = d :: u at heq
    rw [hr] at heq
    cases heq
    exact beq_eq_false_iff_ne.mpr hc

theorem matchAt_quotedURLPattern_none (prev : Option Char) {c : Char} (hc : (c == '"') = false) (s : Text) :
    quotedURLPattern.matchAt prev (c :: s) = none := by
  rw [Expr.matchAt, quotedURLPattern, outcomes_cat, outcomes_rune_of_neg]
  · rfl
  · rintro d t heq
    cases heq
    exact hc

/-- The text a link is quoted from. -/
def linkSymbols (scheme : Text) (x : List Symbol) : List Symbol :=
  scheme.map Symbol.rune ++ "://".toList.map Symbol.rune ++ x

theorem escapeRune_plain {isPrint : Char → Bool} {c : Char} (hprint : isPrint c = true) (hquote : c ≠ '"')
    (hback : c ≠ '\\') : escapeRune isPrint c = [c] := by
  rw [escapeRune, if_neg (by simp [hquote, hback]), if_pos hprint]

theorem flatMap_escape_plain {isPrint : Char → Bool} {s : Text}
    (hs : ∀ c ∈ s, isPrint c = true ∧ c ≠ '"' ∧ c ≠ '\\') : (s.map Symbol.rune).flatMap (escape isPrint) = s := by
  induction s with
  | nil => rfl
  | cons c s ih =>
      obtain ⟨hprint, hquote, hback⟩ := hs c List.mem_cons_self
      rw [List.map_cons, List.flatMap_cons, escape, escapeRune_plain hprint hquote hback,
        ih fun d hd => hs d (List.mem_cons_of_mem c hd), List.singleton_append]

section Quoted

variable {isPrint : Char → Bool} (hprint : ∀ c : Char, 0x20 ≤ c.toNat → c.toNat ≤ 0x7e → isPrint c = true)
  {scheme : Text} (hscheme : Scheme scheme)

include hprint hscheme

theorem quote_linkSymbols (x : List Symbol) : quote isPrint (linkSymbols scheme x) =
    '"' :: (scheme ++ "://".toList ++ x.flatMap (escape isPrint)) ++ ['"'] := by
  have hs : ∀ c ∈ scheme, isPrint c = true ∧ c ≠ '"' ∧ c ≠ '\\' := by
    intro c hc
    have hrange := toNat_of_isAlphanum (hscheme.alphanum c hc)
    refine ⟨hprint c (by omega) (by omega), ?_, ?_⟩
    · rintro rfl
      exact absurd hc (hscheme.notMem (by decide))
    · rintro rfl
      exact absurd hc (hscheme.notMem (by decide))
  have hslashes : ∀ c ∈ "://".toList, isPrint c = true ∧ c ≠ '"' ∧ c ≠ '\\' := by
    intro c hc
    have hcases : c = ':' ∨ c = '/' := by simpa using hc
    obtain rfl | rfl := hcases
    · exact ⟨hprint ':' (by decide) (by decide), by decide, by decide⟩
    · exact ⟨hprint '/' (by decide) (by decide), by decide, by decide⟩
  rw [quote, linkSymbols, List.flatMap_append, List.flatMap_append, flatMap_escape_plain hs,
    flatMap_escape_plain hslashes]

/-- The quoted pass leaves the scheme of a quoted link. -/
theorem replaceAll_quoted {before : Text} (hbefore : '"' ∉ before) (x : List Symbol) (after : Text) :
    replaceAll quotedURLPattern scrubQuoted (before ++ quote isPrint (linkSymbols scheme x) ++ after) =
      before ++ ('"' :: (scheme ++ "://".toList ++ redacted) ++ ['"'] ++
        replaceFrom quotedURLPattern scrubQuoted 0 (some '"') after) := by
  have hcopied : ∀ c ∈ before, (c == '"') = false := by
    intro c hc
    refine beq_eq_false_iff_ne.mpr ?_
    rintro rfl
    exact hbefore hc
  obtain ⟨groups, hmatch⟩ := matchAt_quotedURLPattern hscheme.toOpens (pieces_escape isPrint x) (before.getLast?.or none) after
  have hlink : scrubQuoted ⟨'"' :: (scheme ++ "://".toList ++ x.flatMap (escape isPrint)) ++ ['"'], groups⟩ =
      '"' :: (scheme ++ "://".toList ++ redacted) ++ ['"'] := by
    change '"' :: scrubURL (scheme ++ "://".toList ++ x.flatMap (escape isPrint) ++ ['"']).dropLast ++ ['"'] = _
    rw [List.dropLast_concat, scrubURL_listed hscheme]
  rw [replaceAll, quote_linkSymbols hprint hscheme, List.append_assoc,
    replaceFrom_append_of_noStart (fun prev c s hc => matchAt_quotedURLPattern_none prev hc s) hcopied,
    replaceFrom_match hmatch rfl (by simp), hlink, List.getLast?_concat]

end Quoted

/-! ### The bare pass -/

/-- White space as C has it; the class `\s` has no vertical tab. -/
def isAsciiSpace (c : Char) : Bool := isBlank c || c.toNat == 0x0b

theorem mem_of_isAsciiSpace {c : Char} (h : isAsciiSpace c = true) :
    c ∈ ['\t', '\n', Char.ofNat 0x0b, Char.ofNat 0x0c, '\r', ' '] := by
  simp only [isAsciiSpace, isBlank, Bool.or_eq_true, beq_iff_eq] at h
  obtain ((((rfl | rfl) | h) | rfl) | rfl) | h := h
  · decide
  · decide
  · rw [← Char.ofNat_toNat c, h]
    decide
  · decide
  · decide
  · rw [← Char.ofNat_toNat c, h]
    decide

theorem facts_of_isAsciiSpace {c : Char} (h : isAsciiSpace c = true) :
    schemeStart c = false ∧ schemeRune c = false ∧ isWord c = false ∧ c ≠ ':' ∧ c ≠ '/' := by
  have hall : (['\t', '\n', Char.ofNat 0x0b, Char.ofNat 0x0c, '\r', ' '].all fun c => decide
      (schemeStart c = false ∧ schemeRune c = false ∧ isWord c = false ∧ c ≠ ':' ∧ c ≠ '/')) = true := by decide
  exact of_decide_eq_true (List.all_eq_true.mp hall c (mem_of_isAsciiSpace h))

theorem schemeStart_of_not_urlRune {c : Char} (h : urlRune c = false) : schemeStart c = false := by
  have hmem : c ∈ ['\t', '\n', Char.ofNat 0x0c, '\r', ' ', '"', '<', '>', Char.ofNat 0x60] := by
    simp only [urlRune, isBlank, Bool.not_eq_false', Bool.or_eq_true, beq_iff_eq] at h
    obtain (((((((rfl | rfl) | h) | rfl) | rfl) | rfl) | rfl) | rfl) | h := h
    any_goals decide
    all_goals
      rw [← Char.ofNat_toNat c, h]
      decide
  have hall : (['\t', '\n', Char.ofNat 0x0c, '\r', ' ', '"', '<', '>', Char.ofNat 0x60].all fun c =>
      !schemeStart c) = true := by decide
  simpa using List.all_eq_true.mp hall c hmem

def scrubBare (m : Match) : Text := scrubURL m.text

/-- What follows a match does not see it: no match starts where a URL ends. -/
theorem replaceFrom_dropWhile (prev : Option Char) (s : Text) :
    replaceFrom urlPattern scrubBare 0 prev (s.dropWhile urlRune) =
      replaceFrom urlPattern scrubBare 0 none (s.dropWhile urlRune) := by
  cases hs : s.dropWhile urlRune with
  | nil => rfl
  | cons c t =>
      have hc : urlRune c = false := by
        have hne : s.dropWhile urlRune ≠ [] := by simp [hs]
        have hhead := List.head_dropWhile_not urlRune hne
        simpa [hs] using hhead
      have hnone : ∀ prev, urlPattern.matchAt prev (c :: t) = none := fun prev => by
        rw [matchAt_urlPattern, urlAt, schemeStart_of_not_urlRune hc, Bool.and_false, if_neg Bool.false_ne_true]
        rfl
      rw [replaceFrom_none (hnone prev), replaceFrom_none (hnone none)]

theorem not_mem_colon {c : Char} {run : Text} (hc : schemeStart c = true) (hrun : ∀ d ∈ run, schemeRune d = true) :
    ':' ∉ c :: run := by
  rintro (_ | ⟨_, hmem⟩)
  · exact absurd hc (by decide)
  · exact absurd (hrun _ hmem) (by decide)

theorem urlAt_eq_some {prev : Option Char} {c : Char} {run body t : Text} (hprev : (prev.any isWord != isWord c) = true)
    (hc : schemeStart c = true) (hrun : ∀ d ∈ run, schemeRune d = true) (hbody : ∀ d ∈ body, urlRune d = true)
    (hne : body ≠ []) : urlAt prev (c :: run ++ "://".toList ++ body ++ t) =
      some (c :: run ++ "://".toList ++ (body ++ t.takeWhile urlRune)) := by
  have hstop : ¬schemeRune ':' = true := by decide
  have htake : (run ++ ("://".toList ++ (body ++ t))).takeWhile schemeRune = run := by
    rw [List.takeWhile_append_of_pos hrun]
    exact (congrArg (run ++ ·) (List.takeWhile_cons_of_neg hstop)).trans (List.append_nil run)
  have hdrop : (run ++ ("://".toList ++ (body ++ t))).dropWhile schemeRune = "://".toList ++ (body ++ t) := by
    rw [List.dropWhile_append_of_pos hrun]
    exact List.dropWhile_cons_of_neg hstop
  have hnonempty : (body ++ t.takeWhile urlRune).isEmpty = false := by simp [hne]
  rw [List.append_assoc, List.append_assoc, List.cons_append, urlAt, hprev, hc, Bool.true_and, if_pos rfl, htake,
    hdrop, pastSlashes_eq_some.mpr rfl]
  dsimp only
  rw [List.takeWhile_append_of_pos hbody, hnonempty, if_neg Bool.false_ne_true]

/-- The bare pass on a match: what it leaves, and the text behind it. -/
theorem replaceFrom_url {prev : Option Char} {w t : Text} (h : urlAt prev (w ++ t) = some (w ++ t.takeWhile urlRune))
    (hw : w ≠ []) : replaceFrom urlPattern scrubBare 0 prev (w ++ t) =
      scrubURL (w ++ t.takeWhile urlRune) ++ replaceFrom urlPattern scrubBare 0 none (t.dropWhile urlRune) := by
  have hsplit : w ++ t = (w ++ t.takeWhile urlRune) ++ t.dropWhile urlRune := by
    rw [List.append_assoc, List.takeWhile_append_dropWhile]
  have hmatch : urlPattern.matchAt prev (w ++ t) = some ⟨w ++ t.takeWhile urlRune, []⟩ := by
    rw [matchAt_urlPattern, h, Option.map_some]
  rw [hsplit] at hmatch ⊢
  rw [replaceFrom_match hmatch rfl (by simp [hw]), replaceFrom_dropWhile]
  rfl

/-- A secret of a bare link. -/
def Secret (x : Text) : Prop := x ≠ [] ∧ ∀ c ∈ x, urlRune c = true

/-- The part of a line before a link ends in white space, if there is one. -/
def EndsBlank (before : Text) : Prop := ∀ c ∈ before.getLast?, isAsciiSpace c = true

theorem EndsBlank.of_append {s t : Text} (h : EndsBlank (s ++ t)) : EndsBlank t := by
  intro c hc
  refine h c ?_
  rw [List.getLast?_append, Option.mem_def.mp hc]
  rfl

theorem EndsBlank.exists_mem {s : Text} (h : EndsBlank s) (hne : s ≠ []) : ∃ c ∈ s, isAsciiSpace c = true :=
  ⟨s.getLast hne, List.getLast_mem hne, h _ (List.getLast?_eq_getLast_of_ne_nil hne)⟩

theorem pastSlashes_eq_none {a b d : Char} (h : ¬(a = ':' ∧ b = '/' ∧ d = '/')) (s : Text) :
    pastSlashes (a :: b :: d :: s) = none := by
  refine Option.eq_none_iff_forall_ne_some.mpr fun t ht => h ?_
  simpa using congrArg (List.take 3) (pastSlashes_eq_some.mp ht)

theorem pastSlashes_append {s : Text} (hs : EndsBlank s) (hne : s ≠ []) (t : Text) :
    pastSlashes (s ++ t) = (pastSlashes s).map (· ++ t) := by
  have hlast : ∀ c, isAsciiSpace c = true → c ≠ ':' ∧ c ≠ '/' := fun c hc =>
    (facts_of_isAsciiSpace hc).2.2.2
  match s, hne, hs with
  | [a], _, hs =>
      have ha := hlast a (hs a rfl)
      simp [pastSlashes, ha.1]
  | [a, b], _, hs =>
      have hb := hlast b (hs b rfl)
      simp [pastSlashes, hb.2]
  | a :: b :: d :: s, _, _ =>
      by_cases h : a = ':' ∧ b = '/' ∧ d = '/'
      · obtain ⟨rfl, rfl, rfl⟩ := h
        rfl
      · rw [List.cons_append, List.cons_append, List.cons_append, pastSlashes_eq_none h, pastSlashes_eq_none h]
        rfl

section Bare

variable {scheme : Text} (hscheme : Scheme scheme) (after : Text)

include hscheme

theorem replaceFrom_link {prev : Option Char} (hprev : prev.any isWord = false) {x : Text} (hx : Secret x) :
    replaceFrom urlPattern scrubBare 0 prev (scheme ++ "://".toList ++ x ++ after) =
      scheme ++ "://".toList ++ redacted ++ replaceFrom urlPattern scrubBare 0 none (after.dropWhile urlRune) := by
  obtain ⟨c, s, rfl⟩ := List.exists_cons_of_ne_nil hscheme.nonempty
  obtain ⟨hword, hc, hs⟩ := hscheme.starts c s rfl
  have hboundary : (prev.any isWord != isWord c) = true := by
    rw [hprev, hword]
    rfl
  have hurl := urlAt_eq_some (t := after) hboundary hc hs hx.2 hx.1
  rw [← List.append_assoc] at hurl
  rw [replaceFrom_url hurl (by simp), List.append_assoc _ x, scrubURL_listed hscheme]

/-- A match that starts before a link ends before it, or takes all of it. -/
theorem urlAt_before (prev : Option Char) {c : Char} {before : Text} (hbefore : EndsBlank (c :: before)) :
    (∃ found : Option Text, (∀ u ∈ found, u ≠ [] ∧ u.length ≤ before.length + 1) ∧
      ∀ x, Secret x → urlAt prev (c :: before ++ (scheme ++ "://".toList ++ x ++ after)) = found) ∨
    ∃ s w, ':' ∉ s ∧ c :: before = s ++ "://".toList ++ w ∧ s ≠ [] ∧ ∀ x, Secret x →
      urlAt prev (c :: before ++ (scheme ++ "://".toList ++ x) ++ after) =
        some (c :: before ++ (scheme ++ "://".toList ++ x) ++ after.takeWhile urlRune) := by
  by_cases hgo : ((prev.any isWord != isWord c) && schemeStart c) = true
  swap
  · refine .inl ⟨none, by simp, fun x _ => ?_⟩
    rw [List.cons_append, urlAt, if_neg hgo]
  obtain ⟨hprev, hc⟩ := Bool.and_eq_true .. |>.mp hgo
  have hne : before ≠ [] := by
    rintro rfl
    rw [(facts_of_isAsciiSpace (hbefore c rfl)).1] at hc
    cases hc
  have hends : EndsBlank before := EndsBlank.of_append (s := [c]) hbefore
  obtain ⟨d, hd, hblank⟩ := hends.exists_mem hne
  have hspan := spans_append (f := schemeRune) ⟨d, hd, (facts_of_isAsciiSpace hblank).2.1⟩
  -- what stands behind the run of scheme characters is inside `before`
  have hsplit := List.takeWhile_append_dropWhile (p := schemeRune) (l := before)
  have hrest : before.dropWhile schemeRune ≠ [] := by
    intro hnil
    have hall := List.dropWhile_eq_nil_iff.mp hnil d hd
    rw [(facts_of_isAsciiSpace hblank).2.1] at hall
    cases hall
  have hrestEnds : EndsBlank (before.dropWhile schemeRune) :=
    EndsBlank.of_append (s := before.takeWhile schemeRune) (by rwa [hsplit])
  have hslashes := pastSlashes_append hrestEnds hrest
  cases hpast : pastSlashes (before.dropWhile schemeRune) with
  | none =>
      refine .inl ⟨none, by simp, fun x _ => ?_⟩
      rw [List.cons_append, urlAt, if_pos hgo, (hspan _).2, hslashes, hpast]
      rfl
  | some w =>
      have hw := pastSlashes_eq_some.mp hpast
      rw [hw] at hsplit hrestEnds
      have hwne : w ≠ [] := by
        rintro rfl
        exact absurd (hrestEnds '/' rfl) (by decide)
      by_cases hall : ∀ d ∈ w, urlRune d = true
      · refine .inr ⟨c :: before.takeWhile schemeRune, w, ?_, ?_, by simp, fun x hx => ?_⟩
        · exact not_mem_colon hc fun d => List.mem_takeWhile_imp
        · rw [List.append_assoc, List.cons_append, hsplit]
        · have hbody : ∀ d ∈ w ++ (scheme ++ "://".toList ++ x), urlRune d = true := by
            intro d hd
            simp only [List.mem_append] at hd
            obtain hd | (hd | hd) | hd := hd
            · exact hall d hd
            · exact urlRune_of_isAlphanum (hscheme.alphanum d hd)
            · have hcases : d = ':' ∨ d = '/' := by simpa using hd
              obtain rfl | rfl := hcases <;> decide
            · exact hx.2 d hd
          have hrun : ∀ d ∈ before.takeWhile schemeRune, schemeRune d = true := fun d => List.mem_takeWhile_imp
          have hurl := urlAt_eq_some (t := after) hprev hc hrun hbody (by simp [hwne])
          rw [← hsplit]
          simpa only [List.cons_append, List.append_assoc] using hurl
      · have hstop : ∃ d ∈ w, urlRune d = false := by simpa using hall
        have hbodySpan := spans_append hstop
        refine .inl ⟨if (w.takeWhile urlRune).isEmpty then none else
          some (c :: before.takeWhile schemeRune ++ "://".toList ++ w.takeWhile urlRune), ?_, fun x _ => ?_⟩
        · intro u hu
          split at hu
          · cases hu
          · cases hu
            refine ⟨by simp, ?_⟩
            have hlength := congrArg List.length hsplit
            have hle := (List.takeWhile_prefix urlRune (l := w)).length_le
            simp only [List.length_append, List.length_cons] at hlength ⊢
            omega
        · rw [List.cons_append, urlAt, if_pos hgo, (hspan _).2, hslashes, hpast, Option.map_some, (hspan _).1]
          dsimp only
          rw [(hbodySpan _).1]

/-- Two secrets behind the same text: the bare pass makes the same of them. -/
theorem replaceFrom_secrets {x y : Text} (hx : Secret x) (hy : Secret y) {before : Text} (hbefore : EndsBlank before)
    {k : Nat} (hk : k ≤ before.length) {prev : Option Char} (hprev : before = [] → prev.any isWord = false) :
    replaceFrom urlPattern scrubBare k prev (before ++ (scheme ++ "://".toList ++ x) ++ after) =
      replaceFrom urlPattern scrubBare k prev (before ++ (scheme ++ "://".toList ++ y) ++ after) := by
  induction before generalizing k prev with
  | nil =>
      obtain rfl := Nat.le_zero.mp hk
      rw [List.nil_append, List.nil_append, replaceFrom_link hscheme after (hprev rfl) hx,
        replaceFrom_link hscheme after (hprev rfl) hy]
  | cons c before ih =>
      have hrest : EndsBlank before := by
        intro d hd
        refine hbefore d ?_
        rw [getLast?_cons_eq_or, Option.mem_def.mp hd]
        rfl
      have hnext : before = [] → (some c).any isWord = false := by
        rintro rfl
        exact (facts_of_isAsciiSpace (hbefore c rfl)).2.2.1
      cases k with
      | succ k => exact ih hrest (Nat.le_of_succ_le_succ hk) hnext
      | zero =>
          obtain ⟨found, hfound, hurl⟩ | ⟨s, w, hs, hsplit, -, hurl⟩ := urlAt_before hscheme after prev hbefore
          · have hmatch : ∀ z, Secret z → urlPattern.matchAt prev (c :: (before ++ (scheme ++ "://".toList ++ z) ++ after)) =
                found.map fun text => ⟨text, []⟩ := by
              intro z hz
              rw [matchAt_urlPattern, ← hurl z hz, List.cons_append, List.append_assoc]
            simp only [List.cons_append]
            rw [replaceFrom, replaceFrom, hmatch x hx, hmatch y hy]
            cases found with
            | none => exact congrArg (c :: ·) (ih hrest (Nat.zero_le _) hnext)
            | some u =>
                obtain ⟨hne, hlength⟩ := hfound u rfl
                have hnonempty : ¬u.isEmpty = true := by simpa using hne
                simp only [Option.map_some, if_neg hnonempty]
                rw [ih hrest (by omega) hnext]
          · have hleave : ∀ z, scrubURL (c :: before ++ (scheme ++ "://".toList ++ z) ++ after.takeWhile urlRune) =
                scrubURL (s ++ "://".toList ++ (w ++ scheme ++ [':'] ++ '/' :: '/' :: (z ++ after.takeWhile urlRune))) := by
              intro z
              rw [hsplit]
              simp
            rw [replaceFrom_url (hurl x hx) (by simp), replaceFrom_url (hurl y hy) (by simp), hleave x, hleave y,
              scrubURL_slashes hs]

end Bare

/-- Two lines that differ in the secret of a share link scrub to the same line. A bare link stands at the start or
behind white space; a quoted one may stand anywhere behind no other quote. `hprint` is what `strconv.IsPrint` is
documented to say of ASCII. -/
theorem scrub_eq_of_secrets (isPrint : Char → Bool)
    (hprint : ∀ c : Char, 0x20 ≤ c.toNat → c.toNat ≤ 0x7e → isPrint c = true) (scheme before after : Text)
    (hscheme : scheme.map Char.toLower ∈ shareLinkSchemes) (hbefore : '"' ∉ before) (hafter : '"' ∉ after) :
    (EndsBlank before → ∀ x y, Secret x → Secret y →
      scrub (before ++ (scheme ++ "://".toList ++ x) ++ after) = scrub (before ++ (scheme ++ "://".toList ++ y) ++ after)) ∧
    ∀ x y : List Symbol, scrub (before ++ quote isPrint (linkSymbols scheme x) ++ after) =
      scrub (before ++ quote isPrint (linkSymbols scheme y) ++ after) := by
  have hs := scheme_of_listed hscheme
  constructor
  · intro hends x y hx hy
    have hcopied : ∀ z, Secret z → replaceAll quotedURLPattern scrubQuoted
        (before ++ (scheme ++ "://".toList ++ z) ++ after) = before ++ (scheme ++ "://".toList ++ z) ++ after := by
      intro z hz
      have hnone : ∀ c ∈ before ++ (scheme ++ "://".toList ++ z) ++ after, (c == '"') = false := by
        intro c hc
        refine beq_eq_false_iff_ne.mpr ?_
        rintro rfl
        simp only [List.mem_append] at hc
        obtain (hc | (hc | hc) | hc) | hc := hc
        · exact hbefore hc
        · exact hs.notMem (by decide) hc
        · exact absurd hc (by decide)
        · exact absurd (hz.2 '"' hc) (by decide)
        · exact hafter hc
      have hcopy := replaceFrom_append_of_noStart (e := quotedURLPattern) (f := scrubQuoted)
        (fun prev c s hc => matchAt_quotedURLPattern_none prev hc s) hnone none []
      simpa [replaceAll, replaceFrom] using hcopy
    have hbare : replaceFrom urlPattern scrubBare 0 none (before ++ (scheme ++ "://".toList ++ x) ++ after) =
        replaceFrom urlPattern scrubBare 0 none (before ++ (scheme ++ "://".toList ++ y) ++ after) :=
      replaceFrom_secrets hs after hx hy hends (Nat.zero_le _) fun _ => rfl
    rw [scrub, scrub, hcopied x hx, hcopied y hy]
    exact congrArg scrubFields hbare
  · intro x y
    rw [scrub, scrub, replaceAll_quoted hprint hs hbefore, replaceAll_quoted hprint hs hbefore]

/-- A link behind a word, and the same link as an error of `url.Parse` quotes it. -/
theorem scrub_eq_of_secrets_vless :
    scrub ("dial ".toList ++ ("vless".toList ++ "://".toList ++ "a@h:1".toList) ++ " ok".toList) =
        scrub ("dial ".toList ++ ("vless".toList ++ "://".toList ++ "b?c=%20".toList) ++ " ok".toList) ∧
      scrub ("parse ".toList ++ quote (fun _ => true) (linkSymbols "vless".toList [.rune 'a', .rune '"']) ++ ": no".toList) =
        scrub ("parse ".toList ++ quote (fun _ => true) (linkSymbols "vless".toList [.byte 255]) ++ ": no".toList) := by
  have hends : EndsBlank "dial ".toList := by
    intro c hc
    obtain rfl : ' ' = c := Option.some.inj hc
    rfl
  have hx : Secret "a@h:1".toList := ⟨by decide, List.all_eq_true.mp (by decide)⟩
  have hy : Secret "b?c=%20".toList := ⟨by decide, List.all_eq_true.mp (by decide)⟩
  exact ⟨(scrub_eq_of_secrets (fun _ => true) (fun _ _ _ => rfl) "vless".toList "dial ".toList " ok".toList (by decide)
      (by decide) (by decide)).1 hends _ _ hx hy,
    (scrub_eq_of_secrets (fun _ => true) (fun _ _ _ => rfl) "vless".toList "parse ".toList ": no".toList (by decide)
      (by decide) (by decide)).2 [.rune 'a', .rune '"'] [.byte 255]⟩

end GlitchCore.Logfmt
