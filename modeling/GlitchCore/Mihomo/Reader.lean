import GlitchCore.Base.Fields
import GlitchCore.Mihomo.Rules

/-!
# Reading rule lines back

mihomo cuts a rule line at its commas and trims each field. A plain rule reads its value from one field; a
regexp and a logic rule take all fields but the target and join them again; the operands of a logic rule are
the groups its parentheses pair. The values come from the caller; what classification and validation leave in
them decides what the line of one entry comes to.
-/

namespace GlitchCore.Mihomo

open GoText

/-! ### The reader -/

structure RulePayload where
  tp : Text
  payload : Text
  target : Text
  params : List Text
  deriving DecidableEq, Repr

/-- The types whose payload may hold commas. -/
def rejoined : List Text :=
  ["NOT", "OR", "AND", "SUB-RULE", "DOMAIN-REGEX", "PROCESS-NAME-REGEX", "PROCESS-PATH-REGEX"].map String.toList

def parseRulePayload (ruleRaw : Text) (needTarget : Bool) : RulePayload :=
  match (split ',' ruleRaw).map trimSpace with
  | [] => ⟨[], [], [], []⟩
  | [tp] => ⟨tp, [], [], []⟩
  | tp :: first :: more =>
      if tp = "MATCH".toList then ⟨tp, [], first, []⟩
      else if tp ∈ rejoined then
        if needTarget then ⟨tp, join [','] (first :: more).dropLast, (first :: more).getLastD [], []⟩
        else ⟨tp, join [','] (first :: more), [], []⟩
      else if needTarget then ⟨tp, first, more.headD [], more.tail⟩
      else ⟨tp, first, [], more⟩

/-- The contents of the outermost groups; none where the parentheses do not pair. -/
def groupsFrom : Nat → Text → Text → Option (List Text)
  | 0, _, [] => some []
  | _ + 1, _, [] => none
  | 0, _, c :: s =>
      if c = '(' then groupsFrom 1 [] s else if c = ')' then none else groupsFrom 0 [] s
  | depth + 1, cur, c :: s =>
      if c = ')' then
        if depth = 0 then (groupsFrom 0 [] s).map (cur :: ·) else groupsFrom depth (cur ++ [c]) s
      else if c = '(' then groupsFrom (depth + 2) (cur ++ [c]) s
      else groupsFrom (depth + 1) (cur ++ [c]) s

def groups (s : Text) : Option (List Text) := groupsFrom 0 [] s

/-- The operands of a logic payload; a group around the whole payload is none of them. -/
def operandTexts (payload : Text) : Option (List Text) :=
  match groups payload with
  | some [whole] => if payload.length = whole.length + 2 then groups whole else some [whole]
  | other => other

/-- The runes a regexp reads as operators. -/
def isMeta (c : Char) : Bool := "\\.+*?()|[]\x7b\x7d^$".toList.contains c

/-- The text a pattern without operators stands for. -/
def literal : Text → Option Text
  | [] => some []
  | '\\' :: 'x' :: '2' :: '0' :: s => (literal s).map (' ' :: ·)
  | '\\' :: c :: s => if isMeta c then (literal s).map (c :: ·) else none
  | c :: s => if isMeta c then none else (literal s).map (c :: ·)

/-- The one name, up to case, that an anchored pattern matches. -/
def literalPattern (pattern : Text) : Option Text :=
  match pattern with
  | '^' :: rest => if rest.getLast? = some '$' then literal rest.dropLast else none
  | _ => none

/-- A rule of one matcher; an address matcher that lets mihomo resolve a name stands for no entry. -/
def readMatcher (tp payload : Text) (params : List Text) : Option Cond :=
  if tp = "GEOSITE".toList then some (.entry .geoSite payload)
  else if tp = "GEOIP".toList then if params = ["no-resolve".toList] then some (.entry .geoIP payload) else none
  else if tp = "IP-CIDR".toList then if params = ["no-resolve".toList] then some (.entry .ipCIDR payload) else none
  else if tp = "DOMAIN-SUFFIX".toList then some (.entry .domainSuffix payload)
  else if tp = "DOMAIN".toList then some (.entry .domainFull payload)
  else if tp = "DOMAIN-KEYWORD".toList then some (.entry .domainKeyword payload)
  else if tp = "DOMAIN-REGEX".toList then some (.entry .domainRegex payload)
  else if tp = "PROCESS-NAME".toList then some (.entry .process payload)
  else if tp = "PROCESS-NAME-REGEX".toList then (literalPattern payload).map (.entry .process)
  else none

def logicCond (tp : Text) (operands : List Cond) : Option Cond :=
  if tp = "OR".toList then some (.or operands)
  else
    match operands with
    | [a, b] => if tp = "AND".toList then some (.and a b) else none
    | [a] => if tp = "NOT".toList then some (.not a) else none
    | _ => none

/-- The fuel bounds how deep logic rules nest. -/
def readCond : Nat → RulePayload → Option Cond
  | 0, _ => none
  | fuel + 1, r =>
      if r.tp ∈ ["AND".toList, "OR".toList, "NOT".toList] then
        (operandTexts r.payload).bind fun texts =>
          (texts.mapM fun s => readCond fuel (parseRulePayload s false)).bind (logicCond r.tp)
      else readMatcher r.tp r.payload r.params

def readLine (line : Text) : Option (Cond × Text) :=
  let r := parseRulePayload line true
  (readCond line.length r).map fun c => (c, r.target)

/-! ### Fields -/

/-- A word is a field of its own and stays as it is. -/
structure Word (s : Text) : Prop where
  comma : ',' ∉ s
  edges : trimSpace s = s

instance (s : Text) : Decidable (Word s) :=
  decidable_of_iff (',' ∉ s ∧ trimSpace s = s) ⟨fun h => ⟨h.1, h.2⟩, fun h => ⟨h.1, h.2⟩⟩

def fields (s : Text) : List Text := (split ',' s).map trimSpace

theorem fields_append_comma (s t : Text) : fields (s ++ ',' :: t) = fields s ++ fields t := by
  rw [fields, split_append_sep, List.map_append, fields, fields]

theorem fields_of_not_mem {s : Text} (h : ',' ∉ s) : fields s = [trimSpace s] := by
  rw [fields, split_of_not_mem h, List.map_singleton]

theorem Word.fields {s : Text} (h : Word s) : fields s = [s] := by rw [fields_of_not_mem h.comma, h.edges]

theorem fields_ne_nil (s : Text) : fields s ≠ [] := by
  obtain ⟨first, rest, hsplit⟩ := exists_split_cons ',' s
  simp [fields, hsplit]

/-- What becomes of a payload whose fields are trimmed and joined again. -/
theorem join_fields (s : Text) : join [','] (fields s) = retrim ',' isSpace s := rfl

section Parse

variable {tp value target : Text} {params : List Text}

theorem parse_single {line : Text} (htp : tp ≠ "MATCH".toList ∧ tp ∉ rejoined)
    (hline : fields line = tp :: value :: target :: params) :
    parseRulePayload line true = ⟨tp, value, target, params⟩ := by
  rw [fields] at hline
  simp only [parseRulePayload, hline, htp.1, htp.2, if_false, if_true, List.headD_cons, List.tail_cons]

theorem parse_single_operand {line : Text} (htp : tp ≠ "MATCH".toList ∧ tp ∉ rejoined)
    (hline : fields line = tp :: value :: params) : parseRulePayload line false = ⟨tp, value, [], params⟩ := by
  rw [fields] at hline
  simp only [parseRulePayload, hline, htp.1, htp.2, if_false, Bool.false_eq_true]

theorem parse_rejoined {line : Text} (htp : tp ≠ "MATCH".toList ∧ tp ∈ rejoined)
    (hline : fields line = tp :: (fields value ++ [target])) :
    parseRulePayload line true = ⟨tp, retrim ',' isSpace value, target, []⟩ := by
  obtain ⟨first, rest, hvalue⟩ := List.exists_cons_of_ne_nil (fields_ne_nil value)
  rw [← join_fields, hvalue]
  rw [hvalue, fields] at hline
  simp only [parseRulePayload, hline, List.cons_append, htp.1, htp.2, if_false, if_true]
  rw [← List.cons_append, List.dropLast_concat, List.getLastD_concat]

theorem parse_rejoined_operand {line : Text} (htp : tp ≠ "MATCH".toList ∧ tp ∈ rejoined)
    (hline : fields line = tp :: fields value) :
    parseRulePayload line false = ⟨tp, retrim ',' isSpace value, [], []⟩ := by
  obtain ⟨first, rest, hvalue⟩ := List.exists_cons_of_ne_nil (fields_ne_nil value)
  rw [← join_fields, hvalue]
  rw [hvalue, fields] at hline
  simp only [parseRulePayload, hline, htp.1, htp.2, if_false, if_true, Bool.false_eq_true]

end Parse

/-! ### The pattern of a process name -/

/-- How a rune of a process name is spelled in its pattern. -/
def spell (c : Char) : Text := if c = ' ' then "\\x20".toList else if isMeta c then ['\\', c] else [c]

def processPattern (name : Text) : Text := "^".toList ++ name.flatMap spell ++ "$".toList

theorem processCondition_eq {name : Text} (hcomma : ',' ∈ name) :
    processCondition name = "PROCESS-NAME-REGEX".toList ++ ',' :: processPattern name := by
  have hspell : (quoteMeta name).flatMap (fun c => if c = ' ' then "\\x20".toList else [c]) = name.flatMap spell := by
    rw [quoteMeta, List.flatMap_assoc]
    refine List.flatMap_congr fun c _ => ?_
    show List.flatMap _ (if isMeta c then ['\\', c] else [c]) = _
    have hspace : isMeta ' ' = false := by decide
    by_cases hc : c = ' '
    · simp [spell, hc, hspace]
    · cases hmeta : isMeta c <;> simp [spell, hc, hmeta]
  rw [processCondition, if_neg (not_not.mpr hcomma), hspell, processPattern]
  simp

theorem literal_spell (name : Text) : literal (name.flatMap spell) = some name := by
  induction name with
  | nil => rfl
  | cons c name ih =>
      rw [List.flatMap_cons, spell]
      split
      · rename_i hspace
        simp [literal, ih, hspace]
      · cases hmeta : isMeta c with
        | true =>
            have hx : c ≠ 'x' := fun hcon => absurd hmeta (by rw [hcon]; decide)
            rw [if_pos rfl, List.cons_append, List.singleton_append]
            rw [literal]
            · rw [hmeta, if_pos rfl, ih]
              rfl
            · intro s hcon
              exact (hx hcon).elim
        | false =>
            have hc : c ≠ '\\' := fun hcon => absurd hmeta (by rw [hcon]; decide)
            rw [if_neg Bool.false_ne_true, List.singleton_append, literal, hmeta, if_neg Bool.false_ne_true, ih]
            · rfl
            · intro s hcon
              exact (hc hcon).elim
            · intro d s hcon
              exact (hc hcon).elim

theorem literalPattern_processPattern (name : Text) : literalPattern (processPattern name) = some name := by
  have hshape : processPattern name = '^' :: (name.flatMap spell ++ ['$']) := rfl
  rw [hshape, literalPattern, List.getLast?_concat, if_pos rfl, List.dropLast_concat, literal_spell]

/-- White space the spelling of a process name does not protect. -/
def isBareSpace (c : Char) : Bool := isSpace c && c != ' '

theorem isSpace_of_isMeta {c : Char} (hmeta : isMeta c = true) : isSpace c = false := by
  have hall : ("\\.+*?()|[]\x7b\x7d^$".toList.all fun d => !isSpace d) = true := by decide
  simpa using List.all_eq_true.mp hall c (List.contains_iff_mem.mp hmeta)

theorem spell_bareSpace (c : Char) (hc : isBareSpace c = true) : spell c = [c] ∧ isSpace c = true := by
  simp only [isBareSpace, Bool.and_eq_true, bne_iff_ne, ne_eq] at hc
  refine ⟨?_, hc.1⟩
  rw [spell, if_neg hc.2, if_neg]
  intro hmeta
  exact absurd hc.1 (by simp [isSpace_of_isMeta hmeta])

theorem spell_edges (c : Char) (hc : isBareSpace c = false) : spell c ≠ [] ∧ Edges isSpace (spell c) := by
  unfold spell
  split
  · decide
  · rename_i hspace
    split
    · rename_i hmeta
      have hslash : isSpace '\\' = false := by decide
      exact ⟨by simp, by simp [hslash], by simp [isSpace_of_isMeta hmeta]⟩
    · have hnot : isSpace c = false := by simpa [isBareSpace, hspace] using hc
      exact ⟨by simp, by simp [hnot], by simp [hnot]⟩

/-- What mihomo reads of a pattern is the pattern of what it would read of the name, were plain spaces kept. -/
theorem retrim_processPattern {name : Text} (hedges : Edges isSpace name) :
    retrim ',' isSpace (processPattern name) = processPattern (retrim ',' isBareSpace name) := by
  have hsep : spell ',' = [','] := by decide
  have hother : ∀ c, c ≠ ',' → ',' ∉ spell c := by
    intro c hc
    unfold spell
    repeat' split
    · decide
    · simp [Ne.symm hc]
    · simp [Ne.symm hc]
  have hbare : Edges isBareSpace name := hedges.mono fun c hc => (spell_bareSpace c hc).2
  have hspelled : Edges isSpace (name.flatMap spell) := by
    rw [← trim_eq_self, trim_flatMap spell_bareSpace spell_edges, trim_eq_self.mpr hbare]
  have hcaret : Edges isSpace "^".toList := by decide
  have hdollar : Edges isSpace "$".toList := by decide
  rw [processPattern, retrim_append_right (by decide) hdollar (hcaret.append hspelled).2,
    retrim_append_left (by decide) (by decide) hcaret hspelled.1,
    retrim_flatMap hsep hother spell_bareSpace spell_edges, processPattern]

/-! ### What an entry's value may hold -/

/-- The value as its line holds it: a lone address becomes a prefix. -/
def written (e : Entry) : Text := if e.kind = .ipCIDR then normalizeCIDR e.value else e.value

/-- The white space a line loses at the ends of a field of the value. -/
def lostSpace (kind : MatchKind) : Char → Bool := if kind = .process then isBareSpace else isSpace

/-- No field of the value begins or ends with white space; a plain space counts in a process name only
where it stands at the end of the name. -/
def TidyEntry (e : Entry) : Prop := Tidy ',' (lostSpace e.kind) e.value

/-- Neither a comma, nor white space, nor a parenthesis. -/
def isPlain (c : Char) : Bool := !isSpace c && c != ',' && c != '(' && c != ')'

/-- What classification and validation leave to be said of a value. -/
structure Legible (e : Entry) : Prop where
  comma : e.kind ≠ .domainRegex → e.kind ≠ .process → ',' ∉ written e
  paired : e.kind ≠ .process → parenthesesPair (written e) = true
  edges : e.kind = .process → Edges isSpace e.value
  address : e.kind = .ipCIDR → isIPOrCIDR e.value = true

instance (e : Entry) : Decidable (TidyEntry e) := inferInstanceAs (Decidable (Tidy ..))

theorem parenthesesPairFrom_skip {s : Text} (h : ∀ c ∈ s, c ≠ '(' ∧ c ≠ ')') (depth : Nat) (t : Text) :
    parenthesesPairFrom depth (s ++ t) = parenthesesPairFrom depth t := by
  induction s with
  | nil => rfl
  | cons c s ih =>
      obtain ⟨⟨hopen, hclose⟩, hrest⟩ := List.forall_mem_cons.mp h
      rw [List.cons_append, parenthesesPairFrom, ih hrest]
      · exact fun hcon => (hopen hcon).elim
      · exact fun _ hcon => (hclose hcon).elim
      · exact fun _ _ hcon => (hclose hcon).elim

theorem parenthesesPair_of_forall {s : Text} (h : ∀ c ∈ s, c ≠ '(' ∧ c ≠ ')') : parenthesesPair s = true := by
  rw [parenthesesPair, ← List.append_nil s, parenthesesPairFrom_skip h]
  rfl

theorem not_comma_of_plain {s : Text} (h : ∀ c ∈ s, isPlain c = true) : ',' ∉ s := fun hmem =>
  absurd (h ',' hmem) (by decide)

theorem paired_of_plain {s : Text} (h : ∀ c ∈ s, isPlain c = true) : parenthesesPair s = true :=
  parenthesesPair_of_forall fun c hc => by
    have hplain := h c hc
    simp only [isPlain, Bool.and_eq_true, bne_iff_ne] at hplain
    exact ⟨hplain.1.2, hplain.2⟩

theorem isPlain_of_toNat {c : Char} (h : 0x2d ≤ c.toNat ∧ c.toNat ≤ 0x7a) : isPlain c = true := by
  have hne : ∀ d : Char, d.toNat < 0x2d → c ≠ d := by
    rintro d hd rfl
    omega
  have hspace : isSpace c = false := isSpace_of_toNat (by omega)
  simp [isPlain, hspace, hne ',' (by decide), hne '(' (by decide), hne ')' (by decide)]

theorem isPlain_addressRune {c : Char} (hc : NetAddr.isAddressRune c = true) : isPlain c = true :=
  isPlain_of_toNat (NetAddr.toNat_of_isAddressRune hc)

theorem isPlain_geoRune {c : Char} {extra : Text} (hextra : ∀ d ∈ extra, isPlain d = true)
    (hc : validGeoChars [c] extra = true) : isPlain c = true := by
  simp only [validGeoChars, List.all_cons, List.all_nil, Bool.and_true, Bool.or_eq_true, beq_iff_eq,
    List.contains_iff_mem] at hc
  obtain (((((hlow | hup) | hdigit) | rfl) | rfl) | hmem) := hc
  · refine isPlain_of_toNat ?_
    have := toNat_of_isLower hlow
    omega
  · refine isPlain_of_toNat ?_
    have := toNat_of_isUpper hup
    omega
  · refine isPlain_of_toNat ?_
    have := toNat_of_isDigit hdigit
    omega
  · decide
  · decide
  · exact hextra c hmem

theorem edges_of_classify_process {m val : Text} (hclass : classify m = some (.process, val)) :
    Edges isSpace val := by
  cases classified_of_classify hclass with
  | geo hkind => exact absurd hkind (by decide)
  | text => exact edges_trim isSpace _
  | domain hkind => exact absurd hkind (by decide)

theorem validGeoChars_mem {s extra : Text} (h : validGeoChars s extra = true) {c : Char} (hc : c ∈ s) :
    validGeoChars [c] extra = true := by
  simp only [validGeoChars, List.all_eq_true] at h
  simp only [validGeoChars, List.all_cons, List.all_nil, Bool.and_true]
  exact h c hc

theorem isPlain_of_validGeoCode {code : Text} (h : validGeoCode code = true) :
    ∀ c ∈ trimSpace code, isPlain c = true := by
  simp only [validGeoCode, Bool.and_eq_true, List.all_eq_true] at h
  intro c hc
  obtain rfl | ⟨seg, hseg, hmem⟩ := mem_split_or '@' hc
  · decide
  · exact isPlain_geoRune (List.all_eq_true.mp (by decide)) (validGeoChars_mem (h.2 seg hseg).2 hmem)

theorem isPlain_of_validGeoIPCode {code : Text} (h : validGeoIPCode code = true) :
    ∀ c ∈ trimSpace code, isPlain c = true := by
  simp only [validGeoIPCode, Bool.and_eq_true] at h
  intro c hc
  split at h
  · rename_i hbang
    obtain ⟨rest, hrest⟩ := List.head?_eq_some_iff.mp hbang
    rw [hrest] at hc h
    obtain rfl | hc := List.mem_cons.mp hc
    · decide
    · exact isPlain_geoRune (by simp) (validGeoChars_mem h.2 hc)
  · exact isPlain_geoRune (by simp) (validGeoChars_mem h.2 hc)

/-- Blanks around a code do not matter: they are no comma and no parenthesis. -/
theorem comma_paired_of_trim {s : Text} (h : ∀ c ∈ trimSpace s, isPlain c = true) :
    ',' ∉ s ∧ parenthesesPair s = true := by
  have hall : ∀ c ∈ s, c ≠ ',' ∧ c ≠ '(' ∧ c ≠ ')' := by
    intro c hc
    obtain hspace | hmem := mem_trim_or (p := isSpace) hc
    · refine ⟨?_, ?_, ?_⟩ <;>
      · rintro rfl
        exact absurd hspace (by decide)
    · have hplain := h c hmem
      simp only [isPlain, Bool.and_eq_true, bne_iff_ne] at hplain
      exact ⟨hplain.1.1.2, hplain.1.2, hplain.2⟩
  exact ⟨fun hmem => (hall ',' hmem).1 rfl, parenthesesPair_of_forall fun c hc => (hall c hc).2⟩

theorem isPlain_of_address {v : Text} (haddress : isIPOrCIDR v = true) : ∀ c ∈ v, isPlain c = true := fun c hc =>
  isPlain_addressRune (isAddressRune_of_isIPOrCIDR haddress c hc)

theorem isPlain_normalizeCIDR {v : Text} (hplain : ∀ c ∈ v, isPlain c = true) :
    ∀ c ∈ normalizeCIDR v, isPlain c = true := by
  have htrim : ∀ c ∈ trimSpace v, isPlain c = true := fun c hc => hplain c (mem_of_mem_trim hc)
  have hadd (suffix : Text) (hsuffix : ∀ c ∈ suffix, isPlain c = true) :
      ∀ c ∈ trimSpace v ++ suffix, isPlain c = true := fun c hc =>
    (List.mem_append.mp hc).elim (htrim c) (hsuffix c)
  unfold normalizeCIDR
  dsimp only
  split
  · exact htrim
  · split
    · split
      · exact hadd _ (List.all_eq_true.mp (by decide))
      · exact hadd _ (List.all_eq_true.mp (by decide))
    · exact htrim

theorem of_ite_none {c : Prop} [Decidable c] {err : Text} {rest : Option Text}
    (h : (if c then some err else rest) = none) : ¬c ∧ rest = none := by
  split at h
  · cases h
  · exact ⟨‹_›, h⟩

/-- What validation has seen of a value that stands in its line as it is. -/
theorem validated_value {m value : Text} {kind : MatchKind} (hclass : classify m = some (kind, value))
    (hvalid : validateMatcher m = none) (haddress : kind ≠ .ipCIDR) (hprocess : kind ≠ .process) :
    (kind ≠ .domainRegex → ',' ∉ value) ∧ parenthesesPair value = true := by
  rw [validateMatcher, hclass] at hvalid
  cases kind with
  | ipCIDR => exact (haddress rfl).elim
  | process => exact (hprocess rfl).elim
  | geoSite =>
      have hcode := comma_paired_of_trim (isPlain_of_validGeoCode (by
        by_contra hcon
        dsimp only at hvalid
        rw [if_neg hcon] at hvalid
        cases hvalid))
      exact ⟨fun _ => hcode.1, hcode.2⟩
  | geoIP =>
      have hcode := comma_paired_of_trim (isPlain_of_validGeoIPCode (by
        by_contra hcon
        dsimp only at hvalid
        rw [if_neg hcon] at hvalid
        cases hvalid))
      exact ⟨fun _ => hcode.1, hcode.2⟩
  | domainRegex =>
      obtain ⟨-, hrest⟩ := of_ite_none hvalid
      exact ⟨fun h => (h rfl).elim, not_not.mp (of_ite_none hrest).1⟩
  | domainSuffix | domainFull | domainKeyword =>
      obtain ⟨hcomma, hrest⟩ := of_ite_none hvalid
      exact ⟨fun _ => hcomma, not_not.mp (of_ite_none hrest).1⟩

theorem Legible.of_matcher {m : Text} {e : Entry} (hclass : classify m = some (e.kind, e.value))
    (hvalid : validateMatcher m = none) : Legible e := by
  have hedges : e.kind = .process → Edges isSpace e.value := fun hkind =>
    edges_of_classify_process (hkind ▸ hclass)
  have haddress : e.kind = .ipCIDR → isIPOrCIDR e.value = true := fun hkind => isIPOrCIDR_of_classify (hkind ▸ hclass)
  by_cases hkind : e.kind = .ipCIDR
  · have hnorm := isPlain_normalizeCIDR (isPlain_of_address (haddress hkind))
    have hwritten : written e = normalizeCIDR e.value := if_pos hkind
    rw [← hwritten] at hnorm
    exact ⟨fun _ _ => not_comma_of_plain hnorm, fun _ => paired_of_plain hnorm, hedges, haddress⟩
  · have hwritten : written e = e.value := if_neg hkind
    refine ⟨fun hregex hprocess => ?_, fun hprocess => ?_, hedges, haddress⟩
    · rw [hwritten]
      exact (validated_value hclass hvalid hkind hprocess).1 hregex
    · rw [hwritten]
      exact (validated_value hclass hvalid hkind hprocess).2

theorem tidy_of_plain {v : Text} (hplain : ∀ c ∈ v, isPlain c = true) : Tidy ',' isSpace v :=
  (tidy_of_not_mem (not_comma_of_plain hplain)).mpr <| edges_of_forall fun c hc => by
    have hc := hplain c hc
    simp only [isPlain, Bool.and_eq_true, Bool.not_eq_true'] at hc
    exact hc.1.1.1

/-- Writing an address as a prefix adds nothing a line could lose. -/
theorem Legible.tidy_written {e : Entry} (he : Legible e) :
    Tidy ',' (lostSpace e.kind) (written e) ↔ TidyEntry e := by
  by_cases hkind : e.kind = .ipCIDR
  · have hlost : lostSpace e.kind = isSpace := if_neg (by rw [hkind]; decide)
    have hplain := isPlain_of_address (he.address hkind)
    rw [TidyEntry, hlost, written, if_pos hkind]
    exact iff_of_true (tidy_of_plain (isPlain_normalizeCIDR hplain)) (tidy_of_plain hplain)
  · rw [TidyEntry, written, if_neg hkind]

/-! ### One entry -/

/-- The type of a matcher's rule; `regex` is whether a process name needs one. -/
def typeText (kind : MatchKind) (regex : Bool) : Text :=
  match kind with
  | .geoSite => "GEOSITE".toList
  | .geoIP => "GEOIP".toList
  | .domainSuffix => "DOMAIN-SUFFIX".toList
  | .domainFull => "DOMAIN".toList
  | .domainKeyword => "DOMAIN-KEYWORD".toList
  | .domainRegex => "DOMAIN-REGEX".toList
  | .ipCIDR => "IP-CIDR".toList
  | .process => if regex then "PROCESS-NAME-REGEX".toList else "PROCESS-NAME".toList

theorem typeText_facts (kind : MatchKind) (regex : Bool) : Word (typeText kind regex) ∧ typeText kind regex ≠ [] ∧
    typeText kind regex ≠ "MATCH".toList ∧ typeText kind regex ∉ ["AND".toList, "OR".toList, "NOT".toList] ∧
    (typeText kind regex ∈ rejoined ↔ kind = .domainRegex ∨ kind = .process ∧ regex = true) := by
  cases kind <;> cases regex <;> decide

def ruleType (e : Entry) : Text := typeText e.kind (decide (',' ∈ e.value))

def rulePayload (e : Entry) : Text :=
  if e.kind = .process ∧ ',' ∈ e.value then processPattern e.value else written e

def ruleParams (e : Entry) : List Text := if e.byAddress then ["no-resolve".toList] else []

theorem ruleType_process {value : Text} {target : Target} : ruleType ⟨.process, value, target⟩ =
    if ',' ∈ value then "PROCESS-NAME-REGEX".toList else "PROCESS-NAME".toList := by
  show (if decide (',' ∈ value) = true then _ else _) = _
  simp only [decide_eq_true_eq]

theorem rulePayload_process {value : Text} {target : Target} (hcomma : ',' ∈ value) :
    rulePayload ⟨.process, value, target⟩ = processPattern value := if_pos ⟨rfl, hcomma⟩

theorem rulePayload_of_not_mem {e : Entry} (h : e.kind = .process → ',' ∉ e.value) : rulePayload e = written e :=
  if_neg fun hcon => h hcon.1 hcon.2

theorem entryText_eq (e : Entry) : entryText e.kind e.value =
    (ruleType e ++ ',' :: rulePayload e, (ruleParams e).headD []) := by
  obtain ⟨kind, value, target⟩ := e
  cases kind with
  | process =>
      by_cases hcomma : ',' ∈ value
      · rw [rulePayload_process hcomma, ruleType_process, if_pos hcomma, ← processCondition_eq hcomma]
        rfl
      · have hplain : processCondition value = "PROCESS-NAME".toList ++ ',' :: value := if_pos hcomma
        rw [rulePayload_of_not_mem fun _ => hcomma, ruleType_process, if_neg hcomma]
        show (processCondition value, _) = _
        rw [hplain]
        rfl
  | _ =>
      rw [rulePayload_of_not_mem fun h => by cases h]
      rfl

theorem ruleCondition_eq (e : Entry) (target : Text) : ruleCondition e.kind e.value target =
    join [','] ((ruleType e ++ ',' :: rulePayload e) :: ((if target ≠ [] then [target] else []) ++ ruleParams e)) := by
  rw [ruleCondition, entryText_eq]
  by_cases haddress : e.byAddress = true <;> simp [ruleParams, haddress]

theorem fields_join {parts : List Text} (hne : parts ≠ []) : fields (join [','] parts) = parts.flatMap fields := by
  induction parts with
  | nil => exact (hne rfl).elim
  | cons s parts ih =>
      cases parts with
      | nil => simp [join, List.intercalate]
      | cons t parts =>
          have hjoin : join [','] (s :: t :: parts) = s ++ ',' :: join [','] (t :: parts) := by
            simp [join, List.intercalate]
          rw [hjoin, fields_append_comma, ih (by simp), ← List.flatMap_cons]

theorem Word.ruleType (e : Entry) : Word (ruleType e) := (typeText_facts ..).1

theorem flatMap_fields_of_words {parts : List Text} (h : ∀ s ∈ parts, Word s) : parts.flatMap fields = parts := by
  induction parts with
  | nil => rfl
  | cons s parts ih =>
      obtain ⟨hs, hparts⟩ := List.forall_mem_cons.mp h
      rw [List.flatMap_cons, hs.fields, ih hparts, List.singleton_append]

/-- The fields of an entry's line. -/
theorem fields_ruleCondition (e : Entry) {target : Text} (htarget : Word target) :
    fields (ruleCondition e.kind e.value target) =
      ruleType e :: (fields (rulePayload e) ++ ((if target ≠ [] then [target] else []) ++ ruleParams e)) := by
  have hrest : ∀ s ∈ (if target ≠ [] then [target] else []) ++ ruleParams e, Word s := by
    intro s hs
    obtain hs | hs := List.mem_append.mp hs
    · split at hs
      · exact List.mem_singleton.mp hs ▸ htarget
      · cases hs
    · unfold ruleParams at hs
      split at hs
      · exact List.mem_singleton.mp hs ▸ by decide
      · cases hs
  rw [ruleCondition_eq, fields_join (by simp), List.flatMap_cons, flatMap_fields_of_words hrest, fields_append_comma,
    (Word.ruleType e).fields, List.singleton_append, List.cons_append]

theorem retrim_of_not_mem {sep : Char} {q : Char → Bool} {s : Text} (h : sep ∉ s) : retrim sep q s = trim q s := by
  rw [retrim, split_of_not_mem h, List.map_singleton]
  simp [join, List.intercalate]

/-- A payload is one field, or all of them joined again. -/
theorem ruleType_cases {e : Entry} (he : Legible e) :
    ruleType e ∉ rejoined ∧ ',' ∉ rulePayload e ∨ ruleType e ∈ rejoined ∧ ruleParams e = [] := by
  have hiff := (typeText_facts e.kind (decide (',' ∈ e.value))).2.2.2.2
  rw [decide_eq_true_eq] at hiff
  by_cases hregex : e.kind = .domainRegex ∨ e.kind = .process ∧ ',' ∈ e.value
  · refine .inr ⟨hiff.mpr hregex, if_neg ?_⟩
    obtain hkind | ⟨hkind, -⟩ := hregex <;> rw [Entry.byAddress, hkind] <;> decide
  · refine .inl ⟨fun hmem => hregex (hiff.mp hmem), ?_⟩
    rw [not_or, not_and] at hregex
    rw [rulePayload_of_not_mem hregex.2]
    by_cases hprocess : e.kind = .process
    · rw [written, if_neg (by rw [hprocess]; decide)]
      exact hregex.2 hprocess
    · exact he.comma hregex.1 hprocess

theorem parse_entry {e : Entry} (he : Legible e) {target : Text} (htarget : Word target) (hne : target ≠ []) :
    parseRulePayload (ruleCondition e.kind e.value target) true =
      ⟨ruleType e, retrim ',' isSpace (rulePayload e), target, ruleParams e⟩ := by
  have hfields := fields_ruleCondition e htarget
  have hmatch : ruleType e ≠ "MATCH".toList := (typeText_facts ..).2.2.1
  rw [if_pos hne] at hfields
  obtain ⟨htype, hcomma⟩ | ⟨htype, hparams⟩ := ruleType_cases he
  · rw [fields_of_not_mem hcomma] at hfields
    rw [parse_single ⟨hmatch, htype⟩ hfields, retrim_of_not_mem hcomma]
    rfl
  · rw [hparams, List.append_nil] at hfields
    rw [parse_rejoined ⟨hmatch, htype⟩ hfields, hparams]

theorem parse_entry_operand {e : Entry} (he : Legible e) :
    parseRulePayload (ruleCondition e.kind e.value []) false =
      ⟨ruleType e, retrim ',' isSpace (rulePayload e), [], ruleParams e⟩ := by
  have hfields := fields_ruleCondition e (show Word [] by decide)
  have hmatch : ruleType e ≠ "MATCH".toList := (typeText_facts ..).2.2.1
  rw [if_neg (not_not.mpr rfl), List.nil_append] at hfields
  obtain ⟨htype, hcomma⟩ | ⟨htype, hparams⟩ := ruleType_cases he
  · rw [fields_of_not_mem hcomma] at hfields
    rw [parse_single_operand ⟨hmatch, htype⟩ hfields, retrim_of_not_mem hcomma]
    rfl
  · rw [hparams, List.append_nil] at hfields
    rw [parse_rejoined_operand ⟨hmatch, htype⟩ hfields, hparams]

/-- The condition an entry's line comes to: the entry with the white space lost from its value. -/
def readEntry (e : Entry) : Cond := .entry e.kind (retrim ',' (lostSpace e.kind) (written e))

theorem readMatcher_entry {e : Entry} (he : Legible e) :
    readMatcher (ruleType e) (retrim ',' isSpace (rulePayload e)) (ruleParams e) = some (readEntry e) := by
  have hedges := he.edges
  obtain ⟨kind, value, target⟩ := e
  cases kind with
  | process =>
      by_cases hcomma : ',' ∈ value
      · rw [rulePayload_process hcomma, retrim_processPattern (hedges rfl), ruleType_process, if_pos hcomma]
        show (literalPattern _).map _ = _
        rw [literalPattern_processPattern]
        rfl
      · have hbare : Edges isBareSpace value := (hedges rfl).mono fun c hc => (spell_bareSpace c hc).2
        have hsame : retrim ',' isSpace value = retrim ',' isBareSpace value := by
          rw [retrim_of_not_mem hcomma, retrim_of_not_mem hcomma, trim_eq_self.mpr (hedges rfl), trim_eq_self.mpr hbare]
        rw [rulePayload_of_not_mem fun _ => hcomma, ruleType_process, if_neg hcomma]
        show some (Cond.entry .process (retrim ',' isSpace value)) = _
        rw [hsame]
        rfl
  | _ =>
      rw [rulePayload_of_not_mem fun h => by cases h]
      rfl

theorem readCond_entry {e : Entry} (he : Legible e) (target : Text) {fuel : Nat} (hfuel : 0 < fuel) :
    readCond fuel ⟨ruleType e, retrim ',' isSpace (rulePayload e), target, ruleParams e⟩ = some (readEntry e) := by
  obtain ⟨fuel, rfl⟩ := Nat.exists_eq_add_of_lt hfuel
  have hlogic : ruleType e ∉ ["AND".toList, "OR".toList, "NOT".toList] := (typeText_facts ..).2.2.2.1
  rw [Nat.zero_add, readCond, if_neg hlogic, readMatcher_entry he]

theorem readLine_entry {e : Entry} (he : Legible e) {target : Text} (htarget : Word target) (hne : target ≠ []) :
    readLine (ruleCondition e.kind e.value target) = some (readEntry e, target) := by
  have hlength : 0 < (ruleCondition e.kind e.value target).length := by
    rw [List.length_pos_iff]
    intro hnil
    have hfields := fields_ruleCondition e htarget
    rw [hnil] at hfields
    have htype : ruleType e ≠ [] := (typeText_facts ..).2.1
    exact htype (List.cons.inj hfields).1.symm
  rw [readLine, parse_entry he htarget hne, readCond_entry he target hlength]
  rfl

end GlitchCore.Mihomo
