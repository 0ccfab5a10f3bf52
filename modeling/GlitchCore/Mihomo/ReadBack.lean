import GlitchCore.Mihomo.Reader
import GlitchCore.Mihomo.Verdict
import GlitchCore.Routing.Specificity

/-!
# Rule lines that say what they were written for

A step's lines, read back, give the step: any of its entries and, for a step that pairs two planes, any of the
others, with its own target. It is so exactly when no field of a value begins or ends with white space and no entry is
a lone IPv4 address written inside IPv6. Validation keeps commas and unpaired parentheses out of the values a logic
rule holds, but of the white space it refuses only the plain space beside a comma of a regexp; and a lone address
stands in its line as a prefix, whose length is counted for the short form.
-/

namespace GlitchCore.Mihomo

open GoText NetAddr

/-! ### Operands -/

theorem parenthesesPairFrom_append {v : Text} {inner : Nat} (h : parenthesesPairFrom inner v = true) (depth : Nat)
    (s : Text) : parenthesesPairFrom (depth + inner) (v ++ s) = parenthesesPairFrom depth s := by
  induction v generalizing inner with
  | nil =>
      have hzero : inner = 0 := by simpa [parenthesesPairFrom] using h
      rw [hzero]
      rfl
  | cons c v ih =>
      by_cases hopen : c = '('
      · subst hopen
        have hnext : parenthesesPairFrom (inner + 1) v = true := h
        exact ih hnext
      · by_cases hclose : c = ')'
        · subst hclose
          cases inner with
          | zero => cases h
          | succ inner =>
              have hnext : parenthesesPairFrom inner v = true := h
              exact ih hnext
        · have hskip : ∀ (k : Nat) (t : Text), parenthesesPairFrom k (c :: t) = parenthesesPairFrom k t := fun k t =>
            parenthesesPairFrom_skip (s := [c]) (by simp [hopen, hclose]) k t
          rw [hskip] at h
          rw [List.cons_append, hskip, ih h]

theorem groupsFrom_append {v : Text} {inner : Nat} (h : parenthesesPairFrom inner v = true) (depth : Nat)
    (cur s : Text) : groupsFrom (depth + 1 + inner) cur (v ++ s) = groupsFrom (depth + 1) (cur ++ v) s := by
  induction v generalizing inner cur with
  | nil =>
      have hzero : inner = 0 := by simpa [parenthesesPairFrom] using h
      rw [hzero, List.append_nil]
      rfl
  | cons c v ih =>
      have hassoc : cur ++ c :: v = cur ++ [c] ++ v := by simp
      have hdepth : depth + 1 + inner = depth + inner + 1 := by omega
      by_cases hopen : c = '('
      · subst hopen
        have hnext : parenthesesPairFrom (inner + 1) v = true := h
        rw [List.cons_append, hdepth, groupsFrom, if_neg (by decide), if_pos rfl, hassoc, ← ih hnext]
        congr 1
        omega
      · by_cases hclose : c = ')'
        · subst hclose
          cases inner with
          | zero => cases h
          | succ inner =>
              have hnext : parenthesesPairFrom inner v = true := h
              rw [List.cons_append, hdepth, groupsFrom, if_pos rfl, if_neg (by omega), hassoc, ← ih hnext]
              congr 1
              omega
        · have hskip : parenthesesPairFrom inner v = true := by
            rw [← h]
            exact (parenthesesPairFrom_skip (s := [c]) (by simp [hopen, hclose]) inner v).symm
          rw [List.cons_append, hdepth, groupsFrom, if_neg hclose, if_neg hopen, hassoc, ← ih hskip, hdepth]

theorem groups_inParens {v : Text} (hv : parenthesesPair v = true) (s : Text) :
    groups (inParens v ++ s) = (groups s).map (v :: ·) := by
  have hshape : inParens v ++ s = '(' :: (v ++ ')' :: s) := by simp [inParens]
  rw [hshape, groups, groupsFrom, if_pos rfl]
  have hinside := groupsFrom_append hv 0 [] (')' :: s)
  rw [List.nil_append] at hinside
  rw [hinside, groupsFrom, if_pos rfl, if_pos rfl, groups]

theorem join_comma_cons (s t : Text) (parts : List Text) :
    join [','] (s :: t :: parts) = s ++ ',' :: join [','] (t :: parts) := by simp [join, List.intercalate]

theorem groups_operands {bodies : List Text} (h : ∀ v ∈ bodies, parenthesesPair v = true) :
    groups (join [','] (bodies.map inParens)) = some bodies := by
  induction bodies with
  | nil => rfl
  | cons v bodies ih =>
      obtain ⟨hv, hrest⟩ := List.forall_mem_cons.mp h
      cases bodies with
      | nil =>
          rw [List.map_singleton, show join [','] [inParens v] = inParens v ++ [] by simp [join, List.intercalate],
            groups_inParens hv]
          rfl
      | cons w bodies =>
          rw [List.map_cons, List.map_cons, join_comma_cons, groups_inParens hv, ← List.map_cons, groups, groupsFrom,
            if_neg (by decide), if_neg (by decide), ← groups, ih hrest]
          rfl

theorem paired_append {v w : Text} (hv : parenthesesPair v = true) (hw : parenthesesPair w = true) :
    parenthesesPair (v ++ w) = true := by
  rw [parenthesesPair, ← Nat.zero_add 0, parenthesesPairFrom_append hv, ← parenthesesPair, hw]

theorem paired_inParens {v : Text} (hv : parenthesesPair v = true) : parenthesesPair (inParens v) = true := by
  have hshape : inParens v = '(' :: (v ++ [')']) := by simp [inParens]
  rw [hshape, parenthesesPair, parenthesesPairFrom, Nat.zero_add, ← Nat.add_zero 1, parenthesesPairFrom_append hv]
  rfl

theorem paired_join {parts : List Text} (h : ∀ v ∈ parts, parenthesesPair v = true) :
    parenthesesPair (join [','] parts) = true := by
  induction parts with
  | nil => rfl
  | cons v parts ih =>
      obtain ⟨hv, hrest⟩ := List.forall_mem_cons.mp h
      cases parts with
      | nil => simpa [join, List.intercalate] using hv
      | cons w parts =>
          rw [join_comma_cons]
          have hcomma : parenthesesPair (',' :: join [','] (w :: parts)) = true := by
            rw [← List.singleton_append]
            exact paired_append (by decide) (ih hrest)
          exact paired_append hv hcomma

/-- The payload a logic rule is written with gives its operands back. -/
theorem operandTexts_payload {bodies : List Text} (h : ∀ v ∈ bodies, parenthesesPair v = true) :
    operandTexts (inParens (join [','] (bodies.map inParens))) = some bodies := by
  have hinner : parenthesesPair (join [','] (bodies.map inParens)) = true := by
    refine paired_join fun v hv => ?_
    obtain ⟨w, hw, rfl⟩ := List.mem_map.mp hv
    exact paired_inParens (h w hw)
  have hwhole := groups_inParens hinner []
  rw [List.append_nil] at hwhole
  rw [operandTexts, hwhole]
  show (if (inParens _).length = _ then _ else _) = _
  rw [if_pos (by simp [inParens]), groups_operands h]

/-! ### What a line is to say -/

/-- The value read is the entry's own; of an address rule, it names the same addresses. -/
def SameValue (e : Entry) (v : Text) : Prop :=
  if e.kind = .ipCIDR then ∀ x, namesAddress v x = namesAddress e.value x else v = e.value

def Denotes (e : Entry) (c : Cond) : Prop := ∃ v, c = .entry e.kind v ∧ SameValue e v

def AnyDenotes : List Entry → Cond → Prop
  | [e], c => Denotes e c
  | es, c => ∃ cs, c = .or cs ∧ List.Forall₂ Denotes es cs

/-- What the lines of a step are meant to say: any of its entries and, where it pairs two planes, any of the
others, to the step's target. -/
def StepDenotes (s : Step) (target : Text) (readings : List (Cond × Text)) : Prop :=
  if s.also = [] then List.Forall₂ (fun e r => Denotes e r.1 ∧ r.2 = target) s.entries readings
  else ∃ a b, readings = [(.and a b, target)] ∧ AnyDenotes s.entries a ∧ AnyDenotes s.also b

/-- The readings take exactly the flows the step matches, whatever the other matchers take. -/
def TakesAlike (s : Step) (readings : List (Cond × Text)) : Prop :=
  ∀ (f : Flow) (addresses : List IP), (∀ v, f.hits .ipCIDR v = addresses.any (namesAddress v)) →
    (readings.any fun r => r.1.holds f) = (s.eval f.hitsEntry).isSome

def ReadsBack (s : Step) (policy : Policy) : Prop :=
  ∃ readings, (stepLines s policy).map (fun r => readLine r.text) = readings.map some ∧
    StepDenotes s policy.text readings ∧ TakesAlike s readings

/-- An IPv4 address written inside IPv6, with no prefix length of its own. -/
def LoneMapped (e : Entry) : Prop := e.kind = .ipCIDR ∧ '/' ∉ e.value ∧ writtenMapped e.value = true

instance (e : Entry) : Decidable (LoneMapped e) := inferInstanceAs (Decidable (_ ∧ _))

theorem namesAddress_of_parseCIDR {s : Text} {net : Prefix} (h : parseCIDR s = some net) (x : IP) :
    namesAddress s x = net.contains x := by
  have hslash : '/' ∈ s := by
    unfold parseCIDR at h
    split at h
    · cases h
    · rename_i hcut
      exact (cut_eq_some.mp hcut).1 ▸ List.mem_append_right _ List.mem_cons_self
  rw [namesAddress, if_pos hslash, h, Option.any_some]

theorem namesAddress_normalizeCIDR {s : Text} (hvalid : isIPOrCIDR s = true) (hplain : '/' ∉ s → writtenMapped s = false)
    (x : IP) : namesAddress (normalizeCIDR s) x = namesAddress s x := by
  by_cases hslash : '/' ∈ s
  · rw [normalizeCIDR, trimSpace_of_isIPOrCIDR hvalid, if_pos hslash]
  · obtain ⟨net, hnet, -, hnames⟩ := exists_prefix_of_isIPOrCIDR hvalid (hplain hslash)
    rw [namesAddress_of_parseCIDR hnet, Bool.eq_iff_iff, hnames]

/-- The prefix of a lone mapped address holds `::1` too. -/
theorem namesAddress_mapped {s : Text} (hvalid : isIPOrCIDR s = true) (hbare : '/' ∉ s)
    (hmapped : writtenMapped s = true) :
    namesAddress (normalizeCIDR s) (.v6 1) = true ∧ namesAddress s (.v6 1) = false := by
  obtain ⟨ip, hip⟩ := exists_parseIP_of_bare hvalid hbare
  obtain ⟨bits, rfl, hbits⟩ := (writtenMapped_bare hbare hip).mp hmapped
  have hnet := parseCIDR_normalizeCIDR_bare hbare hip
  refine ⟨?_, ?_⟩
  · have htop : bits >>> 96 = 0 := by
      rw [show 96 = 32 + 64 from rfl, BitVec.shiftRight_add, hbits]
      rfl
    simp [namesAddress_of_parseCIDR hnet, IP.to4, hbits, Prefix.contains, htop]
  · have hne : bits ≠ 1#128 := fun hone => absurd (hone ▸ hbits) (by decide)
    simp [namesAddress, hbare, hip, hne]

theorem sameValue_written {e : Entry} (he : Legible e) : SameValue e (written e) ↔ ¬LoneMapped e := by
  by_cases hkind : e.kind = .ipCIDR
  · rw [SameValue, written, if_pos hkind, if_pos hkind]
    constructor
    · rintro hsame ⟨-, hbare, hmapped⟩
      obtain ⟨hlong, hshort⟩ := namesAddress_mapped (he.address hkind) hbare hmapped
      exact Bool.false_ne_true (hshort.symm.trans ((hsame _).symm.trans hlong))
    · intro hlone
      refine namesAddress_normalizeCIDR (he.address hkind) fun hbare => ?_
      exact Bool.eq_false_iff.mpr fun hmapped => hlone ⟨hkind, hbare, hmapped⟩
  · rw [SameValue, written, if_neg hkind, if_neg hkind]
    exact iff_of_true rfl fun hlone => hkind hlone.1

/-! ### Steps -/

def entryCond (e : Entry) : Cond := .entry e.kind (written e)

def anyCond : List Entry → Cond
  | [e] => entryCond e
  | es => .or (es.map entryCond)

/-- What the lines of a step come to. -/
def stepReading (s : Step) (target : Text) : List (Cond × Text) :=
  if s.also = [] then s.entries.map fun e => (entryCond e, target)
  else [(.and (anyCond s.entries) (anyCond s.also), target)]

theorem forall₂_map {α β : Type} {r : α → β → Prop} {g : α → β} {l : List α} (h : ∀ a ∈ l, r a (g a)) :
    List.Forall₂ r l (l.map g) := by
  rw [List.forall₂_map_right_iff, List.forall₂_same]
  exact h

theorem anyDenotes {es : List Entry} (h : ∀ e ∈ es, SameValue e (written e)) : AnyDenotes es (anyCond es) := by
  match es, h with
  | [e], h => exact ⟨_, rfl, h e (by simp)⟩
  | [], _ => exact ⟨[], rfl, .nil⟩
  | e :: e' :: es, h => exact ⟨_, rfl, forall₂_map fun e he => ⟨_, rfl, h e he⟩⟩

theorem stepDenotes {s : Step} (h : ∀ e ∈ s.entries ++ s.also, SameValue e (written e)) (target : Text) :
    StepDenotes s target (stepReading s target) := by
  obtain ⟨hentries, halso⟩ := List.forall_mem_append.mp h
  rw [StepDenotes, stepReading]
  split
  · exact forall₂_map fun e he => ⟨⟨_, rfl, hentries e he⟩, rfl⟩
  · exact ⟨_, _, rfl, anyDenotes hentries, anyDenotes halso⟩

theorem anyCond_holds {f : Flow} {es : List Entry} (hne : es ≠ []) (h : ∀ e ∈ es, (entryCond e).holds f = f.hitsEntry e) :
    (anyCond es).holds f = es.any f.hitsEntry := by
  match es, hne with
  | [e], _ => simp [anyCond, h e]
  | e :: e' :: es, _ =>
      rw [anyCond, Cond.holds, anyHolds_eq_any, List.any_map]
      · exact FirstMatch.any_congr_mem h
      · intro e hcon
        cases hcon

theorem entryCond_holds {f : Flow} {addresses : List IP} (hf : ∀ v, f.hits .ipCIDR v = addresses.any (namesAddress v))
    {e : Entry} (hsame : SameValue e (written e)) : (entryCond e).holds f = f.hitsEntry e := by
  rw [entryCond, Cond.holds, Flow.hitsEntry]
  by_cases hkind : e.kind = .ipCIDR
  · rw [SameValue, if_pos hkind] at hsame
    rw [hkind, hf, hf]
    exact FirstMatch.any_congr_mem fun x _ => hsame x
  · rw [SameValue, if_neg hkind] at hsame
    rw [hsame]

theorem takesAlike {entries : List Entry} {s : Step} (hshape : s.Shaped entries)
    (h : ∀ e ∈ s.entries ++ s.also, SameValue e (written e)) (target : Text) : TakesAlike s (stepReading s target) := by
  intro f addresses hf
  obtain ⟨hentries, hothers⟩ := List.forall_mem_append.mp fun e he => entryCond_holds hf (h e he)
  rw [stepReading, Step.eval]
  by_cases halso : s.also = []
  · have hany : (s.entries.any fun e => (entryCond e).holds f) = s.entries.any f.hitsEntry :=
      FirstMatch.any_congr_mem hentries
    rw [if_pos halso, List.any_map]
    simp only [Function.comp_def, halso, true_or, and_true, hany]
    cases s.entries.any f.hitsEntry <;> rfl
  · rw [if_neg halso]
    simp only [List.any_cons, List.any_nil, Bool.or_false, Cond.holds, anyCond_holds hshape.nonempty hentries,
      anyCond_holds halso hothers, halso, false_or]
    cases s.entries.any f.hitsEntry <;> cases s.also.any f.hitsEntry <;> rfl

def entryBody (e : Entry) : Text := ruleCondition e.kind e.value []

def orPayload (es : List Entry) : Text := inParens (join [','] ((es.map entryBody).map inParens))

/-- The inside of the operand that `anyOf` writes. -/
def anyBody : List Entry → Text
  | [e] => entryBody e
  | es => "OR".toList ++ ',' :: orPayload es

theorem anyBody_cons (e e' : Entry) (es : List Entry) :
    anyBody (e :: e' :: es) = "OR".toList ++ ',' :: orPayload (e :: e' :: es) := rfl

theorem operands_entries (es : List Entry) :
    operands (es.map fun e => Cond.entry e.kind e.value) = (es.map entryBody).map inParens := by
  induction es with
  | nil => rfl
  | cons e es ih =>
      rw [List.map_cons, operands, ih]
      rfl

theorem anyOf_operand {es : List Entry} (hne : es ≠ []) : ∃ c, anyOf es = some c ∧ c.operand = inParens (anyBody es) := by
  match es, hne with
  | [e], _ => exact ⟨_, rfl, rfl⟩
  | e :: e' :: es, _ =>
      refine ⟨.or ((e :: e' :: es).map fun e => Cond.entry e.kind e.value), rfl, ?_⟩
      rw [Cond.operand, operands_entries, anyBody_cons, orPayload]
      congr 1

/-- What a paired step is made of: legible, tidy and of a plane that rides a logic rule. -/
structure Operable (e : Entry) : Prop where
  legible : Legible e
  tidy : TidyEntry e
  notProcess : e.kind ≠ .process

theorem readEntry_of_tidy {e : Entry} (he : Legible e) (htidy : TidyEntry e) : readEntry e = entryCond e := by
  rw [readEntry, retrim_eq_self.mpr (he.tidy_written.mpr htidy), entryCond]

theorem Operable.payload {e : Entry} (he : Operable e) :
    Tidy ',' isSpace (rulePayload e) ∧ parenthesesPair (rulePayload e) = true := by
  have hlost : lostSpace e.kind = isSpace := if_neg he.notProcess
  rw [rulePayload_of_not_mem fun h => (he.notProcess h).elim, ← hlost]
  exact ⟨he.legible.tidy_written.mpr he.tidy, he.legible.paired he.notProcess⟩

theorem tidy_join {parts : List Text} (hne : parts ≠ []) (h : ∀ v ∈ parts, Tidy ',' isSpace v) :
    Tidy ',' isSpace (join [','] parts) := by
  induction parts with
  | nil => exact (hne rfl).elim
  | cons v parts ih =>
      obtain ⟨hv, hrest⟩ := List.forall_mem_cons.mp h
      cases parts with
      | nil => simpa [join, List.intercalate] using hv
      | cons w parts =>
          rw [join_comma_cons, tidy_append_sep]
          exact ⟨hv, ih (by simp) hrest⟩

theorem tidy_inParens {v : Text} (hv : Tidy ',' isSpace v) : Tidy ',' isSpace (inParens v) :=
  hv.wrap (by decide) (by decide) (by decide) (by decide)

theorem tidy_word {s : Text} (hs : Word s) : Tidy ',' isSpace s :=
  (tidy_of_not_mem hs.comma).mpr (trim_eq_self.mp hs.edges)

theorem Operable.body {e : Entry} (he : Operable e) :
    Tidy ',' isSpace (entryBody e) ∧ parenthesesPair (entryBody e) = true := by
  obtain ⟨htidy, hpaired⟩ := he.payload
  have hparams : ∀ s ∈ ruleParams e, Word s ∧ parenthesesPair s = true := by
    intro s hs
    unfold ruleParams at hs
    split at hs
    · exact List.mem_singleton.mp hs ▸ by decide
    · cases hs
  have htype : parenthesesPair (ruleType e ++ [',']) = true := by
    unfold ruleType
    generalize decide (',' ∈ e.value) = regex
    cases e.kind <;> cases regex <;> decide
  rw [entryBody, ruleCondition_eq, if_neg (not_not.mpr rfl), List.nil_append]
  refine ⟨tidy_join (by simp) (List.forall_mem_cons.mpr ⟨?_, fun s hs => tidy_word (hparams s hs).1⟩),
    paired_join (List.forall_mem_cons.mpr ⟨?_, fun s hs => (hparams s hs).2⟩)⟩
  · exact tidy_append_sep.mpr ⟨tidy_word (Word.ruleType e), htidy⟩
  · rw [show ruleType e ++ ',' :: rulePayload e = (ruleType e ++ [',']) ++ rulePayload e by simp]
    exact paired_append htype hpaired

theorem orPayload_facts {es : List Entry} (hne : es ≠ []) (hes : ∀ e ∈ es, Operable e) :
    Tidy ',' isSpace (orPayload es) ∧ parenthesesPair (orPayload es) = true ∧
      operandTexts (orPayload es) = some (es.map entryBody) := by
  have hbodies : ∀ v ∈ es.map entryBody, Tidy ',' isSpace v ∧ parenthesesPair v = true := by
    intro v hv
    obtain ⟨e, he, rfl⟩ := List.mem_map.mp hv
    exact (hes e he).body
  refine ⟨tidy_inParens (tidy_join (by simpa using hne) fun v hv => ?_), paired_inParens (paired_join fun v hv => ?_),
    operandTexts_payload fun v hv => (hbodies v hv).2⟩
  · obtain ⟨w, hw, rfl⟩ := List.mem_map.mp hv
    exact tidy_inParens (hbodies w hw).1
  · obtain ⟨w, hw, rfl⟩ := List.mem_map.mp hv
    exact paired_inParens (hbodies w hw).2

theorem anyBody_facts {es : List Entry} (hne : es ≠ []) (hes : ∀ e ∈ es, Operable e) :
    Tidy ',' isSpace (anyBody es) ∧ parenthesesPair (anyBody es) = true := by
  match es, hne with
  | [e], _ => exact (hes e (by simp)).body
  | e :: e' :: es, hne =>
      obtain ⟨htidy, hpaired, -⟩ := orPayload_facts hne hes
      have hor : parenthesesPair "OR,".toList = true := by decide
      exact ⟨tidy_append_sep.mpr ⟨tidy_word (by decide), htidy⟩, paired_append hor hpaired⟩

theorem readBody_entry {e : Entry} (he : Operable e) {fuel : Nat} (hfuel : 0 < fuel) :
    readCond fuel (parseRulePayload (entryBody e) false) = some (entryCond e) := by
  rw [entryBody, parse_entry_operand he.legible, readCond_entry he.legible [] hfuel,
    readEntry_of_tidy he.legible he.tidy]

theorem mapM_some {α β : Type} {f : α → Option β} {g : α → β} {l : List α} (h : ∀ a ∈ l, f a = some (g a)) :
    l.mapM f = some (l.map g) := by
  induction l with
  | nil => rfl
  | cons a l ih =>
      obtain ⟨ha, hl⟩ := List.forall_mem_cons.mp h
      simp [List.mapM_cons, ha, ih hl]

/-- A logic rule reads as its operands read. -/
theorem readCond_logic {tp payload target : Text} {bodies : List Text} {conds : List Cond} {fuel : Nat}
    (htp : tp ∈ ["AND".toList, "OR".toList, "NOT".toList]) (htexts : operandTexts payload = some bodies)
    (hread : (bodies.mapM fun s => readCond fuel (parseRulePayload s false)) = some conds) :
    readCond (fuel + 1) ⟨tp, payload, target, []⟩ = logicCond tp conds := by
  rw [readCond, if_pos htp, htexts]
  show Option.bind (List.mapM _ bodies) _ = _
  rw [hread]
  rfl

theorem readBody_any {es : List Entry} (hne : es ≠ []) (hes : ∀ e ∈ es, Operable e) {fuel : Nat} (hfuel : 1 < fuel) :
    readCond fuel (parseRulePayload (anyBody es) false) = some (anyCond es) := by
  match es, hne with
  | [e], _ => exact readBody_entry (hes e (by simp)) (by omega)
  | e :: e' :: es, hne =>
      obtain ⟨htidy, -, htexts⟩ := orPayload_facts hne hes
      obtain ⟨fuel, rfl⟩ := Nat.exists_eq_add_of_le' hfuel
      have hfields : fields (anyBody (e :: e' :: es)) = "OR".toList :: fields (orPayload (e :: e' :: es)) := by
        rw [anyBody_cons, fields_append_comma, Word.fields (by decide)]
        rfl
      have hread : ((e :: e' :: es).map entryBody).mapM (fun s => readCond (fuel + 1) (parseRulePayload s false)) =
          some ((e :: e' :: es).map entryCond) := by
        rw [List.mapM_map]
        exact mapM_some fun e he => readBody_entry (hes e he) (by omega)
      rw [parse_rejoined_operand (by decide) hfields, retrim_eq_self.mpr htidy,
        readCond_logic (by decide) htexts hread]
      rfl

theorem readLine_pair {es also : List Entry} (hes : es ≠ []) (halso : also ≠ [])
    (hop : ∀ e ∈ es ++ also, Operable e) {target : Text} (htarget : Word target) :
    readLine ("AND".toList ++ ',' :: (inParens (join [','] ([anyBody es, anyBody also].map inParens)) ++ ',' :: target)) =
      some (.and (anyCond es) (anyCond also), target) := by
  have hopEs : ∀ e ∈ es, Operable e := fun e he => hop e (List.mem_append_left _ he)
  have hopAlso : ∀ e ∈ also, Operable e := fun e he => hop e (List.mem_append_right _ he)
  obtain ⟨htidyEs, hpairedEs⟩ := anyBody_facts hes hopEs
  obtain ⟨htidyAlso, hpairedAlso⟩ := anyBody_facts halso hopAlso
  have hpaired : ∀ v ∈ [anyBody es, anyBody also], parenthesesPair v = true := by simp [hpairedEs, hpairedAlso]
  have htexts := operandTexts_payload hpaired
  have htidy : Tidy ',' isSpace (inParens (join [','] ([anyBody es, anyBody also].map inParens))) := by
    refine tidy_inParens (tidy_join (by simp) ?_)
    simp [tidy_inParens htidyEs, tidy_inParens htidyAlso]
  generalize inParens (join [','] ([anyBody es, anyBody also].map inParens)) = payload at htexts htidy ⊢
  have hfields : fields ("AND".toList ++ ',' :: (payload ++ ',' :: target)) =
      "AND".toList :: (fields payload ++ [target]) := by
    rw [fields_append_comma, fields_append_comma, htarget.fields, Word.fields (by decide)]
    rfl
  obtain ⟨fuel, hlength⟩ : ∃ fuel, ("AND".toList ++ ',' :: (payload ++ ',' :: target)).length = fuel + 3 :=
    Nat.exists_eq_add_of_le' (by simp)
  have hread : ([anyBody es, anyBody also].mapM fun s => readCond (fuel + 2) (parseRulePayload s false)) =
      some [anyCond es, anyCond also] := by
    simp [readBody_any hes hopEs (show 1 < fuel + 2 by omega), readBody_any halso hopAlso (show 1 < fuel + 2 by omega)]
  rw [readLine, parse_rejoined (by decide) hfields, retrim_eq_self.mpr htidy, hlength,
    readCond_logic (by decide) htexts hread]
  rfl

theorem plane_app_iff {e : Entry} : e.plane = .app ↔ e.kind = .process := by
  obtain ⟨kind, value, target⟩ := e
  cases kind <;> simp [Entry.plane, Entry.byAddress]

theorem notProcess_of_paired {entries : List Entry} {s : Step} (hshape : s.Shaped entries) (halso : s.also ≠ [])
    {e : Entry} (he : e ∈ s.entries ++ s.also) : e.kind ≠ .process := by
  obtain ⟨plane, hentries, hothers⟩ := hshape.onePlane
  intro hprocess
  have happ := plane_app_iff.mpr hprocess
  obtain he | he := List.mem_append.mp he
  · obtain ⟨o, ho⟩ := List.exists_mem_of_ne_nil _ halso
    have hother := hothers o ho
    rw [← hentries e he, happ] at hother
    cases hother
  · have hother := hothers e he
    rw [happ] at hother
    cases plane <;> cases hother

/-- A step whose entries are all tidy is read; one that pairs two planes holds no app entry. -/
theorem stepLines_read {entries : List Entry} {s : Step} (hshape : s.Shaped entries)
    (hlegible : ∀ e ∈ s.entries ++ s.also, Legible e) (htidy : ∀ e ∈ s.entries ++ s.also, TidyEntry e) {policy : Policy}
    (htarget : Word policy.text) (hne : policy.text ≠ []) :
    (stepLines s policy).map (fun r => readLine r.text) = (stepReading s policy.text).map some := by
  rw [stepLines, stepReading]
  by_cases halso : s.also = []
  · rw [if_pos halso, if_pos halso, List.map_map, List.map_map]
    refine List.map_congr_left fun e he => ?_
    have hmem : e ∈ s.entries ++ s.also := List.mem_append_left _ he
    show readLine (ruleCondition e.kind e.value policy.text) = some (entryCond e, policy.text)
    rw [readLine_entry (hlegible e hmem) htarget hne, readEntry_of_tidy (hlegible e hmem) (htidy e hmem)]
  · have hop : ∀ e ∈ s.entries ++ s.also, Operable e := fun e he =>
      ⟨hlegible e he, htidy e he, notProcess_of_paired hshape halso he⟩
    obtain ⟨a, ha, haop⟩ := anyOf_operand hshape.nonempty
    obtain ⟨b, hb, hbop⟩ := anyOf_operand halso
    rw [if_neg halso, if_neg halso, ha, hb]
    have htext : Rule.text ⟨.and a b, policy⟩ =
        "AND,".toList ++ inParens (a.operand ++ ",".toList ++ b.operand) ++ ",".toList ++ policy.text := rfl
    rw [List.map_singleton, List.map_singleton, ← readLine_pair hshape.nonempty halso hop htarget, htext, haop, hbop]
    simp [join, List.intercalate]

theorem Legible.of_mem {p : Profile} (hvalid : p.validate = none) {t : Tier} (ht : t ∈ p.tiers) {e : Entry}
    (he : e ∈ t.entries) : Legible e := by
  obtain ⟨m, hm, hclass⟩ := t.exists_matcher he
  exact Legible.of_matcher hclass (p.validate_eq_none hvalid ht hm)

theorem outcomePolicy_word {target : Text} (htarget : Word target) (hne : target ≠ []) (outcome : Target) :
    Word (outcomePolicy target outcome).text ∧ (outcomePolicy target outcome).text ≠ [] := by
  cases outcome with
  | block => exact ⟨show Word "REJECT".toList by decide, show "REJECT".toList ≠ [] by decide⟩
  | direct => exact ⟨show Word "DIRECT".toList by decide, show "DIRECT".toList ≠ [] by decide⟩
  | proxy => exact ⟨htarget, hne⟩

/-! ### Targets -/

def blankOut (runes s : Text) : Text := trimSpace (s.map fun c => if c ∈ runes then ' ' else c)

/-- A remark writes a plus for a space. -/
def sanitizeName (s : Text) : Text := blankOut [',', '+'] s

/-- The proxy name of a link; the remark of a vmess link is written as it is. -/
def linkName (vmess : Bool) (remark : Text) (idx : Nat) : Text :=
  let name := if vmess then blankOut [','] remark else sanitizeName remark
  if name ≠ [] then name else "proxy-".toList ++ itoa idx

/-- The names `uniqueName` tries for a proxy whose own name is taken. -/
def nameCandidate (name : Text) (n : Nat) : Text := name ++ " (".toList ++ itoa n ++ ")".toList

theorem isPlain_itoa (n : Nat) : ∀ c ∈ itoa n, isPlain c = true := by
  intro c hc
  have hdigit := toNat_of_isDigit (Nat.isDigit_of_mem_toDigits (b := 10) (by decide) (by decide) hc)
  exact isPlain_of_toNat (by omega)

theorem blankOut_word {runes : Text} (hcomma : ',' ∈ runes) (s : Text) : Word (blankOut runes s) := by
  refine ⟨not_mem_trim fun hmem => ?_, trim_eq_self.mpr (edges_trim ..)⟩
  obtain ⟨c, -, hc⟩ := List.mem_map.mp hmem
  split at hc
  · exact absurd hc (by decide)
  · rename_i hnot
    exact hnot (hc ▸ hcomma)

theorem word_of_plain {s : Text} (h : ∀ c ∈ s, isPlain c = true) : Word s :=
  ⟨not_comma_of_plain h, trim_eq_self.mpr ((tidy_of_not_mem (not_comma_of_plain h)).mp (tidy_of_plain h))⟩

theorem linkName_word (vmess : Bool) (remark : Text) (idx : Nat) :
    Word (linkName vmess remark idx) ∧ linkName vmess remark idx ≠ [] := by
  have hword : Word (if vmess then blankOut [','] remark else sanitizeName remark) := by
    split
    · exact blankOut_word (by decide) remark
    · exact blankOut_word (by decide) remark
  rw [linkName]
  generalize (if vmess then blankOut [','] remark else sanitizeName remark) = name at hword ⊢
  by_cases hne : name ≠ []
  · rw [if_pos hne]
    exact ⟨hword, hne⟩
  · have hhead : ∀ c ∈ "proxy-".toList, isPlain c = true := List.all_eq_true.mp (by decide)
    rw [if_neg hne]
    refine ⟨word_of_plain fun c hc => ?_, by simp⟩
    exact (List.mem_append.mp hc).elim (hhead c) (isPlain_itoa idx c)

theorem nameCandidate_word {name : Text} (hname : Word name) (hne : name ≠ []) (n : Nat) :
    Word (nameCandidate name n) ∧ nameCandidate name n ≠ [] := by
  obtain ⟨c, rest, rfl⟩ := List.exists_cons_of_ne_nil hne
  have hedges := trim_eq_self.mp hname.edges
  refine ⟨⟨?_, trim_eq_self.mpr ⟨?_, ?_⟩⟩, by simp [nameCandidate]⟩
  · have hdigits : ',' ∉ itoa n := not_comma_of_plain (isPlain_itoa n)
    have hhead : ',' ∉ " (".toList := by decide
    have hlast : ',' ∉ ")".toList := by decide
    simp only [nameCandidate, List.mem_append, not_or]
    exact ⟨⟨⟨hname.comma, hhead⟩, hdigits⟩, hlast⟩
  · exact hedges.1
  · have hclose : isSpace ')' = false := by decide
    rw [nameCandidate, List.getLast?_append]
    simp [hclose]

theorem read_of_forall₂ {α β : Type} {r : α → β → Prop} {read : α → Option β} {l : List α} {l' : List β}
    (h : List.Forall₂ r l l') (hread : l.map read = l'.map some) {a : α} (ha : a ∈ l) : ∃ b, read a = some b ∧ r a b := by
  induction h with
  | nil => cases ha
  | cons hab _ ih =>
      obtain ⟨hhead, htail⟩ := List.cons.inj hread
      obtain rfl | ha := List.mem_cons.mp ha
      · exact ⟨_, hhead, hab⟩
      · exact ih htail ha

/-- Where the line of an entry alone reads back, nothing of the entry is lost. -/
theorem kept_of_readsBack {s : Step} (halso : s.also = []) {e : Entry} (he : e ∈ s.entries) (hlegible : Legible e)
    {policy : Policy} (htarget : Word policy.text) (hne : policy.text ≠ []) (hread : ReadsBack s policy) :
    TidyEntry e ∧ ¬LoneMapped e := by
  obtain ⟨readings, hread, hdenotes, -⟩ := hread
  rw [StepDenotes, if_pos halso] at hdenotes
  rw [stepLines, if_pos halso, List.map_map] at hread
  obtain ⟨r, hline, ⟨v, hv, hsame⟩, -⟩ := read_of_forall₂ hdenotes hread he
  have hentry : readLine (ruleCondition e.kind e.value policy.text) = some r := hline
  rw [readLine_entry hlegible htarget hne] at hentry
  obtain rfl := Option.some.inj hentry
  obtain rfl := (Cond.entry.inj hv).2
  have htidy : TidyEntry e := by
    by_cases hkind : e.kind = .ipCIDR
    · have hlost : lostSpace e.kind = isSpace := if_neg (by rw [hkind]; decide)
      rw [TidyEntry, hlost]
      exact tidy_of_plain (isPlain_of_address (hlegible.address hkind))
    · rw [SameValue, if_neg hkind, written, if_neg hkind] at hsame
      exact retrim_eq_self.mp hsame
  rw [retrim_eq_self.mpr (hlegible.tidy_written.mpr htidy)] at hsame
  exact ⟨htidy, (sameValue_written hlegible).mp hsame⟩

/-- For a validated profile and a target that is a word, the lines of every step read back to that step exactly
when no comma-separated field of a matcher's value begins or ends with white space that its line loses, and no entry is
a lone address of the mapped form. -/
theorem rules_read_back_iff {p : Profile} (hvalid : p.validate = none) {target : Text} (htarget : Word target)
    (hne : target ≠ []) :
    (∀ t ∈ p.tiers, ∀ s ∈ t.steps, ReadsBack s (outcomePolicy target s.target)) ↔
      ∀ t ∈ p.tiers, ∀ e ∈ t.entries, TidyEntry e ∧ ¬LoneMapped e := by
  constructor
  · intro hread t ht e he
    obtain ⟨s, hs, halso, -, hmem⟩ := Tier.exists_step_of_entry he
    obtain ⟨hword, htext⟩ := outcomePolicy_word htarget hne s.target
    exact kept_of_readsBack halso hmem (Legible.of_mem hvalid ht he) hword htext (hread t ht s hs)
  · intro hkept t ht s hs
    have hshape := Tier.steps_shaped hs
    obtain ⟨hword, htext⟩ := outcomePolicy_word htarget hne s.target
    have hlegible : ∀ e ∈ s.entries ++ s.also, Legible e := fun e he => Legible.of_mem hvalid ht (hshape.mem e he)
    have hsame : ∀ e ∈ s.entries ++ s.also, SameValue e (written e) := fun e he =>
      (sameValue_written (hlegible e he)).mpr (hkept t ht e (hshape.mem e he)).2
    have hlines := stepLines_read hshape hlegible (fun e he => (hkept t ht e (hshape.mem e he)).1) hword htext
    exact ⟨_, hlines, stepDenotes hsame _, takesAlike hshape hsame _⟩

def mainProfile (block direct proxy : List Text) : Profile where
  mode := []
  tiers := [⟨block, direct, proxy⟩]
  domainStrategy := []
  localNetworks := false
  directSendThrough := []
  directInterface := []
  disableIPv6 := false
  disableUDP := false

/-- A tab beside the comma of a regexp passes validation, and mihomo reads another regexp. -/
def tabProfile : Profile := mainProfile [] ["regexp:^x\x7b1,\t3\x7d$".toList] []

theorem rule_not_read_back_tab : tabProfile.validate = none ∧
    (buildRules tabProfile "vpn".toList false).map Line.text =
      ["DOMAIN-REGEX,^x\x7b1,\t3\x7d$,DIRECT".toList, "MATCH,vpn".toList] ∧
    readLine "DOMAIN-REGEX,^x\x7b1,\t3\x7d$,DIRECT".toList =
      some (.entry .domainRegex "^x\x7b1,3\x7d$".toList, "DIRECT".toList) ∧
    ∃ t ∈ tabProfile.tiers, ∃ s ∈ t.steps, ¬ReadsBack s (outcomePolicy "vpn".toList s.target) := by
  refine ⟨by decide, by decide, rfl, tabProfile.tiers.head (by decide), by decide, ?_⟩
  refine ⟨⟨[⟨.domainRegex, "^x\x7b1,\t3\x7d$".toList, .direct⟩], [], .direct⟩, by decide, fun hread => ?_⟩
  have hlegible : Legible ⟨.domainRegex, "^x\x7b1,\t3\x7d$".toList, .direct⟩ :=
    Legible.of_matcher (m := "regexp:^x\x7b1,\t3\x7d$".toList) (by decide) (by decide)
  exact absurd (kept_of_readsBack rfl List.mem_cons_self hlegible (by decide) (by decide) hread).1 (by decide)

/-- An app with commas and spaces in its name, a regexp with a comma, and names paired with a blocked network. -/
def commaProfile : Profile :=
  mainProfile ["process:My App , v2.exe".toList, "10.0.0.0/8".toList]
    ["regexp:^x\x7b1,3\x7d\\.example$".toList, "domain:a(b)c.example".toList] ["geoip:de".toList]

theorem rules_read_back_comma : commaProfile.validate = none ∧
    ∀ t ∈ commaProfile.tiers, ∀ s ∈ t.steps, ReadsBack s (outcomePolicy "vpn".toList s.target) :=
  ⟨by decide, (rules_read_back_iff (by decide) (by decide) (by decide)).mpr (by decide)⟩

end GlitchCore.Mihomo
