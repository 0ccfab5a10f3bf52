import GlitchCore.Base.Redaction
import GlitchCore.Base.Reading
import GlitchCore.Logfmt.Scrub

/-!
# The passes for fields

Three of the scrubber's passes look for a secret's name, a sign after it and a value, and put the mark in the place of
the value; they differ in what stands before the name, in the sign and in the kinds of value. `FieldPattern` is what
they share. A field whose value is not the mark yet is one such a pass still finds: there is none in what the pass
left, and none comes back when later passes put marks in the place of other texts.
-/

namespace GlitchCore.Logfmt

open GoText Regex Redaction

/-! ### What all passes keep to -/

/-- A piece ends where a word ends, and does not start inside a mark. -/
structure Parts (prev : Option Char) (piece rest : Text) : Prop where
  ends : piece.getLast?.any isWord = false ∨ rest.head?.any isWord = false
  outside : Outside redacted prev piece rest

/-- Before a place stands a word on both sides, or none that matters. -/
def SameWord (prevX prevY : Option Char) (x : Text) : Prop :=
  prevY.any isWord = prevX.any isWord ∨ prevY.any isWord = false ∧ x.head?.any isWord = false

theorem Parts.sameWord {prev : Option Char} {piece rest : Text} (h : Parts prev piece rest) :
    SameWord piece.getLast? redacted.getLast? rest := by
  have hclose : redacted.getLast?.any isWord = false := by decide
  obtain hpiece | hrest := h.ends
  · exact .inl (hclose.trans hpiece.symm)
  · exact .inr ⟨hclose, hrest⟩

/-! ### The names of secrets -/

/-- The runes of a secret's name, in any case. -/
def keyRune (c : Char) : Bool := foldCase Char.isLower c || c == '_' || c == '-'

theorem over_literalFold {word : Text} (h : word.all Char.isLower = true) : Over keyRune (literalFold word) := by
  refine .sequence fun e he => ?_
  obtain ⟨c, hc, rfl⟩ := List.mem_map.mp he
  refine .rune fun d hd => ?_
  have hlower : c.isLower = true := List.all_eq_true.mp h c hc
  have hfold : foldCase Char.isLower d = true := foldCase_mono (fun x hx => by rw [beq_iff_eq.mp hx]; exact hlower) hd
  rw [keyRune, hfold]
  rfl

theorem over_separator : Over keyRune separator := by
  refine .optional (.rune fun c hc => ?_)
  rw [keyRune, Bool.or_assoc, hc, Bool.or_true]

theorem over_joined {a b : Text} (ha : a.all Char.isLower = true) (hb : b.all Char.isLower = true) :
    Over keyRune (sequence [literalFold a, separator, literalFold b]) :=
  .cat (over_literalFold ha) (.cat over_separator (.cat (over_literalFold hb) .empty))

theorem over_secretKeys : Over keyRune secretKeys := by
  refine .choice fun e he => ?_
  simp only [List.mem_cons, List.not_mem_nil, or_false] at he
  obtain rfl | rfl | rfl | rfl | rfl | rfl | rfl | rfl | rfl | rfl | rfl | rfl | rfl | rfl | rfl | rfl | rfl | rfl | rfl :=
    he
  all_goals first
    | exact over_literalFold (by decide)
    | exact over_joined (by decide) (by decide)
    | exact .cat (over_literalFold (by decide)) (.cat over_separator (over_joined (by decide) (by decide)))

theorem secretKeys_plain : secretKeys.plain = true := by decide

theorem ne_nil_of_secretKey {w : Text} (hw : secretKeys.Reads w) : w ≠ [] := by
  rintro rfl
  exact absurd hw.width_le (by decide)

/-! ### The sign after a name -/

/-- A sign, blanks around it and perhaps the quote that closes the name. -/
def Sign (t : Text) : Prop :=
  ∃ quote before d after, t = quote ++ (before ++ d :: after) ∧ (∀ c ∈ quote, (c == '"') = true) ∧
    (∀ c ∈ before, isBlank c = true) ∧ (d = '=' ∨ d = ':') ∧ ∀ c ∈ after, isBlank c = true

/-- The longest run of a class is known by the rune after it. -/
theorem eq_of_runs {f : Char → Bool} {u v x y : Text} (h : u ++ x = v ++ y) (hu : ∀ c ∈ u, f c = true)
    (hv : ∀ c ∈ v, f c = true) (hx : x.head?.any f = false) (hy : y.head?.any f = false) : u = v ∧ x = y := by
  induction u generalizing v with
  | nil =>
      cases v with
      | nil => exact ⟨rfl, h⟩
      | cons d v =>
          rw [List.nil_append] at h
          rw [h, List.cons_append, List.head?_cons, Option.any_some, hv d List.mem_cons_self] at hx
          cases hx
  | cons c u ih =>
      cases v with
      | nil =>
          rw [List.nil_append] at h
          rw [← h, List.cons_append, List.head?_cons, Option.any_some, hu c List.mem_cons_self] at hy
          cases hy
      | cons d v =>
          obtain ⟨rfl, htail⟩ := List.cons.inj h
          obtain ⟨rfl, hrest⟩ := ih htail (fun e he => hu e (List.mem_cons_of_mem c he))
            fun e he => hv e (List.mem_cons_of_mem c he)
          exact ⟨rfl, hrest⟩

theorem head?_any_append {f : Char → Bool} {u v : Text} (hu : ∀ c ∈ u, f c = false) (hv : v.head?.any f = false) :
    (u ++ v).head?.any f = false := by
  cases u with
  | nil => exact hv
  | cons c u => exact hu c List.mem_cons_self

theorem isBlank_cases {c : Char} (h : isBlank c = true) : c ∈ ['\t', '\n', '\x0c', '\r', ' '] := by
  simp only [isBlank, Bool.or_eq_true, beq_iff_eq] at h
  obtain (((rfl | rfl) | h) | rfl) | rfl := h
  · decide
  · decide
  · obtain rfl : c = '\x0c' := Char.toNat_inj.mp h
    decide
  · decide
  · decide

/-- The runes a sign is made of. -/
def signRunes : Text := ['"', '=', ':', '\t', '\n', '\x0c', '\r', ' ']

theorem Sign.mem {t : Text} (h : Sign t) {c : Char} (hc : c ∈ t) : c ∈ signRunes := by
  obtain ⟨quote, before, d, after, rfl, hquote, hbefore, hd, hafter⟩ := h
  have hblank {c : Char} (hc : isBlank c = true) : c ∈ signRunes :=
    List.mem_of_mem_drop (i := 3) (isBlank_cases hc)
  obtain hc | hc := List.mem_append.mp hc
  · rw [beq_iff_eq.mp (hquote c hc)]
    decide
  · obtain hc | hc := List.mem_append.mp hc
    · exact hblank (hbefore c hc)
    · obtain rfl | hc := List.mem_cons.mp hc
      · obtain rfl | rfl := hd <;> decide
      · exact hblank (hafter c hc)

theorem Sign.ne_nil {t : Text} (h : Sign t) : t ≠ [] := by
  obtain ⟨quote, before, d, after, rfl, -⟩ := h
  simp

/-- A sign ends where something that is no blank begins. -/
theorem Sign.unique {t t' x x' : Text} (h : Sign t) (h' : Sign t') (heq : t ++ x = t' ++ x')
    (hx : x.head?.any isBlank = false) (hx' : x'.head?.any isBlank = false) : x = x' := by
  obtain ⟨quote, before, d, after, rfl, hquote, hbefore, hd, hafter⟩ := h
  obtain ⟨quote', before', d', after', rfl, hquote', hbefore', hd', hafter'⟩ := h'
  have hunquoted {before : Text} {d : Char} (hbefore : ∀ c ∈ before, isBlank c = true) (hd : d = '=' ∨ d = ':')
      (z : Text) : (before ++ d :: z).head?.any (· == '"') = false := by
    refine head?_any_append (fun c hc => ?_) ?_
    · rw [beq_eq_false_iff_ne]
      rintro rfl
      exact absurd (hbefore _ hc) (by decide)
    · obtain rfl | rfl := hd <;> rfl
  have hunblank {d : Char} (hd : d = '=' ∨ d = ':') (z : Text) : (d :: z).head?.any isBlank = false := by
    obtain rfl | rfl := hd <;> rfl
  simp only [List.append_assoc, List.cons_append] at heq
  obtain ⟨-, heq⟩ := eq_of_runs heq hquote hquote' (hunquoted hbefore hd _) (hunquoted hbefore' hd' _)
  obtain ⟨-, heq⟩ := eq_of_runs heq hbefore hbefore' (hunblank hd _) (hunblank hd' _)
  exact (eq_of_runs (List.cons.inj heq).2 hafter hafter' hx hx').2

theorem Sign.not_key {t : Text} (h : Sign t) {c : Char} (hc : c ∈ t) : keyRune c = false := by
  have hnone : signRunes.all (fun c => !keyRune c) = true := by decide
  exact (Bool.not_eq_true' _).mp (List.all_eq_true.mp hnone c (h.mem hc))

/-- A name and a sign are read in one way only, also from inside another name and sign. -/
theorem eq_of_fields {a b w t w' t' z r : Text} (hsplit : a ++ b = w ++ t) (hw : secretKeys.Reads w) (ht : Sign t)
    (hw' : secretKeys.Reads w') (ht' : Sign t') (heq : b ++ z = w' ++ (t' ++ r)) (hkey : z.head?.any keyRune = false)
    (hz : z.head?.any isBlank = false) (hr : r.head?.any isBlank = false) : z = r := by
  have hafter : (t' ++ r).head?.any keyRune = false := by
    obtain ⟨c, t', rfl⟩ := List.exists_cons_of_ne_nil ht'.ne_nil
    exact ht'.not_key List.mem_cons_self
  obtain ⟨c, rfl, rfl⟩ | ⟨c, rfl, rfl⟩ := List.append_eq_append_iff.mp hsplit
  · rw [List.append_assoc] at heq
    have hc : ∀ d ∈ c, keyRune d = true := fun d hd => over_secretKeys.of_reads hw d (List.mem_append_right a hd)
    obtain ⟨-, heq⟩ := eq_of_runs heq hc (over_secretKeys.of_reads hw')
      (head?_any_append (fun d hd => ht.not_key hd) hkey) hafter
    exact ht.unique ht' heq hz hr
  · have hb : (b ++ z).head?.any keyRune = false :=
      head?_any_append (fun d hd => ht.not_key (List.mem_append_right c hd)) hkey
    obtain ⟨hempty, -⟩ := eq_of_runs (u := []) heq nofun (over_secretKeys.of_reads hw') hb hafter
    exact absurd hempty.symm (ne_nil_of_secretKey hw')

/-! ### The values -/

def bareRune (c : Char) : Bool := !(isBlank c || ",;&\"'\x7d)]".toList.contains c)

theorem bareRune_of_isWord {c : Char} (h : isWord c = true) : bareRune c = true := by
  by_contra hbare
  rw [bareRune, Bool.not_eq_true', Bool.not_eq_false, Bool.or_eq_true, List.contains_iff_mem] at hbare
  have hlisted : c ∈ ['\t', '\n', '\x0c', '\r', ' '] ++ ",;&\"'\x7d)]".toList :=
    List.mem_append.mpr (hbare.imp isBlank_cases id)
  have hnone : (['\t', '\n', '\x0c', '\r', ' '] ++ ",;&\"'\x7d)]".toList).all (fun c => !isWord c) = true := by decide
  have hword := List.all_eq_true.mp hnone c hlisted
  rw [h] at hword
  cases hword

theorem eq_of_foldCase {c d : Char} (hc : c = '[' ∨ c = ']') (h : foldCase (· == c) d = true) : d = c := by
  have hval : c.val.toNat = 91 ∨ c.val.toNat = 93 := hc.imp (fun h => by rw [h]; rfl) fun h => by rw [h]; rfl
  have hother : ∀ e ∈ ['s', 'S', 'k', 'K'], e ≠ c := by
    have hall : ['s', 'S', 'k', 'K'].all (fun e => e.val.toNat != 91 && e.val.toNat != 93) = true := by decide
    rintro e he rfl
    have hone := List.all_eq_true.mp hall e he
    simp only [Bool.and_eq_true, bne_iff_ne, ne_eq] at hone
    omega
  simp only [foldCase, Bool.or_eq_true, Bool.and_eq_true, beq_iff_eq] at h
  obtain (((h | h) | h) | ⟨-, h | h⟩) | ⟨-, h | h⟩ := h
  · exact h
  · unfold Char.toLower at h
    split at h
    next hupper =>
      rw [ge_iff_le, UInt32.le_iff_toNat_le, UInt32.le_iff_toNat_le] at hupper
      have hsum := congrArg (fun e : Char => e.val.toNat) h
      have hshift : ('a'.val - 'A'.val).toNat = 32 := by decide
      dsimp only at hsum
      rw [UInt32.toNat_add, hshift] at hsum
      have hA : 'A'.val.toNat = 65 := rfl
      have hZ : 'Z'.val.toNat = 90 := rfl
      omega
    next => exact h
  · unfold Char.toUpper at h
    split at h
    next hlower =>
      rw [UInt32.le_iff_toNat_le, UInt32.le_iff_toNat_le] at hlower
      have hsum := congrArg (fun e : Char => e.val.toNat) h
      have hshift : ('A'.val - 'a'.val).toNat = 4294967264 := by decide
      dsimp only at hsum
      rw [UInt32.toNat_add, hshift] at hsum
      have ha : 'a'.val.toNat = 97 := rfl
      have hz : 'z'.val.toNat = 122 := rfl
      omega
    next => exact h
  · exact absurd h (hother _ (by decide))
  · exact absurd h (hother _ (by decide))
  · exact absurd h (hother _ (by decide))
  · exact absurd h (hother _ (by decide))

/-- The kinds of value the passes take. -/
inductive Value : Expr → Prop
  | marked : Value redactedFold
  | quoted {q : Char} : q = '"' ∨ q = '\'' → Value (quotedBy q)
  | bare : Value bareValue

theorem reads_quotedBy {q : Char} {v : Text} : (quotedBy q).Reads v ↔ ∃ body, v = q :: (body ++ [q]) ∧ q ∉ body := by
  constructor
  · rintro ⟨_, _, rfl, ⟨c, rfl, hc⟩, body, _, rfl, hbody, _, _, rfl, ⟨d, rfl, hd⟩, rfl⟩
    rw [beq_iff_eq] at hc hd
    subst hc hd
    refine ⟨body, rfl, fun hmem => ?_⟩
    exact absurd (reads_star_rune.mp hbody _ hmem) (by simp)
  · rintro ⟨body, rfl, hbody⟩
    refine ⟨[q], _, rfl, ⟨q, rfl, BEq.rfl⟩, body, [q], rfl, ?_, [q], [], rfl, ⟨q, rfl, BEq.rfl⟩, rfl⟩
    refine reads_star_rune.mpr fun c hc => bne_iff_ne.mpr ?_
    rintro rfl
    exact hbody hc

theorem reads_bareValue {v : Text} : bareValue.Reads v ↔ ∃ c z, v = c :: z ∧ bareRune c = true ∧
    ∀ d ∈ z, bareRune d = true := by
  constructor
  · rintro ⟨_, z, rfl, ⟨c, rfl, hc⟩, hz⟩
    exact ⟨c, z, rfl, hc, reads_star_rune.mp hz⟩
  · rintro ⟨c, z, rfl, hc, hz⟩
    exact ⟨[c], z, rfl, ⟨c, rfl, hc⟩, reads_star_rune.mpr hz⟩

theorem reads_redactedFold {v : Text} (h : redactedFold.Reads v) :
    ∃ z, v = '[' :: (z ++ [']']) ∧ v.length = 10 ∧ ∀ c ∈ z, keyRune c = true := by
  have hlength := length_of_reads_literalFold h
  obtain ⟨_, rest, rfl, ⟨c, rfl, hc⟩, hrest⟩ := h
  obtain ⟨z, last, rfl, hz, hlast⟩ := reads_literalFold_append (s := "redacted".toList) (t := [']']).mp hrest
  obtain ⟨d, rfl, hd⟩ := reads_sequence_singleton.mp hlast
  obtain rfl := eq_of_foldCase (.inl rfl) hc
  obtain rfl := eq_of_foldCase (.inr rfl) hd
  exact ⟨z, rfl, hlength, (over_literalFold (by decide)).of_reads hz⟩

namespace Value

variable {e : Expr} {v : Text}

theorem plain (h : Value e) : e.plain = true := by
  cases h with
  | marked => rfl
  | quoted _ => rfl
  | bare => rfl

theorem head (h : Value e) (hv : e.Reads v) : ∃ c z, v = c :: z ∧ isBlank c = false := by
  cases h with
  | marked =>
      obtain ⟨z, rfl, -⟩ := reads_redactedFold hv
      exact ⟨'[', _, rfl, by decide⟩
  | quoted hq =>
      obtain ⟨body, rfl, -⟩ := reads_quotedBy.mp hv
      exact ⟨_, _, rfl, by obtain rfl | rfl := hq <;> decide⟩
  | bare =>
      obtain ⟨c, z, rfl, hc, -⟩ := reads_bareValue.mp hv
      rw [bareRune, Bool.not_eq_true', Bool.or_eq_false_iff] at hc
      exact ⟨c, z, rfl, hc.1⟩

/-- The value a pass takes ends where a word ends. -/
theorem ends (h : Value e) {p : Pos} {r : Text} (hrest : p.rest = v ++ r)
    (hfirst : (e.outcomes p).head? = some (p.after v r)) : v.getLast?.any isWord = false ∨ r.head?.any isWord = false := by
  have hread : e.Reads v := reads_of_head? h.plain hrest hfirst
  cases h with
  | marked =>
      obtain ⟨z, rfl, -⟩ := reads_redactedFold hread
      left
      rw [← List.cons_append, List.getLast?_concat]
      decide
  | quoted hq =>
      obtain ⟨body, rfl, -⟩ := reads_quotedBy.mp hread
      left
      rw [← List.cons_append, List.getLast?_concat]
      obtain rfl | rfl := hq <;> decide
  | bare =>
      have hrun : p.after v r = p.after (p.rest.takeWhile bareRune) (p.rest.dropWhile bareRune) := by
        have hplus := (head?_plus_rune bareRune p).symm.trans hfirst
        split at hplus
        · cases hplus
        · exact (Option.some.inj hplus).symm
      right
      rw [show r = p.rest.dropWhile bareRune from congrArg Pos.rest hrun]
      cases hnext : (p.rest.dropWhile bareRune).head? with
      | none => rfl
      | some c =>
          have hc := List.head?_dropWhile_not bareRune p.rest
          rw [hnext] at hc
          dsimp only at hc
          by_contra hword
          rw [bareRune_of_isWord ((Bool.not_eq_false _).mp hword)] at hc
          cases hc

/-- What a later pass left for a value was a value before. -/
theorem back (h : Value e) {Cut : Option Char → Text → Text → Prop} {prev : Option Char} {x y : Text}
    (hredacts : Redacts redacted Cut prev x y) (hmark : ¬ redacted <+: y) (hy : ∃ v r, y = v ++ r ∧ e.Reads v) :
    ∃ v r, x = v ++ r ∧ e.Reads v := by
  obtain ⟨v, r, rfl, hread⟩ := hy
  obtain ⟨c, z, rfl, -⟩ := h.head hread
  generalize hout : c :: z ++ r = out at hredacts hmark
  cases hredacts with
  | nil => cases hout
  | cut _ _ _ => exact absurd (List.prefix_append _ _) hmark
  | @keep _ _ x y hrest =>
      obtain ⟨rfl, rfl⟩ := List.cons.inj hout
      cases h with
      | marked =>
          obtain ⟨w, hw, -, hkey⟩ := reads_redactedFold hread
          obtain ⟨-, rfl⟩ := List.cons.inj hw
          have hopen : '[' ∉ w ++ [']'] := by
            intro hmem
            obtain hmem | hmem := List.mem_append.mp hmem
            · exact absurd (hkey _ hmem) (by decide)
            · exact absurd (List.mem_singleton.mp hmem) (by decide)
          obtain ⟨x', rfl, -⟩ := hrest.of_append rfl hopen
          exact ⟨_, x', rfl, hread⟩
      | @quoted q hq =>
          obtain ⟨body, hbody, -⟩ := reads_quotedBy.mp hread
          obtain ⟨rfl, rfl⟩ := List.cons.inj hbody
          have hclose : c ∈ x := hrest.mem (by simp) (by obtain rfl | rfl := hq <;> decide)
          obtain ⟨body', r', rfl, hfirst⟩ := List.eq_append_cons_of_mem hclose
          exact ⟨c :: (body' ++ [c]), r', by simp, reads_quotedBy.mpr ⟨body', rfl, hfirst⟩⟩
      | bare =>
          obtain ⟨d, _, hd, hbare, -⟩ := reads_bareValue.mp hread
          obtain ⟨rfl, -⟩ := List.cons.inj hd
          exact ⟨[c], x, rfl, reads_bareValue.mpr ⟨c, [], rfl, hbare, nofun⟩⟩

end Value

/-! ### The three patterns -/

/-- A pattern for a field. The name stands after a quote or at a word boundary. -/
structure FieldPattern where
  quoted : Bool
  sign : Expr
  values : List Expr
  signPlain : sign.plain = true
  isSign : ∀ t, sign.Reads t → Sign t
  isValue : ∀ e ∈ values, Value e

namespace FieldPattern

variable (k : FieldPattern)

def front : Expr := if k.quoted then .rune (· == '"') else .wordBoundary

def lead : Text := if k.quoted then ['"'] else []

def value : Expr := choice (redactedFold :: k.values)

def expr : Expr := sequence [k.front, .group 1 secretKeys, .group 2 k.sign, .group 3 k.value]

def swap (m : Match) : Text := k.lead ++ (m.group 1 ++ (m.group 2 ++ redacted))

/-- What the front looks at beside the quote. -/
def Opens (prev : Option Char) (s : Text) : Prop :=
  k.quoted = false → (prev.any isWord != s.head?.any isWord) = true

theorem mem_front {p q : Pos} : q ∈ k.front.outcomes p ↔
    k.Opens p.prev p.rest ∧ ∃ r, p.rest = k.lead ++ r ∧ q = p.after k.lead r := by
  unfold front lead Opens
  cases k.quoted with
  | true =>
      rw [if_pos rfl, if_pos rfl, mem_outcomes rfl]
      constructor
      · rintro ⟨_, r, hrest, rfl, c, rfl, hc⟩
        rw [beq_iff_eq.mp hc] at hrest ⊢
        exact ⟨nofun, r, hrest, rfl⟩
      · rintro ⟨-, r, hrest, rfl⟩
        exact ⟨_, r, hrest, rfl, '"', rfl, rfl⟩
  | false =>
      rw [if_neg Bool.false_ne_true, if_neg Bool.false_ne_true, Expr.outcomes]
      constructor
      · intro hq
        split at hq
        next hboundary =>
          obtain rfl := List.mem_singleton.mp hq
          exact ⟨fun _ => hboundary, q.rest, rfl, rfl⟩
        · cases hq
      · rintro ⟨hopens, r, hrest, rfl⟩
        rw [List.nil_append] at hrest
        rw [if_pos (show p.atWordBoundary = true from hopens rfl), ← hrest]
        exact List.mem_singleton.mpr rfl

theorem value_mem {e : Expr} (he : e ∈ redactedFold :: k.values) : Value e := by
  obtain rfl | he := List.mem_cons.mp he
  · exact .marked
  · exact k.isValue e he

theorem value_plain : k.value.plain = true := plain_choice fun _ he => (k.value_mem he).plain

theorem value_head {v : Text} (hv : k.value.Reads v) : ∃ c z, v = c :: z ∧ isBlank c = false := by
  obtain ⟨e, he, hread⟩ := reads_choice.mp hv
  exact (k.value_mem he).head hread

/-- A match, cut into the name, the sign and the value. -/
structure Taken (prev : Option Char) (s : Text) (m : Match) (w t v r : Text) : Prop where
  whole : s = k.lead ++ (w ++ (t ++ (v ++ r)))
  opens : k.Opens prev s
  key : secretKeys.Reads w
  sign : k.sign.Reads t
  value : ∃ p : Pos, p.rest = v ++ r ∧ (k.value.outcomes p).head? = some (p.after v r)
  text : m.text = k.lead ++ (w ++ (t ++ v))
  swap : k.swap m = k.lead ++ (w ++ (t ++ redacted))

theorem taken_of_matchAt {prev : Option Char} {s : Text} {m : Match} (h : k.expr.matchAt prev s = some m) :
    ∃ w t v r, k.Taken prev s m w t v r := by
  obtain ⟨q, hq, rfl⟩ := exists_of_matchAt h
  obtain ⟨p₁, hp₁, hq⟩ := exists_of_head?_flatMap hq
  obtain ⟨p₂, hp₂, hq⟩ := exists_of_head?_flatMap hq
  obtain ⟨p₃, hp₃, hq⟩ := exists_of_head?_flatMap hq
  have hlast : ((Expr.group 3 k.value).outcomes p₃).head? = some q := by
    rw [← List.flatMap_singleton' ((Expr.group 3 k.value).outcomes p₃)]
    exact hq
  obtain ⟨hopens, r₁, hrest₁, rfl⟩ := k.mem_front.mp hp₁
  obtain ⟨w, r₂, hrest₂, rfl, hkey⟩ := (mem_group secretKeys_plain).mp hp₂
  obtain ⟨t, r₃, hrest₃, rfl, hsign⟩ := (mem_group k.signPlain).mp hp₃
  change ((k.value.outcomes _).map _).head? = some q at hlast
  rw [List.head?_map] at hlast
  obtain ⟨q', hvalue, rfl⟩ := Option.map_eq_some_iff.mp hlast
  obtain ⟨v, r, hrest, rfl, -⟩ := (mem_outcomes k.value_plain _ _).mp (List.mem_of_mem_head? hvalue)
  have hwhole : s = k.lead ++ (w ++ (t ++ (v ++ r))) := by
    rw [show s = k.lead ++ r₁ from hrest₁, show r₁ = w ++ r₂ from hrest₂, show r₂ = t ++ r₃ from hrest₃,
      show r₃ = v ++ r from hrest]
  refine ⟨w, t, v, r, hwhole, hopens, hkey, hsign, ⟨_, hrest, hvalue⟩, ?_, ?_⟩
  · refine Pos.until_of_append ?_
    dsimp only [Pos.after]
    rw [hwhole]
    simp only [List.append_assoc]
  · rfl

theorem Taken.reads {k : FieldPattern} {prev : Option Char} {s w t v r : Text} {m : Match}
    (h : k.Taken prev s m w t v r) : k.value.Reads v := by
  obtain ⟨p, hrest, hfirst⟩ := h.value
  exact reads_of_head? k.value_plain hrest hfirst

/-- A value that is not the mark, at the start of a text. -/
def Shows (r : Text) : Prop := ¬ redacted <+: r ∧ ∃ v r', r = v ++ r' ∧ k.value.Reads v

/-- A field whose value the pass still has to replace. -/
def Finds (prev : Option Char) (s : Text) : Prop :=
  k.Opens prev s ∧ ∃ w t r, s = k.lead ++ (w ++ (t ++ r)) ∧ secretKeys.Reads w ∧ k.sign.Reads t ∧ k.Shows r

theorem Shows.unblank {k : FieldPattern} {r : Text} (h : k.Shows r) : r.head?.any isBlank = false := by
  obtain ⟨-, v, r', rfl, hread⟩ := h
  obtain ⟨c, z, rfl, hc⟩ := k.value_head hread
  exact hc

theorem Finds.matches {k : FieldPattern} {prev : Option Char} {s : Text} (h : k.Finds prev s) :
    ∃ m, k.expr.matchAt prev s = some m ∧ m.text ≠ [] := by
  obtain ⟨hopens, w, t, _, rfl, hkey, hsign, -, v, r, rfl, hread⟩ := h
  obtain ⟨p₁, hp₁, hrest₁⟩ : ∃ q ∈ k.front.outcomes ⟨prev, k.lead ++ (w ++ (t ++ (v ++ r))), []⟩,
      q.rest = w ++ (t ++ (v ++ r)) := ⟨_, k.mem_front.mpr ⟨hopens, _, rfl, rfl⟩, rfl⟩
  obtain ⟨p₂, hp₂, hrest₂⟩ := exists_mem_group (n := 1) secretKeys_plain hrest₁ hkey
  obtain ⟨p₃, hp₃, hrest₃⟩ := exists_mem_group (n := 2) k.signPlain hrest₂ hsign
  obtain ⟨p₄, hp₄, -⟩ := exists_mem_group (n := 3) k.value_plain hrest₃ hread
  obtain ⟨m, hm⟩ := matchAt_of_mem (e := k.expr) (List.mem_flatMap.mpr ⟨p₁, hp₁, List.mem_flatMap.mpr ⟨p₂, hp₂,
    List.mem_flatMap.mpr ⟨p₃, hp₃, List.mem_flatMap.mpr ⟨p₄, hp₄, List.mem_singleton.mpr rfl⟩⟩⟩⟩)
  obtain ⟨w', t', v', r', htaken⟩ := k.taken_of_matchAt hm
  refine ⟨m, hm, fun hempty => ?_⟩
  rw [htaken.text] at hempty
  exact ne_nil_of_secretKey htaken.key (List.append_eq_nil_iff.mp (List.append_eq_nil_iff.mp hempty).2).1

/-- The mark is the first value a pass tries. -/
theorem Taken.eq_redacted {k : FieldPattern} {prev : Option Char} {s w t v r : Text} {m : Match}
    (h : k.Taken prev s m w t v r) (hmark : redacted <+: v ++ r) : v = redacted := by
  obtain ⟨p, hrest, hfirst⟩ := h.value
  obtain ⟨r', hr'⟩ := hmark
  have hrest' : p.rest = redacted ++ r' := hrest.trans hr'.symm
  have hmem : p.after redacted r' ∈ redactedFold.outcomes p :=
    (mem_outcomes rfl p _).mpr ⟨redacted, r', hrest', rfl, reads_literalFold_self redacted⟩
  obtain ⟨q, hq⟩ := Option.isSome_iff_exists.mp (List.isSome_head?.mpr (List.ne_nil_of_mem hmem))
  obtain ⟨u, z, hu, rfl, hread⟩ := (mem_outcomes (e := redactedFold) rfl p q).mp (List.mem_of_mem_head? hq)
  obtain ⟨rfl, -⟩ := List.append_inj (hu.symm.trans hrest') (length_of_reads_literalFold hread)
  obtain rfl : z = r := congrArg Pos.rest (Option.some.inj ((head?_choice_cons hq).symm.trans hfirst))
  exact List.append_cancel_right (hrest.symm.trans hu)

theorem Taken.finds {k : FieldPattern} {prev : Option Char} {s w t v r : Text} {m : Match}
    (h : k.Taken prev s m w t v r) (hchanged : k.swap m ≠ m.text) : k.Finds prev s := by
  refine ⟨h.opens, w, t, v ++ r, h.whole, h.key, h.sign, fun hmark => hchanged ?_, v, r, rfl, h.reads⟩
  rw [h.swap, h.text, h.eq_redacted hmark]

theorem Taken.outside {k : FieldPattern} {prev : Option Char} {s w t v r : Text} {m : Match}
    (h : k.Taken prev s m w t v r) : Outside redacted ((k.lead ++ (w ++ t)).getLast?.or prev) v r := by
  rintro u z hmark hu - hlast
  have hsign := k.isSign t h.sign
  rw [← List.append_assoc, getLast?_append_of_ne_nil hsign.ne_nil,
    Option.or_of_isSome (List.getLast?_isSome.mpr hsign.ne_nil)] at hlast
  obtain ⟨c, hc⟩ := Option.isSome_iff_exists.mp (List.getLast?_isSome.mpr hu)
  have hc₁ : c ∈ redacted := by
    rw [hmark]
    exact List.mem_append_left _ (List.mem_of_getLast? hc)
  have hc₂ : c ∈ signRunes := hsign.mem (List.mem_of_getLast? (hlast.trans hc))
  have hapart : redacted.all (fun c => !signRunes.contains c) = true := by decide
  have := List.all_eq_true.mp hapart c hc₁
  rw [List.contains_iff_mem.mpr hc₂] at this
  cases this

theorem Taken.parts {k : FieldPattern} {prev : Option Char} {s w t v r : Text} {m : Match}
    (h : k.Taken prev s m w t v r) : Parts ((k.lead ++ (w ++ t)).getLast?.or prev) v r := by
  refine ⟨?_, h.outside⟩
  obtain ⟨p, hrest, hfirst⟩ := h.value
  obtain ⟨e, he, hfirst⟩ := exists_of_head?_choice hfirst
  exact (k.value_mem he).ends hrest hfirst

theorem taken_of_text {prev : Option Char} {w₀ s₀ : Text} {m : Match} (h : k.expr.matchAt prev (w₀ ++ s₀) = some m)
    (htext : m.text = w₀) : ∃ w t v, w₀ = (k.lead ++ (w ++ t)) ++ v ∧ v ≠ [] ∧ k.Taken prev (w₀ ++ s₀) m w t v s₀ := by
  obtain ⟨w, t, v, r, htaken⟩ := k.taken_of_matchAt h
  have hw₀ : w₀ = (k.lead ++ (w ++ t)) ++ v := by
    rw [← htext, htaken.text]
    simp only [List.append_assoc]
  obtain rfl : s₀ = r := by
    have hwhole := htaken.whole
    rw [hw₀] at hwhole
    refine List.append_cancel_left (hwhole.trans ?_)
    simp only [List.append_assoc]
  refine ⟨w, t, v, hw₀, ?_, htaken⟩
  obtain ⟨c, z, rfl, -⟩ := k.value_head htaken.reads
  exact List.cons_ne_nil c z

theorem pass : Pass redacted k.expr k.swap (fun _ _ => True) Parts where
  start _ := trivial
  copy _ _ _ _ _ := trivial
  swap prev w₀ s₀ m _ hmatch htext _ := by
    obtain ⟨w, t, v, hw₀, hv, htaken⟩ := k.taken_of_text hmatch htext
    refine ⟨trivial, .inr ⟨k.lead ++ (w ++ t), v, hw₀, hv, ?_, htaken.parts⟩⟩
    rw [htaken.swap]
    simp only [List.append_assoc]

theorem lead_cases : k.quoted = false ∧ k.lead = [] ∨ k.quoted = true ∧ k.lead = ['"'] := by
  unfold lead
  cases k.quoted with
  | false => exact .inl ⟨rfl, rfl⟩
  | true => exact .inr ⟨rfl, rfl⟩

theorem not_finds_inside {u v : Text} (hmark : redacted = u ++ v) (hv : v ≠ []) (prev : Option Char) (y : Text) :
    ¬ k.Finds prev (v ++ y) := by
  rintro ⟨-, w, t, r, heq, hw, ht, -⟩
  have hsign := k.isSign t ht
  -- a name that starts inside the mark would run up to one of its brackets
  have hbracket : ∃ c z, v.dropWhile keyRune = c :: z ∧ (c = '[' ∨ c = ']') := by
    have hsuffix : v ∈ redacted.tails := (List.mem_tails _ _).mpr ⟨u, hmark.symm⟩
    have hall : redacted.tails.all (fun v => v.isEmpty ||
        (v.dropWhile keyRune).head?.any fun c => c == '[' || c == ']') = true := by decide
    have hv' := List.all_eq_true.mp hall v hsuffix
    rw [List.isEmpty_eq_false_iff.mpr hv, Bool.false_or] at hv'
    cases hdrop : v.dropWhile keyRune with
    | nil =>
        rw [hdrop] at hv'
        cases hv'
    | cons c z =>
        rw [hdrop, List.head?_cons, Option.any_some, Bool.or_eq_true, beq_iff_eq, beq_iff_eq] at hv'
        exact ⟨c, z, rfl, hv'⟩
  obtain ⟨c, z, hdrop, hc⟩ := hbracket
  obtain ⟨-, hlead⟩ | ⟨-, hlead⟩ := k.lead_cases
  · rw [hlead, List.nil_append, ← List.takeWhile_append_dropWhile (p := keyRune) (l := v), List.append_assoc] at heq
    have hrun : ((v.dropWhile keyRune) ++ y).head?.any keyRune = false := by
      rw [hdrop]
      obtain rfl | rfl := hc <;> rfl
    obtain ⟨d, t, rfl⟩ := List.exists_cons_of_ne_nil hsign.ne_nil
    obtain ⟨-, heq⟩ := eq_of_runs heq (fun c hc => List.mem_takeWhile_imp hc) (over_secretKeys.of_reads hw) hrun
      (hsign.not_key List.mem_cons_self)
    rw [hdrop] at heq
    obtain ⟨rfl, -⟩ := List.cons.inj heq
    have hmem := hsign.mem List.mem_cons_self
    obtain rfl | rfl := hc
    · exact absurd hmem (by decide)
    · exact absurd hmem (by decide)
  · rw [hlead] at heq
    obtain ⟨d, v, rfl⟩ := List.exists_cons_of_ne_nil hv
    obtain ⟨rfl, -⟩ := List.cons.inj heq
    have hmem : '"' ∈ redacted := by
      rw [hmark]
      exact List.mem_append_right _ List.mem_cons_self
    exact absurd hmem (by decide)

theorem not_finds_before {a b w t : Text} (hsplit : a ++ b = k.lead ++ (w ++ t)) (hb : b ≠ [])
    (hw : secretKeys.Reads w) (ht : k.sign.Reads t) (prev : Option Char) (out : Text) :
    ¬ k.Finds prev (b ++ (redacted ++ out)) := by
  rintro ⟨-, w', t', r, heq, hw', ht', hshows⟩
  have hinner : ∃ a' b', a' ++ b' = w ++ t ∧ b' ++ (redacted ++ out) = w' ++ (t' ++ r) := by
    obtain ⟨-, hlead⟩ | ⟨-, hlead⟩ := k.lead_cases
    · rw [hlead] at heq hsplit
      exact ⟨a, b, hsplit, heq⟩
    · rw [hlead] at heq hsplit
      obtain ⟨d, b, rfl⟩ := List.exists_cons_of_ne_nil hb
      obtain ⟨rfl, htail⟩ := List.cons.inj heq
      cases a with
      | nil => exact ⟨[], b, (List.cons.inj hsplit).2, htail⟩
      | cons c a =>
          refine ⟨a ++ ['"'], b, ?_, htail⟩
          rw [List.append_assoc]
          exact (List.cons.inj hsplit).2
  obtain ⟨a', b', hsplit', heq'⟩ := hinner
  have hr := eq_of_fields hsplit' hw (k.isSign t ht) hw' (k.isSign t' ht') heq' (by rfl) (by rfl) hshows.unblank
  exact hshows.1 (hr ▸ List.prefix_append redacted out)

theorem opens_of_sameWord {prevX prevY : Option Char} {w r r' x : Text} (hw : w ≠ []) (hx : x = k.lead ++ (w ++ r))
    (hsame : SameWord prevX prevY x) (hopens : k.Opens prevY (k.lead ++ (w ++ r'))) : k.Opens prevX x := by
  intro hquoted
  have hboundary := hopens hquoted
  obtain ⟨-, hlead⟩ | ⟨htrue, -⟩ := k.lead_cases
  · have hhead : (k.lead ++ (w ++ r')).head? = x.head? := by
      obtain ⟨c, w, rfl⟩ := List.exists_cons_of_ne_nil hw
      rw [hx, hlead]
      rfl
    rw [hhead] at hboundary
    obtain heq | ⟨hprev, hnext⟩ := hsame
    · rw [← heq]
      exact hboundary
    · rw [hprev, hnext] at hboundary
      cases hboundary
  · rw [hquoted] at htrue
    cases htrue

theorem reflects : Reflects redacted Parts SameWord k.Finds where
  same _ _ := .inl rfl
  after _ _ _ _ hparts := hparts.sameWord
  inside _ _ _ _ hmark hv := k.not_finds_inside hmark hv _ _
  back prevX prevY x y hsame hredacts := by
    rintro ⟨hopens, w, t, r, rfl, hw, ht, hmark, hvalue⟩
    have hkept : '[' ∉ k.lead ++ (w ++ t) := by
      rw [List.mem_append, List.mem_append]
      rintro (hmem | hmem | hmem)
      · obtain ⟨-, hlead⟩ | ⟨-, hlead⟩ := k.lead_cases
        · rw [hlead] at hmem
          cases hmem
        · rw [hlead] at hmem
          exact absurd hmem (by decide)
      · exact absurd (over_secretKeys.of_reads hw _ hmem) (by decide)
      · exact absurd ((k.isSign t ht).mem hmem) (by decide)
    have hwhole : k.lead ++ (w ++ (t ++ r)) = (k.lead ++ (w ++ t)) ++ r := by simp only [List.append_assoc]
    rw [hwhole] at hredacts
    obtain ⟨x', rfl, hrest⟩ := hredacts.of_append rfl hkept
    simp only [List.append_assoc] at hsame ⊢
    refine ⟨k.opens_of_sameWord (ne_nil_of_secretKey hw) rfl hsame hopens, w, t, x', rfl, hw, ht, fun hx => ?_, ?_⟩
    · exact hmark (hrest.mark_isPrefix (fun _ _ _ hparts => hparts.outside) hx)
    · obtain ⟨v, r', hr, hread⟩ := hvalue
      obtain ⟨e, he, hread⟩ := reads_choice.mp hread
      obtain ⟨v', x'', hx', hread'⟩ := (k.value_mem he).back hrest hmark ⟨v, r', hr, hread⟩
      exact ⟨v', x'', hx', reads_choice.mpr ⟨e, he, hread'⟩⟩

/-- After a pass there is no field left for it. -/
theorem clean_replaceAll (s : Text) : Clean k.Finds none (replaceAll k.expr k.swap s) := by
  refine k.pass.clean_self k.reflects (fun _ _ _ hfinds => hfinds.matches) ?_ s
  intro prev prevY w₀ s₀ m out _ hmatch htext _ _ _ hclean
  obtain ⟨w, t, v, rfl, hv, htaken⟩ := k.taken_of_text hmatch htext
  have hswap : k.swap m ++ out = (k.lead ++ (w ++ t)) ++ (redacted ++ out) := by
    rw [htaken.swap]
    simp only [List.append_assoc]
  rw [hswap]
  rw [getLast?_append_of_ne_nil hv] at hclean
  refine Clean.append (fun a b hsplit hb => k.not_finds_before hsplit.symm hb htaken.key htaken.sign _ out) ?_
  exact k.reflects.clean_mark (by decide) (hclean _ htaken.parts.sameWord) _

/-- A text with no field for a pass is left as it is. -/
theorem replaceAll_eq_self (s : Text) (hclean : Clean k.Finds none s) : replaceAll k.expr k.swap s = s :=
  k.pass.eq_self (fun _ _ _ _ hmatch _ hchanged => by
    obtain ⟨w, t, v, r, htaken⟩ := k.taken_of_matchAt hmatch
    exact htaken.finds hchanged) hclean

end FieldPattern

theorem sign_of_parts {q t : Text} {d : Char} (hd : d = '=' ∨ d = ':') (hquote : ∀ c ∈ q, (c == '"') = true)
    (ht : (sequence [blanks, .rune (· == d), blanks]).Reads t) : Sign (q ++ t) := by
  obtain ⟨before, _, rfl, hbefore, _, _, rfl, ⟨c, rfl, hc⟩, hafter⟩ := ht
  obtain rfl := beq_iff_eq.mp hc
  exact ⟨q, before, c, _, rfl, hquote, reads_star_rune.mp hbefore, hd,
    reads_star_rune.mp (reads_sequence_singleton.mp hafter)⟩

def assignSign : Expr := sequence [blanks, .rune (· == '='), blanks]

def colonSign : Expr := sequence [optional (.rune (· == '"')), blanks, .rune (· == ':'), blanks]

def quotedColonSign : Expr := sequence [.rune (· == '"'), blanks, .rune (· == ':'), blanks]

theorem sign_of_assignSign (t : Text) (ht : assignSign.Reads t) : Sign t := sign_of_parts (q := []) (.inl rfl) nofun ht

theorem sign_of_colonSign (t : Text) (ht : colonSign.Reads t) : Sign t := by
  obtain ⟨quote, t, rfl, ⟨c, rfl, hc⟩ | rfl, ht⟩ := ht
  · exact sign_of_parts (.inr rfl) (by simpa using hc) ht
  · exact sign_of_parts (.inr rfl) nofun ht

theorem sign_of_quotedColonSign (t : Text) (ht : quotedColonSign.Reads t) : Sign t := by
  obtain ⟨quote, t, rfl, ⟨c, rfl, hc⟩, ht⟩ := ht
  exact sign_of_parts (.inr rfl) (by simpa using hc) ht

theorem assignSign_plain : assignSign.plain = true := rfl

theorem colonSign_plain : colonSign.plain = true := rfl

theorem quotedColonSign_plain : quotedColonSign.plain = true := rfl

theorem value_of_listed (e : Expr) (he : e ∈ [quotedBy '"', quotedBy '\'', bareValue]) : Value e := by
  simp only [List.mem_cons, List.not_mem_nil, or_false] at he
  obtain rfl | rfl | rfl := he
  · exact .quoted (.inl rfl)
  · exact .quoted (.inr rfl)
  · exact .bare

theorem value_of_quotes (e : Expr) (he : e ∈ [quotedBy '"', quotedBy '\'']) : Value e :=
  value_of_listed e (List.mem_of_mem_take (i := 2) he)

theorem value_of_bare (e : Expr) (he : e ∈ [bareValue]) : Value e :=
  value_of_listed e (List.mem_of_mem_drop (i := 2) he)

/-- `key = value`. -/
def assignField : FieldPattern :=
  ⟨false, assignSign, [quotedBy '"', quotedBy '\'', bareValue], assignSign_plain, sign_of_assignSign, value_of_listed⟩

/-- `key: "value"`. -/
def quotedField : FieldPattern :=
  ⟨false, colonSign, [quotedBy '"', quotedBy '\''], colonSign_plain, sign_of_colonSign, value_of_quotes⟩

/-- `"key": value`. -/
def quotedKeyField : FieldPattern :=
  ⟨true, quotedColonSign, [bareValue], quotedColonSign_plain, sign_of_quotedColonSign, value_of_bare⟩

theorem replaceAll_assign (s : Text) : replaceAll secretAssignPattern (fun m => m.group 1 ++ m.group 2 ++ redacted) s =
    replaceAll assignField.expr assignField.swap s := by
  congr 1
  funext m
  exact List.append_assoc ..

theorem replaceAll_quotedField (s : Text) :
    replaceAll secretQuotedPattern (fun m => m.group 1 ++ m.group 2 ++ redacted) s =
      replaceAll quotedField.expr quotedField.swap s := by
  congr 1
  funext m
  exact List.append_assoc ..

theorem replaceAll_quotedKey (s : Text) :
    replaceAll secretQuotedKeyPattern (fun m => '"' :: m.group 1 ++ m.group 2 ++ redacted) s =
      replaceAll quotedKeyField.expr quotedKeyField.swap s := by
  congr 1
  funext m
  exact List.append_assoc ..

end GlitchCore.Logfmt
