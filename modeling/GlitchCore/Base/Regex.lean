import GlitchCore.Base.GoText

/-!
# Regular expressions of the Perl family

An expression is read as the list of the places it can end at, in the order a backtracking matcher would try
them; a match is the first of them, which is the leftmost-first semantics of Go's `regexp`. Repetition is
greedy or lazy, and a turn that reads nothing is not taken. `replaceAll` walks a text from the left: where there is a
match its replacement goes out and the matched text is skipped, anywhere else one character is copied.

Most loops in practice are not ambiguous: each turn can be taken in one way only, and what follows the loop
cannot start before its end. `Loop` says this, and with it the places of a loop come down to one.
-/

namespace Regex

open GoText

/-- `prev` is the character before the place, which is all that `\b` looks at behind it. -/
structure Pos where
  prev : Option Char
  rest : Text
  groups : List (Nat × Text) := []

inductive Expr where
  | empty
  | rune (f : Char → Bool)
  | cat (a b : Expr)
  | alt (a b : Expr)
  | star (a : Expr)
  | lazyStar (a : Expr)
  | group (n : Nat) (a : Expr)
  | wordBoundary

def isWord (c : Char) : Bool := c.isAlphanum || c == '_'

def Pos.atWordBoundary (p : Pos) : Bool := p.prev.any isWord != p.rest.head?.any isWord

/-- The text between the place `p` and the later place `q`. -/
def Pos.until (p q : Pos) : Text := p.rest.take (p.rest.length - q.rest.length)

def repeated (turn : Pos → List Pos) : Nat → Pos → List Pos
  | 0, p => [p]
  | n + 1, p => ((turn p).filter fun q => q.rest.length < p.rest.length).flatMap (repeated turn n) ++ [p]

def repeatedLazily (turn : Pos → List Pos) : Nat → Pos → List Pos
  | 0, p => [p]
  | n + 1, p => p :: ((turn p).filter fun q => q.rest.length < p.rest.length).flatMap (repeatedLazily turn n)

/-- The places an expression can end at, the preferred one first. -/
def Expr.outcomes : Expr → Pos → List Pos
  | .empty, p => [p]
  | .rune f, p =>
      match p.rest with
      | c :: rest => if f c then [{ p with prev := some c, rest }] else []
      | [] => []
  | .cat a b, p => (a.outcomes p).flatMap b.outcomes
  | .alt a b, p => a.outcomes p ++ b.outcomes p
  | .star a, p => repeated a.outcomes p.rest.length p
  | .lazyStar a, p => repeatedLazily a.outcomes p.rest.length p
  | .group n a, p => (a.outcomes p).map fun q => { q with groups := (n, p.until q) :: q.groups }
  | .wordBoundary, p => if p.atWordBoundary then [p] else []

def sequence (es : List Expr) : Expr := es.foldr .cat .empty

def choice : List Expr → Expr
  | [] => .rune fun _ => false
  | [e] => e
  | e :: es => .alt e (choice es)

def optional (e : Expr) : Expr := .alt e .empty

def plus (e : Expr) : Expr := .cat e (.star e)

def lazyPlus (e : Expr) : Expr := .cat e (.lazyStar e)

def times (n : Nat) (e : Expr) : Expr := sequence (List.replicate n e)

/-- `(?i)` on a set of ASCII characters: the long s and the kelvin sign fold to letters of that range. -/
def foldCase (f : Char → Bool) (c : Char) : Bool :=
  f c || f c.toLower || f c.toUpper || c.toNat == 0x17f && (f 's' || f 'S') || c.toNat == 0x212a && (f 'k' || f 'K')

theorem foldCase_mono {f g : Char → Bool} (h : ∀ c, f c = true → g c = true) {c : Char} (hc : foldCase f c = true) :
    foldCase g c = true := by
  simp only [foldCase, Bool.or_eq_true, Bool.and_eq_true] at hc ⊢
  obtain (((hc | hc) | hc) | ⟨hlong, hc⟩) | ⟨hkelvin, hc⟩ := hc
  · exact .inl (.inl (.inl (.inl (h c hc))))
  · exact .inl (.inl (.inl (.inr (h _ hc))))
  · exact .inl (.inl (.inr (h _ hc)))
  · exact .inl (.inr ⟨hlong, hc.imp (h _) (h _)⟩)
  · exact .inr ⟨hkelvin, hc.imp (h _) (h _)⟩

def literal (s : Text) : Expr := sequence (s.map fun c => .rune (· == c))

def literalFold (s : Text) : Expr := sequence (s.map fun c => .rune (foldCase (· == c)))

/-- The class `\s`. -/
def isBlank (c : Char) : Bool := c == '\t' || c == '\n' || c.toNat == 0x0c || c == '\r' || c == ' '

structure Match where
  text : Text
  groups : List (Nat × Text) := []

/-- What `${n}` stands for in a replacement. -/
def Match.group (m : Match) (n : Nat) : Text := (m.groups.lookup n).getD []

def Expr.matchAt (e : Expr) (prev : Option Char) (s : Text) : Option Match :=
  (e.outcomes ⟨prev, s, []⟩).head?.map fun q => ⟨Pos.until ⟨prev, s, []⟩ q, q.groups⟩

/-- The count is how many characters of the last match are still to be skipped. -/
def replaceFrom (e : Expr) (f : Match → Text) : Nat → Option Char → Text → Text
  | _, _, [] => []
  | k + 1, _, c :: s => replaceFrom e f k (some c) s
  | 0, prev, c :: s =>
      match e.matchAt prev (c :: s) with
      | some m =>
          if m.text.isEmpty then c :: replaceFrom e f 0 (some c) s
          else f m ++ replaceFrom e f (m.text.length - 1) (some c) s
      | none => c :: replaceFrom e f 0 (some c) s

/-- Matches of no text are not replaced. -/
def replaceAll (e : Expr) (f : Match → Text) (s : Text) : Text := replaceFrom e f 0 none s

section Outcomes

variable {f : Char → Bool} {p q : Pos} {a b e : Expr} {c : Char} {s : Text}

@[simp]
theorem outcomes_empty : Expr.empty.outcomes p = [p] := rfl

@[simp]
theorem outcomes_cat : (Expr.cat a b).outcomes p = (a.outcomes p).flatMap b.outcomes := rfl

theorem outcomes_rune_of_pos (hrest : p.rest = c :: s) (hc : f c = true) :
    (Expr.rune f).outcomes p = [{ p with prev := some c, rest := s }] := by
  simp only [Expr.outcomes, hrest, hc, if_true]

theorem outcomes_rune_of_neg (hrest : ∀ c s, p.rest = c :: s → f c = false) : (Expr.rune f).outcomes p = [] := by
  rw [Expr.outcomes]
  split
  · rw [hrest _ _ ‹_›, if_neg Bool.false_ne_true]
  · rfl

end Outcomes

/-- A loop that runs from `p` to `q` in one way only: every turn has one outcome, at the end there is none, and
`S` holds at each place the loop goes on from. -/
inductive Loop (a : Expr) (S : Pos → Prop) : Pos → Pos → Prop
  | stop {p : Pos} : a.outcomes p = [] → Loop a S p p
  | turn {p p' q : Pos} : a.outcomes p = [p'] → p'.rest.length < p.rest.length → S p → Loop a S p' q → Loop a S p q

namespace Loop

variable {a : Expr} {S : Pos → Prop} {p q : Pos}

theorem repeated_eq (h : Loop a S p q) {n : Nat} (hn : p.rest.length ≤ n) :
    ∃ before : List Pos, repeated a.outcomes n p = q :: before ∧ ∀ r ∈ before, S r := by
  induction h generalizing n with
  | @stop p hnone =>
      refine ⟨[], ?_, by simp⟩
      cases n with
      | zero => rfl
      | succ n => rw [repeated, hnone, List.filter_nil, List.flatMap_nil, List.nil_append]
  | @turn p p' q hone hlt hS _ ih =>
      obtain ⟨n, rfl⟩ := Nat.exists_eq_add_of_lt (Nat.lt_of_lt_of_le (Nat.zero_lt_of_lt hlt) hn)
      obtain ⟨before, hrep, hbefore⟩ := ih (n := 0 + n) (by omega)
      refine ⟨before ++ [p], ?_, ?_⟩
      · rw [repeated, hone, List.filter_cons_of_pos (by simpa using hlt), List.filter_nil, List.flatMap_singleton,
          hrep, List.cons_append]
      · intro r hr
        obtain hr | hr := List.mem_append.mp hr
        · exact hbefore r hr
        · rwa [List.mem_singleton.mp hr]

theorem head?_star (h : Loop a S p q) : ((Expr.star a).outcomes p).head? = some q := by
  obtain ⟨before, hrep, -⟩ := h.repeated_eq (Nat.le_refl _)
  rw [Expr.outcomes, hrep, List.head?_cons]

/-- What follows the loop starts at its end. -/
theorem flatMap_star (h : Loop a S p q) {α : Type*} {k : Pos → List α} (hk : ∀ r, S r → k r = []) :
    ((Expr.star a).outcomes p).flatMap k = k q := by
  obtain ⟨before, hrep, hbefore⟩ := h.repeated_eq (Nat.le_refl _)
  have hnil : before.flatMap k = [] := List.flatMap_eq_nil_iff.mpr fun r hr => hk r (hbefore r hr)
  rw [Expr.outcomes, hrep, List.flatMap_cons, hnil, List.append_nil]

end Loop

/-- The place after a text. -/
def Pos.after (p : Pos) (w s : Text) : Pos := { p with prev := w.getLast?.or p.prev, rest := s }

theorem Pos.until_of_append {p q : Pos} {w : Text} (h : p.rest = w ++ q.rest) : p.until q = w := by
  rw [Pos.until, h, List.length_append, Nat.add_sub_cancel, List.take_left]

theorem getLast?_cons_eq_or (c : Char) (w : Text) : (c :: w).getLast? = w.getLast?.or (some c) := by
  rw [List.getLast?_cons]
  cases w.getLast? <;> rfl

theorem Pos.after_cons (p : Pos) (c : Char) (w s rest : Text) :
    Pos.after { p with prev := some c, rest } w s = p.after (c :: w) s := by
  rw [Pos.after, Pos.after, getLast?_cons_eq_or, Option.or_assoc, Option.some_or]

/-- Runes of a class, as many as there are. -/
theorem loop_rune (f : Char → Bool) (p : Pos) :
    Loop (.rune f) (fun r => ∃ c s, r.rest = c :: s ∧ f c = true) p
      (p.after (p.rest.takeWhile f) (p.rest.dropWhile f)) := by
  obtain ⟨prev, rest, groups⟩ := p
  induction rest generalizing prev with
  | nil => exact .stop rfl
  | cons c s ih =>
      by_cases hc : f c = true
      · have hturn := outcomes_rune_of_pos (p := ⟨prev, c :: s, groups⟩) rfl hc
        rw [List.takeWhile_cons_of_pos hc, List.dropWhile_cons_of_pos hc]
        refine .turn hturn (Nat.lt_succ_self _) ⟨c, s, rfl, hc⟩ ?_
        rw [← Pos.after_cons ⟨prev, c :: s, groups⟩ c _ _ s]
        exact ih (some c)
      · rw [List.takeWhile_cons_of_neg hc, List.dropWhile_cons_of_neg hc]
        refine .stop (outcomes_rune_of_neg ?_)
        rintro d t heq
        cases heq
        exact Bool.eq_false_iff.mpr hc

section Replace

variable {e : Expr} {f : Match → Text}

theorem replaceFrom_skip (w s : Text) (prev : Option Char) :
    replaceFrom e f w.length prev (w ++ s) = replaceFrom e f 0 (w.getLast?.or prev) s := by
  induction w generalizing prev with
  | nil => rfl
  | cons c w ih =>
      rw [List.length_cons, List.cons_append, replaceFrom, ih, getLast?_cons_eq_or, Option.or_assoc, Option.some_or]

theorem replaceFrom_none {prev : Option Char} {c : Char} {s : Text} (h : e.matchAt prev (c :: s) = none) :
    replaceFrom e f 0 prev (c :: s) = c :: replaceFrom e f 0 (some c) s := by
  rw [replaceFrom, h]

theorem replaceFrom_match {prev : Option Char} {w s : Text} {m : Match} (h : e.matchAt prev (w ++ s) = some m)
    (htext : m.text = w) (hw : w ≠ []) : replaceFrom e f 0 prev (w ++ s) = f m ++ replaceFrom e f 0 w.getLast? s := by
  cases w with
  | nil => exact absurd rfl hw
  | cons c w =>
      rw [List.cons_append] at h ⊢
      rw [replaceFrom, h]
      dsimp only
      rw [htext, if_neg (by simp), List.length_cons, Nat.add_sub_cancel, replaceFrom_skip, getLast?_cons_eq_or]

/-- A text with no character a match can start with is copied. -/
theorem replaceFrom_append_of_noStart {start : Char → Bool} (hstart : ∀ prev c s, start c = false →
    e.matchAt prev (c :: s) = none) {w : Text} (hw : ∀ c ∈ w, start c = false) (prev : Option Char) (s : Text) :
    replaceFrom e f 0 prev (w ++ s) = w ++ replaceFrom e f 0 (w.getLast?.or prev) s := by
  induction w generalizing prev with
  | nil => rfl
  | cons c w ih =>
      rw [List.cons_append, replaceFrom_none (hstart prev c (w ++ s) (hw c List.mem_cons_self)),
        ih (fun d hd => hw d (List.mem_cons_of_mem c hd)), getLast?_cons_eq_or, Option.or_assoc, Option.some_or,
        List.cons_append]

theorem replaceFrom_eq_self {prev : Option Char} {s : Text} (h : ∀ prev s', s' <:+ s → e.matchAt prev s' = none) :
    replaceFrom e f 0 prev s = s := by
  induction s generalizing prev with
  | nil => rfl
  | cons c s ih =>
      rw [replaceFrom_none (h prev (c :: s) (List.suffix_refl _)),
        ih fun prev s' hs' => h prev s' (hs'.trans (List.suffix_cons c s))]

theorem matchAt_text {prev : Option Char} {s : Text} {m : Match} (h : e.matchAt prev s = some m) :
    s = m.text ++ s.drop m.text.length := by
  obtain ⟨q, -, rfl⟩ := Option.map_eq_some_iff.mp h
  dsimp only [Pos.until]
  rw [List.length_take, Nat.min_eq_left (Nat.sub_le ..), List.take_append_drop]

/-- What a walk makes of a text, match by match. -/
theorem replaceFrom_induction {motive : Option Char → Text → Text → Prop} (nil : ∀ prev, motive prev [] [])
    (copy : ∀ prev c s out, (∀ m, e.matchAt prev (c :: s) = some m → m.text = []) → motive (some c) s out →
      motive prev (c :: s) (c :: out))
    (swap : ∀ prev w s m out, e.matchAt prev (w ++ s) = some m → m.text = w → w ≠ [] → motive w.getLast? s out →
      motive prev (w ++ s) (f m ++ out))
    (prev : Option Char) (s : Text) : motive prev s (replaceFrom e f 0 prev s) := by
  induction hlength : s.length using Nat.strong_induction_on generalizing prev s with
  | _ n ih =>
      cases s with
      | nil => exact nil prev
      | cons c s =>
          have hnext (prev : Option Char) : motive prev s (replaceFrom e f 0 prev s) :=
            ih s.length (by rw [← hlength]; exact Nat.lt_succ_self _) prev s rfl
          cases hmatch : e.matchAt prev (c :: s) with
          | none =>
              rw [replaceFrom_none hmatch]
              exact copy prev c s _ (fun m hm => absurd (hmatch.symm.trans hm) nofun) (hnext (some c))
          | some m =>
              by_cases hempty : m.text = []
              · rw [replaceFrom, hmatch]
                dsimp only
                rw [if_pos (List.isEmpty_iff.mpr hempty)]
                refine copy prev c s _ (fun m' hm' => ?_) (hnext (some c))
                obtain rfl := Option.some.inj (hmatch.symm.trans hm')
                exact hempty
              · have htext := matchAt_text hmatch
                have hpos := List.length_pos_iff.mpr hempty
                rw [htext] at hmatch ⊢
                rw [replaceFrom_match hmatch rfl hempty]
                refine swap prev m.text _ m _ hmatch rfl hempty (ih _ ?_ _ _ rfl)
                rw [← hlength, List.length_drop, List.length_cons]
                omega

end Replace

theorem Pos.after_nil (p : Pos) : p.after [] p.rest = p := rfl

theorem Pos.after_after (p : Pos) (v w s t : Text) : (p.after v s).after w t = p.after (v ++ w) t := by
  rw [Pos.after, Pos.after, Pos.after, List.getLast?_append, Option.or_assoc]

end Regex
