import GlitchCore.Base.Reading

/-!
# Matches of a whole text

An expression between `^` and `$` matches a text when one of the places it can end at is the end of the text, and the
match is the first of these. Where the texts an expression can read are not unique the order decides, so the rules here
say which place of a part the search goes on from: past a literal there is one, a lazy loop is left at the first place
that leads to the end, a greedy one at the last.
-/

namespace Regex

open GoText

/-- The places at the end of the text. -/
def Expr.complete (e : Expr) (p : Pos) : List Pos := (e.outcomes p).filter fun q => q.rest.isEmpty

/-- The match of `^e$`. -/
def Expr.fullMatch (e : Expr) (s : Text) : Option Match := (e.complete ⟨none, s, []⟩).head?.map fun q => ⟨s, q.groups⟩

/-- The place after a text that is kept as a group. -/
def Pos.mark (p : Pos) (n : Nat) (w r : Text) : Pos := { p.after w r with groups := (n, w) :: p.groups }

section Complete

variable {e : Expr} {es : List Expr} {p q : Pos} {c : Char} {w r : Text}

theorem complete_sequence_cons :
    (sequence (e :: es)).complete p = (e.outcomes p).flatMap (sequence es).complete :=
  List.filter_flatMap

theorem mem_complete_cons :
    q ∈ (sequence (e :: es)).complete p ↔ ∃ mid ∈ e.outcomes p, q ∈ (sequence es).complete mid := by
  rw [complete_sequence_cons, List.mem_flatMap]

theorem complete_sequence_nil (hrest : p.rest = []) : (sequence []).complete p = [p] := by
  change [p].filter _ = [p]
  rw [List.filter_cons_of_pos (by rw [hrest]; rfl), List.filter_nil]

theorem mem_complete_nil : q ∈ (sequence []).complete p ↔ q = p ∧ p.rest = [] := by
  change q ∈ [p].filter _ ↔ _
  rw [List.mem_filter, List.mem_singleton, List.isEmpty_iff]
  constructor
  · rintro ⟨rfl, hrest⟩
    exact ⟨rfl, hrest⟩
  · rintro ⟨rfl, hrest⟩
    exact ⟨rfl, hrest⟩

theorem outcomes_literal (hrest : p.rest = w ++ r) : (literal w).outcomes p = [p.after w r] := by
  induction w generalizing p with
  | nil =>
      rw [List.nil_append] at hrest
      subst hrest
      rfl
  | cons c w ih =>
      change ((Expr.rune (· == c)).outcomes p).flatMap (literal w).outcomes = _
      rw [outcomes_rune_of_pos (f := (· == c)) hrest BEq.rfl, List.flatMap_singleton, ih rfl, Pos.after_cons]

theorem outcomes_literal_of_ne (hrest : p.rest.head? ≠ some c) : (literal (c :: w)).outcomes p = [] := by
  change ((Expr.rune (· == c)).outcomes p).flatMap (literal w).outcomes = _
  rw [outcomes_rune_of_neg, List.flatMap_nil]
  intro d s hd
  rw [hd, List.head?_cons] at hrest
  exact beq_false_of_ne fun heq => hrest (congrArg some heq)

theorem plain_literal (w : Text) : (literal w).plain = true := by
  induction w with
  | nil => rfl
  | cons c w ih => exact ih

theorem mem_literal : q ∈ (literal w).outcomes p ↔ ∃ r, p.rest = w ++ r ∧ q = p.after w r := by
  rw [mem_outcomes (plain_literal w)]
  constructor
  · rintro ⟨_, r, hrest, hq, hread⟩
    obtain rfl := reads_literal.mp hread
    exact ⟨r, hrest, hq⟩
  · rintro ⟨r, hrest, hq⟩
    exact ⟨w, r, hrest, hq, reads_literal.mpr rfl⟩

theorem mem_complete_literal : q ∈ (sequence (literal w :: es)).complete p ↔
    ∃ r, p.rest = w ++ r ∧ q ∈ (sequence es).complete (p.after w r) := by
  rw [mem_complete_cons]
  constructor
  · rintro ⟨mid, hmid, hq⟩
    obtain ⟨r, hrest, rfl⟩ := mem_literal.mp hmid
    exact ⟨r, hrest, hq⟩
  · rintro ⟨r, hrest, hq⟩
    exact ⟨_, mem_literal.mpr ⟨r, hrest, rfl⟩, hq⟩

theorem mem_complete_group {a : Expr} {n : Nat} (hplain : a.plain = true) :
    q ∈ (sequence (.group n a :: es)).complete p ↔
      ∃ w r, p.rest = w ++ r ∧ a.Reads w ∧ q ∈ (sequence es).complete (p.mark n w r) := by
  rw [mem_complete_cons]
  constructor
  · rintro ⟨mid, hmid, hq⟩
    obtain ⟨w, r, hrest, rfl, hread⟩ := (mem_group hplain).mp hmid
    exact ⟨w, r, hrest, hread, hq⟩
  · rintro ⟨w, r, hrest, hread, hq⟩
    exact ⟨_, (mem_group hplain).mpr ⟨w, r, hrest, rfl, hread⟩, hq⟩

theorem complete_literal (hrest : p.rest = w ++ r) :
    (sequence (literal w :: es)).complete p = (sequence es).complete (p.after w r) := by
  rw [complete_sequence_cons, outcomes_literal hrest, List.flatMap_singleton]

theorem complete_literal_of_ne (hrest : p.rest.head? ≠ some c) :
    (sequence (literal (c :: w) :: es)).complete p = [] := by
  rw [complete_sequence_cons, outcomes_literal_of_ne hrest, List.flatMap_nil]

theorem complete_optional :
    (sequence (optional e :: es)).complete p = (sequence (e :: es)).complete p ++ (sequence es).complete p := by
  rw [complete_sequence_cons, complete_sequence_cons]
  change (e.outcomes p ++ [p]).flatMap _ = _
  rw [List.flatMap_append, List.flatMap_singleton]

theorem complete_nested {ds : List Expr} :
    (sequence (sequence ds :: es)).complete p = (sequence (ds ++ es)).complete p := by
  rw [Expr.complete, Expr.complete, outcomes_sequence_append]
  rfl

/-- An optional part that begins with a character other than the next one is passed over. -/
theorem complete_optional_of_ne {ds : List Expr} (hrest : p.rest.head? ≠ some c) :
    (sequence (optional (sequence (literal (c :: w) :: ds)) :: es)).complete p = (sequence es).complete p := by
  rw [complete_optional, complete_nested, List.cons_append, complete_literal_of_ne hrest, List.nil_append]

end Complete

section Loops

variable {α : Type*} {k : Pos → List α} {f : Char → Bool} {p : Pos} {w r : Text} {n : Nat}

theorem outcomes_lazyStar_cons {c : Char} {s : Text} (hrest : p.rest = c :: s) (hc : f c = true) :
    (Expr.lazyStar (.rune f)).outcomes p = p :: (Expr.lazyStar (.rune f)).outcomes (p.after [c] s) := by
  rw [Expr.outcomes, hrest, List.length_cons, repeatedLazily, outcomes_rune_of_pos hrest hc,
    List.filter_cons_of_pos (by rw [hrest]; exact decide_eq_true (Nat.lt_succ_self _)), List.filter_nil,
    List.flatMap_singleton]
  rfl

theorem outcomes_star_cons {c : Char} {s : Text} (hrest : p.rest = c :: s) (hc : f c = true) :
    (Expr.star (.rune f)).outcomes p = (Expr.star (.rune f)).outcomes (p.after [c] s) ++ [p] := by
  rw [Expr.outcomes, hrest, List.length_cons, repeated, outcomes_rune_of_pos hrest hc,
    List.filter_cons_of_pos (by rw [hrest]; exact decide_eq_true (Nat.lt_succ_self _)), List.filter_nil,
    List.flatMap_singleton]
  rfl

/-- A lazy loop is left at the first place from which what follows goes through. -/
theorem flatMap_lazyStar_rune (hrest : p.rest = w ++ r) (hw : ∀ c ∈ w, f c = true)
    (hk : ∀ u v, w = u ++ v → v ≠ [] → k (p.after u (v ++ r)) = []) :
    ∃ later, ((Expr.lazyStar (.rune f)).outcomes p).flatMap k = k (p.after w r) ++ later := by
  induction w generalizing p with
  | nil =>
      rw [List.nil_append] at hrest
      subst hrest
      rw [Pos.after_nil, Expr.outcomes]
      cases p.rest.length with
      | zero => exact ⟨[], List.flatMap_cons⟩
      | succ n => exact ⟨_, List.flatMap_cons⟩
  | cons c w ih =>
      obtain ⟨hc, hw⟩ := List.forall_mem_cons.mp hw
      have hfirst : k p = [] := by
        have hself := hk [] (c :: w) rfl (List.cons_ne_nil c w)
        rwa [← hrest, Pos.after_nil] at hself
      obtain ⟨later, hlater⟩ := ih (p := p.after [c] (w ++ r)) rfl hw fun u v huv hv => by
        rw [Pos.after_after]
        exact hk (c :: u) v (congrArg (c :: ·) huv) hv
      refine ⟨later, ?_⟩
      rw [outcomes_lazyStar_cons (s := w ++ r) hrest hc, List.flatMap_cons, hfirst, List.nil_append, hlater, Pos.after_after]
      rfl

/-- A greedy loop is left at the last place from which what follows goes through. -/
theorem flatMap_star_rune (hrest : p.rest = w ++ r) (hw : ∀ c ∈ w, f c = true)
    (hk : ∀ u v, r = u ++ v → u ≠ [] → (∀ c ∈ u, f c = true) → k (p.after (w ++ u) v) = []) :
    ∃ later, ((Expr.star (.rune f)).outcomes p).flatMap k = k (p.after w r) ++ later := by
  induction w generalizing p with
  | nil =>
      rw [List.nil_append] at hrest
      subst hrest
      rw [Pos.after_nil]
      refine ⟨[], ?_⟩
      cases hrest : p.rest with
      | nil =>
          rw [Expr.outcomes, hrest, List.length_nil, repeated, List.flatMap_singleton, List.append_nil]
      | cons c s =>
          by_cases hc : f c = true
          · rw [outcomes_star_cons hrest hc, List.flatMap_append, List.flatMap_singleton, List.append_nil,
              List.append_left_eq_self, List.flatMap_eq_nil_iff]
            intro q hq
            obtain ⟨u, v, huv, rfl, hread⟩ := (mem_outcomes (e := .star (.rune f)) rfl _ _).mp hq
            rw [Pos.after_after]
            exact hk (c :: u) v (hrest.trans (congrArg (c :: ·) huv)) (List.cons_ne_nil c u)
              (List.forall_mem_cons.mpr ⟨hc, reads_star_rune.mp hread⟩)
          · have hnone : (Expr.rune f).outcomes p = [] := outcomes_rune_of_neg fun d t hd => by
              rw [hrest] at hd
              obtain ⟨rfl, -⟩ := List.cons.inj hd
              exact Bool.eq_false_iff.mpr hc
            rw [Expr.outcomes, hrest, List.length_cons, repeated, hnone, List.filter_nil, List.flatMap_nil,
              List.nil_append, List.flatMap_singleton, List.append_nil]
  | cons c w ih =>
      obtain ⟨hc, hw⟩ := List.forall_mem_cons.mp hw
      obtain ⟨later, hlater⟩ := ih (p := p.after [c] (w ++ r)) rfl hw fun u v huv hu hall => by
        rw [Pos.after_after]
        exact hk u v huv hu hall
      refine ⟨later ++ k p, ?_⟩
      rw [outcomes_star_cons (s := w ++ r) hrest hc, List.flatMap_append, hlater, List.flatMap_singleton, Pos.after_after,
        List.append_assoc]
      rfl

end Loops

section Groups

variable {a : Expr} {es : List Expr} {f : Char → Bool} {p : Pos} {w r : Text} {n : Nat}

theorem complete_group : (sequence (.group n a :: es)).complete p =
    (a.outcomes p).flatMap fun q => (sequence es).complete { q with groups := (n, p.until q) :: q.groups } := by
  rw [complete_sequence_cons]
  exact List.flatMap_map ..

theorem mark_eq (hrest : p.rest = w ++ r) :
    { p.after w r with groups := (n, p.until (p.after w r)) :: (p.after w r).groups } = p.mark n w r := by
  rw [Pos.until_of_append hrest]
  rfl

theorem complete_group_star (hrest : p.rest = w ++ r) (hw : ∀ c ∈ w, f c = true)
    (hafter : ∀ u v, r = u ++ v → u ≠ [] → (∀ c ∈ u, f c = true) → (sequence es).complete (p.mark n (w ++ u) v) = []) :
    ∃ later, (sequence (.group n (.star (.rune f)) :: es)).complete p =
      (sequence es).complete (p.mark n w r) ++ later := by
  rw [complete_group, ← mark_eq hrest]
  refine flatMap_star_rune hrest hw fun u v huv hu hall => ?_
  have hrest' : p.rest = (w ++ u) ++ v := by rw [hrest, huv, List.append_assoc]
  rw [mark_eq hrest']
  exact hafter u v huv hu hall

theorem complete_group_plus (hrest : p.rest = w ++ r) (hne : w ≠ []) (hw : ∀ c ∈ w, f c = true)
    (hr : ∀ c ∈ r.head?, f c = false) :
    ∃ later, (sequence (.group n (plus (.rune f)) :: es)).complete p =
      (sequence es).complete (p.mark n w r) ++ later := by
  obtain ⟨c, w, rfl⟩ := List.exists_cons_of_ne_nil hne
  obtain ⟨hc, hw⟩ := List.forall_mem_cons.mp hw
  rw [complete_group, ← mark_eq hrest, plus, outcomes_cat, outcomes_rune_of_pos hrest hc, List.flatMap_singleton]
  obtain ⟨later, hlater⟩ := flatMap_star_rune (p := p.after [c] (w ++ r)) (r := r) (f := f)
    (k := fun q => (sequence es).complete { q with groups := (n, p.until q) :: q.groups }) rfl hw
    fun u v huv hu hall => by
      obtain ⟨d, u, rfl⟩ := List.exists_cons_of_ne_nil hu
      rw [huv] at hr
      exact absurd (hr d rfl) (Bool.not_eq_false _ ▸ hall d List.mem_cons_self)
  rw [Pos.after_after] at hlater
  exact ⟨later, hlater⟩

theorem complete_group_lazyPlus (hrest : p.rest = w ++ r) (hne : w ≠ []) (hw : ∀ c ∈ w, f c = true)
    (hbefore : ∀ u v, w = u ++ v → u ≠ [] → v ≠ [] → (sequence es).complete (p.mark n u (v ++ r)) = []) :
    ∃ later, (sequence (.group n (lazyPlus (.rune f)) :: es)).complete p =
      (sequence es).complete (p.mark n w r) ++ later := by
  obtain ⟨c, w, rfl⟩ := List.exists_cons_of_ne_nil hne
  obtain ⟨hc, hw⟩ := List.forall_mem_cons.mp hw
  rw [complete_group, ← mark_eq hrest, lazyPlus, outcomes_cat, outcomes_rune_of_pos hrest hc, List.flatMap_singleton]
  obtain ⟨later, hlater⟩ := flatMap_lazyStar_rune (p := p.after [c] (w ++ r)) (r := r) (f := f)
    (k := fun q => (sequence es).complete { q with groups := (n, p.until q) :: q.groups }) rfl hw
    fun u v huv hv => by
      have hrest' : p.rest = (c :: u) ++ (v ++ r) := by rw [hrest, huv, List.cons_append, List.cons_append, List.append_assoc]
      rw [Pos.after_after]
      dsimp only [List.singleton_append]
      rw [mark_eq hrest']
      exact hbefore (c :: u) v (congrArg (c :: ·) huv) (List.cons_ne_nil c u) hv
  rw [Pos.after_after] at hlater
  exact ⟨later, hlater⟩

theorem complete_star (hrest : p.rest = w ++ r) (hw : ∀ c ∈ w, f c = true) (hr : ∀ c ∈ r.head?, f c = false) :
    ∃ later, (sequence (.star (.rune f) :: es)).complete p = (sequence es).complete (p.after w r) ++ later := by
  rw [complete_sequence_cons]
  refine flatMap_star_rune hrest hw fun u v huv hu hall => ?_
  obtain ⟨d, u, rfl⟩ := List.exists_cons_of_ne_nil hu
  rw [huv] at hr
  exact absurd (hr d rfl) (Bool.not_eq_false _ ▸ hall d List.mem_cons_self)

end Groups

/-- The first match from the place keeps these groups. -/
def Expr.Finds (e : Expr) (p : Pos) (groups : List (Nat × Text)) : Prop :=
  ∃ q later, e.complete p = q :: later ∧ q.groups = groups

namespace Expr.Finds

variable {e e' : Expr} {p p' : Pos} {groups : List (Nat × Text)}

theorem of_append (h : e'.Finds p' groups) (hcomplete : ∃ later, e.complete p = e'.complete p' ++ later) :
    e.Finds p groups := by
  obtain ⟨q, after, hq, hgroups⟩ := h
  obtain ⟨later, hcomplete⟩ := hcomplete
  exact ⟨q, after ++ later, by rw [hcomplete, hq, List.cons_append], hgroups⟩

theorem of_eq (h : e'.Finds p' groups) (hcomplete : e.complete p = e'.complete p') : e.Finds p groups :=
  h.of_append ⟨[], by rw [hcomplete, List.append_nil]⟩

theorem fullMatch {s : Text} (h : e.Finds ⟨none, s, []⟩ groups) : e.fullMatch s = some ⟨s, groups⟩ := by
  obtain ⟨q, later, hq, rfl⟩ := h
  rw [Expr.fullMatch, hq]
  rfl

end Expr.Finds

end Regex
