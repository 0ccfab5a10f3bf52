import GlitchCore.Base.Regex

/-!
# The texts an expression reads

Where the order of a matcher's attempts does not matter, an expression is known by the texts it reads. For an expression
with no group and no assertion `Reads` says which they are, and `mem_outcomes` that the places it can end at are those
after such a text. How short a text can be and which runes it can hold are read off the expression.
-/

namespace Regex

open GoText

/-- No group and no assertion. -/
def Expr.plain : Expr → Bool
  | .empty => true
  | .rune _ => true
  | .cat a b => a.plain && b.plain
  | .alt a b => a.plain && b.plain
  | .star a => a.plain
  | .lazyStar a => a.plain
  | .group _ _ => false
  | .wordBoundary => false

def Expr.Reads : Expr → Text → Prop
  | .empty, w => w = []
  | .rune f, w => ∃ c, w = [c] ∧ f c = true
  | .cat a b, w => ∃ u v, w = u ++ v ∧ a.Reads u ∧ b.Reads v
  | .alt a b, w => a.Reads w ∨ b.Reads w
  | .star a, w => ∃ turns : List Text, w = turns.flatten ∧ ∀ u ∈ turns, u ≠ [] ∧ a.Reads u
  | .lazyStar a, w => ∃ turns : List Text, w = turns.flatten ∧ ∀ u ∈ turns, u ≠ [] ∧ a.Reads u
  | .group _ a, w => a.Reads w
  | .wordBoundary, w => w = []

/-- The length of the shortest text read. -/
def Expr.width : Expr → Nat
  | .empty => 0
  | .rune _ => 1
  | .cat a b => a.width + b.width
  | .alt a b => min a.width b.width
  | .star _ => 0
  | .lazyStar _ => 0
  | .group _ a => a.width
  | .wordBoundary => 0

section Outcomes

variable {a e : Expr} {p q : Pos} {n : Nat}

/-- The place is one after a text the expression reads. -/
def Pos.Ends (p : Pos) (e : Expr) (q : Pos) : Prop := ∃ w r, p.rest = w ++ r ∧ q = p.after w r ∧ e.Reads w

theorem ends_of_mem_repeated (ha : ∀ p q, q ∈ a.outcomes p → p.Ends a q) (hq : q ∈ repeated a.outcomes n p) :
    p.Ends (.star a) q := by
  induction n generalizing p with
  | zero =>
      obtain rfl := List.mem_singleton.mp hq
      exact ⟨[], q.rest, rfl, rfl, [], rfl, nofun⟩
  | succ n ih =>
      obtain hq | hq := List.mem_append.mp hq
      · obtain ⟨mid, hmid, hq⟩ := List.mem_flatMap.mp hq
        obtain ⟨hmid, hshorter⟩ := List.mem_filter.mp hmid
        obtain ⟨u, r, hu, rfl, hread⟩ := ha p mid hmid
        obtain ⟨_, r', hw, rfl, turns, rfl, hturns⟩ := ih hq
        have hne : u ≠ [] := by
          rintro rfl
          rw [List.nil_append] at hu
          exact absurd (of_decide_eq_true hshorter) (by rw [hu]; exact Nat.lt_irrefl _)
        refine ⟨u ++ turns.flatten, r', ?_, Pos.after_after p u _ r r', u :: turns, rfl, ?_⟩
        · rw [hu, List.append_assoc]
          exact congrArg (u ++ ·) hw
        · exact List.forall_mem_cons.mpr ⟨⟨hne, hread⟩, hturns⟩
      · obtain rfl := List.mem_singleton.mp hq
        exact ⟨[], q.rest, rfl, rfl, [], rfl, nofun⟩

theorem mem_repeated_of_turns (ha : ∀ p q, p.Ends a q → q ∈ a.outcomes p) {turns : List Text} {r : Text}
    (hturns : ∀ u ∈ turns, u ≠ [] ∧ a.Reads u) (hrest : p.rest = turns.flatten ++ r) (hn : p.rest.length ≤ n) :
    p.after turns.flatten r ∈ repeated a.outcomes n p := by
  induction turns generalizing p n with
  | nil =>
      have hself : p.after [].flatten r = p := by
        rw [← Pos.after_nil p, hrest]
        rfl
      rw [hself]
      cases n with
      | zero => exact List.mem_singleton.mpr rfl
      | succ n => exact List.mem_append_right _ (List.mem_singleton.mpr rfl)
  | cons u turns ih =>
      obtain ⟨⟨hne, hread⟩, hturns⟩ := List.forall_mem_cons.mp hturns
      have hpos := List.length_pos_iff.mpr hne
      rw [List.flatten_cons, List.append_assoc] at hrest
      have hlength : p.rest.length = u.length + (turns.flatten ++ r).length := by rw [hrest, List.length_append]
      obtain ⟨n, rfl⟩ : ∃ m, n = m + 1 := ⟨n - 1, by omega⟩
      have hmid : p.after u (turns.flatten ++ r) ∈ a.outcomes p := ha _ _ ⟨u, _, hrest, rfl, hread⟩
      refine List.mem_append_left _ (List.mem_flatMap.mpr ⟨_, List.mem_filter.mpr ⟨hmid, ?_⟩, ?_⟩)
      · exact decide_eq_true (by rw [hlength]; exact Nat.lt_add_of_pos_left hpos)
      · rw [List.flatten_cons, ← Pos.after_after p u _ (turns.flatten ++ r)]
        exact ih hturns rfl (by dsimp only [Pos.after]; omega)

/-- Lazily or not, a loop has the same places. -/
theorem mem_repeatedLazily {turn : Pos → List Pos} : q ∈ repeatedLazily turn n p ↔ q ∈ repeated turn n p := by
  induction n generalizing p with
  | zero => exact Iff.rfl
  | succ n ih =>
      rw [repeatedLazily, repeated, List.mem_cons, List.mem_append, List.mem_singleton, or_comm, List.mem_flatMap,
        List.mem_flatMap]
      simp only [ih]

theorem mem_outcomes (hplain : e.plain = true) (p q : Pos) : q ∈ e.outcomes p ↔ p.Ends e q := by
  induction e generalizing p q with
  | empty =>
      constructor
      · intro hq
        obtain rfl := List.mem_singleton.mp hq
        exact ⟨[], q.rest, rfl, rfl, rfl⟩
      · rintro ⟨_, r, hrest, rfl, rfl⟩
        rw [List.nil_append] at hrest
        exact List.mem_singleton.mpr (by rw [← hrest]; rfl)
  | rune f =>
      constructor
      · intro hq
        rw [Expr.outcomes] at hq
        split at hq
        next c s hrest =>
          split at hq
          next hc =>
            obtain rfl := List.mem_singleton.mp hq
            exact ⟨[c], s, hrest, rfl, c, rfl, hc⟩
          · cases hq
        · cases hq
      · rintro ⟨_, r, hrest, rfl, c, rfl, hc⟩
        rw [outcomes_rune_of_pos hrest hc]
        exact List.mem_singleton.mpr rfl
  | cat a b iha ihb =>
      obtain ⟨hplainA, hplainB⟩ := Bool.and_eq_true_iff.mp hplain
      rw [outcomes_cat, List.mem_flatMap]
      constructor
      · rintro ⟨mid, hmid, hq⟩
        obtain ⟨u, r, hu, rfl, hreadA⟩ := (iha hplainA p mid).mp hmid
        obtain ⟨v, r', hv, rfl, hreadB⟩ := (ihb hplainB _ q).mp hq
        refine ⟨u ++ v, r', ?_, Pos.after_after p u v r r', u, v, rfl, hreadA, hreadB⟩
        rw [hu, List.append_assoc]
        exact congrArg (u ++ ·) hv
      · rintro ⟨_, r, hrest, rfl, u, v, rfl, hreadA, hreadB⟩
        rw [List.append_assoc] at hrest
        refine ⟨p.after u (v ++ r), (iha hplainA _ _).mpr ⟨u, _, hrest, rfl, hreadA⟩, ?_⟩
        exact (ihb hplainB _ _).mpr ⟨v, r, rfl, (Pos.after_after p u v (v ++ r) r).symm, hreadB⟩
  | alt a b iha ihb =>
      obtain ⟨hplainA, hplainB⟩ := Bool.and_eq_true_iff.mp hplain
      change q ∈ a.outcomes p ++ b.outcomes p ↔ _
      rw [List.mem_append, iha hplainA, ihb hplainB]
      constructor
      · rintro (⟨w, r, hrest, hq, hread⟩ | ⟨w, r, hrest, hq, hread⟩)
        · exact ⟨w, r, hrest, hq, .inl hread⟩
        · exact ⟨w, r, hrest, hq, .inr hread⟩
      · rintro ⟨w, r, hrest, hq, hread | hread⟩
        · exact .inl ⟨w, r, hrest, hq, hread⟩
        · exact .inr ⟨w, r, hrest, hq, hread⟩
  | star a ih =>
      constructor
      · exact ends_of_mem_repeated fun p q hq => (ih hplain p q).mp hq
      · rintro ⟨_, r, hrest, rfl, turns, rfl, hturns⟩
        exact mem_repeated_of_turns (fun p q hq => (ih hplain p q).mpr hq) hturns hrest (Nat.le_refl _)
  | lazyStar a ih =>
      rw [Expr.outcomes, mem_repeatedLazily]
      constructor
      · exact ends_of_mem_repeated fun p q hq => (ih hplain p q).mp hq
      · rintro ⟨_, r, hrest, rfl, turns, rfl, hturns⟩
        exact mem_repeated_of_turns (fun p q hq => (ih hplain p q).mpr hq) hturns hrest (Nat.le_refl _)
  | group _ _ => cases hplain
  | wordBoundary => cases hplain

end Outcomes

section Texts

variable {a b e : Expr} {es : List Expr} {f g : Char → Bool} {w : Text}

theorem reads_sequence_append {es' : List Expr} : (sequence (es ++ es')).Reads w ↔
    ∃ u v, w = u ++ v ∧ (sequence es).Reads u ∧ (sequence es').Reads v := by
  induction es generalizing w with
  | nil =>
      constructor
      · exact fun h => ⟨[], w, rfl, rfl, h⟩
      · rintro ⟨_, v, rfl, rfl, h⟩
        exact h
  | cons e es ih =>
      constructor
      · rintro ⟨u, v, rfl, hu, hv⟩
        obtain ⟨v, z, rfl, hv, hz⟩ := ih.mp hv
        exact ⟨u ++ v, z, (List.append_assoc ..).symm, ⟨u, v, rfl, hu, hv⟩, hz⟩
      · rintro ⟨_, z, rfl, ⟨u, v, rfl, hu, hv⟩, hz⟩
        exact ⟨u, v ++ z, List.append_assoc .., hu, ih.mpr ⟨v, z, rfl, hv, hz⟩⟩

theorem reads_sequence_singleton : (sequence [e]).Reads w ↔ e.Reads w := by
  constructor
  · rintro ⟨u, _, rfl, hu, rfl⟩
    rw [List.append_nil]
    exact hu
  · exact fun h => ⟨w, [], (List.append_nil w).symm, h, rfl⟩

theorem reads_star_rune : (Expr.star (.rune f)).Reads w ↔ ∀ c ∈ w, f c = true := by
  constructor
  · rintro ⟨turns, rfl, hturns⟩ c hc
    obtain ⟨u, hu, hc⟩ := List.mem_flatten.mp hc
    obtain ⟨-, d, rfl, hd⟩ := hturns u hu
    rw [List.mem_singleton.mp hc]
    exact hd
  · intro h
    refine ⟨w.map fun c => [c], by rw [← List.flatMap_def, List.flatMap_singleton'], fun u hu => ?_⟩
    obtain ⟨c, hc, rfl⟩ := List.mem_map.mp hu
    exact ⟨List.cons_ne_nil c [], c, rfl, h c hc⟩

theorem reads_times_rune {n : Nat} : (times n (.rune f)).Reads w ↔ w.length = n ∧ ∀ c ∈ w, f c = true := by
  induction n generalizing w with
  | zero =>
      constructor
      · rintro rfl
        exact ⟨rfl, nofun⟩
      · exact fun h => List.length_eq_zero_iff.mp h.1
  | succ n ih =>
      constructor
      · rintro ⟨_, v, rfl, ⟨c, rfl, hc⟩, hv⟩
        obtain ⟨hlength, hall⟩ := ih.mp hv
        exact ⟨congrArg Nat.succ hlength, List.forall_mem_cons.mpr ⟨hc, hall⟩⟩
      · rintro ⟨hlength, hall⟩
        cases w with
        | nil => cases hlength
        | cons c v =>
            obtain ⟨hc, hall⟩ := List.forall_mem_cons.mp hall
            exact ⟨[c], v, rfl, ⟨c, rfl, hc⟩, ih.mpr ⟨Nat.succ.inj hlength, hall⟩⟩

theorem reads_literal {s : Text} : (literal s).Reads w ↔ w = s := by
  induction s generalizing w with
  | nil => exact Iff.rfl
  | cons c s ih =>
      constructor
      · rintro ⟨_, v, rfl, ⟨d, rfl, hd⟩, hv⟩
        rw [ih.mp hv, beq_iff_eq.mp hd]
        rfl
      · rintro rfl
        exact ⟨[c], s, rfl, ⟨c, rfl, BEq.rfl⟩, ih.mpr rfl⟩

theorem reads_literalFold_append {s t : Text} : (literalFold (s ++ t)).Reads w ↔
    ∃ u v, w = u ++ v ∧ (literalFold s).Reads u ∧ (literalFold t).Reads v := by
  rw [literalFold, List.map_append, reads_sequence_append]
  exact Iff.rfl

theorem reads_literalFold_self (s : Text) : (literalFold s).Reads s := by
  induction s with
  | nil => rfl
  | cons c s ih => exact ⟨[c], s, rfl, ⟨c, rfl, by simp [foldCase]⟩, ih⟩

theorem length_of_reads_literalFold {s : Text} (h : (literalFold s).Reads w) : w.length = s.length := by
  induction s generalizing w with
  | nil => rw [show w = [] from h]
  | cons c s ih =>
      obtain ⟨_, v, rfl, ⟨d, rfl, -⟩, hv⟩ := h
      rw [List.length_append, ih hv, List.length_singleton, List.length_cons, Nat.add_comm]

theorem reads_choice : (choice es).Reads w ↔ ∃ e ∈ es, e.Reads w := by
  induction es with
  | nil =>
      constructor
      · rintro ⟨c, -, hc⟩
        cases hc
      · nofun
  | cons e es ih =>
      cases es with
      | nil => simp only [choice, List.mem_singleton, exists_eq_left]
      | cons d es =>
          refine (or_congr_right ih).trans ?_
          simp only [List.mem_cons, or_and_right, exists_or, exists_eq_left]

theorem plain_choice (h : ∀ e ∈ es, e.plain = true) : (choice es).plain = true := by
  induction es with
  | nil => rfl
  | cons e es ih =>
      obtain ⟨he, hes⟩ := List.forall_mem_cons.mp h
      cases es with
      | nil => exact he
      | cons d es => exact Bool.and_eq_true_iff.mpr ⟨he, ih hes⟩

theorem Expr.Reads.width_le (h : e.Reads w) : e.width ≤ w.length := by
  induction e generalizing w with
  | empty => exact Nat.zero_le _
  | rune f =>
      obtain ⟨c, rfl, -⟩ := h
      exact Nat.le_refl 1
  | cat a b iha ihb =>
      obtain ⟨u, v, rfl, hu, hv⟩ := h
      rw [List.length_append]
      exact Nat.add_le_add (iha hu) (ihb hv)
  | alt a b iha ihb =>
      obtain h | h := h
      · exact Nat.le_trans (Nat.min_le_left ..) (iha h)
      · exact Nat.le_trans (Nat.min_le_right ..) (ihb h)
  | star a _ => exact Nat.zero_le _
  | lazyStar a _ => exact Nat.zero_le _
  | group _ a ih => exact ih h
  | wordBoundary => exact Nat.zero_le _

/-- Every rune the expression can read is of the class. -/
inductive Over (f : Char → Bool) : Expr → Prop
  | empty : Over f .empty
  | rune {g : Char → Bool} : (∀ c, g c = true → f c = true) → Over f (.rune g)
  | cat {a b : Expr} : Over f a → Over f b → Over f (.cat a b)
  | alt {a b : Expr} : Over f a → Over f b → Over f (.alt a b)
  | star {a : Expr} : Over f a → Over f (.star a)

namespace Over

theorem sequence (h : ∀ e ∈ es, Over f e) : Over f (sequence es) := by
  induction es with
  | nil => exact .empty
  | cons e es ih => exact .cat (h e List.mem_cons_self) (ih fun d hd => h d (List.mem_cons_of_mem e hd))

theorem choice (h : ∀ e ∈ es, Over f e) : Over f (choice es) := by
  induction es with
  | nil => exact .rune nofun
  | cons e es ih =>
      cases es with
      | nil => exact h e List.mem_cons_self
      | cons d es => exact .alt (h e List.mem_cons_self) (ih fun d hd => h d (List.mem_cons_of_mem e hd))

theorem optional (h : Over f e) : Over f (optional e) := .alt h .empty

theorem times {n : Nat} (h : Over f e) : Over f (times n e) :=
  .sequence fun d hd => by
    rw [List.eq_of_mem_replicate hd]
    exact h

theorem of_reads (h : Over f e) (hw : e.Reads w) : ∀ c ∈ w, f c = true := by
  induction h generalizing w with
  | empty =>
      rw [show w = [] from hw]
      nofun
  | rune hg =>
      obtain ⟨c, rfl, hc⟩ := hw
      intro d hd
      rw [List.mem_singleton.mp hd]
      exact hg c hc
  | cat _ _ iha ihb =>
      obtain ⟨u, v, rfl, hu, hv⟩ := hw
      exact fun c hc => (List.mem_append.mp hc).elim (iha hu c) (ihb hv c)
  | alt _ _ iha ihb => exact hw.elim iha ihb
  | star _ ih =>
      obtain ⟨turns, rfl, hturns⟩ := hw
      intro c hc
      obtain ⟨u, hu, hc⟩ := List.mem_flatten.mp hc
      exact ih (hturns u hu).2 c hc

end Over

end Texts

section First

variable {a e : Expr} {p q : Pos} {n : Nat} {m : Match} {prev : Option Char} {s : Text}

theorem exists_of_head?_flatMap {α β : Type*} {l : List α} {k : α → List β} {b : β} (h : (l.flatMap k).head? = some b) :
    ∃ a ∈ l, (k a).head? = some b := by
  induction l with
  | nil => cases h
  | cons a l ih =>
      rw [List.flatMap_cons, List.head?_append] at h
      cases hk : (k a).head? with
      | some d =>
          rw [hk] at h
          exact ⟨a, List.mem_cons_self, hk.trans h⟩
      | none =>
          rw [hk] at h
          obtain ⟨a', ha', hb⟩ := ih h
          exact ⟨a', List.mem_cons_of_mem a ha', hb⟩

/-- Where every place leads on, the first match goes on from the first. -/
theorem exists_of_head?_flatMap_total {α β : Type*} {l : List α} {k : α → List β} {b : β} (hk : ∀ a ∈ l, k a ≠ [])
    (h : (l.flatMap k).head? = some b) : ∃ a, l.head? = some a ∧ (k a).head? = some b := by
  cases l with
  | nil => cases h
  | cons a l =>
      refine ⟨a, rfl, ?_⟩
      rw [List.flatMap_cons, List.head?_append, Option.or_of_isSome] at h
      · exact h
      · exact List.isSome_head?.mpr (hk a List.mem_cons_self)

theorem repeated_ne_nil {turn : Pos → List Pos} : repeated turn n p ≠ [] := by
  cases n with
  | zero => exact List.cons_ne_nil _ _
  | succ n => exact List.append_ne_nil_of_right_ne_nil _ (List.cons_ne_nil _ _)

/-- The first end of a loop is one its first turns lead to. -/
theorem head?_repeated {turn : Pos → List Pos} {P : Pos → Prop}
    (hshorter : ∀ p, ∀ q ∈ turn p, q.rest.length < p.rest.length) (hturn : ∀ p q, (turn p).head? = some q → P q) (hp : P p)
    (hq : (repeated turn n p).head? = some q) : P q := by
  induction n generalizing p with
  | zero =>
      obtain rfl := Option.some.inj hq
      exact hp
  | succ n ih =>
      have hall : (turn p).filter (fun q => q.rest.length < p.rest.length) = turn p :=
        List.filter_eq_self.mpr fun q hq => decide_eq_true (hshorter p q hq)
      rw [repeated, hall, List.head?_append] at hq
      cases hmore : ((turn p).flatMap (repeated turn n)).head? with
      | none =>
          rw [hmore] at hq
          obtain rfl := Option.some.inj hq
          exact hp
      | some q' =>
          rw [hmore] at hq
          obtain rfl := Option.some.inj hq
          obtain ⟨mid, hmid, hq'⟩ := exists_of_head?_flatMap_total (fun _ _ => repeated_ne_nil) hmore
          exact ih (hturn p mid hmid) hq'

theorem outcomes_sequence_append {es es' : List Expr} :
    (sequence (es ++ es')).outcomes p = ((sequence es).outcomes p).flatMap (sequence es').outcomes := by
  induction es generalizing p with
  | nil => exact (List.flatMap_singleton _ p).symm
  | cons e es ih =>
      change (e.outcomes p).flatMap (sequence (es ++ es')).outcomes =
        ((e.outcomes p).flatMap (sequence es).outcomes).flatMap (sequence es').outcomes
      rw [List.flatMap_assoc, funext fun q => ih (p := q)]

theorem exists_of_head?_choice {es : List Expr} (h : ((choice es).outcomes p).head? = some q) :
    ∃ e ∈ es, (e.outcomes p).head? = some q := by
  induction es with
  | nil =>
      rw [choice, outcomes_rune_of_neg fun _ _ _ => rfl] at h
      cases h
  | cons e es ih =>
      cases es with
      | nil => exact ⟨e, List.mem_cons_self, h⟩
      | cons d es =>
          change (e.outcomes p ++ (choice (d :: es)).outcomes p).head? = some q at h
          rw [List.head?_append] at h
          cases he : (e.outcomes p).head? with
          | some q' =>
              rw [he] at h
              exact ⟨e, List.mem_cons_self, he.trans h⟩
          | none =>
              rw [he] at h
              obtain ⟨e', he', hq⟩ := ih h
              exact ⟨e', List.mem_cons_of_mem e he', hq⟩

theorem head?_choice_cons {es : List Expr} (h : (e.outcomes p).head? = some q) :
    ((choice (e :: es)).outcomes p).head? = some q := by
  cases es with
  | nil => exact h
  | cons d es =>
      change (e.outcomes p ++ (choice (d :: es)).outcomes p).head? = some q
      rw [List.head?_append, h]
      rfl

/-- The text up to the first place. -/
theorem reads_of_head? (hplain : e.plain = true) {w r : Text} (hrest : p.rest = w ++ r)
    (hfirst : (e.outcomes p).head? = some (p.after w r)) : e.Reads w := by
  obtain ⟨w', r', hrest', heq, hread⟩ := (mem_outcomes hplain p _).mp (List.mem_of_mem_head? hfirst)
  obtain rfl : r = r' := congrArg Pos.rest heq
  rw [List.append_cancel_right (hrest.symm.trans hrest')]
  exact hread

theorem exists_of_matchAt (h : e.matchAt prev s = some m) : ∃ q, (e.outcomes ⟨prev, s, []⟩).head? = some q ∧
    m = ⟨Pos.until ⟨prev, s, []⟩ q, q.groups⟩ := by
  obtain ⟨q, hq, rfl⟩ := Option.map_eq_some_iff.mp h
  exact ⟨q, hq, rfl⟩

theorem matchAt_of_mem (h : q ∈ e.outcomes ⟨prev, s, []⟩) : ∃ m, e.matchAt prev s = some m := by
  obtain ⟨first, hfirst⟩ := Option.isSome_iff_exists.mp (List.isSome_head?.mpr (List.ne_nil_of_mem h))
  exact ⟨_, congrArg (Option.map _) hfirst⟩

theorem matchAt_plain (hplain : e.plain = true) (h : e.matchAt prev s = some m) :
    e.Reads m.text ∧ ∃ r, s = m.text ++ r ∧ (e.outcomes ⟨prev, s, []⟩).head? = some (Pos.after ⟨prev, s, []⟩ m.text r) := by
  obtain ⟨q, hq, rfl⟩ := exists_of_matchAt h
  obtain ⟨w, r, hrest, rfl, hread⟩ := (mem_outcomes hplain _ _).mp (List.mem_of_mem_head? hq)
  have huntil : Pos.until ⟨prev, s, []⟩ (Pos.after ⟨prev, s, []⟩ w r) = w := Pos.until_of_append hrest
  rw [huntil]
  exact ⟨hread, r, hrest, hq⟩

theorem mem_group (hplain : a.plain = true) : q ∈ (Expr.group n a).outcomes p ↔
    ∃ w r, p.rest = w ++ r ∧ q = { p.after w r with groups := (n, w) :: p.groups } ∧ a.Reads w := by
  change q ∈ (a.outcomes p).map _ ↔ _
  rw [List.mem_map]
  constructor
  · rintro ⟨_, hend, rfl⟩
    obtain ⟨w, r, hrest, rfl, hread⟩ := (mem_outcomes hplain p _).mp hend
    refine ⟨w, r, hrest, ?_, hread⟩
    rw [Pos.until_of_append hrest]
    rfl
  · rintro ⟨w, r, hrest, rfl, hread⟩
    refine ⟨p.after w r, (mem_outcomes hplain p _).mpr ⟨w, r, hrest, rfl, hread⟩, ?_⟩
    rw [Pos.until_of_append hrest]
    rfl

theorem exists_mem_group (hplain : a.plain = true) {w r : Text} (hrest : p.rest = w ++ r) (hread : a.Reads w) :
    ∃ q ∈ (Expr.group n a).outcomes p, q.rest = r :=
  ⟨_, (mem_group hplain).mpr ⟨w, r, hrest, rfl, hread⟩, rfl⟩

end First

end Regex
