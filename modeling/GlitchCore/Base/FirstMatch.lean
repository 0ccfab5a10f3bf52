import Mathlib.Data.List.Basic

/-!
# First match over a list of rules

A rule list is a list with a partial answer for each rule, `findSome?` takes the first answer. The
lemmas say how the answer of a list put together from parts is put together from the parts' answers,
so that a compiler from one kind of rule to another is compared rule by rule.
-/

namespace FirstMatch

variable {α β γ : Type*}

theorem findSome?_filterMap (g : α → Option β) (f : β → Option γ) (l : List α) :
    (l.filterMap g).findSome? f = l.findSome? fun a => (g a).bind f := by
  rw [← List.head?_filterMap, List.filterMap_filterMap, List.head?_filterMap]

theorem findSome?_flatMap (g : α → List β) (f : β → Option γ) (l : List α) :
    (l.flatMap g).findSome? f = l.findSome? fun a => (g a).findSome? f := by
  rw [← List.head?_filterMap, List.filterMap_flatMap, List.head?_flatMap]
  simp only [List.head?_filterMap]

theorem findSome?_congr {f g : α → Option β} {l : List α} (hsame : ∀ a ∈ l, f a = g a) :
    l.findSome? f = l.findSome? g := by
  rw [← List.head?_filterMap, ← List.head?_filterMap, List.filterMap_congr hsame]

theorem any_congr_mem {p q : α → Bool} {l : List α} (hsame : ∀ a ∈ l, p a = q a) : l.any p = l.any q := by
  rw [Bool.eq_iff_iff, List.any_eq_true, List.any_eq_true]
  exact exists_congr fun a => and_congr_right fun ha => by rw [hsame a ha]

/-- A condition all rules of a list share stands in front of the list. -/
theorem findSome?_guarded (c : Prop) [Decidable c] (f : α → Option β) (l : List α) :
    (l.findSome? fun a => if c then f a else none) = if c then l.findSome? f else none := by
  by_cases hc : c
  · simp only [hc, if_true]
  · simp only [hc, if_false, List.findSome?_eq_none_iff, implies_true]

theorem findSome?_const (p : α → Bool) (b : β) (l : List α) :
    (l.findSome? fun a => if p a then some b else none) = if l.any p then some b else none := by
  induction l with
  | nil => rfl
  | cons a l ih =>
      rw [List.findSome?_cons, ih]
      cases hp : p a <;> simp [hp]

end FirstMatch
