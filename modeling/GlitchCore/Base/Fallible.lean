import Mathlib.Data.List.Basic

/-!
# Fallible code

Inversion of the steps of a computation that may fail, and of loops over a list.
-/

namespace Fallible

variable {ε α β : Type}

theorem bind_eq_ok {x : Except ε α} {f : α → Except ε β} {b : β} (h : x >>= f = .ok b) :
    ∃ a, x = .ok a ∧ f a = .ok b := by
  cases x with
  | error e => cases h
  | ok a => exact ⟨a, rfl, h⟩

theorem mapError_eq_ok {ε' : Type} {x : Except ε α} {g : ε → ε'} {a : α} (h : x.mapError g = .ok a) : x = .ok a := by
  cases x with
  | error e => cases h
  | ok a' => exact congrArg Except.ok (Except.ok.inj h)

/-- A loop all of whose rounds succeed returns what they return. -/
theorem mapM_eq_ok {f : α → Except ε β} {g : α → β} {l : List α} (hf : ∀ x ∈ l, f x = .ok (g x)) :
    l.mapM f = .ok (l.map g) := by
  induction l with
  | nil => rfl
  | cons x l ih =>
      rw [List.mapM_cons, hf x (by simp), ih fun y hy => hf y (by simp [hy])]
      rfl

theorem exists_of_mem_mapM {f : α → Option β} {l : List α} {r : List β} (hr : l.mapM f = some r) :
    ∀ y ∈ r, ∃ x ∈ l, f x = some y := by
  induction l generalizing r with
  | nil =>
      obtain rfl := Option.some.inj hr
      simp
  | cons x l ih =>
      rw [List.mapM_cons] at hr
      obtain ⟨y, hy, hr⟩ := Option.bind_eq_some_iff.mp hr
      obtain ⟨ys, hys, hr⟩ := Option.bind_eq_some_iff.mp hr
      obtain rfl := Option.some.inj hr
      intro z hz
      obtain rfl | hz := List.mem_cons.mp hz
      · exact ⟨x, by simp, hy⟩
      · obtain ⟨x', hx', hfx⟩ := ih hys z hz
        exact ⟨x', by simp [hx'], hfx⟩

/-- A loop returns, place by place, what its rounds return. -/
theorem getElem?_of_mapM {f : α → Option β} {l : List α} {r : List β} (hr : l.mapM f = some r) {i : Nat} {x : α}
    (hx : l[i]? = some x) : ∃ y, r[i]? = some y ∧ f x = some y := by
  induction l generalizing r i with
  | nil => cases hx
  | cons x' l ih =>
      rw [List.mapM_cons] at hr
      obtain ⟨y, hy, hr⟩ := Option.bind_eq_some_iff.mp hr
      obtain ⟨ys, hys, hr⟩ := Option.bind_eq_some_iff.mp hr
      obtain rfl := Option.some.inj hr
      cases i with
      | zero =>
          obtain rfl := Option.some.inj hx
          exact ⟨y, rfl, hy⟩
      | succ i => exact ih hys hx

theorem exists_of_mapM {f : α → Option β} {l : List α} {r : List β} (hr : l.mapM f = some r) {x : α} (hx : x ∈ l) :
    ∃ y, f x = some y := by
  obtain ⟨i, hi⟩ := List.mem_iff_getElem?.mp hx
  obtain ⟨y, -, hy⟩ := getElem?_of_mapM hr hi
  exact ⟨y, hy⟩

end Fallible
