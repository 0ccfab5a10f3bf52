import Mathlib.Data.Nat.Find
import Mathlib.Logic.Relation
import Mathlib.Order.Basic

/-!
# Runs of a step function

A schedule is carried out step by step, and a property every step preserves holds at its end. An endless run is a sequence
of states with the step taken at each. Three rules carry what holds along it: a property every step preserves, a property
that stays until another takes over, and a property that leads to another because a rank falls whenever something happens.
-/

namespace Runs

variable {σ α : Type*}

/-! ### Schedules -/

section Schedules

/-- A schedule that is carried out; none when one of its steps has to wait. -/
def exec (step : σ → α → Option σ) (s : σ) : List α → Option σ
  | [] => some s
  | a :: rest => (step s a).bind fun s' => exec step s' rest

/-- The steps that meet `ok`. -/
def guarded (ok : σ → α → Prop) [∀ s a, Decidable (ok s a)] (step : σ → α → Option σ) (s : σ) (a : α) : Option σ :=
  if ok s a then step s a else none

def Reaches (step : σ → α → Option σ) : σ → σ → Prop := Relation.ReflTransGen fun s s' => ∃ a, step s a = some s'

variable {step : σ → α → Option σ} {s s' : σ} {acts : List α}

/-- A property every step preserves holds at the end, where a rank every step lowers has fallen by the number of steps. -/
theorem exec_rank {inv : σ → Prop} (rank : σ → Nat)
    (hstep : ∀ s a s', inv s → step s a = some s' → inv s' ∧ rank s' + 1 ≤ rank s) (hinit : inv s)
    (hrun : exec step s acts = some s') : inv s' ∧ rank s' + acts.length ≤ rank s := by
  induction acts generalizing s with
  | nil =>
      cases hrun
      exact ⟨hinit, Nat.le_refl _⟩
  | cons a rest ih =>
      obtain ⟨mid, hfirst, hrest⟩ := Option.bind_eq_some_iff.mp hrun
      obtain ⟨hmid, hfall⟩ := hstep s a mid hinit hfirst
      obtain ⟨hend, hle⟩ := ih hmid hrest
      rw [List.length_cons]
      exact ⟨hend, by omega⟩

theorem exec_invariant {inv : σ → Prop} (hstep : ∀ s a s', inv s → step s a = some s' → inv s') (hinit : inv s)
    (hrun : exec step s acts = some s') : inv s' := by
  induction acts generalizing s with
  | nil =>
      cases hrun
      exact hinit
  | cons a rest ih =>
      obtain ⟨mid, hfirst, hrest⟩ := Option.bind_eq_some_iff.mp hrun
      exact ih (hstep s a mid hinit hfirst) hrest

theorem reaches_of_exec (hrun : exec step s acts = some s') : Reaches step s s' :=
  exec_invariant (fun _ a _ hreach hstep => hreach.tail ⟨a, hstep⟩) .refl hrun

theorem Reaches.invariant {inv : σ → Prop} (hreach : Reaches step s s') (hinit : inv s)
    (hstep : ∀ s a s', inv s → step s a = some s' → inv s') : inv s' := by
  induction hreach with
  | refl => exact hinit
  | tail _ hlast ih =>
      obtain ⟨a, ha⟩ := hlast
      exact hstep _ a _ ih ha

theorem guarded_eq_some {ok : σ → α → Prop} [∀ s a, Decidable (ok s a)] {a : α} :
    guarded ok step s a = some s' ↔ ok s a ∧ step s a = some s' := Option.ite_none_right_eq_some

end Schedules

/-! ### Endless runs -/

structure Run (step : σ → α → Option σ) where
  state : Nat → σ
  act : Nat → α
  next : ∀ n, step (state n) (act n) = some (state (n + 1))

namespace Run

variable {step : σ → α → Option σ} (r : Run step)

theorem invariant {inv : σ → Prop} (hinit : inv (r.state 0))
    (hstep : ∀ s a s', inv s → step s a = some s' → inv s') (n : Nat) : inv (r.state n) := by
  induction n with
  | zero => exact hinit
  | succ n ih => exact hstep _ _ _ ih (r.next n)

/-- What one step keeps or turns into `Q` is there as long as `Q` is not. -/
theorem stays {P Q : σ → Prop} {n : Nat} (hP : P (r.state n))
    (hstep : ∀ k, n ≤ k → P (r.state k) → P (r.state (k + 1)) ∨ Q (r.state (k + 1))) {m : Nat} (hm : n ≤ m) :
    P (r.state m) ∨ ∃ k, n ≤ k ∧ k ≤ m ∧ Q (r.state k) := by
  induction m, hm using Nat.le_induction with
  | base => exact .inl hP
  | succ m hm ih =>
      obtain hP | ⟨k, hk, hkm, hQ⟩ := ih
      · obtain hP | hQ := hstep m hm hP
        · exact .inl hP
        · exact .inr ⟨m + 1, Nat.le_succ_of_le hm, le_rfl, hQ⟩
      · exact .inr ⟨k, hk, Nat.le_succ_of_le hkm, hQ⟩

/-- The first time a kind of act is taken from `n` on. -/
theorem exists_first {A : α → Prop} {n m : Nat} (hm : n ≤ m) (hA : A (r.act m)) :
    ∃ k, n ≤ k ∧ A (r.act k) ∧ ∀ j, n ≤ j → j < k → ¬ A (r.act j) := by
  classical
  have hex : ∃ k, n ≤ k ∧ A (r.act k) := ⟨m, hm, hA⟩
  refine ⟨Nat.find hex, (Nat.find_spec hex).1, (Nat.find_spec hex).2, fun j hj hlt hAj => ?_⟩
  exact Nat.find_min hex hlt ⟨hj, hAj⟩

theorem leads {P Q : σ → Prop} (rank : σ → Nat)
    (hfall : ∀ n, P (r.state n) →
      ∃ m, n ≤ m ∧ (Q (r.state m) ∨ P (r.state m) ∧ rank (r.state m) < rank (r.state n)))
    {n : Nat} (hP : P (r.state n)) : ∃ m, n ≤ m ∧ Q (r.state m) := by
  induction hrank : rank (r.state n) using Nat.strong_induction_on generalizing n with
  | _ k ih =>
      obtain ⟨m, hm, hQ | ⟨hPm, hlt⟩⟩ := hfall n hP
      · exact ⟨m, hm, hQ⟩
      · obtain ⟨m', hm', hQ⟩ := ih _ (hrank ▸ hlt) hPm rfl
        exact ⟨m', hm.trans hm', hQ⟩

end Run

end Runs
