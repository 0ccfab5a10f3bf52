import GlitchCore.Base.Runs
import Mathlib.Data.List.Basic

/-!
# Threads over a shared memory

A program says what a request's thread starts as and what one atomic step of a thread does to the memory
and to the thread itself. A schedule spawns threads and runs their steps in any order. Two rules carry the
invariants: one for a property of whole configurations, and one for a property made of a part about the
memory and a part about each thread, which asks of a step that it keeps its own thread's part and
does not disturb another's.
-/

namespace Interleaving

variable {σ τ ι κ : Type*}

/-- `exec i m t c` is a step of thread `i`, in the place `t`, on the memory `m`; `c` decides what the memory
does not. No answer: the step has to wait, or the thread has ended. -/
structure Program (σ τ ι κ : Type*) where
  spawn : ι → τ
  exec : Nat → σ → τ → κ → Option (σ × τ)

structure Config (σ τ : Type*) where
  mem : σ
  threads : List τ

inductive Act (ι κ : Type*) where
  | spawn (r : ι)
  | run (i : Nat) (c : κ)

namespace Program

variable (P : Program σ τ ι κ)

def step (s : Config σ τ) : Act ι κ → Option (Config σ τ)
  | .spawn r => some ⟨s.mem, s.threads ++ [P.spawn r]⟩
  | .run i c =>
      s.threads[i]?.bind fun t => (P.exec i s.mem t c).map fun out => ⟨out.1, s.threads.set i out.2⟩

/-- The configurations of the runs from `s₀` all of whose steps meet `ok`. -/
inductive Reaches (ok : Config σ τ → Act ι κ → Prop) (s₀ : Config σ τ) : Config σ τ → Prop
  | refl : Reaches ok s₀ s₀
  | step {s s' : Config σ τ} {a : Act ι κ} : Reaches ok s₀ s → ok s a → P.step s a = some s' → Reaches ok s₀ s'

/-- A schedule that is carried out; none when a step has to wait or does not meet `ok`. -/
def run (ok : Config σ τ → Act ι κ → Prop) [∀ s a, Decidable (ok s a)] (s : Config σ τ) (acts : List (Act ι κ)) :
    Option (Config σ τ) :=
  Runs.exec (Runs.guarded ok P.step) s acts

variable {P}

theorem Reaches.trans {ok : Config σ τ → Act ι κ → Prop} {s₀ s₁ s₂ : Config σ τ} (h₁ : P.Reaches ok s₀ s₁)
    (h₂ : P.Reaches ok s₁ s₂) : P.Reaches ok s₀ s₂ := by
  induction h₂ with
  | refl => exact h₁
  | step _ hok hstep ih => exact ih.step hok hstep

theorem reaches_of_run {ok : Config σ τ → Act ι κ → Prop} [∀ s a, Decidable (ok s a)] {s s' : Config σ τ}
    {acts : List (Act ι κ)} (hrun : P.run ok s acts = some s') : P.Reaches ok s s' :=
  Runs.exec_invariant (fun _ _ _ hreach hstep =>
    hreach.step (Runs.guarded_eq_some.mp hstep).1 (Runs.guarded_eq_some.mp hstep).2) .refl hrun

theorem step_run {s s' : Config σ τ} {i : Nat} {c : κ} (hstep : P.step s (.run i c) = some s') :
    ∃ t t', s.threads[i]? = some t ∧ P.exec i s.mem t c = some (s'.mem, t') ∧ s'.threads = s.threads.set i t' := by
  obtain ⟨t, ht, hmap⟩ := Option.bind_eq_some_iff.mp hstep
  obtain ⟨out, hexec, rfl⟩ := Option.map_eq_some_iff.mp hmap
  exact ⟨t, out.2, ht, hexec, rfl⟩

theorem getElem?_set_of_some {l : List τ} {i : Nat} {t : τ} (hi : l[i]? = some t) (t' : τ) (j : Nat) :
    (l.set i t')[j]? = if j = i then some t' else l[j]? := by
  obtain ⟨hlt, -⟩ := List.getElem?_eq_some_iff.mp hi
  by_cases hj : j = i
  · rw [if_pos hj, hj, List.getElem?_set_self hlt]
  · rw [if_neg hj, List.getElem?_set_ne (Ne.symm hj)]

/-- A thread that is found before a step is the one that made it, or is found after it. -/
theorem exists_mem_set {l : List τ} {i : Nat} {t : τ} (hi : l[i]? = some t) (t' : τ) {Q : τ → Prop}
    (hex : ∃ u ∈ l, Q u) : Q t ∨ ∃ u ∈ l.set i t', Q u := by
  obtain ⟨u, hu, hQ⟩ := hex
  obtain ⟨j, hj⟩ := List.mem_iff_getElem?.mp hu
  by_cases hji : j = i
  · subst hji
    rw [hi] at hj
    cases hj
    exact .inl hQ
  · refine .inr ⟨u, List.mem_of_getElem? (i := j) ?_, hQ⟩
    rw [getElem?_set_of_some hi, if_neg hji, hj]

theorem mem_set_self {l : List τ} {i : Nat} {t : τ} (hi : l[i]? = some t) (t' : τ) : t' ∈ l.set i t' := by
  obtain ⟨hlt, -⟩ := List.getElem?_eq_some_iff.mp hi
  exact List.mem_set hlt t'

theorem getElem?_spawn {l : List τ} {t u : τ} {j : Nat} (hj : (l ++ [t])[j]? = some u) :
    l[j]? = some u ∨ j = l.length ∧ u = t := by
  rw [List.getElem?_append] at hj
  split at hj
  · exact .inl hj
  · obtain ⟨hlt, rfl⟩ := List.getElem?_eq_some_iff.mp hj
    rw [List.length_singleton] at hlt
    exact .inr ⟨by omega, List.getElem_singleton ..⟩

section Invariant

variable {ok : Config σ τ → Act ι κ → Prop} {s₀ s : Config σ τ}

/-- A property one step preserves holds along a run. -/
theorem Reaches.invariant (hreach : P.Reaches ok s₀ s) (inv : Config σ τ → Prop) (hinit : inv s₀)
    (hstep : ∀ s a s', inv s → ok s a → P.step s a = some s' → inv s') : inv s := by
  induction hreach with
  | refl => exact hinit
  | step _ hok hs ih => exact hstep _ _ _ ih hok hs

theorem Reaches.mono {ok' : Config σ τ → Act ι κ → Prop} (hreach : P.Reaches ok s₀ s)
    (himp : ∀ s a, ok s a → ok' s a) : P.Reaches ok' s₀ s := by
  induction hreach with
  | refl => exact .refl
  | step _ hok hs ih => exact ih.step (himp _ _ hok) hs

end Invariant

section Traces

variable {ε : Type*} {ok : Config σ τ → Act ι κ → Prop} {label : Config σ τ → Act ι κ → List ε} {s₀ s : Config σ τ}

/-- The runs from `s₀`, with what `label` says of their steps one after another. -/
inductive Traces (P : Program σ τ ι κ) (ok : Config σ τ → Act ι κ → Prop) (label : Config σ τ → Act ι κ → List ε)
    (s₀ : Config σ τ) : List ε → Config σ τ → Prop
  | nil : Traces P ok label s₀ [] s₀
  | step {l : List ε} {s s' : Config σ τ} {a : Act ι κ} : Traces P ok label s₀ l s → ok s a → P.step s a = some s' →
      Traces P ok label s₀ (l ++ label s a) s'

theorem Traces.reaches {l : List ε} (htrace : P.Traces ok label s₀ l s) : P.Reaches ok s₀ s := by
  induction htrace with
  | nil => exact .refl
  | step _ hok hs ih => exact ih.step hok hs

/-- A property of the labels and the configuration that one step preserves holds along a run. -/
theorem Traces.invariant {l : List ε} (htrace : P.Traces ok label s₀ l s) (inv : List ε → Config σ τ → Prop)
    (hinit : inv [] s₀)
    (hstep : ∀ l s a s', P.Reaches ok s₀ s → inv l s → ok s a → P.step s a = some s' → inv (l ++ label s a) s') :
    inv l s := by
  induction htrace with
  | nil => exact hinit
  | step hprev hok hs ih => exact hstep _ _ _ _ hprev.reaches ih hok hs

theorem Traces.trans {s' : Config σ τ} {l l' : List ε} (h : P.Traces ok label s₀ l s) (h' : P.Traces ok label s l' s') :
    P.Traces ok label s₀ (l ++ l') s' := by
  induction h' with
  | nil => rwa [List.append_nil]
  | step _ hok hs ih =>
      rw [← List.append_assoc]
      exact ih.step hok hs

/-- What `label` says of a schedule's steps. -/
def labels (P : Program σ τ ι κ) (label : Config σ τ → Act ι κ → List ε) (s : Config σ τ) : List (Act ι κ) → List ε
  | [] => []
  | a :: rest => label s a ++ ((P.step s a).elim [] fun s' => labels P label s' rest)

theorem traces_of_run [∀ s a, Decidable (ok s a)] {s' : Config σ τ} {acts : List (Act ι κ)}
    (hrun : P.run ok s acts = some s') : P.Traces ok label s (P.labels label s acts) s' := by
  induction acts generalizing s with
  | nil =>
      cases hrun
      exact .nil
  | cons a rest ih =>
      obtain ⟨mid, hfirst, hrest⟩ := Option.bind_eq_some_iff.mp hrun
      obtain ⟨hok, hstep⟩ := Runs.guarded_eq_some.mp hfirst
      have htrace : P.Traces ok label s ([] ++ label s a) mid := Traces.nil.step hok hstep
      rw [List.nil_append] at htrace
      rw [labels, hstep]
      exact htrace.trans (ih hrest)

end Traces

def Holds (G : σ → Prop) (L : Nat → σ → τ → Prop) (s : Config σ τ) : Prop :=
  G s.mem ∧ ∀ i t, s.threads[i]? = some t → L i s.mem t

/-- One step keeps the parts: `hown` is what the step does for its own thread, `hother` that it does not
disturb another one. Both may use what the configuration before the step says about the step. -/
theorem holds_step {G : σ → Prop} {L : Nat → σ → τ → Prop} {s s' : Config σ τ} {a : Act ι κ}
    (hspawn : ∀ i m r, G m → L i m (P.spawn r))
    (hown : ∀ i t c m' t', a = .run i c → s.threads[i]? = some t → G s.mem → L i s.mem t →
      P.exec i s.mem t c = some (m', t') → G m' ∧ L i m' t')
    (hother : ∀ i j t u c m' t', a = .run i c → i ≠ j → s.threads[i]? = some t → s.threads[j]? = some u →
      G s.mem → L i s.mem t → L j s.mem u → P.exec i s.mem t c = some (m', t') → L j m' u)
    (hinv : Holds G L s) (hstep : P.step s a = some s') : Holds G L s' := by
  obtain ⟨hG, hL⟩ := hinv
  cases a with
  | spawn r =>
      cases hstep
      refine ⟨hG, fun j u hj => ?_⟩
      obtain hold | ⟨-, rfl⟩ := getElem?_spawn hj
      · exact hL j u hold
      · exact hspawn j s.mem r hG
  | run i c =>
      obtain ⟨t, t', ht, hexec, hthreads⟩ := step_run hstep
      have hmine := hown i t c s'.mem t' rfl ht hG (hL i t ht) hexec
      refine ⟨hmine.1, fun j u hj => ?_⟩
      rw [hthreads, getElem?_set_of_some ht] at hj
      split at hj
      · cases hj
        subst j
        exact hmine.2
      · exact hother i j t u c s'.mem t' rfl (Ne.symm ‹_›) ht hj hG (hL i t ht) (hL j u hj) hexec

/-- A property of the memory, one of each thread, and one of each number that no thread has yet. -/
structure Parts (G : σ → Prop) (F : Nat → σ → Prop) (L : Nat → σ → τ → Prop) (s : Config σ τ) : Prop where
  mem : G s.mem
  fresh : ∀ i, s.threads.length ≤ i → F i s.mem
  thread : ∀ (i : Nat) (t : τ), s.threads[i]? = some t → L i s.mem t

/-- The parts hold along a run when a step keeps the memory's and its own thread's part and leaves the others alone. -/
theorem Reaches.parts {G : σ → Prop} {F : Nat → σ → Prop} {L : Nat → σ → τ → Prop} {ok : Config σ τ → Act ι κ → Prop}
    {s₀ s : Config σ τ} (hreach : P.Reaches ok s₀ s) (hinit : Parts G F L s₀) (hspawn : ∀ i m r, F i m → L i m (P.spawn r))
    (hrun : ∀ (s : Config σ τ) (i : Nat) (t : τ) (c : κ) (m' : σ) (t' : τ), Parts G F L s → s.threads[i]? = some t →
      P.exec i s.mem t c = some (m', t') →
      G m' ∧ L i m' t' ∧ ∀ j, j ≠ i → (F j s.mem → F j m') ∧ ∀ u, L j s.mem u → L j m' u) : Parts G F L s := by
  refine hreach.invariant (Parts G F L) hinit fun s a s' hs _ hstep => ?_
  cases a with
  | spawn r =>
      cases hstep
      refine ⟨hs.mem, fun j hj => hs.fresh j ?_, fun j u hj => ?_⟩
      · rw [List.length_append] at hj
        omega
      · obtain hold | ⟨rfl, rfl⟩ := getElem?_spawn hj
        · exact hs.thread j u hold
        · exact hspawn _ _ r (hs.fresh _ (Nat.le_refl _))
  | run i c =>
      obtain ⟨t, t', hi, hexec, hthreads⟩ := step_run hstep
      obtain ⟨hmem, hown, hothers⟩ := hrun s i t c _ t' hs hi hexec
      obtain ⟨hlt, -⟩ := List.getElem?_eq_some_iff.mp hi
      refine ⟨hmem, fun j hj => ?_, fun j u hj => ?_⟩
      · rw [hthreads, List.length_set] at hj
        exact (hothers j (by omega)).1 (hs.fresh j hj)
      · rw [hthreads, getElem?_set_of_some hi] at hj
        split at hj
        next heq =>
          cases hj
          rwa [heq]
        next hne => exact (hothers j hne).2 u (hs.thread j u hj)

end Program

end Interleaving
