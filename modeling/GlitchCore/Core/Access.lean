import GlitchCore.Core.Schedule

/-!
# What an access does

One lemma for each part of the memory, and what the thread that makes an access has to guarantee
for it (`Op.Allowed`): the instances change under `coreMutex` only, an engine comes up when none runs, and
under a generation no finished stop of it has passed. From these two everything else about the accesses
follows, in particular what a thread under `coreMutex` can rely on while the others run.
-/

namespace GlitchCore.Core

variable {i j : Nat} {m : Memory} {e : EngineId} {op : Op}

theorem EngineId.forall_of_others {P : EngineId → Prop} (e : EngineId) (hown : P e) (hfirst : P e.others.1)
    (hsecond : P e.others.2) : ∀ e', P e' := by
  intro e'
  cases e <;> cases e' <;> assumption

namespace Op

theorem apply_session : (op.apply i m).session e =
    match op with
    | .count e' =>
        if e = e' then { m.session e with startsInFlight := (m.session e).startsInFlight + 1 } else m.session e
    | .uncount e' =>
        if e = e' then { m.session e with startsInFlight := (m.session e).startsInFlight - 1 } else m.session e
    | .stopLocked e' | .rollback e' _ => if e = e' then { m.session e with running := false } else m.session e
    | .storeGen e' mark => if e = e' then { m.session e with instanceGen := mark } else m.session e
    | .up e' => if e = e' then { m.session e with running := true, startedBy := i } else m.session e
    | _ => m.session e := by
  cases op with
  | stopLocked e' =>
      cases e' <;> simp only [apply, Memory.stopLocked, Memory.setSession, Function.update_apply] <;>
        split <;> simp_all
  | count e' | uncount e' | storeGen e' | up e' | rollback e' =>
      by_cases he : e = e' <;> simp [apply, Memory.setSession, he]
  | _ => rfl

@[grind =]
theorem apply_running : ((op.apply i m).session e).running =
    match op with
    | .stopLocked e' | .rollback e' _ => (m.session e).running && e ≠ e'
    | .up e' => (m.session e).running || e = e'
    | _ => (m.session e).running := by
  rw [apply_session]
  cases op <;> grind -linarith

@[grind =]
theorem apply_instanceGen : ((op.apply i m).session e).instanceGen =
    match op with
    | .storeGen e' mark => if e = e' then mark else (m.session e).instanceGen
    | _ => (m.session e).instanceGen := by
  rw [apply_session]
  cases op <;> grind -linarith

@[grind =]
theorem apply_startedBy : ((op.apply i m).session e).startedBy =
    match op with
    | .up e' => if e = e' then i else (m.session e).startedBy
    | _ => (m.session e).startedBy := by
  rw [apply_session]
  cases op <;> grind -linarith

@[grind =]
theorem apply_sessionGen : (op.apply i m).sessionGen =
    match op with
    | .bump => m.sessionGen + 1
    | _ => m.sessionGen := by
  cases op with
  | stopLocked e' => cases e' <;> rfl
  | _ => rfl

@[grind =]
theorem apply_coreMutex : (op.apply i m).coreMutex =
    match op with
    | .lock => some i
    | .unlock | .endStop _ _ => none
    | _ => m.coreMutex := by
  cases op with
  | stopLocked e' => cases e' <;> rfl
  | _ => rfl

@[grind =]
theorem apply_stoppedGen : (op.apply i m).stoppedGen e =
    match op with
    | .endStop e' stopGen => if e = e' then max (m.stoppedGen e) stopGen else m.stoppedGen e
    | _ => m.stoppedGen e := by
  cases op with
  | stopLocked e' => cases e' <;> rfl
  | endStop e' stopGen => by_cases he : e = e' <;> simp [apply, he]
  | _ => rfl

@[grind =]
theorem apply_slot (sl : Slot) : (op.apply i m).slot sl =
    match op with
    | .clear sl' => if sl = sl' then none else m.slot sl
    | .fill sl' => if sl = sl' then some i else m.slot sl
    | _ => m.slot sl := by
  cases op with
  | stopLocked e' => cases e' <;> rfl
  | clear sl' | fill sl' => exact Function.update_apply ..
  | _ => rfl

@[grind =]
theorem apply_ipStateJSON : (op.apply i m).ipStateJSON =
    match op with
    | .clear sl | .fill sl => if sl = .ipResolve then none else m.ipStateJSON
    | .storeIP => m.slot .ipResolve
    | _ => m.ipStateJSON := by
  cases op with
  | stopLocked e' => cases e' <;> rfl
  | _ => rfl

@[grind =]
theorem apply_log : (op.apply i m).log =
    match op with
    | .emit ev => ev :: m.log
    | _ => m.log := by
  cases op with
  | stopLocked e' => cases e' <;> rfl
  | _ => rfl

/-- What the thread of an access guarantees. An instance goes down in its own start's rollback or when the
generation has passed it, and only the start of a running instance arms anything. -/
@[grind]
def Allowed (i : Nat) (m : Memory) : Op → Prop
  | .lock => m.coreMutex = none
  | .unlock | .startBridge | .stopBridge => m.coreMutex = some i
  | .fill _ => m.coreMutex = some i ∧ ∃ e, (m.session e).running = true ∧ (m.session e).startedBy = i
  | .stopLocked e =>
      m.coreMutex = some i ∧ ((m.session e).running = true → (m.session e).instanceGen < m.sessionGen)
  | .rollback e _ => m.coreMutex = some i ∧ (m.session e).running = true ∧ (m.session e).startedBy = i
  | .storeGen _ _ => m.coreMutex = some i ∧ ∀ e', (m.session e').running = false
  | .up e =>
      m.coreMutex = some i ∧ (∀ e', (m.session e').running = false) ∧
        (m.session e).instanceGen ≤ m.sessionGen ∧ m.stoppedGen e ≤ (m.session e).instanceGen
  | .endStop e stopGen =>
      m.coreMutex = some i ∧ stopGen ≤ m.sessionGen ∧
        ((m.session e).running = true → stopGen ≤ (m.session e).instanceGen)
  | _ => True

/-- An engine that runs after an access came up in it or ran before, as the same instance. -/
theorem running_of_apply (hop : op.Allowed i m) (hrunning : ((op.apply i m).session e).running = true) :
    ((op.apply i m).session e).instanceGen = (m.session e).instanceGen ∧
      (op = .up e ∧ ((op.apply i m).session e).startedBy = i ∨
        (m.session e).running = true ∧ ((op.apply i m).session e).startedBy = (m.session e).startedBy) := by
  cases op <;> grind -linarith

theorem down_of_apply (hrunning : (m.session e).running = true)
    (hdown : ((op.apply i m).session e).running = false) :
    op = .stopLocked e ∨ ∃ bridge, op = .rollback e bridge := by
  cases op <;> grind -linarith

theorem slot_of_apply {m' : Memory} {sl : Slot} {k : Nat} (hmem : m' = op.apply i m)
    (hslot : m'.slot sl = some k) : op = .fill sl ∧ k = i ∨ m.slot sl = some k ∧ op ≠ .clear sl := by
  subst hmem
  cases op <;> grind -linarith

theorem slot_of_ne {sl : Slot} (hfill : op ≠ .fill sl) (hclear : op ≠ .clear sl) :
    (op.apply i m).slot sl = m.slot sl := by
  cases op <;> grind -linarith

theorem sessionGen_of_ne_bump (hop : op ≠ .bump) : (op.apply i m).sessionGen = m.sessionGen := by
  cases op <;> grind -linarith

theorem sessionGen_le : m.sessionGen ≤ (op.apply i m).sessionGen := by
  cases op <;> grind -linarith

theorem stoppedGen_le : m.stoppedGen e ≤ (op.apply i m).stoppedGen e := by
  cases op <;> grind -linarith

end Op

/-- What a thread under `coreMutex` relies on: the engines stay as they are and nothing is armed. -/
structure Rely (m m' : Memory) : Prop where
  running : ∀ e, (m'.session e).running = (m.session e).running
  instanceGen : ∀ e, (m'.session e).instanceGen = (m.session e).instanceGen
  startedBy : ∀ e, (m'.session e).startedBy = (m.session e).startedBy
  stoppedGen : ∀ e, m'.stoppedGen e = m.stoppedGen e
  coreMutex : m'.coreMutex = m.coreMutex
  slot : ∀ sl, m.slot sl = none → m'.slot sl = none

theorem Op.Allowed.rely (hop : op.Allowed i m) (hij : i ≠ j) (hj : m.coreMutex = some j) :
    Rely m (op.apply i m) := by
  constructor <;> intros <;> cases op <;> grind -linarith

/-! ### The engines -/

structure Engines (m : Memory) : Prop where
  alone : ∀ e e', (m.session e).running = true → (m.session e').running = true → e = e'
  gen : ∀ e, (m.session e).running = true → (m.session e).instanceGen ≤ m.sessionGen
  stopped : ∀ e, (m.session e).running = true → m.stoppedGen e ≤ (m.session e).instanceGen
  stoppedGen : ∀ e, m.stoppedGen e ≤ m.sessionGen

theorem Engines.init : Engines Memory.init := by
  constructor <;> simp [Memory.init]

theorem Engines.apply (hm : Engines m) (hop : op.Allowed i m) : Engines (op.apply i m) := by
  obtain ⟨halone, hgen, hstopped, hstoppedGen⟩ := hm
  constructor <;> intros <;> cases op <;> grind -linarith

end GlitchCore.Core
