import GlitchCore.Base.Interleaving
import GlitchCore.Core.Session

/-!
# The stats loop

`startStats` and `stopStats` are whole transitions under one mutex: a start stops the loop there is before it registers
its own. Stop and start each ask which engines run to decide between the local loop and the service's, and an engine may
come up between the two questions. Then the stop has gone to the service, the start registers a local loop over the one
that was never told to end, and nothing can reach that one any more.
-/

namespace GlitchCore.Core.Stats

open Interleaving

/-! ### The controller -/

/-- A loop's two channels: whether it was told to end, and whether it has. -/
structure Loop where
  closed : Bool
  ended : Bool
  deriving DecidableEq, Repr

/-- The loops there ever were, by number; `statsQuit` and `statsDone` hold the number of the loop whose channels they
are. -/
structure Memory where
  transMu : Option Nat := none
  running : EngineId → Bool := fun _ => false
  statsQuit : Option Nat := none
  statsDone : Option Nat := none
  loops : List Loop := []

/-- The critical section of `stopStatsLocked`. -/
def Memory.closeQuit (m : Memory) : Memory :=
  { m with
    loops := m.statsQuit.elim m.loops fun k => m.loops.modify k fun l => { l with closed := true }
    statsQuit := none
    statsDone := none }

/-- The critical section of `startStats`, and its `go` statement. -/
def Memory.register (m : Memory) : Memory :=
  { m with
    loops := m.loops ++ [⟨false, false⟩]
    statsQuit := some m.loops.length
    statsDone := some m.loops.length }

def Memory.endLoop (m : Memory) (k : Nat) : Memory :=
  { m with loops := m.loops.modify k fun l => { l with ended := true } }

inductive Call where
  | start
  | stop
  deriving DecidableEq, Repr

/-- Where a call stands. A scan goes through the engines in the order of a map, and keeps the ones it has not looked at.
`skipped` remembers that the stop of this call found no local engine and went to the service. -/
inductive Place where
  | lock
  | scanStop (left : List EngineId)
  | close
  | wait (done : Option Nat)
  | scanStart (skipped : Bool) (left : List EngineId)
  | register (skipped : Bool)
  | unlock
  | ended
  deriving DecidableEq, Repr

/-- Beside the calls, engines come up and go down, and a loop that was told to end ends. -/
inductive Thread where
  | call (c : Call) (p : Place)
  | engine (e : EngineId)
  | loop (k : Nat)
  deriving DecidableEq, Repr

inductive Request where
  | call (c : Call)
  | engine (e : EngineId)
  | loop (k : Nat)

/-- What the memory does not decide: the engine a scan looks at next, and where an engine goes. -/
inductive Choice where
  | go
  | look (e : EngineId)
  | set (up : Bool)

inductive Op where
  | stay
  | lock
  | unlock
  | close
  | register
  | engine (e : EngineId) (up : Bool)
  | endLoop (k : Nat)

def Op.apply (i : Nat) (m : Memory) : Op → Memory
  | .stay => m
  | .lock => { m with transMu := some i }
  | .unlock => { m with transMu := none }
  | .close => m.closeQuit
  | .register => m.register
  | .engine e up => { m with running := fun e' => if e' = e then up else m.running e' }
  | .endLoop k => m.endLoop k

section

variable (useServiceIPC : Bool) (registry : List EngineId)

/-- The second question of a start; without the service it is not asked. -/
def startPlace (skipped : Bool) (left : List EngineId) : Place :=
  if useServiceIPC = false then .register skipped else if left = [] then .unlock else .scanStart skipped left

def afterStop (c : Call) (skipped : Bool) : Place :=
  match c with
  | .start => startPlace useServiceIPC skipped registry
  | .stop => .unlock

/-- The question of `stopStatsLocked`. -/
def stopPlace (c : Call) (left : List EngineId) : Place :=
  if useServiceIPC = false then .close
  else if left = [] then afterStop useServiceIPC registry c true
  else .scanStop left

def planCall (m : Memory) (c : Call) : Place → Choice → Option (Op × Place)
  | .lock, .go => if m.transMu = none then some (.lock, stopPlace useServiceIPC registry c registry) else none
  | .scanStop left, .look e =>
      if e ∈ left then
        some (.stay, if m.running e then .close else stopPlace useServiceIPC registry c (left.erase e))
      else none
  | .close, .go => some (.close, .wait m.statsDone)
  | .wait done, .go =>
      if ∀ k ∈ done, ∀ l ∈ m.loops[k]?, l.ended = true then some (.stay, afterStop useServiceIPC registry c false)
      else none
  | .scanStart skipped left, .look e =>
      if e ∈ left then
        some (.stay, if m.running e then .register skipped else startPlace useServiceIPC skipped (left.erase e))
      else none
  | .register _, .go => some (.register, .unlock)
  | .unlock, .go => some (.unlock, .ended)
  | _, _ => none

def plan (m : Memory) : Thread → Choice → Option (Op × Thread)
  | .call c p, choice => (planCall useServiceIPC registry m c p choice).map fun next => (next.1, .call c next.2)
  | .engine e, .set up => some (.engine e up, .engine e)
  | .loop k, .go =>
      if ∃ l ∈ m.loops[k]?, l.closed = true ∧ l.ended = false then some (.endLoop k, .loop k) else none
  | _, _ => none

def program : Program Memory Thread Request Choice where
  spawn
    | .call c => .call c .lock
    | .engine e => .engine e
    | .loop k => .loop k
  exec i m t choice := (plan useServiceIPC registry m t choice).map fun next => (next.1.apply i m, next.2)

end

abbrev State := Config Memory Thread

abbrev Action := Act Request Choice

/-- No loop and no call yet. -/
def initial (running : EngineId → Bool) : State := ⟨{ running }, []⟩

/-! ### One loop, and the starts that overlap -/

/-- The loop was started and its quit channel is open. -/
def Memory.Open (m : Memory) (k : Nat) : Prop := ∃ l, m.loops[k]? = some l ∧ l.closed = false

/-- One loop at most, and it is the one `statsQuit` can end. -/
def Memory.OneLoop (m : Memory) : Prop := ∀ k, m.Open k → m.statsQuit = some k

/-- A start registers its loop although its own stop went to the service, with a loop still in `statsQuit`: the number
of that loop. -/
def Thread.overlap (m : Memory) : Thread → Choice → List Nat
  | .call _ (.register true), .go => m.statsQuit.toList
  | _, _ => []

def overlaps (s : State) : Action → List Nat
  | .spawn _ => []
  | .run i choice => s.threads[i]?.elim [] fun t => t.overlap s.mem choice

/-! ### The operations -/

section Op

variable {m : Memory} {i k : Nat} {op : Op}

theorem Op.apply_transMu (hlock : op ≠ .lock) (hunlock : op ≠ .unlock) : (op.apply i m).transMu = m.transMu := by
  cases op with
  | lock => exact absurd rfl hlock
  | unlock => exact absurd rfl hunlock
  | _ => rfl

theorem Op.apply_statsQuit (hclose : op ≠ .close) (hregister : op ≠ .register) :
    (op.apply i m).statsQuit = m.statsQuit := by
  cases op with
  | close => exact absurd rfl hclose
  | register => exact absurd rfl hregister
  | _ => rfl

theorem open_closeQuit : m.closeQuit.Open k ↔ m.Open k ∧ m.statsQuit ≠ some k := by
  unfold Memory.Open Memory.closeQuit
  cases m.statsQuit with
  | none => simp
  | some j =>
      dsimp only [Option.elim]
      rw [List.getElem?_modify]
      by_cases hj : j = k
      · subst hj
        simp
      · simp [hj]

theorem open_register : m.register.Open k ↔ m.Open k ∨ k = m.loops.length := by
  unfold Memory.Open Memory.register
  dsimp only
  constructor
  · rintro ⟨l, hl, hopen⟩
    obtain hold | ⟨hk, -⟩ := Program.getElem?_spawn hl
    · exact .inl ⟨l, hold, hopen⟩
    · exact .inr hk
  · rintro (⟨l, hl, hopen⟩ | rfl)
    · exact ⟨l, (List.getElem?_append_left (List.getElem?_eq_some_iff.mp hl).1).trans hl, hopen⟩
    · exact ⟨⟨false, false⟩, List.getElem?_concat_length, rfl⟩

theorem open_endLoop {j : Nat} : (m.endLoop j).Open k ↔ m.Open k := by
  unfold Memory.Open Memory.endLoop
  dsimp only
  rw [List.getElem?_modify]
  cases m.loops[k]? with
  | none => simp
  | some l => by_cases hj : j = k <;> simp [hj]

theorem Op.open_apply (hclose : op ≠ .close) (hregister : op ≠ .register) : (op.apply i m).Open k ↔ m.Open k := by
  cases op with
  | close => exact absurd rfl hclose
  | register => exact absurd rfl hregister
  | endLoop j => exact open_endLoop
  | _ => exact Iff.rfl

theorem Memory.Open.lt (h : m.Open k) : k < m.loops.length := by
  obtain ⟨l, hl, -⟩ := h
  exact (List.getElem?_eq_some_iff.mp hl).1

end Op

/-! ### A call under the mutex -/

def Place.holds : Place → Bool
  | .lock | .ended => false
  | _ => true

/-- The call's own stop has taken the loop down. -/
def Place.quiet : Place → Bool
  | .wait _ | .scanStart false _ | .register false => true
  | _ => false

section Plan

variable {useServiceIPC : Bool} {registry : List EngineId} {m : Memory} {c : Call} {p p' : Place} {choice : Choice}
  {op : Op}

theorem startPlace_true (left : List EngineId) : (startPlace useServiceIPC true left).quiet = false := by
  unfold startPlace
  split
  · rfl
  · split <;> rfl

theorem afterStop_true (c : Call) : (afterStop useServiceIPC registry c true).quiet = false := by
  cases c with
  | start => exact startPlace_true registry
  | stop => rfl

theorem stopPlace_quiet (c : Call) (left : List EngineId) :
    (stopPlace useServiceIPC registry c left).quiet = false := by
  unfold stopPlace
  split
  · rfl
  · split
    · exact afterStop_true c
    · rfl

/-- What one step of a call can do. -/
theorem planCall_cases (h : planCall useServiceIPC registry m c p choice = some (op, p')) :
    (op = .lock ∧ m.transMu = none ∧ p = .lock ∧ p'.quiet = false) ∨
      (op = .stay ∧ p.holds = true ∧ (p'.quiet = true → p.quiet = true) ∧ ∀ skipped, p ≠ .register skipped) ∨
      (op = .close ∧ p = .close) ∨
      (op = .register ∧ choice = .go ∧ (∃ skipped, p = .register skipped) ∧ p' = .unlock) ∨
      (op = .unlock ∧ p = .unlock ∧ p' = .ended) := by
  unfold planCall at h
  split at h
  · split at h
    · obtain ⟨rfl, rfl⟩ := Prod.mk.inj (Option.some.inj h)
      exact .inl ⟨rfl, ‹_›, rfl, stopPlace_quiet ..⟩
    · cases h
  · split at h
    · obtain ⟨rfl, rfl⟩ := Prod.mk.inj (Option.some.inj h)
      refine .inr (.inl ⟨rfl, rfl, fun hquiet => ?_, nofun⟩)
      split at hquiet
      · cases hquiet
      · rw [stopPlace_quiet] at hquiet
        cases hquiet
    · cases h
  · obtain ⟨rfl, rfl⟩ := Prod.mk.inj (Option.some.inj h)
    exact .inr (.inr (.inl ⟨rfl, rfl⟩))
  · split at h
    · obtain ⟨rfl, rfl⟩ := Prod.mk.inj (Option.some.inj h)
      exact .inr (.inl ⟨rfl, rfl, fun _ => rfl, nofun⟩)
    · cases h
  · rename_i skipped left e
    split at h
    · obtain ⟨rfl, rfl⟩ := Prod.mk.inj (Option.some.inj h)
      refine .inr (.inl ⟨rfl, rfl, fun hquiet => ?_, nofun⟩)
      cases skipped with
      | false => rfl
      | true =>
          split at hquiet
          · cases hquiet
          · rw [startPlace_true] at hquiet
            cases hquiet
    · cases h
  · obtain ⟨rfl, rfl⟩ := Prod.mk.inj (Option.some.inj h)
    exact .inr (.inr (.inr (.inl ⟨rfl, rfl, ⟨_, rfl⟩, rfl⟩)))
  · obtain ⟨rfl, rfl⟩ := Prod.mk.inj (Option.some.inj h)
    exact .inr (.inr (.inr (.inr ⟨rfl, rfl, rfl⟩)))
  · cases h

/-- A step is one of a call, or leaves the mutex and `statsQuit` alone. -/
theorem plan_cases {t t' : Thread} (h : plan useServiceIPC registry m t choice = some (op, t')) :
    (∃ c p p', t = .call c p ∧ t' = .call c p' ∧ planCall useServiceIPC registry m c p choice = some (op, p')) ∨
      (t' = t ∧ (∀ c p, t ≠ .call c p) ∧ op ≠ .lock ∧ op ≠ .unlock ∧ op ≠ .close ∧ op ≠ .register) := by
  unfold plan at h
  split at h
  · obtain ⟨⟨op', p'⟩, hcall, heq⟩ := Option.map_eq_some_iff.mp h
    obtain ⟨rfl, rfl⟩ := Prod.mk.inj heq
    exact .inl ⟨_, _, p', rfl, rfl, hcall⟩
  · obtain ⟨rfl, rfl⟩ := Prod.mk.inj (Option.some.inj h)
    exact .inr ⟨rfl, nofun, nofun, nofun, nofun, nofun⟩
  · split at h
    · obtain ⟨rfl, rfl⟩ := Prod.mk.inj (Option.some.inj h)
      exact .inr ⟨rfl, nofun, nofun, nofun, nofun, nofun⟩
    · cases h
  · cases h

end Plan

/-! ### The invariant -/

/-- A call that is past its lock has the mutex, and one whose stop was local finds no loop. -/
def Thread.Fits (i : Nat) (m : Memory) : Thread → Prop
  | .call _ p => (p.holds = true → m.transMu = some i) ∧ (p.quiet = true → m.statsQuit = none)
  | _ => True

/-- What `statsQuit` holds is open, so no channel is closed twice. -/
def Memory.QuitOpen (m : Memory) : Prop := ∀ k, m.statsQuit = some k → m.Open k

theorem Place.holds_of_quiet {p : Place} (h : p.quiet = true) : p.holds = true := by
  cases p with
  | lock | ended => cases h
  | _ => rfl

section Step

variable {useServiceIPC : Bool} {registry : List EngineId} {m : Memory} {t t' u : Thread} {choice : Choice} {op : Op}
  {i j : Nat}

theorem quitOpen_apply (hquit : m.QuitOpen) : (op.apply i m).QuitOpen := by
  intro k hk
  by_cases hclose : op = .close
  · subst hclose
    cases hk
  by_cases hregister : op = .register
  · subst hregister
    obtain rfl := Option.some.inj hk
    exact open_register.mpr (.inr rfl)
  rw [Op.apply_statsQuit hclose hregister] at hk
  exact (Op.open_apply hclose hregister).mpr (hquit k hk)

theorem fits_own (hfits : t.Fits i m) (h : plan useServiceIPC registry m t choice = some (op, t')) :
    t'.Fits i (op.apply i m) := by
  obtain ⟨c, p, p', rfl, rfl, hcall⟩ | ⟨rfl, hother, -⟩ := plan_cases h
  · obtain ⟨rfl, -, -, hquiet⟩ | ⟨rfl, hholds, hquiet, -⟩ | ⟨rfl, rfl⟩ | ⟨rfl, -, ⟨skipped, rfl⟩, rfl⟩ | ⟨rfl, rfl, rfl⟩ :=
      planCall_cases hcall
    · exact ⟨fun _ => rfl, fun h => absurd (hquiet.symm.trans h) nofun⟩
    · exact ⟨fun _ => hfits.1 hholds, fun h => hfits.2 (hquiet h)⟩
    · exact ⟨fun _ => hfits.1 rfl, fun _ => rfl⟩
    · exact ⟨fun _ => hfits.1 rfl, nofun⟩
    · exact ⟨nofun, nofun⟩
  · cases t' with
    | call c p => exact absurd rfl (hother c p)
    | _ => trivial

/-- Another call under the mutex would hold it too. -/
theorem fits_other (hne : i ≠ j) (hfits : t.Fits i m) (hu : u.Fits j m)
    (h : plan useServiceIPC registry m t choice = some (op, t')) : u.Fits j (op.apply i m) := by
  cases u with
  | engine | loop => trivial
  | call c₂ q =>
      have hfree (hmine : m.transMu = some i) : q.holds = false ∧ q.quiet = false := by
        have hholds : ¬ q.holds = true := fun hq =>
          hne (Option.some.inj (hmine.symm.trans (hu.1 hq)))
        exact ⟨Bool.eq_false_iff.mpr hholds, Bool.eq_false_iff.mpr fun hq => hholds (Place.holds_of_quiet hq)⟩
      have hidle (hq : q.holds = false ∧ q.quiet = false) : Thread.Fits j (op.apply i m) (.call c₂ q) :=
        ⟨fun hh => absurd (hq.1.symm.trans hh) nofun, fun hh => absurd (hq.2.symm.trans hh) nofun⟩
      obtain ⟨c, p, p', rfl, rfl, hcall⟩ | ⟨rfl, -, hlock, hunlock, hclose, hregister⟩ := plan_cases h
      · obtain ⟨rfl, hnone, -⟩ | ⟨rfl, -⟩ | ⟨rfl, rfl⟩ | ⟨rfl, -, ⟨skipped, rfl⟩, -⟩ | ⟨rfl, rfl, -⟩ :=
          planCall_cases hcall
        · have hholds : ¬ q.holds = true := fun hq => absurd (hnone.symm.trans (hu.1 hq)) nofun
          exact hidle ⟨Bool.eq_false_iff.mpr hholds,
            Bool.eq_false_iff.mpr fun hq => hholds (Place.holds_of_quiet hq)⟩
        · exact hu
        · exact hidle (hfree (hfits.1 rfl))
        · exact hidle (hfree (hfits.1 rfl))
        · exact hidle (hfree (hfits.1 rfl))
      · refine ⟨fun hq => ?_, fun hq => ?_⟩
        · rw [Op.apply_transMu hlock hunlock]
          exact hu.1 hq
        · rw [Op.apply_statsQuit hclose hregister]
          exact hu.2 hq

theorem oneLoop_closeQuit : m.closeQuit.OneLoop ↔ m.OneLoop := by
  constructor
  · intro h k hk
    by_contra hne
    cases h k (open_closeQuit.mpr ⟨hk, hne⟩)
  · intro h k hk
    obtain ⟨hopen, hne⟩ := open_closeQuit.mp hk
    exact absurd (h k hopen) hne

/-- A registration keeps to one loop exactly if there was none. -/
theorem oneLoop_register (hquit : m.QuitOpen) : m.register.OneLoop ↔ m.OneLoop ∧ m.statsQuit = none := by
  constructor
  · intro h
    have hnone : ∀ k, ¬ m.Open k := by
      intro k hk
      have hnew : some m.loops.length = some k := h k (open_register.mpr (.inl hk))
      exact absurd hk.lt (by rw [Option.some.inj hnew]; exact Nat.lt_irrefl k)
    refine ⟨fun k hk => absurd hk (hnone k), ?_⟩
    cases hstored : m.statsQuit with
    | none => rfl
    | some k => exact absurd (hquit k hstored) (hnone k)
  · rintro ⟨hone, hnone⟩ k hk
    obtain hold | rfl := open_register.mp hk
    · rw [hone k hold] at hnone
      cases hnone
    · rfl

theorem overlap_eq_nil {c : Call} {p : Place} (h : ∀ skipped, p ≠ .register skipped) :
    Thread.overlap m (.call c p) choice = [] := by
  cases p with
  | register skipped => exact absurd rfl (h skipped)
  | _ => rfl

/-- One step keeps to one loop exactly if it registers none over another. -/
theorem oneLoop_apply (hquit : m.QuitOpen) (hfits : t.Fits i m)
    (h : plan useServiceIPC registry m t choice = some (op, t')) :
    (op.apply i m).OneLoop ↔ m.OneLoop ∧ t.overlap m choice = [] := by
  have hkeep (hclose : op ≠ .close) (hregister : op ≠ .register) (hnil : t.overlap m choice = []) :
      (op.apply i m).OneLoop ↔ m.OneLoop ∧ t.overlap m choice = [] := by
    have hsame : (op.apply i m).OneLoop ↔ m.OneLoop := by
      unfold Memory.OneLoop
      simp only [Op.open_apply hclose hregister, Op.apply_statsQuit hclose hregister]
    rw [hsame, and_iff_left hnil]
  obtain ⟨c, p, p', rfl, rfl, hcall⟩ | ⟨rfl, hother, -, -, hclose, hregister⟩ := plan_cases h
  · obtain ⟨rfl, -, rfl, -⟩ | ⟨rfl, -, -, hp⟩ | ⟨rfl, rfl⟩ | ⟨rfl, rfl, ⟨skipped, rfl⟩, -⟩ | ⟨rfl, rfl, -⟩ :=
      planCall_cases hcall
    · exact hkeep nofun nofun (overlap_eq_nil nofun)
    · exact hkeep nofun nofun (overlap_eq_nil hp)
    · exact oneLoop_closeQuit.trans (and_iff_left (overlap_eq_nil (p := .close) nofun)).symm
    · cases skipped with
      | false =>
          -- its own stop has taken the loop down
          have hnone := hfits.2 rfl
          exact (oneLoop_register hquit).trans (and_congr_right fun _ => iff_of_true hnone rfl)
      | true =>
          refine (oneLoop_register hquit).trans (and_congr_right fun _ => ?_)
          change _ ↔ m.statsQuit.toList = []
          rw [Option.toList_eq_nil_iff]
    · exact hkeep nofun nofun (overlap_eq_nil nofun)
  · refine hkeep hclose hregister ?_
    cases t' with
    | call c p => exact absurd rfl (hother c p)
    | _ => rfl

end Step

section Run

variable {useServiceIPC : Bool} {registry : List EngineId} {running : EngineId → Bool} {l : List Nat} {s : State}

theorem holds_of_reaches (h : (program useServiceIPC registry).Reaches (fun _ _ => True) (initial running) s) :
    Program.Holds Memory.QuitOpen Thread.Fits s := by
  refine h.invariant _ ⟨nofun, nofun⟩ fun s a s' hs _ hstep => Program.holds_step ?_ ?_ ?_ hs hstep
  · intro i m r _
    cases r with
    | call c => exact ⟨nofun, nofun⟩
    | _ => trivial
  · intro i t c m' t' _ _ hquit hfits hexec
    obtain ⟨⟨op, t''⟩, hplan, heq⟩ := Option.map_eq_some_iff.mp hexec
    obtain ⟨rfl, rfl⟩ := Prod.mk.inj heq
    exact ⟨quitOpen_apply hquit, fits_own hfits hplan⟩
  · intro i j t u c m' t' _ hne _ _ _ hfits hu hexec
    obtain ⟨⟨op, t''⟩, hplan, heq⟩ := Option.map_eq_some_iff.mp hexec
    obtain ⟨rfl, rfl⟩ := Prod.mk.inj heq
    exact fits_other hne hfits hu hplan

end Run

/-! ### Without the service -/

/-- The call's own stop went to the service. -/
def Place.skipped : Place → Bool
  | .scanStart true _ | .register true => true
  | _ => false

def Thread.Local : Thread → Prop
  | .call _ p => p.skipped = false
  | _ => True

theorem planCall_local {registry : List EngineId} {m : Memory} {c : Call} {p p' : Place} {choice : Choice} {op : Op}
    (h : planCall false registry m c p choice = some (op, p')) (hp : p.skipped = false) : p'.skipped = false := by
  have hafter : (afterStop false registry c false).skipped = false := by cases c <;> rfl
  unfold planCall at h
  split at h
  · split at h
    · obtain ⟨-, rfl⟩ := Prod.mk.inj (Option.some.inj h)
      rfl
    · cases h
  · split at h
    · obtain ⟨-, rfl⟩ := Prod.mk.inj (Option.some.inj h)
      split <;> rfl
    · cases h
  · obtain ⟨-, rfl⟩ := Prod.mk.inj (Option.some.inj h)
    rfl
  · split at h
    · obtain ⟨-, rfl⟩ := Prod.mk.inj (Option.some.inj h)
      exact hafter
    · cases h
  · rename_i skipped left e
    split at h
    · obtain ⟨-, rfl⟩ := Prod.mk.inj (Option.some.inj h)
      cases skipped with
      | false => split <;> rfl
      | true => cases hp
    · cases h
  · obtain ⟨-, rfl⟩ := Prod.mk.inj (Option.some.inj h)
    rfl
  · obtain ⟨-, rfl⟩ := Prod.mk.inj (Option.some.inj h)
    rfl
  · cases h

theorem local_of_reaches {registry : List EngineId} {running : EngineId → Bool} {s : State}
    (h : (program false registry).Reaches (fun _ _ => True) (initial running) s) :
    Program.Holds (fun _ => True) (fun _ _ t => t.Local) s := by
  refine h.invariant _ ⟨trivial, nofun⟩ fun s a s' hs _ hstep => Program.holds_step ?_ ?_ ?_ hs hstep
  · intro i m r _
    cases r with
    | call c => exact rfl
    | _ => trivial
  · intro i t choice m' t' _ _ _ hlocal hexec
    obtain ⟨⟨op, t''⟩, hplan, heq⟩ := Option.map_eq_some_iff.mp hexec
    obtain ⟨-, rfl⟩ := Prod.mk.inj heq
    refine ⟨trivial, ?_⟩
    obtain ⟨c, p, p', rfl, rfl, hcall⟩ | ⟨rfl, -⟩ := plan_cases hplan
    · exact planCall_local hcall hlocal
    · exact hlocal
  · intro i j t u choice m' t' _ _ _ _ _ _ hu _
    exact hu

/-- A process without the service has one loop at most, always. -/
theorem oneLoop_local {registry : List EngineId} {running : EngineId → Bool} {s : State}
    (h : (program false registry).Reaches (fun _ _ => True) (initial running) s) : s.mem.OneLoop := by
  refine (h.invariant (fun s => (program false registry).Reaches (fun _ _ => True) (initial running) s ∧ s.mem.OneLoop)
    ⟨.refl, ?_⟩ ?_).2
  · rintro k ⟨l, hl, -⟩
    cases hl
  · rintro s a s' ⟨hreach, hone⟩ hok hstep
    refine ⟨hreach.step hok hstep, ?_⟩
    obtain ⟨hquit, hfits⟩ := holds_of_reaches hreach
    cases a with
    | spawn r =>
        cases hstep
        exact hone
    | run i choice =>
        obtain ⟨t, t', ht, hexec, -⟩ := Program.step_run hstep
        obtain ⟨⟨op, t''⟩, hplan, heq⟩ := Option.map_eq_some_iff.mp hexec
        obtain ⟨hmem, rfl⟩ := Prod.mk.inj heq
        rw [← hmem]
        refine (oneLoop_apply hquit (hfits i t ht) hplan).mpr ⟨hone, ?_⟩
        have hlocal := (local_of_reaches hreach).2 i t ht
        unfold Thread.overlap
        split
        · cases hlocal
        · rfl

/-- The second start ends the first one's loop before it registers its own. -/
def secondStart : List Action :=
  [.spawn (.call .start), .run 0 .go, .run 0 .go, .run 0 .go, .run 0 .go, .run 0 .go, .spawn (.call .start), .spawn (.loop 0),
    .run 1 .go, .run 1 .go, .run 2 .go, .run 1 .go, .run 1 .go]

theorem secondStart_oneLoop : ∃ s, (program false []).Reaches (fun _ _ => True) (initial fun _ => true) s ∧
    s.mem.loops = [⟨true, true⟩, ⟨false, false⟩] ∧ s.mem.OneLoop := by
  obtain ⟨s, hs, hloops⟩ : ∃ s, (program false []).run (fun _ _ => True) (initial fun _ => true) secondStart = some s ∧
    s.mem.loops = [⟨true, true⟩, ⟨false, false⟩] := ⟨_, rfl, rfl⟩
  exact ⟨s, Program.reaches_of_run hs, hloops, oneLoop_local (Program.reaches_of_run hs)⟩

/-! ### An engine that comes up in between -/

/-- At every point of every run, with or without the service: there is one open loop at most and it is the one in
`statsQuit`, exactly if no start so far has registered its loop over another after its own stop went to the service. -/
theorem oneLoop_iff (useServiceIPC : Bool) (registry : List EngineId) (running : EngineId → Bool) (orphans : List Nat)
    (s : State)
    (h : (program useServiceIPC registry).Traces (fun _ _ => True) overlaps (initial running) orphans s) :
    s.mem.OneLoop ↔ orphans = [] := by
  refine h.invariant (fun l s => s.mem.OneLoop ↔ l = []) (iff_of_true ?_ rfl) ?_
  · rintro k ⟨l, hl, -⟩
    cases hl
  · intro l s a s' hreach hs _ hstep
    obtain ⟨hquit, hfits⟩ := holds_of_reaches hreach
    cases a with
    | spawn r =>
        cases hstep
        rw [hs, overlaps, List.append_nil]
    | run i choice =>
        obtain ⟨t, t', ht, hexec, -⟩ := Program.step_run hstep
        obtain ⟨⟨op, t''⟩, hplan, heq⟩ := Option.map_eq_some_iff.mp hexec
        obtain ⟨hmem, rfl⟩ := Prod.mk.inj heq
        rw [← hmem, oneLoop_apply hquit (hfits i t ht) hplan, hs, overlaps, ht, List.append_eq_nil_iff]
        rfl

/-- A start with an engine up: it finds no loop, registers its own and lets the mutex go. -/
def oneStart : List Action :=
  [.spawn (.call .start), .run 0 .go, .run 0 (.look .xray), .run 0 .go, .run 0 .go, .run 0 (.look .xray), .run 0 .go,
    .run 0 .go]

theorem oneLoop_iff_oneStart : ∃ s, (program true [.xray]).run (fun _ _ => True) (initial fun _ => true) oneStart =
    some s ∧ s.mem.transMu = none ∧ s.mem.loops = [⟨false, false⟩] ∧ (s.mem.OneLoop ↔ ([] : List Nat) = []) := by
  obtain ⟨s, hs, hfree, hloops⟩ : ∃ s, (program true [.xray]).run (fun _ _ => True) (initial fun _ => true) oneStart =
    some s ∧ s.mem.transMu = none ∧ s.mem.loops = [⟨false, false⟩] := ⟨_, rfl, rfl, rfl⟩
  have hnone : (program true [.xray]).labels overlaps (initial fun _ => true) oneStart = [] := rfl
  have htrace : (program true [.xray]).Traces (fun _ _ => True) overlaps (initial fun _ => true)
      ((program true [.xray]).labels overlaps (initial fun _ => true) oneStart) s := Program.traces_of_run hs
  rw [hnone] at htrace
  exact ⟨s, hs, hfree, hloops, oneLoop_iff true [.xray] (fun _ => true) [] s htrace⟩

/-- The engine is down when the next start stops the loop and up again when it registers its own. -/
def upBetween : List Action :=
  oneStart ++
    [.spawn (.engine .xray), .spawn (.call .start), .run 1 (.set false), .run 2 .go, .run 2 (.look .xray),
      .run 1 (.set true), .run 2 (.look .xray), .run 2 .go, .run 2 .go]

/-- The mutex is free, two loops run and only the second can be ended. -/
theorem two_loops : ∃ s, (program true [.xray]).Reaches (fun _ _ => True) (initial fun _ => true) s ∧
    s.mem.transMu = none ∧ s.mem.loops = [⟨false, false⟩, ⟨false, false⟩] ∧ s.mem.statsQuit = some 1 ∧
    ¬ s.mem.OneLoop := by
  obtain ⟨s, hs, hfree, hloops, hquit⟩ : ∃ s, (program true [.xray]).run (fun _ _ => True) (initial fun _ => true)
    upBetween = some s ∧ s.mem.transMu = none ∧ s.mem.loops = [⟨false, false⟩, ⟨false, false⟩] ∧
    s.mem.statsQuit = some 1 := ⟨_, rfl, rfl, rfl, rfl⟩
  refine ⟨s, Program.reaches_of_run hs, hfree, hloops, hquit, fun hone => ?_⟩
  have hfirst := hone 0 ⟨⟨false, false⟩, by rw [hloops]; rfl, rfl⟩
  rw [hquit] at hfirst
  cases hfirst

end GlitchCore.Core.Stats
