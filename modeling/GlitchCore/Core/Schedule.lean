import GlitchCore.Core.Session

/-!
# Schedules

The controller as a program of threads: a request spawns a thread, and a schedule runs the threads' steps in
any order. A step is taken apart once (`StepOf`), into the access and the thread's next place.
-/

namespace GlitchCore.Core

open Interleaving

/-- `ipWorker` stores one result of the external-IP worker. -/
inductive Thread where
  | start (s : Start)
  | stop (s : Stop)
  | ipWorker (stored : Bool)
  deriving DecidableEq, Repr

inductive Request where
  | start (e : EngineId) (opts : StartOpts)
  | stop (e : EngineId)
  | ipResult
  deriving DecidableEq, Repr

def Thread.plan (m : Memory) (c : Choice) : Thread → Option (Op × Thread)
  | .start s => (s.plan m c).map fun out => (out.1, .start out.2)
  | .stop s => (s.plan m).map fun out => (out.1, .stop out.2)
  | .ipWorker false => some (.storeIP, .ipWorker true)
  | .ipWorker true => none

def Request.thread : Request → Thread
  | .start e opts => .start ⟨e, opts, 0, .conflict⟩
  | .stop e => .stop ⟨e, 0, .checkRunning⟩
  | .ipResult => .ipWorker false

def controller : Program Memory Thread Request Choice where
  spawn := Request.thread
  exec i m t c := (t.plan m c).map fun out => (out.1.apply i m, out.2)

abbrev State := Config Memory Thread

abbrev Action := Act Request Choice

def State.init : State := ⟨Memory.init, []⟩

/-- Every interleaving of every set of requests. -/
def Reachable (s : State) : Prop := controller.Reaches (fun _ _ => True) State.init s

def trace (acts : List Action) : Option State := controller.run (fun _ _ => True) State.init acts

/-- Thread `i` goes on for `n` steps, every call succeeding. -/
def proceed (i n : Nat) : List Action := List.replicate n (.run i .ok)

theorem reachable_of_trace {acts : List Action} {s : State} (htrace : trace acts = some s) : Reachable s :=
  Program.reaches_of_run htrace

/-- What a schedule ends in is read off by evaluating it. -/
theorem of_run {α : Type*} {run : Option State} {s : State} (f : State → α) {a : α} (hrun : run = some s)
    (hf : run.map f = some a) : f s = a := by
  rw [hrun] at hf
  exact Option.some.inj hf

def Thread.ended : Thread → Bool
  | .start s => s.pc == .done
  | .stop s => s.pc == .done
  | .ipWorker stored => stored

/-- No start, stop or external-IP goroutine is left. -/
def Quiet (s : State) : Prop := ∀ t ∈ s.threads, t.ended = true

instance (s : State) : Decidable (Quiet s) := inferInstanceAs (Decidable (∀ t ∈ s.threads, t.ended = true))

theorem controller_exec {i : Nat} {m m' : Memory} {t t' : Thread} {c : Choice}
    (hexec : controller.exec i m t c = some (m', t')) :
    ∃ op, t.plan m c = some (op, t') ∧ m' = op.apply i m := by
  obtain ⟨⟨op, u⟩, hplan, heq⟩ := Option.map_eq_some_iff.mp hexec
  cases heq
  exact ⟨op, hplan, rfl⟩

/-- A step of thread `i`, taken apart. -/
structure StepOf (s s' : State) (i : Nat) (c : Choice) (t t' : Thread) (op : Op) : Prop where
  thread : s.threads[i]? = some t
  plan : t.plan s.mem c = some (op, t')
  mem : s'.mem = op.apply i s.mem
  threads : s'.threads = s.threads.set i t'

theorem stepOf {s s' : State} {i : Nat} {c : Choice} (hstep : controller.step s (.run i c) = some s') :
    ∃ t t' op, StepOf s s' i c t t' op := by
  obtain ⟨t, t', ht, hexec, hthreads⟩ := Program.step_run hstep
  obtain ⟨op, hplan, hmem⟩ := controller_exec hexec
  exact ⟨t, t', op, ht, hplan, hmem, hthreads⟩

namespace StepOf

variable {s s' : State} {i : Nat} {c : Choice} {t t' : Thread} {op : Op}

theorem keeps (h : StepOf s s' i c t t' op) {Q : Thread → Prop} (hex : ∃ u ∈ s.threads, Q u) :
    Q t ∨ ∃ u ∈ s'.threads, Q u := by
  rw [h.threads]
  exact Program.exists_mem_set h.thread t' hex

theorem mem_threads (h : StepOf s s' i c t t' op) : t' ∈ s'.threads := by
  rw [h.threads]
  exact Program.mem_set_self h.thread t'

theorem getElem? (h : StepOf s s' i c t t' op) (k : Nat) :
    s'.threads[k]? = if k = i then some t' else s.threads[k]? := by
  rw [h.threads]
  exact Program.getElem?_set_of_some h.thread t' k

theorem getElem?_self (h : StepOf s s' i c t t' op) : s'.threads[i]? = some t' := by
  rw [h.getElem?, if_pos rfl]

theorem mem_cases (h : StepOf s s' i c t t' op) {u : Thread} (hu : u ∈ s'.threads) : u ∈ s.threads ∨ u = t' := by
  rw [h.threads] at hu
  exact List.mem_or_eq_of_mem_set hu

end StepOf

end GlitchCore.Core
