import GlitchCore.Core.Access

/-!
# One engine at a time, and stops against starts

A start captures its mark when it is asked for, and a stop moves the generation when it is asked for; which
of the two gets `coreMutex` first is open. What a body finds under the mutex decides: a start that passes
the generation check has a mark no finished stop body of its engine has passed, a stop that finds an
instance as new as itself leaves it. `Thread.Fact` is what a thread knows at each place, and it is kept by
the thread's own steps and by everybody else's.
-/

namespace GlitchCore.Core

open Interleaving

variable {i j : Nat} {m m' : Memory} {e : EngineId} {op : Op}

/-! ### What a thread knows -/

@[grind]
def Start.holdsMutex (s : Start) : Bool :=
  match s.pc with
  | .body _ | .checkStale | .endLoops _ | .releaseStale | .releaseFresh => true
  | _ => false

@[grind]
def Stop.holdsMutex (s : Stop) : Bool :=
  match s.pc with
  | .supersedes | .teardown | .release _ => true
  | _ => false

@[grind]
def Thread.holdsMutex : Thread → Bool
  | .start s => s.holdsMutex
  | .stop s => s.holdsMutex
  | .ipWorker _ => false

/-- The start's mark was the session's generation under the mutex. -/
@[grind]
structure Checked (m : Memory) (s : Start) : Prop where
  stopped : m.stoppedGen s.engine ≤ s.mark
  older : (m.session s.engine).running = true → (m.session s.engine).instanceGen ≤ s.mark

/-- An instance of an earlier generation runs. -/
@[grind]
structure Replaces (m : Memory) (s : Start) : Prop where
  stopped : m.stoppedGen s.engine ≤ s.mark
  running : (m.session s.engine).running = true
  older : (m.session s.engine).instanceGen < s.mark

/-- The start's own instance runs. -/
@[grind]
structure Up (i : Nat) (m : Memory) (s : Start) : Prop where
  running : (m.session s.engine).running = true
  gen : (m.session s.engine).instanceGen = s.mark
  mine : (m.session s.engine).startedBy = i

@[grind]
def BodyPc.Fact (i : Nat) (m : Memory) (s : Start) : BodyPc → Prop
  | .checkGen | .release _ => True
  | .checkRunning => Checked m s
  | .endLoops sl => Replaces m s ∧ ∀ sl', sl'.rank < sl.rank → m.slot sl' = none
  | .replace => Replaces m s ∧ ∀ sl, m.slot sl = none
  | .others => Checked m s ∧ (m.session s.engine).running = false
  | .build | .bridge | .storeGen => Checked m s ∧ ∀ e, (m.session e).running = false
  | .up =>
      Checked m s ∧ (∀ e, (m.session e).running = false) ∧ (m.session s.engine).instanceGen = s.mark
  | .started | .armLiveness | .setServer | .armWatch | .configureIP => Up i m s

@[grind]
def Start.Fact (i : Nat) (m : Memory) (s : Start) : Prop :=
  s.mark ≤ m.sessionGen ∧
    match s.pc with
    | .body b => b.Fact i m s
    | .clearSlot sl => 0 < sl.rank
    | _ => True

/-- The body of the stop has run; a refused stop ends here too, with the generation 0. -/
@[grind]
def Stop.bodyDone (s : Stop) : Bool :=
  match s.pc with
  | .disconnected | .done => true
  | _ => false

@[grind]
def Stop.Fact (m : Memory) (s : Stop) : Prop :=
  s.gen ≤ m.sessionGen ∧ (s.bodyDone = true → s.gen ≤ m.stoppedGen s.engine) ∧
    match s.pc with
    | .checkRunning | .checkStarts => s.gen = 0
    | .clearSlot sl => 0 < sl.rank
    | .teardown => (m.session s.engine).supersedes s.gen = false
    | .release _ => (m.session s.engine).running = true → s.gen ≤ (m.session s.engine).instanceGen
    | _ => True

@[grind]
def Thread.Fact (i : Nat) (m : Memory) (t : Thread) : Prop :=
  (t.holdsMutex = true → m.coreMutex = some i) ∧
    match t with
    | .start s => s.Fact i m
    | .stop s => s.Fact m
    | .ipWorker _ => True

/-! ### The steps of a thread -/

theorem Thread.plan_cases {t t' : Thread} {c : Choice} (hplan : t.plan m c = some (op, t')) :
    (∃ s s', t = .start s ∧ t' = .start s' ∧ s.plan m c = some (op, s')) ∨
      (∃ s s', t = .stop s ∧ t' = .stop s' ∧ s.plan m = some (op, s')) ∨
      t = .ipWorker false ∧ op = .storeIP ∧ t' = .ipWorker true := by
  cases t with
  | start s =>
      obtain ⟨out, hs, heq⟩ := Option.map_eq_some_iff.mp hplan
      cases heq
      exact .inl ⟨s, out.2, rfl, rfl, hs⟩
  | stop s =>
      obtain ⟨out, hs, heq⟩ := Option.map_eq_some_iff.mp hplan
      cases heq
      exact .inr (.inl ⟨s, out.2, rfl, rfl, hs⟩)
  | ipWorker stored =>
      cases stored <;> cases hplan
      exact .inr (.inr ⟨rfl, rfl, rfl⟩)

theorem Thread.plan_up {t t' : Thread} {c : Choice} (hplan : t.plan m c = some (.up e, t')) :
    ∃ s, t = .start s ∧ s.engine = e ∧ s.pc = .body .up ∧
      t' = .start { s with pc := .body (if e = .xray then .started else .armLiveness) } := by
  obtain ⟨s, s', rfl, rfl, hs⟩ | ⟨s, s', rfl, rfl, hs⟩ | ⟨-, hop, -⟩ := Thread.plan_cases hplan
  · refine ⟨s, rfl, ?_⟩
    obtain ⟨e', opts, mark, pc⟩ := s
    cases pc with
    | body b => cases b <;> grind -linarith
    | _ => grind -linarith
  · obtain ⟨e', gen, pc⟩ := s
    cases pc <;> grind -linarith
  · cases hop

theorem Start.allowed {s s' : Start} {c : Choice} (hfact : (Thread.start s).Fact i m)
    (hplan : s.plan m c = some (op, s')) : op.Allowed i m := by
  obtain ⟨e, opts, mark, pc⟩ := s
  cases pc with
  | body b => cases b <;> grind -linarith
  | _ => grind -linarith

theorem Stop.allowed {s s' : Stop} (hfact : (Thread.stop s).Fact i m) (hplan : s.plan m = some (op, s')) :
    op.Allowed i m := by
  obtain ⟨e, gen, pc⟩ := s
  cases pc <;> grind -linarith

theorem Thread.allowed {t t' : Thread} {c : Choice} (hfact : t.Fact i m) (hplan : t.plan m c = some (op, t')) :
    op.Allowed i m := by
  obtain ⟨s, s', rfl, rfl, hs⟩ | ⟨s, s', rfl, rfl, hs⟩ | ⟨rfl, rfl, rfl⟩ := plan_cases hplan
  · exact Start.allowed hfact hs
  · exact Stop.allowed hfact hs
  · trivial

theorem Start.fact {s s' : Start} {c : Choice} (hm : Engines m) (hfact : (Thread.start s).Fact i m)
    (hplan : s.plan m c = some (op, s')) : (Thread.start s').Fact i (op.apply i m) := by
  obtain ⟨e, opts, mark, pc⟩ := s
  have hgen := hm.gen e
  have hstopped := hm.stoppedGen e
  have hall := EngineId.forall_of_others (P := fun e' => (m.session e').running = false) e
  cases pc with
  | body b => cases b <;> grind -linarith [Slot.rank_inj, Slot.rank_le]
  | _ => grind -linarith

theorem Stop.fact {s s' : Stop} (hfact : (Thread.stop s).Fact i m) (hplan : s.plan m = some (op, s')) :
    (Thread.stop s').Fact i (op.apply i m) := by
  obtain ⟨e, gen, pc⟩ := s
  cases pc <;> grind -linarith

theorem Thread.fact {t t' : Thread} {c : Choice} (hm : Engines m) (hfact : t.Fact i m)
    (hplan : t.plan m c = some (op, t')) : t'.Fact i (op.apply i m) := by
  obtain ⟨s, s', rfl, rfl, hs⟩ | ⟨s, s', rfl, rfl, hs⟩ | ⟨rfl, rfl, rfl⟩ := plan_cases hplan
  · exact Start.fact hm hfact hs
  · exact Stop.fact hfact hs
  · exact hfact

/-! ### The steps of the others -/

/-- What a thread knows without the mutex survives every access. -/
theorem Thread.fact_of_unlocked {u : Thread} (hu : u.Fact j m) (hfree : u.holdsMutex = false) :
    u.Fact j (op.apply i m) := by
  have hgen : m.sessionGen ≤ (op.apply i m).sessionGen := op.sessionGen_le
  have hstopped : ∀ e, m.stoppedGen e ≤ (op.apply i m).stoppedGen e := fun e => op.stoppedGen_le
  cases u with
  | start s =>
      obtain ⟨e, opts, mark, pc⟩ := s
      cases pc <;> grind -linarith
  | stop s =>
      obtain ⟨e, gen, pc⟩ := s
      cases pc <;> grind -linarith
  | ipWorker stored => grind -linarith

theorem Thread.fact_of_rely {u : Thread} (hu : u.Fact j m) (hrely : Rely m m')
    (hgen : m.sessionGen ≤ m'.sessionGen) : u.Fact j m' := by
  obtain ⟨hrunning, hinstance, hstartedBy, hstopped, hmutex, hslot⟩ := hrely
  cases u with
  | start s =>
      obtain ⟨e, opts, mark, pc⟩ := s
      cases pc with
      | body b => cases b <;> grind -linarith
      | _ => grind -linarith
  | stop s =>
      obtain ⟨e, gen, pc⟩ := s
      cases pc <;> grind -linarith [EngineSession.supersedes]
  | ipWorker stored => grind -linarith

theorem Thread.fact_of_other {u : Thread} (hij : i ≠ j) (hop : op.Allowed i m) (hu : u.Fact j m) :
    u.Fact j (op.apply i m) := by
  by_cases hmutex : m.coreMutex = some j
  · exact fact_of_rely hu (hop.rely hij hmutex) op.sessionGen_le
  · refine fact_of_unlocked hu ?_
    rw [← Bool.not_eq_true]
    exact fun hholds => hmutex (hu.1 hholds)

/-! ### Every reachable state -/

/-- The engines are as they should be, and each thread knows what its place says. -/
def Sound (s : State) : Prop := Program.Holds Engines Thread.Fact s

theorem Sound.init : Sound State.init := ⟨Engines.init, fun i t hi => by simp [State.init] at hi⟩

theorem Request.fact (r : Request) : r.thread.Fact i m := by
  cases r <;> grind -linarith [Request.thread]

theorem Sound.step {s s' : State} {a : Action} (hs : Sound s) (hstep : controller.step s a = some s') :
    Sound s' := by
  refine Program.holds_step (fun _ _ r _ => r.fact) ?_ ?_ hs hstep
  · intro i t c m' t' _ _ hm hfact hexec
    obtain ⟨op, hplan, rfl⟩ := controller_exec hexec
    exact ⟨hm.apply (Thread.allowed hfact hplan), Thread.fact hm hfact hplan⟩
  · intro i j t u c m' t' _ hij _ _ hm hfact hu hexec
    obtain ⟨op, hplan, rfl⟩ := controller_exec hexec
    exact Thread.fact_of_other hij (Thread.allowed hfact hplan) hu

theorem Sound.of_reaches {ok : State → Action → Prop} {s : State} (hs : controller.Reaches ok State.init s) :
    Sound s :=
  hs.invariant Sound Sound.init fun _ _ _ hinv _ hstep => hinv.step hstep

/-- What holds along a run may use that every state of it is sound. -/
theorem Sound.invariant {ok : State → Action → Prop} {s : State} (hs : controller.Reaches ok State.init s)
    (inv : State → Prop) (hinit : inv State.init)
    (hspawn : ∀ s (r : Request), inv s → inv ⟨s.mem, s.threads ++ [r.thread]⟩)
    (hrun : ∀ s s' i c t t' op, inv s → Sound s → ok s (.run i c) → StepOf s s' i c t t' op → inv s') : inv s := by
  have hboth : Sound s ∧ inv s := by
    refine hs.invariant (fun s => Sound s ∧ inv s) ⟨Sound.init, hinit⟩ ?_
    intro s a s' hinv hok hstep
    refine ⟨hinv.1.step hstep, ?_⟩
    cases a with
    | spawn r =>
        cases hstep
        exact hspawn s r hinv.2
    | run i c =>
        obtain ⟨t, t', op, h⟩ := stepOf hstep
        exact hrun s s' i c t t' op hinv.2 hinv.1 hok h
  exact hboth.2

theorem StepOf.running_cases {s s' : State} {c : Choice} {t t' : Thread} (hsound : Sound s)
    (h : StepOf s s' i c t t' op) (hrunning : (s'.mem.session e).running = true) :
    (s'.mem.session e).instanceGen = (s.mem.session e).instanceGen ∧
      (op = .up e ∧ (s'.mem.session e).startedBy = i ∨
        (s.mem.session e).running = true ∧ (s'.mem.session e).startedBy = (s.mem.session e).startedBy) := by
  have hop := Thread.allowed (hsound.2 i t h.thread) h.plan
  rw [h.mem] at hrunning ⊢
  exact Op.running_of_apply hop hrunning

theorem one_engine {s : State} (hs : Reachable s) :
    (∀ e e', (s.mem.session e).running = true → (s.mem.session e').running = true → e = e') ∧
      ∀ e, (s.mem.session e).running = true → (s.mem.session e).instanceGen ≤ s.mem.sessionGen :=
  ⟨(Sound.of_reaches hs).1.alone, (Sound.of_reaches hs).1.gen⟩

/-- A mihomo start passes its handler's checks before the xray start is up, and loses at the check under
the mutex. -/
def racingStarts : List Action :=
  [.spawn (.start .xray ⟨true, true, true, true⟩), .spawn (.start .mihomo ⟨true, true, true, true⟩)] ++
    proceed 1 7 ++ proceed 0 25 ++ proceed 1 4

theorem one_engine_racingStarts : ∃ s, trace racingStarts = some s ∧ (s.mem.session .xray).running = true ∧
    (s.mem.session .mihomo).running = false ∧ (s.mem.session .xray).instanceGen ≤ s.mem.sessionGen := by
  obtain ⟨s, hs⟩ : ∃ s, trace racingStarts = some s := Option.isSome_iff_exists.mp (by decide)
  have hxray := of_run (fun s => (s.mem.session .xray).running) hs (a := true) (by decide)
  have hone := one_engine (reachable_of_trace hs)
  refine ⟨s, hs, hxray, ?_, hone.2 .xray hxray⟩
  rw [← Bool.not_eq_true]
  intro hmihomo
  cases hone.1 _ _ hxray hmihomo

/-! ### Stops against starts -/

theorem Stop.spares {s s' : Stop} (hfact : (Thread.stop s).Fact i m) (hplan : s.plan m = some (op, s'))
    (hrunning : (m.session s.engine).running = true) (hnewer : s.gen ≤ (m.session s.engine).instanceGen) :
    (op.apply i m).session s.engine = m.session s.engine := by
  obtain ⟨e, gen, pc⟩ := s
  rw [Op.apply_session]
  cases pc <;> simp only [Stop.plan] at hplan <;> grind -linarith [EngineSession.supersedes]

theorem stop_against_start {s : State} (hs : Reachable s) {i : Nat} {st : Stop}
    (hi : s.threads[i]? = some (.stop st)) :
    (∀ c s', controller.step s (.run i c) = some s' → (s.mem.session st.engine).running = true →
        st.gen ≤ (s.mem.session st.engine).instanceGen →
        s'.mem.session st.engine = s.mem.session st.engine) ∧
      (st.bodyDone = true → (s.mem.session st.engine).running = true →
        st.gen ≤ (s.mem.session st.engine).instanceGen) := by
  have hsound := Sound.of_reaches hs
  have hfact := hsound.2 i _ hi
  constructor
  · intro c s' hstep hrunning hnewer
    obtain ⟨t, t', op, h⟩ := stepOf hstep
    cases hi.symm.trans h.thread
    obtain ⟨_, _, hstart, -⟩ | ⟨_, st', hstop, -, hst⟩ | ⟨hworker, -⟩ := Thread.plan_cases h.plan
    · cases hstart
    · cases hstop
      rw [h.mem]
      exact Stop.spares hfact hst hrunning hnewer
    · cases hworker
  · intro hdone hrunning
    calc st.gen ≤ s.mem.stoppedGen st.engine := hfact.2.2.1 hdone
      _ ≤ (s.mem.session st.engine).instanceGen := hsound.1.stopped _ hrunning

/-- A stop waits for the mutex while the next start replaces the instance. -/
def supersededStop : List Action :=
  [.spawn (.start .xray ⟨true, true, true, true⟩)] ++ proceed 0 25 ++ [.spawn (.stop .xray)] ++ proceed 1 7 ++
    [.spawn (.start .xray ⟨true, true, true, true⟩)] ++ proceed 2 31 ++ proceed 1 3

theorem stop_against_start_supersededStop : ∃ s, trace supersededStop = some s ∧
    s.threads[1]? = some (.stop ⟨.xray, 1, .done⟩) ∧ (s.mem.session .xray).running = true ∧
    1 ≤ (s.mem.session .xray).instanceGen := by
  obtain ⟨s, hs⟩ : ∃ s, trace supersededStop = some s := Option.isSome_iff_exists.mp (by decide)
  have hstop := of_run (fun s => s.threads[1]?) hs (a := some (.stop ⟨.xray, 1, .done⟩)) (by decide)
  have hrunning := of_run (fun s => (s.mem.session .xray).running) hs (a := true) (by decide)
  exact ⟨s, hs, hstop, hrunning, (stop_against_start (reachable_of_trace hs) hstop).2 rfl hrunning⟩

end GlitchCore.Core
