import GlitchCore.Core.Generations

/-!
# The last lifecycle event

`EngineConnected` is emitted after the staleness check has released `coreMutex`, `EngineDisconnected` after the
stop body has, `EngineError` by a start that does not look at what runs. Between the decision and the
event other threads run, so the last event need not fit the engine. It does in the runs whose accesses are
orderly: a generation is moved under a running engine only by a stop of that engine, an engine comes up
under a generation that has moved on only with its stop still to run, and no event is emitted that a later
one will not correct.
-/

namespace GlitchCore.Core

open Interleaving

variable {i : Nat} {m : Memory} {e : EngineId} {g : Nat} {op : Op}

@[grind]
def Event.isLifecycle : Event → Bool
  | .connected | .disconnecting | .disconnected | .error => true
  | _ => false

def lastLifecycle (m : Memory) : Option Event := m.log.find? Event.isLifecycle

def EventsAgree (s : State) : Prop :=
  ((∃ e, (s.mem.session e).running = true) → lastLifecycle s.mem = some .connected) ∧
    ((∀ e, (s.mem.session e).running = false) → lastLifecycle s.mem ≠ some .connected)

instance (s : State) : Decidable (EventsAgree s) := inferInstanceAs (Decidable (_ ∧ _))

/-- The start has passed its staleness check, and a stop runs from its handler to its end before the start
emits `EngineConnected`. -/
def lateConnected : List Action :=
  [.spawn (.start .xray ⟨false, true, false, true⟩)] ++ proceed 0 23 ++ [.spawn (.stop .xray)] ++ proceed 1 12 ++
    proceed 0 2

theorem events_disagree_lateConnected : ∃ s, Reachable s ∧ Quiet s ∧ ¬EventsAgree s := by
  obtain ⟨s, hs⟩ : ∃ s, trace lateConnected = some s := Option.isSome_iff_exists.mp (by decide)
  have hend := of_run (fun s => decide (Quiet s ∧ ¬EventsAgree s)) hs (a := true) (by decide)
  exact ⟨s, reachable_of_trace hs, of_decide_eq_true hend⟩

/-! ### What a thread has still to do -/

@[grind]
def StopPc.beforeBody : StopPc → Bool
  | .clearSlot _ | .disconnecting | .acquire | .supersedes | .teardown => true
  | _ => false

@[grind]
def StartPc.beforeConnected : StartPc → Bool
  | .body .started | .body .armLiveness | .body .setServer | .body .armWatch | .body .configureIP
  | .body (.release .ok) | .acquireTail | .checkStale | .releaseFresh | .connected => true
  | _ => false

/-- A stop that has moved the generation past `g` and has its body still to run. -/
@[grind]
def Thread.willStop (e : EngineId) (g : Nat) : Thread → Bool
  | .stop s => decide (s.engine = e) && decide (g < s.gen) && s.pc.beforeBody
  | _ => false

/-- A start that has its engine up under `g`, and `EngineConnected` or the finding that it is stale still
to come. -/
@[grind]
def Thread.willConnect (e : EngineId) (g : Nat) : Thread → Bool
  | .start s => decide (s.engine = e) && decide (s.mark = g) && s.pc.beforeConnected
  | _ => false

/-- A stop that has its engine down and `EngineDisconnected` still to come, or a start that will either
bring its engine up or emit `EngineError`. -/
@[grind]
def Thread.willReport : Thread → Bool
  | .stop s =>
      match s.pc with
      | .release true | .disconnected => true
      | _ => false
  | .start s =>
      match s.pc with
      | .body .others | .body .build | .body .bridge | .body .storeGen | .body .up | .body (.release .failed)
      | .clearGen | .clearSlot _ | .error => true
      | _ => false
  | .ipWorker _ => false

@[grind]
def Thread.isStopOf (e : EngineId) : Thread → Bool
  | .stop s => s.engine = e
  | _ => false

/-! ### Orderly accesses -/

/-- The condition on the state before an access of the thread `t`. -/
@[grind]
def Op.Orderly (s : State) (t : Thread) : Op → Prop
  | .bump => ∀ e, (s.mem.session e).running = true → t.isStopOf e = true
  | .up e =>
      (s.mem.session e).instanceGen = s.mem.sessionGen ∨
        ∃ u ∈ s.threads, u.willStop e (s.mem.session e).instanceGen = true
  | .emit .connected =>
      (∃ e, (s.mem.session e).running = true) ∨ ∃ u ∈ s.threads, u.willReport = true
  | .emit .disconnecting | .emit .disconnected | .emit .error =>
      ∀ e, (s.mem.session e).running = true → (s.mem.session e).instanceGen = s.mem.sessionGen →
        ∃ u ∈ s.threads, u.willConnect e (s.mem.session e).instanceGen = true
  | _ => True

instance (s : State) (t : Thread) : (op : Op) → Decidable (op.Orderly s t)
  | .bump => inferInstanceAs (Decidable (∀ _, _ → _))
  | .up _ | .emit .connected => inferInstanceAs (Decidable (_ ∨ _))
  | .emit .disconnecting | .emit .disconnected | .emit .error => inferInstanceAs (Decidable (∀ _, _ → _ → _))
  | .emit .connecting | .emit .alreadyRunning | .emit .conflictOtherCore | .emit .stopRejectedNotRunning
  | .skip | .lock | .unlock | .clear _ | .fill _ | .storeIP | .count _ | .uncount _ | .stopLocked _
  | .storeGen .. | .rollback .. | .startBridge | .stopBridge | .endStop .. => instDecidableTrue

def OrderlyStep (s : State) : Action → Prop
  | .spawn _ => True
  | .run i c => ∀ t ∈ s.threads[i]?, ∀ out ∈ t.plan s.mem c, out.1.Orderly s t

instance (s : State) : (a : Action) → Decidable (OrderlyStep s a)
  | .spawn _ => instDecidableTrue
  | .run i c => inferInstanceAs (Decidable (∀ t ∈ s.threads[i]?, ∀ out ∈ t.plan s.mem c, out.1.Orderly s t))

/-! ### One step -/

@[grind =]
theorem lastLifecycle_apply : lastLifecycle (op.apply i m) =
    match op with
    | .emit ev => if ev.isLifecycle then some ev else lastLifecycle m
    | _ => lastLifecycle m := by
  rw [lastLifecycle, Op.apply_log]
  cases op with
  | emit ev =>
      rw [List.find?_cons]
      cases hev : ev.isLifecycle <;> simp only [hev] <;> rfl
  | _ => rfl

theorem lastLifecycle_cases (i : Nat) (m : Memory) (op : Op) :
    lastLifecycle (op.apply i m) = lastLifecycle m ∨ op = .emit .connected ∨
      op = .emit .disconnecting ∨ op = .emit .disconnected ∨ op = .emit .error := by
  rw [lastLifecycle_apply]
  cases op with
  | emit ev => cases ev <;> grind -linarith
  | _ => exact .inl rfl

section Step

variable {t t' : Thread} {c : Choice}

theorem willStop_step (hplan : t.plan m c = some (op, t')) (hstop : t.willStop e g = true)
    (hgen : (m.session e).instanceGen = g) :
    t'.willStop e g = true ∨ ((op.apply i m).session e).running = false := by
  obtain ⟨s, s', rfl, rfl, hs⟩ | ⟨s, s', rfl, rfl, hs⟩ | ⟨rfl, rfl, rfl⟩ := Thread.plan_cases hplan
  · cases hstop
  · obtain ⟨e', gen, pc⟩ := s
    cases pc <;> grind -linarith
  · cases hstop

/-- A start does not go quiet about its engine unless a stop has moved the generation. -/
theorem willConnect_step (hfact : t.Fact i m) (hplan : t.plan m c = some (op, t'))
    (hconnect : t.willConnect e g = true) :
    t'.willConnect e g = true ∨ ((op.apply i m).session e).running = false ∨ m.sessionGen ≠ g ∨
      op = .emit .connected := by
  obtain ⟨s, s', rfl, rfl, hs⟩ | ⟨s, s', rfl, rfl, hs⟩ | ⟨rfl, rfl, rfl⟩ := Thread.plan_cases hplan
  · obtain ⟨e', opts, mark, pc⟩ := s
    cases pc with
    | body b => cases b <;> grind -linarith
    | _ => grind -linarith
  · cases hconnect
  · cases hconnect

theorem up_or_willReport_step (hplan : t.plan m c = some (op, t')) (hreport : t.willReport = true) :
    t'.willReport = true ∨ (∃ e, op = .up e) ∨ op = .emit .error ∨ op = .emit .disconnected := by
  obtain ⟨s, s', rfl, rfl, hs⟩ | ⟨s, s', rfl, rfl, hs⟩ | ⟨rfl, rfl, rfl⟩ := Thread.plan_cases hplan
  · obtain ⟨e', opts, mark, pc⟩ := s
    cases pc with
    | body b => cases b <;> grind -linarith
    | _ => grind -linarith
  · obtain ⟨e', gen, pc⟩ := s
    cases pc <;> grind -linarith
  · cases hreport

theorem running_step (hplan : t.plan m c = some (op, t')) (hrunning : (m.session e).running = true) :
    ((op.apply i m).session e).running = true ∨ t'.willReport = true := by
  obtain ⟨s, s', rfl, rfl, hs⟩ | ⟨s, s', rfl, rfl, hs⟩ | ⟨rfl, rfl, rfl⟩ := Thread.plan_cases hplan
  · obtain ⟨e', opts, mark, pc⟩ := s
    cases pc with
    | body b => cases b <;> grind -linarith
    | _ => grind -linarith
  · obtain ⟨e', gen, pc⟩ := s
    cases pc <;> grind -linarith
  · grind -linarith

theorem willConnect_of_up (hfact : t.Fact i m) (hplan : t.plan m c = some (.up e, t')) :
    t'.willConnect e (m.session e).instanceGen = true := by
  obtain ⟨⟨e', opts, mark, pc⟩, rfl, rfl, rfl, rfl⟩ := Thread.plan_up hplan
  grind -linarith

theorem willStop_of_bump (hplan : t.plan m c = some (.bump, t')) (hstop : t.isStopOf e = true)
    (hgen : g ≤ m.sessionGen) : t'.willStop e g = true := by
  obtain ⟨s, s', rfl, rfl, hs⟩ | ⟨s, s', rfl, rfl, hs⟩ | ⟨rfl, hop, rfl⟩ := Thread.plan_cases hplan
  · cases hstop
  · obtain ⟨e', gen, pc⟩ := s
    cases pc <;> grind -linarith
  · cases hop

/-- Neither kind of event is emitted by a thread that waits to emit the other kind. -/
theorem not_willReport_of_connected (hplan : t.plan m c = some (.emit .connected, t')) : t.willReport = false := by
  obtain ⟨s, s', rfl, rfl, hs⟩ | ⟨s, s', rfl, rfl, hs⟩ | ⟨rfl, hop, rfl⟩ := Thread.plan_cases hplan
  · obtain ⟨e', opts, mark, pc⟩ := s
    cases pc with
    | body b => cases b <;> grind -linarith
    | _ => grind -linarith
  · obtain ⟨e', gen, pc⟩ := s
    cases pc <;> grind -linarith
  · cases hop

theorem connected_of_willConnect {ev : Event} (hplan : t.plan m c = some (.emit ev, t'))
    (hconnect : t.willConnect e g = true) : ev = .connected := by
  obtain ⟨s, s', rfl, rfl, hs⟩ | ⟨s, s', rfl, rfl, hs⟩ | ⟨rfl, hop, rfl⟩ := Thread.plan_cases hplan
  · obtain ⟨e', opts, mark, pc⟩ := s
    cases pc with
    | body b => cases b <;> grind -linarith
    | _ => grind -linarith
  · cases hconnect
  · cases hop

end Step

/-! ### Whole runs -/

structure Tracked (s : State) : Prop where
  reported : lastLifecycle s.mem = some .connected →
    (∃ e, (s.mem.session e).running = true) ∨ ∃ u ∈ s.threads, u.willReport = true
  current : ∀ e, (s.mem.session e).running = true →
    (s.mem.session e).instanceGen = s.mem.sessionGen ∨
      ∃ u ∈ s.threads, u.willStop e (s.mem.session e).instanceGen = true
  connected : ∀ e, (s.mem.session e).running = true →
    lastLifecycle s.mem = some .connected ∨
      (∃ u ∈ s.threads, u.willConnect e (s.mem.session e).instanceGen = true) ∨
      ∃ u ∈ s.threads, u.willStop e (s.mem.session e).instanceGen = true

section Run

variable {s s' : State} {c : Choice} {t t' : Thread}

theorem StepOf.willStop (h : StepOf s s' i c t t' op) (hgen : (s.mem.session e).instanceGen = g)
    (hrunning : (s'.mem.session e).running = true) (hex : ∃ u ∈ s.threads, u.willStop e g = true) :
    ∃ u ∈ s'.threads, u.willStop e g = true := by
  obtain hmine | hother := h.keeps hex
  · rw [h.mem] at hrunning
    obtain hstill | hdown := willStop_step h.plan hmine hgen
    · exact ⟨t', h.mem_threads, hstill⟩
    · rw [hdown] at hrunning
      cases hrunning
  · exact hother

theorem Tracked.current_step (hs : Tracked s) (hsound : Sound s) (h : StepOf s s' i c t t' op)
    (hok : op.Orderly s t) (e : EngineId) (hrunning : (s'.mem.session e).running = true) :
    (s'.mem.session e).instanceGen = s'.mem.sessionGen ∨
      ∃ u ∈ s'.threads, u.willStop e (s'.mem.session e).instanceGen = true := by
  obtain ⟨hgen, ⟨rfl, -⟩ | ⟨hran, -⟩⟩ := h.running_cases hsound hrunning
  · rw [hgen]
    obtain hcurrent | hstop := hok
    · left
      rw [h.mem, Op.sessionGen_of_ne_bump (by simp), hcurrent]
    · right
      refine (h.keeps hstop).resolve_left ?_
      obtain ⟨st, rfl, -⟩ := Thread.plan_up h.plan
      exact Bool.false_ne_true
  · rw [hgen]
    obtain hcurrent | hstop := hs.current e hran
    · by_cases hbump : op = .bump
      · -- The generation moves under the engine, so a stop of the engine moves it.
        subst hbump
        have hmine := willStop_of_bump h.plan (hok e hran) (hsound.1.gen e hran)
        exact .inr ⟨t', h.mem_threads, hmine⟩
      · rw [h.mem, Op.sessionGen_of_ne_bump hbump]
        exact .inl hcurrent
    · exact .inr (h.willStop rfl hrunning hstop)

/-- An event that ends a session is corrected later, if an engine runs. -/
theorem Tracked.corrected (hs : Tracked s) (h : StepOf s s' i c t t' op)
    (hev : ∃ ev, op = .emit ev ∧ ev ≠ .connected ∧
      ∀ e, (s.mem.session e).running = true → (s.mem.session e).instanceGen = s.mem.sessionGen →
        ∃ u ∈ s.threads, u.willConnect e (s.mem.session e).instanceGen = true)
    (hran : (s.mem.session e).running = true) (hrunning : (s'.mem.session e).running = true) :
    (∃ u ∈ s'.threads, u.willConnect e (s.mem.session e).instanceGen = true) ∨
      ∃ u ∈ s'.threads, u.willStop e (s.mem.session e).instanceGen = true := by
  obtain ⟨ev, rfl, hne, hawaited⟩ := hev
  obtain hcurrent | hstop := hs.current e hran
  · left
    refine (h.keeps (hawaited e hran hcurrent)).resolve_left ?_
    exact fun hmine => hne (connected_of_willConnect h.plan hmine)
  · exact .inr (h.willStop rfl hrunning hstop)

theorem Tracked.connected_step (hs : Tracked s) (hsound : Sound s) (h : StepOf s s' i c t t' op)
    (hok : op.Orderly s t) (e : EngineId) (hrunning : (s'.mem.session e).running = true) :
    lastLifecycle s'.mem = some .connected ∨
      (∃ u ∈ s'.threads, u.willConnect e (s'.mem.session e).instanceGen = true) ∨
      ∃ u ∈ s'.threads, u.willStop e (s'.mem.session e).instanceGen = true := by
  obtain ⟨hgen, ⟨rfl, -⟩ | ⟨hran, -⟩⟩ := h.running_cases hsound hrunning
  · rw [hgen]
    exact .inr (.inl ⟨t', h.mem_threads, willConnect_of_up (hsound.2 i t h.thread) h.plan⟩)
  · rw [hgen]
    obtain hlast | hconnect | hstop := hs.connected e hran
    · obtain hsame | hlater := lastLifecycle_cases i s.mem op
      · rw [h.mem, hsame]
        exact .inl hlast
      · obtain rfl | hev := hlater
        · rw [h.mem, lastLifecycle_apply]
          exact .inl rfl
        · exact .inr (hs.corrected h (by obtain rfl | rfl | rfl := hev <;> exact ⟨_, rfl, by decide, hok⟩) hran hrunning)
    · obtain hmine | hother := h.keeps hconnect
      · obtain hstill | hdown | hmoved | rfl := willConnect_step (hsound.2 i t h.thread) h.plan hmine
        · exact .inr (.inl ⟨t', h.mem_threads, hstill⟩)
        · rw [h.mem, hdown] at hrunning
          cases hrunning
        · have hstop := (hs.current e hran).resolve_left (Ne.symm hmoved)
          exact .inr (.inr (h.willStop rfl hrunning hstop))
        · rw [h.mem, lastLifecycle_apply]
          exact .inl rfl
      · exact .inr (.inl hother)
    · exact .inr (.inr (h.willStop rfl hrunning hstop))

theorem Tracked.reported_step (hs : Tracked s) (h : StepOf s s' i c t t' op) (hok : op.Orderly s t)
    (hlast : lastLifecycle s'.mem = some .connected) :
    (∃ e, (s'.mem.session e).running = true) ∨ ∃ u ∈ s'.threads, u.willReport = true := by
  have hkept : (∃ e, (s.mem.session e).running = true) →
      (∃ e, (s'.mem.session e).running = true) ∨ ∃ u ∈ s'.threads, u.willReport = true := by
    intro hex
    obtain ⟨e, hran⟩ := hex
    obtain hstill | hreport := running_step (i := i) h.plan hran
    · exact .inl ⟨e, by rw [h.mem]; exact hstill⟩
    · exact .inr ⟨t', h.mem_threads, hreport⟩
  rw [h.mem] at hlast
  obtain hsame | rfl | hev := lastLifecycle_cases i s.mem op
  · obtain hran | hreport := hs.reported (hsame ▸ hlast)
    · exact hkept hran
    · obtain hmine | hother := h.keeps hreport
      · obtain hstill | ⟨e, rfl⟩ | rfl | rfl := up_or_willReport_step h.plan hmine
        · exact .inr ⟨t', h.mem_threads, hstill⟩
        · refine .inl ⟨e, ?_⟩
          rw [h.mem, Op.apply_running]
          simp
        · cases hlast
        · cases hlast
      · exact .inr hother
  · obtain hran | hreport := hok
    · exact hkept hran
    · refine .inr ((h.keeps hreport).resolve_left ?_)
      rw [not_willReport_of_connected h.plan]
      exact Bool.false_ne_true
  · obtain rfl | rfl | rfl := hev <;> cases hlast

theorem Tracked.spawn (hs : Tracked s) (r : Request) : Tracked ⟨s.mem, s.threads ++ [r.thread]⟩ := by
  have hmore : ∀ Q : Thread → Prop, (∃ u ∈ s.threads, Q u) → ∃ u ∈ s.threads ++ [r.thread], Q u := by
    intro Q hex
    obtain ⟨u, hu, hQ⟩ := hex
    exact ⟨u, List.mem_append_left _ hu, hQ⟩
  constructor
  · intro hlast
    exact (hs.reported hlast).imp_right (hmore _)
  · intro e hrunning
    exact (hs.current e hrunning).imp_right (hmore _)
  · intro e hrunning
    exact (hs.connected e hrunning).imp_right (Or.imp (hmore _) (hmore _))

end Run

theorem Tracked.init : Tracked State.init := by
  constructor <;> simp [State.init, Memory.init, lastLifecycle]

theorem Tracked.of_reaches {s : State} (hs : controller.Reaches OrderlyStep State.init s) : Tracked s := by
  refine Sound.invariant hs Tracked Tracked.init (fun s r htracked => htracked.spawn r) ?_
  intro s s' i c t t' op htracked hsound hok h
  have hop : op.Orderly s t := hok t h.thread (op, t') h.plan
  exact ⟨htracked.reported_step h hop, htracked.current_step hsound h hop, htracked.connected_step hsound h hop⟩

theorem Thread.idle_of_ended {u : Thread} (hu : u.ended = true) (e : EngineId) (g : Nat) :
    u.willStop e g = false ∧ u.willConnect e g = false ∧ u.willReport = false := by
  cases u with
  | start s =>
      obtain ⟨e', opts, mark, pc⟩ := s
      cases eq_of_beq hu
      exact ⟨rfl, Bool.and_false _, rfl⟩
  | stop s =>
      obtain ⟨e', gen, pc⟩ := s
      cases eq_of_beq hu
      exact ⟨Bool.and_false _, rfl, rfl⟩
  | ipWorker stored => exact ⟨rfl, rfl, rfl⟩

theorem events_agree_of_orderly {s : State} (hs : controller.Reaches OrderlyStep State.init s)
    (hquiet : Quiet s) : EventsAgree s := by
  have htracked := Tracked.of_reaches hs
  constructor
  · intro hex
    obtain ⟨e, hrunning⟩ := hex
    obtain hlast | ⟨u, hu, hconnect⟩ | ⟨u, hu, hstop⟩ := htracked.connected e hrunning
    · exact hlast
    · rw [(Thread.idle_of_ended (hquiet u hu) ..).2.1] at hconnect
      cases hconnect
    · rw [(Thread.idle_of_ended (hquiet u hu) ..).1] at hstop
      cases hstop
  · intro hdown hlast
    obtain ⟨e, hrunning⟩ | ⟨u, hu, hreport⟩ := htracked.reported hlast
    · rw [hdown e] at hrunning
      cases hrunning
    · rw [(Thread.idle_of_ended (hquiet u hu) .xray 0).2.2] at hreport
      cases hreport

theorem events_agree_supersededStop : ∃ s, controller.run OrderlyStep State.init supersededStop = some s ∧
    Quiet s ∧ EventsAgree s := by
  obtain ⟨s, hs⟩ : ∃ s, controller.run OrderlyStep State.init supersededStop = some s :=
    Option.isSome_iff_exists.mp (by decide)
  have hquiet := of_decide_eq_true (of_run (fun s => decide (Quiet s)) hs (a := true) (by decide))
  exact ⟨s, hs, hquiet, events_agree_of_orderly (Program.reaches_of_run hs) hquiet⟩

end GlitchCore.Core
