import GlitchCore.Core.Lifecycle

/-!
# Whose loops run

A start arms its loops under `coreMutex` and finds out after it, in its tail, whether its session has ended.
A stop takes the liveness loop down before it moves the generation and the rest after. What is armed when
everything has come to rest belongs to the running instance, if three things do not happen: a stale start
takes down the loops of another engine's session, a start without a selection watch comes up over the watch
a stale start left, and a stop moves the generation when the liveness loop has been armed again and its
start has looked at the generation already.
-/

namespace GlitchCore.Core

open Interleaving

variable {i : Nat} {m : Memory} {e : EngineId} {g : Nat} {op : Op} {sl : Slot}

/-- Everything armed was armed by the start of the running instance, and an instance of the current session
has its liveness loop. -/
def LoopsOwned (s : State) : Prop :=
  (∀ sl, sl ≠ .serverSel → ∀ k ∈ s.mem.slot sl,
      ∃ e, (s.mem.session e).running = true ∧ (s.mem.session e).startedBy = k) ∧
    ∀ e, (s.mem.session e).running = true → (s.mem.session e).instanceGen = s.mem.sessionGen →
      s.mem.slot .liveness = some (s.mem.session e).startedBy

instance (s : State) : Decidable (LoopsOwned s) := inferInstanceAs (Decidable (_ ∧ _))

/-- The stop has taken the liveness loop down, then the start arms it, finds its session current and reports
`EngineConnected`, then the stop moves the generation and takes the engine down. -/
def leakedLiveness : List Action :=
  [.spawn (.start .xray ⟨false, true, false, true⟩)] ++ proceed 0 14 ++ [.spawn (.stop .xray)] ++ proceed 1 2 ++
    proceed 0 11 ++ proceed 1 10

theorem loops_leak_leakedLiveness : ∃ s, Reachable s ∧ Quiet s ∧ (∀ e, (s.mem.session e).running = false) ∧
    s.mem.slot .liveness = some 0 ∧ ¬LoopsOwned s := by
  obtain ⟨s, hs⟩ : ∃ s, trace leakedLiveness = some s := Option.isSome_iff_exists.mp (by decide)
  have hend := of_run (fun s => decide (Quiet s ∧ (∀ e, (s.mem.session e).running = false) ∧
    s.mem.slot .liveness = some 0 ∧ ¬LoopsOwned s)) hs (a := true) (by decide)
  exact ⟨s, reachable_of_trace hs, of_decide_eq_true hend⟩

/-! ### What a thread has still to do -/

@[grind]
def StartPc.isUp : StartPc → Bool
  | .body .started | .body .armLiveness | .body .setServer | .body .armWatch | .body .configureIP
  | .body (.release .ok) | .acquireTail | .checkStale | .endLoops _ | .releaseStale | .releaseFresh
  | .connected | .finish | .done => true
  | _ => false

@[grind]
def StartPc.hasArmed : StartPc → Bool
  | .body .setServer | .body .armWatch | .body .configureIP
  | .body (.release .ok) | .acquireTail | .checkStale | .endLoops _ | .releaseStale | .releaseFresh
  | .connected | .finish | .done => true
  | _ => false

/-- A start that looks at the generation before it leaves the slot to its session. -/
@[grind]
def Thread.willSettle (sl : Slot) : Thread → Bool
  | .start s =>
      match s.pc with
      | .body .setServer | .body .armWatch | .body .configureIP | .body (.release .ok)
      | .acquireTail | .checkStale => true
      | .endLoops sl' => sl'.rank ≤ sl.rank
      | _ => false
  | _ => false

/-- A thread on its way through `clearSessionState` that has not come to the slot. -/
@[grind]
def Thread.willClear (sl : Slot) : Thread → Bool
  | .start s =>
      match s.pc with
      | .clearSlot sl' => sl'.rank ≤ sl.rank
      | _ => false
  | .stop s =>
      match s.pc with
      | .clearSlot sl' => sl'.rank ≤ sl.rank
      | _ => false
  | _ => false

/-- A start whose engine is up and that has not come to arm the slot, or to pass it over. -/
@[grind]
def Thread.willFill (sl : Slot) : Thread → Bool
  | .start s =>
      match s.pc with
      | .body .started | .body .armLiveness => true
      | .body .setServer | .body .armWatch => 0 < sl.rank
      | .body .configureIP => 1 < sl.rank
      | _ => false
  | _ => false

/-- A stop between the liveness loop and the generation. -/
@[grind]
def Thread.willMove : Thread → Bool
  | .stop s =>
      match s.pc with
      | .clearGen => true
      | _ => false
  | _ => false

/-! ### Tidy steps -/

def Start.Tidy (s : State) (st : Start) : Prop :=
  (st.pc = .checkStale → ∀ e, e ≠ st.engine → (s.mem.session e).running = true →
      (s.mem.session e).instanceGen = s.mem.sessionGen → s.mem.sessionGen = st.mark) ∧
    (st.pc = .body .armWatch → (st.opts.watch && st.engine ≠ .awg) = true ∨ s.mem.slot .selWatch = none)

def Stop.Tidy (s : State) (st : Stop) : Prop :=
  st.pc = .clearGen → (s.mem.session st.engine).running = true →
    s.mem.slot .liveness = some (s.mem.session st.engine).startedBy →
    ∃ u ∈ s.threads[(s.mem.session st.engine).startedBy]?, u.willSettle .liveness = true

def Thread.Tidy (s : State) : Thread → Prop
  | .start st => st.Tidy s
  | .stop st => st.Tidy s
  | .ipWorker _ => True

instance (s : State) : (t : Thread) → Decidable (t.Tidy s)
  | .start _ => inferInstanceAs (Decidable (_ ∧ _))
  | .stop _ => inferInstanceAs (Decidable (_ → _ → _ → _))
  | .ipWorker _ => instDecidableTrue

def TidyStep (s : State) : Action → Prop
  | .spawn _ => True
  | .run i _ => ∀ t ∈ s.threads[i]?, t.Tidy s

instance (s : State) : (a : Action) → Decidable (TidyStep s a)
  | .spawn _ => instDecidableTrue
  | .run i _ => inferInstanceAs (Decidable (∀ t ∈ s.threads[i]?, t.Tidy s))

/-! ### One step -/

section Step

variable {t t' : Thread} {c : Choice}

theorem isUp_step {st st' : Start} (hplan : st.plan m c = some (op, st')) (hup : st.pc.isUp = true) :
    st'.engine = st.engine ∧ st'.mark = st.mark ∧ (st'.pc.isUp = true ∨ ∃ b, op = .rollback st.engine b) := by
  obtain ⟨e', opts, mark, pc⟩ := st
  cases pc with
  | body b => cases b <;> grind -linarith
  | _ => grind -linarith

theorem hasArmed_step {st st' : Start} (hplan : st.plan m c = some (op, st')) (harmed : st.pc.hasArmed = true) :
    st'.engine = st.engine ∧ st'.mark = st.mark ∧ st'.pc.hasArmed = true := by
  obtain ⟨e', opts, mark, pc⟩ := st
  cases pc with
  | body b => cases b <;> grind -linarith
  | _ => grind -linarith

theorem fill_step (hfact : t.Fact i m) (hplan : t.plan m c = some (.fill sl, t')) :
    ∃ st st', t = .start st ∧ t' = .start st' ∧ st'.engine = st.engine ∧ Up i m st ∧ st'.pc.hasArmed = true ∧
      t'.willSettle sl = true := by
  obtain ⟨s, s', rfl, rfl, hs⟩ | ⟨s, s', rfl, rfl, hs⟩ | ⟨rfl, hop, rfl⟩ := Thread.plan_cases hplan
  · refine ⟨s, s', rfl, rfl, ?_⟩
    obtain ⟨e', opts, mark, pc⟩ := s
    cases pc with
    | body b => cases b <;> grind -linarith
    | _ => grind -linarith
  · obtain ⟨e', gen, pc⟩ := s
    cases pc <;> grind -linarith
  · cases hop

theorem willSettle_step (hplan : t.plan m c = some (op, t')) (hsettle : t.willSettle sl = true) :
    t'.willSettle sl = true ∨ op = .clear sl ∨
      ∃ st, t = .start st ∧ st.pc = .checkStale ∧ op = .skip ∧ (m.sessionGen = st.mark ∨
        (m.session st.engine).running = true ∧ st.mark < (m.session st.engine).instanceGen) := by
  obtain ⟨s, s', rfl, rfl, hs⟩ | ⟨s, s', rfl, rfl, hs⟩ | ⟨rfl, rfl, rfl⟩ := Thread.plan_cases hplan
  · obtain ⟨e', opts, mark, pc⟩ := s
    cases pc with
    | body b => cases b <;> grind -linarith
    | endLoops sl' => grind -linarith [Slot.rank_inj, Slot.rank_le]
    | _ => grind -linarith
  · cases hsettle
  · cases hsettle

theorem willClear_step (hplan : t.plan m c = some (op, t')) (hclear : t.willClear sl = true) :
    t'.willClear sl = true ∨ op = .clear sl := by
  obtain ⟨s, s', rfl, rfl, hs⟩ | ⟨s, s', rfl, rfl, hs⟩ | ⟨rfl, rfl, rfl⟩ := Thread.plan_cases hplan
  · obtain ⟨e', opts, mark, pc⟩ := s
    cases pc with
    | body b => cases b <;> grind -linarith
    | clearSlot sl' => grind -linarith [Slot.rank_inj, Slot.rank_le]
    | _ => grind -linarith
  · obtain ⟨e', gen, pc⟩ := s
    cases pc with
    | clearSlot sl' => grind -linarith [Slot.rank_inj, Slot.rank_le]
    | _ => grind -linarith
  · cases hclear

/-- A start that comes to a slot arms it, clears it, or finds it empty. -/
theorem willFill_step {s : State} (htidy : t.Tidy s) (hplan : t.plan s.mem c = some (op, t'))
    (hloop : sl.rank < 3) (hfill : t.willFill sl = true) :
    t'.willFill sl = true ∨ op = .fill sl ∨ (sl = .ipResolve ∧ op = .clear sl) ∨
      (sl = .selWatch ∧ s.mem.slot sl = none) ∨ ∃ st b, t = .start st ∧ op = .rollback st.engine b := by
  obtain ⟨st, st', rfl, rfl, hs⟩ | ⟨st, st', rfl, rfl, hs⟩ | ⟨rfl, rfl, rfl⟩ := Thread.plan_cases hplan
  · obtain ⟨e', opts, mark, pc⟩ := st
    have hwatch := htidy.2
    cases pc with
    | body b => cases b <;> cases sl <;> grind -linarith
    | _ => grind -linarith
  · cases hfill
  · cases hfill

theorem clear_liveness_step (hfact : t.Fact i m) (hplan : t.plan m c = some (.clear .liveness, t')) :
    t'.willMove = true ∨ ∃ st, t = .start st ∧ st.mark ≤ m.sessionGen ∧
      (Replaces m st ∨ st.pc = .endLoops .liveness) := by
  obtain ⟨s, s', rfl, rfl, hs⟩ | ⟨s, s', rfl, rfl, hs⟩ | ⟨rfl, hop, rfl⟩ := Thread.plan_cases hplan
  · right
    refine ⟨s, rfl, ?_⟩
    obtain ⟨e', opts, mark, pc⟩ := s
    cases pc with
    | body b => cases b <;> grind -linarith
    | _ => grind -linarith
  · obtain ⟨e', gen, pc⟩ := s
    cases pc <;> grind -linarith
  · cases hop

theorem bump_of_willMove (hplan : t.plan m c = some (op, t')) (hmove : t.willMove = true) : op = .bump := by
  obtain ⟨s, s', rfl, rfl, hs⟩ | ⟨s, s', rfl, rfl, hs⟩ | ⟨rfl, rfl, rfl⟩ := Thread.plan_cases hplan
  · cases hmove
  · obtain ⟨e', gen, pc⟩ := s
    cases pc <;> grind -linarith
  · cases hmove

theorem stopLocked_step (sl : Slot) (hfact : t.Fact i m) (hplan : t.plan m c = some (.stopLocked e, t'))
    (hrunning : (m.session e).running = true) :
    (∀ sl, m.slot sl = none) ∨ t.willStop e (m.session e).instanceGen = true ∧ t.willSettle sl = false := by
  obtain ⟨s, s', rfl, rfl, hs⟩ | ⟨s, s', rfl, rfl, hs⟩ | ⟨rfl, hop, rfl⟩ := Thread.plan_cases hplan
  · obtain ⟨e', opts, mark, pc⟩ := s
    cases pc with
    | body b => cases b <;> grind -linarith
    | _ => grind -linarith
  · obtain ⟨e', gen, pc⟩ := s
    cases pc <;> grind -linarith
  · cases hop

theorem rollback_step {b : Bool} (hplan : t.plan m c = some (.rollback e b, t')) :
    ∃ st, t = .start st ∧ st.pc = .body .started := by
  obtain ⟨s, s', rfl, rfl, hs⟩ | ⟨s, s', rfl, rfl, hs⟩ | ⟨rfl, hop, rfl⟩ := Thread.plan_cases hplan
  · refine ⟨s, rfl, ?_⟩
    obtain ⟨e', opts, mark, pc⟩ := s
    cases pc with
    | body b => cases b <;> grind -linarith
    | _ => grind -linarith
  · obtain ⟨e', gen, pc⟩ := s
    cases pc <;> grind -linarith
  · cases hop

theorem up_step (hfact : t.Fact i m) (hplan : t.plan m c = some (.up e, t')) :
    ∃ st st', t = .start st ∧ st.pc = .body .up ∧ t' = .start st' ∧ st'.engine = e ∧
      st'.mark = (m.session e).instanceGen ∧ st'.pc.isUp = true ∧ ∀ sl, t'.willFill sl = true := by
  obtain ⟨st, rfl, rfl, hpc, rfl⟩ := Thread.plan_up hplan
  refine ⟨st, _, rfl, hpc, rfl, rfl, ?_⟩
  obtain ⟨e', opts, mark, pc⟩ := st
  cases hpc
  grind -linarith

/-- A stop gets to its body through the move of the generation, which it makes before it clears. -/
theorem willStop_back (hplan : t.plan m c = some (op, t')) (hstop : t'.willStop e g = true) :
    t.willStop e g = true ∨ ∃ st, t = .stop st ∧ st.engine = e ∧ st.pc = .clearGen ∧
      ∀ sl, 0 < sl.rank → t'.willClear sl = true := by
  obtain ⟨s, s', rfl, rfl, hs⟩ | ⟨s, s', rfl, rfl, hs⟩ | ⟨rfl, rfl, rfl⟩ := Thread.plan_cases hplan
  · cases hstop
  · obtain ⟨e', gen, pc⟩ := s
    cases pc <;> grind -linarith
  · cases hstop

/-- A start takes the loops down when it finds its session ended and no newer instance of its engine. -/
theorem endLoops_back {st' : Start} (hplan : t.plan m c = some (op, .start st'))
    (hpc : st'.pc = .endLoops .liveness) :
    ∃ st, t = .start st ∧ st.pc = .checkStale ∧ op = .skip ∧ m.sessionGen ≠ st.mark ∧
      ¬((m.session st.engine).running = true ∧ st.mark < (m.session st.engine).instanceGen) := by
  obtain ⟨s, s', rfl, heq, hs⟩ | ⟨s, s', rfl, heq, hs⟩ | ⟨rfl, rfl, heq⟩ := Thread.plan_cases hplan
  · cases heq
    refine ⟨s, rfl, ?_⟩
    obtain ⟨e', opts, mark, pc⟩ := s
    cases pc with
    | body b => cases b <;> grind -linarith
    | _ => grind -linarith
  · cases heq
  · cases heq

theorem lt_of_willStop (hfact : t.Fact i m) (hstop : t.willStop e g = true) : g < m.sessionGen := by
  cases t with
  | stop s => grind -linarith
  | _ => cases hstop

theorem holdsMutex_of_willFill (hfill : t.willFill sl = true) : t.holdsMutex = true := by
  cases t with
  | start s =>
      obtain ⟨e', opts, mark, pc⟩ := s
      cases pc <;> first | rfl | cases hfill
  | _ => cases hfill

end Step

/-! ### The start of a running instance -/

/-- The start of a running instance is there, past the place its engine came up at. -/
def UpOwned (s : State) : Prop :=
  ∀ e, (s.mem.session e).running = true →
    ∃ st, s.threads[(s.mem.session e).startedBy]? = some (.start st) ∧ st.engine = e ∧
      st.mark = (s.mem.session e).instanceGen ∧ st.pc.isUp = true

theorem UpOwned.step {s s' : State} {c : Choice} {t t' : Thread} (hup : UpOwned s) (hsound : Sound s)
    (h : StepOf s s' i c t t' op) : UpOwned s' := by
  intro e hrunning
  obtain ⟨hgen, ⟨rfl, hmine⟩ | ⟨hran, hby⟩⟩ := h.running_cases hsound hrunning
  · obtain ⟨st, st', -, -, rfl, hengine, hmark, hup, -⟩ := up_step (hsound.2 i t h.thread) h.plan
    rw [hgen, hmine]
    exact ⟨st', h.getElem?_self, hengine, hmark, hup⟩
  · obtain ⟨st, hthread, hengine, hmark, hup⟩ := hup e hran
    rw [hgen, hby]
    by_cases hki : (s.mem.session e).startedBy = i
    · rw [hki] at hthread ⊢
      cases Option.some.inj (h.thread.symm.trans hthread)
      obtain ⟨_, st', hstart, rfl, hst⟩ | ⟨_, _, hstop, -⟩ | ⟨hworker, -⟩ := Thread.plan_cases h.plan
      · cases hstart
        obtain ⟨hengine', hmark', hup' | ⟨b, rfl⟩⟩ := isUp_step hst hup
        · exact ⟨st', h.getElem?_self, hengine'.trans hengine, hmark'.trans hmark, hup'⟩
        · rw [h.mem, Op.apply_running] at hrunning
          simp [hengine] at hrunning
      · cases hstop
      · cases hworker
    · exact ⟨st, by rw [h.getElem?, if_neg hki, hthread], hengine, hmark, hup⟩

theorem UpOwned.spawn {s : State} (hup : UpOwned s) (t : Thread) : UpOwned ⟨s.mem, s.threads ++ [t]⟩ := by
  intro e hrunning
  obtain ⟨st, hst, hrest⟩ := hup e hrunning
  refine ⟨st, ?_, hrest⟩
  rw [List.getElem?_append_left (List.getElem?_eq_some_iff.mp hst).1, hst]

end GlitchCore.Core
