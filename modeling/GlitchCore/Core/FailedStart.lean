import GlitchCore.Core.Generations

/-!
# The tail of a failed start

A start that fails clears the session state as a stop does (`clearSessionState`), and a failed link pick of
awg too. It does not ask whose session that is, as `abortStaleEngineSession` does for the loops: when the
start failed because another engine is up, the session it clears is that engine's.
-/

namespace GlitchCore.Core

open Interleaving

/-- The places of the tail of a start that returned an error, or could not pick its link. -/
def StartPc.failedTail : StartPc → Bool
  | .clearGen | .clearSlot _ | .error => true
  | _ => false

/-- The session of a running instance is as it was. -/
structure SessionKept (m m' : Memory) : Prop where
  sessionGen : m'.sessionGen = m.sessionGen
  selWatch : m'.slot .selWatch = m.slot .selWatch
  ipResolve : m'.slot .ipResolve = m.slot .ipResolve
  ipStateJSON : m'.ipStateJSON = m.ipStateJSON
  serverSel : m'.slot .serverSel = m.slot .serverSel

/-- The access the tail makes next has nothing to change. The first one, the move of the generation, always
has; the liveness loop is not among what a failed start takes down. -/
def StartPc.emptiesNothing (m : Memory) : StartPc → Bool
  | .clearGen => false
  | .clearSlot sl => decide (sl ≠ .liveness → m.slot sl = none ∧ (sl = .ipResolve → m.ipStateJSON = none))
  | _ => true

def Thread.emptiesNothing (m : Memory) : Thread → Bool
  | .start st => st.pc.emptiesNothing m
  | _ => true

/-- The mihomo start that lost to the xray start comes to its tail. -/
def lostStart : List Action := racingStarts ++ proceed 1 1

theorem failed_tail_moves_generation_lostStart : ∃ s s' st, Reachable s ∧ s.threads[1]? = some (.start st) ∧
    st.pc.failedTail = true ∧ (s.mem.session .xray).running = true ∧ (s.mem.session .xray).startedBy = 0 ∧
    controller.step s (.run 1 .ok) = some s' ∧ ¬SessionKept s.mem s'.mem := by
  obtain ⟨s, hs⟩ : ∃ s, trace lostStart = some s := Option.isSome_iff_exists.mp (by decide)
  have hthread := of_run (fun s => s.threads[1]?) hs
    (a := some (.start ⟨.mihomo, ⟨true, true, true, true⟩, 0, .clearGen⟩)) (by decide)
  have hxray := of_run (fun s => ((s.mem.session .xray).running, (s.mem.session .xray).startedBy)) hs
    (a := (true, 0)) (by decide)
  have hgen := of_run (fun s => ((controller.step s (.run 1 .ok)).map fun s' => s'.mem.sessionGen)) hs
    (a := some 1) (by decide)
  have hbefore := of_run (fun s => s.mem.sessionGen) hs (a := 0) (by decide)
  obtain ⟨s', hstep, hafter⟩ := Option.map_eq_some_iff.mp hgen
  refine ⟨s, s', _, reachable_of_trace hs, hthread, rfl, congrArg Prod.fst hxray, congrArg Prod.snd hxray, hstep, ?_⟩
  intro hkept
  rw [hkept.sessionGen, hbefore] at hafter
  cases hafter

theorem sessionKept_iff (m m' : Memory) : SessionKept m m' ↔
    m'.sessionGen = m.sessionGen ∧ (∀ sl, sl ≠ .liveness → m'.slot sl = m.slot sl) ∧
      m'.ipStateJSON = m.ipStateJSON := by
  constructor
  · intro h
    refine ⟨h.sessionGen, fun sl hne => ?_, h.ipStateJSON⟩
    cases sl with
    | liveness => exact absurd rfl hne
    | selWatch => exact h.selWatch
    | ipResolve => exact h.ipResolve
    | serverSel => exact h.serverSel
  · intro h
    obtain ⟨hgen, hslot, hstate⟩ := h
    exact ⟨hgen, hslot _ (by decide), hslot _ (by decide), hstate, hslot _ (by decide)⟩

theorem SessionKept.refl (m : Memory) : SessionKept m m := ⟨rfl, rfl, rfl, rfl, rfl⟩

theorem SessionKept.trans {m m' m'' : Memory} (h : SessionKept m m') (h' : SessionKept m' m'') :
    SessionKept m m'' :=
  ⟨h'.sessionGen.trans h.sessionGen, h'.selWatch.trans h.selWatch, h'.ipResolve.trans h.ipResolve,
    h'.ipStateJSON.trans h.ipStateJSON, h'.serverSel.trans h.serverSel⟩

instance (m m' : Memory) : Decidable (SessionKept m m') := decidable_of_iff' _ (sessionKept_iff m m')

theorem sessionKept_clear (i : Nat) (m : Memory) (sl : Slot) :
    SessionKept m ((Op.clear sl).apply i m) ↔ (StartPc.clearSlot sl).emptiesNothing m = true := by
  rw [sessionKept_iff, StartPc.emptiesNothing, decide_eq_true_eq]
  grind -linarith

/-! ### Whole tails -/

@[grind]
def StartPc.pastBody : StartPc → Bool
  | .clearGen | .clearSlot _ | .error | .finish | .done => true
  | _ => false

/-- Nobody but thread `i` touches the session. -/
def OthersKeep (i : Nat) (s : State) : Action → Prop
  | .spawn _ => True
  | .run j c => j = i ∨ ∀ s' ∈ controller.step s (.run j c), SessionKept s.mem s'.mem

def TailIdle (i : Nat) (s : State) : Action → Prop
  | .spawn _ => True
  | .run j _ => j = i → ∀ t ∈ s.threads[i]?, t.emptiesNothing s.mem = true

instance (i : Nat) (s : State) : (a : Action) → Decidable (OthersKeep i s a)
  | .spawn _ => instDecidableTrue
  | .run _ _ => inferInstanceAs (Decidable (_ ∨ _))

instance (i : Nat) (s : State) : (a : Action) → Decidable (TailIdle i s a)
  | .spawn _ => instDecidableTrue
  | .run _ _ => inferInstanceAs (Decidable (_ → _))

/-- The session has moved on or lost something, and gained nothing. -/
structure Worn (m m' : Memory) : Prop where
  sessionGen : m.sessionGen ≤ m'.sessionGen
  slot : ∀ sl, sl ≠ .liveness → m'.slot sl = m.slot sl ∨ m'.slot sl = none
  ipStateJSON : m'.ipStateJSON = m.ipStateJSON ∨ m'.ipStateJSON = none

theorem SessionKept.worn {m m' : Memory} (hkept : SessionKept m m') : Worn m m' := by
  obtain ⟨hgen, hslot, hstate⟩ := (sessionKept_iff m m').mp hkept
  exact ⟨hgen.ge, fun sl hne => .inl (hslot sl hne), .inl hstate⟩

theorem SessionKept.worn_and {m m' : Memory} {P : Prop} (hkept : SessionKept m m') (hP : P) :
    Worn m m' ∧ (SessionKept m m' ↔ P) :=
  ⟨hkept.worn, iff_of_true hkept hP⟩

theorem Worn.trans {m m' m'' : Memory} (h : Worn m m') (h' : Worn m' m'') : Worn m m'' := by
  refine ⟨h.sessionGen.trans h'.sessionGen, fun sl hne => ?_, ?_⟩
  · obtain hslot | hslot := h'.slot sl hne
    · rw [hslot]
      exact h.slot sl hne
    · exact .inr hslot
  · obtain hstate | hstate := h'.ipStateJSON
    · rw [hstate]
      exact h.ipStateJSON
    · exact .inr hstate

/-- What is lost does not come back. -/
theorem Worn.kept {m m' m'' : Memory} (h : Worn m m') (h' : Worn m' m'') (hkept : SessionKept m m'') :
    SessionKept m m' ∧ SessionKept m' m'' := by
  obtain ⟨hgen, hslot, hstate⟩ := (sessionKept_iff m m'').mp hkept
  have hgen' : m'.sessionGen = m.sessionGen := le_antisymm (hgen ▸ h'.sessionGen) h.sessionGen
  have hslot' : ∀ sl, sl ≠ .liveness → m'.slot sl = m.slot sl := by
    intro sl hne
    have hold := h.slot sl hne
    have hnew := h'.slot sl hne
    rw [hslot sl hne] at hnew
    grind -linarith
  have hstate' : m'.ipStateJSON = m.ipStateJSON := by
    have hold := h.ipStateJSON
    have hnew := h'.ipStateJSON
    rw [hstate] at hnew
    grind -linarith
  refine ⟨(sessionKept_iff ..).mpr ⟨hgen', hslot', hstate'⟩, (sessionKept_iff ..).mpr ?_⟩
  exact ⟨hgen.trans hgen'.symm, fun sl hne => (hslot sl hne).trans (hslot' sl hne).symm, hstate.trans hstate'.symm⟩

def PastBody (i : Nat) (s : State) : Prop := ∃ st, s.threads[i]? = some (.start st) ∧ st.pc.pastBody = true

theorem worn_clear (i : Nat) (m : Memory) (sl : Slot) : Worn m ((Op.clear sl).apply i m) := by
  constructor <;> grind -linarith

theorem tail_step {s s' : State} {i : Nat} {st : Start} {c : Choice} (hi : s.threads[i]? = some (.start st))
    (hpast : st.pc.pastBody = true) (hstep : controller.step s (.run i c) = some s') :
    PastBody i s' ∧ Worn s.mem s'.mem ∧ (SessionKept s.mem s'.mem ↔ st.pc.emptiesNothing s.mem = true) := by
  obtain ⟨t, t', op, h⟩ := stepOf hstep
  cases hi.symm.trans h.thread
  obtain ⟨_, st', hstart, rfl, hst⟩ | ⟨_, _, hstop, -⟩ | ⟨hworker, -⟩ := Thread.plan_cases h.plan
  · cases hstart
    have hpast' : st'.pc.pastBody = true := by
      obtain ⟨e, opts, mark, pc⟩ := st
      cases pc <;> grind -linarith
    refine ⟨⟨st', by rw [h.getElem?, if_pos rfl], hpast'⟩, ?_⟩
    obtain ⟨e, opts, mark, pc⟩ := st
    rw [h.mem]
    cases pc with
    | clearGen =>
        cases hst
        refine ⟨⟨Nat.le_succ _, fun _ _ => .inl rfl, .inl rfl⟩, ?_⟩
        exact iff_of_false (fun hkept => Nat.succ_ne_self _ hkept.sessionGen) Bool.false_ne_true
    | clearSlot sl =>
        cases hst
        exact ⟨worn_clear .., sessionKept_clear ..⟩
    | error | finish =>
        cases hst
        exact SessionKept.worn_and ⟨rfl, rfl, rfl, rfl, rfl⟩ rfl
    | done => cases hst
    | _ => cases hpast
  · cases hstop
  · cases hworker

theorem step_worn {s s' : State} {a : Action} {i : Nat} (hpast : PastBody i s) (hok : OthersKeep i s a)
    (hstep : controller.step s a = some s') :
    PastBody i s' ∧ Worn s.mem s'.mem ∧ (SessionKept s.mem s'.mem ↔ TailIdle i s a) := by
  obtain ⟨st, hi, hpc⟩ := hpast
  cases a with
  | spawn r =>
      cases hstep
      refine ⟨⟨st, ?_, hpc⟩, (SessionKept.refl _).worn_and trivial⟩
      rw [List.getElem?_append_left (List.getElem?_eq_some_iff.mp hi).1, hi]
  | run j c =>
      by_cases hji : j = i
      · subst hji
        obtain ⟨hpast', hworn, hiff⟩ := tail_step hi hpc hstep
        refine ⟨hpast', hworn, hiff.trans ⟨fun hidle _ t ht => ?_, fun hidle => hidle rfl _ hi⟩⟩
        cases Option.some.inj (hi.symm.trans ht)
        exact hidle
      · have hkept : SessionKept s.mem s'.mem := hok.resolve_left hji s' hstep
        obtain ⟨t, t', op, h⟩ := stepOf hstep
        refine ⟨⟨st, ?_, hpc⟩, hkept.worn_and fun hij => absurd hij hji⟩
        rw [h.getElem?, if_neg (Ne.symm hji), hi]

/-- In a run in which nobody else touches the session, it is kept if the tail finds nothing to change at any
of its accesses, and only then. -/
theorem kept_iff_idle {s s' : State} {i : Nat} (hpast : PastBody i s)
    (hrun : controller.Reaches (OthersKeep i) s s') :
    SessionKept s.mem s'.mem ↔
      controller.Reaches (fun u a => OthersKeep i u a ∧ TailIdle i u a) s s' := by
  constructor
  · have hinv : PastBody i s' ∧ Worn s.mem s'.mem ∧ (SessionKept s.mem s'.mem →
        controller.Reaches (fun u a => OthersKeep i u a ∧ TailIdle i u a) s s') := by
      refine hrun.invariant (fun u => PastBody i u ∧ Worn s.mem u.mem ∧ (SessionKept s.mem u.mem →
        controller.Reaches (fun u a => OthersKeep i u a ∧ TailIdle i u a) s u))
        ⟨hpast, (SessionKept.refl _).worn, fun _ => .refl⟩ ?_
      intro u a u' hinv hok hstep
      obtain ⟨hpast, hworn, hreach⟩ := hinv
      obtain ⟨hpast', hworn', hidle⟩ := step_worn hpast hok hstep
      refine ⟨hpast', hworn.trans hworn', fun hkept => ?_⟩
      obtain ⟨hbefore, hlast⟩ := hworn.kept hworn' hkept
      exact (hreach hbefore).step ⟨hok, hidle.mp hlast⟩ hstep
    exact hinv.2.2
  · intro hidle
    have hinv : PastBody i s' ∧ SessionKept s.mem s'.mem := by
      refine hidle.invariant (fun u => PastBody i u ∧ SessionKept s.mem u.mem) ⟨hpast, .refl _⟩ ?_
      intro u a u' hinv hok hstep
      obtain ⟨hpast', -, hkept⟩ := step_worn hinv.1 hok.1 hstep
      exact ⟨hpast', hinv.2.trans (hkept.mpr hok.2)⟩
    exact hinv.2

/-- From the beginning of the tail on, either the start is still there or the generation has moved. -/
theorem generation_after_tail {s s' : State} {i : Nat} {st : Start} (hi : s.threads[i]? = some (.start st))
    (hpc : st.pc = .clearGen) (hrun : controller.Reaches (fun _ _ => True) s s') :
    s.mem.sessionGen ≤ s'.mem.sessionGen ∧
      (s'.threads[i]? = some (.start st) ∨ s.mem.sessionGen < s'.mem.sessionGen) := by
  refine hrun.invariant (fun u => s.mem.sessionGen ≤ u.mem.sessionGen ∧
    (u.threads[i]? = some (.start st) ∨ s.mem.sessionGen < u.mem.sessionGen)) ⟨le_rfl, .inl hi⟩ ?_
  intro u a u' hinv _ hstep
  obtain ⟨hle, hthere⟩ := hinv
  cases a with
  | spawn r =>
      cases hstep
      refine ⟨hle, hthere.imp_left fun hthread => ?_⟩
      rw [List.getElem?_append_left (List.getElem?_eq_some_iff.mp hthread).1, hthread]
  | run j c =>
      obtain ⟨t, t', op, h⟩ := stepOf hstep
      have hmono : u.mem.sessionGen ≤ u'.mem.sessionGen := h.mem ▸ op.sessionGen_le
      refine ⟨hle.trans hmono, ?_⟩
      obtain hthread | hlt := hthere
      · by_cases hij : i = j
        · subst hij
          cases hthread.symm.trans h.thread
          obtain ⟨e, opts, mark, pc⟩ := st
          cases hpc
          cases h.plan
          right
          rw [h.mem]
          exact Nat.lt_succ_of_le hle
        · left
          rw [h.getElem?, if_neg hij, hthread]
      · exact .inr (hlt.trans_le hmono)

theorem failed_tail_keeps_iff {s : State} (hs : Reachable s) {i : Nat} {st : Start} {e : EngineId}
    (hi : s.threads[i]? = some (.start st)) (htail : st.pc.failedTail = true)
    (hrunning : (s.mem.session e).running = true) :
    (∀ s', controller.Reaches (OthersKeep i) s s' →
        (SessionKept s.mem s'.mem ↔
          controller.Reaches (fun u a => OthersKeep i u a ∧ TailIdle i u a) s s')) ∧
      (st.pc = .clearGen → ∀ s' st', controller.Reaches (fun _ _ => True) s s' →
        s'.threads[i]? = some (.start st') → st'.pc ≠ .clearGen →
        ¬SessionKept s.mem s'.mem ∧ (s.mem.session e).instanceGen < s'.mem.sessionGen) := by
  constructor
  · intro s' hrun
    have hpast : st.pc.pastBody = true := by
      obtain ⟨e, opts, mark, pc⟩ := st
      cases pc <;> first | rfl | cases htail
    exact kept_iff_idle ⟨st, hi, hpast⟩ hrun
  · intro hpc s' st' hrun hi' hbegun
    have hlt : s.mem.sessionGen < s'.mem.sessionGen := by
      refine (generation_after_tail hi hpc hrun).2.resolve_left ?_
      intro hthere
      rw [hi'] at hthere
      cases hthere
      exact hbegun hpc
    exact ⟨fun hkept => hlt.ne' hkept.sessionGen, ((Sound.of_reaches hs).1.gen e hrunning).trans_lt hlt⟩

/-- A mihomo start fails in its body and moves the generation, and an xray start of the new session comes up
before the mihomo start goes on. -/
def overtakenTail : List Action :=
  [.spawn (.start .mihomo ⟨true, true, true, true⟩)] ++ proceed 0 11 ++ [.run 0 .fail] ++ proceed 0 2 ++
    [.spawn (.start .xray ⟨true, false, false, false⟩)] ++ proceed 1 25

theorem failed_tail_keeps_iff_lostStart :
    (∃ s s', trace lostStart = some s ∧ controller.run (fun _ _ => True) s (proceed 1 6) = some s' ∧
      (s.mem.session .xray).running = true ∧ ¬SessionKept s.mem s'.mem) ∧
    ∃ s s', trace overtakenTail = some s ∧
      controller.run (fun u a => OthersKeep 0 u a ∧ TailIdle 0 u a) s (proceed 0 5) = some s' ∧
      (s.mem.session .xray).running = true ∧ SessionKept s.mem s'.mem := by
  constructor
  · obtain ⟨s, hs⟩ : ∃ s, trace lostStart = some s := Option.isSome_iff_exists.mp (by decide)
    have hbefore := of_run (fun s => s.threads[1]?) hs
      (a := some (.start ⟨.mihomo, ⟨true, true, true, true⟩, 0, .clearGen⟩)) (by decide)
    have hxray := of_run (fun s => (s.mem.session .xray).running) hs (a := true) (by decide)
    have hgoes := of_run (fun s => (controller.run (fun _ _ => True) s (proceed 1 6)).map fun s' => s'.threads[1]?) hs
      (a := some (some (.start ⟨.mihomo, ⟨true, true, true, true⟩, 0, .done⟩))) (by decide)
    obtain ⟨s', hrun, hafter⟩ := Option.map_eq_some_iff.mp hgoes
    have hnever := (failed_tail_keeps_iff (reachable_of_trace hs) hbefore rfl hxray).2 rfl s' _
      (Program.reaches_of_run hrun) hafter (by decide)
    exact ⟨s, s', hs, hrun, hxray, hnever.1⟩
  · obtain ⟨s, hs⟩ : ∃ s, trace overtakenTail = some s := Option.isSome_iff_exists.mp (by decide)
    have hbefore := of_run (fun s => s.threads[0]?) hs
      (a := some (.start ⟨.mihomo, ⟨true, true, true, true⟩, 0, .clearSlot .selWatch⟩)) (by decide)
    have hxray := of_run (fun s => (s.mem.session .xray).running) hs (a := true) (by decide)
    have hgoes := of_run (fun s => (controller.run (fun u a => OthersKeep 0 u a ∧ TailIdle 0 u a) s
      (proceed 0 5)).isSome) hs (a := true) (by decide)
    obtain ⟨s', hrun⟩ := Option.isSome_iff_exists.mp hgoes
    have hidle := Program.reaches_of_run hrun
    have hkept := (failed_tail_keeps_iff (reachable_of_trace hs) hbefore rfl hxray).1 s'
      (hidle.mono fun _ _ hok => hok.1)
    exact ⟨s, s', hs, hrun, hxray, hkept.mpr hidle⟩

end GlitchCore.Core
