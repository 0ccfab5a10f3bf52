import GlitchCore.Core.Arming

/-!
# Whose bridge runs

xray and mihomo share one tun2socks bridge, which carries no owner. `mihomoStopLocked` stops it only with its
own engine; `xrayStopLocked` stops it whatever runs. A stop of xray that was taken while xray was only
starting can wait for `coreMutex` until mihomo is up, and then stops mihomo's bridge under it. Where no stop of
xray does, an engine that came up on the bridge keeps it for as long as it runs.
-/

namespace GlitchCore.Core

open Interleaving

variable {i j : Nat} {m : Memory} {e : EngineId} {op : Op}

def Thread.bridged : Thread → Bool
  | .start st => st.opts.bridge
  | _ => false

/-- An instance runs that its start put on the bridge; awg has no bridge. -/
def State.OnBridge (s : State) (e : EngineId) : Prop :=
  (s.mem.session e).running = true ∧ e ≠ .awg ∧
    ∃ t ∈ s.threads[(s.mem.session e).startedBy]?, t.bridged = true

instance (s : State) (e : EngineId) : Decidable (s.OnBridge e) := inferInstanceAs (Decidable (_ ∧ _ ∧ _))

/-- With no body under way, an engine on the bridge has the bridge running. -/
def BridgeFollows (s : State) : Prop :=
  s.mem.coreMutex = none → ∀ e, s.OnBridge e → s.mem.tun2socks.isSome = true

instance (s : State) : Decidable (BridgeFollows s) := inferInstanceAs (Decidable (_ → _))

/-- A stop of xray is taken while xray is starting, the start finds its session ended, mihomo comes up, and
then the stop's body runs. -/
def orphanedStop : List Action :=
  [.spawn (.start .xray ⟨true, true, true, true⟩)] ++ proceed 0 7 ++ [.spawn (.stop .xray)] ++ proceed 1 8 ++
    proceed 0 4 ++ [.spawn (.start .mihomo ⟨true, true, true, true⟩)] ++ proceed 2 25 ++ proceed 1 5

theorem bridge_stopped_orphanedStop : ∃ s, Reachable s ∧ Quiet s ∧ s.OnBridge .mihomo ∧ ¬BridgeFollows s := by
  obtain ⟨s, hs⟩ : ∃ s, trace orphanedStop = some s := Option.isSome_iff_exists.mp (by decide)
  have hend := of_run (fun s => decide (Quiet s ∧ s.OnBridge .mihomo ∧ ¬BridgeFollows s)) hs (a := true) (by decide)
  exact ⟨s, reachable_of_trace hs, of_decide_eq_true hend⟩

/-- The body of a stop of xray does not come to `xrayStopLocked` while mihomo runs on the bridge. -/
def Thread.SparesBridge (s : State) : Thread → Prop
  | .stop st => st.pc = .teardown → st.engine = .xray → ¬s.OnBridge .mihomo
  | _ => True

instance (s : State) : (t : Thread) → Decidable (t.SparesBridge s)
  | .start _ | .ipWorker _ => instDecidableTrue
  | .stop _ => inferInstanceAs (Decidable (_ → _ → _))

def SparingStep (s : State) : Action → Prop
  | .spawn _ => True
  | .run i _ => ∀ t ∈ s.threads[i]?, t.SparesBridge s

instance (s : State) : (a : Action) → Decidable (SparingStep s a)
  | .spawn _ => instDecidableTrue
  | .run i _ => inferInstanceAs (Decidable (∀ t ∈ s.threads[i]?, t.SparesBridge s))

/-! ### One step -/

@[grind =]
theorem Op.apply_tun2socks : (op.apply i m).tun2socks =
    match op with
    | .startBridge => some i
    | .stopBridge | .stopLocked .xray | .rollback _ true => none
    | .stopLocked .mihomo => if (m.session .mihomo).running then none else m.tun2socks
    | _ => m.tun2socks := by
  cases op with
  | stopLocked e => cases e <;> rfl
  | rollback e bridge => cases bridge <;> rfl
  | _ => rfl

section Step

variable {t t' : Thread} {c : Choice}

/-- The bridge of a running instance is left alone by every step but an xray stop's. -/
theorem bridge_kept (hm : Engines m) (hfact : t.Fact i m) (hplan : t.plan m c = some (op, t'))
    (hran : (m.session e).running = true) (hrunning : ((op.apply i m).session e).running = true) (he : e ≠ .awg)
    (howned : m.tun2socks = some (m.session e).startedBy)
    (hspares : ∀ st, t = .stop st → st.pc = .teardown → st.engine = .xray → e ≠ .mihomo) :
    (op.apply i m).tun2socks = some (m.session e).startedBy := by
  have halone := fun e' => hm.alone e e' hran
  obtain ⟨s, s', rfl, rfl, hs⟩ | ⟨s, s', rfl, rfl, hs⟩ | ⟨rfl, rfl, rfl⟩ := Thread.plan_cases hplan
  · obtain ⟨e', opts, mark, pc⟩ := s
    cases pc with
    | body b => cases b <;> grind -linarith
    | _ => grind -linarith
  · obtain ⟨e', gen, pc⟩ := s
    have hspares := hspares _ rfl
    cases pc <;> cases e' <;> cases e <;> grind -linarith
  · exact howned

theorem bridged_step (hplan : t.plan m c = some (op, t')) : t'.bridged = t.bridged := by
  obtain ⟨s, s', rfl, rfl, hs⟩ | ⟨s, s', rfl, rfl, hs⟩ | ⟨rfl, rfl, rfl⟩ := Thread.plan_cases hplan
  · obtain ⟨e', opts, mark, pc⟩ := s
    cases pc <;> grind -linarith [Thread.bridged]
  · rfl
  · rfl

/-- mihomo comes up behind its bridge. -/
theorem ready_step {st st' : Start} (hplan : st.plan m c = some (op, st')) (hengine : st'.engine = .mihomo)
    (hbridge : st'.opts.bridge = true) (hpc : st'.pc = .body .storeGen ∨ st'.pc = .body .up)
    (hready : st.engine = .mihomo → st.opts.bridge = true → st.pc = .body .storeGen ∨ st.pc = .body .up →
      m.tun2socks = some i) : (op.apply i m).tun2socks = some i := by
  obtain ⟨e', opts, mark, pc⟩ := st
  cases pc with
  | body b => cases b <;> grind -linarith
  | _ => grind -linarith

/-- xray has its bridge when it leaves the place between its flag and its start, or is down. -/
theorem started_step {st st' : Start} (hplan : st.plan m c = some (op, st')) (hpc : st.pc = .body .started)
    (hbridge : st.opts.bridge = true) (hrunning : ((op.apply i m).session st.engine).running = true) :
    (op.apply i m).tun2socks = some i := by
  obtain ⟨e', opts, mark, pc⟩ := st
  cases hpc
  grind -linarith

theorem Stop.leaves_others {st : Stop} (hplan : (Thread.stop st).plan m c = some (op, t')) (hne : e ≠ st.engine)
    (hran : (m.session e).running = true) : ((op.apply i m).session e).running = true := by
  obtain ⟨_, _, hstart, -⟩ | ⟨_, st', hstop, -, hst⟩ | ⟨hworker, -⟩ := Thread.plan_cases hplan
  · cases hstart
  · cases hstop
    obtain ⟨e', gen, pc⟩ := st
    cases pc <;> grind -linarith
  · cases hworker

end Step

/-- Under `coreMutex` nobody else touches the bridge. -/
theorem Op.Allowed.tun2socks (hop : op.Allowed i m) (hij : i ≠ j) (hj : m.coreMutex = some j) :
    (op.apply i m).tun2socks = m.tun2socks := by
  cases op <;> grind -linarith

/-! ### Whole runs -/

structure Bridged (s : State) : Prop where
  up : UpOwned s
  owned : ∀ e, s.OnBridge e → s.mem.tun2socks = some (s.mem.session e).startedBy ∨
    ∃ st, s.threads[(s.mem.session e).startedBy]? = some (.start st) ∧ st.pc = .body .started
  ready : ∀ (k : Nat) (st : Start), s.threads[k]? = some (.start st) → st.engine = .mihomo →
    st.opts.bridge = true → st.pc = .body .storeGen ∨ st.pc = .body .up → s.mem.tun2socks = some k

section Run

variable {s s' : State} {c : Choice} {t t' : Thread}

variable (hs : Bridged s) (hsound : Sound s) (h : StepOf s s' i c t t' op)

include hs hsound h

theorem Bridged.ready_step (k : Nat) (st : Start) (hthread : s'.threads[k]? = some (.start st))
    (hengine : st.engine = .mihomo) (hbridge : st.opts.bridge = true)
    (hpc : st.pc = .body .storeGen ∨ st.pc = .body .up) : s'.mem.tun2socks = some k := by
  rw [h.getElem?] at hthread
  rw [h.mem]
  by_cases hki : k = i
  · subst hki
    rw [if_pos rfl] at hthread
    cases hthread
    obtain ⟨st₀, st', rfl, hstart, hst⟩ | ⟨_, _, -, hstop, -⟩ | ⟨-, -, hworker⟩ := Thread.plan_cases h.plan
    · cases hstart
      exact Core.ready_step hst hengine hbridge hpc (hs.ready k st₀ h.thread)
    · cases hstop
    · cases hworker
  · rw [if_neg hki] at hthread
    have hholds : (Thread.start st).holdsMutex = true := by
      obtain hpc | hpc := hpc <;> simp [Thread.holdsMutex, Start.holdsMutex, hpc]
    have hmutex := (hsound.2 k _ hthread).1 hholds
    have hop := Thread.allowed (hsound.2 i t h.thread) h.plan
    rw [hop.tun2socks (Ne.symm hki) hmutex]
    exact hs.ready k st hthread hengine hbridge hpc

theorem Bridged.owned_step (hspares : t.SparesBridge s) (e : EngineId) (hon : s'.OnBridge e) :
    s'.mem.tun2socks = some (s'.mem.session e).startedBy ∨
      ∃ st, s'.threads[(s'.mem.session e).startedBy]? = some (.start st) ∧ st.pc = .body .started := by
  obtain ⟨hrunning, he, u, hu, hbridged⟩ := hon
  have hfact := hsound.2 i t h.thread
  obtain ⟨-, ⟨rfl, hmine⟩ | ⟨hran, hby⟩⟩ := h.running_cases hsound hrunning
  · rw [hmine] at hu ⊢
    cases Option.some.inj (h.getElem?_self.symm.trans hu)
    obtain ⟨st, rfl, rfl, hpc, rfl⟩ := Thread.plan_up h.plan
    cases hengine : st.engine with
    | xray => exact .inr ⟨_, h.getElem?_self, by simp [hengine]⟩
    | awg => exact absurd hengine he
    | mihomo =>
        left
        rw [h.mem, Op.apply_tun2socks]
        exact hs.ready i st h.thread hengine hbridged (.inr hpc)
  · rw [hby] at hu ⊢
    -- The start asked for the bridge before the step too.
    have hon : s.OnBridge e := by
      refine ⟨hran, he, ?_⟩
      rw [h.getElem?] at hu
      by_cases hki : (s.mem.session e).startedBy = i
      · rw [if_pos hki] at hu
        cases hu
        rw [hki]
        exact ⟨t, h.thread, (bridged_step h.plan).symm.trans hbridged⟩
      · rw [if_neg hki] at hu
        exact ⟨u, hu, hbridged⟩
    obtain howned | ⟨st, hthread, hpc⟩ := hs.owned e hon
    · left
      rw [h.mem] at hrunning ⊢
      refine bridge_kept hsound.1 hfact h.plan hran hrunning he howned ?_
      intro st hst hpc hengine hmihomo
      subst hst hmihomo
      exact hspares hpc hengine hon
    · by_cases hki : (s.mem.session e).startedBy = i
      · left
        rw [hki] at hthread ⊢
        cases Option.some.inj (h.thread.symm.trans hthread)
        obtain ⟨_, st', hstart, rfl, hst⟩ | ⟨_, _, hstop, -⟩ | ⟨hworker, -⟩ := Thread.plan_cases h.plan
        · cases hstart
          obtain ⟨st₀, hthread₀, hengine, -⟩ := hs.up e hran
          rw [hki, h.thread] at hthread₀
          cases hthread₀
          obtain ⟨-, -, u₀, hu₀, hbridged₀⟩ := hon
          rw [hki, h.thread] at hu₀
          cases Option.some.inj hu₀
          rw [h.mem] at hrunning ⊢
          exact started_step hst hpc hbridged₀ (hengine ▸ hrunning)
        · cases hstop
        · cases hworker
      · exact .inr ⟨st, by rw [h.getElem?, if_neg hki, hthread], hpc⟩

theorem Bridged.run_step (hspares : t.SparesBridge s) : Bridged s' where
  up := UpOwned.step hs.up hsound h
  owned := hs.owned_step hsound h hspares
  ready := hs.ready_step hsound h

end Run

theorem Bridged.init : Bridged State.init := by
  constructor <;> simp [UpOwned, State.OnBridge, State.init, Memory.init]

theorem Bridged.spawn {s : State} (hs : Bridged s) (r : Request) : Bridged ⟨s.mem, s.threads ++ [r.thread]⟩ := by
  refine ⟨UpOwned.spawn hs.up r.thread, ?_, ?_⟩
  · intro e hon
    obtain ⟨hrunning, he, t, ht, hbridged⟩ := hon
    obtain ⟨st, hst, -⟩ := hs.up e hrunning
    have hlt := (List.getElem?_eq_some_iff.mp hst).1
    rw [List.getElem?_append_left hlt] at ht ⊢
    exact hs.owned e ⟨hrunning, he, t, ht, hbridged⟩
  · intro k st hst hengine hbridge hpc
    obtain hold | ⟨-, hnew⟩ := Program.getElem?_spawn hst
    · exact hs.ready k st hold hengine hbridge hpc
    · cases r <;> cases hnew
      obtain hpc | hpc := hpc <;> cases hpc

theorem Bridged.of_reaches {s : State} (hs : controller.Reaches SparingStep State.init s) : Bridged s := by
  refine Sound.invariant hs Bridged Bridged.init (fun s r hbridged => hbridged.spawn r) ?_
  intro s s' i c t t' op hbridged hsound hok h
  exact hbridged.run_step hsound h (hok t h.thread)

theorem bridge_follows_owner {s : State} (hs : controller.Reaches SparingStep State.init s) :
    BridgeFollows s ∧
      ∀ i c st s', s.threads[i]? = some (.stop st) → SparingStep s (.run i c) →
        controller.step s (.run i c) = some s' → ∀ e, e ≠ st.engine → s.OnBridge e →
        s.mem.tun2socks = some (s.mem.session e).startedBy → s'.mem.tun2socks = s.mem.tun2socks := by
  have hsound := Sound.of_reaches hs
  have hbridged := Bridged.of_reaches hs
  constructor
  · intro hfree e hon
    obtain howned | ⟨st, hthread, hpc⟩ := hbridged.owned e hon
    · rw [howned]
      rfl
    · have hmutex := (hsound.2 _ _ hthread).1 (by simp [Thread.holdsMutex, Start.holdsMutex, hpc])
      rw [hfree] at hmutex
      cases hmutex
  · intro i c st s' hi hok hstep e hne hon howned
    obtain ⟨t, t', op, h⟩ := stepOf hstep
    cases hi.symm.trans h.thread
    have hran := hon.1
    have he := hon.2.1
    have hrunning : (s'.mem.session e).running = true := by
      rw [h.mem]
      exact Stop.leaves_others h.plan hne hran
    rw [h.mem] at hrunning ⊢
    rw [howned]
    refine bridge_kept hsound.1 (hsound.2 i _ hi) h.plan hran hrunning he howned ?_
    intro st' hst hpc hengine hmihomo
    cases hst
    subst hmihomo
    exact hok _ hi hpc hengine hon

theorem bridge_follows_owner_supersededStop : ∃ s : State,
    controller.run SparingStep State.init supersededStop = some s ∧ s.OnBridge .xray ∧ BridgeFollows s := by
  obtain ⟨s, hs⟩ : ∃ s, controller.run SparingStep State.init supersededStop = some s :=
    Option.isSome_iff_exists.mp (by decide)
  have hon := of_run (fun s => decide (State.OnBridge s .xray)) hs (a := true) (by decide)
  exact ⟨s, hs, of_decide_eq_true hon, (bridge_follows_owner (Program.reaches_of_run hs)).1⟩

end GlitchCore.Core
