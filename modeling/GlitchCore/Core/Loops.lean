import GlitchCore.Core.Arming

/-!
# The loops of the running session

The invariant behind the ownership of the loops. What is armed has a start behind it that has not looked at
the generation yet, or a thread that will clear it, or the running instance; an instance with a stop on its
way has nothing armed that nobody will take down; and the current session has its liveness loop.
-/

namespace GlitchCore.Core

open Interleaving

variable {i : Nat} {e : EngineId} {op : Op} {sl : Slot}

def State.Finds (s : State) (k : Nat) (p : Thread → Bool) : Prop := ∃ u ∈ s.threads[k]?, p u = true

structure Loops (s : State) : Prop where
  up : ∀ e, (s.mem.session e).running = true →
    ∃ st, s.threads[(s.mem.session e).startedBy]? = some (.start st) ∧ st.engine = e ∧
      st.mark = (s.mem.session e).instanceGen ∧ st.pc.isUp = true
  armed : ∀ sl k, s.mem.slot sl = some k →
    ∃ st, s.threads[k]? = some (.start st) ∧ st.pc.hasArmed = true ∧
      ((s.mem.session st.engine).running = true ∧ (s.mem.session st.engine).startedBy = k ∨
        st.mark < s.mem.sessionGen)
  stale : ∀ (k : Nat) (st : Start), s.threads[k]? = some (.start st) → st.pc = .endLoops .liveness →
    ∀ e, (s.mem.session e).running = true → (s.mem.session e).instanceGen < s.mem.sessionGen
  exclusive : ∀ e, (s.mem.session e).running = true → ∀ sl k, sl.rank < 3 → s.mem.slot sl = some k →
    k = (s.mem.session e).startedBy ∨ s.Finds (s.mem.session e).startedBy (Thread.willFill sl)
  watched : ∀ e, (s.mem.session e).running = true → (s.mem.session e).instanceGen = s.mem.sessionGen →
    s.mem.slot .liveness = some (s.mem.session e).startedBy ∨
      s.Finds (s.mem.session e).startedBy (Thread.willFill .liveness) ∨ ∃ u ∈ s.threads, u.willMove = true
  settled : ∀ sl k, sl.rank < 3 → s.mem.slot sl = some k →
    (∃ e, (s.mem.session e).running = true ∧ (s.mem.session e).startedBy = k) ∨
      s.Finds k (Thread.willSettle sl) ∨ ∃ u ∈ s.threads, u.willClear sl = true
  doomed : ∀ e, (s.mem.session e).running = true →
    (∃ u ∈ s.threads, u.willStop e (s.mem.session e).instanceGen = true) →
    ∀ sl, sl.rank < 3 → s.mem.slot sl = some (s.mem.session e).startedBy →
      s.Finds (s.mem.session e).startedBy (Thread.willSettle sl) ∨ ∃ u ∈ s.threads, u.willClear sl = true

section Run

variable {s s' : State} {c : Choice} {t t' : Thread} {k : Nat} {p : Thread → Bool}

theorem StepOf.finds (h : StepOf s s' i c t t' op) (hk : s.Finds k p) : k = i ∧ p t = true ∨ s'.Finds k p := by
  obtain ⟨u, hu, hp⟩ := hk
  by_cases hki : k = i
  · subst hki
    cases Option.some.inj (h.thread.symm.trans hu)
    exact .inl ⟨rfl, hp⟩
  · refine .inr ⟨u, ?_, hp⟩
    rw [h.getElem?, if_neg hki]
    exact hu

theorem StepOf.finds_self (h : StepOf s s' i c t t' op) (hp : p t' = true) : s'.Finds i p :=
  ⟨t', by rw [h.getElem?, if_pos rfl]; rfl, hp⟩

theorem StepOf.willClear (h : StepOf s s' i c t t' op) (hslot : op ≠ .clear sl)
    (hex : ∃ u ∈ s.threads, u.willClear sl = true) : ∃ u ∈ s'.threads, u.willClear sl = true := by
  obtain hmine | hother := h.keeps hex
  · exact ⟨t', h.mem_threads, (willClear_step h.plan hmine).resolve_right hslot⟩
  · exact hother

variable (hs : Loops s) (hsound : Sound s) (h : StepOf s s' i c t t' op)

include hs hsound h

theorem Loops.stale_step (htidy : t.Tidy s) (k : Nat) (st : Start) (hthread : s'.threads[k]? = some (.start st))
    (hpc : st.pc = .endLoops .liveness) (e : EngineId) (hrunning : (s'.mem.session e).running = true) :
    (s'.mem.session e).instanceGen < s'.mem.sessionGen := by
  rw [h.getElem?] at hthread
  have hfact := hsound.2 i t h.thread
  by_cases hki : k = i
  · rw [if_pos hki] at hthread
    cases hthread
    obtain ⟨st₀, rfl, hcheck, rfl, hmoved, hown⟩ := endLoops_back h.plan hpc
    rw [h.mem] at hrunning ⊢
    have hle := hsound.1.gen e hrunning
    have hmark : st₀.mark ≤ s.mem.sessionGen := hfact.2.1
    by_cases he : e = st₀.engine
    · subst he
      have hnewer : ¬st₀.mark < (s.mem.session st₀.engine).instanceGen := fun hlt => hown ⟨hrunning, hlt⟩
      exact lt_of_le_of_lt (not_lt.mp hnewer) (lt_of_le_of_ne hmark (Ne.symm hmoved))
    · exact lt_of_le_of_ne hle fun hcurrent => hmoved (htidy.1 hcheck e he hrunning hcurrent)
  · rw [if_neg hki] at hthread
    -- The other start is under the mutex, so the engines are as they were.
    have hmutex := (hsound.2 k _ hthread).1 (by simp [Thread.holdsMutex, Start.holdsMutex, hpc])
    have hrely := (Thread.allowed hfact h.plan).rely (Ne.symm hki) hmutex
    rw [h.mem] at hrunning ⊢
    rw [hrely.running] at hrunning
    rw [hrely.instanceGen]
    exact lt_of_lt_of_le (hs.stale k st hthread hpc e hrunning) op.sessionGen_le

theorem Loops.armed_step (sl : Slot) (k : Nat) (hslot : s'.mem.slot sl = some k) :
    ∃ st, s'.threads[k]? = some (.start st) ∧ st.pc.hasArmed = true ∧
      ((s'.mem.session st.engine).running = true ∧ (s'.mem.session st.engine).startedBy = k ∨
        st.mark < s'.mem.sessionGen) := by
  have hfact := hsound.2 i t h.thread
  have hop := Thread.allowed hfact h.plan
  obtain ⟨rfl, rfl⟩ | ⟨hold, -⟩ := Op.slot_of_apply h.mem hslot
  · obtain ⟨st, st', rfl, rfl, hengine, hup, harmed, -⟩ := fill_step hfact h.plan
    refine ⟨st', h.getElem?_self, harmed, .inl ?_⟩
    rw [hengine, h.mem, Op.apply_running, Op.apply_startedBy]
    exact ⟨hup.running, hup.mine⟩
  · obtain ⟨st, hthread, harmed, hkept⟩ := hs.armed sl k hold
    -- The instance is still there, or the generation has passed it.
    have hkept' : (s'.mem.session st.engine).running = true ∧ (s'.mem.session st.engine).startedBy = k ∨
        st.mark < s'.mem.sessionGen := by
      obtain ⟨hran, hby⟩ | hlt := hkept
      · cases hrun : (s'.mem.session st.engine).running with
        | true =>
            obtain ⟨-, ⟨rfl, -⟩ | ⟨-, hby'⟩⟩ := h.running_cases hsound hrun
            · rw [hop.2.1 st.engine] at hran
              cases hran
            · exact .inl ⟨rfl, hby'.trans hby⟩
        | false =>
            rw [h.mem] at hrun
            obtain rfl | ⟨b, rfl⟩ := Op.down_of_apply hran hrun
            · obtain ⟨st₀, hthread₀, -, hmark, -⟩ := hs.up st.engine hran
              rw [hby, hthread] at hthread₀
              cases hthread₀
              right
              rw [h.mem, Op.apply_sessionGen, hmark]
              exact hop.2 hran
            · obtain ⟨st₀, rfl, hpc⟩ := rollback_step h.plan
              have hki : k = i := hby.symm.trans hop.2.2
              rw [hki, h.thread] at hthread
              cases hthread
              rw [hpc] at harmed
              cases harmed
      · exact .inr (lt_of_lt_of_le hlt (h.mem ▸ op.sessionGen_le))
    by_cases hki : k = i
    · subst hki
      cases Option.some.inj (h.thread.symm.trans hthread)
      obtain ⟨_, st', hstart, rfl, hst⟩ | ⟨_, _, hstop, -⟩ | ⟨hworker, -⟩ := Thread.plan_cases h.plan
      · cases hstart
        obtain ⟨hengine, hmark, harmed'⟩ := hasArmed_step hst harmed
        refine ⟨st', h.getElem?_self, harmed', ?_⟩
        rw [hengine, hmark]
        exact hkept'
      · cases hstop
      · cases hworker
    · exact ⟨st, by rw [h.getElem?, if_neg hki, hthread], harmed, hkept'⟩

omit hs hsound h in
theorem Loops.startedBy_of_fill (hsound : Sound s) (h : StepOf s s' i c t t' (.fill sl))
    (hran : (s.mem.session e).running = true) : (s.mem.session e).startedBy = i := by
  obtain ⟨-, e', hran', hmine⟩ := Thread.allowed (hsound.2 i t h.thread) h.plan
  rw [hsound.1.alone e e' hran hran', hmine]

omit hsound in
/-- The start of the running instance comes to arm the slot, or has. -/
theorem Loops.willFill (htidy : t.Tidy s) (hran : (s.mem.session e).running = true)
    (hrunning : (s'.mem.session e).running = true) (hloop : sl.rank < 3)
    (hfill : s.Finds (s.mem.session e).startedBy (Thread.willFill sl)) :
    s'.Finds (s.mem.session e).startedBy (Thread.willFill sl) ∨
      s'.mem.slot sl = some (s.mem.session e).startedBy ∨ sl ≠ .liveness ∧ s'.mem.slot sl = none := by
  obtain ⟨hmine, hmyfill⟩ | hother := h.finds hfill
  · rw [hmine]
    obtain hstill | rfl | ⟨rfl, rfl⟩ | ⟨rfl, hnone⟩ | ⟨st, b, rfl, rfl⟩ := willFill_step htidy h.plan hloop hmyfill
    · exact .inl (h.finds_self hstill)
    · right; left
      rw [h.mem, Op.apply_slot]
      exact if_pos rfl
    · right; right
      rw [h.mem, Op.apply_slot]
      exact ⟨by decide, if_pos rfl⟩
    · cases hslot : s'.mem.slot .selWatch with
      | none => exact .inr (.inr ⟨by decide, rfl⟩)
      | some k =>
          obtain ⟨-, rfl⟩ | ⟨hold, -⟩ := Op.slot_of_apply h.mem hslot
          · exact .inr (.inl rfl)
          · rw [hnone] at hold
            cases hold
    · obtain ⟨st₀, hthread, hengine, -⟩ := hs.up e hran
      rw [hmine, h.thread] at hthread
      cases hthread
      rw [h.mem, Op.apply_running] at hrunning
      simp [hengine] at hrunning
  · exact .inl hother

theorem Loops.exclusive_step (htidy : t.Tidy s) (e : EngineId) (hrunning : (s'.mem.session e).running = true)
    (sl : Slot) (k : Nat) (hloop : sl.rank < 3) (hslot : s'.mem.slot sl = some k) :
    k = (s'.mem.session e).startedBy ∨ s'.Finds (s'.mem.session e).startedBy (Thread.willFill sl) := by
  obtain ⟨-, ⟨rfl, hmine⟩ | ⟨hran, hby⟩⟩ := h.running_cases hsound hrunning
  · obtain ⟨-, -, -, -, -, -, -, -, hfill⟩ := Core.up_step (hsound.2 i t h.thread) h.plan
    rw [hmine]
    exact .inr (h.finds_self (hfill sl))
  · rw [hby]
    obtain ⟨rfl, rfl⟩ | ⟨hold, -⟩ := Op.slot_of_apply h.mem hslot
    · exact .inl (Loops.startedBy_of_fill hsound h hran).symm
    · obtain howner | hfill := hs.exclusive e hran sl k hloop hold
      · exact .inl howner
      · obtain hstill | hfilled | ⟨-, hnone⟩ := hs.willFill h htidy hran hrunning hloop hfill
        · exact .inr hstill
        · exact .inl (Option.some.inj (hslot.symm.trans hfilled))
        · rw [hnone] at hslot
          cases hslot

theorem Loops.watched_step (htidy : t.Tidy s) (e : EngineId) (hrunning : (s'.mem.session e).running = true)
    (hcurrent : (s'.mem.session e).instanceGen = s'.mem.sessionGen) :
    s'.mem.slot .liveness = some (s'.mem.session e).startedBy ∨
      s'.Finds (s'.mem.session e).startedBy (Thread.willFill .liveness) ∨ ∃ u ∈ s'.threads, u.willMove = true := by
  have hfact := hsound.2 i t h.thread
  obtain ⟨hgen, ⟨rfl, hmine⟩ | ⟨hran, hby⟩⟩ := h.running_cases hsound hrunning
  · obtain ⟨-, -, -, -, -, -, -, -, hfill⟩ := Core.up_step (hsound.2 i t h.thread) h.plan
    rw [hmine]
    exact .inr (.inl (h.finds_self (hfill _)))
  · have hle := hsound.1.gen e hran
    have hbump : op ≠ .bump := by
      intro hop
      rw [hgen, h.mem, hop, Op.apply_sessionGen] at hcurrent
      simp only at hcurrent
      omega
    rw [hgen, h.mem, Op.sessionGen_of_ne_bump hbump] at hcurrent
    rw [hby]
    obtain hslot | hfill | hmove := hs.watched e hran hcurrent
    · by_cases hclear : op = .clear .liveness
      · -- Only a stop clears the loop of the current session, and it moves the generation next.
        subst hclear
        obtain hmoves | ⟨st, rfl, hmark, hreplaces | hends⟩ := clear_liveness_step hfact h.plan
        · exact .inr (.inr ⟨t', h.mem_threads, hmoves⟩)
        · cases hsound.1.alone _ _ hran hreplaces.running
          have holder := hreplaces.older
          omega
        · have holder := hs.stale i st h.thread hends e hran
          omega
      · left
        by_cases hfill : op = .fill .liveness
        · subst hfill
          rw [Loops.startedBy_of_fill hsound h hran, h.mem, Op.apply_slot]
          exact if_pos rfl
        · rw [h.mem, Op.slot_of_ne hfill hclear, hslot]
    · obtain hstill | hfilled | ⟨hne, -⟩ := hs.willFill h htidy hran hrunning (by decide) hfill
      · exact .inr (.inl hstill)
      · exact .inl hfilled
      · exact absurd rfl hne
    · obtain hmine | hother := h.keeps hmove
      · exact absurd (bump_of_willMove h.plan hmine) hbump
      · exact .inr (.inr hother)

/-- A start that settles a slot does so, or leaves it to the running instance it started. -/
theorem Loops.willSettle (hloop : sl.rank < 3) {k : Nat} (hold : s.mem.slot sl = some k) (hne : op ≠ .clear sl)
    (hsettle : s.Finds k (Thread.willSettle sl)) :
    s'.Finds k (Thread.willSettle sl) ∨
      ∃ e, (s'.mem.session e).running = true ∧ (s'.mem.session e).startedBy = k ∧
        (s.mem.session e).instanceGen = s.mem.sessionGen := by
  obtain ⟨rfl, hmine⟩ | hother := h.finds hsettle
  · obtain hstill | hclear | ⟨st, rfl, hpc, rfl, hcheck⟩ := willSettle_step h.plan hmine
    · exact .inl (h.finds_self hstill)
    · exact absurd hclear hne
    · right
      obtain ⟨st₀, hthread, -, hkept⟩ := hs.armed sl k hold
      cases Option.some.inj (h.thread.symm.trans hthread)
      have hmark : (s.mem.session st.engine).running = true → (s.mem.session st.engine).startedBy = k →
          st.mark = (s.mem.session st.engine).instanceGen := by
        intro hran hby
        obtain ⟨st₁, hthread₁, -, hmark, -⟩ := hs.up st.engine hran
        rw [hby, h.thread] at hthread₁
        cases hthread₁
        exact hmark
      obtain hfresh | ⟨hran, hnewer⟩ := hcheck
      · -- The session has not ended, so the instance is there.
        obtain ⟨hran, hby⟩ | hlt := hkept
        · refine ⟨st.engine, ?_⟩
          rw [h.mem, hfresh, ← hmark hran hby]
          exact ⟨hran, hby, rfl⟩
        · omega
      · -- A newer instance runs, and what is armed is its own.
        have hby : (s.mem.session st.engine).startedBy = k := by
          obtain howner | ⟨u, hu, hfill⟩ := hs.exclusive st.engine hran sl k hloop hold
          · exact howner.symm
          · have hmutex := (hsound.2 _ u hu).1 (holdsMutex_of_willFill hfill)
            have hmine := (hsound.2 _ _ h.thread).1 (by simp [Thread.holdsMutex, Start.holdsMutex, hpc])
            exact Option.some.inj (hmutex.symm.trans hmine)
        have heq := hmark hran hby
        omega
  · exact .inl hother

theorem Loops.settled_step (sl : Slot) (k : Nat) (hloop : sl.rank < 3) (hslot : s'.mem.slot sl = some k) :
    (∃ e, (s'.mem.session e).running = true ∧ (s'.mem.session e).startedBy = k) ∨
      s'.Finds k (Thread.willSettle sl) ∨ ∃ u ∈ s'.threads, u.willClear sl = true := by
  have hfact := hsound.2 i t h.thread
  have hop := Thread.allowed hfact h.plan
  obtain ⟨rfl, rfl⟩ | ⟨hold, hne⟩ := Op.slot_of_apply h.mem hslot
  · obtain ⟨-, e, hran, hmine⟩ := hop
    refine .inl ⟨e, ?_⟩
    rw [h.mem, Op.apply_running, Op.apply_startedBy]
    exact ⟨hran, hmine⟩
  · obtain ⟨e, hran, hby⟩ | hsettle | hclear := hs.settled sl k hloop hold
    · cases hrun : (s'.mem.session e).running with
      | true =>
          obtain ⟨-, ⟨rfl, -⟩ | ⟨-, hby'⟩⟩ := h.running_cases hsound hrun
          · rw [hop.2.1 e] at hran
            cases hran
          · exact .inl ⟨e, hrun, hby'.trans hby⟩
      | false =>
          rw [h.mem] at hrun
          obtain rfl | ⟨b, rfl⟩ := Op.down_of_apply hran hrun
          · obtain hempty | ⟨hstop, hstart⟩ := stopLocked_step sl hfact h.plan hran
            · rw [hempty sl] at hold
              cases hold
            · right
              have hmem := List.mem_of_getElem? h.thread
              obtain hsettle | hclear := hs.doomed e hran ⟨t, hmem, hstop⟩ sl hloop (by rw [hold, hby])
              · obtain ⟨-, hmine⟩ | hstill := h.finds hsettle
                · rw [hstart] at hmine
                  cases hmine
                · exact .inl (hby ▸ hstill)
              · exact .inr (h.willClear hne hclear)
          · obtain ⟨st, rfl, hpc⟩ := rollback_step h.plan
            obtain ⟨st₀, hthread, harmed, -⟩ := hs.armed sl k hold
            rw [← hby, hop.2.2, h.thread] at hthread
            cases hthread
            rw [hpc] at harmed
            cases harmed
    · obtain hstill | ⟨e, hrun, hby, -⟩ := hs.willSettle hsound h hloop hold hne hsettle
      · exact .inr (.inl hstill)
      · exact .inl ⟨e, hrun, hby⟩
    · exact .inr (.inr (h.willClear hne hclear))

theorem Loops.doomed_step (htidy : t.Tidy s) (e : EngineId) (hrunning : (s'.mem.session e).running = true)
    (hstop : ∃ u ∈ s'.threads, u.willStop e (s'.mem.session e).instanceGen = true) (sl : Slot)
    (hloop : sl.rank < 3) (hslot : s'.mem.slot sl = some (s'.mem.session e).startedBy) :
    s'.Finds (s'.mem.session e).startedBy (Thread.willSettle sl) ∨ ∃ u ∈ s'.threads, u.willClear sl = true := by
  have hfact := hsound.2 i t h.thread
  obtain ⟨hgen, ⟨rfl, hmine⟩ | ⟨hran, hby⟩⟩ := h.running_cases hsound hrunning
  · -- The start has armed nothing before its engine is up.
    rw [hmine] at hslot
    obtain ⟨hfill, -⟩ | ⟨hold, -⟩ := Op.slot_of_apply h.mem hslot
    · cases hfill
    · obtain ⟨st, st', rfl, hpc, -⟩ := Core.up_step (hsound.2 i t h.thread) h.plan
      obtain ⟨st₀, hthread, harmed, -⟩ := hs.armed sl i hold
      cases Option.some.inj (h.thread.symm.trans hthread)
      rw [hpc] at harmed
      cases harmed
  · rw [hgen] at hstop
    rw [hby] at hslot ⊢
    obtain ⟨rfl, hmine⟩ | ⟨hold, hne⟩ := Op.slot_of_apply h.mem hslot
    · obtain ⟨st, st', rfl, rfl, -, -, -, hsettle⟩ := fill_step hfact h.plan
      rw [hmine]
      exact .inl (h.finds_self hsettle)
    · obtain ⟨u, hu, hustop⟩ := hstop
      have hbefore : (∃ u ∈ s.threads, u.willStop e (s.mem.session e).instanceGen = true) ∨
          ∃ st, t = .stop st ∧ st.engine = e ∧ st.pc = .clearGen ∧ ∀ sl, 0 < sl.rank → t'.willClear sl = true := by
        obtain hu | rfl := h.mem_cases hu
        · exact .inl ⟨u, hu, hustop⟩
        · exact (willStop_back h.plan hustop).imp_left fun hw => ⟨t, List.mem_of_getElem? h.thread, hw⟩
      obtain hex | ⟨st, rfl, rfl, hpc, hclears⟩ := hbefore
      · obtain hsettle | hclear := hs.doomed e hran hex sl hloop hold
        · obtain hstill | ⟨e', hrun', hby', hcurrent⟩ := hs.willSettle hsound h hloop hold hne hsettle
          · exact .inl hstill
          · -- The start cannot have found its session current: the stop has moved the generation.
            obtain ⟨u, hu, hustop⟩ := hex
            obtain ⟨k, hk⟩ := List.mem_iff_getElem?.mp hu
            have hlt := lt_of_willStop (hsound.2 k u hk) hustop
            rw [h.mem] at hrun' hrunning
            cases (hsound.1.apply (Thread.allowed hfact h.plan)).alone _ _ hrunning hrun'
            omega
        · exact .inr (h.willClear hne hclear)
      · by_cases hrank : 0 < sl.rank
        · exact .inr ⟨t', h.mem_threads, hclears sl hrank⟩
        · have hzero : sl.rank = Slot.rank .liveness := Nat.eq_zero_of_not_pos hrank
          cases Slot.rank_inj hzero
          obtain ⟨hmine, habsurd⟩ | hstill := h.finds (htidy hpc hran hold)
          · cases habsurd
          · exact .inl hstill

theorem Loops.run_step (htidy : t.Tidy s) : Loops s' where
  up := UpOwned.step hs.up hsound h
  armed := hs.armed_step hsound h
  stale := hs.stale_step hsound h htidy
  exclusive := hs.exclusive_step hsound h htidy
  watched := hs.watched_step hsound h htidy
  settled := hs.settled_step hsound h
  doomed := hs.doomed_step hsound h htidy

end Run

theorem State.Finds.spawn {s : State} {k : Nat} {p : Thread → Bool} (hk : s.Finds k p) (t : Thread) :
    State.Finds ⟨s.mem, s.threads ++ [t]⟩ k p := by
  obtain ⟨u, hu, hp⟩ := hk
  refine ⟨u, ?_, hp⟩
  rw [List.getElem?_append_left (List.getElem?_eq_some_iff.mp hu).1]
  exact hu

theorem Loops.spawn {s : State} (hs : Loops s) (r : Request) : Loops ⟨s.mem, s.threads ++ [r.thread]⟩ := by
  have hmore : ∀ p : Thread → Bool, (∃ u ∈ s.threads, p u = true) → ∃ u ∈ s.threads ++ [r.thread], p u = true := by
    intro p hex
    obtain ⟨u, hu, hp⟩ := hex
    exact ⟨u, List.mem_append_left _ hu, hp⟩
  have hthread : ∀ {k : Nat} {u : Thread}, s.threads[k]? = some u → (s.threads ++ [r.thread])[k]? = some u := by
    intro k u hu
    rw [List.getElem?_append_left (List.getElem?_eq_some_iff.mp hu).1, hu]
  constructor
  · exact UpOwned.spawn hs.up r.thread
  · intro sl k hslot
    obtain ⟨st, hst, hrest⟩ := hs.armed sl k hslot
    exact ⟨st, hthread hst, hrest⟩
  · intro k st hst hpc
    obtain hold | ⟨-, hnew⟩ := Program.getElem?_spawn hst
    · exact hs.stale k st hold hpc
    · cases r <;> cases hnew
      cases hpc
  · intro e hrunning sl k hloop hslot
    exact (hs.exclusive e hrunning sl k hloop hslot).imp_right (·.spawn _)
  · intro e hrunning hcurrent
    exact (hs.watched e hrunning hcurrent).imp_right (Or.imp (·.spawn _) (hmore _))
  · intro sl k hloop hslot
    exact (hs.settled sl k hloop hslot).imp_right (Or.imp (·.spawn _) (hmore _))
  · intro e hrunning hstop sl hloop hslot
    refine (hs.doomed e hrunning ?_ sl hloop hslot).imp (·.spawn _) (hmore _)
    obtain ⟨u, hu, hustop⟩ := hstop
    obtain hold | hnew := List.mem_append.mp hu
    · exact ⟨u, hold, hustop⟩
    · cases List.mem_singleton.mp hnew
      cases r <;> simp [Request.thread, Thread.willStop, StopPc.beforeBody] at hustop

theorem Loops.init : Loops State.init := by
  constructor <;> simp [State.init, Memory.init]

theorem Loops.of_reaches {s : State} (hs : controller.Reaches TidyStep State.init s) : Loops s := by
  refine Sound.invariant hs Loops Loops.init (fun s r hloops => hloops.spawn r) ?_
  intro s s' i c t t' op hloops hsound hok h
  exact hloops.run_step hsound h (hok t h.thread)

theorem Thread.slots_of_ended {u : Thread} (hu : u.ended = true) (sl : Slot) :
    u.willSettle sl = false ∧ u.willClear sl = false ∧ u.willFill sl = false ∧ u.willMove = false := by
  cases u with
  | start s =>
      obtain ⟨e', opts, mark, pc⟩ := s
      cases eq_of_beq hu
      exact ⟨rfl, rfl, rfl, rfl⟩
  | stop s =>
      obtain ⟨e', gen, pc⟩ := s
      cases eq_of_beq hu
      exact ⟨rfl, rfl, rfl, rfl⟩
  | ipWorker stored => exact ⟨rfl, rfl, rfl, rfl⟩

theorem loops_owned_of_tidy {s : State} (hs : controller.Reaches TidyStep State.init s) (hquiet : Quiet s) :
    LoopsOwned s := by
  have hloops := Loops.of_reaches hs
  have hnone : ∀ p : Thread → Bool, (∀ u : Thread, u.ended = true → p u = false) → ¬∃ u ∈ s.threads, p u = true := by
    intro p hp hex
    obtain ⟨u, hu, htrue⟩ := hex
    rw [hp u (hquiet u hu)] at htrue
    cases htrue
  have hnotFound : ∀ k (p : Thread → Bool), (∀ u : Thread, u.ended = true → p u = false) → ¬s.Finds k p := by
    intro k p hp hk
    obtain ⟨u, hu, htrue⟩ := hk
    exact hnone p hp ⟨u, List.mem_of_getElem? hu, htrue⟩
  constructor
  · intro sl hsl k hslot
    have hloop : sl.rank < 3 := by cases sl <;> first | decide | exact absurd rfl hsl
    obtain howner | hsettle | hclear := hloops.settled sl k hloop hslot
    · exact howner
    · exact absurd hsettle (hnotFound _ _ fun u hu => (u.slots_of_ended hu sl).1)
    · exact absurd hclear (hnone _ fun u hu => (u.slots_of_ended hu sl).2.1)
  · intro e hrunning hcurrent
    obtain hslot | hfill | hmove := hloops.watched e hrunning hcurrent
    · exact hslot
    · exact absurd hfill (hnotFound _ _ fun u hu => (u.slots_of_ended hu _).2.2.1)
    · exact absurd hmove (hnone _ fun u hu => (u.slots_of_ended hu .liveness).2.2.2)

theorem loops_owned_supersededStop : ∃ s, controller.run TidyStep State.init supersededStop = some s ∧
    Quiet s ∧ LoopsOwned s := by
  obtain ⟨s, hs⟩ : ∃ s, controller.run TidyStep State.init supersededStop = some s :=
    Option.isSome_iff_exists.mp (by decide)
  have hquiet := of_decide_eq_true (of_run (fun s => decide (Quiet s)) hs (a := true) (by decide))
  exact ⟨s, hs, hquiet, loops_owned_of_tidy (Program.reaches_of_run hs) hquiet⟩

end GlitchCore.Core
