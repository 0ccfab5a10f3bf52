import GlitchCore.Base.Runs
import GlitchCore.Core.BridgePipe
import GlitchCore.Core.ReadDeadline
import Mathlib.Data.List.GetD

/-!
# The runs of a read deadline

What the deadline's invariant gives over whole runs: every `set` returns, for the callback it may wait for has started,
and a deadline that stays in force closes its channel, for its timer stays armed until it fires. The deadline of the
pipe's model is an image of this one.
-/

namespace GlitchCore.Core.Deadline

open Runs

variable {s s' : State}

/-! ### Fair runs -/

/-- The runs that the runtime lets go on: time passes, a timer that is due starts its callback or is stopped, a callback
that has started runs, a call that has the lock and can go on does, and a lock that is free again and again is given to
whoever waits for it. -/
structure Fair (r : Run step) : Prop where
  start : r.state 0 = init
  clock : ∀ t : Int, ∃ n, ∀ m, n ≤ m → t ≤ (r.state m).now
  due : ∀ (n k : Nat) (τ : Timer), (r.state n).timers[k]? = some τ → τ.status = .armed → τ.due ≤ (r.state n).now →
    ∃ m, n ≤ m ∧ ∀ τ' : Timer, (r.state m).timers[k]? = some τ' → τ'.status ≠ .armed
  callback : ∀ (n k : Nat) (τ : Timer), (r.state n).timers[k]? = some τ → τ.status = .started →
    ∃ m, n ≤ m ∧ ∀ τ' : Timer, (r.state m).timers[k]? = some τ' → τ'.status ≠ .started
  turn : ∀ n, (step (r.state n) .turn).isSome = true → ∃ m, n ≤ m ∧ r.act m = .turn
  lock : ∀ n id t, (id, t) ∈ (r.state n).sets → (∀ m, n ≤ m → ∃ m', m ≤ m' ∧ (r.state m').mu = none) →
    ∃ m p, n ≤ m ∧ (r.state m).mu = some (.setting id t p)

variable {r : Run Deadline.step}

theorem Fair.inv (hfair : Fair r) (n : Nat) : Inv (r.state n) :=
  r.invariant (hfair.start ▸ inv_init) (fun _ _ _ h hstep => h.effect (effect_of_step hstep)) n

/-- Only the call that has the lock changes what it guards. -/
theorem kept_of_ne_turn {a : Act} (heffect : Effect s a s') (ha : a ≠ .turn) (hmu : s.mu ≠ none) :
    s'.mu = s.mu ∧ s'.timer = s.timer := by
  cases heffect with
  | call _ sets waits => exact ⟨rfl, rfl⟩
  | grant _ hfree => exact absurd hfree hmu
  | turn => exact absurd rfl ha
  | fire => exact ⟨rfl, rfl⟩
  | callback =>
      unfold State.ring State.close
      split <;> exact ⟨rfl, rfl⟩
  | tick n => exact ⟨rfl, rfl⟩

/-- Until its next turn a call keeps the lock. -/
theorem kept_until_turn {n m : Nat} (hm : n ≤ m) (hmu : (r.state n).mu ≠ none)
    (hquiet : ∀ j, n ≤ j → j < m → r.act j ≠ .turn) :
    (r.state m).mu = (r.state n).mu ∧ (r.state m).timer = (r.state n).timer := by
  induction m, hm using Nat.le_induction with
  | base => exact ⟨rfl, rfl⟩
  | succ m hm ih =>
      obtain ⟨hsame, htimer⟩ := ih fun j hj hlt => hquiet j hj (Nat.lt_succ_of_lt hlt)
      have hstep := kept_of_ne_turn (effect_of_step (r.next m)) (hquiet m hm (Nat.lt_succ_self m)) (hsame ▸ hmu)
      exact ⟨hstep.1.trans hsame, hstep.2.trans htimer⟩

/-- A call that can go on takes its turn in the place it is. -/
theorem Fair.turn_of_enabled (hfair : Fair r) {n : Nat} (henabled : (step (r.state n) .turn).isSome = true) :
    ∃ m, n ≤ m ∧ (r.state m).mu = (r.state n).mu ∧ r.act m = .turn := by
  obtain ⟨m, hm, hact⟩ := hfair.turn n henabled
  obtain ⟨k, hk, hturn, hfirst⟩ := r.exists_first (A := (· = .turn)) hm hact
  have hmu : (r.state n).mu ≠ none := by
    intro hnone
    simp [step, hnone] at henabled
  exact ⟨k, hk, (kept_until_turn hk hmu hfirst).1, hturn⟩

theorem enabled_of_ne_await {id : Nat} {t : Option Int} {p : Place} (hmu : s.mu = some (.setting id t p))
    (hp : p ≠ .await) : (step s .turn).isSome = true := by
  simp only [step, hmu, Option.bind_some]
  cases p with
  | await => exact absurd rfl hp
  | stop => rfl
  | test => rfl
  | arm closed dur => rfl
  | choose closed =>
      cases t with
      | none => rfl
      | some u =>
          simp only [State.advance]
          split <;> rfl
  | expire closed =>
      simp only [State.advance]
      split <;> rfl

theorem enabled_of_closed {id : Nat} {t : Option Int} (hmu : s.mu = some (.setting id t .await))
    (hclosed : s.closed s.expired = true) : (step s .turn).isSome = true := by
  simp only [step, hmu, Option.bind_some, State.advance, hclosed, if_true, Option.isSome_some]

/-- A `set` that has the lock takes its next turn. One that awaits the close does so because the timer it could not stop
has started its callback. -/
theorem Fair.set_turns (hfair : Fair r) {n id : Nat} {t : Option Int} {p : Place}
    (hmu : (r.state n).mu = some (.setting id t p)) :
    ∃ m, n ≤ m ∧ (r.state m).mu = some (.setting id t p) ∧ r.act m = .turn := by
  by_cases hp : p = .await
  · subst hp
    have hinv := hfair.inv n
    cases hclosed : (r.state n).closed (r.state n).expired with
    | true =>
        obtain ⟨m, hm, hsame, hturn⟩ := hfair.turn_of_enabled (enabled_of_closed hmu hclosed)
        exact ⟨m, hm, hsame.trans hmu, hturn⟩
    | false =>
        have hplace := hinv.place
        rw [hmu] at hplace
        obtain ⟨k, τ, hk, hτ, hlate⟩ := hplace
        have hstarted : τ.status = .started := by
          obtain ⟨τ', hτ', hlive⟩ := hinv.timer k hk
          obtain rfl := Option.some.inj (hτ.symm.trans hτ')
          obtain (harmed | hstarted) | hcon := hlive
          · exact absurd harmed hlate
          · exact hstarted
          · cases hclosed.symm.trans hcon
        obtain ⟨m, hm, hover⟩ := hfair.callback n k τ hτ hstarted
        by_cases hquiet : ∀ j, n ≤ j → j < m → r.act j ≠ .turn
        · obtain ⟨hsame, htimer⟩ := kept_until_turn hm (by rw [hmu]; nofun) hquiet
          have hmu' := hsame.trans hmu
          have hplace' := (hfair.inv m).place
          rw [hmu'] at hplace'
          obtain ⟨k', τ', hk', hτ', hlate'⟩ := hplace'
          obtain rfl := Option.some.inj ((htimer.trans hk).symm.trans hk')
          have hclosed' : (r.state m).closed (r.state m).expired = true := by
            obtain ⟨τ'', hτ'', hlive⟩ := (hfair.inv m).timer k hk'
            obtain rfl := Option.some.inj (hτ'.symm.trans hτ'')
            obtain (harmed | hstarted) | hcon := hlive
            · exact absurd harmed hlate'
            · exact absurd hstarted (hover τ' hτ')
            · exact hcon
          obtain ⟨m', hm', hsame', hturn⟩ := hfair.turn_of_enabled (enabled_of_closed hmu' hclosed')
          exact ⟨m', hm.trans hm', hsame'.trans hmu', hturn⟩
        · simp only [not_forall, not_not] at hquiet
          obtain ⟨j, hj, -, hturn⟩ := hquiet
          obtain ⟨k', hk', hturn', hfirst⟩ := r.exists_first (A := (· = .turn)) hj hturn
          exact ⟨k', hk', (kept_until_turn hk' (by rw [hmu]; nofun) hfirst).1.trans hmu, hturn'⟩
  · obtain ⟨m, hm, hsame, hturn⟩ := hfair.turn_of_enabled (enabled_of_ne_await hmu hp)
    exact ⟨m, hm, hsame.trans hmu, hturn⟩

/-! ### Every `set` returns -/

/-- How many statements a `set` has left at most. -/
def Place.rank : Place → Nat
  | .stop => 5
  | .await => 4
  | .test => 3
  | .choose _ => 2
  | .arm _ _ => 1
  | .expire _ => 1

def State.rank (s : State) : Nat :=
  match s.mu with
  | some (.setting _ _ p) => p.rank
  | _ => 0

theorem rank_of_mu {id : Nat} {t : Option Int} {p : Place} (hmu : s.mu = some (.setting id t p)) : s.rank = p.rank := by
  simp only [State.rank, hmu]

/-- One statement of a `set` brings it closer to its end, where what it asked for is in force. -/
theorem set_of_turn {id : Nat} {t : Option Int} {p : Place} (hmu : s.mu = some (.setting id t p))
    (hstep : step s .turn = some s') :
    (s'.mu = none ∧ id ∈ s'.returned ∧ s'.inForce = t) ∨
      ∃ p', s'.mu = some (.setting id t p') ∧ p'.rank < p.rank := by
  have hfinish (q : State) (t : Option Int) :
      (q.finish id t).mu = none ∧ id ∈ (q.finish id t).returned ∧ (q.finish id t).inForce = t :=
    ⟨rfl, List.mem_append_right _ (List.mem_singleton_self id), rfl⟩
  obtain ⟨holder, hmu', hstep⟩ := Option.bind_eq_some_iff.mp hstep
  obtain rfl := Option.some.inj (hmu.symm.trans hmu')
  cases statement_of_advance hstep with
  | stop =>
      right
      unfold State.stopTimer
      split
      next => exact ⟨.test, rfl, by decide⟩
      next =>
        split
        next => exact ⟨.test, rfl, by decide⟩
        next => exact ⟨.await, rfl, by decide⟩
  | await => exact .inr ⟨.test, rfl, by decide⟩
  | test => exact .inr ⟨.choose _, rfl, Nat.lt_succ_self 2⟩
  | clear => exact .inl (hfinish _ _)
  | future => exact .inr ⟨.arm _ _, rfl, Nat.lt_succ_self 1⟩
  | past => exact .inr ⟨.expire _, rfl, Nat.lt_succ_self 1⟩
  | arm => exact .inl (hfinish _ _)
  | expired => exact .inl (hfinish _ _)
  | expire => exact .inl (hfinish _ _)

theorem Fair.holding_set_returns (hfair : Fair r) {n id : Nat} {t : Option Int} {p : Place}
    (hmu : (r.state n).mu = some (.setting id t p)) :
    ∃ m, n ≤ m ∧ (r.state m).mu = none ∧ id ∈ (r.state m).returned := by
  refine r.leads (P := fun s => ∃ p, s.mu = some (.setting id t p)) (Q := fun s => s.mu = none ∧ id ∈ s.returned)
    State.rank (fun n hholds => ?_) ⟨p, hmu⟩
  obtain ⟨p, hmu⟩ := hholds
  obtain ⟨m, hm, hmu', hturn⟩ := hfair.set_turns hmu
  have hstep := r.next m
  rw [hturn] at hstep
  refine ⟨m + 1, Nat.le_succ_of_le hm, ?_⟩
  obtain ⟨hfree, hreturned, -⟩ | ⟨p', hp', hlt⟩ := set_of_turn hmu' hstep
  · exact .inl ⟨hfree, hreturned⟩
  · refine .inr ⟨⟨p', hp'⟩, ?_⟩
    rw [rank_of_mu hp', rank_of_mu hmu]
    exact hlt

theorem Fair.free_again (hfair : Fair r) (n : Nat) : ∃ m, n ≤ m ∧ (r.state m).mu = none := by
  cases hmu : (r.state n).mu with
  | none => exact ⟨n, le_rfl, hmu⟩
  | some holder =>
      cases holder with
      | setting id t p =>
          obtain ⟨m, hm, hfree, -⟩ := hfair.holding_set_returns hmu
          exact ⟨m, hm, hfree⟩
      | waiting id =>
          have henabled : (step (r.state n) .turn).isSome = true := by
            simp only [step, hmu, Option.bind_some]
            rfl
          obtain ⟨m, hm, hsame, hturn⟩ := hfair.turn_of_enabled henabled
          have hstep := r.next m
          simp only [hturn, step, hsame.trans hmu, Option.bind_some] at hstep
          refine ⟨m + 1, Nat.le_succ_of_le hm, ?_⟩
          rw [← Option.some.inj hstep]

theorem Fair.set_returns (hfair : Fair r) {n id : Nat} {t : Option Int}
    (hbegun : (id, t) ∈ (r.state n).sets ∨ ∃ p, (r.state n).mu = some (.setting id t p)) :
    ∃ m, n ≤ m ∧ id ∈ (r.state m).returned := by
  have hholds : ∃ m p, n ≤ m ∧ (r.state m).mu = some (.setting id t p) := by
    obtain hwaits | ⟨p, hmu⟩ := hbegun
    · exact hfair.lock n id t hwaits fun m _ => hfair.free_again m
    · exact ⟨n, p, le_rfl, hmu⟩
  obtain ⟨m, p, hm, hmu⟩ := hholds
  obtain ⟨m', hm', -, hreturned⟩ := hfair.holding_set_returns hmu
  exact ⟨m', hm.trans hm', hreturned⟩

/-! ### The deadline in force releases -/

/-- A `Stop` that changes a timer lifts its deadline. -/
theorem timers_stopTimer (s : State) (id : Nat) (t : Option Int) :
    (s.stopTimer id t).timers = s.timers ∨ (s.stopTimer id t).inForce = none := by
  unfold State.stopTimer
  split
  next => exact .inl rfl
  next =>
    split
    next => exact .inr rfl
    next => exact .inl rfl

/-- A live timer stays live and keeps its time, unless it closes the channel or its deadline is lifted. -/
theorem Inv.live_effect (h : Inv s) {a : Act} (heffect : Effect s a s') {k : Nat} {τ : Timer}
    (hτ : s.timers[k]? = some τ) (hlive : τ.live) :
    (∃ τ' : Timer, s'.timers[k]? = some τ' ∧ τ'.live ∧ τ'.due = τ.due ∧ (τ.status = .started → τ'.status = .started)) ∨
      s'.closed s.expired = true ∨ s'.inForce = none := by
  have hkept (htimers : s'.timers[k]? = s.timers[k]?) :
      ∃ τ' : Timer, s'.timers[k]? = some τ' ∧ τ'.live ∧ τ'.due = τ.due ∧ (τ.status = .started → τ'.status = .started) :=
    ⟨τ, htimers.trans hτ, hlive, rfl, id⟩
  cases heffect with
  | call _ sets waits => exact .inl (hkept rfl)
  | grant => exact .inl (hkept rfl)
  | tick n => exact .inl (hkept rfl)
  | fire hυ harmed =>
      obtain rfl := h.live_unique hτ hlive hυ (.inl harmed)
      obtain rfl := Option.some.inj (hτ.symm.trans hυ)
      refine .inl ⟨{ τ with status := .started }, ?_, .inr rfl, rfl, fun _ => rfl⟩
      show (s.timers.set k { τ with status := .started })[k]? = _
      rw [getElem?_set_timer hτ, if_pos rfl]
  | callback hυ hstarted => exact .inr (.inl (h.closed_ring hυ hstarted))
  | turn hmu hstatement =>
      have htimer := (h.live k τ hτ hlive).1
      have hplace := h.place
      rw [hmu] at hplace
      cases hstatement with
      | read id => exact .inl (hkept rfl)
      | stop id t =>
          obtain htimers | hlifted := timers_stopTimer s id t
          · exact .inl (hkept (by rw [htimers]))
          · exact .inr (.inr hlifted)
      | await id t => exact .inl (hkept rfl)
      | test id t => exact .inl (hkept rfl)
      | clear => exact .inr (.inr rfl)
      | future id => exact .inl (hkept rfl)
      | past id => exact .inl (hkept rfl)
      | arm => cases htimer.symm.trans hplace.1
      | expired => exact .inl (hkept rfl)
      | expire => cases htimer.symm.trans hplace.1

/-- As long as a deadline is in force and its channel open, the timer that will close it stays live. -/
theorem Fair.stays_live (hfair : Fair r) {n c k : Nat} {t : Int} {τ : Timer}
    (hstays : ∀ m, n ≤ m → (r.state m).inForce = some t ∧ (r.state m).expired = c)
    (hopen : ∀ m, n ≤ m → (r.state m).closed c = false) {n' : Nat} (hn : n ≤ n')
    (hτ : (r.state n').timers[k]? = some τ) (hlive : τ.live) {m : Nat} (hm : n' ≤ m) :
    ∃ τ' : Timer, (r.state m).timers[k]? = some τ' ∧ τ'.live ∧ τ'.due = τ.due ∧
      (τ.status = .started → τ'.status = .started) := by
  have hstep : ∀ j, n' ≤ j → (∃ τ' : Timer, (r.state j).timers[k]? = some τ' ∧ τ'.live ∧ τ'.due = τ.due ∧
      (τ.status = .started → τ'.status = .started)) →
      (∃ τ' : Timer, (r.state (j + 1)).timers[k]? = some τ' ∧ τ'.live ∧ τ'.due = τ.due ∧
        (τ.status = .started → τ'.status = .started)) ∨
        (r.state (j + 1)).closed c = true ∨ (r.state (j + 1)).inForce = none := by
    rintro j hj ⟨τ', hτ', hlive', hdue, hstarted⟩
    rw [← (hstays j (hn.trans hj)).2]
    obtain ⟨τ'', hτ'', hlive'', hdue', hstarted'⟩ | hgone :=
      (hfair.inv j).live_effect (effect_of_step (r.next j)) hτ' hlive'
    · exact .inl ⟨τ'', hτ'', hlive'', hdue'.trans hdue, fun h => hstarted' (hstarted h)⟩
    · exact .inr hgone
  obtain hkept | ⟨j, hj, -, hclosed | hlifted⟩ := r.stays
    (P := fun s => ∃ τ' : Timer, s.timers[k]? = some τ' ∧ τ'.live ∧ τ'.due = τ.due ∧
      (τ.status = .started → τ'.status = .started))
    (Q := fun s => s.closed c = true ∨ s.inForce = none) ⟨τ, hτ, hlive, rfl, id⟩ hstep hm
  · exact hkept
  · cases (hopen j (hn.trans hj)).symm.trans hclosed
  · cases hlifted.symm.trans (hstays j (hn.trans hj)).1

theorem Fair.released (hfair : Fair r) {n c : Nat} {t : Int}
    (hstays : ∀ m, n ≤ m → (r.state m).inForce = some t ∧ (r.state m).expired = c) :
    ∃ m, n ≤ m ∧ (r.state m).closed c = true := by
  by_contra hnever
  have hopen : ∀ m, n ≤ m → (r.state m).closed c = false := fun m hm =>
    Bool.eq_false_iff.mpr fun hclosed => hnever ⟨m, hm, hclosed⟩
  have hinv := hfair.inv n
  obtain ⟨hforce, hcurrent⟩ := hstays n le_rfl
  have hnow : (r.state n).closed (r.state n).expired = false := hcurrent ▸ hopen n le_rfl
  obtain ⟨k, hk⟩ : ∃ k, (r.state n).timer = some k := by
    obtain hclosed | hsome := hinv.inForce t hforce
    · cases hnow.symm.trans hclosed
    · exact Option.isSome_iff_exists.mp hsome
  obtain ⟨τ, hτ, hlive⟩ := hinv.timer k hk
  have hlive : τ.live := hlive.resolve_right fun hclosed => by cases hnow.symm.trans hclosed
  have hlives {m : Nat} (hm : n ≤ m) := hfair.stays_live hstays hopen le_rfl hτ hlive hm
  -- Its time comes, so it is started sooner or later.
  obtain ⟨m, hm, υ, hυ, hstarted⟩ : ∃ m, n ≤ m ∧ ∃ υ, (r.state m).timers[k]? = some υ ∧ υ.status = .started := by
    obtain ⟨late, hlate⟩ := hfair.clock τ.due
    have hm : n ≤ max n late := le_max_left ..
    obtain ⟨τ', hτ', hlive', hdue, -⟩ := hlives hm
    obtain harmed | hstarted := hlive'
    · obtain ⟨m, hm', hfired⟩ := hfair.due _ k τ' hτ' harmed (hdue ▸ hlate _ (le_max_right ..))
      obtain ⟨τ'', hτ'', hlive'', -⟩ := hlives (hm.trans hm')
      exact ⟨m, hm.trans hm', τ'', hτ'', hlive''.resolve_left (hfired τ'' hτ'')⟩
    · exact ⟨_, hm, τ', hτ', hstarted⟩
  -- Then it stays started, which its callback does not allow.
  obtain ⟨m', hm', hover⟩ := hfair.callback m k υ hυ hstarted
  obtain ⟨υ', hυ', -, -, hstill⟩ := hfair.stays_live hstays hopen hm hυ (.inr hstarted) hm'
  exact hover υ' hυ' (hstill hstarted)

/-- A `set` that comes before the timer has fired lifts the deadline. -/
theorem lifted_of_stop {id k : Nat} {t : Option Int} {τ : Timer} (hmu : s.mu = some (.setting id t .stop))
    (hk : s.timer = some k) (hτ : s.timers[k]? = some τ) (harmed : τ.status = .armed)
    (hstep : step s .turn = some s') : s'.inForce = none := by
  obtain ⟨channel, due, status⟩ := τ
  obtain rfl : status = .armed := harmed
  simp only [step, hmu, Option.bind_some, State.advance, State.stopTimer, hk, hτ, Option.some.injEq] at hstep
  rw [← hstep]
  rfl

/-- The movable read deadline, over every interleaving of calls, timers and callbacks. No channel is closed twice. A
channel that was handed out is the current one or closed, and the current one is closed only once the deadline in force
has passed. In force is what the last `set` asked for, and nothing once a `set` came before the timer fired, until that
`set` returns. In a fair run every `set` returns, and a deadline that stays in force closes its channel. -/
theorem deadline_moves :
    (∀ s, Reachable s →
      s.panicked = false ∧ (∀ w ∈ s.held, w.2 = s.expired ∨ s.closed w.2 = true) ∧
      (s.closed s.expired = true → ∃ t, s.inForce = some t ∧ t ≤ s.now) ∧
      (∀ id t p s', s.mu = some (.setting id t p) → step s .turn = some s' → s'.mu = none → s'.inForce = t) ∧
      ∀ (id : Nat) (t : Option Int) (k : Nat) (τ : Timer) (s' : State), s.mu = some (.setting id t .stop) →
        s.timer = some k → s.timers[k]? = some τ → τ.status = .armed → step s .turn = some s' → s'.inForce = none) ∧
    ∀ r : Run step, Fair r →
      (∀ n id t, ((id, t) ∈ (r.state n).sets ∨ ∃ p, (r.state n).mu = some (.setting id t p)) →
        ∃ m, n ≤ m ∧ id ∈ (r.state m).returned) ∧
      ∀ n t c, (∀ m, n ≤ m → (r.state m).inForce = some t ∧ (r.state m).expired = c) →
        ∃ m, n ≤ m ∧ (r.state m).closed c = true := by
  refine ⟨fun s hreach => ?_, fun r hfair => ⟨fun n id t hbegun => hfair.set_returns hbegun,
    fun n t c hstays => hfair.released hstays⟩⟩
  have hinv := inv_of_reachable hreach
  refine ⟨hinv.safe, fun w hw => ?_, hinv.passed, fun id t p s' hmu hstep hfree => ?_,
    fun id t k τ s' hmu hk hτ harmed hstep => lifted_of_stop hmu hk hτ harmed hstep⟩
  · obtain hlt | heq := Nat.lt_or_eq_of_le (hinv.held w hw)
    · exact .inr (hinv.replaced w.2 hlt)
    · exact .inl heq
  · obtain ⟨-, -, hforce⟩ | ⟨p', hmu', -⟩ := set_of_turn hmu hstep
    · exact hforce
    · cases hfree.symm.trans hmu'

/-! ### The deadline of the pipe -/

/-- What the pipe's reads see of the deadline. -/
def State.abstract (s : State) : Pipe.Deadline := ⟨s.expired, s.closed s.expired⟩

theorem Inv.abstract_expired (h : Inv s) {c : Nat} (hc : c ≤ s.expired) : s.abstract.expired c = s.closed c := by
  rw [Pipe.Deadline.expired, State.abstract]
  obtain hlt | rfl := Nat.lt_or_eq_of_le hc
  · rw [decide_eq_true hlt, Bool.true_or, h.replaced c hlt]
  · rw [decide_eq_false (Nat.lt_irrefl _), Bool.false_or]

theorem Inv.abstract_renew (h : Inv s) :
    (s.renew (s.closed s.expired)).abstract = s.abstract ∨
      s.closed s.expired = true ∧ (s.renew (s.closed s.expired)).abstract = ⟨s.expired + 1, false⟩ := by
  have hopen := h.renew.2.2.2
  have hcurrent := h.current
  cases hclosed : s.closed s.expired with
  | false => exact .inl rfl
  | true =>
      rw [hclosed] at hopen
      refine .inr ⟨rfl, ?_⟩
      rw [State.abstract, hopen, hcurrent]
      rfl

/-- One step of the deadline is no step for the pipe, a renewed channel or the end of the current one. -/
theorem Inv.abstract_effect (h : Inv s) {a : Act} (heffect : Effect s a s') :
    s'.abstract = s.abstract ∨ (s.closed s.expired = true ∧ s'.abstract = ⟨s.expired + 1, false⟩) ∨
      s'.abstract = ⟨s.expired, true⟩ := by
  cases heffect with
  | call _ sets waits => exact .inl rfl
  | grant => exact .inl rfl
  | tick n => exact .inl rfl
  | fire => exact .inl rfl
  | callback hτ hstarted =>
      refine .inr (.inr ?_)
      have hclosed := h.closed_ring hτ hstarted
      rw [h.ring_eq hτ hstarted] at hclosed ⊢
      rw [State.abstract, hclosed]
  | turn hmu hstatement =>
      have hplace := h.place
      rw [hmu] at hplace
      cases hstatement with
      | read id => exact .inl rfl
      | stop id t =>
          left
          unfold State.stopTimer
          split
          next => rfl
          next => split <;> rfl
      | await id t => exact .inl rfl
      | test id t => exact .inl rfl
      | clear =>
          obtain ⟨-, rfl⟩ := hplace
          exact h.abstract_renew.imp id .inl
      | future id => exact .inl rfl
      | past id => exact .inl rfl
      | arm =>
          obtain ⟨-, rfl, -⟩ := hplace
          exact h.abstract_renew.imp id .inl
      | expired id => exact .inl rfl
      | expire id =>
          obtain ⟨-, hopen, -⟩ := hplace
          refine .inr (.inr ?_)
          have hclosed := closed_set h.lt s.expired
          rw [decide_eq_true rfl, Bool.true_or] at hclosed
          have hclose : s.close s.expired = { s with channels := s.channels.set s.expired true } :=
            if_neg (by rw [← hopen]; nofun)
          rw [hclose]
          exact congrArg (Pipe.Deadline.mk s.expired) hclosed

/-- The pipe's deadline is an image of this one: its reads are told the same of every channel that was handed out, and
what happens here is nothing there, or what its own steps do. -/
theorem abstract_simulates (hreach : Reachable s) :
    (∀ w ∈ s.held, s.abstract.expired w.2 = s.closed w.2) ∧
      ∀ a s', step s a = some s' → s'.abstract = s.abstract ∨
        ∃ b : Pipe.Act, (b = .renew ∨ b = .expire) ∧ ∀ (writerDone readerDone : Bool) (d : Pipe.Direction),
          d.deadline = s.abstract → d.step writerDone readerDone b = some { d with deadline := s'.abstract } := by
  have hinv := inv_of_reachable hreach
  refine ⟨fun w hw => hinv.abstract_expired (hinv.held w hw), fun a s' hstep => ?_⟩
  obtain hsame | ⟨hclosed, hrenewed⟩ | hexpired := hinv.abstract_effect (effect_of_step hstep)
  · exact .inl hsame
  · refine .inr ⟨.renew, .inl rfl, fun writerDone readerDone d hd => ?_⟩
    simp only [Pipe.Direction.step, Pipe.Deadline.renewed, hd, State.abstract, hclosed, if_true]
    rw [← State.abstract, hrenewed]
  · refine .inr ⟨.expire, .inr rfl, fun writerDone readerDone d hd => ?_⟩
    simp only [Pipe.Direction.step, hd, State.abstract]
    rw [← State.abstract, hexpired]

/-! ### A fair run -/

/-- A deadline is set, its time comes, its timer fires and closes the channel; then only time passes. -/
def alarmAct (n : Nat) : Act :=
  [.callSet 7 (some 5), .grantSet 0, .turn, .turn, .turn, .turn, .tick 5, .fire 0, .callback 0].getD n (.tick 1)

def alarmState : Nat → State
  | 0 => init
  | n + 1 => ((step (alarmState n) (alarmAct n)).getD init)

/-- The state behind the callback. -/
def alarmed : State :=
  { init with now := 5, channels := [true], timers := [⟨0, 5, .done⟩], timer := some 0, returned := [7], inForce := some 5 }

theorem alarmAct_add (n : Nat) : alarmAct (9 + n) = .tick 1 := by
  rw [alarmAct, List.getD_eq_default]
  simp

theorem alarmState_add (n : Nat) : alarmState (9 + n) = { alarmed with now := 5 + n } := by
  induction n with
  | zero => decide
  | succ n ih =>
      have hnow : (5 : Int) + n + (1 : Nat) = 5 + ((n + 1 : Nat) : Int) := by omega
      show (step (alarmState (9 + n)) (alarmAct (9 + n))).getD init = _
      rw [alarmAct_add, ih]
      simp only [step, Option.getD_some, hnow]

/-- Behind the callback nothing waits and no timer is left. -/
theorem alarmState_of_le {n : Nat} (hn : 9 ≤ n) :
    (alarmState n).mu = none ∧ (alarmState n).sets = [] ∧ (alarmState n).timers = [⟨0, 5, .done⟩] ∧
      (alarmState n).now = 5 + (n - 9 : Nat) := by
  obtain ⟨m, rfl⟩ := Nat.exists_eq_add_of_le hn
  rw [alarmState_add, Nat.add_sub_cancel_left]
  exact ⟨rfl, rfl, rfl, rfl⟩

theorem alarmState_next (n : Nat) : step (alarmState n) (alarmAct n) = some (alarmState (n + 1)) := by
  have hsome : (step (alarmState n) (alarmAct n)).isSome = true := by
    by_cases hn : n < 9
    · have hall : ∀ n < 9, (step (alarmState n) (alarmAct n)).isSome = true := by decide
      exact hall n hn
    · obtain ⟨m, rfl⟩ := Nat.exists_eq_add_of_le (Nat.le_of_not_lt hn)
      rw [alarmAct_add]
      rfl
  obtain ⟨s, hs⟩ := Option.isSome_iff_exists.mp hsome
  have hnext : alarmState (n + 1) = (step (alarmState n) (alarmAct n)).getD init := rfl
  rw [hnext, hs, Option.getD_some]

def alarm : Run step where
  state := alarmState
  act := alarmAct
  next := alarmState_next

/-- What the alarm's callback does is the pipe's `expire`. -/
theorem alarm_simulated : Reachable (alarmState 8) ∧ ∃ b : Pipe.Act, (b = .renew ∨ b = .expire) ∧
    ∀ (writerDone readerDone : Bool) (d : Pipe.Direction), d.deadline = (alarmState 8).abstract →
      d.step writerDone readerDone b = some { d with deadline := (alarmState 9).abstract } := by
  have hreach : Reachable (alarmState 8) := alarm.invariant .refl (fun s a s' hs hstep => hs.tail ⟨a, hstep⟩) 8
  exact ⟨hreach, ((abstract_simulates hreach).2 _ _ (alarmState_next 8)).resolve_left (by decide)⟩

theorem fair_alarm : Fair alarm where
  start := rfl
  clock t := by
    refine ⟨9 + t.toNat, fun m hm => ?_⟩
    have hnow := (alarmState_of_le (Nat.le_of_add_right_le hm)).2.2.2
    show t ≤ (alarmState m).now
    omega
  due n k τ _ _ _ := by
    refine ⟨9 + n, Nat.le_add_left .., fun τ' hτ' => ?_⟩
    change (alarmState (9 + n)).timers[k]? = some τ' at hτ'
    rw [(alarmState_of_le (Nat.le_add_right ..)).2.2.1] at hτ'
    rw [List.mem_singleton.mp (List.mem_of_getElem? hτ')]
    nofun
  callback n k τ _ _ := by
    refine ⟨9 + n, Nat.le_add_left .., fun τ' hτ' => ?_⟩
    change (alarmState (9 + n)).timers[k]? = some τ' at hτ'
    rw [(alarmState_of_le (Nat.le_add_right ..)).2.2.1] at hτ'
    rw [List.mem_singleton.mp (List.mem_of_getElem? hτ')]
    nofun
  turn n henabled := by
    change (step (alarmState n) .turn).isSome = true at henabled
    refine ⟨5, ?_, rfl⟩
    have hsmall : ∀ n < 9, (step (alarmState n) .turn).isSome = true → n ≤ 5 := by decide
    by_cases hn : n < 9
    · exact hsmall n hn henabled
    · simp [step, (alarmState_of_le (Nat.le_of_not_lt hn)).1] at henabled
  lock n id t hwaits _ := by
    change (id, t) ∈ (alarmState n).sets at hwaits
    by_cases hn : n < 9
    · have hsmall : ∀ n < 9, (alarmState n).sets = [] ∨ n = 1 := by decide
      obtain hnone | rfl := hsmall n hn
      · rw [hnone] at hwaits
        cases hwaits
      · have hone : (alarmState 1).sets = [(7, some 5)] := by decide
        rw [hone] at hwaits
        obtain ⟨rfl, rfl⟩ := Prod.mk.inj (List.mem_singleton.mp hwaits)
        exact ⟨2, .stop, by decide, by decide⟩
    · rw [(alarmState_of_le (Nat.le_of_not_lt hn)).2.1] at hwaits
      cases hwaits

/-- In the run of the alarm the call returns and the channel is closed. -/
theorem deadline_moves_alarm :
    Fair alarm ∧ (∃ m, 1 ≤ m ∧ 7 ∈ (alarm.state m).returned) ∧ ∃ m, 9 ≤ m ∧ (alarm.state m).closed 0 = true := by
  obtain ⟨hreturns, hreleases⟩ := deadline_moves.2 alarm fair_alarm
  refine ⟨fair_alarm, hreturns 1 7 (some 5) (.inl (by decide)), hreleases 9 5 0 fun m hm => ?_⟩
  obtain ⟨k, rfl⟩ := Nat.exists_eq_add_of_le hm
  show (alarmState (9 + k)).inForce = some 5 ∧ (alarmState (9 + k)).expired = 0
  rw [alarmState_add]
  exact ⟨rfl, rfl⟩

end GlitchCore.Core.Deadline
