import GlitchCore.Base.Runs
import Mathlib.Algebra.Order.Group.Int

/-!
# A read deadline that moves

`bridgeDeadline` keeps one channel for as long as it is open, so that a read already waiting sees the deadline moved by
another goroutine. A timer may have started its callback when `Stop` is called and not have closed the channel yet; `set`
then waits for the close under the lock. It may, because the one timer there is belongs to the current channel.
-/

namespace GlitchCore.Core.Deadline

/-- A timer of `time.AfterFunc`. Its callback has started once it is past `armed`, unless it was stopped. -/
inductive Status where
  | armed
  | started
  | done
  | stopped
  deriving DecidableEq, Repr

structure Timer where
  channel : Nat
  due : Int
  status : Status
  deriving DecidableEq, Repr

/-- The next statement of a `set` that has the lock. -/
inductive Place where
  | stop
  /-- `<-d.expired`, after a `Stop` that came too late. -/
  | await
  | test
  | choose (closed : Bool)
  | arm (closed : Bool) (dur : Int)
  | expire (closed : Bool)
  deriving DecidableEq, Repr

/-- The call that has `mu`; no time is the zero time, which clears the deadline. -/
inductive Holder where
  | setting (id : Nat) (t : Option Int) (p : Place)
  | waiting (id : Nat)
  deriving DecidableEq, Repr

structure State where
  now : Int
  /-- The channels there ever were, and whether each is closed. -/
  channels : List Bool
  expired : Nat
  timers : List Timer
  timer : Option Nat
  mu : Option Holder
  /-- The calls of `set` and of `wait` that wait for the lock. -/
  sets : List (Nat × Option Int)
  waits : List Nat
  /-- A `close` of a closed channel. -/
  panicked : Bool
  /-- The channels `wait` has handed out. -/
  held : List (Nat × Nat)
  returned : List Nat
  /-- What the last `set` asked for, until its timer is stopped. No statement of the code looks at it. -/
  inForce : Option Int
  deriving DecidableEq, Repr

def init : State where
  now := 0
  channels := [false]
  expired := 0
  timers := []
  timer := none
  mu := none
  sets := []
  waits := []
  panicked := false
  held := []
  returned := []
  inForce := none

namespace State

def closed (s : State) (c : Nat) : Bool := s.channels[c]? == some true

def close (s : State) (c : Nat) : State :=
  if s.closed c then { s with panicked := true } else { s with channels := s.channels.set c true }

/-- `if closed { d.expired = make(chan struct{}) }`. -/
def renew (s : State) (closed : Bool) : State :=
  { s with
    channels := if closed then s.channels ++ [false] else s.channels
    expired := if closed then s.channels.length else s.expired }

/-- The end of a `set`: the lock is free and what it asked for is in force. -/
def finish (s : State) (id : Nat) (t : Option Int) : State :=
  { s with mu := none, returned := s.returned ++ [id], inForce := t }

def place (s : State) (id : Nat) (t : Option Int) (p : Place) : State := { s with mu := some (.setting id t p) }

/-- `Stop`. A timer that is stopped in time is forgotten with it, and its deadline is no longer in force. -/
def stopTimer (s : State) (id : Nat) (t : Option Int) : State :=
  match s.timer with
  | none => s.place id t .test
  | some k =>
      match s.timers[k]? with
      | some ⟨channel, due, .armed⟩ =>
          { s with timers := s.timers.set k ⟨channel, due, .stopped⟩, timer := none, inForce := none }.place id t .test
      | _ => s.place id t .await

/-- `time.AfterFunc`, called some time after `time.Until` gave the duration. -/
def startTimer (s : State) (dur : Int) : State :=
  { s with timers := s.timers ++ [⟨s.expired, s.now + dur, .armed⟩], timer := some s.timers.length }

/-- One statement of the call that has the lock; none while it has to wait. -/
def advance (s : State) : Holder → Option State
  | .waiting id => some { s with mu := none, held := s.held ++ [(id, s.expired)] }
  | .setting id t .stop => some (s.stopTimer id t)
  | .setting id t .await => if s.closed s.expired then some (s.place id t .test) else none
  | .setting id t .test => some ({ s with timer := none }.place id t (.choose (s.closed s.expired)))
  | .setting id none (.choose closed) => some ((s.renew closed).finish id none)
  | .setting id (some t) (.choose closed) =>
      if 0 < t - s.now then some (s.place id (some t) (.arm closed (t - s.now)))
      else some (s.place id (some t) (.expire closed))
  | .setting id t (.arm closed dur) => some (((s.renew closed).startTimer dur).finish id t)
  | .setting id t (.expire closed) =>
      if closed then some (s.finish id t) else some ((s.close s.expired).finish id t)

end State

inductive Act where
  /-- `set` and `wait` are called. -/
  | callSet (id : Nat) (t : Option Int)
  | callWait (id : Nat)
  /-- A waiting call gets the lock. -/
  | grantSet (i : Nat)
  | grantWait (i : Nat)
  /-- The next statement of the call that has it. -/
  | turn
  /-- A timer is due and its callback starts. -/
  | fire (k : Nat)
  /-- The callback closes its channel. -/
  | callback (k : Nat)
  | tick (n : Nat)
  deriving DecidableEq, Repr

def step (s : State) : Act → Option State
  | .callSet id t => some { s with sets := s.sets ++ [(id, t)] }
  | .callWait id => some { s with waits := s.waits ++ [id] }
  | .grantSet i =>
      if s.mu = none then
        s.sets[i]?.map fun c => { s with mu := some (.setting c.1 c.2 .stop), sets := s.sets.eraseIdx i }
      else none
  | .grantWait i =>
      if s.mu = none then
        s.waits[i]?.map fun id => { s with mu := some (.waiting id), waits := s.waits.eraseIdx i }
      else none
  | .turn => s.mu.bind s.advance
  | .fire k =>
      s.timers[k]?.bind fun τ =>
        if τ.status = .armed ∧ τ.due ≤ s.now then
          some { s with timers := s.timers.set k { τ with status := .started } }
        else none
  | .callback k =>
      s.timers[k]?.bind fun τ =>
        if τ.status = .started then
          some (({ s with timers := s.timers.set k { τ with status := .done } } : State).close τ.channel)
        else none
  | .tick n => some { s with now := s.now + n }

/-- Every order of calls, timers and callbacks. -/
def Reachable : State → Prop := Runs.Reaches step init

/-! ### What a step can do -/

/-- What one statement of the call that has the lock leaves. -/
inductive Statement (s : State) : Holder → State → Prop
  | read (id : Nat) : Statement s (.waiting id) { s with mu := none, held := s.held ++ [(id, s.expired)] }
  | stop (id : Nat) (t : Option Int) : Statement s (.setting id t .stop) (s.stopTimer id t)
  | await (id : Nat) (t : Option Int) (hclosed : s.closed s.expired = true) :
      Statement s (.setting id t .await) (s.place id t .test)
  | test (id : Nat) (t : Option Int) :
      Statement s (.setting id t .test) (({ s with timer := none } : State).place id t (.choose (s.closed s.expired)))
  | clear (id : Nat) (closed : Bool) : Statement s (.setting id none (.choose closed)) ((s.renew closed).finish id none)
  | future (id : Nat) {u : Int} (closed : Bool) :
      Statement s (.setting id (some u) (.choose closed)) (s.place id (some u) (.arm closed (u - s.now)))
  | past (id : Nat) {u : Int} (closed : Bool) (hu : u ≤ s.now) :
      Statement s (.setting id (some u) (.choose closed)) (s.place id (some u) (.expire closed))
  | arm (id : Nat) (t : Option Int) (closed : Bool) (dur : Int) :
      Statement s (.setting id t (.arm closed dur)) (((s.renew closed).startTimer dur).finish id t)
  | expired (id : Nat) (t : Option Int) : Statement s (.setting id t (.expire true)) (s.finish id t)
  | expire (id : Nat) (t : Option Int) :
      Statement s (.setting id t (.expire false)) ((s.close s.expired).finish id t)

theorem statement_of_advance {s s' : State} {holder : Holder} (hstep : s.advance holder = some s') :
    Statement s holder s' := by
  cases holder with
  | waiting id => exact Option.some.inj hstep ▸ .read id
  | setting id t p =>
      cases p with
      | stop => exact Option.some.inj hstep ▸ .stop id t
      | await =>
          simp only [State.advance] at hstep
          split at hstep
          next hclosed => exact Option.some.inj hstep ▸ .await id t hclosed
          next => cases hstep
      | test => exact Option.some.inj hstep ▸ .test id t
      | choose closed =>
          cases t with
          | none => exact Option.some.inj hstep ▸ .clear id closed
          | some u =>
              simp only [State.advance] at hstep
              split at hstep
              next => exact Option.some.inj hstep ▸ .future id closed
              next hpast => exact Option.some.inj hstep ▸ .past id closed (by omega)
      | arm closed dur => exact Option.some.inj hstep ▸ .arm id t closed dur
      | expire closed =>
          cases closed with
          | true => exact Option.some.inj hstep ▸ .expired id t
          | false => exact Option.some.inj hstep ▸ .expire id t

/-- What a callback leaves. -/
def State.ring (s : State) (k : Nat) (τ : Timer) : State :=
  ({ s with timers := s.timers.set k { τ with status := .done } } : State).close τ.channel

/-- A call before its first statement. -/
def Holder.fresh : Holder → Prop
  | .waiting _ => True
  | .setting _ _ p => p = .stop

inductive Effect (s : State) : Act → State → Prop
  | call {a : Act} (ha : a ≠ .turn) (sets : List (Nat × Option Int)) (waits : List Nat) :
      Effect s a { s with sets, waits }
  | grant {a : Act} {holder : Holder} (ha : a ≠ .turn) (hfree : s.mu = none) (hfresh : holder.fresh)
      (sets : List (Nat × Option Int)) (waits : List Nat) : Effect s a { s with mu := some holder, sets, waits }
  | turn {holder : Holder} {s' : State} (hmu : s.mu = some holder) (hstatement : Statement s holder s') :
      Effect s .turn s'
  | fire {k : Nat} {τ : Timer} (hτ : s.timers[k]? = some τ) (harmed : τ.status = .armed) (hdue : τ.due ≤ s.now) :
      Effect s (.fire k) { s with timers := s.timers.set k { τ with status := .started } }
  | callback {k : Nat} {τ : Timer} (hτ : s.timers[k]? = some τ) (hstarted : τ.status = .started) :
      Effect s (.callback k) (s.ring k τ)
  | tick (n : Nat) : Effect s (.tick n) { s with now := s.now + n }

theorem effect_of_step {s s' : State} {a : Act} (hstep : step s a = some s') : Effect s a s' := by
  cases a with
  | callSet id t => exact Option.some.inj hstep ▸ .call (a := .callSet id t) nofun _ s.waits
  | callWait id => exact Option.some.inj hstep ▸ .call (a := .callWait id) nofun s.sets _
  | grantSet i =>
      simp only [step] at hstep
      split at hstep
      next hfree =>
        obtain ⟨c, -, rfl⟩ := Option.map_eq_some_iff.mp hstep
        exact .grant (a := .grantSet i) nofun hfree (show (Holder.setting c.1 c.2 .stop).fresh from rfl) _ s.waits
      next => cases hstep
  | grantWait i =>
      simp only [step] at hstep
      split at hstep
      next hfree =>
        obtain ⟨id, -, rfl⟩ := Option.map_eq_some_iff.mp hstep
        exact .grant (a := .grantWait i) nofun hfree (show (Holder.waiting id).fresh from trivial) s.sets _
      next => cases hstep
  | turn =>
      obtain ⟨holder, hmu, hstep⟩ := Option.bind_eq_some_iff.mp hstep
      exact .turn hmu (statement_of_advance hstep)
  | fire k =>
      obtain ⟨τ, hτ, hstep⟩ := Option.bind_eq_some_iff.mp hstep
      split at hstep
      next hdue => exact Option.some.inj hstep ▸ .fire hτ hdue.1 hdue.2
      next => cases hstep
  | callback k =>
      obtain ⟨τ, hτ, hstep⟩ := Option.bind_eq_some_iff.mp hstep
      split at hstep
      next hstarted => exact Option.some.inj hstep ▸ .callback hτ hstarted
      next => cases hstep
  | tick n => exact Option.some.inj hstep ▸ .tick n

/-! ### The invariant -/

/-- A timer whose callback is still to close a channel. -/
def Timer.live (τ : Timer) : Prop := τ.status = .armed ∨ τ.status = .started

/-- What holds of the call that has the lock. -/
def PlaceInv (s : State) : Option Holder → Prop
  | some (.setting _ _ .await) => ∃ k τ, s.timer = some k ∧ s.timers[k]? = some τ ∧ τ.status ≠ .armed
  | some (.setting _ _ .test) => s.timer = none ∨ s.closed s.expired = true
  | some (.setting _ _ (.choose closed)) => s.timer = none ∧ closed = s.closed s.expired
  | some (.setting _ t (.arm closed dur)) =>
      s.timer = none ∧ closed = s.closed s.expired ∧ ∃ u, t = some u ∧ u ≤ s.now + dur
  | some (.setting _ t (.expire closed)) =>
      s.timer = none ∧ closed = s.closed s.expired ∧ ∃ u, t = some u ∧ u ≤ s.now
  | _ => True

structure Inv (s : State) : Prop where
  safe : s.panicked = false
  current : s.expired + 1 = s.channels.length
  /-- A channel is replaced only once it is closed. -/
  replaced : ∀ c < s.expired, s.closed c = true
  held : ∀ w ∈ s.held, w.2 ≤ s.expired
  /-- The one live timer belongs to the current channel and to the deadline in force. -/
  live : ∀ k τ, s.timers[k]? = some τ → τ.live →
    s.timer = some k ∧ τ.channel = s.expired ∧ s.closed s.expired = false ∧
      ∃ t, s.inForce = some t ∧ t ≤ τ.due ∧ (τ.status = .started → t ≤ s.now)
  /-- A timer that is remembered is live, or has closed the channel. -/
  timer : ∀ k, s.timer = some k → ∃ τ, s.timers[k]? = some τ ∧ (τ.live ∨ s.closed s.expired = true)
  passed : s.closed s.expired = true → ∃ t, s.inForce = some t ∧ t ≤ s.now
  inForce : ∀ t, s.inForce = some t → s.closed s.expired = true ∨ s.timer.isSome = true
  place : PlaceInv s s.mu

variable {s s' : State}

theorem closed_set {channels : List Bool} {c : Nat} (hc : c < channels.length) (j : Nat) :
    ((channels.set c true)[j]? == some true) = (decide (j = c) || channels[j]? == some true) := by
  by_cases hj : j = c
  · subst hj
    simp [hc]
  · simp [List.getElem?_set_ne (Ne.symm hj), hj]

theorem Inv.lt (h : Inv s) : s.expired < s.channels.length := by
  have := h.current
  omega

/-- Without a remembered timer none is live. -/
theorem Inv.not_live (h : Inv s) (htimer : s.timer = none) {k : Nat} {τ : Timer} (hτ : s.timers[k]? = some τ) :
    ¬ τ.live := by
  intro hlive
  have hk := (h.live k τ hτ hlive).1
  rw [htimer] at hk
  cases hk

/-- Two live timers are one. -/
theorem Inv.live_unique (h : Inv s) {j k : Nat} {τ υ : Timer} (hτ : s.timers[j]? = some τ) (hlive : τ.live)
    (hυ : s.timers[k]? = some υ) (hlive' : υ.live) : j = k := by
  have hj := (h.live j τ hτ hlive).1
  have hk := (h.live k υ hυ hlive').1
  exact Option.some.inj (hj.symm.trans hk)

theorem getElem?_set_timer {timers : List Timer} {k : Nat} {τ : Timer} (hτ : timers[k]? = some τ) (υ : Timer) (j : Nat) :
    (timers.set k υ)[j]? = if j = k then some υ else timers[j]? := by
  obtain ⟨hlt, -⟩ := List.getElem?_eq_some_iff.mp hτ
  by_cases hj : j = k
  · rw [if_pos hj, hj, List.getElem?_set_self hlt]
  · rw [if_neg hj, List.getElem?_set_ne (Ne.symm hj)]

/-- A timer that is past `armed` stays so when one is set past it. -/
theorem exists_set_timer {timers : List Timer} {j k : Nat} {τ υ υ' : Timer} (hτ : timers[k]? = some τ)
    (hυ' : υ'.status ≠ .armed) (hυ : timers[j]? = some υ) (hne : υ.status ≠ .armed) :
    ∃ w, (timers.set k υ')[j]? = some w ∧ w.status ≠ .armed := by
  rw [getElem?_set_timer hτ]
  split
  next => exact ⟨υ', rfl, hυ'⟩
  next => exact ⟨υ, hυ, hne⟩

/-- The calls see the timers only in waiting for one that was too late to stop. -/
theorem PlaceInv.of_timers {mu : Option Holder} {timers : List Timer} (h : PlaceInv s mu)
    (htimers : ∀ (j : Nat) (τ : Timer), s.timers[j]? = some τ → τ.status ≠ .armed →
      ∃ τ' : Timer, timers[j]? = some τ' ∧ τ'.status ≠ .armed) : PlaceInv { s with timers } mu := by
  cases mu with
  | none => trivial
  | some holder =>
      cases holder with
      | waiting id => trivial
      | setting id t p =>
          cases p with
          | await =>
              obtain ⟨j, τ, hj, hτ, hne⟩ := h
              obtain ⟨τ', hτ', hne'⟩ := htimers j τ hτ hne
              exact ⟨j, τ', hj, hτ', hne'⟩
          | stop => trivial
          | test => exact h
          | choose closed => exact h
          | arm closed dur => exact h
          | expire closed => exact h

/-! ### Time and timers -/

theorem Inv.tick (h : Inv s) (n : Nat) : Inv { s with now := s.now + n } := by
  refine ⟨h.safe, h.current, h.replaced, h.held, fun k τ hτ hlive => ?_, h.timer, fun hclosed => ?_, h.inForce, ?_⟩
  · obtain ⟨htimer, hchannel, hopen, t, ht, hdue, hnow⟩ := h.live k τ hτ hlive
    refine ⟨htimer, hchannel, hopen, t, ht, hdue, fun hstarted => ?_⟩
    have := hnow hstarted
    show t ≤ s.now + n
    omega
  · obtain ⟨t, ht, hnow⟩ := h.passed hclosed
    refine ⟨t, ht, ?_⟩
    show t ≤ s.now + n
    omega
  · have hplace := h.place
    show PlaceInv { s with now := s.now + n } s.mu
    cases hmu : s.mu with
    | none => trivial
    | some holder =>
        rw [hmu] at hplace
        cases holder with
        | waiting id => trivial
        | setting id t p =>
            cases p with
            | stop => trivial
            | await => exact hplace
            | test => exact hplace
            | choose closed => exact hplace
            | arm closed dur =>
                obtain ⟨htimer, hclosed, u, hu, hle⟩ := hplace
                refine ⟨htimer, hclosed, u, hu, ?_⟩
                show u ≤ s.now + n + dur
                omega
            | expire closed =>
                obtain ⟨htimer, hclosed, u, hu, hle⟩ := hplace
                refine ⟨htimer, hclosed, u, hu, ?_⟩
                show u ≤ s.now + n
                omega

theorem Inv.fire (h : Inv s) {k : Nat} {τ : Timer} (hτ : s.timers[k]? = some τ) (harmed : τ.status = .armed)
    (hdue : τ.due ≤ s.now) : Inv { s with timers := s.timers.set k { τ with status := .started } } := by
  refine ⟨h.safe, h.current, h.replaced, h.held, fun j υ hυ hlive => ?_, fun j hj => ?_, h.passed, h.inForce,
    h.place.of_timers fun j υ hυ hne => exists_set_timer hτ nofun hυ hne⟩
  · obtain ⟨htimer, hchannel, hopen, t, ht, hle, -⟩ := h.live k τ hτ (.inl harmed)
    change (s.timers.set k { τ with status := .started })[j]? = some υ at hυ
    rw [getElem?_set_timer hτ] at hυ
    split at hυ
    next hjk =>
      obtain rfl := Option.some.inj hυ
      exact ⟨hjk ▸ htimer, hchannel, hopen, t, ht, hle, fun _ => hle.trans hdue⟩
    next => exact h.live j υ hυ hlive
  · obtain ⟨υ, hυ, hlive⟩ := h.timer j hj
    show ∃ υ', (s.timers.set k { τ with status := .started })[j]? = some υ' ∧ _
    rw [getElem?_set_timer hτ]
    split
    next => exact ⟨_, rfl, .inl (.inr rfl)⟩
    next => exact ⟨υ, hυ, hlive⟩

/-- A closed channel leaves the calls before their test of it where they are; those behind it have no timer that could
have closed it. -/
theorem PlaceInv.of_closed {mu : Option Holder} {k : Nat} (h : PlaceInv s mu) (hk : s.timer = some k)
    (htimer : s'.timer = s.timer) (hclosed : s'.closed s'.expired = true)
    (htimers : ∀ (j : Nat) (τ : Timer), s.timers[j]? = some τ → τ.status ≠ .armed →
      ∃ τ' : Timer, s'.timers[j]? = some τ' ∧ τ'.status ≠ .armed) : PlaceInv s' mu := by
  cases mu with
  | none => trivial
  | some holder =>
      cases holder with
      | waiting id => trivial
      | setting id t p =>
          cases p with
          | stop => trivial
          | await =>
              obtain ⟨j, τ, hj, hτ, hne⟩ := h
              obtain ⟨τ', hτ', hne'⟩ := htimers j τ hτ hne
              exact ⟨j, τ', htimer.trans hj, hτ', hne'⟩
          | test => exact .inr hclosed
          | choose closed => cases hk.symm.trans h.1
          | arm closed dur => cases hk.symm.trans h.1
          | expire closed => cases hk.symm.trans h.1

/-- The callback of a live timer closes the current channel, which is open. -/
theorem Inv.ring_eq (h : Inv s) {k : Nat} {τ : Timer} (hτ : s.timers[k]? = some τ) (hstarted : τ.status = .started) :
    s.ring k τ = { s with
      timers := s.timers.set k { τ with status := .done }, channels := s.channels.set s.expired true } := by
  obtain ⟨-, hchannel, hopen, -⟩ := h.live k τ hτ (.inr hstarted)
  rw [State.ring, hchannel, State.close]
  exact if_neg (by rw [Bool.not_eq_true]; exact hopen)

theorem Inv.closed_ring (h : Inv s) {k : Nat} {τ : Timer} (hτ : s.timers[k]? = some τ)
    (hstarted : τ.status = .started) : (s.ring k τ).closed s.expired = true := by
  rw [h.ring_eq hτ hstarted]
  refine (closed_set h.lt s.expired).trans ?_
  rw [decide_eq_true rfl, Bool.true_or]

theorem Inv.ring (h : Inv s) {k : Nat} {τ : Timer} (hτ : s.timers[k]? = some τ) (hstarted : τ.status = .started) :
    Inv (s.ring k τ) := by
  obtain ⟨htimer, -, -, t, ht, -, hnow⟩ := h.live k τ hτ (.inr hstarted)
  have hclosed (c : Nat) : (s.ring k τ).closed c = (decide (c = s.expired) || s.closed c) := by
    rw [h.ring_eq hτ hstarted]
    exact closed_set h.lt c
  have hcurrent := h.closed_ring hτ hstarted
  rw [h.ring_eq hτ hstarted] at hclosed hcurrent ⊢
  refine ⟨h.safe, ?_, fun c hc => ?_, h.held, fun j υ hυ hlive => ?_, fun j hj => ?_,
    fun _ => ⟨t, ht, hnow hstarted⟩, fun _ _ => .inl hcurrent,
    h.place.of_closed htimer rfl hcurrent fun j υ hυ hne => exists_set_timer hτ nofun hυ hne⟩
  · show s.expired + 1 = (s.channels.set s.expired true).length
    rw [List.length_set]
    exact h.current
  · rw [hclosed, h.replaced c hc, Bool.or_true]
  · exfalso
    change (s.timers.set k { τ with status := .done })[j]? = some υ at hυ
    rw [getElem?_set_timer hτ] at hυ
    split at hυ
    next =>
      obtain rfl := Option.some.inj hυ
      obtain hlive | hlive := hlive <;> cases hlive
    next hne => exact hne (h.live_unique hυ hlive hτ (.inr hstarted))
  · obtain ⟨υ, hυ, -⟩ := h.timer j hj
    show ∃ υ', (s.timers.set k { τ with status := .done })[j]? = some υ' ∧ _
    rw [getElem?_set_timer hτ]
    split
    next => exact ⟨_, rfl, .inr hcurrent⟩
    next => exact ⟨υ, hυ, .inr hcurrent⟩

/-! ### The statements under the lock -/

/-- A call that only moves on. -/
theorem Inv.move (h : Inv s) {mu : Option Holder} (hplace : PlaceInv s mu) : Inv { s with mu } :=
  ⟨h.safe, h.current, h.replaced, h.held, h.live, h.timer, h.passed, h.inForce, hplace⟩

theorem Inv.wait (h : Inv s) (id : Nat) : Inv { s with mu := none, held := s.held ++ [(id, s.expired)] } := by
  refine ⟨h.safe, h.current, h.replaced, fun w hw => ?_, h.live, h.timer, h.passed, h.inForce, trivial⟩
  obtain hw | hw := List.mem_append.mp hw
  · exact h.held w hw
  · obtain rfl := List.mem_singleton.mp hw
    exact le_rfl

theorem Inv.stopTimer (h : Inv s) (id : Nat) (t : Option Int) : Inv (s.stopTimer id t) := by
  unfold State.stopTimer
  split
  next htimer => exact h.move (.inl htimer)
  next k htimer =>
    split
    next channel due hτ =>
      -- The one live timer is stopped, so none is left and the deadline is not in force.
      have hopen := (h.live k _ hτ (.inl rfl)).2.2.1
      refine ⟨h.safe, h.current, h.replaced, h.held, fun j υ hυ hlive => ?_, nofun, fun hclosed => ?_, nofun, .inl rfl⟩
      · exfalso
        change (s.timers.set k ⟨channel, due, .stopped⟩)[j]? = some υ at hυ
        rw [getElem?_set_timer hτ] at hυ
        split at hυ
        next =>
          obtain rfl := Option.some.inj hυ
          obtain hlive | hlive := hlive <;> cases hlive
        next hne => exact hne (h.live_unique hυ hlive hτ (.inl rfl))
      · change s.closed s.expired = true at hclosed
        rw [hopen] at hclosed
        cases hclosed
    next hlate =>
      obtain ⟨τ, hτ, -⟩ := h.timer k htimer
      refine h.move ⟨k, τ, htimer, hτ, fun harmed => ?_⟩
      refine hlate τ.channel τ.due ?_
      rw [hτ, ← harmed]

theorem Inv.test (h : Inv s) (hplace : s.timer = none ∨ s.closed s.expired = true) (id : Nat) (t : Option Int) :
    Inv (({ s with timer := none } : State).place id t (.choose (s.closed s.expired))) := by
  refine ⟨h.safe, h.current, h.replaced, h.held, fun k τ hτ hlive => ?_, nofun, h.passed, fun u hu => ?_, rfl, rfl⟩
  · exfalso
    obtain ⟨htimer, -, hopen, -⟩ := h.live k τ hτ hlive
    obtain hnone | hclosed := hplace
    · cases htimer.symm.trans hnone
    · cases hopen.symm.trans hclosed
  · left
    obtain hclosed | hsome := h.inForce u hu
    · exact hclosed
    · obtain hnone | hclosed := hplace
      · rw [hnone] at hsome
        cases hsome
      · exact hclosed

/-- The channel a `set` goes on with, new if the old one was closed: what the invariant says of the channels. -/
theorem Inv.renew (h : Inv s) :
    (s.renew (s.closed s.expired)).expired + 1 = (s.renew (s.closed s.expired)).channels.length ∧
      (∀ c < (s.renew (s.closed s.expired)).expired, (s.renew (s.closed s.expired)).closed c = true) ∧
      (∀ w ∈ s.held, w.2 ≤ (s.renew (s.closed s.expired)).expired) ∧
      (s.renew (s.closed s.expired)).closed (s.renew (s.closed s.expired)).expired = false := by
  cases hclosed : s.closed s.expired with
  | false => exact ⟨h.current, h.replaced, h.held, hclosed⟩
  | true =>
      have hlength := h.current
      have hold (c : Nat) (hc : c < s.channels.length) : (s.renew true).closed c = s.closed c := by
        show ((s.channels ++ [false])[c]? == some true) = (s.channels[c]? == some true)
        rw [List.getElem?_append_left hc]
      refine ⟨?_, fun c hc => ?_, fun w hw => ?_, ?_⟩
      · show s.channels.length + 1 = (s.channels ++ [false]).length
        rw [List.length_append, List.length_singleton]
      · change c < s.channels.length at hc
        rw [hold c hc]
        by_cases hlast : c = s.expired
        · rw [hlast, hclosed]
        · exact h.replaced c (by omega)
      · have hle := h.held w hw
        show w.2 ≤ s.channels.length
        omega
      · show ((s.channels ++ [false])[s.channels.length]? == some true) = false
        simp

theorem Inv.clear (h : Inv s) (htimer : s.timer = none) (id : Nat) :
    Inv ((s.renew (s.closed s.expired)).finish id none) := by
  obtain ⟨hcurrent, hreplaced, hheld, hopen⟩ := h.renew
  refine ⟨h.safe, hcurrent, hreplaced, hheld, fun k τ hτ hlive => ?_, fun k hk => ?_, fun hclosed => ?_, nofun, trivial⟩
  · exact absurd hlive (h.not_live htimer hτ)
  · cases hk.symm.trans htimer
  · cases hopen.symm.trans hclosed

theorem Inv.arm (h : Inv s) (htimer : s.timer = none) {dur u : Int} (hu : u ≤ s.now + dur) (id : Nat) :
    Inv (((s.renew (s.closed s.expired)).startTimer dur).finish id (some u)) := by
  obtain ⟨hcurrent, hreplaced, hheld, hopen⟩ := h.renew
  refine ⟨h.safe, hcurrent, hreplaced, hheld, fun k τ hτ hlive => ?_, fun k hk => ?_, fun hclosed => ?_,
    fun _ _ => .inr rfl, trivial⟩
  · change (s.timers ++ [⟨(s.renew (s.closed s.expired)).expired, s.now + dur, .armed⟩])[k]? = some τ at hτ
    rw [List.getElem?_append] at hτ
    split at hτ
    next => exact absurd hlive (h.not_live htimer hτ)
    next hge =>
      obtain ⟨hlt, rfl⟩ := List.getElem?_eq_some_iff.mp hτ
      rw [List.length_singleton] at hlt
      have hk : k = s.timers.length := by omega
      subst hk
      simp only [Nat.sub_self, List.getElem_cons_zero]
      exact ⟨rfl, rfl, hopen, u, rfl, hu, nofun⟩
  · obtain rfl := Option.some.inj hk
    refine ⟨⟨(s.renew (s.closed s.expired)).expired, s.now + dur, .armed⟩, ?_, .inl (.inl rfl)⟩
    show (s.timers ++ [⟨(s.renew (s.closed s.expired)).expired, s.now + dur, .armed⟩])[s.timers.length]? = _
    simp
  · cases hopen.symm.trans hclosed

theorem Inv.expire (h : Inv s) (htimer : s.timer = none) {u : Int} (hu : u ≤ s.now) (id : Nat) :
    Inv ((if s.closed s.expired then s else s.close s.expired).finish id (some u)) := by
  split
  next hclosed =>
    refine ⟨h.safe, h.current, h.replaced, h.held, fun k τ hτ hlive => ?_, h.timer, fun _ => ⟨u, rfl, hu⟩,
      fun _ _ => .inl hclosed, trivial⟩
    exact absurd hlive (h.not_live htimer hτ)
  next hopen =>
    have hclose : s.close s.expired = { s with channels := s.channels.set s.expired true } := if_neg hopen
    have hclosed (c : Nat) : (s.close s.expired).closed c = (decide (c = s.expired) || s.closed c) := by
      rw [hclose]
      exact closed_set h.lt c
    have hcurrent : (s.close s.expired).closed s.expired = true := by rw [hclosed, decide_eq_true rfl, Bool.true_or]
    rw [hclose] at hclosed hcurrent ⊢
    refine ⟨h.safe, ?_, fun c hc => ?_, h.held, fun k τ hτ hlive => ?_, fun k hk => ?_, fun _ => ⟨u, rfl, hu⟩,
      fun _ _ => .inl hcurrent, trivial⟩
    · show s.expired + 1 = (s.channels.set s.expired true).length
      rw [List.length_set]
      exact h.current
    · refine (hclosed c).trans ?_
      rw [h.replaced c hc, Bool.or_true]
    · exact absurd hlive (h.not_live htimer hτ)
    · cases hk.symm.trans htimer

theorem Inv.statement (h : Inv s) {holder : Holder} (hmu : s.mu = some holder) (hstatement : Statement s holder s') :
    Inv s' := by
  have hplace := h.place
  rw [hmu] at hplace
  cases hstatement with
  | read id => exact h.wait id
  | stop id t => exact h.stopTimer id t
  | await id t hclosed => exact h.move (.inr hclosed)
  | test id t => exact h.test hplace id t
  | clear id closed =>
      obtain ⟨htimer, rfl⟩ := hplace
      exact h.clear htimer id
  | future id closed => exact h.move ⟨hplace.1, hplace.2, _, rfl, by omega⟩
  | past id closed hu => exact h.move ⟨hplace.1, hplace.2, _, rfl, hu⟩
  | arm id t closed dur =>
      obtain ⟨htimer, rfl, u, rfl, hu⟩ := hplace
      exact h.arm htimer hu id
  | expired id t =>
      obtain ⟨htimer, hclosed, u, rfl, hu⟩ := hplace
      have hexpire := h.expire htimer hu id
      rwa [if_pos hclosed.symm] at hexpire
  | expire id t =>
      obtain ⟨htimer, hclosed, u, rfl, hu⟩ := hplace
      have hexpire := h.expire htimer hu id
      rwa [if_neg (by rw [← hclosed]; nofun)] at hexpire

theorem Inv.effect (h : Inv s) {a : Act} (heffect : Effect s a s') : Inv s' := by
  cases heffect with
  | call _ sets waits =>
      exact ⟨h.safe, h.current, h.replaced, h.held, h.live, h.timer, h.passed, h.inForce, h.place⟩
  | @grant _ holder _ _ hfresh sets waits =>
      refine ⟨h.safe, h.current, h.replaced, h.held, h.live, h.timer, h.passed, h.inForce, ?_⟩
      cases holder with
      | waiting id => trivial
      | setting id t p =>
          obtain rfl : p = .stop := hfresh
          trivial
  | turn hmu hstatement => exact h.statement hmu hstatement
  | fire hτ harmed hdue => exact h.fire hτ harmed hdue
  | callback hτ hstarted => exact h.ring hτ hstarted
  | tick n => exact h.tick n

theorem inv_init : Inv init where
  safe := rfl
  current := rfl
  replaced := fun c hc => absurd hc (Nat.not_lt_zero c)
  held := nofun
  live := nofun
  timer := nofun
  passed := nofun
  inForce := nofun
  place := trivial

theorem inv_of_reachable (hreach : Reachable s) : Inv s :=
  hreach.invariant inv_init fun _ _ _ hinv hstep => hinv.effect (effect_of_step hstep)

end GlitchCore.Core.Deadline
