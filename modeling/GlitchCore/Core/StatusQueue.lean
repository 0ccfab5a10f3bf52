import GlitchCore.Base.Interleaving
import GlitchCore.Logfmt.Scrub

/-!
# Status events

Every event goes to the one callback the host registered, from the goroutine that emits it, unless an FFI call is
running or events are already queued: then it goes through `deferredStatus`, and a goroutine of its own empties
the queue. The model has the goroutines that emit, inside an FFI call or outside one, the registration of the
callback, the queue with its lock, and the drain goroutine; the queue's lock is held over what is one step here.
-/

namespace GlitchCore.Core

/-! ### Status codes -/

def statsError : Int32 := 301
def logEvent : Int32 := 400
def logError : Int32 := 401
def connEvent : Int32 := 402

namespace StatusQueue

open GoText Interleaving

structure StatusEvent where
  code : Int32
  message : Text
  deriving DecidableEq

/-- The codes from `EngineConnecting` to `EngineStopRejectedNotRunning`, and that of a stats error. -/
def carriesErrorText (code : Int32) : Bool := code == statsError || decide (500 ≤ code ∧ code ≤ 507)

/-- What `emitStatus` hands on. -/
def StatusEvent.scrubbed (ev : StatusEvent) : StatusEvent :=
  if carriesErrorText ev.code then { ev with message := Logfmt.scrub ev.message } else ev

def StatusEvent.droppable (ev : StatusEvent) : Bool := ev.code == logEvent || ev.code == connEvent

/-- An event on its way to a callback: the `number`th of the goroutine `source`. -/
structure Emission where
  source : Nat
  number : Nat
  callback : Nat
  event : StatusEvent
  deriving DecidableEq

def maxDeferredStatus : Nat := 2048

/-- A drain goroutine is known by the event it has taken and not yet delivered. `delivered` records the calls of
the callbacks. -/
structure Memory where
  inFFICall : Bool := false
  statusSink : Option Nat := none
  statusCallbackRegistered : Bool := false
  pending : List Emission := []
  draining : Bool := false
  drains : List (Option Emission) := []
  delivered : List Emission := []

def dropOldestDroppable (pending : List Emission) : List Emission := pending.eraseP fun e => e.event.droppable

/-- All of it under `mu`. No answer: the caller delivers the event itself. -/
def Memory.offer (m : Memory) (e : Emission) (mustDefer : Bool) : Option Memory :=
  if !mustDefer && !m.draining then none
  else
    let pending := if maxDeferredStatus ≤ m.pending.length then dropOldestDroppable m.pending else m.pending
    if m.draining then some { m with pending := pending ++ [e] }
    else some { m with pending := pending ++ [e], draining := true, drains := m.drains ++ [none] }

/-- A step of the drain goroutine `j`: the part under `mu`, or the callback. -/
def Memory.drain (m : Memory) (j : Nat) : Option Memory :=
  match m.drains[j]? with
  | none => none
  | some none =>
      match m.pending with
      | [] => some { m with draining := false, drains := m.drains.eraseIdx j }
      | e :: rest => some { m with pending := rest, drains := m.drains.set j (some e) }
  | some (some e) => some { m with delivered := m.delivered ++ [e], drains := m.drains.set j none }

/-- Where a goroutine stands: before and after `runFFICall`'s body, between two events, or inside `emitStatus`. -/
inductive Point where
  | enter
  | ready
  | loadSink
  | loadCall (callback : Nat)
  | offer (callback : Nat) (mustDefer : Bool)
  | deliver (callback : Nat)
  | leave
  | ended
  deriving DecidableEq

/-- A goroutine that emits `events`, of which `emitted` are done with; `call` is whether it does so as the body of
a `runFFICall`. -/
structure Goroutine where
  call : Bool
  events : List StatusEvent
  emitted : Nat
  point : Point
  deriving DecidableEq

def Goroutine.emission (g : Goroutine) (i callback : Nat) (ev : StatusEvent) : Emission :=
  ⟨i, g.emitted, callback, ev.scrubbed⟩

/-- `emitStatus` has returned. -/
def Goroutine.next (g : Goroutine) : Goroutine := { g with emitted := g.emitted + 1, point := .ready }

def Goroutine.exec (i : Nat) (m : Memory) (g : Goroutine) : Option (Memory × Goroutine) :=
  match g.point, g.events[g.emitted]? with
  | .enter, _ => some ({ m with inFFICall := true }, { g with point := .ready })
  | .ready, some _ => some (m, if m.statusCallbackRegistered then { g with point := .loadSink } else g.next)
  | .ready, none => some (m, { g with point := if g.call then .leave else .ended })
  | .loadSink, _ =>
      match m.statusSink with
      | some callback => some (m, { g with point := .loadCall callback })
      | none => some (m, g.next)
  | .loadCall callback, _ => some (m, { g with point := .offer callback m.inFFICall })
  | .offer callback mustDefer, some ev =>
      match m.offer (g.emission i callback ev) mustDefer with
      | some m' => some (m', g.next)
      | none => some (m, { g with point := .deliver callback })
  | .deliver callback, some ev =>
      some ({ m with delivered := m.delivered ++ [g.emission i callback ev] }, g.next)
  -- the deferred store of `runFFICall`
  | .leave, _ => some ({ m with inFFICall := false }, { g with point := .ended })
  | _, _ => none

inductive Place where
  | goroutine (g : Goroutine)
  | drain
  | sinkStore (fn : Option Nat)
  | sinkRegister (fn : Option Nat)
  | done

inductive Request where
  | emit (events : List StatusEvent)
  | ffiCall (events : List StatusEvent)
  | setStatusSink (fn : Option Nat)
  | drain

def Request.start : Request → Place
  | .emit events => .goroutine ⟨false, events, 0, .ready⟩
  | .ffiCall events => .goroutine ⟨true, events, 0, .enter⟩
  | .setStatusSink fn => .sinkStore fn
  | .drain => .drain

/-- The drain goroutines of `m.drains` are run by the threads in the place `drain`, each step for the one that
`j` names. -/
def exec (i : Nat) (m : Memory) (t : Place) (j : Nat) : Option (Memory × Place) :=
  match t with
  | .goroutine g => (g.exec i m).map fun out => (out.1, .goroutine out.2)
  | .drain => (m.drain j).map fun m' => (m', .drain)
  | .sinkStore fn => some ({ m with statusSink := fn }, .sinkRegister fn)
  | .sinkRegister fn => some ({ m with statusCallbackRegistered := fn.isSome }, .done)
  | .done => none

abbrev status : Program Memory Place Request Nat := ⟨Request.start, exec⟩

abbrev State := Config Memory Place
abbrev Action := Act Request Nat

def State.init : State := ⟨{}, []⟩

/-! ### What one step does -/

/-- Inside `emitStatus`, past the check for a registered callback. -/
def Point.emitting : Point → Bool
  | .loadSink | .loadCall _ | .offer .. | .deliver _ => true
  | _ => false

def Point.callback : Point → Option Nat
  | .loadCall callback | .offer callback _ | .deliver callback => some callback
  | _ => none

/-- An event inside `emitStatus` is one of the goroutine's own. -/
def Goroutine.Valid (g : Goroutine) : Prop := g.point.emitting = true → ∃ ev, g.events[g.emitted]? = some ev

/-- The steps of a goroutine, by what they do to the queue and to the callback. -/
inductive Emits (i : Nat) (m : Memory) (g : Goroutine) : Memory → Goroutine → Prop
  | quiet (flag : Bool) (point : Point) (hpoint : ∀ callback, point ≠ .deliver callback)
      (hcallback : ∀ callback ∈ point.callback, g.point.callback = some callback ∨ m.statusSink = some callback)
      (hvalid : g.Valid → Goroutine.Valid { g with point }) :
      Emits i m g { m with inFFICall := flag } { g with point }
  | unheard (hnone : m.statusCallbackRegistered = false ∨ m.statusSink = none) : Emits i m g m g.next
  | deferred {callback : Nat} {mustDefer : Bool} {ev : StatusEvent} {m' : Memory}
      (hpoint : g.point = .offer callback mustDefer) (hev : g.events[g.emitted]? = some ev)
      (hoffer : m.offer (g.emission i callback ev) mustDefer = some m') : Emits i m g m' g.next
  | direct {callback : Nat} {ev : StatusEvent} (hpoint : g.point = .offer callback false)
      (hev : g.events[g.emitted]? = some ev) (hidle : m.draining = false) :
      Emits i m g m { g with point := .deliver callback }
  | delivers {callback : Nat} {ev : StatusEvent} (hpoint : g.point = .deliver callback)
      (hev : g.events[g.emitted]? = some ev) :
      Emits i m g { m with delivered := m.delivered ++ [g.emission i callback ev] } g.next

theorem offer_eq_none {m : Memory} {e : Emission} {mustDefer : Bool} :
    m.offer e mustDefer = none ↔ mustDefer = false ∧ m.draining = false := by
  unfold Memory.offer
  cases mustDefer <;> cases hdrain : m.draining <;> simp

theorem Emits.outside {i : Nat} {m : Memory} {g : Goroutine} (flag : Bool) (point : Point)
    (hpoint : point.emitting = false) : Emits i m g { m with inFFICall := flag } { g with point } := by
  refine .quiet flag point ?_ ?_ fun _ hemitting => ?_
  · rintro callback rfl
    cases hpoint
  · intro callback hcallback
    cases point <;> cases hcallback <;> cases hpoint
  · rw [hpoint] at hemitting
    cases hemitting

theorem Goroutine.emits {i : Nat} {m m' : Memory} {g g' : Goroutine} (h : g.exec i m = some (m', g')) :
    Emits i m g m' g' := by
  unfold Goroutine.exec at h
  split at h
  next =>
    cases h
    exact .outside true .ready rfl
  next ev _ hev =>
    cases h
    by_cases hregistered : m.statusCallbackRegistered = true
    · rw [if_pos hregistered]
      exact .quiet m.inFFICall .loadSink (by simp) (by simp [Point.callback]) fun _ _ => ⟨ev, hev⟩
    · rw [if_neg hregistered]
      exact .unheard (.inl (Bool.eq_false_iff.mpr hregistered))
  next =>
    cases h
    exact .outside m.inFFICall (if g.call then .leave else .ended) (by split <;> rfl)
  next hpoint =>
    split at h
    next callback hsink =>
      cases h
      exact .quiet m.inFFICall (.loadCall callback) (by simp) (by simp [Point.callback, hsink])
        fun hvalid _ => hvalid (by rw [hpoint]; rfl)
    next hsink =>
      cases h
      exact .unheard (.inr hsink)
  next callback hpoint =>
    cases h
    exact .quiet m.inFFICall (.offer callback m.inFFICall) (by simp) (by simp [Point.callback, hpoint])
      fun hvalid _ => hvalid (by rw [hpoint]; rfl)
  next hpoint hev =>
    split at h
    next hoffer =>
      cases h
      exact .deferred hpoint hev hoffer
    next hoffer =>
      cases h
      obtain ⟨rfl, hidle⟩ := offer_eq_none.mp hoffer
      exact .direct hpoint hev hidle
  next hpoint hev =>
    cases h
    exact .delivers hpoint hev
  next =>
    cases h
    exact .outside false .ended rfl
  next => cases h

/-! ### The queue -/

/-- There is a drain goroutine exactly while `draining` is set, and events wait only then. -/
structure Memory.Sound (m : Memory) : Prop where
  drains : m.drains.length = if m.draining then 1 else 0
  idle : m.draining = false → m.pending = []

/-- The events taken by a drain goroutine and those behind them. -/
def Memory.queued (m : Memory) : List Emission := m.drains.filterMap id ++ m.pending

/-- Everything that has gone out or will, in the order it goes. -/
def Memory.line (m : Memory) : List Emission := m.delivered ++ m.queued

/-- The steps of the drain goroutine. -/
inductive Drains (m : Memory) : Memory → Prop
  | takes {e : Emission} {rest : List Emission} (hdrains : m.drains = [none]) (hpending : m.pending = e :: rest) :
      Drains m { m with pending := rest, drains := [some e] }
  | rests (hdrains : m.drains = [none]) (hpending : m.pending = []) :
      Drains m { m with draining := false, drains := [] }
  | calls {e : Emission} (hdrains : m.drains = [some e]) :
      Drains m { m with delivered := m.delivered ++ [e], drains := [none] }

theorem Memory.Sound.drains_eq {m : Memory} (h : m.Sound) :
    m.draining = false ∧ m.drains = [] ∨ m.draining = true ∧ ∃ d, m.drains = [d] := by
  have hlength := h.drains
  cases hdrain : m.draining with
  | false =>
      rw [hdrain, if_neg Bool.false_ne_true] at hlength
      exact .inl ⟨rfl, List.length_eq_zero_iff.mp hlength⟩
  | true =>
      rw [hdrain, if_pos rfl] at hlength
      exact .inr ⟨rfl, List.length_eq_one_iff.mp hlength⟩

theorem Memory.Sound.drain {m m' : Memory} (h : m.Sound) {j : Nat} (hstep : m.drain j = some m') : Drains m m' := by
  unfold Memory.drain at hstep
  obtain ⟨-, hnil⟩ | ⟨-, d, hone⟩ := h.drains_eq
  · rw [hnil] at hstep
    cases hstep
  · cases j with
    | succ j =>
        rw [hone] at hstep
        cases hstep
    | zero =>
        simp only [hone, List.getElem?_cons_zero] at hstep
        cases d with
        | none =>
            dsimp only at hstep
            split at hstep
            next hpending =>
              cases hstep
              exact .rests hone hpending
            next hpending =>
              cases hstep
              exact .takes hone hpending
        | some e =>
            cases hstep
            exact .calls hone

theorem Memory.Sound.draining_of_queued {m : Memory} (h : m.Sound) (hqueued : m.queued ≠ []) : m.draining = true := by
  obtain ⟨hidle, hnil⟩ | ⟨hdraining, -⟩ := h.drains_eq
  · rw [Memory.queued, hnil, h.idle hidle] at hqueued
    exact absurd rfl hqueued
  · exact hdraining

/-- The drain goroutine never waits. -/
theorem Memory.Sound.exists_drain {m : Memory} (h : m.Sound) (hdraining : m.draining = true) :
    ∃ m', m.drain 0 = some m' := by
  obtain ⟨hidle, -⟩ | ⟨-, d, hone⟩ := h.drains_eq
  · rw [hidle] at hdraining
    cases hdraining
  · unfold Memory.drain
    rw [hone]
    cases d with
    | none => cases m.pending <;> exact ⟨_, rfl⟩
    | some e => exact ⟨_, rfl⟩

theorem Drains.sound {m m' : Memory} (h : Drains m m') (hm : m.Sound) : m'.Sound := by
  cases h with
  | takes hdrains _ =>
      have hdraining : m.draining = true := by
        obtain ⟨-, hnil⟩ | ⟨hdraining, -⟩ := hm.drains_eq
        · rw [hnil] at hdrains
          cases hdrains
        · exact hdraining
      exact ⟨by simp [hdraining], by simp [hdraining]⟩
  | rests _ hpending => exact ⟨rfl, fun _ => hpending⟩
  | calls hdrains =>
      have hlength := hm.drains
      rw [hdrains] at hlength
      exact ⟨hlength, hm.idle⟩

theorem Drains.line_eq {m m' : Memory} (h : Drains m m') : m'.line = m.line := by
  cases h with
  | takes hdrains hpending => simp [Memory.line, Memory.queued, hdrains, hpending]
  | rests hdrains hpending => simp [Memory.line, Memory.queued, hdrains, hpending]
  | calls hdrains => simp [Memory.line, Memory.queued, hdrains]

theorem Drains.queued_suffix {m m' : Memory} (h : Drains m m') : m'.queued <:+ m.queued := by
  cases h with
  | takes hdrains hpending => simp [Memory.queued, hdrains, hpending]
  | rests hdrains hpending => simp [Memory.queued, hdrains, hpending]
  | calls hdrains => simp [Memory.queued, hdrains]

/-- What trimming may leave of a queue: no event moves back, and one that is not droppable stays. -/
structure Shed (queue kept : List Emission) : Prop where
  sublist : kept.Sublist queue
  stays : ∀ a x b, queue = a ++ x :: b → x.event.droppable = false → ∃ a' b', kept = a' ++ x :: b' ∧ a'.length ≤ a.length

theorem Shed.refl (queue : List Emission) : Shed queue queue :=
  ⟨.refl _, fun a _ b h _ => ⟨a, b, h, Nat.le_refl _⟩⟩

theorem Shed.cons {queue kept : List Emission} (h : Shed queue kept) (e : Emission) : Shed (e :: queue) (e :: kept) := by
  refine ⟨h.sublist.cons_cons e, fun a x b heq hx => ?_⟩
  cases a with
  | nil =>
      cases heq
      exact ⟨[], kept, rfl, Nat.le_refl _⟩
  | cons y a =>
      cases heq
      obtain ⟨a', b', hkept, hle⟩ := h.stays a x b rfl hx
      exact ⟨e :: a', b', by rw [hkept, List.cons_append], Nat.succ_le_succ hle⟩

theorem Shed.append {queue kept : List Emission} (h : Shed queue kept) (taken : List Emission) :
    Shed (taken ++ queue) (taken ++ kept) := by
  induction taken with
  | nil => exact h
  | cons e taken ih => exact ih.cons e

theorem shed_dropOldestDroppable (pending : List Emission) : Shed pending (dropOldestDroppable pending) := by
  induction pending with
  | nil => exact .refl _
  | cons e rest ih =>
      by_cases he : e.event.droppable = true
      · have hdrop : dropOldestDroppable (e :: rest) = rest := List.eraseP_cons_of_pos he
        rw [hdrop]
        refine ⟨List.sublist_cons_self e rest, fun a x b heq hx => ?_⟩
        cases a with
        | nil =>
            cases heq
            rw [he] at hx
            cases hx
        | cons y a =>
            cases heq
            exact ⟨a, b, rfl, Nat.le_succ _⟩
      · have hkeep : dropOldestDroppable (e :: rest) = e :: dropOldestDroppable rest := List.eraseP_cons_of_neg he
        rw [hkeep]
        exact ih.cons e

theorem Shed.mem {queue kept : List Emission} (h : Shed queue kept) {x : Emission} (hx : x ∈ queue)
    (hdrop : x.event.droppable = false) : x ∈ kept := by
  obtain ⟨a, b, hsplit⟩ := List.append_of_mem hx
  obtain ⟨a', b', hkept, -⟩ := h.stays a x b hsplit hdrop
  rw [hkept]
  exact List.mem_append_right _ List.mem_cons_self

/-- An accepted offer: the queue is trimmed if it is full, and the event goes to its end. -/
theorem offer_spec {m m' : Memory} {e : Emission} {mustDefer : Bool} (h : m.offer e mustDefer = some m') (hm : m.Sound) :
    m'.Sound ∧ m'.delivered = m.delivered ∧ m'.statusSink = m.statusSink ∧
      m'.statusCallbackRegistered = m.statusCallbackRegistered ∧
      m'.pending = (if maxDeferredStatus ≤ m.pending.length then dropOldestDroppable m.pending else m.pending) ++ [e] ∧
      ∃ kept, Shed m.queued kept ∧ m'.queued = kept ++ [e] := by
  have hdefer : ¬(!mustDefer && !m.draining) = true := by
    intro hnone
    rw [Memory.offer, if_pos hnone] at h
    cases h
  rw [Memory.offer, if_neg hdefer] at h
  have hshed : Shed m.pending
      (if maxDeferredStatus ≤ m.pending.length then dropOldestDroppable m.pending else m.pending) := by
    split
    · exact shed_dropOldestDroppable _
    · exact .refl _
  dsimp only at h
  generalize (if maxDeferredStatus ≤ m.pending.length then dropOldestDroppable m.pending else m.pending) = kept
    at h hshed ⊢
  obtain ⟨hdraining, hnil⟩ | ⟨hdraining, -⟩ := hm.drains_eq
  · rw [if_neg (by simp [hdraining])] at h
    cases h
    refine ⟨⟨by simp [hnil], nofun⟩, rfl, rfl, rfl, rfl, kept, ?_, by simp [Memory.queued, hnil]⟩
    simpa [Memory.queued, hnil] using hshed
  · rw [if_pos hdraining] at h
    cases h
    exact ⟨⟨hm.drains, by simp [hdraining]⟩, rfl, rfl, rfl, rfl, _, hshed.append _, by simp [Memory.queued]⟩

/-- The steps of the whole system. -/
inductive Moves (s : State) : Action → State → Prop
  | spawn (r : Request) : Moves s (.spawn r) ⟨s.mem, s.threads ++ [r.start]⟩
  | goroutine {i j : Nat} {g g' : Goroutine} {m : Memory} (hi : s.threads[i]? = some (.goroutine g))
      (hexec : g.exec i s.mem = some (m, g')) (hemits : Emits i s.mem g m g') :
      Moves s (.run i j) ⟨m, s.threads.set i (.goroutine g')⟩
  | drain {i j : Nat} {m : Memory} (hi : s.threads[i]? = some .drain) (hdrain : s.mem.drain j = some m) :
      Moves s (.run i j) ⟨m, s.threads.set i .drain⟩
  | sinkStore {i j : Nat} {fn : Option Nat} (hi : s.threads[i]? = some (.sinkStore fn)) :
      Moves s (.run i j) ⟨{ s.mem with statusSink := fn }, s.threads.set i (.sinkRegister fn)⟩
  | sinkRegister {i j : Nat} {fn : Option Nat} (hi : s.threads[i]? = some (.sinkRegister fn)) :
      Moves s (.run i j) ⟨{ s.mem with statusCallbackRegistered := fn.isSome }, s.threads.set i .done⟩

theorem moves_of_step {s s' : State} {a : Action} (hstep : status.step s a = some s') : Moves s a s' := by
  cases a with
  | spawn r =>
      cases hstep
      exact .spawn r
  | run i j =>
      obtain ⟨t, t', hi, hexec, hthreads⟩ := Program.step_run hstep
      obtain ⟨m', threads⟩ := s'
      dsimp only at hthreads hexec
      subst hthreads
      cases t with
      | goroutine g =>
          obtain ⟨out, hout, heq⟩ := Option.map_eq_some_iff.mp hexec
          cases heq
          exact .goroutine hi hout (Goroutine.emits hout)
      | drain =>
          obtain ⟨m, hdrain, heq⟩ := Option.map_eq_some_iff.mp hexec
          cases heq
          exact .drain hi hdrain
      | sinkStore fn =>
          cases hexec
          exact .sinkStore hi
      | sinkRegister fn =>
          cases hexec
          exact .sinkRegister hi
      | done => cases hexec

theorem sound_step {s s' : State} {a : Action} (hs : s.mem.Sound) (hstep : status.step s a = some s') :
    s'.mem.Sound := by
  cases moves_of_step hstep with
  | spawn => exact hs
  | goroutine _ _ hemits =>
      cases hemits with
      | quiet => exact ⟨hs.drains, hs.idle⟩
      | unheard => exact hs
      | deferred _ _ hoffer => exact (offer_spec hoffer hs).1
      | direct => exact hs
      | delivers => exact ⟨hs.drains, hs.idle⟩
  | drain _ hdrain => exact (hs.drain hdrain).sound hs
  | sinkStore => exact ⟨hs.drains, hs.idle⟩
  | sinkRegister => exact ⟨hs.drains, hs.idle⟩

end StatusQueue

end GlitchCore.Core
