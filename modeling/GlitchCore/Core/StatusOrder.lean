import GlitchCore.Core.StatusQueue

/-!
# The order of status events

One callback is registered throughout. Everything that has gone out, and behind it everything that waits, forms
one line; a goroutine's events stand in it in the order it emitted them, and while the goroutine delivers one
itself none of them waits. The queue hands back to synchronous delivery only when it is empty and its last
callback has returned, so no event overtakes another of its goroutine. Only log and connection events are shed,
and every other one is out after as many callbacks as the queue was long.
-/

namespace GlitchCore.Core.StatusQueue

open GoText Interleaving

structure Goroutine.Tracks (callback i : Nat) (m : Memory) (g : Goroutine) : Prop where
  valid : g.Valid
  own : ∀ c ∈ g.point.callback, c = callback
  before : ∀ e ∈ m.line, e.source = i → e.number < g.emitted ∧ e.callback = callback ∧
    ∃ ev, g.events[e.number]? = some ev ∧ e.event = ev.scrubbed
  kept : ∀ k ev, k < g.emitted → g.events[k]? = some ev → ev.droppable = false →
    ∃ e ∈ m.line, e.source = i ∧ e.number = k
  alone : ∀ c, g.point = .deliver c → ∀ e ∈ m.queued, e.source ≠ i

def Place.Tracks (callback i : Nat) (m : Memory) : Place → Prop
  | .goroutine g => g.Tracks callback i m
  | .drain => ∀ e ∈ m.line, e.source ≠ i
  | _ => False

structure Ordered (callback : Nat) (s : State) : Prop where
  sink : s.mem.statusSink = some callback ∧ s.mem.statusCallbackRegistered = true
  sound : s.mem.Sound
  order : ∀ i, (s.mem.line.filter (·.source == i)).Pairwise (·.number < ·.number)
  known : ∀ e ∈ s.mem.line, e.source < s.threads.length
  threads : ∀ (i : Nat) (t : Place), s.threads[i]? = some t → t.Tracks callback i s.mem

@[simp]
theorem droppable_scrubbed (ev : StatusEvent) : ev.scrubbed.droppable = ev.droppable := by
  unfold StatusEvent.scrubbed
  split <;> rfl

section Tracks

variable {callback i : Nat} {m m' : Memory} {g : Goroutine}

/-- Another goroutine's step: it adds no event of this one and drops none that has to stay. -/
theorem Goroutine.Tracks.transfer (h : g.Tracks callback i m) (hline : ∀ e ∈ m'.line, e ∈ m.line ∨ e.source ≠ i)
    (hqueued : ∀ e ∈ m'.queued, e ∈ m.queued ∨ e.source ≠ i)
    (hkeep : ∀ e ∈ m.line, e.event.droppable = false → e ∈ m'.line) : g.Tracks callback i m' where
  valid := h.valid
  own := h.own
  before := fun e he hsource => h.before e ((hline e he).resolve_right fun hne => hne hsource) hsource
  kept := by
    intro k ev hk hev hdrop
    obtain ⟨e, he, hsource, rfl⟩ := h.kept k ev hk hev hdrop
    obtain ⟨-, -, ev', hev', hevent⟩ := h.before e he hsource
    rw [hev] at hev'
    cases hev'
    exact ⟨e, hkeep e he (by rw [hevent, droppable_scrubbed, hdrop]), hsource, rfl⟩
  alone := fun c hc e he => (hqueued e he).elim (h.alone c hc e) id

theorem Place.Tracks.transfer {t : Place} (h : t.Tracks callback i m)
    (hline : ∀ e ∈ m'.line, e ∈ m.line ∨ e.source ≠ i) (hqueued : ∀ e ∈ m'.queued, e ∈ m.queued ∨ e.source ≠ i)
    (hkeep : ∀ e ∈ m.line, e.event.droppable = false → e ∈ m'.line) : t.Tracks callback i m' := by
  cases t with
  | goroutine g => exact Goroutine.Tracks.transfer h hline hqueued hkeep
  | drain => exact fun e he => (hline e he).elim (h e) id
  | sinkStore => exact h
  | sinkRegister => exact h
  | done => exact h

/-- The goroutine's own event has joined the line. -/
theorem Goroutine.Tracks.advance (h : g.Tracks callback i m) {ev : StatusEvent} (hev : g.events[g.emitted]? = some ev)
    (hline : ∀ e ∈ m'.line, e ∈ m.line ∨ e = g.emission i callback ev) (hnew : g.emission i callback ev ∈ m'.line)
    (hkeep : ∀ e ∈ m.line, e.event.droppable = false → e ∈ m'.line) : g.next.Tracks callback i m' where
  valid := fun hpoint => by cases hpoint
  own := fun c hc => by cases hc
  before := by
    intro e he hsource
    obtain he | rfl := hline e he
    · obtain ⟨hnumber, hrest⟩ := h.before e he hsource
      exact ⟨Nat.lt_succ_of_lt hnumber, hrest⟩
    · exact ⟨Nat.lt_succ_self _, rfl, ev, hev, rfl⟩
  kept := by
    intro k ev' hk hev' hdrop
    obtain hk | rfl := Nat.lt_succ_iff_lt_or_eq.mp hk
    · obtain ⟨e, he, hsource, rfl⟩ := h.kept k ev' hk hev' hdrop
      obtain ⟨-, -, ev'', hev'', hevent⟩ := h.before e he hsource
      have hsame : some ev' = some ev'' := hev'.symm.trans hev''
      cases hsame
      exact ⟨e, hkeep e he (by rw [hevent, droppable_scrubbed, hdrop]), hsource, rfl⟩
    · exact ⟨_, hnew, rfl, rfl⟩
  alone := fun c hc => by cases hc

end Tracks

/-- A step of thread `i`: what it owes for its own thread, and what it may do to the line. -/
theorem Ordered.set {callback i : Nat} {s : State} {t t' : Place} {m : Memory} (hs : Ordered callback s)
    (hi : s.threads[i]? = some t)
    (hsink : m.statusSink = s.mem.statusSink ∧ m.statusCallbackRegistered = s.mem.statusCallbackRegistered)
    (hsound : m.Sound) (horder : ∀ i, (m.line.filter (·.source == i)).Pairwise (·.number < ·.number))
    (hline : ∀ e ∈ m.line, e ∈ s.mem.line ∨ e.source = i) (hqueued : ∀ e ∈ m.queued, e ∈ s.mem.queued ∨ e.source = i)
    (hkeep : ∀ e ∈ s.mem.line, e.event.droppable = false → e ∈ m.line) (hown : t'.Tracks callback i m) :
    Ordered callback ⟨m, s.threads.set i t'⟩ := by
  refine ⟨by rw [hsink.1, hsink.2]; exact hs.sink, hsound, horder, fun e he => ?_, fun j u hj => ?_⟩
  · rw [List.length_set]
    obtain he | rfl := hline e he
    · exact hs.known e he
    · exact (List.getElem?_eq_some_iff.mp hi).1
  · rw [Program.getElem?_set_of_some hi] at hj
    split at hj
    next heq =>
      cases hj
      rwa [heq]
    next hne =>
      have hother : ∀ e : Emission, e.source = i → e.source ≠ j := fun e he hej => hne (hej.symm.trans he)
      exact (hs.threads j u hj).transfer (fun e he => (hline e he).imp id (hother e))
        (fun e he => (hqueued e he).imp id (hother e)) hkeep

/-- An event of the goroutine `i` joins the line behind all its others. -/
theorem order_insert {a b c : List Emission} {e : Emission} (hsub : b.Sublist a)
    (horder : ∀ i, (a.filter (·.source == i)).Pairwise (·.number < ·.number))
    (hb : ∀ x ∈ b, x.source = e.source → x.number < e.number) (hsplit : ∃ d f, b = d ++ f ∧ c = d ++ e :: f ∧
      ∀ x ∈ f, x.source ≠ e.source) (i : Nat) : (c.filter (·.source == i)).Pairwise (·.number < ·.number) := by
  obtain ⟨d, f, rfl, rfl, hf⟩ := hsplit
  have hold : ((d ++ f).filter (·.source == i)).Pairwise (·.number < ·.number) :=
    (horder i).sublist (hsub.filter _)
  by_cases hi : e.source = i
  · have hnone : f.filter (·.source == i) = [] := by
      refine List.filter_eq_nil_iff.mpr fun x hx => ?_
      simpa [← hi] using hf x hx
    rw [List.filter_append, List.filter_cons_of_pos (by simpa using hi), hnone]
    rw [List.filter_append, hnone, List.append_nil] at hold
    refine List.pairwise_append.mpr ⟨hold, List.pairwise_singleton _ _, fun x hx y hy => ?_⟩
    obtain ⟨hx, hsource⟩ := List.mem_filter.mp hx
    rw [List.mem_singleton.mp hy]
    exact hb x (List.mem_append_left f hx) (by simpa [hi] using hsource)
  · rwa [List.filter_append, List.filter_cons_of_neg (by simpa using hi), ← List.filter_append]

/-- No callback but the one registered at the start. -/
def Undisturbed (_ : State) : Action → Prop
  | .spawn (.setStatusSink _) => False
  | _ => True

instance (s : State) : (a : Action) → Decidable (Undisturbed s a)
  | .spawn (.setStatusSink _) => instDecidableFalse
  | .spawn (.emit _) | .spawn (.ffiCall _) | .spawn .drain | .run .. => instDecidableTrue

def State.registered (callback : Nat) : State :=
  ⟨{ statusSink := some callback, statusCallbackRegistered := true }, []⟩

section Step

variable {callback i : Nat} {s : State} {g : Goroutine} (hs : Ordered callback s)
  (hi : s.threads[i]? = some (.goroutine g))

include hs hi

theorem Ordered.deferred {mustDefer : Bool} {ev : StatusEvent} {m : Memory} (hev : g.events[g.emitted]? = some ev)
    (hoffer : s.mem.offer (g.emission i callback ev) mustDefer = some m) :
    Ordered callback ⟨m, s.threads.set i (.goroutine g.next)⟩ := by
  have hg : g.Tracks callback i s.mem := hs.threads i _ hi
  obtain ⟨hsound, hdelivered, hsink, hregistered, -, kept, hshed, hqueued⟩ := offer_spec hoffer hs.sound
  have hline : m.line = s.mem.delivered ++ kept ++ [g.emission i callback ev] := by
    rw [Memory.line, hdelivered, hqueued, List.append_assoc]
  have hsubLine : (s.mem.delivered ++ kept).Sublist s.mem.line := hshed.sublist.append_left _
  have hmem : ∀ e ∈ m.line, e ∈ s.mem.line ∨ e = g.emission i callback ev := by
    intro e he
    rw [hline] at he
    exact (List.mem_append.mp he).imp (fun h => hsubLine.subset h) List.mem_singleton.mp
  have hkeep : ∀ e ∈ s.mem.line, e.event.droppable = false → e ∈ m.line := by
    intro e he hdrop
    rw [hline]
    refine List.mem_append_left _ ?_
    obtain he | he := List.mem_append.mp he
    · exact List.mem_append_left _ he
    · exact List.mem_append_right _ (hshed.mem he hdrop)
  have hnew : g.emission i callback ev ∈ m.line := by
    rw [hline]
    exact List.mem_append_right _ (List.mem_singleton_self _)
  refine hs.set hi ⟨hsink, hregistered⟩ hsound ?_ (fun e he => (hmem e he).imp id fun h => by rw [h]; rfl)
    (fun e he => ?_) hkeep (hg.advance hev hmem hnew hkeep)
  · rw [hline]
    refine order_insert hsubLine hs.order (fun x hx hsource => ?_)
      ⟨_, [], (List.append_nil _).symm, rfl, fun x hx => by cases hx⟩
    exact (hg.before x (hsubLine.subset hx) hsource).1
  · rw [hqueued] at he
    obtain he | he := List.mem_append.mp he
    · exact .inl (hshed.sublist.subset he)
    · rw [List.mem_singleton.mp he]
      exact .inr rfl

theorem Ordered.delivers {ev : StatusEvent} (hpoint : g.point = .deliver callback)
    (hev : g.events[g.emitted]? = some ev) :
    Ordered callback ⟨{ s.mem with delivered := s.mem.delivered ++ [g.emission i callback ev] },
      s.threads.set i (.goroutine g.next)⟩ := by
  have hg : g.Tracks callback i s.mem := hs.threads i _ hi
  have hmem : ∀ e ∈ s.mem.delivered ++ [g.emission i callback ev] ++ s.mem.queued,
      e ∈ s.mem.line ∨ e = g.emission i callback ev := by
    intro e he
    rw [List.append_assoc] at he
    obtain he | he := List.mem_append.mp he
    · exact .inl (List.mem_append_left _ he)
    · exact (List.mem_cons.mp he).symm.imp (List.mem_append_right _) id
  have hkeep : ∀ e ∈ s.mem.line, e ∈ s.mem.delivered ++ [g.emission i callback ev] ++ s.mem.queued := by
    intro e he
    obtain he | he := List.mem_append.mp he
    · exact List.mem_append_left _ (List.mem_append_left _ he)
    · exact List.mem_append_right _ he
  have hnew := List.mem_append_left s.mem.queued (List.mem_append_right s.mem.delivered
    (List.mem_singleton_self (g.emission i callback ev)))
  refine hs.set hi ⟨rfl, rfl⟩ ⟨hs.sound.drains, hs.sound.idle⟩ ?_ (fun e he => (hmem e he).imp id fun h => by rw [h]; rfl)
    (fun e he => .inl he) (fun e he _ => hkeep e he) (hg.advance hev hmem hnew fun e he _ => hkeep e he)
  exact order_insert (.refl _) hs.order (fun x hx hsource => (hg.before x hx hsource).1)
    ⟨s.mem.delivered, s.mem.queued, rfl, List.append_assoc .., hg.alone _ hpoint⟩

theorem Ordered.emits {m : Memory} {g' : Goroutine} (hemits : Emits i s.mem g m g') :
    Ordered callback ⟨m, s.threads.set i (.goroutine g')⟩ := by
  have hg : g.Tracks callback i s.mem := hs.threads i _ hi
  cases hemits with
  | quiet flag point hpoint hcallback hvalid =>
      refine hs.set hi ⟨rfl, rfl⟩ ⟨hs.sound.drains, hs.sound.idle⟩ hs.order (fun e he => .inl he)
        (fun e he => .inl he) (fun e he _ => he)
        ⟨hvalid hg.valid, fun c hc => ?_, hg.before, hg.kept, fun c hc => absurd hc (hpoint c)⟩
      obtain hc | hc := hcallback c hc
      · exact hg.own c hc
      · rw [hs.sink.1] at hc
        exact (Option.some.inj hc).symm
  | unheard hnone =>
      rw [hs.sink.1, hs.sink.2] at hnone
      simp at hnone
  | @deferred c mustDefer ev _ hpoint hev hoffer =>
      obtain rfl : c = callback := hg.own c (by rw [hpoint]; rfl)
      exact hs.deferred hi hev hoffer
  | @direct c ev hpoint hev hidle =>
      obtain rfl : c = callback := hg.own c (by rw [hpoint]; rfl)
      refine hs.set hi ⟨rfl, rfl⟩ hs.sound hs.order (fun e he => .inl he) (fun e he => .inl he) (fun e he _ => he)
        ⟨fun _ => ⟨ev, hev⟩, fun d hd => (Option.some.inj hd).symm, hg.before, hg.kept, fun d _ e he => ?_⟩
      obtain ⟨-, hnil⟩ | ⟨htrue, -⟩ := hs.sound.drains_eq
      · rw [Memory.queued, hnil, hs.sound.idle hidle] at he
        cases he
      · rw [hidle] at htrue
        cases htrue
  | @delivers c ev hpoint hev =>
      obtain rfl : c = callback := hg.own c (by rw [hpoint]; rfl)
      exact hs.delivers hi hpoint hev

end Step

theorem ordered_step {callback : Nat} {s s' : State} {a : Action} (hs : Ordered callback s) (ha : Undisturbed s a)
    (hstep : status.step s a = some s') : Ordered callback s' := by
  cases moves_of_step hstep with
  | spawn r =>
      refine ⟨hs.sink, hs.sound, hs.order, fun e he => ?_, fun j u hj => ?_⟩
      · rw [List.length_append]
        exact Nat.lt_add_right _ (hs.known e he)
      · obtain hold | ⟨rfl, rfl⟩ := Program.getElem?_spawn hj
        · exact hs.threads j u hold
        · have hnone : ∀ e ∈ s.mem.line, e.source ≠ s.threads.length := fun e he => Nat.ne_of_lt (hs.known e he)
          cases r with
          | emit events => exact ⟨nofun, nofun, fun e he hsource => absurd hsource (hnone e he), nofun, nofun⟩
          | ffiCall events => exact ⟨nofun, nofun, fun e he hsource => absurd hsource (hnone e he), nofun, nofun⟩
          | setStatusSink fn => exact ha.elim
          | drain => exact hnone
  | goroutine hi _ hemits => exact hs.emits hi hemits
  | @drain i j m hi hdrain =>
      have hdrains := hs.sound.drain hdrain
      have hline := hdrains.line_eq
      refine hs.set hi (by cases hdrains <;> exact ⟨rfl, rfl⟩) (hdrains.sound hs.sound) (fun k => ?_)
        (fun e he => .inl (hline ▸ he)) (fun e he => .inl (hdrains.queued_suffix.subset he))
        (fun e he _ => hline ▸ he) fun e he => hs.threads i _ hi e (hline ▸ he)
      rw [hline]
      exact hs.order k
  | @sinkStore i j fn hi => exact (hs.threads i _ hi).elim
  | @sinkRegister i j fn hi => exact (hs.threads i _ hi).elim

theorem ordered_of_reaches {callback : Nat} {s : State}
    (hreach : status.Reaches Undisturbed (State.registered callback) s) : Ordered callback s :=
  hreach.invariant (Ordered callback) ⟨⟨rfl, rfl⟩, ⟨rfl, fun _ => rfl⟩, fun _ => .nil, nofun, nofun⟩
    fun _ _ _ hinv hok hstep => ordered_step hinv hok hstep

/-! ### Delivery -/

/-- Whether a step is the drain goroutine's call of a callback. -/
def callbackReturns (s : State) : Action → List Unit
  | .spawn _ => []
  | .run i j =>
      match s.threads[i]?, s.mem.drains[j]? with
      | some .drain, some (some _) => [()]
      | _, _ => []

/-- An event is out, or has so many before it that it is out after `n` calls of the drain goroutine. -/
def DueIn (n : Nat) (e : Emission) (m : Memory) : Prop :=
  e ∈ m.delivered ∨ ∃ a b, m.queued = a ++ e :: b ∧ a.length < n

theorem DueIn.mono {n n' : Nat} {e : Emission} {m : Memory} (h : DueIn n e m) (hn : n ≤ n') : DueIn n' e m :=
  h.imp id fun ⟨a, b, hsplit, hlt⟩ => ⟨a, b, hsplit, Nat.lt_of_lt_of_le hlt hn⟩

theorem dueIn_emits {n i : Nat} {e : Emission} {m m' : Memory} {g g' : Goroutine} (hm : m.Sound)
    (hdrop : e.event.droppable = false) (hdue : DueIn n e m) (h : Emits i m g m' g') : DueIn n e m' := by
  cases h with
  | quiet => exact hdue
  | unheard => exact hdue
  | deferred _ _ hoffer =>
      obtain ⟨-, hdelivered, -, -, -, kept, hshed, hqueued⟩ := offer_spec hoffer hm
      obtain hdone | ⟨a, b, hsplit, hlt⟩ := hdue
      · exact .inl (hdelivered ▸ hdone)
      · obtain ⟨a', b', hkept, hle⟩ := hshed.stays a e b hsplit hdrop
        exact .inr ⟨a', b' ++ [_], by rw [hqueued, hkept, List.append_assoc, List.cons_append],
          Nat.lt_of_le_of_lt hle hlt⟩
  | direct => exact hdue
  | delivers => exact hdue.imp (List.mem_append_left _) id

theorem dueIn_drains {n : Nat} {e : Emission} {m m' : Memory} (hdue : DueIn n e m) (h : Drains m m') :
    DueIn (if m.drains = [none] then n else n - 1) e m' := by
  cases h with
  | takes hdrains hpending =>
      rw [if_pos hdrains]
      exact hdue.imp id fun ⟨a, b, hsplit, hlt⟩ =>
        ⟨a, b, by rw [← hsplit]; simp [Memory.queued, hdrains, hpending], hlt⟩
  | rests hdrains hpending =>
      rw [if_pos hdrains]
      exact hdue.imp id fun ⟨a, b, hsplit, hlt⟩ => ⟨a, b, by rw [← hsplit]; simp [Memory.queued, hdrains, hpending], hlt⟩
  | @calls x hdrains =>
      rw [if_neg (by simp [hdrains])]
      obtain hdone | ⟨a, b, hsplit, hlt⟩ := hdue
      · exact .inl (List.mem_append_left _ hdone)
      · have hqueued : x :: m.pending = a ++ e :: b := by
          rw [← hsplit]
          simp [Memory.queued, hdrains]
        cases a with
        | nil =>
            cases hqueued
            exact .inl (List.mem_append_right _ (List.mem_singleton_self _))
        | cons y a =>
            obtain ⟨-, hrest⟩ := List.cons.inj hqueued
            exact .inr ⟨a, b, hrest, by rw [List.length_cons] at hlt; omega⟩

theorem dueIn_step {s s' : State} {a : Action} {n : Nat} {e : Emission} (hs : s.mem.Sound)
    (hdrop : e.event.droppable = false) (hdue : DueIn n e s.mem) (hstep : status.step s a = some s') :
    DueIn (n - (callbackReturns s a).length) e s'.mem := by
  cases moves_of_step hstep with
  | spawn => exact hdue
  | @goroutine i j g g' m hi _ hemits =>
      have hlabel : callbackReturns s (.run i j) = [] := by simp [callbackReturns, hi]
      rw [hlabel]
      exact dueIn_emits hs hdrop hdue hemits
  | @drain i j m hi hdrain =>
      refine (dueIn_drains hdue (hs.drain hdrain)).mono ?_
      dsimp only [callbackReturns]
      rw [hi]
      split_ifs with hnone
      · rw [hnone]
        cases j <;> exact Nat.le_refl _
      · split
        · exact Nat.le_refl _
        · exact Nat.sub_le ..
  | @sinkStore i j fn hi =>
      have hlabel : callbackReturns s (.run i j) = [] := by simp [callbackReturns, hi]
      rw [hlabel]
      exact hdue
  | @sinkRegister i j fn hi =>
      have hlabel : callbackReturns s (.run i j) = [] := by simp [callbackReturns, hi]
      rw [hlabel]
      exact hdue

/-- Once so many callbacks have returned on the drain goroutine as there were events in the queue, those that
are not droppable are out, whatever else was emitted meanwhile. -/
theorem delivered_of_traces {callback : Nat} {s s' : State} {l : List Unit} {e : Emission}
    (hreach : status.Reaches Undisturbed (State.registered callback) s) (hdrop : e.event.droppable = false)
    (he : e ∈ s.mem.line) (htrace : status.Traces Undisturbed callbackReturns s l s')
    (hl : s.mem.queued.length ≤ l.length) : e ∈ s'.mem.delivered := by
  have hstart : DueIn s.mem.queued.length e s.mem := by
    obtain he | he := List.mem_append.mp he
    · exact .inl he
    · obtain ⟨a, b, hsplit⟩ := List.append_of_mem he
      refine .inr ⟨a, b, hsplit, ?_⟩
      rw [hsplit, List.length_append, List.length_cons]
      omega
  have hend : DueIn (s.mem.queued.length - l.length) e s'.mem := by
    refine htrace.invariant (fun l s' => DueIn (s.mem.queued.length - l.length) e s'.mem) hstart ?_
    intro l s₁ a s₂ hmid hdue hok hstep
    have hsound := (ordered_of_reaches (hreach.trans hmid)).sound
    have hnext := dueIn_step hsound hdrop hdue hstep
    rwa [List.length_append, ← Nat.sub_sub]
  obtain hdone | ⟨a, b, -, hlt⟩ := hend
  · exact hdone
  · omega

/-! ### The bound on the queue -/

/-- A queue past the bound holds next to nothing that could be shed. -/
def Memory.Capped (m : Memory) : Prop :=
  maxDeferredStatus < m.pending.length → m.pending.countP (·.event.droppable) ≤ 1

theorem capped_offer {m m' : Memory} {e : Emission} {mustDefer : Bool} (h : m.offer e mustDefer = some m')
    (hm : m.Sound) (hcap : m.Capped) : m'.Capped := by
  obtain ⟨-, -, -, -, hpending, -⟩ := offer_spec h hm
  have hlast : [e].countP (·.event.droppable) ≤ 1 := List.countP_le_length
  rw [Memory.Capped, hpending]
  intro hlong
  rw [List.countP_append]
  split at hlong
  next hfull =>
    rw [if_pos hfull]
    by_cases hany : ∃ x ∈ m.pending, x.event.droppable = true
    · obtain ⟨x, hx, hxdrop⟩ := hany
      obtain ⟨y, front, back, -, hy, hsplit, herase⟩ := List.exists_of_eraseP (p := fun e => e.event.droppable) hx hxdrop
      have hdropped : dropOldestDroppable m.pending = front ++ back := herase
      have hlength : m.pending.length = (front ++ back).length + 1 := by
        rw [hsplit, List.length_append, List.length_append, List.length_cons, Nat.add_assoc]
      have hcount : m.pending.countP (·.event.droppable) = (front ++ back).countP (·.event.droppable) + 1 := by
        rw [hsplit, List.countP_append, List.countP_cons_of_pos (p := fun e : Emission => e.event.droppable) hy, List.countP_append, Nat.add_assoc]
      rw [hdropped, List.length_append, List.length_singleton] at hlong
      have hone := hcap (by omega)
      rw [hdropped]
      omega
    · have hnone : m.pending.countP (·.event.droppable) = 0 :=
        List.countP_eq_zero.mpr fun x hx hdrop => hany ⟨x, hx, hdrop⟩
      have hsub : (dropOldestDroppable m.pending).countP (·.event.droppable) ≤ m.pending.countP (·.event.droppable) :=
        (shed_dropOldestDroppable m.pending).sublist.countP_le
      omega
  next hfull =>
    rw [List.length_append, List.length_singleton] at hlong
    omega

theorem capped_step {s s' : State} {a : Action} (hs : s.mem.Sound) (hcap : s.mem.Capped)
    (hstep : status.step s a = some s') : s'.mem.Capped := by
  cases moves_of_step hstep with
  | spawn => exact hcap
  | goroutine _ _ hemits =>
      cases hemits with
      | quiet => exact hcap
      | unheard => exact hcap
      | deferred _ _ hoffer => exact capped_offer hoffer hs hcap
      | direct => exact hcap
      | delivers => exact hcap
  | drain _ hdrain =>
      cases hs.drain hdrain with
      | @takes e rest _ hpending =>
          rw [Memory.Capped, hpending] at hcap
          intro hlong
          have hone := hcap (Nat.lt_succ_of_lt hlong)
          exact Nat.le_trans (List.sublist_cons_self e rest).countP_le hone
      | rests => exact hcap
      | calls => exact hcap
  | sinkStore => exact hcap
  | sinkRegister => exact hcap

/-- In every run with one callback: what was delivered is in each goroutine's order, each event once and as it was
emitted; an event that may not be shed is out or in the queue, and out once the drain goroutine has made as many
calls as there were events in the queue, which nothing keeps it from; and a queue past the bound holds at most one
event that may be shed. -/
theorem events_delivered_in_order {callback : Nat} {s : State}
    (hreach : status.Reaches Undisturbed (State.registered callback) s) :
    (∀ i, (s.mem.delivered.filter (·.source == i)).Pairwise (·.number < ·.number)) ∧
    (∀ e ∈ s.mem.delivered, e.callback = callback ∧ ∃ g ev, s.threads[e.source]? = some (.goroutine g) ∧
      e.number < g.emitted ∧ g.events[e.number]? = some ev ∧ e.event = ev.scrubbed) ∧
    (∀ i g k ev, s.threads[i]? = some (.goroutine g) → k < g.emitted → g.events[k]? = some ev → ev.droppable = false →
      ∃ e, e.source = i ∧ e.number = k ∧ (e ∈ s.mem.delivered ∨ e ∈ s.mem.queued) ∧
        ∀ l s', status.Traces Undisturbed callbackReturns s l s' → s.mem.queued.length ≤ l.length →
          e ∈ s'.mem.delivered) ∧
    (s.mem.queued ≠ [] → ∃ m, s.mem.drain 0 = some m) ∧
    (maxDeferredStatus < s.mem.pending.length → s.mem.pending.countP (·.event.droppable) ≤ 1) := by
  have hs := ordered_of_reaches hreach
  have hcap : s.mem.Sound ∧ s.mem.Capped := hreach.invariant (fun s => s.mem.Sound ∧ s.mem.Capped)
    ⟨⟨rfl, fun _ => rfl⟩, nofun⟩ fun _ _ _ hinv _ hstep => ⟨sound_step hinv.1 hstep, capped_step hinv.1 hinv.2 hstep⟩
  refine ⟨fun i => ?_, fun e he => ?_, fun i g k ev hi hk hev hdrop => ?_, fun hqueued => hs.sound.exists_drain (hs.sound.draining_of_queued hqueued), hcap.2⟩
  · exact (hs.order i).sublist ((List.sublist_append_left _ _).filter _)
  · have hline : e ∈ s.mem.line := List.mem_append_left _ he
    obtain ⟨t, ht⟩ : ∃ t, s.threads[e.source]? = some t := ⟨_, List.getElem?_eq_getElem (hs.known e hline)⟩
    have htracks := hs.threads e.source t ht
    cases t with
    | goroutine g =>
        obtain ⟨hnumber, hcallback, ev, hev, hevent⟩ := htracks.before e hline rfl
        exact ⟨hcallback, g, ev, ht, hnumber, hev, hevent⟩
    | drain => exact absurd rfl (htracks e hline)
    | sinkStore => exact htracks.elim
    | sinkRegister => exact htracks.elim
    | done => exact htracks.elim
  · have hg : g.Tracks callback i s.mem := hs.threads i _ hi
    obtain ⟨e, he, hsource, rfl⟩ := hg.kept k ev hk hev hdrop
    obtain ⟨-, -, ev', hev', hevent⟩ := hg.before e he hsource
    have hkeep : e.event.droppable = false := by
      rw [hev] at hev'
      cases hev'
      rw [hevent, droppable_scrubbed, hdrop]
    exact ⟨e, hsource, rfl, List.mem_append.mp he, fun l s' htrace hl => delivered_of_traces hreach hkeep he htrace hl⟩

/-- An FFI call is running while a goroutine emits two events: both are queued, and the first is delivered. -/
def deferredRun : List Action :=
  [.spawn (.emit [⟨300, []⟩, ⟨300, ['x']⟩]), .spawn (.ffiCall []), .spawn .drain, .run 1 0] ++
    List.replicate 8 (.run 0 0) ++ [.run 2 0, .run 2 0]

theorem events_delivered_in_order_deferred : ∃ s, status.run Undisturbed (State.registered 7) deferredRun = some s ∧
    s.mem.delivered = [⟨0, 0, 7, ⟨300, []⟩⟩] ∧ s.mem.queued = [⟨0, 1, 7, ⟨300, ['x']⟩⟩] ∧
    (s.mem.delivered.filter (·.source == 0)).Pairwise (·.number < ·.number) := by
  obtain ⟨s, hs, hdelivered, hqueued⟩ : ∃ s, status.run Undisturbed (State.registered 7) deferredRun = some s ∧
      s.mem.delivered = [⟨0, 0, 7, ⟨300, []⟩⟩] ∧ s.mem.queued = [⟨0, 1, 7, ⟨300, ['x']⟩⟩] := ⟨_, rfl, rfl, rfl⟩
  exact ⟨s, hs, hdelivered, hqueued, (events_delivered_in_order (Program.reaches_of_run hs)).1 0⟩

end GlitchCore.Core.StatusQueue
