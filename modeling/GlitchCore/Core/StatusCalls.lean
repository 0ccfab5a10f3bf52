import GlitchCore.Core.StatusQueue

/-!
# Status events during FFI calls

An event emitted while the host is inside an FFI call must not run the host's callback on the emitting goroutine.
`runFFICall` says so through one flag: set on the way in, cleared on the way out. With one call at a time the flag
is right; the first of two overlapping calls to return clears it while the other still runs, and an event whose
`emitStatus` reads it then goes to the callback at once.
-/

namespace GlitchCore.Core.StatusQueue

open Interleaving

inductive CallEvent where
  | entered (i : Nat)
  | returned (i : Nat)
  deriving DecidableEq

/-- The stores of `runFFICall`. -/
def callEvents (s : State) : Action → List CallEvent
  | .spawn _ => []
  | .run i _ =>
      match s.threads[i]? with
      | some (.goroutine g) =>
          match g.point with
          | .enter => [.entered i]
          | .leave => [.returned i]
          | _ => []
      | _ => []

/-- The body of a `runFFICall` is executing. -/
def Place.inBody : Place → Bool
  | .goroutine g => g.call && (g.point == .ready || g.point.emitting)
  | _ => false

/-- The goroutine `i` is about to run the callback itself for its event `n`. -/
def DeliversItself (i n : Nat) (s : State) : Prop :=
  ∃ g callback, s.threads[i]? = some (.goroutine g) ∧ g.emitted = n ∧ g.point = .deliver callback

/-- A call enters, then another; the first returns; the second, still in its body, emits. -/
def overlappingCalls : List Action :=
  [.spawn (.setStatusSink (some 7)), .spawn (.ffiCall []), .spawn (.ffiCall [⟨300, []⟩]), .run 0 0, .run 0 0, .run 1 0,
    .run 2 0, .run 1 0, .run 1 0, .run 2 0, .run 2 0]

theorem overlapping_call_delivers : ∃ s s₁ s' : State, ∃ g callback,
    status.Reaches (fun _ _ => True) State.init s ∧ s.threads[2]? = some (.goroutine g) ∧ g.point = .loadCall callback ∧
      (∃ t ∈ s.threads, t.inBody = true) ∧ status.step s (.run 2 0) = some s₁ ∧
      status.Reaches (fun _ _ => True) s₁ s' ∧ DeliversItself 2 g.emitted s' := by
  obtain ⟨s, s₁, s', g, hs, hi, hpoint, hbody, hstep, hs', hdelivers⟩ : ∃ s s₁ s' : State, ∃ g,
      status.run (fun _ _ => True) State.init overlappingCalls = some s ∧ s.threads[2]? = some (.goroutine g) ∧
        g.point = .loadCall 7 ∧ (∃ t ∈ s.threads, t.inBody = true) ∧ status.step s (.run 2 0) = some s₁ ∧
        status.run (fun _ _ => True) s₁ [.run 2 0] = some s' ∧ DeliversItself 2 g.emitted s' :=
    ⟨_, _, _, _, rfl, rfl, rfl, ⟨_, List.mem_of_getElem? (i := 2) rfl, rfl⟩, rfl, rfl, _, _, rfl, rfl, rfl⟩
  exact ⟨s, s₁, s', g, 7, Program.reaches_of_run hs, hi, hpoint, hbody, hstep, Program.reaches_of_run hs', hdelivers⟩

/-! ### The flag -/

theorem offer_inFFICall {m m' : Memory} {e : Emission} {mustDefer : Bool} (h : m.offer e mustDefer = some m') :
    m'.inFFICall = m.inFFICall := by
  unfold Memory.offer at h
  split at h
  · cases h
  · dsimp only at h
    split at h <;> cases h <;> rfl

theorem exec_inFFICall {i : Nat} {m m' : Memory} {g g' : Goroutine} (h : g.exec i m = some (m', g')) :
    m'.inFFICall = match g.point with
      | .enter => true
      | .leave => false
      | _ => m.inFFICall := by
  cases hpoint : g.point <;> grind -linarith [Goroutine.exec, offer_inFFICall]

/-- A body begins by entering. -/
theorem exec_inBody {i : Nat} {m m' : Memory} {g g' : Goroutine} (h : g.exec i m = some (m', g'))
    (hbody : (Place.goroutine g').inBody = true) : (Place.goroutine g).inBody = true ∨ g.point = .enter := by
  cases hpoint : g.point <;> grind -linarith [Goroutine.exec, Place.inBody, Point.emitting, Goroutine.next]

theorem exec_emitted {i : Nat} {m m' : Memory} {g g' : Goroutine} (h : g.exec i m = some (m', g')) :
    g.emitted ≤ g'.emitted := by
  cases Goroutine.emits h with
  | quiet => exact Nat.le_refl _
  | unheard => exact Nat.le_succ _
  | deferred => exact Nat.le_succ _
  | direct => exact Nat.le_refl _
  | delivers => exact Nat.le_succ _

def CallEvent.isEntry : CallEvent → Bool
  | .entered _ => true
  | .returned _ => false

/-- The flag is what the newest store made it, and a body is preceded by a store. -/
structure Flagged (l : List CallEvent) (s : State) : Prop where
  flag : s.mem.inFFICall = l.getLast?.any CallEvent.isEntry
  bodies : (∃ t ∈ s.threads, t.inBody = true) → l ≠ []
  sound : s.mem.Sound
  valid : ∀ (i : Nat) (g : Goroutine), s.threads[i]? = some (.goroutine g) → g.Valid

/-- A step that makes no store. -/
theorem Flagged.set {l : List CallEvent} {s : State} {i : Nat} {t t' : Place} {m : Memory} (h : Flagged l s)
    (hi : s.threads[i]? = some t) (hflag : m.inFFICall = s.mem.inFFICall) (hsound : m.Sound)
    (hbody : t'.inBody = true → t.inBody = true) (hvalid : ∀ g, t' = .goroutine g → g.Valid) :
    Flagged l ⟨m, s.threads.set i t'⟩ := by
  refine ⟨hflag.trans h.flag, fun ⟨u, hu, hin⟩ => ?_, hsound, fun k g hk => ?_⟩
  · obtain hu | rfl := List.mem_or_eq_of_mem_set hu
    · exact h.bodies ⟨u, hu, hin⟩
    · exact h.bodies ⟨t, List.mem_of_getElem? hi, hbody hin⟩
  · rw [Program.getElem?_set_of_some hi] at hk
    split at hk
    · exact hvalid g (Option.some.inj hk)
    · exact h.valid k g hk

theorem emits_valid {i : Nat} {m m' : Memory} {g g' : Goroutine} (h : Emits i m g m' g') (hg : g.Valid) : g'.Valid := by
  cases h with
  | quiet _ _ _ _ hvalid => exact hvalid hg
  | unheard => exact nofun
  | deferred => exact nofun
  | direct _ hev _ => exact fun _ => ⟨_, hev⟩
  | delivers => exact nofun

theorem flagged_step {l : List CallEvent} {s s' : State} {a : Action} (h : Flagged l s)
    (hstep : status.step s a = some s') : Flagged (l ++ callEvents s a) s' := by
  have hsound := sound_step h.sound hstep
  cases moves_of_step hstep with
  | spawn r =>
      rw [callEvents, List.append_nil]
      refine ⟨h.flag, fun ⟨u, hu, hin⟩ => ?_, hsound, fun k g hk => ?_⟩
      · obtain hu | hu := List.mem_append.mp hu
        · exact h.bodies ⟨u, hu, hin⟩
        · rw [List.mem_singleton.mp hu] at hin
          cases r <;> cases hin
      · obtain hold | ⟨-, hnew⟩ := Program.getElem?_spawn hk
        · exact h.valid k g hold
        · cases r <;> cases hnew <;> exact nofun
  | @goroutine i j g g' m hi hexec hemits =>
      have hvalid := emits_valid hemits (h.valid i g hi)
      have hflag := exec_inFFICall hexec
      have hset : ∀ event : CallEvent, m.inFFICall = event.isEntry →
          Flagged (l ++ [event]) ⟨m, s.threads.set i (.goroutine g')⟩ := by
        intro event hevent
        refine ⟨by rw [List.getLast?_concat]; exact hevent, fun _ => by simp, hsound, fun k u hk => ?_⟩
        rw [Program.getElem?_set_of_some hi] at hk
        split at hk
        · cases hk
          exact hvalid
        · exact h.valid k u hk
      by_cases henter : g.point = .enter
      · have hlabel : callEvents s (.run i j) = [.entered i] := by simp [callEvents, hi, henter]
        rw [hlabel]
        exact hset _ (by rw [hflag, henter]; rfl)
      by_cases hleave : g.point = .leave
      · have hlabel : callEvents s (.run i j) = [.returned i] := by simp [callEvents, hi, hleave]
        rw [hlabel]
        exact hset _ (by rw [hflag, hleave]; rfl)
      have hlabel : callEvents s (.run i j) = [] := by simp [callEvents, hi]
      rw [hlabel, List.append_nil]
      refine h.set hi ?_ hsound (fun hin => (exec_inBody hexec hin).resolve_right henter) fun u hu => ?_
      · rw [hflag]
        split
        · exact absurd ‹_› henter
        · exact absurd ‹_› hleave
        · rfl
      · cases hu
        exact hvalid
  | @drain i j m hi hdrain =>
      have hlabel : callEvents s (.run i j) = [] := by simp [callEvents, hi]
      rw [hlabel, List.append_nil]
      exact h.set hi (by cases h.sound.drain hdrain <;> rfl) hsound id nofun
  | @sinkStore i j fn hi =>
      have hlabel : callEvents s (.run i j) = [] := by simp [callEvents, hi]
      rw [hlabel, List.append_nil]
      exact h.set hi rfl hsound nofun nofun
  | @sinkRegister i j fn hi =>
      have hlabel : callEvents s (.run i j) = [] := by simp [callEvents, hi]
      rw [hlabel, List.append_nil]
      exact h.set hi rfl hsound nofun nofun

theorem flagged_of_traces {l : List CallEvent} {s : State}
    (htrace : status.Traces (fun _ _ => True) callEvents State.init l s) : Flagged l s :=
  htrace.invariant Flagged ⟨rfl, nofun, ⟨rfl, fun _ => rfl⟩, nofun⟩ fun _ _ _ _ _ hinv _ hstep => flagged_step hinv hstep

/-- Every return is followed by an entry: the newest store was an entry. -/
theorem returns_followed_iff {l : List CallEvent} (hl : l ≠ []) :
    (∀ before after k, l = before ++ .returned k :: after → ∃ k', .entered k' ∈ after) ↔
      l.getLast?.any CallEvent.isEntry = true := by
  obtain ⟨front, last, rfl⟩ := List.eq_nil_or_concat l |>.resolve_left hl
  rw [List.concat_eq_append, List.getLast?_concat]
  cases last with
  | returned k =>
      refine iff_of_false (fun hall => ?_) nofun
      obtain ⟨k', hk'⟩ := hall front [] k rfl
      cases hk'
  | entered k =>
      refine iff_of_true (fun before after k' hsplit => ⟨k, ?_⟩) rfl
      have hlast := congrArg List.getLast? hsplit
      rw [List.getLast?_concat, List.getLast?_append] at hlast
      cases after with
      | nil => cases hlast
      | cons x after =>
          rw [List.getLast?_cons_cons, List.getLast?_eq_getLast_of_ne_nil (List.cons_ne_nil x after)] at hlast
          rw [Option.some.inj hlast]
          exact List.getLast_mem _

/-! ### After the read -/

/-- What is left for the drain goroutine to do. -/
def Memory.toDrain (m : Memory) : Nat := 2 * m.pending.length + m.queued.length + if m.draining then 1 else 0

theorem Drains.toDrain_lt {m m' : Memory} (h : Drains m m') (hdraining : m.draining = true) : m'.toDrain < m.toDrain := by
  cases h with
  | takes hdrains hpending =>
      simp only [Memory.toDrain, Memory.queued, hdrains, hpending, hdraining]
      simp
  | rests hdrains hpending => simp [Memory.toDrain, Memory.queued, hdrains, hpending, hdraining]
  | calls hdrains => simp [Memory.toDrain, Memory.queued, hdrains, hdraining]

/-- The queue can always be emptied. -/
theorem exists_idle {s : State} {d : Nat} (hs : s.mem.Sound) (hd : s.threads[d]? = some .drain) :
    ∃ m, m.draining = false ∧ status.Reaches (fun _ _ => True) s ⟨m, s.threads⟩ := by
  obtain ⟨n, hn⟩ : ∃ n, s.mem.toDrain < n := ⟨_, Nat.lt_succ_self _⟩
  induction n generalizing s with
  | zero => omega
  | succ n ih =>
      cases hdraining : s.mem.draining with
      | false => exact ⟨s.mem, hdraining, .refl⟩
      | true =>
          obtain ⟨m, hm⟩ := hs.exists_drain hdraining
          have hsame : s.threads.set d .drain = s.threads := by
            obtain ⟨hlt, hget⟩ := List.getElem?_eq_some_iff.mp hd
            rw [← hget, List.set_getElem_self]
          have hstep : status.step s (.run d 0) = some ⟨m, s.threads⟩ := by
            simp [Program.step, hd, exec, hm, hsame]
          have hlt := (hs.drain hm).toDrain_lt hdraining
          obtain ⟨m', hidle, hreach⟩ := ih (s := ⟨m, s.threads⟩) (sound_step hs hstep) hd (by dsimp only; omega)
          exact ⟨m', hidle, (Program.Reaches.refl.step trivial hstep).trans hreach⟩

/-- The goroutine `i` has read the flag as set for its event `n`, or is past that event. -/
def Deferring (i n : Nat) (s : State) : Prop :=
  ∃ g, s.threads[i]? = some (.goroutine g) ∧ (n < g.emitted ∨ g.emitted = n ∧ ∃ callback, g.point = .offer callback true)

/-- An event read as deferred is queued by its offer. -/
theorem exec_offer_true {i callback : Nat} {m m' : Memory} {g g' : Goroutine} (hpoint : g.point = .offer callback true)
    (h : g.exec i m = some (m', g')) : g' = g.next := by
  rw [Goroutine.exec, hpoint] at h
  cases hev : g.events[g.emitted]? with
  | none =>
      rw [hev] at h
      cases h
  | some ev =>
      rw [hev] at h
      dsimp only at h
      split at h
      · cases h
        rfl
      next hnone => cases (offer_eq_none.mp hnone).1

theorem deferring_step {i n : Nat} {s s' : State} {a : Action} (h : Deferring i n s) (hstep : status.step s a = some s') :
    Deferring i n s' := by
  obtain ⟨g, hi, hg⟩ := h
  have hother : ∀ k t t' m, s.threads[k]? = some t → i ≠ k → Deferring i n ⟨m, s.threads.set k t'⟩ := by
    intro k t t' m hk hne
    refine ⟨g, ?_, hg⟩
    rw [Program.getElem?_set_of_some hk, if_neg hne, hi]
  have hne : ∀ k t, s.threads[k]? = some t → (∀ u, t ≠ .goroutine u) → i ≠ k := by
    rintro k t hk hplace rfl
    rw [hi] at hk
    exact hplace g (Option.some.inj hk).symm
  cases moves_of_step hstep with
  | spawn r => exact ⟨g, by rw [List.getElem?_append_left (List.getElem?_eq_some_iff.mp hi).1, hi], hg⟩
  | @goroutine k j u u' m hk hexec hemits =>
      by_cases hki : i = k
      · subst hki
        obtain rfl : g = u := by
          rw [hi] at hk
          cases hk
          rfl
        refine ⟨u', by rw [Program.getElem?_set_of_some hi, if_pos rfl], ?_⟩
        obtain hlt | ⟨rfl, callback, hpoint⟩ := hg
        · exact .inl (Nat.lt_of_lt_of_le hlt (exec_emitted hexec))
        · rw [exec_offer_true hpoint hexec]
          exact .inl (Nat.lt_succ_self _)
      · exact hother k _ _ m hk hki
  | drain hk => exact hother _ _ _ _ hk (hne _ _ hk nofun)
  | sinkStore hk => exact hother _ _ _ _ hk (hne _ _ hk nofun)
  | sinkRegister hk => exact hother _ _ _ _ hk (hne _ _ hk nofun)

/-- An event whose `emitStatus` reads the flag while some FFI call is executing is kept from the emitting
goroutine, whatever happens then, exactly when after every return of a call another one has entered. -/
theorem deferred_iff_entered_since {l : List CallEvent} {s s₁ : State} {i j : Nat} {g : Goroutine} {callback : Nat}
    (htrace : status.Traces (fun _ _ => True) callEvents State.init l s) (hi : s.threads[i]? = some (.goroutine g))
    (hread : g.point = .loadCall callback) (hbody : ∃ t ∈ s.threads, t.inBody = true)
    (hstep : status.step s (.run i j) = some s₁) :
    (∀ s', status.Reaches (fun _ _ => True) s₁ s' → ¬DeliversItself i g.emitted s') ↔
      ∀ before after k, l = before ++ .returned k :: after → ∃ k', .entered k' ∈ after := by
  have hflagged := flagged_of_traces htrace
  rw [returns_followed_iff (hflagged.bodies hbody), ← hflagged.flag]
  have hs₁ : s₁ = ⟨s.mem, s.threads.set i (.goroutine { g with point := .offer callback s.mem.inFFICall })⟩ := by
    have hexec : g.exec i s.mem = some (s.mem, { g with point := .offer callback s.mem.inFFICall }) := by
      rw [Goroutine.exec, hread]
    simpa [Program.step, hi, exec, hexec] using hstep.symm
  have hthread : s₁.threads[i]? = some (.goroutine { g with point := .offer callback s.mem.inFFICall }) := by
    rw [hs₁, Program.getElem?_set_of_some hi, if_pos rfl]
  constructor
  · intro hnever
    by_contra hcleared
    rw [Bool.not_eq_true] at hcleared
    rw [hcleared] at hthread
    -- empty the queue, and let the goroutine offer its event then
    obtain ⟨ev, hev⟩ := hflagged.valid i g hi (by rw [hread]; rfl)
    have hlt := (List.getElem?_eq_some_iff.mp hthread).1
    have hspawn : status.step s₁ (.spawn .drain) = some ⟨s₁.mem, s₁.threads ++ [.drain]⟩ := rfl
    have hsound : s₁.mem.Sound := sound_step hflagged.sound hstep
    obtain ⟨m, hidle, hreach⟩ := exists_idle (s := ⟨s₁.mem, s₁.threads ++ [.drain]⟩) (d := s₁.threads.length) hsound
      (by simp)
    have hthread' : (s₁.threads ++ [Place.drain])[i]? = some (.goroutine { g with point := .offer callback false }) := by
      rw [List.getElem?_append_left hlt, hthread]
    have hoffer : status.step ⟨m, s₁.threads ++ [.drain]⟩ (.run i 0) =
        some ⟨m, (s₁.threads ++ [Place.drain]).set i (.goroutine { g with point := .deliver callback })⟩ := by
      have hexec : Goroutine.exec i m { g with point := .offer callback false } =
          some (m, { g with point := .deliver callback }) := by
        simp only [Goroutine.exec, hev, offer_eq_none.mpr ⟨rfl, hidle⟩]
      simp only [Program.step, hthread', Option.bind_some, exec, hexec, Option.map_some]
    refine hnever _ (((Program.Reaches.refl.step trivial hspawn).trans hreach).step trivial hoffer)
      ⟨{ g with point := .deliver callback }, callback, ?_, rfl, rfl⟩
    rw [Program.getElem?_set_of_some hthread', if_pos rfl]
  · rintro hset s' hreach ⟨g', callback', hi', hnumber, hpoint⟩
    have hdeferring := hreach.invariant (Deferring i g.emitted)
      ⟨_, hthread, .inr ⟨rfl, callback, by rw [hset]⟩⟩ fun _ _ _ hinv _ hs => deferring_step hinv hs
    obtain ⟨g'', hi'', hlater⟩ := hdeferring
    rw [hi'] at hi''
    cases hi''
    obtain hlt | ⟨-, callback'', hoffer⟩ := hlater
    · omega
    · rw [hpoint] at hoffer
      cases hoffer

/-- One call, and an event of its body at the read. -/
def singleCall : List Action :=
  [.spawn (.setStatusSink (some 7)), .spawn (.ffiCall [⟨300, []⟩]), .run 0 0, .run 0 0, .run 1 0, .run 1 0, .run 1 0]

theorem deferred_iff_entered_since_singleCall :
    status.labels callEvents State.init singleCall = [.entered 1] ∧ ∃ s s₁, status.run (fun _ _ => True) State.init
      singleCall = some s ∧ status.step s (.run 1 0) = some s₁ ∧
      ((∀ s', status.Reaches (fun _ _ => True) s₁ s' → ¬DeliversItself 1 0 s') ↔ ∀ before after k,
        status.labels callEvents State.init singleCall = before ++ .returned k :: after → ∃ k', .entered k' ∈ after) := by
  obtain ⟨s, s₁, hs, hi, hbody, hstep⟩ : ∃ s s₁ : State, status.run (fun _ _ => True) State.init singleCall = some s ∧
      s.threads[1]? = some (.goroutine ⟨true, [⟨300, []⟩], 0, .loadCall 7⟩) ∧ (∃ t ∈ s.threads, t.inBody = true) ∧
      status.step s (.run 1 0) = some s₁ :=
    ⟨_, _, rfl, rfl, ⟨_, List.mem_of_getElem? (i := 1) rfl, rfl⟩, rfl⟩
  exact ⟨rfl, s, s₁, hs, hstep, deferred_iff_entered_since (Program.traces_of_run hs) hi rfl hbody hstep⟩

end GlitchCore.Core.StatusQueue
