import GlitchCore.Core.ExternalIP

/-!
# The rounds of the external-IP worker

`ipFetchBusy` and `ipFetchAgain` are tested and cleared in separate critical sections, by triggers and by a worker
that decides whether to go on. What they are for is a machine with two phases: no worker, or a round of one worker,
of which it matters whether its config has been read and whether a trigger has joined since the round was opened.
Every run of the code is a run of that machine; so there is one worker at most, a trigger that passed its check is
followed by a read of the config, and triggers that join one round open one more.
-/

namespace GlitchCore.Core.ExternalIP

open Interleaving

/-- What a run says of triggers and rounds. A trigger that passed its check starts a worker or joins the round of
the one there is; a round ends with the worker going on or not. -/
inductive RoundEvent where
  | passed (i : Nat)
  | started (i : Nat)
  | joined (i : Nat)
  | read (i : Nat)
  | ended (i : Nat) (more : Bool)
  deriving DecidableEq

def Place.event (i : Nat) (m : Memory) : Place → List RoundEvent
  | .trigger => if m.ipResolve.fetches then [.passed i] else []
  | .triggerBusy => [if m.ipFetchBusy then .joined i else .started i]
  | .loadConfig => [.read i]
  | .roundCheck => [.ended i m.ipFetchAgain]
  | _ => []

def roundEvents (s : State) : Action → List RoundEvent
  | .spawn _ => []
  | .run i _ => s.threads[i]?.elim [] (Place.event i s.mem)

inductive Phase where
  | idle
  | round (worker : Nat) (read joined : Bool)
  deriving DecidableEq

def Phase.next : Phase → RoundEvent → Option Phase
  | p, .passed _ => some p
  | .idle, .started i => some (.round i false false)
  | .round w read _, .joined _ => some (.round w read true)
  | .round w false joined, .read i => if i = w then some (.round w true joined) else none
  | .round w true joined, .ended i more =>
      if i = w ∧ more = joined then some (if joined then .round w false false else .idle) else none
  | _, _ => none

def Phase.busy : Phase → Bool
  | .idle => false
  | .round .. => true

def Phase.joined : Phase → Bool
  | .idle => false
  | .round _ _ joined => joined

/-- Whether thread `i` is the worker, and then whether it has read the config of the round. -/
def Phase.working (p : Phase) (i : Nat) : Option Bool :=
  match p with
  | .idle => none
  | .round w read _ => if i = w then some read else none

theorem Phase.working_eq_some {p : Phase} {i : Nat} {read : Bool} :
    p.working i = some read ↔ ∃ joined, p = .round i read joined := by
  cases p with
  | idle => exact iff_of_false nofun nofun
  | round w read' joined =>
      rw [Phase.working]
      constructor
      · intro h
        split at h
        next hw =>
          cases h
          exact ⟨joined, by rw [hw]⟩
        · cases h
      · rintro ⟨joined', heq⟩
        cases heq
        exact if_pos rfl

def Place.working : Place → Option Bool
  | .triggerUnlock more | .roundUnlock more => if more then some false else none
  | .loadConfig => some false
  | .loadGen _ | .fetch .. | .roundLock | .roundCheck => some true
  | .setLock worker _ | .setCheck worker _ | .setUnlock worker .. | .emit worker _ => if worker then some true else none
  | _ => none

/-- The state is one of the phase. -/
structure InPhase (p : Phase) (s : State) : Prop where
  busy : s.mem.ipFetchBusy = p.busy
  again : s.mem.ipFetchAgain = p.joined
  working : ∀ i, s.threads[i]?.bind Place.working = p.working i

section Step

variable {i : Nat} {m m' : Memory} {t t' : Place} {echo : Echo}

theorem exec_ipFetchBusy : exec i m t echo = some (m', t') → m'.ipFetchBusy =
    match t with
    | .triggerBusy => true
    | .roundCheck => m.ipFetchAgain && m.ipFetchBusy
    | _ => m.ipFetchBusy := by
  cases t <;> grind -linarith [exec, Memory.lock, Memory.unlock]

theorem exec_ipFetchAgain : exec i m t echo = some (m', t') → m'.ipFetchAgain =
    match t with
    | .triggerBusy => m.ipFetchBusy || m.ipFetchAgain
    | .roundCheck => false
    | _ => m.ipFetchAgain := by
  cases t <;> grind -linarith [exec, Memory.lock, Memory.unlock]

theorem exec_working : exec i m t echo = some (m', t') → t'.working =
    match t with
    | .triggerBusy => if m.ipFetchBusy then none else some false
    | .loadConfig => some true
    | .roundCheck => if m.ipFetchAgain then some false else none
    | _ => t.working := by
  cases t <;> grind -linarith [exec, Memory.lock, afterSet, Place.working]

/-- One step of the code is no step of the machine or one. -/
theorem phase_exec {p : Phase} (h : exec i m t echo = some (m', t')) (hbusy : m.ipFetchBusy = p.busy)
    (hagain : m.ipFetchAgain = p.joined) (hworking : t.working = p.working i) :
    ∃ p', (t.event i m).foldlM Phase.next p = some p' ∧ m'.ipFetchBusy = p'.busy ∧ m'.ipFetchAgain = p'.joined ∧
      t'.working = p'.working i ∧ ∀ j, j ≠ i → p'.working j = p.working j := by
  have hbusy' := exec_ipFetchBusy h
  have hagain' := exec_ipFetchAgain h
  have hworking' := exec_working h
  cases t with
  | triggerBusy =>
      dsimp only at hbusy' hagain' hworking'
      cases p with
      | idle =>
          have hfree : m.ipFetchBusy = false := hbusy
          rw [hfree] at hagain' hworking'
          refine ⟨.round i false false, by rw [Place.event, hfree]; rfl, hbusy', hagain'.trans hagain, ?_, fun j hj => ?_⟩
          · rw [hworking', Phase.working, if_pos rfl]
            rfl
          · exact if_neg hj
      | round w read joined =>
          have htaken : m.ipFetchBusy = true := hbusy
          rw [htaken] at hagain' hworking'
          exact ⟨.round w read true, by rw [Place.event, htaken]; rfl, hbusy', hagain', hworking'.trans hworking,
            fun _ _ => rfl⟩
  | loadConfig =>
      obtain ⟨joined, rfl⟩ := Phase.working_eq_some.mp hworking.symm
      refine ⟨.round i true joined, ?_, hbusy'.trans hbusy, hagain'.trans hagain, ?_, fun j hj => ?_⟩
      · simp [Place.event, Phase.next]
      · rw [hworking', Phase.working, if_pos rfl]
      · rw [Phase.working, Phase.working, if_neg hj, if_neg hj]
  | roundCheck =>
      obtain ⟨joined, rfl⟩ := Phase.working_eq_some.mp hworking.symm
      have hjoined : m.ipFetchAgain = joined := hagain
      have htaken : m.ipFetchBusy = true := hbusy
      rw [hjoined, htaken] at hbusy'
      rw [hjoined] at hworking'
      refine ⟨if joined then .round i false false else .idle, ?_, ?_, ?_, ?_, fun j hj => ?_⟩
      · simp [Place.event, Phase.next, hjoined]
      · cases joined <;> exact hbusy'
      · cases joined <;> exact hagain'
      · cases joined
        · exact hworking'
        · exact hworking'.trans (if_pos rfl).symm
      · cases joined
        · exact (if_neg hj).symm
        · exact (if_neg hj).trans (if_neg hj).symm
  | trigger =>
      refine ⟨p, ?_, hbusy'.trans hbusy, hagain'.trans hagain, hworking'.trans hworking, fun _ _ => rfl⟩
      rw [Place.event]
      split <;> rfl
  | _ => exact ⟨p, rfl, hbusy'.trans hbusy, hagain'.trans hagain, hworking'.trans hworking, fun _ _ => rfl⟩

end Step

theorem inPhase_step {p : Phase} {s s' : State} {a : Action} (hs : InPhase p s) (hstep : resolver.step s a = some s') :
    ∃ p', (roundEvents s a).foldlM Phase.next p = some p' ∧ InPhase p' s' := by
  cases a with
  | spawn r =>
      cases hstep
      refine ⟨p, rfl, hs.busy, hs.again, fun i => ?_⟩
      have hold := hs.working i
      rw [List.getElem?_append]
      split
      · exact hold
      next hlt =>
        rw [List.getElem?_eq_none (Nat.le_of_not_lt hlt)] at hold
        rw [← hold, List.getElem?_singleton]
        split
        · cases r <;> rfl
        · rfl
  | run i echo =>
      obtain ⟨t, t', hi, hexec, hthreads⟩ := Program.step_run hstep
      have hworking := hs.working i
      rw [hi] at hworking
      obtain ⟨p', hp', hbusy, hagain, hown, hothers⟩ := phase_exec hexec hs.busy hs.again hworking
      refine ⟨p', by rw [roundEvents, hi]; exact hp', hbusy, hagain, fun j => ?_⟩
      rw [hthreads, Program.getElem?_set_of_some hi]
      split
      next hj =>
        rw [hj]
        exact hown
      next hj => rw [hothers j hj, hs.working j]

/-! ### The machine's runs -/

namespace RoundEvent

def isRead : RoundEvent → Bool
  | read _ => true
  | _ => false

def isJoined : RoundEvent → Bool
  | joined _ => true
  | _ => false

/-- A round is opened by the worker's start and by the end of a round that goes on. -/
def opens : RoundEvent → Bool
  | started _ => true
  | ended _ more => more
  | _ => false

def bounds : RoundEvent → Bool
  | started _ | ended .. => true
  | _ => false

end RoundEvent

theorem Phase.next_opens {p p' : Phase} {x : RoundEvent} (h : p.next x = some p') (hx : x.opens = true) :
    ∃ w, p' = .round w false false := by
  cases x with
  | started i =>
      cases p with
      | idle =>
          cases h
          exact ⟨i, rfl⟩
      | round w read joined => cases h
  | ended i more =>
      obtain rfl : more = true := hx
      cases p with
      | idle => cases h
      | round w read joined =>
          cases read with
          | false => cases h
          | true =>
              rw [Phase.next] at h
              split at h
              next hend =>
                rw [← hend.2] at h
                cases h
                exact ⟨w, rfl⟩
              · cases h
  | passed i => cases hx
  | joined i => cases hx
  | read i => cases hx

/-- Inside a round the config is read once at most, and the round remembers whether a trigger joined. -/
theorem Phase.span {w : Nat} {l : List RoundEvent} (hl : ∀ x ∈ l, x.bounds = false) {read joined : Bool} {p : Phase}
    (h : l.foldlM Phase.next (.round w read joined) = some p) :
    ∃ read', p = .round w read' (joined || l.any RoundEvent.isJoined) ∧
      read'.toNat = read.toNat + l.countP RoundEvent.isRead := by
  induction l generalizing read joined with
  | nil =>
      cases h
      exact ⟨read, by rw [List.any_nil, Bool.or_false], rfl⟩
  | cons x l ih =>
      rw [List.foldlM_cons] at h
      obtain ⟨mid, hmid, hrest⟩ := Option.bind_eq_some_iff.mp h
      have htail : ∀ y ∈ l, y.bounds = false := fun y hy => hl y (List.mem_cons_of_mem x hy)
      have hx := hl x List.mem_cons_self
      cases x with
      | passed i =>
          cases hmid
          obtain ⟨read', rfl, hcount⟩ := ih htail hrest
          exact ⟨read', rfl, hcount⟩
      | joined i =>
          cases hmid
          obtain ⟨read', rfl, hcount⟩ := ih htail hrest
          exact ⟨read', by rw [Bool.true_or, List.any_cons]; simp [RoundEvent.isJoined], hcount⟩
      | read i =>
          cases read with
          | true => cases hmid
          | false =>
              rw [Phase.next] at hmid
              split at hmid
              · cases hmid
                obtain ⟨read', rfl, hcount⟩ := ih htail hrest
                refine ⟨read', rfl, hcount.trans ?_⟩
                rw [List.countP_cons_of_pos (by rfl)]
                simp only [Bool.toNat_true, Bool.toNat_false]
                omega
              · cases hmid
      | started i => cases hx
      | ended i more => cases hx

/-- A round that ends has read its config once, and is followed by another one exactly if a trigger joined it. -/
theorem Phase.round_ends {before during after : List RoundEvent} {x : RoundEvent} {i : Nat} {more : Bool} {p : Phase}
    (h : (before ++ x :: (during ++ .ended i more :: after)).foldlM Phase.next .idle = some p) (hx : x.opens = true)
    (hduring : ∀ y ∈ during, y.bounds = false) :
    more = during.any RoundEvent.isJoined ∧ during.countP RoundEvent.isRead = 1 := by
  rw [List.foldlM_append] at h
  obtain ⟨p₁, -, h⟩ := Option.bind_eq_some_iff.mp h
  rw [List.foldlM_cons] at h
  obtain ⟨p₂, hopen, h⟩ := Option.bind_eq_some_iff.mp h
  obtain ⟨w, rfl⟩ := Phase.next_opens hopen hx
  rw [List.foldlM_append] at h
  obtain ⟨p₃, hspan, h⟩ := Option.bind_eq_some_iff.mp h
  obtain ⟨read, rfl, hcount⟩ := Phase.span hduring hspan
  rw [List.foldlM_cons] at h
  obtain ⟨p₄, hend, -⟩ := Option.bind_eq_some_iff.mp h
  cases read with
  | false => cases hend
  | true =>
      rw [Phase.next] at hend
      split at hend
      next hmatch =>
        refine ⟨hmatch.2.trans (Bool.false_or _), ?_⟩
        simpa using hcount.symm
      · cases hend

/-! ### No trigger is lost -/

/-- A read of the config is still to come. -/
def Phase.due : Phase → Bool
  | .idle => false
  | .round _ read joined => !read || joined

theorem Phase.due_next {p p' : Phase} {x : RoundEvent} (h : p.next x = some p') (hx : x.isRead = false)
    (hdue : p.due = true) : p'.due = true := by
  cases p with
  | idle => cases hdue
  | round w read joined =>
      cases x with
      | passed i =>
          cases h
          exact hdue
      | joined i =>
          cases h
          exact Bool.or_true _
      | read i => cases hx
      | started i => cases h
      | ended i more =>
          cases read with
          | false => cases h
          | true =>
              obtain rfl : joined = true := hdue
              rw [Phase.next] at h
              split at h
              · cases h
                rfl
              · cases h

theorem Phase.due_foldlM {l : List RoundEvent} (hl : ∀ x ∈ l, x.isRead = false) {p p' : Phase}
    (h : l.foldlM Phase.next p = some p') (hdue : p.due = true) : p'.due = true := by
  induction l generalizing p with
  | nil =>
      cases h
      exact hdue
  | cons x l ih =>
      rw [List.foldlM_cons] at h
      obtain ⟨mid, hmid, hrest⟩ := Option.bind_eq_some_iff.mp h
      exact ih (fun y hy => hl y (List.mem_cons_of_mem x hy)) hrest (Phase.due_next hmid (hl x List.mem_cons_self) hdue)

/-- A trigger that passed its check has not reached its critical section, or a read is still to come. -/
def Owed (i : Nat) (p : Phase) (s : State) : Prop :=
  s.threads[i]? = some .triggerLock ∨ s.threads[i]? = some .triggerBusy ∨ p.due = true

/-- A trigger's critical section starts a round or joins one. -/
theorem Phase.due_triggerBusy {i : Nat} {m : Memory} {p p' : Phase} (hbusy : m.ipFetchBusy = p.busy)
    (h : (Place.triggerBusy.event i m).foldlM Phase.next p = some p') : p'.due = true := by
  rw [Place.event, hbusy] at h
  cases p with
  | idle =>
      cases h
      rfl
  | round w read joined =>
      cases h
      exact Bool.or_true _

theorem Owed.step {i : Nat} {p p' : Phase} {s s' : State} {a : Action} (h : Owed i p s) (hs : InPhase p s)
    (hstep : resolver.step s a = some s') (hp' : (roundEvents s a).foldlM Phase.next p = some p')
    (hread : ∀ x ∈ roundEvents s a, x.isRead = false) : Owed i p' s' := by
  by_cases hdue : p.due = true
  · exact .inr (.inr (Phase.due_foldlM hread hp' hdue))
  obtain ⟨t, hi, ht⟩ : ∃ t, s.threads[i]? = some t ∧ (t = .triggerLock ∨ t = .triggerBusy) := by
    obtain hi | hi | hi := h
    · exact ⟨_, hi, .inl rfl⟩
    · exact ⟨_, hi, .inr rfl⟩
    · exact absurd hi hdue
  cases a with
  | spawn r =>
      cases hstep
      have hsame : (s.threads ++ [r.start])[i]? = some t := by
        rw [List.getElem?_append_left (List.getElem?_eq_some_iff.mp hi).1, hi]
      exact ht.elim (fun ht => .inl (ht ▸ hsame)) fun ht => .inr (.inl (ht ▸ hsame))
  | run k echo =>
      obtain ⟨u, u', hk, hexec, hthreads⟩ := Program.step_run hstep
      by_cases hik : i = k
      · subst hik
        rw [hi] at hk
        obtain rfl := Option.some.inj hk
        obtain rfl | rfl := ht
        · have hnext : u' = .triggerBusy := by
            change s.mem.lock i .triggerBusy = _ at hexec
            rw [Memory.lock] at hexec
            split at hexec
            · exact (congrArg Prod.snd (Option.some.inj hexec)).symm
            · cases hexec
          exact .inr (.inl (by rw [hthreads, Program.getElem?_set_of_some hi, if_pos rfl, hnext]))
        · rw [roundEvents, hi] at hp'
          exact .inr (.inr (Phase.due_triggerBusy hs.busy hp'))
      · have hsame : s'.threads[i]? = some t := by
          rw [hthreads, Program.getElem?_set_of_some hk, if_neg hik, hi]
        exact ht.elim (fun ht => .inl (ht ▸ hsame)) fun ht => .inr (.inl (ht ▸ hsame))

/-- Each trigger that passed its check has been followed by a read, or still owes one. -/
def Served (l : List RoundEvent) (p : Phase) (s : State) : Prop :=
  ∀ before i after, l = before ++ .passed i :: after → (∃ x ∈ after, x.isRead = true) ∨ Owed i p s

theorem roundEvents_passed {s s' : State} {a : Action} {i : Nat} (hstep : resolver.step s a = some s')
    (h : .passed i ∈ roundEvents s a) : roundEvents s a = [.passed i] ∧ s'.threads[i]? = some .triggerLock := by
  cases a with
  | spawn r => cases h
  | run k echo =>
      obtain ⟨t, t', hk, hexec, hthreads⟩ := Program.step_run hstep
      rw [roundEvents, hk] at h ⊢
      cases t with
      | trigger =>
          by_cases hfetches : s.mem.ipResolve.fetches = true
          · have hevent : Place.trigger.event k s.mem = [.passed k] := if_pos hfetches
            have hnext : some (s.mem, if s.mem.ipResolve.fetches then Place.triggerLock else .done) = some (s'.mem, t') :=
              hexec
            rw [if_pos hfetches] at hnext
            change .passed i ∈ Place.trigger.event k s.mem at h
            rw [hevent] at h
            obtain rfl : i = k := by simpa using h
            refine ⟨hevent, ?_⟩
            rw [hthreads, Program.getElem?_set_of_some hk, if_pos rfl]
            exact (congrArg (Option.map Prod.snd) hnext).symm
          · have hevent : Place.trigger.event k s.mem = [] := if_neg hfetches
            change .passed i ∈ Place.trigger.event k s.mem at h
            rw [hevent] at h
            cases h
      | triggerBusy =>
          have hmem : .passed i ∈ [if s.mem.ipFetchBusy then RoundEvent.joined k else .started k] := h
          split at hmem <;> simp at hmem
      | loadConfig =>
          have hmem : .passed i ∈ [RoundEvent.read k] := h
          simp at hmem
      | roundCheck =>
          have hmem : .passed i ∈ [RoundEvent.ended k s.mem.ipFetchAgain] := h
          simp at hmem
      | _ => cases h

theorem Served.step {l : List RoundEvent} {p p' : Phase} {s s' : State} {a : Action} (h : Served l p s)
    (hs : InPhase p s) (hstep : resolver.step s a = some s')
    (hp' : (roundEvents s a).foldlM Phase.next p = some p') : Served (l ++ roundEvents s a) p' s' := by
  intro before i after hsplit
  -- the trigger passes in this step, or it did before
  obtain hnew | ⟨after', hl, hafter⟩ : .passed i ∈ roundEvents s a ∨
      ∃ after', l = before ++ .passed i :: after' ∧ after = after' ++ roundEvents s a := by
    obtain ⟨c, -, he⟩ | ⟨c, hl, hc⟩ := List.append_eq_append_iff.mp hsplit
    · exact .inl (he ▸ List.mem_append_right c List.mem_cons_self)
    · cases c with
      | nil =>
          rw [List.nil_append] at hc
          exact .inl (hc ▸ List.mem_cons_self)
      | cons x c =>
          cases hc
          exact .inr ⟨c, hl, rfl⟩
  · exact .inr (.inl (roundEvents_passed hstep hnew).2)
  · obtain ⟨x, hx, hread⟩ | howed := h before i after' hl
    · exact .inl ⟨x, hafter ▸ List.mem_append_left _ hx, hread⟩
    · by_cases hnone : ∀ x ∈ roundEvents s a, x.isRead = false
      · exact .inr (howed.step hs hstep hp' hnone)
      · obtain ⟨x, hx, hread⟩ : ∃ x ∈ roundEvents s a, x.isRead = true := by simpa using hnone
        exact .inl ⟨x, hafter ▸ List.mem_append_right _ hx, hread⟩

theorem served_of_traces {l : List RoundEvent} {s : State}
    (htrace : resolver.Traces (fun _ _ => True) roundEvents State.init l s) :
    ∃ p, l.foldlM Phase.next .idle = some p ∧ InPhase p s ∧ Served l p s := by
  refine htrace.invariant (fun l s => ∃ p, l.foldlM Phase.next .idle = some p ∧ InPhase p s ∧ Served l p s)
    ⟨.idle, rfl, ⟨rfl, rfl, fun i => rfl⟩, ?_⟩ ?_
  · intro before i after hsplit
    simp at hsplit
  · rintro l s a s' - ⟨p, hp, hs, hserved⟩ - hstep
    obtain ⟨p', hp', hs'⟩ := inPhase_step hs hstep
    refine ⟨p', ?_, hs', hserved.step hs hstep hp'⟩
    rw [List.foldlM_append, hp]
    exact hp'

/-! ### Coming to rest -/

def AtRest (s : State) : Prop := ∀ t ∈ s.threads, t = .done

theorem not_owed_of_atRest {i : Nat} {p : Phase} {s : State} (hs : InPhase p s) (hrest : AtRest s) : ¬Owed i p s := by
  rintro (hi | hi | hdue)
  · exact absurd (hrest _ (List.mem_of_getElem? hi)) (by simp)
  · exact absurd (hrest _ (List.mem_of_getElem? hi)) (by simp)
  · cases p with
    | idle => cases hdue
    | round w read joined =>
        have hworking := hs.working w
        rw [Phase.working, if_pos rfl] at hworking
        obtain ⟨t, ht, hread⟩ := Option.bind_eq_some_iff.mp hworking
        rw [hrest t (List.mem_of_getElem? ht)] at hread
        cases hread

/-- How many steps a thread has left, a worker until it next asks whether to go on. -/
def Place.rank : Place → Nat
  | .done => 0
  | .configureLock _ => 9
  | .configureBump _ => 8
  | .configureClear .. => 7
  | .configureStore .. => 6
  | .configureUnlock .. => 5
  | .stopLock => 5
  | .stopBump => 4
  | .stopStore _ => 3
  | .stopClear _ => 2
  | .stopUnlock _ => 1
  | .trigger => 14
  | .triggerLock => 13
  | .triggerBusy => 12
  | .triggerUnlock more | .roundUnlock more => if more then 11 else 1
  | .loadConfig => 10
  | .loadGen _ => 9
  | .fetch .. => 8
  | .setLock worker _ => if worker then 7 else 4
  | .setCheck worker _ => if worker then 6 else 3
  | .setUnlock worker .. => if worker then 5 else 2
  | .emit worker _ => if worker then 4 else 1
  | .roundLock => 3
  | .roundCheck => 2

/-- A trigger that joins puts off the worker's last step by a round; it brings that round's steps with it. -/
def rank (s : State) : Nat := s.threads.foldr (fun t n => t.rank + n) 0 + if s.mem.ipFetchAgain then 10 else 0

theorem exec_rank {i : Nat} {m m' : Memory} {t t' : Place} {echo : Echo} (h : exec i m t echo = some (m', t')) :
    (t'.rank + if m'.ipFetchAgain then 10 else 0) < t.rank + if m.ipFetchAgain then 10 else 0 := by
  have hagain := exec_ipFetchAgain h
  cases t <;> grind -linarith [exec, Memory.lock, Memory.unlock, afterSet, Place.rank]

theorem foldr_rank_set {threads : List Place} {i : Nat} {t : Place} (hi : threads[i]? = some t) (t' : Place) :
    (threads.set i t').foldr (fun t n => t.rank + n) 0 + t.rank =
      threads.foldr (fun t n => t.rank + n) 0 + t'.rank := by
  induction threads generalizing i with
  | nil => cases hi
  | cons u threads ih =>
      cases i with
      | zero =>
          cases hi
          simp only [List.set_cons_zero, List.foldr_cons]
          omega
      | succ i =>
          have hrec := ih (i := i) hi
          simp only [List.set_cons_succ, List.foldr_cons]
          omega

theorem rank_step {s s' : State} {i : Nat} {echo : Echo} (hstep : resolver.step s (.run i echo) = some s') :
    rank s' < rank s := by
  obtain ⟨t, t', hi, hexec, hthreads⟩ := Program.step_run hstep
  have hrank := exec_rank hexec
  have hsum := foldr_rank_set hi t'
  rw [rank, rank, hthreads]
  omega

/-- Only a thread that has ended or wants the lock can have to wait. -/
theorem exists_exec (i : Nat) {m : Memory} {t : Place} (echo : Echo) (ht : t ≠ .done)
    (hlocks : t.locks = true → m.ipFetchMu = none) : ∃ out, exec i m t echo = some out := by
  cases t with
  | done => exact absurd rfl ht
  | configureLock | stopLock | triggerLock | setLock | roundLock => exact ⟨_, if_pos (hlocks rfl)⟩
  | triggerBusy | setCheck | roundCheck =>
      dsimp only [exec]
      split <;> exact ⟨_, rfl⟩
  | _ => exact ⟨_, rfl⟩

theorem exists_step {s : State} (hheld : Held s) (hrest : ¬AtRest s) (echo : Echo) :
    ∃ i s', resolver.step s (.run i echo) = some s' := by
  obtain ⟨i, t, hi, ht, hlocks⟩ : ∃ (i : Nat) (t : Place), s.threads[i]? = some t ∧ t ≠ .done ∧
      (t.locks = true → s.mem.ipFetchMu = none) := by
    cases hmu : s.mem.ipFetchMu with
    | some i =>
        obtain ⟨t, hi, hholds⟩ := hheld i hmu
        refine ⟨i, t, hi, ?_, fun hlocks => ?_⟩
        · rintro rfl
          cases hholds
        · cases t <;> cases hlocks <;> cases hholds
    | none =>
        obtain ⟨t, hmem, ht⟩ : ∃ t ∈ s.threads, t ≠ .done := by simpa [AtRest] using hrest
        obtain ⟨i, hi⟩ := List.mem_iff_getElem?.mp hmem
        exact ⟨i, t, hi, ht, fun _ => rfl⟩
  obtain ⟨out, hout⟩ := exists_exec i echo ht hlocks
  exact ⟨i, ⟨out.1, s.threads.set i out.2⟩, by simp [Program.step, hi, hout]⟩

/-- No new request comes. -/
def OnlyRuns (_ : State) : Action → Prop
  | .spawn _ => False
  | .run .. => True

theorem exists_atRest {s : State} (hheld : Held s) :
    ∃ l s', resolver.Traces OnlyRuns roundEvents s l s' ∧ AtRest s' := by
  obtain ⟨n, hn⟩ : ∃ n, rank s < n := ⟨_, Nat.lt_succ_self _⟩
  induction n generalizing s with
  | zero => omega
  | succ n ih =>
      by_cases hrest : AtRest s
      · exact ⟨[], s, .nil, hrest⟩
      · obtain ⟨i, mid, hstep⟩ := exists_step hheld hrest answer
        have hlt := rank_step hstep
        obtain ⟨l, s', htrace, hrest'⟩ := ih (hheld.step hstep) (by omega)
        have hfirst : resolver.Traces OnlyRuns roundEvents s ([] ++ roundEvents s (.run i answer)) mid :=
          Program.Traces.nil.step trivial hstep
        exact ⟨_, s', hfirst.trans htrace, hrest'⟩

/-- In every run of triggers, configures and stops: one worker at most; `ipFetchAgain` only with `ipFetchBusy`; a
trigger that passed its check and has not been followed by a read of the config has not come to its critical
section yet, or there is a worker with a read before it; once the threads have ended, which they do when no more
are started, every such trigger has been followed by a read; and a round reads the config once and is followed by
one more exactly if some trigger joined it. -/
theorem rounds_of_traces {l : List RoundEvent} {s : State}
    (htrace : resolver.Traces (fun _ _ => True) roundEvents State.init l s) :
    (∀ (i j : Nat) (t u : Place), s.threads[i]? = some t → s.threads[j]? = some u → t.working.isSome = true →
      u.working.isSome = true → i = j) ∧
    (s.mem.ipFetchAgain = true → s.mem.ipFetchBusy = true) ∧
    (∀ before i after, l = before ++ .passed i :: after → (∃ x ∈ after, x.isRead = true) ∨
      s.threads[i]? = some .triggerLock ∨ s.threads[i]? = some .triggerBusy ∨ ∃ (w : Nat) (t : Place),
        s.threads[w]? = some t ∧ (t.working = some false ∨ t.working = some true ∧ s.mem.ipFetchAgain = true)) ∧
    (∀ before i after, l = before ++ .passed i :: after → ∀ l' s', resolver.Traces (fun _ _ => True) roundEvents s l' s' →
      AtRest s' → ∃ x ∈ after ++ l', x.isRead = true) ∧
    (∃ l' s', resolver.Traces OnlyRuns roundEvents s l' s' ∧ AtRest s') ∧
    ∀ before x during i more after, l = before ++ x :: (during ++ .ended i more :: after) → x.opens = true →
      (∀ y ∈ during, y.bounds = false) → (more = true ↔ ∃ k, .joined k ∈ during) ∧ during.countP RoundEvent.isRead = 1 := by
  obtain ⟨p, hp, hs, hserved⟩ := served_of_traces htrace
  have hheld : Held s := htrace.reaches.invariant Held nofun fun _ _ _ hinv _ hstep => hinv.step hstep
  refine ⟨?_, ?_, ?_, ?_, exists_atRest hheld, ?_⟩
  · intro i j t u hi hj ht hu
    have hworker : ∀ (k : Nat) (v : Place), s.threads[k]? = some v → v.working.isSome = true →
        ∃ read joined, p = .round k read joined := by
      intro k v hk hv
      obtain ⟨read, hread⟩ := Option.isSome_iff_exists.mp hv
      have hworking := hs.working k
      rw [hk, Option.bind_some, hread] at hworking
      exact ⟨read, Phase.working_eq_some.mp hworking.symm⟩
    obtain ⟨read, joined, hpi⟩ := hworker i t hi ht
    obtain ⟨read', joined', hpj⟩ := hworker j u hj hu
    rw [hpi] at hpj
    cases hpj
    rfl
  · intro hagain
    rw [hs.again] at hagain
    rw [hs.busy]
    cases p with
    | idle => cases hagain
    | round => rfl
  · intro before i after hsplit
    obtain hread | hi | hi | hdue := hserved before i after hsplit
    · exact .inl hread
    · exact .inr (.inl hi)
    · exact .inr (.inr (.inl hi))
    · refine .inr (.inr (.inr ?_))
      cases p with
      | idle => cases hdue
      | round w read joined =>
          have hworking := hs.working w
          rw [Phase.working, if_pos rfl] at hworking
          obtain ⟨t, ht, hread⟩ := Option.bind_eq_some_iff.mp hworking
          cases read with
          | false => exact ⟨w, t, ht, .inl hread⟩
          | true => exact ⟨w, t, ht, .inr ⟨hread, hs.again.trans hdue⟩⟩
  · intro before i after hsplit l' s' htrace' hrest
    obtain ⟨p', -, hs', hserved'⟩ := served_of_traces (htrace.trans htrace')
    refine (hserved' before i (after ++ l') ?_).resolve_right (not_owed_of_atRest hs' hrest)
    rw [hsplit, List.append_assoc, List.cons_append]
  · intro before x during i more after hsplit hx hduring
    rw [hsplit] at hp
    obtain ⟨hmore, hcount⟩ := Phase.round_ends hp hx hduring
    refine ⟨?_, hcount⟩
    rw [hmore, List.any_eq_true]
    constructor
    · rintro ⟨y, hy, hjoined⟩
      cases y with
      | joined k => exact ⟨k, hy⟩
      | _ => cases hjoined
    · rintro ⟨k, hk⟩
      exact ⟨_, hk, rfl⟩

/-- A second trigger joins the first one's round: the worker makes two rounds. -/
def joinedRound : List Action :=
  [.spawn (.configureIPResolve (tunnel 1)), .spawn .triggerIPResolve, .spawn .triggerIPResolve] ++
    proceed 0 5 ++ proceed 1 5 ++ proceed 2 4 ++ proceed 1 17

theorem rounds_of_traces_joinedRound :
    resolver.labels roundEvents State.init joinedRound = [.passed 1, .started 1, .read 1, .passed 2, .joined 2,
      .ended 1 true, .read 1, .ended 1 false] ∧
      ∃ s, resolver.run (fun _ _ => True) State.init joinedRound = some s ∧ (s.mem.ipFetchAgain = true →
        s.mem.ipFetchBusy = true) ∧ ∃ l' s', resolver.Traces OnlyRuns roundEvents s l' s' ∧ AtRest s' := by
  obtain ⟨s, hs⟩ : ∃ s, resolver.run (fun _ _ => True) State.init joinedRound = some s := ⟨_, rfl⟩
  have hrounds := rounds_of_traces (Program.traces_of_run hs)
  exact ⟨by decide, s, hs, hrounds.2.1, hrounds.2.2.2.2.1⟩

end GlitchCore.Core.ExternalIP
