import GlitchCore.Base.Runs
import GlitchCore.Logfmt.Scrub
import Mathlib.Data.List.Basic

/-!
# Measuring a pool of links

`Measure` walks over the links. It puts a result in each link's place and, where an engine carries the link, waits for
one of `concurrency` slots and starts a goroutine that measures the link there. A goroutine writes to its own link's result
alone. The walk over, it waits until every goroutine is done.

What a probe answers, and when, is left open: a step of a run names the answer. A link's place records the calls its
goroutine has made. Before the goroutine starts nobody but the walk touches the link's result and its count in the
`WaitGroup`, so both are set in the step that takes the slot.
-/

namespace GlitchCore.Pinger

open GoText Logfmt

/-- `match` on the trimmed link and its lower-case form. -/
structure EngineMeasurer where
  engine : Text
  carries : Text → Text → Bool

structure Engines where
  measurers : List EngineMeasurer
  fallback : Option EngineMeasurer

structure Request where
  engine : Text := []
  links : List Text
  probeURL : Text := []
  timeoutMs : Int64 := 0
  concurrency : Int := 0

structure Result where
  index : Nat := 0
  engine : Text := []
  alive : Bool := false
  delayMs : Int64 := 0
  error : Text := []
  deriving DecidableEq

/-! ### Which engine measures a link -/

def EngineMeasurer.takes (m : EngineMeasurer) (link : Text) : Bool := m.carries (trimSpace link) (toLower (trimSpace link))

def matchAwgLink (trimmed lower : Text) : Bool :=
  "awg://".toList.isPrefixOf lower || contains trimmed "[Interface]".toList

def classify (E : Engines) (link : Text) : Text × Option EngineMeasurer :=
  match E.measurers.find? (·.takes link), E.fallback with
  | some m, _ => (m.engine, some m)
  | none, some f => if f.takes link then (f.engine, some f) else ([], none)
  | none, none => ([], none)

/-- The measurer of the pinned engine, if it carries the link. -/
def classifyOn (E : Engines) (pinned link : Text) : Text × Option EngineMeasurer :=
  match E.measurers.find? (·.engine == pinned), E.fallback with
  | some m, _ => if m.takes link then (m.engine, some m) else (pinned, none)
  | none, some f =>
      if f.engine == pinned && !matchAwgLink (trimSpace link) (toLower (trimSpace link)) && f.takes link then
        (f.engine, some f)
      else (pinned, none)
  | none, none => (pinned, none)

def Request.pinned (req : Request) : Text := trimSpace req.engine

def plan (E : Engines) (req : Request) (link : Text) : Text × Option EngineMeasurer :=
  if req.pinned = [] then classify E link else classifyOn E req.pinned link

def Request.refusal (req : Request) : Text :=
  if req.pinned = [] then "unsupported link scheme".toList else "link not carried by the pinned engine".toList

theorem engine_of_pinned {E : Engines} {req : Request} {link engine : Text} {m : EngineMeasurer} (hpinned : req.pinned ≠ [])
    (h : plan E req link = (engine, some m)) : m.engine = req.pinned := by
  rw [plan, if_neg hpinned, classifyOn] at h
  split at h
  next em hfind =>
    split at h
    · cases h
      have hengine := List.find?_some hfind
      exact beq_iff_eq.mp hengine
    · cases h
  next f =>
    split at h
    next hcond =>
      cases h
      rw [Bool.and_eq_true, Bool.and_eq_true] at hcond
      exact beq_iff_eq.mp hcond.1.1
    · cases h
  · cases h

/-! ### One link's calls -/

structure Call where
  engine : Text
  link : Text
  probeURL : Text
  timeout : Int64
  deriving DecidableEq

def defaultProbeURL : Text := "https://www.gstatic.com/generate_204".toList

/-- In nanoseconds. -/
def Request.timeout (req : Request) : Int64 := (if req.timeoutMs ≤ 0 then 5000 else req.timeoutMs) * 1000000

def Request.slots (req : Request) : Nat := if req.concurrency ≤ 0 then 8 else req.concurrency.toNat

def Request.call (req : Request) (engine link : Text) : Call where
  engine := engine
  link := link
  probeURL := if trimSpace req.probeURL = [] then defaultProbeURL else trimSpace req.probeURL
  timeout := req.timeout

/-- A measured delay in nanoseconds, or an error; `refused` marks one that is a `fallsBack`. -/
inductive Answer where
  | delay (ns : Int64)
  | failed (refused : Bool) (error : Text)
  deriving DecidableEq

/-- The engine a refused link is measured on instead. -/
def fallsBack (E : Engines) (req : Request) (link : Text) : Answer → Option EngineMeasurer
  | .failed true _ => if req.pinned = [] then E.fallback.filter (·.takes link) else none
  | _ => none

def Answer.write (a : Answer) (r : Result) : Result :=
  match a with
  | .delay ns => { r with alive := true, delayMs := ns / 1000000 }
  | .failed _ error => { r with error := scrub error }

/-! ### The run -/

/-- How far a goroutine has got with its two deferred calls. -/
inductive Leaving where
  | slot
  | group
  | gone
  deriving DecidableEq

/-- A link `ahead` of the walk, one no engine carries, or where its goroutine stands and the calls it has made. -/
inductive Job where
  | ahead
  | uncarried
  | first (m : EngineMeasurer)
  | second (f : EngineMeasurer) (calls : List (Call × Answer))
  | report (a : Answer) (calls : List (Call × Answer))
  | settled (l : Leaving) (calls : List (Call × Answer))

inductive Walk where
  | loop
  | wait
  | returned
  deriving DecidableEq

structure State where
  walk : Walk := .loop
  next : Nat := 0
  sem : Nat := 0
  wg : Nat := 0
  results : List Result
  jobs : List Job

def State.init (req : Request) : State where
  results := List.replicate req.links.length {}
  jobs := List.replicate req.links.length .ahead

inductive Act where
  | walk
  | answer (i : Nat) (a : Answer)
  | go (i : Nat)

/-- The walk leaves the next link with a result and a place. -/
def State.advance (s : State) (j : Job) (r : Result) : State :=
  { s with next := s.next + 1, jobs := s.jobs.set s.next j, results := s.results.set s.next r }

/-- A goroutine moves on, and writes to its result. -/
def State.work (s : State) (i : Nat) (j : Job) (f : Result → Result) : State :=
  { s with jobs := s.jobs.set i j, results := s.results.modify i f }

/-- Nothing when the step has to wait, or there is no such step. -/
def step (E : Engines) (req : Request) (s : State) : Act → Option State
  | .walk =>
      match s.walk, req.links[s.next]? with
      | .loop, none => some { s with walk := .wait }
      | .loop, some link =>
          match plan E req link with
          | (engine, none) => some (s.advance .uncarried { index := s.next, engine := engine, error := req.refusal })
          | (engine, some m) =>
              if s.sem < req.slots then
                some { s.advance (.first m) { index := s.next, engine := engine } with sem := s.sem + 1, wg := s.wg + 1 }
              else none
      | .wait, _ => if s.wg = 0 then some { s with walk := .returned } else none
      | .returned, _ => none
  | .answer i a =>
      match s.jobs[i]?, req.links[i]? with
      | some (.first m), some link =>
          match fallsBack E req link a with
          | some f =>
              some (s.work i (.second f [(req.call m.engine link, a)]) fun r => { r with engine := f.engine })
          | none => some (s.work i (.report a [(req.call m.engine link, a)]) id)
      | some (.second f calls), some link => some (s.work i (.report a (calls ++ [(req.call f.engine link, a)])) id)
      | _, _ => none
  | .go i =>
      match s.jobs[i]? with
      | some (.report a calls) => some (s.work i (.settled .slot calls) a.write)
      | some (.settled .slot calls) => some { s.work i (.settled .group calls) id with sem := s.sem - 1 }
      | some (.settled .group calls) => some { s.work i (.settled .gone calls) id with wg := s.wg - 1 }
      | _ => none

def run (E : Engines) (req : Request) (s : State) (acts : List Act) : Option State := Runs.exec (step E req) s acts

/-! ### Sums over a list -/

section Weigh

variable {α : Type*}

def weigh (f : α → Nat) : List α → Nat
  | [] => 0
  | x :: rest => f x + weigh f rest

theorem weigh_set (f : α → Nat) {l : List α} {i : Nat} {x : α} (h : l[i]? = some x) (y : α) :
    weigh f (l.set i y) + f x = weigh f l + f y := by
  induction l generalizing i with
  | nil => cases h
  | cons z rest ih =>
      cases i with
      | zero =>
          cases h
          rw [List.set_cons_zero, weigh, weigh]
          omega
      | succ i =>
          have hrest := ih h
          rw [List.set_cons_succ, weigh, weigh]
          omega

theorem le_weigh (f : α → Nat) {l : List α} {i : Nat} {x : α} (h : l[i]? = some x) : f x ≤ weigh f l := by
  induction l generalizing i with
  | nil => cases h
  | cons y rest ih =>
      cases i with
      | zero =>
          cases h
          exact Nat.le_add_right ..
      | succ i => exact Nat.le_trans (ih h) (Nat.le_add_left ..)

theorem weigh_le {f g : α → Nat} (h : ∀ x, f x ≤ g x) (l : List α) : weigh f l ≤ weigh g l := by
  induction l with
  | nil => exact Nat.le_refl 0
  | cons x rest ih => exact Nat.add_le_add (h x) ih

theorem weigh_replicate (f : α → Nat) (n : Nat) (x : α) : weigh f (List.replicate n x) = n * f x := by
  induction n with
  | zero => exact (Nat.zero_mul _).symm
  | succ n ih =>
      rw [List.replicate_succ, weigh, ih, Nat.succ_mul]
      exact Nat.add_comm ..

theorem exists_of_weigh_pos {f : α → Nat} {l : List α} (h : 0 < weigh f l) : ∃ (i : Nat) (x : α), l[i]? = some x ∧ 0 < f x := by
  induction l with
  | nil => cases h
  | cons y rest ih =>
      by_cases hy : 0 < f y
      · exact ⟨0, y, rfl, hy⟩
      · rw [weigh] at h
        obtain ⟨i, x, hx, hpos⟩ := ih (by omega)
        exact ⟨i + 1, x, hx, hpos⟩

end Weigh

/-! ### The invariant -/

/-- A goroutine's calls, the engine it ends on and the last answer. -/
inductive Asked (E : Engines) (req : Request) (link : Text) : Text → List (Call × Answer) → Answer → Prop
  | once {engine : Text} {m : EngineMeasurer} {a : Answer} : plan E req link = (engine, some m) →
      fallsBack E req link a = none → Asked E req link engine [(req.call m.engine link, a)] a
  | fellBack {engine : Text} {m f : EngineMeasurer} {a a' : Answer} : plan E req link = (engine, some m) →
      fallsBack E req link a = some f →
      Asked E req link f.engine [(req.call m.engine link, a), (req.call f.engine link, a')] a'

/-- The link `i`'s calls and its result. -/
inductive Measured (E : Engines) (req : Request) (i : Nat) (link : Text) : List (Call × Answer) → Result → Prop
  | uncarried {engine : Text} : plan E req link = (engine, none) →
      Measured E req i link [] { index := i, engine := engine, error := req.refusal }
  | asked {engine : Text} {calls : List (Call × Answer)} {a : Answer} : Asked E req link engine calls a →
      Measured E req i link calls (a.write { index := i, engine := engine })

def Job.Holds (E : Engines) (req : Request) (i : Nat) (link : Text) (r : Result) : Job → Prop
  | .ahead => True
  | .uncarried => Measured E req i link [] r
  | .first m => ∃ engine, plan E req link = (engine, some m) ∧ r = { index := i, engine := engine }
  | .second f calls => ∃ engine m a, plan E req link = (engine, some m) ∧ fallsBack E req link a = some f ∧
      calls = [(req.call m.engine link, a)] ∧ r = { index := i, engine := f.engine }
  | .report a calls => ∃ engine, Asked E req link engine calls a ∧ r = { index := i, engine := engine }
  | .settled _ calls => Measured E req i link calls r

/-- The calls a link's goroutine has made and, if it is in one, the engine it asks. -/
def Job.calls : Job → List (Call × Answer)
  | .second _ calls | .report _ calls | .settled _ calls => calls
  | _ => []

def Job.calling : Job → Option EngineMeasurer
  | .first m | .second m _ => some m
  | _ => none

/-- A goroutine that holds a slot. -/
def Job.holding : Job → Nat
  | .first _ | .second .. | .report .. | .settled .slot _ => 1
  | _ => 0

/-- A goroutine that has not called `wg.Done`. -/
def Job.open : Job → Nat
  | .settled .group _ => 1
  | j => j.holding

def Job.rank : Job → Nat
  | .ahead => 6
  | .first _ => 5
  | .second .. => 4
  | .report .. => 3
  | .settled .slot _ => 2
  | .settled .group _ => 1
  | _ => 0

def Walk.rank : Walk → Nat
  | .loop => 2
  | .wait => 1
  | .returned => 0

def State.rank (s : State) : Nat := weigh Job.rank s.jobs + s.walk.rank

structure Sound (E : Engines) (req : Request) (s : State) : Prop where
  results : s.results.length = req.links.length
  jobs : s.jobs.length = req.links.length
  ahead : ∀ i, s.jobs[i]? = some .ahead ↔ s.next ≤ i ∧ i < req.links.length
  sem : s.sem = weigh Job.holding s.jobs
  slots : s.sem ≤ req.slots
  wg : s.wg = weigh Job.open s.jobs
  walk : s.walk ≠ .loop → req.links.length ≤ s.next
  closed : s.walk = .returned → s.wg = 0
  links : ∀ (i : Nat) (link : Text) (j : Job) (r : Result), req.links[i]? = some link → s.jobs[i]? = some j →
    s.results[i]? = some r → j.Holds E req i link r

section Step

variable {E : Engines} {req : Request} {s s' : State} {i : Nat} {j : Job}

theorem set_ahead_iff {jobs : List Job} {j' : Job} (hi : jobs[i]? = some j) (hj : j' ≠ .ahead) (k : Nat) :
    (jobs.set i j')[k]? = some .ahead ↔ k ≠ i ∧ jobs[k]? = some .ahead := by
  obtain ⟨hlt, -⟩ := List.getElem?_eq_some_iff.mp hi
  by_cases hk : k = i
  · subst hk
    rw [List.getElem?_set_self hlt]
    exact ⟨fun h => absurd (Option.some.inj h) hj, fun h => absurd rfl h.1⟩
  · rw [List.getElem?_set_ne (Ne.symm hk)]
    exact ⟨fun h => ⟨hk, h⟩, fun h => h.2⟩

/-- A step that touches the link `i` alone. -/
theorem Sound.links_set (hs : Sound E req s) (hi : s.jobs[i]? = some j) {j' : Job} {results : List Result}
    (hresults : ∀ k, k ≠ i → results[k]? = s.results[k]?)
    (hown : ∀ link r, req.links[i]? = some link → results[i]? = some r → j'.Holds E req i link r) (k : Nat) (link : Text)
    (u : Job) (r : Result) (hlink : req.links[k]? = some link) (hu : (s.jobs.set i j')[k]? = some u)
    (hr : results[k]? = some r) : u.Holds E req k link r := by
  obtain ⟨hlt, -⟩ := List.getElem?_eq_some_iff.mp hi
  by_cases hk : k = i
  · subst hk
    rw [List.getElem?_set_self hlt] at hu
    cases hu
    exact hown link r hlink hr
  · rw [List.getElem?_set_ne (Ne.symm hk)] at hu
    exact hs.links k link u r hlink hu (hresults k hk ▸ hr)

/-- A step of the link `i`'s goroutine, which may give up its slot or its place in the group. -/
theorem Sound.work (hs : Sound E req s) (hi : s.jobs[i]? = some j) (j' : Job) (f : Result → Result) (hj : j ≠ .ahead)
    (hj' : j' ≠ .ahead) (hsem : j'.holding ≤ j.holding) (hwg : j'.open ≤ j.open)
    (hrank : j'.rank < j.rank) (hown : ∀ link r, req.links[i]? = some link → j.Holds E req i link r → j'.Holds E req i link (f r)) :
    Sound E req { s.work i j' f with sem := s.sem - (j.holding - j'.holding), wg := s.wg - (j.open - j'.open) } ∧
      weigh Job.rank (s.jobs.set i j') + s.walk.rank < s.rank := by
  have hheld := le_weigh Job.holding hi
  have hopen := le_weigh Job.open hi
  have hset := weigh_set Job.holding hi j'
  have hset' := weigh_set Job.open hi j'
  have hset'' := weigh_set Job.rank hi j'
  have hsem' := hs.sem
  have hslots := hs.slots
  have hwg' := hs.wg
  refine ⟨⟨(List.length_modify ..).trans hs.results, (List.length_set ..).trans hs.jobs, fun k => ?_, ?_, ?_, ?_, hs.walk,
    fun h => ?_, hs.links_set hi (fun k hk => List.getElem?_modify_ne _ _ (Ne.symm hk)) fun link r hlink hr => ?_⟩, ?_⟩
  · refine (set_ahead_iff hi hj' k).trans ((and_congr_right fun _ => hs.ahead k).trans ⟨fun h => h.2, fun h => ⟨?_, h⟩⟩)
    rintro rfl
    exact hj (Option.some.inj (hi.symm.trans ((hs.ahead k).mpr h)))
  · change s.sem - _ = weigh Job.holding (s.jobs.set i j')
    omega
  · change s.sem - _ ≤ _
    omega
  · change s.wg - _ = weigh Job.open (s.jobs.set i j')
    omega
  · have hzero := hs.closed h
    change s.wg - _ = 0
    omega
  · rw [State.work, List.getElem?_modify_eq] at hr
    obtain ⟨r', hr', rfl⟩ := Option.map_eq_some_iff.mp hr
    exact hown link r' hlink (hs.links i link j r' hlink hi hr')
  · rw [State.rank]
    omega

/-- The walk goes on to the next link. -/
theorem Sound.advance (hs : Sound E req s) {link : Text} (hwalk : s.walk = .loop) (hlink : req.links[s.next]? = some link)
    (j : Job) (r : Result) (hj : j ≠ .ahead) (hslots : s.sem + j.holding ≤ req.slots) (hrank : j.rank < 6)
    (hown : j.Holds E req s.next link r) :
    Sound E req { s.advance j r with sem := s.sem + j.holding, wg := s.wg + j.open } ∧
      weigh Job.rank (s.jobs.set s.next j) + s.walk.rank < s.rank := by
  obtain ⟨hlt, -⟩ := List.getElem?_eq_some_iff.mp hlink
  have hahead : s.jobs[s.next]? = some .ahead := (hs.ahead s.next).mpr ⟨Nat.le_refl _, hlt⟩
  have hset : weigh Job.holding (s.jobs.set s.next j) + 0 = _ := weigh_set Job.holding hahead j
  have hset' : weigh Job.open (s.jobs.set s.next j) + 0 = _ := weigh_set Job.open hahead j
  have hset'' : weigh Job.rank (s.jobs.set s.next j) + 6 = _ := weigh_set Job.rank hahead j
  have hsem := hs.sem
  have hwg := hs.wg
  refine ⟨⟨(List.length_set ..).trans hs.results, (List.length_set ..).trans hs.jobs, fun k => ?_, ?_, hslots, ?_,
    fun h => absurd hwalk h, (fun h => by cases hwalk.symm.trans h),
    hs.links_set hahead (fun k hk => List.getElem?_set_ne (Ne.symm hk)) fun link' r' hlink' hr => ?_⟩, ?_⟩
  · rw [State.advance, set_ahead_iff hahead hj, hs.ahead]
    change _ ↔ s.next + 1 ≤ k ∧ _
    omega
  · change s.sem + _ = weigh Job.holding (s.jobs.set s.next j)
    omega
  · change s.wg + _ = weigh Job.open (s.jobs.set s.next j)
    omega
  · have hresult : (s.results.set s.next r)[s.next]? = some r := List.getElem?_set_self (hs.results ▸ hlt)
    obtain rfl := Option.some.inj (hlink.symm.trans hlink')
    obtain rfl := Option.some.inj (hresult.symm.trans hr)
    exact hown
  · rw [State.rank]
    omega

theorem Sound.walk_step (hs : Sound E req s) (hstep : step E req s .walk = some s') : Sound E req s' ∧ s'.rank < s.rank := by
  dsimp only [step] at hstep
  split at hstep
  next hwalk hlink =>
    cases hstep
    refine ⟨⟨hs.results, hs.jobs, hs.ahead, hs.sem, hs.slots, hs.wg, fun _ => List.getElem?_eq_none_iff.mp hlink,
      (fun h => by cases h), hs.links⟩, ?_⟩
    rw [State.rank, State.rank, hwalk]
    exact Nat.lt_succ_self _
  next link hwalk hlink =>
    split at hstep
    next engine hplan =>
      cases hstep
      exact hs.advance hwalk hlink .uncarried _ (by rintro ⟨⟩) hs.slots (Nat.succ_pos 5) (Measured.uncarried hplan)
    next engine m hplan =>
      split at hstep
      next hfree =>
        cases hstep
        exact hs.advance hwalk hlink (.first m) _ (by rintro ⟨⟩) hfree (Nat.lt_succ_self 5) ⟨engine, hplan, rfl⟩
      · cases hstep
  next hwalk =>
    split at hstep
    next hzero =>
      cases hstep
      refine ⟨⟨hs.results, hs.jobs, hs.ahead, hs.sem, hs.slots, hs.wg, fun _ => hs.walk (by rw [hwalk]; decide),
        fun _ => hzero, hs.links⟩, ?_⟩
      rw [State.rank, State.rank, hwalk]
      exact Nat.lt_succ_self _
    · cases hstep
  · cases hstep

theorem Sound.step (hs : Sound E req s) {a : Act} (hstep : step E req s a = some s') :
    Sound E req s' ∧ s'.rank < s.rank := by
  cases a with
  | walk => exact hs.walk_step hstep
  | answer i a =>
      dsimp only [Pinger.step] at hstep
      split at hstep
      next m link hi hlink =>
        split at hstep
        next f hfalls =>
          cases hstep
          refine hs.work hi (.second f _) _ (by rintro ⟨⟩) (by rintro ⟨⟩) (Nat.le_refl 1) (Nat.le_refl 1) (Nat.lt_succ_self 4)
            fun link' r hlink' hholds => ?_
          obtain rfl := Option.some.inj (hlink.symm.trans hlink')
          obtain ⟨engine, hplan, rfl⟩ := hholds
          exact ⟨engine, m, a, hplan, hfalls, rfl, rfl⟩
        next hnone =>
          cases hstep
          refine hs.work hi (.report a _) id (by rintro ⟨⟩) (by rintro ⟨⟩) (Nat.le_refl 1) (Nat.le_refl 1) (Nat.le_succ 4)
            fun link' r hlink' hholds => ?_
          obtain rfl := Option.some.inj (hlink.symm.trans hlink')
          obtain ⟨engine, hplan, rfl⟩ := hholds
          exact ⟨engine, .once hplan hnone, rfl⟩
      next f calls link hi hlink =>
        cases hstep
        refine hs.work hi (.report a _) id (by rintro ⟨⟩) (by rintro ⟨⟩) (Nat.le_refl 1) (Nat.le_refl 1) (Nat.lt_succ_self 3)
          fun link' r hlink' hholds => ?_
        obtain rfl := Option.some.inj (hlink.symm.trans hlink')
        obtain ⟨engine, m, a₀, hplan, hfalls, rfl, rfl⟩ := hholds
        exact ⟨f.engine, .fellBack hplan hfalls, rfl⟩
      · cases hstep
  | go i =>
      dsimp only [Pinger.step] at hstep
      split at hstep
      next a calls hi =>
        cases hstep
        refine hs.work hi (.settled .slot calls) a.write (by rintro ⟨⟩) (by rintro ⟨⟩) (Nat.le_refl 1) (Nat.le_refl 1)
          (Nat.lt_succ_self 2) fun link r _ hholds => ?_
        obtain ⟨engine, hasked, rfl⟩ := hholds
        exact Measured.asked hasked
      next calls hi =>
        cases hstep
        exact hs.work hi (.settled .group calls) id (by rintro ⟨⟩) (by rintro ⟨⟩) (Nat.zero_le 1) (Nat.le_refl 1)
          (Nat.lt_succ_self 1) fun _ _ _ hholds => hholds
      next calls hi =>
        cases hstep
        exact hs.work hi (.settled .gone calls) id (by rintro ⟨⟩) (by rintro ⟨⟩) (Nat.le_refl 0) (Nat.zero_le 1)
          (Nat.lt_succ_self 0) fun _ _ _ hholds => hholds
      · cases hstep

theorem slots_pos (req : Request) : 0 < req.slots := by
  unfold Request.slots
  split
  · decide
  · omega

theorem holding_le_open (j : Job) : j.holding ≤ j.open := by
  cases j with
  | settled l calls => cases l <;> exact Nat.le_of_ble_eq_true rfl
  | _ => exact Nat.le_of_ble_eq_true rfl

/-- A goroutine that is not done can go on. -/
theorem Sound.job_moves (hs : Sound E req s) (hi : s.jobs[i]? = some j) (hopen : 0 < j.open) :
    ∃ a s', Pinger.step E req s a = some s' := by
  obtain ⟨hlt, -⟩ := List.getElem?_eq_some_iff.mp hi
  obtain ⟨link, hlink⟩ : ∃ link, req.links[i]? = some link := ⟨_, List.getElem?_eq_getElem (hs.jobs ▸ hlt)⟩
  cases j with
  | ahead | uncarried => cases hopen
  | first m => exact ⟨.answer i (.delay 0), _, by rw [Pinger.step, hi, hlink]; rfl⟩
  | second f calls => exact ⟨.answer i (.delay 0), _, by rw [Pinger.step, hi, hlink]⟩
  | report a calls => exact ⟨.go i, _, by rw [Pinger.step, hi]⟩
  | settled l calls =>
      cases l with
      | slot | group => exact ⟨.go i, _, by rw [Pinger.step, hi]⟩
      | gone => cases hopen

/-- Nothing blocks for good: where the walk waits for a slot or for the end, some goroutine goes on. -/
theorem Sound.progress (hs : Sound E req s) (hwalk : s.walk ≠ .returned) : ∃ a s', Pinger.step E req s a = some s' := by
  cases hw : s.walk with
  | returned => exact absurd hw hwalk
  | loop =>
      cases hlink : req.links[s.next]? with
      | none => exact ⟨.walk, _, by rw [Pinger.step, hw, hlink]⟩
      | some link =>
          cases hplan : plan E req link with
          | mk engine m =>
              cases m with
              | none => exact ⟨.walk, _, by rw [Pinger.step, hw, hlink]; dsimp only; rw [hplan]⟩
              | some m =>
                  by_cases hfree : s.sem < req.slots
                  · exact ⟨.walk, _, by rw [Pinger.step, hw, hlink]; dsimp only; rw [hplan]; exact if_pos hfree⟩
                  · have hpos := slots_pos req
                    have hsem := hs.sem
                    obtain ⟨i, j, hi, hj⟩ := exists_of_weigh_pos (f := Job.holding) (l := s.jobs) (by omega)
                    exact hs.job_moves hi (Nat.lt_of_lt_of_le hj (holding_le_open j))
  | wait =>
      by_cases hzero : s.wg = 0
      · exact ⟨.walk, _, by rw [Pinger.step, hw]; exact if_pos hzero⟩
      · have hwg := hs.wg
        obtain ⟨i, j, hi, hj⟩ := exists_of_weigh_pos (f := Job.open) (l := s.jobs) (by omega)
        exact hs.job_moves hi hj

/-- `Measure` has returned: each link has its own result, and no goroutine is left. -/
theorem Sound.measured (hs : Sound E req s) (hreturned : s.walk = .returned) {link : Text} (hlink : req.links[i]? = some link) :
    ∃ j r, s.jobs[i]? = some j ∧ s.results[i]? = some r ∧ Measured E req i link j.calls r := by
  have hover := hs.walk (by rw [hreturned]; decide)
  obtain ⟨hlt, -⟩ := List.getElem?_eq_some_iff.mp hlink
  obtain ⟨j, hj⟩ : ∃ j, s.jobs[i]? = some j := ⟨_, List.getElem?_eq_getElem (hs.jobs ▸ hlt)⟩
  obtain ⟨r, hr⟩ : ∃ r, s.results[i]? = some r := ⟨_, List.getElem?_eq_getElem (hs.results ▸ hlt)⟩
  have hdone : j.open = 0 := Nat.le_zero.mp (hs.closed hreturned ▸ hs.wg ▸ le_weigh Job.open hj)
  have hholds := hs.links i link j r hlink hj hr
  refine ⟨j, r, hj, hr, ?_⟩
  cases j with
  | ahead =>
      have hahead := (hs.ahead i).mp hj
      omega
  | uncarried => exact hholds
  | settled l calls => exact hholds
  | _ => cases hdone

end Step

theorem sound_init (E : Engines) (req : Request) : Sound E req (State.init req) where
  results := List.length_replicate ..
  jobs := List.length_replicate ..
  ahead := by
    intro i
    rw [State.init, List.getElem?_replicate]
    by_cases hlt : i < req.links.length
    · rw [if_pos hlt]
      exact ⟨fun _ => ⟨Nat.zero_le i, hlt⟩, fun _ => rfl⟩
    · rw [if_neg hlt]
      exact ⟨fun h => (by cases h), fun h => absurd h.2 hlt⟩
  sem := (weigh_replicate Job.holding _ .ahead).symm
  slots := Nat.zero_le _
  wg := (weigh_replicate Job.open _ .ahead).symm
  walk := fun h => absurd rfl h
  closed := fun h => by cases h
  links := by
    intro i link j r _ hj _
    rw [State.init, List.getElem?_replicate] at hj
    split at hj
    · cases hj
      trivial
    · cases hj

theorem rank_init (req : Request) : (State.init req).rank = 6 * req.links.length + 2 := by
  rw [State.rank, State.init, weigh_replicate, Nat.mul_comm]
  rfl

/-! ### A pinned engine -/

theorem fallsBack_pinned {E : Engines} {req : Request} {link : Text} (hpinned : req.pinned ≠ []) (a : Answer) :
    fallsBack E req link a = none := by
  unfold fallsBack
  split
  · exact if_neg hpinned
  · rfl

theorem Asked.engine_of_pinned {E : Engines} {req : Request} {link engine : Text} {calls : List (Call × Answer)} {a : Answer}
    (hpinned : req.pinned ≠ []) (h : Asked E req link engine calls a) : ∀ c ∈ calls, c.1.engine = req.pinned := by
  cases h with
  | once hplan hnone => exact List.forall_mem_singleton.mpr (Pinger.engine_of_pinned hpinned hplan)
  | fellBack hplan hfalls =>
      rw [fallsBack_pinned hpinned] at hfalls
      cases hfalls

theorem Job.Holds.engine_of_pinned {E : Engines} {req : Request} {i : Nat} {link : Text} {r : Result} {j : Job}
    (hpinned : req.pinned ≠ []) (h : j.Holds E req i link r) :
    (∀ c ∈ j.calls, c.1.engine = req.pinned) ∧ ∀ m ∈ j.calling, m.engine = req.pinned := by
  cases j with
  | ahead | uncarried => exact ⟨List.forall_mem_nil _, fun m hm => by cases hm⟩
  | first m =>
      obtain ⟨engine, hplan, -⟩ := h
      refine ⟨List.forall_mem_nil _, fun m' hm => ?_⟩
      cases hm
      exact Pinger.engine_of_pinned hpinned hplan
  | second f calls =>
      obtain ⟨engine, m, a, -, hfalls, -⟩ := h
      rw [fallsBack_pinned hpinned] at hfalls
      cases hfalls
  | report a calls =>
      obtain ⟨engine, hasked, -⟩ := h
      exact ⟨hasked.engine_of_pinned hpinned, fun m hm => by cases hm⟩
  | settled l calls =>
      refine ⟨?_, fun m hm => by cases hm⟩
      cases h with
      | uncarried hplan => exact List.forall_mem_nil _
      | asked hasked => exact hasked.engine_of_pinned hpinned

/-! ### Every run of `Measure` -/

/-- A goroutine in a call. -/
def Job.probes (j : Job) : Nat := j.calling.elim 0 fun _ => 1

theorem probes_le_holding (j : Job) : j.probes ≤ j.holding := by
  cases j with
  | settled l calls => exact Nat.zero_le _
  | _ => exact Nat.le_of_ble_eq_true rfl

/-- Every run of `Measure`, whatever the probes answer and in whatever order the goroutines go: no more than `slots` probes
are out at a time; it ends after a bounded number of steps, and until it has returned some step can be taken; what
it returns holds one result for each link, in the link's place, written from that link's own last answer; a refused link
is measured once more, on the fallback engine alone; and under a pinned engine no probe is made on another one. -/
theorem measure_settles (E : Engines) (req : Request) {acts : List Act} {s : State}
    (hrun : run E req (State.init req) acts = some s) :
    weigh Job.probes s.jobs ≤ req.slots ∧ acts.length ≤ 6 * req.links.length + 2 ∧
    (s.walk ≠ .returned → ∃ a s', step E req s a = some s') ∧
    (s.walk = .returned → s.results.length = req.links.length ∧ ∀ (i : Nat) (link : Text), req.links[i]? = some link →
      ∃ j r, s.jobs[i]? = some j ∧ s.results[i]? = some r ∧ Measured E req i link j.calls r) ∧
    (req.pinned ≠ [] → ∀ (i : Nat) (j : Job), s.jobs[i]? = some j →
      (∀ c ∈ j.calls, c.1.engine = req.pinned) ∧ ∀ m ∈ j.calling, m.engine = req.pinned) := by
  obtain ⟨hs, hrank⟩ := Runs.exec_rank State.rank (fun _ _ _ hs hstep => hs.step hstep) (sound_init E req) hrun
  rw [rank_init] at hrank
  refine ⟨?_, by omega, hs.progress, fun hreturned => ⟨hs.results, fun i link hlink => hs.measured hreturned hlink⟩,
    fun hpinned i j hj => ?_⟩
  · calc weigh Job.probes s.jobs ≤ weigh Job.holding s.jobs := weigh_le probes_le_holding _
      _ = s.sem := hs.sem.symm
      _ ≤ req.slots := hs.slots
  · obtain ⟨hlt, -⟩ := List.getElem?_eq_some_iff.mp hj
    obtain ⟨link, hlink⟩ : ∃ link, req.links[i]? = some link := ⟨_, List.getElem?_eq_getElem (hs.jobs ▸ hlt)⟩
    obtain ⟨r, hr⟩ : ∃ r, s.results[i]? = some r := ⟨_, List.getElem?_eq_getElem (hs.results ▸ hs.jobs ▸ hlt)⟩
    exact (hs.links i link j r hlink hj hr).engine_of_pinned hpinned

/-! ### The engines of a full build -/

def xrayMeasurer : EngineMeasurer where
  engine := "xray".toList
  carries := fun _ lower => ["vless://", "vmess://", "ss://", "trojan://"].any (·.toList.isPrefixOf lower)

def awgMeasurer : EngineMeasurer where
  engine := "awg".toList
  carries := matchAwgLink

def mihomoMeasurer : EngineMeasurer where
  engine := "mihomo".toList
  carries := fun trimmed lower =>
    ["vless://", "vmess://", "ss://", "trojan://", "hysteria2://", "hy2://", "tuic://", "anytls://", "awg://"].any
      (·.toList.isPrefixOf lower) || contains trimmed "[Interface]".toList

def fullBuild : Engines := ⟨[awgMeasurer, xrayMeasurer], some mihomoMeasurer⟩

/-- One slot, three links: xray refuses the first and mihomo answers it, no engine carries the second. -/
def mixedPool : Request := { links := ["vless://a".toList, "http://b".toList, "awg://c".toList], concurrency := 1 }

def mixedRun : List Act :=
  [.walk, .walk, .answer 0 (.failed true []), .answer 0 (.delay 12345678), .go 0, .go 0, .walk, .go 0,
   .answer 2 (.delay 7000000), .walk, .go 2, .go 2, .go 2, .walk]

def mixedResults : List Result :=
  [⟨0, "mihomo".toList, true, 12, []⟩, ⟨1, [], false, 0, "unsupported link scheme".toList⟩, ⟨2, "awg".toList, true, 7, []⟩]

theorem mixedRun_settled : ∃ s, run fullBuild mixedPool (State.init mixedPool) mixedRun = some s ∧ s.results = mixedResults ∧
    ∃ j r, s.jobs[0]? = some j ∧ s.results[0]? = some r ∧ Measured fullBuild mixedPool 0 "vless://a".toList j.calls r := by
  obtain ⟨s, hs, hreturned, hresults⟩ : ∃ s, run fullBuild mixedPool (State.init mixedPool) mixedRun = some s ∧
      s.walk = .returned ∧ s.results = mixedResults := ⟨_, rfl, rfl, rfl⟩
  exact ⟨s, hs, hresults, ((measure_settles fullBuild mixedPool hs).2.2.2.1 hreturned).2 0 _ rfl⟩

end GlitchCore.Pinger
