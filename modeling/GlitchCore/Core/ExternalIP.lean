import GlitchCore.Base.GoJson
import GlitchCore.Base.Interleaving

/-!
# The external-IP worker

The one worker that outlives its session: a stop must not wait for an HTTP fetch, so the worker carries a
generation and `setExternalIPState` drops what an older one produced. Two windows stay open. The worker
loads its config and its generation one after the other, and a configure or a stop between the two loads
gives a fetch of the old session the generation of the new one; and the event goes out after `ipFetchMu` is
released, where a stop can come before it. With both closed, a payload is always of the session it is stored
under and no event outlives the stop that ended its session.
-/

namespace GlitchCore.Core.ExternalIP

open GoText Interleaving

/-- A dial function is known by which session's tunnel it goes through. -/
structure IPResolveConfig where
  enabled : Bool := false
  urlV4 : Text := []
  urlV6 : Text := []
  skipV6 : Bool := false
  dial : Option Nat := none
  deriving DecidableEq

structure ExternalIPState where
  ipv4 : Text := []
  ipv6 : Text := []
  ipv4Error : Text := []
  ipv6Error : Text := []
  deriving DecidableEq

def defaultIPv4EchoURL : Text := "https://api.ipify.org".toList
def defaultIPv6EchoURL : Text := "https://api6.ipify.org".toList

def IPResolveConfig.withDefaults (cfg : IPResolveConfig) : IPResolveConfig :=
  { cfg with
    urlV4 := if cfg.urlV4 = [] then defaultIPv4EchoURL else cfg.urlV4
    urlV6 := if cfg.urlV6 = [] then defaultIPv6EchoURL else cfg.urlV6 }

def IPResolveConfig.fetches (cfg : IPResolveConfig) : Bool := cfg.enabled && cfg.dial.isSome

def ExternalIPState.marshal (st : ExternalIPState) : Text :=
  GoJson.encodeObject [("ipv4".toList, st.ipv4), ("ipv6".toList, st.ipv6),
    ("ipv4Error".toList, st.ipv4Error), ("ipv6Error".toList, st.ipv6Error)]

def unsupported : ExternalIPState :=
  { ipv4Error := "unsupported".toList, ipv6Error := "unsupported".toList }

/-- What the two attempts at each echo host come back with, error texts scrubbed. -/
structure Echo where
  v4 : Except Text Text × Except Text Text
  v6 : Except Text Text × Except Text Text

def fetchIPEchoRetry : Except Text Text × Except Text Text → Except Text Text
  | (.ok ip, _) => .ok ip
  | (.error _, last) => last

def fetchExternalIPs (cfg : IPResolveConfig) (echo : Echo) : ExternalIPState :=
  let v4 : ExternalIPState := match fetchIPEchoRetry echo.v4 with
    | .ok ip => { ipv4 := ip }
    | .error err => { ipv4Error := err }
  if cfg.skipV6 then { v4 with ipv6Error := "disabled".toList }
  else match fetchIPEchoRetry echo.v6 with
    | .ok ip => { v4 with ipv6 := ip }
    | .error err => { v4 with ipv6Error := err }

/-- A message on its way into `setExternalIPState`, with the config it was made with. -/
structure Payload where
  gen : Nat
  cfg : IPResolveConfig
  msg : Text
  deriving DecidableEq

/-- The last four fields are no state of the controller: they record what the runs are judged by. -/
structure Memory where
  ipGen : Nat := 0
  ipResolve : IPResolveConfig := {}
  ipStateJSON : Text := []
  ipFetchMu : Option Nat := none
  ipFetchBusy : Bool := false
  ipFetchAgain : Bool := false
  /-- The config of the configure that moved `ipGen` here; none where a stop did. -/
  installed : Nat → Option IPResolveConfig := fun _ => none
  stored : List (Nat × Payload) := []
  /-- Each event with the newest generation a returned stop had moved to. -/
  emitted : List (Nat × Payload) := []
  stopped : Nat := 0

/-- Where a thread stands; `worker` is whether `setExternalIPState` returns into the worker's loop. -/
inductive Place where
  | configureLock (cfg : IPResolveConfig)
  | configureBump (cfg : IPResolveConfig)
  | configureClear (cfg : IPResolveConfig) (gen : Nat)
  | configureStore (cfg : IPResolveConfig) (gen : Nat)
  | configureUnlock (cfg : IPResolveConfig) (gen : Nat)
  | stopLock
  | stopBump
  | stopStore (gen : Nat)
  | stopClear (gen : Nat)
  | stopUnlock (gen : Nat)
  | trigger
  | triggerLock
  | triggerBusy
  | triggerUnlock (go : Bool)
  | loadConfig
  | loadGen (cfg : IPResolveConfig)
  | fetch (cfg : IPResolveConfig) (gen : Nat)
  | setLock (worker : Bool) (p : Payload)
  | setCheck (worker : Bool) (p : Payload)
  | setUnlock (worker : Bool) (p : Payload) (fresh : Bool)
  | emit (worker : Bool) (p : Payload)
  | roundLock
  | roundCheck
  | roundUnlock (more : Bool)
  | done
  deriving DecidableEq

inductive Request where
  | configureIPResolve (cfg : IPResolveConfig)
  | stopIPResolve
  | triggerIPResolve

def Request.start : Request → Place
  | .configureIPResolve cfg => .configureLock cfg.withDefaults
  | .stopIPResolve => .stopLock
  | .triggerIPResolve => .trigger

def Memory.lock (m : Memory) (i : Nat) (next : Place) : Option (Memory × Place) :=
  if m.ipFetchMu = none then some ({ m with ipFetchMu := some i }, next) else none

def Memory.unlock (m : Memory) : Memory := { m with ipFetchMu := none }

def afterSet (worker : Bool) : Place := if worker then .roundLock else .done

def exec (i : Nat) (m : Memory) (t : Place) (echo : Echo) : Option (Memory × Place) :=
  match t with
  | .configureLock cfg => m.lock i (.configureBump cfg)
  | .configureBump cfg =>
      let gen := m.ipGen + 1
      some ({ m with ipGen := gen, installed := fun g => if g = gen then some cfg else m.installed g },
        .configureClear cfg gen)
  | .configureClear cfg gen => some ({ m with ipStateJSON := [] }, .configureStore cfg gen)
  | .configureStore cfg gen => some ({ m with ipResolve := cfg }, .configureUnlock cfg gen)
  | .configureUnlock cfg gen =>
      some (m.unlock, if cfg.enabled && cfg.dial.isNone then .setLock false ⟨gen, cfg, unsupported.marshal⟩ else .done)
  | .stopLock => m.lock i .stopBump
  | .stopBump => some ({ m with ipGen := m.ipGen + 1 }, .stopStore (m.ipGen + 1))
  | .stopStore gen => some ({ m with ipResolve := {} }, .stopClear gen)
  | .stopClear gen => some ({ m with ipStateJSON := [] }, .stopUnlock gen)
  -- the unlock is the last statement: with it `stopIPResolve` has returned
  | .stopUnlock gen => some ({ m.unlock with stopped := max m.stopped gen }, .done)
  | .trigger => some (m, if m.ipResolve.fetches then .triggerLock else .done)
  | .triggerLock => m.lock i .triggerBusy
  | .triggerBusy =>
      if m.ipFetchBusy then some ({ m with ipFetchAgain := true }, .triggerUnlock false)
      else some ({ m with ipFetchBusy := true }, .triggerUnlock true)
  | .triggerUnlock go => some (m.unlock, if go then .loadConfig else .done)
  | .loadConfig => some (m, .loadGen m.ipResolve)
  | .loadGen cfg => some (m, if cfg.fetches then .fetch cfg m.ipGen else .roundLock)
  | .fetch cfg gen => some (m, .setLock true ⟨gen, cfg, (fetchExternalIPs cfg echo).marshal⟩)
  | .setLock worker p => m.lock i (.setCheck worker p)
  -- the generation, the previous message and the store: all three only move under `ipFetchMu`
  | .setCheck worker p =>
      if m.ipGen ≠ p.gen ∨ m.ipStateJSON = p.msg then some (m, .setUnlock worker p false)
      else some ({ m with ipStateJSON := p.msg, stored := (m.ipGen, p) :: m.stored }, .setUnlock worker p true)
  | .setUnlock worker p fresh => some (m.unlock, if fresh then .emit worker p else afterSet worker)
  | .emit worker p => some ({ m with emitted := (m.stopped, p) :: m.emitted }, afterSet worker)
  | .roundLock => m.lock i .roundCheck
  | .roundCheck =>
      if m.ipFetchAgain then some ({ m with ipFetchAgain := false }, .roundUnlock true)
      else some ({ m with ipFetchBusy := false }, .roundUnlock false)
  | .roundUnlock more => some (m.unlock, if more then .loadConfig else .done)
  | .done => none

abbrev resolver : Program Memory Place Request Echo := ⟨Request.start, exec⟩

abbrev State := Config Memory Place
abbrev Action := Act Request Echo

def State.init : State := ⟨{}, []⟩

/-! ### What a superseded session must not do -/

/-- Every payload was stored under the generation of the configure whose config it was fetched with. -/
def StoredBySession (m : Memory) : Prop := ∀ r ∈ m.stored, m.installed r.1 = some r.2.cfg

/-- No event went out for a generation older than that of a stop that had returned. -/
def SilentAfterStop (m : Memory) : Prop := ∀ r ∈ m.emitted, r.1 ≤ r.2.gen

instance (m : Memory) : Decidable (StoredBySession m) := List.decidableBAll ..
instance (m : Memory) : Decidable (SilentAfterStop m) := List.decidableBAll ..

def tunnel (n : Nat) : IPResolveConfig := { enabled := true, dial := some n, skipV6 := true }

def answer : Echo := ⟨(.ok "192.0.2.7".toList, .ok []), (.ok [], .ok [])⟩

def proceed (i n : Nat) : List Action := List.replicate n (.run i answer)

/-- The worker of the first session loads its config; that session stops and another is configured; then the
worker loads the generation and stores what it fetched through the first tunnel. -/
def foreignFetch : List Action :=
  [.spawn (.configureIPResolve (tunnel 1)), .spawn .triggerIPResolve, .spawn .stopIPResolve,
    .spawn (.configureIPResolve (tunnel 2))] ++
    proceed 0 5 ++ proceed 1 5 ++ proceed 2 5 ++ proceed 3 5 ++ proceed 1 4

/-- A stop runs as a whole between the worker's store and its event. -/
def lateEvent : List Action :=
  [.spawn (.configureIPResolve (tunnel 1)), .spawn .triggerIPResolve, .spawn .stopIPResolve] ++
    proceed 0 5 ++ proceed 1 10 ++ proceed 2 5 ++ proceed 1 1

theorem superseded_session_escapes :
    (∃ s, resolver.Reaches (fun _ _ => True) State.init s ∧ ¬StoredBySession s.mem) ∧
      ∃ s, resolver.Reaches (fun _ _ => True) State.init s ∧ ¬SilentAfterStop s.mem := by
  obtain ⟨s, hs, hforeign⟩ : ∃ s, resolver.run (fun _ _ => True) State.init foreignFetch = some s ∧
      ¬StoredBySession s.mem := ⟨_, rfl, by decide⟩
  obtain ⟨s', hs', hlate⟩ : ∃ s, resolver.run (fun _ _ => True) State.init lateEvent = some s ∧
      ¬SilentAfterStop s.mem := ⟨_, rfl, by decide⟩
  exact ⟨⟨s, Program.reaches_of_run hs, hforeign⟩, s', Program.reaches_of_run hs', hlate⟩

/-- Between moving `ipGen` and storing the config that belongs to it. -/
def Place.installing : Place → Bool
  | .configureClear .. | .configureStore .. | .stopStore _ => true
  | _ => false

/-- Stored, with the event still to go out. -/
def Place.unsent : Place → Bool
  | .emit .. => true
  | _ => false

/-- The two moments that decide: a worker that will fetch loads the generation while the config it loaded is
still the one in place, and a stop returns when every stored payload's event is out. -/
def Place.Timely (s : State) : Place → Prop
  | .loadGen cfg => cfg.fetches = true → s.mem.ipResolve = cfg ∧ ∀ u ∈ s.threads, u.installing = false
  | .stopUnlock _ => ∀ u ∈ s.threads, u.unsent = false
  | _ => True

instance (s : State) (t : Place) : Decidable (t.Timely s) := by
  cases t <;> unfold Place.Timely <;> infer_instance

def TimelyStep (s : State) : Action → Prop
  | .spawn _ => True
  | .run i _ => ∀ t ∈ s.threads[i]?, t.Timely s

instance (s : State) : (a : Action) → Decidable (TimelyStep s a)
  | .spawn _ => instDecidableTrue
  | .run i _ => inferInstanceAs (Decidable (∀ t ∈ s.threads[i]?, t.Timely s))

/-! ### The lock -/

def Place.holds : Place → Bool
  | .configureBump _ | .configureClear .. | .configureStore .. | .configureUnlock .. | .stopBump | .stopStore _
  | .stopClear _ | .stopUnlock _ | .triggerBusy | .triggerUnlock _ | .setCheck .. | .setUnlock .. | .roundCheck
  | .roundUnlock _ => true
  | _ => false

def Place.locks : Place → Bool
  | .configureLock _ | .stopLock | .triggerLock | .setLock .. | .roundLock => true
  | _ => false

def Place.unlocks : Place → Bool
  | .configureUnlock .. | .stopUnlock _ | .triggerUnlock _ | .setUnlock .. | .roundUnlock _ => true
  | _ => false

section Step

variable {i : Nat} {m m' : Memory} {t t' : Place} {echo : Echo}

theorem exec_ipFetchMu (h : exec i m t echo = some (m', t')) :
    m'.ipFetchMu = if t.locks then some i else if t.unlocks then none else m.ipFetchMu := by
  cases t <;> grind -linarith [exec, Memory.lock, Memory.unlock, Place.locks, Place.unlocks]

theorem exec_waits (h : exec i m t echo = some (m', t')) (hlocks : t.locks = true) : m.ipFetchMu = none := by
  cases t <;> grind -linarith [exec, Memory.lock, Place.locks]

theorem exec_holds (h : exec i m t echo = some (m', t')) : t'.holds = (t.locks || t.holds && !t.unlocks) := by
  cases t <;> grind -linarith [exec, Memory.lock, afterSet, Place.holds, Place.locks, Place.unlocks]

theorem exec_ipGen : exec i m t echo = some (m', t') → m'.ipGen =
    match t with
    | .configureBump _ | .stopBump => m.ipGen + 1
    | _ => m.ipGen := by
  cases t <;> grind -linarith [exec, Memory.lock, Memory.unlock]

theorem exec_ipResolve : exec i m t echo = some (m', t') → m'.ipResolve =
    match t with
    | .configureStore cfg _ => cfg
    | .stopStore _ => {}
    | _ => m.ipResolve := by
  cases t <;> grind -linarith [exec, Memory.lock, Memory.unlock]

theorem exec_installed (g : Nat) : exec i m t echo = some (m', t') → m'.installed g =
    match t with
    | .configureBump cfg => if g = m.ipGen + 1 then some cfg else m.installed g
    | _ => m.installed g := by
  cases t <;> grind -linarith [exec, Memory.lock, Memory.unlock]

theorem exec_stopped : exec i m t echo = some (m', t') → m'.stopped =
    match t with
    | .stopUnlock gen => max m.stopped gen
    | _ => m.stopped := by
  cases t <;> grind -linarith [exec, Memory.lock, Memory.unlock]

theorem exec_stored : exec i m t echo = some (m', t') → m'.stored =
    match t with
    | .setCheck _ p => if m.ipGen ≠ p.gen ∨ m.ipStateJSON = p.msg then m.stored else (m.ipGen, p) :: m.stored
    | _ => m.stored := by
  cases t <;> grind -linarith [exec, Memory.lock, Memory.unlock]

theorem exec_emitted : exec i m t echo = some (m', t') → m'.emitted =
    match t with
    | .emit _ p => (m.stopped, p) :: m.emitted
    | _ => m.emitted := by
  cases t <;> grind -linarith [exec, Memory.lock, Memory.unlock]

theorem exec_installing : exec i m t echo = some (m', t') → t'.installing =
    match t with
    | .configureBump _ | .configureClear .. | .stopBump => true
    | _ => false := by
  cases t <;> grind -linarith [exec, Memory.lock, Memory.unlock, afterSet, Place.installing]

end Step

/-- The config in place is that of the generation in place. -/
def Settled (m : Memory) : Prop := m.ipResolve = (m.installed m.ipGen).getD {}

def Installed (m : Memory) (gen : Nat) (cfg : IPResolveConfig) : Prop :=
  gen ≤ m.ipGen ∧ m.installed gen = some cfg

/-- What a thread's place says about the memory. -/
def Place.Fact (m : Memory) : Place → Prop
  | .configureClear cfg gen | .configureStore cfg gen | .configureUnlock cfg gen =>
      m.ipGen = gen ∧ m.installed gen = some cfg
  | .stopStore gen | .stopClear gen | .stopUnlock gen => m.ipGen = gen ∧ m.installed gen = none
  | .fetch cfg gen => Installed m gen cfg
  | .setLock _ p | .setCheck _ p => Installed m p.gen p.cfg
  | .setUnlock _ p true | .emit _ p => m.stopped ≤ p.gen
  | _ => True

structure MemoryOk (m : Memory) : Prop where
  free : m.ipFetchMu = none → Settled m
  fresh : ∀ g, m.ipGen < g → m.installed g = none
  stopped : m.stopped ≤ m.ipGen
  past : ∀ r ∈ m.stored, r.1 ≤ m.ipGen
  stored : StoredBySession m
  silent : SilentAfterStop m

structure ThreadOk (i : Nat) (m : Memory) (t : Place) : Prop where
  holder : t.holds = true → m.ipFetchMu = some i
  settled : t.holds = true → t.installing = false → Settled m
  fact : t.Fact m

section Step

variable {i j : Nat} {m m' : Memory} {t t' u : Place} {echo : Echo}

/-- A configure's two stores under the lock end with the config of the new generation in place. -/
theorem Settled.step (hm : m'.ipFetchMu = none ∨ t'.holds = true ∧ t'.installing = false)
    (ht : ThreadOk i m t) (hfree : m.ipFetchMu = none → Settled m) (h : exec i m t echo = some (m', t')) : Settled m' := by
  have hmu := exec_ipFetchMu h
  have hwaits := exec_waits h
  have hholds := exec_holds h
  have hgen := exec_ipGen h
  have hcfg := exec_ipResolve h
  have hinst := fun g => exec_installed g h
  have hnext := exec_installing h
  obtain ⟨hholder, hsettled, hfact⟩ := ht
  cases t <;> grind -linarith [Place.holds, Place.locks, Place.unlocks, Place.installing, Place.Fact, Settled]

theorem MemoryOk.step (hm : MemoryOk m) (ht : ThreadOk i m t)
    (h : exec i m t echo = some (m', t')) : MemoryOk m' := by
  have hgen := exec_ipGen h
  have hinst := fun g => exec_installed g h
  have hfact := ht.fact
  refine ⟨fun hfree => Settled.step (.inl hfree) ht hm.free h, ?_, ?_, ?_, ?_, ?_⟩
  · have hfresh := hm.fresh
    cases t <;> grind -linarith
  · have hst := exec_stopped h
    have hstopped := hm.stopped
    cases t <;> grind -linarith [Place.Fact]
  · have hst := exec_stored h
    have hpast := hm.past
    cases t <;> grind -linarith
  · have hst := exec_stored h
    have hpast := hm.past
    have hstored := hm.stored
    unfold StoredBySession at *
    cases t <;> grind -linarith [Place.Fact, Installed]
  · have hst := exec_emitted h
    have hsilent := hm.silent
    unfold SilentAfterStop at *
    cases t <;> grind -linarith [Place.Fact]

/-- A generation's config stays what it was: a configure writes only at the generation it moves to. -/
theorem Installed.step {gen : Nat} {cfg : IPResolveConfig} (hin : Installed m gen cfg)
    (h : exec i m t echo = some (m', t')) : Installed m' gen cfg := by
  have hgen := exec_ipGen h
  have hinst := exec_installed gen h
  cases t <;> grind -linarith [Installed]

/-- What the thread that steps knows afterwards. Only the load of the generation needs its condition: there
the config loaded earlier becomes that of a generation. -/
theorem Place.Fact.step (hm : MemoryOk m) (ht : ThreadOk i m t)
    (hload : ∀ cfg, t = .loadGen cfg → cfg.fetches = true → m.installed m.ipGen = some cfg)
    (h : exec i m t echo = some (m', t')) : t'.Fact m' := by
  obtain ⟨hfree, hfresh, hstopped, -, -, -⟩ := hm
  obtain ⟨hholder, hsettled, hfact⟩ := ht
  have hgen := exec_ipGen h
  have hinst := fun g => exec_installed g h
  have hst := exec_stopped h
  cases t <;> grind -linarith [exec, Memory.lock, Memory.unlock, afterSet, Place.Fact, Installed]

theorem ThreadOk.step (hm : MemoryOk m) (ht : ThreadOk i m t)
    (hload : ∀ cfg, t = .loadGen cfg → cfg.fetches = true → m.installed m.ipGen = some cfg)
    (h : exec i m t echo = some (m', t')) : ThreadOk i m' t' := by
  refine ⟨?_, fun hh hi => Settled.step (.inr ⟨hh, hi⟩) ht hm.free h, Place.Fact.step hm ht hload h⟩
  have hholder := ht.holder
  have hmu := exec_ipFetchMu h
  have hwaits := exec_waits h
  have hholds := exec_holds h
  cases t <;> grind -linarith [Place.holds, Place.locks, Place.unlocks]

/-- A step without the lock leaves the generation, its config and the stops alone. -/
theorem exec_of_not_holds (hnot : t.holds = false) (h : exec i m t echo = some (m', t')) :
    m'.ipGen = m.ipGen ∧ m'.ipResolve = m.ipResolve ∧ m'.installed = m.installed ∧ m'.stopped = m.stopped := by
  refine ⟨?_, ?_, funext fun g => ?_, ?_⟩
  · have hgen := exec_ipGen h
    cases t <;> grind -linarith [Place.holds]
  · have hcfg := exec_ipResolve h
    cases t <;> grind -linarith [Place.holds]
  · have hinst := exec_installed g h
    cases t <;> grind -linarith [Place.holds]
  · have hst := exec_stopped h
    cases t <;> grind -linarith [Place.holds]

/-- What a thread outside the lock knows stays true, except that a stop may return before its event is out. -/
theorem Place.Fact.of_outside (hout : u.holds = false) (hfact : u.Fact m)
    (hstop : ∀ gen, t = .stopUnlock gen → u.unsent = false) (h : exec i m t echo = some (m', t')) : u.Fact m' := by
  cases u with
  | fetch cfg gen => exact Installed.step hfact h
  | setLock worker p => exact Installed.step hfact h
  | emit worker p =>
      have hst := exec_stopped h
      cases t <;> grind -linarith [Place.unsent, Place.Fact]
  | _ => trivial

theorem ThreadOk.other (hij : i ≠ j) (ht : ThreadOk i m t) (hu : ThreadOk j m u)
    (hstop : ∀ gen, t = .stopUnlock gen → u.unsent = false) (h : exec i m t echo = some (m', t')) :
    ThreadOk j m' u := by
  obtain ⟨hholder, hsettled, hfact⟩ := hu
  have htholder := ht.holder
  have hmu := exec_ipFetchMu h
  have hwaits := exec_waits h
  cases hh : u.holds with
  | false => exact ⟨by simp [hh], by simp [hh], hfact.of_outside hh hstop h⟩
  | true =>
      -- at most one of the two holds the lock
      have hnot : t.holds = false := by grind -linarith
      obtain ⟨hgen, hcfg, hinst, hst⟩ := exec_of_not_holds hnot h
      refine ⟨?_, fun _ hi => ?_, ?_⟩
      · cases t <;> grind -linarith [Place.holds, Place.locks, Place.unlocks]
      · have hset := hsettled hh hi
        rw [Settled] at hset ⊢
        rw [hcfg, hinst, hgen, hset]
      · cases u <;> simp_all [Place.Fact, Installed]

end Step

/-- The lock is held by a thread that stands inside it. -/
def Held (s : State) : Prop := ∀ i, s.mem.ipFetchMu = some i → ∃ t, s.threads[i]? = some t ∧ t.holds = true

theorem Held.step {s s' : State} {a : Action} (hheld : Held s) (hstep : resolver.step s a = some s') : Held s' := by
  intro j hj
  cases a with
  | spawn r =>
      cases hstep
      obtain ⟨t, ht, hh⟩ := hheld j hj
      exact ⟨t, List.getElem?_append_left (List.getElem?_eq_some_iff.mp ht).1 ▸ ht, hh⟩
  | run i echo =>
      obtain ⟨t, t', ht, hexec, hthreads⟩ := Program.step_run hstep
      have hmu := exec_ipFetchMu hexec
      have hholds := exec_holds hexec
      rw [hthreads, Program.getElem?_set_of_some ht]
      by_cases hji : j = i
      · refine ⟨t', if_pos hji, ?_⟩
        obtain ⟨u, hu, hh⟩ | hlocks : (∃ u, s.threads[j]? = some u ∧ u.holds = true) ∨ t.locks = true := by
          grind -linarith [Held]
        · grind -linarith
        · simp [hholds, hlocks]
      · rw [if_neg hji]
        exact hheld j (by grind -linarith)

/-- Everything the two promises rest on. -/
structure Sound (s : State) : Prop where
  held : Held s
  parts : Program.Holds MemoryOk ThreadOk s

theorem Sound.settled {s : State} (hs : Sound s) (hnone : ∀ u ∈ s.threads, u.installing = false) : Settled s.mem := by
  cases hmu : s.mem.ipFetchMu with
  | none => exact hs.parts.1.free hmu
  | some j =>
      obtain ⟨u, hu, hh⟩ := hs.held j hmu
      exact (hs.parts.2 j u hu).settled hh (hnone u (List.mem_of_getElem? hu))

/-- The config a timely worker loaded is that of the generation it now loads. -/
theorem Sound.loaded {s : State} (hs : Sound s) {cfg : IPResolveConfig}
    (htimely : (Place.loadGen cfg).Timely s) (hfetches : cfg.fetches = true) :
    s.mem.installed s.mem.ipGen = some cfg := by
  obtain ⟨hcfg, hnone⟩ := htimely hfetches
  have hset := hs.settled hnone
  rw [Settled, hcfg] at hset
  cases hinst : s.mem.installed s.mem.ipGen with
  | none =>
      rw [hinst] at hset
      rw [hset] at hfetches
      cases hfetches
  | some cfg' =>
      rw [hinst] at hset
      rw [hset]
      rfl

theorem ThreadOk.spawn (i : Nat) (m : Memory) (r : Request) : ThreadOk i m r.start := by
  cases r <;> exact ⟨by simp [Request.start, Place.holds], by simp [Request.start, Place.holds], trivial⟩

theorem Sound.step {s s' : State} {a : Action} (hs : Sound s) (hok : TimelyStep s a)
    (hstep : resolver.step s a = some s') : Sound s' := by
  refine ⟨hs.held.step hstep, Program.holds_step (fun i m r _ => ThreadOk.spawn i m r) ?_ ?_ hs.parts hstep⟩
  · intro i t echo m' t' ha ht hm hfact hexec
    subst ha
    refine ⟨hm.step hfact hexec, hfact.step hm (fun cfg hload hfetches => ?_) hexec⟩
    subst hload
    exact hs.loaded (hok _ ht) hfetches
  · intro i j t u echo m' t' ha hij ht hu hm hfact hother hexec
    subst ha
    refine hfact.other hij hother (fun gen hstop => ?_) hexec
    subst hstop
    exact hok _ ht u (List.mem_of_getElem? hu)

theorem Sound.init : Sound State.init :=
  ⟨by simp [Held, State.init],
    ⟨fun _ => rfl, fun _ _ => rfl, Nat.le_refl 0, by simp [State.init], by simp [StoredBySession, State.init],
      by simp [SilentAfterStop, State.init]⟩, by simp [State.init]⟩

/-- In every run of configures, stops, triggers and workers whose generation loads and stop returns are timely,
a payload is stored only under the generation whose config it was fetched with, and no event outlives a stop. -/
theorem nothing_escapes_session {s : State} (hreach : resolver.Reaches TimelyStep State.init s) :
    StoredBySession s.mem ∧ SilentAfterStop s.mem := by
  have hsound := hreach.invariant Sound Sound.init fun _ _ _ => Sound.step
  exact ⟨hsound.parts.1.stored, hsound.parts.1.silent⟩

/-- A session's address is stored and announced, then the session stops and the next one's is. -/
def twoSessions : List Action :=
  [.spawn (.configureIPResolve (tunnel 1)), .spawn .triggerIPResolve, .spawn .stopIPResolve,
    .spawn (.configureIPResolve (tunnel 2)), .spawn .triggerIPResolve] ++
    proceed 0 5 ++ proceed 1 14 ++ proceed 2 5 ++ proceed 3 5 ++ proceed 4 14

theorem nothing_escapes_session_twoSessions : ∃ s : State, resolver.Reaches TimelyStep State.init s ∧
    s.mem.stored.map Prod.fst = [3, 1] ∧ s.mem.emitted.map Prod.fst = [2, 0] ∧
    StoredBySession s.mem ∧ SilentAfterStop s.mem := by
  obtain ⟨s, hs, hends⟩ : ∃ s : State, resolver.run TimelyStep State.init twoSessions = some s ∧
      s.mem.stored.map Prod.fst = [3, 1] ∧ s.mem.emitted.map Prod.fst = [2, 0] := ⟨_, rfl, by decide⟩
  have hreach := Program.reaches_of_run hs
  exact ⟨s, hreach, hends.1, hends.2, nothing_escapes_session hreach⟩

end GlitchCore.Core.ExternalIP
