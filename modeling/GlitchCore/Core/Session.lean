import GlitchCore.Base.Interleaving
import Mathlib.Logic.Function.Basic
import Mathlib.Data.Fintype.Sets

/-!
# The session controller

Three engines share one controller: a session generation, an engine session each (`engineSession`), the
loops a session arms, the tun2socks bridge, and `coreMutex`. Requests come from any thread. A start's
handler and a stop's handler, and `clearSessionState` wherever it is called, run outside `coreMutex`; the
start and stop bodies and the staleness check of a start's tail run under it. A thread here is one request
from its handler to the end of its goroutine, cut at every access to what the threads share; a step is
one cut, an `Op` on the memory together with the place the thread goes to. Two accesses make one step only
where it makes no difference what comes between them: reads of what changes under `coreMutex` by a thread that
holds it, the end of an old loop with the arming of the new one, and a reply that is no lifecycle event with
the read that decides it.

What no access depends on is left open: a fallible call succeeds or fails as the schedule says.
-/

namespace GlitchCore.Core

open Interleaving

inductive EngineId where
  | xray
  | awg
  | mihomo
  deriving DecidableEq, Repr

instance : Fintype EngineId := ⟨{.xray, .awg, .mihomo}, fun e => by cases e <;> decide⟩

/-- The other two engines, in the order the engine's conflict checks read them. -/
def EngineId.others : EngineId → EngineId × EngineId
  | .xray => (.awg, .mihomo)
  | .awg => (.xray, .mihomo)
  | .mihomo => (.xray, .awg)

inductive Event where
  | connecting
  | connected
  | error
  | disconnecting
  | disconnected
  | alreadyRunning
  | conflictOtherCore
  | stopRejectedNotRunning
  deriving DecidableEq, Repr

/-- `startedBy` is kept for the statements only: the start that brought the instance up. -/
structure EngineSession where
  running : Bool
  startsInFlight : Nat
  instanceGen : Nat
  startedBy : Nat
  deriving DecidableEq, Repr

namespace EngineSession

@[grind]
def supersedes (s : EngineSession) (stopGen : Nat) : Bool := s.running && decide (stopGen ≤ s.instanceGen)

end EngineSession

/-- What a session keeps on the controller, in the order `endSessionLoops` takes it down: the two loops,
an enabled `ipResolveConfig` and `serverSelJSON`. -/
inductive Slot where
  | liveness
  | selWatch
  | ipResolve
  | serverSel
  deriving DecidableEq, Repr

instance : Fintype Slot := ⟨{.liveness, .selWatch, .ipResolve, .serverSel}, fun sl => by cases sl <;> decide⟩

@[grind]
def Slot.rank : Slot → Nat
  | .liveness => 0
  | .selWatch => 1
  | .ipResolve => 2
  | .serverSel => 3

@[grind]
def Slot.next : Slot → Option Slot
  | .liveness => some .selWatch
  | .selWatch => some .ipResolve
  | .ipResolve => some .serverSel
  | .serverSel => none

namespace Slot

variable {sl sl' : Slot}

@[grind →]
theorem rank_of_next (hnext : sl.next = some sl') : sl'.rank = sl.rank + 1 := by
  cases sl <;> cases hnext <;> rfl

@[grind →]
theorem rank_of_last (hnext : sl.next = none) : sl.rank = 3 := by
  cases sl <;> cases hnext
  rfl

theorem rank_inj (hrank : sl.rank = sl'.rank) : sl = sl' := by
  cases sl <;> cases sl' <;> first | rfl | cases hrank

theorem rank_le (sl : Slot) : sl.rank ≤ 3 := by
  cases sl <;> decide

end Slot

/-- What the threads share. A slot, the bridge and `ipStateJSON` hold the start they come from, `none` being
"not armed", "not running" and the empty text. The log is newest first. `stoppedGen` is kept for the
statements only: the newest generation a finished stop body of the engine carried. -/
structure Memory where
  sessionGen : Nat
  session : EngineId → EngineSession
  coreMutex : Option Nat
  slot : Slot → Option Nat
  ipStateJSON : Option Nat
  tun2socks : Option Nat
  log : List Event
  stoppedGen : EngineId → Nat

def Memory.init : Memory where
  sessionGen := 0
  session := fun _ => ⟨false, 0, 0, 0⟩
  coreMutex := none
  slot := fun _ => none
  ipStateJSON := none
  tun2socks := none
  log := []
  stoppedGen := fun _ => 0

/-! ### Accesses to the memory -/

inductive Op where
  | skip
  | emit (ev : Event)
  | lock
  | unlock
  | bump
  | clear (sl : Slot)
  | fill (sl : Slot)
  | storeIP
  | count (e : EngineId)
  | uncount (e : EngineId)
  | stopLocked (e : EngineId)
  | storeGen (e : EngineId) (mark : Nat)
  | up (e : EngineId)
  | rollback (e : EngineId) (bridge : Bool)
  | startBridge
  | stopBridge
  | endStop (e : EngineId) (stopGen : Nat)
  deriving DecidableEq, Repr

namespace Memory

def setSession (m : Memory) (e : EngineId) (f : EngineSession → EngineSession) : Memory :=
  { m with session := Function.update m.session e (f (m.session e)) }

/-- `stopIPResolve` and `configureIPResolve` empty `ipStateJSON` under the lock they write the
configuration under. -/
def setSlot (m : Memory) (sl : Slot) (v : Option Nat) : Memory :=
  { m with
    slot := Function.update m.slot sl v
    ipStateJSON := if sl = .ipResolve then none else m.ipStateJSON }

/-- `xrayStopLocked` stops the bridge whatever runs, `mihomoStopLocked` only with its engine. -/
def stopLocked (m : Memory) (e : EngineId) : Memory :=
  let down := m.setSession e fun s => { s with running := false }
  match e with
  | .xray => { down with tun2socks := none }
  | .awg => down
  | .mihomo => { down with tun2socks := if (m.session e).running then none else m.tun2socks }

end Memory

def Op.apply (i : Nat) (m : Memory) : Op → Memory
  | .skip => m
  | .emit ev => { m with log := ev :: m.log }
  | .lock => { m with coreMutex := some i }
  | .unlock => { m with coreMutex := none }
  | .bump => { m with sessionGen := m.sessionGen + 1 }
  | .clear sl => m.setSlot sl none
  | .fill sl => m.setSlot sl (some i)
  | .storeIP => { m with ipStateJSON := m.slot .ipResolve }
  | .count e => m.setSession e fun s => { s with startsInFlight := s.startsInFlight + 1 }
  | .uncount e => m.setSession e fun s => { s with startsInFlight := s.startsInFlight - 1 }
  | .stopLocked e => m.stopLocked e
  | .storeGen e mark => m.setSession e fun s => { s with instanceGen := mark }
  | .up e => m.setSession e fun s => { s with running := true, startedBy := i }
  | .rollback e bridge =>
      { m.setSession e (fun s => { s with running := false }) with
        tun2socks := if bridge then none else m.tun2socks }
  | .startBridge => { m with tun2socks := some i }
  | .stopBridge => { m with tun2socks := none }
  | .endStop e stopGen =>
      { m with
        coreMutex := none
        stoppedGen := Function.update m.stoppedGen e (max (m.stoppedGen e) stopGen) }

/-! ### Starts -/

/-- What of a start's options its accesses depend on: whether its TUN is bridged by tun2socks, whether its
links give a server selection to store and one to watch, and `resolveIP`. -/
structure StartOpts where
  bridge : Bool
  selection : Bool
  watch : Bool
  resolveIP : Bool
  deriving DecidableEq, Repr

/-- What a start body returns: `errSessionEnded`, another error, or no error. -/
inductive Result where
  | ended
  | failed
  | ok
  deriving DecidableEq, Repr

/-- How a fallible call ends. `failLate` is an xray start that fails at the bridge, the last of its
calls. -/
inductive Choice where
  | ok
  | fail
  | failLate
  deriving DecidableEq, Repr

/-- The places of a start body, all under `coreMutex`. -/
inductive BodyPc where
  | checkGen
  | checkRunning
  | endLoops (sl : Slot)
  | replace
  | others
  | build
  | bridge
  | storeGen
  | up
  | started
  | armLiveness
  | setServer
  | armWatch
  | configureIP
  | release (r : Result)
  deriving DecidableEq, Repr

/-- The places of a start: the handler up to `count`, the goroutine from there. -/
inductive StartPc where
  | conflict
  | conflictSecond
  | readGen
  | runsSession (gen : Nat)
  | runsInstance (gen : Nat)
  | replyAlready
  | opts
  | refuse
  | beginStart
  | count
  | pick
  | acquire
  | body (b : BodyPc)
  | clearGen
  | clearSlot (sl : Slot)
  | error
  | acquireTail
  | checkStale
  | endLoops (sl : Slot)
  | releaseStale
  | releaseFresh
  | connected
  | finish
  | done
  deriving DecidableEq, Repr

structure Start where
  engine : EngineId
  opts : StartOpts
  mark : Nat
  pc : StartPc
  deriving DecidableEq, Repr

namespace Start

/-- The start body: `prepareStartLocked`, then `xrayStart`, `awgStart` or `mihomoStart`. xray counts as
running before its instance is started and takes that back in `xrayRollback`; the other engines come up
last. -/
@[grind]
def planBody (m : Memory) (s : Start) (c : Choice) : BodyPc → Op × StartPc
  | .checkGen => (.skip, .body (if m.sessionGen = s.mark then .checkRunning else .release .ended))
  | .checkRunning =>
      -- the session's own instance is left running, one an earlier session left is replaced
      (.skip, .body (if (m.session s.engine).running = false then .others
        else if (m.session s.engine).instanceGen = s.mark then .release .ok
        else .endLoops .liveness))
  | .endLoops sl =>
      (.clear sl, .body (match sl.next with
        | some sl' => .endLoops sl'
        | none => .replace))
  | .replace => (.stopLocked s.engine, .body .others)
  | .others =>
      (.skip, .body (if (m.session s.engine.others.1).running || (m.session s.engine.others.2).running
        then .release .failed else .build))
  | .build =>
      (.skip, .body (if c ≠ .ok then .release .failed
        else if s.engine = .mihomo ∧ s.opts.bridge = true then .bridge else .storeGen))
  | .bridge => if c = .ok then (.startBridge, .body .storeGen) else (.stopBridge, .body (.release .failed))
  -- `engineSession.up`: the generation first, then the flag
  | .storeGen => (.storeGen s.engine s.mark, .body .up)
  | .up => (.up s.engine, .body (if s.engine = .xray then .started else .armLiveness))
  | .started =>
      if c = .ok then (if s.opts.bridge then .startBridge else .skip, .body .armLiveness)
      else (.rollback s.engine (s.opts.bridge && c = .failLate), .body (.release .failed))
  | .armLiveness => (.fill .liveness, .body .setServer)
  | .setServer => (if s.opts.selection then .fill .serverSel else .skip, .body .armWatch)
  | .armWatch => (if s.opts.watch && s.engine ≠ .awg then .fill .selWatch else .skip, .body .configureIP)
  | .configureIP => (if s.opts.resolveIP then .fill .ipResolve else .clear .ipResolve, .body (.release .ok))
  | .release r => (.unlock, if r = .ended then .finish else if r = .failed then .clearGen else .acquireTail)

/-- One step of a start: `HandleXrayStart`, `HandleAwgStart` or `HandleMihomoStart`, the goroutine with the
body and `finishStart`. awg's first conflict check waits for `coreMutex` (`xraySettledRunning`), and only
awg picks a link first. -/
@[grind]
def plan (m : Memory) (s : Start) (c : Choice) : Option (Op × Start) :=
  let goto (op : Op) (pc : StartPc) : Option (Op × Start) := some (op, { s with pc := pc })
  match s.pc with
  | .conflict =>
      if s.engine = .awg ∧ m.coreMutex ≠ none then none
      else if (m.session s.engine.others.1).running then goto (.emit .conflictOtherCore) .done
      else goto .skip .conflictSecond
  | .conflictSecond =>
      if (m.session s.engine.others.2).running then goto (.emit .conflictOtherCore) .done
      else goto .skip .readGen
  -- `runsSession(sessionGen.Load())`, load by load
  | .readGen => goto .skip (.runsSession m.sessionGen)
  | .runsSession gen => goto .skip (if (m.session s.engine).running then .runsInstance gen else .opts)
  | .runsInstance gen =>
      if (m.session s.engine).instanceGen = gen then goto (.emit .alreadyRunning) .replyAlready
      else goto .skip .opts
  | .replyAlready => goto (.emit .connected) .done
  | .opts => if c = .ok then goto (.emit .connecting) .beginStart else goto .skip .refuse
  | .refuse => goto (.emit .error) .done
  | .beginStart =>
      if c = .ok then some (.skip, { s with mark := m.sessionGen, pc := .count }) else goto .skip .refuse
  | .count => goto (.count s.engine) (if s.engine = .awg then .pick else .acquire)
  | .pick => goto .skip (if c = .ok then .acquire else .clearGen)
  | .acquire => if m.coreMutex = none then goto .lock (.body .checkGen) else none
  | .body b => goto (s.planBody m c b).1 (s.planBody m c b).2
  -- `clearSessionState`, then `EngineError`
  | .clearGen => goto .bump (.clearSlot .selWatch)
  | .clearSlot sl =>
      goto (.clear sl) (match sl.next with
        | some sl' => .clearSlot sl'
        | none => .error)
  | .error => goto (.emit .error) .finish
  -- `abortStaleEngineSession`
  | .acquireTail => if m.coreMutex = none then goto .lock .checkStale else none
  | .checkStale =>
      if m.sessionGen = s.mark then goto .skip .releaseFresh
      else if (m.session s.engine).running ∧ s.mark < (m.session s.engine).instanceGen then goto .skip .releaseStale
      else goto .skip (.endLoops .liveness)
  | .endLoops sl =>
      goto (.clear sl) (match sl.next with
        | some sl' => .endLoops sl'
        | none => .releaseStale)
  | .releaseStale => goto .unlock .finish
  | .releaseFresh => goto .unlock .connected
  | .connected => goto (.emit .connected) .finish
  | .finish => goto (.uncount s.engine) .done
  | .done => none

end Start

/-! ### Stops -/

/-- The places of a stop: the handler up to `disconnecting`, the goroutine from there. -/
inductive StopPc where
  | checkRunning
  | checkStarts
  | stopLiveness
  | clearGen
  | clearSlot (sl : Slot)
  | disconnecting
  | acquire
  | supersedes
  | teardown
  | release (stopped : Bool)
  | disconnected
  | done
  deriving DecidableEq, Repr

structure Stop where
  engine : EngineId
  gen : Nat
  pc : StopPc
  deriving DecidableEq, Repr

/-- One step of `stopEngineSession` and, from `acquire` on, of its goroutine with `stopEngineInstance`. The
first two places are the loads of `engaged`. -/
@[grind]
def Stop.plan (m : Memory) (s : Stop) : Option (Op × Stop) :=
  let goto (op : Op) (pc : StopPc) : Option (Op × Stop) := some (op, { s with pc := pc })
  match s.pc with
  | .checkRunning => goto .skip (if (m.session s.engine).running then .stopLiveness else .checkStarts)
  | .checkStarts =>
      if 0 < (m.session s.engine).startsInFlight then goto .skip .stopLiveness
      else goto (.emit .stopRejectedNotRunning) .done
  | .stopLiveness => goto (.clear .liveness) .clearGen
  -- `clearSessionState`, which returns the generation it moved to
  | .clearGen => some (.bump, { s with gen := m.sessionGen + 1, pc := .clearSlot .selWatch })
  | .clearSlot sl =>
      goto (.clear sl) (match sl.next with
        | some sl' => .clearSlot sl'
        | none => .disconnecting)
  | .disconnecting => goto (.emit .disconnecting) .acquire
  | .acquire => if m.coreMutex = none then goto .lock .supersedes else none
  | .supersedes =>
      goto .skip (if (m.session s.engine).supersedes s.gen then .release false else .teardown)
  | .teardown => goto (.stopLocked s.engine) (.release true)
  | .release stopped => goto (.endStop s.engine s.gen) (if stopped then .disconnected else .done)
  | .disconnected => goto (.emit .disconnected) .done
  | .done => none

end GlitchCore.Core
