import GlitchCore.Base.Fields
import GlitchCore.Base.Runs

/-!
# The link state

The liveness loop probes the tunnel, or reads the counters of the WireGuard device, once per tick of its timer. A tracker
turns the outcomes into a state: one success is enough for up, `DownAfter` failures in a row for down. The loop publishes
the state for the stats event, and asks for the external address each time the link comes up. A stop closes `quit`, waits
for the loop and takes the state back.
-/

namespace GlitchCore.Core.Link

open GoText

/-! ### The tracker -/

inductive LinkState where
  | unknown
  | up
  | down
  deriving DecidableEq

structure Tracker where
  downAfter : Int := 0
  state : LinkState := .unknown
  fails : Nat := 0

/-- The method `downAfter`, with its default. -/
def Tracker.limit (t : Tracker) : Nat := if 0 < t.downAfter then t.downAfter.toNat else 2

def Tracker.observeSuccess (t : Tracker) : Tracker × Bool := ({ t with fails := 0, state := .up }, decide (t.state ≠ .up))

def Tracker.observeFailure (t : Tracker) : Tracker × Bool :=
  if t.fails + 1 < t.limit ∧ t.state ≠ .down then ({ t with fails := t.fails + 1 }, false)
  else ({ t with fails := t.fails + 1, state := .down }, decide (t.state ≠ .down))

structure WGSample where
  rxDelta : UInt64
  txDelta : UInt64
  handshakeAge : Int
  hasHandshake : Bool

/-- In nanoseconds. -/
def handshakeFresh : Int := 180000000000

def Tracker.observeWG (t : Tracker) (s : WGSample) : Tracker × Bool :=
  if 0 < s.rxDelta then t.observeSuccess
  else if s.hasHandshake ∧ s.handshakeAge < handshakeFresh then t.observeSuccess
  else if 0 < s.txDelta then t.observeFailure
  else (t, false)

/-! ### The counters of the device -/

/-- The `key=value` fields of a dump. -/
def dumpFields (dump : Text) : List (Text × Text) :=
  (split '\n' dump).flatMap fun line => (fieldsFunc isSpace line).filterMap (cut '=')

def parseUint64 (s : Text) : Option UInt64 :=
  ((decimal s).filter fun n => decide (n < 18446744073709551616)).map UInt64.ofNat

def sumRxTx (dump : Text) : UInt64 × UInt64 :=
  (dumpFields dump).foldl (fun (sum : UInt64 × UInt64) kv =>
    if kv.1 = "rx_bytes".toList then ((parseUint64 kv.2).elim sum.1 (sum.1 + ·), sum.2)
    else if kv.1 = "tx_bytes".toList then (sum.1, (parseUint64 kv.2).elim sum.2 (sum.2 + ·))
    else sum) (0, 0)

def lastHandshakeUnix (dump : Text) : Int :=
  (dumpFields dump).foldl (fun newest kv =>
    if kv.1 = "last_handshake_time_sec".toList then (atoi kv.2).elim newest fun n => if newest < n then n else newest
    else newest) 0

/-- `time.Since` of a time outside what a duration can say. -/
def clampDuration (ns : Int) : Int :=
  if ns < -9223372036854775808 then -9223372036854775808 else if 9223372036854775807 < ns then 9223372036854775807 else ns

structure Sampler where
  lastRx : UInt64 := 0
  lastTx : UInt64 := 0
  seeded : Bool := false

/-- `awgPassiveSampler`'s reading of a dump at `now`, in nanoseconds. -/
def Sampler.sample (p : Sampler) (now : Int) (dump : Text) : Sampler × WGSample :=
  let counters := sumRxTx dump
  let hs := lastHandshakeUnix dump
  ({ lastRx := counters.1, lastTx := counters.2, seeded := true },
   { hasHandshake := decide (0 < hs)
     handshakeAge := if 0 < hs then clampDuration (now - hs * 1000000000) else 0
     rxDelta := if p.seeded ∧ p.lastRx ≤ counters.1 then counters.1 - p.lastRx else 0
     txDelta := if p.seeded ∧ p.lastTx ≤ counters.2 then counters.2 - p.lastTx else 0 })

/-! ### The loop and its stop -/

/-- What a tick of the timer found: the probe's answer, or the device's dump. -/
inductive Round where
  | probed (elapsed : Int)
  | failed
  | read (now : Int) (dump : Text)
  | unreadable

inductive LoopPlace where
  | select
  | publish
  | ended
  deriving DecidableEq

inductive StopPlace where
  | none
  | closed
  | joined
  | cleared
  | returned
  deriving DecidableEq

/-- `rounds` records what the loop has taken as a round. -/
structure State where
  tracker : Tracker := {}
  sampler : Sampler := {}
  linkState : LinkState := .unknown
  linkProbeMs : Int := -1
  resolves : Nat := 0
  timer : Int := 5000000000
  place : LoopPlace := .select
  quit : Bool := false
  stop : StopPlace := .none
  rounds : List Round := []

def quickLivenessInterval : Int := 5000000000

inductive Act where
  | round (r : Round)
  | publish
  | leave
  | closeQuit
  | join
  | clearState
  | clearProbe

/-- A round up to its `linkState.Store`. One that failed once `quit` is closed ends the loop: it was cancelled by the
stop and says nothing about the link. -/
def State.observe (s : State) : Round → State
  | .probed elapsed =>
      { s with
        tracker := s.tracker.observeSuccess.1
        linkProbeMs := elapsed.tdiv 1000000
        resolves := s.resolves + s.tracker.observeSuccess.2.toNat
        place := .publish
        rounds := s.rounds ++ [.probed elapsed] }
  | .failed =>
      if s.quit then { s with place := .ended }
      else { s with tracker := s.tracker.observeFailure.1, place := .publish, rounds := s.rounds ++ [.failed] }
  | .read now dump =>
      let out := s.tracker.observeWG (s.sampler.sample now dump).2
      { s with
        tracker := out.1
        sampler := (s.sampler.sample now dump).1
        resolves := s.resolves + (out.2 && out.1.state == .up).toNat
        place := .publish
        rounds := s.rounds ++ [.read now dump] }
  | .unreadable =>
      if s.quit then { s with place := .ended }
      else { s with place := .publish, rounds := s.rounds ++ [.unreadable] }

def step (interval : Int) (s : State) : Act → Option State
  | .round r => if s.place = .select then some (s.observe r) else none
  | .publish =>
      if s.place = .publish then
        some { s with
          linkState := if s.tracker.state ≠ .unknown then s.tracker.state else s.linkState
          timer := if s.tracker.state ≠ .up then quickLivenessInterval else interval
          place := .select }
      else none
  | .leave => if s.place = .select ∧ s.quit = true then some { s with place := .ended } else none
  -- `stopLiveness`
  | .closeQuit => if s.stop = .none then some { s with quit := true, stop := .closed } else none
  | .join => if s.stop = .closed ∧ s.place = .ended then some { s with stop := .joined } else none
  | .clearState => if s.stop = .joined then some { s with linkState := .unknown, stop := .cleared } else none
  | .clearProbe => if s.stop = .cleared then some { s with linkProbeMs := -1, stop := .returned } else none

def run (interval : Int) (s : State) (acts : List Act) : Option State := Runs.exec (step interval) s acts

/-- Up, the last probe and whether there is a verdict. -/
def State.livenessSnapshot (s : State) : Bool × Int × Bool :=
  if s.linkState = .unknown then (false, -1, false) else (s.linkState == .up, s.linkProbeMs, true)

/-! ### What the outcomes say -/

/-- The failures since the last success. -/
def trailing (verdicts : List Bool) : Nat := (verdicts.reverse.takeWhile (!·)).length

/-- The state after these verdicts. -/
def linkOf (limit : Nat) (verdicts : List Bool) : LinkState :=
  if limit ≤ trailing verdicts then .down else if true ∈ verdicts then .up else .unknown

/-- How often these verdicts brought the link up. -/
def timesUp (limit : Nat) (verdicts : List Bool) : Nat :=
  verdicts.inits.countP fun l => linkOf limit l == .up && linkOf limit l.dropLast != .up

/-- A reading speaks for the link when more was received than at the last one or a handshake is fresh, against it when
only more was sent. -/
def readVerdict (last : Option (UInt64 × UInt64)) (now : Int) (dump : Text) : Option Bool :=
  if last.any (fun c => c.1 < (sumRxTx dump).1) = true ∨
      0 < lastHandshakeUnix dump ∧ now - lastHandshakeUnix dump * 1000000000 < handshakeFresh then some true
  else if last.any (fun c => c.2 < (sumRxTx dump).2) = true then some false
  else none

def Round.verdict (last : Option (UInt64 × UInt64)) : Round → Option Bool
  | .probed _ => some true
  | .failed => some false
  | .read now dump => readVerdict last now dump
  | .unreadable => none

def Round.counters (last : Option (UInt64 × UInt64)) : Round → Option (UInt64 × UInt64)
  | .read _ dump => some (sumRxTx dump)
  | _ => last

def lastRead (rounds : List Round) : Option (UInt64 × UInt64) := rounds.foldl Round.counters none

/-- The verdicts of a history, with the counters of the last dump before it. -/
def verdictsFrom : Option (UInt64 × UInt64) → List Round → List Bool
  | _, [] => []
  | last, r :: rest => (r.verdict last).toList ++ verdictsFrom (r.counters last) rest

def verdicts (rounds : List Round) : List Bool := verdictsFrom none rounds

/-- The last successful probe, in milliseconds. -/
def probeMs (rounds : List Round) : Int :=
  rounds.foldl (fun ms r => match r with | .probed elapsed => elapsed.tdiv 1000000 | _ => ms) (-1)

theorem verdictsFrom_append (last : Option (UInt64 × UInt64)) (rounds : List Round) (r : Round) :
    verdictsFrom last (rounds ++ [r]) = verdictsFrom last rounds ++ (r.verdict (rounds.foldl Round.counters last)).toList := by
  induction rounds generalizing last with
  | nil =>
      rw [List.nil_append, verdictsFrom, verdictsFrom, verdictsFrom, List.append_nil]
      rfl
  | cons x rest ih =>
      rw [List.cons_append, verdictsFrom, verdictsFrom, ih, List.append_assoc]
      rfl

theorem verdicts_append (rounds : List Round) (r : Round) :
    verdicts (rounds ++ [r]) = verdicts rounds ++ (r.verdict (lastRead rounds)).toList :=
  verdictsFrom_append none rounds r

theorem trailing_success (l : List Bool) : trailing (l ++ [true]) = 0 := by
  rw [trailing, List.reverse_append]
  rfl

theorem trailing_failure (l : List Bool) : trailing (l ++ [false]) = trailing l + 1 := by
  rw [trailing, List.reverse_append]
  rfl

theorem linkOf_success {limit : Nat} (hpos : 0 < limit) (l : List Bool) : linkOf limit (l ++ [true]) = .up := by
  rw [linkOf, trailing_success, if_neg (by omega), if_pos (List.mem_append_right _ (List.mem_singleton_self _))]

theorem linkOf_failure (limit : Nat) (l : List Bool) :
    linkOf limit (l ++ [false]) = if limit ≤ trailing l + 1 then .down else linkOf limit l := by
  have hmem : true ∈ l ++ [false] ↔ true ∈ l := by
    rw [List.mem_append, List.mem_singleton]
    exact or_iff_left Bool.noConfusion
  rw [linkOf, trailing_failure]
  by_cases hle : limit ≤ trailing l + 1
  · rw [if_pos hle, if_pos hle]
  · have hlt : ¬ limit ≤ trailing l := by omega
    rw [if_neg hle, if_neg hle, linkOf, if_neg hlt]
    exact if_congr hmem rfl rfl

theorem linkOf_eq_down (limit : Nat) (l : List Bool) : linkOf limit l = .down ↔ limit ≤ trailing l := by
  unfold linkOf
  split
  · exact ⟨fun _ => ‹_›, fun _ => rfl⟩
  · split
    · exact ⟨fun h => (by cases h), fun h => absurd h ‹_›⟩
    · exact ⟨fun h => (by cases h), fun h => absurd h ‹_›⟩

theorem linkOf_unknown_of_append {limit : Nat} (hpos : 0 < limit) {l : List Bool} {v : Option Bool}
    (h : linkOf limit (l ++ v.toList) = .unknown) : linkOf limit l = .unknown := by
  cases v with
  | none => rwa [Option.toList_none, List.append_nil] at h
  | some b =>
      cases b with
      | true => cases (linkOf_success hpos l).symm.trans h
      | false =>
          rw [Option.toList_some, linkOf_failure] at h
          split at h
          · cases h
          · exact h

theorem linkOf_dropLast_unknown {limit : Nat} (hpos : 0 < limit) {rounds : List Round}
    (h : linkOf limit (verdicts rounds) = .unknown) : linkOf limit (verdicts rounds.dropLast) = .unknown := by
  obtain rfl | ⟨rest, r, rfl⟩ := List.eq_nil_or_concat' rounds
  · exact h
  · rw [List.dropLast_concat]
    rw [verdicts_append] at h
    exact linkOf_unknown_of_append hpos h

/-! ### The tracker follows the verdicts -/

def Tracker.Follows (t : Tracker) (l : List Bool) : Prop := t.fails = trailing l ∧ t.state = linkOf t.limit l

theorem Tracker.limit_pos (t : Tracker) : 0 < t.limit := by
  unfold Tracker.limit
  split
  · omega
  · decide

theorem Tracker.follows_success (t : Tracker) (l : List Bool) : t.observeSuccess.1.Follows (l ++ [true]) :=
  ⟨(trailing_success l).symm, (linkOf_success t.limit_pos l).symm⟩

theorem Tracker.Follows.failure {t : Tracker} {l : List Bool} (h : t.Follows l) :
    t.observeFailure.1.Follows (l ++ [false]) ∧ t.observeFailure.1.limit = t.limit := by
  obtain ⟨hfails, hstate⟩ := h
  have hfails' : t.fails + 1 = trailing (l ++ [false]) := by rw [trailing_failure, hfails]
  unfold Tracker.observeFailure
  by_cases hsoon : t.fails + 1 < t.limit ∧ t.state ≠ .down
  · rw [if_pos hsoon]
    refine ⟨⟨hfails', ?_⟩, rfl⟩
    change t.state = linkOf t.limit (l ++ [false])
    rw [linkOf_failure, if_neg (by omega), hstate]
  · rw [if_neg hsoon]
    refine ⟨⟨hfails', ?_⟩, rfl⟩
    change LinkState.down = linkOf t.limit (l ++ [false])
    rw [linkOf_failure, if_pos]
    -- a link that is down already has its failures behind it
    by_cases hdown : t.state = .down
    · have hle := (linkOf_eq_down _ _).mp (hstate.symm.trans hdown)
      omega
    · have hle : ¬ t.fails + 1 < t.limit := fun hlt => hsoon ⟨hlt, hdown⟩
      omega

theorem clampDuration_lt_iff (ns : Int) : clampDuration ns < handshakeFresh ↔ ns < handshakeFresh := by
  unfold clampDuration handshakeFresh
  split
  · omega
  · split
    · omega
    · exact Iff.rfl

/-- The sampler keeps the counters of the last dump. -/
def Sampler.Keeps (p : Sampler) (last : Option (UInt64 × UInt64)) : Prop :=
  last = if p.seeded = true then some (p.lastRx, p.lastTx) else none

theorem delta_pos_iff {seeded : Bool} {a b : UInt64} :
    0 < (if seeded = true ∧ a ≤ b then b - a else 0) ↔ seeded = true ∧ a < b := by
  by_cases hle : seeded = true ∧ a ≤ b
  · rw [if_pos hle, UInt64.lt_iff_toNat_lt, UInt64.lt_iff_toNat_lt, UInt64.toNat_sub_of_le _ _ hle.2]
    have hle' : a.toNat ≤ b.toNat := UInt64.le_iff_toNat_le.mp hle.2
    change 0 < b.toNat - a.toNat ↔ _
    constructor
    · intro h
      exact ⟨hle.1, by omega⟩
    · intro h
      exact Nat.sub_pos_of_lt h.2
  · rw [if_neg hle]
    exact ⟨fun h => absurd h (UInt64.lt_irrefl 0), fun h => absurd ⟨h.1, UInt64.le_of_lt h.2⟩ hle⟩

theorem Sampler.Keeps.any_iff {p : Sampler} {last : Option (UInt64 × UInt64)} (h : p.Keeps last) (f : UInt64 × UInt64 → Bool) :
    last.any f = true ↔ p.seeded = true ∧ f (p.lastRx, p.lastTx) = true := by
  rw [h]
  by_cases hseeded : p.seeded = true
  · rw [if_pos hseeded]
    exact ⟨fun hf => ⟨hseeded, hf⟩, fun hf => hf.2⟩
  · rw [if_neg hseeded]
    exact ⟨fun hf => (by cases hf), fun hf => absurd hf.1 hseeded⟩

def Tracker.observe (t : Tracker) : Option Bool → Tracker × Bool
  | some true => t.observeSuccess
  | some false => t.observeFailure
  | none => (t, false)

/-- One look at the device is its verdict. -/
theorem observeWG_eq {p : Sampler} {last : Option (UInt64 × UInt64)} (h : p.Keeps last) (t : Tracker) (now : Int) (dump : Text) :
    t.observeWG (p.sample now dump).2 = t.observe (readVerdict last now dump) := by
  have hrx : 0 < (p.sample now dump).2.rxDelta ↔ last.any (fun c => c.1 < (sumRxTx dump).1) = true := by
    rw [h.any_iff, decide_eq_true_iff]
    exact delta_pos_iff
  have htx : 0 < (p.sample now dump).2.txDelta ↔ last.any (fun c => c.2 < (sumRxTx dump).2) = true := by
    rw [h.any_iff, decide_eq_true_iff]
    exact delta_pos_iff
  have hfresh : (p.sample now dump).2.hasHandshake = true ∧ (p.sample now dump).2.handshakeAge < handshakeFresh ↔
      0 < lastHandshakeUnix dump ∧ now - lastHandshakeUnix dump * 1000000000 < handshakeFresh := by
    change decide (0 < lastHandshakeUnix dump) = true ∧ (if 0 < lastHandshakeUnix dump then _ else _) < _ ↔ _
    rw [decide_eq_true_iff]
    refine and_congr_right fun hpos => ?_
    rw [if_pos hpos, clampDuration_lt_iff]
  unfold Tracker.observeWG readVerdict
  by_cases hrx' : 0 < (p.sample now dump).2.rxDelta
  · rw [if_pos hrx', if_pos (.inl (hrx.mp hrx'))]
    rfl
  · by_cases hfresh' : (p.sample now dump).2.hasHandshake = true ∧ (p.sample now dump).2.handshakeAge < handshakeFresh
    · rw [if_neg hrx', if_pos hfresh', if_pos (.inr (hfresh.mp hfresh'))]
      rfl
    · have hnone : ¬ (last.any (fun c => c.1 < (sumRxTx dump).1) = true ∨
          0 < lastHandshakeUnix dump ∧ now - lastHandshakeUnix dump * 1000000000 < handshakeFresh) :=
        not_or.mpr ⟨fun hc => hrx' (hrx.mpr hc), fun hc => hfresh' (hfresh.mpr hc)⟩
      rw [if_neg hrx', if_neg hfresh', if_neg hnone]
      by_cases htx' : 0 < (p.sample now dump).2.txDelta
      · rw [if_pos htx', if_pos (htx.mp htx')]
        rfl
      · rw [if_neg htx', if_neg fun hc => htx' (htx.mpr hc)]
        rfl

theorem timesUp_append (limit : Nat) (l : List Bool) (v : Bool) :
    timesUp limit (l ++ [v]) = timesUp limit l + (linkOf limit (l ++ [v]) == .up && linkOf limit l != .up).toNat := by
  have hinits : (l ++ [v]).inits = l.inits ++ [l ++ [v]] := by rw [List.inits_append]; rfl
  rw [timesUp, hinits, List.countP_append, List.countP_singleton, List.dropLast_concat, timesUp]
  cases linkOf limit (l ++ [v]) == .up && linkOf limit l != .up <;> rfl

/-- The tracker and the number of times the external address was asked for, after some verdicts. -/
structure Tally (limit : Nat) (t : Tracker) (resolves : Nat) (l : List Bool) : Prop where
  bound : t.limit = limit
  follows : t.Follows l
  asked : resolves = timesUp limit l

theorem Tally.success {limit resolves : Nat} {t : Tracker} {l : List Bool} (h : Tally limit t resolves l) :
    Tally limit t.observeSuccess.1 (resolves + t.observeSuccess.2.toNat) (l ++ [true]) := by
  obtain ⟨rfl, ⟨-, hstate⟩, rfl⟩ := h
  refine ⟨rfl, t.follows_success l, ?_⟩
  have hchanged : t.observeSuccess.2 = (linkOf t.limit l != .up) := by
    rw [← hstate, Tracker.observeSuccess]
    cases t.state <;> rfl
  rw [timesUp_append, linkOf_success t.limit_pos, hchanged, beq_self_eq_true, Bool.true_and]

theorem Tally.failure {limit resolves : Nat} {t : Tracker} {l : List Bool} (h : Tally limit t resolves l) :
    Tally limit t.observeFailure.1 resolves (l ++ [false]) := by
  obtain ⟨rfl, hfollows, rfl⟩ := h
  obtain ⟨hfollows', hlimit⟩ := hfollows.failure
  refine ⟨hlimit, hfollows', ?_⟩
  -- a link that is up after a failure was up before it
  have hsame : (linkOf t.limit (l ++ [false]) == .up && linkOf t.limit l != .up) = false := by
    rw [linkOf_failure]
    split
    · rfl
    · cases linkOf t.limit l <;> rfl
  rw [timesUp_append, hsame]
  rfl

/-- A failure never brings the link up. -/
theorem observeFailure_up (t : Tracker) : (t.observeFailure.2 && t.observeFailure.1.state == .up) = false := by
  unfold Tracker.observeFailure
  split
  · rfl
  · exact Bool.and_false _

theorem Tally.observe {limit resolves : Nat} {t : Tracker} {l : List Bool} (h : Tally limit t resolves l) (v : Option Bool) :
    Tally limit (t.observe v).1 (resolves + ((t.observe v).2 && (t.observe v).1.state == .up).toNat) (l ++ v.toList) := by
  cases v with
  | none =>
      rw [Option.toList_none, List.append_nil]
      exact h
  | some b =>
      cases b with
      | true =>
          have hup : ((t.observe (some true)).2 && (t.observe (some true)).1.state == .up) = t.observeSuccess.2 :=
            Bool.and_true _
          rw [hup]
          exact h.success
      | false =>
          have hdown : ((t.observe (some false)).2 && (t.observe (some false)).1.state == .up) = false :=
            observeFailure_up t
          rw [hdown]
          exact h.failure

/-! ### Every run of the loop -/

/-- The state the loop has published: that of all its rounds, or of all but the one it is about to publish. -/
def State.published (s : State) : LinkState :=
  linkOf 2 (verdicts (if s.place = .publish then s.rounds.dropLast else s.rounds))

/-- The stop has seen the loop end. -/
def StopPlace.waited : StopPlace → Bool
  | .none | .closed => false
  | _ => true

/-- What is shown of the link, until the stop takes it back. -/
def StopPlace.state (p : StopPlace) (published : LinkState) : LinkState :=
  match p with
  | .cleared | .returned => .unknown
  | _ => published

def StopPlace.probe (p : StopPlace) (ms : Int) : Int :=
  match p with
  | .returned => -1
  | _ => ms

structure Sound (interval : Int) (s : State) : Prop where
  tally : Tally 2 s.tracker s.resolves (verdicts s.rounds)
  keeps : s.sampler.Keeps (lastRead s.rounds)
  going : s.stop = .none → s.quit = false ∧ s.place ≠ .ended
  ended : s.stop.waited = true → s.place = .ended
  link : s.linkState = s.stop.state s.published
  probe : s.linkProbeMs = s.stop.probe (probeMs s.rounds)
  timer : s.place = .select → s.timer = if s.tracker.state ≠ .up then quickLivenessInterval else interval

theorem lastRead_append (rounds : List Round) (r : Round) : lastRead (rounds ++ [r]) = r.counters (lastRead rounds) :=
  List.foldl_append

section Step

variable {interval : Int} {s s' : State}

theorem state_of_not_waited {p : StopPlace} (h : p.waited = false) (published : LinkState) : p.state published = published := by
  cases p with
  | none | closed => rfl
  | _ => cases h

theorem probe_of_not_waited {p : StopPlace} (h : p.waited = false) (ms : Int) : p.probe ms = ms := by
  cases p with
  | none | closed => rfl
  | _ => cases h

theorem Sound.not_waited (hs : Sound interval s) (hplace : s.place ≠ .ended) : s.stop.waited = false :=
  Bool.eq_false_iff.mpr fun h => hplace (hs.ended h)

/-- A round that was taken. -/
theorem Sound.round (hs : Sound interval s) (hplace : s.place = .select) (r : Round) {t : Tracker} {p : Sampler} {n : Nat} {ms : Int}
    (htally : Tally 2 t n (verdicts (s.rounds ++ [r]))) (hkeeps : p.Keeps (r.counters (lastRead s.rounds)))
    (hprobe : ms = probeMs (s.rounds ++ [r])) :
    Sound interval { s with
      tracker := t, sampler := p, resolves := n, linkProbeMs := ms, place := .publish, rounds := s.rounds ++ [r] } := by
  have hrunning := hs.not_waited (by rw [hplace]; decide)
  have hlink := hs.link
  rw [state_of_not_waited hrunning, State.published, hplace, if_neg (by decide)] at hlink
  refine ⟨htally, (lastRead_append ..).symm ▸ hkeeps, fun h => ⟨(hs.going h).1, fun h => by cases h⟩,
    fun h => (by cases hrunning.symm.trans h), (Eq.trans ?_ (state_of_not_waited hrunning _).symm),
    hprobe.trans (probe_of_not_waited hrunning _).symm, (fun h => by cases h)⟩
  rw [State.published, if_pos rfl, List.dropLast_concat]
  exact hlink

/-- The loop leaves. -/
theorem Sound.leave (hs : Sound interval s) (hplace : s.place = .select) (hquit : s.quit = true) :
    Sound interval { s with place := .ended } := by
  have hrunning := hs.not_waited (by rw [hplace]; decide)
  have hlink := hs.link
  rw [state_of_not_waited hrunning, State.published, hplace, if_neg (by decide)] at hlink
  exact { hs with
    going := fun h => by cases (hs.going h).1.symm.trans hquit
    ended := fun _ => rfl
    link := hlink.trans (state_of_not_waited hrunning _).symm
    timer := fun h => by cases h }

theorem Sound.observe (hs : Sound interval s) (hplace : s.place = .select) (r : Round) : Sound interval (s.observe r) := by
  have hprobe : s.linkProbeMs = probeMs s.rounds :=
    hs.probe.trans (probe_of_not_waited (hs.not_waited (by rw [hplace]; decide)) _)
  cases r with
  | probed elapsed =>
      exact hs.round hplace (.probed elapsed) (verdicts_append .. ▸ hs.tally.success) hs.keeps
        (by rw [probeMs, List.foldl_append]; rfl)
  | failed =>
      rw [State.observe]
      split
      next hquit => exact hs.leave hplace hquit
      next =>
        exact hs.round hplace .failed (verdicts_append .. ▸ hs.tally.failure) hs.keeps
          (by rw [probeMs, List.foldl_append]; exact hprobe)
  | read now dump =>
      refine hs.round hplace (.read now dump) ?_ rfl (by rw [probeMs, List.foldl_append]; exact hprobe)
      rw [verdicts_append, observeWG_eq hs.keeps]
      exact hs.tally.observe _
  | unreadable =>
      rw [State.observe]
      split
      next hquit => exact hs.leave hplace hquit
      next =>
        refine hs.round hplace .unreadable ?_ hs.keeps (by rw [probeMs, List.foldl_append]; exact hprobe)
        rw [verdicts_append, Round.verdict, Option.toList_none, List.append_nil]
        exact hs.tally

theorem Sound.publish (hs : Sound interval s) (hplace : s.place = .publish) :
    Sound interval { s with
      linkState := if s.tracker.state ≠ .unknown then s.tracker.state else s.linkState
      timer := if s.tracker.state ≠ .up then quickLivenessInterval else interval
      place := .select } := by
  have hrunning := hs.not_waited (by rw [hplace]; decide)
  have hlink := hs.link
  rw [state_of_not_waited hrunning, State.published, hplace, if_pos rfl] at hlink
  have hstate : s.tracker.state = linkOf 2 (verdicts s.rounds) := hs.tally.bound ▸ hs.tally.follows.2
  refine ⟨hs.tally, hs.keeps, fun h => ⟨(hs.going h).1, fun h => by cases h⟩, fun h => (by cases hrunning.symm.trans h),
    Eq.trans ?_ (state_of_not_waited hrunning _).symm, hs.probe, fun _ => rfl⟩
  change (if s.tracker.state ≠ .unknown then s.tracker.state else s.linkState) = linkOf 2 (verdicts s.rounds)
  rw [← hstate]
  by_cases hunknown : s.tracker.state = .unknown
  · -- without a verdict nothing was published before
    rw [if_neg (not_not.mpr hunknown), hlink, hunknown]
    exact linkOf_dropLast_unknown Nat.two_pos (hstate.symm.trans hunknown)
  · rw [if_pos hunknown]

theorem Sound.step (hs : Sound interval s) {a : Act} (hstep : step interval s a = some s') : Sound interval s' := by
  have hlink := hs.link
  have hprobe := hs.probe
  cases a with
  | round r =>
      obtain ⟨hplace, ⟨⟩⟩ := Option.ite_none_right_eq_some.mp hstep
      exact hs.observe hplace r
  | publish =>
      obtain ⟨hplace, ⟨⟩⟩ := Option.ite_none_right_eq_some.mp hstep
      exact hs.publish hplace
  | leave =>
      obtain ⟨⟨hplace, hquit⟩, ⟨⟩⟩ := Option.ite_none_right_eq_some.mp hstep
      exact hs.leave hplace hquit
  | closeQuit =>
      obtain ⟨hstop, ⟨⟩⟩ := Option.ite_none_right_eq_some.mp hstep
      rw [hstop] at hlink hprobe
      exact { hs with going := (fun h => by cases h), ended := (fun h => by cases h), link := hlink, probe := hprobe }
  | join =>
      obtain ⟨⟨hstop, hended⟩, ⟨⟩⟩ := Option.ite_none_right_eq_some.mp hstep
      rw [hstop] at hlink hprobe
      exact { hs with going := (fun h => by cases h), ended := fun _ => hended, link := hlink, probe := hprobe }
  | clearState =>
      obtain ⟨hstop, ⟨⟩⟩ := Option.ite_none_right_eq_some.mp hstep
      rw [hstop] at hprobe
      exact ⟨hs.tally, hs.keeps, (fun h => by cases h), fun _ => hs.ended (by rw [hstop]; rfl), rfl, hprobe, hs.timer⟩
  | clearProbe =>
      obtain ⟨hstop, ⟨⟩⟩ := Option.ite_none_right_eq_some.mp hstep
      rw [hstop] at hlink
      exact ⟨hs.tally, hs.keeps, (fun h => by cases h), fun _ => hs.ended (by rw [hstop]; rfl), hlink, rfl, hs.timer⟩

end Step

theorem sound_init {interval : Int} : Sound interval {} where
  tally := ⟨rfl, ⟨rfl, rfl⟩, rfl⟩
  keeps := rfl
  going := fun _ => ⟨rfl, by decide⟩
  ended := fun h => by cases h
  link := rfl
  probe := rfl
  timer := fun _ => rfl

/-- Nothing is left to happen once the stop has returned. -/
theorem Sound.silent {interval : Int} {s s' : State} {acts : List Act} (hs : Sound interval s) (hreturned : s.stop = .returned)
    (hrun : Link.run interval s acts = some s') : s' = s := by
  have hended : s.place = .ended := hs.ended (by rw [hreturned]; rfl)
  cases acts with
  | nil =>
      cases hrun
      rfl
  | cons a rest =>
      have hnone : Link.step interval s a = none := by
        cases a with
        | round _ | publish => exact if_neg (by rw [hended]; decide)
        | leave => exact if_neg (by rw [hended]; exact fun h => by cases h.1)
        | join => exact if_neg (by rw [hreturned]; exact fun h => by cases h.1)
        | closeQuit | clearState | clearProbe => exact if_neg (by rw [hreturned]; decide)
      rw [Link.run, Runs.exec, hnone] at hrun
      cases hrun

/-- In every run of the loop and its stop: the snapshot says what the rounds so far say, up to the one the loop is about to
publish: down after two failures in a row, up from any success until then, no verdict before; its probe time is the last
successful one's; the timer waits the full interval exactly while the link is up; the external address is asked for as often
as the rounds brought the link up; and the loop ends only at a stop, which returns when the loop has ended, leaves no verdict
behind, and after which nothing changes any more. -/
theorem link_follows_rounds (interval : Int) {acts : List Act} {s : State} (hrun : run interval {} acts = some s) :
    (s.stop.waited = false → s.livenessSnapshot =
      if s.published = .unknown then (false, -1, false) else (s.published == .up, probeMs s.rounds, true)) ∧
    (s.place = .select → s.timer =
      if linkOf 2 (verdicts s.rounds) ≠ .up then quickLivenessInterval else interval) ∧
    s.resolves = timesUp 2 (verdicts s.rounds) ∧
    (s.stop = .none → s.place ≠ .ended) ∧
    (s.stop = .returned → s.place = .ended ∧ s.livenessSnapshot = (false, -1, false) ∧
      ∀ acts' s', run interval s acts' = some s' → s' = s) := by
  have hs : Sound interval s := Runs.exec_invariant (fun _ _ _ hs hstep => hs.step hstep) sound_init hrun
  have hstate : s.tracker.state = linkOf 2 (verdicts s.rounds) := hs.tally.bound ▸ hs.tally.follows.2
  refine ⟨fun hstop => ?_, fun hplace => ?_, hs.tally.asked, fun hstop => (hs.going hstop).2,
    fun hreturned => ⟨hs.ended (by rw [hreturned]; rfl), ?_, fun acts' s' hrun' => hs.silent hreturned hrun'⟩⟩
  · rw [State.livenessSnapshot, hs.link, hs.probe, state_of_not_waited hstop, probe_of_not_waited hstop]
  · rw [← hstate]
    exact hs.timer hplace
  · rw [State.livenessSnapshot, hs.link, hreturned]
    rfl

/-- Two failures in a row, then a success, then a stop. -/
def outage : List Act :=
  [.round (.probed 42000000), .publish, .round .failed, .publish, .round .failed, .publish, .round (.probed 7000000), .publish,
   .closeQuit, .leave, .join, .clearState, .clearProbe]

theorem outage_followed : ∃ s s', run 20000000000 {} (outage.take 6) = some s ∧ s.livenessSnapshot = (false, 42, true) ∧
    run 20000000000 {} outage = some s' ∧ s'.resolves = 2 ∧ s'.livenessSnapshot = (false, -1, false) := by
  obtain ⟨s, hs, hsnapshot⟩ : ∃ s, run 20000000000 {} (outage.take 6) = some s ∧
      s.livenessSnapshot = (false, 42, true) := ⟨_, rfl, rfl⟩
  obtain ⟨s', hs', hresolves, hstop⟩ : ∃ s', run 20000000000 {} outage = some s' ∧ s'.resolves = 2 ∧ s'.stop = .returned :=
    ⟨_, rfl, rfl, rfl⟩
  exact ⟨s, s', hs, hsnapshot, hs', hresolves, ((link_follows_rounds _ hs').2.2.2.2 hstop).2.1⟩

end GlitchCore.Core.Link
