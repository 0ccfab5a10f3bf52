import GlitchCore.Core.Session

/-!
# Who closes the TUN descriptor

The platform hands a start the descriptor of its TUN, and the start works on a copy of its own: `beginStart`
duplicates it in the handler, the engine takes the copy where something comes to own it, and `done` closes it
at the end of the start's goroutine where nothing took it. No other thread sees the copy, so the bodies below
are sequential programs over it; what they call answers as `Answers` says, one answer for each call at which
the start can end.
-/

namespace GlitchCore.Core.TunCopy

inductive Platform where
  | android
  | linux
  | windows
  | other
  deriving DecidableEq, Repr

/-- What opens a TUN on a descriptor and closes it on teardown. -/
inductive Component where
  | tunListener
  | tun2socks
  | awgDevice
  deriving DecidableEq, Repr

/-- What happens to a descriptor. A component holds it from the call that gives it over, also when that call
then fails; the AmneziaWG bring-up closes it itself where it ends before its device holds it. -/
inductive Event where
  | taken
  | closedByDone
  | heldBy (c : Component)
  | closedBy (c : Component)
  deriving DecidableEq, Repr

/-- `tunCopy`, with what has happened to the descriptors so far. -/
structure Tun where
  fd : Int
  events : List (Int × Event)
  deriving DecidableEq, Repr

/-- Where a start's body returns early. -/
inductive Exit where
  | sessionEnded
  | already
  | otherEngine
  | chooseLink
  | home
  | configBuild
  | tunListener
  | geoReload
  | domainStrategy
  | links
  | noOutbound
  | proxyInbound
  | coreInit
  | coreStart
  | socksReady
  | sniffing
  | bridgeProxy
  | forceBridgeProxy
  | noTunFd
  | tun2socks
  | configureTun
  | awgLink
  | awgConfig
  | setNonblock
  | createTun
  | ipcSet
  | deviceUp
  | unsupported
  deriving DecidableEq, Repr

structure Request where
  engine : EngineId
  platform : Platform
  tunFD : Int
  proxyPort : Int
  /-- tun2socks is part of the build. -/
  linksTun2socks : Bool
  /-- `GLITCH_MIHOMO_ANDROID_BRIDGE=1`. -/
  androidBridge : Bool
  /-- `routingHasForceProxy`. -/
  forceProxy : Bool
  deriving DecidableEq, Repr

/-- What the calls of a start come to. -/
structure Answers where
  /-- The handler's guards and the reading of its options refuse the request. -/
  refused : Bool
  /-- The number `dup` gives, none when it fails. -/
  dup : Option Nat
  /-- The call at which the start ends, if one does. -/
  failsAt : Exit → Bool

/-- A start's body: it works on the copy and may return early. -/
abbrev Start := ExceptT Exit (StateM Tun)

def take : Start Int :=
  modifyGet fun t => (t.fd, { fd := -1, events := if 0 ≤ t.fd then t.events ++ [(t.fd, .taken)] else t.events })

def record (fd : Int) (e : Event) : Start Unit := modify fun t => { t with events := t.events ++ [(fd, e)] }

def failIf (b : Bool) (e : Exit) : Start Unit := if b then throw e else pure ()

def release (t : Tun) : Tun :=
  if 0 ≤ t.fd then { fd := -1, events := t.events ++ [(t.fd, .closedByDone)] } else t

section Bodies

variable (r : Request) (a : Answers)

def fallible (e : Exit) : Start Unit := failIf (a.failsAt e) e

/-- `prepareStartLocked` and the check for another engine. -/
def prepareStart : Start Unit := do
  fallible a .sessionEnded
  fallible a .already
  fallible a .otherEngine

def mihomoUsesBridge : Bool :=
  r.linksTun2socks && !decide (0 < r.proxyPort) &&
    match r.platform with
    | .android => r.androidBridge
    | .windows => true
    | _ => false

def startTun2socks (tunFd : Int) : Start Unit := do
  if r.platform ≠ .windows then
    failIf (decide (tunFd < 0)) .noTunFd
    record tunFd (.heldBy .tun2socks)
  fallible a .tun2socks
  if r.platform = .windows then
    fallible a .configureTun

/-- The descriptor a configuration names; zero stands for none. -/
def applyTun (fileDescriptor : Int) : Option Int := if 0 < fileDescriptor then some fileDescriptor else none

/-- `executor.ApplyConfig` opens its TUN on the descriptor the configuration names. -/
def applyConfig (fileDescriptor : Option Int) : Start Unit :=
  match fileDescriptor with
  | some fd => record fd (.heldBy .tunListener)
  | none => pure ()

def mihomoStart : Start Unit := do
  prepareStart a
  let bridge := mihomoUsesBridge r
  let tunFd := (← get).fd
  let tunInbound : Option Int :=
    if 0 < r.proxyPort then none else if bridge then none else some (if 0 ≤ tunFd then tunFd else 0)
  fallible a .home
  fallible a .configBuild
  if !bridge then
    let _ ← take
  applyConfig (tunInbound.bind applyTun)
  failIf (!bridge && decide (r.proxyPort ≤ 0) && a.failsAt .tunListener) .tunListener
  if bridge then
    startTun2socks r a (← take)

def xrayStart : Start Unit := do
  prepareStart a
  fallible a .geoReload
  fallible a .domainStrategy
  fallible a .links
  fallible a .noOutbound
  if 0 < r.proxyPort then
    fallible a .proxyInbound
    fallible a .configBuild
    fallible a .coreInit
    fallible a .coreStart
    fallible a .socksReady
  else
    fallible a .configBuild
    fallible a .coreInit
    fallible a .coreStart
    fallible a .sniffing
    fallible a .bridgeProxy
    if r.forceProxy then
      fallible a .forceBridgeProxy
    startTun2socks r a (← take)

/-- The device's own calls once it has a TUN. -/
def awgDeviceStart : Start Unit := do
  fallible a .createTun
  fallible a .ipcSet
  fallible a .deviceUp

def platformAwgStart : Start Unit :=
  match r.platform with
  | .android => do
      let dupFd ← take
      failIf (decide (dupFd < 0)) .noTunFd
      if a.failsAt .setNonblock then
        record dupFd (.closedBy .awgDevice)
        throw .setNonblock
      record dupFd (.heldBy .awgDevice)
      awgDeviceStart a
  | .linux => awgDeviceStart a
  | .windows => do
      awgDeviceStart a
      fallible a .configureTun
  | .other => throw .unsupported

def awgStart : Start Unit := do
  fallible a .chooseLink
  prepareStart a
  fallible a .awgLink
  fallible a .awgConfig
  platformAwgStart r a

def body : Start Unit :=
  match r.engine with
  | .mihomo => mihomoStart r a
  | .xray => xrayStart r a
  | .awg => awgStart r a

/-- `HandleAwgStart` refuses proxy mode. -/
def refuses : Bool := a.refused || (r.engine = .awg && decide (0 < r.proxyPort))

/-- `dupTunFd`: on Windows the TUN is an adapter and the number stands for nothing. -/
def dupTunFd : Option Int := if r.platform = .windows then some r.tunFD else a.dup.map fun n => (n : Int)

def copyRequestTun : Option Int := if r.tunFD ≤ 0 then some (-1) else dupTunFd r a

/-- The handler and the goroutine of a start: what happens to the descriptors. -/
def handleStart : List (Int × Event) :=
  if refuses r a then []
  else match copyRequestTun r a with
    | none => []
    | some fd =>
        let (_, tun) := ((body r a).run).run { fd, events := [] }
        (release tun).events

/-- The copy a start owns, if it made one. -/
def copied : Option Nat :=
  if refuses r a || decide (r.tunFD ≤ 0) || decide (r.platform = .windows) then none else a.dup

end Bodies

/-- Exactly one owner: `done` closed the copy, or one `take` gave it to one component, which holds it or, where
its bring-up ended before that, has closed it. -/
def Settled (fd : Int) (events : List (Int × Event)) : Prop :=
  events = [(fd, .closedByDone)] ∨
    ∃ c, events = [(fd, .taken), (fd, .heldBy c)] ∨ events = [(fd, .taken), (fd, .closedBy c)]

/-! ### How a body ends

Every early return of a body ends it with the copy as it stands, so a fact about the end of a body is carried
through its calls one at a time. -/

/-- What the body leaves satisfies `Q`, wherever it returns. -/
def Ends {α : Type} (Q : Tun → Prop) (m : Start α) (t : Tun) : Prop := Q (m.run.run t).2

section Ends

variable {α β : Type} {Q : Tun → Prop} {a : Answers} {e : Exit} {t : Tun} {k : Unit → Start β}

theorem ends_pure {x : α} (h : Q t) : Ends Q (pure x) t := h

theorem ends_throw (h : Q t) : Ends (α := α) Q (throw e) t := h

theorem ends_failIf_bind {b : Bool} (hfail : b = true → Q t) (hnext : b = false → Ends Q (k ()) t) :
    Ends Q (failIf b e >>= k) t := by
  cases b with
  | true => exact hfail rfl
  | false => exact hnext rfl

theorem ends_fallible_bind (hfail : Q t) (hnext : a.failsAt e = false → Ends Q (k ()) t) :
    Ends Q (fallible a e >>= k) t :=
  ends_failIf_bind (fun _ => hfail) hnext

theorem ends_fallible_bind_of_false (hanswer : a.failsAt e = false) (hnext : Ends Q (k ()) t) :
    Ends Q (fallible a e >>= k) t :=
  ends_failIf_bind (fun h => absurd h (by simp [hanswer])) fun _ => hnext

theorem ends_fallible (h : Q t) : Ends Q (fallible a e) t := by
  unfold fallible failIf
  split
  · exact ends_throw h
  · exact ends_pure h

theorem ends_get_bind {k : Tun → Start β} (hnext : Ends Q (k t) t) : Ends Q (get >>= k) t := hnext

theorem ends_record_bind {fd : Int} {ev : Event} (hnext : Ends Q (k ()) { t with events := t.events ++ [(fd, ev)] }) :
    Ends Q (record fd ev >>= k) t :=
  hnext

theorem ends_take_bind {k : Int → Start β} (hfd : 0 ≤ t.fd)
    (hnext : Ends Q (k t.fd) { fd := -1, events := t.events ++ [(t.fd, .taken)] }) : Ends Q (take >>= k) t := by
  rw [← if_pos (c := 0 ≤ t.fd) (t := t.events ++ [(t.fd, Event.taken)]) (e := t.events) hfd] at hnext
  exact hnext

theorem ends_prepareStart_bind (hfail : Q t)
    (hnext : a.failsAt .sessionEnded = false → a.failsAt .already = false → a.failsAt .otherEngine = false →
      Ends Q (k ()) t) : Ends Q (prepareStart a >>= k) t := by
  unfold prepareStart
  simp only [bind_assoc]
  refine ends_fallible_bind hfail fun h1 => ?_
  refine ends_fallible_bind hfail fun h2 => ?_
  exact ends_fallible_bind hfail (hnext h1 h2)

end Ends

/-! ### The engines -/

section Engines

variable {r : Request} {a : Answers} {fd : Int} {c : Component}

/-- The body's end with `done` after it. -/
def Closes (fd : Int) (t : Tun) : Prop := Settled fd (release t).events

theorem closes_untaken (hfd : 0 ≤ fd) : Closes fd { fd, events := [] } := by
  rw [Closes, release, if_pos hfd]
  exact .inl rfl

theorem closes_held : Closes fd { fd := -1, events := [(fd, .taken), (fd, .heldBy c)] } := .inr ⟨c, .inl rfl⟩

theorem ends_startTun2socks (hfd : 0 ≤ fd) (hplatform : r.platform ≠ .windows) :
    Ends (Closes fd) (startTun2socks r a fd) { fd := -1, events := [(fd, .taken)] } := by
  unfold startTun2socks
  rw [if_pos hplatform]
  refine ends_failIf_bind (fun h => absurd (of_decide_eq_true h) (by omega)) fun _ => ?_
  refine ends_record_bind ?_
  refine ends_fallible_bind closes_held fun _ => ?_
  rw [if_neg hplatform]
  exact ends_pure closes_held

theorem ends_xrayStart (hfd : 0 ≤ fd) (hplatform : r.platform ≠ .windows) :
    Ends (Closes fd) (xrayStart r a) { fd, events := [] } := by
  have hfresh := closes_untaken hfd
  unfold xrayStart
  refine ends_prepareStart_bind hfresh fun _ _ _ => ?_
  refine ends_fallible_bind hfresh fun _ => ?_
  refine ends_fallible_bind hfresh fun _ => ?_
  refine ends_fallible_bind hfresh fun _ => ?_
  refine ends_fallible_bind hfresh fun _ => ?_
  split
  · refine ends_fallible_bind hfresh fun _ => ?_
    refine ends_fallible_bind hfresh fun _ => ?_
    refine ends_fallible_bind hfresh fun _ => ?_
    refine ends_fallible_bind hfresh fun _ => ?_
    exact ends_fallible hfresh
  · have hbridge : Ends (Closes fd) (take >>= startTun2socks r a) { fd, events := [] } :=
      ends_take_bind hfd (ends_startTun2socks hfd hplatform)
    refine ends_fallible_bind hfresh fun _ => ?_
    refine ends_fallible_bind hfresh fun _ => ?_
    refine ends_fallible_bind hfresh fun _ => ?_
    refine ends_fallible_bind hfresh fun _ => ?_
    refine ends_fallible_bind hfresh fun _ => ?_
    split
    · exact ends_fallible_bind hfresh fun _ => hbridge
    · exact hbridge

theorem ends_awgDeviceStart {Q : Tun → Prop} {t : Tun} (h : Q t) : Ends Q (awgDeviceStart a) t := by
  unfold awgDeviceStart
  refine ends_fallible_bind h fun _ => ?_
  refine ends_fallible_bind h fun _ => ?_
  exact ends_fallible h

theorem ends_platformAwgStart (hfd : 0 ≤ fd) (hplatform : r.platform ≠ .windows) :
    Ends (Closes fd) (platformAwgStart r a) { fd, events := [] } := by
  have hfresh := closes_untaken hfd
  unfold platformAwgStart
  cases hp : r.platform with
  | windows => exact absurd hp hplatform
  | linux => exact ends_awgDeviceStart hfresh
  | other => exact ends_throw hfresh
  | android =>
      refine ends_take_bind hfd ?_
      refine ends_failIf_bind (fun h => absurd (of_decide_eq_true h) (by simp only; omega)) fun _ => ?_
      split
      · refine ends_record_bind ?_
        exact ends_throw (.inr ⟨.awgDevice, .inr rfl⟩)
      · refine ends_record_bind ?_
        exact ends_awgDeviceStart closes_held

theorem ends_awgStart (hfd : 0 ≤ fd) (hplatform : r.platform ≠ .windows) :
    Ends (Closes fd) (awgStart r a) { fd, events := [] } := by
  have hfresh := closes_untaken hfd
  unfold awgStart
  refine ends_fallible_bind hfresh fun _ => ?_
  refine ends_prepareStart_bind hfresh fun _ _ _ => ?_
  refine ends_fallible_bind hfresh fun _ => ?_
  refine ends_fallible_bind hfresh fun _ => ?_
  exact ends_platformAwgStart hfd hplatform

/-- mihomo's start gets as far as `ApplyConfig`. -/
def Applies (a : Answers) : Prop :=
  a.failsAt .sessionEnded = false ∧ a.failsAt .already = false ∧ a.failsAt .otherEngine = false ∧
    a.failsAt .home = false ∧ a.failsAt .configBuild = false

instance (a : Answers) : Decidable (Applies a) := inferInstanceAs (Decidable (_ ∧ _ ∧ _ ∧ _ ∧ _))

/-- What mihomo applies has no TUN on the copy: it is to be a proxy, or a TUN the configuration gives the number 0. -/
def NoTunOn (r : Request) (fd : Int) : Prop := 0 < r.proxyPort ∨ mihomoUsesBridge r = false ∧ fd = 0

instance (r : Request) (fd : Int) : Decidable (NoTunOn r fd) := inferInstanceAs (Decidable (_ ∨ _ ∧ _))

theorem ends_mihomoStart (hfd : 0 ≤ fd) (hplatform : r.platform ≠ .windows)
    (hheld : NoTunOn r fd → ¬Applies a) : Ends (Closes fd) (mihomoStart r a) { fd, events := [] } := by
  have hfresh := closes_untaken hfd
  unfold mihomoStart
  refine ends_prepareStart_bind hfresh fun h1 h2 h3 => ?_
  refine ends_get_bind ?_
  refine ends_fallible_bind hfresh fun h4 => ?_
  refine ends_fallible_bind hfresh fun h5 => ?_
  have htun : ¬NoTunOn r fd := fun h => hheld h ⟨h1, h2, h3, h4, h5⟩
  have hport : ¬0 < r.proxyPort := fun h => htun (.inl h)
  cases hbridge : mihomoUsesBridge r with
  | true =>
      simp only [if_neg hport, ite_true, Bool.not_true, Bool.false_eq_true, ite_false, Option.bind_none, applyConfig,
        pure_bind, Bool.false_and]
      refine ends_failIf_bind (fun h => nomatch h) fun _ => ?_
      exact ends_take_bind hfd (ends_startTun2socks hfd hplatform)
  | false =>
      have hpos : 0 < fd := by
        have hne : fd ≠ 0 := fun h => htun (.inr ⟨hbridge, h⟩)
        omega
      simp only [if_neg hport, ite_true, Bool.not_false, Bool.false_eq_true, ite_false, Option.bind_some]
      refine ends_take_bind hfd ?_
      have hgiven : applyTun (if 0 ≤ fd then fd else 0) = some fd := by rw [if_pos hfd, applyTun, if_pos hpos]
      show Ends (Closes fd) (applyConfig (applyTun (if 0 ≤ fd then fd else 0)) >>= _) _
      rw [hgiven]
      refine ends_record_bind ?_
      exact ends_failIf_bind (fun _ => closes_held) fun _ => ends_pure closes_held

/-- Where the configuration names no TUN, the copy is taken all the same. -/
theorem mihomoStart_noTun (htun : NoTunOn r fd) (happlies : Applies a) (hfd : 0 ≤ fd) :
    Ends (· = { fd := -1, events := [(fd, .taken)] }) (mihomoStart r a) { fd, events := [] } := by
  obtain ⟨h1, h2, h3, h4, h5⟩ := happlies
  have hbridge : mihomoUsesBridge r = false := by
    rcases htun with hport | ⟨hbridge, -⟩
    · simp [mihomoUsesBridge, hport]
    · exact hbridge
  have hnone : (if 0 < r.proxyPort then none else some (if 0 ≤ fd then fd else 0)).bind applyTun = none := by
    rcases htun with hport | ⟨-, rfl⟩
    · rw [if_pos hport, Option.bind_none]
    · split <;> rfl
  unfold mihomoStart prepareStart
  simp only [bind_assoc]
  refine ends_fallible_bind_of_false h1 ?_
  refine ends_fallible_bind_of_false h2 ?_
  refine ends_fallible_bind_of_false h3 ?_
  refine ends_get_bind ?_
  refine ends_fallible_bind_of_false h4 ?_
  refine ends_fallible_bind_of_false h5 ?_
  simp only [hbridge, Bool.not_false, ite_true, Bool.false_eq_true, ite_false]
  refine ends_take_bind hfd ?_
  show Ends _ (applyConfig ((if 0 < r.proxyPort then none else some (if 0 ≤ fd then fd else 0)).bind applyTun) >>= _) _
  rw [hnone]
  exact ends_failIf_bind (fun _ => rfl) fun _ => ends_pure rfl

end Engines

/-! ### Every start -/

variable {r : Request} {a : Answers} {n : Nat}

theorem copied_eq_some (hcopy : copied r a = some n) :
    refuses r a = false ∧ 0 < r.tunFD ∧ r.platform ≠ .windows ∧ a.dup = some n := by
  unfold copied at hcopy
  split at hcopy
  · cases hcopy
  · rename_i h
    simp only [Bool.or_eq_true, decide_eq_true_eq, not_or, Bool.not_eq_true] at h
    exact ⟨h.1.1, by omega, h.2, hcopy⟩

theorem handleStart_of_copied (hcopy : copied r a = some n) :
    handleStart r a = (release ((body r a).run.run { fd := n, events := [] }).2).events := by
  obtain ⟨hrefuses, hfd, hplatform, hdup⟩ := copied_eq_some hcopy
  have hrequest : copyRequestTun r a = some (n : Int) := by
    rw [copyRequestTun, if_neg (by omega), dupTunFd, if_neg hplatform, hdup]
    rfl
  rw [handleStart, hrefuses, hrequest]
  rfl

/-- mihomo comes to `ApplyConfig` with a copy its configuration does not name, and the copy is taken for no one. -/
def TakenForNoOne (r : Request) (a : Answers) : Prop :=
  r.engine = .mihomo ∧ Applies a ∧ ∃ n ∈ copied r a, NoTunOn r n

/-- A proxy-mode start of mihomo that is given a descriptor, and in which every call succeeds. -/
def strayRequest : Request where
  engine := .mihomo
  platform := .android
  tunFD := 7
  proxyPort := 1080
  linksTun2socks := true
  androidBridge := false
  forceProxy := false

def allSucceed : Answers where
  refused := false
  dup := some 9
  failsAt := fun _ => false

/-- In proxy mode no one holds the copy; nor does anyone hold one with the number 0, which the configuration cannot
name. -/
theorem proxy_start_leaks_copy :
    copied strayRequest allSucceed = some 9 ∧ handleStart strayRequest allSucceed = [(9, .taken)] ∧
      ¬Settled 9 (handleStart strayRequest allSucceed) ∧
    ¬Settled 0 (handleStart { strayRequest with proxyPort := 0 } { allSucceed with dup := some 0 }) := by
  have hrun : handleStart strayRequest allSucceed = [(9, .taken)] := by decide
  have hzero : handleStart { strayRequest with proxyPort := 0 } { allSucceed with dup := some 0 } = [(0, .taken)] := by
    decide
  refine ⟨by decide, hrun, ?_, ?_⟩
  · rw [hrun]
    rintro (h | ⟨c, h | h⟩) <;> cases h
  · rw [hzero]
    rintro (h | ⟨c, h | h⟩) <;> cases h

/-- A start's copy ends with exactly one owner unless mihomo takes it in proxy mode, or as descriptor 0. -/
theorem copy_settled_iff (r : Request) (a : Answers) :
    (∀ n, copied r a = some n → Settled n (handleStart r a)) ↔ ¬TakenForNoOne r a := by
  constructor
  · rintro hsettled ⟨hengine, happlies, n, hn, htun⟩
    have hend := mihomoStart_noTun htun happlies (Int.natCast_nonneg n)
    have hown := hsettled n hn
    have hbody : body r a = mihomoStart r a := by rw [body, hengine]
    rw [handleStart_of_copied hn, hbody, hend] at hown
    obtain h | ⟨c, h | h⟩ := hown <;> cases h
  · intro hnot n hn
    obtain ⟨-, -, hplatform, -⟩ := copied_eq_some hn
    have hfd : (0 : Int) ≤ n := Int.natCast_nonneg n
    have hend : Ends (Closes n) (body r a) { fd := n, events := [] } := by
      unfold body
      cases hengine : r.engine with
      | xray => exact ends_xrayStart hfd hplatform
      | awg => exact ends_awgStart hfd hplatform
      | mihomo =>
          exact ends_mihomoStart hfd hplatform fun htun happlies => hnot ⟨hengine, happlies, n, hn, htun⟩
    rw [handleStart_of_copied hn]
    exact hend

end GlitchCore.Core.TunCopy
