import GlitchCore.Base.JsonStruct
import GlitchCore.Base.LineScanner
import GlitchCore.Base.Utf8
import GlitchCore.Core.StatusQueue
import GlitchCore.Logfmt.Levels
import GlitchCore.Logfmt.Scrub

/-!
# Events from the service

On Windows the engines run in a service and the library in the host's process relays their events: the service writes
each one as a line of JSON into the event pipe, and the library scans the pipe for lines, reads each back and emits it,
a log line only if it passes the library's own verbosity. The pipe hands the bytes over in pieces of any size.
-/

namespace GlitchCore.Core.Service

open GoText GoJson JsonDecode Encoding LineScanner Logfmt

/-! ### The service's side -/

structure ServiceStatusEvent where
  type : Text
  code : Int32
  message : Text
  timestamp : Text
  deriving DecidableEq

/-- What `json.Marshal` writes as an object. -/
def ServiceStatusEvent.members (e : ServiceStatusEvent) : List (Text × Json) :=
  [("type".toList, .string e.type), ("code".toList, int32 e.code), ("message".toList, .string e.message),
    ("ts".toList, .string e.timestamp)]

/-- The callback the service registers as its status sink, up to what it hands to the hub. -/
def statusSinkEvent (timestamp : Text) (code : Int32) (message : Text) : ServiceStatusEvent :=
  ⟨"status".toList, code, message, timestamp⟩

/-- A map is written in the order of its keys. -/
def logMembers (level : Level) (component message timestamp : Text) : List (Text × Json) :=
  [("component".toList, .string component), ("level".toList, .string level.name), ("message".toList, .string message),
    ("ts".toList, .string timestamp)]

def buildJSON (level : Level) (component message timestamp : Text) : Text :=
  write (.object (logMembers level component message timestamp))

/-- What the service emits: a log line, or a status under another code. -/
inductive Event where
  | status (code : Int32) (message : Text) (hcode : code ≠ logEvent ∧ code ≠ logError)
  | log (level : Level) (component message timestamp : Text)

def Event.code : Event → Int32
  | .status code _ _ => code
  | .log level _ _ _ => if level.isError then logError else logEvent

/-- The text `emitLog` hands on for a line, the status's own text otherwise. -/
def Event.message : Event → Text
  | .status _ message _ => message
  | .log level component message timestamp => buildJSON level (scrub component) (scrub message) timestamp

/-- An event of the hub as `Subscribe` writes it, without the line break. -/
def pipeLine (timestamp : Text) (e : Event) : Bytes := utf8 (write (.object (statusSinkEvent timestamp e.code e.message).members))

/-! ### The library's side -/

/-- `json.Unmarshal` into the event. -/
def readEvent (line : Text) : Option ServiceStatusEvent := do
  let ms ← unmarshalObject line
  return {
    type := ← readField readText [] "type".toList ms
    code := ← readField readInt32 0 "code".toList ms
    message := ← readField readText [] "message".toList ms
    timestamp := ← readField readText [] "ts".toList ms }

/-- `Level.IsError` of a level that came as a text. -/
def namesError (level : Text) : Bool := level == Level.error.name || level == Level.fatal.name

/-- `Passes` on a level that came as a text. -/
def namePasses (verbosity : Int) (level : Text) : Bool :=
  if verbosity < 0 then false
  else if verbosity = 0 then namesError level
  else if verbosity = 1 then level != Level.debug.name
  else true

def relayedLogPasses (verbosity : Int) (code : Int32) (payload : Text) : Bool :=
  if code ≠ logEvent ∧ code ≠ logError then true
  else
    match (unmarshalObject payload).bind (readField readText [] "level".toList) with
    | some level => namePasses verbosity level
    | none => false

/-- The tokens of a connection one after another; `verbosity n` is where the library's gate stands at the `n`th. -/
def relayLines (verbosity : Nat → Int) : Nat → List Bytes → List (Int32 × Text)
  | _, [] => []
  | n, line :: rest =>
      match readEvent (textOf line) with
      | none => relayLines verbosity (n + 1) rest
      | some e =>
          if relayedLogPasses (verbosity n) e.code e.message then
            (e.code, e.message) :: relayLines verbosity (n + 1) rest
          else relayLines verbosity (n + 1) rest

def scannerLimit : Nat := 524288

/-- `serviceEventLoop` over one connection, whose bytes come in `pieces`: what it emits. -/
def serviceEventLoop (verbosity : Nat → Int) (pieces : List Bytes) : List (Int32 × Text) :=
  relayLines verbosity 0 (scan scannerLimit [] pieces).1

/-! ### Reading an event back -/

theorem fits_members (e : ServiceStatusEvent) : ∀ m ∈ e.members, Fits m.2 9999 := by
  rw [ServiceStatusEvent.members]
  simp only [List.forall_mem_cons]
  exact ⟨trivial, ⟨e.code.toInt, rfl⟩, trivial, trivial, List.forall_mem_nil _⟩

theorem readEvent_write (e : ServiceStatusEvent) : readEvent (write (.object e.members)) = some e := by
  have hobject : unmarshalObject (write (.object e.members)) = some e.members :=
    unmarshalObject_write (fits_members e)
  have htype : readField readText [] "type".toList e.members = some e.type := readField_eq rfl rfl
  have hcode : readField readInt32 0 "code".toList e.members = some e.code := readField_eq rfl (readInt32_int32 0 e.code)
  have hmessage : readField readText [] "message".toList e.members = some e.message := readField_eq rfl rfl
  have htime : readField readText [] "ts".toList e.members = some e.timestamp := readField_eq rfl rfl
  rw [readEvent, hobject]
  simp only [Option.bind_eq_bind, Option.bind_some, htype, hcode, hmessage, htime]
  rfl

theorem level_buildJSON (level : Level) (component message timestamp : Text) :
    (unmarshalObject (buildJSON level component message timestamp)).bind (readField readText [] "level".toList) =
      some level.name := by
  have hfits : ∀ m ∈ logMembers level component message timestamp, Fits m.2 9999 := by
    rw [logMembers]
    simp only [List.forall_mem_cons]
    exact ⟨trivial, trivial, trivial, trivial, List.forall_mem_nil _⟩
  have hobject : unmarshalObject (buildJSON level component message timestamp) =
      some (logMembers level component message timestamp) := unmarshalObject_write hfits
  rw [hobject, Option.bind_some]
  exact readField_eq rfl rfl

theorem namePasses_name (verbosity : Int) (level : Level) : namePasses verbosity level.name = passes verbosity level := by
  have herror : namesError level.name = level.isError := by cases level <;> decide
  have hdebug : (level.name != Level.debug.name) = (level != .debug) := by cases level <;> decide
  rw [namePasses, passes, herror, hdebug]

/-! ### The relay -/

/-- Whether the library hands an event on. -/
def Event.passes (verbosity : Int) : Event → Bool
  | .status _ _ _ => true
  | .log level _ _ _ => Logfmt.passes verbosity level

theorem relayedLogPasses_event (verbosity : Int) (e : Event) :
    relayedLogPasses verbosity e.code e.message = e.passes verbosity := by
  cases e with
  | status code message hcode => exact if_pos hcode
  | log level component message timestamp =>
      have hcode : ∀ err : Bool, ¬ ((if err then logError else logEvent) ≠ logEvent ∧
          (if err then logError else logEvent) ≠ logError) := by decide
      rw [relayedLogPasses, Event.code, if_neg (hcode level.isError), Event.message, level_buildJSON]
      exact namePasses_name verbosity level

theorem not_mem_pipeLine (timestamp : Text) (e : Event) {b : UInt8} (hb : b.toNat < 32) : b ∉ pipeLine timestamp e := by
  intro hmem
  obtain ⟨c, hc, heq⟩ := mem_utf8 hmem (by omega)
  have hprintable := printable_write _ (fits_object (fits_members (statusSinkEvent timestamp e.code e.message))) c hc
  omega

/-- The `n`th event is handed on as the gate stands when it is read. -/
def handedOn (verbosity : Nat → Int) : Nat → List (Text × Event) → List (Int32 × Text)
  | _, [] => []
  | n, (_, e) :: rest =>
      if e.passes (verbosity n) then (e.code, e.message) :: handedOn verbosity (n + 1) rest
      else handedOn verbosity (n + 1) rest

theorem relayLines_pipeLines (verbosity : Nat → Int) (n : Nat) (sent : List (Text × Event)) :
    relayLines verbosity n (sent.map fun e => pipeLine e.1 e.2) = handedOn verbosity n sent := by
  induction sent generalizing n with
  | nil => rfl
  | cons e sent ih =>
      obtain ⟨timestamp, e⟩ := e
      have hread : readEvent (textOf (pipeLine timestamp e)) = some (statusSinkEvent timestamp e.code e.message) := by
        rw [pipeLine, textOf_utf8, readEvent_write]
      rw [List.map_cons, relayLines, hread, handedOn]
      simp only
      rw [ih, statusSinkEvent, relayedLogPasses_event]

/-- However the pipe cuts the stream, the loop hands on exactly the events whose lines were written, in their order and
with their code and text, a log line where its level passes the gate. -/
theorem serviceEventLoop_relays (verbosity : Nat → Int) (sent : List (Text × Event)) (pieces : List Bytes)
    (hpieces : pieces.flatten = framed (sent.map fun e => pipeLine e.1 e.2))
    (hfits : ∀ e ∈ sent, (pipeLine e.1 e.2).length < scannerLimit) :
    serviceEventLoop verbosity pieces = handedOn verbosity 0 sent := by
  have hbreak : ∀ line ∈ sent.map (fun e => pipeLine e.1 e.2), 10 ∉ line :=
    List.forall_mem_map.mpr fun e _ => not_mem_pipeLine e.1 e.2 (by decide)
  have hreturn : ∀ line ∈ sent.map (fun e => pipeLine e.1 e.2), line.getLast? ≠ some 13 :=
    List.forall_mem_map.mpr fun e _ hlast => not_mem_pipeLine e.1 e.2 (by decide) (List.mem_of_getLast? hlast)
  have hroom : ∀ line ∈ sent.map (fun e => pipeLine e.1 e.2), line.length < scannerLimit := List.forall_mem_map.mpr hfits
  rw [serviceEventLoop, scan_framed hpieces (by decide) hbreak hreturn hroom, relayLines_pipeLines]

theorem connected_ne_log : (501 : Int32) ≠ logEvent ∧ (501 : Int32) ≠ logError := by decide

def sampleEvents : List (Text × Event) :=
  [("t0".toList, .status 501 "up".toList connected_ne_log), ("t1".toList, .log .debug "AWG".toList "sent".toList "t1".toList),
    ("t2".toList, .log .error "AWG".toList "lost".toList "t2".toList)]

def sampleStream : Bytes := framed (sampleEvents.map fun e => pipeLine e.1 e.2)

theorem sampleEvents_relayed : (∀ e ∈ sampleEvents, (pipeLine e.1 e.2).length < scannerLimit) ∧
    serviceEventLoop (fun _ => 0) [sampleStream.take 40, sampleStream.drop 40] =
      [(501, "up".toList), (logError, buildJSON .error "AWG".toList "lost".toList "t2".toList)] := by
  have hfits : ∀ e ∈ sampleEvents, (pipeLine e.1 e.2).length < scannerLimit :=
    List.forall_iff_forall_mem.mp (by decide +kernel)
  have hpieces : [sampleStream.take 40, sampleStream.drop 40].flatten = sampleStream := by
    rw [List.flatten_cons, List.flatten_cons, List.flatten_nil, List.append_nil, List.take_append_drop]
  refine ⟨hfits, (serviceEventLoop_relays (fun _ => 0) sampleEvents _ hpieces hfits).trans ?_⟩
  decide +kernel

end GlitchCore.Core.Service
