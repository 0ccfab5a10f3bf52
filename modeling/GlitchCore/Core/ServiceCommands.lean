import GlitchCore.Base.GoQuote
import GlitchCore.Base.JsonStruct
import GlitchCore.Routing.Dns

/-!
# Commands to the service

The library in the host's process asks the service to start and stop engines through the command pipe: a command is one
JSON object with an action and a payload, the answer another, and an engine's request travels as JSON inside a text of
the payload. The service reads an action without regard to case, reads the payload the action takes and refuses what it
cannot read. Everything here is between the two: what the service does for a command is a parameter.
-/

namespace GlitchCore.Core.Service

open GoText GoJson JsonDecode

/-! ### The request of a start -/

/-- A request as the service reads it. -/
structure ReadRequest where
  config : Text
  tunFd : Int64
  dns : Text
  logLevel : Int64
  opts : List (Text × Text)
  dnsConfig : Option DnsConfig
  deriving DecidableEq

/-- The keys of a map differ, in the order `json.Marshal` writes them. -/
structure EngineStartRequest extends ReadRequest where
  optsKeys : (opts.map Prod.fst).Nodup
  hostsKeys : ∀ c ∈ dnsConfig, (c.hosts.map Prod.fst).Nodup

def hostsJson (hosts : List (Text × List Text)) : Json := .object (hosts.map fun e => (e.1, texts e.2))

def optsJson (opts : List (Text × Text)) : Json := .object (opts.map fun e => (e.1, .string e.2))

/-- `DisableIPv6` is not written. -/
def dnsMembers (c : DnsConfig) : List (Text × Json) :=
  [("mode".toList, .string c.mode), ("servers".toList, texts c.servers), ("fakeIpFilter".toList, texts c.fakeIPFilter)]
    ++ omitEmpty c.hosts.isEmpty "hosts".toList (hostsJson c.hosts)
    ++ omitEmpty c.directServers.isEmpty "directServers".toList (texts c.directServers)

def EngineStartRequest.members (req : EngineStartRequest) : List (Text × Json) :=
  [("config".toList, .string req.config), ("tunFd".toList, int64 req.tunFd), ("dns".toList, .string req.dns),
    ("logLevel".toList, int64 req.logLevel)]
    ++ omitEmpty req.opts.isEmpty "opts".toList (optsJson req.opts)
    ++ (req.dnsConfig.map fun c => ("dnsConfig".toList, Json.object (dnsMembers c))).toList

/-- The element of a map is a new slice. -/
def readAddresses (v : Json) : Option (List Text) := (readTexts {} v).map Slice.items

def readDns (ms : List (Text × Json)) : Option DnsConfig := do
  return {
    mode := ← readField readText [] "mode".toList ms
    servers := (← readField readTexts {} "servers".toList ms).items
    fakeIPFilter := (← readField readTexts {} "fakeIpFilter".toList ms).items
    hosts := ← readField (readMap readAddresses) [] "hosts".toList ms
    directServers := (← readField readTexts {} "directServers".toList ms).items
    disableIPv6 := false }

/-- A pointer: `null` leaves none, an object is read into what it points to. So the members that count are those of all
objects since. -/
def dnsPointer (old : Option (List (Text × Json))) : Json → Option (Option (List (Text × Json)))
  | .null => some none
  | .object ms => (readDns ms).map fun _ => some (old.getD [] ++ ms)
  | _ => none

def readRequest (text : Text) : Option ReadRequest := do
  let ms ← unmarshalObject text
  return {
    config := ← readField readText [] "config".toList ms
    tunFd := ← readField readInt64 0 "tunFd".toList ms
    dns := ← readField readText [] "dns".toList ms
    logLevel := ← readField readInt64 0 "logLevel".toList ms
    opts := ← readField (readMap (readText [])) [] "opts".toList ms
    dnsConfig := ← (readField dnsPointer none "dnsConfig".toList ms).bind (·.mapM readDns) }

/-- The request as the service has it. -/
def EngineStartRequest.received (req : EngineStartRequest) : ReadRequest :=
  { req.toReadRequest with dnsConfig := req.dnsConfig.map fun c => { c with disableIPv6 := false } }

/-! ### Written and read back -/

section ReadBack

variable {c : DnsConfig}

/-- What stands under the names of the configuration's fields. -/
theorem dnsMembers_values (c : DnsConfig) :
    fieldValues "mode".toList (dnsMembers c) = [.string c.mode] ∧ fieldValues "servers".toList (dnsMembers c) = [texts c.servers] ∧
      fieldValues "fakeIpFilter".toList (dnsMembers c) = [texts c.fakeIPFilter] ∧
      fieldValues "hosts".toList (dnsMembers c) = (if c.hosts.isEmpty then [] else [hostsJson c.hosts]) ∧
      fieldValues "directServers".toList (dnsMembers c) = if c.directServers.isEmpty then [] else [texts c.directServers] := by
  unfold dnsMembers
  cases c.hosts.isEmpty <;> cases c.directServers.isEmpty <;> exact ⟨rfl, rfl, rfl, rfl, rfl⟩

theorem readDns_members (hkeys : (c.hosts.map Prod.fst).Nodup) :
    readDns (dnsMembers c) = some { c with disableIPv6 := false } := by
  obtain ⟨hmode, hservers, hfilter, hhosts, hdirect⟩ := dnsMembers_values c
  have hmode' := readField_eq hmode (rfl : readText [] (.string c.mode) = some c.mode)
  have hservers' := readField_eq hservers (readTexts_texts c.servers)
  have hfilter' := readField_eq hfilter (readTexts_texts c.fakeIPFilter)
  have hread : ∀ l, readAddresses (texts l) = some l := fun l => by
    rw [readAddresses, readTexts_texts]
    rfl
  have hhosts' := readField_omitEmpty hhosts List.isEmpty_iff.mp (readMap_object hread c.hosts hkeys)
  have hdirect' : readField readTexts {} "directServers".toList (dnsMembers c) = some ⟨c.directServers, []⟩ :=
    readField_omitEmpty hdirect (fun hempty => by rw [List.isEmpty_iff.mp hempty]) (readTexts_texts c.directServers)
  rw [readDns]
  simp only [Option.bind_eq_bind, hmode', hservers', hfilter', hhosts', hdirect', Option.bind_some]
  rfl

theorem fits_omitEmpty {d : Nat} {empty : Bool} {key : Text} {v : Json} (h : Fits v d) :
    ∀ m ∈ omitEmpty empty key v, Fits m.2 d := by
  cases empty with
  | true => exact List.forall_mem_nil _
  | false => exact List.forall_mem_singleton.mpr h

theorem fits_dns (c : DnsConfig) : Fits (.object (dnsMembers c)) 9999 := by
  refine fits_object (List.forall_mem_append.mpr ⟨List.forall_mem_append.mpr ⟨?_, fits_omitEmpty ?_⟩, fits_omitEmpty (fits_texts _)⟩)
  · simp only [List.forall_mem_cons]
    exact ⟨trivial, fits_texts _, fits_texts _, List.forall_mem_nil _⟩
  · exact fits_map fits_texts c.hosts

end ReadBack

section Request

variable (req : EngineStartRequest)

theorem fits_request : ∀ m ∈ req.members, Fits m.2 9999 := by
  have hstring : ∀ s : Text, Fits (.string s) 9998 := fun _ => trivial
  refine List.forall_mem_append.mpr ⟨List.forall_mem_append.mpr ⟨?_, fits_omitEmpty (fits_map hstring req.opts)⟩, fun m hm => ?_⟩
  · simp only [List.forall_mem_cons]
    exact ⟨trivial, ⟨req.tunFd.toInt, rfl⟩, trivial, ⟨req.logLevel.toInt, rfl⟩, List.forall_mem_nil _⟩
  · obtain ⟨c, -, rfl⟩ := Option.map_eq_some_iff.mp (Option.mem_toList.mp hm)
    exact fits_dns c

/-- What stands under the names of the request's fields. -/
theorem members_values :
    fieldValues "config".toList req.members = [.string req.config] ∧ fieldValues "tunFd".toList req.members = [int64 req.tunFd] ∧
      fieldValues "dns".toList req.members = [.string req.dns] ∧ fieldValues "logLevel".toList req.members = [int64 req.logLevel] ∧
      fieldValues "opts".toList req.members = (if req.opts.isEmpty then [] else [optsJson req.opts]) ∧
      fieldValues "dnsConfig".toList req.members = (req.dnsConfig.map fun c => Json.object (dnsMembers c)).toList := by
  unfold EngineStartRequest.members
  cases req.opts.isEmpty <;> cases req.dnsConfig <;> exact ⟨rfl, rfl, rfl, rfl, rfl, rfl⟩

/-- The service starts the engine with the request the host made. -/
theorem readRequest_write : readRequest (write (.object req.members)) = some req.received := by
  obtain ⟨hconfig, htun, hdns, hlevel, hopts, hpointer⟩ := members_values req
  have hconfig' := readField_eq hconfig (rfl : readText [] (.string req.config) = some req.config)
  have htun' := readField_eq htun (readInt64_int64 0 req.tunFd)
  have hdns' := readField_eq hdns (rfl : readText [] (.string req.dns) = some req.dns)
  have hlevel' := readField_eq hlevel (readInt64_int64 0 req.logLevel)
  have hread : ∀ s : Text, readText [] (.string s) = some s := fun _ => rfl
  have hopts' := readField_omitEmpty hopts List.isEmpty_iff.mp (readMap_object hread req.opts req.optsKeys)
  have hpointer' : (readField dnsPointer none "dnsConfig".toList req.members).bind (·.mapM readDns) =
      some req.received.dnsConfig := by
    unfold EngineStartRequest.received
    cases hc : req.dnsConfig with
    | none =>
        rw [hc] at hpointer
        rw [readField_absent hpointer]
        rfl
    | some c =>
        rw [hc] at hpointer
        have hobject : dnsPointer none (.object (dnsMembers c)) = some (some (dnsMembers c)) := by
          rw [dnsPointer, readDns_members (req.hostsKeys c hc)]
          rfl
        rw [readField_eq hpointer hobject, Option.bind_some, Option.mapM_some, readDns_members (req.hostsKeys c hc)]
        rfl
  rw [readRequest, unmarshalObject_write (fits_request req)]
  simp only [Option.bind_eq_bind, Option.bind_some, hconfig', htun', hdns', hlevel', hopts', hpointer']
  rfl

end Request

/-! ### Commands -/

/-- What the library can ask for, with the request of a start as either side has it. -/
inductive Command (ρ : Type) where
  | ping
  | engineStart (engineID : Text) (req : ρ) (mtu udpTimeoutSec : Int64)
  | engineStop (engineID : Text)
  | engineStatus (engineID : Text)
  | setStatusVerbosity (level : Int64)
  | setConnInspector (enabled : Bool)
  | setMemoryLimit (bytes : Int64)
  | listenStats (intervalMS : Int64)
  | stopStats
  | replaySession

def Command.received : Command EngineStartRequest → Command ReadRequest
  | .ping => .ping
  | .engineStart engineID req mtu udpTimeoutSec => .engineStart engineID req.received mtu udpTimeoutSec
  | .engineStop engineID => .engineStop engineID
  | .engineStatus engineID => .engineStatus engineID
  | .setStatusVerbosity level => .setStatusVerbosity level
  | .setConnInspector enabled => .setConnInspector enabled
  | .setMemoryLimit bytes => .setMemoryLimit bytes
  | .listenStats intervalMS => .listenStats intervalMS
  | .stopStats => .stopStats
  | .replaySession => .replaySession

def Command.action {ρ : Type} : Command ρ → Text
  | .ping => "ping".toList
  | .engineStart .. => "engine_start".toList
  | .engineStop _ => "engine_stop".toList
  | .engineStatus _ => "engine_status".toList
  | .setStatusVerbosity _ => "set_status_verbosity".toList
  | .setConnInspector _ => "set_conn_inspector".toList
  | .setMemoryLimit _ => "set_memory_limit".toList
  | .listenStats _ => "listen_stats".toList
  | .stopStats => "stop_stats".toList
  | .replaySession => "replay_session".toList

/-- The map a caller of `callService` passes, in the order of its keys. -/
def Command.payload : Command EngineStartRequest → Option (List (Text × Json))
  | .engineStart engineID req mtu udpTimeoutSec =>
      some [("engineId".toList, .string engineID), ("mtu".toList, int64 mtu),
        ("request".toList, .string (write (.object req.members))), ("udpTimeoutSec".toList, int64 udpTimeoutSec)]
  | .engineStop engineID => some [("engineId".toList, .string engineID)]
  | .engineStatus engineID => some [("engineId".toList, .string engineID)]
  | .setStatusVerbosity level => some [("level".toList, int64 level)]
  | .setConnInspector enabled => some [("enabled".toList, .bool enabled)]
  | .setMemoryLimit bytes => some [("bytes".toList, int64 bytes)]
  | .listenStats intervalMS => some [("interval_ms".toList, int64 intervalMS)]
  | .ping | .stopStats | .replaySession => none

def Command.members (c : Command EngineStartRequest) : List (Text × Json) :=
  ("action".toList, .string c.action) :: (c.payload.map fun ms => ("payload".toList, Json.object ms)).toList

/-! ### The service's side -/

/-- The payload is kept as it came and read once the action is known. -/
structure PipeCommand where
  action : Text
  payload : Option Json

def readRaw (_ : Option Json) (v : Json) : Option (Option Json) := some (some v)

/-- What a JSON value sets the members of a struct to. -/
def structMembers : Json → Option (List (Text × Json))
  | .object ms => some ms
  | .null => some []
  | _ => none

def readCommand (v : Json) : Option PipeCommand := do
  let ms ← structMembers v
  return {
    action := ← readField readText [] "action".toList ms
    payload := ← readField readRaw none "payload".toList ms }

inductive CommandError where
  | invalidPayload
  | invalidRequest
  | interval
  | unknownAction (action : Text)
  deriving DecidableEq

/-- A payload with one field. -/
def onePayload {α : Type} (read : α → Json → Option α) (zero : α) (name : Text) (payload : Option Json) :
    Except CommandError α :=
  match (payload.bind structMembers).bind (readField read zero name) with
  | some a => .ok a
  | none => .error .invalidPayload

def startPayload (payload : Option Json) : Except CommandError (Command ReadRequest) :=
  match (payload.bind structMembers).bind fun ms => do
      let engineID ← readField readText [] "engineId".toList ms
      let request ← readField readText [] "request".toList ms
      let mtu ← readField readInt64 0 "mtu".toList ms
      let udpTimeoutSec ← readField readInt64 0 "udpTimeoutSec".toList ms
      return (engineID, request, mtu, udpTimeoutSec) with
  | none => .error .invalidPayload
  | some (engineID, request, mtu, udpTimeoutSec) =>
      match readRequest request with
      | none => .error .invalidRequest
      | some req => .ok (.engineStart engineID req mtu udpTimeoutSec)

/-- `dispatchCommand` up to what it does. -/
def parseCommand (cmd : PipeCommand) : Except CommandError (Command ReadRequest) :=
  let action := toLower (trimSpace cmd.action)
  if action = "ping".toList then .ok .ping
  else if action = "engine_start".toList then startPayload cmd.payload
  else if action = "engine_stop".toList then
    (onePayload readText [] "engineId".toList cmd.payload).map .engineStop
  else if action = "engine_status".toList then
    (onePayload readText [] "engineId".toList cmd.payload).map .engineStatus
  else if action = "set_status_verbosity".toList then
    (onePayload readInt64 0 "level".toList cmd.payload).map .setStatusVerbosity
  else if action = "set_conn_inspector".toList then
    (onePayload readBool false "enabled".toList cmd.payload).map .setConnInspector
  else if action = "set_memory_limit".toList then
    (onePayload readInt64 0 "bytes".toList cmd.payload).map .setMemoryLimit
  else if action = "listen_stats".toList then
    (onePayload readInt64 0 "interval_ms".toList cmd.payload).bind fun intervalMS =>
      if intervalMS ≤ 0 then .error .interval else .ok (.listenStats intervalMS)
  else if action = "stop_stats".toList then .ok .stopStats
  else if action = "replay_session".toList then .ok .replaySession
  else .error (.unknownAction cmd.action)

structure PipeResponse where
  ok : Bool
  error : Text := []
  data : Option (List (Text × Json)) := none

def PipeResponse.members (resp : PipeResponse) : List (Text × Json) :=
  [("ok".toList, .bool resp.ok)] ++ omitEmpty resp.error.isEmpty "error".toList (.string resp.error)
    ++ (resp.data.map fun ms => ("data".toList, Json.object ms)).toList

def failed (isPrint : Char → Bool) (engineID what : Text) (code : Int32) : Text :=
  "engine ".toList ++ GoQuote.quote isPrint (engineID.map .rune) ++ " ".toList ++ what ++ " failed: code ".toList
    ++ formatInt code.toInt

/-- What `dispatchCommand` does for a command it could read; `run` is the result the controller gives. -/
def dispatch (isPrint : Char → Bool) (run : Command ReadRequest → Int32) (c : Command ReadRequest) : PipeResponse :=
  match c with
  | .ping => { ok := true, data := some [("message".toList, .string "pong".toList)] }
  | .engineStart engineID .. =>
      if run c ≠ 0 then { ok := false, error := failed isPrint engineID "start".toList (run c) } else { ok := true }
  | .engineStop engineID =>
      if run c ≠ 0 then { ok := false, error := failed isPrint engineID "stop".toList (run c) } else { ok := true }
  | .engineStatus _ => { ok := true, data := some [("running".toList, .bool (run c == 0))] }
  | _ => { ok := true }

/-- The text of a refusal; `decodeError` is what the JSON library says. -/
def CommandError.text (decodeError : Text) : CommandError → Text
  | .invalidPayload => "invalid payload: ".toList ++ decodeError
  | .invalidRequest => "invalid request: ".toList ++ decodeError
  | .interval => "interval_ms must be > 0".toList
  | .unknownAction action => "unknown action: ".toList ++ action

section Pipe

variable (isPrint : Char → Bool) (decodeError : Text) (run : Command ReadRequest → Int32)

def dispatchCommand (cmd : PipeCommand) : PipeResponse :=
  match parseCommand cmd with
  | .error e => { ok := false, error := e.text decodeError }
  | .ok c => dispatch isPrint run c

/-- One turn of `handleCommandConnection`: what it writes for the text it reads. -/
def handleCommand (text : Text) : Text :=
  let resp : PipeResponse := match (decode text).bind fun (v, _) => readCommand v with
    | none => { ok := false, error := "decode error: ".toList ++ decodeError }
    | some cmd => dispatchCommand isPrint decodeError run cmd
  write (.object resp.members) ++ "\n".toList

/-! ### The library's side -/

structure ServiceResponse where
  ok : Bool
  error : Text
  data : Option Json

def readResponse (v : Json) : Option ServiceResponse := do
  let ms ← structMembers v
  return {
    ok := ← readField readBool false "ok".toList ms
    error := ← readField readText [] "error".toList ms
    data := ← readField readRaw none "data".toList ms }

/-- `callService` on a connection that holds: the error it returns, or the answer's data. -/
def callService (c : Command EngineStartRequest) : Except Text (Option Json) :=
  match (decode (handleCommand isPrint decodeError run (write (.object c.members) ++ "\n".toList))).bind
      fun (v, _) => readResponse v with
  | none => .error ("read response: ".toList ++ decodeError)
  | some resp =>
      if resp.ok then .ok resp.data
      else .error (if resp.error = [] then "service reported failure".toList else resp.error)

def serviceEngineStatus (engineID : Text) : Except Text Bool :=
  match callService isPrint decodeError run (.engineStatus engineID) with
  | .error e => .error e
  | .ok none => .ok false
  | .ok (some data) =>
      match (structMembers data).bind (readField readBool false "running".toList) with
      | some running => .ok running
      | none => .error decodeError

end Pipe

/-! ### A call across the pipe -/

theorem onePayload_eq {α : Type} {read : α → Json → Option α} {zero a : α} {name : Text} {ms : List (Text × Json)} {v : Json}
    (hvalues : fieldValues name ms = [v]) (hread : read zero v = some a) :
    onePayload read zero name (some (.object ms)) = .ok a := by
  rw [onePayload, Option.bind_some, structMembers, Option.bind_some, readField_eq hvalues hread]

theorem startPayload_eq (engineID : Text) (req : EngineStartRequest) (mtu udpTimeoutSec : Int64) :
    startPayload ((Command.engineStart engineID req mtu udpTimeoutSec).payload.map .object) =
      .ok (.engineStart engineID req.received mtu udpTimeoutSec) := by
  let ms := [("engineId".toList, Json.string engineID), ("mtu".toList, int64 mtu),
    ("request".toList, .string (write (.object req.members))), ("udpTimeoutSec".toList, int64 udpTimeoutSec)]
  have hid : readField readText [] "engineId".toList ms = some engineID := readField_eq rfl rfl
  have hrequest : readField readText [] "request".toList ms = some (write (.object req.members)) := readField_eq rfl rfl
  have hmtu : readField readInt64 0 "mtu".toList ms = some mtu := readField_eq rfl (readInt64_int64 0 mtu)
  have hudp : readField readInt64 0 "udpTimeoutSec".toList ms = some udpTimeoutSec :=
    readField_eq rfl (readInt64_int64 0 udpTimeoutSec)
  have hpayload : (Command.engineStart engineID req mtu udpTimeoutSec).payload.map Json.object = some (.object ms) := rfl
  rw [hpayload, startPayload, Option.bind_some, structMembers, Option.bind_some]
  simp only [Option.bind_eq_bind, hid, hrequest, hmtu, hudp, Option.bind_some, Option.pure_def, readRequest_write]

/-- The service reads the command the library sent; it refuses no interval but one that is not positive. -/
theorem parseCommand_sent (c : Command EngineStartRequest) (hinterval : ∀ ms, c = .listenStats ms → 0 < ms) :
    parseCommand ⟨c.action, c.payload.map .object⟩ = .ok c.received := by
  cases c with
  | engineStart engineID req mtu udpTimeoutSec => exact startPayload_eq engineID req mtu udpTimeoutSec
  | setStatusVerbosity level =>
      exact congrArg (Except.map Command.setStatusVerbosity) (onePayload_eq rfl (readInt64_int64 0 level))
  | setMemoryLimit bytes =>
      exact congrArg (Except.map Command.setMemoryLimit) (onePayload_eq rfl (readInt64_int64 0 bytes))
  | listenStats intervalMS =>
      have hpayload : onePayload readInt64 0 "interval_ms".toList (some (.object [("interval_ms".toList, int64 intervalMS)])) =
          .ok intervalMS := onePayload_eq rfl (readInt64_int64 0 intervalMS)
      have hpositive : ¬ intervalMS ≤ 0 := Int64.not_le.mpr (hinterval intervalMS rfl)
      exact (congrArg (Except.bind · fun ms => if ms ≤ 0 then .error .interval else .ok (Command.listenStats ms)) hpayload).trans
        (if_neg hpositive)
  | _ => rfl

theorem readCommand_members (c : Command EngineStartRequest) :
    readCommand (.object c.members) = some ⟨c.action, c.payload.map .object⟩ := by
  have haction : readField readText [] "action".toList c.members = some c.action := by
    refine readField_eq ?_ (rfl : readText [] (.string c.action) = some c.action)
    unfold Command.members
    cases c.payload <;> rfl
  have hpayload : readField readRaw none "payload".toList c.members = some (c.payload.map .object) := by
    unfold Command.members
    cases c.payload <;> rfl
  rw [readCommand, structMembers]
  simp only [Option.bind_eq_bind, Option.bind_some, haction, hpayload]
  rfl

theorem response_values (resp : PipeResponse) :
    fieldValues "ok".toList resp.members = [.bool resp.ok] ∧
      fieldValues "error".toList resp.members = (if resp.error.isEmpty then [] else [.string resp.error]) ∧
      fieldValues "data".toList resp.members = (resp.data.map Json.object).toList := by
  unfold PipeResponse.members
  cases resp.error.isEmpty <;> cases resp.data <;> exact ⟨rfl, rfl, rfl⟩

theorem readResponse_members (resp : PipeResponse) :
    readResponse (.object resp.members) = some ⟨resp.ok, resp.error, resp.data.map .object⟩ := by
  obtain ⟨hok, herror, hdata⟩ := response_values resp
  have hok' := readField_eq hok (rfl : readBool false (.bool resp.ok) = some resp.ok)
  have herror' := readField_omitEmpty herror List.isEmpty_iff.mp (rfl : readText [] (.string resp.error) = some resp.error)
  have hdata' : readField readRaw none "data".toList resp.members = some (resp.data.map .object) := by
    rw [readField, hdata]
    cases resp.data <;> rfl
  rw [readResponse, structMembers]
  simp only [Option.bind_eq_bind, Option.bind_some, hok', herror', hdata']
  rfl

/-- Every value of a command's payload is a text, a boolean or an integer. -/
theorem fits_payload (c : Command EngineStartRequest) : ∀ ms ∈ c.payload, ∀ m ∈ ms, Fits m.2 9998 := by
  have hint : ∀ n : Int64, Fits (int64 n) 9998 := fun n => ⟨n.toInt, rfl⟩
  intro ms hms
  cases c with
  | engineStart engineID req mtu udpTimeoutSec =>
      cases hms
      simp only [List.forall_mem_cons]
      exact ⟨trivial, hint _, trivial, hint _, List.forall_mem_nil _⟩
  | setStatusVerbosity level | setMemoryLimit level | listenStats level =>
      cases hms
      exact List.forall_mem_singleton.mpr (hint _)
  | engineStop value | engineStatus value | setConnInspector value =>
      cases hms
      exact List.forall_mem_singleton.mpr trivial
  | _ => cases hms

/-- A message with one flat object in it is read off the pipe whole. -/
theorem decode_message (front : List (Text × Json)) (key : Text) (body : Option (List (Text × Json)))
    (hfront : ∀ m ∈ front, Fits m.2 9999) (hbody : ∀ ms ∈ body, ∀ m ∈ ms, Fits m.2 9998) :
    decode (write (.object (front ++ (body.map fun ms => (key, Json.object ms)).toList)) ++ "\n".toList) =
      some (.object (front ++ (body.map fun ms => (key, Json.object ms)).toList), "\n".toList) := by
  have hstops : Stops "\n".toList := by
    intro c hc
    obtain rfl := Option.some.inj hc
    decide
  refine decode_write (fits_object (List.forall_mem_append.mpr ⟨hfront, fun m hm => ?_⟩)) hstops
  obtain ⟨ms, hms, rfl⟩ := Option.map_eq_some_iff.mp (Option.mem_toList.mp hm)
  exact fits_object (hbody ms hms)

theorem fits_dispatch (isPrint : Char → Bool) (run : Command ReadRequest → Int32) (c : Command ReadRequest) :
    ∀ ms ∈ (dispatch isPrint run c).data, ∀ m ∈ ms, Fits m.2 9998 := by
  intro ms hms
  cases c with
  | ping | engineStatus engineID =>
      cases hms
      exact List.forall_mem_singleton.mpr trivial
  | engineStart engineID _ _ _ | engineStop engineID =>
      unfold dispatch at hms
      simp only at hms
      split at hms <;> cases hms
  | _ => cases hms

section Calls

variable (isPrint : Char → Bool) (decodeError : Text) (run : Command ReadRequest → Int32)

/-- What a caller learns of an answer. -/
def reported (resp : PipeResponse) : Except Text (Option Json) :=
  if resp.ok then .ok (resp.data.map .object)
  else .error (if resp.error = [] then "service reported failure".toList else resp.error)

/-- What is written for a command is read off the pipe as that command. -/
theorem readCommand_sent (c : Command EngineStartRequest) :
    ((decode (write (.object c.members) ++ "\n".toList)).bind fun (v, _) => readCommand v) =
      some ⟨c.action, c.payload.map .object⟩ := by
  have hdecode : decode (write (.object c.members) ++ "\n".toList) = some (.object c.members, "\n".toList) :=
    decode_message [("action".toList, .string c.action)] "payload".toList c.payload
      (List.forall_mem_singleton.mpr trivial) (fits_payload c)
  rw [hdecode, Option.bind_some]
  exact readCommand_members c

theorem handleCommand_sent (c : Command EngineStartRequest) (hinterval : ∀ ms, c = .listenStats ms → 0 < ms) :
    handleCommand isPrint decodeError run (write (.object c.members) ++ "\n".toList) =
      write (.object (dispatch isPrint run c.received).members) ++ "\n".toList := by
  rw [handleCommand, readCommand_sent]
  dsimp only
  rw [dispatchCommand, parseCommand_sent c hinterval]

theorem callService_answers (c : Command EngineStartRequest) (hinterval : ∀ ms, c = .listenStats ms → 0 < ms) :
    callService isPrint decodeError run c = reported (dispatch isPrint run c.received) := by
  let resp := dispatch isPrint run c.received
  have hfront : ∀ m ∈ [("ok".toList, Json.bool resp.ok)] ++ omitEmpty resp.error.isEmpty "error".toList (.string resp.error),
      Fits m.2 9999 :=
    List.forall_mem_append.mpr ⟨List.forall_mem_singleton.mpr trivial, fits_omitEmpty trivial⟩
  have hdecode : decode (write (.object resp.members) ++ "\n".toList) = some (.object resp.members, "\n".toList) :=
    decode_message _ "data".toList resp.data hfront (fits_dispatch isPrint run c.received)
  rw [callService, handleCommand_sent isPrint decodeError run c hinterval, hdecode, Option.bind_some]
  simp only [readResponse_members]
  rfl

theorem serviceEngineStatus_eq (engineID : Text) :
    serviceEngineStatus isPrint decodeError run engineID = .ok (run (.engineStatus engineID) == 0) := by
  have hinterval : ∀ ms, (.engineStatus engineID : Command EngineStartRequest) = .listenStats ms → 0 < ms :=
    fun _ h => by cases h
  have hreported : reported (dispatch isPrint run (Command.received (.engineStatus engineID))) =
      .ok (some (.object [("running".toList, .bool (run (.engineStatus engineID) == 0))])) := rfl
  have hrunning : readField readBool false "running".toList [("running".toList, .bool (run (.engineStatus engineID) == 0))] =
      some (run (.engineStatus engineID) == 0) := readField_eq rfl rfl
  unfold serviceEngineStatus
  rw [callService_answers isPrint decodeError run _ hinterval, hreported]
  simp only [structMembers, Option.bind_some, hrunning]

/-- The service reads the command with the host's own arguments, a call comes to what the service does for it, and the
status a caller is told is the one the service's controller gives. -/
theorem calls_reach_service (c : Command EngineStartRequest) (hinterval : ∀ ms, c = .listenStats ms → 0 < ms) :
    (∃ cmd, ((decode (write (.object c.members) ++ "\n".toList)).bind fun (v, _) => readCommand v) = some cmd ∧
        parseCommand cmd = .ok c.received) ∧
      callService isPrint decodeError run c = reported (dispatch isPrint run c.received) ∧
      ∀ engineID, serviceEngineStatus isPrint decodeError run engineID = .ok (run (.engineStatus engineID) == 0) :=
  ⟨⟨_, readCommand_sent c, parseCommand_sent c hinterval⟩, callService_answers isPrint decodeError run c hinterval,
    serviceEngineStatus_eq isPrint decodeError run⟩

end Calls

def sampleOpts : List (Text × Text) := [("awgPicked".toList, "1".toList), ("disableIPv6".toList, "on".toList)]

def sampleDns : DnsConfig :=
  { mode := "fake-ip".toList, servers := ["1.1.1.1".toList], hosts := [("nas.lan".toList, ["10.0.0.2".toList])] }

theorem nodup_sampleOpts : (sampleOpts.map Prod.fst).Nodup := by decide

theorem nodup_sampleDns : ∀ c ∈ some sampleDns, (c.hosts.map Prod.fst).Nodup := by
  intro c hc
  cases hc
  decide

def sampleRequest : EngineStartRequest where
  config := "awg://\n\"key\"".toList
  tunFd := -1
  dns := []
  logLevel := 2
  opts := sampleOpts
  dnsConfig := some sampleDns
  optsKeys := nodup_sampleOpts
  hostsKeys := nodup_sampleDns

theorem callService_refused : (∀ ms, Command.engineStart "awg".toList sampleRequest 1420 30 = .listenStats ms → 0 < ms) ∧
    callService (fun _ => true) [] (fun _ => 1) (.engineStart "awg".toList sampleRequest 1420 30) =
      .error "engine \"awg\" start failed: code 1".toList := by
  have hinterval : ∀ ms, Command.engineStart "awg".toList sampleRequest 1420 30 = .listenStats ms → 0 < ms :=
    fun _ h => by cases h
  refine ⟨hinterval, (calls_reach_service (fun _ => true) [] (fun _ => 1) _ hinterval).2.1.trans ?_⟩
  rfl

end GlitchCore.Core.Service
