import GlitchCore.Base.Runs
import Mathlib.Data.List.Infix
import Mathlib.Data.List.Pairwise

/-!
# The stream across the bridge

`bridgePipe` is a connection in memory. A chunk crosses it in two steps: the writer offers what it has left, the
reader takes the chunk and answers with the number of bytes it took. Both sides wait in a `select` that also sees the
ends close, so either may leave before the chunk is handed over but neither between the chunk and the answer. The two
directions share nothing but the `Close` of the two ends.
-/

namespace GlitchCore.Core.Pipe

/-! ### One direction -/

abbrev Bytes := List UInt8

/-- A read deadline. A channel is made only after the one before it was closed, so the channels are numbered and all
but the last are closed. -/
structure Deadline where
  channel : Nat := 0
  closed : Bool := false
  deriving DecidableEq, Repr

def Deadline.expired (d : Deadline) (channel : Nat) : Bool := channel < d.channel || d.closed

def Deadline.renewed (d : Deadline) : Deadline := if d.closed then ⟨d.channel + 1, false⟩ else d

/-- Where the `Write` that has `wrMu` stands. -/
inductive WritePlace where
  | checkLocal
  | checkWrite
  | checkRemote
  | offer
  | await
  deriving DecidableEq, Repr

/-- A `Write` that has `wrMu`: what it was called with, what it has left and what it counts. -/
structure Writing where
  data : Bytes
  rest : Bytes
  n : Nat
  place : WritePlace
  deriving DecidableEq, Repr

/-- A `Write` that has returned `n`, with `io.ErrClosedPipe` if it failed. -/
structure Written where
  data : Bytes
  n : Nat
  failed : Bool
  deriving DecidableEq, Repr

inductive ReadPlace where
  | checkLocal
  | checkRemote
  | checkPeer
  | checkExpired
  | select
  /-- It has the chunk and owes the answer. -/
  | holding (chunk : Bytes)
  deriving DecidableEq, Repr

/-- A `Read` under way: the size of its buffer and the channel of the deadline it waits on. -/
structure Reading where
  size : Nat
  expired : Nat
  place : ReadPlace
  deriving DecidableEq, Repr

inductive Result where
  | data (bytes : Bytes)
  | eof
  | closed
  | deadline
  deriving DecidableEq, Repr

/-- What the writes of one end and the reads of the other share. -/
structure Direction where
  /-- The `Write`s that wait for `wrMu`. -/
  waiting : List Bytes := []
  current : Option Writing := none
  /-- In the order they had `wrMu`. -/
  returned : List Written := []
  reading : Option Reading := none
  /-- What the `Read`s have returned, in their order. -/
  results : List Result := []
  writeDone : Bool := false
  deadline : Deadline := {}
  deriving DecidableEq, Repr

/-- A closed channel the `select` of a `Write` sees. -/
inductive WriteSignal where
  | localDone
  | writeDone
  | remoteDone
  deriving DecidableEq, Repr

inductive ReadSignal where
  | localDone
  | remoteDone
  | peerWriteDone
  | expired
  deriving DecidableEq, Repr

inductive Act where
  /-- `Write` is called. -/
  | write (data : Bytes)
  /-- A waiting `Write` gets `wrMu`. -/
  | grant (i : Nat)
  /-- The next check of the `Write` that has it. -/
  | checkWrite
  | leaveWrite (why : WriteSignal)
  /-- `Read` is called. -/
  | read (size : Nat)
  | checkRead
  | leaveRead (why : ReadSignal)
  /-- The two selects meet on the chunk. -/
  | pass
  /-- The answer is handed back. -/
  | answer
  | closeWrite
  /-- The deadline is moved to a later time or taken away. -/
  | renew
  /-- It is moved to the past, or its timer fires. -/
  | expire
  deriving DecidableEq, Repr

section

variable (writerDone readerDone : Bool)

def Direction.failWrite (d : Direction) (w : Writing) : Direction :=
  { d with current := none, returned := d.returned ++ [⟨w.data, w.n, true⟩] }

def Direction.endRead (d : Direction) (r : Result) : Direction :=
  { d with reading := none, results := d.results ++ [r] }

def Direction.placeWrite (d : Direction) (w : Writing) (place : WritePlace) : Direction :=
  { d with current := some { w with place } }

def Direction.placeRead (d : Direction) (r : Reading) (place : ReadPlace) : Direction :=
  { d with reading := some { r with place } }

/-- The three tests before the `select` of a `Write`, one by one. -/
def Direction.checkWrite (d : Direction) (w : Writing) : Option Direction :=
  match w.place with
  | .checkLocal => some (if writerDone then d.failWrite w else d.placeWrite w .checkWrite)
  | .checkWrite => some (if d.writeDone then d.failWrite w else d.placeWrite w .checkRemote)
  | .checkRemote => some (if readerDone then d.failWrite w else d.placeWrite w .offer)
  | _ => none

def WriteSignal.closed (d : Direction) : WriteSignal → Bool
  | .localDone => writerDone
  | .writeDone => d.writeDone
  | .remoteDone => readerDone

def Direction.checkRead (d : Direction) (r : Reading) : Option Direction :=
  match r.place with
  | .checkLocal => some (if readerDone then d.endRead .closed else d.placeRead r .checkRemote)
  | .checkRemote => some (if writerDone then d.endRead .eof else d.placeRead r .checkPeer)
  | .checkPeer => some (if d.writeDone then d.endRead .eof else d.placeRead r .checkExpired)
  | .checkExpired => some (if d.deadline.expired r.expired then d.endRead .deadline else d.placeRead r .select)
  | _ => none

def ReadSignal.closed (d : Direction) (r : Reading) : ReadSignal → Bool
  | .localDone => readerDone
  | .remoteDone => writerDone
  | .peerWriteDone => d.writeDone
  | .expired => d.deadline.expired r.expired

def ReadSignal.result : ReadSignal → Result
  | .localDone => .closed
  | .remoteDone | .peerWriteDone => .eof
  | .expired => .deadline

/-- The answer: the `Read` returns what fits its buffer, the `Write` counts it and goes on with the rest. -/
def Direction.answer (d : Direction) (w : Writing) (r : Reading) (chunk : Bytes) : Direction :=
  let taken := min r.size chunk.length
  let rest := w.rest.drop taken
  let d := d.endRead (.data (chunk.take taken))
  if rest = [] then { d with current := none, returned := d.returned ++ [⟨w.data, w.n + taken, false⟩] }
  else { d with current := some ⟨w.data, rest, w.n + taken, .checkLocal⟩ }

def Direction.step (d : Direction) : Act → Option Direction
  | .write data => some { d with waiting := d.waiting ++ [data] }
  | .grant i =>
      match d.current, d.waiting[i]? with
      | none, some data => some { d with waiting := d.waiting.eraseIdx i, current := some ⟨data, data, 0, .checkLocal⟩ }
      | _, _ => none
  | .checkWrite => d.current.bind fun w => d.checkWrite writerDone readerDone w
  | .leaveWrite why =>
      d.current.bind fun w =>
        if w.place = .offer ∧ why.closed writerDone readerDone d then some (d.failWrite w) else none
  | .read size =>
      match d.reading with
      | none => some { d with reading := some ⟨size, d.deadline.channel, .checkLocal⟩ }
      | some _ => none
  | .checkRead => d.reading.bind fun r => d.checkRead writerDone readerDone r
  | .leaveRead why =>
      d.reading.bind fun r =>
        if r.place = .select ∧ why.closed writerDone readerDone d r then some (d.endRead why.result) else none
  | .pass =>
      d.current.bind fun w => d.reading.bind fun r =>
        if w.place = .offer ∧ r.place = .select then some ((d.placeWrite w .await).placeRead r (.holding w.rest))
        else none
  | .answer =>
      match d.current, d.reading with
      | some w, some ⟨size, expired, .holding chunk⟩ =>
          if w.place = .await then some (d.answer w ⟨size, expired, .holding chunk⟩ chunk) else none
      | _, _ => none
  | .closeWrite => some { d with writeDone := true }
  | .renew => some { d with deadline := d.deadline.renewed }
  | .expire => some { d with deadline := { d.deadline with closed := true } }

end

/-! ### The two ends -/

inductive End where
  | a
  | b
  deriving DecidableEq, Repr

def End.peer : End → End
  | .a => .b
  | .b => .a

/-- `direction e` carries what end `e` writes. -/
structure Connection where
  done : End → Bool := fun _ => false
  direction : End → Direction := fun _ => {}

inductive Action where
  | dir (e : End) (act : Act)
  | close (e : End)
  deriving DecidableEq, Repr

def Connection.step (c : Connection) : Action → Option Connection
  | .dir e act =>
      ((c.direction e).step (c.done e) (c.done e.peer) act).map fun d =>
        { c with direction := fun e' => if e' = e then d else c.direction e' }
  | .close e => some { c with done := fun e' => if e' = e then true else c.done e' }

def Connection.run (c : Connection) (acts : List Action) : Option Connection := Runs.exec Connection.step c acts

/-! ### What is read and what is taken -/

def Result.bytes : Result → Bytes
  | .data bytes => bytes
  | _ => []

/-- The bytes the `Read`s have returned. -/
def Direction.bytesRead (d : Direction) : Bytes := d.results.flatMap Result.bytes

/-- What each `Write` that has had `wrMu` was called with and how much of it was taken, in the order of the grants. -/
def Direction.granted (d : Direction) : List (Bytes × Nat) :=
  d.returned.map (fun w => (w.data, w.n)) ++ (d.current.map fun w => (w.data, w.n)).toList

def taken (w : Bytes × Nat) : Bytes := w.1.take w.2

def Direction.bytesTaken (d : Direction) : Bytes := d.granted.flatMap taken

/-- A `Read` that stands here comes to no chunk: a channel it has yet to test is closed. -/
def Bars (writerDone writeDone : Bool) : ReadPlace → Prop
  | .checkLocal | .checkRemote => writerDone = true ∨ writeDone = true
  | .checkPeer => writeDone = true
  | _ => False

/-- What one step does to a direction. -/
inductive Effect (writerDone : Bool) (d : Direction) : Direction → Prop
  | aside (waiting : List Bytes) (writeDone : Bool) (deadline : Deadline) (hkeep : d.writeDone = true → writeDone = true) :
      Effect writerDone d { d with waiting, writeDone, deadline }
  | grant (waiting : List Bytes) (data : Bytes) (hcurrent : d.current = none) :
      Effect writerDone d { d with waiting, current := some ⟨data, data, 0, .checkLocal⟩ }
  | placeWrite (w : Writing) (place : WritePlace) (hcurrent : d.current = some w) (hw : w.place ≠ .await) :
      Effect writerDone d (d.placeWrite w place)
  | failWrite (w : Writing) (hcurrent : d.current = some w) (hw : w.place ≠ .await) :
      Effect writerDone d (d.failWrite w)
  | read (size expired : Nat) (hreading : d.reading = none) :
      Effect writerDone d { d with reading := some ⟨size, expired, .checkLocal⟩ }
  | placeRead (r : Reading) (place : ReadPlace) (hreading : d.reading = some r)
      (hbars : Bars writerDone d.writeDone r.place → Bars writerDone d.writeDone place)
      (hplace : ∀ chunk, place ≠ .holding chunk) : Effect writerDone d (d.placeRead r place)
  | endRead (result : Result) (hdata : ∀ bytes, result ≠ .data bytes)
      (heof : result = .eof → writerDone = true ∨ d.writeDone = true) : Effect writerDone d (d.endRead result)
  | pass (w : Writing) (r : Reading) (hcurrent : d.current = some w) (hreading : d.reading = some r)
      (hr : r.place = .select) : Effect writerDone d ((d.placeWrite w .await).placeRead r (.holding w.rest))
  | answer (w : Writing) (r : Reading) (chunk : Bytes) (hcurrent : d.current = some w) (hreading : d.reading = some r)
      (hr : r.place = .holding chunk) : Effect writerDone d (d.answer w r chunk)

section

variable {writerDone readerDone : Bool} {d d' : Direction}

theorem checkWrite_effect {w : Writing} (hcurrent : d.current = some w)
    (h : d.checkWrite writerDone readerDone w = some d') : Effect writerDone d d' := by
  have hcheck {closed : Bool} {place : WritePlace} (hw : w.place ≠ .await)
      (h : some (if closed then d.failWrite w else d.placeWrite w place) = some d') : Effect writerDone d d' := by
    obtain rfl := Option.some.inj h
    split
    · exact .failWrite w hcurrent hw
    · exact .placeWrite w place hcurrent hw
  unfold Direction.checkWrite at h
  split at h
  · exact hcheck (by rw [‹w.place = _›]; nofun) h
  · exact hcheck (by rw [‹w.place = _›]; nofun) h
  · exact hcheck (by rw [‹w.place = _›]; nofun) h
  · cases h

theorem checkRead_effect {r : Reading} (hreading : d.reading = some r)
    (h : d.checkRead writerDone readerDone r = some d') : Effect writerDone d d' := by
  unfold Direction.checkRead at h
  split at h
  · obtain rfl := Option.some.inj h
    split
    · exact .endRead .closed nofun nofun
    · exact .placeRead r .checkRemote hreading (by rw [‹r.place = _›]; exact id) nofun
  · obtain rfl := Option.some.inj h
    split
    · exact .endRead .eof nofun fun _ => .inl ‹_›
    · exact .placeRead r .checkPeer hreading (by rw [‹r.place = _›]; exact fun hbars => hbars.resolve_left ‹_›) nofun
  · obtain rfl := Option.some.inj h
    split
    · exact .endRead .eof nofun fun _ => .inr ‹_›
    · exact .placeRead r .checkExpired hreading (by rw [‹r.place = _›]; exact fun hbars => absurd hbars ‹_›) nofun
  · obtain rfl := Option.some.inj h
    split
    · exact .endRead .deadline nofun nofun
    · exact .placeRead r .select hreading (by rw [‹r.place = _›]; exact id) nofun
  · cases h

theorem leaveRead_effect {r : Reading} {why : ReadSignal} (hclosed : why.closed writerDone readerDone d r = true) :
    Effect writerDone d (d.endRead why.result) := by
  cases why with
  | localDone => exact .endRead .closed nofun nofun
  | remoteDone => exact .endRead .eof nofun fun _ => .inl hclosed
  | peerWriteDone => exact .endRead .eof nofun fun _ => .inr hclosed
  | expired => exact .endRead .deadline nofun nofun

theorem step_effect {act : Act} (h : d.step writerDone readerDone act = some d') : Effect writerDone d d' := by
  cases act with
  | write data =>
      obtain rfl := Option.some.inj h
      exact .aside _ d.writeDone d.deadline id
  | grant i =>
      unfold Direction.step at h
      dsimp only at h
      split at h
      · obtain rfl := Option.some.inj h
        exact .grant _ _ ‹_›
      · cases h
  | checkWrite =>
      obtain ⟨w, hcurrent, hcheck⟩ := Option.bind_eq_some_iff.mp h
      exact checkWrite_effect hcurrent hcheck
  | leaveWrite why =>
      obtain ⟨w, hcurrent, hleave⟩ := Option.bind_eq_some_iff.mp h
      split at hleave
      · rename_i hw
        obtain rfl := Option.some.inj hleave
        exact .failWrite w hcurrent (by rw [hw.1]; nofun)
      · cases hleave
  | read size =>
      unfold Direction.step at h
      dsimp only at h
      split at h
      · obtain rfl := Option.some.inj h
        exact .read size _ ‹_›
      · cases h
  | checkRead =>
      obtain ⟨r, hreading, hcheck⟩ := Option.bind_eq_some_iff.mp h
      exact checkRead_effect hreading hcheck
  | leaveRead why =>
      obtain ⟨r, -, hleave⟩ := Option.bind_eq_some_iff.mp h
      split at hleave
      · rename_i hr
        obtain rfl := Option.some.inj hleave
        exact leaveRead_effect hr.2
      · cases hleave
  | pass =>
      obtain ⟨w, hcurrent, hpass⟩ := Option.bind_eq_some_iff.mp h
      obtain ⟨r, hreading, hpass⟩ := Option.bind_eq_some_iff.mp hpass
      split at hpass
      · rename_i hmeet
        obtain rfl := Option.some.inj hpass
        exact .pass w r hcurrent hreading hmeet.2
      · cases hpass
  | answer =>
      unfold Direction.step at h
      dsimp only at h
      split at h
      · split at h
        · obtain rfl := Option.some.inj h
          exact .answer _ _ _ ‹_› ‹_› rfl
        · cases h
      · cases h
  | closeWrite =>
      obtain rfl := Option.some.inj h
      exact .aside d.waiting true d.deadline fun _ => rfl
  | renew =>
      obtain rfl := Option.some.inj h
      exact .aside d.waiting d.writeDone _ id
  | expire =>
      obtain rfl := Option.some.inj h
      exact .aside d.waiting d.writeDone _ id

end

/-! ### The stream of one direction -/

/-- No `Read` after one that returned EOF returns data. -/
def NoneAfterEOF (results : List Result) : Prop :=
  results.Pairwise fun earlier later => earlier = .eof → ∀ bytes, later ≠ .data bytes

structure Sound (writerDone : Bool) (d : Direction) : Prop where
  stream : d.bytesRead = d.bytesTaken
  left : ∀ w, d.current = some w → w.n ≤ w.data.length ∧ w.rest = w.data.drop w.n
  counted : ∀ w ∈ d.returned, w.n ≤ w.data.length ∧ (w.failed = false → w.n = w.data.length)
  /-- Who holds a chunk holds what the waiting `Write` has left. -/
  handed : ∀ r chunk, d.reading = some r → r.place = .holding chunk → ∃ w, d.current = some w ∧ w.place = .await ∧
    chunk = w.rest
  order : NoneAfterEOF d.results
  eof : .eof ∈ d.results → (writerDone = true ∨ d.writeDone = true) ∧
    ∀ r, d.reading = some r → Bars writerDone d.writeDone r.place

theorem Bars.mono {writerDone writerDone' writeDone writeDone' : Bool} {place : ReadPlace}
    (hwriter : writerDone = true → writerDone' = true) (hwrite : writeDone = true → writeDone' = true)
    (h : Bars writerDone writeDone place) : Bars writerDone' writeDone' place := by
  cases place with
  | checkLocal | checkRemote => exact h.imp hwriter hwrite
  | checkPeer => exact hwrite h
  | checkExpired | select | holding => exact h

section

variable {writerDone : Bool} {d d' : Direction} {w : Writing}

theorem bytesRead_endRead (d : Direction) (r : Result) : (d.endRead r).bytesRead = d.bytesRead ++ r.bytes := by
  rw [Direction.bytesRead, Direction.endRead, List.flatMap_append, List.flatMap_singleton]
  rfl

theorem granted_placeWrite (hcurrent : d.current = some w) (place : WritePlace) :
    (d.placeWrite w place).granted = d.granted := by
  rw [Direction.granted, Direction.granted, hcurrent]
  rfl

theorem granted_failWrite (hcurrent : d.current = some w) : (d.failWrite w).granted = d.granted := by
  rw [Direction.granted, Direction.granted, hcurrent]
  simp [Direction.failWrite]

theorem NoneAfterEOF.append {results : List Result} {r : Result} (h : NoneAfterEOF results)
    (hr : .eof ∈ results → ∀ bytes, r ≠ .data bytes) : NoneAfterEOF (results ++ [r]) := by
  refine List.pairwise_append.mpr ⟨h, List.pairwise_singleton .., fun earlier hearlier later hlater heof => ?_⟩
  obtain rfl := List.mem_singleton.mp hlater
  exact hr (heof ▸ hearlier)

/-- A step that changes neither the results nor what was taken, and leaves no chunk in a reader's hands that the writer
does not wait for. -/
theorem Sound.of_same (h : Sound writerDone d) (hresults : d'.results = d.results) (hgranted : d'.granted = d.granted)
    (hleft : ∀ w, d'.current = some w → w.n ≤ w.data.length ∧ w.rest = w.data.drop w.n)
    (hcounted : ∀ w ∈ d'.returned, w.n ≤ w.data.length ∧ (w.failed = false → w.n = w.data.length))
    (hhanded : ∀ r chunk, d'.reading = some r → r.place = .holding chunk → ∃ w, d'.current = some w ∧ w.place = .await ∧
      chunk = w.rest)
    (heof : .eof ∈ d.results → (writerDone = true ∨ d'.writeDone = true) ∧
      ∀ r, d'.reading = some r → Bars writerDone d'.writeDone r.place) : Sound writerDone d' where
  stream := by
    rw [Direction.bytesRead, Direction.bytesTaken, hresults, hgranted]
    exact h.stream
  left := hleft
  counted := hcounted
  handed := hhanded
  order := by
    rw [hresults]
    exact h.order
  eof := by
    rw [hresults]
    exact heof

/-- A `Write` that does not wait for its answer has given no chunk away. -/
theorem Sound.not_holding (h : Sound writerDone d) (hcurrent : ∀ w, d.current = some w → w.place ≠ .await) {r : Reading}
    {chunk : Bytes} (hreading : d.reading = some r) : r.place ≠ .holding chunk := by
  intro hr
  obtain ⟨w, hw, hawait, -⟩ := h.handed r chunk hreading hr
  exact hcurrent w hw hawait

theorem Sound.grant (h : Sound writerDone d) (waiting : List Bytes) (data : Bytes) (hcurrent : d.current = none) :
    Sound writerDone { d with waiting, current := some ⟨data, data, 0, .checkLocal⟩ } where
  stream := by
    rw [Direction.bytesTaken, Direction.granted, List.flatMap_append]
    change d.bytesRead = _ ++ [(data, 0)].flatMap taken
    rw [h.stream, Direction.bytesTaken, Direction.granted, hcurrent, List.flatMap_singleton, taken, List.take_zero,
      List.append_nil]
    exact congrArg _ (List.append_nil _)
  left := by
    intro w hw
    obtain rfl := Option.some.inj hw
    exact ⟨Nat.zero_le _, rfl⟩
  counted := h.counted
  handed := fun r chunk hreading hr =>
    absurd hr (h.not_holding (fun w hw => absurd (hcurrent.symm.trans hw) nofun) hreading)
  order := h.order
  eof := h.eof

theorem Sound.endRead (h : Sound writerDone d) {result : Result} (hdata : ∀ bytes, result ≠ .data bytes)
    (heof : result = .eof → writerDone = true ∨ d.writeDone = true) : Sound writerDone (d.endRead result) where
  stream := by
    have hbytes : result.bytes = [] := by
      cases result with
      | data bytes => exact absurd rfl (hdata bytes)
      | _ => rfl
    rw [bytesRead_endRead, hbytes, List.append_nil]
    exact h.stream
  left := h.left
  counted := h.counted
  handed := nofun
  order := h.order.append fun _ => hdata
  eof := by
    intro hmem
    refine ⟨?_, nofun⟩
    obtain hold | hnew := List.mem_append.mp hmem
    · exact (h.eof hold).1
    · exact heof (List.mem_singleton.mp hnew).symm

/-- A reader that has come to its `select` has seen no EOF. -/
theorem Sound.not_eof (h : Sound writerDone d) {r : Reading} (hreading : d.reading = some r)
    (hr : ¬ Bars writerDone d.writeDone r.place) : .eof ∉ d.results := fun hmem => hr ((h.eof hmem).2 r hreading)

/-- The answer makes both counts grow by the same bytes. -/
theorem Sound.answer (h : Sound writerDone d) {r : Reading} {chunk : Bytes} (hcurrent : d.current = some w)
    (hreading : d.reading = some r) (hr : r.place = .holding chunk) : Sound writerDone (d.answer w r chunk) := by
  obtain ⟨hle, hrest⟩ := h.left w hcurrent
  obtain ⟨w', hw', -, hchunk⟩ := h.handed r chunk hreading hr
  obtain rfl := Option.some.inj (hcurrent.symm.trans hw')
  have hfresh : .eof ∉ d.results := h.not_eof hreading (by rw [hr]; exact id)
  let m := min r.size chunk.length
  have hm : w.n + m ≤ w.data.length := by
    have hlen : m ≤ chunk.length := Nat.min_le_right ..
    rw [hchunk, hrest, List.length_drop] at hlen
    omega
  have hdrop : w.rest.drop m = w.data.drop (w.n + m) := by rw [hrest, List.drop_drop]
  have hstream : (d.endRead (.data (chunk.take m))).bytesRead =
      (d.returned.map fun w => (w.data, w.n)).flatMap taken ++ w.data.take (w.n + m) := by
    rw [bytesRead_endRead, h.stream, Direction.bytesTaken, Direction.granted, hcurrent, List.flatMap_append,
      List.append_assoc, List.take_add, hchunk, hrest]
    congr 1
    exact congrArg (· ++ _) (List.flatMap_singleton ..)
  have horder : NoneAfterEOF (d.results ++ [.data (chunk.take m)]) := h.order.append fun hmem => absurd hmem hfresh
  have hnone : .eof ∉ d.results ++ [.data (chunk.take m)] := by
    intro hmem
    obtain hold | hnew := List.mem_append.mp hmem
    · exact hfresh hold
    · cases List.mem_singleton.mp hnew
  unfold Direction.answer
  dsimp only
  split
  · rename_i hall
    -- the whole of it is taken: the `Write` returns
    have hlength : w.n + m = w.data.length := by
      have hnil : w.data.drop (w.n + m) = [] := hdrop.symm.trans hall
      exact le_antisymm hm (List.drop_eq_nil_iff.mp hnil)
    refine ⟨hstream.trans ?_, nofun, ?_, nofun, horder, fun hmem => absurd hmem hnone⟩
    · simp [Direction.bytesTaken, Direction.granted, Direction.endRead, taken, m]
    · intro v hv
      obtain hold | hnew := List.mem_append.mp hv
      · exact h.counted v hold
      · obtain rfl := List.mem_singleton.mp hnew
        exact ⟨hm, fun _ => hlength⟩
  · refine ⟨hstream.trans ?_, ?_, h.counted, nofun, horder, fun hmem => absurd hmem hnone⟩
    · simp [Direction.bytesTaken, Direction.granted, Direction.endRead, taken, m]
    · intro v hv
      obtain rfl := Option.some.inj hv
      exact ⟨hm, hdrop⟩

theorem Sound.effect (h : Sound writerDone d) (heffect : Effect writerDone d d') : Sound writerDone d' := by
  cases heffect with
  | aside waiting writeDone deadline hkeep =>
      refine h.of_same rfl rfl h.left h.counted h.handed fun hmem => ?_
      obtain ⟨hdone, hbars⟩ := h.eof hmem
      exact ⟨hdone.imp_right hkeep, fun r hreading => (hbars r hreading).mono id hkeep⟩
  | grant waiting data hcurrent => exact h.grant waiting data hcurrent
  | placeWrite w place hcurrent hw =>
      refine h.of_same rfl (granted_placeWrite hcurrent place) ?_ h.counted ?_ h.eof
      · intro v hv
        obtain rfl := Option.some.inj hv
        exact h.left w hcurrent
      · intro r chunk hreading hr
        refine absurd hr (h.not_holding (fun v hv => ?_) hreading)
        obtain rfl := Option.some.inj (hcurrent.symm.trans hv)
        exact hw
  | failWrite w hcurrent hw =>
      refine h.of_same rfl (granted_failWrite hcurrent) nofun ?_ ?_ h.eof
      · intro v hv
        obtain hold | hnew := List.mem_append.mp hv
        · exact h.counted v hold
        · obtain rfl := List.mem_singleton.mp hnew
          exact ⟨(h.left w hcurrent).1, nofun⟩
      · intro r chunk hreading hr
        refine absurd hr (h.not_holding (fun v hv => ?_) hreading)
        obtain rfl := Option.some.inj (hcurrent.symm.trans hv)
        exact hw
  | read size expired hreading =>
      refine h.of_same rfl rfl h.left h.counted ?_ fun hmem => ⟨(h.eof hmem).1, ?_⟩
      · intro r chunk hr hplace
        obtain rfl := Option.some.inj hr
        cases hplace
      · intro r hr
        obtain rfl := Option.some.inj hr
        exact (h.eof hmem).1
  | placeRead r place hreading hbars hplace =>
      refine h.of_same rfl rfl h.left h.counted ?_ fun hmem => ⟨(h.eof hmem).1, ?_⟩
      · intro r' chunk hr' hholding
        obtain rfl := Option.some.inj hr'
        exact absurd hholding (hplace chunk)
      · intro r' hr'
        obtain rfl := Option.some.inj hr'
        exact hbars ((h.eof hmem).2 r hreading)
  | endRead result hdata heof => exact h.endRead hdata heof
  | pass w r hcurrent hreading hr =>
      have hfresh : .eof ∉ d.results := h.not_eof hreading (by rw [hr]; exact id)
      refine h.of_same rfl (granted_placeWrite hcurrent .await) ?_ h.counted ?_ fun hmem => absurd hmem hfresh
      · intro v hv
        obtain rfl := Option.some.inj hv
        exact h.left w hcurrent
      · intro r' chunk hr' hholding
        obtain rfl := Option.some.inj hr'
        exact ⟨_, rfl, rfl, (ReadPlace.holding.inj hholding).symm⟩
  | answer w r chunk hcurrent hreading hr => exact h.answer hcurrent hreading hr

end

theorem Sound.mono {writerDone writerDone' : Bool} {d : Direction} (hdone : writerDone = true → writerDone' = true)
    (h : Sound writerDone d) : Sound writerDone' d where
  stream := h.stream
  left := h.left
  counted := h.counted
  handed := h.handed
  order := h.order
  eof := fun hmem => ⟨(h.eof hmem).1.imp_left hdone, fun r hreading => ((h.eof hmem).2 r hreading).mono hdone id⟩

/-! ### Both directions -/

section

variable {c c' c₀ : Connection} {a : Action} {acts : List Action} {e : End}

theorem sound_step (h : ∀ e, Sound (c.done e) (c.direction e)) (hstep : c.step a = some c') :
    ∀ e, Sound (c'.done e) (c'.direction e) := by
  intro e
  cases a with
  | dir e' act =>
      obtain ⟨d, hd, rfl⟩ := Option.map_eq_some_iff.mp hstep
      dsimp only
      split
      · rename_i heq
        subst heq
        exact (h e).effect (step_effect hd)
      · exact h e
  | close e' =>
      obtain rfl := Option.some.inj hstep
      refine (h e).mono fun hdone => ?_
      dsimp only
      split
      · rfl
      · exact hdone

theorem sound_initial (writerDone : Bool) : Sound writerDone {} where
  stream := rfl
  left := nofun
  counted := nofun
  handed := nofun
  order := List.Pairwise.nil
  eof := nofun

/-- A step of the direction end `e` writes, or a `Close`. -/
def Action.concerns (e : End) : Action → Bool
  | .dir e' _ => e' == e
  | .close _ => true

/-- What a direction is made of. -/
def Connection.Alike (e : End) (c c₀ : Connection) : Prop := c.done = c₀.done ∧ c.direction e = c₀.direction e

theorem step_alike (halike : c.Alike e c₀) (ha : a.concerns e = true) (hstep : c.step a = some c') :
    ∃ c₀', c₀.step a = some c₀' ∧ c'.Alike e c₀' := by
  obtain ⟨hdone, hdirection⟩ := halike
  cases a with
  | dir e' act =>
      obtain rfl := beq_iff_eq.mp ha
      obtain ⟨d, hd, rfl⟩ := Option.map_eq_some_iff.mp hstep
      rw [hdone, hdirection] at hd
      refine ⟨_, Option.map_eq_some_iff.mpr ⟨d, hd, rfl⟩, hdone, ?_⟩
      dsimp only
      rw [if_pos rfl, if_pos rfl]
  | close e' =>
      obtain rfl := Option.some.inj hstep
      refine ⟨_, rfl, ?_, hdirection⟩
      dsimp only
      rw [hdone]

theorem step_other (ha : ¬ a.concerns e = true) (hstep : c.step a = some c') : c.Alike e c' := by
  cases a with
  | dir e' act =>
      have hne : e' ≠ e := fun heq => ha (beq_iff_eq.mpr heq)
      obtain ⟨d, -, rfl⟩ := Option.map_eq_some_iff.mp hstep
      refine ⟨rfl, ?_⟩
      dsimp only
      rw [if_neg (Ne.symm hne)]
  | close e' => exact absurd rfl ha

/-- A direction runs as it would without any step of the other. -/
theorem run_alike (halike : c.Alike e c₀) (hrun : c.run acts = some c') :
    ∃ c₀', c₀.run (acts.filter (Action.concerns e)) = some c₀' ∧ c'.Alike e c₀' := by
  induction acts generalizing c c₀ with
  | nil =>
      obtain rfl := Option.some.inj hrun
      exact ⟨c₀, rfl, halike⟩
  | cons a rest ih =>
      obtain ⟨mid, hstep, hrest⟩ := Option.bind_eq_some_iff.mp hrun
      by_cases ha : a.concerns e = true
      · obtain ⟨mid₀, hstep₀, hmid⟩ := step_alike halike ha hstep
        obtain ⟨c₀', hrest₀, hend⟩ := ih hmid hrest
        refine ⟨c₀', ?_, hend⟩
        rw [List.filter_cons_of_pos ha]
        exact Option.bind_eq_some_iff.mpr ⟨mid₀, hstep₀, hrest₀⟩
      · obtain ⟨hdone, hdirection⟩ := step_other ha hstep
        rw [List.filter_cons_of_neg ha]
        exact ih ⟨hdone.symm.trans halike.1, hdirection.symm.trans halike.2⟩ hrest

theorem Connection.Alike.symm (h : c.Alike e c₀) : c₀.Alike e c := ⟨h.1.symm, h.2.symm⟩

theorem run_direction_eq (halike : c.Alike e c₀) {more : List Action} (hmore : ∀ a ∈ more, a.concerns e = true) :
    (c.run more).map (·.direction e) = (c₀.run more).map (·.direction e) := by
  have hfilter : more.filter (Action.concerns e) = more := List.filter_eq_self.mpr hmore
  cases hrun : c.run more with
  | some c' =>
      obtain ⟨c₀', hrun₀, hend⟩ := run_alike halike hrun
      rw [hfilter] at hrun₀
      rw [hrun₀]
      exact congrArg some hend.2
  | none =>
      cases hrun₀ : c₀.run more with
      | none => rfl
      | some c₀' =>
          obtain ⟨c', hrun', -⟩ := run_alike halike.symm hrun₀
          rw [hfilter, hrun] at hrun'
          cases hrun'

end

/-- What the two ends may rely on in the direction that end `e` writes. -/
structure Stream (d : Direction) : Prop where
  /-- The bytes read are those taken from the `Write`s, in the order of the grants. -/
  bytes : d.bytesRead = d.bytesTaken
  /-- A `Write` that returned `n` has had its first `n` bytes read, after those of the `Write`s before it. -/
  returned : ∀ before w after, d.returned = before ++ w :: after → w.n ≤ w.data.length ∧
    (w.failed = false → w.n = w.data.length) ∧
    ∃ later, d.bytesRead = before.flatMap (fun v => v.data.take v.n) ++ w.data.take w.n ++ later
  noneAfterEOF : NoneAfterEOF d.results

theorem Sound.toStream {writerDone : Bool} {d : Direction} (h : Sound writerDone d) : Stream d where
  bytes := h.stream
  returned := by
    intro before w after hreturned
    obtain ⟨hle, hall⟩ := h.counted w (by rw [hreturned]; simp)
    refine ⟨hle, hall, (after.flatMap fun v => v.data.take v.n) ++
      (d.current.map fun w => (w.data, w.n)).toList.flatMap taken, ?_⟩
    rw [h.stream, Direction.bytesTaken, Direction.granted, hreturned]
    simp [List.flatMap_map, taken]
  noneAfterEOF := h.order

/-- For any interleaving of the two ends' calls, either direction is a stream, and it is the one it would be without any
step of the other direction, `CloseWrite` among them. -/
theorem pipe_streams (acts : List Action) (c : Connection) (hrun : ({} : Connection).run acts = some c) (e : End) :
    Stream (c.direction e) ∧
      (∃ c₀, ({} : Connection).run (acts.filter (Action.concerns e)) = some c₀ ∧ c₀.direction e = c.direction e) ∧
      ∃ c₁, c.step (.dir e.peer .closeWrite) = some c₁ ∧ ∀ more, (∀ a ∈ more, a.concerns e = true) →
        (c₁.run more).map (·.direction e) = (c.run more).map (·.direction e) := by
  have hsound : ∀ e, Sound (c.done e) (c.direction e) :=
    Runs.exec_invariant (fun _ _ _ => sound_step) (fun _ => sound_initial _) hrun
  refine ⟨(hsound e).toStream, ?_, ?_⟩
  · obtain ⟨c₀, hrun₀, halike⟩ := run_alike (e := e) ⟨rfl, rfl⟩ hrun
    exact ⟨c₀, hrun₀, halike.2.symm⟩
  · have hother : ¬ (Action.dir e.peer .closeWrite).concerns e = true := by cases e <;> decide
    exact ⟨_, rfl, fun more hmore => run_direction_eq (step_other hother rfl).symm hmore⟩

/-- End `a` writes three bytes while `b` has closed its own direction; `b` reads two, lets its deadline pass and reads
the last; then `a` closes its direction. -/
def shortReads : List Action :=
  [.dir .b .closeWrite, .dir .a (.write [1, 2, 3]), .dir .a (.grant 0), .dir .a .checkWrite, .dir .a .checkWrite,
    .dir .a .checkWrite, .dir .a (.read 2), .dir .a .checkRead, .dir .a .checkRead, .dir .a .checkRead,
    .dir .a .checkRead, .dir .a .pass, .dir .a .answer, .dir .a .expire, .dir .a (.read 2), .dir .a .checkRead,
    .dir .a .checkRead, .dir .a .checkRead, .dir .a .checkRead, .dir .a .renew, .dir .a (.read 2), .dir .a .checkRead,
    .dir .a .checkRead, .dir .a .checkRead, .dir .a .checkRead, .dir .a .checkWrite, .dir .a .checkWrite,
    .dir .a .checkWrite, .dir .a .pass, .dir .a .answer, .dir .a .closeWrite, .dir .a (.read 2), .dir .a .checkRead,
    .dir .a .checkRead, .dir .a .checkRead]

theorem pipe_streams_shortReads : ∃ c, ({} : Connection).run shortReads = some c ∧
    (c.direction .a).results = [.data [1, 2], .deadline, .data [3], .eof] ∧
    (c.direction .a).returned = [⟨[1, 2, 3], 3, false⟩] ∧ Stream (c.direction .a) := by
  obtain ⟨c, hrun, hends⟩ : ∃ c, ({} : Connection).run shortReads = some c ∧
    (c.direction .a).results = [.data [1, 2], .deadline, .data [3], .eof] ∧
    (c.direction .a).returned = [⟨[1, 2, 3], 3, false⟩] := ⟨_, rfl, by decide, by decide⟩
  exact ⟨c, hrun, hends.1, hends.2, (pipe_streams shortReads c hrun .a).1⟩

end GlitchCore.Core.Pipe
