import GlitchCore.Base.Interleaving
import GlitchCore.Base.NetAddr
import GlitchCore.Core.BridgePipe

/-!
# A datagram flow across the bridge

`bridgeFlowConn` is one flow handed to an engine in memory. The engine delivers replies into a queue, which drops what does
not fit; tun2socks reads them and writes queries. Any number of goroutines deliver, read, write and close. `Close` goes
through a `sync.Once`, whose first caller runs the body while the others wait for it.

The read deadline is seen as the pipe's reads see theirs: it is renewed or it ends at any time.
-/

namespace GlitchCore.Core.Flow

open NetAddr Interleaving
open Pipe (Bytes Deadline)

structure AddrPort where
  addr : IP
  port : UInt16
  deriving DecidableEq

/-- No sender is an invalid one, which the engine names by domain. -/
structure Reply where
  bytes : Bytes
  sender : Option AddrPort
  deriving DecidableEq

def bridgeFlowQueue : Nat := 128

/-- A reply that does not come from `dst`. -/
def elsewhere (dst : Option AddrPort) : Option AddrPort → Bool
  | none => false
  | some a => decide (some (AddrPort.mk a.addr.unmap a.port) ≠ dst)

/-- `closeOnce`, with the caller that runs the body. -/
inductive Once where
  | idle
  | running (i : Nat)
  | finished
  deriving DecidableEq

/-- A reply read by the call `reader` into a buffer of `size` bytes. -/
structure Taken where
  reader : Nat
  size : Nat
  reply : Reply
  deriving DecidableEq

/-- The last four fields record a run: the replies queued and read, those a full queue dropped with its length, and
the queries handed to `send`. -/
structure Memory where
  replies : List Reply := []
  done : Bool := false
  once : Once := .idle
  deadline : Deadline := {}
  released : Nat := 0
  panicked : Bool := false
  accepted : List Reply := []
  taken : List Taken := []
  dropped : List (Reply × Nat) := []
  sent : List Bytes := []

/-- What a call has returned. A delivery answers nil whether its reply was kept, dropped or from elsewhere. -/
inductive Outcome where
  | errClosed
  | errDeadline
  | data (bytes : Bytes)
  | written (n : Nat)
  | failed
  | elsewhere
  | queued (kept : Bool)
  | closed
  deriving DecidableEq

inductive Place where
  | deliver (r : Reply)
  | queue (r : Reply)
  | read (size : Nat)
  | wait (size : Nat)
  | select (size channel : Nat)
  | write (p : Bytes)
  | send (p : Bytes)
  | close
  | shut
  | clear
  | release
  | deadline
  | ended (o : Outcome)
  deriving DecidableEq

/-- Which ready case a `select` takes, whether `send` fails, and what happens to the deadline. -/
inductive Choice where
  | go
  | reply
  | done
  | expired
  | fails
  | renew
  | expire
  deriving DecidableEq

inductive Request where
  | deliverFrom (r : Reply)
  | readFrom (size : Nat)
  | writeTo (p : Bytes)
  | close
  | deadline

def Request.start : Request → Place
  | .deliverFrom r => .deliver r
  | .readFrom size => .read size
  | .writeTo p => .write p
  | .close => .close
  | .deadline => .deadline

def exec (dst : Option AddrPort) (i : Nat) (m : Memory) : Place → Choice → Option (Memory × Place)
  | .deliver r, .go =>
      if elsewhere dst r.sender then some (m, .ended .elsewhere)
      else if m.done then some (m, .ended .errClosed)
      else some (m, .queue r)
  | .queue r, .go =>
      if m.replies.length < bridgeFlowQueue then
        some ({ m with replies := m.replies ++ [r], accepted := m.accepted ++ [r] }, .ended (.queued true))
      else some ({ m with dropped := m.dropped ++ [(r, m.replies.length)] }, .ended (.queued false))
  | .read size, .go => if m.done then some (m, .ended .errClosed) else some (m, .wait size)
  -- `c.readDeadline.wait()`, on the way into the second `select`
  | .wait size, .go => some (m, .select size m.deadline.channel)
  | .select size _, .reply =>
      match m.replies with
      | r :: rest => some ({ m with replies := rest, taken := m.taken ++ [⟨i, size, r⟩] }, .ended (.data (r.bytes.take size)))
      | [] => none
  | .select _ _, .done => if m.done then some (m, .ended .errClosed) else none
  | .select _ channel, .expired => if m.deadline.expired channel then some (m, .ended .errDeadline) else none
  | .write p, .go => if m.done then some (m, .ended .errClosed) else some (m, .send p)
  | .send p, .go => some ({ m with sent := m.sent ++ [p] }, .ended (.written p.length))
  | .send _, .fails => some (m, .ended .failed)
  | .close, .go =>
      match m.once with
      | .idle => some ({ m with once := .running i }, .shut)
      | .running _ => none
      | .finished => some (m, .ended .closed)
  | .shut, .go => if m.done then some ({ m with panicked := true }, .clear) else some ({ m with done := true }, .clear)
  | .clear, .go => some ({ m with deadline := m.deadline.renewed }, .release)
  | .release, .go => some ({ m with released := m.released + 1, once := .finished }, .ended .closed)
  | .deadline, .renew => some ({ m with deadline := m.deadline.renewed }, .deadline)
  | .deadline, .expire => some ({ m with deadline := { m.deadline with closed := true } }, .deadline)
  | _, _ => none

def flow (dst : Option AddrPort) : Program Memory Place Request Choice where
  spawn := Request.start
  exec := exec dst

abbrev State := Config Memory Place

def State.init : State := ⟨{}, []⟩

/-- The runs from a state. -/
def Leads (dst : Option AddrPort) (s s' : State) : Prop := (flow dst).Reaches (fun _ _ => True) s s'

/-! ### The invariant -/

def Memory.readers (m : Memory) : List Nat := m.taken.map Taken.reader

structure Memory.Sound (dst : Option AddrPort) (m : Memory) : Prop where
  calm : m.panicked = false
  split : m.accepted = m.taken.map Taken.reply ++ m.replies
  room : m.replies.length ≤ bridgeFlowQueue
  own : ∀ r ∈ m.accepted, elsewhere dst r.sender = false
  full : ∀ p ∈ m.dropped, p.2 = bridgeFlowQueue
  nodup : m.readers.Nodup
  idle : m.once = .idle → m.done = false ∧ m.released = 0
  running : ∀ i, m.once = .running i → m.released = 0
  finished : m.once = .finished → m.done = true ∧ m.released = 1

/-- A place inside the body of `closeOnce`. -/
def Place.closing : Place → Bool
  | .shut | .clear | .release => true
  | _ => false

def Place.hasData : Place → Bool
  | .ended (.data _) => true
  | _ => false

def Place.Part (dst : Option AddrPort) (i : Nat) (m : Memory) : Place → Prop
  | .queue r => elsewhere dst r.sender = false
  | .shut => m.once = .running i ∧ m.done = false
  | .clear | .release => m.once = .running i ∧ m.done = true
  | .ended (.data bytes) => ∃ size r, ⟨i, size, r⟩ ∈ m.taken ∧ bytes = r.bytes.take size
  | .ended .closed => m.once = .finished
  | _ => True

structure Place.Holds (dst : Option AddrPort) (i : Nat) (m : Memory) (t : Place) : Prop where
  unread : t.hasData = false → i ∉ m.readers
  closer : m.once = .running i → t.closing = true
  part : t.Part dst i m

def Fresh (i : Nat) (m : Memory) : Prop := i ∉ m.readers ∧ m.once ≠ .running i

/-- What a step leaves of the memory another call `j` relies on. -/
structure Apart (j : Nat) (m m' : Memory) : Prop where
  readers : j ∈ m'.readers → j ∈ m.readers
  taken : ∀ x ∈ m.taken, x ∈ m'.taken
  running : m'.once = .running j ↔ m.once = .running j
  done : m.once = .running j → m'.done = m.done
  finished : m.once = .finished → m'.once = .finished

/-- A step of the call `i`: the memory stays sound and a closed flow closed, its own part holds and the others' are left
alone. -/
structure Keeps (dst : Option AddrPort) (i : Nat) (m m' : Memory) (t' : Place) : Prop where
  sound : m'.Sound dst
  done : m.done = true → m'.done = true
  own : t'.Holds dst i m'
  apart : ∀ j, j ≠ i → Apart j m m'

section Step

variable {dst : Option AddrPort} {i j : Nat} {t t' : Place} {m m' : Memory}

theorem Place.Holds.transfer (h : t.Holds dst j m) (ha : Apart j m m') : t.Holds dst j m' := by
  have hpart := h.part
  have hrunning (hp : m.once = .running j ∧ m.done = true) : m'.once = .running j ∧ m'.done = true :=
    ⟨ha.running.mpr hp.1, (ha.done hp.1).trans hp.2⟩
  refine ⟨fun hdata hread => h.unread hdata (ha.readers hread), fun honce => h.closer (ha.running.mp honce), ?_⟩
  cases t with
  | queue r => exact hpart
  | shut => exact ⟨ha.running.mpr hpart.1, (ha.done hpart.1).trans hpart.2⟩
  | clear => exact hrunning hpart
  | release => exact hrunning hpart
  | ended o =>
      cases o with
      | data bytes =>
          obtain ⟨size, r, hmem, hbytes⟩ := hpart
          exact ⟨size, r, ha.taken _ hmem, hbytes⟩
      | closed => exact ha.finished hpart
      | _ => trivial
  | _ => trivial

/-- A step that reads nothing off the queue and does not touch `closeOnce`. -/
theorem quiet_keeps (ht : t.Holds dst i m) (hm : m'.Sound dst) (htaken : m'.taken = m.taken) (honce : m'.once = m.once)
    (hdone : m'.done = m.done) (hdata : t.hasData = false) (hclosing : t.closing = false ∨ t'.closing = true)
    (hpart : t'.Part dst i m') : Keeps dst i m m' t' := by
  have hreaders : m'.readers = m.readers := congrArg (List.map Taken.reader) htaken
  refine ⟨hm, fun h => hdone.trans h, ⟨fun _ hread => ht.unread hdata (hreaders ▸ hread), fun h => ?_, hpart⟩,
    fun j hj => ⟨fun h => hreaders ▸ h, fun x hx => htaken ▸ hx, by rw [honce], fun _ => hdone, fun h => honce.trans h⟩⟩
  obtain hopen | hclosing := hclosing
  · cases hopen.symm.trans (ht.closer (honce ▸ h))
  · exact hclosing

/-- A step of a call that leaves the memory alone but for the deadline and the record of queries. -/
theorem idle_keeps {d : Deadline} {sent : List Bytes} (hm : m.Sound dst) (ht : t.Holds dst i m) (hdata : t.hasData = false)
    (hclosing : t.closing = false ∨ t'.closing = true) (hpart : t'.Part dst i { m with deadline := d, sent := sent }) :
    Keeps dst i m { m with deadline := d, sent := sent } t' :=
  quiet_keeps ht { hm with split := hm.split } rfl rfl rfl hdata hclosing hpart

theorem keep_keeps {r : Reply} (hm : m.Sound dst) (ht : Place.Holds dst i m (.queue r))
    (hroom : m.replies.length < bridgeFlowQueue) :
    Keeps dst i m { m with replies := m.replies ++ [r], accepted := m.accepted ++ [r] } (.ended (.queued true)) := by
  refine quiet_keeps ht { hm with split := ?_, room := ?_, own := ?_ } rfl rfl rfl rfl (.inl rfl) trivial
  · rw [hm.split, List.append_assoc]
  · rw [List.length_append]
    exact hroom
  · exact List.forall_mem_append.mpr ⟨hm.own, List.forall_mem_singleton.mpr ht.part⟩

theorem drop_keeps {r : Reply} (hm : m.Sound dst) (ht : Place.Holds dst i m (.queue r))
    (hfull : ¬ m.replies.length < bridgeFlowQueue) :
    Keeps dst i m { m with dropped := m.dropped ++ [(r, m.replies.length)] } (.ended (.queued false)) := by
  have hlength : m.replies.length = bridgeFlowQueue := Nat.le_antisymm hm.room (Nat.not_lt.mp hfull)
  exact quiet_keeps ht { hm with full := List.forall_mem_append.mpr ⟨hm.full, List.forall_mem_singleton.mpr hlength⟩ }
    rfl rfl rfl rfl (.inl rfl) trivial

theorem take_keeps {size channel : Nat} {r : Reply} {rest : List Reply} (hm : m.Sound dst)
    (ht : Place.Holds dst i m (.select size channel)) (hreplies : m.replies = r :: rest) :
    Keeps dst i m { m with replies := rest, taken := m.taken ++ [⟨i, size, r⟩] } (.ended (.data (r.bytes.take size))) := by
  have hunread := ht.unread rfl
  have hreaders : (m.taken ++ [Taken.mk i size r]).map Taken.reader = m.readers ++ [i] := List.map_append
  refine ⟨{ hm with split := ?_, room := ?_, nodup := ?_ }, fun h => h,
    ⟨(fun h => by cases h), fun h => (by cases ht.closer h), size, r,
      List.mem_append_right _ (List.mem_singleton_self _), rfl⟩,
    fun j hj => ⟨fun hread => ?_, fun x hx => List.mem_append_left _ hx, Iff.rfl, fun _ => rfl, fun h => h⟩⟩
  · have hsplit := hm.split
    rw [hreplies] at hsplit
    rw [hsplit, List.map_append, List.append_assoc]
    rfl
  · have hroom := hm.room
    rw [hreplies, List.length_cons] at hroom
    exact Nat.le_of_succ_le hroom
  · rw [Memory.readers, hreaders]
    refine List.nodup_append.mpr ⟨hm.nodup, List.pairwise_singleton .., fun a ha b hb heq => ?_⟩
    exact hunread (List.mem_singleton.mp hb ▸ heq ▸ ha)
  · rw [Memory.readers, hreaders] at hread
    obtain hread | hread := List.mem_append.mp hread
    · exact hread
    · exact absurd (List.mem_singleton.mp hread) hj

theorem enter_keeps (hm : m.Sound dst) (ht : Place.Holds dst i m .close) (hidle : m.once = .idle) :
    Keeps dst i m { m with once := .running i } .shut := by
  obtain ⟨hdone, hreleased⟩ := hm.idle hidle
  refine ⟨{ hm with idle := (fun h => by cases h), running := fun _ _ => hreleased, finished := (fun h => by cases h) },
    fun h => h, ⟨fun _ => ht.unread rfl, fun _ => rfl, rfl, hdone⟩,
    fun j hj => ⟨fun h => h, fun x hx => hx, ⟨fun h => ?_, fun h => ?_⟩, fun _ => rfl, fun h => ?_⟩⟩
  · exact absurd (Once.running.inj h).symm hj
  · cases hidle.symm.trans h
  · cases hidle.symm.trans h

theorem shut_keeps (hm : m.Sound dst) (ht : Place.Holds dst i m .shut) : Keeps dst i m { m with done := true } .clear := by
  obtain ⟨honce, -⟩ : m.once = .running i ∧ m.done = false := ht.part
  refine ⟨{ hm with idle := (fun h => by cases h.symm.trans honce), finished := (fun h => by cases h.symm.trans honce) },
    fun _ => rfl, ⟨fun _ => ht.unread rfl, fun _ => rfl, honce, rfl⟩,
    fun j hj => ⟨fun h => h, fun x hx => hx, Iff.rfl, fun h => ?_, fun h => h⟩⟩
  exact absurd (Once.running.inj (h.symm.trans honce)) hj

theorem release_keeps (hm : m.Sound dst) (ht : Place.Holds dst i m .release) :
    Keeps dst i m { m with released := m.released + 1, once := .finished } (.ended .closed) := by
  obtain ⟨honce, hdone⟩ : m.once = .running i ∧ m.done = true := ht.part
  refine ⟨{ hm with
      idle := fun h => by cases h
      running := fun _ h => by cases h
      finished := fun _ => ⟨hdone, congrArg (· + 1) (hm.running i honce)⟩ }, fun h => h, ⟨fun _ => ht.unread rfl, (fun h => by cases h), rfl⟩,
    fun j hj => ⟨fun h => h, fun x hx => hx, ⟨fun h => (by cases h), fun h => ?_⟩, fun _ => rfl, fun _ => rfl⟩⟩
  exact absurd (Once.running.inj (h.symm.trans honce)) hj

theorem keeps_of_exec {c : Choice} (hm : m.Sound dst) (ht : t.Holds dst i m) (h : exec dst i m t c = some (m', t')) :
    Keeps dst i m m' t' := by
  unfold exec at h
  split at h
  · split at h
    · cases h
      exact idle_keeps hm ht rfl (.inl rfl) trivial
    next hsender =>
      split at h
      · cases h
        exact idle_keeps hm ht rfl (.inl rfl) trivial
      · cases h
        exact idle_keeps hm ht rfl (.inl rfl) (Bool.eq_false_iff.mpr hsender)
  · split at h
    · cases h
      exact keep_keeps hm ht ‹_›
    · cases h
      exact drop_keeps hm ht ‹_›
  · split at h <;> cases h <;> exact idle_keeps hm ht rfl (.inl rfl) trivial
  · cases h
    exact idle_keeps hm ht rfl (.inl rfl) trivial
  · split at h
    · cases h
      exact take_keeps hm ht ‹_›
    · cases h
  · split at h
    · cases h
      exact idle_keeps hm ht rfl (.inl rfl) trivial
    · cases h
  · split at h
    · cases h
      exact idle_keeps hm ht rfl (.inl rfl) trivial
    · cases h
  · split at h <;> cases h <;> exact idle_keeps hm ht rfl (.inl rfl) trivial
  · cases h
    exact idle_keeps hm ht rfl (.inl rfl) trivial
  · cases h
    exact idle_keeps hm ht rfl (.inl rfl) trivial
  · split at h
    · cases h
      exact enter_keeps hm ht ‹_›
    · cases h
    next hfinished =>
      cases h
      exact idle_keeps hm ht rfl (.inl rfl) hfinished
  · -- nobody but the caller inside `closeOnce` closes `done`
    obtain ⟨-, hopen⟩ := ht.part
    rw [if_neg (by rw [hopen]; decide)] at h
    cases h
    exact shut_keeps hm ht
  · cases h
    exact idle_keeps hm ht rfl (.inr rfl) ht.part
  · cases h
    exact release_keeps hm ht
  · cases h
    exact idle_keeps hm ht rfl (.inl rfl) trivial
  · cases h
    exact idle_keeps hm ht rfl (.inl rfl) trivial
  · cases h

end Step

theorem sound_init (dst : Option AddrPort) : ({} : Memory).Sound dst where
  calm := rfl
  split := rfl
  room := Nat.zero_le _
  own := fun _ h => absurd h List.not_mem_nil
  full := fun _ h => absurd h List.not_mem_nil
  nodup := List.nodup_nil
  idle := fun _ => ⟨rfl, rfl⟩
  running := fun _ h => by cases h
  finished := fun h => by cases h

abbrev Consistent (dst : Option AddrPort) (s : State) : Prop := Program.Parts (Memory.Sound dst) Fresh (Place.Holds dst) s

theorem start_holds {dst : Option AddrPort} {i : Nat} {m : Memory} (hfresh : Fresh i m) (r : Request) :
    r.start.Holds dst i m :=
  ⟨fun _ => hfresh.1, fun h => absurd h hfresh.2, by cases r <;> trivial⟩

theorem Fresh.transfer {j : Nat} {m m' : Memory} (h : Fresh j m) (ha : Apart j m m') : Fresh j m' :=
  ⟨fun hread => h.1 (ha.readers hread), fun honce => h.2 (ha.running.mp honce)⟩

theorem consistent_of_leads {dst : Option AddrPort} {s : State} (h : Leads dst State.init s) : Consistent dst s := by
  refine h.parts ⟨sound_init dst, fun _ _ => ⟨List.not_mem_nil, fun h => by cases h⟩, fun _ _ h => by cases h⟩
    (fun i m r hfresh => start_holds hfresh r) fun s i t c m' t' hs hi hexec => ?_
  have hkeeps := keeps_of_exec hs.mem (hs.thread i t hi) hexec
  exact ⟨hkeeps.sound, hkeeps.own, fun j hj =>
    ⟨fun hfresh => hfresh.transfer (hkeeps.apart j hj), fun u hu => hu.transfer (hkeeps.apart j hj)⟩⟩

/-- The body of `closeOnce` is run by a call that is inside it. -/
theorem exists_closer {dst : Option AddrPort} {s : State} {k : Nat} (hs : Consistent dst s) (honce : s.mem.once = .running k) :
    ∃ t, s.threads[k]? = some t ∧ t.closing = true := by
  cases hk : s.threads[k]? with
  | none => exact absurd honce (hs.fresh k (List.getElem?_eq_none_iff.mp hk)).2
  | some t => exact ⟨t, rfl, (hs.thread k t hk).closer honce⟩

/-! ### After the close -/

/-- A place of a call that began after the close: it has not gone past its first test, it closes, or it was turned away. -/
def Place.shutOut : Place → Bool
  | .queue _ | .wait _ | .select .. | .send _ => false
  | .ended (.data _) | .ended .errDeadline | .ended (.written _) | .ended .failed | .ended (.queued _) => false
  | _ => true

theorem shutOut_of_exec {dst : Option AddrPort} {i : Nat} {m m' : Memory} {t t' : Place} {c : Choice} (hdone : m.done = true)
    (hout : t.shutOut = true) (h : exec dst i m t c = some (m', t')) : t'.shutOut = true := by
  cases t with
  | queue _ | wait _ | select _ _ | send _ => cases hout
  | deliver r =>
      cases c with
      | go =>
          rw [exec, if_pos hdone] at h
          split at h <;> cases h <;> rfl
      | _ => cases h
  | read n | write n =>
      cases c with
      | go =>
          rw [exec, if_pos hdone] at h
          cases h
          rfl
      | _ => cases h
  | close | shut =>
      cases c with
      | go =>
          rw [exec] at h
          split at h <;> cases h <;> rfl
      | _ => cases h
  | clear | release | deadline => cases c <;> cases h <;> rfl
  | ended o => cases h

/-- Once the flow is closed, the calls that come after are turned away. -/
theorem shutOut_of_leads {dst : Option AddrPort} {s s' : State} (hs : Consistent dst s) (hdone : s.mem.done = true)
    (h : Leads dst s s') {i : Nat} {t : Place} (hle : s.threads.length ≤ i) (hi : s'.threads[i]? = some t) :
    t.shutOut = true := by
  have hparts : Program.Parts (fun m => m.Sound dst ∧ m.done = true) Fresh
      (fun i m t => t.Holds dst i m ∧ (s.threads.length ≤ i → t.shutOut = true)) s' := by
    refine h.parts ⟨⟨hs.mem, hdone⟩, hs.fresh, fun j u hj => ⟨hs.thread j u hj, fun hle => ?_⟩⟩
      (fun j m r hfresh => ⟨start_holds hfresh r, fun _ => by cases r <;> rfl⟩) fun s₁ j u c m' u' hs₁ hj hexec => ?_
    · obtain ⟨hlt, -⟩ := List.getElem?_eq_some_iff.mp hj
      omega
    · obtain ⟨hholds, hout⟩ := hs₁.thread j u hj
      have hkeeps := keeps_of_exec hs₁.mem.1 hholds hexec
      exact ⟨⟨hkeeps.sound, hkeeps.done hs₁.mem.2⟩,
        ⟨hkeeps.own, fun hle => shutOut_of_exec hs₁.mem.2 (hout hle) hexec⟩, fun k hk =>
        ⟨fun hfresh => hfresh.transfer (hkeeps.apart k hk), fun w hw => ⟨hw.1.transfer (hkeeps.apart k hk), hw.2⟩⟩⟩
  exact (hparts.thread i t hi).2 hle

/-! ### Every run of a flow -/

theorem released_le {dst : Option AddrPort} {s : State} (hs : Consistent dst s) : s.mem.released ≤ 1 := by
  have hm := hs.mem
  cases honce : s.mem.once with
  | idle => exact (hm.idle honce).2 ▸ Nat.zero_le 1
  | running k => exact hm.running k honce ▸ Nat.zero_le 1
  | finished => exact Nat.le_of_eq (hm.finished honce).2

/-- The `Close` the others wait for can go on. -/
theorem closer_moves {dst : Option AddrPort} {s : State} {k : Nat} (hs : Consistent dst s)
    (honce : s.mem.once = .running k) : ∃ s', (flow dst).step s (.run k .go) = some s' := by
  obtain ⟨t, ht, hclosing⟩ := exists_closer hs honce
  rw [Program.step, ht]
  cases t with
  | shut =>
      have hpart : s.mem.once = .running k ∧ s.mem.done = false := (hs.thread k _ ht).part
      refine ⟨⟨{ s.mem with done := true }, s.threads.set k .clear⟩, ?_⟩
      change ((exec dst k s.mem .shut .go).map _) = _
      rw [exec, hpart.2]
      rfl
  | clear => exact ⟨_, rfl⟩
  | release => exact ⟨_, rfl⟩
  | _ => cases hclosing

/-- In every run of a flow's calls: `done` is never closed twice; the replies queued are the ones read, in the order they
were queued, followed by those still in the queue of at most 128; all came from the flow's destination, and one is
dropped only by a full queue; each read that returned data has a reply of its own, cut to its buffer; the engine's side
is released at most once, and has been when a `Close` has returned; a read that waits when the flow is closed can leave,
and a call that begins after that is turned away; and a `Close` that waits for another waits for one that can go on. -/
theorem flow_delivers {dst : Option AddrPort} {s : State} (h : Leads dst State.init s) :
    s.mem.panicked = false ∧
    (s.mem.accepted = s.mem.taken.map Taken.reply ++ s.mem.replies ∧ s.mem.replies.length ≤ bridgeFlowQueue ∧
      (∀ r ∈ s.mem.accepted, elsewhere dst r.sender = false) ∧ ∀ p ∈ s.mem.dropped, p.2 = bridgeFlowQueue) ∧
    (s.mem.readers.Nodup ∧ ∀ i bytes, s.threads[i]? = some (.ended (.data bytes)) →
      ∃ size r, ⟨i, size, r⟩ ∈ s.mem.taken ∧ bytes = r.bytes.take size) ∧
    (s.mem.released ≤ 1 ∧ ∀ i : Nat, s.threads[i]? = some (.ended .closed) → s.mem.released = 1 ∧ s.mem.done = true) ∧
    (s.mem.done = true →
      (∀ i size channel, s.threads[i]? = some (.select size channel) → ∃ s', (flow dst).step s (.run i .done) = some s') ∧
      ∀ s', Leads dst s s' → ∀ (i : Nat) (t : Place), s.threads.length ≤ i → s'.threads[i]? = some t → t.shutOut = true) ∧
    ∀ k, s.mem.once = .running k → ∃ s', (flow dst).step s (.run k .go) = some s' := by
  have hs := consistent_of_leads h
  have hm := hs.mem
  refine ⟨hm.calm, ⟨hm.split, hm.room, hm.own, hm.full⟩, ⟨hm.nodup, fun i bytes hi => (hs.thread i _ hi).part⟩,
    ⟨released_le hs, fun i hi => ?_⟩,
    fun hdone => ⟨fun i size channel hi => ?_, fun s' hleads i t hle hi => shutOut_of_leads hs hdone hleads hle hi⟩,
    fun k honce => closer_moves hs honce⟩
  · obtain ⟨hdone, hreleased⟩ := hm.finished (hs.thread i _ hi).part
    exact ⟨hreleased, hdone⟩
  · refine ⟨⟨s.mem, s.threads.set i (.ended .errClosed)⟩, ?_⟩
    rw [Program.step, hi]
    change ((exec dst i s.mem (.select size channel) .done).map _) = _
    rw [exec, if_pos hdone]
    rfl

/-- A reply from elsewhere, one from the destination, a read of two bytes of it, a close, and a read after the close. -/
def shortFlow : List (Act Request Choice) :=
  [.spawn (.deliverFrom ⟨[1], some ⟨.v4 7, 53⟩⟩), .spawn (.deliverFrom ⟨[1, 2, 3], none⟩), .spawn (.readFrom 2), .spawn .close,
   .run 0 .go, .run 1 .go, .run 2 .go, .run 1 .go, .run 2 .go, .run 2 .reply, .run 3 .go, .run 3 .go, .run 3 .go, .run 3 .go,
   .spawn (.readFrom 2), .run 4 .go]

theorem shortFlow_delivered : ∃ s, Leads (some ⟨.v4 9, 53⟩) State.init s ∧
    s.threads = [.ended .elsewhere, .ended (.queued true), .ended (.data [1, 2]), .ended .closed, .ended .errClosed] ∧
    s.mem.released = 1 := by
  obtain ⟨s, hs, hthreads⟩ : ∃ s, (flow (some ⟨.v4 9, 53⟩)).run (fun _ _ => True) State.init shortFlow = some s ∧
      s.threads = [.ended .elsewhere, .ended (.queued true), .ended (.data [1, 2]), .ended .closed, .ended .errClosed] :=
    ⟨_, rfl, rfl⟩
  have hleads : Leads (some ⟨.v4 9, 53⟩) State.init s := Program.reaches_of_run hs
  refine ⟨s, hleads, hthreads, ((flow_delivers hleads).2.2.2.1.2 3 ?_).1⟩
  rw [hthreads]
  rfl

end GlitchCore.Core.Flow
