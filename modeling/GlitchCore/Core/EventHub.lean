import GlitchCore.Base.GoText
import GlitchCore.Base.Interleaving
import Mathlib.Logic.Function.Basic

/-!
# The service's event hub

`Publish` sends a message to the channel of every subscriber under the hub's read lock, without waiting: a channel that
is full misses it. A subscriber joins under the write lock, writes what its channel hands it to its connection, and
leaves when its connection ends: it is taken out of the hub under the write lock and its channel is closed after that,
outside the lock. Any number of goroutines publish and subscribe; a `range` over the map meets its entries in any order.

The write lock is held over what is one step here. `readers` are the goroutines that hold the read lock.
-/

namespace GlitchCore.Core.Hub

open GoText Interleaving
open Function (update update_self update_of_ne)

/-- The `number`th message of the goroutine `source`. -/
structure Publication where
  source : Nat
  number : Nat
  message : Text
  deriving DecidableEq

def queueSize : Nat := 64

/-- A send on a subscriber's channel, with the number of messages the channel held. -/
structure Offer where
  publication : Publication
  held : Nat
  deriving DecidableEq

/-- The channel had room. -/
def Offer.taken (o : Offer) : Bool := decide (o.held < queueSize)

/-- Channels, owners and histories go by the subscriber's id. The last six fields record a run: the goroutine that
reads a channel, how many messages a goroutine has published, how many it had when a subscriber joined, the sends on a
channel, what its reader has taken off it and what it has written of that. -/
structure Memory where
  readers : List Nat := []
  nextID : Nat := 0
  subscribers : List Nat := []
  queue : Nat → List Publication := fun _ => []
  closed : Nat → Bool := fun _ => false
  panicked : Bool := false
  owner : Nat → Option Nat := fun _ => none
  published : Nat → Nat := fun _ => 0
  since : Nat → Nat → Nat := fun _ _ => 0
  offered : Nat → List Offer := fun _ => []
  inHand : Nat → List Publication := fun _ => []
  written : Nat → List Publication := fun _ => []

/-- Where a goroutine stands: a publisher with `done` messages behind it, outside `Publish` or with the channels it has
still to send on, or the reader of a channel. -/
inductive Place where
  | publisher (messages : List Text) (done : Nat) (todo : Option (List Nat))
  | subscribe
  | wait (id : Nat)
  | write (id : Nat) (p : Publication)
  | remove (id : Nat)
  | close (id : Nat)
  | gone (id : Nat)
  deriving DecidableEq

/-- What the memory does not decide: which of the channels left comes next, that the context has ended, and whether a
write to the connection fails. -/
inductive Choice where
  | go
  | pick (k : Nat)
  | cancelled
  | fails
  deriving DecidableEq

inductive Request where
  | publish (messages : List Text)
  | subscribe

def Request.start : Request → Place
  | .publish messages => .publisher messages 0 none
  | .subscribe => .subscribe

/-- One case of `Publish`'s `select`. A send on a closed channel panics. -/
def Memory.send (m : Memory) (id : Nat) (p : Publication) : Memory :=
  if m.closed id then { m with panicked := true }
  else
    let offered := update m.offered id (m.offered id ++ [⟨p, (m.queue id).length⟩])
    if (m.queue id).length < queueSize then { m with queue := update m.queue id (m.queue id ++ [p]), offered := offered }
    else { m with offered := offered }

def exec (i : Nat) (m : Memory) : Place → Choice → Option (Memory × Place)
  | .publisher messages done none, .go =>
      if done < messages.length then
        some ({ m with readers := i :: m.readers }, .publisher messages done (some m.subscribers))
      else none
  | .publisher messages done (some []), .go =>
      some ({ m with readers := m.readers.erase i, published := update m.published i (done + 1) },
        .publisher messages (done + 1) none)
  | .publisher messages done (some todo), .pick k =>
      match todo[k]?, messages[done]? with
      | some id, some message => some (m.send id ⟨i, done, message⟩, .publisher messages done (some (todo.erase id)))
      | _, _ => none
  -- `addSubscriber`
  | .subscribe, .go =>
      if m.readers = [] then
        some ({ m with nextID := m.nextID + 1, subscribers := m.subscribers ++ [m.nextID],
                       owner := update m.owner m.nextID (some i), since := update m.since m.nextID m.published },
          .wait m.nextID)
      else none
  | .wait id, .cancelled => some (m, .remove id)
  | .wait id, .go =>
      match m.queue id with
      | p :: rest => some ({ m with queue := update m.queue id rest, inHand := update m.inHand id [p] }, .write id p)
      | [] => if m.closed id then some (m, .remove id) else none
  | .write id p, .go => some ({ m with written := update m.written id (m.written id ++ [p]), inHand := update m.inHand id [] }, .wait id)
  | .write id _, .fails => some (m, .remove id)
  -- `removeSubscriber`, up to the unlock
  | .remove id, .go =>
      if m.readers = [] then
        if id ∈ m.subscribers then some ({ m with subscribers := m.subscribers.erase id }, .close id)
        else some (m, .gone id)
      else none
  | .close id, .go =>
      if m.closed id then some ({ m with panicked := true }, .gone id)
      else some ({ m with closed := update m.closed id true }, .gone id)
  | _, _ => none

def hub : Program Memory Place Request Choice where
  spawn := Request.start
  exec := exec

abbrev State := Config Memory Place

def State.init : State := ⟨{}, []⟩

/-- The runs of any number of goroutines. -/
def Reachable (s : State) : Prop := hub.Reaches (fun _ _ => True) State.init s

/-! ### The invariant -/

/-- The sends of the goroutine `j` on a channel. -/
def Memory.offersOf (m : Memory) (id j : Nat) : List Offer := (m.offered id).filter fun o => o.publication.source == j

/-- What a channel has taken of the sends on it. -/
def accepted (offered : List Offer) : List Publication := (offered.filter Offer.taken).map Offer.publication

def numbers (offers : List Offer) : List Nat := offers.map fun o => o.publication.number

/-- What one channel is like: the sends on it, what its reader has written of them and holds, and the queue. -/
structure Channel (offered : List Offer) (written inHand queue : List Publication) : Prop where
  room : queue.length ≤ queueSize
  full : ∀ o ∈ offered, o.held ≤ queueSize
  split : accepted offered = written ++ inHand ++ queue
  single : inHand.length ≤ 1

structure Memory.Sound (m : Memory) : Prop where
  calm : m.panicked = false
  nodup : m.subscribers.Nodup
  known : ∀ id ∈ m.subscribers, id < m.nextID
  owned : ∀ id j, m.owner id = some j → id < m.nextID
  shut : ∀ id, m.closed id = true → id ∉ m.subscribers ∧ id < m.nextID
  unused : ∀ id, m.nextID ≤ id → m.offered id = []
  channel : ∀ id, Channel (m.offered id) (m.written id) (m.inHand id) (m.queue id)
  gapless : ∀ id j, ∃ n, numbers (m.offersOf id j) = List.range' (m.since id j) n

/-- Whether a publisher has sent its present message on a channel. -/
def sentOn (todo : Option (List Nat)) (id : Nat) : Nat :=
  match todo with
  | none => 0
  | some l => if id ∈ l then 0 else 1

structure Publishes (messages : List Text) (done : Nat) (todo : Option (List Nat)) (i : Nat) (m : Memory) : Prop where
  counted : m.published i = done
  texts : ∀ id, ∀ o ∈ m.offersOf id i, messages[o.publication.number]? = some o.publication.message
  inside : ∀ l, todo = some l → i ∈ m.readers ∧ done < messages.length ∧ l.Nodup ∧ l ⊆ m.subscribers
  offers : ∀ id ∈ m.subscribers, m.since id i ≤ done ∧
    numbers (m.offersOf id i) = List.range' (m.since id i) (done - m.since id i + sentOn todo id)

def Place.Holds (i : Nat) (m : Memory) : Place → Prop
  | .publisher messages done todo => Publishes messages done todo i m
  | .subscribe => True
  | .wait id => m.owner id = some i ∧ id ∈ m.subscribers ∧ m.inHand id = []
  | .write id p => m.owner id = some i ∧ id ∈ m.subscribers ∧ m.inHand id = [p]
  | .remove id => m.owner id = some i ∧ id ∈ m.subscribers
  | .close id => m.owner id = some i ∧ id ∉ m.subscribers ∧ m.closed id = false
  | .gone id => m.owner id = some i

/-- A goroutine that is not there yet has published nothing. -/
def Fresh (j : Nat) (m : Memory) : Prop := m.published j = 0 ∧ ∀ id, m.since id j = 0 ∧ m.offersOf id j = []

/-- What a step leaves of the memory another goroutine `j` relies on. -/
structure Apart (j : Nat) (m m' : Memory) : Prop where
  published : m'.published j = m.published j
  offers : ∀ id, m'.offersOf id j = m.offersOf id j
  since : ∀ id, m'.since id j = m.since id j ∨ m'.since id j = m.published j
  members : ∀ id ∈ m'.subscribers, id ∈ m.subscribers ∧ m'.since id j = m.since id j ∨
    id ∉ m.subscribers ∧ m'.since id j = m.published j ∧ m.offersOf id j = []
  reading : j ∈ m.readers → j ∈ m'.readers ∧ m'.subscribers = m.subscribers
  owned : ∀ id, m.owner id = some j → m'.owner id = some j ∧ (id ∈ m'.subscribers ↔ id ∈ m.subscribers) ∧
    m'.inHand id = m.inHand id ∧ m'.closed id = m.closed id

section Frame

variable {j : Nat} {m m' : Memory} {t : Place}

theorem Fresh.transfer (h : Fresh j m) (ha : Apart j m m') : Fresh j m' := by
  obtain ⟨hpublished, hnone⟩ := h
  refine ⟨ha.published.trans hpublished, fun id => ⟨?_, (ha.offers id).trans (hnone id).2⟩⟩
  obtain hsince | hsince := ha.since id
  · exact hsince.trans (hnone id).1
  · exact hsince.trans hpublished

theorem Publishes.transfer {messages : List Text} {done : Nat} {todo : Option (List Nat)}
    (h : Publishes messages done todo j m) (ha : Apart j m m') : Publishes messages done todo j m' where
  counted := ha.published.trans h.counted
  texts := fun id o ho => h.texts id o (ha.offers id ▸ ho)
  inside := by
    intro l hl
    obtain ⟨hreads, hlt, hnodup, hsub⟩ := h.inside l hl
    obtain ⟨hreads', hsubs⟩ := ha.reading hreads
    exact ⟨hreads', hlt, hnodup, hsubs ▸ hsub⟩
  offers := by
    intro id hid
    rw [ha.offers]
    obtain ⟨hmem, hsince⟩ | ⟨hnot, hsince, hnone⟩ := ha.members id hid
    · rw [hsince]
      exact h.offers id hmem
    · -- a subscriber joins only while nobody is inside `Publish`
      have hout : todo = none := by
        cases htodo : todo with
        | none => rfl
        | some l => exact absurd ((ha.reading (h.inside l htodo).1).2 ▸ hid) hnot
      rw [hsince, h.counted, hnone, hout, Nat.sub_self]
      exact ⟨Nat.le_refl _, rfl⟩

theorem Place.Holds.transfer (h : t.Holds j m) (ha : Apart j m m') : t.Holds j m' := by
  cases t with
  | publisher messages done todo => exact Publishes.transfer h ha
  | subscribe => exact h
  | wait id | write id _ =>
      obtain ⟨howner, hmem, hhand⟩ := h
      obtain ⟨howner', hmem', hhand', -⟩ := ha.owned id howner
      exact ⟨howner', hmem'.mpr hmem, hhand'.trans hhand⟩
  | remove id =>
      obtain ⟨howner, hmem⟩ := h
      obtain ⟨howner', hmem', -⟩ := ha.owned id howner
      exact ⟨howner', hmem'.mpr hmem⟩
  | close id =>
      obtain ⟨howner, hmem, hopen⟩ := h
      obtain ⟨howner', hmem', -, hopen'⟩ := ha.owned id howner
      exact ⟨howner', fun hid => hmem (hmem'.mp hid), hopen'.trans hopen⟩
  | gone id => exact (ha.owned id h).1

end Frame

/-! ### One channel -/

section Channel

variable {offered : List Offer} {written inHand queue : List Publication} {p : Publication}

theorem Channel.receive (h : Channel offered written [] (p :: queue)) : Channel offered written [p] queue where
  room := Nat.le_of_succ_le h.room
  full := h.full
  split := by rw [h.split, List.append_nil, List.append_assoc, List.singleton_append]
  single := Nat.le_refl 1

theorem Channel.write (h : Channel offered written [p] queue) : Channel offered (written ++ [p]) [] queue where
  room := h.room
  full := h.full
  split := by rw [h.split, List.append_nil]
  single := Nat.zero_le 1

/-- A send takes the message if there is room. -/
theorem Channel.send (h : Channel offered written inHand queue) (p : Publication) :
    Channel (offered ++ [⟨p, queue.length⟩]) written inHand (queue ++ if queue.length < queueSize then [p] else []) where
  room := by
    rw [List.length_append]
    split
    · exact ‹_›
    · exact h.room
  full := List.forall_mem_append.mpr ⟨h.full, List.forall_mem_singleton.mpr h.room⟩
  split := by
    rw [accepted, List.filter_append, List.map_append, ← List.append_assoc]
    refine congrArg₂ (· ++ ·) h.split ?_
    by_cases hroom : queue.length < queueSize
    · have htaken : [Offer.mk p queue.length].filter Offer.taken = [⟨p, queue.length⟩] :=
        List.filter_cons_of_pos (decide_eq_true hroom)
      rw [if_pos hroom, htaken]
      rfl
    · have hdropped : [Offer.mk p queue.length].filter Offer.taken = [] :=
        List.filter_cons_of_neg fun h => hroom (of_decide_eq_true h)
      rw [if_neg hroom, hdropped]
      rfl
  single := h.single

end Channel

/-! ### One step -/

/-- A step of the goroutine `i`: the memory stays sound, its own part holds and the others' are left alone. -/
structure Keeps (i : Nat) (m m' : Memory) (t' : Place) : Prop where
  sound : m'.Sound
  own : t'.Holds i m'
  apart : ∀ j, j ≠ i → Apart j m m'

section Step

variable {i : Nat} {m m' : Memory} {t t' : Place}

/-- A step that touches no more than the read lock. -/
theorem Apart.of_readers {j : Nat} {readers : List Nat} {published : Nat → Nat} (hreaders : j ∈ m.readers → j ∈ readers)
    (hpublished : published j = m.published j) : Apart j m { m with readers := readers, published := published } where
  published := hpublished
  offers := fun _ => rfl
  since := fun _ => .inl rfl
  members := fun _ hid => .inl ⟨hid, rfl⟩
  reading := fun h => ⟨hreaders h, rfl⟩
  owned := fun _ h => ⟨h, Iff.rfl, rfl, rfl⟩

theorem ne_of_owner {j k id : Nat} (howner : m.owner id = some i) (hj : j ≠ i) (hk : m.owner k = some j) : k ≠ id := by
  rintro rfl
  exact hj (Option.some.inj (hk.symm.trans howner))

/-- A step of a reader on its own channel. -/
theorem Apart.of_reader {j id : Nat} {queue written : Nat → List Publication} {taken : List Publication}
    (howner : m.owner id = some i) (hj : j ≠ i) :
    Apart j m { m with queue := queue, written := written, inHand := update m.inHand id taken } where
  published := rfl
  offers := fun _ => rfl
  since := fun _ => .inl rfl
  members := fun _ hid => .inl ⟨hid, rfl⟩
  reading := fun h => ⟨h, rfl⟩
  owned := fun _ hk => ⟨hk, Iff.rfl, update_of_ne (ne_of_owner howner hj hk) .., rfl⟩

theorem lock_keeps {messages : List Text} {done : Nat} (hm : m.Sound) (hp : Publishes messages done none i m)
    (hlt : done < messages.length) :
    Keeps i m { m with readers := i :: m.readers } (.publisher messages done (some m.subscribers)) := by
  refine ⟨{ hm with channel := hm.channel },
    ⟨hp.counted, hp.texts, fun l hl => ?_, fun id hid => ?_⟩, fun j hj => .of_readers (List.mem_cons_of_mem i) rfl⟩
  · cases hl
    exact ⟨List.mem_cons_self .., hlt, hm.nodup, List.Subset.refl _⟩
  · rw [sentOn, if_pos hid]
    exact hp.offers id hid

theorem unlock_keeps {messages : List Text} {done : Nat} (hm : m.Sound) (hp : Publishes messages done (some []) i m) :
    Keeps i m { m with readers := m.readers.erase i, published := update m.published i (done + 1) }
      (.publisher messages (done + 1) none) := by
  refine ⟨{ hm with channel := hm.channel },
    ⟨update_self .., hp.texts, (fun l hl => by cases hl), fun id hid => ?_⟩,
    fun j hj => .of_readers (fun h => (List.mem_erase_of_ne hj).mpr h) (update_of_ne hj ..)⟩
  obtain ⟨hle, hnumbers⟩ := hp.offers id hid
  have hcount : done + 1 - m.since id i + sentOn none id = done - m.since id i + sentOn (some []) id := by
    change done + 1 - m.since id i + 0 = done - m.since id i + 1
    omega
  exact ⟨Nat.le_succ_of_le hle, hcount ▸ hnumbers⟩

theorem join_keeps (hm : m.Sound) (hidle : m.readers = []) :
    Keeps i m { m with
      nextID := m.nextID + 1, subscribers := m.subscribers ++ [m.nextID], owner := update m.owner m.nextID (some i),
      since := update m.since m.nextID m.published } (.wait m.nextID) := by
  have hnew : m.nextID ∉ m.subscribers := fun h => Nat.lt_irrefl _ (hm.known _ h)
  have hold : ∀ id ∈ m.subscribers, id ≠ m.nextID := fun id h heq => hnew (heq ▸ h)
  have howner : ∀ id, id ≠ m.nextID → update m.owner m.nextID (some i) id = m.owner id :=
    fun id hne => update_of_ne hne ..
  have hsince : ∀ id, id ≠ m.nextID → update m.since m.nextID m.published id = m.since id :=
    fun id hne => update_of_ne hne ..
  have hnone : m.offered m.nextID = [] := hm.unused _ (Nat.le_refl _)
  have hhand : m.inHand m.nextID = [] := by
    have hsplit := (hm.channel m.nextID).split
    rw [hnone, List.append_assoc] at hsplit
    exact (List.append_eq_nil_iff.mp (List.append_eq_nil_iff.mp hsplit.symm).2).1
  refine ⟨⟨hm.calm, ?_, ?_, fun id j hid => ?_, fun id hid => ?_, fun id hid => ?_, hm.channel,
    fun id j => ?_⟩, ⟨update_self .., List.mem_append_right _ (List.mem_singleton_self _), hhand⟩,
    fun j hj => ⟨rfl, fun _ => rfl, fun id => ?_, fun id hid => ?_, fun h => ?_, fun id hid => ?_⟩⟩
  · refine List.nodup_append.mpr ⟨hm.nodup, List.pairwise_singleton .., fun a ha b hb => ?_⟩
    exact List.mem_singleton.mp hb ▸ hold a ha
  · refine List.forall_mem_append.mpr ⟨fun id hid => ?_, List.forall_mem_singleton.mpr (Nat.lt_succ_self _)⟩
    exact Nat.lt_succ_of_lt (hm.known id hid)
  · by_cases heq : id = m.nextID
    · exact heq ▸ Nat.lt_succ_self _
    · exact Nat.lt_succ_of_lt (hm.owned id j ((howner id heq).symm.trans hid))
  · obtain ⟨hnot, hlt⟩ := hm.shut id hid
    refine ⟨fun hmem => ?_, Nat.lt_succ_of_lt hlt⟩
    obtain hmem | hmem := List.mem_append.mp hmem
    · exact hnot hmem
    · exact Nat.ne_of_lt hlt (List.mem_singleton.mp hmem)
  · exact hm.unused id (Nat.le_of_succ_le hid)
  · by_cases heq : id = m.nextID
    · refine ⟨0, ?_⟩
      change numbers (m.offersOf id j) = []
      rw [Memory.offersOf, heq, hnone]
      rfl
    · obtain ⟨n, hn⟩ := hm.gapless id j
      exact ⟨n, hn.trans (congrArg (List.range' · n) (congrFun (hsince id heq) j).symm)⟩
  · by_cases heq : id = m.nextID
    · exact .inr (heq ▸ congrFun (update_self ..) j)
    · exact .inl (congrFun (hsince id heq) j)
  · obtain hid | hid := List.mem_append.mp hid
    · exact .inl ⟨hid, congrFun (hsince id (hold id hid)) j⟩
    · obtain rfl := List.mem_singleton.mp hid
      refine .inr ⟨hnew, congrFun (update_self ..) j, ?_⟩
      rw [Memory.offersOf, hnone]
      rfl
  · rw [hidle] at h
    cases h
  · have hne : id ≠ m.nextID := Nat.ne_of_lt (hm.owned id j hid)
    refine ⟨(howner id hne).trans hid, ?_, rfl, rfl⟩
    rw [List.mem_append, List.mem_singleton, or_iff_left hne]

theorem receive_keeps {id : Nat} {p : Publication} {rest : List Publication} (hm : m.Sound) (howner : m.owner id = some i)
    (hmem : id ∈ m.subscribers) (hhand : m.inHand id = []) (hqueue : m.queue id = p :: rest) :
    Keeps i m { m with queue := update m.queue id rest, inHand := update m.inHand id [p] } (.write id p) := by
  refine ⟨{ hm with channel := fun k => ?_ }, ⟨howner, hmem, update_self ..⟩, fun j hj => .of_reader howner hj⟩
  have hchannel := hm.channel k
  dsimp only
  by_cases hk : k = id
  · subst hk
    rw [hhand, hqueue] at hchannel
    rw [update_self, update_self]
    exact hchannel.receive
  · rwa [update_of_ne hk, update_of_ne hk]

theorem write_keeps {id : Nat} {p : Publication} (hm : m.Sound) (howner : m.owner id = some i) (hmem : id ∈ m.subscribers)
    (hhand : m.inHand id = [p]) :
    Keeps i m { m with written := update m.written id (m.written id ++ [p]), inHand := update m.inHand id [] }
      (.wait id) := by
  refine ⟨{ hm with channel := fun k => ?_ }, ⟨howner, hmem, update_self ..⟩, fun j hj => .of_reader howner hj⟩
  have hchannel := hm.channel k
  dsimp only
  by_cases hk : k = id
  · subst hk
    rw [hhand] at hchannel
    rw [update_self, update_self]
    exact hchannel.write
  · rwa [update_of_ne hk, update_of_ne hk]

theorem leave_keeps {id : Nat} (hm : m.Sound) (howner : m.owner id = some i) (hmem : id ∈ m.subscribers) :
    Keeps i m m (.remove id) :=
  ⟨hm, ⟨howner, hmem⟩, fun _ _ => .of_readers (fun h => h) rfl⟩

theorem remove_keeps {id : Nat} (hm : m.Sound) (howner : m.owner id = some i) (hmem : id ∈ m.subscribers)
    (hidle : m.readers = []) : Keeps i m { m with subscribers := m.subscribers.erase id } (.close id) := by
  have hopen : m.closed id = false := Bool.eq_false_iff.mpr fun hclosed => (hm.shut id hclosed).1 hmem
  have hsub : ∀ k ∈ m.subscribers.erase id, k ∈ m.subscribers := fun k => List.mem_of_mem_erase
  refine ⟨{ hm with
      nodup := hm.nodup.erase id
      known := fun k hk => hm.known k (hsub k hk)
      shut := fun k hk => ⟨fun h => (hm.shut k hk).1 (hsub k h), (hm.shut k hk).2⟩ }, ⟨howner, hm.nodup.not_mem_erase, hopen⟩,
    fun j hj => ⟨rfl, fun _ => rfl, fun _ => .inl rfl, fun k hk => .inl ⟨hsub k hk, rfl⟩, fun h => ?_,
      fun k hk => ⟨hk, List.mem_erase_of_ne (ne_of_owner howner hj hk), rfl, rfl⟩⟩⟩
  rw [hidle] at h
  cases h

theorem close_keeps {id : Nat} (hm : m.Sound) (howner : m.owner id = some i) (hnot : id ∉ m.subscribers) :
    Keeps i m { m with closed := update m.closed id true } (.gone id) := by
  refine ⟨{ hm with shut := fun k hk => ?_ }, howner, fun j hj => ⟨rfl, fun _ => rfl, fun _ => .inl rfl, fun k hk => .inl ⟨hk, rfl⟩, fun h => ⟨h, rfl⟩,
      fun k hk => ⟨hk, Iff.rfl, rfl, update_of_ne (ne_of_owner howner hj hk) ..⟩⟩⟩
  by_cases heq : k = id
  · subst heq
    exact ⟨hnot, hm.owned k i howner⟩
  · exact hm.shut k ((update_of_ne heq ..).symm.trans hk)

/-- A send on an open channel: it takes the message if it has room. -/
theorem send_eq {id : Nat} {p : Publication} (hopen : m.closed id = false) :
    m.send id p = { m with
      queue := update m.queue id (m.queue id ++ if (m.queue id).length < queueSize then [p] else [])
      offered := update m.offered id (m.offered id ++ [⟨p, (m.queue id).length⟩]) } := by
  rw [Memory.send, hopen, if_neg (by decide)]
  simp only
  split
  · rfl
  · rw [List.append_nil, Function.update_eq_self]

theorem send_keeps {messages : List Text} {done id : Nat} {todo : List Nat} {message : Text} (hm : m.Sound)
    (hp : Publishes messages done (some todo) i m) (hid : id ∈ todo) (hmessage : messages[done]? = some message) :
    Keeps i m (m.send id ⟨i, done, message⟩) (.publisher messages done (some (todo.erase id))) := by
  obtain ⟨hreads, hbound, hnodup, hsub⟩ := hp.inside todo rfl
  have hopen : m.closed id = false := Bool.eq_false_iff.mpr fun hclosed => (hm.shut id hclosed).1 (hsub hid)
  have hlt : id < m.nextID := hm.known id (hsub hid)
  rw [send_eq hopen]
  generalize hpub : Publication.mk i done message = p
  have hsource : p.source = i := by rw [← hpub]
  have hnumber : p.number = done := by rw [← hpub]
  let offered := update m.offered id (m.offered id ++ [⟨p, (m.queue id).length⟩])
  have hsame : ∀ k, k ≠ id → offered k = m.offered k := fun k hk => update_of_ne hk ..
  have hgrown : offered id = m.offered id ++ [⟨p, (m.queue id).length⟩] := update_self ..
  -- the sends of another goroutine, or on another channel, are as they were
  have hothers : ∀ k j, k ≠ id ∨ j ≠ i → (offered k).filter (fun o => o.publication.source == j) = m.offersOf k j := by
    intro k j hkj
    by_cases hk : k = id
    · subst hk
      have hne : ¬ (p.source == j) = true := by
        rw [beq_iff_eq, hsource]
        exact (hkj.resolve_left (· rfl)).symm
      have hnone : [Offer.mk p (m.queue k).length].filter (fun o => o.publication.source == j) = [] :=
        List.filter_cons_of_neg hne
      rw [hgrown, List.filter_append, hnone, List.append_nil]
      rfl
    · rw [hsame k hk]
      rfl
  have hmine : (offered id).filter (fun o => o.publication.source == i) =
      m.offersOf id i ++ [⟨p, (m.queue id).length⟩] := by
    have hone : [Offer.mk p (m.queue id).length].filter (fun o => o.publication.source == i) =
        [Offer.mk p (m.queue id).length] := List.filter_cons_of_pos (beq_iff_eq.mpr hsource)
    rw [hgrown, List.filter_append, hone]
    rfl
  obtain ⟨hle, hnumbers⟩ := hp.offers id (hsub hid)
  have hcount : numbers (m.offersOf id i ++ [⟨p, (m.queue id).length⟩]) =
      List.range' (m.since id i) (done - m.since id i + 1) := by
    rw [sentOn, if_pos hid, Nat.add_zero] at hnumbers
    have hlast : m.since id i + 1 * (done - m.since id i) = done := by omega
    rw [List.range'_concat, ← hnumbers, hlast, ← hnumber]
    exact List.map_append
  refine ⟨{ hm with unused := fun k hk => ?_, channel := fun k => ?_, gapless := fun k j => ?_ }, ⟨hp.counted, fun k o ho => ?_, fun l hl => ?_, fun k hk => ?_⟩,
    fun j hj => ⟨rfl, fun k => hothers k j (.inr hj), fun _ => .inl rfl, fun k hk => .inl ⟨hk, rfl⟩, fun h => ⟨h, rfl⟩,
      fun k hk => ⟨hk, Iff.rfl, rfl, rfl⟩⟩⟩
  · have hk' : m.nextID ≤ k := hk
    exact (hsame k (by omega)).trans (hm.unused k hk)
  · have hchannel := hm.channel k
    dsimp only
    by_cases hk : k = id
    · subst hk
      rw [update_self, update_self]
      exact hchannel.send p
    · rwa [update_of_ne hk, update_of_ne hk]
  · by_cases hkj : k ≠ id ∨ j ≠ i
    · obtain ⟨n, hn⟩ := hm.gapless k j
      exact ⟨n, (congrArg numbers (hothers k j hkj)).trans hn⟩
    · obtain ⟨rfl, rfl⟩ := (not_or.mp hkj).imp not_not.mp not_not.mp
      exact ⟨_, (congrArg numbers hmine).trans hcount⟩
  · by_cases hk : k = id
    · subst hk
      have ho' : o ∈ (offered k).filter fun o => o.publication.source == i := ho
      rw [hmine] at ho'
      obtain ho' | ho' := List.mem_append.mp ho'
      · exact hp.texts k o ho'
      · rw [List.mem_singleton.mp ho', ← hpub]
        exact hmessage
    · exact hp.texts k o (hothers k i (.inl hk) ▸ ho)
  · cases hl
    exact ⟨hreads, hbound, hnodup.erase id, fun k hk => hsub (List.mem_of_mem_erase hk)⟩
  · by_cases heq : k = id
    · subst heq
      rw [sentOn, if_neg hnodup.not_mem_erase]
      exact ⟨hle, (congrArg numbers hmine).trans hcount⟩
    · obtain ⟨hle', hnumbers'⟩ := hp.offers k hk
      have hsent : sentOn (some (todo.erase id)) k = sentOn (some todo) k :=
        if_congr (List.mem_erase_of_ne heq) rfl rfl
      rw [hsent]
      exact ⟨hle', (congrArg numbers (hothers k i (.inl heq))).trans hnumbers'⟩

theorem keeps_of_exec {c : Choice} (hm : m.Sound) (ht : t.Holds i m) (h : exec i m t c = some (m', t')) : Keeps i m m' t' := by
  unfold exec at h
  split at h
  · split at h
    · cases h
      exact lock_keeps hm ht ‹_›
    · cases h
  · cases h
    exact unlock_keeps hm ht
  · split at h
    next hid hmessage =>
      cases h
      exact send_keeps hm ht (List.mem_of_getElem? hid) hmessage
    · cases h
  · split at h
    · cases h
      exact join_keeps hm ‹_›
    · cases h
  · cases h
    exact leave_keeps hm ht.1 ht.2.1
  · obtain ⟨howner, hmem, hhand⟩ := ht
    split at h
    · cases h
      exact receive_keeps hm howner hmem hhand ‹_›
    · split at h
      · cases h
        exact leave_keeps hm howner hmem
      · cases h
  · cases h
    exact write_keeps hm ht.1 ht.2.1 ht.2.2
  · cases h
    exact leave_keeps hm ht.1 ht.2.1
  · split at h
    · -- a reader takes its own entry out, and nobody else does
      rw [if_pos ht.2] at h
      cases h
      exact remove_keeps hm ht.1 ht.2 ‹_›
    · cases h
  · rw [if_neg (by rw [ht.2.2]; decide)] at h
    cases h
    exact close_keeps hm ht.1 ht.2.1
  · cases h

theorem start_holds (hfresh : Fresh i m) (r : Request) : r.start.Holds i m := by
  cases r with
  | subscribe => trivial
  | publish messages =>
      obtain ⟨hpublished, hnone⟩ := hfresh
      refine ⟨hpublished, fun id o ho => ?_, (fun l hl => by cases hl), fun id _ => ?_⟩
      · rw [(hnone id).2] at ho
        cases ho
      · obtain ⟨hsince, hoffers⟩ := hnone id
        rw [hsince, hoffers]
        exact ⟨Nat.le_refl 0, rfl⟩

end Step

theorem sound_init : ({} : Memory).Sound where
  calm := rfl
  nodup := List.nodup_nil
  known := fun _ h => absurd h List.not_mem_nil
  owned := fun _ _ h => by cases h
  shut := fun _ h => by cases h
  unused := fun _ _ => rfl
  channel := fun _ => ⟨Nat.zero_le _, fun _ h => absurd h List.not_mem_nil, rfl, Nat.zero_le _⟩
  gapless := fun _ _ => ⟨0, rfl⟩

abbrev Consistent (s : State) : Prop := Program.Parts Memory.Sound Fresh Place.Holds s

theorem consistent_of_reachable {s : State} (h : Reachable s) : Consistent s := by
  refine h.parts ⟨sound_init, fun _ _ => ⟨rfl, fun _ => ⟨rfl, rfl⟩⟩, fun _ _ h => by cases h⟩
    (fun i m r hfresh => start_holds hfresh r) fun s i t c m' t' hs hi hexec => ?_
  have hkeeps := keeps_of_exec hs.mem (hs.thread i t hi) hexec
  exact ⟨hkeeps.sound, hkeeps.own, fun j hj =>
    ⟨fun hfresh => hfresh.transfer (hkeeps.apart j hj), fun u hu => hu.transfer (hkeeps.apart j hj)⟩⟩

/-! ### Every run of the hub -/

/-- Nothing `Publish` does waits for a subscriber. -/
theorem Consistent.publish_moves {s : State} {i : Nat} {messages : List Text} {done : Nat} {todo : List Nat} (hs : Consistent s)
    (hi : s.threads[i]? = some (.publisher messages done (some todo))) : ∃ c s', hub.step s (.run i c) = some s' := by
  have hp : Publishes messages done (some todo) i s.mem := hs.thread i _ hi
  obtain ⟨-, hlt, -⟩ := hp.inside todo rfl
  cases todo with
  | nil => exact ⟨.go, _, by rw [Program.step, hi]; rfl⟩
  | cons id rest =>
      have hmessage : messages[done]? = some messages[done] := List.getElem?_eq_getElem hlt
      refine ⟨.pick 0, ⟨s.mem.send id ⟨i, done, messages[done]⟩,
        s.threads.set i (.publisher messages done (some ((id :: rest).erase id)))⟩, ?_⟩
      rw [Program.step, hi]
      change (exec i s.mem (.publisher messages done (some (id :: rest))) (.pick 0)).map _ = _
      rw [exec, hmessage]
      rfl

/-- In every run: no send meets a closed channel and no channel is closed twice; what a channel has taken is what its
reader has written, then at most one message the reader holds, then the queue, so that nothing taken is lost, doubled or
put in another order; a message is refused only by a channel that holds 64; each publisher's messages are offered to
a subscriber one after another, without a gap, from the first one it published after the subscriber joined, up to the last
as long as the subscriber stays; and a publisher inside `Publish` can always go on. -/
theorem hub_delivers {s : State} (h : Reachable s) :
    s.mem.panicked = false ∧
    (∀ id, accepted (s.mem.offered id) = s.mem.written id ++ s.mem.inHand id ++ s.mem.queue id ∧ (s.mem.inHand id).length ≤ 1 ∧
      (s.mem.queue id).length ≤ queueSize ∧ ∀ o ∈ s.mem.offered id, o.taken = false → o.held = queueSize) ∧
    (∀ id j, ∃ n, numbers (s.mem.offersOf id j) = List.range' (s.mem.since id j) n) ∧
    (∀ i messages done, s.threads[i]? = some (.publisher messages done none) → ∀ id,
      (∀ o ∈ s.mem.offersOf id i, messages[o.publication.number]? = some o.publication.message) ∧
      (id ∈ s.mem.subscribers →
        numbers (s.mem.offersOf id i) = List.range' (s.mem.since id i) (done - s.mem.since id i))) ∧
    ∀ i messages done todo, s.threads[i]? = some (.publisher messages done (some todo)) →
      ∃ c s', hub.step s (.run i c) = some s' := by
  have hs := consistent_of_reachable h
  have hm := hs.mem
  refine ⟨hm.calm, fun id => ⟨(hm.channel id).split, (hm.channel id).single, (hm.channel id).room, fun o ho hrefused => ?_⟩, hm.gapless,
    fun i messages done hi id => ?_, fun i messages done todo hi => hs.publish_moves hi⟩
  · have hfull := (hm.channel id).full o ho
    have hnot : ¬ o.held < queueSize := of_decide_eq_false hrefused
    omega
  · have hp : Publishes messages done none i s.mem := hs.thread i _ hi
    exact ⟨hp.texts id, fun hid => (hp.offers id hid).2⟩

/-- A subscriber joins after the first of three messages and has written the second. -/
def lateSubscriber : List (Act Request Choice) :=
  [.spawn (.publish [['a'], ['b'], ['c']]), .spawn .subscribe, .run 0 .go, .run 0 .go, .run 1 .go, .run 0 .go,
   .run 0 (.pick 0), .run 0 .go, .run 1 .go, .run 1 .go, .run 0 .go, .run 0 (.pick 0), .run 0 .go]

theorem lateSubscriber_served :
    ∃ s, Reachable s ∧ s.mem.subscribers = [0] ∧ s.mem.written 0 = [⟨0, 1, ['b']⟩] ∧ s.mem.queue 0 = [⟨0, 2, ['c']⟩] ∧
      numbers (s.mem.offersOf 0 0) = List.range' 1 2 := by
  obtain ⟨s, hs, hplace, hsubs, hsince, hwritten, hqueue⟩ :
      ∃ s, hub.run (fun _ _ => True) State.init lateSubscriber = some s ∧
        s.threads[0]? = some (.publisher [['a'], ['b'], ['c']] 3 none) ∧ s.mem.subscribers = [0] ∧ s.mem.since 0 0 = 1 ∧
        s.mem.written 0 = [⟨0, 1, ['b']⟩] ∧ s.mem.queue 0 = [⟨0, 2, ['c']⟩] := ⟨_, rfl, rfl, rfl, rfl, rfl, rfl⟩
  have hreach : Reachable s := Program.reaches_of_run hs
  have hoffers := ((hub_delivers hreach).2.2.2.1 0 _ 3 hplace 0).2 (hsubs ▸ List.mem_singleton_self 0)
  rw [hsince] at hoffers
  exact ⟨s, hreach, hsubs, hwritten, hqueue, hoffers⟩

end GlitchCore.Core.Hub
