import Coap.Delivery.Record
import Coap.Draws
import Coap.Store.Ledger
import Coap.Wire.Encode

/-!
# Transmission

A message without an id gets one when it is sent: the first one, from a counter of the peer on,
that is not in flight to this peer. A confirmable message is kept in flight until the peer
acknowledges or rejects it, it is given up or called off; any other message is done once it is
sent. Each message that is accepted has a number of its own, its ticket.

* `firstFree?_eq_none_iff`: there is no free id just if all of them are taken;
* `search_of_some`, `search_of_none`: where the search for an id ends;
* `find?_elapse`: what the passing of time does to a message in flight;
* `receive_of_find?`: which message an acknowledgement resolves.
-/

namespace Coap

/-- Which id the next message to a peer gets. -/
structure Transmission.Counter where
  /-- The first id to try. -/
  next : UInt16
  /-- When a message to the peer last needed an id. -/
  lastUsed : Nat
  deriving DecidableEq, Repr

/-- The messages in flight and the counters of the peers. -/
structure Transmission (Peer : Type) where
  draws : Draws := {}
  records : Ledger Peer Record := ∅
  counters : Table Peer Transmission.Counter := ∅
  nextTicket : Nat := 0

/-- What a sender knows of a message that was accepted. -/
structure Receipt where
  ticket : Nat
  id : UInt16
  deriving DecidableEq, Repr

/-- What becomes of a message that is to be sent. -/
structure Sent (Peer : Type) where
  transmission : Transmission Peer
  result : Except (Failure Peer) Receipt
  progress : Progress Peer := {}

namespace Transmission

/-- Looks at up to `count` ids from `next` on, in cyclic order, for one that is not taken. Gives the
    id after the last one that was looked at, and the id that was found. -/
def search (taken : UInt16 → Bool) : (count : Nat) → (next : UInt16) → UInt16 × Option UInt16
  | 0, next => (next, none)
  | count + 1, next => if taken next then search taken count (next + 1) else (next + 1, some next)

/-- The first of `count` ids from `next` on that is not taken, in cyclic order. -/
def firstFree? (taken : UInt16 → Bool) (count : Nat) (next : UInt16) : Option UInt16 :=
  (search taken count next).2

variable {Peer : Type}

/-- How many messages are in flight. -/
def inFlight (t : Transmission Peer) : Nat := t.records.size

/-- How many peers have a counter. -/
def knownPeers (t : Transmission Peer) : Nat := t.counters.size

/-- Calls off every message in flight. -/
def close (time : Nat) (t : Transmission Peer) : Transmission Peer × Progress Peer :=
  ({ t with records := ∅ },
    { resolutions := t.records.toList.map fun (_, record) =>
        ⟨time, record.ticket, .failed .closed⟩ })

/-- The transmission at a moment, and what happened until then. -/
def elapse (link : Link) (moment : Moment) (t : Transmission Peer) :
    Transmission Peer × Progress Peer :=
  let progress := t.records.toList.map fun ((peer, id), record) =>
    (record.elapse link peer id moment).2
  ({ t with
      records := t.records.filterMap fun peer id record =>
        (record.elapse link peer id moment).1 },
    { emissions := progress.flatMap Progress.emissions
      resolutions := progress.flatMap Progress.resolutions })

variable [DecidableEq Peer]

/-- Takes the next free id of a peer. The counter goes on to where the search ends, also if there is
    no free id: then it has come round (`search_of_none`). -/
def allocate (link : Link) (peer : Peer) (t : Transmission Peer) :
    Transmission Peer × Option UInt16 :=
  let (next, draws) :=
    match t.counters.find? peer with
    | some counter => (counter.next, t.draws)
    | none => t.draws.id
  let (next, id?) := search (t.records.contains peer) UInt16.size next
  ({ t with draws, counters := t.counters.insert peer ⟨next, link.now⟩ }, id?)

/-- The jitter of a time-out, which is drawn only if the timing wants it. -/
def jitter (timing : Timing) (draws : Draws) : Ratio × Draws :=
  if Backoff.isRandom timing then draws.nextJitter else (.ofNat 0, draws)

/-- Sends the written form of a message. A first time-out that is too long breaks off whoever sends
    the message, when its datagram is on the way already. Here this is a failure of its own, after
    which nothing has been sent: the datagram is left out. -/
def dispatch (link : Link) (peer : Peer) (type : MessageType) (id : UInt16) (bytes : Bytes)
    (t : Transmission Peer) : Sent Peer :=
  let ticket := t.nextTicket
  let nextTicket := ticket + 1
  let emissions := [⟨link.now, peer, bytes, ticket⟩]
  if type = .con then
    let (u, draws) := jitter link.timing t.draws
    match Backoff.start? link.timing u with
    | none => ⟨{ t with draws }, .error .timeoutTooLong, {}⟩
    | some backoff =>
      let records := t.records.insert peer id (.start ticket bytes backoff link.now)
      ⟨{ t with draws, records, nextTicket }, .ok ⟨ticket, id⟩, { emissions }⟩
  else
    let resolutions := [⟨link.now, ticket, .sent⟩]
    ⟨{ t with nextTicket }, .ok ⟨ticket, id⟩, { emissions, resolutions }⟩

/-- Sends a message whose type and id are settled. -/
def sendAs (link : Link) (peer : Peer) (type : MessageType) (id : UInt16) (m : Message)
    (t : Transmission Peer) : Sent Peer :=
  if type = .con ∧ t.records.contains peer id then ⟨t, .error (.idInFlight id peer), {}⟩
  else match m.encode with
    | .error fault => ⟨t, .error (.invalid fault), {}⟩
    | .ok bytes =>
      if link.isOpen then t.dispatch link peer type id bytes else ⟨t, .error .closed, {}⟩

/-- Sends a message, with a new id if it has none. -/
def send (link : Link) (peer : Peer) (m : Message) (t : Transmission Peer) : Sent Peer :=
  match m.type?, m.id? with
  | none, _ => ⟨t, .error (.invalid .typeUnset), {}⟩
  | some type, some id => t.sendAs link peer type id m
  | some type, none =>
    match t.allocate link peer with
    | (t, none) => ⟨t, .error (.idsExhausted peer), {}⟩
    | (t, some id) => t.sendAs link peer type id { m with id? := some id }

/-- How a message ends that the peer answers with `m`, if `m` is an answer of this layer. -/
def outcome? (m : Message) : Option (Outcome Peer) :=
  match m.type? with
  | some .ack => some (.acknowledged m)
  | some .rst => some .reset
  | _ => none

/-- Takes in an acknowledgement or a rejection. There is a resolution just if it concerns a
    message in flight. -/
def receive (link : Link) (peer : Peer) (m : Message) (t : Transmission Peer) :
    Transmission Peer × Option (Resolution Peer) :=
  match outcome? m, m.id? with
  | some outcome, some id =>
    match t.records.find? peer id with
    | some record =>
      ({ t with records := t.records.erase peer id }, some ⟨link.now, record.ticket, outcome⟩)
    | none => (t, none)
  | _, _ => (t, none)

/-- Calls off a message. There is a resolution just if it is in flight. -/
def cancel (link : Link) (peer : Peer) (id : UInt16) (t : Transmission Peer) :
    Transmission Peer × Option (Resolution Peer) :=
  match t.records.find? peer id with
  | some record =>
    ({ t with records := t.records.erase peer id },
      some ⟨link.now, record.ticket, .failed .closed⟩)
  | none => (t, none)

/-- Whether a counter is too old at a time. -/
def Counter.expired (timing : Timing) (time : Nat) (counter : Counter) : Bool :=
  timing.exchangeLifetime ≤ time - counter.lastUsed

/-- The transmission without the counters that are too old, apart from those of peers to which
    something is in flight. -/
def purge (timing : Timing) (time : Nat) (t : Transmission Peer) : Transmission Peer :=
  { t with
    counters := t.counters.filter fun peer counter =>
      !counter.expired timing time || t.records.hasPeer peer }

/-! ### Ids -/

theorem add_one_add_ofNat (next : UInt16) (k : Nat) :
    next + 1 + UInt16.ofNat k = next + UInt16.ofNat (k + 1) := by
  rw [UInt16.ofNat_add, UInt16.add_assoc, UInt16.add_comm 1]
  rfl

/-- Either the next id is free, or the search goes on behind it. -/
theorem firstFree?_succ (taken : UInt16 → Bool) (count : Nat) (next : UInt16) :
    firstFree? taken (count + 1) next =
      if taken next then firstFree? taken count (next + 1) else some next := by
  simp only [firstFree?, search]
  split <;> rfl

/-- The search ends right behind the id that it found. -/
theorem search_of_some {taken : UInt16 → Bool} {count : Nat} {next id : UInt16}
    (h : firstFree? taken count next = some id) : search taken count next = (id + 1, some id) := by
  induction count generalizing next with
  | zero => cases h
  | succ count ih =>
    rw [firstFree?_succ] at h
    rw [search]
    split at h
    · rename_i htaken
      rw [if_pos htaken, ih h]
    · rename_i htaken
      rw [if_neg htaken, Option.some.inj h]

/-- A search that finds nothing ends behind all ids that it looked at. -/
theorem search_of_none_count {taken : UInt16 → Bool} {count : Nat} {next : UInt16}
    (h : firstFree? taken count next = none) :
    search taken count next = (next + UInt16.ofNat count, none) := by
  induction count generalizing next with
  | zero => exact congrArg (·, none) (UInt16.add_zero next).symm
  | succ count ih =>
    rw [firstFree?_succ] at h
    split at h
    · rename_i htaken
      rw [search, if_pos htaken, ih h, add_one_add_ofNat]
    · cases h

/-- A search that finds nothing among all ids has come round. -/
theorem search_of_none {taken : UInt16 → Bool} {next : UInt16}
    (h : firstFree? taken UInt16.size next = none) :
    search taken UInt16.size next = (next, none) := by
  rw [search_of_none_count h]
  exact congrArg (·, none) (UInt16.add_zero next)

/-- The id that is found is the first free one in cyclic order: all those before it are taken. -/
theorem firstFree?_eq_some_iff {taken : UInt16 → Bool} {count : Nat} {next id : UInt16} :
    firstFree? taken count next = some id ↔
      ∃ k < count, id = next + UInt16.ofNat k ∧ taken id = false ∧
        ∀ j < k, taken (next + UInt16.ofNat j) = true := by
  induction count generalizing next with
  | zero => simp [firstFree?, search]
  | succ count ih =>
    have start : next + UInt16.ofNat 0 = next := UInt16.add_zero next
    rw [firstFree?_succ]
    split
    · -- The next id is taken: the first free one is as many steps behind it, less one.
      rename_i h
      rw [ih]
      constructor
      · rintro ⟨k, hk, hid, hfree, hbefore⟩
        refine ⟨k + 1, by omega, by rw [hid, add_one_add_ofNat], hfree, fun j hj => ?_⟩
        cases j with
        | zero => rw [start, h]
        | succ j => rw [← add_one_add_ofNat, hbefore j (by omega)]
      · rintro ⟨k, hk, hid, hfree, hbefore⟩
        cases k with
        | zero =>
          rw [start] at hid
          rw [hid, h] at hfree
          cases hfree
        | succ k =>
          refine ⟨k, by omega, by rw [hid, add_one_add_ofNat], hfree, fun j hj => ?_⟩
          rw [add_one_add_ofNat, hbefore (j + 1) (by omega)]
    · -- The next id is free: it is found, and no later one is the first.
      rename_i h
      simp only [Option.some.injEq]
      constructor
      · rintro rfl
        exact ⟨0, by omega, start.symm, by simpa using h, fun j hj => absurd hj (by omega)⟩
      · rintro ⟨k, hk, hid, -, hbefore⟩
        cases k with
        | zero => rw [hid, start]
        | succ k =>
          have := hbefore 0 (by omega)
          rw [start] at this
          exact absurd this h

/-- If no id is found, all those that were looked at are taken. -/
theorem firstFree?_eq_none {taken : UInt16 → Bool} {count : Nat} {next : UInt16}
    (h : firstFree? taken count next = none) {k : Nat} (hk : k < count) :
    taken (next + UInt16.ofNat k) = true := by
  induction count generalizing next k with
  | zero => omega
  | succ count ih =>
    rw [firstFree?_succ] at h
    split at h
    · rename_i hnext
      cases k with
      | zero => rw [← hnext]; exact congrArg taken (UInt16.add_zero next)
      | succ k => rw [← add_one_add_ofNat, ih h (by omega)]
    · cases h

/-- There is no free id just if all of them are taken. -/
theorem firstFree?_eq_none_iff {taken : UInt16 → Bool} {next : UInt16} :
    firstFree? taken UInt16.size next = none ↔ ∀ id, taken id = true := by
  constructor
  · intro h id
    have := firstFree?_eq_none h (id - next).toNat_lt
    rwa [UInt16.ofNat_toNat, UInt16.add_comm, UInt16.sub_add_cancel] at this
  · intro h
    refine Option.eq_none_iff_forall_ne_some.2 fun id hid => ?_
    obtain ⟨-, -, -, hfree, -⟩ := firstFree?_eq_some_iff.1 hid
    rw [h id] at hfree
    cases hfree

/-! ### What happens to a message in flight -/

/-- What time leaves of a message in flight is what it leaves of its record. -/
theorem find?_elapse (link : Link) (moment : Moment) (t : Transmission Peer) (peer : Peer)
    (id : UInt16) :
    (t.elapse link moment).1.records.find? peer id =
      (t.records.find? peer id).bind fun record => (record.elapse link peer id moment).1 :=
  Ledger.find?_filterMap _ _ _ _

/-- An acknowledgement resolves the message in flight to its peer that has its id. -/
theorem receive_of_find? {link : Link} {peer : Peer} {id : UInt16} {m : Message}
    {t : Transmission Peer} {outcome : Outcome Peer} {record : Record}
    (hm : outcome? m = some outcome) (hid : m.id? = some id)
    (hr : t.records.find? peer id = some record) :
    t.receive link peer m =
      ({ t with records := t.records.erase peer id },
        some ⟨link.now, record.ticket, outcome⟩) := by
  simp only [receive, hm, hid, hr]

end Transmission

end Coap
