import Coap.Delivery.Link
import Coap.Response
import Coap.Store.Ledger
import Coap.Time.Moment
import Coap.Wire.Encode

/-!
# Reception

A confirmable request that is handed on is remembered until its response is ready or until it is
too old. Meanwhile the same message from the same peer is a duplicate. If the response takes
longer than the acknowledgement delay the request is acknowledged on its own, and the response is
then sent as a message of its own; otherwise the response itself is the acknowledgement.

* `encode_emptyAck`: the written form of a bare acknowledgement;
* `find?_elapse`: what the passing of time does to an entry.
-/

namespace Coap

/-- What is known of a confirmable request that was handed on. -/
structure Reception.Entry where
  /-- When the request came in. -/
  created : Nat
  /-- Whether it was acknowledged on its own. -/
  acknowledged : Bool := false
  deriving DecidableEq, Repr

/-- The confirmable requests that wait for their responses. -/
structure Reception (Peer : Type) where
  entries : Ledger Peer Reception.Entry := ∅

/-- What is to be done with a received message. -/
inductive Verdict where
  /-- The layer above gets it. -/
  | forward
  /-- It is sent again by the peer, and is being worked on already. -/
  | duplicate
  deriving DecidableEq, Repr

/-- What becomes of a received message. -/
structure Received (Peer : Type) where
  reception : Reception Peer
  verdict : Verdict
  emissions : List (Emission Peer)

namespace Reception

/-- The written form of the bare acknowledgement of a message. -/
def bareAck (id : UInt16) : Bytes :=
  Wire.Header.bytes ⟨protocolVersion, .ack, 0, Code.empty.number, id⟩

/-- A bare acknowledgement can always be written: it is a header alone. -/
theorem encode_emptyAck (id : UInt16) : (Message.emptyAck id).encode = .ok (bareAck id) := by
  simp [Message.emptyAck, Message.ofHeader, Message.encode, Message.unwritable?_eq_none,
    Message.frames, bareAck, maxOptions, Wire.Frame.ofOptions]

/-- The timer that acknowledges a request on its own. -/
def Entry.timer (timing : Timing) (entry : Entry) : Timer :=
  .after entry.created timing.ackDelay

/-- Whether a request is acknowledged on its own before a moment, and not yet. -/
def Entry.fires (timing : Timing) (moment : Moment) (entry : Entry) : Bool :=
  !entry.acknowledged && (entry.timer timing).Before moment

/-- Whether an entry is too old at a time. -/
def Entry.expired (timing : Timing) (time : Nat) (entry : Entry) : Bool :=
  timing.exchangeLifetime ≤ time - entry.created

variable {Peer : Type}

/-- The reception at a moment, and the acknowledgements sent until then. -/
def elapse (link : Link) (moment : Moment) (r : Reception Peer) :
    Reception Peer × List (Emission Peer) :=
  (⟨r.entries.filterMap fun _ _ entry =>
      some { entry with acknowledged := entry.acknowledged || entry.fires link.timing moment }⟩,
    r.entries.toList.flatMap fun ((peer, id), entry) =>
      if entry.fires link.timing moment then
        link.emit { time := (entry.timer link.timing).due, peer, bytes := bareAck id }
      else [])

/-- The reception without the entries that are too old. -/
def purge (timing : Timing) (time : Nat) (r : Reception Peer) : Reception Peer :=
  ⟨r.entries.filterMap fun _ _ entry => if entry.expired timing time then none else some entry⟩

/-- How many requests are remembered. -/
def size (r : Reception Peer) : Nat := r.entries.size

variable [DecidableEq Peer]

/-- Takes in a message. A confirmable one that is no request is acknowledged at once. -/
def receive (link : Link) (peer : Peer) (m : Message) (r : Reception Peer) : Received Peer :=
  match m.isConfirmable, m.id? with
  | true, some id =>
    if !m.code.isRequest then
      ⟨r, .forward, link.emit { time := link.now, peer, bytes := bareAck id }⟩
    else if r.entries.contains peer id then ⟨r, .duplicate, []⟩
    else ⟨⟨r.entries.insert peer id ⟨link.now, false⟩⟩, .forward, []⟩
  | _, _ => ⟨r, .forward, []⟩

/-- The entry of the request that a response answers. -/
def pending? (peer : Peer) (response : Response) (r : Reception Peer) : Option Entry :=
  response.message.id?.bind (r.entries.find? peer)

/-- The reception without the request that a response answers. -/
def answered (peer : Peer) (response : Response) (r : Reception Peer) : Reception Peer :=
  match response.message.id? with
  | some id => ⟨r.entries.erase peer id⟩
  | none => r

/-- A response that is sent as a message of its own: a notification keeps its id, any other
    response gets a new one. -/
def separate (type : MessageType) (response : Response) : Response :=
  (if response.isNotification then response else response.setId none).setType (some type)

/-- A response with its type and id settled by what the peer was told about the request
    (`pending?`): the response is the acknowledgement unless there was one already. -/
def settle (pending? : Option Entry) (response : Response) : Response :=
  match pending? with
  | none => separate .non response
  | some entry =>
    if entry.acknowledged then separate .con response else response.setType (some .ack)

/-- Settles the type and the id of a response, unless its type is set. -/
def prepare (peer : Peer) (response : Response) (r : Reception Peer) :
    Reception Peer × Response :=
  match response.message.type? with
  | some _ => (r, response)
  | none => (r.answered peer response, settle (r.pending? peer response) response)

/-! ### What happens to an entry -/

/-- In the course of time an entry only becomes acknowledged. -/
theorem find?_elapse (link : Link) (moment : Moment) (r : Reception Peer) (peer : Peer)
    (id : UInt16) :
    (r.elapse link moment).1.entries.find? peer id =
      (r.entries.find? peer id).map fun entry =>
        { entry with acknowledged := entry.acknowledged || entry.fires link.timing moment } := by
  rw [elapse, Ledger.find?_filterMap]
  cases r.entries.find? peer id <;> rfl

/-- What is kept are the entries that are not too old. -/
theorem find?_purge (timing : Timing) (time : Nat) (r : Reception Peer) (peer : Peer)
    (id : UInt16) :
    (r.purge timing time).entries.find? peer id =
      (r.entries.find? peer id).filter fun entry => !entry.expired timing time := by
  rw [purge, Ledger.find?_filterMap]
  cases r.entries.find? peer id with
  | none => rfl
  | some entry => cases h : entry.expired timing time <;> simp [Option.filter, h]

theorem find?_answered (peer peer' : Peer) (id' : UInt16) (response : Response)
    (r : Reception Peer) :
    (r.answered peer response).entries.find? peer' id' =
      if peer' = peer ∧ response.message.id? = some id' then none
      else r.entries.find? peer' id' := by
  rw [answered]
  cases response.message.id? with
  | none => simp
  | some id =>
    simp only [Ledger.find?_erase, Option.some.injEq, eq_comm]

/-- A response takes away the entry of its id, unless its type is set. -/
theorem find?_prepare (peer peer' : Peer) (id' : UInt16) (response : Response)
    (r : Reception Peer) :
    (r.prepare peer response).1.entries.find? peer' id' =
      if peer' = peer ∧ response.message.type? = none ∧ response.message.id? = some id' then none
      else r.entries.find? peer' id' := by
  rw [prepare]
  cases response.message.type? with
  | some type => simp
  | none => simp only [find?_answered, true_and]

end Reception

end Coap
