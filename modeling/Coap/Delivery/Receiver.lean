import Coap.Delivery.Reception

/-!
# Receivers

A receiver is a reception with a link of its own. It is driven by events (`Event`) one at a time;
each is answered, together with the datagrams that it or the passing of time caused (`Report`).
-/

namespace Coap

/-- A reception with a link of its own. -/
structure Receiver (Peer : Type) where
  link : Link := {}
  reception : Reception Peer := {}

namespace Receiver

/-- What can happen to a receiver. -/
inductive Event (Peer : Type) where
  /-- A message of a peer comes in. -/
  | receive (peer : Peer) (message : Message)
  /-- A response to a peer gets its type and id. -/
  | prepare (peer : Peer) (response : Response)
  /-- Requests that are too old are dropped. -/
  | purge
  /-- Some milliseconds go by. -/
  | sleep (ms : Nat)
  /-- The way out is closed. -/
  | close

/-- The answer to an event. -/
inductive Answer where
  | verdict (verdict : Verdict)
  | response (response : Response)
  | count (n : Nat)
  | done

/-- The answer to an event and the datagrams that were sent. -/
structure Report (Peer : Type) where
  answer : Answer
  emissions : List (Emission Peer)

variable {Peer : Type}

/-- Lets fire every timer that is due. -/
def settle (r : Receiver Peer) (answer : Answer) (emissions : List (Emission Peer)) :
    Receiver Peer × Report Peer :=
  let (reception, late) := r.reception.elapse r.link (.endOf r.link.now)
  ({ r with reception }, ⟨answer, emissions ++ late⟩)

variable [DecidableEq Peer]

/-- The receiver after an event, with a report of it. -/
def step (r : Receiver Peer) : Event Peer → Receiver Peer × Report Peer
  | .receive peer m =>
    let received := r.reception.receive r.link peer m
    settle { r with reception := received.reception } (.verdict received.verdict)
      received.emissions
  | .prepare peer response =>
    let (reception, response) := r.reception.prepare peer response
    settle { r with reception } (.response response) []
  | .purge =>
    let reception := r.reception.purge r.link.timing r.link.now
    settle { r with reception } (.count (r.reception.size - reception.size)) []
  | .sleep ms => settle { r with link := r.link.later ms } .done []
  | .close => settle { r with link := r.link.close } .done []

/-- The receiver after a run of events, with the reports in order. -/
def run (r : Receiver Peer) : List (Event Peer) → Receiver Peer × List (Report Peer)
  | [] => (r, [])
  | event :: events =>
    let (r, report) := r.step event
    let (r, reports) := r.run events
    (r, report :: reports)

end Receiver

end Coap
