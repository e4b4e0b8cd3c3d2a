import Coap.Delivery.Transmission

/-!
# Senders

A sender is a transmission with a link of its own. It is driven by events (`Event`) one at a time;
each is answered, together with the datagrams and the ends of messages that it or the passing of
time caused (`Report`).
-/

namespace Coap

/-- A transmission with a link of its own. -/
structure Sender (Peer : Type) where
  link : Link := {}
  transmission : Transmission Peer := {}

namespace Sender

/-- What can happen to a sender. -/
inductive Event (Peer : Type) where
  /-- A message is to be sent. -/
  | send (peer : Peer) (message : Message)
  /-- A message of a peer comes in. -/
  | receive (peer : Peer) (message : Message)
  /-- A message is called off. -/
  | cancel (peer : Peer) (id : UInt16)
  /-- All messages are called off. -/
  | close
  /-- Counters that are too old are dropped. -/
  | purge
  /-- Some milliseconds go by. -/
  | sleep (ms : Nat)
  /-- The way out is closed. -/
  | closeLink

/-- The answer to an event. -/
inductive Answer (Peer : Type) where
  | sent (result : Except (Failure Peer) Receipt)
  /-- Whether a message in flight was concerned. -/
  | found (found : Bool)
  | count (n : Nat)
  | done

/-- The answer to an event and what else it brought about. -/
structure Report (Peer : Type) where
  answer : Answer Peer
  progress : Progress Peer

variable {Peer : Type}

/-- Lets fire every timer that is due. -/
def settle (s : Sender Peer) (answer : Answer Peer) (progress : Progress Peer) :
    Sender Peer × Report Peer :=
  let (transmission, late) := s.transmission.elapse s.link (.endOf s.link.now)
  ({ s with transmission }, ⟨answer, progress ++ late⟩)

variable [DecidableEq Peer]

/-- The sender after an event, with a report of it. -/
def step (s : Sender Peer) : Event Peer → Sender Peer × Report Peer
  | .send peer m =>
    let sent := s.transmission.send s.link peer m
    settle { s with transmission := sent.transmission } (.sent sent.result) sent.progress
  | .receive peer m =>
    let (transmission, resolution?) := s.transmission.receive s.link peer m
    settle { s with transmission } (.found resolution?.isSome)
      { resolutions := resolution?.toList }
  | .cancel peer id =>
    let (transmission, resolution?) := s.transmission.cancel s.link peer id
    settle { s with transmission } (.found resolution?.isSome)
      { resolutions := resolution?.toList }
  | .close =>
    let (transmission, progress) := s.transmission.close s.link.now
    settle { s with transmission } .done progress
  | .purge =>
    let transmission := s.transmission.purge s.link.timing s.link.now
    settle { s with transmission }
      (.count (s.transmission.knownPeers - transmission.knownPeers)) {}
  | .sleep ms => settle { s with link := s.link.later ms } .done {}
  | .closeLink => settle { s with link := s.link.close } .done {}

/-- The sender after a run of events, with the reports in order. -/
def run (s : Sender Peer) : List (Event Peer) → Sender Peer × List (Report Peer)
  | [] => (s, [])
  | event :: events =>
    let (s, report) := s.step event
    let (s, reports) := s.run events
    (s, report :: reports)

end Sender

end Coap
