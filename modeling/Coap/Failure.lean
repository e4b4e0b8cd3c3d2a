import Coap.Fault

/-!
# Failures of an exchange

Why a message is not sent, is not delivered or gets no response. The wording of a failure
(`Failure.message`) names the peer as it is shown.
-/

namespace Coap

/-- How an exchange with a peer fails. -/
inductive Failure (Peer : Type) where
  /-- The message itself is refused. -/
  | invalid (fault : Fault)
  /-- A confirmable message with this id still waits for its acknowledgement. -/
  | idInFlight (id : UInt16) (peer : Peer)
  /-- All ids are in flight to the peer. -/
  | idsExhausted (peer : Peer)
  /-- The first time-out of the message is too long for a duration. This is told to nobody: it
      breaks off whoever sends the message. -/
  | timeoutTooLong
  /-- The message was sent as often as is allowed, and not acknowledged. -/
  | unacknowledged (peer : Peer) (id : UInt16)
  /-- The peer rejected the message. -/
  | reset (peer : Peer) (id : UInt16)
  /-- The message arrived, but no response to it came in time. -/
  | noResponse
  /-- The endpoint is shut down, or somebody else took over the place of the waiting. -/
  | closed
  deriving DecidableEq

namespace Failure

variable {Peer : Type} [ToString Peer]

/-- The wording of a failure. -/
def message : Failure Peer → String
  | invalid fault => fault.message
  | idInFlight id peer => s!"invalid header: message id {id} is already in flight to {peer}"
  | idsExhausted peer => s!"no unused message id left for {peer}"
  | timeoutTooLong => "time-out too long"
  | unacknowledged peer id => s!"no acknowledgement from {peer} for message {id}"
  | reset peer id => s!"{peer} reset message {id}"
  | noResponse => "no response received in time"
  | closed => "endpoint closed"

instance : ToString (Failure Peer) := ⟨message⟩

end Failure

end Coap
