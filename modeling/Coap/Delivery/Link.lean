import Coap.Bytes.BigEndian
import Coap.Time.Timing

/-!
# Links

What both directions of reliable delivery share: the timing, the clock and the way out to the
network. Once the way out is closed nothing is sent any more.
-/

namespace Coap

/-- A datagram on its way to a peer. -/
structure Emission (Peer : Type) where
  /-- When it is sent. -/
  time : Nat
  peer : Peer
  bytes : Bytes
  /-- The ticket of the message that this is a copy of; a bare acknowledgement has none. -/
  ticket? : Option Nat := none
  deriving DecidableEq, Repr

/-- The timing, the clock and the way out. -/
structure Link where
  timing : Timing := {}
  /-- The time, in milliseconds. -/
  now : Nat := 0
  /-- Whether datagrams can be sent. -/
  isOpen : Bool := true

namespace Link

variable {Peer : Type}

/-- Sends a datagram, if the way out is open. -/
def emit (link : Link) (datagram : Emission Peer) : List (Emission Peer) :=
  if link.isOpen then [datagram] else []

/-- The link some milliseconds later. -/
def later (link : Link) (ms : Nat) : Link := { link with now := link.now + ms }

/-- The link with the way out closed. -/
def close (link : Link) : Link := { link with isOpen := false }

/-- While the way out is open, the datagram is sent. -/
@[simp]
theorem emit_of_open {link : Link} (h : link.isOpen) (datagram : Emission Peer) :
    link.emit datagram = [datagram] := if_pos h

end Link

end Coap
