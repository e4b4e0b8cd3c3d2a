/-!
# Message types

What a message asks of the layer below: a confirmable message wants an acknowledgement, a
non-confirmable one does not, an acknowledgement answers the former and a reset rejects it.
-/

namespace Coap

/-- The type of a message, the two bits after the version. -/
inductive MessageType where
  /-- Confirmable: sent again until the peer acknowledges or resets it. -/
  | con
  /-- Non-confirmable: sent once. -/
  | non
  /-- An acknowledgement, which may carry a response. -/
  | ack
  /-- A reset: the peer cannot make sense of the message. -/
  | rst
  deriving DecidableEq, Repr

namespace MessageType

/-- The two bits of a type. -/
def number : MessageType → Nat
  | con => 0
  | non => 1
  | ack => 2
  | rst => 3

/-- The type with a given number. -/
def ofNumber? : Nat → Option MessageType
  | 0 => some con
  | 1 => some non
  | 2 => some ack
  | 3 => some rst
  | _ => none

/-- The name in messages and logs. -/
def label : MessageType → String
  | con => "CON"
  | non => "NON"
  | ack => "ACK"
  | rst => "RST"

instance : ToString MessageType := ⟨label⟩

/-- A type fits two bits. -/
theorem number_lt (type : MessageType) : type.number < 4 := by cases type <;> decide

end MessageType

end Coap
