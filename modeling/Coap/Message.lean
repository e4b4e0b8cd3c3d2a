import Coap.Options.Replace

/-!
# Messages

A message has a header of four fields, options and a payload. While it is put together its type
and its id may be open: a layer below settles them before the message is sent.
-/

namespace Coap

/-- The version of the protocol. -/
def protocolVersion : Nat := 1

/-- A message. -/
structure Message where
  version : Nat := protocolVersion
  type? : Option MessageType
  code : Code
  id? : Option UInt16
  options : Options := ∅
  payload : Bytes := []
  deriving DecidableEq

namespace Message

/-- A message without options and payload. -/
def ofHeader (type? : Option MessageType) (code : Code) (id? : Option UInt16) : Message :=
  { type?, code, id? }

/-- The bare acknowledgement of the message with a given id. -/
def emptyAck (id : UInt16) : Message := ofHeader (some .ack) .empty (some id)

/-- The bare reset of the message with a given id. -/
def emptyReset (id : UInt16) : Message := ofHeader (some .rst) .empty (some id)

/-- Whether the message wants an acknowledgement. -/
def isConfirmable (m : Message) : Bool := m.type? == some .con

/-- The token, which ties a response to its request. -/
def token? (m : Message) : Option Bytes :=
  (m.options.first? .token).bind Opt.octets?

/-- The message with other options. -/
def withOptions (m : Message) (options : Options) : Message := { m with options }

/-- Adds an option. -/
def add (m : Message) (o : Opt) : Except Fault Message :=
  (m.options.add m.code o).map m.withOptions

/-- Puts a token in the place of the old one. -/
def setToken (m : Message) (token : Bytes) : Edited Message :=
  (m.options.replace m.code (Opt.octets .token token)).map m.withOptions

/-- Whether two messages have the same header and payload, and options that agree. -/
def agree (a b : Message) : Bool :=
  a.version == b.version && a.type? == b.type? && a.code == b.code && a.id? == b.id? &&
    a.options.agree b.options && a.payload == b.payload

/-- How a message reads in logs. -/
def render (m : Message) : String :=
  let type := (m.type?.map MessageType.label).getD "???"
  let id := (m.id?.map toString).getD "?"
  let payload := if m.payload.isEmpty then "" else s!" {m.payload.length} payload bytes"
  s!"{type} {m.code} id={id} [{m.options}]{payload}"

instance : ToString Message := ⟨render⟩

end Message

end Coap
