import Coap.Message

/-!
# Responses

A response is a message whose code is a status. It may be the answer to a request or a
*notification*, one more report of an observed resource; the two differ in which message id they
are sent with. Type and id are left to the layer that knows what the peer has been told so far.
-/

namespace Coap

/-- A message with the code of a status. -/
structure Response where
  message : Message
  /-- Whether this reports an observed resource instead of answering a pending request. -/
  isNotification : Bool
  isResponse : message.code.isResponse
  deriving DecidableEq

namespace Response

/-- The response that a message is. -/
def ofMessage (m : Message) : Except Fault Response :=
  if h : m.code.isResponse then .ok ⟨m, false, h⟩ else .error (.notResponse m.code)

/-- A new response of a given status. -/
def make (code : Code) : Except Fault Response :=
  if h : code.isResponse then .ok ⟨.ofHeader none code none, false, h⟩
  else .error (.notStatus code)

/-- The response as a notification, or as none. -/
def setNotification (r : Response) (isNotification : Bool) : Response := { r with isNotification }

/-- The response with another type. -/
def setType (r : Response) (type? : Option MessageType) : Response :=
  { r with message := { r.message with type? } }

/-- The response with another message id. -/
def setId (r : Response) (id? : Option UInt16) : Response :=
  { r with message := { r.message with id? } }

/-- The response with other options. -/
def withOptions (r : Response) (options : Options) : Response :=
  { r with message := r.message.withOptions options }

/-- The response with another payload. -/
def setPayload (r : Response) (payload : Bytes) : Response :=
  { r with message := { r.message with payload } }

/-- Adds an option. -/
def add (r : Response) (o : Opt) : Edited Response :=
  (r.message.options.append r.message.code (.ok o)).map r.withOptions

/-- Puts a token in the place of the old one. -/
def setToken (r : Response) (token : Bytes) : Edited Response :=
  (r.message.options.replace r.message.code (Opt.octets .token token)).map r.withOptions

/-- Sets the media type of the payload. -/
def setContentType (r : Response) (mediaType : Nat) : Edited Response :=
  (r.message.options.replace r.message.code (Opt.uint .contentType mediaType)).map r.withOptions

/-- Sets the sequence number of a notification. -/
def setObserve (r : Response) (sequence : Nat) : Edited Response :=
  (r.message.options.replace r.message.code (Opt.uint .observeResponse sequence)).map r.withOptions

/-- Adds a segment of the path at which a resource was created. -/
def addLocation (r : Response) (segment : String) : Edited Response :=
  (r.message.options.append r.message.code (Opt.text .locationPath segment)).map r.withOptions

/-- The media type of the payload. -/
def contentType? (r : Response) : Option Nat :=
  (r.message.options.first? .contentType).bind Opt.uint?

/-- The sequence number of a notification. -/
def sequence? (r : Response) : Option Nat :=
  (r.message.options.first? .observeResponse).bind Opt.uint?

/-- The response that carries a payload of a given media type. -/
def content (payload : Bytes) (mediaType : Nat) : Except Fault Response := do
  let r ← make .content
  let r ← (r.setContentType mediaType).toExcept
  return r.setPayload payload

end Response

end Coap
