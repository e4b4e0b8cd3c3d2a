import Coap.Message

/-!
# Requests

A request is a message whose code is a method. Its path and query are options; the path is given
and shown as one text.
-/

namespace Coap

/-- A message with the code of a method. -/
structure Request where
  message : Message
  isRequest : message.code.isRequest
  deriving DecidableEq

namespace Request

/-- The request that a message is. -/
def ofMessage (m : Message) : Except Fault Request :=
  if h : m.code.isRequest then .ok ⟨m, h⟩ else .error (.notRequest m.code)

/-- A new request, confirmable or not. -/
def make (type : MessageType) (code : Code) : Except Fault Request :=
  if h : code.isRequest then
    match type with
    | .con | .non => .ok ⟨.ofHeader (some type) code none, h⟩
    | .ack | .rst => .error (.requestType type)
  else .error (.notMethod code)

/-- The request with other options. -/
def withOptions (r : Request) (options : Options) : Request :=
  ⟨r.message.withOptions options, r.isRequest⟩

/-- The request with another payload. -/
def setPayload (r : Request) (payload : Bytes) : Request :=
  ⟨{ r.message with payload }, r.isRequest⟩

/-- Adds an option. -/
def add (r : Request) (o : Opt) : Edited Request :=
  (r.message.options.append r.message.code (.ok o)).map r.withOptions

/-- Puts the segments of a path in the place of the old ones. -/
def setPath (r : Request) (path : String) : Edited Request :=
  (r.message.options.setPath r.message.code path).map r.withOptions

/-- The segments of the path. -/
def segments (r : Request) : List String :=
  (r.message.options.values .uriPath).filterMap Opt.text?

/-- The path as one text. -/
def path (r : Request) : String := Path.join r.segments

/-- Adds an argument of the query. -/
def addQuery (r : Request) (query : String) : Edited Request :=
  (r.message.options.append r.message.code (Opt.text .uriQuery query)).map r.withOptions

/-- Puts a token in the place of the old one. -/
def setToken (r : Request) (token : Bytes) : Edited Request :=
  (r.message.options.replace r.message.code (Opt.octets .token token)).map r.withOptions

/-- Sets the media type of the payload. -/
def setContentType (r : Request) (mediaType : Nat) : Edited Request :=
  (r.message.options.replace r.message.code (Opt.uint .contentType mediaType)).map r.withOptions

/-- Asks the server to report every change of the resource. -/
def setObserve (r : Request) : Edited Request :=
  (r.message.options.replace r.message.code (Opt.uint .observeRequest 0)).map r.withOptions

/-- A confirmable request for the resource at a path. -/
def get (path : String) : Except Fault Request := do
  let r ← make .con .get
  (r.setPath path).toExcept

end Request

end Coap
