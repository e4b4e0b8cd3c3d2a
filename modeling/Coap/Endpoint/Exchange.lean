import Coap.Directory
import Coap.Failure
import Coap.Delivery.Link
import Coap.Time.Moment

/-!
# Exchanges

The two sides of a request: whom a service answers (`Responder`), and what a client waits for
(`Exchange`). A client first waits until the request is delivered; the acknowledgement may hold the
response, otherwise the client goes on to wait for a response in a message of its own.
-/

namespace Coap

/-- Whom to answer: the peer, and what ties the response to its request. -/
structure Responder (Peer : Type) where
  peer : Peer
  /-- The id of the request. -/
  id? : Option UInt16
  /-- The token of the request. -/
  token? : Option Bytes
  deriving DecidableEq

/-- The responder to a request. -/
def Responder.ofRequest {Peer : Type} (peer : Peer) (request : Request) : Responder Peer :=
  ⟨peer, request.message.id?, request.message.token?⟩

/-- A response with the id and the token of the request, unless it has its own. -/
def Responder.address {Peer : Type} (responder : Responder Peer) (response : Response) :
    Except Fault Response :=
  let response := if response.message.id?.isNone then response.setId responder.id? else response
  match responder.token?, response.message.token? with
  | some token, none => (response.setToken token).toExcept
  | _, _ => .ok response

/-- What answers the requests of peers: the response, if it is ready at once. -/
abbrev Service (Peer : Type) := Peer → Request → Option Response

namespace Service

variable {Peer : Type}

/-- The service of a directory. A request that cannot be answered is left alone. -/
def ofDirectory (directory : Directory) : Service Peer := fun _ request =>
  (directory.respond request).toOption

/-- The service of an endpoint that only makes requests. -/
def none : Service Peer := fun _ _ => (Response.make .notImplemented).toOption

/-- A service that answers every request later. -/
def later : Service Peer := fun _ _ => Option.none

end Service

/-- What a client waits for. -/
inductive Phase where
  /-- The request is to be acknowledged. -/
  | delivery
  /-- The request arrived at a time, and its response is to come as a message of its own. -/
  | response (since : Nat)
  deriving DecidableEq, Repr

/-- A request that waits for its response. -/
structure Exchange (Peer : Type) where
  peer : Peer
  token : Bytes
  /-- The number of the message that carries the request. -/
  ticket : Nat
  /-- The id of that message. -/
  id : UInt16
  phase : Phase
  deriving DecidableEq

/-- Where an exchange waits for a response that comes as a message of its own. -/
def Exchange.key {Peer : Type} (exchange : Exchange Peer) : Peer × Bytes :=
  (exchange.peer, exchange.token)

/-- The timer that gives up an exchange whose request arrived. -/
def Exchange.timer? {Peer : Type} (responseTimeout : Nat) (exchange : Exchange Peer) :
    Option Timer :=
  match exchange.phase with
  | .delivery => none
  | .response since => some (.after since responseTimeout)

/-- A request that is handed to the service. -/
structure Dispatch (Peer : Type) where
  request : Request
  responder : Responder Peer

/-- The end of an exchange. -/
structure Finish (Peer : Type) where
  time : Nat
  /-- The number of the request. -/
  request : Nat
  result : Except (Failure Peer) Response

/-- What an operation or the passing of time brings about. -/
structure Effects (Peer : Type) where
  emissions : List (Emission Peer) := []
  dispatched : List (Dispatch Peer) := []
  finished : List (Finish Peer) := []

/-- One thing after another. -/
def Effects.append {Peer : Type} (a b : Effects Peer) : Effects Peer :=
  ⟨a.emissions ++ b.emissions, a.dispatched ++ b.dispatched, a.finished ++ b.finished⟩

instance {Peer : Type} : Append (Effects Peer) := ⟨Effects.append⟩

end Coap
