import Coap.Delivery.Reception
import Coap.Delivery.Transmission
import Coap.Endpoint.Exchange
import Coap.Wire.Decode

/-!
# Endpoints

An endpoint serves the requests of its peers and makes requests of its own. It joins reception and
transmission: acknowledgements and rejections go to the latter, everything else to the former, and
what is forwarded from there is a request for the service or a response for a client.

A response that comes as a message of its own is found by its peer and its token (`waiting`), where
a request enters when it is made. If another one waits there it is closed; and whoever ends leaves
the place empty, so that a request whose place was entered by another one closes with it.
-/

namespace Coap

/-- An endpoint. -/
structure Endpoint (Peer : Type) where
  service : Service Peer
  /-- How long a client waits for a response after its request arrived. -/
  responseTimeout : Nat := 10000
  link : Link := {}
  reception : Reception Peer := {}
  transmission : Transmission Peer := {}
  /-- For which request a response from a peer with a token is. -/
  waiting : Table (Peer × Bytes) Nat := ∅
  /-- The requests that have not ended, by number. -/
  live : Table Nat (Exchange Peer) := ∅
  nextRequest : Nat := 0

namespace Endpoint

variable {Peer : Type}

/-- Lets a client no longer care about a request: it does not end. -/
def abandon (k : Nat) (e : Endpoint Peer) : Endpoint Peer := { e with live := e.live.erase k }

/-- Ends everything: requests, messages in flight, and all sending. -/
def shutdown (e : Endpoint Peer) : Endpoint Peer × Effects Peer :=
  ({ e with
      link := e.link.close
      transmission := (e.transmission.close e.link.now).1
      waiting := ∅
      live := ∅ },
    { finished := e.live.toList.map fun (k, _) => ⟨e.link.now, k, .error .closed⟩ })

/-- The live request that a message in flight carries. -/
def owner? (ticket : Nat) (e : Endpoint Peer) : Option (Nat × Exchange Peer) :=
  e.live.toList.find? fun (_, exchange) =>
    exchange.ticket == ticket && exchange.phase == .delivery

variable [DecidableEq Peer]

/-! ### The end of a request -/

/-- Calls off the message of a request if it is still to be acknowledged. -/
def withdraw (exchange : Exchange Peer) (e : Endpoint Peer) : Endpoint Peer :=
  match exchange.phase with
  | .delivery =>
    { e with transmission := (e.transmission.cancel e.link exchange.peer exchange.id).1 }
  | .response _ => e

/-- Closes the request that waited in a place that is left empty, unless it ended before. -/
def close (time : Nat) (waiter? : Option Nat) (e : Endpoint Peer) :
    Endpoint Peer × Effects Peer :=
  match waiter? with
  | none => (e, {})
  | some k =>
    match e.live.find? k with
    | none => (e, {})
    | some exchange =>
      ((e.withdraw exchange).abandon k, { finished := [⟨time, k, .error .closed⟩] })

/-- Ends a request and leaves its place empty. -/
def finish (time k : Nat) (exchange : Exchange Peer) (result : Except (Failure Peer) Response)
    (e : Endpoint Peer) : Endpoint Peer × Effects Peer :=
  let waiter? := e.waiting.find? exchange.key
  let e := { e.abandon k with waiting := e.waiting.erase exchange.key }
  let (e, closed) := e.close time waiter?
  (e, { finished := [⟨time, k, result⟩] } ++ closed)

/-- Lets a request wait for a response of its own from a time on. -/
def await (time k : Nat) (exchange : Exchange Peer) (e : Endpoint Peer) : Endpoint Peer :=
  { e with live := e.live.insert k { exchange with phase := .response time } }

/-- Takes in the end of a message. -/
def resolve (r : Resolution Peer) (e : Endpoint Peer) : Endpoint Peer × Effects Peer :=
  match e.owner? r.ticket with
  | none => (e, {})
  | some (k, exchange) =>
    match r.outcome with
    | .sent => (e.await r.time k exchange, {})
    | .acknowledged m =>
      if m.code.isEmpty then (e.await r.time k exchange, {})
      else e.finish r.time k exchange ((Response.ofMessage m).mapError .invalid)
    | .reset => e.finish r.time k exchange (.error (.reset exchange.peer exchange.id))
    | .failed failure => e.finish r.time k exchange (.error failure)

/-- Takes in the ends of messages, one after another. -/
def resolveAll : List (Resolution Peer) → Endpoint Peer → Endpoint Peer × Effects Peer
  | [], e => (e, {})
  | r :: rs, e =>
    let (e, first) := e.resolve r
    let (e, rest) := e.resolveAll rs
    (e, first ++ rest)

/-! ### Making requests -/

/-- Gives a request a token if it has none. -/
def addToken (request : Request) (e : Endpoint Peer) : Endpoint Peer × Except Fault Request :=
  match request.message.token? with
  | some _ => (e, .ok request)
  | none =>
    let (token, draws) := e.transmission.draws.token
    ({ e with transmission := { e.transmission with draws } }, (request.setToken token).toExcept)

/-- Sends a request that has its token, under the number `k`. A first time-out that is too long
    breaks off the client (`Transmission.dispatch`) before the place of the request is vacated. Here
    the request ends with this failure, and its place is vacated as after any other one. -/
def launch (k : Nat) (peer : Peer) (request : Request) (e : Endpoint Peer) :
    Endpoint Peer × Effects Peer :=
  let token := request.message.token?.getD []
  let sent := e.transmission.send e.link peer request.message
  let e := { e with transmission := sent.transmission }
  match sent.result with
  | .error failure =>
    ({ e with waiting := e.waiting.erase (peer, token) },
      { finished := [⟨e.link.now, k, .error failure⟩] })
  | .ok receipt =>
    let exchange := ⟨peer, token, receipt.ticket, receipt.id, .delivery⟩
    let (e, out) :=
      { e with
        waiting := e.waiting.insert (peer, token) k
        live := e.live.insert k exchange }.resolveAll sent.progress.resolutions
    (e, { emissions := sent.progress.emissions } ++ out)

/-- Closes the request whose place another one took. -/
def displace (waiter? : Option Nat) (e : Endpoint Peer) : Endpoint Peer × Effects Peer :=
  match waiter? with
  | none => (e, {})
  | some k =>
    match e.live.find? k with
    | none => (e, {})
    | some exchange => (e.withdraw exchange).finish e.link.now k exchange (.error .closed)

/-- Makes a request. Its number is the `nextRequest` of the endpoint before. -/
def request (peer : Peer) (request : Request) (e : Endpoint Peer) :
    Endpoint Peer × Effects Peer :=
  let k := e.nextRequest
  let (e, result) := { e with nextRequest := k + 1 }.addToken request
  match result with
  | .error fault => (e, { finished := [⟨e.link.now, k, .error (.invalid fault)⟩] })
  | .ok request =>
    let waiter? := e.waiting.find? (peer, request.message.token?.getD [])
    let (e, launched) := e.launch k peer request
    let (e, closed) := e.displace waiter?
    (e, launched ++ closed)

/-! ### Answering requests -/

/-- Sends a response. -/
def respond (responder : Responder Peer) (response : Response) (e : Endpoint Peer) :
    Endpoint Peer × Effects Peer × Except (Failure Peer) Receipt :=
  match responder.address response with
  | .error fault => (e, {}, .error (.invalid fault))
  | .ok response =>
    let (reception, response) := e.reception.prepare responder.peer response
    let sent := e.transmission.send e.link responder.peer response.message
    ({ e with reception, transmission := sent.transmission },
      { emissions := sent.progress.emissions }, sent.result)

/-- Hands a request to the service. -/
def dispatch (peer : Peer) (request : Request) (e : Endpoint Peer) :
    Endpoint Peer × Effects Peer :=
  let responder := Responder.ofRequest peer request
  let dispatched := [⟨request, responder⟩]
  match e.service peer request with
  | none => (e, { dispatched })
  | some response =>
    let (e, effects, _) := e.respond responder response
    (e, { dispatched } ++ effects)

/-! ### Receiving -/

/-- Hands a response to the request that waits for it. -/
def deliver (peer : Peer) (response : Response) (e : Endpoint Peer) :
    Endpoint Peer × Effects Peer :=
  let key := (peer, response.message.token?.getD [])
  match e.waiting.find? key with
  | none => (e, {})
  | some k =>
    let e := { e with waiting := e.waiting.erase key }
    match e.live.find? k with
    | none => (e, {})
    | some exchange => (e.withdraw exchange).finish e.link.now k exchange (.ok response)

/-- Hands on a message unless it is a duplicate. -/
def handOn (verdict : Verdict) (peer : Peer) (m : Message) (e : Endpoint Peer) :
    Endpoint Peer × Effects Peer :=
  match verdict with
  | .duplicate => (e, {})
  | .forward =>
    if h : m.code.isRequest then e.dispatch peer ⟨m, h⟩
    else if h : m.code.isResponse then e.deliver peer ⟨m, false, h⟩
    else (e, {})

/-- Takes in a message. -/
def accept (peer : Peer) (m : Message) (e : Endpoint Peer) : Endpoint Peer × Effects Peer :=
  match m.type? with
  | some .ack | some .rst =>
    let (transmission, resolution?) := e.transmission.receive e.link peer m
    { e with transmission }.resolveAll resolution?.toList
  | _ =>
    let received := e.reception.receive e.link peer m
    let e := { e with reception := received.reception }
    let (e, effects) := e.handOn received.verdict peer m
    (e, { emissions := received.emissions } ++ effects)

/-- Takes in a datagram. One that holds no message is dropped. -/
def receive (peer : Peer) (bytes : Bytes) (e : Endpoint Peer) : Endpoint Peer × Effects Peer :=
  if e.link.isOpen then
    match Message.decode bytes with
    | .error _ => (e, {})
    | .ok m => e.accept peer m
  else (e, {})

end Endpoint

end Coap
