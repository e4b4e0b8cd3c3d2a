import Coap.Endpoint.Basic

/-!
# Runs of endpoints

An endpoint is driven by events (`Event`) one at a time. On the way through a stretch of time every
timer fires in order, and at every multiple of the purge interval the endpoint forgets what is too
old. A timer that is due together with a purge fires before it if it was armed before the purge was
scheduled, which is one interval earlier.
-/

namespace Coap.Endpoint

/-- What can happen to an endpoint. -/
inductive Event (Peer : Type) where
  /-- A datagram of a peer comes in. -/
  | datagram (peer : Peer) (bytes : Bytes)
  /-- A request is made. -/
  | request (peer : Peer) (request : Request)
  /-- A client does not wait any longer. -/
  | abandon (request : Nat)
  /-- A response is sent to a request that was handed to the service. -/
  | respond (responder : Responder Peer) (response : Response)
  | shutdown
  /-- Some milliseconds go by. -/
  | sleep (ms : Nat)

/-- The answer to an event. -/
inductive Answer (Peer : Type) where
  /-- The number of the request that was made. -/
  | started (request : Nat)
  | responded (result : Except (Failure Peer) Receipt)
  | done

/-- The answer to an event and what else it brought about. -/
structure Report (Peer : Type) where
  answer : Answer Peer
  effects : Effects Peer

variable {Peer : Type} [DecidableEq Peer]

/-- Gives up a request if its time is up before a moment. -/
def expire (moment : Moment) (k : Nat) (e : Endpoint Peer) : Endpoint Peer × Effects Peer :=
  match e.live.find? k with
  | none => (e, {})
  | some exchange =>
    match exchange.timer? e.responseTimeout with
    | none => (e, {})
    | some timer =>
      if timer.Before moment then e.finish timer.due k exchange (.error .noResponse) else (e, {})

/-- Gives up those of some requests whose time is up before a moment. -/
def expireAll (moment : Moment) : List Nat → Endpoint Peer → Endpoint Peer × Effects Peer
  | [], e => (e, {})
  | k :: ks, e =>
    let (e, first) := e.expire moment k
    let (e, rest) := e.expireAll moment ks
    (e, first ++ rest)

/-- The endpoint at a moment, and what happened until then apart from purges. -/
def elapse (moment : Moment) (e : Endpoint Peer) : Endpoint Peer × Effects Peer :=
  let (reception, acks) := e.reception.elapse e.link moment
  let (transmission, progress) := e.transmission.elapse e.link moment
  let (e, ended) := { e with reception, transmission }.resolveAll progress.resolutions
  let (e, late) := e.expireAll moment e.live.keys
  (e, { emissions := acks ++ progress.emissions } ++ ended ++ late)

/-- Forgets what is too old at a time. -/
def purge (time : Nat) (e : Endpoint Peer) : Endpoint Peer :=
  { e with
    reception := e.reception.purge e.link.timing time
    transmission := e.transmission.purge e.link.timing time }

/-- The endpoint after `count` purges, of which the first one is at `first` times the interval. -/
def purges (first : Nat) : (count : Nat) → Endpoint Peer → Endpoint Peer × Effects Peer
  | 0, e => (e, {})
  | count + 1, e =>
    let interval := e.link.timing.purgeInterval
    let time := first * interval
    let (e, before) := e.elapse ⟨time, time - interval⟩
    let (e, rest) := (e.purge time).purges (first + 1) count
    (e, before ++ rest)

/-- How many purges there are after `start` and up to `stop`. -/
def purgeCount (link : Link) (start stop : Nat) : Nat :=
  let interval := link.timing.purgeInterval
  if link.isOpen then stop / interval - start / interval else 0

/-- The endpoint some milliseconds later, and what happened meanwhile. -/
def advance (ms : Nat) (e : Endpoint Peer) : Endpoint Peer × Effects Peer :=
  let start := e.link.now
  let stop := start + ms
  let (e, first) :=
    e.purges (start / e.link.timing.purgeInterval + 1) (purgeCount e.link start stop)
  let (e, rest) := e.elapse (.endOf stop)
  ({ e with link := { e.link with now := stop } }, first ++ rest)

/-- Lets fire every timer that is due. -/
def settle (answer : Answer Peer) (effects : Effects Peer) (e : Endpoint Peer) :
    Endpoint Peer × Report Peer :=
  let (e, late) := e.elapse (.endOf e.link.now)
  (e, ⟨answer, effects ++ late⟩)

/-- The endpoint after an event, with a report of it. -/
def step (e : Endpoint Peer) : Event Peer → Endpoint Peer × Report Peer
  | .datagram peer bytes =>
    let (e, effects) := e.receive peer bytes
    e.settle .done effects
  | .request peer request =>
    let k := e.nextRequest
    let (e, effects) := e.request peer request
    e.settle (.started k) effects
  | .abandon k => (e.abandon k).settle .done {}
  | .respond responder response =>
    let (e, effects, result) := e.respond responder response
    e.settle (.responded result) effects
  | .shutdown =>
    let (e, effects) := e.shutdown
    e.settle .done effects
  | .sleep ms =>
    let (e, effects) := e.advance ms
    (e, ⟨.done, effects⟩)

/-- When the next timer fires, purges apart. -/
def due? (e : Endpoint Peer) : Option Nat :=
  let acks := e.reception.entries.toList.filterMap fun (_, entry) =>
    if entry.acknowledged then none else some (entry.timer e.link.timing)
  let copies := e.transmission.records.toList.filterMap fun (_, record) => record.timer?
  let ends := e.live.toList.filterMap fun (_, exchange) => exchange.timer? e.responseTimeout
  ((acks ++ copies ++ ends).map Timer.due).min?

/-- The endpoint after a run of events, with the reports in order. -/
def run (e : Endpoint Peer) : List (Event Peer) → Endpoint Peer × List (Report Peer)
  | [] => (e, [])
  | event :: events =>
    let (e, report) := e.step event
    let (e, reports) := e.run events
    (e, report :: reports)

end Coap.Endpoint
