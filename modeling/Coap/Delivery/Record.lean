import Coap.Delivery.Link
import Coap.Failure
import Coap.Message
import Coap.Time.Backoff
import Coap.Time.Moment

/-!
# Messages in flight

A confirmable message is in flight until the peer acknowledges or rejects it. Each time-out sends
one more copy of it, and the last one gives it up. A time-out that is no whole number of
milliseconds ends at the next one, and the following time-out counts from there.

* `Record.elapse_of_not_before`: nothing happens before the time-out.
-/

namespace Coap

/-- How a message that was accepted for delivery ends. -/
inductive Outcome (Peer : Type) where
  /-- It was sent and wants no acknowledgement. -/
  | sent
  /-- The peer acknowledged it; the acknowledgement may hold a response. -/
  | acknowledged (message : Message)
  /-- The peer rejected it. -/
  | reset
  | failed (failure : Failure Peer)

/-- The end of a message. -/
structure Resolution (Peer : Type) where
  time : Nat
  /-- The number of the message. -/
  ticket : Nat
  outcome : Outcome Peer

/-- What an operation or the passing of time brings about. -/
structure Progress (Peer : Type) where
  emissions : List (Emission Peer) := []
  resolutions : List (Resolution Peer) := []

/-- One thing after another. -/
def Progress.append {Peer : Type} (p q : Progress Peer) : Progress Peer :=
  ⟨p.emissions ++ q.emissions, p.resolutions ++ q.resolutions⟩

instance {Peer : Type} : Append (Progress Peer) := ⟨Progress.append⟩

/-- A confirmable message in flight. -/
structure Record where
  /-- The number of the message. -/
  ticket : Nat
  /-- The written form of the message. -/
  bytes : Bytes
  backoff : Backoff
  /-- The timer of the current time-out; there is none if the time-outs grew too long. -/
  timer? : Option Timer

namespace Record

/-- A record whose message is sent at a given time. -/
def start (ticket : Nat) (bytes : Bytes) (backoff : Backoff) (time : Nat) : Record :=
  ⟨ticket, bytes, backoff, some (.after time backoff.current.ceilMillis)⟩

variable {Peer : Type}

/-- A record until a moment, as long as `left` further copies may be sent: what remains of it, and
    what happens meanwhile. -/
def elapseFor (link : Link) (peer : Peer) (id : UInt16) (moment : Moment) :
    (left : Nat) → Record → Option Record × Progress Peer
  | left, record =>
    match record.timer? with
    | none => (some record, {})
    | some timer =>
      if ¬ timer.Before moment then (some record, {})
      else match left with
        | 0 =>
          (none, { resolutions := [⟨timer.due, record.ticket, .failed (.unacknowledged peer id)⟩] })
        | left + 1 =>
          match record.backoff.next? with
          | none => (some { record with timer? := none }, {})
          | some backoff =>
            if !link.isOpen then
              (none, { resolutions := [⟨timer.due, record.ticket, .failed .closed⟩] })
            else
              let again := start record.ticket record.bytes backoff timer.due
              let (rest, progress) := elapseFor link peer id moment left again
              (rest,
                { progress with
                  emissions :=
                    ⟨timer.due, peer, record.bytes, record.ticket⟩ :: progress.emissions })

/-- A record until a moment: what remains of it, and what happens meanwhile. -/
def elapse (link : Link) (peer : Peer) (id : UInt16) (moment : Moment) (record : Record) :
    Option Record × Progress Peer :=
  elapseFor link peer id moment record.backoff.left record

/-- Nothing happens to a message before its time-out. -/
theorem elapse_of_not_before {link : Link} {peer : Peer} {id : UInt16} {moment : Moment}
    {record : Record} (h : ∀ timer ∈ record.timer?, ¬ timer.Before moment) :
    record.elapse link peer id moment = (some record, {}) := by
  rw [elapse, elapseFor]
  cases hr : record.timer? with
  | none => rfl
  | some timer => simp [h timer hr]

end Record

end Coap
