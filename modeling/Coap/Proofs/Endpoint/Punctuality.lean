import Coap.Proofs.Endpoint.Course

/-!
# No request hangs

Whatever a request waits for, there is a timer that ends it (`Endpoint.OnTime`). Its message is
given up some time after the last retransmission, and once it has arrived the response must come
within the response time-out. No timer is set for longer than the longest wait, so a request may be
ended before its nominal time, but never after it.

The clock counts seconds in 64 bits. A message for which a time-out would be too long for a duration
is not given up while the clock goes, and then it need not be.

* `Endpoint.Tracks.onTime`: a request whose course is known is on time;
* `Endpoint.punctuality`: every request is on time after every run.
-/

namespace Coap

variable {Peer : Type}

/-- A timer fires by the end of its delay, or earlier if the delay is longer than the longest wait.
    -/
theorem Timer.due_after_le (time delay : Nat) : (Timer.after time delay).due ≤ time + delay :=
  Nat.add_le_add_left (Nat.min_le_left _ _) _

variable [DecidableEq Peer]

namespace Endpoint

/-- Where a request stands that was made at an endpoint: it still has time, or it has ended in
    time. It is known when its message may have arrived. -/
inductive OnTime (made : Endpoint Peer) (k : Nat) (a : Asked Peer) (arrived : Nat → Prop)
    (e : Endpoint Peer) (finishes : List (Finish Peer)) : Prop where
  /-- Its message is to be acknowledged, and it has not been given up yet. -/
  | delivery {f : Flight Peer} {record : Record} (launches : made.Launches a f)
      (live : e.live.find? k = some a.exchange)
      (found : e.transmission.records.find? a.peer a.id = some record)
      (ticket_eq : record.ticket = a.ticket) (pending : f.Pending e.link.now)
      (finishes : finishes = [])
  /-- Its response is to come, and it may still come. -/
  | response {since : Nat} (arrived : arrived since)
      (live : e.live.find? k = some { a.exchange with phase := .response since })
      (lt_due : e.link.now < (Timer.after since made.responseTimeout).due)
      (lt_nominal : e.link.now < since + made.responseTimeout) (finishes : finishes = [])
  /-- It has ended, once. -/
  | ended {finish : Finish Peer} (ended : Ended made a arrived finish)
      (gone : e.live.find? k = none) (le_now : finish.time ≤ e.link.now)
      (finishes : finishes = [finish])

variable {e made : Endpoint Peer} {past : Effects Peer} {event : Event Peer} {k : Nat}
  {a : Asked Peer} {called : Prop} {arrived : Nat → Prop}

/-- A request whose course is known is on time between two events, unless it was called off. -/
theorem Tracks.onTime (h : Tracks made k a called arrived e.link.now e past)
    (hrests : e.Rests k a) (hcalled : ¬ called) :
    OnTime made k a arrived e (past.finishes k) := by
  cases h.course with
  | delivery launches live found flies le_stop sends finishes =>
    have hpending := flies.pending launches.fresh (hrests.calm.transmission found)
    exact .delivery launches live found (flies.ticket_eq.trans launches.ticket_eq) hpending finishes
  | response harrive live le_stop sends finishes =>
    rename_i since
    have hdue : e.link.now < (Timer.after since made.responseTimeout).due := by
      rw [← h.timeout_eq]
      exact Nat.lt_of_not_le fun hle => hrests.patient live _ rfl (Timer.before_endOf.2 hle)
    exact .response harrive live hdue (Nat.lt_of_lt_of_le hdue (Timer.due_after_le _ _)) finishes
  | calledOff hoff => exact absurd hoff hcalled
  | ended ended gone silent le_stop sends finishes => exact .ended ended gone le_stop finishes

/-- Every request is on time after every run in which it is not called off. -/
theorem punctuality (service : Service Peer) (responseTimeout : Nat) (link : Link) (draws : Draws)
    (before : List (Event Peer)) {event : Event Peer} {k : Nat} {a : Asked Peer}
    (after : List (Event Peer)) :
    let start : Endpoint Peer := { service, responseTimeout, link, transmission := { draws } }
    let e := (start.run before).1
    let made := e.step event
    let last := made.1.run after
    e.Asks event k a → .abandon k ∉ after →
      OnTime e k a (Arrived e made.1 a after) last.1
        ((made.2.effects ++ total last.2).finishes k) := by
  intro start e made last hasks hcalled
  have htracks := tracks_run service responseTimeout link draws before after hasks
  have hrests := rests_run service responseTimeout link draws before after hasks
  exact htracks.onTime hrests hcalled

/-- A GET to a peer that never answers. It is sent five times, and then it is given up. -/
theorem punctuality_silent_peer :
    let start : Endpoint Unit := { service := .later }
    let options : Options :=
      ⟨[⟨.token, .octets [7], rfl, by decide, trivial⟩], by decide, by decide, by decide⟩
    let get : Request := ⟨{ type? := some .con, code := .get, id? := some 1, options }, rfl⟩
    let a : Asked Unit := ⟨(), get.message, 0, 1⟩
    let event : Event Unit := .request () get
    let made := start.step event
    let after : List (Event Unit) := [.sleep 100000]
    let last := made.1.run after
    start.Asks event 0 a ∧
      ∃ f, start.Launches a f ∧ f.time (f.last + 1) = 62000 ∧
        ((made.2.effects ++ total last.2).finishes 0).map (fun x => (x.time, x.result)) =
          [(62000, .error (.unacknowledged () 1))] := by
  intro start options get a event made after last
  have hencode : get.message.encode = .ok [0x41, 1, 0, 1, 0xb1, 7] := by cbv
  have hrequest : (start.addToken get).2 = .ok get := rfl
  have hsend : (start.numbered get).transmission.send (start.numbered get).link () get.message =
      start.transmission.dispatch start.link () .con 1 [0x41, 1, 0, 1, 0xb1, 7] :=
    Transmission.send_of_encode rfl rfl rfl hencode rfl
  have hasks : start.Asks event 0 a := by
    refine asks_request_iff.2 ⟨get, hrequest, rfl, ⟨0, 1⟩, ?_, rfl⟩
    rw [hsend]
    decide +kernel
  have hcalled : .abandon 0 ∉ after := by simp [after]
  have hevent : event = .request () get := rfl
  have hafter : after = [.sleep 100000] := rfl
  clear_value event after
  have honTime : OnTime start 0 a (Arrived start made.1 a after) last.1
      ((made.2.effects ++ total last.2).finishes 0) :=
    punctuality .later 10000 {} {} [] after hasks hcalled
  have hmade : made = start.step event := rfl
  have hlast : last = made.1.run after := rfl
  clear_value last made
  rw [hevent, step_request, request_eq () hrequest, launch, hsend] at hmade
  have hends : ((made.2.effects ++ total last.2).finishes 0).map (fun x => (x.time, x.result)) =
      [(62000, .error (.unacknowledged () 1))] := by
    rw [hlast, hmade, hafter]
    decide +kernel
  refine ⟨hasks, ?_⟩
  -- The request has ended, and of all ways to end only one has this result.
  cases honTime with
  | delivery launches live found ticket_eq pending finishes =>
    rw [finishes] at hends
    cases hends
  | response arrived live lt_due lt_nominal finishes =>
    rw [finishes] at hends
    cases hends
  | ended ended gone le_now finishes =>
    rw [finishes] at hends ⊢
    obtain ⟨htime, hresult⟩ := Prod.mk.inj (List.cons.inj hends).1
    cases ended with
    | givenUp launches time_eq => exact ⟨_, launches, time_eq.symm.trans htime, hends⟩
    | undelivered launches within untimed => exact absurd hresult (untimed.acknowledged _ _)
    | late arrived time_eq result_eq => cases result_eq.symm.trans hresult
    | delivered arrived le_due untimed => exact absurd hresult (untimed.acknowledged _ _)

end Endpoint

end Coap
