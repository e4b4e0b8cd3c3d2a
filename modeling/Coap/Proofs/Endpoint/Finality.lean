import Coap.Proofs.Delivery.Allocation
import Coap.Proofs.Endpoint.Lifetime

/-!
# Shutting down

At a shutdown every request that is outstanding is closed, and afterwards no message is in flight
and no request waits (`Endpoint.Retired`). It stays so for good: the timers that are still armed
find the way out closed, whatever comes in is dropped, and every message that is to be sent is
refused at once.

* `Transmission.send_of_closed`: how a message is refused when the way out is closed;
* `Endpoint.Retired.elapse`, `Endpoint.Retired.step`: what time and an event still do;
* `Endpoint.Retired.run`: an endpoint that was shut down stays silent;
* `Endpoint.finality`: what a shutdown does after any run, and for all that follows.
-/

namespace Coap

variable {Peer : Type}

/-- A message is refused on its own account, or because the way out is closed. -/
def Failure.Refusal (failure : Failure Peer) : Prop :=
  failure = .closed ∨ ∃ fault, failure = .invalid fault

variable [DecidableEq Peer]

namespace Transmission

variable {link : Link} {t : Transmission Peer}

/-- When the way out is closed nothing changes by a message that is to be sent. -/
theorem refuses_of_closed (hlink : link.isOpen = false) (peer : Peer) (m : Message) :
    t.Refuses (t.send link peer m) := by
  refine (t.send_cases link peer m).resolve_right fun h => ?_
  obtain ⟨id, hresult⟩ := h.result
  cases hlink.symm.trans (isOpen_of_send hresult)

/-- When the way out is closed and nothing is in flight, every message is refused. -/
theorem send_of_closed (hlink : link.isOpen = false) (hrecords : t.records = ∅) (peer : Peer)
    (m : Message) :
    ∃ failure, (t.send link peer m).result = .error failure ∧ failure.Refusal := by
  -- Nothing is in flight, so every id is free and what is refused is not refused for its id.
  have hfree : ∀ {t : Transmission Peer}, t.records = ∅ → ∀ id,
      t.records.contains peer id = false := fun h id => by
    rw [h]
    rfl
  have hsettled : ∀ {type : MessageType} {id : UInt16} {m : Message} {t : Transmission Peer},
      t.records = ∅ → m.type? = some type → m.id? = some id →
        ∃ failure, (t.send link peer m).result = .error failure ∧ failure.Refusal := by
    intro type id m t h htype hid
    rw [send_of_id htype hid, sendAs, hfree h id, if_neg fun hcon => Bool.false_ne_true hcon.2]
    split
    · exact ⟨_, rfl, .inr ⟨_, rfl⟩⟩
    · rw [hlink]
      exact ⟨_, rfl, .inl rfl⟩
  cases htype : m.type? with
  | none =>
    simp only [send, htype]
    exact ⟨_, rfl, .inr ⟨_, rfl⟩⟩
  | some type =>
    -- It brings its id along, or it gets the first one.
    cases hid : m.id? with
    | some id => exact hsettled hrecords htype hid
    | none =>
      obtain ⟨id, hfirst⟩ := exists_firstFree ⟨0, hfree hrecords 0⟩
      rw [send_of_firstFree htype hid hfirst]
      have hcounted : (t.counted link peer (id + 1)).records = ∅ := hrecords
      exact hsettled hcounted htype rfl

end Transmission

namespace Endpoint

/-- The way out is closed, no message is in flight and no request waits. -/
structure Retired (e : Endpoint Peer) : Prop where
  isOpen : e.link.isOpen = false
  records : e.transmission.records = ∅
  waiting : e.waiting = ∅
  live : e.live = ∅

/-- Nothing is sent and nothing is handed to the service. -/
structure Silent (effects : Effects Peer) : Prop where
  emissions : effects.emissions = []
  dispatched : effects.dispatched = []

variable {e : Endpoint Peer} {effects effects' : Effects Peer}

omit [DecidableEq Peer] in
theorem Silent.append (h : Silent effects) (h' : Silent effects') : Silent (effects ++ effects') :=
  ⟨List.append_eq_nil_iff.2 ⟨h.emissions, h'.emissions⟩,
    List.append_eq_nil_iff.2 ⟨h.dispatched, h'.dispatched⟩⟩

omit [DecidableEq Peer] in
/-- An endpoint that was shut down is retired. -/
theorem retired_shutdown (e : Endpoint Peer) : e.shutdown.1.Retired := ⟨rfl, rfl, rfl, rfl⟩

/-! ### Time -/

/-- No timer does anything any more. -/
theorem Retired.elapse (h : e.Retired) (moment : Moment) :
    (e.elapse moment).1.Retired ∧ (e.elapse moment).2 = {} := by
  obtain ⟨hopen, hrecords, hwaiting, hlive⟩ := h
  -- There are no records, no requests and no way out, so no timer has anything to do.
  have hacks : (e.reception.elapse e.link moment).2 = [] := by
    refine List.flatMap_eq_nil_iff.2 fun p _ => ?_
    dsimp only
    rw [Link.emit, hopen]
    exact ite_self _
  have hflight : (e.transmission.elapse e.link moment).2 = {} := by
    rw [Transmission.elapse, hrecords]
    rfl
  have hrecords' : (e.transmission.elapse e.link moment).1.records = ∅ := by
    rw [Transmission.elapse, hrecords]
    rfl
  rw [elapse_eq, resolved, hacks, hflight]
  have hempty : (e.elapsed moment).live.keys = [] := by
    rw [elapsed, hlive]
    rfl
  dsimp only [resolveAll]
  rw [hempty]
  exact ⟨⟨hopen, hrecords', hwaiting, hlive⟩, rfl⟩

/-- As long as the way out is closed nothing is forgotten, either. -/
theorem Retired.advance (h : e.Retired) (ms : Nat) :
    (e.advance ms).1.Retired ∧ (e.advance ms).2 = {} := by
  have hcount : purgeCount e.link e.link.now (e.link.now + ms) = 0 := by
    rw [purgeCount, h.isOpen]
    rfl
  obtain ⟨⟨hopen, hrecords, hwaiting, hlive⟩, heffects⟩ := h.elapse (.endOf (e.link.now + ms))
  rw [Endpoint.advance, hcount]
  exact ⟨⟨hopen, hrecords, hwaiting, hlive⟩, heffects⟩

/-- As time passes, nothing happens to an endpoint that is retired. -/
theorem Retired.settle (h : e.Retired) (answer : Answer Peer) (effects : Effects Peer) :
    (e.settle answer effects).1.Retired ∧ (e.settle answer effects).2 = ⟨answer, effects⟩ := by
  obtain ⟨hlast, hnothing⟩ := h.elapse (.endOf e.link.now)
  have hreport : (e.settle answer effects).2 =
      ⟨answer, effects ++ (e.elapse (.endOf e.link.now)).2⟩ := rfl
  exact ⟨hlast, by rw [hreport, hnothing, Effects.append_empty]⟩

/-! ### Requests and responses -/

/-- A request is refused as soon as it is made. -/
theorem Retired.request (h : e.Retired) (peer : Peer) (request : Request) :
    (e.request peer request).1.Retired ∧ ∃ failure, failure.Refusal ∧
      (e.request peer request).2 =
        { finished := [⟨e.link.now, e.nextRequest, .error failure⟩] } := by
  obtain ⟨hopen, hrecords, hwaiting, hlive⟩ := h
  obtain ⟨draws, hframe⟩ := addToken_frame request e
  have hnumbered : e.numbered request =
      { e with transmission := { e.transmission with draws }, nextRequest := e.nextRequest + 1 } :=
    by rw [numbered, hframe]
  cases hrequest : (e.addToken request).2 with
  | error fault =>
    rw [request_of_error peer hrequest, hnumbered]
    exact ⟨⟨hopen, hrecords, hwaiting, hlive⟩, _, .inr ⟨fault, rfl⟩, rfl⟩
  | ok request' =>
    have hopen' : (e.numbered request).link.isOpen = false := by rw [hnumbered, hopen]
    have hrecords' : (e.numbered request).transmission.records = ∅ := by
      rw [hnumbered]
      exact hrecords
    have hrefuses := Transmission.refuses_of_closed
      (t := (e.numbered request).transmission) hopen' peer request'.message
    obtain ⟨failure, hresult, hrefusal⟩ :=
      Transmission.send_of_closed hopen' hrecords' peer request'.message
    -- Nobody is found in the place, so nobody is closed.
    have hvacant : e.waiting.find? (peer, request'.message.token?.getD []) = none := by
      rw [hwaiting]
      rfl
    have hwaiting' : ∀ key, (e.numbered request).waiting.erase key = ∅ := fun key => by
      rw [hnumbered, hwaiting]
      rfl
    rw [request_eq peer hrequest, hvacant, launch_of_error hresult, hwaiting']
    refine ⟨⟨hopen', hrefuses.records.trans hrecords', rfl, ?_⟩, failure, hrefusal, ?_⟩
    · rw [hnumbered]
      exact hlive
    · rw [hnumbered]
      exact Effects.append_empty _

/-- A response is refused. -/
theorem Retired.respond (h : e.Retired) (responder : Responder Peer) (response : Response) :
    (e.respond responder response).1.Retired ∧ (e.respond responder response).2.1 = {} ∧
      ∃ failure, failure.Refusal ∧ (e.respond responder response).2.2 = .error failure := by
  rw [Endpoint.respond]
  -- The response is refused before it is sent, as it cannot be addressed, or when it is sent.
  split
  · rename_i fault _
    exact ⟨h, rfl, _, .inr ⟨fault, rfl⟩, rfl⟩
  · rename_i response' _
    let m := (e.reception.prepare responder.peer response').2.message
    have hrefuses := Transmission.refuses_of_closed (t := e.transmission) h.isOpen responder.peer m
    obtain ⟨failure, hresult, hrefusal⟩ :=
      Transmission.send_of_closed h.isOpen h.records responder.peer m
    refine ⟨⟨h.isOpen, hrefuses.records.trans h.records, h.waiting, h.live⟩, ?_, failure,
      hrefusal, hresult⟩
    exact congrArg (fun progress : Progress Peer => ({ emissions := progress.emissions } :
      Effects Peer)) hrefuses.progress

/-! ### Steps and runs -/

/-- No event makes an endpoint that was shut down send anything or hand on a request. -/
theorem Retired.step (h : e.Retired) (event : Event Peer) :
    (e.step event).1.Retired ∧ Silent (e.step event).2.effects := by
  have hsettle : ∀ {e' : Endpoint Peer} (answer : Answer Peer) {effects : Effects Peer},
      e'.Retired → Silent effects → (e'.settle answer effects).1.Retired ∧
        Silent (e'.settle answer effects).2.effects := by
    intro e' answer effects h' hsilent
    obtain ⟨hlast, hreport⟩ := h'.settle answer effects
    rw [hreport]
    exact ⟨hlast, hsilent⟩
  have hnothing : Silent ({} : Effects Peer) := ⟨rfl, rfl⟩
  -- Each event is taken in by an endpoint that is shut down, and leaves it so.
  cases event with
  | datagram peer bytes =>
    have hreceive : e.receive peer bytes = (e, {}) := by
      rw [receive, h.isOpen]
      rfl
    rw [step_datagram, hreceive]
    exact hsettle _ h hnothing
  | request peer request =>
    obtain ⟨hlater, failure, -, heffects⟩ := h.request peer request
    rw [step_request, heffects]
    exact hsettle _ hlater ⟨rfl, rfl⟩
  | abandon k =>
    have hlive : (e.abandon k).live = ∅ := by
      rw [abandon, h.live]
      rfl
    exact hsettle .done ⟨h.isOpen, h.records, h.waiting, hlive⟩ hnothing
  | respond responder response =>
    obtain ⟨hlater, heffects, -⟩ := h.respond responder response
    rw [step_respond, heffects]
    exact hsettle _ hlater hnothing
  | shutdown =>
    rw [step_shutdown]
    exact hsettle _ (retired_shutdown e) ⟨rfl, rfl⟩
  | sleep ms =>
    obtain ⟨hlater, heffects⟩ := h.advance ms
    rw [step_sleep, heffects]
    exact ⟨hlater, hnothing⟩

/-- An endpoint that was shut down stays silent. -/
theorem Retired.run (h : e.Retired) (events : List (Event Peer)) :
    (e.run events).1.Retired ∧ Silent (total (e.run events).2) := by
  induction events generalizing e with
  | nil => exact ⟨h, rfl, rfl⟩
  | cons event events ih =>
    obtain ⟨hnext, hnow⟩ := h.step event
    obtain ⟨hlast, hlater⟩ := ih hnext
    exact ⟨hlast, hnow.append hlater⟩

/-- What a shutdown does after any run, and for all that follows. Every request that is outstanding
    is closed in this step, whether or not its message was acknowledged, and no other one ends.
    From then on no message is in flight and nobody waits for a response, no datagram is sent, no
    request is handed to the service, and every request and every response is refused. -/
theorem finality (service : Service Peer) (responseTimeout : Nat) (link : Link) (draws : Draws)
    (events after : List (Event Peer)) :
    let start : Endpoint Peer := { service, responseTimeout, link, transmission := { draws } }
    let e := (start.run events).1
    let shut := e.step .shutdown
    let later := shut.1.run after
    (∀ k, (start.Outstanding events k →
        shut.2.effects.finishes k = [⟨e.link.now, k, .error .closed⟩]) ∧
      (¬ start.Outstanding events k → shut.2.effects.finishes k = [])) ∧
      Silent shut.2.effects ∧ Silent (total later.2) ∧
      later.1.transmission.inFlight = 0 ∧ later.1.waiting.size = 0 ∧
      (∀ peer request, ∃ failure, failure.Refusal ∧
        (later.1.step (.request peer request)).2 = ⟨.started later.1.nextRequest,
          { finished := [⟨later.1.link.now, later.1.nextRequest, .error failure⟩] }⟩ ∧
        (later.1.step (.request peer request)).1.transmission.inFlight = 0) ∧
      ∀ responder response, ∃ failure, failure.Refusal ∧
        (later.1.step (.respond responder response)).2 = ⟨.responded (.error failure), {}⟩ ∧
        (later.1.step (.respond responder response)).1.transmission.inFlight = 0 := by
  intro start e shut later
  have hnone : ∀ {e : Endpoint Peer}, e.Retired → e.transmission.inFlight = 0 := fun h => by
    rw [Transmission.inFlight, h.records]
    rfl
  have hwaits : ∀ k, e.Waits k ↔ start.Outstanding events k :=
    waits_run_iff service responseTimeout link draws events
  have hretired := retired_shutdown e
  obtain ⟨hshut, hreport⟩ := hretired.settle .done e.shutdown.2
  have heffects : shut.2.effects = e.shutdown.2 := congrArg Report.effects hreport
  obtain ⟨hlater, hsilent⟩ : later.1.Retired ∧ Silent (total later.2) := hshut.run after
  refine ⟨fun k => ?_, heffects ▸ ⟨rfl, rfl⟩, hsilent, hnone hlater, ?_, fun peer request => ?_,
    fun responder response => ?_⟩
  · -- The requests that are outstanding are those that wait, and the shutdown closes just these.
    rw [heffects, ← hwaits, not_waits_iff, place?_eq_none_iff]
    refine ⟨fun ⟨key, hk⟩ => ?_, finishes_shutdown_of_none⟩
    obtain ⟨exchange, hlive, -⟩ := place?_eq_some_iff.1 hk
    exact finishes_shutdown_of_some hlive
  · rw [hlater.waiting]
    rfl
  · obtain ⟨hnext, failure, hrefusal, hfinished⟩ := hlater.request peer request
    obtain ⟨hlast, hreport⟩ := hnext.settle (.started later.1.nextRequest)
      (later.1.request peer request).2
    rw [step_request, hreport, hfinished]
    exact ⟨failure, hrefusal, rfl, hnone hlast⟩
  · obtain ⟨hnext, hnothing, failure, hrefusal, hresult⟩ := hlater.respond responder response
    obtain ⟨hlast, hreport⟩ := hnext.settle
      (.responded (later.1.respond responder response).2.2)
      (later.1.respond responder response).2.1
    rw [step_respond, hreport, hnothing, hresult]
    exact ⟨failure, hrefusal, rfl, hnone hlast⟩

end Endpoint

end Coap
