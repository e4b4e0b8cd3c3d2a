import Coap.Proofs.Endpoint.Serving

/-!
# Responses to unconfirmed requests

A service is handed only what comes in: whoever it answers has sent a datagram that holds the
request (`Endpoint.mem_dispatched_run`). The response to a request that is not confirmable
acknowledges nothing. It is a message of its own with the token of the request, and whatever is
remembered of confirmable requests stays as it is, with the times at which they are acknowledged on
their own (`Endpoint.Separates`). A response gets a new id for that, unless it is a notification.

* `Endpoint.mem_dispatched_receive`, `Endpoint.mem_dispatched_step`: which request is handed on;
* `Endpoint.separates_respond`: what it does to answer a request with an id;
* `Endpoint.separation`: how unconfirmed requests are answered after any run;
* `Endpoint.conflated_by_id`: two ways in which a response keeps the id of the request.
-/

namespace Coap.Endpoint

variable {Peer : Type} [DecidableEq Peer] {e e' : Endpoint Peer} {effects : Effects Peer}

/-! ### Requests that are handed on -/

theorem dispatched_close (time : Nat) (waiter? : Option Nat) (e : Endpoint Peer) :
    (e.close time waiter?).2.dispatched = [] := by
  cases waiter? with
  | none => rfl
  | some k =>
    rw [close]
    split <;> rfl

theorem dispatched_finish (time k : Nat) (exchange : Exchange Peer)
    (result : Except (Failure Peer) Response) (e : Endpoint Peer) :
    (e.finish time k exchange result).2.dispatched = [] :=
  dispatched_close time _ _

theorem dispatched_resolve (r : Resolution Peer) (e : Endpoint Peer) :
    (e.resolve r).2.dispatched = [] := by
  rw [resolve]
  -- Only the end of a request could hand anything on, and it does not.
  cases e.owner? r.ticket with
  | none => rfl
  | some owner =>
    dsimp only
    cases r.outcome with
    | sent => rfl
    | acknowledged m =>
      dsimp only
      split
      · rfl
      · exact dispatched_finish _ _ _ _ e
    | reset => exact dispatched_finish _ _ _ _ e
    | failed failure => exact dispatched_finish _ _ _ _ e

theorem dispatched_resolveAll (rs : List (Resolution Peer)) (e : Endpoint Peer) :
    (e.resolveAll rs).2.dispatched = [] := by
  induction rs generalizing e with
  | nil => rfl
  | cons r rs ih => exact List.append_eq_nil_iff.2 ⟨dispatched_resolve r e, ih _⟩

theorem dispatched_request (peer : Peer) (request : Request) (e : Endpoint Peer) :
    (e.request peer request).2.dispatched = [] := by
  have hdisplace : ∀ (waiter? : Option Nat) (e : Endpoint Peer),
      (e.displace waiter?).2.dispatched = [] := by
    intro waiter? e
    cases waiter? with
    | none => rfl
    | some k =>
      rw [displace]
      split
      · rfl
      · exact dispatched_finish _ _ _ _ _
  have hlaunch : ∀ (k : Nat) (request : Request) (e : Endpoint Peer),
      (e.launch k peer request).2.dispatched = [] := by
    intro k request e
    rw [launch]
    dsimp only
    split
    · rfl
    · exact dispatched_resolveAll _ _
  -- A request is refused or launched, and whoever waited in its place is closed.
  cases hrequest : (e.addToken request).2 with
  | error fault =>
    rw [request_of_error peer hrequest]
  | ok request' =>
    rw [request_eq peer hrequest]
    exact List.append_eq_nil_iff.2 ⟨hlaunch _ _ _, hdisplace _ _⟩

theorem dispatched_respond (responder : Responder Peer) (response : Response)
    (e : Endpoint Peer) : (e.respond responder response).2.1.dispatched = [] := by
  rw [respond]
  split <;> rfl

theorem dispatched_deliver (peer : Peer) (response : Response) (e : Endpoint Peer) :
    (e.deliver peer response).2.dispatched = [] := by
  rw [deliver]
  dsimp only
  split
  · rfl
  · split
    · rfl
    · exact dispatched_finish _ _ _ _ _

theorem Seated.dispatched_advance (h : e.Seated) (ms : Nat) :
    (e.advance ms).2.dispatched = [] :=
  @Seated.advance_rec Peer _ e (fun _ _ past => past.dispatched = [])
    (fun hseated hnothing _ _ =>
      List.append_eq_nil_iff.2 ⟨hnothing, (hseated.elapse_frame _).2.2⟩)
    (fun _ hnothing => hnothing) (fun hnothing => hnothing) h {} rfl ms

/-- No request is handed on as the timers fire. -/
theorem Seated.dispatched_settle (h : e.Seated) (answer : Answer Peer) (effects : Effects Peer) :
    (e.settle answer effects).2.effects.dispatched = effects.dispatched := by
  rw [effects_settle]
  exact (congrArg (effects.dispatched ++ ·) (h.elapse_frame _).2.2).trans (List.append_nil _)

/-- A request that is handed on is the message of the datagram that came in, and its response goes
    to the peer from which it came. -/
theorem mem_dispatched_receive {peer : Peer} {bytes : Bytes} {d : Dispatch Peer}
    (hd : d ∈ (e.receive peer bytes).2.dispatched) :
    Message.decode bytes = .ok d.request.message ∧ d.responder = .ofRequest peer d.request := by
  -- What is handed on is the request, and its response brings nothing else with it.
  have hdispatch : ∀ (request : Request) (e : Endpoint Peer),
      d ∈ (e.dispatch peer request).2.dispatched →
        d = ⟨request, .ofRequest peer request⟩ := by
    intro request e hd
    rw [dispatch] at hd
    dsimp only at hd
    split at hd
    · exact List.mem_singleton.1 hd
    · rename_i response _
      rcases List.mem_append.1 hd with hd | hd
      · exact List.mem_singleton.1 hd
      · rw [dispatched_respond] at hd
        cases hd
  have hhand : ∀ (verdict : Verdict) (m : Message) (e : Endpoint Peer),
      d ∈ (e.handOn verdict peer m).2.dispatched →
        d.request.message = m ∧ d.responder = .ofRequest peer d.request := by
    intro verdict m e hd
    cases verdict with
    | duplicate => cases hd
    | forward =>
      rw [handOn] at hd
      split at hd
      · rw [hdispatch _ _ hd]
        exact ⟨rfl, rfl⟩
      · split at hd
        · rw [dispatched_deliver] at hd
          cases hd
        · cases hd
  rw [receive] at hd
  split at hd
  · cases hm : Message.decode bytes with
    | error fault =>
      rw [hm] at hd
      cases hd
    | ok m =>
      rw [hm] at hd
      dsimp only at hd
      rw [accept] at hd
      -- Answers to messages go elsewhere, so only what is neither an acknowledgement nor a
      -- rejection is left.
      split at hd
      · rw [dispatched_resolveAll] at hd
        cases hd
      · rw [dispatched_resolveAll] at hd
        cases hd
      · obtain ⟨hmessage, hresponder⟩ := hhand _ m _ hd
        exact ⟨congrArg _ hmessage.symm, hresponder⟩
  · cases hd

theorem Seated.mem_dispatched_step (h : e.Seated) {event : Event Peer} {d : Dispatch Peer}
    (hd : d ∈ (e.step event).2.effects.dispatched) :
    ∃ bytes, event = .datagram d.responder.peer bytes ∧
      Message.decode bytes = .ok d.request.message ∧
        d.responder = .ofRequest d.responder.peer d.request := by
  -- Only a datagram hands on anything.
  cases event with
  | datagram peer bytes =>
    rw [step_datagram, (h.spares_receive 0 peer bytes).seated.dispatched_settle] at hd
    obtain ⟨hdecode, hresponder⟩ := mem_dispatched_receive hd
    have hpeer : d.responder.peer = peer := by rw [hresponder]; rfl
    rw [hpeer]
    exact ⟨bytes, rfl, hdecode, hresponder⟩
  | request peer request =>
    rw [step_request, (h.request peer request).dispatched_settle, dispatched_request] at hd
    cases hd
  | abandon k =>
    have hnothing : (e.step (.abandon k)).2.effects.dispatched = [] :=
      (h.abandon k).dispatched_settle .done {}
    rw [hnothing] at hd
    cases hd
  | respond responder response =>
    rw [step_respond, (h.spares_respond 0 responder response).seated.dispatched_settle,
      dispatched_respond] at hd
    cases hd
  | shutdown =>
    rw [step_shutdown, (seated_shutdown e).dispatched_settle] at hd
    cases hd
  | sleep ms =>
    rw [step_sleep] at hd
    dsimp only at hd
    rw [h.dispatched_advance] at hd
    cases hd

/-- A request that was handed on in a run came in as a datagram, and its response goes to the peer
    that sent it. -/
theorem Seated.mem_dispatched_run (h : e.Seated) {events : List (Event Peer)} {d : Dispatch Peer}
    (hd : d ∈ (total (e.run events).2).dispatched) :
    ∃ bytes, .datagram d.responder.peer bytes ∈ events ∧
      Message.decode bytes = .ok d.request.message ∧
        d.responder = .ofRequest d.responder.peer d.request := by
  induction events generalizing e with
  | nil => cases hd
  | cons event events ih =>
    rcases List.mem_append.1 hd with hd | hd
    · obtain ⟨bytes, rfl, hrest⟩ := h.mem_dispatched_step hd
      exact ⟨bytes, List.mem_cons_self, hrest⟩
    · obtain ⟨bytes, hmem, hrest⟩ := ih (h.step event) hd
      exact ⟨bytes, List.mem_cons_of_mem _ hmem, hrest⟩

/-! ### Responses that are kept apart -/

/-- What an endpoint does to answer an unconfirmed request with an id. Nothing is known about a
    confirmable request with this id that is remembered as well. -/
structure Separates (e : Endpoint Peer) (peer : Peer) (q : UInt16) (token? : Option Bytes)
    (response : Response) (receipt : Receipt) (e' : Endpoint Peer) (effects : Effects Peer) :
    Prop where
  link_eq : e'.link = e.link
  /-- Requests with other ids are remembered as before, and so are those of other peers. -/
  others : ∀ peer' id, ¬(peer' = peer ∧ id = q) →
    e'.reception.entries.find? peer' id = e.reception.entries.find? peer' id
  /-- If none is remembered with this id, the response is a message of its own. -/
  apart : e.reception.entries.find? peer q = none →
    (∀ peer' id, e'.reception.entries.find? peer' id = e.reception.entries.find? peer' id) ∧
      ∃ m bytes, m.type? = some .non ∧ m.token? = token? ∧
        e.Replies peer response q token? receipt m bytes e' effects

variable {responder : Responder Peer} {response : Response} {receipt : Receipt} {q : UInt16}

/-- What it does to answer a request with an id, apart from what is known about this request. -/
theorem separates_respond (hseated : e.Seated) (hcalm : e.Calm (.endOf e.link.now))
    (hid : responder.id? = some q) (htype : response.message.type? = none)
    (hown : response.message.id? = none) (htoken : response.message.token? = none)
    (h : (e.respond responder response).2.2 = .ok receipt)
    (hemissions : effects.emissions = (e.respond responder response).2.1.emissions)
    (answer : Answer Peer) :
    e.Separates responder.peer q responder.token? response receipt
      ((e.respond responder response).1.settle answer effects).1
      ((e.respond responder response).1.settle answer effects).2.effects := by
  obtain ⟨m, bytes, hreplies⟩ := replies_respond hid htype h
  rw [hown, Option.getD_none] at hreplies
  have hlink := (proceeds_respond responder response e).link_eq
  have hlater := (hseated.spares_respond 0 responder response).seated
  have hreplies : e.Replies responder.peer response q responder.token? receipt m bytes
      (e.respond responder response).1 effects :=
    { hreplies with emissions := hemissions.trans hreplies.emissions }
  have hentries := hlater.entries_elapse (hreplies.calm_reception hlink hcalm)
  -- Entries under other ids are those of before. If there was none under this one, then all are.
  refine ⟨(proceeds_elapse _ _).link_eq.trans hlink, fun peer' id hother => ?_, fun hnone => ?_⟩
  · exact (hentries peer' id).trans ((hreplies.entries peer' id).trans (if_neg hother))
  · have hnon : m.type? = some .non := by
      rw [hreplies.type_eq, hnone]
      rfl
    -- An unconfirmed message is not in flight afterwards, so that nothing of it is due at this
    -- moment.
    have hcon : m.type? ≠ some .con := by
      rw [hnon]
      decide
    have hsettled := hreplies.settle (hreplies.calm_of_unconfirmed hlink hcalm hcon) hlater answer
    refine ⟨fun peer' id => ?_, m, bytes, hnon, ?_, hsettled⟩
    · rw [hsettled.entries]
      split
      · rename_i hkey
        rw [hkey.1, hkey.2, hnone]
      · rfl
    · rw [hreplies.conveys.token, htoken, Option.none_or]

/-- An endpoint that sends a response has not been shut down. -/
theorem isOpen_of_respond (h : (e.respond responder response).2.2 = .ok receipt) :
    e.link.isOpen := by
  rw [respond] at h
  split at h
  · cases h
  · exact Transmission.isOpen_of_send h

omit [DecidableEq Peer] in
/-- A message that came in has an id. -/
theorem exists_id_of_decode {bytes : Bytes} {m : Message} (h : Message.decode bytes = .ok m) :
    ∃ q, m.id? = some q := by
  obtain ⟨header, frames, rest, options, -, -, -, -, -, -, rfl⟩ := Message.decode_eq_ok_iff.1 h
  exact ⟨_, rfl⟩

/-! ### Runs -/

/-- How an unconfirmed request is answered after any run, by a response without a type, an id and a
    token: later on, as it was handed on in the run, or at once, as soon as it comes in. Whatever is
    remembered of other requests stays as it is, and if none is remembered with its id, so does
    everything that is remembered, and exactly one datagram goes out, which holds the response as
    an unconfirmed message with the token of the request. It has a new id, unless it is a
    notification (`Replies`). -/
theorem separation (service : Service Peer) (responseTimeout : Nat) (link : Link) (draws : Draws)
    (events : List (Event Peer)) {response : Response} {receipt : Receipt} :
    let start : Endpoint Peer := { service, responseTimeout, link, transmission := { draws } }
    let e := (start.run events).1
    response.message.type? = none → response.message.id? = none →
      response.message.token? = none →
        (∀ d ∈ (total (start.run events).2).dispatched, d.request.message.type? = some .non →
          let out := e.step (.respond d.responder response)
          out.2.answer = .responded (.ok receipt) →
            ∃ q, d.request.message.id? = some q ∧
              e.Separates d.responder.peer q d.request.message.token? response receipt out.1
                out.2.effects) ∧
          ∀ peer bytes request, Message.decode bytes = .ok request.message →
            request.message.type? = some .non → service peer request = some response →
              (e.respond (.ofRequest peer request) response).2.2 = .ok receipt →
                let out := e.step (.datagram peer bytes)
                ∃ q, request.message.id? = some q ∧
                  e.Separates peer q request.message.token? response receipt out.1
                    out.2.effects := by
  intro start e htype hown htoken
  have hseated : ∀ events, (start.run events).1.Seated :=
    seated_run service responseTimeout link draws
  have hcalm : e.Calm (.endOf e.link.now) := calm_run service responseTimeout link draws events
  constructor
  · -- Later on: the request was read from a datagram, so it has an id, and this is passed to its
    -- responder.
    intro d hd hnon out hanswer
    obtain ⟨bytes, -, hdecode, hresponder⟩ := (hseated []).mem_dispatched_run hd
    obtain ⟨q, hid⟩ := exists_id_of_decode hdecode
    have hrequest : d.responder.id? = some q ∧ d.responder.token? = d.request.message.token? := by
      rw [hresponder]
      exact ⟨hid, rfl⟩
    have hout : out = (e.respond d.responder response).1.settle _ _ := step_respond _ _ e
    rw [hout] at hanswer ⊢
    have hseparates := separates_respond (hseated events) hcalm hrequest.1 htype hown htoken
      (Answer.responded.inj hanswer) rfl (.responded (e.respond d.responder response).2.2)
    rw [hrequest.2] at hseparates
    exact ⟨q, hid, hseparates⟩
  · -- At once: the service is the one of the start, and its response goes out while the datagram is
    -- taken in.
    intro peer bytes request hdecode hnon hservice hresult out
    obtain ⟨q, hid⟩ := exists_id_of_decode hdecode
    have hservice' : e.service peer request = some response := by
      rw [(start.settled_run events).service]
      exact hservice
    let responder := Responder.ofRequest peer request
    have hreceive : e.receive peer bytes = ((e.respond responder response).1,
        { dispatched := [⟨request, responder⟩] } ++ (e.respond responder response).2.1) :=
      receive_of_service (isOpen_of_respond hresult) hdecode (.inr hnon)
        (receive_of_non _ _ _ hnon) hservice'
    have hout : out = (e.respond responder response).1.settle .done
        ({ dispatched := [⟨request, responder⟩] } ++ (e.respond responder response).2.1) := by
      have hstep : out = (e.receive peer bytes).1.settle .done (e.receive peer bytes).2 :=
        step_datagram _ _ e
      rw [hstep, hreceive]
    have hemissions : ({ dispatched := [⟨request, responder⟩] } ++
        (e.respond responder response).2.1 : Effects Peer).emissions =
          (e.respond responder response).2.1.emissions := List.nil_append _
    rw [hout]
    exact ⟨q, hid, separates_respond (hseated events) hcalm hid htype hown htoken hresult
      hemissions .done⟩

/-- A confirmable GET with the id 6 waits for its response when an unconfirmed one with the id 5 and
    the token 2 is answered. The response goes out under the new id 0, and the other request still
    waits. -/
theorem separation_beside_confirmable :
    let start : Endpoint Unit := { service := .later }
    let responder : Responder Unit := ⟨(), some 5, some [2]⟩
    let response : Response := ⟨{ type? := none, code := .content, id? := none }, false, rfl⟩
    let events : List (Event Unit) :=
      [.datagram () [0x41, 1, 0, 6, 0xb1, 1], .datagram () [0x51, 1, 0, 5, 0xb1, 2]]
    let e := (start.run events).1
    let out := e.step (.respond responder response)
    (∃ d ∈ (total (start.run events).2).dispatched,
        d.request.message.type? = some .non ∧ d.responder = responder) ∧
      e.reception.entries.find? () 5 = none ∧
        out.2.answer = .responded (.ok ⟨0, 0⟩) ∧
          out.2.effects.emissions = [⟨0, (), [0x51, 0x45, 0, 0, 0xb1, 2], some 0⟩] ∧
            out.1.reception.entries.find? () 6 = some ⟨0, false⟩ ∧
              e.Separates () 5 (some [2]) response ⟨0, 0⟩ out.1 out.2.effects := by
  intro start responder response events e out
  obtain ⟨answer, haddress, htype, hid, hapart, hencode⟩ : ∃ answer : Response,
      responder.address response = .ok answer ∧ answer.message.type? = none ∧
        answer.message.id? = some 5 ∧ (Reception.separate .non answer).message.id? = none ∧
          { (Reception.separate .non answer).message with id? := some 0 }.encode =
            .ok [0x51, 0x45, 0, 0, 0xb1, 2] := by
    refine ⟨_, rfl, rfl, rfl, rfl, ?_⟩
    cbv
  have hevents : events =
      [.datagram () [0x41, 1, 0, 6, 0xb1, 1], .datagram () [0x51, 1, 0, 5, 0xb1, 2]] := rfl
  clear_value events
  have hanswered : ∀ d ∈ (total (start.run events).2).dispatched,
      d.request.message.type? = some .non →
        (e.step (.respond d.responder response)).2.answer = .responded (.ok ⟨0, 0⟩) →
          ∃ q, d.request.message.id? = some q ∧
            e.Separates d.responder.peer q d.request.message.token? response ⟨0, 0⟩
              (e.step (.respond d.responder response)).1
                (e.step (.respond d.responder response)).2.effects :=
    (separation .later 10000 {} {} events rfl rfl rfl).1
  have he : e = (start.run events).1 := rfl
  have hout : out = e.step (.respond responder response) := rfl
  have hstep : e.step (.respond responder response) = out := rfl
  clear_value out e
  have hdispatched : (total (start.run events).2).dispatched.map
      (fun d => (d.request.message.type?, d.request.message.id?, d.request.message.token?,
        d.responder)) =
        [(some .con, some 6, some [1], ⟨(), some 6, some [1]⟩),
          (some .non, some 5, some [2], responder)] := by
    rw [hevents]
    decide +kernel
  have hfree : e.reception.entries.find? () 5 = none := by
    rw [he, hevents]
    decide +kernel
  have hpending : e.reception.pending? () answer = none := by
    rw [Reception.pending?, hid]
    exact hfree
  have hfirst : e.transmission.FirstFree () 0 := by
    rw [Transmission.firstFree_iff, he, hevents]
    decide +kernel
  have hsend : e.transmission.send e.link () (Reception.separate .non answer).message =
      (e.transmission.counted e.link () 1).dispatch e.link () .non 0
        [0x51, 0x45, 0, 0, 0xb1, 2] := by
    have hnon : (Reception.separate .non answer).message.type? = some .non := rfl
    rw [Transmission.send_of_firstFree hnon hapart hfirst]
    refine Transmission.send_of_encode rfl rfl ?_ hencode ?_ <;>
    · rw [he, hevents]
      decide +kernel
  rw [step_respond, respond_eq haddress htype, hpending, Reception.settle, hsend,
    Reception.answered, hid, he, hevents] at hout
  have hresult : out.2.answer = .responded (.ok ⟨0, 0⟩) := by
    rw [hout]
    rfl
  -- The request is the second one that was handed on.
  obtain ⟨d, hd, heq⟩ := List.mem_map.1
    (hdispatched.symm ▸ List.mem_cons_of_mem _ (List.mem_singleton_self _))
  obtain ⟨hnon, hq, htoken, hresponder⟩ : d.request.message.type? = some .non ∧
      d.request.message.id? = some 5 ∧ d.request.message.token? = some [2] ∧
        d.responder = responder := by
    simpa using heq
  have hseparates := hanswered d hd hnon
  rw [hresponder, hq, htoken] at hseparates
  rw [hstep] at hseparates
  obtain ⟨q, hq', hseparates⟩ := hseparates hresult
  obtain rfl := Option.some.inj hq'
  refine ⟨⟨d, hd, hnon, hresponder⟩, hfree, hresult, ?_, ?_, hseparates⟩
  · rw [hout]
    decide +kernel
  · rw [hout]
    decide +kernel

/-- Two ways in which the response to an unconfirmed GET with the id 5 and the token 2 does not get
    a new id. A notification keeps the id of the GET, and so does a response that is given while a
    confirmable GET with the same id waits for its own: it is sent as the acknowledgement of this
    one, which is not remembered any more then. -/
theorem conflated_by_id :
    let start : Endpoint Unit := { service := .later }
    let confirmable : Event Unit := .datagram () [0x41, 1, 0, 5, 0xb1, 1]
    let unconfirmed : Event Unit := .datagram () [0x51, 1, 0, 5, 0xb1, 2]
    let responder : Responder Unit := ⟨(), some 5, some [2]⟩
    let response (isNotification : Bool) : Response :=
      ⟨{ type? := none, code := .content, id? := none }, isNotification, rfl⟩
    let alone := start.run [unconfirmed]
    let notified := alone.1.step (.respond responder (response true))
    let both := start.run [confirmable, unconfirmed]
    let answered := both.1.step (.respond responder (response false))
    (total alone.2).dispatched.map (fun d => (d.request.message.type?, d.responder)) =
        [(some .non, responder)] ∧
      alone.1.transmission.FirstFree () 0 ∧
        notified.2.effects.emissions = [⟨0, (), [0x51, 0x45, 0, 5, 0xb1, 2], some 0⟩] ∧
    (total both.2).dispatched.map (fun d => (d.request.message.type?, d.responder)) =
        [(some .con, ⟨(), some 5, some [1]⟩), (some .non, responder)] ∧
      both.1.reception.entries.find? () 5 = some ⟨0, false⟩ ∧
        answered.2.effects.emissions = [⟨0, (), [0x61, 0x45, 0, 5, 0xb1, 2], some 0⟩] ∧
          answered.1.reception.entries.find? () 5 = none := by
  intro start confirmable unconfirmed responder response alone notified both answered
  have haddress : ∀ isNotification, ∃ answer : Response,
      responder.address (response isNotification) = .ok answer ∧ answer.message.type? = none ∧
        answer.message.id? = some 5 ∧ answer.isNotification = isNotification ∧
          (answer.setType (some .non)).message.encode = .ok [0x51, 0x45, 0, 5, 0xb1, 2] ∧
            (answer.setType (some .ack)).message.encode = .ok [0x61, 0x45, 0, 5, 0xb1, 2] := by
    intro isNotification
    refine ⟨_, rfl, rfl, rfl, rfl, ?_, ?_⟩ <;> cbv
  have halone : alone = start.run [unconfirmed] := rfl
  have hboth : both = start.run [confirmable, unconfirmed] := rfl
  have hnotified : notified = alone.1.step (.respond responder (response true)) := rfl
  have hanswered : answered = both.1.step (.respond responder (response false)) := rfl
  clear_value alone notified both answered
  have hnone : alone.1.reception.entries.find? () 5 = none := by
    rw [halone]
    decide +kernel
  have hentry : both.1.reception.entries.find? () 5 = some ⟨0, false⟩ := by
    rw [hboth]
    decide +kernel
  refine ⟨?_, ?_, ?_, ?_, hentry, ?_⟩
  · rw [halone]
    decide +kernel
  · rw [Transmission.firstFree_iff, halone]
    decide +kernel
  · obtain ⟨answer, haddress, htype, hid, htold, hencode, -⟩ := haddress true
    have hpending : alone.1.reception.pending? () answer = none := by
      rw [Reception.pending?, hid]
      exact hnone
    have hsend : alone.1.transmission.send alone.1.link () (answer.setType (some .non)).message =
        alone.1.transmission.dispatch alone.1.link () .non 5 [0x51, 0x45, 0, 5, 0xb1, 2] := by
      refine Transmission.send_of_encode rfl hid ?_ hencode ?_ <;>
      · rw [halone]
        decide +kernel
    rw [hnotified, step_respond, respond_eq haddress htype, hpending, Reception.settle,
      Reception.separate, if_pos htold, hsend, Reception.answered, hid, halone]
    decide +kernel
  · rw [hboth]
    decide +kernel
  · obtain ⟨answer, haddress, htype, hid, -, -, hencode⟩ := haddress false
    have hpending : both.1.reception.pending? () answer = some ⟨0, false⟩ := by
      rw [Reception.pending?, hid]
      exact hentry
    have hsend : both.1.transmission.send both.1.link () (answer.setType (some .ack)).message =
        both.1.transmission.dispatch both.1.link () .ack 5 [0x61, 0x45, 0, 5, 0xb1, 2] := by
      refine Transmission.send_of_encode rfl hid ?_ hencode ?_ <;>
      · rw [hboth]
        decide +kernel
    rw [step_respond, respond_eq haddress htype, hpending, Reception.settle,
      if_neg Bool.false_ne_true, hsend, Reception.answered, hid, hboth] at hanswered
    rw [hanswered]
    constructor <;> decide +kernel

end Coap.Endpoint
