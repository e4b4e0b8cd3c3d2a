import Coap.Proofs.Endpoint.Provenance
import Coap.Proofs.Options.Replacement

/-!
# Tokens of responses

Every request goes out with a token, which is not empty. A response in a message of its own reaches
a request only if it has the same token. An acknowledgement is not asked for one: it is known by its
id alone, and any other one with that id would have ended the same request, whatever its token.

* `Message.token_ne_nil`: no message has an empty token;
* `Endpoint.HasAsked.token?_eq`: every request goes out with a token;
* `Endpoint.answers_of_ack`: which request an acknowledgement ends with a response;
* `Endpoint.tokens`: the tokens of the responses that end requests in a run;
* `Endpoint.acknowledged_with_other_token`: a response with another token.
-/

namespace Coap

/-! ### Messages with a token -/

/-- The value of a token option is a token, which is not empty. -/
theorem Opt.exists_token {o : Opt} (h : o.name = .token) :
    ∃ token, o.octets? = some token ∧ token ≠ [] := by
  obtain ⟨name, value, fits⟩ := o
  obtain rfl : name = .token := h
  cases value with
  | octets bytes =>
    refine ⟨bytes, rfl, fun hnil => ?_⟩
    subst hnil
    exact absurd fits.admits (by decide)
  | empty => cases fits.format_eq
  | uint => cases fits.format_eq
  | text => cases fits.format_eq

namespace Message

variable {m : Message} {token : Bytes}

/-- A message with a token option has a token, which is not empty. -/
theorem exists_token (h : m.options.contains .token) :
    ∃ token, m.token? = some token ∧ token ≠ [] := by
  obtain ⟨o, ho⟩ := Option.isSome_iff_exists.1 h
  have hname : o.name = .token := by simpa using List.find?_some ho
  obtain ⟨token, htoken, hne⟩ := Opt.exists_token hname
  exact ⟨token, by rw [token?, ho]; exact htoken, hne⟩

theorem contains_token (h : m.token? = some token) : m.options.contains .token := by
  obtain ⟨o, ho, -⟩ := Option.bind_eq_some_iff.1 h
  exact Option.isSome_iff_exists.2 ⟨o, ho⟩

/-- No message has an empty token. -/
theorem token_ne_nil (h : m.token? = some token) : token ≠ [] := by
  obtain ⟨token', htoken, hne⟩ := exists_token (contains_token h)
  obtain rfl := Option.some.inj (h.symm.trans htoken)
  exact hne

/-- A message without a token is not taken for one that has one. -/
theorem token?_eq_of_getD (h : m.token?.getD [] = token) (hne : token ≠ []) :
    m.token? = some token := by
  cases htoken : m.token? with
  | none =>
    rw [htoken] at h
    exact absurd h.symm hne
  | some token' =>
    rw [htoken] at h
    exact congrArg some h

end Message

/-- A request that was given a token has one. -/
theorem Request.contains_setToken {request request' : Request} {token : Bytes}
    (h : (request.setToken token).toExcept = .ok request') :
    request'.message.options.contains .token := by
  obtain ⟨hdone, rfl⟩ := Edited.toExcept_eq_ok_iff.1 h
  obtain ⟨o, ho⟩ := Options.exists_of_replace_done hdone
  rw [setToken, ho] at hdone ⊢
  have hmem := (Options.replace_of_done hdone).1 ▸ List.mem_singleton_self o
  exact Options.contains_iff.2
    ⟨o, (List.mem_filter.1 hmem).1, (Opt.octets_eq_ok_iff.1 ho).1⟩

namespace Endpoint

variable {Peer : Type}

/-- A request has a token when it goes out. -/
theorem contains_addToken {request request' : Request} {e : Endpoint Peer}
    (h : (e.addToken request).2 = .ok request') : request'.message.options.contains .token := by
  rw [addToken] at h
  split at h
  · rename_i token htoken
    obtain rfl := Except.ok.inj h
    exact Message.contains_token htoken
  · exact Request.contains_setToken h

variable [DecidableEq Peer] {e e' : Endpoint Peer} {event : Event Peer} {k : Nat} {a : Asked Peer}

theorem Asks.token?_eq (h : e.Asks event k a) : a.message.token? = some a.token := by
  obtain ⟨peer, request, request', receipt, -, hrequest, -, rfl⟩ := h.made
  obtain ⟨token, htoken, -⟩ := Message.exists_token (contains_addToken hrequest)
  rw [Asked.token, Asked.ofReceipt, htoken, Option.getD_some]

/-- Every request goes out with a token. -/
theorem HasAsked.token?_eq {start : Endpoint Peer} {events : List (Event Peer)}
    (h : start.HasAsked events k a) : a.message.token? = some a.token := by
  obtain ⟨before, event, after, -, hasks⟩ := h
  exact hasks.token?_eq

/-! ### Acknowledgements -/

theorem answers_settle (answer : Answer Peer) (effects : Effects Peer) (e : Endpoint Peer) :
    (e.settle answer effects).2.effects.answers = effects.answers := by
  rw [effects_settle, Effects.answers_append, (e.recedes_elapse _).answers, List.append_nil]

/-- An acknowledgement of a message in flight ends the request that the message carries with the
    response that it holds. Neither its token nor its payload matters for which request that is. -/
theorem answers_of_ack {peer : Peer} {bytes : Bytes} {m : Message} {id : UInt16} {record : Record}
    (hopen : e.link.isOpen) (hm : Message.decode bytes = .ok m) (htype : m.type? = some .ack)
    (hid : m.id? = some id) (hr : e.transmission.records.find? peer id = some record) :
    (e.step (.datagram peer bytes)).2.effects.answers =
      ((e.owner? record.ticket).bind fun owner =>
        (Response.ofMessage m).toOption.map (owner.1, ·)).toList := by
  have hacks : Transmission.outcome? m = some (.acknowledged m : Outcome Peer) := by
    rw [Transmission.outcome?, htype]
  have hresponse : (.acknowledged m : Outcome Peer).response? =
      (Response.ofMessage m).toOption := by
    -- An empty acknowledgement holds no response, and neither has it a code of one.
    rw [Outcome.response?]
    split
    · rename_i hempty
      have hcode : ¬m.code.isResponse := by
        rw [eq_of_beq hempty]
        decide
      rw [Response.ofMessage, dif_neg hcode]
      rfl
    · rfl
  rw [step_datagram, answers_settle, receive, if_pos hopen, hm]
  dsimp only
  rw [accept, htype]
  dsimp only
  rw [Transmission.receive_of_find? hacks hid hr]
  -- The message in flight ends, and with it the request that it carries, by what the message is.
  have hresolve := (recedes_resolve ⟨e.link.now, record.ticket, .acknowledged m⟩
    { e with transmission :=
      { e.transmission with records := e.transmission.records.erase peer id } }).trans .rfl
  have hanswers := hresolve.answers
  rw [List.append_nil, hresponse] at hanswers
  exact hanswers

/-! ### Runs -/

theorem isOpen_of_answers {peer : Peer} {bytes : Bytes}
    (h : (e.step (.datagram peer bytes)).2.effects.answers ≠ []) : e.link.isOpen := by
  by_contra hclosed
  rw [step_datagram, answers_settle, receive, if_neg hclosed] at h
  exact h rfl

/-- The tokens of the responses that end requests in a run. The request had a token. A response in
    a message of its own has the same one. In an acknowledgement its token does not matter: every
    acknowledgement with that id which holds a response ends the request with it. -/
theorem tokens (service : Service Peer) (responseTimeout : Nat) (link : Link) (draws : Draws)
    (events : List (Event Peer)) (event : Event Peer) {k : Nat} {response : Response} :
    let start : Endpoint Peer := { service, responseTimeout, link, transmission := { draws } }
    let e := (start.run events).1
    (k, response) ∈ (e.step event).2.effects.answers →
      ∃ a bytes, start.HasAsked events k a ∧ event = .datagram a.peer bytes ∧
        Message.decode bytes = .ok response.message ∧ a.message.token? = some a.token ∧
          (response.message.type? ≠ some .ack → response.message.token? = some a.token) ∧
          (response.message.type? = some .ack → ∀ bytes' m', Message.decode bytes' = .ok m' →
            m'.type? = some .ack → m'.id? = response.message.id? → ∀ hcode : m'.code.isResponse,
              (e.step (.datagram a.peer bytes')).2.effects.answers = [(k, ⟨m', false, hcode⟩)]) := by
  intro start e hanswer
  have hties : Ties (start.HasAsked events) e.nextRequest e :=
    ties_run service responseTimeout link draws events
  obtain ⟨a, bytes, ha, rfl, hm, hanswered⟩ := hties.source hanswer
  have hopen : e.link.isOpen := isOpen_of_answers (List.ne_nil_of_mem hanswer)
  refine ⟨a, bytes, ha, rfl, hm, ha.token?_eq, fun htype => ?_, fun htype => ?_⟩
  · -- By the way in which the request was answered: under its id, or by its token.
    cases hanswered with
    | acknowledged type_eq => exact absurd type_eq htype
    | separate type_eq token_eq =>
      exact Message.token?_eq_of_getD token_eq (Message.token_ne_nil ha.token?_eq)
  · intro bytes' m' hm' htype' hid' hcode
    cases hanswered with
    | separate type_eq =>
      rw [htype] at type_eq
      rcases type_eq with h | h <;> cases h
    -- The same record is found by any acknowledgement with this id, and it has the same owner.
    | acknowledged type_eq id_eq confirmable found =>
      rw [answers_of_ack hopen hm htype id_eq found, Option.mem_toList] at hanswer
      obtain ⟨⟨k', exchange⟩, howner, hresponse⟩ := Option.bind_eq_some_iff.1 hanswer
      obtain ⟨response', -, heq⟩ := Option.map_eq_some_iff.1 hresponse
      obtain ⟨rfl, -⟩ := Prod.mk.inj heq
      rw [answers_of_ack hopen hm' htype' (hid'.trans id_eq) found, howner, Response.ofMessage,
        dif_pos hcode]
      rfl

/-- A GET with the token 7 is answered by a message of its own with the same token. -/
theorem tokens_separate :
    let start : Endpoint Unit := { service := .later }
    let options : Options :=
      ⟨[⟨.token, .octets [7], rfl, by decide, trivial⟩], by decide, by decide, by decide⟩
    let get : Request := ⟨{ type? := some .con, code := .get, id? := some 1, options }, rfl⟩
    let answer : Message := { type? := some .non, code := .content, id? := some 2, options }
    let events : List (Event Unit) := [.request () get]
    let event : Event Unit := .datagram () [0x51, 0x45, 0, 2, 0xb1, 7]
    let e := (start.run events).1
    (0, ⟨answer, false, rfl⟩) ∈ (e.step event).2.effects.answers ∧
      ∃ a, start.HasAsked events 0 a ∧ answer.token? = some a.token := by
  intro start options get answer events event e
  have hencode : get.message.encode = .ok [0x41, 1, 0, 1, 0xb1, 7] := by cbv
  have hrequest : (start.addToken get).2 = .ok get := rfl
  have hsend : (start.numbered get).transmission.send (start.numbered get).link () get.message =
      start.transmission.dispatch start.link () .con 1 [0x41, 1, 0, 1, 0xb1, 7] :=
    Transmission.send_of_encode rfl rfl rfl hencode rfl
  have hevents : events = [.request () get] := rfl
  have hevent : event = .datagram () [0x51, 0x45, 0, 2, 0xb1, 7] := rfl
  clear_value events event
  have he : e = (start.run events).1 := rfl
  have hanswer : (0, ⟨answer, false, rfl⟩) ∈ (e.step event).2.effects.answers := by
    rw [he, hevents, hevent, run_singleton, step_request, request_eq () hrequest, launch, hsend]
    decide +kernel
  obtain ⟨a, bytes, ha, -, -, -, hseparate, -⟩ := tokens .later 10000 {} {} events event hanswer
  exact ⟨hanswer, a, ha, hseparate (by decide)⟩

/-- A GET with the token 7 is acknowledged together with a response that has the token 9, and ends
    with it. -/
theorem acknowledged_with_other_token :
    let start : Endpoint Unit := { service := .later }
    let seven : Options :=
      ⟨[⟨.token, .octets [7], rfl, by decide, trivial⟩], by decide, by decide, by decide⟩
    let nine : Options :=
      ⟨[⟨.token, .octets [9], rfl, by decide, trivial⟩], by decide, by decide, by decide⟩
    let get : Request :=
      ⟨{ type? := some .con, code := .get, id? := some 1, options := seven }, rfl⟩
    let answer : Message :=
      { type? := some .ack, code := .content, id? := some 1, options := nine }
    let events : List (Event Unit) := [.request () get]
    let e := (start.run events).1
    start.HasAsked events 0 ⟨(), get.message, 0, 1⟩ ∧
      (e.step (.datagram () [0x61, 0x45, 0, 1, 0xb1, 9])).2.effects.answers =
        [(0, ⟨answer, false, rfl⟩)] ∧
        get.message.token? = some [7] ∧ answer.token? = some [9] := by
  intro start seven nine get answer events e
  have hencode : get.message.encode = .ok [0x41, 1, 0, 1, 0xb1, 7] := by cbv
  have hrequest : (start.addToken get).2 = .ok get := rfl
  have hsend : (start.numbered get).transmission.send (start.numbered get).link () get.message =
      start.transmission.dispatch start.link () .con 1 [0x41, 1, 0, 1, 0xb1, 7] :=
    Transmission.send_of_encode rfl rfl rfl hencode rfl
  have hasks : start.Asks (.request () get) 0 ⟨(), get.message, 0, 1⟩ := by
    refine asks_request_iff.2 ⟨get, hrequest, rfl, ⟨0, 1⟩, ?_, rfl⟩
    rw [hsend]
    decide +kernel
  have hevents : events = [.request () get] := rfl
  clear_value events
  have he : e = (start.run events).1 := rfl
  refine ⟨⟨[], _, [], hevents, hasks⟩, ?_, rfl, rfl⟩
  rw [he, hevents, run_singleton, step_request, request_eq () hrequest, launch, hsend]
  decide +kernel

end Endpoint

end Coap
