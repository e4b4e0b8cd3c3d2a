import Coap.Proofs.Endpoint.Reply

/-!
# Requests that are served at once

The responses of a directory say nothing of who asked for them and have one option at most
(`Response.Plain`), so that the token of every request that was read fits in. A request is then
answered in the step in which it comes in, by one datagram, and nothing is remembered of it.

* `Directory.plain_respond`: what the responses of a directory have in common;
* `Response.Plain.exists_address`: they can be addressed to whoever asked;
* `Endpoint.serves_con`, `Endpoint.serves_non`: how a request is answered at once;
* `Endpoint.serving`: what becomes of the requests that come in after a run.
-/

namespace Coap

/-! ### The responses of a directory -/

/-- A response that is to be addressed still, with an option at most and no token. -/
structure Response.Plain (r : Response) : Prop where
  version_eq : r.message.version = protocolVersion
  type_eq : r.message.type? = none
  id_eq : r.message.id? = none
  answers : r.isNotification = false
  reachable : Options.Reachable (· = r.message.code) r.message.options
  length_le : r.message.options.length ≤ 1
  tokenless : ∀ o ∈ r.message.options.toList, o.name ≠ .token

theorem Edited.toExcept_map {α β : Type} (f : α → β) (e : Edited α) :
    (e.map f).toExcept = e.toExcept.map f := by
  obtain ⟨value, fault?⟩ := e
  cases fault? <;> rfl

/-- To put in an option is to add it where no other one has its name. -/
theorem Options.toExcept_replace (options : Options) (code : Code) (o : Opt) :
    (options.replace code (.ok o)).toExcept = (options.without [o.name]).add code o := by
  rw [replace_ok]
  cases (options.without [o.name]).add code o <;> rfl

theorem Response.plain_make {code : Code} {r : Response} (h : make code = .ok r) : r.Plain := by
  rw [make] at h
  split at h
  · obtain rfl := Except.ok.inj h
    exact ⟨rfl, rfl, rfl, rfl, .empty, Nat.zero_le _, fun _ ho => absurd ho List.not_mem_nil⟩
  · cases h

theorem Response.plain_content {payload : Bytes} {mediaType : Nat} {r : Response}
    (h : content payload mediaType = .ok r) : r.Plain := by
  let header : Response := ⟨.ofHeader none .content none, false, rfl⟩
  have hcontent : content payload mediaType =
      (header.setContentType mediaType).toExcept.map (·.setPayload payload) := rfl
  rw [hcontent, setContentType] at h
  -- Setting the media type may fail in two places: the number is too big, or the option does not
  -- fit.
  cases ho : Opt.uint .contentType mediaType with
  | error fault =>
    rw [ho] at h
    cases h
  | ok o =>
    rw [ho, Edited.toExcept_map, Options.toExcept_replace] at h
    cases hadd : (Options.without ∅ [o.name]).add .content o with
    | error fault =>
      change (((Options.without ∅ [o.name]).add .content o).map _).map _ = _ at h
      rw [hadd] at h
      cases h
    | ok options =>
      change (((Options.without ∅ [o.name]).add .content o).map _).map _ = _ at h
      rw [hadd] at h
      obtain rfl := Except.ok.inj h
      have hreachable : Options.Reachable (· = .content) options :=
        .add (rfl : Code.content = .content) (.without _ .empty) hadd
      have hlist : options.toList = [o] := (Options.add_eq_ok_iff.1 hadd).2.2.2.2
      refine ⟨rfl, rfl, rfl, rfl, hreachable, ?_, ?_⟩
      · exact Nat.le_of_eq (congrArg List.length hlist)
      · intro o' ho'
        obtain rfl := List.mem_singleton.1 (hlist ▸ ho' : o' ∈ [o])
        rw [(Opt.uint_eq_ok_iff.1 ho).1]
        decide

/-- What the responses of a directory have in common. -/
theorem Directory.plain_respond {directory : Directory} {request : Request} {r : Response}
    (h : directory.respond request = .ok r) : r.Plain := by
  rw [respond] at h
  split at h
  · exact Response.plain_make h
  split at h
  · exact Response.plain_content h
  split at h
  · exact Response.plain_content h
  · exact Response.plain_make h

/-! ### Addressing -/

/-- The token option that a token comes from. -/
theorem Opt.octets_token {o : Opt} {token : Bytes} (hname : o.name = .token)
    (htoken : o.octets? = some token) : octets .token token = .ok o := by
  refine octets_eq_ok_iff.2 ⟨hname, ?_⟩
  cases hvalue : o.value <;> simp_all [octets?]

/-- A plain response has room for every token that was read. -/
theorem Response.Plain.exists_address {Peer : Type} {r : Response} (h : r.Plain)
    (responder : Responder Peer) {m : Message} (htoken : responder.token? = m.token?) :
    ∃ answer, responder.address r = .ok answer ∧
      Options.Reachable (· = r.message.code) answer.message.options := by
  obtain ⟨identified, hidentified⟩ : ∃ identified : Response, identified =
      if r.message.id?.isNone then r.setId responder.id? else r := ⟨_, rfl⟩
  have hcode : identified.message.code = r.message.code := by
    rw [hidentified]
    split <;> rfl
  have hoptions : identified.message.options = r.message.options := by
    rw [hidentified]
    split <;> rfl
  rw [Responder.address, ← hidentified]
  -- A token takes the place of none, as the response has no option of this name.
  split
  · rename_i token hgiven _
    obtain ⟨o, ho, hoctets⟩ := Option.bind_eq_some_iff.1 (htoken.symm.trans hgiven)
    have hname : o.name = .token := by simpa using List.find?_some ho
    rw [setToken, Opt.octets_token hname hoctets, Edited.toExcept_map, Options.toExcept_replace,
      hcode, hoptions, hname]
    have hmeaning : o.name.occurrence r.message.code = .once := by
      rw [hname, Opt.Name.occurrence, Code.isRequest_of_isResponse r.isResponse, r.isResponse]
      rfl
    -- There is none of the name before, and one option beside it at most, so there is room.
    have hgone : ∀ a ∈ (r.message.options.without [.token]).toList, a.name ≠ .token := fun a ha =>
      h.tokenless a (Options.mem_without.1 ha).1
    have hlength : (r.message.options.without [.token]).length ≤ 1 :=
      (List.length_filter_le _ _).trans h.length_le
    obtain ⟨options, hadd⟩ : ∃ options,
        (r.message.options.without [.token]).add r.message.code o = .ok options := by
      obtain ⟨options, hadd, -⟩ := Options.exists_add_eq_ok (by rw [hmeaning]; decide)
        (fun hthere => (Options.contains_iff.1 hthere.2).elim fun a ha =>
          hgone a ha.1 (ha.2.trans hname))
        (Nat.lt_of_le_of_lt hlength (by decide)) (fun ho => hgone o ho hname)
      exact ⟨options, hadd⟩
    rw [hadd]
    exact ⟨_, rfl, .add rfl (.without _ h.reachable) hadd⟩
  · exact ⟨_, rfl, hoptions ▸ h.reachable⟩

/-- A response whose options were added under its code is legal once type and id are settled. -/
theorem Message.legal_of_isResponse {m : Message} (hversion : m.version = protocolVersion)
    (hresponse : m.code.isResponse) (hreachable : Options.Reachable (· = m.code) m.options)
    (type : MessageType) (id : UInt16) :
    { m with type? := some type, id? := some id }.Legal := by
  refine ⟨hversion, rfl, rfl, ?_, hreachable, fun hempty => ?_⟩
  · rw [Code.isResponse, Bool.and_eq_true, Bool.not_eq_true'] at hresponse
    exact hresponse.1
  · exact absurd (hempty ▸ hresponse : Code.empty.isResponse) (by decide)

/-- A message is a response under a type and an id, with the token of a request if it has one. -/
structure Message.Answers (m' m : Message) (r : Response) (type : MessageType) (id : UInt16) :
    Prop where
  type_eq : m'.type? = some type
  id_eq : m'.id? = some id
  code : m'.code = r.message.code
  payload : m'.payload = r.message.payload
  token : m'.token? = m.token?
  options : m'.options.without [.token] = r.message.options

theorem Response.Plain.answers_of_conveys {r : Response} (h : r.Plain) {answer m : Message}
    (hconveys : answer.Conveys r.message m.token?) (type : MessageType) (id : UInt16) :
    { answer with type? := some type, id? := some id }.Answers m r type id := by
  have hnone : r.message.token? = none := by
    rw [Message.token?, Options.first?, List.find?_eq_none.2 fun o ho hname =>
      h.tokenless o ho (beq_iff_eq.1 hname)]
    rfl
  have hsame : r.message.options.without [.token] = r.message.options := by
    refine Options.ext (List.filter_eq_self.2 fun o ho => ?_)
    rw [List.contains_cons, beq_false_of_ne (h.tokenless o ho)]
    rfl
  refine ⟨rfl, rfl, hconveys.code, hconveys.payload, ?_, hconveys.options.trans hsame⟩
  exact hconveys.token.trans (hnone ▸ Option.none_or)

/-! ### Sending -/

variable {Peer : Type} [DecidableEq Peer]

/-- A message that is not to be acknowledged goes out once, and nothing is remembered of it. -/
theorem Transmission.send_unconfirmed {link : Link} {peer : Peer} {m : Message}
    {type : MessageType} {id : UInt16} {bytes : Bytes} {t : Transmission Peer}
    (htype : m.type? = some type) (hcon : type ≠ .con)
    (hid : m.id? = some id ∨ m.id? = none ∧ t.FirstFree peer id)
    (hencode : { m with id? := some id }.encode = .ok bytes) (hopen : link.isOpen) :
    (t.send link peer m).result = .ok ⟨t.nextTicket, id⟩ ∧
      (t.send link peer m).progress.emissions = [⟨link.now, peer, bytes, some t.nextTicket⟩] ∧
        (t.send link peer m).transmission.records = t.records := by
  have hsendAs : ∀ (t : Transmission Peer) (m : Message), m.encode = .ok bytes →
      t.sendAs link peer type id m = t.dispatch link peer type id bytes := by
    intro t m hencode
    rw [sendAs, if_neg fun h => hcon h.1, hencode]
    exact if_pos hopen
  have hdispatch : ∀ t : Transmission Peer, t.dispatch link peer type id bytes =
      ⟨{ t with nextTicket := t.nextTicket + 1 }, .ok ⟨t.nextTicket, id⟩,
        ⟨[⟨link.now, peer, bytes, t.nextTicket⟩], [⟨link.now, t.nextTicket, .sent⟩]⟩⟩ := by
    intro t
    rw [dispatch, if_neg hcon]
  -- Either it brings its id along, or it gets the first free one and is sent again with it.
  rcases hid with hid | ⟨hid, hfirst⟩
  · have hm : { m with id? := some id } = m := by rw [← hid]
    rw [send_of_id htype hid, hsendAs t m (hm ▸ hencode), hdispatch]
    exact ⟨rfl, rfl, rfl⟩
  · have htype' : { m with id? := some id }.type? = some type := htype
    rw [send_of_firstFree htype hid hfirst, send_of_id htype' rfl, hsendAs _ _ hencode, hdispatch]
    exact ⟨rfl, rfl, rfl⟩

namespace Endpoint

variable {e e' : Endpoint Peer} {effects : Effects Peer} {peer : Peer} {id : UInt16}
  {bytes : Bytes} {m : Message} {directory : Directory} {r : Response}

/-- What it means that an endpoint answers a request at once: one datagram goes out, and neither the
    messages in flight nor the requests that are remembered change. -/
structure Serves (e : Endpoint Peer) (peer : Peer) (bytes : Bytes) (e' : Endpoint Peer)
    (effects : Effects Peer) : Prop where
  emissions : effects.emissions = [⟨e.link.now, peer, bytes, some e.transmission.nextTicket⟩]
  records : ∀ peer id,
    e'.transmission.records.find? peer id = e.transmission.records.find? peer id
  entries : ∀ peer id, e'.reception.entries.find? peer id = e.reception.entries.find? peer id

/-- An endpoint at rest that answered a request at once does nothing else in that step. -/
theorem Serves.settle (h : e.Serves peer bytes e' effects) (hlink : e'.link = e.link)
    (hcalm : e.Calm (.endOf e.link.now)) (hseated : e'.Seated) (answer : Answer Peer) :
    e.Serves peer bytes (e'.settle answer effects).1 (e'.settle answer effects).2.effects := by
  have hcalm' : e'.Calm (.endOf e'.link.now) := by
    rw [hlink]
    exact ⟨fun hr => hcalm.transmission (h.records _ _ ▸ hr),
      fun hr => hlink ▸ hcalm.reception (h.entries _ _ ▸ hr)⟩
  obtain ⟨hemissions, hrecords, hentries⟩ := hcalm'.elapse hseated
  refine ⟨?_, fun _ _ => (hrecords _ _).trans (h.records _ _),
    fun _ _ => (hentries _ _).trans (h.entries _ _)⟩
  rw [effects_settle, ← h.emissions]
  exact (congrArg (effects.emissions ++ ·) hemissions).trans (List.append_nil _)

/-- A request that is not a duplicate is answered at once if the service has the response. -/
theorem receive_of_service (hopen : e.link.isOpen) (hdecode : Message.decode bytes = .ok m)
    (htype : m.type? = some .con ∨ m.type? = some .non) {reception : Reception Peer}
    (hreceive : e.reception.receive e.link peer m = ⟨reception, .forward, []⟩)
    {hcode : m.code.isRequest} (hservice : e.service peer ⟨m, hcode⟩ = some r) :
    let responder := Responder.ofRequest peer ⟨m, hcode⟩
    let out := ({ e with reception }).respond responder r
    e.receive peer bytes = (out.1, { dispatched := [⟨⟨m, hcode⟩, responder⟩] } ++ out.2.1) := by
  intro responder out
  have haccept : e.accept peer m =
      (out.1, { dispatched := [⟨⟨m, hcode⟩, responder⟩] } ++ out.2.1) := by
    -- It is neither an acknowledgement nor a rejection, so the reception has it and hands it on.
    rw [accept]
    split
    · rename_i hack
      rcases htype with htype | htype <;> cases hack.symm.trans htype
    · rename_i hrst
      rcases htype with htype | htype <;> cases hrst.symm.trans htype
    · rw [hreceive]
      dsimp only
      rw [handOn, dif_pos hcode, dispatch]
      dsimp only
      rw [hservice]
      rfl
  rw [receive, if_pos hopen, hdecode]
  exact haccept

/-- Nothing is remembered of a message that is not confirmable. -/
theorem receive_of_non (link : Link) (peer : Peer) (reception : Reception Peer)
    (htype : m.type? = some .non) :
    reception.receive link peer m = ⟨reception, .forward, []⟩ := by
  have hconfirmable : m.isConfirmable = false := by
    rw [Message.isConfirmable, htype]
    rfl
  simp only [Reception.receive, hconfirmable]

/-- What it means that a datagram brings a request that a directory answers, and that the request is
    not remembered. -/
structure Brings (e : Endpoint Peer) (peer : Peer) (bytes : Bytes) (directory : Directory)
    (m : Message) (id : UInt16) (r : Response) : Prop where
  service_eq : e.service = .ofDirectory directory
  isOpen : e.link.isOpen
  decoded : Message.decode bytes = .ok m
  id_eq : m.id? = some id
  isRequest : m.code.isRequest
  respond_eq : directory.respond ⟨m, isRequest⟩ = .ok r
  fresh : e.reception.entries.find? peer id = none

namespace Brings

/-- The response can be addressed to whoever asked. -/
theorem exists_answer (h : e.Brings peer bytes directory m id r) : ∃ answer,
    (Responder.ofRequest peer ⟨m, h.isRequest⟩).address r = .ok answer ∧
      answer.message.Conveys r.message m.token? ∧ answer.message.type? = none ∧
        answer.message.id? = some id ∧ answer.isNotification = false ∧
          ∀ type id', { answer.message with type? := some type, id? := some id' }.Legal := by
  have hplain := Directory.plain_respond h.respond_eq
  let responder := Responder.ofRequest peer ⟨m, h.isRequest⟩
  have htoken : responder.token? = m.token? := rfl
  obtain ⟨answer, haddress, hreachable⟩ := hplain.exists_address responder htoken
  obtain ⟨hconveys, htype, hid, hanswers⟩ := responder.conveys_of_address h.id_eq haddress
  rw [hplain.id_eq] at hid
  refine ⟨answer, haddress, hconveys, htype.trans hplain.type_eq, hid,
    hanswers.trans hplain.answers, ?_⟩
  exact Message.legal_of_isResponse (hconveys.version.trans hplain.version_eq) answer.isResponse
    (hconveys.code ▸ hreachable)

/-- A request that comes in for the first time is handed to the directory. -/
theorem receive_eq (h : e.Brings peer bytes directory m id r) {reception : Reception Peer}
    (htype : m.type? = some .con ∨ m.type? = some .non)
    (hreceive : e.reception.receive e.link peer m = ⟨reception, .forward, []⟩) :
    let responder := Responder.ofRequest peer ⟨m, h.isRequest⟩
    let out := ({ e with reception }).respond responder r
    e.receive peer bytes =
      (out.1, { dispatched := [⟨⟨m, h.isRequest⟩, responder⟩] } ++ out.2.1) := by
  refine receive_of_service h.isOpen h.decoded htype hreceive ?_
  rw [h.service_eq, Service.ofDirectory, h.respond_eq]
  rfl

/-- A request is answered at once if its response is not to be acknowledged. -/
theorem serves (h : e.Brings peer bytes directory m id r) (hseated : e.Seated)
    (hcalm : e.Calm (.endOf e.link.now)) {reception : Reception Peer}
    (htype : m.type? = some .con ∨ m.type? = some .non)
    (hreceive : e.reception.receive e.link peer m = ⟨reception, .forward, []⟩) {answer : Response}
    (haddress : (Responder.ofRequest peer ⟨m, h.isRequest⟩).address r = .ok answer)
    (huntyped : answer.message.type? = none) (hown : answer.message.id? = some id)
    (hkept : ∀ peer' id', ¬(peer' = peer ∧ id' = id) →
      reception.entries.find? peer' id' = e.reception.entries.find? peer' id')
    (settled : Message) {type : MessageType} {id' : UInt16} {bytes' : Bytes}
    (hsettled : (Reception.settle (reception.pending? peer answer) answer).message = settled)
    (hreply : settled.type? = some type) (hcon : type ≠ .con)
    (hid : settled.id? = some id' ∨ settled.id? = none ∧ e.transmission.FirstFree peer id')
    (hencode : { settled with id? := some id' }.encode = .ok bytes') :
    e.Serves peer bytes' (e.step (.datagram peer bytes)).1
      (e.step (.datagram peer bytes)).2.effects := by
  obtain ⟨-, hemissions, hrecords⟩ :=
    Transmission.send_unconfirmed hreply hcon hid hencode h.isOpen
  -- The request was not remembered before, and is not any more.
  have hentries : ∀ peer' id', (reception.answered peer answer).entries.find? peer' id' =
      e.reception.entries.find? peer' id' := by
    intro peer' id'
    rw [Reception.find?_answered, hown]
    split
    · rename_i hkey
      rw [hkey.1, ← Option.some.inj hkey.2, h.fresh]
    · rename_i hother
      exact hkept peer' id' fun hkey => hother ⟨hkey.1, congrArg some hkey.2.symm⟩
  have hserves : e.Serves peer bytes' (e.receive peer bytes).1 (e.receive peer bytes).2 := by
    rw [h.receive_eq htype hreceive, Endpoint.respond_eq haddress huntyped]
    refine ⟨?_, fun _ _ => ?_, hentries⟩
    · rw [← hemissions, ← hsettled]
      rfl
    · rw [← hrecords, ← hsettled]
      rfl
  have hlink : (e.receive peer bytes).1.link = e.link := by
    rw [h.receive_eq htype hreceive]
    exact (proceeds_respond _ r { e with reception }).link_eq
  rw [step_datagram]
  exact hserves.settle hlink hcalm (hseated.spares_receive 0 peer bytes).seated _

/-- A confirmable request is acknowledged by the response. -/
theorem serves_con (h : e.Brings peer bytes directory m id r) (hseated : e.Seated)
    (hcalm : e.Calm (.endOf e.link.now)) (htype : m.type? = some .con) {answer : Response}
    (haddress : (Responder.ofRequest peer ⟨m, h.isRequest⟩).address r = .ok answer)
    (huntyped : answer.message.type? = none) (hid : answer.message.id? = some id) {bytes' : Bytes}
    (hencode : { answer.message with type? := some .ack, id? := some id }.encode = .ok bytes') :
    e.Serves peer bytes' (e.step (.datagram peer bytes)).1
      (e.step (.datagram peer bytes)).2.effects := by
  have hreceive : e.reception.receive e.link peer m =
      ⟨⟨e.reception.entries.insert peer id ⟨e.link.now, false⟩⟩, .forward, []⟩ := by
    -- No request is remembered under the id, so this one is put there.
    have hfree : ¬e.reception.entries.contains peer id := by
      rw [Ledger.contains, h.fresh]
      exact Bool.false_ne_true
    have hconfirmable : m.isConfirmable = true := by
      rw [Message.isConfirmable, htype]
      rfl
    simp only [Reception.receive, hconfirmable, h.id_eq, h.isRequest, Bool.not_true,
      Bool.false_eq_true, if_false, if_neg hfree]
  refine h.serves hseated hcalm (.inl htype) hreceive haddress huntyped hid
    (fun peer' id' hother => ?_) (answer.setType (some .ack)).message ?_ rfl (by decide) (.inl hid)
    hencode
  · rw [Ledger.find?_insert, if_neg hother]
  · -- The entry that was just put there has not been acknowledged: the response is the
    -- acknowledgement.
    rw [Reception.pending?, hid, Option.bind_some, Ledger.find?_insert, if_pos ⟨rfl, rfl⟩,
      Reception.settle, if_neg Bool.false_ne_true]

/-- A request that is not confirmable is answered by a message with an id of its own. -/
theorem serves_non (h : e.Brings peer bytes directory m id r) (hseated : e.Seated)
    (hcalm : e.Calm (.endOf e.link.now)) (htype : m.type? = some .non) {answer : Response}
    (haddress : (Responder.ofRequest peer ⟨m, h.isRequest⟩).address r = .ok answer)
    (huntyped : answer.message.type? = none) (hid : answer.message.id? = some id)
    (hanswers : answer.isNotification = false) {id' : UInt16}
    (hfirst : e.transmission.FirstFree peer id') {bytes' : Bytes}
    (hencode : { answer.message with type? := some .non, id? := some id' }.encode = .ok bytes') :
    e.Serves peer bytes' (e.step (.datagram peer bytes)).1
      (e.step (.datagram peer bytes)).2.effects := by
  have hreceive := receive_of_non e.link peer e.reception htype
  -- Nothing is remembered under the id: the response goes out in a message of its own.
  have hpending : e.reception.pending? peer answer = none := by
    rw [Reception.pending?, hid, Option.bind_some, h.fresh]
  refine h.serves hseated hcalm (.inr htype) hreceive haddress huntyped hid (fun _ _ _ => rfl)
    { answer.message with type? := some .non, id? := none } ?_ rfl (by decide)
    (.inr ⟨rfl, hfirst⟩) hencode
  rw [hpending, Reception.settle, Reception.separate, hanswers, if_neg Bool.false_ne_true]
  rfl

end Brings

/-- What becomes of a request that comes in after a run, if the directory can answer it and it is
    not remembered. One datagram goes out at once (`Serves`), and it holds the response. The answer
    to a confirmable request is its acknowledgement: every bare one that is sent later is prompted
    by a message that comes in later, and when the same datagram comes in again, and the request is
    not remembered, the same bytes go out. The answer to any other request has a new id. -/
theorem serving (directory : Directory) (responseTimeout : Nat) (link : Link) (draws : Draws)
    (before : List (Event Peer)) (hrequest : m.code.isRequest) :
    let start : Endpoint Peer :=
      { service := .ofDirectory directory, responseTimeout, link, transmission := { draws } }
    let e := (start.run before).1
    let out := e.step (.datagram peer bytes)
    e.link.isOpen → Message.decode bytes = .ok m → m.id? = some id →
      directory.respond ⟨m, hrequest⟩ = .ok r → e.reception.entries.find? peer id = none →
        (m.type? = some .con → ∃ bytes' m', Message.decode bytes' = .ok m' ∧
          m'.Answers m r .ack id ∧ e.Serves peer bytes' out.1 out.2.effects ∧
            out.1.reception.entries.find? peer id = none ∧
            (∀ after, ∀ x ∈ (total (out.1.run after).2).emissions, x.IsBareAck peer id →
              out.1.Prompted after peer id x.time) ∧
            ∀ after, let last := (out.1.run after).1
              last.link.isOpen → last.reception.entries.find? peer id = none →
                last.Serves peer bytes' (last.step (.datagram peer bytes)).1
                  (last.step (.datagram peer bytes)).2.effects) ∧
        (m.type? = some .non → (∃ id', e.transmission.records.contains peer id' = false) →
          ∃ bytes' m' id', Message.decode bytes' = .ok m' ∧ m'.Answers m r .non id' ∧
            e.transmission.FirstFree peer id' ∧ e.Serves peer bytes' out.1 out.2.effects) := by
  intro start e out hopen hdecode hid hrespond hfresh
  have hplain := Directory.plain_respond hrespond
  have hbrings : ∀ events, let last := (start.run events).1
      last.link.isOpen → last.reception.entries.find? peer id = none →
        last.Brings peer bytes directory m id r := fun events hopen hfresh =>
    ⟨(start.settled_run events).service, hopen, hdecode, hid, hrequest, hrespond, hfresh⟩
  have hseated := seated_run (.ofDirectory directory : Service Peer) responseTimeout link draws
  have hcalm := calm_run (.ofDirectory directory : Service Peer) responseTimeout link draws
  obtain ⟨answer, haddress, hconveys, huntyped, hown, hanswers, hlegal⟩ :=
    (hbrings before hopen hfresh).exists_answer
  constructor
  · intro htype
    obtain ⟨_, _, -, -, -, hencode⟩ := (hlegal .ack id).encode_eq_ok
    -- Stated for any run, as the same datagram comes in twice: here, and again after some other
    -- events.
    have hserves : ∀ events, let last := (start.run events).1
        last.link.isOpen → last.reception.entries.find? peer id = none → last.Serves peer _
          (last.step (.datagram peer bytes)).1 (last.step (.datagram peer bytes)).2.effects :=
      fun events hopen hfresh => (hbrings events hopen hfresh).serves_con (hseated events)
        (hcalm events) htype haddress huntyped hown hencode
    have hforgotten : out.1.reception.entries.find? peer id = none :=
      ((hserves before hopen hfresh).entries peer id).trans hfresh
    refine ⟨_, _, (hlegal .ack id).decode_of_encode hencode, hplain.answers_of_conveys hconveys _ _,
      hserves before hopen hfresh, hforgotten, fun after => (prompted_run hforgotten after).1,
      fun after => ?_⟩
    -- What follows the request is a run from the start as well.
    have hlast : (start.run (before ++ .datagram peer bytes :: after)).1 = (out.1.run after).1 :=
      start.run_split before _ after
    rw [← hlast]
    exact hserves (before ++ .datagram peer bytes :: after)
  · -- A new id is there by assumption, and the response fits in a message with it.
    intro htype hfree
    obtain ⟨id', hfirst⟩ := Transmission.exists_firstFree hfree
    obtain ⟨_, _, -, -, -, hencode⟩ := (hlegal .non id').encode_eq_ok
    exact ⟨_, _, id', (hlegal .non id').decode_of_encode hencode,
      hplain.answers_of_conveys hconveys _ _, hfirst,
      (hbrings before hopen hfresh).serves_non (hseated before) (hcalm before) htype haddress
        huntyped hown hanswers hfirst hencode⟩

/-- A confirmable GET with the token 7 for the only resource there is. -/
theorem serving_get :
    let directory : Directory := ⟨[("/", ⟨[0x68, 0x69], 0⟩)], List.pairwise_singleton _ _⟩
    let get : Message :=
      { type? := some .con, code := .get, id? := some 0x1234,
        options := ⟨[⟨.token, .octets [7], rfl, by decide, trivial⟩], by decide, by decide,
          by decide⟩ }
    let content : Response :=
      ⟨{ type? := none, code := .content, id? := none,
         options := ⟨[⟨.contentType, .uint 0 0, rfl, by decide, by decide⟩], by decide, by decide,
          by decide⟩
         payload := [0x68, 0x69] }, false, rfl⟩
    let bytes : Bytes := [0x41, 1, 0x12, 0x34, 0xb1, 7]
    let start : Endpoint Unit := { service := .ofDirectory directory }
    let out := start.step (.datagram () bytes)
    Message.decode bytes = .ok get ∧ directory.respond ⟨get, rfl⟩ = .ok content ∧
      ∃ bytes' m', Message.decode bytes' = .ok m' ∧
        m'.Answers get content .ack 0x1234 ∧
          start.Serves () bytes' out.1 out.2.effects ∧
            out.1.Serves () bytes' (out.1.step (.datagram () bytes)).1
              (out.1.step (.datagram () bytes)).2.effects := by
  intro directory get content bytes start out
  have hdecode : Message.decode bytes = .ok get := by decide +kernel
  have hrespond : directory.respond ⟨get, rfl⟩ = .ok content := by decide +kernel
  have hfresh : start.reception.entries.find? () 0x1234 = none := rfl
  -- Unfolded, these would be evaluated again in every step below.
  clear_value bytes content directory
  obtain ⟨bytes', m', hdecode', hanswers, hserves, hforgotten, -, hagain⟩ :=
    (serving directory 10000 {} {} [] rfl rfl hdecode rfl hrespond hfresh).1 rfl
  change start.Serves () bytes' out.1 out.2.effects at hserves
  change out.1.reception.entries.find? () 0x1234 = none at hforgotten
  change ∀ after, (out.1.run after).1.link.isOpen →
    (out.1.run after).1.reception.entries.find? () 0x1234 = none →
      (out.1.run after).1.Serves () bytes' ((out.1.run after).1.step (.datagram () bytes)).1
        ((out.1.run after).1.step (.datagram () bytes)).2.effects at hagain
  have hopen : out.1.link.isOpen := by
    rw [link_step]
    rfl
  clear_value out start
  refine ⟨hdecode, hrespond, bytes', m', hdecode', hanswers, hserves, ?_⟩
  exact hagain [] hopen hforgotten

end Endpoint

end Coap
