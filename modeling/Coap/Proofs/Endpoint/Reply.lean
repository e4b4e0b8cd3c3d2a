import Coap.Proofs.Delivery.Allocation
import Coap.Proofs.Endpoint.Rest
import Coap.Proofs.Endpoint.Token
import Coap.Proofs.Time.Timeout

/-!
# Responses that are sent

A response says what it is made to say, with the token of its request unless it has one of its own
(`Message.Conveys`). Its type depends on what the peer was told about the request before: nothing,
that it arrived, or nothing yet (`Reception.replyType`). In the last case the response is the
acknowledgement, so that the endpoint owes none any more.

* `Responder.conveys_of_address`: a response that is addressed is the same response;
* `Transmission.id_of_send`: the id that a message gets which is accepted;
* `Endpoint.replies`: what an endpoint at rest does to send a response;
* `Endpoint.reply`: what becomes of the responses that are sent in a run.
-/

namespace Coap

/-! ### Tokens -/

/-- Putting in a token changes no other option. -/
theorem Options.replace_token {options : Options} {code : Code} {token : Bytes}
    (h : (options.replace code (Opt.octets .token token)).fault? = none) :
    let options' := (options.replace code (Opt.octets .token token)).value
    (options'.first? .token).bind Opt.octets? = some token ∧
      options'.without [.token] = options.without [.token] := by
  obtain ⟨o, ho⟩ := exists_of_replace_done h
  obtain ⟨hname, hvalue⟩ := Opt.octets_eq_ok_iff.1 ho
  rw [ho] at h ⊢
  obtain ⟨hvalues, hothers⟩ := replace_of_done h
  rw [hname] at hvalues hothers
  refine ⟨?_, hothers⟩
  rw [first?_eq_head?_values, hvalues]
  simp [Opt.octets?, hvalue]

/-- A message says what another one says, with a token if that one has none. -/
structure Message.Conveys (m m' : Message) (token? : Option Bytes) : Prop where
  version : m.version = m'.version
  code : m.code = m'.code
  payload : m.payload = m'.payload
  token : m.token? = m'.token?.or token?
  options : m.options.without [.token] = m'.options.without [.token]
  /-- No option changes if no token is needed. -/
  unchanged : m'.token?.isSome ∨ token? = none → m.options = m'.options

theorem Message.conveys_refl (m : Message) {token? : Option Bytes}
    (h : m.token?.isSome ∨ token? = none) : m.Conveys m token? := by
  refine ⟨rfl, rfl, rfl, ?_, rfl, fun _ => rfl⟩
  rcases h with h | rfl
  · obtain ⟨token, htoken⟩ := Option.isSome_iff_exists.1 h
    rw [htoken, Option.some_or]
  · rw [Option.or_none]

/-- Type and id have nothing to do with what a message says. -/
theorem Message.Conveys.with {m m' : Message} {token? : Option Bytes} (h : m.Conveys m' token?)
    (type? : Option MessageType) (id? : Option UInt16) :
    { m with type?, id? }.Conveys m' token? :=
  ⟨h.version, h.code, h.payload, h.token, h.options, h.unchanged⟩

/-- A response that has no token is the same response with one. -/
theorem Response.conveys_setToken {response response' : Response} {token : Bytes}
    (hnone : response.message.token? = none)
    (h : (response.setToken token).toExcept = .ok response') :
    response'.message.Conveys response.message (some token) ∧
      response'.message.type? = response.message.type? ∧
        response'.message.id? = response.message.id? ∧
          response'.isNotification = response.isNotification := by
  rw [setToken, Edited.toExcept] at h
  split at h
  · rename_i hfault
    obtain rfl := Except.ok.inj h
    obtain ⟨hset, hrest⟩ := Options.replace_token hfault
    refine ⟨⟨rfl, rfl, rfl, ?_, hrest, fun hsame => ?_⟩, rfl, rfl, rfl⟩
    · rw [hnone, Option.none_or]
      exact hset
    · -- A token was needed and given, so there is nothing to show here.
      rw [hnone] at hsame
      rcases hsame with hsame | hsame <;> cases hsame
  · cases h

variable {Peer : Type}

/-- A response that is addressed is the same response, with an id and a token. -/
theorem Responder.conveys_of_address (responder : Responder Peer) {response response' : Response}
    {q : UInt16} (hid : responder.id? = some q) (h : responder.address response = .ok response') :
    response'.message.Conveys response.message responder.token? ∧
      response'.message.type? = response.message.type? ∧
        response'.message.id? = some (response.message.id?.getD q) ∧
          response'.isNotification = response.isNotification := by
  -- The id is settled first, then the token.
  obtain ⟨identified, hidentified⟩ : ∃ identified : Response, identified =
      if response.message.id?.isNone then response.setId responder.id? else response := ⟨_, rfl⟩
  have hmessage : identified.message =
      { response.message with id? := some (response.message.id?.getD q) } := by
    rw [hidentified]
    cases hown : response.message.id? with
    | none =>
      rw [Option.isNone_none, if_pos rfl, hid]
      rfl
    | some id =>
      rw [Option.isNone_some, if_neg Bool.false_ne_true, Option.getD_some, ← hown]
  have hnotification : identified.isNotification = response.isNotification := by
    rw [hidentified]
    split <;> rfl
  have htoken : identified.message.token? = response.message.token? := by rw [hmessage]; rfl
  rw [Responder.address, ← hidentified] at h
  split at h
  · rename_i token hgiven hnone
    obtain ⟨hconveys, htype, hid', hsame⟩ := Response.conveys_setToken hnone h
    rw [hmessage] at hconveys htype hid'
    obtain ⟨version, code, payload, token, options, unchanged⟩ := hconveys
    rw [hgiven]
    exact ⟨⟨version, code, payload, token, options, unchanged⟩, htype, hid',
      hsame.trans hnotification⟩
  · rename_i hnot
    obtain rfl := Except.ok.inj h
    have hneeds : response.message.token?.isSome ∨ responder.token? = none := by
      cases hgiven : responder.token? with
      | none => exact .inr rfl
      | some token =>
        cases hown : response.message.token? with
        | none => exact absurd (htoken.trans hown) (hnot token hgiven)
        | some own => exact .inl rfl
    rw [hmessage]
    exact ⟨(response.message.conveys_refl hneeds).with _ _, rfl, rfl, hnotification⟩

/-! ### Sending -/

namespace Reception

/-- The type of a response, by what the peer was told about the request. -/
def replyType : Option Entry → MessageType
  | none => .non
  | some entry => if entry.acknowledged then .con else .ack

/-- A response keeps its id if it is the acknowledgement or a notification. -/
theorem settle_message (pending? : Option Entry) (response : Response) :
    (settle pending? response).message =
      { response.message with
        type? := some (replyType pending?)
        id? := if replyType pending? = .ack ∨ response.isNotification then response.message.id?
          else none } := by
  -- A response in a message of its own keeps its id just if it is a notification.
  have hseparate : ∀ type ≠ .ack, (separate type response).message =
      { response.message with
        type? := some type
        id? := if type = .ack ∨ response.isNotification then response.message.id? else none } := by
    intro type htype
    rw [separate]
    by_cases hnotification : response.isNotification
    · rw [if_pos hnotification, if_pos (.inr hnotification)]
      rfl
    · rw [if_neg hnotification, if_neg fun h => h.elim htype hnotification]
      rfl
  -- Without an entry it goes unconfirmed. With one, the flag tells whether an acknowledgement went
  -- out.
  cases pending? with
  | none => exact hseparate .non (by decide)
  | some entry =>
    rw [settle, replyType]
    split
    · exact hseparate .con (by decide)
    · rw [if_pos (.inl rfl)]
      rfl

end Reception

namespace Transmission

variable [DecidableEq Peer] {link : Link} {peer : Peer} {m : Message} {t : Transmission Peer}
  {receipt : Receipt}

omit [DecidableEq Peer] in
theorem isNegative_jitter {draws : Draws} (h : ∀ u ∈ draws.jitter, u.isNegative = false)
    (timing : Timing) : (jitter timing draws).1.isNegative = false := by
  rw [jitter]
  split
  · rw [Draws.nextJitter]
    split
    · rfl
    · rename_i u jitter hdraws
      exact h u (hdraws ▸ List.mem_cons_self)
  · rfl

theorem id_of_sendAs {type : MessageType} {id : UInt16}
    (h : (t.sendAs link peer type id m).result = .ok receipt) : receipt.id = id := by
  -- The parts of the message are checked one after the other. If all fit, the id is passed on as it
  -- is.
  rw [sendAs] at h
  split at h
  · cases h
  · split at h
    · cases h
    · split at h
      · rw [dispatch] at h
        dsimp only at h
        split at h
        · split at h
          · cases h
          · exact (Except.ok.inj h) ▸ rfl
        · exact (Except.ok.inj h) ▸ rfl
      · cases h

/-- The id of a message that is accepted: its own, or else the first free one. -/
theorem id_of_send (h : (t.send link peer m).result = .ok receipt) :
    (∀ id, m.id? = some id → receipt.id = id) ∧ (m.id? = none → t.FirstFree peer receipt.id) := by
  -- Without a type nothing is sent. Otherwise the id is the one of the message, or one is looked
  -- for.
  cases htype : m.type? with
  | none =>
    simp only [send, htype] at h
    cases h
  | some type =>
    cases hid : m.id? with
    | some id =>
      rw [send_of_id htype hid] at h
      refine ⟨fun id' hid' => ?_, fun hnone => ?_⟩
      · obtain rfl := Option.some.inj hid'
        exact id_of_sendAs h
      · cases hnone
    | none =>
      refine ⟨fun id' hid' => ?_, fun _ => ?_⟩
      · cases hid'
      by_cases hfree : ∃ id, t.records.contains peer id = false
      · obtain ⟨id, hfirst⟩ := exists_firstFree hfree
        have htype' : { m with id? := some id }.type? = some type := htype
        rw [send_of_firstFree htype hid hfirst, send_of_id htype' rfl] at h
        exact id_of_sendAs h ▸ hfirst
      · -- Had all ids been taken, the message would have been refused.
        have htaken : ∀ id, t.records.contains peer id = true := fun id =>
          Decidable.byContradiction fun hid' => hfree ⟨id, Bool.eq_false_iff.2 hid'⟩
        rw [send_of_exhausted htype hid htaken] at h
        cases h

/-- What goes out when a message is accepted, and what is in flight then. -/
theorem Accepts.datagram {sent : Sent Peer} (h : t.Accepts link peer m sent)
    (hresult : sent.result = .ok receipt) :
    ∃ bytes, { m with id? := some receipt.id }.encode = .ok bytes ∧
      sent.progress.emissions = [⟨link.now, peer, bytes, some receipt.ticket⟩] ∧
        (m.type? = some .con → ∃ backoff,
          Backoff.start? link.timing (jitter link.timing t.draws).1 = some backoff ∧
            sent.transmission.records.find? peer receipt.id =
              some (.start receipt.ticket bytes backoff link.now)) ∧
          ∀ peer' id', ¬(m.type? = some .con ∧ peer' = peer ∧ id' = receipt.id) →
            sent.transmission.records.find? peer' id' = t.records.find? peer' id' := by
  -- The record is told by the way in which the message was accepted.
  cases h with
  | once type_eq unconfirmed encoded records next =>
    obtain rfl := Except.ok.inj hresult
    refine ⟨_, encoded, rfl, fun hcon => ?_, fun peer' id' _ => ?_⟩
    · exact absurd (Option.some.inj (type_eq.symm.trans hcon)) unconfirmed
    · exact congrArg (Ledger.find? · peer' id') records
  | start type_eq encoded free drawn records next =>
    obtain rfl := Except.ok.inj hresult
    refine ⟨_, encoded, rfl, fun _ => ⟨_, drawn, ?_⟩, fun peer' id' hother => ?_⟩
    · rw [records, Ledger.find?_insert, if_pos ⟨rfl, rfl⟩]
    · rw [records, Ledger.find?_insert, if_neg fun hkey => hother ⟨type_eq, hkey⟩]

end Transmission

namespace Endpoint

variable [DecidableEq Peer] {e : Endpoint Peer} {responder : Responder Peer} {response : Response}
  {receipt : Receipt} {q : UInt16}

/-- What an endpoint does to send a response to the request with an id: exactly one datagram goes
    out, which holds a message. -/
structure Replies (e : Endpoint Peer) (peer : Peer) (response : Response) (id : UInt16)
    (token? : Option Bytes) (receipt : Receipt) (m : Message) (bytes : Bytes) (e' : Endpoint Peer)
    (effects : Effects Peer) : Prop where
  conveys : m.Conveys response.message token?
  type_eq : m.type? = some (Reception.replyType (e.reception.entries.find? peer id))
  id_eq : m.id? = some receipt.id
  encoded : m.encode = .ok bytes
  emissions : effects.emissions = [⟨e.link.now, peer, bytes, some receipt.ticket⟩]
  /-- An acknowledgement and a notification keep the id of the request. -/
  kept : m.type? = some .ack ∨ response.isNotification → receipt.id = id
  /-- Any other response gets a new one. -/
  allocated : m.type? ≠ some .ack → response.isNotification = false →
    e.transmission.FirstFree peer receipt.id
  /-- A confirmable response is in flight then. -/
  flies : m.type? = some .con → ∃ backoff,
    Backoff.start? e.link.timing (Transmission.jitter e.link.timing e.transmission.draws).1 =
      some backoff ∧
    e'.transmission.records.find? peer receipt.id =
      some (.start receipt.ticket bytes backoff e.link.now)
  records : ∀ peer' id', ¬(m.type? = some .con ∧ peer' = peer ∧ id' = receipt.id) →
    e'.transmission.records.find? peer' id' = e.transmission.records.find? peer' id'
  /-- The request is not remembered any more, and all others are as before. -/
  entries : ∀ peer' id', e'.reception.entries.find? peer' id' =
    if peer' = peer ∧ id' = id then none else e.reception.entries.find? peer' id'

theorem respond_eq {response' : Response} (haddress : responder.address response = .ok response')
    (htype : response'.message.type? = none) :
    let final := Reception.settle (e.reception.pending? responder.peer response') response'
    let sent := e.transmission.send e.link responder.peer final.message
    e.respond responder response =
      ({ e with
          reception := e.reception.answered responder.peer response'
          transmission := sent.transmission },
        { emissions := sent.progress.emissions }, sent.result) := by
  rw [respond, haddress]
  dsimp only
  rw [Reception.prepare, htype]

theorem replies_respond (hid : responder.id? = some q) (htype : response.message.type? = none)
    (h : (e.respond responder response).2.2 = .ok receipt) :
    ∃ m bytes, e.Replies responder.peer response (response.message.id?.getD q) responder.token?
      receipt m bytes (e.respond responder response).1 (e.respond responder response).2.1 := by
  cases haddress : responder.address response with
  | error fault =>
    rw [respond, haddress] at h
    cases h
  | ok response' =>
    obtain ⟨hconveys, htype', hid', hnotification⟩ :=
      responder.conveys_of_address hid haddress
    have hentry : e.reception.pending? responder.peer response' =
        e.reception.entries.find? responder.peer (response.message.id?.getD q) := by
      rw [Reception.pending?, hid']
      rfl
    -- The response is settled by what was remembered when it was given, and sent as a message of
    -- this type.
    rw [respond_eq haddress (htype'.trans htype)] at h ⊢
    rw [hentry] at h ⊢
    generalize hentry? : e.reception.entries.find? responder.peer (response.message.id?.getD q) =
      entry? at h ⊢
    have hfinal := Reception.settle_message entry? response'
    rw [hid', hnotification] at hfinal
    generalize (Reception.settle entry? response').message = final at h hfinal ⊢
    have hsays : final.Conveys response.message responder.token? := by
      rw [hfinal]
      exact hconveys.with _ _
    have hreply : final.type? = some (Reception.replyType entry?) := by rw [hfinal]
    obtain ⟨hown, hfirst⟩ := Transmission.id_of_send h
    -- What has an id keeps it, and everything else gets the first free one.
    have hkept : final.type? = some .ack ∨ response.isNotification →
        receipt.id = response.message.id?.getD q := by
      intro hkeeps
      refine hown _ ?_
      rw [hreply, Option.some.injEq] at hkeeps
      rw [hfinal]
      exact if_pos hkeeps
    have hallocated : final.type? ≠ some .ack → response.isNotification = false →
        e.transmission.FirstFree responder.peer receipt.id := by
      intro hack hanswer
      refine hfirst ?_
      rw [hreply, ne_eq, Option.some.injEq] at hack
      rw [hfinal]
      exact if_neg fun hkeeps => hkeeps.elim hack (Bool.eq_false_iff.1 hanswer)
    rcases e.transmission.send_cases e.link responder.peer final with
      ⟨⟨failure, hrefused⟩, -⟩ | haccepts
    · cases h.symm.trans hrefused
    obtain ⟨bytes, hencoded, hemissions, hflies, hrecords⟩ := haccepts.datagram h
    refine ⟨_, bytes, hsays.with final.type? (some receipt.id), hentry? ▸ hreply, rfl, hencoded,
      hemissions, hkept, hallocated, hflies, hrecords, fun peer' id' => ?_⟩
    rw [e.reception.find?_answered, hid']
    simp only [Option.some.injEq, eq_comm]

/-! ### The rest of the step -/

variable {e' : Endpoint Peer} {effects : Effects Peer} {peer : Peer} {id : UInt16}
  {token? : Option Bytes} {m : Message} {bytes : Bytes}

/-- A response makes no bare acknowledgement due. -/
theorem Replies.calm_reception
    (h : e.Replies peer response id token? receipt m bytes e' effects) (hlink : e'.link = e.link)
    (hcalm : e.Calm (.endOf e.link.now)) {peer' : Peer} {id' : UInt16} {entry : Reception.Entry}
    (hr : e'.reception.entries.find? peer' id' = some entry) :
    entry.fires e'.link.timing (.endOf e'.link.now) = false := by
  rw [h.entries] at hr
  split at hr
  · cases hr
  · rw [hlink]
    exact hcalm.reception hr

/-- After a response was sent an endpoint is at rest, as its first time-out takes its time. -/
theorem Replies.calm
    (h : e.Replies peer response id token? receipt m bytes e' effects) (hlink : e'.link = e.link)
    (hcalm : e.Calm (.endOf e.link.now)) (htimeout : 0 < e.link.timing.ackTimeout)
    (hdraws : ∀ u ∈ e.transmission.draws.jitter, u.isNegative = false) :
    e'.Calm (.endOf e'.link.now) := by
  refine ⟨?_, h.calm_reception hlink hcalm⟩
  rw [hlink]
  intro peer' id' record hr
  -- The new record waits for its first time-out. All others were there and at rest.
  by_cases hnew : m.type? = some .con ∧ peer' = peer ∧ id' = receipt.id
  · obtain ⟨hcon, rfl, rfl⟩ := hnew
    obtain ⟨backoff, hdrawn, hfound⟩ := h.flies hcon
    obtain rfl := Option.some.inj (hfound.symm.trans hr)
    have hpos := Backoff.nanoseconds_pos_of_start? htimeout
      (Transmission.isNegative_jitter hdraws e.link.timing) hdrawn
    -- A time-out that is longer than nothing is not over at once, even if it is rounded.
    have hwait : 0 < backoff.current.ceilMillis := by
      rw [Duration.ceilMillis]
      omega
    intro timer ht hbefore
    obtain rfl := Option.some.inj ht
    have hdue : e.link.now < (Timer.after e.link.now backoff.current.ceilMillis).due :=
      Nat.lt_add_of_pos_right (Nat.lt_min.2 ⟨hwait, by decide⟩)
    exact Nat.not_le.2 hdue (Timer.before_endOf.1 hbefore)
  · exact hcalm.transmission (h.records peer' id' hnew ▸ hr)

/-- A response that is not to be acknowledged has no time-out. -/
theorem Replies.calm_of_unconfirmed
    (h : e.Replies peer response id token? receipt m bytes e' effects) (hlink : e'.link = e.link)
    (hcalm : e.Calm (.endOf e.link.now)) (hcon : m.type? ≠ some .con) :
    e'.Calm (.endOf e'.link.now) := by
  refine ⟨?_, h.calm_reception hlink hcalm⟩
  rw [hlink]
  intro peer' id' record hr
  exact hcalm.transmission (h.records peer' id' (fun hnew => hcon hnew.1) ▸ hr)

/-- What an endpoint at rest does in the rest of a step adds nothing. -/
theorem Replies.settle
    (h : e.Replies peer response id token? receipt m bytes e' effects)
    (hcalm : e'.Calm (.endOf e'.link.now)) (hseated : e'.Seated) (answer : Answer Peer) :
    e.Replies peer response id token? receipt m bytes (e'.settle answer effects).1
      (e'.settle answer effects).2.effects := by
  obtain ⟨hemissions, hrecords, hentries⟩ := hcalm.elapse hseated
  refine ⟨h.conveys, h.type_eq, h.id_eq, h.encoded, ?_, h.kept, h.allocated, fun hcon => ?_,
    fun peer' id' hother => (hrecords peer' id').trans (h.records peer' id' hother),
    fun peer' id' => (hentries peer' id').trans (h.entries peer' id')⟩
  · rw [effects_settle, ← h.emissions]
    exact (congrArg (effects.emissions ++ ·) hemissions).trans (List.append_nil _)
  · obtain ⟨backoff, hdrawn, hfound⟩ := h.flies hcon
    exact ⟨backoff, hdrawn, (hrecords _ _).trans hfound⟩

/-- What an endpoint at rest does to send a response. -/
theorem replies (hseated : e.Seated) (hcalm : e.Calm (.endOf e.link.now))
    (htimeout : 0 < e.link.timing.ackTimeout)
    (hdraws : ∀ u ∈ e.transmission.draws.jitter, u.isNegative = false)
    (hid : responder.id? = some q) (htype : response.message.type? = none)
    (h : (e.step (.respond responder response)).2.answer = .responded (.ok receipt)) :
    ∃ m bytes, e.Replies responder.peer response (response.message.id?.getD q) responder.token?
      receipt m bytes (e.step (.respond responder response)).1
        (e.step (.respond responder response)).2.effects := by
  rw [step_respond] at h ⊢
  obtain ⟨m, bytes, hreplies⟩ := replies_respond hid htype (Answer.responded.inj h)
  have hlink := (proceeds_respond responder response e).link_eq
  exact ⟨m, bytes, hreplies.settle (hreplies.calm hlink hcalm htimeout hdraws)
    (hseated.spares_respond 0 responder response).seated _⟩

/-! ### Runs -/

/-- What becomes of a response without a type that is sent to a request with the id `q`. Exactly one
    datagram goes out, with what the response says and the token of the request (`Replies`). The
    request is not remembered any more, so every bare acknowledgement of it that is sent later is
    prompted by a message that comes in later. -/
theorem reply (service : Service Peer) (responseTimeout : Nat) (link : Link) (draws : Draws)
    (events : List (Event Peer)) {responder : Responder Peer} {response : Response}
    {receipt : Receipt} {q : UInt16} :
    let start : Endpoint Peer := { service, responseTimeout, link, transmission := { draws } }
    let e := (start.run events).1
    let out := e.step (.respond responder response)
    let id := response.message.id?.getD q
    0 < link.timing.ackTimeout → (∀ u ∈ draws.jitter, u.isNegative = false) →
      responder.id? = some q → response.message.type? = none →
        out.2.answer = .responded (.ok receipt) →
          (∃ m bytes, e.Replies responder.peer response id responder.token? receipt m bytes out.1
            out.2.effects) ∧
          ∀ after, ∀ x ∈ (total (out.1.run after).2).emissions, x.IsBareAck responder.peer id →
            out.1.Prompted after responder.peer id x.time := by
  intro start e out id htimeout hdraws hid htype hanswer
  have hsettled : start.Settled e := start.settled_run events
  have htimeout' : 0 < e.link.timing.ackTimeout := by
    rw [hsettled.timing]
    exact htimeout
  obtain ⟨m, bytes, hreplies⟩ := replies
    (seated_run service responseTimeout link draws events)
    (calm_run service responseTimeout link draws events) htimeout'
    (fun u hu => hdraws u (hsettled.draws hu)) hid htype hanswer
  -- Nothing is remembered under the id any more, so whatever is owed under it comes later.
  have hforgotten : out.1.reception.entries.find? responder.peer id = none := by
    rw [hreplies.entries, if_pos ⟨rfl, rfl⟩]
  exact ⟨⟨m, bytes, hreplies⟩, fun after => (prompted_run hforgotten after).1⟩

/-- A confirmable GET with the token 7 is answered before it is acknowledged on its own. -/
theorem reply_piggybacked :
    let start : Endpoint Unit := { service := .later }
    let responder : Responder Unit := ⟨(), some 0x1234, some [7]⟩
    let response : Response := ⟨{ type? := none, code := .content, id? := none }, false, rfl⟩
    let events : List (Event Unit) := [.datagram () [0x41, 1, 0x12, 0x34, 0xb1, 7]]
    let out := (start.run events).1.step (.respond responder response)
    out.2.answer = .responded (.ok ⟨0, 0x1234⟩) ∧
      out.2.effects.emissions = [⟨0, (), [0x61, 0x45, 0x12, 0x34, 0xb1, 7], some 0⟩] ∧
      ∀ after, ∀ x ∈ (total (out.1.run after).2).emissions, x.IsBareAck () 0x1234 →
        out.1.Prompted after () 0x1234 x.time := by
  intro start responder response events out
  obtain ⟨answer, haddress, htype, hid, hencode⟩ : ∃ answer : Response,
      responder.address response = .ok answer ∧ answer.message.type? = none ∧
        answer.message.id? = some 0x1234 ∧ (answer.setType (some .ack)).message.encode =
          .ok [0x61, 0x45, 0x12, 0x34, 0xb1, 7] := by
    refine ⟨_, rfl, rfl, rfl, ?_⟩
    cbv
  -- The run is named before it is taken apart, so that it is evaluated only where that is wanted.
  have hevents : events = [.datagram () [0x41, 1, 0x12, 0x34, 0xb1, 7]] := rfl
  clear_value events
  have hprompted : out.2.answer = .responded (.ok ⟨0, 0x1234⟩) →
      ∀ after, ∀ x ∈ (total (out.1.run after).2).emissions, x.IsBareAck () 0x1234 →
        out.1.Prompted after () 0x1234 x.time := fun hresult =>
    (reply .later 10000 {} {} events (q := 0x1234) (by decide) (by decide) rfl rfl hresult).2
  obtain ⟨e, he⟩ : ∃ e, e = (start.run events).1 := ⟨_, rfl⟩
  have hout : out = e.step (.respond responder response) := he ▸ rfl
  clear_value out
  have hentry : e.reception.entries.find? () 0x1234 = some ⟨0, false⟩ := by
    rw [he, hevents]
    decide +kernel
  have hpending : e.reception.pending? () answer = some ⟨0, false⟩ := by
    rw [Reception.pending?, hid]
    exact hentry
  have hsend : e.transmission.send e.link () (answer.setType (some .ack)).message =
      e.transmission.dispatch e.link () .ack 0x1234 [0x61, 0x45, 0x12, 0x34, 0xb1, 7] := by
    refine Transmission.send_of_encode rfl hid ?_ hencode ?_ <;>
    · rw [he, hevents]
      decide +kernel
  rw [step_respond, respond_eq haddress htype, hpending, Reception.settle,
    if_neg Bool.false_ne_true, hsend, Reception.answered, hid, he, hevents] at hout
  have hresult : out.2.answer = .responded (.ok ⟨0, 0x1234⟩) := by
    rw [hout]
    rfl
  refine ⟨hresult, ?_, hprompted hresult⟩
  rw [hout]
  decide +kernel

end Endpoint

end Coap
