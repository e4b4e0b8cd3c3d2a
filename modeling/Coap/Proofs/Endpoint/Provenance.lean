import Coap.Proofs.Delivery.Settlement
import Coap.Proofs.Endpoint.Recession
import Coap.Proofs.Wire.Grammar
import Mathlib.Data.List.Induction

/-!
# Where responses come from

A client gets as the response to a request only what the peer sent to which the request went. A
request is found in two ways: by the id under which its message is in flight, which holds for an
acknowledgement, and by its token, which holds for a response in a message of its own. For neither
does it matter which other requests wait, or whether they share the token or the id
(`Endpoint.Ties`).

* `Endpoint.Ties.recedes`: whatever lets no request wait keeps requests and messages tied;
* `Endpoint.Ties.request`: so does making a request;
* `Endpoint.Ties.datagram`: which request a datagram ends with a response;
* `Endpoint.Ties.answers_cases`: a step ends one request at most with a response, and this is tied
  to the datagram of the step;
* `Endpoint.provenance`: where the responses of a run come from.
-/

namespace Coap

variable {Peer : Type}

/-- A message that is accepted gets the next ticket, and it is the only one that can be in flight
    anew. -/
theorem Transmission.Accepts.found [DecidableEq Peer] {link : Link} {peer : Peer} {m : Message}
    {t : Transmission Peer} {sent : Sent Peer} {receipt : Receipt}
    (h : t.Accepts link peer m sent) (hresult : sent.result = .ok receipt) :
    receipt.ticket = t.nextTicket ∧ sent.transmission.nextTicket = t.nextTicket + 1 ∧
      ∀ {peer' id record}, sent.transmission.records.find? peer' id = some record →
        t.records.find? peer' id = some record ∨ peer' = peer ∧ id = receipt.id ∧
          record.ticket = receipt.ticket ∧ m.type? = some .con := by
  -- A confirmable message is put into flight under its id. Any other one is not in flight.
  cases h with
  | once type_eq unconfirmed encoded records next =>
    obtain rfl := Except.ok.inj hresult
    exact ⟨rfl, next, fun hr => .inl (records ▸ hr)⟩
  | start type_eq encoded free drawn records next =>
    obtain rfl := Except.ok.inj hresult
    refine ⟨rfl, next, fun hr => ?_⟩
    rw [records, Ledger.find?_insert] at hr
    split at hr
    · rename_i hkey
      obtain rfl := Option.some.inj hr
      exact .inr ⟨hkey.1, hkey.2, rfl, type_eq⟩
    · exact .inl hr

/-- Only an acknowledgement holds a response, which is the acknowledgement itself. -/
theorem Outcome.eq_of_response? {outcome : Outcome Peer} {response : Response}
    (h : outcome.response? = some response) : outcome = .acknowledged response.message := by
  cases outcome with
  | acknowledged m =>
    rw [Outcome.response?, Response.ofMessage] at h
    split at h
    · cases h
    · split at h
      · obtain rfl := Option.some.inj h
        rfl
      · cases h
  | sent => cases h
  | reset => cases h
  | failed => cases h

/-- An answer of a peer that ends a message is about the one in flight under its id. -/
theorem Transmission.receive_eq_some [DecidableEq Peer] {link : Link} {peer : Peer} {m : Message}
    {t : Transmission Peer} {r : Resolution Peer} (h : (t.receive link peer m).2 = some r) :
    Transmission.Answers m r.outcome ∧ ∃ id record, m.id? = some id ∧
      t.records.find? peer id = some record ∧ r.ticket = record.ticket := by
  rw [Transmission.receive] at h
  split at h
  · rename_i outcome id hm hid
    split at h
    · rename_i record hr
      obtain rfl := Option.some.inj h
      exact ⟨Transmission.outcome?_eq_some_iff.1 hm, id, record, hid, hr, rfl⟩
    · cases h
  · cases h

namespace Endpoint

/-! ### Requests that were made -/

/-- A request as it went out. -/
structure Asked (Peer : Type) where
  peer : Peer
  /-- The request, with its token. -/
  message : Message
  /-- The number of the message that carries the request. -/
  ticket : Nat
  /-- The id of that message. -/
  id : UInt16

namespace Asked

/-- The token of a request. -/
def token (a : Asked Peer) : Bytes := a.message.token?.getD []

/-- A request that went out to a peer and gave a receipt. -/
def ofReceipt (peer : Peer) (request : Request) (receipt : Receipt) : Asked Peer :=
  ⟨peer, request.message, receipt.ticket, receipt.id⟩

/-- The exchange of a request that has just gone out. -/
def exchange (a : Asked Peer) : Exchange Peer := ⟨a.peer, a.token, a.ticket, a.id, .delivery⟩

end Asked

variable [DecidableEq Peer]

/-- An event makes a request, which gets a number and goes out. -/
structure Asks (e : Endpoint Peer) (event : Event Peer) (k : Nat) (a : Asked Peer) : Prop where
  made : ∃ peer request request' receipt, event = .request peer request ∧
    (e.addToken request).2 = .ok request' ∧
      ((e.addToken request).1.transmission.send e.link peer request'.message).result =
        .ok receipt ∧ a = .ofReceipt peer request' receipt
  number : (e.step event).2.answer = .started k
  emitted : ∃ bytes, { a.message with id? := some a.id }.encode = .ok bytes ∧
    ⟨e.link.now, a.peer, bytes, some a.ticket⟩ ∈ (e.step event).2.effects.emissions

/-- A request was made in a run. -/
def HasAsked (start : Endpoint Peer) (events : List (Event Peer)) (k : Nat) (a : Asked Peer) :
    Prop :=
  ∃ before event after, events = before ++ event :: after ∧ (start.run before).1.Asks event k a

/-- How a message that comes in answers a request. -/
inductive Asked.Answered (a : Asked Peer) (e : Endpoint Peer) (m : Message) : Prop where
  /-- It acknowledges the message of the request, which is in flight. -/
  | acknowledged {record : Record} (type_eq : m.type? = some .ack) (id_eq : m.id? = some a.id)
      (confirmable : a.message.type? = some .con)
      (found : e.transmission.records.find? a.peer a.id = some record)
      (ticket_eq : record.ticket = a.ticket)
  /-- It is a message of its own with the token of the request. -/
  | separate (type_eq : m.type? = some .con ∨ m.type? = some .non)
      (token_eq : m.token?.getD [] = a.token)

variable {e e' : Endpoint Peer} {event : Event Peer} {k k' n : Nat} {a a' : Asked Peer}

omit [DecidableEq Peer] in
theorem addToken_frame (request : Request) (e : Endpoint Peer) :
    ∃ draws, (e.addToken request).1 = { e with transmission := { e.transmission with draws } } := by
  rw [addToken]
  split
  · exact ⟨e.transmission.draws, rfl⟩
  · exact ⟨_, rfl⟩

omit [DecidableEq Peer] in
theorem addToken_number (request : Request) (e : Endpoint Peer) :
    { e with nextRequest := n }.addToken request =
      ({ (e.addToken request).1 with nextRequest := n }, (e.addToken request).2) := by
  rw [addToken, addToken]
  split <;> rfl

theorem Asks.number_eq (h : e.Asks event k a) : k = e.nextRequest := by
  obtain ⟨peer, request, request', receipt, rfl, -⟩ := h.made
  exact (Answer.started.inj h.number).symm

/-- An event asks for one thing at most. -/
theorem Asks.unique (h : e.Asks event k a) (h' : e.Asks event k' a') : k = k' ∧ a = a' := by
  refine ⟨h.number_eq.trans h'.number_eq.symm, ?_⟩
  obtain ⟨peer₁, request₁, sent₁, receipt₁, rfl, hsent₁, hresult₁, rfl⟩ := h.made
  obtain ⟨peer₂, request₂, sent₂, receipt₂, heq, hsent₂, hresult₂, rfl⟩ := h'.made
  obtain ⟨rfl, rfl⟩ := Event.request.inj heq
  obtain rfl := Except.ok.inj (hsent₁.symm.trans hsent₂)
  obtain rfl := Except.ok.inj (hresult₁.symm.trans hresult₂)
  rfl

/-! ### Requests and messages -/

/-- The requests that wait are tied to those that were made, by their tokens and by the messages in
    flight; `n` bounds their numbers. -/
structure Ties (asked : Nat → Asked Peer → Prop) (n : Nat) (e : Endpoint Peer) : Prop where
  fresh : ∀ {peer id record}, e.transmission.records.find? peer id = some record →
    record.ticket < e.transmission.nextTicket
  bounds : ∀ {k a}, asked k a → k < n ∧ a.ticket < e.transmission.nextTicket
  /-- The message of a request is in flight under its own key, and only if it is confirmable. -/
  flies : ∀ {k a peer id record}, asked k a →
    e.transmission.records.find? peer id = some record → record.ticket = a.ticket →
      peer = a.peer ∧ id = a.id ∧ a.message.type? = some .con
  live : ∀ {k exchange}, e.live.find? k = some exchange →
    ∃ a, asked k a ∧ exchange.key = (a.peer, a.token) ∧ exchange.ticket = a.ticket
  waiting : ∀ {key k}, e.waiting.find? key = some k →
    k < n ∧ ∀ {exchange}, e.live.find? k = some exchange → exchange.key = key

variable {asked : Nat → Asked Peer → Prop} {answers : List (Nat × Response)}
  {effects : Effects Peer}

theorem Ties.congr {asked' : Nat → Asked Peer → Prop} (h : Ties asked n e)
    (heq : ∀ {k a}, asked' k a ↔ asked k a) : Ties asked' n e where
  fresh := h.fresh
  bounds ha := h.bounds (heq.1 ha)
  flies ha := h.flies (heq.1 ha)
  live hk := by
    obtain ⟨a, ha, hkey, hticket⟩ := h.live hk
    exact ⟨a, heq.2 ha, hkey, hticket⟩
  waiting := h.waiting

/-- What lets no request wait leaves requests and messages tied. -/
theorem Ties.recedes (h : Ties asked n e) (hr : e.Recedes answers e' effects) :
    Ties asked n e' where
  fresh hfound := by
    rcases hr.transmission.found hfound with ⟨record, hfound, hticket⟩ | ⟨-, hlt⟩
    · rw [hticket]
      exact Nat.lt_of_lt_of_le (h.fresh hfound) hr.transmission.le
    · exact hlt
  bounds ha := ⟨(h.bounds ha).1, Nat.lt_of_lt_of_le (h.bounds ha).2 hr.transmission.le⟩
  flies ha hfound hsame := by
    rcases hr.transmission.found hfound with ⟨record, hfound, hticket⟩ | ⟨hle, -⟩
    · exact h.flies ha hfound (hticket.symm.trans hsame)
    · -- A ticket that was given out meanwhile is not that of a request.
      exact absurd (hsame ▸ (h.bounds ha).2) (Nat.not_lt.2 hle)
  live hk := by
    obtain ⟨exchange, phase, hbefore, rfl⟩ := hr.live hk
    have hkept := h.live hbefore
    exact hkept
  waiting hkey := by
    refine ⟨(h.waiting (hr.waiting hkey)).1, fun hk => ?_⟩
    obtain ⟨exchange, phase, hbefore, rfl⟩ := hr.live hk
    have hplace := (h.waiting (hr.waiting hkey)).2 hbefore
    exact hplace

/-! ### Making a request -/

/-- The endpoint where a request waits that has just gone out. -/
def enter (k : Nat) (a : Asked Peer) (transmission : Transmission Peer) (e : Endpoint Peer) :
    Endpoint Peer :=
  { e with
    transmission
    waiting := e.waiting.insert (a.peer, a.token) k
    live := e.live.insert k a.exchange }

/-- A request that has just gone out is tied to its message. -/
theorem Ties.enter (h : Ties asked n e) {link : Link} {sent : Sent Peer}
    (haccepts : e.transmission.Accepts link a.peer a.message sent)
    (hresult : sent.result = .ok ⟨a.ticket, a.id⟩) :
    Ties (fun k' a' => asked k' a' ∨ k' = n ∧ a' = a) (n + 1)
      (e.enter n a sent.transmission) := by
  obtain ⟨hticket, hsucc, hfound⟩ := haccepts.found hresult
  dsimp only at hticket hfound
  have hnext : (e.enter n a sent.transmission).transmission.nextTicket =
      e.transmission.nextTicket + 1 := hsucc
  have hne : ∀ {k' a'}, asked k' a' → a'.ticket ≠ a.ticket := by
    intro k' a' ha heq
    exact Nat.ne_of_lt (h.bounds ha).2 (heq.trans hticket)
  constructor
  case fresh =>
    intro peer id record hr
    rw [hnext]
    rcases hfound hr with hr | ⟨-, -, hsame, -⟩
    · exact Nat.lt_succ_of_lt (h.fresh hr)
    · rw [hsame, hticket]
      exact Nat.lt_succ_self _
  case bounds =>
    rintro k' a' (ha | ⟨rfl, rfl⟩)
    · exact ⟨Nat.lt_succ_of_lt (h.bounds ha).1, hnext ▸ Nat.lt_succ_of_lt (h.bounds ha).2⟩
    · exact ⟨Nat.lt_succ_self _, by rw [hnext, hticket]; exact Nat.lt_succ_self _⟩
  case flies =>
    rintro k' a' peer id record (ha | ⟨rfl, rfl⟩) hr hsame
    · rcases hfound hr with hr | ⟨-, -, hnew, -⟩
      · exact h.flies ha hr hsame
      · exact absurd (hsame.symm.trans hnew) (hne ha)
    · rcases hfound hr with hr | ⟨hpeer, hid, -, htype⟩
      · -- What was in flight before has another ticket.
        exact absurd (h.fresh hr) (by omega)
      · exact ⟨hpeer, hid, htype⟩
  case live =>
    intro k' exchange hk
    rw [Endpoint.enter, Table.find?_insert] at hk
    split at hk
    · rename_i heq
      obtain rfl := Option.some.inj hk
      exact ⟨a, .inr ⟨heq, rfl⟩, rfl, rfl⟩
    · obtain ⟨a', ha, hrest⟩ := h.live hk
      exact ⟨a', .inl ha, hrest⟩
  case waiting =>
    intro key k' hkey
    rw [Endpoint.enter, Table.find?_insert] at hkey
    split at hkey
    · rename_i heq
      obtain rfl := Option.some.inj hkey
      refine ⟨Nat.lt_succ_self _, fun {exchange} hk => ?_⟩
      rw [Endpoint.enter, Table.find?_insert, if_pos rfl] at hk
      obtain rfl := Option.some.inj hk
      exact heq.symm
    · -- The new request has a number of its own, so the one that waits here is still the same.
      obtain ⟨hk', hrest⟩ := h.waiting hkey
      refine ⟨Nat.lt_succ_of_lt hk', fun {exchange} hk => ?_⟩
      rw [Endpoint.enter, Table.find?_insert, if_neg (Nat.ne_of_lt hk')] at hk
      exact hrest hk

theorem Ties.mono (h : Ties asked n e) (hn : n ≤ k) : Ties asked k e where
  fresh := h.fresh
  bounds ha := ⟨Nat.lt_of_lt_of_le (h.bounds ha).1 hn, (h.bounds ha).2⟩
  flies := h.flies
  live := h.live
  waiting hkey := ⟨Nat.lt_of_lt_of_le (h.waiting hkey).1 hn, (h.waiting hkey).2⟩

/-- A request whose message is refused is not launched. -/
theorem launch_of_error {peer : Peer} {request : Request} {failure : Failure Peer}
    (hresult : (e.transmission.send e.link peer request.message).result = .error failure) :
    e.launch n peer request =
      ({ e with
          transmission := (e.transmission.send e.link peer request.message).transmission
          waiting := e.waiting.erase (peer, request.message.token?.getD []) },
        { finished := [⟨e.link.now, n, .error failure⟩] }) := by
  simp only [Endpoint.launch, hresult]

/-- A request that is refused for sending fails. -/
theorem recedes_launch_of_error {peer : Peer} {request : Request} {failure : Failure Peer}
    (hresult : (e.transmission.send e.link peer request.message).result = .error failure) :
    e.Recedes [] (e.launch n peer request).1 (e.launch n peer request).2 := by
  have hsend := Sender.change_send e.link peer request.message e.transmission
  rw [launch_of_error hresult]
  have hsent : e.Recedes [] { e with
      transmission := (e.transmission.send e.link peer request.message).transmission } {} :=
    .of_transmission rfl rfl rfl hsend.advances
  exact recedes_fail (hsent.after (recedes_leave (peer, request.message.token?.getD []) _)) _ _ _

/-- What a request that is accepted for sending ends: at most its own message, which is sent. -/
theorem launch_of_ok {peer : Peer} {request : Request} {receipt : Receipt}
    (hresult : (e.transmission.send e.link peer request.message).result = .ok receipt) :
    let sent := e.transmission.send e.link peer request.message
    let out := (e.enter n (.ofReceipt peer request receipt) sent.transmission).resolveAll
      sent.progress.resolutions
    e.launch n peer request = (out.1, { emissions := sent.progress.emissions } ++ out.2) ∧
      ∀ r ∈ sent.progress.resolutions, r.outcome = .sent := by
  constructor
  · rw [launch]
    generalize e.transmission.send e.link peer request.message = sent at *
    obtain ⟨transmission, result, progress⟩ := sent
    obtain rfl : result = .ok receipt := hresult
    rfl
  · -- A message that is refused ends nothing, and only one that is not to be acknowledged ends at
    -- once.
    rcases e.transmission.send_cases e.link peer request.message with ⟨-, hprogress, -⟩ | haccepts
    · rw [hprogress]
      exact List.forall_mem_nil _
    · generalize e.transmission.send e.link peer request.message = sent at haccepts
      cases haccepts with
      | once => exact List.forall_mem_singleton.2 rfl
      | start => exact List.forall_mem_nil _

/-- A request that is accepted for sending waits from then on. -/
theorem recedes_launch_of_ok {peer : Peer} {request : Request} {receipt : Receipt}
    (hresult : (e.transmission.send e.link peer request.message).result = .ok receipt) :
    (e.enter n (.ofReceipt peer request receipt)
        (e.transmission.send e.link peer request.message).transmission).Recedes
      [] (e.launch n peer request).1 (e.launch n peer request).2 := by
  obtain ⟨hlaunch, hsent⟩ := launch_of_ok (n := n) hresult
  rw [hlaunch]
  refine (recedes_resolveAll (fun r hr => ?_) _).congr rfl
  rw [hsent r hr]
  rfl

/-- A request that is accepted for sending goes out. -/
theorem emitted_launch {peer : Peer} {request : Request} {receipt : Receipt}
    (hresult : (e.transmission.send e.link peer request.message).result = .ok receipt) :
    ∃ bytes, { request.message with id? := some receipt.id }.encode = .ok bytes ∧
      ⟨e.link.now, peer, bytes, some receipt.ticket⟩ ∈ (e.launch n peer request).2.emissions := by
  have hsent : ∃ bytes, { request.message with id? := some receipt.id }.encode = .ok bytes ∧
      ⟨e.link.now, peer, bytes, some receipt.ticket⟩ ∈
        (e.transmission.send e.link peer request.message).progress.emissions := by
    -- It was accepted, so it went out, be it confirmable or not.
    rcases e.transmission.send_cases e.link peer request.message with
      ⟨⟨failure, herror⟩, -⟩ | haccepts
    · cases hresult.symm.trans herror
    · generalize e.transmission.send e.link peer request.message = sent at *
      cases haccepts with
      | once type_eq unconfirmed encoded =>
        obtain rfl := Except.ok.inj hresult
        exact ⟨_, encoded, List.mem_singleton_self _⟩
      | start type_eq encoded =>
        obtain rfl := Except.ok.inj hresult
        exact ⟨_, encoded, List.mem_singleton_self _⟩
  obtain ⟨bytes, hbytes, hmem⟩ := hsent
  rw [(launch_of_ok hresult).1]
  exact ⟨bytes, hbytes, List.mem_append_left _ hmem⟩

/-- The endpoint where a request has got its number and its token. -/
def numbered (request : Request) (e : Endpoint Peer) : Endpoint Peer :=
  { (e.addToken request).1 with nextRequest := e.nextRequest + 1 }

theorem Ties.numbered (h : Ties asked e.nextRequest e) (request : Request) :
    Ties asked e.nextRequest (e.numbered request) := by
  obtain ⟨draws, hframe⟩ := addToken_frame request e
  rw [Endpoint.numbered, hframe]
  exact ⟨h.fresh, h.bounds, h.flies, h.live, h.waiting⟩

omit [DecidableEq Peer] in
theorem link_numbered (request : Request) (e : Endpoint Peer) :
    (e.numbered request).link = e.link := by
  obtain ⟨draws, hframe⟩ := addToken_frame request e
  rw [Endpoint.numbered, hframe]

/-- The request that had the place before is closed when the new one has been sent. -/
theorem request_eq (peer : Peer) {request request' : Request}
    (hrequest : (e.addToken request).2 = .ok request') :
    e.request peer request =
      let launched := (e.numbered request).launch e.nextRequest peer request'
      let closed :=
        launched.1.displace (e.waiting.find? (peer, request'.message.token?.getD []))
      (closed.1, launched.2 ++ closed.2) := by
  obtain ⟨draws, hframe⟩ := addToken_frame request e
  have hwaiting : (e.numbered request).waiting = e.waiting := by rw [numbered, hframe]
  rw [Endpoint.request, addToken_number, hrequest, ← hwaiting]
  rfl

theorem request_of_ok (peer : Peer) {request request' : Request}
    (hrequest : (e.addToken request).2 = .ok request') :
    ∃ closed, ((e.numbered request).launch e.nextRequest peer request').1.Recedes []
        (e.request peer request).1 closed ∧
      (e.request peer request).2 =
        ((e.numbered request).launch e.nextRequest peer request').2 ++ closed := by
  rw [request_eq peer hrequest]
  exact ⟨_, recedes_displace _ _, rfl⟩

/-- A request asks if its token fits in and its message is accepted. -/
theorem asks_request_iff {peer : Peer} {request : Request} :
    e.Asks (.request peer request) k a ↔ ∃ request', (e.addToken request).2 = .ok request' ∧
      k = e.nextRequest ∧ ∃ receipt,
        ((e.numbered request).transmission.send (e.numbered request).link peer
          request'.message).result = .ok receipt ∧ a = .ofReceipt peer request' receipt := by
  rw [link_numbered]
  constructor
  · intro h
    obtain ⟨peer', request₀, request', receipt, heq, hrequest, hresult, ha⟩ := h.made
    obtain ⟨rfl, rfl⟩ := Event.request.inj heq
    exact ⟨request', hrequest, h.number_eq, receipt, hresult, ha⟩
  · rintro ⟨request', hrequest, rfl, receipt, hresult, rfl⟩
    refine ⟨⟨peer, request, request', receipt, rfl, hrequest, hresult, rfl⟩, rfl, ?_⟩
    -- What was launched is among the effects of the whole step.
    obtain ⟨closed, -, heffects⟩ := request_of_ok peer hrequest
    rw [← link_numbered request e] at hresult ⊢
    obtain ⟨bytes, hbytes, hmem⟩ := emitted_launch (n := e.nextRequest) hresult
    refine ⟨bytes, hbytes, ?_⟩
    rw [step_request, effects_settle, heffects]
    exact List.mem_append_left _ (List.mem_append_left _ hmem)

/-- An event that makes no request which goes out leaves requests and messages tied. -/
theorem Ties.step_of_recedes (h : Ties asked n e') (hnone : ∀ k a, ¬ e.Asks event k a)
    (hr : e'.Recedes answers (e.step event).1 effects) (hn : n ≤ e'.nextRequest) :
    Ties (fun k a => asked k a ∨ e.Asks event k a) (e.step event).1.nextRequest
      (e.step event).1 := by
  rw [hr.nextRequest]
  exact ((h.recedes hr).mono hn).congr fun {k a} => or_iff_left (hnone k a)

/-- Making a request ties it to its message if it goes out, and no request ends with a response
    meanwhile. -/
theorem Ties.request (h : Ties asked e.nextRequest e) (peer : Peer) (request : Request) :
    Ties (fun k a => asked k a ∨ e.Asks (.request peer request) k a)
        (e.step (.request peer request)).1.nextRequest (e.step (.request peer request)).1 ∧
      (e.step (.request peer request)).2.effects.answers = [] := by
  have hnumbered := h.numbered request
  -- The request is refused for its token, or its message is refused, or it goes out. Only then it
  -- asks.
  cases hrequest : (e.addToken request).2 with
  | error fault =>
    have hrecedes : (e.numbered request).Recedes [] (e.request peer request).1
        (e.request peer request).2 := by
      rw [Endpoint.request, addToken_number, hrequest]
      exact recedes_fail .rfl _ _ _
    have hstep := recedes_settle hrecedes (.started e.nextRequest)
    rw [← step_request] at hstep
    refine ⟨hnumbered.step_of_recedes (fun k a ha => ?_) hstep (Nat.le_succ _), hstep.answers⟩
    obtain ⟨request', hok, -⟩ := asks_request_iff.1 ha
    cases hrequest.symm.trans hok
  | ok request' =>
    obtain ⟨closed, hclosed, heffects⟩ := request_of_ok peer hrequest
    rcases (e.numbered request).transmission.send_cases (e.numbered request).link peer
      request'.message with ⟨⟨failure, hresult⟩, -⟩ | haccepts
    · have hrecedes := (recedes_launch_of_error (n := e.nextRequest) hresult).trans hclosed
      rw [← heffects] at hrecedes
      have hstep := recedes_settle hrecedes (.started e.nextRequest)
      rw [← step_request] at hstep
      refine ⟨hnumbered.step_of_recedes (fun k a ha => ?_) hstep (Nat.le_succ _), hstep.answers⟩
      obtain ⟨request'', hok, -, receipt, hsent, -⟩ := asks_request_iff.1 ha
      obtain rfl := Except.ok.inj (hrequest.symm.trans hok)
      cases hresult.symm.trans hsent
    · -- It is entered with the message that carries it. After that it can only end.
      obtain ⟨id, hresult⟩ := haccepts.result
      have henter := hnumbered.enter (a := .ofReceipt peer request' ⟨_, id⟩) haccepts hresult
      have hrecedes := (recedes_launch_of_ok (n := e.nextRequest) hresult).trans hclosed
      rw [← heffects] at hrecedes
      have hstep := recedes_settle hrecedes (.started e.nextRequest)
      rw [← step_request] at hstep
      have hnext : (e.step (.request peer request)).1.nextRequest = e.nextRequest + 1 :=
        hstep.nextRequest
      refine ⟨?_, hstep.answers⟩
      rw [hnext]
      refine (henter.recedes hstep).congr fun {k a} => ?_
      rw [asks_request_iff, hrequest]
      simp only [Except.ok.injEq, exists_eq_left', hresult]

/-! ### Taking in a datagram -/

/-- What a message of a peer may do to requests that are tied: it ends one at most with a
    response, which is this message, and which answers that request. -/
def Supplies (asked : Nat → Asked Peer → Prop) (e : Endpoint Peer) (peer : Peer) (m : Message)
    (e' : Endpoint Peer) (effects : Effects Peer) : Prop :=
  ∃ answer? : Option (Nat × Response), e.Recedes answer?.toList e' effects ∧
    ∀ k response, answer? = some (k, response) → response.message = m ∧
      ∃ a, asked k a ∧ a.peer = peer ∧ a.Answered e m

/-- Where no response is delivered the network supplies nothing. -/
theorem Recedes.supplies {peer : Peer} {m : Message} (h : e.Recedes [] e' effects) :
    Supplies asked e peer m e' effects :=
  ⟨none, h, fun _ _ hnone => by cases hnone⟩

theorem Supplies.congr {peer : Peer} {m : Message} (h : Supplies asked e peer m e' effects)
    (hfinished : effects'.finished = effects.finished) :
    Supplies asked e peer m e' effects' := by
  obtain ⟨answer?, hr, hanswer⟩ := h
  exact ⟨answer?, hr.congr hfinished, hanswer⟩

theorem Supplies.settle {peer : Peer} {m : Message} (h : Supplies asked e peer m e' effects)
    (answer : Answer Peer) :
    Supplies asked e peer m (e'.settle answer effects).1
      (e'.settle answer effects).2.effects := by
  obtain ⟨answer?, hr, hanswer⟩ := h
  exact ⟨answer?, recedes_settle hr answer, hanswer⟩

/-- It does not matter what the endpoint remembers of the requests of peers. -/
theorem Supplies.of_reception {peer : Peer} {m : Message} {reception : Reception Peer}
    (h : Supplies asked { e with reception } peer m e' effects) :
    Supplies asked e peer m e' effects := by
  obtain ⟨answer?, hr, hanswer⟩ := h
  refine ⟨answer?, ⟨hr.nextRequest, hr.transmission, hr.waiting, hr.live, hr.answers⟩,
    fun k response hk => ?_⟩
  obtain ⟨hmessage, a, ha, hpeer, hanswered⟩ := hanswer k response hk
  refine ⟨hmessage, a, ha, hpeer, ?_⟩
  cases hanswered with
  | acknowledged type_eq id_eq confirmable found ticket_eq =>
    exact .acknowledged type_eq id_eq confirmable found ticket_eq
  | separate type_eq token_eq => exact .separate type_eq token_eq

/-- An acknowledgement is about the request whose message is in flight under its id. -/
theorem Ties.acknowledge (h : Ties asked n e) (peer : Peer) (m : Message) :
    Supplies asked e peer m
      (resolveAll (e.transmission.receive e.link peer m).2.toList
        { e with transmission := (e.transmission.receive e.link peer m).1 }).1
      (resolveAll (e.transmission.receive e.link peer m).2.toList
        { e with transmission := (e.transmission.receive e.link peer m).1 }).2 := by
  have hreceive : e.Recedes []
      { e with transmission := (e.transmission.receive e.link peer m).1 } {} :=
    .of_transmission rfl rfl rfl (e.transmission.change_receive e.link peer m).advances
  cases hr : (e.transmission.receive e.link peer m).2 with
  | none => exact hreceive.supplies
  | some r =>
    have hresolve := hreceive.after ((recedes_resolve r _).trans .rfl)
    rw [List.append_nil] at hresolve
    refine ⟨_, hresolve, fun k response hanswer => ?_⟩
    obtain ⟨⟨k', exchange⟩, howner, hmap⟩ := Option.bind_eq_some_iff.1 hanswer
    obtain ⟨response', hresponse, heq⟩ := Option.map_eq_some_iff.1 hmap
    obtain ⟨rfl, rfl⟩ := Prod.mk.inj heq
    obtain ⟨hanswers, id, record, hid, hfound, hticket⟩ := Transmission.receive_eq_some hr
    obtain ⟨hk, hsame⟩ := owner?_eq_some howner
    obtain ⟨a, ha, -, hlive⟩ := h.live hk
    -- The record has the ticket of the request, so it is that of its message.
    have hown : record.ticket = a.ticket := hticket.symm.trans (hsame.symm.trans hlive)
    obtain ⟨hpeer, rfl, htype⟩ := h.flies ha hfound hown
    rw [Outcome.eq_of_response? hresponse] at hanswers
    cases hanswers with
    | acknowledged type_eq =>
      exact ⟨rfl, a, ha, hpeer.symm, .acknowledged type_eq hid htype (hpeer ▸ hfound) hown⟩

/-- A response of its own is for the request that waits with its token. -/
theorem Ties.deliver (h : Ties asked n e) (peer : Peer) (response : Response)
    (htype : response.message.type? = some .con ∨ response.message.type? = some .non) :
    Supplies asked e peer response.message (e.deliver peer response).1
      (e.deliver peer response).2 := by
  refine ⟨_, e.recedes_deliver peer response, fun k response' hanswer => ?_⟩
  obtain ⟨k', hwaiting, hmap⟩ := Option.bind_eq_some_iff.1 hanswer
  obtain ⟨exchange, hk, heq⟩ := Option.map_eq_some_iff.1 hmap
  obtain ⟨rfl, rfl⟩ := Prod.mk.inj heq
  obtain ⟨a, ha, hkey, -⟩ := h.live hk
  obtain ⟨hpeer, htoken⟩ := Prod.mk.inj (((h.waiting hwaiting).2 hk).symm.trans hkey)
  exact ⟨rfl, a, ha, hpeer.symm, .separate htype htoken⟩

/-- What is answered when a message is handed on is tied to this message. -/
theorem Ties.handOn (h : Ties asked n e) (verdict : Verdict) (peer : Peer) {m : Message}
    (htype : m.type? = some .con ∨ m.type? = some .non) :
    Supplies asked e peer m (e.handOn verdict peer m).1 (e.handOn verdict peer m).2 := by
  cases verdict with
  | duplicate => exact Recedes.rfl.supplies
  | forward =>
    rw [Endpoint.handOn]
    split
    · rename_i hcode
      exact (e.recedes_dispatch peer ⟨m, hcode⟩).supplies
    · split
      · rename_i hcode
        exact h.deliver peer ⟨m, false, hcode⟩ htype
      · exact Recedes.rfl.supplies

/-- What is answered when a message is taken in is tied to this message. -/
theorem Ties.accept (h : Ties asked n e) (peer : Peer) {m : Message} {type : MessageType}
    (htype : m.type? = some type) :
    Supplies asked e peer m (e.accept peer m).1 (e.accept peer m).2 := by
  have hreception : Ties asked n
      { e with reception := (e.reception.receive e.link peer m).reception } :=
    ⟨h.fresh, h.bounds, h.flies, h.live, h.waiting⟩
  have hhand := hreception.handOn (e.reception.receive e.link peer m).verdict peer (m := m)
  rw [Endpoint.accept, htype]
  cases type with
  | ack => exact h.acknowledge peer m
  | rst => exact h.acknowledge peer m
  | con => exact (hhand (.inl htype)).of_reception.congr rfl
  | non => exact (hhand (.inr htype)).of_reception.congr rfl

/-- The message of a datagram answers the request that it ends with a response. -/
theorem Ties.datagram (h : Ties asked n e) (peer : Peer) (bytes : Bytes) :
    (∃ m, Message.decode bytes = .ok m ∧
      Supplies asked e peer m (e.step (.datagram peer bytes)).1
        (e.step (.datagram peer bytes)).2.effects) ∨
      e.Recedes [] (e.step (.datagram peer bytes)).1
        (e.step (.datagram peer bytes)).2.effects := by
  rw [step_datagram, receive]
  split
  · cases hm : Message.decode bytes with
    | error fault => exact .inr (recedes_settle .rfl .done)
    | ok m =>
      obtain ⟨header, frames, rest, options, -, -, -, -, -, -, rfl⟩ :=
        Message.decode_eq_ok_iff.1 hm
      exact .inl ⟨_, rfl, (h.accept peer rfl).settle .done⟩
  · exact .inr (recedes_settle .rfl .done)

/-! ### Runs -/

theorem not_asks (hrequest : ∀ peer request, event ≠ .request peer request) (k : Nat)
    (a : Asked Peer) : ¬ e.Asks event k a := by
  intro h
  obtain ⟨peer, request, -, -, heq, -⟩ := h.made
  exact hrequest peer request heq

/-- After each step the live requests are tied to what was asked. -/
theorem Ties.step (h : Ties asked e.nextRequest e) (event : Event Peer) :
    Ties (fun k a => asked k a ∨ e.Asks event k a) (e.step event).1.nextRequest
      (e.step event).1 := by
  -- Only a request makes new ties. Everything else can only take some away.
  by_cases hrequest : ∃ peer request, event = .request peer request
  · obtain ⟨peer, request, rfl⟩ := hrequest
    exact (h.request peer request).1
  · have hrequest' : ∀ peer request, event ≠ .request peer request :=
      fun peer request heq => hrequest ⟨peer, request, heq⟩
    have hrecedes : ∃ answers, e.Recedes answers (e.step event).1 (e.step event).2.effects := by
      by_cases hdatagram : ∃ peer bytes, event = .datagram peer bytes
      · obtain ⟨peer, bytes, rfl⟩ := hdatagram
        rcases h.datagram peer bytes with ⟨m, -, answer?, hr, -⟩ | hr
        · exact ⟨_, hr⟩
        · exact ⟨_, hr⟩
      · exact ⟨_, e.recedes_step hrequest' fun peer bytes heq => hdatagram ⟨peer, bytes, heq⟩⟩
    obtain ⟨answers, hr⟩ := hrecedes
    exact h.step_of_recedes (not_asks hrequest') hr (Nat.le_refl _)

theorem run_append (e : Endpoint Peer) (events events' : List (Event Peer)) :
    e.run (events ++ events') = (((e.run events).1.run events').1,
      (e.run events).2 ++ ((e.run events).1.run events').2) := by
  induction events generalizing e with
  | nil => rfl
  | cons event events ih =>
    have hrun : ∀ events, e.run (event :: events) = (((e.step event).1.run events).1,
      (e.step event).2 :: ((e.step event).1.run events).2) := fun _ => rfl
    rw [List.cons_append, hrun, ih, hrun, List.cons_append]

theorem run_singleton (e : Endpoint Peer) (event : Event Peer) :
    e.run [event] = ((e.step event).1, [(e.step event).2]) := rfl

theorem run_concat (e : Endpoint Peer) (events : List (Event Peer)) (event : Event Peer) :
    (e.run (events ++ [event])).1 = ((e.run events).1.step event).1 := by
  rw [run_append]
  rfl

theorem not_hasAsked_nil {start : Endpoint Peer} : ¬ start.HasAsked [] k a := by
  rintro ⟨before, event, after, h, -⟩
  simp at h

/-- What was asked in a run was asked before its last event, or by this. -/
theorem hasAsked_concat_iff {start : Endpoint Peer} {events : List (Event Peer)} :
    start.HasAsked (events ++ [event]) k a ↔
      start.HasAsked events k a ∨ (start.run events).1.Asks event k a :=
  exists_split_concat_iff

/-- The requests that wait after a run are tied to those that were made. -/
theorem ties_run (service : Service Peer) (responseTimeout : Nat) (link : Link) (draws : Draws)
    (events : List (Event Peer)) :
    let start : Endpoint Peer := { service, responseTimeout, link, transmission := { draws } }
    Ties (start.HasAsked events) (start.run events).1.nextRequest (start.run events).1 := by
  intro start
  induction events using List.reverseRecOn with
  | nil =>
    refine ⟨fun hr => ?_, fun ha => absurd ha not_hasAsked_nil,
      fun ha => absurd ha not_hasAsked_nil, fun hk => ?_, fun hkey => ?_⟩
    · cases hr
    · cases hk
    · cases hkey
  | append_singleton events event ih =>
    rw [run_concat]
    exact (ih.step event).congr hasAsked_concat_iff

/-- A request is known by its number. -/
theorem HasAsked.unique {service : Service Peer} {responseTimeout : Nat} {link : Link}
    {draws : Draws} {events : List (Event Peer)} :
    let start : Endpoint Peer := { service, responseTimeout, link, transmission := { draws } }
    start.HasAsked events k a → start.HasAsked events k a' → a = a' := by
  intro start
  induction events using List.reverseRecOn with
  | nil => exact fun h => absurd h not_hasAsked_nil
  | append_singleton events event ih =>
    -- The number of a new request was not given out before.
    have hties := ties_run service responseTimeout link draws events
    have hnew : ∀ {b b'}, start.HasAsked events k b →
        ¬ (start.run events).1.Asks event k b' := by
      intro b b' hb hb'
      exact absurd (hties.bounds hb).1 (by rw [hb'.number_eq]; exact Nat.lt_irrefl _)
    rw [hasAsked_concat_iff, hasAsked_concat_iff]
    rintro (h | h) (h' | h')
    · exact ih h h'
    · exact absurd h' (hnew h)
    · exact absurd h (hnew h')
    · exact (h.unique h').2

/-- A step ends no request with a response, or just one: a request that was made before, with the
    message in a datagram of the peer to which it went. -/
theorem Ties.answers_cases (h : Ties asked e.nextRequest e) (event : Event Peer) :
    (e.step event).2.effects.answers = [] ∨
      ∃ k response a bytes, (e.step event).2.effects.answers = [(k, response)] ∧ asked k a ∧
        event = .datagram a.peer bytes ∧ Message.decode bytes = .ok response.message ∧
          a.Answered e response.message := by
  -- Nothing but a datagram brings a response.
  by_cases hrequest : ∃ peer request, event = .request peer request
  · obtain ⟨peer, request, rfl⟩ := hrequest
    exact .inl (h.request peer request).2
  by_cases hdatagram : ∃ peer bytes, event = .datagram peer bytes
  · obtain ⟨peer, bytes, rfl⟩ := hdatagram
    rcases h.datagram peer bytes with ⟨m, hm, answer?, hr, hanswer⟩ | hr
    · -- The datagram answers one request at most.
      cases answer? with
      | none => exact .inl hr.answers
      | some answer =>
        obtain ⟨k, response⟩ := answer
        obtain ⟨rfl, a, ha, rfl, hanswered⟩ := hanswer k response rfl
        exact .inr ⟨k, response, a, bytes, hr.answers, ha, rfl, hm, hanswered⟩
    · exact .inl hr.answers
  · exact .inl (e.recedes_step (fun peer request heq => hrequest ⟨peer, request, heq⟩)
      fun peer bytes heq => hdatagram ⟨peer, bytes, heq⟩).answers

/-- A request that ends with a response is one that was made, and it was answered by the message in
    a datagram of the peer to which it went. -/
theorem Ties.source {event : Event Peer} {response : Response}
    (h : Ties asked e.nextRequest e)
    (hanswer : (k, response) ∈ (e.step event).2.effects.answers) :
    ∃ a bytes, asked k a ∧ event = .datagram a.peer bytes ∧
      Message.decode bytes = .ok response.message ∧ a.Answered e response.message := by
  rcases h.answers_cases event with hnone | ⟨k', response', a, bytes, hone, hsource⟩
  · rw [hnone] at hanswer
    cases hanswer
  · rw [hone, List.mem_singleton] at hanswer
    obtain ⟨rfl, rfl⟩ := Prod.mk.inj hanswer
    exact ⟨a, bytes, hsource⟩

/-- Where the responses come from that end requests in a run. A step ends one request at most with
    a response. This request was made before, the step takes in a datagram of the peer to which it
    went, the response is the message in this datagram, and the message answers the request
    (`Asked.Answered`). -/
theorem provenance (service : Service Peer) (responseTimeout : Nat) (link : Link) (draws : Draws)
    (events : List (Event Peer)) (event : Event Peer) :
    let start : Endpoint Peer := { service, responseTimeout, link, transmission := { draws } }
    let e := (start.run events).1
    let answers := (e.step event).2.effects.answers
    answers.length ≤ 1 ∧
      (∀ k response, (k, response) ∈ answers →
        ∃ a bytes, start.HasAsked events k a ∧ event = .datagram a.peer bytes ∧
          Message.decode bytes = .ok response.message ∧ a.Answered e response.message) ∧
      ∀ k a a', start.HasAsked events k a → start.HasAsked events k a' → a = a' := by
  intro start e answers
  have hties : Ties (start.HasAsked events) e.nextRequest e :=
    ties_run service responseTimeout link draws events
  refine ⟨?_, fun k response hanswer => ?_, fun k a a' => HasAsked.unique⟩
  · rcases hties.answers_cases event with hnone | ⟨k, response, a, bytes, hone, -⟩
    · exact (congrArg List.length hnone).trans_le (Nat.zero_le 1)
    · exact Nat.le_of_eq (congrArg List.length hone)
  · exact hties.source hanswer

end Endpoint

end Coap
