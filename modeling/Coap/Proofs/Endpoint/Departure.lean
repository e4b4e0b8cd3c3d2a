import Coap.Proofs.Endpoint.Coupling

/-!
# Requests that go out

A request that is accepted for sending waits from then on: until its message is acknowledged if this
is confirmable (`Endpoint.Launches`), and otherwise for its response at once (`Endpoint.Departs`).
With that it is settled for every event what an endpoint does before any time passes
(`Endpoint.Acts`): requests and messages stay coupled, each request that was made before has its
fate, and no copy of a message that was accepted before goes out.

* `Endpoint.Coupled.departs`: what it does to send a request;
* `Endpoint.Coupled.acts`: what an endpoint does at an event before any time passes.
-/

namespace Coap.Endpoint

variable {Peer : Type} [DecidableEq Peer] {e e' e'' : Endpoint Peer}
  {effects effects' : Effects Peer} {event : Event Peer} {k n : Nat} {a : Asked Peer}

/-- The message with which a request goes out that is to be acknowledged. -/
structure Launches (e : Endpoint Peer) (a : Asked Peer) (f : Flight Peer) : Prop where
  confirmable : a.message.type? = some .con
  ticket_eq : f.ticket = a.ticket
  peer_eq : f.peer = a.peer
  id_eq : f.id = a.id
  start_eq : f.start = e.link.now
  encoded : { a.message with id? := some a.id }.encode = .ok f.bytes
  drawn : Backoff.start? e.link.timing
    (Transmission.jitter e.link.timing e.transmission.draws).1 = some f.backoff

/-- How a request waits that has just gone out under a number. -/
inductive Departed (n : Nat) (a : Asked Peer) (e e' : Endpoint Peer) : Prop where
  /-- Its message is to be acknowledged. -/
  | launched {f : Flight Peer} (launches : e.Launches a f)
      (live : e'.live.find? n = some a.exchange)
      (found : e'.transmission.records.find? a.peer a.id =
        some (.start f.ticket f.bytes f.backoff f.start))
  /-- Its message wants no acknowledgement, and the response is to come. -/
  | once (unconfirmed : a.message.type? ≠ some .con)
      (live : e'.live.find? n = some { a.exchange with phase := .response e.link.now })
      (silent : ¬ e'.transmission.Live a.ticket)

/-- What it does to send a request under a number. -/
structure Departs (n : Nat) (a : Asked Peer) (e e' : Endpoint Peer) (effects : Effects Peer) :
    Prop where
  now_eq : e'.link.now = e.link.now
  ticket_eq : a.ticket = e.transmission.nextTicket
  ticket_lt : a.ticket < e'.transmission.nextTicket
  drops : e.transmission.Drops e'.transmission fun _ => False
  others : ∀ k ≠ n, e'.live.find? k = e.live.find? k
  finished : effects.finished = []
  emissions : ∀ x ∈ effects.emissions, x.time = e.link.now ∧ x.ticket? = some a.ticket
  departed : Departed n a e e'

/-- What an endpoint does at an event before any time passes. -/
structure Acts (event : Event Peer) (e e' : Endpoint Peer) (effects : Effects Peer) : Prop where
  now_eq : e'.link.now = e.link.now
  coupled : e'.Coupled
  advances : e.transmission.Advances e'.transmission
  /-- No copy of a message that was accepted before goes out. -/
  emissions : ∀ x ∈ effects.emissions, ∀ ticket, x.ticket? = some ticket →
    e.transmission.nextTicket ≤ ticket
  fate : ∀ k < e.nextRequest, Fate event k e e' effects

/-! ### Sending a request -/

/-- A new request is live under its own number; the others are what they were. -/
theorem live_enter (n k : Nat) (a : Asked Peer) (transmission : Transmission Peer)
    (e : Endpoint Peer) :
    (e.enter n a transmission).live.find? k = if k = n then some a.exchange else e.live.find? k :=
  Table.find?_insert _ _ _ _

/-- A request that has just gone out has a message of its own. -/
theorem Coupled.apart_enter (h : e.Coupled) (hticket : a.ticket = e.transmission.nextTicket)
    (n : Nat) (transmission : Transmission Peer) : (e.enter n a transmission).Apart := by
  have hfresh : ∀ {k x}, e.live.find? k = some x → x.ticket ≠ a.ticket :=
    fun hk => hticket ▸ Nat.ne_of_lt (h.lt hk)
  intro k k' x x' hk hk' hsame
  rw [live_enter] at hk hk'
  split at hk <;> split at hk'
  · rename_i hn hn'
    exact hn.trans hn'.symm
  · obtain rfl := Option.some.inj hk
    exact absurd hsame.symm (hfresh hk')
  · obtain rfl := Option.some.inj hk'
    exact absurd hsame (hfresh hk)
  · exact h.apart hk hk' hsame

/-- What it does to send a request that is accepted. -/
theorem Coupled.departs (h : e.Coupled) {peer : Peer} {request : Request} {receipt : Receipt}
    (hresult : (e.transmission.send e.link peer request.message).result = .ok receipt) (n : Nat) :
    Departs n (.ofReceipt peer request receipt) e (e.launch n peer request).1
      (e.launch n peer request).2 := by
  rw [(launch_of_ok hresult).1]
  rcases e.transmission.send_cases e.link peer request.message with
    ⟨⟨failure, hrefused⟩, -⟩ | haccepts
  · cases hresult.symm.trans hrefused
  have hdrops := h.ticketed.drops_accepts haccepts
  generalize e.transmission.send e.link peer request.message = sent at *
  cases haccepts with
  | once type_eq unconfirmed encoded records next =>
    obtain rfl := Except.ok.inj hresult
    rename_i type id bytes transmission
    let a : Asked Peer := .ofReceipt peer request ⟨e.transmission.nextTicket, id⟩
    -- Its message is done once it is sent, so it is the request for which this is settled.
    have howner : owner? e.transmission.nextTicket (e.enter n a transmission) =
        some (n, a.exchange) :=
      (owner?_eq_some_iff (h.apart_enter rfl n transmission)).2
        ⟨(live_enter n n a transmission e).trans (if_pos rfl), rfl, rfl⟩
    have hresolve : (e.enter n a transmission).resolveAll
        [⟨e.link.now, e.transmission.nextTicket, .sent⟩] =
          ((e.enter n a transmission).await e.link.now n a.exchange, {}) := by
      simp only [resolveAll, resolve, howner]
      rfl
    rw [hresolve]
    have hlive : ∀ k, ((e.enter n a transmission).await e.link.now n a.exchange).live.find? k =
        if k = n then some { a.exchange with phase := .response e.link.now }
        else e.live.find? k := by
      intro k
      rw [await, Table.find?_insert, live_enter]
      split <;> rfl
    refine ⟨rfl, rfl, next ▸ Nat.lt_succ_self _, hdrops,
      fun k hk => (hlive k).trans (if_neg hk), rfl, fun x hx => ?_, .once ?_ ?_ ?_⟩
    · obtain rfl := List.mem_singleton.1 hx
      exact ⟨rfl, rfl⟩
    · exact fun hcon => unconfirmed (Option.some.inj (type_eq.symm.trans hcon))
    · exact (hlive n).trans (if_pos rfl)
    · exact mt (Transmission.live_congr records).1 h.ticketed.not_live_nextTicket
  | start type_eq encoded free drawn records next =>
    obtain rfl := Except.ok.inj hresult
    rename_i id bytes backoff transmission
    let a : Asked Peer := .ofReceipt peer request ⟨e.transmission.nextTicket, id⟩
    refine ⟨rfl, rfl, next ▸ Nat.lt_succ_self _, hdrops,
      fun k hk => (live_enter n k a transmission e).trans (if_neg hk), rfl, fun x hx => ?_, ?_⟩
    · obtain rfl := List.mem_singleton.1 hx
      exact ⟨rfl, rfl⟩
    · let f : Flight Peer :=
        ⟨e.transmission.nextTicket, peer, id, bytes, backoff, e.link.now⟩
      have hlaunches : e.Launches a f := ⟨type_eq, rfl, rfl, rfl, rfl, encoded, drawn⟩
      refine .launched hlaunches ((live_enter n n a transmission e).trans (if_pos rfl)) ?_
      change transmission.records.find? peer id = _
      rw [records, Ledger.find?_insert, if_pos ⟨rfl, rfl⟩]

/-- The number and the token that a request gets change nothing about how it goes out. -/
theorem Departs.of_numbered {request : Request}
    (h : Departs n a (e.numbered request) e' effects) : Departs n a e e' effects := by
  have hjitter := jitter_numbered request e
  obtain ⟨draws, hframe⟩ := addToken_frame request e
  rw [numbered, hframe] at h hjitter
  obtain ⟨hnow, hticket, hlt, hdrops, hothers, hfinished, hemissions, hdeparted⟩ := h
  refine ⟨hnow, hticket, hlt, hdrops.of_same rfl rfl, hothers, hfinished, hemissions, ?_⟩
  cases hdeparted with
  | launched launches live found =>
    obtain ⟨hcon, hticket, hpeer, hid, hstart, hencoded, hdrawn⟩ := launches
    refine .launched ⟨hcon, hticket, hpeer, hid, hstart, hencoded, ?_⟩ live found
    rw [← hdrawn]
    exact congrArg (Backoff.start? e.link.timing) (Transmission.jitter_congr hjitter.symm)
  | once unconfirmed live silent => exact .once unconfirmed live silent

/-- Whoever waits after a request went out is this one, or has waited before. -/
theorem Departs.live_cases (h : Departs n a e e' effects) {x : Exchange Peer}
    (hk : e'.live.find? k = some x) :
    (k = n ∧ x.ticket = a.ticket ∧
      (x.phase = .delivery → ∃ record, e'.transmission.records.find? x.peer x.id = some record ∧
        record.ticket = x.ticket) ∧
      ∀ since, x.phase = .response since → ¬ e'.transmission.Live x.ticket) ∨
    e.live.find? k = some x := by
  -- The one that departs waits for its acknowledgement, or for its response if it is sent once
  -- only.
  by_cases hkn : k = n
  · subst hkn
    cases h.departed with
    | launched launches live found =>
      obtain rfl := Option.some.inj (hk.symm.trans live)
      exact .inl ⟨rfl, rfl, fun _ => ⟨_, found, launches.ticket_eq⟩, fun _ hphase => by
        cases hphase⟩
    | once unconfirmed live silent =>
      obtain rfl := Option.some.inj (hk.symm.trans live)
      exact .inl ⟨rfl, rfl, fun hphase => (by cases hphase), fun _ _ => silent⟩
  · exact .inr ((h.others k hkn).symm.trans hk)

/-- After a request departs all live ones are coupled with their messages. -/
theorem Departs.coupled (h : Departs n a e e' effects) (hc : e.Coupled) : e'.Coupled := by
  have hless : ∀ {k x}, e.live.find? k = some x → x.ticket < a.ticket :=
    fun hx => h.ticket_eq ▸ hc.lt hx
  refine ⟨h.drops.ticketed, fun {k k' x x'} hk hk' hsame => ?_, fun {k x} hk => ?_,
    fun {k x} hk hphase => ?_, fun {k x since} hk hphase => ?_⟩
  · -- Of two requests each is the new one or an old one, and the ticket of the new one is new.
    rcases h.live_cases hk with ⟨rfl, hnew, -⟩ | hold <;>
      rcases h.live_cases hk' with ⟨rfl, hnew', -⟩ | hold'
    · rfl
    · exact absurd (hsame.symm.trans hnew) (Nat.ne_of_lt (hless hold'))
    · exact absurd (hsame.trans hnew') (Nat.ne_of_lt (hless hold))
    · exact hc.apart hold hold' hsame
  · rcases h.live_cases hk with ⟨-, hnew, -⟩ | hold
    · exact hnew ▸ h.ticket_lt
    · exact Nat.lt_trans (hless hold) h.ticket_lt
  · rcases h.live_cases hk with ⟨-, -, hdelivery, -⟩ | hold
    · exact hdelivery hphase
    · obtain ⟨record, hr, hticket⟩ := hc.delivery hold hphase
      exact ⟨record, h.drops.kept hr id, hticket⟩
  · rcases h.live_cases hk with ⟨-, -, -, hresponse⟩ | hold
    · exact hresponse since hphase
    · exact hc.not_live h.drops.advances hold (hc.response hold hphase)

/-! ### Before any time passes -/

theorem Moves.acts (h : Moves event e e' effects) (hc : e.Coupled) : Acts event e e' effects :=
  ⟨h.now_eq, h.coupled hc, h.advances, h.emissions, fun k _ => h.fate k⟩

/-- Whatever follows on an action belongs to the same event. -/
theorem Acts.moves (h : Acts event e e' effects) (h' : Moves event e' e'' effects')
    (hc : e.Coupled) : Acts event e e'' (effects ++ effects') where
  now_eq := h'.now_eq.trans h.now_eq
  coupled := h'.coupled h.coupled
  advances := h.advances.trans h'.advances
  emissions x hx ticket hticket := by
    rcases List.mem_append.1 hx with hx | hx
    · exact h.emissions x hx ticket hticket
    · exact h.advances.le.trans (h'.emissions x hx ticket hticket)
  fate k hk := (h.fate k hk).trans (h'.fate k) hc h.advances h'.advances h.now_eq

theorem Departs.acts (h : Departs e.nextRequest a e e' effects) (hc : e.Coupled) :
    Acts event e e' effects where
  now_eq := h.now_eq
  coupled := h.coupled hc
  advances := h.drops.advances
  emissions x hx ticket hticket := by
    have hnew := (h.emissions x hx).2.symm.trans hticket
    exact Nat.le_of_eq (h.ticket_eq.symm.trans (Option.some.inj hnew))
  fate k hk := fate_of_same _ h.drops (h.others k (Nat.ne_of_lt hk)) (fun _ _ hd => hd)
    (Effects.finishes_of_nil h.finished)

/-- A request that is refused ends at once, and nothing else happens. -/
theorem Coupled.acts_refused (h : e.Coupled) (hnow : e'.link.now = e.link.now)
    (hdrops : e.transmission.Drops e'.transmission fun _ => False) (hlive : e'.live = e.live)
    {time : Nat} {result : Except (Failure Peer) Response} :
    Acts event e e' { finished := [⟨time, e.nextRequest, result⟩] } := by
  have hsame : Moves event e e' {} := moves_of_same hnow hdrops hlive rfl (List.forall_mem_nil _)
  refine ⟨hnow, hsame.coupled h, hsame.advances, List.forall_mem_nil _, fun k hk => ?_⟩
  exact fate_of_same _ hdrops (hlive ▸ rfl) (fun _ _ hd => hd)
    (Effects.finishes_of_ne rfl (Nat.ne_of_lt hk))

omit [DecidableEq Peer] in
/-- The number and the token that a request gets change nothing about requests and messages. -/
theorem numbered_same (request : Request) (e : Endpoint Peer) :
    (e.numbered request).live = e.live ∧
      (e.numbered request).transmission.records = e.transmission.records ∧
        (e.numbered request).transmission.nextTicket = e.transmission.nextTicket := by
  obtain ⟨draws, hframe⟩ := addToken_frame request e
  rw [numbered, hframe]
  exact ⟨rfl, rfl, rfl⟩

theorem Coupled.numbered (h : e.Coupled) (request : Request) : (e.numbered request).Coupled := by
  obtain ⟨hlive, hrecords, hnext⟩ := numbered_same request e
  exact h.congr hlive hrecords hnext

theorem Coupled.acts_request (h : e.Coupled) (peer : Peer) (request : Request) :
    Acts (.request peer request) e (e.request peer request).1 (e.request peer request).2 := by
  have hnumbered := h.numbered request
  have hsame := numbered_same request e
  -- Nothing goes out if the token or the message is refused.
  cases hrequest : (e.addToken request).2 with
  | error fault =>
    rw [request_of_error peer hrequest]
    exact h.acts_refused (congrArg Link.now (link_numbered request e))
      (h.ticketed.drops_same hsame.2.1 hsame.2.2) hsame.1
  | ok request' =>
    rw [request_eq peer hrequest]
    have hlaunch : Acts (.request peer request) e
        ((e.numbered request).launch e.nextRequest peer request').1
        ((e.numbered request).launch e.nextRequest peer request').2 := by
      cases hresult : ((e.numbered request).transmission.send (e.numbered request).link peer
          request'.message).result with
      | error failure =>
        rw [launch_of_error hresult]
        have hdrops := hnumbered.ticketed.drops_send (e.numbered request).link peer request'.message
        refine h.acts_refused ?_ (hdrops.of_same ?_ ?_) ?_
        · exact congrArg Link.now (link_numbered request e)
        · exact hsame.2.1
        · exact hsame.2.2
        · exact hsame.1
      | ok receipt => exact (hnumbered.departs hresult e.nextRequest).of_numbered.acts h
    exact hlaunch.moves (hlaunch.coupled.moves_displace _) h

/-- What an endpoint does at an event before any time passes. -/
theorem Coupled.acts (h : e.Coupled) (hseated : e.Seated) {event : Event Peer}
    (hsleep : ∀ ms, event ≠ .sleep ms) :
    ∃ e₁ effects answer, Acts event e e₁ effects ∧ e₁.Seated ∧
      e.step event = e₁.settle answer effects := by
  -- What every event does before time passes is a move, except for sleeping.
  cases event with
  | datagram peer bytes =>
    exact ⟨_, _, _, (h.moves_receive peer bytes).acts h,
      (hseated.spares_receive 0 peer bytes).seated, rfl⟩
  | request peer request =>
    exact ⟨_, _, _, h.acts_request peer request, hseated.request peer request, rfl⟩
  | abandon k => exact ⟨_, _, .done, (h.moves_abandon k).acts h, hseated.abandon k, rfl⟩
  | respond responder response =>
    exact ⟨_, _, _, (h.moves_respond responder response).acts h,
      (hseated.spares_respond 0 responder response).seated, rfl⟩
  | shutdown => exact ⟨_, _, .done, (moves_shutdown e).acts h, seated_shutdown e, rfl⟩
  | sleep ms => exact absurd rfl (hsleep ms)

end Coap.Endpoint
