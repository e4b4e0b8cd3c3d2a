import Coap.Proofs.Endpoint.Emission

/-!
# Requests and their messages

As long as the message of a request is to be acknowledged it is in flight, and once the request goes
on to wait for its response, or has ended, it is not (`Endpoint.Coupled`). What an endpoint does at
an event while no time passes keeps requests and messages coupled, and it decides the fate of each
request (`Endpoint.Fate`): it may be called off, arrive or end, and in the last two cases its
message is in flight no more.

* `Endpoint.Moves.coupled`: requests and messages stay coupled;
* `Endpoint.Coupled.moves_receive`, `Endpoint.Coupled.moves_respond`,
  `Endpoint.Coupled.moves_displace`, `Endpoint.Coupled.moves_abandon`, `Endpoint.moves_shutdown`:
  what an endpoint does at an event.
-/

namespace Coap

variable {Peer : Type} [DecidableEq Peer]

/-! ### Messages in flight -/

namespace Transmission

/-- Some messages are in flight no more, and all others are as before. -/
structure Drops (t t' : Transmission Peer) (dropped : Nat → Prop) : Prop where
  advances : t.Advances t'
  ticketed : t'.Ticketed
  gone : ∀ {ticket}, dropped ticket → ¬ t'.Live ticket
  kept : ∀ {peer id record}, t.records.find? peer id = some record → ¬ dropped record.ticket →
    t'.records.find? peer id = some record

variable {t t' : Transmission Peer} {link : Link} {dropped : Nat → Prop}

/-- Nothing changes about the messages in flight. -/
theorem Ticketed.drops_same (h : t.Ticketed) (records : t'.records = t.records)
    (next : t'.nextTicket = t.nextTicket) : t.Drops t' fun _ => False := by
  have hsame : t.Change ({} : Link) none t' {} := .still records next
  exact ⟨hsame.advances, h.congr records (Nat.le_of_eq next.symm), fun hd => hd.elim,
    fun hr _ => records ▸ hr⟩

theorem Drops.of_same {t₀ : Transmission Peer} (h : t₀.Drops t' dropped)
    (records : t₀.records = t.records) (next : t₀.nextTicket = t.nextTicket) :
    t.Drops t' dropped := by
  obtain ⟨⟨hle, hfound⟩, hticketed, hgone, hkept⟩ := h
  rw [next] at hle hfound
  rw [records] at hfound hkept
  exact ⟨⟨hle, hfound⟩, hticketed, hgone, hkept⟩

/-- A message that is accepted drops nothing that was in flight. -/
theorem Ticketed.drops_accepts (h : t.Ticketed) {peer : Peer} {m : Message} {sent : Sent Peer}
    (haccepts : t.Accepts link peer m sent) : t.Drops sent.transmission fun _ => False := by
  have hchange : t.Change link (some t.nextTicket) sent.transmission sent.progress :=
    .accept haccepts
  refine ⟨hchange.advances, (Turn.of_change h hchange).ticketed, fun hd => hd.elim,
    fun {peer' id' record} hr _ => ?_⟩
  cases haccepts with
  | once type_eq unconfirmed encoded records next => exact records ▸ hr
  | start type_eq encoded free drawn records next =>
    rw [records, Ledger.find?_insert, if_neg, hr]
    rintro ⟨rfl, rfl⟩
    cases free.symm.trans hr

/-- To send a message drops nothing that was in flight. -/
theorem Ticketed.drops_send (h : t.Ticketed) (link : Link) (peer : Peer) (m : Message) :
    t.Drops (t.send link peer m).transmission fun _ => False := by
  rcases t.send_cases link peer m with ⟨-, -, records, next⟩ | haccepts
  · exact h.drops_same records next
  · exact h.drops_accepts haccepts

/-- A message that is taken out was the only one with its ticket. -/
theorem Ticketed.drops_erase (h : t.Ticketed) {peer : Peer} {id : UInt16} {record : Record}
    (found : t.records.find? peer id = some record) (records : t'.records = t.records.erase peer id)
    (next : t'.nextTicket = t.nextTicket) : t.Drops t' (· = record.ticket) := by
  have hchange : t.Change ({} : Link) none t'
      { resolutions := [⟨({} : Link).now, record.ticket, .reset⟩] } := .finish found records next
  have hturn := Turn.of_change h hchange
  refine ⟨hchange.advances, hturn.ticketed, fun {ticket} hd => ?_,
    fun {peer' id' record'} hr hd => ?_⟩
  · rw [hd]
    exact (hturn.resolutions _ (List.mem_singleton_self _)).2
  · rw [records, Ledger.find?_erase, if_neg, hr]
    rintro ⟨rfl, rfl⟩
    exact hd (congrArg Record.ticket (Option.some.inj (hr.symm.trans found)))

/-- When all messages are called off, all that is in flight is dropped. -/
theorem drops_close (link : Link) (t : Transmission Peer) :
    t.Drops (t.close link.now).1 fun _ => True := by
  refine ⟨(.close : t.Change link none _ _).advances, ⟨fun hr => ?_, fun hr => ?_⟩,
    fun _ hlive => ?_, fun _ hd => absurd trivial hd⟩
  · cases hr
  · cases hr
  · obtain ⟨peer, id, record, hr, -⟩ := hlive
    cases hr

/-- Whatever goes out when a message is sent has a new ticket. -/
theorem ticket_of_mem_send {peer : Peer} {m : Message} {x : Emission Peer}
    (h : x ∈ (t.send link peer m).progress.emissions) :
    x.time = link.now ∧ x.ticket? = some t.nextTicket := by
  rcases t.send_cases link peer m with ⟨-, hprogress, -⟩ | haccepts
  · rw [hprogress] at h
    cases h
  · generalize t.send link peer m = sent at h haccepts
    cases haccepts with
    | once =>
      obtain rfl := List.mem_singleton.1 h
      exact ⟨rfl, rfl⟩
    | start =>
      obtain rfl := List.mem_singleton.1 h
      exact ⟨rfl, rfl⟩

end Transmission

namespace Endpoint

variable {e e' e'' : Endpoint Peer} {effects effects' : Effects Peer} {event : Event Peer} {k : Nat}
  {x : Exchange Peer}

/-- The requests that wait have messages of their own, which are in flight just as long as they are
    to be acknowledged. -/
structure Coupled (e : Endpoint Peer) : Prop where
  ticketed : e.transmission.Ticketed
  apart : e.Apart
  lt : ∀ {k x}, e.live.find? k = some x → x.ticket < e.transmission.nextTicket
  delivery : ∀ {k x}, e.live.find? k = some x → x.phase = .delivery →
    ∃ record, e.transmission.records.find? x.peer x.id = some record ∧ record.ticket = x.ticket
  response : ∀ {k x since}, e.live.find? k = some x → x.phase = .response since →
    ¬ e.transmission.Live x.ticket

/-- An event is a datagram that holds the bare acknowledgement of the message of a request. -/
def Event.Acknowledges (event : Event Peer) (x : Exchange Peer) : Prop :=
  ∃ bytes m, event = .datagram x.peer bytes ∧ Message.decode bytes = .ok m ∧
    m.type? = some .ack ∧ m.code = .empty ∧ m.id? = some x.id

/-- A result that is not the failure of a time-out. -/
structure Untimed (result : Except (Failure Peer) Response) : Prop where
  acknowledged : ∀ peer id, result ≠ .error (.unacknowledged peer id)
  answered : result ≠ .error .noResponse

/-- What becomes of a request at an event while no time passes. -/
inductive Fate (event : Event Peer) (k : Nat) (e e' : Endpoint Peer) (effects : Effects Peer) :
    Prop where
  /-- It does not wait. -/
  | gone (before : e.live.find? k = none) (after : e'.live.find? k = none)
      (finishes : effects.finishes k = [])
  /-- Nothing happens to it or to its message. -/
  | kept {x : Exchange Peer} (before : e.live.find? k = some x) (after : e'.live.find? k = some x)
      (record : ∀ {peer id record}, e.transmission.records.find? peer id = some record →
        record.ticket = x.ticket → e'.transmission.records.find? peer id = some record)
      (finishes : effects.finishes k = [])
  /-- Nobody waits for its response any more. -/
  | calledOff {x : Exchange Peer} (event_eq : event = .abandon k)
      (before : e.live.find? k = some x) (after : e'.live.find? k = none)
      (finishes : effects.finishes k = [])
  /-- It is acknowledged, and its response is to come. -/
  | arrived {x : Exchange Peer} (acknowledges : event.Acknowledges x)
      (before : e.live.find? k = some x) (phase : x.phase = .delivery)
      (after : e'.live.find? k = some { x with phase := .response e.link.now })
      (silent : ¬ e'.transmission.Live x.ticket) (finishes : effects.finishes k = [])
  /-- It ends. -/
  | ended {x : Exchange Peer} {result : Except (Failure Peer) Response}
      (before : e.live.find? k = some x) (after : e'.live.find? k = none)
      (silent : ¬ e'.transmission.Live x.ticket)
      (finishes : effects.finishes k = [⟨e.link.now, k, result⟩]) (untimed : Untimed result)

/-- What an endpoint does at an event while no time passes. -/
structure Moves (event : Event Peer) (e e' : Endpoint Peer) (effects : Effects Peer) : Prop where
  now_eq : e'.link.now = e.link.now
  ticketed : e'.transmission.Ticketed
  advances : e.transmission.Advances e'.transmission
  /-- No copy of a message that was in flight before goes out. -/
  emissions : ∀ x ∈ effects.emissions, ∀ ticket, x.ticket? = some ticket →
    e.transmission.nextTicket ≤ ticket
  fate : ∀ k, Fate event k e e' effects

omit [DecidableEq Peer] in
theorem untimed_ok (response : Response) :
    Untimed (.ok response : Except (Failure Peer) Response) :=
  ⟨fun _ _ h => (by cases h), fun h => by cases h⟩

omit [DecidableEq Peer] in
theorem untimed_closed : Untimed (.error .closed : Except (Failure Peer) Response) :=
  ⟨fun _ _ h => (by cases h), fun h => by cases h⟩

omit [DecidableEq Peer] in
theorem untimed_reset (peer : Peer) (id : UInt16) : Untimed (.error (.reset peer id)) :=
  ⟨fun _ _ h => (by cases h), fun h => by cases h⟩

omit [DecidableEq Peer] in
/-- A message that is read as a response, or cannot be, is no time-out. -/
theorem untimed_ofMessage (m : Message) :
    Untimed ((Response.ofMessage m).mapError .invalid : Except (Failure Peer) Response) := by
  cases Response.ofMessage m <;> exact ⟨fun _ _ h => (by cases h), fun h => by cases h⟩

/-- It matters only which requests wait, and what is in flight. -/
theorem Coupled.congr (h : e.Coupled) (hlive : e'.live = e.live)
    (hrecords : e'.transmission.records = e.transmission.records)
    (hnext : e'.transmission.nextTicket = e.transmission.nextTicket) : e'.Coupled where
  ticketed := h.ticketed.congr hrecords (Nat.le_of_eq hnext.symm)
  apart hk hk' := h.apart (hlive ▸ hk) (hlive ▸ hk')
  lt hk := hnext ▸ h.lt (hlive ▸ hk)
  delivery hk hphase := hrecords ▸ h.delivery (hlive ▸ hk) hphase
  response hk hphase :=
    mt (Transmission.live_congr hrecords).1 (h.response (hlive ▸ hk) hphase)

theorem Coupled.not_live (h : e.Coupled) (hadvances : e.transmission.Advances e'.transmission)
    (hk : e.live.find? k = some x) (hgone : ¬ e.transmission.Live x.ticket) :
    ¬ e'.transmission.Live x.ticket :=
  hadvances.not_live (h.lt hk) hgone

/-- A request that waits afterwards has waited before, for the same message. -/
theorem Fate.before (h : Fate event k e e' effects) {x' : Exchange Peer}
    (hk : e'.live.find? k = some x') :
    ∃ x, e.live.find? k = some x ∧ x'.ticket = x.ticket := by
  cases h with
  | gone before after => cases hk.symm.trans after
  | kept before after =>
    obtain rfl := Option.some.inj (hk.symm.trans after)
    exact ⟨_, before, rfl⟩
  | calledOff event_eq before after => cases hk.symm.trans after
  | arrived acknowledges before phase after =>
    obtain rfl := Option.some.inj (hk.symm.trans after)
    exact ⟨_, before, rfl⟩
  | ended before after => cases hk.symm.trans after

/-- Requests and messages stay coupled. -/
theorem Moves.coupled (h : Moves event e e' effects) (hc : e.Coupled) : e'.Coupled where
  ticketed := h.ticketed
  -- Who waits afterwards waited before under the same ticket.
  apart hk hk' hticket := by
    obtain ⟨x, hx, hsame⟩ := (h.fate _).before hk
    obtain ⟨x', hx', hsame'⟩ := (h.fate _).before hk'
    exact hc.apart hx hx' (hsame.symm.trans (hticket.trans hsame'))
  lt hk := by
    obtain ⟨x, hx, hsame⟩ := (h.fate _).before hk
    rw [hsame]
    exact Nat.lt_of_lt_of_le (hc.lt hx) h.advances.le
  delivery {k x} hk hphase := by
    -- Only who was kept is still in its first phase, and then its message is still in flight.
    cases h.fate k with
    | gone before after => cases hk.symm.trans after
    | kept before after record =>
      obtain rfl := Option.some.inj (hk.symm.trans after)
      obtain ⟨r, hr, hticket⟩ := hc.delivery before hphase
      exact ⟨r, record hr hticket, hticket⟩
    | calledOff event_eq before after => cases hk.symm.trans after
    | arrived acknowledges before phase after =>
      obtain rfl := Option.some.inj (hk.symm.trans after)
      cases hphase
    | ended before after => cases hk.symm.trans after
  response {k x since} hk hphase := by
    -- Who was kept in the second phase has no message in flight, and who has just arrived has none
    -- any more.
    cases h.fate k with
    | gone before after => cases hk.symm.trans after
    | kept before after =>
      obtain rfl := Option.some.inj (hk.symm.trans after)
      exact hc.not_live h.advances before (hc.response before hphase)
    | calledOff event_eq before after => cases hk.symm.trans after
    | arrived acknowledges before phase after silent =>
      obtain rfl := Option.some.inj (hk.symm.trans after)
      exact silent
    | ended before after => cases hk.symm.trans after

/-! ### One request -/

/-- A request that is left alone together with its message. -/
theorem fate_of_same (e' : Endpoint Peer) {dropped : Nat → Prop}
    (hdrops : e.transmission.Drops e'.transmission dropped)
    (hlive : e'.live.find? k = e.live.find? k)
    (hkept : ∀ x, e.live.find? k = some x → ¬ dropped x.ticket)
    (hfinishes : effects.finishes k = []) : Fate event k e e' effects := by
  cases hk : e.live.find? k with
  | none => exact .gone hk (hlive.trans hk) hfinishes
  | some x =>
    exact .kept hk (hlive.trans hk) (fun hr hticket => hdrops.kept hr (hticket ▸ hkept x hk))
      hfinishes

/-- Nothing happens to any request. -/
theorem moves_of_same (hnow : e'.link.now = e.link.now)
    (hdrops : e.transmission.Drops e'.transmission fun _ => False)
    (hlive : e'.live = e.live) (hfinished : effects.finished = [])
    (hemissions : ∀ x ∈ effects.emissions, ∀ ticket, x.ticket? = some ticket →
      e.transmission.nextTicket ≤ ticket) : Moves event e e' effects where
  now_eq := hnow
  ticketed := hdrops.ticketed
  advances := hdrops.advances
  emissions := hemissions
  fate _ := fate_of_same _ hdrops (hlive ▸ rfl) (fun _ _ hd => hd)
    (Effects.finishes_of_nil hfinished)

theorem Coupled.moves_rfl (h : e.Coupled) : Moves event e e {} :=
  moves_of_same rfl (h.ticketed.drops_same rfl rfl) rfl rfl (List.forall_mem_nil _)

/-- One request ends, and its message is in flight no more. -/
theorem Coupled.moves_of_end (h : e.Coupled) (hk : e.live.find? k = some x)
    (hnow : e'.link.now = e.link.now)
    (hdrops : e.transmission.Drops e'.transmission (· = x.ticket))
    (hlive : ∀ j, e'.live.find? j = if j = k then none else e.live.find? j)
    {result : Except (Failure Peer) Response} (huntimed : Untimed result)
    (hfinished : effects.finished = [⟨e.link.now, k, result⟩])
    (hemissions : effects.emissions = []) :
    Moves event e e' effects where
  now_eq := hnow
  ticketed := hdrops.ticketed
  advances := hdrops.advances
  emissions _ hx := by
    rw [hemissions] at hx
    cases hx
  fate j := by
    -- No other request has the same ticket, so no other one loses its message.
    by_cases hj : j = k
    · subst hj
      exact .ended hk ((hlive j).trans (if_pos rfl)) (hdrops.gone rfl)
        (Effects.finishes_self hfinished) huntimed
    · exact fate_of_same _ hdrops ((hlive j).trans (if_neg hj))
        (fun x' hx' hticket => hj (h.apart hx' hk hticket)) (Effects.finishes_of_ne hfinished hj)

/-- The message of a request is called off if it is in flight. -/
theorem Coupled.drops_withdraw (h : e.Coupled) (hk : e.live.find? k = some x) :
    e.transmission.Drops (e.withdraw x).transmission (· = x.ticket) := by
  rw [withdraw]
  cases hphase : x.phase with
  | delivery =>
    obtain ⟨record, hr, hticket⟩ := h.delivery hk hphase
    rw [← hticket]
    refine h.ticketed.drops_erase hr ?_ ?_
    · dsimp only
      rw [Transmission.cancel, hr]
    · dsimp only
      rw [Transmission.cancel, hr]
  | response since =>
    exact ⟨.rfl, h.ticketed, fun hd => hd ▸ h.response hk hphase, fun hr _ => hr⟩

/-- Nothing happens to a request that does not wait. -/
theorem Fate.of_none (h : Fate event k e e' effects) (hk : e.live.find? k = none) :
    e'.live.find? k = none ∧ effects.finishes k = [] := by
  cases h with
  | gone before after finishes => exact ⟨after, finishes⟩
  | kept before => cases hk.symm.trans before
  | calledOff event_eq before => cases hk.symm.trans before
  | arrived acknowledges before => cases hk.symm.trans before
  | ended before => cases hk.symm.trans before

/-- One thing after another. -/
theorem Fate.trans (h : Fate event k e e' effects) (h' : Fate event k e' e'' effects')
    (hc : e.Coupled) (hadvances : e.transmission.Advances e'.transmission)
    (hadvances' : e'.transmission.Advances e''.transmission) (hnow : e'.link.now = e.link.now) :
    Fate event k e e'' (effects ++ effects') := by
  cases h with
  | gone before after finishes =>
    obtain ⟨after', finishes'⟩ := h'.of_none after
    exact .gone before after' (Effects.finishes_append_eq finishes finishes')
  | calledOff event_eq before after finishes =>
    obtain ⟨after', finishes'⟩ := h'.of_none after
    exact .calledOff event_eq before after' (Effects.finishes_append_eq finishes finishes')
  | ended before after silent finishes untimed =>
    obtain ⟨after', finishes'⟩ := h'.of_none after
    have hlt := Nat.lt_of_lt_of_le (hc.lt before) hadvances.le
    exact .ended before after' (hadvances'.not_live hlt silent)
      (Effects.finishes_append_eq finishes finishes') untimed
  | kept before after record finishes =>
    cases h' with
    | gone before' => cases after.symm.trans before'
    | kept before' after' record' finishes' =>
      obtain rfl := Option.some.inj (after.symm.trans before')
      exact .kept before after' (fun hr hticket => record' (record hr hticket) hticket)
        (Effects.finishes_append_eq finishes finishes')
    | calledOff event_eq before' after' finishes' =>
      exact .calledOff event_eq before after' (Effects.finishes_append_eq finishes finishes')
    | arrived acknowledges before' phase after' silent' finishes' =>
      obtain rfl := Option.some.inj (after.symm.trans before')
      exact .arrived acknowledges before phase (hnow ▸ after') silent'
        (Effects.finishes_append_eq finishes finishes')
    | ended before' after' silent' finishes' untimed =>
      obtain rfl := Option.some.inj (after.symm.trans before')
      exact .ended before after' silent'
        (hnow ▸ Effects.finishes_append_eq finishes finishes') untimed
  | arrived acknowledges before phase after silent finishes =>
    have hlt := Nat.lt_of_lt_of_le (hc.lt before) hadvances.le
    cases h' with
    | gone before' => cases after.symm.trans before'
    | kept before' after' record' finishes' =>
      obtain rfl := Option.some.inj (after.symm.trans before')
      exact .arrived acknowledges before phase after' (hadvances'.not_live hlt silent)
        (Effects.finishes_append_eq finishes finishes')
    | calledOff event_eq before' after' finishes' =>
      exact .calledOff event_eq before after' (Effects.finishes_append_eq finishes finishes')
    | arrived acknowledges' before' phase' =>
      -- It has arrived already.
      obtain rfl := Option.some.inj (after.symm.trans before')
      cases phase'
    | ended before' after' silent' finishes' untimed =>
      obtain rfl := Option.some.inj (after.symm.trans before')
      exact .ended before after' silent'
        (hnow ▸ Effects.finishes_append_eq finishes finishes') untimed

theorem Moves.trans (h : Moves event e e' effects) (h' : Moves event e' e'' effects')
    (hc : e.Coupled) : Moves event e e'' (effects ++ effects') where
  now_eq := h'.now_eq.trans h.now_eq
  ticketed := h'.ticketed
  advances := h.advances.trans h'.advances
  emissions x hx ticket hticket := by
    rcases List.mem_append.1 hx with hx | hx
    · exact h.emissions x hx ticket hticket
    · exact h.advances.le.trans (h'.emissions x hx ticket hticket)
  fate k := (h.fate k).trans (h'.fate k) hc h.advances h'.advances h.now_eq

/-- It matters only which requests wait, and what is in flight. -/
theorem Moves.of_frame {e₀ : Endpoint Peer} (h : Moves event e₀ e' effects)
    (hlink : e₀.link = e.link) (hlive : e₀.live = e.live)
    (htransmission : e₀.transmission = e.transmission) : Moves event e e' effects := by
  obtain ⟨hnow, hticketed, hadvances, hemissions, hfate⟩ := h
  rw [hlink] at hnow
  rw [htransmission] at hadvances hemissions
  refine ⟨hnow, hticketed, hadvances, hemissions, fun k => ?_⟩
  -- Each fate is read for the same requests and the same records, by other names.
  cases hfate k with
  | gone before after finishes => exact .gone (hlive ▸ before) after finishes
  | kept before after record finishes =>
    exact .kept (hlive ▸ before) after (htransmission ▸ record) finishes
  | calledOff event_eq before after finishes =>
    exact .calledOff event_eq (hlive ▸ before) after finishes
  | arrived acknowledges before phase after silent finishes =>
    exact .arrived acknowledges (hlive ▸ before) phase (hlink ▸ after) silent finishes
  | ended before after silent finishes untimed =>
    exact .ended (hlive ▸ before) after silent (hlink ▸ finishes) untimed

/-- Apart from the ends of requests it matters only what goes out under a ticket. -/
theorem Moves.congr (h : Moves event e e' effects)
    (hfinished : effects'.finished = effects.finished)
    (hemissions : ∀ x ∈ effects'.emissions, x.ticket?.isSome → x ∈ effects.emissions) :
    Moves event e e' effects' := by
  have hfinishes : ∀ k, effects'.finishes k = effects.finishes k := fun k => by
    rw [Effects.finishes, Effects.finishes, hfinished]
  refine ⟨h.now_eq, h.ticketed, h.advances, fun x hx ticket hticket => ?_, fun k => ?_⟩
  · exact h.emissions x (hemissions x hx (hticket ▸ rfl)) ticket hticket
  · -- The fates do not read anything but the ends, and these are the same.
    cases h.fate k with
    | gone before after finishes => exact .gone before after ((hfinishes k).trans finishes)
    | kept before after record finishes =>
      exact .kept before after record ((hfinishes k).trans finishes)
    | calledOff event_eq before after finishes =>
      exact .calledOff event_eq before after ((hfinishes k).trans finishes)
    | arrived acknowledges before phase after silent finishes =>
      exact .arrived acknowledges before phase after silent ((hfinishes k).trans finishes)
    | ended before after silent finishes untimed =>
      exact .ended before after silent ((hfinishes k).trans finishes) untimed

/-! ### The end of a request -/

/-- The waiter whose place is emptied ends at once. -/
theorem Coupled.moves_close (h : e.Coupled) (waiter? : Option Nat) :
    Moves event e (e.close e.link.now waiter?).1 (e.close e.link.now waiter?).2 := by
  cases waiter? with
  | none => exact h.moves_rfl
  | some k =>
    rw [close]
    cases hk : e.live.find? k with
    | none => exact h.moves_rfl
    | some x =>
      have hdrops := h.drops_withdraw hk
      obtain ⟨transmission, hframe⟩ := withdraw_frame x e
      dsimp only
      rw [hframe] at hdrops ⊢
      exact h.moves_of_end hk rfl hdrops (Table.find?_erase _ _) untimed_closed rfl rfl

/-- A request ends whose message is in flight no more, and so does whoever waits in its place. -/
theorem Coupled.moves_finish (h : e.Coupled) (hk : e.live.find? k = some x)
    {transmission : Transmission Peer} (hdrops : e.transmission.Drops transmission (· = x.ticket))
    {result : Except (Failure Peer) Response} (huntimed : Untimed result) :
    Moves event e (Endpoint.finish e.link.now k x result { e with transmission }).1
      (Endpoint.finish e.link.now k x result { e with transmission }).2 := by
  have hleave : Moves event e
      { e with transmission, live := e.live.erase k, waiting := e.waiting.erase x.key }
      { finished := [⟨e.link.now, k, result⟩] } :=
    h.moves_of_end hk rfl hdrops (Table.find?_erase _ _) huntimed rfl rfl
  exact hleave.trans ((hleave.coupled h).moves_close (e.waiting.find? x.key)) h

/-- A request that ends leaves together with its message. -/
theorem Coupled.moves_withdraw_finish (h : e.Coupled) (hk : e.live.find? k = some x)
    {result : Except (Failure Peer) Response} (huntimed : Untimed result) :
    Moves event e ((e.withdraw x).finish e.link.now k x result).1
      ((e.withdraw x).finish e.link.now k x result).2 := by
  have hdrops := h.drops_withdraw hk
  obtain ⟨transmission, hframe⟩ := withdraw_frame x e
  rw [hframe] at hdrops ⊢
  exact h.moves_finish hk hdrops huntimed

theorem Coupled.moves_displace (h : e.Coupled) (waiter? : Option Nat) :
    Moves event e (e.displace waiter?).1 (e.displace waiter?).2 := by
  cases waiter? with
  | none => exact h.moves_rfl
  | some k =>
    rw [displace]
    cases hk : e.live.find? k with
    | none => exact h.moves_rfl
    | some x => exact h.moves_withdraw_finish hk untimed_closed

/-- Nobody waits for the response to a request any more. -/
theorem Coupled.moves_abandon (h : e.Coupled) (k : Nat) :
    Moves (.abandon k) e (e.abandon k) {} where
  now_eq := rfl
  ticketed := h.ticketed
  advances := .rfl
  emissions := List.forall_mem_nil _
  fate j := by
    have hlive : (e.abandon k).live.find? j = if j = k then none else e.live.find? j :=
      Table.find?_erase _ _ _
    -- Who is not there any more is gone, and the others are as they were.
    by_cases hj : j = k
    · subst hj
      rw [if_pos rfl] at hlive
      cases hk : e.live.find? j with
      | none => exact .gone hk hlive rfl
      | some x => exact .calledOff rfl hk hlive rfl
    · rw [if_neg hj] at hlive
      exact fate_of_same (e.abandon k) (h.ticketed.drops_same rfl rfl) hlive (fun _ _ hd => hd)
        rfl

/-- Every request ends. -/
theorem moves_shutdown (e : Endpoint Peer) : Moves event e e.shutdown.1 e.shutdown.2 where
  now_eq := rfl
  ticketed := (Transmission.drops_close e.link e.transmission).ticketed
  advances := (Transmission.drops_close e.link e.transmission).advances
  emissions := List.forall_mem_nil _
  fate k := by
    cases hk : e.live.find? k with
    | none => exact .gone hk rfl (finishes_shutdown_of_none hk)
    | some x =>
      exact .ended hk rfl ((Transmission.drops_close e.link e.transmission).gone trivial)
        (finishes_shutdown_of_some hk) untimed_closed

/-! ### Responses and datagrams -/

theorem Coupled.moves_respond (h : e.Coupled) (responder : Responder Peer) (response : Response) :
    Moves event e (e.respond responder response).1 (e.respond responder response).2.1 := by
  rw [respond]
  split
  · exact h.moves_rfl
  · refine moves_of_same rfl (h.ticketed.drops_send _ _ _) rfl rfl fun x hx ticket hticket => ?_
    obtain ⟨-, hnew⟩ := Transmission.ticket_of_mem_send hx
    exact Nat.le_of_eq (Option.some.inj (hnew.symm.trans hticket))

theorem Coupled.moves_dispatch (h : e.Coupled) (peer : Peer) (request : Request) :
    Moves event e (e.dispatch peer request).1 (e.dispatch peer request).2 := by
  rw [dispatch]
  split
  · exact h.moves_rfl.congr rfl fun x hx _ => hx
  · exact (h.moves_respond _ _).congr rfl fun x hx _ => hx

/-- A response ends the request that waits for it. -/
theorem Coupled.moves_deliver (h : e.Coupled) (peer : Peer) (response : Response) :
    Moves event e (e.deliver peer response).1 (e.deliver peer response).2 := by
  have hleave : ∀ waiting, Coupled { e with waiting } := fun _ => h.congr rfl rfl rfl
  rw [deliver]
  dsimp only
  split
  · exact h.moves_rfl
  · rename_i k _
    have hcoupled := hleave (e.waiting.erase (peer, response.message.token?.getD []))
    -- The entry of the table is taken out in any case, but it may belong to nobody.
    cases hk : e.live.find? k with
    | none =>
      have hnothing : Moves event _ _ _ := hcoupled.moves_rfl
      exact hnothing.of_frame rfl rfl rfl
    | some x =>
      have hfinish : Moves event _ _ _ := hcoupled.moves_withdraw_finish hk (untimed_ok response)
      exact hfinish.of_frame rfl rfl rfl

/-- As long as its message is in flight a request waits for the delivery. -/
theorem Coupled.phase_of_live (h : e.Coupled) (hk : e.live.find? k = some x)
    (hlive : e.transmission.Live x.ticket) : x.phase = .delivery := by
  cases hphase : x.phase with
  | delivery => rfl
  | response since => exact absurd hlive (h.response hk hphase)

/-- The end of a message concerns the request at most that it carries. -/
theorem Coupled.moves_resolve (h : e.Coupled) {peer : Peer} {bytes : Bytes} {m : Message}
    {id : UInt16} {record : Record} {outcome : Outcome Peer} {t : Transmission Peer}
    (hdecode : Message.decode bytes = .ok m) (hanswers : Transmission.Answers m outcome)
    (hid : m.id? = some id) (found : e.transmission.records.find? peer id = some record)
    (hdrops : e.transmission.Drops t (· = record.ticket)) :
    Moves (.datagram peer bytes) e
      (Endpoint.resolve ⟨e.link.now, record.ticket, outcome⟩ { e with transmission := t }).1
      (Endpoint.resolve ⟨e.link.now, record.ticket, outcome⟩ { e with transmission := t }).2 := by
  have howner? : owner? record.ticket { e with transmission := t } = e.owner? record.ticket := rfl
  rw [resolve, howner?]
  cases howner : e.owner? record.ticket with
  | none =>
    refine ⟨rfl, hdrops.ticketed, hdrops.advances, List.forall_mem_nil _, fun k => ?_⟩
    refine fate_of_same { e with transmission := t } hdrops rfl (fun x hk hsame => ?_) rfl
    have hphase := h.phase_of_live hk ⟨peer, id, record, found, hsame.symm⟩
    cases howner.symm.trans ((owner?_eq_some_iff h.apart).2 ⟨hk, hsame, hphase⟩)
  | some owner =>
    obtain ⟨k, x⟩ := owner
    obtain ⟨hk, hsame, hphase⟩ := (owner?_eq_some_iff h.apart).1 howner
    rw [← hsame] at hdrops
    cases hanswers with
    | reset type_eq => exact h.moves_finish hk hdrops (untimed_reset _ _)
    | acknowledged type_eq =>
      dsimp only
      split
      · rename_i hempty
        -- The message is the one under the key of the request.
        have hacknowledges : Event.Acknowledges (.datagram peer bytes) x := by
          obtain ⟨record', found', hticket'⟩ := h.delivery hk hphase
          obtain ⟨rfl, rfl⟩ := Prod.mk.inj
            (h.ticketed.apart found found' (hsame.symm.trans hticket'.symm))
          exact ⟨bytes, m, rfl, hdecode, type_eq, beq_iff_eq.1 hempty, hid⟩
        refine ⟨rfl, hdrops.ticketed, hdrops.advances, List.forall_mem_nil _, fun j => ?_⟩
        have hlive : (Endpoint.await e.link.now k x { e with transmission := t }).live.find? j =
            if j = k then some { x with phase := .response e.link.now } else e.live.find? j :=
          Table.find?_insert _ _ _ _
        by_cases hj : j = k
        · subst hj
          exact .arrived hacknowledges hk hphase (hlive.trans (if_pos rfl)) (hdrops.gone rfl) rfl
        · exact fate_of_same (Endpoint.await e.link.now k x { e with transmission := t })
            hdrops (hlive.trans (if_neg hj)) (fun x' hx' hticket => hj (h.apart hx' hk hticket)) rfl
      · exact h.moves_finish hk hdrops (untimed_ofMessage m)

/-- An acknowledgement or a rejection concerns the request at most that its message carries. -/
theorem Coupled.moves_acknowledge (h : e.Coupled) {peer : Peer} {bytes : Bytes} {m : Message}
    (hdecode : Message.decode bytes = .ok m) :
    Moves (.datagram peer bytes) e
      (resolveAll (e.transmission.receive e.link peer m).2.toList
        { e with transmission := (e.transmission.receive e.link peer m).1 }).1
      (resolveAll (e.transmission.receive e.link peer m).2.toList
        { e with transmission := (e.transmission.receive e.link peer m).1 }).2 := by
  -- It matches nothing in flight, or it ends the message that it matches and nothing else.
  cases hresolution : (e.transmission.receive e.link peer m).2 with
  | none =>
    have hsame : (e.transmission.receive e.link peer m).1 = e.transmission := by
      rw [Transmission.receive] at hresolution ⊢
      split at hresolution
      · split at hresolution
        · cases hresolution
        · rfl
      · rfl
    rw [hsame]
    exact h.moves_rfl
  | some r =>
    obtain ⟨hanswers, id, record, hid, found, hticket⟩ :=
      Transmission.receive_eq_some hresolution
    rw [Transmission.receive_of_find? (Transmission.outcome?_eq_some_iff.2 hanswers) hid found]
      at hresolution ⊢
    obtain ⟨time, ticket, outcome⟩ := r
    obtain ⟨rfl, rfl⟩ : time = e.link.now ∧ ticket = record.ticket :=
      ⟨congrArg Resolution.time (Option.some.inj hresolution).symm, hticket⟩
    have hdrops : e.transmission.Drops { e.transmission with
        records := e.transmission.records.erase peer id } (· = record.ticket) :=
      h.ticketed.drops_erase found rfl rfl
    generalize { e.transmission with records := e.transmission.records.erase peer id } = t at hdrops
    -- There is only one end to be passed on.
    have hone : ∀ (r : Resolution Peer) (e₁ : Endpoint Peer), e₁.resolveAll [r] = e₁.resolve r :=
      fun r e₁ => Prod.ext rfl (Effects.append_empty _)
    rw [Option.toList_some, hone]
    exact h.moves_resolve hdecode hanswers hid found hdrops

theorem Coupled.moves_handOn (h : e.Coupled) (verdict : Verdict) (peer : Peer) (m : Message) :
    Moves event e (e.handOn verdict peer m).1 (e.handOn verdict peer m).2 := by
  cases verdict with
  | duplicate => exact h.moves_rfl
  | forward =>
    rw [handOn]
    split
    · exact h.moves_dispatch _ _
    · split
      · exact h.moves_deliver _ _
      · exact h.moves_rfl

/-- Whatever datagram comes in, the requests stay coupled with their messages. -/
theorem Coupled.moves_receive (h : e.Coupled) (peer : Peer) (bytes : Bytes) :
    Moves (.datagram peer bytes) e (e.receive peer bytes).1 (e.receive peer bytes).2 := by
  rw [receive]
  split
  · cases hdecode : Message.decode bytes with
    | error fault => exact h.moves_rfl
    | ok m =>
      have hreception : ∀ reception, Coupled { e with reception } := fun _ => h.congr rfl rfl rfl
      dsimp only
      rw [accept]
      split
      · exact h.moves_acknowledge hdecode
      · exact h.moves_acknowledge hdecode
      · have hhand : Moves (.datagram peer bytes) _ _ _ :=
          (hreception (e.reception.receive e.link peer m).reception).moves_handOn
            (e.reception.receive e.link peer m).verdict peer m
        have hmoves : Moves _ e _ _ := hhand.of_frame rfl rfl rfl
        refine hmoves.congr rfl fun x hx hticket => ?_
        -- A bare acknowledgement goes out under no ticket.
        rcases List.mem_append.1 hx with hx | hx
        · obtain ⟨id, rfl, -⟩ := (hears_receive hdecode).acks x hx
          cases hticket
        · exact hx
  · exact h.moves_rfl

end Endpoint

end Coap
