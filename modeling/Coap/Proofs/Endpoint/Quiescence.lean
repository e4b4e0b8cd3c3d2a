import Coap.Proofs.Endpoint.Course

/-!
# What has ended stays silent

A request ends in many ways, and in each of them its message is taken out of what is in flight: some
are about the message itself, and the others cancel it. A message that was accepted and is in flight
no more does not come back (`Transmission.Spent`), so nothing of it is sent from then on.

* `Transmission.Spent.step`, `Endpoint.spent_run`: nothing of a spent message is sent;
* `Endpoint.nextTicket_of_refused`: a request that is refused has no message;
* `Endpoint.quiescence`: nothing of a request is sent after its end.
-/

namespace Coap

variable {Peer : Type} [DecidableEq Peer]

namespace Transmission

/-- A message was accepted and is in flight no more. -/
structure Spent (t : Transmission Peer) (ticket : Nat) : Prop where
  lt : ticket < t.nextTicket
  gone : ¬ t.Live ticket

variable {t t' : Transmission Peer} {ticket : Nat}

/-- A ticket that is spent stays so. -/
theorem Spent.advances (h : t.Spent ticket) (hadvances : t.Advances t') : t'.Spent ticket :=
  ⟨Nat.lt_of_lt_of_le h.lt hadvances.le, hadvances.not_live h.lt h.gone⟩

/-- An operation that accepts no message gives out no ticket. -/
theorem Change.nextTicket_eq {link : Link} {p : Progress Peer} (h : t.Change link none t' p) :
    t'.nextTicket = t.nextTicket := by
  cases h with
  | still records next => exact next
  | finish found records next => exact next
  | close => rfl

end Transmission

namespace Endpoint

variable {e : Endpoint Peer} {k ticket : Nat} {a : Asked Peer}

/-! ### Spent messages -/

/-- No copy is sent under a ticket that is spent. -/
theorem Issues.ticket_ne {x : Emission Peer} (h : e.Issues x)
    (hspent : e.transmission.Spent ticket) : x.ticket? ≠ some ticket := by
  intro hticket
  cases h with
  | copy ticket_eq flies =>
    obtain rfl := Option.some.inj (ticket_eq.symm.trans hticket)
    exact flies.elim hspent.gone (Nat.not_le.2 hspent.lt)
  | ack found acknowledged emission_eq =>
    rw [emission_eq] at hticket
    cases hticket

/-- Nothing of a spent message is sent at an event, and it stays spent. -/
theorem spent_step (h : e.transmission.Spent ticket) (event : Event Peer) :
    (e.step event).1.transmission.Spent ticket ∧
      ∀ x ∈ (e.step event).2.effects.emissions, x.ticket? ≠ some ticket := by
  -- A datagram may be acknowledged at once, but that goes out under no ticket.
  by_cases hdatagram : ∃ peer bytes, event = .datagram peer bytes
  · obtain ⟨peer, bytes, rfl⟩ := hdatagram
    obtain ⟨reception, acks, effects, hhears, hproceeds, hemissions⟩ :=
      e.proceeds_datagram peer bytes
    have hspent : { e with reception }.transmission.Spent ticket := h
    refine ⟨hspent.advances hproceeds.transmission, fun x hx => ?_⟩
    rw [hemissions] at hx
    rcases List.mem_append.1 hx with hx | hx
    · obtain ⟨id, rfl, -⟩ := hhears.acks x hx
      exact fun hticket => by cases hticket
    · exact (hproceeds.emissions x hx).ticket_ne hspent
  · have hproceeds := e.proceeds_step fun peer bytes heq => hdatagram ⟨peer, bytes, heq⟩
    exact ⟨h.advances hproceeds.transmission, fun x hx => (hproceeds.emissions x hx).ticket_ne h⟩

/-- Nothing of a spent message is sent in a run, and it stays spent. -/
theorem spent_run (h : e.transmission.Spent ticket) (events : List (Event Peer)) :
    (e.run events).1.transmission.Spent ticket ∧
      ∀ x ∈ (total (e.run events).2).emissions, x.ticket? ≠ some ticket := by
  induction events using List.reverseRecOn with
  | nil => exact ⟨h, List.forall_mem_nil _⟩
  | append_singleton events event ih =>
    obtain ⟨hspent, hsilent⟩ := ih
    obtain ⟨hspent', hsilent'⟩ := spent_step hspent event
    rw [run_concat, run_concat_snd, total_concat]
    exact ⟨hspent', fun x hx => (List.mem_append.1 hx).elim (hsilent x) (hsilent' x)⟩

/-! ### Requests that are refused -/

theorem nextTicket_withdraw (exchange : Exchange Peer) (e : Endpoint Peer) :
    (e.withdraw exchange).transmission.nextTicket = e.transmission.nextTicket := by
  rw [withdraw]
  split
  · exact (e.transmission.change_cancel e.link _ _).nextTicket_eq
  · rfl

theorem nextTicket_close (time : Nat) (waiter? : Option Nat) (e : Endpoint Peer) :
    (e.close time waiter?).1.transmission.nextTicket = e.transmission.nextTicket := by
  cases waiter? with
  | none => rfl
  | some k =>
    rw [close]
    split
    · rfl
    · exact nextTicket_withdraw _ e

theorem nextTicket_displace (waiter? : Option Nat) (e : Endpoint Peer) :
    (e.displace waiter?).1.transmission.nextTicket = e.transmission.nextTicket := by
  cases waiter? with
  | none => rfl
  | some k =>
    rw [displace]
    split
    · rfl
    · exact (nextTicket_close _ _ _).trans (nextTicket_withdraw _ e)

/-- A request that does not go out gets no ticket, so there is no message of it. -/
theorem nextTicket_of_refused (hseated : e.Seated) {peer : Peer} {request : Request}
    (hrefused : ∀ k a, ¬ e.Asks (.request peer request) k a) :
    (e.step (.request peer request)).1.transmission.nextTicket = e.transmission.nextTicket := by
  have hnumbered := (numbered_same request e).2.2
  have hrequest : (e.request peer request).1.transmission.nextTicket =
      e.transmission.nextTicket := by
    -- A request that is refused for its token or for its message takes no ticket.
    cases hadded : (e.addToken request).2 with
    | error fault =>
      rw [request_of_error peer hadded]
      exact hnumbered
    | ok request' =>
      rw [request_eq peer hadded]
      rcases (e.numbered request).transmission.send_cases (e.numbered request).link peer
        request'.message with hrefuses | haccepts
      · obtain ⟨failure, hresult⟩ := hrefuses.result
        refine (nextTicket_displace _ _).trans ?_
        rw [launch_of_error hresult]
        exact hrefuses.next.trans hnumbered
      · obtain ⟨id, hresult⟩ := haccepts.result
        exact absurd (asks_request_iff.2 ⟨request', hadded, rfl, _, hresult, rfl⟩) (hrefused _ _)
  obtain ⟨htransmission, -⟩ :=
    (hseated.request peer request).elapse_transmission (.endOf (e.request peer request).1.link.now)
  have hstep : (e.step (.request peer request)).1 =
      ((e.request peer request).1.elapse (.endOf (e.request peer request).1.link.now)).1 := rfl
  rw [hstep, htransmission]
  exact hrequest

/-! ### Runs -/

/-- Nothing of a request is sent after its end: its message is in flight no more and never will be
    again. A request that is refused has no message in the first place. -/
theorem quiescence (service : Service Peer) (responseTimeout : Nat) (link : Link) (draws : Draws)
    (before : List (Event Peer)) (event : Event Peer) (after : List (Event Peer)) :
    let start : Endpoint Peer := { service, responseTimeout, link, transmission := { draws } }
    let e := (start.run before).1
    let made := e.step event
    let last := made.1.run after
    (∀ k a, e.Asks event k a →
      ∀ finish ∈ (made.2.effects ++ total last.2).finished, finish.request = k →
        ¬ last.1.transmission.Live a.ticket ∧
          (made.2.effects ++ total last.2).SendsBy a.ticket finish.time ∧
            ∀ later, ¬ (last.1.run later).1.transmission.Live a.ticket ∧
              ∀ x ∈ (total (last.1.run later).2).emissions, x.ticket? ≠ some a.ticket) ∧
      ∀ peer request, event = .request peer request → (∀ k a, ¬ e.Asks event k a) →
        made.1.transmission.nextTicket = e.transmission.nextTicket := by
  intro start e made last
  constructor
  · intro k a hasks finish hfinish hnumber
    have htracks := tracks_run service responseTimeout link draws before after hasks
    have hrests := rests_run service responseTimeout link draws before after hasks
    have hfinishes : finish ∈ (made.2.effects ++ total last.2).finishes k :=
      List.mem_filter.2 ⟨hfinish, decide_eq_true hnumber⟩
    -- Only who has ended is among the finished, and then the message is spent.
    cases htracks.course with
    | delivery _ _ _ _ _ _ finishes => cases finishes ▸ hfinishes
    | response _ _ _ _ finishes => cases finishes ▸ hfinishes
    | calledOff _ _ finishes => cases finishes ▸ hfinishes
    | ended ended gone silent le_stop sends finishes =>
      obtain rfl := List.mem_singleton.1 (finishes ▸ hfinishes)
      have hspent : last.1.transmission.Spent a.ticket := ⟨hrests.ticket_lt, silent⟩
      exact ⟨silent, sends, fun later =>
        ⟨(spent_run hspent later).1.gone, (spent_run hspent later).2⟩⟩
  · rintro peer request rfl hrefused
    exact nextTicket_of_refused (seated_run service responseTimeout link draws before) hrefused

/-- A confirmable GET with the token 7. Its response overtakes the acknowledgement, which never
    comes, and the GET is not sent again. -/
theorem quiescence_overtaken :
    let start : Endpoint Unit := { service := .later }
    let options : Options :=
      ⟨[⟨.token, .octets [7], rfl, by decide, trivial⟩], by decide, by decide, by decide⟩
    let get : Request := ⟨{ type? := some .con, code := .get, id? := some 1, options }, rfl⟩
    let event : Event Unit := .request () get
    let made := start.step event
    let after : List (Event Unit) := [.datagram () [0x51, 0x45, 0, 3, 0xb1, 7]]
    let last := made.1.run after
    start.Asks event 0 ⟨(), get.message, 0, 1⟩ ∧
      (made.2.effects ++ total last.2).finished.map (fun x => (x.time, x.request, x.result.isOk)) =
        [(0, 0, true)] ∧
          ¬ last.1.transmission.Live 0 ∧
            ∀ later, ∀ x ∈ (total (last.1.run later).2).emissions, x.ticket? ≠ some 0 := by
  intro start options get event made after last
  have hencode : get.message.encode = .ok [0x41, 1, 0, 1, 0xb1, 7] := by cbv
  have hrequest : (start.addToken get).2 = .ok get := rfl
  have hsend : (start.numbered get).transmission.send (start.numbered get).link () get.message =
      start.transmission.dispatch start.link () .con 1 [0x41, 1, 0, 1, 0xb1, 7] :=
    Transmission.send_of_encode rfl rfl rfl hencode rfl
  have hasks : start.Asks event 0 ⟨(), get.message, 0, 1⟩ := by
    refine asks_request_iff.2 ⟨get, hrequest, rfl, ⟨0, 1⟩, ?_, rfl⟩
    rw [hsend]
    decide +kernel
  have hevent : event = .request () get := rfl
  have hafter : after = [.datagram () [0x51, 0x45, 0, 3, 0xb1, 7]] := rfl
  clear_value event after
  -- The general statement is applied before the run is evaluated.
  have hsilent : ∀ finish ∈ (made.2.effects ++ total last.2).finished, finish.request = 0 →
      ¬ last.1.transmission.Live 0 ∧ (made.2.effects ++ total last.2).SendsBy 0 finish.time ∧
        ∀ later, ¬ (last.1.run later).1.transmission.Live 0 ∧
          ∀ x ∈ (total (last.1.run later).2).emissions, x.ticket? ≠ some 0 :=
    (quiescence .later 10000 {} {} [] event after).1 0 _ hasks
  have hmade : made = start.step event := rfl
  have hlast : last = made.1.run after := rfl
  clear_value last made
  rw [hevent, step_request, request_eq () hrequest, launch, hsend] at hmade
  have hends : (made.2.effects ++ total last.2).finished.map
      (fun x => (x.time, x.request, x.result.isOk)) = [(0, 0, true)] := by
    rw [hlast, hmade, hafter]
    decide +kernel
  obtain ⟨finish, hfinish, hof⟩ :=
    List.mem_map.1 (hends.symm ▸ List.mem_singleton_self (0, 0, true))
  have hnumber : finish.request = 0 := congrArg (fun x => x.2.1) hof
  obtain ⟨hgone, -, hlater⟩ := hsilent finish hfinish hnumber
  exact ⟨hasks, hends, hgone, fun later => (hlater later).2⟩

end Endpoint

end Coap
