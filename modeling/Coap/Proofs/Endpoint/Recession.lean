import Coap.Endpoint.Run
import Coap.Proofs.Delivery.Expiry

/-!
# What an endpoint does to its requests

Apart from making a request, nothing that an endpoint does lets a request wait that did not wait
before, or puts it in another place; a request may only end, or go on to its next phase
(`Endpoint.Recedes`). There are two ways in which one ends with a response: a message that it
waits for is acknowledged together with the response, and a response is delivered to it.

* `Endpoint.Recedes.trans`: one thing after another;
* `Endpoint.recedes_resolve`, `Endpoint.recedes_deliver`: the two ways to end with a response;
* `Endpoint.recedes_elapse`, `Endpoint.recedes_advance`: in the course of time none ends so;
* `Endpoint.recedes_step`: neither does one at an event that is not a datagram.
-/

namespace Coap

variable {Peer : Type}

/-- The requests that end with a response, by number, and these responses. -/
def Effects.answers (effects : Effects Peer) : List (Nat × Response) :=
  effects.finished.filterMap fun f => f.result.toOption.map (f.request, ·)

theorem Effects.answers_append (a b : Effects Peer) :
    (a ++ b).answers = a.answers ++ b.answers :=
  List.filterMap_append

/-- The response that the end of a message holds. -/
def Outcome.response? : Outcome Peer → Option Response
  | .acknowledged m => if m.code.isEmpty then none else (Response.ofMessage m).toOption
  | _ => none

/-! ### Messages in flight -/

namespace Transmission

variable [DecidableEq Peer]

/-- A message that is in flight was so before, under the same key, or it has a ticket that was
    given out meanwhile. -/
structure Advances (t t' : Transmission Peer) : Prop where
  le : t.nextTicket ≤ t'.nextTicket
  found : ∀ {peer id record'}, t'.records.find? peer id = some record' →
    (∃ record, t.records.find? peer id = some record ∧ record'.ticket = record.ticket) ∨
      t.nextTicket ≤ record'.ticket ∧ record'.ticket < t'.nextTicket

variable {t t' t'' : Transmission Peer}

theorem Advances.rfl : t.Advances t := ⟨Nat.le_refl _, fun hr => .inl ⟨_, hr, Eq.refl _⟩⟩

theorem Advances.trans (h : t.Advances t') (h' : t'.Advances t'') : t.Advances t'' where
  le := Nat.le_trans h.le h'.le
  found hr := by
    rcases h'.found hr with ⟨record', hr', hticket'⟩ | ⟨hle, hlt⟩
    · rcases h.found hr' with ⟨record, hr, hticket⟩ | ⟨hle, hlt⟩
      · exact .inl ⟨record, hr, hticket'.trans hticket⟩
      · rw [hticket']
        exact .inr ⟨hle, Nat.lt_of_lt_of_le hlt h'.le⟩
    · exact .inr ⟨Nat.le_trans h.le hle, hlt⟩

theorem Change.advances {link : Link} {ticket? : Option Nat} {p : Progress Peer}
    (h : t.Change link ticket? t' p) : t.Advances t' := by
  -- Only a message that is accepted brings a record, and this has the next ticket.
  cases h with
  | still records next => exact ⟨Nat.le_of_eq next.symm, fun hr => .inl ⟨_, records ▸ hr, rfl⟩⟩
  | accept accepts =>
    cases accepts with
    | once type_eq unconfirmed encoded records next =>
      exact ⟨next ▸ Nat.le_succ _, fun hr => .inl ⟨_, records ▸ hr, rfl⟩⟩
    | start type_eq encoded free drawn records next =>
      refine ⟨next ▸ Nat.le_succ _, fun hr => ?_⟩
      rw [records, Ledger.find?_insert] at hr
      split at hr
      · obtain rfl := Option.some.inj hr
        exact .inr ⟨Nat.le_refl _, next ▸ Nat.lt_succ_self _⟩
      · exact .inl ⟨_, hr, rfl⟩
  | finish found records next =>
    refine ⟨Nat.le_of_eq next.symm, fun hr => ?_⟩
    rw [records, Ledger.find?_erase] at hr
    split at hr
    · cases hr
    · exact .inl ⟨_, hr, rfl⟩
  | close =>
    refine ⟨Nat.le_refl _, fun hr => ?_⟩
    cases hr

theorem advances_elapse (link : Link) (moment : Moment) (t : Transmission Peer) :
    t.Advances (t.elapse link moment).1 where
  le := Nat.le_refl _
  found {peer id record'} hr := by
    rw [find?_elapse] at hr
    obtain ⟨record, hr, hrest⟩ := Option.bind_eq_some_iff.1 hr
    exact .inl ⟨record, hr, ((record.elapse_concerns link peer id moment).rest _ hrest).1⟩

end Transmission

namespace Endpoint

variable [DecidableEq Peer]

/-- What an endpoint does without making a request, the requests that it ends with a response, and
    what else it brings about. -/
structure Recedes (e : Endpoint Peer) (answers : List (Nat × Response)) (e' : Endpoint Peer)
    (effects : Effects Peer) : Prop where
  nextRequest : e'.nextRequest = e.nextRequest
  transmission : e.transmission.Advances e'.transmission
  /-- Nobody waits in another place. -/
  waiting : ∀ {key k}, e'.waiting.find? key = some k → e.waiting.find? key = some k
  /-- Whoever has not ended was there before, maybe in another phase. -/
  live : ∀ {k exchange'}, e'.live.find? k = some exchange' →
    ∃ exchange phase, e.live.find? k = some exchange ∧ exchange' = { exchange with phase }
  answers : effects.answers = answers

variable {e e' e'' : Endpoint Peer} {effects effects' : Effects Peer}
  {answers answers' : List (Nat × Response)}

theorem Recedes.rfl : e.Recedes [] e {} where
  nextRequest := Eq.refl _
  transmission := .rfl
  waiting h := h
  live h := ⟨_, _, h, Eq.refl _⟩
  answers := Eq.refl _

theorem Recedes.trans (h : e.Recedes answers e' effects)
    (h' : e'.Recedes answers' e'' effects') :
    e.Recedes (answers ++ answers') e'' (effects ++ effects') where
  nextRequest := h'.nextRequest.trans h.nextRequest
  transmission := h.transmission.trans h'.transmission
  waiting hk := h.waiting (h'.waiting hk)
  live hk := by
    obtain ⟨exchange', phase', hmid, rfl⟩ := h'.live hk
    obtain ⟨exchange, phase, hfirst, rfl⟩ := h.live hmid
    exact ⟨exchange, phase', hfirst, Eq.refl _⟩
  answers := by rw [Effects.answers_append, h.answers, h'.answers]

/-- First nothing is brought about. -/
theorem Recedes.after (h : e.Recedes [] e' {}) (h' : e'.Recedes answers e'' effects) :
    e.Recedes answers e'' effects :=
  h.trans h'

/-- It does not matter what else is brought about, apart from the ends of requests. -/
theorem Recedes.congr (h : e.Recedes answers e' effects)
    (hfinished : effects'.finished = effects.finished) : e.Recedes answers e' effects' where
  nextRequest := h.nextRequest
  transmission := h.transmission
  waiting := h.waiting
  live := h.live
  answers := by rw [Effects.answers, hfinished, ← h.answers, Effects.answers]

/-- An endpoint that differs in other things only. -/
theorem Recedes.of_transmission (hrequest : e'.nextRequest = e.nextRequest)
    (hwaiting : e'.waiting = e.waiting) (hlive : e'.live = e.live)
    (htransmission : e.transmission.Advances e'.transmission) : e.Recedes [] e' {} where
  nextRequest := hrequest
  transmission := htransmission
  waiting h := hwaiting ▸ h
  live h := ⟨_, _, hlive ▸ h, Eq.refl _⟩
  answers := Eq.refl _

/-! ### The end of a request -/

theorem recedes_abandon (k : Nat) (e : Endpoint Peer) : e.Recedes [] (e.abandon k) {} where
  nextRequest := rfl
  transmission := .rfl
  waiting h := h
  live {k' exchange'} h := by
    rw [abandon, Table.find?_erase] at h
    split at h
    · cases h
    · exact ⟨_, _, h, rfl⟩
  answers := rfl

theorem recedes_leave (key : Peer × Bytes) (e : Endpoint Peer) :
    e.Recedes [] { e with waiting := e.waiting.erase key } {} where
  nextRequest := rfl
  transmission := .rfl
  waiting {key' k} h := by
    rw [Table.find?_erase] at h
    split at h
    · cases h
    · exact h
  live h := ⟨_, _, h, rfl⟩
  answers := rfl

theorem recedes_withdraw (exchange : Exchange Peer) (e : Endpoint Peer) :
    e.Recedes [] (e.withdraw exchange) {} := by
  rw [withdraw]
  split
  · exact .of_transmission rfl rfl rfl (e.transmission.change_cancel e.link _ _).advances
  · exact .rfl

/-- The end of a request that has failed. -/
theorem recedes_fail (h : e.Recedes [] e' {}) (time k : Nat) (failure : Failure Peer) :
    e.Recedes [] e' { finished := [⟨time, k, .error failure⟩] } where
  nextRequest := h.nextRequest
  transmission := h.transmission
  waiting := h.waiting
  live := h.live
  answers := rfl

theorem recedes_close (time : Nat) (waiter? : Option Nat) (e : Endpoint Peer) :
    e.Recedes [] (e.close time waiter?).1 (e.close time waiter?).2 := by
  cases waiter? with
  | none => exact .rfl
  | some k =>
    rw [close]
    split
    · exact .rfl
    · exact recedes_fail ((e.recedes_withdraw _).after (recedes_abandon _ _)) _ _ _

theorem recedes_finish (time k : Nat) (exchange : Exchange Peer)
    (result : Except (Failure Peer) Response) (e : Endpoint Peer) :
    e.Recedes (result.toOption.map (k, ·)).toList (e.finish time k exchange result).1
      (e.finish time k exchange result).2 := by
  have hleave := (e.recedes_abandon k).after (recedes_leave exchange.key (e.abandon k))
  have hclose := recedes_close time (e.waiting.find? exchange.key)
    { e.abandon k with waiting := e.waiting.erase exchange.key }
  have hrest := hleave.after hclose
  refine ⟨hrest.nextRequest, hrest.transmission, hrest.waiting, hrest.live, ?_⟩
  have hsum : (e.finish time k exchange result).2 =
      { finished := [⟨time, k, result⟩] } ++ (close time (e.waiting.find? exchange.key)
        { e.abandon k with waiting := e.waiting.erase exchange.key }).2 := rfl
  rw [hsum, Effects.answers_append, hclose.answers, List.append_nil]
  cases result <;> rfl

theorem recedes_await {k : Nat} {exchange : Exchange Peer}
    (hk : e.live.find? k = some exchange) (time : Nat) :
    e.Recedes [] (e.await time k exchange) {} where
  nextRequest := rfl
  transmission := .rfl
  waiting h := h
  live {k' exchange'} h := by
    rw [await, Table.find?_insert] at h
    split at h
    · rename_i heq
      obtain rfl := Option.some.inj h
      exact ⟨exchange, _, heq ▸ hk, rfl⟩
    · exact ⟨_, _, h, rfl⟩
  answers := rfl

omit [DecidableEq Peer] in
/-- The request that a message carries is one that has not ended. -/
theorem owner?_eq_some {ticket k : Nat} {exchange : Exchange Peer}
    (h : e.owner? ticket = some (k, exchange)) :
    e.live.find? k = some exchange ∧ exchange.ticket = ticket := by
  have hmem := List.mem_of_find?_eq_some h
  have htest := List.find?_some h
  simp only [Bool.and_eq_true, beq_iff_eq] at htest
  exact ⟨Table.mem_toList_iff.1 hmem, htest.1⟩

/-- The end of a message ends the request that it carries with the response that it holds, if there
    is such a request and such a response. -/
theorem recedes_resolve (r : Resolution Peer) (e : Endpoint Peer) :
    e.Recedes ((e.owner? r.ticket).bind fun owner => r.outcome.response?.map (owner.1, ·)).toList
      (e.resolve r).1 (e.resolve r).2 := by
  rw [resolve]
  cases howner : e.owner? r.ticket with
  | none => exact .rfl
  | some owner =>
    obtain ⟨k, exchange⟩ := owner
    have hk := (owner?_eq_some howner).1
    dsimp only [Option.bind_some]
    cases houtcome : r.outcome with
    | sent => exact recedes_await hk _
    | acknowledged m =>
      dsimp only [Outcome.response?]
      -- An empty acknowledgement holds no response. Any other one ends the request by what it is.
      cases hcode : m.code.isEmpty with
      | true => exact recedes_await hk _
      | false =>
        have hsame : ((Response.ofMessage m).mapError Failure.invalid : Except (Failure Peer) _
            ).toOption = (Response.ofMessage m).toOption := by
          cases Response.ofMessage m <;> rfl
        have hfinish :=
          e.recedes_finish r.time k exchange ((Response.ofMessage m).mapError .invalid)
        rw [hsame] at hfinish
        exact hfinish
    | reset => exact e.recedes_finish _ _ _ (.error _)
    | failed failure => exact e.recedes_finish _ _ _ (.error failure)

/-- The ends of messages that hold no response. -/
theorem recedes_resolveAll {rs : List (Resolution Peer)}
    (h : ∀ r ∈ rs, r.outcome.response? = none) (e : Endpoint Peer) :
    e.Recedes [] (e.resolveAll rs).1 (e.resolveAll rs).2 := by
  induction rs generalizing e with
  | nil => exact .rfl
  | cons r rs ih =>
    have hfirst := e.recedes_resolve r
    have hnone : ((e.owner? r.ticket).bind fun owner =>
        r.outcome.response?.map (owner.1, ·)).toList = [] := by
      rw [h r List.mem_cons_self]
      cases e.owner? r.ticket <;> rfl
    rw [hnone] at hfirst
    exact hfirst.trans (ih (fun r' hr' => h r' (List.mem_cons_of_mem _ hr')) _)

theorem recedes_displace (waiter? : Option Nat) (e : Endpoint Peer) :
    e.Recedes [] (e.displace waiter?).1 (e.displace waiter?).2 := by
  cases waiter? with
  | none => exact .rfl
  | some k =>
    rw [displace]
    split
    · exact .rfl
    · rename_i exchange _
      exact (e.recedes_withdraw exchange).after (recedes_finish _ _ _ (.error .closed) _)

/-! ### Responses -/

theorem recedes_respond (responder : Responder Peer) (response : Response) (e : Endpoint Peer) :
    e.Recedes [] (e.respond responder response).1 (e.respond responder response).2.1 := by
  rw [respond]
  split
  · exact .rfl
  · rename_i response' _
    have hsend := Sender.change_send e.link responder.peer
      (e.reception.prepare responder.peer response').2.message e.transmission
    exact ⟨rfl, hsend.advances, fun h => h, fun h => ⟨_, _, h, rfl⟩, rfl⟩

theorem recedes_dispatch (peer : Peer) (request : Request) (e : Endpoint Peer) :
    e.Recedes [] (e.dispatch peer request).1 (e.dispatch peer request).2 := by
  rw [dispatch]
  split
  · exact Recedes.rfl.congr rfl
  · rename_i response _
    exact (e.recedes_respond _ response).congr rfl

/-- A response ends the request that waits for it with it. -/
theorem recedes_deliver (peer : Peer) (response : Response) (e : Endpoint Peer) :
    e.Recedes ((e.waiting.find? (peer, response.message.token?.getD [])).bind fun k =>
        (e.live.find? k).map fun _ => (k, response)).toList
      (e.deliver peer response).1 (e.deliver peer response).2 := by
  have hleave := recedes_leave (peer, response.message.token?.getD []) e
  rw [deliver]
  cases e.waiting.find? (peer, response.message.token?.getD []) with
  | none => exact .rfl
  | some k =>
    dsimp only [Option.bind_some]
    cases e.live.find? k with
    | none => exact hleave
    | some exchange =>
      exact hleave.after ((recedes_withdraw exchange _).after
        (recedes_finish _ k exchange (.ok response) _))

/-! ### Time -/

theorem recedes_expire (moment : Moment) (k : Nat) (e : Endpoint Peer) :
    e.Recedes [] (e.expire moment k).1 (e.expire moment k).2 := by
  rw [expire]
  split
  · exact .rfl
  · split
    · exact .rfl
    · split
      · exact e.recedes_finish _ _ _ (.error .noResponse)
      · exact .rfl

theorem recedes_expireAll (moment : Moment) (ks : List Nat) (e : Endpoint Peer) :
    e.Recedes [] (e.expireAll moment ks).1 (e.expireAll moment ks).2 := by
  induction ks generalizing e with
  | nil => exact .rfl
  | cons k ks ih => exact (e.recedes_expire moment k).trans (ih _)

theorem recedes_elapse (moment : Moment) (e : Endpoint Peer) :
    e.Recedes [] (e.elapse moment).1 (e.elapse moment).2 := by
  have hnone : ∀ r ∈ (e.transmission.elapse e.link moment).2.resolutions,
      r.outcome.response? = none := by
    intro r hr
    obtain ⟨failure, hfailed, -⟩ := Transmission.failed_of_mem_elapse hr
    rw [hfailed]
    rfl
  have htime : e.Recedes [] { e with
      reception := (e.reception.elapse e.link moment).1
      transmission := (e.transmission.elapse e.link moment).1 } {} :=
    .of_transmission rfl rfl rfl (Transmission.advances_elapse e.link moment _)
  rw [elapse]
  generalize e.transmission.elapse e.link moment = transmitted at *
  exact (htime.after ((recedes_resolveAll hnone _).trans (recedes_expireAll moment _ _))).congr rfl

theorem recedes_purge (time : Nat) (e : Endpoint Peer) : e.Recedes [] (e.purge time) {} :=
  ⟨rfl, ⟨Nat.le_refl _, fun hr => .inl ⟨_, hr, rfl⟩⟩, fun h => h, fun h => ⟨_, _, h, rfl⟩, rfl⟩

theorem recedes_purges (first count : Nat) (e : Endpoint Peer) :
    e.Recedes [] (e.purges first count).1 (e.purges first count).2 := by
  induction count generalizing first e with
  | zero => exact .rfl
  | succ count ih =>
    have helapse := e.recedes_elapse ⟨first * e.link.timing.purgeInterval,
      first * e.link.timing.purgeInterval - e.link.timing.purgeInterval⟩
    rw [purges]
    dsimp only
    generalize e.elapse _ = elapsed at *
    have hrest := (recedes_purge (first * e.link.timing.purgeInterval) elapsed.1).after
      (ih (first + 1) _)
    exact helapse.trans hrest

theorem recedes_advance (ms : Nat) (e : Endpoint Peer) :
    e.Recedes [] (e.advance ms).1 (e.advance ms).2 := by
  have hpurges := e.recedes_purges (e.link.now / e.link.timing.purgeInterval + 1)
    (purgeCount e.link e.link.now (e.link.now + ms))
  rw [advance]
  generalize e.purges (e.link.now / e.link.timing.purgeInterval + 1)
    (purgeCount e.link e.link.now (e.link.now + ms)) = purged at *
  obtain ⟨e', first⟩ := purged
  have hend := hpurges.trans (e'.recedes_elapse (.endOf (e.link.now + ms)))
  exact ⟨hend.nextRequest, hend.transmission, hend.waiting, hend.live, hend.answers⟩

theorem effects_settle (answer : Answer Peer) (effects : Effects Peer) (e : Endpoint Peer) :
    (e.settle answer effects).2.effects = effects ++ (e.elapse (.endOf e.link.now)).2 := rfl

theorem recedes_settle (h : e.Recedes answers e' effects) (answer : Answer Peer) :
    e.Recedes answers (e'.settle answer effects).1 (e'.settle answer effects).2.effects := by
  have := h.trans (e'.recedes_elapse (.endOf e'.link.now))
  rw [List.append_nil] at this
  exact this

theorem recedes_shutdown (e : Endpoint Peer) : e.Recedes [] e.shutdown.1 e.shutdown.2 where
  nextRequest := rfl
  transmission :=
    (.close : e.transmission.Change e.link none _ _).advances
  waiting h := by cases h
  live h := by cases h
  answers := by
    refine List.filterMap_eq_nil_iff.2 fun f hf => ?_
    obtain ⟨⟨k, exchange⟩, -, rfl⟩ := List.mem_map.1 hf
    rfl

/-! ### Steps -/

theorem step_request (peer : Peer) (request : Request) (e : Endpoint Peer) :
    e.step (.request peer request) = (e.request peer request).1.settle (.started e.nextRequest)
      (e.request peer request).2 := rfl

theorem step_datagram (peer : Peer) (bytes : Bytes) (e : Endpoint Peer) :
    e.step (.datagram peer bytes) =
      (e.receive peer bytes).1.settle .done (e.receive peer bytes).2 := rfl

theorem step_respond (responder : Responder Peer) (response : Response) (e : Endpoint Peer) :
    e.step (.respond responder response) = (e.respond responder response).1.settle
      (.responded (e.respond responder response).2.2) (e.respond responder response).2.1 := rfl

theorem step_shutdown (e : Endpoint Peer) :
    e.step .shutdown = e.shutdown.1.settle .done e.shutdown.2 := rfl

theorem step_sleep (ms : Nat) (e : Endpoint Peer) :
    e.step (.sleep ms) = ((e.advance ms).1, ⟨.done, (e.advance ms).2⟩) := by
  rw [step]

/-- What an event that is neither a request nor a datagram does. -/
theorem recedes_step (e : Endpoint Peer) {event : Event Peer}
    (hrequest : ∀ peer request, event ≠ .request peer request)
    (hdatagram : ∀ peer bytes, event ≠ .datagram peer bytes) :
    e.Recedes [] (e.step event).1 (e.step event).2.effects := by
  -- All but the two events that are left out end no request with a response.
  cases event with
  | datagram peer bytes => exact absurd rfl (hdatagram peer bytes)
  | request peer request => exact absurd rfl (hrequest peer request)
  | abandon k => exact recedes_settle (e.recedes_abandon k) .done
  | respond responder response =>
    rw [step_respond]
    exact recedes_settle (e.recedes_respond responder response) _
  | shutdown =>
    rw [step_shutdown]
    exact recedes_settle e.recedes_shutdown .done
  | sleep ms =>
    rw [step_sleep]
    dsimp only
    exact e.recedes_advance ms

end Endpoint

end Coap
