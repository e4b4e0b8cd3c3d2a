import Coap.Proofs.Endpoint.Elapse
import Coap.Proofs.Wire.RoundTrip

/-!
# Where datagrams come from

A datagram that an endpoint sends is a copy of a message in flight or of one that is accepted just
then, or it acknowledges a message on its own: at once if this is no request, and otherwise when
the request was remembered for the acknowledgement delay (`Endpoint.Proceeds`). So a bare
acknowledgement is prompted by one message that came in (`Endpoint.Prompts`).

* `Endpoint.Proceeds.trans`: one thing after another;
* `Endpoint.Seated.advance_rec`: what is kept up to every moment is kept as time goes on;
* `Endpoint.proceeds_step`: what an event brings about that takes in no message;
* `Endpoint.proceeds_datagram`: what taking in a datagram brings about;
* `Endpoint.prompted_run`: what prompts the bare acknowledgements of a run.
-/

namespace Coap

variable {Peer : Type}

theorem Effects.append_def (a b : Effects Peer) :
    a ++ b = ⟨a.emissions ++ b.emissions, a.dispatched ++ b.dispatched,
      a.finished ++ b.finished⟩ := rfl

theorem Effects.append_assoc (a b c : Effects Peer) : a ++ b ++ c = a ++ (b ++ c) := by
  rw [append_def (a ++ b), append_def a b, append_def a, append_def b c]
  simp only [List.append_assoc]

variable [DecidableEq Peer]

/-- A message in flight was in flight before or was accepted since. -/
theorem Transmission.Advances.live {t t' : Transmission Peer} (h : t.Advances t') {ticket : Nat}
    (hlive : t'.Live ticket) : t.Live ticket ∨ t.nextTicket ≤ ticket := by
  obtain ⟨peer, id, record', hr, rfl⟩ := hlive
  rcases h.found hr with ⟨record, hr, hticket⟩ | ⟨hle, -⟩
  · exact .inl ⟨peer, id, record, hr, hticket.symm⟩
  · exact .inr hle

/-- A message that was accepted and is not in flight any more does not come back. -/
theorem Transmission.Advances.not_live {t t' : Transmission Peer} (h : t.Advances t')
    {ticket : Nat} (hlt : ticket < t.nextTicket) (hgone : ¬ t.Live ticket) : ¬ t'.Live ticket :=
  fun hlive => (h.live hlive).elim hgone (Nat.not_le.2 hlt)

/-! ### Draws -/

namespace Transmission

omit [DecidableEq Peer] in
theorem jitter_subset (timing : Timing) (draws : Draws) :
    (jitter timing draws).2.jitter ⊆ draws.jitter := by
  rw [jitter]
  split
  · rw [Draws.nextJitter]
    split
    · exact List.Subset.refl _
    · rename_i hdraws
      rw [hdraws]
      exact List.subset_cons_self _ _
  · exact List.Subset.refl _

/-- Sending a message takes one of the draws of jitter at most. -/
theorem jitter_subset_send (link : Link) (peer : Peer) (m : Message) (t : Transmission Peer) :
    (t.send link peer m).transmission.draws.jitter ⊆ t.draws.jitter := by
  have hsendAs : ∀ (type : MessageType) (id : UInt16) (m : Message) (t : Transmission Peer),
      (t.sendAs link peer type id m).transmission.draws.jitter ⊆ t.draws.jitter := by
    intro type id m t
    rw [sendAs]
    -- A draw is taken only if a confirmable message with a free id is there to be sent.
    split
    · exact List.Subset.refl _
    · split
      · exact List.Subset.refl _
      · split
        · rw [dispatch]
          dsimp only
          split
          · have hjitter := jitter_subset link.timing t.draws
            split
            · exact hjitter
            · exact hjitter
          · exact List.Subset.refl _
        · exact List.Subset.refl _
  -- To choose an id takes none.
  have hallocate := (t.allocate_frame link peer).2.2
  rw [send]
  split
  · exact List.Subset.refl _
  · exact hsendAs _ _ _ _
  · split
    · rename_i heq
      rw [heq] at hallocate
      exact hallocate ▸ List.Subset.refl _
    · rename_i heq
      rw [heq] at hallocate
      exact hallocate ▸ hsendAs _ _ _ _

theorem jitter_subset_receive (link : Link) (peer : Peer) (m : Message) (t : Transmission Peer) :
    (t.receive link peer m).1.draws.jitter ⊆ t.draws.jitter := by
  rw [receive]
  split
  · split <;> exact List.Subset.refl _
  · exact List.Subset.refl _

theorem jitter_subset_cancel (link : Link) (peer : Peer) (id : UInt16) (t : Transmission Peer) :
    (t.cancel link peer id).1.draws.jitter ⊆ t.draws.jitter := by
  rw [cancel]
  split <;> exact List.Subset.refl _

end Transmission

/-! ### What an endpoint does -/

/-- The written form of a bare acknowledgement tells which message it acknowledges. -/
theorem Reception.bareAck_injective {id id' : UInt16} (h : bareAck id = bareAck id') :
    id = id' := by
  have hlegal : ∀ id, (Message.emptyAck id).Legal :=
    fun id => ⟨rfl, rfl, rfl, rfl, .empty, fun _ => ⟨.inl rfl, rfl⟩⟩
  have hread := (hlegal id).decode_of_encode (encode_emptyAck id)
  rw [h, (hlegal id').decode_of_encode (encode_emptyAck id')] at hread
  exact (Option.some.inj (congrArg Message.id? (Except.ok.inj hread))).symm

/-- The bare acknowledgement of the message of a peer with an id. -/
def Emission.IsBareAck (x : Emission Peer) (peer : Peer) (id : UInt16) : Prop :=
  x.peer = peer ∧ x.bytes = Reception.bareAck id ∧ x.ticket? = none

namespace Endpoint

/-- The link after an event. -/
def Event.link (link : Link) : Event Peer → Link
  | .sleep ms => link.later ms
  | .shutdown => link.close
  | _ => link

/-- Where a datagram comes from: it is a copy of a message in flight or of a new one, or it
    acknowledges a request that is remembered. -/
inductive Issues (e : Endpoint Peer) (x : Emission Peer) : Prop where
  | copy {ticket : Nat} (ticket_eq : x.ticket? = some ticket)
      (flies : e.transmission.Live ticket ∨ e.transmission.nextTicket ≤ ticket)
  | ack {peer : Peer} {id : UInt16} {entry : Reception.Entry}
      (found : e.reception.entries.find? peer id = some entry)
      (acknowledged : entry.acknowledged = false)
      (emission_eq : x = ⟨(entry.timer e.link.timing).due, peer, Reception.bareAck id, none⟩)

/-- What an endpoint does without taking in a message: which messages are in flight, which requests
    are remembered, and where the datagrams come from that it sends. -/
structure Proceeds (link : Link) (e e' : Endpoint Peer) (effects : Effects Peer) : Prop where
  link_eq : e'.link = link
  timing : link.timing = e.link.timing
  service : e'.service = e.service
  responseTimeout : e'.responseTimeout = e.responseTimeout
  transmission : e.transmission.Advances e'.transmission
  draws : e'.transmission.draws.jitter ⊆ e.transmission.draws.jitter
  entries : ∀ {peer id entry'}, e'.reception.entries.find? peer id = some entry' →
    ∃ entry, e.reception.entries.find? peer id = some entry ∧ entry'.created = entry.created ∧
      (entry.acknowledged → entry'.acknowledged)
  emissions : ∀ x ∈ effects.emissions, e.Issues x

variable {link link' : Link} {e e' e'' : Endpoint Peer} {effects effects' : Effects Peer}

/-- Nothing is sent, and nothing changes that matters for what is. -/
theorem Proceeds.of_frame (hlink : e'.link = e.link) (hservice : e'.service = e.service)
    (htimeout : e'.responseTimeout = e.responseTimeout) (hreception : e'.reception = e.reception)
    (htransmission : e'.transmission = e.transmission) (heffects : effects.emissions = []) :
    Proceeds e.link e e' effects where
  link_eq := hlink
  timing := Eq.refl _
  service := hservice
  responseTimeout := htimeout
  transmission := htransmission ▸ .rfl
  draws := htransmission ▸ List.Subset.refl _
  entries hr := ⟨_, hreception ▸ hr, Eq.refl _, id⟩
  emissions x hx := by
    rw [heffects] at hx
    cases hx

theorem Proceeds.rfl : Proceeds e.link e e {} :=
  .of_frame (Eq.refl _) (Eq.refl _) (Eq.refl _) (Eq.refl _) (Eq.refl _) (Eq.refl _)

/-- What comes later is told from what was there before. -/
theorem Proceeds.issues (h : Proceeds link e e' effects) {x : Emission Peer} (hx : e'.Issues x) :
    e.Issues x := by
  cases hx with
  | copy ticket_eq flies =>
    refine .copy ticket_eq ?_
    rcases flies with hlive | hnew
    · exact h.transmission.live hlive
    · exact .inr (Nat.le_trans h.transmission.le hnew)
  | ack found acknowledged emission_eq =>
    obtain ⟨entry, hr, hcreated, hflag⟩ := h.entries found
    refine .ack hr ?_ ?_
    · cases hentry : entry.acknowledged with
      | false => rfl
      | true => cases acknowledged.symm.trans (hflag hentry)
    · rw [emission_eq, h.link_eq, h.timing, Reception.Entry.timer, Reception.Entry.timer, hcreated]

/-- Two parts of a step, one after the other, are one. -/
theorem Proceeds.trans (h : Proceeds link e e' effects) (h' : Proceeds link' e' e'' effects') :
    Proceeds link' e e'' (effects ++ effects') where
  link_eq := h'.link_eq
  timing := by rw [h'.timing, h.link_eq, h.timing]
  service := h'.service.trans h.service
  responseTimeout := h'.responseTimeout.trans h.responseTimeout
  transmission := h.transmission.trans h'.transmission
  draws := List.Subset.trans h'.draws h.draws
  -- An entry is traced back through the second part and then through the first.
  entries hr := by
    obtain ⟨entry', hr', hcreated', hflag'⟩ := h'.entries hr
    obtain ⟨entry, hr, hcreated, hflag⟩ := h.entries hr'
    exact ⟨entry, hr, hcreated'.trans hcreated, hflag' ∘ hflag⟩
  emissions x hx := by
    rcases List.mem_append.1 hx with hx | hx
    · exact h.emissions x hx
    · -- What the second part sends was owed at its start, and hence at the start of the first.
      exact h.issues (h'.emissions x hx)

/-- First nothing is sent, and the link stays as it is. -/
theorem Proceeds.after (h : Proceeds e.link e e' {}) (h' : Proceeds e'.link e' e'' effects) :
    Proceeds e.link e e'' effects := by
  have := h.trans h'
  rw [h.link_eq] at this
  exact this

theorem Proceeds.seq (h : Proceeds e.link e e' effects) (h' : Proceeds e'.link e' e'' effects') :
    Proceeds e.link e e'' (effects ++ effects') := by
  have := h.trans h'
  rw [h.link_eq] at this
  exact this

/-- It does not matter what else is brought about, apart from the datagrams. -/
theorem Proceeds.congr (h : Proceeds link e e' effects)
    (hemissions : effects'.emissions = effects.emissions) : Proceeds link e e' effects' :=
  ⟨h.link_eq, h.timing, h.service, h.responseTimeout, h.transmission, h.draws, h.entries,
    hemissions ▸ h.emissions⟩

/-- An operation on the messages in flight. -/
theorem proceeds_change {ticket? : Option Nat} {t : Transmission Peer} {p : Progress Peer}
    (h : e.transmission.Change e.link ticket? t p)
    (hdraws : t.draws.jitter ⊆ e.transmission.draws.jitter) :
    Proceeds e.link e { e with transmission := t } { emissions := p.emissions } := by
  refine ⟨rfl, rfl, rfl, rfl, h.advances, hdraws, fun hr => ⟨_, hr, rfl, id⟩, fun x hx => ?_⟩
  have hnew : ∀ {y : Emission Peer}, y.ticket? = some e.transmission.nextTicket → e.Issues y :=
    fun hy => .copy hy (.inr (Nat.le_refl _))
  cases h with
  | still => cases hx
  | accept accepts =>
    cases accepts with
    | once => exact hnew (List.mem_singleton.1 hx ▸ rfl)
    | start => exact hnew (List.mem_singleton.1 hx ▸ rfl)
  | finish => cases hx
  | close => cases hx

/-! ### The end of a request -/

theorem proceeds_abandon (k : Nat) (e : Endpoint Peer) : Proceeds e.link e (e.abandon k) {} :=
  .of_frame rfl rfl rfl rfl rfl rfl

/-- To call off the message of a request sends nothing. -/
theorem proceeds_withdraw (exchange : Exchange Peer) (e : Endpoint Peer) :
    Proceeds e.link e (e.withdraw exchange) {} := by
  rw [withdraw]
  split
  · exact proceeds_change (e.transmission.change_cancel e.link _ _)
      (e.transmission.jitter_subset_cancel e.link _ _)
  · exact .rfl

/-- To empty a place sends nothing. -/
theorem proceeds_close (time : Nat) (waiter? : Option Nat) (e : Endpoint Peer) :
    Proceeds e.link e (e.close time waiter?).1 (e.close time waiter?).2 := by
  cases waiter? with
  | none => exact .rfl
  | some k =>
    rw [close]
    split
    · exact .rfl
    · exact ((proceeds_withdraw _ e).after (proceeds_abandon _ _)).congr rfl

/-- The end of a request sends nothing. -/
theorem proceeds_finish (time k : Nat) (exchange : Exchange Peer)
    (result : Except (Failure Peer) Response) (e : Endpoint Peer) :
    Proceeds e.link e (e.finish time k exchange result).1 (e.finish time k exchange result).2 := by
  have hleave : Proceeds e.link e
      { e.abandon k with waiting := e.waiting.erase exchange.key } {} :=
    .of_frame rfl rfl rfl rfl rfl rfl
  exact (hleave.after (proceeds_close time (e.waiting.find? exchange.key) _)).congr rfl

/-- That the end of a message is passed on sends nothing. -/
theorem proceeds_resolve (r : Resolution Peer) (e : Endpoint Peer) :
    Proceeds e.link e (e.resolve r).1 (e.resolve r).2 := by
  rw [resolve]
  split
  · exact .rfl
  · rename_i k exchange _
    have hawait : Proceeds e.link e (e.await r.time k exchange) {} :=
      .of_frame rfl rfl rfl rfl rfl rfl
    split
    · exact hawait
    · split
      · exact hawait
      · exact proceeds_finish _ _ _ _ e
    · exact proceeds_finish _ _ _ _ e
    · exact proceeds_finish _ _ _ _ e

theorem proceeds_resolveAll (rs : List (Resolution Peer)) (e : Endpoint Peer) :
    Proceeds e.link e (e.resolveAll rs).1 (e.resolveAll rs).2 := by
  induction rs generalizing e with
  | nil => exact .rfl
  | cons r rs ih => exact (proceeds_resolve r e).seq (ih _)

/-! ### Making and answering requests -/

omit [DecidableEq Peer] in
/-- A token takes none of the draws of jitter. -/
theorem jitter_numbered (request : Request) (e : Endpoint Peer) :
    (e.numbered request).transmission.draws.jitter = e.transmission.draws.jitter := by
  change (e.addToken request).1.transmission.draws.jitter = _
  rw [addToken]
  split
  · rfl
  · rw [Draws.token]
    cases e.transmission.draws.tokens <;> rfl

theorem proceeds_numbered (request : Request) (e : Endpoint Peer) :
    Proceeds e.link e (e.numbered request) {} := by
  have hjitter := jitter_numbered request e
  obtain ⟨draws, hframe⟩ := addToken_frame request e
  rw [numbered, hframe] at hjitter ⊢
  exact ⟨rfl, rfl, rfl, rfl, ⟨Nat.le_refl _, fun hr => .inl ⟨_, hr, rfl⟩⟩,
    hjitter ▸ List.Subset.refl _, fun hr => ⟨_, hr, rfl, id⟩, fun x hx => by cases hx⟩

/-- To launch a request sends nothing but its message. -/
theorem proceeds_launch (k : Nat) (peer : Peer) (request : Request) (e : Endpoint Peer) :
    Proceeds e.link e (e.launch k peer request).1 (e.launch k peer request).2 := by
  have hsend := proceeds_change (Sender.change_send e.link peer request.message e.transmission)
    (e.transmission.jitter_subset_send e.link peer request.message)
  -- A message that is refused is not sent. Otherwise it goes out, and what ends at once is told.
  cases hresult : (e.transmission.send e.link peer request.message).result with
  | error failure =>
    rw [launch_of_error hresult]
    refine ⟨rfl, rfl, rfl, rfl, hsend.transmission, hsend.draws, hsend.entries, fun x hx => ?_⟩
    cases hx
  | ok receipt =>
    rw [(launch_of_ok hresult).1]
    have henter : Proceeds e.link e (e.enter k (.ofReceipt peer request receipt)
        (e.transmission.send e.link peer request.message).transmission)
        { emissions := (e.transmission.send e.link peer request.message).progress.emissions } :=
      ⟨rfl, rfl, rfl, rfl, hsend.transmission, hsend.draws, hsend.entries, hsend.emissions⟩
    exact henter.seq (proceeds_resolveAll _ _)

theorem proceeds_displace (waiter? : Option Nat) (e : Endpoint Peer) :
    Proceeds e.link e (e.displace waiter?).1 (e.displace waiter?).2 := by
  cases waiter? with
  | none => exact .rfl
  | some k =>
    rw [displace]
    split
    · exact .rfl
    · exact (proceeds_withdraw _ e).after (proceeds_finish _ _ _ _ _)

/-- A request that cannot be given a token ends at once. -/
theorem request_of_error (peer : Peer) {request : Request} {fault : Fault}
    (hrequest : (e.addToken request).2 = .error fault) :
    e.request peer request = (e.numbered request, { finished :=
      [⟨(e.numbered request).link.now, e.nextRequest, .error (.invalid fault)⟩] }) := by
  rw [Endpoint.request, addToken_number, hrequest]
  rfl

/-- To make a request sends nothing but its message. -/
theorem proceeds_request (peer : Peer) (request : Request) (e : Endpoint Peer) :
    Proceeds e.link e (e.request peer request).1 (e.request peer request).2 := by
  have hnumbered := proceeds_numbered request e
  cases hrequest : (e.addToken request).2 with
  | error fault =>
    rw [request_of_error peer hrequest]
    exact hnumbered.congr rfl
  | ok request' =>
    rw [request_eq peer hrequest]
    exact hnumbered.after ((proceeds_launch _ _ _ _).seq (proceeds_displace _ _))

/-- To respond sends nothing but the response. -/
theorem proceeds_respond (responder : Responder Peer) (response : Response) (e : Endpoint Peer) :
    Proceeds e.link e (e.respond responder response).1 (e.respond responder response).2.1 := by
  rw [respond]
  split
  · exact .rfl
  · rename_i response' _
    have hsend := proceeds_change (Sender.change_send e.link responder.peer
      (e.reception.prepare responder.peer response').2.message e.transmission)
      (e.transmission.jitter_subset_send e.link responder.peer _)
    refine ⟨rfl, rfl, rfl, rfl, hsend.transmission, hsend.draws, fun {peer id entry'} hr => ?_,
      hsend.emissions⟩
    -- Answering a request can only make the endpoint forget it.
    refine ⟨entry', ?_, rfl, fun h => h⟩
    dsimp only at hr
    rw [Reception.prepare] at hr
    split at hr
    · exact hr
    · rw [Reception.find?_answered] at hr
      split at hr
      · cases hr
      · exact hr

theorem proceeds_dispatch (peer : Peer) (request : Request) (e : Endpoint Peer) :
    Proceeds e.link e (e.dispatch peer request).1 (e.dispatch peer request).2 := by
  rw [dispatch]
  split
  · exact Proceeds.rfl.congr rfl
  · rename_i response _
    exact (proceeds_respond _ response e).congr rfl

theorem proceeds_deliver (peer : Peer) (response : Response) (e : Endpoint Peer) :
    Proceeds e.link e (e.deliver peer response).1 (e.deliver peer response).2 := by
  have hleave : ∀ key, Proceeds e.link e { e with waiting := e.waiting.erase key } {} :=
    fun _ => .of_frame rfl rfl rfl rfl rfl rfl
  rw [deliver]
  split
  · exact .rfl
  · dsimp only
    split
    · exact hleave _
    · exact (hleave _).after ((proceeds_withdraw _ _).after (proceeds_finish _ _ _ _ _))

theorem proceeds_handOn (verdict : Verdict) (peer : Peer) (m : Message) (e : Endpoint Peer) :
    Proceeds e.link e (e.handOn verdict peer m).1 (e.handOn verdict peer m).2 := by
  cases verdict with
  | duplicate => exact .rfl
  | forward =>
    rw [handOn]
    split
    · exact proceeds_dispatch peer _ e
    · split
      · exact proceeds_deliver peer _ e
      · exact .rfl

/-! ### Time -/

theorem proceeds_elapsed (moment : Moment) (e : Endpoint Peer) :
    Proceeds e.link e (e.elapsed moment)
      { emissions := (e.reception.elapse e.link moment).2 ++
        (e.transmission.elapse e.link moment).2.emissions } := by
  refine ⟨rfl, rfl, rfl, rfl, Transmission.advances_elapse e.link moment _,
    List.Subset.refl _, fun hr => ?_, fun x hx => ?_⟩
  · -- Entries stay, and at most their flags are set.
    rw [elapsed, Reception.find?_elapse] at hr
    obtain ⟨entry, hfound, rfl⟩ := Option.map_eq_some_iff.1 hr
    exact ⟨entry, hfound, rfl, fun hflag => by rw [hflag, Bool.true_or]⟩
  · -- What is sent is either an acknowledgement that was due or another copy of a message.
    rcases List.mem_append.1 hx with hx | hx
    · rw [Reception.elapse] at hx
      obtain ⟨peer, id, entry, hr, hx⟩ := Ledger.mem_flatMap_toList.1 hx
      dsimp only at hx
      split at hx
      · rename_i hfires
        rw [Link.emit] at hx
        split at hx
        · rw [Reception.Entry.fires, Bool.and_eq_true, Bool.not_eq_true'] at hfires
          exact .ack hr hfires.1 (List.mem_singleton.1 hx)
        · cases hx
      · cases hx
    · obtain ⟨peer, id, record, hr, hx⟩ := Transmission.mem_elapse_emissions.1 hx
      exact .copy ((record.elapse_concerns e.link peer id moment).emissions x hx)
        (.inl ⟨peer, id, record, hr, rfl⟩)

theorem proceeds_expireAll (moment : Moment) (ks : List Nat) (e : Endpoint Peer) :
    Proceeds e.link e (e.expireAll moment ks).1 (e.expireAll moment ks).2 := by
  induction ks generalizing e with
  | nil => exact .rfl
  | cons k ks ih =>
    have hexpire : Proceeds e.link e (e.expire moment k).1 (e.expire moment k).2 := by
      rw [expire]
      split
      · exact .rfl
      · split
        · exact .rfl
        · split
          · exact proceeds_finish _ _ _ _ e
          · exact .rfl
    exact hexpire.seq (ih _)

theorem proceeds_elapse (moment : Moment) (e : Endpoint Peer) :
    Proceeds e.link e (e.elapse moment).1 (e.elapse moment).2 := by
  rw [elapse_eq]
  exact ((proceeds_elapsed moment e).seq (proceeds_resolveAll _ _)).seq
    (proceeds_expireAll moment _ _)

theorem proceeds_purge (time : Nat) (e : Endpoint Peer) :
    Proceeds e.link e (e.purge time) {} := by
  refine ⟨rfl, rfl, rfl, rfl, ⟨Nat.le_refl _, fun hr => .inl ⟨_, hr, rfl⟩⟩,
    List.Subset.refl _, fun {peer id entry'} hr => ?_, fun x hx => by cases hx⟩
  rw [purge, Reception.find?_purge, Option.filter_eq_some_iff] at hr
  exact ⟨entry', hr.1, rfl, fun h => h⟩

theorem proceeds_purges (first count : Nat) (e : Endpoint Peer) :
    Proceeds e.link e (e.purges first count).1 (e.purges first count).2 := by
  induction count generalizing first e with
  | zero => exact .rfl
  | succ count ih =>
    rw [purges]
    exact (proceeds_elapse _ e).seq ((proceeds_purge _ _).after (ih (first + 1) _))

/-- What is sent over a while was due by then. -/
theorem proceeds_advance (ms : Nat) (e : Endpoint Peer) :
    Proceeds (e.link.later ms) e (e.advance ms).1 (e.advance ms).2 := by
  have hpurges := proceeds_purges (e.link.now / e.link.timing.purgeInterval + 1)
    (purgeCount e.link e.link.now (e.link.now + ms)) e
  rw [advance]
  generalize e.purges (e.link.now / e.link.timing.purgeInterval + 1)
    (purgeCount e.link e.link.now (e.link.now + ms)) = purged at *
  obtain ⟨e', first⟩ := purged
  obtain ⟨hlink, htiming, hservice, htimeout, htransmission, hdraws, hentries, hemissions⟩ :=
    hpurges.seq (proceeds_elapse (.endOf (e.link.now + ms)) e')
  refine ⟨?_, rfl, hservice, htimeout, htransmission, hdraws, hentries, hemissions⟩
  dsimp only at hlink ⊢
  rw [hlink]
  rfl

theorem link_purge (time : Nat) (e : Endpoint Peer) : (e.purge time).link = e.link := rfl

/-- What is kept up to every moment is kept by purges. -/
theorem Seated.purges_rec {P : Nat → Endpoint Peer → Effects Peer → Prop}
    (helapse : ∀ {stop stop' moment e past}, e.Seated → P stop e past → stop ≤ stop' →
      moment.By stop' → P stop' (e.elapse moment).1 (past ++ (e.elapse moment).2))
    (hpurge : ∀ {stop e past} time, P stop e past → P stop (e.purge time) past)
    {first count stop stop' : Nat} {past : Effects Peer} (h : e.Seated) (hP : P stop e past)
    (hle : stop ≤ stop')
    (hlast : ∀ i < count, (first + i) * e.link.timing.purgeInterval ≤ stop') :
    ∃ last ≤ stop', P last (e.purges first count).1 (past ++ (e.purges first count).2) := by
  induction count generalizing first e past stop with
  | zero =>
    rw [purges, Effects.append_empty]
    exact ⟨stop, hle, hP⟩
  | succ count ih =>
    -- Up to the first purge time passes, then it purges, and the rest starts one interval later.
    let time := first * e.link.timing.purgeInterval
    let moment : Moment := ⟨time, time - e.link.timing.purgeInterval⟩
    have htime : moment.time ≤ stop' := hlast 0 (Nat.succ_pos count)
    have hfirst := helapse h hP hle (Moment.by_of_le htime)
    have hseated := (h.spares_elapse 0 moment).seated
    have hlink : (e.elapse moment).1.link = e.link := (proceeds_elapse moment e).link_eq
    have hpurges : e.purges first (count + 1) =
        (((e.elapse moment).1.purge time).purges (first + 1) count).map id
          ((e.elapse moment).2 ++ ·) := rfl
    rw [hpurges]
    generalize e.elapse moment = elapsed at *
    obtain ⟨e', before⟩ := elapsed
    have hpurged : (e'.purge time).Seated := ⟨hseated.isOpen, hseated.lt, hseated.waiting_iff⟩
    have hlater : ∀ i < count,
        (first + 1 + i) * (e'.purge time).link.timing.purgeInterval ≤ stop' := by
      intro i hi
      rw [link_purge, hlink, Nat.add_assoc, Nat.add_comm 1 i]
      exact hlast (i + 1) (Nat.succ_lt_succ hi)
    have hrest := ih hpurged (hpurge time hfirst) le_rfl hlater
    rw [Prod.map_fst, Prod.map_snd, ← Effects.append_assoc]
    exact hrest

/-- What is kept up to every moment, by purges and by the clock is kept as time goes on. -/
theorem Seated.advance_rec {P : Nat → Endpoint Peer → Effects Peer → Prop}
    (helapse : ∀ {stop stop' moment e past}, e.Seated → P stop e past → stop ≤ stop' →
      moment.By stop' → P stop' (e.elapse moment).1 (past ++ (e.elapse moment).2))
    (hpurge : ∀ {stop e past} time, P stop e past → P stop (e.purge time) past)
    (hclock : ∀ {stop now e past}, P stop e past →
      P stop { e with link := { e.link with now } } past)
    (h : e.Seated) {past : Effects Peer} (hP : P e.link.now e past) (ms : Nat) :
    P (e.link.now + ms) (e.advance ms).1 (past ++ (e.advance ms).2) := by
  -- The last purge is not later than the time at the end.
  have hlast : ∀ i < purgeCount e.link e.link.now (e.link.now + ms),
      (e.link.now / e.link.timing.purgeInterval + 1 + i) * e.link.timing.purgeInterval ≤
        e.link.now + ms := by
    intro i hi
    rw [purgeCount] at hi
    split at hi
    · refine (Nat.mul_le_mul_right _ ?_).trans (Nat.div_mul_le_self _ e.link.timing.purgeInterval)
      omega
    · cases hi
  obtain ⟨last, hle, hpurged⟩ := h.purges_rec helapse hpurge hP (Nat.le_add_right _ ms) hlast
  have hseated := (h.spares_purges 0 (e.link.now / e.link.timing.purgeInterval + 1)
    (purgeCount e.link e.link.now (e.link.now + ms))).seated
  rw [advance]
  generalize e.purges (e.link.now / e.link.timing.purgeInterval + 1)
    (purgeCount e.link e.link.now (e.link.now + ms)) = purged at *
  obtain ⟨e', first⟩ := purged
  rw [← Effects.append_assoc]
  exact hclock (helapse hseated hpurged hle (Moment.endOf_by _))

theorem Proceeds.settle (h : Proceeds link e e' effects) (answer : Answer Peer) :
    Proceeds link e (e'.settle answer effects).1 (e'.settle answer effects).2.effects := by
  have hlate := proceeds_elapse (.endOf e'.link.now) e'
  obtain rfl := h.link_eq
  exact h.trans hlate

/-! ### Steps -/

/-- Nothing is sent when an endpoint is shut down. -/
theorem proceeds_shutdown (e : Endpoint Peer) :
    Proceeds e.link.close e e.shutdown.1 e.shutdown.2 :=
  ⟨rfl, rfl, rfl, rfl, (.close : e.transmission.Change e.link none _ _).advances,
    List.Subset.refl _, fun hr => ⟨_, hr, rfl, id⟩, fun x hx => by cases hx⟩

/-- What an event brings about that takes in no datagram. -/
theorem proceeds_step (e : Endpoint Peer) {event : Event Peer}
    (hdatagram : ∀ peer bytes, event ≠ .datagram peer bytes) :
    Proceeds (event.link e.link) e (e.step event).1 (e.step event).2.effects := by
  cases event with
  | datagram peer bytes => exact absurd rfl (hdatagram peer bytes)
  | request peer request => exact (proceeds_request peer request e).settle _
  | abandon k => exact (proceeds_abandon k e).settle _
  | respond responder response =>
    rw [step_respond]
    exact (proceeds_respond responder response e).settle _
  | shutdown => exact (proceeds_shutdown e).settle _
  | sleep ms =>
    rw [step_sleep]
    exact proceeds_advance ms e

/-- A message that comes in prompts a bare acknowledgement: at once if it is no request, and
    otherwise when it was remembered for the acknowledgement delay. -/
inductive Prompts (e : Endpoint Peer) (event : Event Peer) (peer : Peer) (id : UInt16) :
    (time : Nat) → Prop where
  | once {bytes : Bytes} {m : Message} (event_eq : event = .datagram peer bytes)
      (decoded : Message.decode bytes = .ok m) (confirmable : m.isConfirmable)
      (id_eq : m.id? = some id) (code : m.code.isRequest = false) :
      Prompts e event peer id e.link.now
  | later {bytes : Bytes} {m : Message} (event_eq : event = .datagram peer bytes)
      (decoded : Message.decode bytes = .ok m) (confirmable : m.isConfirmable)
      (id_eq : m.id? = some id) (code : m.code.isRequest)
      (new : e.reception.entries.find? peer id = none) :
      Prompts e event peer id (Timer.after e.link.now e.link.timing.ackDelay).due

/-- What a datagram adds to what an endpoint does anyway: bare acknowledgements that are sent at
    once, and a request that is remembered. -/
structure Hears (e : Endpoint Peer) (peer : Peer) (bytes : Bytes) (reception : Reception Peer)
    (acks : List (Emission Peer)) : Prop where
  acks : ∀ x ∈ acks, ∃ id, x = ⟨e.link.now, peer, Reception.bareAck id, none⟩ ∧
    e.Prompts (.datagram peer bytes) peer id e.link.now
  entries : ∀ {peer' id entry'}, reception.entries.find? peer' id = some entry' →
    e.reception.entries.find? peer' id = some entry' ∨ peer' = peer ∧
      entry' = ⟨e.link.now, false⟩ ∧ e.Prompts (.datagram peer bytes) peer id
        (Timer.after e.link.now e.link.timing.ackDelay).due

theorem Hears.nothing {peer : Peer} {bytes : Bytes} : e.Hears peer bytes e.reception [] :=
  ⟨List.forall_mem_nil _, .inl⟩

theorem hears_receive {peer : Peer} {bytes : Bytes} {m : Message}
    (hm : Message.decode bytes = .ok m) :
    e.Hears peer bytes (e.reception.receive e.link peer m).reception
      (e.reception.receive e.link peer m).emissions := by
  rw [Reception.receive]
  split
  · -- A confirmable message: a request is remembered if it is new, anything else is acknowledged at
    -- once.
    rename_i id hconfirmable hid
    cases hcode : m.code.isRequest with
    | false =>
      refine ⟨fun x hx => ⟨id, ?_, .once rfl hm hconfirmable hid hcode⟩, .inl⟩
      rw [Bool.not_false, if_pos rfl, Link.emit] at hx
      split at hx
      · exact List.mem_singleton.1 hx
      · cases hx
    | true =>
      rw [Bool.not_true, if_neg Bool.false_ne_true]
      split
      · exact .nothing
      · rename_i hnew
        refine ⟨List.forall_mem_nil _, fun {peer' id' entry'} hr => ?_⟩
        dsimp only at hr
        rw [Ledger.find?_insert] at hr
        -- An entry that is there afterwards is the one that was put in, or it was there before.
        split at hr
        · rename_i hkey
          obtain ⟨rfl, rfl⟩ := hkey
          have hnone := Option.not_isSome_iff_eq_none.1 hnew
          exact .inr ⟨rfl, (Option.some.inj hr).symm, .later rfl hm hconfirmable hid hcode hnone⟩
        · exact .inl hr
  · exact .nothing

/-- What taking in a datagram brings about. -/
theorem proceeds_datagram (peer : Peer) (bytes : Bytes) (e : Endpoint Peer) :
    ∃ reception acks effects, e.Hears peer bytes reception acks ∧
      Proceeds e.link { e with reception } (e.step (.datagram peer bytes)).1 effects ∧
        (e.step (.datagram peer bytes)).2.effects.emissions = acks ++ effects.emissions := by
  have hreceive : ∃ reception acks effects, e.Hears peer bytes reception acks ∧
      Proceeds e.link { e with reception } (e.receive peer bytes).1 effects ∧
        (e.receive peer bytes).2.emissions = acks ++ effects.emissions := by
    have hsilent : ∃ reception acks effects, e.Hears peer bytes reception acks ∧
        Proceeds e.link { e with reception } e effects ∧
          ({} : Effects Peer).emissions = acks ++ effects.emissions :=
      ⟨e.reception, [], {}, .nothing, .rfl, rfl⟩
    rw [receive]
    split
    · -- A datagram that cannot be read does nothing.
      cases hm : Message.decode bytes with
      | error fault => exact hsilent
      | ok m =>
        have hanswer := (proceeds_change (e.transmission.change_receive e.link peer m)
          (e.transmission.jitter_subset_receive e.link peer m)).seq
          (proceeds_resolveAll (e.transmission.receive e.link peer m).2.toList _)
        have hhand := proceeds_handOn (e.reception.receive e.link peer m).verdict peer m
          { e with reception := (e.reception.receive e.link peer m).reception }
        dsimp only
        rw [accept]
        -- An answer is no business of the reception. Everything else is heard there first.
        split
        · exact ⟨e.reception, [], _, .nothing, hanswer, rfl⟩
        · exact ⟨e.reception, [], _, .nothing, hanswer, rfl⟩
        · exact ⟨_, _, _, hears_receive hm, hhand, rfl⟩
    · exact hsilent
  obtain ⟨reception, acks, effects, hhears, hproceeds, hemissions⟩ := hreceive
  refine ⟨reception, acks, _, hhears, hproceeds.settle .done, ?_⟩
  rw [step_datagram, effects_settle, effects_settle]
  exact (congrArg (· ++ _) hemissions).trans (List.append_assoc _ _ _)

/-! ### Runs -/

/-- What events do not change: the service, the time that is waited for a response, and the timing.
    Draws are taken, but none is added. -/
structure Settled (e e' : Endpoint Peer) : Prop where
  service : e'.service = e.service
  responseTimeout : e'.responseTimeout = e.responseTimeout
  timing : e'.link.timing = e.link.timing
  draws : e'.transmission.draws.jitter ⊆ e.transmission.draws.jitter

omit [DecidableEq Peer] in
theorem Event.timing_link (link : Link) (event : Event Peer) :
    (event.link link).timing = link.timing := by
  cases event <;> rfl

theorem proceeds_from (e : Endpoint Peer) (event : Event Peer) :
    ∃ reception effects, Proceeds (event.link e.link) { e with reception } (e.step event).1
      effects := by
  by_cases hdatagram : ∃ peer bytes, event = .datagram peer bytes
  · obtain ⟨peer, bytes, rfl⟩ := hdatagram
    obtain ⟨reception, acks, effects, -, hproceeds, -⟩ := e.proceeds_datagram peer bytes
    exact ⟨reception, effects, hproceeds⟩
  · exact ⟨e.reception, _, e.proceeds_step fun peer bytes heq => hdatagram ⟨peer, bytes, heq⟩⟩

/-- The link after a step is told from the event. -/
theorem link_step (e : Endpoint Peer) (event : Event Peer) :
    (e.step event).1.link = event.link e.link := by
  obtain ⟨reception, effects, hproceeds⟩ := e.proceeds_from event
  exact hproceeds.link_eq

theorem settled_run (e : Endpoint Peer) (events : List (Event Peer)) :
    Settled e (e.run events).1 := by
  induction events using List.reverseRecOn with
  | nil => exact ⟨rfl, rfl, rfl, List.Subset.refl _⟩
  | append_singleton events event ih =>
    obtain ⟨reception, effects, hproceeds⟩ := (e.run events).1.proceeds_from event
    rw [run_concat]
    refine ⟨hproceeds.service.trans ih.service,
      hproceeds.responseTimeout.trans ih.responseTimeout, ?_,
      List.Subset.trans hproceeds.draws ih.draws⟩
    rw [link_step, Event.timing_link, ih.timing]

/-- A request that is remembered is to be acknowledged on its own at a time. -/
def Owes (e : Endpoint Peer) (peer : Peer) (id : UInt16) (time : Nat) : Prop :=
  ∃ entry, e.reception.entries.find? peer id = some entry ∧
    (entry.timer e.link.timing).due = time

theorem Issues.owes {x : Emission Peer} {peer : Peer} {id : UInt16} (h : e.Issues x)
    (hx : x.IsBareAck peer id) : e.Owes peer id x.time := by
  obtain ⟨hpeer, hbytes, hticket⟩ := hx
  cases h with
  | copy ticket_eq => cases hticket.symm.trans ticket_eq
  | ack found acknowledged emission_eq =>
    subst emission_eq
    obtain rfl := hpeer
    obtain rfl := Reception.bareAck_injective hbytes
    exact ⟨_, found, rfl⟩

/-- An acknowledgement that is owed afterwards was owed before. -/
theorem Proceeds.owes (h : Proceeds link e e' effects) {peer : Peer} {id : UInt16} {time : Nat}
    (howes : e'.Owes peer id time) : e.Owes peer id time := by
  obtain ⟨entry', hr', rfl⟩ := howes
  obtain ⟨entry, hr, hcreated, -⟩ := h.entries hr'
  refine ⟨entry, hr, ?_⟩
  rw [Reception.Entry.timer, Reception.Entry.timer, h.link_eq, h.timing, hcreated]

/-- A bare acknowledgement that is sent within an event, or is to be sent after it, was to be sent
    before, or it is prompted by the event. -/
theorem owes_step (e : Endpoint Peer) (event : Event Peer) (peer : Peer) (id : UInt16) :
    (∀ x ∈ (e.step event).2.effects.emissions, x.IsBareAck peer id →
      e.Owes peer id x.time ∨ e.Prompts event peer id x.time) ∧
    ∀ time, (e.step event).1.Owes peer id time →
      e.Owes peer id time ∨ e.Prompts event peer id time := by
  -- Only a datagram puts anything new into the reception. All other events send what was owed.
  by_cases hdatagram : ∃ peer bytes, event = .datagram peer bytes
  · obtain ⟨sender, bytes, rfl⟩ := hdatagram
    obtain ⟨reception, acks, effects, hhears, hproceeds, hemissions⟩ :=
      e.proceeds_datagram sender bytes
    have howes : ∀ {time}, { e with reception }.Owes peer id time →
        e.Owes peer id time ∨ e.Prompts (.datagram sender bytes) peer id time := by
      rintro time ⟨entry, hr, rfl⟩
      rcases hhears.entries hr with hr | ⟨rfl, rfl, hprompts⟩
      · exact .inl ⟨entry, hr, rfl⟩
      · exact .inr hprompts
    refine ⟨fun x hx hack => ?_, fun time htime => howes (hproceeds.owes htime)⟩
    rw [hemissions] at hx
    -- It is sent as the message comes in, or by what follows.
    rcases List.mem_append.1 hx with hx | hx
    · obtain ⟨id', rfl, hprompts⟩ := hhears.acks x hx
      obtain ⟨rfl, hbytes, -⟩ := hack
      obtain rfl := Reception.bareAck_injective hbytes
      exact .inr hprompts
    · exact howes ((hproceeds.emissions x hx).owes hack)
  · have hproceeds := e.proceeds_step fun peer bytes heq => hdatagram ⟨peer, bytes, heq⟩
    exact ⟨fun x hx hack => .inl ((hproceeds.emissions x hx).owes hack),
      fun time htime => .inl (hproceeds.owes htime)⟩

/-- Something in a run prompts a bare acknowledgement. -/
def Prompted (e : Endpoint Peer) (events : List (Event Peer)) (peer : Peer) (id : UInt16)
    (time : Nat) : Prop :=
  ∃ before event after, events = before ++ event :: after ∧
    (e.run before).1.Prompts event peer id time

omit [DecidableEq Peer] in
theorem total_concat (reports : List (Report Peer)) (report : Report Peer) :
    total (reports ++ [report]) = total reports ++ report.effects := by
  induction reports with
  | nil => exact Effects.append_empty _
  | cons first reports ih =>
    exact (congrArg (first.effects ++ ·) ih).trans (Effects.append_assoc _ _ _).symm

/-- A run is the part before an event, the event, and the part after it. -/
theorem run_split (e : Endpoint Peer) (before : List (Event Peer)) (event : Event Peer)
    (after : List (Event Peer)) : (e.run (before ++ event :: after)).1 =
      (((e.run before).1.step event).1.run after).1 := by
  rw [run_append]
  rfl

theorem run_concat_snd (e : Endpoint Peer) (events : List (Event Peer)) (event : Event Peer) :
    (e.run (events ++ [event])).2 =
      (e.run events).2 ++ [((e.run events).1.step event).2] := by
  rw [run_append, run_singleton]

/-- If no request with an id is remembered, every bare acknowledgement of this id that is sent from
    then on is prompted by a message that comes in later. -/
theorem prompted_run {peer : Peer} {id : UInt16} (hnone : e.reception.entries.find? peer id = none)
    (events : List (Event Peer)) :
    (∀ x ∈ (total (e.run events).2).emissions, x.IsBareAck peer id →
      e.Prompted events peer id x.time) ∧
    ∀ time, (e.run events).1.Owes peer id time → e.Prompted events peer id time := by
  induction events using List.reverseRecOn with
  | nil =>
    refine ⟨List.forall_mem_nil _, ?_⟩
    rintro time ⟨entry, hr, -⟩
    cases hnone.symm.trans hr
  | append_singleton events event ih =>
    obtain ⟨hsent, howed⟩ := ih
    obtain ⟨hnow, hlater⟩ := owes_step (e.run events).1 event peer id
    have hconcat : ∀ {time}, (e.run events).1.Owes peer id time ∨
        (e.run events).1.Prompts event peer id time → e.Prompted (events ++ [event]) peer id time :=
      fun h => exists_split_concat_iff.2 (h.imp_left (howed _))
    rw [run_concat_snd, total_concat, run_concat]
    refine ⟨fun x hx hack => ?_, fun time htime => hconcat (hlater time htime)⟩
    -- It was sent before the last event, or within it.
    rcases List.mem_append.1 hx with hx | hx
    · exact exists_split_concat_iff.2 (.inl (hsent x hx hack))
    · exact hconcat (hnow x hx hack)

end Endpoint

end Coap
