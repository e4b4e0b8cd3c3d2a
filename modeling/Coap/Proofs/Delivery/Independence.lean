import Coap.Proofs.Store.Ledger
import Coap.Proofs.Delivery.Duplicate

/-!
# Peers do not interfere

A receiver keeps the requests of all peers in one ledger, under one clock, and drops those of all
peers at once. Even so what a peer gets, and what becomes of its messages and of the responses to
it, depends on what is remembered of its own requests only (`Reception.Agree`). So the messages of
other peers and the responses to them can be left out of a run, and no peer can tell
(`Receiver.Alike`).

* `Receiver.Alike.step`: receivers that are alike for a peer stay so, and send it the same;
* `Receiver.Calm.alike_step`: an event of another peer changes nothing for a peer;
* `Receiver.alike_run`: the same for a run;
* `Receiver.independence`: what this means for datagrams, messages and responses.
-/

namespace Coap

variable {Peer : Type} [DecidableEq Peer]

/-- Of some datagrams those that go to a peer. -/
def sentTo (p : Peer) (emissions : List (Emission Peer)) : List (Emission Peer) :=
  emissions.filter (·.peer = p)

theorem sentTo_append (p : Peer) (a b : List (Emission Peer)) :
    sentTo p (a ++ b) = sentTo p a ++ sentTo p b :=
  List.filter_append _ _

/-- What is sent to others is not sent to the peer. -/
theorem sentTo_emit (p : Peer) (link : Link) {x : Emission Peer} (h : x.peer ≠ p) :
    sentTo p (link.emit x) = [] := by
  rw [sentTo, Link.emit]
  split
  · rw [List.filter_cons, if_neg fun heq => h (of_decide_eq_true heq), List.filter_nil]
  · rfl

namespace Reception

/-- The same is remembered of the requests of a peer. -/
def Agree (p : Peer) (r r' : Reception Peer) : Prop :=
  ∀ id, r.entries.find? p id = r'.entries.find? p id

variable {p peer : Peer} {r r' : Reception Peer}

/-- What becomes of a message depends on what is remembered of its peer. -/
theorem Agree.receive (h : r.Agree p r') (link : Link) (m : Message) :
    let received := r.receive link p m
    let received' := r'.receive link p m
    received.reception.Agree p received'.reception ∧ received.verdict = received'.verdict ∧
      received.emissions = received'.emissions := by
  intro received received'
  simp only [received, received', Reception.receive]
  split
  · rename_i id _ _
    have hcontains : r.entries.contains p id = r'.entries.contains p id := congrArg _ (h id)
    -- Only a confirmable request looks at what is remembered, at the key of its own peer.
    split
    · exact ⟨h, rfl, rfl⟩
    · rw [hcontains]
      split
      · exact ⟨h, rfl, rfl⟩
      · refine ⟨fun id' => ?_, rfl, rfl⟩
        rw [Ledger.find?_insert, Ledger.find?_insert, h id']
  · exact ⟨h, rfl, rfl⟩

/-- A message of another peer changes nothing for this one, and nothing is sent to it. -/
theorem agree_receive_of_ne (hne : peer ≠ p) (link : Link) (m : Message) (r : Reception Peer) :
    (r.receive link peer m).reception.Agree p r ∧
      sentTo p (r.receive link peer m).emissions = [] := by
  rw [Reception.receive]
  split
  · split
    · exact ⟨fun _ => rfl, sentTo_emit p link hne⟩
    · split
      · exact ⟨fun _ => rfl, rfl⟩
      · refine ⟨fun id => ?_, rfl⟩
        rw [Ledger.find?_insert, if_neg fun heq => hne heq.1.symm]
  · exact ⟨fun _ => rfl, rfl⟩

/-- The type and the id of a response depend on what is remembered of its peer. -/
theorem Agree.prepare (h : r.Agree p r') (response : Response) :
    (r.prepare p response).1.Agree p (r'.prepare p response).1 ∧
      (r.prepare p response).2 = (r'.prepare p response).2 := by
  have hpending : r.pending? p response = r'.pending? p response := by
    rw [pending?, pending?, funext h]
  rw [Reception.prepare, Reception.prepare, hpending]
  split
  · exact ⟨h, rfl⟩
  · refine ⟨fun id => ?_, rfl⟩
    rw [find?_answered, find?_answered, h id]

/-- A response to another peer changes nothing for this one. -/
theorem agree_prepare_of_ne (hne : peer ≠ p) (response : Response) (r : Reception Peer) :
    (r.prepare peer response).1.Agree p r := by
  intro id
  rw [Reception.prepare]
  split
  · rfl
  · rw [find?_answered, if_neg fun heq => hne heq.1.symm]

theorem Agree.purge (h : r.Agree p r') (timing : Timing) (time : Nat) :
    (r.purge timing time).Agree p (r'.purge timing time) := fun id => by
  rw [find?_purge, find?_purge, h id]

/-- The acknowledgements that become due for a peer depend on what is remembered of it. -/
theorem Agree.elapse (h : r.Agree p r') (link : Link) (moment : Moment) :
    (r.elapse link moment).1.Agree p (r'.elapse link moment).1 ∧
      sentTo p (r.elapse link moment).2 = sentTo p (r'.elapse link moment).2 := by
  refine ⟨fun id => ?_, ?_⟩
  · rw [find?_elapse, find?_elapse, h id]
  · rw [sentTo, sentTo, Reception.elapse, Reception.elapse, List.filter_flatMap,
      List.filter_flatMap]
    refine Ledger.flatMap_toList_congr (fun peer id entry hne => ?_) h
    dsimp only
    split
    · exact sentTo_emit p link hne
    · rfl

end Reception

namespace Receiver

/-- Whether an event has to do with a peer: if a message comes in or a response goes out, it has to
    do with one peer only. -/
def Event.concerns (p : Peer) : Event Peer → Bool
  | .receive peer _ => peer = p
  | .prepare peer _ => peer = p
  | _ => true

/-- The acknowledgements that are sent at once when a message comes in. -/
def Event.acks (link : Link) (r : Reception Peer) : Event Peer → List (Emission Peer)
  | .receive peer m => (r.receive link peer m).emissions
  | _ => []

/-- What a step sends is what the event sends at once, and what is due afterwards. -/
theorem step_emissions (r : Receiver Peer) (event : Event Peer) :
    (r.step event).2.emissions = event.acks r.link r.reception ++
      ((event.reception r.link r.reception).elapse (event.link r.link)
        (.endOf (event.link r.link).now)).2 := by
  cases event <;> rfl

/-- Two receivers that a peer cannot tell apart. -/
structure Alike (p : Peer) (r r' : Receiver Peer) : Prop where
  link_eq : r.link = r'.link
  agree : r.reception.Agree p r'.reception

variable {p : Peer} {r r' : Receiver Peer}

/-- An event that has to do with a peer leaves two receivers alike that were so before, and the
    peer gets the same datagrams from both. -/
theorem Alike.step (h : Alike p r r') {event : Event Peer} (hevent : event.concerns p) :
    Alike p (r.step event).1 (r'.step event).1 ∧
      sentTo p (r.step event).2.emissions = sentTo p (r'.step event).2.emissions := by
  obtain ⟨link, reception⟩ := r
  obtain ⟨link', reception'⟩ := r'
  obtain ⟨hlink, hagree⟩ := h
  obtain rfl : link = link' := hlink
  dsimp only at hagree
  -- What the event does at once is told from what is remembered of the peer, and then time passes
  -- for both.
  have hnow : (event.reception link reception).Agree p (event.reception link reception') ∧
      event.acks link reception = event.acks link reception' := by
    cases event with
    | receive peer m =>
      obtain rfl : peer = p := of_decide_eq_true hevent
      obtain ⟨hreception, -, hacks⟩ := hagree.receive link m
      exact ⟨hreception, hacks⟩
    | prepare peer response =>
      obtain rfl : peer = p := of_decide_eq_true hevent
      exact ⟨(hagree.prepare response).1, rfl⟩
    | purge => exact ⟨hagree.purge _ _, rfl⟩
    | sleep ms => exact ⟨hagree, rfl⟩
    | close => exact ⟨hagree, rfl⟩
  obtain ⟨hreception, hacks⟩ := hnow
  obtain ⟨hlater, hlate⟩ := hreception.elapse (event.link link) (.endOf (event.link link).now)
  refine ⟨⟨by rw [step_link, step_link], ?_⟩, ?_⟩
  · rw [step_reception, step_reception]
    exact hlater
  · rw [step_emissions, step_emissions, sentTo_append, sentTo_append, hacks, hlate]

/-- The answer to an event of a peer depends on what is remembered of this peer. -/
theorem Alike.answer_receive (h : Alike p r r') (m : Message) :
    (r.step (.receive p m)).2.answer = (r'.step (.receive p m)).2.answer := by
  have hanswer : ∀ r : Receiver Peer, (r.step (.receive p m)).2.answer =
      .verdict (r.reception.receive r.link p m).verdict := fun _ => rfl
  rw [hanswer, hanswer, h.link_eq, (h.agree.receive r'.link m).2.1]

theorem Alike.answer_prepare (h : Alike p r r') (response : Response) :
    (r.step (.prepare p response)).2.answer = (r'.step (.prepare p response)).2.answer :=
  congrArg Answer.response (h.agree.prepare response).2

/-- An event that has to do with another peer changes nothing for this one. -/
theorem Calm.alike_step (h : r.Calm) {event : Event Peer} (hevent : ¬ event.concerns p) :
    Alike p (r.step event).1 r ∧ sentTo p (r.step event).2.emissions = [] := by
  have hnow : event.link r.link = r.link ∧
      (event.reception r.link r.reception).Agree p r.reception ∧
        sentTo p (event.acks r.link r.reception) = [] := by
    cases event with
    | receive peer m =>
      have hne : peer ≠ p := fun heq => hevent (decide_eq_true heq)
      exact ⟨rfl, Reception.agree_receive_of_ne hne r.link m r.reception⟩
    | prepare peer response =>
      have hne : peer ≠ p := fun heq => hevent (decide_eq_true heq)
      exact ⟨rfl, Reception.agree_prepare_of_ne hne response r.reception, rfl⟩
    | purge => exact absurd rfl hevent
    | sleep ms => exact absurd rfl hevent
    | close => exact absurd rfl hevent
  obtain ⟨hlink, hreception, hacks⟩ := hnow
  -- What is due for the peer by now has been sent.
  obtain ⟨hlater, hlate⟩ := hreception.elapse r.link (.endOf r.link.now)
  refine ⟨⟨by rw [step_link, hlink], fun id => ?_⟩, ?_⟩
  · rw [step_reception, hlink, hlater id, Reception.find?_elapse]
    cases hentry : r.reception.entries.find? p id with
    | none => rfl
    | some entry => rw [Option.map_some, h hentry, Bool.or_false]
  · rw [step_emissions, hlink, sentTo_append, hacks, hlate, h.elapse_eq_nil]
    rfl

theorem Alike.trans {r'' : Receiver Peer} (h : Alike p r r') (h' : Alike p r' r'') :
    Alike p r r'' :=
  ⟨h.link_eq.trans h'.link_eq, fun id => (h.agree id).trans (h'.agree id)⟩

/-! ### Runs -/

theorem run_concat_snd (r : Receiver Peer) (events : List (Event Peer)) (event : Event Peer) :
    (r.run (events ++ [event])).2 = (r.run events).2 ++ [((r.run events).1.step event).2] := by
  rw [run_append]
  rfl

/-- Without the events that have to do with other peers a run is the same for a peer. -/
theorem alike_run (link : Link) (p : Peer) (events : List (Event Peer)) :
    let start : Receiver Peer := ⟨link, {}⟩
    let own := events.filter (Event.concerns p)
    Alike p (start.run events).1 (start.run own).1 ∧
      sentTo p (emissions (start.run events).2) = sentTo p (emissions (start.run own).2) := by
  intro start own
  have hemissions : ∀ events event, emissions (start.run (events ++ [event])).2 =
      emissions (start.run events).2 ++ ((start.run events).1.step event).2.emissions := by
    intro events event
    rw [run_concat_snd, emissions, emissions, List.flatMap_append, List.flatMap_singleton]
  induction events using List.reverseRecOn with
  | nil => exact ⟨⟨rfl, fun _ => rfl⟩, rfl⟩
  | append_singleton events event ih =>
    obtain ⟨halike, hsent⟩ := ih
    have hown : own = events.filter (Event.concerns p) ++ [event].filter (Event.concerns p) :=
      List.filter_append _ _
    -- An event of the peer is in both runs; any other one changes nothing for the peer.
    by_cases hevent : event.concerns p
    · rw [List.filter_cons_of_pos hevent, List.filter_nil] at hown
      obtain ⟨hstep, hnow⟩ := halike.step hevent
      rw [hown, run_concat, run_concat, hemissions, hemissions, sentTo_append, sentTo_append,
        hsent, hnow]
      exact ⟨hstep, rfl⟩
    · rw [List.filter_cons_of_neg hevent, List.filter_nil, List.append_nil] at hown
      obtain ⟨hstep, hnow⟩ := Calm.alike_step (calm_run link events) hevent
      rw [hown, run_concat, hemissions, sentTo_append, hnow, List.append_nil]
      exact ⟨hstep.trans halike, hsent⟩

/-- What a peer gets, and what becomes of its messages and of the responses to it, does not depend
    on what other peers do: after a run without the messages of others and the responses to them,
    everything is the same for the peer. -/
theorem independence (link : Link) (p : Peer) (events : List (Event Peer)) :
    let start : Receiver Peer := ⟨link, {}⟩
    let own := events.filter (Event.concerns p)
    let r := (start.run events).1
    let r' := (start.run own).1
    sentTo p (emissions (start.run events).2) = sentTo p (emissions (start.run own).2) ∧
      (∀ m, (r.step (.receive p m)).2.answer = (r'.step (.receive p m)).2.answer) ∧
      (∀ response,
        (r.step (.prepare p response)).2.answer = (r'.step (.prepare p response)).2.answer) ∧
      (∀ event, event.concerns p →
        sentTo p (r.step event).2.emissions = sentTo p (r'.step event).2.emissions) ∧
      ∀ event, ¬ event.concerns p → sentTo p (r.step event).2.emissions = [] := by
  -- A run is split into what concerns the peer and the rest. The first part does the same in both
  -- runs, the second one does nothing to it.
  intro start own r r'
  obtain ⟨halike, hsent⟩ := alike_run link p events
  exact ⟨hsent, halike.answer_receive, halike.answer_prepare,
    fun event hevent => (halike.step hevent).2,
    fun event hevent => (Calm.alike_step (calm_run link events) hevent).2⟩

end Receiver
end Coap
