import Coap.Proofs.Delivery.Acknowledgement
import Mathlib.Data.List.Induction

/-!
# Duplicates

A confirmable request is a duplicate if one with the same key was handed on before and has neither
been answered nor grown too old for a purge since (`Receiver.Event.Ends`). This depends on the
events of a run alone, whether or not the way out is open, and a duplicate leaves no trace.

* `Receiver.since?_step_eq_some_iff`: since when a request is remembered after a step;
* `Receiver.since?_run_eq_some_iff`: the same for a run, told from its events;
* `Receiver.Calm.same_step`: a step that does not touch what is remembered changes nothing;
* `Receiver.duplication`: which messages of a run are duplicates, and what leaves everything as
    it is.
-/

namespace Coap.Receiver

variable {Peer : Type} [DecidableEq Peer]

/-! ### Since when a request is remembered -/

/-- When the request that is remembered under a key came in. -/
def since? (r : Receiver Peer) (peer : Peer) (id : UInt16) : Option Nat :=
  (r.reception.entries.find? peer id).map Reception.Entry.created

/-- Whether an event at a given time ends what is remembered under a key of a request that came in
    at another time: a response without a type does that carries the id, and a purge if the request
    is as old as the lifetime of an exchange. -/
def Event.Ends (timing : Timing) (now : Nat) (peer : Peer) (id : UInt16) (since : Nat) :
    Event Peer → Prop
  | .prepare peer' response =>
    peer' = peer ∧ response.message.type? = none ∧ response.message.id? = some id
  | .purge => timing.exchangeLifetime ≤ now - since
  | _ => False

/-- Whether an event brings in a confirmable request with a key. -/
def Event.Asks (peer : Peer) (id : UInt16) : Event Peer → Prop
  | .receive peer' m => peer' = peer ∧ m.confirmableId? true = some id
  | _ => False

omit [DecidableEq Peer] in
theorem Event.asks_iff {peer : Peer} {id : UInt16} {event : Event Peer} :
    event.Asks peer id ↔ ∃ m, event = .receive peer m ∧ m.confirmableId? true = some id := by
  cases event <;> simp [Asks]

/-- What is remembered after a step is what the event leaves, after time has passed. -/
theorem step_reception (r : Receiver Peer) (event : Event Peer) :
    (r.step event).1.reception = ((event.reception r.link r.reception).elapse
      (event.link r.link) (.endOf (event.link r.link).now)).1 := by
  cases event <;> rfl

/-- A message that is no confirmable request is not remembered. -/
theorem reception_of_no_request {link : Link} {r : Reception Peer} {peer : Peer} {m : Message}
    (hm : m.confirmableId? true = none) : (r.receive link peer m).reception = r := by
  rw [Reception.receive]
  split
  · rename_i id hc hid
    split
    · rfl
    · rename_i hcode
      have hrequest : m.code.isRequest = true := by simpa using hcode
      rw [Message.confirmableId?, if_pos ⟨hc, hrequest⟩, hid] at hm
      cases hm
  · rfl

/-- A response whose type is set takes nothing away. -/
theorem reception_of_typed {r : Reception Peer} {peer : Peer} {response : Response}
    (htype : response.message.type? ≠ none) : (r.prepare peer response).1 = r := by
  rw [Reception.prepare]
  split
  · rfl
  · rename_i hnone
    exact absurd hnone htype

/-- A duplicate is neither remembered anew nor acknowledged. -/
theorem receive_of_duplicate {link : Link} {r : Reception Peer} {peer : Peer} {m : Message}
    (h : (r.receive link peer m).verdict = .duplicate) :
    r.receive link peer m = ⟨r, .duplicate, []⟩ := by
  rw [Reception.receive] at h ⊢
  split at h
  · split at h
    · cases h
    · split at h
      · simp [*]
      · cases h
  · cases h

/-- Since when a request is remembered does not depend on the time that passes after an event. -/
theorem since?_step (r : Receiver Peer) (event : Event Peer) (peer : Peer) (id : UInt16) :
    (r.step event).1.since? peer id =
      ((event.reception r.link r.reception).entries.find? peer id).map
        Reception.Entry.created := by
  rw [since?, step_reception, Reception.find?_elapse, Option.map_map]
  rfl

/-- A request that is not remembered is so from now on. -/
theorem since?_receive (r : Receiver Peer) (peer' : Peer) {m : Message} {id' : UInt16}
    (hm : m.confirmableId? true = some id') (peer : Peer) (id : UInt16) :
    (r.step (.receive peer' m)).1.since? peer id =
      if peer = peer' ∧ id = id' then some ((r.since? peer id).getD r.link.now)
      else r.since? peer id := by
  rw [since?_step, Event.reception, receive_of_request hm]
  -- A duplicate changes nothing; otherwise the request is remembered as of now.
  by_cases hc : r.reception.entries.contains peer' id'
  · rw [if_pos hc]
    split
    · rename_i hkey
      obtain ⟨rfl, rfl⟩ := hkey
      obtain ⟨entry, hentry⟩ := Option.isSome_iff_exists.1 hc
      rw [since?, hentry]
      rfl
    · rfl
  · rw [if_neg hc, Ledger.find?_insert]
    split
    · rename_i hkey
      obtain ⟨rfl, rfl⟩ := hkey
      rw [since?, Option.not_isSome_iff_eq_none.1 hc]
      rfl
    · rfl

/-- A response takes away the request of its id, unless its type is set. -/
theorem since?_prepare (r : Receiver Peer) (peer' : Peer) (response : Response) (peer : Peer)
    (id : UInt16) :
    (r.step (.prepare peer' response)).1.since? peer id =
      if peer' = peer ∧ response.message.type? = none ∧ response.message.id? = some id then none
      else r.since? peer id := by
  rw [since?_step, Event.reception, Reception.find?_prepare]
  simp only [eq_comm (a := peer)]
  split <;> rfl

/-- What is dropped are the requests that are as old as the lifetime of an exchange. -/
theorem since?_purge (r : Receiver Peer) (peer : Peer) (id : UInt16) :
    (r.step .purge).1.since? peer id =
      (r.since? peer id).filter fun since =>
        !decide (r.link.timing.exchangeLifetime ≤ r.link.now - since) := by
  rw [since?_step, Event.reception, Reception.find?_purge, since?]
  cases r.reception.entries.find? peer id with
  | none => rfl
  | some entry =>
    simp only [Option.filter_some, Option.map_some, Reception.Entry.expired]
    split <;> rfl

/-- Since when a request is remembered after a step. -/
theorem since?_step_eq_some_iff (r : Receiver Peer) (event : Event Peer) {peer : Peer}
    {id : UInt16} {since : Nat} :
    (r.step event).1.since? peer id = some since ↔
      r.since? peer id = some since ∧
          ¬ event.Ends r.link.timing r.link.now peer id since ∨
        r.since? peer id = none ∧ since = r.link.now ∧ event.Asks peer id := by
  cases event with
  | receive peer' m =>
    cases hm : m.confirmableId? true with
    -- Apart from its own key, a request begins or ends nothing.
    | none =>
      rw [since?_step, Event.reception, reception_of_no_request hm]
      simp [Event.Ends, Event.Asks, hm, since?]
    | some id' =>
      rw [since?_receive r peer' hm]
      -- A request that is remembered is not remembered anew.
      by_cases hkey : peer = peer' ∧ id = id'
      · obtain ⟨rfl, rfl⟩ := hkey
        cases r.since? peer id <;> simp [Event.Ends, Event.Asks, hm, eq_comm]
      · have hasks : ¬ Event.Asks peer id (.receive peer' m) := by
          rintro ⟨rfl, hid⟩
          exact hkey ⟨rfl, Option.some.inj (hid.symm.trans hm)⟩
        simp [hkey, hasks, Event.Ends]
  | prepare peer' response =>
    rw [since?_prepare]
    split <;> simp [Event.Ends, Event.Asks, *]
  | purge =>
    rw [since?_purge, Option.filter_eq_some_iff]
    simp [Event.Ends, Event.Asks]
  | sleep ms =>
    rw [since?_step]
    simp [Event.reception, Event.Ends, Event.Asks, since?]
  | close =>
    rw [since?_step]
    simp [Event.reception, Event.Ends, Event.Asks, since?]

/-! ### Runs -/

theorem run_append (r : Receiver Peer) (events events' : List (Event Peer)) :
    r.run (events ++ events') = (((r.run events).1.run events').1,
      (r.run events).2 ++ ((r.run events).1.run events').2) := by
  induction events generalizing r with
  | nil => rfl
  | cons event events ih => rw [List.cons_append, run_cons, ih, run_cons, List.cons_append]

theorem run_concat (r : Receiver Peer) (events : List (Event Peer)) (event : Event Peer) :
    (r.run (events ++ [event])).1 = ((r.run events).1.step event).1 := by
  rw [run_append]
  rfl

/-- A request is a duplicate just if one with its key is remembered. -/
theorem step_answer_of_request (r : Receiver Peer) {peer : Peer} {m : Message} {id : UInt16}
    (hm : m.confirmableId? true = some id) :
    (r.step (.receive peer m)).2.answer =
      .verdict (if (r.since? peer id).isSome then .duplicate else .forward) := by
  have hanswer : (r.step (.receive peer m)).2.answer =
      .verdict (r.reception.receive r.link peer m).verdict := rfl
  have hsome : (r.since? peer id).isSome = r.reception.entries.contains peer id :=
    Option.isSome_map
  rw [hanswer, receive_of_request hm, hsome]
  split <;> rfl

/-- A request of a run that was handed on, and that nothing has ended since: what came before it,
    the message that brought it in, and what came after it. -/
structure Remembers (start : Receiver Peer) (events : List (Event Peer)) (peer : Peer)
    (id : UInt16) (before : List (Event Peer)) (m : Message) (after : List (Event Peer)) :
    Prop where
  events_eq : events = before ++ .receive peer m :: after
  request : m.confirmableId? true = some id
  forwarded : ((start.run before).1.step (.receive peer m)).2.answer = .verdict .forward
  goes_on : ∀ mid event rest, after = mid ++ event :: rest →
    ¬ event.Ends start.link.timing (start.run (before ++ .receive peer m :: mid)).1.link.now peer id
      (start.run before).1.link.now

/-- What is remembered stays so after an event that does not end it, and a request that is handed
    on is remembered. -/
theorem remembers_concat_iff {start : Receiver Peer} {events : List (Event Peer)}
    {event : Event Peer} {peer : Peer} {id : UInt16} {before : List (Event Peer)} {m : Message}
    {after : List (Event Peer)} :
    start.Remembers (events ++ [event]) peer id before m after ↔
      (∃ after', after = after' ++ [event] ∧ start.Remembers events peer id before m after' ∧
        ¬ event.Ends start.link.timing (start.run events).1.link.now peer id
          (start.run before).1.link.now) ∨
      after = [] ∧ before = events ∧ event = .receive peer m ∧ m.confirmableId? true = some id ∧
        (start.run events).1.since? peer id = none := by
  constructor
  · rintro ⟨hevents, hm, hforward, hgoes⟩
    rcases List.eq_nil_or_concat' after with rfl | ⟨after', event', rfl⟩
    · obtain ⟨rfl, he⟩ := List.append_inj' hevents rfl
      obtain rfl := List.singleton_inj.1 he
      rw [step_answer_of_request _ hm] at hforward
      refine .inr ⟨rfl, rfl, rfl, hm, Option.not_isSome_iff_eq_none.1 fun hsome => ?_⟩
      rw [if_pos hsome] at hforward
      cases hforward
    · rw [← List.cons_append, ← List.append_assoc] at hevents
      obtain ⟨rfl, he⟩ := List.append_inj' hevents rfl
      obtain rfl := List.singleton_inj.1 he
      refine .inl ⟨after', rfl, ⟨rfl, hm, hforward, fun mid event' rest hafter => ?_⟩, ?_⟩
      · refine hgoes mid event' (rest ++ [event]) ?_
        rw [hafter, List.append_assoc, List.cons_append]
      · exact hgoes after' event [] rfl
  · rintro (⟨after', rfl, ⟨rfl, hm, hforward, hgoes⟩, hends⟩ | ⟨rfl, rfl, rfl, hm, hnone⟩)
    · refine ⟨by rw [List.append_assoc, List.cons_append], hm, hforward,
        fun mid event' rest hafter => ?_⟩
      -- The event is the last one, or it is one of those before.
      rcases List.eq_nil_or_concat' rest with rfl | ⟨rest', last, rfl⟩
      · obtain ⟨rfl, he⟩ := List.append_inj' hafter rfl
        obtain rfl := List.singleton_inj.1 he
        exact hends
      · rw [← List.cons_append, ← List.append_assoc] at hafter
        exact hgoes mid event' rest' (List.append_inj' hafter rfl).1
    · refine ⟨rfl, hm, ?_, fun mid event' rest hafter => ?_⟩
      · rw [step_answer_of_request _ hm, hnone]
        rfl
      · simp at hafter

/-- Since when a request is remembered after a run. -/
theorem since?_run_eq_some_iff (link : Link) (events : List (Event Peer)) {peer : Peer}
    {id : UInt16} {since : Nat} :
    let start : Receiver Peer := ⟨link, {}⟩
    (start.run events).1.since? peer id = some since ↔
      ∃ before m after, start.Remembers events peer id before m after ∧
        (start.run before).1.link.now = since := by
  intro start
  -- The induction is on the last event of the run.
  induction events using List.reverseRecOn with
  | nil =>
    constructor
    · intro h
      cases h
    · rintro ⟨before, m, after, ⟨h, -⟩, -⟩
      simp at h
  | append_singleton events event ih =>
    rw [run_concat, since?_step_eq_some_iff, ih, run_timing]
    constructor
    · rintro (⟨⟨before, m, after, h, rfl⟩, hends⟩ | ⟨hnone, rfl, hasks⟩)
      · exact ⟨before, m, _, remembers_concat_iff.2 (.inl ⟨after, rfl, h, hends⟩), rfl⟩
      · obtain ⟨m, rfl, hm⟩ := Event.asks_iff.1 hasks
        exact ⟨events, m, [], remembers_concat_iff.2 (.inr ⟨rfl, rfl, rfl, hm, hnone⟩), rfl⟩
    · rintro ⟨before, m, after, h, rfl⟩
      rcases remembers_concat_iff.1 h with ⟨after', rfl, h, hends⟩ | ⟨rfl, rfl, rfl, hm, hnone⟩
      · exact .inl ⟨⟨before, m, after', h, rfl⟩, hends⟩
      · exact .inr ⟨hnone, rfl, Event.asks_iff.2 ⟨m, rfl, hm⟩⟩

/-- A confirmable request is a duplicate after a run just if one with its key is remembered. -/
theorem answer_eq_duplicate_iff (link : Link) (events : List (Event Peer)) {peer : Peer}
    {m : Message} {id : UInt16} (hm : m.confirmableId? true = some id) :
    let start : Receiver Peer := ⟨link, {}⟩
    ((start.run events).1.step (.receive peer m)).2.answer = .verdict .duplicate ↔
      ∃ before m' after, start.Remembers events peer id before m' after := by
  intro start
  -- To be remembered is to be found, and the time since when it is so tells the request from the
  -- history.
  have hsince : ((start.run events).1.since? peer id).isSome ↔
      ∃ before m' after, start.Remembers events peer id before m' after := by
    rw [Option.isSome_iff_exists]
    constructor
    · rintro ⟨since, hsince⟩
      obtain ⟨before, m', after, h, -⟩ := (since?_run_eq_some_iff link events).1 hsince
      exact ⟨before, m', after, h⟩
    · rintro ⟨before, m', after, h⟩
      exact ⟨_, (since?_run_eq_some_iff link events).2 ⟨before, m', after, h, rfl⟩⟩
  rw [step_answer_of_request _ hm, ← hsince]
  split
  · rename_i hsome
    exact ⟨fun _ => hsome, fun _ => rfl⟩
  · rename_i hnone
    exact ⟨fun he => (by cases he), fun hsome => absurd hsome hnone⟩

/-! ### What changes nothing -/

/-- Every acknowledgement that is due by now has been sent. -/
def Calm (r : Receiver Peer) : Prop :=
  ∀ {peer id entry}, r.reception.entries.find? peer id = some entry →
    entry.fires r.link.timing (.endOf r.link.now) = false

/-- Two receivers remember the same, with the same flags, and have the same link: they act alike
    from now on. -/
structure Same (r r' : Receiver Peer) : Prop where
  link : r'.link = r.link
  find? : ∀ peer id, r'.reception.entries.find? peer id = r.reception.entries.find? peer id

/-- After a step every timer that is due has fired. -/
theorem calm_step (r : Receiver Peer) (event : Event Peer) : (r.step event).1.Calm := by
  intro peer id entry hentry
  rw [step_reception, Reception.find?_elapse] at hentry
  obtain ⟨⟨created, acknowledged⟩, -, rfl⟩ := Option.map_eq_some_iff.1 hentry
  rw [step_link]
  -- A flag that is set keeps a timer from firing, and a timer that fires sets the flag.
  cases acknowledged with
  | true => rfl
  | false =>
    rw [Bool.false_or]
    cases hfires : Reception.Entry.fires (event.link r.link).timing
        (.endOf (event.link r.link).now) ⟨created, false⟩ with
    | true => rfl
    | false => exact hfires

/-- After a run every timer that is due has fired. -/
theorem calm_run (link : Link) (events : List (Event Peer)) :
    ((⟨link, {}⟩ : Receiver Peer).run events).1.Calm := by
  rcases List.eq_nil_or_concat' events with rfl | ⟨events, event, rfl⟩
  · intro peer id entry hentry
    cases hentry
  · rw [run_concat]
    exact calm_step _ event

/-- Nothing is sent as long as no time passes. -/
theorem Calm.elapse_eq_nil {r : Receiver Peer} (h : r.Calm) :
    (r.reception.elapse r.link (.endOf r.link.now)).2 = [] := by
  refine List.flatMap_eq_nil_iff.2 fun ⟨⟨peer, id⟩, entry⟩ hmem => ?_
  have hfires := h (Ledger.mem_toList_iff.1 hmem)
  simp only [hfires, Bool.false_eq_true, if_false]

/-- A step that touches neither the link nor what is remembered changes nothing. -/
theorem Calm.same_step {r : Receiver Peer} (h : r.Calm) {event : Event Peer}
    (hlink : event.link r.link = r.link)
    (hreception : event.reception r.link r.reception = r.reception) : r.Same (r.step event).1 where
  link := by rw [step_link, hlink]
  find? peer id := by
    rw [step_reception, hlink, hreception, Reception.find?_elapse]
    cases hentry : r.reception.entries.find? peer id with
    | none => rfl
    | some entry => rw [Option.map_some, h hentry, Bool.or_false]

/-- A duplicate causes no datagram and changes nothing. -/
theorem Calm.of_duplicate {r : Receiver Peer} (h : r.Calm) {event : Event Peer}
    (hanswer : (r.step event).2.answer = .verdict .duplicate) :
    (r.step event).2.emissions = [] ∧ r.Same (r.step event).1 := by
  cases event with
  | receive peer m =>
    -- A duplicate leaves what is remembered as it is, and nothing of it is due at this moment.
    have hreceive := receive_of_duplicate (Answer.verdict.inj hanswer)
    have hemissions : (r.step (.receive peer m)).2.emissions =
        (r.reception.receive r.link peer m).emissions ++
          ((r.reception.receive r.link peer m).reception.elapse r.link
            (.endOf r.link.now)).2 := rfl
    refine ⟨?_, h.same_step rfl (congrArg Received.reception hreceive)⟩
    rw [hemissions, hreceive, h.elapse_eq_nil]
    rfl
  | prepare => cases hanswer
  | purge => cases hanswer
  | sleep => cases hanswer
  | close => cases hanswer

/-- Which confirmable requests of a run are duplicates, whether or not the way out is open: those
    with a key under which one was handed on that nothing has ended since. A duplicate changes
    nothing and causes no datagram. Neither do messages that are no confirmable requests, nor
    responses with a type, change anything about the requests that are remembered. -/
theorem duplication (link : Link) (events : List (Event Peer)) :
    let start : Receiver Peer := ⟨link, {}⟩
    let r := (start.run events).1
    (∀ peer m id, m.confirmableId? true = some id →
      ((r.step (.receive peer m)).2.answer = .verdict .duplicate ↔
        ∃ before m' after, start.Remembers events peer id before m' after)) ∧
      (∀ event, (r.step event).2.answer = .verdict .duplicate →
        (r.step event).2.emissions = [] ∧ r.Same (r.step event).1) ∧
      (∀ peer m, m.confirmableId? true = none → r.Same (r.step (.receive peer m)).1) ∧
      ∀ peer response, response.message.type? ≠ none →
        r.Same (r.step (.prepare peer response)).1 := by
  intro start r
  have hcalm : r.Calm := calm_run link events
  exact ⟨fun peer m id hm => answer_eq_duplicate_iff link events hm,
    fun event hanswer => hcalm.of_duplicate hanswer,
    fun peer m hm => hcalm.same_step rfl (reception_of_no_request hm),
    fun peer response htype => hcalm.same_step rfl (reception_of_typed htype)⟩

/-- A GET that comes again after a purge a millisecond before its time. -/
theorem duplication_after_purge :
    let get : Message := { type? := some .con, code := .get, id? := some 1 }
    let events : List (Event Unit) := [.receive () get, .sleep 246999, .purge]
    get.confirmableId? true = some 1 ∧
      (((⟨{}, {}⟩ : Receiver Unit).run events).1.step (.receive () get)).2.answer =
        .verdict .duplicate := by
  intro get events
  have hget : get.confirmableId? true = some 1 := rfl
  have hremembers : (⟨{}, {}⟩ : Receiver Unit).Remembers events () 1 [] get
      [.sleep 246999, .purge] := by
    -- Neither the sleep nor the purge ends the stay, as it is a millisecond too young.
    refine ⟨rfl, hget, rfl, fun mid event rest hafter => ?_⟩
    match mid with
    | [] =>
      obtain ⟨rfl, -⟩ := List.cons.inj hafter
      exact not_false
    | [event'] =>
      obtain ⟨he, hafter⟩ := List.cons.inj hafter
      obtain ⟨rfl, -⟩ := List.cons.inj hafter
      rw [← he, Event.Ends]
      decide
    | _ :: _ :: mid => simp at hafter
  exact ⟨hget, ((duplication {} events).1 () get 1 hget).2 ⟨[], get, _, hremembers⟩⟩

end Coap.Receiver
