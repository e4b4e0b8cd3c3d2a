import Coap.Proofs.Delivery.Expiry
import Mathlib.Data.List.Induction
import Mathlib.Data.Set.Card

/-!
# Settlement

A message that is accepted is at its end once at most. The confirmable messages that are not at
their end (`Sender.Unsettled`) are told from the events of a run and what these brought about, and
they are just the messages in flight. So it depends on them alone what an answer of a peer, or
calling off, ends.

* `Sender.Launched.unique`: a message that was accepted is known by its ticket;
* `Sender.accounts_run`: the messages that are not at their end are those in flight;
* `Sender.length_resolutions_run_le`: no message ends twice;
* `Sender.settlement`: how the messages of a run come to their end.
-/

namespace Coap

variable {Peer : Type} [DecidableEq Peer]

theorem Ledger.contains_iff_mem_keys {α : Type} {l : Ledger Peer α} {key : Peer × UInt16} :
    l.contains key.1 key.2 ↔ key ∈ l.toList.map Prod.fst := by
  rw [Ledger.contains, Option.isSome_iff_exists, List.mem_map]
  constructor
  · rintro ⟨a, ha⟩
    exact ⟨_, Ledger.mem_toList_iff.2 ha, rfl⟩
  · rintro ⟨⟨key, a⟩, ha, rfl⟩
    exact ⟨a, Ledger.mem_toList_iff.1 ha⟩

/-! ### Operations -/

namespace Transmission

/-- How an answer of a peer ends the message that it is about. -/
inductive Answers (m : Message) : Outcome Peer → Prop where
  | acknowledged (type_eq : m.type? = some .ack) : Answers m (.acknowledged m)
  | reset (type_eq : m.type? = some .rst) : Answers m .reset

omit [DecidableEq Peer] in
/-- An acknowledgement or a rejection tells how a message ends; no other message does. -/
theorem outcome?_eq_some_iff {m : Message} {outcome : Outcome Peer} :
    outcome? m = some outcome ↔ Answers m outcome := by
  rw [outcome?]
  constructor
  · intro h
    split at h
    · rename_i htype
      obtain rfl := Option.some.inj h
      exact .acknowledged htype
    · rename_i htype
      obtain rfl := Option.some.inj h
      exact .reset htype
    · cases h
  · rintro (⟨htype⟩ | ⟨htype⟩)
    · rw [htype]
    · rw [htype]

variable {t t' : Transmission Peer} {link : Link} {p : Progress Peer} {peer : Peer} {id : UInt16}
  {record : Record}

/-- Nothing is in flight after a change that was not before, unless a message was accepted. -/
theorem Change.found (h : t.Change link none t' p) (hr : t'.records.find? peer id = some record) :
    t.records.find? peer id = some record := by
  cases h with
  | still records next => exact records ▸ hr
  | finish found records next =>
    rw [records, Ledger.find?_erase] at hr
    split at hr
    · cases hr
    · exact hr
  | close => cases hr

/-- What was in flight before a change is so afterwards, or it is at its end. -/
theorem Change.kept {ticket? : Option Nat} (h : t.Change link ticket? t' p)
    (hr : t.records.find? peer id = some record) :
    t'.records.find? peer id = some record ∨ ∃ r ∈ p.resolutions, r.ticket = record.ticket := by
  cases h with
  | still records next => exact .inl (records ▸ hr)
  | accept accepts =>
    cases accepts with
    | once type_eq unconfirmed encoded records next => exact .inl (records ▸ hr)
    -- Only a new message writes, and its id was free.
    | start type_eq encoded free drawn records next =>
      refine .inl ?_
      rw [records, Ledger.find?_insert, if_neg]
      · exact hr
      · rintro ⟨rfl, rfl⟩
        rw [hr] at free
        cases free
  | finish found records next =>
    rename_i peer' id' record' outcome
    -- What ends is either this message or one with another key.
    by_cases hkey : peer = peer' ∧ id = id'
    · obtain ⟨rfl, rfl⟩ := hkey
      obtain rfl := Option.some.inj (hr.symm.trans found)
      exact .inr ⟨_, List.mem_singleton_self _, rfl⟩
    · refine .inl ?_
      rw [records, Ledger.find?_erase, if_neg hkey]
      exact hr
  | close =>
    exact .inr ⟨_, List.mem_map.2 ⟨_, Ledger.mem_toList_iff.2 hr, rfl⟩, rfl⟩

/-- A change ends each message once at most. -/
theorem Change.length_resolutions_le (ht : t.Ticketed) {ticket? : Option Nat}
    (h : t.Change link ticket? t' p) (ticket : Nat) : (p.of ticket).resolutions.length ≤ 1 := by
  have hfilter : (p.of ticket).resolutions.length ≤ p.resolutions.length :=
    List.length_filter_le _ _
  cases h with
  | still records next => exact Nat.zero_le _
  | accept accepts =>
    cases accepts with
    | once => exact hfilter
    | start => exact Nat.zero_le _
  | finish found records next => exact hfilter
  | close =>
    -- Every message in flight ends here. Tickets are not given out twice, so one at most has this
    -- one.
    by_cases hlive : t.Live ticket
    · obtain ⟨peer, id, record, hr, rfl⟩ := hlive
      rw [of_close ht hr]
      exact Nat.le_refl _
    · have hnone := (Turn.of_change ht (.close : t.Change link _ _ _)).of_eq_empty fun hor =>
        hlive (hor.resolve_right List.not_mem_nil)
      rw [hnone]
      exact Nat.zero_le _

/-- A message that ends in one of two turns does not end in the other. -/
theorem Turn.length_resolutions_append_le {t'' : Transmission Peer} {q : Progress Peer}
    {tickets tickets' : List Nat} (ht : t.Ticketed) (h : t.Turn tickets t' p)
    (h' : t'.Turn tickets' t'' q) {ticket : Nat} (hp : (p.of ticket).resolutions.length ≤ 1)
    (hq : (q.of ticket).resolutions.length ≤ 1) :
    ((p ++ q).of ticket).resolutions.length ≤ 1 := by
  have hsum : ((p ++ q).of ticket).resolutions =
      (p.of ticket).resolutions ++ (q.of ticket).resolutions := by
    rw [Progress.of_append]
    rfl
  rw [hsum]
  cases hend : (p.of ticket).resolutions with
  | nil => exact hq
  | cons r rest =>
    -- The message is at its end after the first turn, so nothing happens to it in the second.
    have hr : r ∈ (p.of ticket).resolutions := hend ▸ List.mem_cons_self
    obtain ⟨hmem, hticket⟩ := List.mem_filter.1 hr
    obtain rfl := of_decide_eq_true hticket
    obtain ⟨hk, hgone⟩ := h.resolutions r hmem
    rw [(h'.of_gone (h.lt_of_or ht hk) hgone).1, ← hend, List.append_nil]
    exact hp

end Transmission

namespace Sender

/-! ### Messages that are accepted -/

/-- A confirmable message is accepted. -/
structure Launches (s : Sender Peer) (event : Event Peer) (f : Flight Peer) : Prop where
  sent : ∃ m, event = .send f.peer m ∧ m.type? = some .con ∧
    { m with id? := some f.id }.encode = .ok f.bytes
  accepted : (s.step event).2.answer = .sent (.ok ⟨f.ticket, f.id⟩)
  drawn : Backoff.start? s.link.timing
    (Transmission.jitter s.link.timing s.transmission.draws).1 = some f.backoff
  start : f.start = s.link.now

/-- A confirmable message was accepted in a run. -/
def Launched (start : Sender Peer) (events : List (Event Peer)) (f : Flight Peer) : Prop :=
  ∃ before event after, events = before ++ event :: after ∧ (start.run before).1.Launches event f

/-- A confirmable message was accepted in a run that brought about no end of it. -/
def Unsettled (start : Sender Peer) (events : List (Event Peer)) (f : Flight Peer) : Prop :=
  start.Launched events f ∧ ∀ r ∈ (total (start.run events).2).resolutions, r.ticket ≠ f.ticket

variable {s : Sender Peer} {event : Event Peer} {f f' : Flight Peer}

/-- A message starts out without having been sent again. -/
theorem Launches.fresh (h : s.Launches event f) : f.backoff.retransmissions = 0 :=
  (Backoff.start?_eq_some h.drawn).1

/-- A message is accepted with one id, in one written form and with one schedule. -/
theorem Launches.unique (h : s.Launches event f) (h' : s.Launches event f') : f = f' := by
  obtain ⟨⟨m, rfl, htype, hbytes⟩, haccepted, hdrawn, hstart⟩ := h
  obtain ⟨⟨m', heq, -, hbytes'⟩, haccepted', hdrawn', hstart'⟩ := h'
  obtain ⟨hpeer, rfl⟩ := Event.send.inj heq
  obtain ⟨hticket, hid⟩ :=
    Receipt.mk.inj (Except.ok.inj (Answer.sent.inj (haccepted.symm.trans haccepted')))
  rw [← hid] at hbytes'
  cases f
  cases f'
  simp only [Flight.mk.injEq]
  exact ⟨hticket, hpeer, hid, Except.ok.inj (hbytes.symm.trans hbytes'),
    Option.some.inj (hdrawn.symm.trans hdrawn'), hstart.trans hstart'.symm⟩

/-- What becomes of a message that is to be sent: it is launched, or else what is in flight stays
    as it is. -/
theorem launches_cases (s : Sender Peer) (peer : Peer) (m : Message) :
    (s.transmission.send s.link peer m).transmission.records = s.transmission.records ∧
        (m.type? = some .con →
          ∃ failure, (s.transmission.send s.link peer m).result = .error failure) ∨
      ∃ f, s.Launches (.send peer m) f ∧
        (s.transmission.send s.link peer m).progress = { emissions := [f.copy 0] } ∧
          (s.transmission.send s.link peer m).transmission.records =
            s.transmission.records.insert f.peer f.id
              (.start f.ticket f.bytes f.backoff f.start) := by
  have hanswer : (s.step (.send peer m)).2.answer =
      .sent (s.transmission.send s.link peer m).result := rfl
  rcases s.transmission.send_cases s.link peer m with ⟨herror, -, records, -⟩ | haccepts
  · exact .inl ⟨records, fun _ => herror⟩
  · generalize s.transmission.send s.link peer m = sent at hanswer haccepts
    cases haccepts with
    | once type_eq unconfirmed encoded records next =>
      -- Whatever is sent once only is of another type.
      refine .inl ⟨records, fun htype => ?_⟩
      exact absurd (Option.some.inj (type_eq.symm.trans htype)) unconfirmed
    | start type_eq encoded free drawn records next =>
      rename_i id bytes backoff t'
      exact .inr ⟨⟨_, peer, id, bytes, backoff, s.link.now⟩,
        ⟨⟨m, rfl, type_eq, encoded⟩, hanswer, drawn, rfl⟩, rfl, records⟩

/-- The record of a message that is launched, before time passes. -/
theorem Launches.exists_settle (h : s.Launches event f) :
    ∃ t answer, s.step event = settle ⟨s.link, t⟩ answer { emissions := [f.copy 0] } ∧
      t.records.find? f.peer f.id = some (.start f.ticket f.bytes f.backoff f.start) := by
  obtain ⟨m, rfl, htype, -⟩ := h.sent
  rcases s.launches_cases f.peer m with ⟨-, herror⟩ | ⟨f', h', hprogress, records⟩
  · obtain ⟨failure, herror⟩ := herror htype
    cases herror.symm.trans (Answer.sent.inj h.accepted)
  · obtain rfl := h'.unique h
    refine ⟨(s.transmission.send s.link f'.peer m).transmission, _,
      congrArg (settle ⟨s.link, _⟩ (.sent (s.transmission.send s.link f'.peer m).result)) hprogress,
      ?_⟩
    rw [records, Ledger.find?_insert, if_pos ⟨rfl, rfl⟩]

theorem Launches.link_eq (h : s.Launches event f) : event.link s.link = s.link := by
  obtain ⟨m, rfl, -⟩ := h.sent
  rfl

/-- The ticket of a message that is launched is the one of the answer. -/
theorem Launches.mem_tickets (h : s.Launches event f) :
    f.ticket ∈ (s.step event).2.answer.ticket?.toList := by
  rw [h.accepted]
  exact List.mem_singleton_self _

/-! ### Runs -/

theorem run_concat (s : Sender Peer) (events : List (Event Peer)) (event : Event Peer) :
    s.run (events ++ [event]) = (((s.run events).1.step event).1,
      (s.run events).2 ++ [((s.run events).1.step event).2]) :=
  s.run_append events [event]

/-- What is launched in a run was launched before its last event, or by this. -/
theorem launched_concat_iff {start : Sender Peer} {events : List (Event Peer)} :
    start.Launched (events ++ [event]) f ↔
      start.Launched events f ∨ (start.run events).1.Launches event f :=
  exists_split_concat_iff

theorem not_launched_nil {start : Sender Peer} : ¬ start.Launched [] f := by
  rintro ⟨before, event, after, h, -⟩
  simp at h

theorem Launched.fresh {start : Sender Peer} {events : List (Event Peer)}
    (h : start.Launched events f) : f.backoff.retransmissions = 0 := by
  obtain ⟨before, event, after, -, h⟩ := h
  exact h.fresh

section

variable {start : Sender Peer} (hstart : start.transmission.Ticketed) {events : List (Event Peer)}
include hstart

/-- A message that is launched has a ticket that was not given out before. -/
theorem Launches.le_ticket (h : (start.run events).1.Launches event f) :
    (start.run events).1.transmission.nextTicket ≤ f.ticket ∧
      f.ticket < ((start.run events).1.step event).1.transmission.nextTicket :=
  ((start.run events).1.turn_step (start.turn_run hstart events).ticketed event).mem_tickets_iff.1
    h.mem_tickets

/-- The tickets of messages that were launched were given out. -/
theorem Launched.ticket_lt (h : start.Launched events f) :
    f.ticket < (start.run events).1.transmission.nextTicket := by
  induction events using List.reverseRecOn with
  | nil => exact absurd h not_launched_nil
  | append_singleton events event ih =>
    rw [run_concat]
    rcases launched_concat_iff.1 h with h | h
    · exact Nat.lt_of_lt_of_le (ih h)
        ((start.run events).1.turn_step (start.turn_run hstart events).ticketed event).le
    · exact (h.le_ticket hstart).2

/-- A message that was accepted is known by its ticket. -/
theorem Launched.unique (h : start.Launched events f) (h' : start.Launched events f')
    (hticket : f.ticket = f'.ticket) : f = f' := by
  induction events using List.reverseRecOn with
  | nil => exact absurd h not_launched_nil
  | append_singleton events event ih =>
    -- A ticket that is given out in a step was not given out before.
    have hlater : ∀ {g g' : Flight Peer}, start.Launched events g →
        (start.run events).1.Launches event g' → g.ticket ≠ g'.ticket := by
      intro g g' hg hg' heq
      exact absurd (hg.ticket_lt hstart) (Nat.not_lt.2 (heq ▸ (hg'.le_ticket hstart).1))
    rcases launched_concat_iff.1 h with h | h <;> rcases launched_concat_iff.1 h' with h' | h'
    · exact ih h h'
    · exact absurd hticket (hlater h h')
    · exact absurd hticket.symm (hlater h' h)
    · exact h.unique h'

end

end Sender

/-! ### Messages that are not at their end -/

/-- The record of a message is kept, and no time-out of it is left out. -/
def Flight.Held (f : Flight Peer) (s : Sender Peer) : Prop :=
  ∃ record, s.transmission.records.find? f.peer f.id = some record ∧ f.Waits s.link.now record

namespace Sender

variable {s : Sender Peer} {event : Event Peer} {f : Flight Peer}

/-- A message that is in flight after a change is so when time has passed, or it has ended. -/
theorem held_settle {record : Record} {since : Nat}
    (found : s.transmission.records.find? f.peer f.id = some record)
    (h : f.Lapses s.link.isOpen since s.link.now
      (record.elapse s.link f.peer f.id (.endOf s.link.now)).1
      (record.elapse s.link f.peer f.id (.endOf s.link.now)).2)
    (answer : Answer Peer) (p : Progress Peer) :
    f.Held (s.settle answer p).1 ∨
      ∃ r ∈ (s.settle answer p).2.progress.resolutions, r.ticket = f.ticket := by
  -- How far the message gets by now is told by its own record alone.
  have hfind := Transmission.find?_elapse s.link (.endOf s.link.now) s.transmission f.peer f.id
  have hmem : ∀ r, r ∈ (record.elapse s.link f.peer f.id (.endOf s.link.now)).2.resolutions →
      r ∈ (s.settle answer p).2.progress.resolutions := fun r hr =>
    List.mem_append_right _ (Transmission.mem_elapse_resolutions.2 ⟨_, _, _, found, hr⟩)
  rw [found, Option.bind_some] at hfind
  generalize record.elapse s.link f.peer f.id (.endOf s.link.now) = late at *
  obtain ⟨rest, progress⟩ := late
  cases h with
  | waits waits resolutions => exact .inl ⟨_, hfind, waits⟩
  | expires expires since_le le_now resolutions =>
    refine .inr ⟨_, hmem _ ?_, expires.ticket_eq⟩
    rw [resolutions]
    exact List.mem_singleton_self _

/-- A message in flight is so after a step, or it has ended. -/
theorem held_step (hfresh : f.backoff.retransmissions = 0) (h : f.Held s) (event : Event Peer) :
    f.Held (s.step event).1 ∨ ∃ r ∈ (s.step event).2.progress.resolutions, r.ticket = f.ticket := by
  obtain ⟨record, found, waits⟩ := h
  obtain ⟨answer, t, p, hchange, hstep⟩ := s.exists_change event
  rw [hstep]
  rcases hchange.kept found with found | ⟨r, hr, hticket⟩
  · exact held_settle (s := ⟨event.link s.link, t⟩) found
      (waits.lapses hfresh (event.link_now_le s.link)) answer p
  · exact .inr ⟨r, List.mem_append_left _ hr, hticket.trans waits.ticket_eq⟩

/-- A message that is accepted is in flight after this step, or it has ended. -/
theorem Launches.held (h : s.Launches event f) :
    f.Held (s.step event).1 ∨ ∃ r ∈ (s.step event).2.progress.resolutions, r.ticket = f.ticket := by
  obtain ⟨t, answer, hstep, found⟩ := h.exists_settle
  rw [hstep]
  exact held_settle (s := ⟨s.link, t⟩) found (Flight.lapses_start h.fresh h.start) answer _

/-- What a step does before time passes: one change, after which nothing is in flight that was not
    so before, apart from a message that the step launches. -/
structure ChangesTo (s : Sender Peer) (event : Event Peer) (answer : Answer Peer)
    (t : Transmission Peer) (p : Progress Peer) : Prop where
  change : s.transmission.Change s.link answer.ticket? t p
  step_eq : s.step event = settle ⟨event.link s.link, t⟩ answer p
  found : ∀ {peer id record}, t.records.find? peer id = some record →
    s.transmission.records.find? peer id = some record ∨
      ∃ f, s.Launches event f ∧ f.peer = peer ∧ f.id = id ∧
        record = .start f.ticket f.bytes f.backoff f.start

/-- What an event does that gives out no ticket. -/
theorem ChangesTo.of_none {answer : Answer Peer} {t : Transmission Peer} {p : Progress Peer}
    (hanswer : answer.ticket? = none) (hchange : s.transmission.Change s.link none t p)
    (hstep : s.step event = settle ⟨event.link s.link, t⟩ answer p) :
    s.ChangesTo event answer t p :=
  ⟨hanswer ▸ hchange, hstep, fun hr => .inl (hchange.found hr)⟩

theorem changesTo_send (s : Sender Peer) (peer : Peer) (m : Message) :
    s.ChangesTo (.send peer m) (.sent (s.transmission.send s.link peer m).result)
      (s.transmission.send s.link peer m).transmission
      (s.transmission.send s.link peer m).progress := by
  refine ⟨change_send s.link peer m s.transmission, rfl, fun {peer' id' record} hr => ?_⟩
  rcases s.launches_cases peer m with ⟨records, -⟩ | ⟨f, h, -, records⟩
  · exact .inl (records ▸ hr)
  · rw [records, Ledger.find?_insert] at hr
    split at hr
    · rename_i hkey
      exact .inr ⟨f, h, hkey.1.symm, hkey.2.symm, (Option.some.inj hr).symm⟩
    · exact .inl hr

theorem changesTo_receive (s : Sender Peer) (peer : Peer) (m : Message) :
    s.ChangesTo (.receive peer m) (.found (s.transmission.receive s.link peer m).2.isSome)
      (s.transmission.receive s.link peer m).1
      { resolutions := (s.transmission.receive s.link peer m).2.toList } :=
  .of_none rfl (s.transmission.change_receive s.link peer m) rfl

theorem changesTo_cancel (s : Sender Peer) (peer : Peer) (id : UInt16) :
    s.ChangesTo (.cancel peer id) (.found (s.transmission.cancel s.link peer id).2.isSome)
      (s.transmission.cancel s.link peer id).1
      { resolutions := (s.transmission.cancel s.link peer id).2.toList } :=
  .of_none rfl (s.transmission.change_cancel s.link peer id) rfl

/-- Each event does something to the messages in flight, before any time passes. -/
theorem exists_changesTo (s : Sender Peer) (event : Event Peer) :
    ∃ answer t p, s.ChangesTo event answer t p := by
  cases event with
  | send peer m => exact ⟨_, _, _, s.changesTo_send peer m⟩
  | receive peer m => exact ⟨_, _, _, s.changesTo_receive peer m⟩
  | cancel peer id => exact ⟨_, _, _, s.changesTo_cancel peer id⟩
  | close => exact ⟨.done, _, _, .of_none rfl .close rfl⟩
  | purge =>
    exact ⟨.count _, s.transmission.purge s.link.timing s.link.now, _,
      .of_none rfl (.still rfl rfl) rfl⟩
  | sleep ms => exact ⟨.done, _, _, .of_none rfl (.still rfl rfl) rfl⟩
  | closeLink => exact ⟨.done, _, _, .of_none rfl (.still rfl rfl) rfl⟩

/-- The messages that are not at their end are in flight, and whatever is in flight was accepted in
    the run. -/
structure Accounts (start : Sender Peer) (events : List (Event Peer)) : Prop where
  held : ∀ {f}, start.Unsettled events f → f.Held (start.run events).1
  launched : ∀ {peer id record},
    (start.run events).1.transmission.records.find? peer id = some record →
      ∃ f, start.Launched events f ∧ f.peer = peer ∧ f.id = id ∧
        f.Waits (start.run events).1.link.now record

/-- What ends in one more event comes behind what ended before. -/
theorem total_run_concat (start : Sender Peer) (events : List (Event Peer)) (event : Event Peer) :
    (total (start.run (events ++ [event])).2).resolutions =
      (total (start.run events).2).resolutions ++
        ((start.run events).1.step event).2.progress.resolutions := by
  rw [run_concat, total_append]
  exact congrArg (_ ++ ·) (List.append_nil _)

/-- What becomes of a message that is in flight before time passes: one that was accepted before
    does not end before it did, and neither does one that is launched. -/
theorem Accounts.lapses {start : Sender Peer} {events : List (Event Peer)}
    (h : start.Accounts events) {answer : Answer Peer} {t : Transmission Peer} {p : Progress Peer}
    (hc : (start.run events).1.ChangesTo event answer t p) {peer : Peer} {id : UInt16}
    {record : Record} (hr : t.records.find? peer id = some record) :
    ∃ f, f.peer = peer ∧ f.id = id ∧ ∃ since,
      (start.Launched events f ∧ since = (start.run events).1.link.now + 1 ∨
        (start.run events).1.Launches event f ∧ since = (start.run events).1.link.now) ∧
      f.Lapses (event.link (start.run events).1.link).isOpen since
        (event.link (start.run events).1.link).now
        (record.elapse (event.link (start.run events).1.link) peer id
          (.endOf (event.link (start.run events).1.link).now)).1
        (record.elapse (event.link (start.run events).1.link) peer id
          (.endOf (event.link (start.run events).1.link).now)).2 := by
  rcases hc.found hr with hr | ⟨f, hlaunches, rfl, rfl, rfl⟩
  · -- It was accepted before, and nothing that was due until now is left.
    obtain ⟨f, hlaunched, rfl, rfl, waits⟩ := h.launched hr
    exact ⟨f, rfl, rfl, _, .inl ⟨hlaunched, rfl⟩,
      waits.lapses hlaunched.fresh (event.link_now_le _)⟩
  · -- It is launched by this event: its first time-out may be over at once.
    refine ⟨f, rfl, rfl, f.start, .inr ⟨hlaunches, hlaunches.start⟩, ?_⟩
    rw [hlaunches.link_eq]
    exact Flight.lapses_start hlaunches.fresh hlaunches.start

/-- At first nothing was launched and nothing is in flight. -/
theorem Accounts.nil (link : Link) (draws : Draws) :
    Accounts (⟨link, { draws }⟩ : Sender Peer) [] where
  held h := absurd h.1 not_launched_nil
  launched hr := by cases hr

/-- The accounts are kept by each event. -/
theorem Accounts.concat {start : Sender Peer} {events : List (Event Peer)}
    (h : start.Accounts events) (event : Event Peer) : start.Accounts (events ++ [event]) where
  held {f} := by
    rintro ⟨hlaunched, hnone⟩
    rw [total_run_concat] at hnone
    rw [run_concat]
    have hgoes : f.Held ((start.run events).1.step event).1 ∨
        ∃ r ∈ ((start.run events).1.step event).2.progress.resolutions, r.ticket = f.ticket := by
      rcases launched_concat_iff.1 hlaunched with hlaunched | hlaunches
      · have hheld := h.held ⟨hlaunched, fun r hr => hnone r (List.mem_append_left _ hr)⟩
        exact held_step hlaunched.fresh hheld event
      · exact hlaunches.held
    refine hgoes.resolve_right ?_
    rintro ⟨r, hr, hticket⟩
    exact hnone r (List.mem_append_right _ hr) hticket
  launched {peer id record'} hr := by
    obtain ⟨answer, t, p, hc⟩ := (start.run events).1.exists_changesTo event
    rw [run_concat, hc.step_eq] at hr
    rw [run_concat, step_link]
    -- The record is what remains of one that was there before time passed.
    obtain ⟨record, hr, hrest⟩ :=
      Option.bind_eq_some_iff.1 ((Transmission.find?_elapse _ _ t peer id).symm.trans hr)
    obtain ⟨f, hpeer, hid, since, hor, hlapses⟩ := h.lapses hc hr
    rw [hrest] at hlapses
    refine ⟨f, launched_concat_iff.2 (hor.imp And.left And.left), hpeer, hid, ?_⟩
    cases hlapses with
    | waits waits => exact waits

/-- The messages of a run that are not at their end are those in flight. -/
theorem accounts_run (link : Link) (draws : Draws) (events : List (Event Peer)) :
    Accounts (⟨link, { draws }⟩ : Sender Peer) events := by
  induction events using List.reverseRecOn with
  | nil => exact .nil link draws
  | append_singleton events event ih => exact ih.concat event

/-! ### What is in flight -/

section

variable {start : Sender Peer} {events : List (Event Peer)}

/-- A message in flight is one that was accepted and is not at its end. -/
theorem Accounts.unsettled (h : start.Accounts events) (hstart : start.transmission.Ticketed)
    {peer : Peer} {id : UInt16} {record : Record}
    (hr : (start.run events).1.transmission.records.find? peer id = some record) :
    ∃ f, start.Unsettled events f ∧ f.peer = peer ∧ f.id = id ∧
      f.Waits (start.run events).1.link.now record := by
  obtain ⟨f, hlaunched, rfl, rfl, waits⟩ := h.launched hr
  refine ⟨f, ⟨hlaunched, fun r hmem hticket => ?_⟩, rfl, rfl, waits⟩
  refine ((start.turn_run hstart events).resolutions r hmem).2 ?_
  exact ⟨_, _, _, hr, waits.ticket_eq.trans hticket.symm⟩

/-- The messages that are not at their end are known by their keys, which are those of the messages
    in flight. -/
theorem Accounts.bijOn (h : start.Accounts events) (hstart : start.transmission.Ticketed) :
    Set.BijOn (fun f : Flight Peer => (f.peer, f.id)) {f | start.Unsettled events f}
      {key | (start.run events).1.transmission.records.contains key.1 key.2} := by
  refine ⟨fun f hf => ?_, fun f hf f' hf' hkey => ?_, fun key hkey => ?_⟩
  · obtain ⟨record, found, -⟩ := h.held hf
    exact Option.isSome_iff_exists.2 ⟨record, found⟩
  · -- Of one key there is one record, and it has the tickets of both.
    obtain ⟨hpeer, hid⟩ := Prod.mk.inj hkey
    obtain ⟨record, found, waits⟩ := h.held hf
    obtain ⟨record', found', waits'⟩ := h.held hf'
    rw [← hpeer, ← hid] at found'
    obtain rfl := Option.some.inj (found.symm.trans found')
    exact hf.1.unique hstart hf'.1 (waits.ticket_eq.symm.trans waits'.ticket_eq)
  · obtain ⟨record, found⟩ := Option.isSome_iff_exists.1 hkey
    obtain ⟨f, hf, hpeer, hid, -⟩ := h.unsettled hstart found
    exact ⟨f, hf, Prod.ext hpeer hid⟩

/-- As many messages are in flight as are unsettled. -/
theorem Accounts.inFlight_eq (h : start.Accounts events) (hstart : start.transmission.Ticketed) :
    (start.run events).1.transmission.inFlight = {f | start.Unsettled events f}.ncard := by
  have hbij := h.bijOn hstart
  have hkeys : {key : Peer × UInt16 |
      (start.run events).1.transmission.records.contains key.1 key.2} =
        (((start.run events).1.transmission.records.toList.map Prod.fst).toFinset :
          Set (Peer × UInt16)) :=
    Set.ext fun key => Ledger.contains_iff_mem_keys.trans List.mem_toFinset.symm
  rw [← hbij.injOn.ncard_image, hbij.image_eq, hkeys, Set.ncard_coe_finset,
    List.toFinset_card_of_nodup (Ledger.nodup_keys_toList _), List.length_map]
  rfl

/-- No timer is due when a step is over. -/
theorem Accounts.calm (h : start.Accounts events) :
    (start.run events).1.transmission.Calm (.endOf (start.run events).1.link.now) := by
  intro peer id record hr
  obtain ⟨f, -, -, -, waits⟩ := h.launched hr
  exact waits.not_before

end

/-! ### No message ends twice -/

/-- In a step a message ends once at most. -/
theorem length_resolutions_step_le (s : Sender Peer) (ht : s.transmission.Ticketed)
    (event : Event Peer) (ticket : Nat) :
    ((s.step event).2.progress.of ticket).resolutions.length ≤ 1 := by
  obtain ⟨answer, t, p, hchange, hstep⟩ := s.exists_change event
  have hturn := Transmission.Turn.of_change ht hchange
  rw [hstep]
  exact hturn.length_resolutions_append_le ht (.of_elapse hturn.ticketed _ _)
    (hchange.length_resolutions_le ht ticket)
    (Transmission.length_resolutions_elapse_le hturn.ticketed _ _ ticket)

/-- In a run a message ends once at most. -/
theorem length_resolutions_run_le (s : Sender Peer) (ht : s.transmission.Ticketed)
    (events : List (Event Peer)) (ticket : Nat) :
    ((total (s.run events).2).of ticket).resolutions.length ≤ 1 := by
  induction events generalizing s with
  | nil => exact Nat.zero_le _
  | cons event events ih =>
    have hturn := s.turn_step ht event
    exact hturn.length_resolutions_append_le ht ((s.step event).1.turn_run hturn.ticketed events)
      (s.length_resolutions_step_le ht event ticket) (ih _ hturn.ticketed)

/-! ### How messages come to their end -/

/-- Two senders that have the same link, the same messages in flight and the same counters, and
    give out the same tickets. -/
structure Same (s s' : Sender Peer) : Prop where
  link : s'.link = s.link
  find? : ∀ peer id,
    s'.transmission.records.find? peer id = s.transmission.records.find? peer id
  counters : s'.transmission.counters = s.transmission.counters
  draws : s'.transmission.draws = s.transmission.draws
  nextTicket : s'.transmission.nextTicket = s.transmission.nextTicket

/-- What ends the confirmable messages that are not at their end, and what leaves them alone. -/
structure Settles (s : Sender Peer) (unsettled : Set (Flight Peer)) : Prop where
  /-- A message that is refused has no end. -/
  refused : ∀ {peer m failure}, (s.step (.send peer m)).2.answer = .sent (.error failure) →
    (s.step (.send peer m)).2.progress = {}
  /-- A message that wants no acknowledgement is at its end once it is sent. -/
  once : ∀ {peer m receipt}, m.type? ≠ some .con →
    (s.step (.send peer m)).2.answer = .sent (.ok receipt) →
      (s.step (.send peer m)).2.progress.resolutions = [⟨s.link.now, receipt.ticket, .sent⟩]
  /-- A confirmable one is not, unless its time-outs are over at once. -/
  again : ∀ {peer m receipt}, m.type? = some .con →
    (s.step (.send peer m)).2.answer = .sent (.ok receipt) →
      ∃ f, s.Launches (.send peer m) f ∧
        ∀ r ∈ (s.step (.send peer m)).2.progress.resolutions,
          f.Expires s.link.isOpen r ∧ r.time = s.link.now
  /-- An acknowledgement or a rejection ends the message that it is about. -/
  answered : ∀ {f m outcome}, f ∈ unsettled → m.id? = some f.id →
    Transmission.Answers m outcome →
      (s.step (.receive f.peer m)).2 =
        ⟨.found true, { resolutions := [⟨s.link.now, f.ticket, outcome⟩] }⟩
  /-- Any other message changes nothing. -/
  unmatched : ∀ {peer m}, (∀ f ∈ unsettled, f.peer = peer → m.id? = some f.id →
      ∀ outcome : Outcome Peer, ¬ Transmission.Answers m outcome) →
    (s.step (.receive peer m)).2 = ⟨.found false, {}⟩ ∧ s.Same (s.step (.receive peer m)).1
  /-- Calling off a message ends it. -/
  cancelled : ∀ {f}, f ∈ unsettled →
    (s.step (.cancel f.peer f.id)).2 =
      ⟨.found true, { resolutions := [⟨s.link.now, f.ticket, .failed .closed⟩] }⟩
  /-- Calling off anything else changes nothing. -/
  absent : ∀ {peer id}, (∀ f ∈ unsettled, (f.peer, f.id) ≠ (peer, id)) →
    (s.step (.cancel peer id)).2 = ⟨.found false, {}⟩ ∧ s.Same (s.step (.cancel peer id)).1
  /-- Calling off all messages ends each of them. -/
  closed : (s.step .close).2.progress.emissions = [] ∧
    ∀ r, r ∈ (s.step .close).2.progress.resolutions ↔
      ∃ f ∈ unsettled, r = ⟨s.link.now, f.ticket, .failed .closed⟩
  purged : (s.step .purge).2.progress = {}
  linkClosed : (s.step .closeLink).2.progress = {}
  /-- What ends in the course of time does so by a time-out. -/
  elapsed : ∀ ms, ∀ r ∈ (s.step (.sleep ms)).2.progress.resolutions,
    ∃ f ∈ unsettled, f.Expires s.link.isOpen r ∧ s.link.now < r.time ∧ r.time ≤ s.link.now + ms
  /-- The last time-out gives a message up, if none before it ends it. -/
  overdue : ∀ {f ms}, f ∈ unsettled → f.Feasible → f.time (f.last + 1) ≤ s.link.now + ms →
    s.link.isOpen ∨ f.time f.last ≤ s.link.now →
      f.givenUp ∈ (s.step (.sleep ms)).2.progress.resolutions

section

variable {peer : Peer} {id : UInt16} {m : Message} {receipt : Receipt}

/-- As long as no timer is due, nothing but the operation itself has an effect. -/
theorem step_of_calm {answer : Answer Peer} {t : Transmission Peer} {p : Progress Peer}
    (hcalm : t.Calm (.endOf (event.link s.link).now))
    (hstep : s.step event = settle ⟨event.link s.link, t⟩ answer p) :
    (s.step event).2 = ⟨answer, p⟩ ∧ ∀ peer id,
      (s.step event).1.transmission.records.find? peer id = t.records.find? peer id := by
  obtain ⟨hnone, hfind⟩ := @Transmission.elapse_of_calm _ _ _ (event.link s.link) _ hcalm
  have hprogress : (settle ⟨event.link s.link, t⟩ answer p).2 = ⟨answer,
      p ++ (t.elapse (event.link s.link) (.endOf (event.link s.link).now)).2⟩ := rfl
  rw [hstep, hprogress, hnone, Progress.append_empty]
  exact ⟨rfl, hfind⟩

/-- A step that leaves alone what is in flight changes nothing. -/
theorem same_step (hcalm : s.transmission.Calm (.endOf s.link.now))
    (hlink : event.link s.link = s.link)
    {answer : Answer Peer} {p : Progress Peer}
    (hstep : s.step event = settle ⟨event.link s.link, s.transmission⟩ answer p) :
    (s.step event).2 = ⟨answer, p⟩ ∧ s.Same (s.step event).1 := by
  obtain ⟨hreport, hfind⟩ := step_of_calm (hlink.symm ▸ hcalm) hstep
  refine ⟨hreport, ?_, hfind, ?_, ?_, ?_⟩
  · rw [step_link, hlink]
  · rw [hstep]
    rfl
  · rw [hstep]
    rfl
  · rw [hstep]
    rfl

variable (hcalm : s.transmission.Calm (.endOf s.link.now))
include hcalm

/-- Nothing is sent or ended when a message is refused. -/
theorem step_send_of_refuses {failure : Failure Peer}
    (hanswer : (s.step (.send peer m)).2.answer = .sent (.error failure)) :
    (s.step (.send peer m)).2.progress = {} := by
  rcases s.transmission.send_cases s.link peer m with ⟨-, hprogress, records, -⟩ | haccepts
  · have hsent : (s.transmission.send s.link peer m).transmission.Calm (.endOf s.link.now) :=
      fun hr => hcalm (records ▸ hr)
    rw [(step_of_calm hsent (s.changesTo_send peer m).step_eq).1]
    exact hprogress
  · obtain ⟨id, hok⟩ := haccepts.result
    cases (Answer.sent.inj hanswer).symm.trans hok

/-- A message that wants no acknowledgement is at its end once it is sent. -/
theorem step_send_of_once (htype : m.type? ≠ some .con)
    (haccepted : (s.step (.send peer m)).2.answer = .sent (.ok receipt)) :
    (s.step (.send peer m)).2.progress.resolutions = [⟨s.link.now, receipt.ticket, .sent⟩] := by
  have hresult : (s.transmission.send s.link peer m).result = .ok receipt :=
    Answer.sent.inj haccepted
  rcases s.transmission.send_cases s.link peer m with ⟨⟨failure, herror⟩, -⟩ | haccepts
  · cases hresult.symm.trans herror
  · -- A message that is sent once leaves no record, so nothing is due afterwards.
    have hrecords : (s.transmission.send s.link peer m).transmission.records =
          s.transmission.records ∧
        (s.transmission.send s.link peer m).progress.resolutions =
          [⟨s.link.now, receipt.ticket, .sent⟩] := by
      generalize s.transmission.send s.link peer m = sent at hresult haccepts
      cases haccepts with
      | once type_eq unconfirmed encoded records next =>
        obtain rfl := Except.ok.inj hresult
        exact ⟨records, rfl⟩
      | start type_eq => exact absurd type_eq htype
    have hsent : (s.transmission.send s.link peer m).transmission.Calm (.endOf s.link.now) :=
      fun hr => hcalm (hrecords.1 ▸ hr)
    rw [(step_of_calm hsent (s.changesTo_send peer m).step_eq).1]
    exact hrecords.2

/-- An acknowledgement or a rejection ends the message in flight that has its id. -/
theorem step_receive_of_find? {record : Record} {outcome : Outcome Peer}
    (hr : s.transmission.records.find? peer id = some record) (hid : m.id? = some id)
    (hm : Transmission.Answers m outcome) :
    (s.step (.receive peer m)).2 =
      ⟨.found true, { resolutions := [⟨s.link.now, record.ticket, outcome⟩] }⟩ := by
  have hchanges := s.changesTo_receive peer m
  have hrest : (s.transmission.receive s.link peer m).1.Calm (.endOf s.link.now) :=
    fun hr => hcalm (hchanges.change.found hr)
  rw [(step_of_calm hrest hchanges.step_eq).1,
    Transmission.receive_of_find? (Transmission.outcome?_eq_some_iff.2 hm) hid hr]
  rfl

/-- A message that matches nothing in flight changes nothing. -/
theorem step_receive_of_unmatched
    (hnone : ∀ id record, m.id? = some id →
      s.transmission.records.find? peer id = some record →
        ∀ outcome : Outcome Peer, ¬ Transmission.Answers m outcome) :
    (s.step (.receive peer m)).2 = ⟨.found false, {}⟩ ∧ s.Same (s.step (.receive peer m)).1 := by
  have hreceive : s.transmission.receive s.link peer m = (s.transmission, none) := by
    rw [Transmission.receive]
    -- Neither is it an answer, nor is there a record that it would be an answer to.
    split
    · rename_i outcome id hm hid
      split
      · rename_i record hr
        exact absurd (Transmission.outcome?_eq_some_iff.1 hm) (hnone id record hid hr outcome)
      · rfl
    · rfl
  refine same_step hcalm rfl ?_
  rw [step, hreceive]
  rfl

/-- A message in flight that is called off ends as closed. -/
theorem step_cancel_of_find? {record : Record}
    (hr : s.transmission.records.find? peer id = some record) :
    (s.step (.cancel peer id)).2 =
      ⟨.found true, { resolutions := [⟨s.link.now, record.ticket, .failed .closed⟩] }⟩ := by
  have hchanges := s.changesTo_cancel peer id
  have hrest : (s.transmission.cancel s.link peer id).1.Calm (.endOf s.link.now) :=
    fun hr => hcalm (hchanges.change.found hr)
  rw [(step_of_calm hrest hchanges.step_eq).1, Transmission.cancel, hr]
  rfl

/-- To call off a message that is not in flight changes nothing. -/
theorem step_cancel_of_absent (hnone : s.transmission.records.find? peer id = none) :
    (s.step (.cancel peer id)).2 = ⟨.found false, {}⟩ ∧ s.Same (s.step (.cancel peer id)).1 := by
  refine same_step hcalm rfl ?_
  rw [step, Transmission.cancel, hnone]
  rfl

theorem step_purge : (s.step .purge).2.progress = {} := by
  have hrest : (s.transmission.purge s.link.timing s.link.now).Calm (.endOf s.link.now) := hcalm
  have hstep : s.step .purge =
      settle ⟨s.link, s.transmission.purge s.link.timing s.link.now⟩ (.count _) {} := rfl
  rw [(step_of_calm hrest hstep).1]

theorem step_closeLink : (s.step .closeLink).2.progress = {} := by
  have hrest : s.transmission.Calm (.endOf s.link.close.now) := hcalm
  have hstep : s.step .closeLink = settle ⟨s.link.close, s.transmission⟩ .done {} := rfl
  rw [(step_of_calm hrest hstep).1]

omit hcalm in
/-- When all messages are called off, just those in flight end. -/
theorem step_close (s : Sender Peer) :
    (s.step .close).2.progress = (s.transmission.close s.link.now).2 := by
  have hnone : (s.transmission.close s.link.now).1.Calm (.endOf s.link.now) := by
    intro peer id record hr
    cases hr
  have hstep : s.step .close = settle ⟨s.link, (s.transmission.close s.link.now).1⟩ .done
      (s.transmission.close s.link.now).2 := rfl
  rw [(step_of_calm hnone hstep).1]

end

section

variable {start : Sender Peer} {events : List (Event Peer)} (h : start.Accounts events)
include h

/-- Time-outs that are over at once are the only ones that can be over when a message is sent. -/
theorem Accounts.again {peer : Peer} {m : Message} {receipt : Receipt}
    (htype : m.type? = some .con)
    (haccepted : ((start.run events).1.step (.send peer m)).2.answer = .sent (.ok receipt)) :
    ∃ f, (start.run events).1.Launches (.send peer m) f ∧
      ∀ r ∈ ((start.run events).1.step (.send peer m)).2.progress.resolutions,
        f.Expires (start.run events).1.link.isOpen r ∧
          r.time = (start.run events).1.link.now := by
  have hc := (start.run events).1.changesTo_send peer m
  rcases (start.run events).1.launches_cases peer m with ⟨-, herror⟩ | ⟨f, hf, hprogress, -⟩
  · obtain ⟨failure, herror⟩ := herror htype
    cases herror.symm.trans (Answer.sent.inj haccepted)
  · refine ⟨f, hf, fun r hr => ?_⟩
    rw [hc.step_eq, hprogress] at hr
    obtain ⟨peer', id, record, hfound, hr⟩ := Transmission.mem_elapse_resolutions.1 hr
    obtain ⟨f', rfl, rfl, since, hor, hlapses⟩ := h.lapses hc hfound
    obtain ⟨hexpires, hsince, hnow⟩ := hlapses.expires_of_mem hr
    -- What was accepted before was dealt with up to now, so it cannot end any more at this moment.
    rcases hor with ⟨-, rfl⟩ | ⟨hf', rfl⟩
    · exact absurd (Nat.le_trans hsince hnow) (Nat.not_succ_le_self _)
    · obtain rfl := hf'.unique hf
      exact ⟨hexpires, Nat.le_antisymm hnow hsince⟩

/-- What ends while time passes are unsettled messages, whose last time-out is over or whose way out
    is closed. -/
theorem Accounts.elapsed (hstart : start.transmission.Ticketed) {ms : Nat} {r : Resolution Peer}
    (hr : r ∈ ((start.run events).1.step (.sleep ms)).2.progress.resolutions) :
    ∃ f, start.Unsettled events f ∧ f.Expires (start.run events).1.link.isOpen r ∧
      (start.run events).1.link.now < r.time ∧ r.time ≤ (start.run events).1.link.now + ms := by
  obtain ⟨peer, id, record, hfound, hr⟩ := Transmission.mem_elapse_resolutions.1 hr
  obtain ⟨f, hf, rfl, rfl, waits⟩ := h.unsettled hstart hfound
  have hnow : (start.run events).1.link.now ≤ ((start.run events).1.link.later ms).now :=
    Nat.le_add_right _ _
  have hlapses := waits.lapses hf.1.fresh hnow
  exact ⟨f, hf, hlapses.expires_of_mem hr⟩

/-- An unsettled message is given up once its last time-out is over. -/
theorem Accounts.overdue {f : Flight Peer} {ms : Nat} (hf : start.Unsettled events f)
    (hfeasible : f.Feasible) (hdue : f.time (f.last + 1) ≤ (start.run events).1.link.now + ms)
    (hor : (start.run events).1.link.isOpen ∨ f.time f.last ≤ (start.run events).1.link.now) :
    f.givenUp ∈ ((start.run events).1.step (.sleep ms)).2.progress.resolutions := by
  obtain ⟨record, hfound, waits⟩ := h.held hf
  have hnow : (start.run events).1.link.now ≤ ((start.run events).1.link.later ms).now :=
    Nat.le_add_right _ _
  have hlapses := waits.lapses hf.1.fresh hnow
  refine Transmission.mem_elapse_resolutions.2 ⟨_, _, _, hfound, ?_⟩
  generalize record.elapse ((start.run events).1.link.later ms) f.peer f.id
    (.endOf ((start.run events).1.link.later ms).now) = late at *
  obtain ⟨rest, progress⟩ := late
  cases hlapses with
  | waits waits =>
    cases waits with
    | timed stage le_last sent waits =>
      exact absurd (Nat.le_trans (f.time_mono (Nat.succ_le_succ le_last)) hdue)
        (Nat.not_le.2 waits)
    | stalled ticket_eq timer_eq unfit => exact absurd hfeasible unfit
  | expires expires since_le le_now resolutions =>
    cases expires with
    | givenUp =>
      rw [resolutions]
      exact List.mem_singleton_self _
    | closed lt_last isClosed =>
      -- The way out is closed, and no time-out but the last one is left.
      rcases hor with hopen | hlast
      · cases isClosed.symm.trans hopen
      · exact absurd (Nat.le_trans since_le (f.time_mono lt_last)) (Nat.not_le.2 (by omega))

/-- Every kind of end is told from the messages that are unsettled. -/
theorem Accounts.settles (hstart : start.transmission.Ticketed) :
    (start.run events).1.Settles {f | start.Unsettled events f} where
  refused := step_send_of_refuses h.calm
  once := step_send_of_once h.calm
  again := h.again
  answered {f m outcome} hf hid hanswers := by
    obtain ⟨record, hfound, waits⟩ := h.held hf
    rw [← waits.ticket_eq]
    exact step_receive_of_find? h.calm hfound hid hanswers
  unmatched hnone := by
    refine step_receive_of_unmatched h.calm fun id record hid hfound => ?_
    -- Every record is one of an unsettled message, and the other way round.
    obtain ⟨f, hf, rfl, rfl, -⟩ := h.unsettled hstart hfound
    exact hnone f hf rfl hid
  cancelled {f} hf := by
    obtain ⟨record, hfound, waits⟩ := h.held hf
    rw [← waits.ticket_eq]
    exact step_cancel_of_find? h.calm hfound
  absent hnone := by
    refine step_cancel_of_absent h.calm
      (Option.eq_none_iff_forall_ne_some.2 fun record hfound => ?_)
    obtain ⟨f, hf, rfl, rfl, -⟩ := h.unsettled hstart hfound
    exact hnone f hf rfl
  closed := by
    rw [step_close]
    refine ⟨rfl, fun r => ?_⟩
    constructor
    · intro hr
      obtain ⟨⟨⟨peer, id⟩, record⟩, hmem, rfl⟩ := List.mem_map.1 hr
      obtain ⟨f, hf, rfl, rfl, waits⟩ := h.unsettled hstart (Ledger.mem_toList_iff.1 hmem)
      refine ⟨f, hf, ?_⟩
      rw [← waits.ticket_eq]
    · rintro ⟨f, hf, rfl⟩
      obtain ⟨record, hfound, waits⟩ := h.held hf
      rw [← waits.ticket_eq]
      exact List.mem_map.2 ⟨_, Ledger.mem_toList_iff.2 hfound, rfl⟩
  purged := step_purge h.calm
  linkClosed := step_closeLink h.calm
  elapsed ms r hr := h.elapsed hstart hr
  overdue := h.overdue

end

/-- How the messages of a run come to their end, whether or not the way out is open. Each of them
    does so once at most. The confirmable ones that have not are just the messages in flight, so no
    two of them have the same key, and what ends them is told from them alone (`Settles`). -/
theorem settlement (link : Link) (draws : Draws) (events : List (Event Peer)) :
    let start : Sender Peer := ⟨link, { draws }⟩
    let s := (start.run events).1
    let reports := (start.run events).2
    Set.BijOn (fun f => (f.peer, f.id)) {f | start.Unsettled events f}
        {key | s.transmission.records.contains key.1 key.2} ∧
      s.transmission.inFlight = {f | start.Unsettled events f}.ncard ∧
      (∀ r ∈ (total reports).resolutions, r.ticket ∈ tickets reports) ∧
      (∀ ticket, ((total reports).of ticket).resolutions.length ≤ 1) ∧
      s.Settles {f | start.Unsettled events f} := by
  intro start s reports
  have hstart : start.transmission.Ticketed := .empty draws
  have h : start.Accounts events := accounts_run link draws events
  refine ⟨h.bijOn hstart, h.inFlight_eq hstart, fun r hr => ?_,
    start.length_resolutions_run_le hstart events, h.settles hstart⟩
  -- A ticket that ends was given out in the run, as nothing was in flight at its start.
  refine ((start.turn_run hstart events).resolutions r hr).1.resolve_left ?_
  rintro ⟨peer, id, record, hfound, -⟩
  cases hfound

end Sender

end Coap
