import Coap.Proofs.Delivery.Stay
import Mathlib.Data.List.Perm.Basic

/-!
# Acknowledgement of requests

A confirmable request is acknowledged once: on its own if it is still remembered when this is due,
or else with its response, which is then a message of its own in the first case and the
acknowledgement in the second. Once a request is answered or dropped, nothing that happens later
acknowledges it, not even if one with the same key is handed on.

* `Receiver.Holds.elapse`, `Receiver.Holds.perm_elapse`: what is remembered after time has passed,
    and what is acknowledged meanwhile;
* `Receiver.Settled.step`, `Receiver.Settled.run`: the same for a step and for a run;
* `Receiver.acknowledgement`: how every run acknowledges the messages that it takes in.
-/

namespace Coap.Receiver

open scoped List

variable {Peer : Type}

/-- All datagrams of a run. -/
def emissions (reports : List (Report Peer)) : List (Emission Peer) :=
  reports.flatMap Report.emissions

/-- The acknowledgements in a run of the confirmable messages that are no requests. -/
def ownAcks (link : Link) : List (Event Peer) → List (Emission Peer)
  | [] => []
  | event :: events => (event.ownAck? link.now).toList ++ ownAcks (event.link link) events

variable [DecidableEq Peer]

/-- The stays after a run, given those before it. -/
def history (link : Link) (stays : List (Stay Peer)) : List (Event Peer) → List (Stay Peer)
  | [] => stays
  | event :: events =>
    history (event.link link) (event.stays link.timing link.now stays) events

variable {link : Link} {r : Reception Peer} {stays : List (Stay Peer)} {flag : Stay Peer → Bool}

/-! ### Time -/

omit [DecidableEq Peer] in
/-- A request is acknowledged on its own until a time if this is due by then and not yet done. -/
theorem fires_endOf (timing : Timing) (now : Nat) (s : Stay Peer) (acknowledged : Bool) :
    Reception.Entry.fires timing (.endOf now) ⟨s.since, acknowledged⟩ =
      (!acknowledged && decide (s.due timing ≤ now)) :=
  congrArg (!acknowledged && ·) (decide_eq_decide.2 Timer.before_endOf)

/-- As time passes, the flag of each stay that is due by then is set, and no stay is over. -/
theorem Holds.elapse (h : Holds r stays flag) (link : Link) (now : Nat) :
    Holds (r.elapse link (.endOf now)).1 stays
      fun s => flag s || decide (s.due link.timing ≤ now) where
  find?_iff {peer id entry} := by
    -- A flag is set, or else this is done when the acknowledgement is due.
    have hflag : ∀ s : Stay Peer, (flag s || Reception.Entry.fires link.timing (.endOf now)
        ⟨s.since, flag s⟩) = (flag s || decide (s.due link.timing ≤ now)) := by
      intro s
      rw [fires_endOf]
      cases flag s <;> rfl
    rw [Reception.find?_elapse, Option.map_eq_some_iff]
    constructor
    · rintro ⟨entry, hentry, rfl⟩
      obtain ⟨s, hs, ho, hkey, rfl⟩ := h.find?_iff.1 hentry
      exact ⟨s, hs, ho, hkey, congrArg _ (hflag s)⟩
    · rintro ⟨s, hs, ho, hkey, rfl⟩
      exact ⟨_, h.find?_iff.2 ⟨s, hs, ho, hkey, rfl⟩, congrArg _ (hflag s)⟩
  nodup := h.nodup

/-- What is remembered, one by one. -/
theorem Holds.perm_toList (h : Holds r stays flag) :
    r.entries.toList.Perm ((stays.filter Stay.isOpen).map fun s => (s.key, ⟨s.since, flag s⟩)) := by
  refine (List.perm_ext_iff_of_nodup ?_ ?_).2 ?_
  · exact .of_map Prod.fst r.entries.nodup_keys_toList
  · refine .of_map Prod.fst ?_
    rw [List.map_map]
    exact h.nodup
  · rintro ⟨⟨peer, id⟩, entry⟩
    rw [Ledger.mem_toList_iff, h.find?_iff, List.mem_map]
    constructor
    · rintro ⟨s, hs, ho, hkey, rfl⟩
      exact ⟨s, List.mem_filter.2 ⟨hs, ho⟩, Prod.ext hkey rfl⟩
    · rintro ⟨s, hs, he⟩
      obtain ⟨hs, ho⟩ := List.mem_filter.1 hs
      obtain ⟨hkey, rfl⟩ := Prod.mk.inj he
      exact ⟨s, hs, ho, hkey, rfl⟩

/-- What is gathered from the elements that pass a test. -/
theorem flatMap_filter {α β : Type} (test : α → Bool) (f : α → List β) (l : List α) :
    (l.filter test).flatMap f = l.flatMap fun a => if test a then f a else [] := by
  induction l with
  | nil => rfl
  | cons a l ih =>
    rw [List.filter_cons, List.flatMap_cons]
    split
    · rw [List.flatMap_cons, ih]
    · rw [ih, List.nil_append]

/-- What is acknowledged while time passes comes on top of what was acknowledged before. -/
theorem Holds.perm_elapse (h : Holds r stays flag) (hopen : link.isOpen) (now : Nat) :
    ((r.elapse link (.endOf now)).2 ++ stays.flatMap (Stay.sent link.timing flag)).Perm
      (stays.flatMap
        (Stay.sent link.timing fun s => flag s || decide (s.due link.timing ≤ now))) := by
  -- What is sent meanwhile, stay by stay.
  let late : Stay Peer → List (Emission Peer) := fun s =>
    if s.isOpen then
      if !flag s && decide (s.due link.timing ≤ now) then [s.ack link.timing] else []
    else []
  have hlate : (r.elapse link (.endOf now)).2.Perm (stays.flatMap late) := by
    refine (h.perm_toList.flatMap_right _).trans (.of_eq ?_)
    rw [List.flatMap_map, flatMap_filter]
    refine congrArg stays.flatMap (funext fun s => ?_)
    simp only [late, Stay.key, fires_endOf, Link.emit_of_open hopen]
    rfl
  refine (hlate.append_right _).trans ((List.flatMap_append_perm _ _ _).trans (.of_eq ?_))
  -- A stay that is over is not acknowledged any more, and one with a flag not again.
  refine congrArg stays.flatMap (funext fun s => ?_)
  obtain ⟨peer, id, since, until?⟩ := s
  cases until? with
  | some time => rfl
  | none =>
    generalize hs : (⟨peer, id, since, none⟩ : Stay Peer) = s
    have hu : s.until? = none := hs ▸ rfl
    simp only [late, Stay.sent, Stay.isOpen, hu, Option.isNone_none, if_true, Option.elim_none]
    cases flag s
    · by_cases hdue : s.due link.timing ≤ now <;> simp [hdue]
    · rfl

/-! ### Steps -/

/-- A step is what the event does at once, after which time passes. -/
theorem step_eq (r : Receiver Peer) (hopen : r.link.isOpen) (event : Event Peer) :
    let late := (event.reception r.link r.reception).elapse (event.link r.link)
      (.endOf (event.link r.link).now)
    (r.step event).1 = ⟨event.link r.link, late.1⟩ ∧
      (r.step event).2.emissions = (event.ownAck? r.link.now).toList ++ late.2 := by
  cases event with
  | receive peer m =>
    refine ⟨rfl, ?_⟩
    have hown : (r.reception.receive r.link peer m).emissions =
        ((Event.receive peer m).ownAck? r.link.now).toList := by
      -- A message is a request that is to be acknowledged later, or it is acknowledged at once if
      -- at all; no message is both.
      cases hm : m.confirmableId? true with
      | none => rw [receive_of_no_request hopen hm]
      | some id =>
        rw [receive_of_request hm, Event.ownAck?, Message.confirmableId?_eq_none hm]
        split <;> rfl
    rw [← hown]
    rfl
  | prepare peer response => exact ⟨rfl, rfl⟩
  | purge => exact ⟨rfl, rfl⟩
  | sleep ms => exact ⟨rfl, rfl⟩
  | close => exact ⟨rfl, rfl⟩

omit [DecidableEq Peer] in
theorem Event.link_now_le (link : Link) (event : Event Peer) :
    link.now ≤ (event.link link).now := by
  cases event with
  | sleep ms => exact Nat.le_add_right _ _
  | _ => exact Nat.le_refl _

omit [DecidableEq Peer] in
theorem Event.link_timing (link : Link) (event : Event Peer) :
    (event.link link).timing = link.timing := by
  cases event <;> rfl

omit [DecidableEq Peer] in
theorem Event.link_isOpen (link : Link) {event : Event Peer} (h : event ≠ .close) :
    (event.link link).isOpen = link.isOpen := by
  cases event with
  | close => exact absurd rfl h
  | _ => rfl

theorem step_link (r : Receiver Peer) (event : Event Peer) :
    (r.step event).1.link = event.link r.link := by
  cases event <;> rfl

theorem run_cons (r : Receiver Peer) (event : Event Peer) (events : List (Event Peer)) :
    r.run (event :: events) = (((r.step event).1.run events).1,
      (r.step event).2 :: ((r.step event).1.run events).2) := rfl

theorem run_timing (r : Receiver Peer) (events : List (Event Peer)) :
    (r.run events).1.link.timing = r.link.timing := by
  induction events generalizing r with
  | nil => rfl
  | cons event events ih => rw [run_cons, ih, step_link, Event.link_timing]

/-- The way out stays open unless an event closes it. -/
theorem run_isOpen (r : Receiver Peer) {events : List (Event Peer)} (h : .close ∉ events) :
    (r.run events).1.link.isOpen = r.link.isOpen := by
  induction events generalizing r with
  | nil => rfl
  | cons event events ih =>
    rw [List.mem_cons, not_or] at h
    rw [run_cons, ih _ h.2, step_link, Event.link_isOpen _ (Ne.symm h.1)]

/-- At every step boundary the flags say which acknowledgements were due. -/
def Settled (r : Receiver Peer) (stays : List (Stay Peer)) : Prop :=
  Holds r.reception stays fun s => s.due r.link.timing ≤ r.link.now

/-- A step sends the acknowledgement of the message that it takes in, and those that become due. -/
theorem Settled.step {r : Receiver Peer} (h : Settled r stays) (hopen : r.link.isOpen)
    {event : Event Peer} (hevent : event ≠ .close) :
    let stays' := event.stays r.link.timing r.link.now stays
    Settled (r.step event).1 stays' ∧
      ((r.step event).2.emissions ++ stays.flatMap (Stay.acks r.link.timing r.link.now)).Perm
        ((event.ownAck? r.link.now).toList ++
          stays'.flatMap (Stay.acks r.link.timing (event.link r.link).now)) := by
  intro stays'
  have hopen' : (event.link r.link).isOpen := by
    rw [Event.link_isOpen _ hevent]
    exact hopen
  obtain ⟨flag, hholds, hfollows⟩ := Holds.reception hopen h event
  obtain ⟨hstate, hemissions⟩ := r.step_eq hopen event
  have helapse := hholds.elapse (event.link r.link) (event.link r.link).now
  have hperm := hholds.perm_elapse hopen' (event.link r.link).now
  rw [Event.link_timing] at helapse hperm
  -- Whoever has a flag was due before, and so is due now.
  have hflag : (fun s => flag s || decide (s.due r.link.timing ≤ (event.link r.link).now)) =
      fun s => decide (s.due r.link.timing ≤ (event.link r.link).now) := by
    funext s
    cases hs : flag s
    · rfl
    · exact (decide_eq_true
        (Nat.le_trans (hfollows.due s hs) (event.link_now_le r.link))).symm
  rw [hflag] at helapse hperm
  rw [hfollows.sent, Stay.sent_due, Stay.sent_due] at hperm
  constructor
  · rw [Settled, hstate, Event.link_timing]
    exact helapse
  · rw [hemissions, List.append_assoc]
    exact hperm.append_left _

/-- A run sends the acknowledgements of the messages that it takes in, and those that become due
    until it is over. -/
theorem Settled.run {r : Receiver Peer} (h : Settled r stays) (hopen : r.link.isOpen)
    {events : List (Event Peer)} (hevents : .close ∉ events) :
    let stays' := history r.link stays events
    Settled (r.run events).1 stays' ∧
      (emissions (r.run events).2 ++ stays.flatMap (Stay.acks r.link.timing r.link.now)).Perm
        (ownAcks r.link events ++
          stays'.flatMap (Stay.acks r.link.timing (r.run events).1.link.now)) := by
  induction events generalizing r stays with
  | nil => exact ⟨h, .refl _⟩
  | cons event events ih =>
    rw [List.mem_cons, not_or] at hevents
    have hopen' : (r.step event).1.link.isOpen := by
      rw [step_link]
      exact (Event.link_isOpen _ (Ne.symm hevents.1)).trans hopen
    obtain ⟨hsettled, hstep⟩ := h.step hopen (Ne.symm hevents.1)
    obtain ⟨hend, hrest⟩ := ih hsettled hopen' hevents.2
    rw [step_link] at hend hrest
    rw [Event.link_timing] at hrest
    refine ⟨hend, ?_⟩
    -- What was sent before the run is on both sides of every equivalence.
    let early := stays.flatMap (Stay.acks r.link.timing r.link.now)
    let rest := emissions ((r.step event).1.run events).2
    calc (r.step event).2.emissions ++ rest ++ early
      _ = (r.step event).2.emissions ++ (rest ++ early) := List.append_assoc ..
      _ ~ rest ++ ((r.step event).2.emissions ++ early) := List.perm_append_comm_assoc ..
      _ ~ rest ++ ((event.ownAck? r.link.now).toList ++ _) := hstep.append_left _
      _ ~ (event.ownAck? r.link.now).toList ++ (rest ++ _) := List.perm_append_comm_assoc ..
      _ ~ (event.ownAck? r.link.now).toList ++ (ownAcks (event.link r.link) events ++ _) :=
        hrest.append_left _
      _ = ownAcks r.link (event :: events) ++ _ := (List.append_assoc ..).symm

/-! ### What is settled about a request -/

/-- The stays of a run that goes on are told from the stays of its beginning. -/
theorem history_append (link : Link) (stays : List (Stay Peer))
    (events events' : List (Event Peer)) :
    history link stays (events ++ events') =
      history (events.foldl (fun link event => event.link link) link) (history link stays events)
        events' := by
  induction events generalizing link stays with
  | nil => rfl
  | cons event events ih => exact ih _ _

/-- A stay that is over is what it was after an event. -/
theorem Event.getElem?_stays {i : Nat} {s : Stay Peer} (h : stays[i]? = some s) (ho : ¬ s.isOpen)
    (timing : Timing) (now : Nat) (event : Event Peer) :
    (event.stays timing now stays)[i]? = some s := by
  -- Only a stay that is not over can end.
  have hmap : ∀ test, (stays.map (Stay.endIf test now))[i]? = some s := by
    intro test
    rw [List.getElem?_map, h, Option.map_some, Stay.endIf, if_neg fun hn => ho hn.1]
  cases event with
  | receive peer m =>
    rw [Event.stays]
    split
    · split
      · exact h
      · rw [List.getElem?_append_left (List.getElem?_eq_some_iff.1 h).1]
        exact h
    · exact h
  | prepare peer response =>
    rw [Event.stays]
    split
    · exact hmap _
    · exact h
  | purge => exact hmap _
  | sleep ms => exact h
  | close => exact h

/-- Nothing happens any more to a stay that is over. -/
theorem getElem?_history {i : Nat} {s : Stay Peer} (h : stays[i]? = some s) (ho : ¬ s.isOpen)
    (link : Link) (events : List (Event Peer)) : (history link stays events)[i]? = some s := by
  induction events generalizing link stays with
  | nil => exact h
  | cons event events ih => exact ih (event.getElem?_stays h ho link.timing link.now) _

/-- The response to a request that is remembered is its acknowledgement, with the id of the
    request, just if there was none on its own, and else a confirmable message. -/
theorem Settled.prepare {r : Receiver Peer} (h : Settled r stays) {s : Stay Peer} (hs : s ∈ stays)
    (ho : s.isOpen) {response : Response} (htype : response.message.type? = none)
    (hid : response.message.id? = some s.id) :
    ∃ response', (r.step (.prepare s.peer response)).2.answer = .response response' ∧
      (response'.message.type? = some .ack ∧ response'.message.id? = some s.id ↔
        s.acks r.link.timing r.link.now = []) ∧
      (response'.message.type? = some .con ↔
        s.acks r.link.timing r.link.now = [s.ack r.link.timing]) := by
  have hentry := h.find?_iff.2 ⟨s, hs, ho, rfl, rfl⟩
  -- What the response finds is the stay, whose flag says whether the acknowledgement was due.
  have hprepare : (r.reception.prepare s.peer response).2 = Reception.settle
      (some ⟨s.since, s.due r.link.timing ≤ r.link.now⟩) response := by
    rw [Reception.prepare, htype]
    dsimp only
    rw [Reception.pending?, hid, Option.bind_some, hentry]
  refine ⟨_, congrArg Answer.response hprepare, ?_⟩
  rw [Stay.acks, Option.isNone_iff_eq_none.1 ho, Option.getD_none, Reception.settle]
  by_cases hdue : s.due r.link.timing ≤ r.link.now
  · simp only [hdue, decide_true, if_true, Reception.separate, Response.setType]
    simp
  · simp only [hdue, decide_false, Bool.false_eq_true, if_false, Response.setType, hid]
    simp

/-- A confirmable request is handed on just if none with its key is remembered. -/
theorem Settled.receive {r : Receiver Peer} (h : Settled r stays) {peer : Peer} {m : Message}
    {id : UInt16} (hm : m.confirmableId? true = some id) :
    (r.step (.receive peer m)).2.answer = .verdict .forward ↔
      ¬ ∃ s ∈ stays, s.isOpen ∧ s.key = (peer, id) := by
  have hanswer : (r.step (.receive peer m)).2.answer =
      .verdict (r.reception.receive r.link peer m).verdict := rfl
  rw [hanswer, receive_of_request hm, ← h.contains_iff]
  split
  · rename_i hc
    exact ⟨fun he => (by cases he), fun hn => absurd hc hn⟩
  · rename_i hc
    exact ⟨fun _ => hc, fun _ => rfl⟩

/-- How every run acknowledges the messages that it takes in while the way out is open. The
    requests that are remembered have a flag just if they were acknowledged on their own. This
    is done when it is due, to each request that is still remembered then; apart from that, only
    the confirmable messages that are no requests are acknowledged, each when it comes in. A
    response takes over the acknowledgement of its request just if there was none on its own.
    Nothing of this changes for a request that was answered or dropped. -/
theorem acknowledgement {link : Link} (hopen : link.isOpen) {events : List (Event Peer)}
    (h : .close ∉ events) :
    let start : Receiver Peer := ⟨link, {}⟩
    let r := (start.run events).1
    let stays := history link [] events
    (∀ peer id entry, r.reception.entries.find? peer id = some entry ↔
      ∃ s ∈ stays, s.isOpen ∧ s.key = (peer, id) ∧
        entry = ⟨s.since, s.due link.timing ≤ r.link.now⟩) ∧
      emissions (start.run events).2 ~
        ownAcks link events ++ stays.flatMap (Stay.acks link.timing r.link.now) ∧
      (∀ before event after, events = before ++ event :: after →
        ∀ e ∈ event.ownAck? (start.run before).1.link.now,
          e ∈ ((start.run before).1.step event).2.emissions) ∧
      (∀ s : Stay Peer, s.due link.timing = s.since + Nat.min link.timing.ackDelay longestWait) ∧
      (∀ peer m id, m.confirmableId? true = some id →
        ((r.step (.receive peer m)).2.answer = .verdict .forward ↔
          ¬ ∃ s ∈ stays, s.isOpen ∧ s.key = (peer, id))) ∧
      (∀ s ∈ stays, s.isOpen → ∀ response, response.message.type? = none →
        response.message.id? = some s.id →
          ∃ response', (r.step (.prepare s.peer response)).2.answer = .response response' ∧
            (response'.message.type? = some .ack ∧ response'.message.id? = some s.id ↔
              s.acks link.timing r.link.now = []) ∧
            (response'.message.type? = some .con ↔
              s.acks link.timing r.link.now = [s.ack link.timing])) ∧
      ∀ before after, events = before ++ after →
        ∀ (i : Nat) (s : Stay Peer), (history link [] before)[i]? = some s → ¬ s.isOpen →
          stays[i]? = some s := by
  intro start r stays
  have hstart : start.Settled [] := .empty
  obtain ⟨hsettled, hperm⟩ := hstart.run hopen h
  have htiming : r.link.timing = link.timing := start.run_timing events
  rw [List.flatMap_nil, List.append_nil] at hperm
  refine ⟨fun peer id entry => ?_, hperm, ?_, fun s => rfl,
    fun peer m id hm => hsettled.receive hm, fun s hs ho response htype hid => ?_, ?_⟩
  · -- From here on the parts are those of the settled run, one by one.
    rw [← htiming]
    exact hsettled.find?_iff
  · -- The way out was open before the event as well.
    rintro before event after rfl e he
    rw [List.mem_append, not_or] at h
    have hopen' : (start.run before).1.link.isOpen := (start.run_isOpen h.1).trans hopen
    rw [((start.run before).1.step_eq hopen' event).2]
    exact List.mem_append_left _ (Option.mem_toList.2 he)
  · rw [← htiming]
    exact hsettled.prepare hs ho htype hid
  · -- What is over stays as it was in the rest of the run.
    rintro before after rfl i s hs ho
    have happend : stays = _ := history_append link [] before after
    rw [happend]
    exact getElem?_history hs ho _ after

/-- A GET whose response takes longer than the default delay, and a response to an earlier request
    of this side. -/
theorem acknowledgement_late :
    let get : Message := { type? := some .con, code := .get, id? := some 1 }
    let content : Message := { type? := some .con, code := .content, id? := some 2 }
    let events : List (Event Unit) :=
      [.receive () get, .sleep 1000, .receive () content, .sleep 1000]
    .close ∉ events ∧ emissions ((⟨{}, {}⟩ : Receiver Unit).run events).2 ~
      [⟨1000, (), Reception.bareAck 2, none⟩, ⟨1900, (), Reception.bareAck 1, none⟩] := by
  intro get content events
  have h : .close ∉ events := by simp [events]
  have hnow : ((⟨{}, {}⟩ : Receiver Unit).run events).1.link.now = 2000 := by decide
  have hacks : ownAcks {} events ++ (history {} [] events).flatMap (Stay.acks {} 2000) =
      [⟨1000, (), Reception.bareAck 2, none⟩, ⟨1900, (), Reception.bareAck 1, none⟩] := by decide
  have hperm := (acknowledgement (rfl : ({} : Link).isOpen) h).2.1
  rw [hnow] at hperm
  exact ⟨h, hperm.trans (.of_eq hacks)⟩

/-- A delay of more than thirty years is not waited for: the request is acknowledged a millisecond
    before the delay is over. -/
theorem acknowledged_before_delay :
    let link : Link := { timing := { ackDelay := longestWait + 1 } }
    let get : Message := { type? := some .con, code := .get, id? := some 1 }
    let r := (⟨link, {}⟩ : Receiver Unit).run [.receive () get, .sleep longestWait]
    r.1.link.now < 0 + link.timing.ackDelay ∧ r.1.reception.entries.find? () 1 = some ⟨0, true⟩ ∧
      emissions r.2 = [⟨longestWait, (), Reception.bareAck 1, none⟩] := by
  decide

end Coap.Receiver
