import Coap.Proofs.Delivery.Change
import Coap.Proofs.Delivery.Flight
import Coap.Proofs.Delivery.Tasks
import Mathlib.Data.List.Forall2
import Mathlib.Data.List.Perm.Basic

/-!
# Senders whose timers are tasks

Next to a sender there are the tasks that send its messages again (`Pace.Run`). A confirmable
message that is accepted gets one, which owns the schedule of the message; it is stopped when the
message is acknowledged, rejected or called off. When it wakes it looks for the record of its key,
and sends the message again or gives it up.

* `Pace.Holds.armed`: a task is armed for a message in flight, in the time-out of its record;
* `Pace.run_agrees`: in whatever order the tasks take turns, they send and end what a sender does
  whose records carry their own timers;
* `Pace.exists_run`: each run of events is a run with tasks.
-/

namespace Coap

open Sender

/-- A message in flight, without its schedule. -/
structure Parcel where
  ticket : Nat
  bytes : Bytes

/-- The schedule of a message in flight, and the timer on which its task sleeps. -/
structure Pace where
  backoff : Backoff
  timer : Timer

/-- All that is sent and ended. -/
def Progress.merged {Peer : Type} (p : Progress Peer) : List (Emission Peer ⊕ Resolution Peer) :=
  p.emissions.map .inl ++ p.resolutions.map .inr

/-- What is brought about one after another, up to its order. -/
theorem Progress.merged_append {Peer : Type} (p q : Progress Peer) :
    (p ++ q).merged.Perm (p.merged ++ q.merged) := by
  have hmerged : (p ++ q).merged =
      (p.emissions.map .inl ++ q.emissions.map .inl) ++
        (p.resolutions.map .inr ++ q.resolutions.map .inr) :=
    congrArg₂ _ List.map_append List.map_append
  rw [hmerged, Progress.merged, Progress.merged, List.append_assoc, List.append_assoc]
  refine .append_left _ ?_
  rw [← List.append_assoc, ← List.append_assoc]
  exact .append_right _ List.perm_append_comm

namespace Pace

variable {Peer : Type}

/-- What the task of a message does when its time-out is over: it gives the message up after the
    last copy, or else it sends one more and sleeps again. It breaks off if the next time-out is
    too long for a duration. -/
def retry (link : Link) (peer : Peer) (id : UInt16) (parcel : Parcel) (pace : Pace) :
    Tasks.Act Parcel Pace × List (Emission Peer ⊕ Resolution Peer) :=
  if pace.backoff.exhausted then
    (.gone, [.inr ⟨pace.timer.due, parcel.ticket, .failed (.unacknowledged peer id)⟩])
  else match pace.backoff.next? with
    | none => (.rest parcel true, [])
    | some backoff =>
      if link.isOpen then
        (.again ⟨backoff, .after pace.timer.due backoff.current.ceilMillis⟩,
          [.inl ⟨pace.timer.due, peer, parcel.bytes, parcel.ticket⟩])
      else (.gone, [.inr ⟨pace.timer.due, parcel.ticket, .failed .closed⟩])

/-- A parcel stands for the record of the same message, and its task is in the time-out of this
    record. There is no task just if the record has no timer. -/
structure Stands (pace? : Option Pace) (parcel : Parcel) (record : Record) : Prop where
  ticket : record.ticket = parcel.ticket
  bytes : record.bytes = parcel.bytes
  timer : record.timer? = pace?.map Pace.timer
  backoff : ∀ pace ∈ pace?, record.backoff = pace.backoff

/-- What becomes of a record in the course of time, and what happens meanwhile. -/
def pass (link : Link) (moment : Moment) (peer : Peer) (id : UInt16) (record : Record) :
    Option Record × List (Emission Peer ⊕ Resolution Peer) :=
  ((record.elapse link peer id moment).1, (record.elapse link peer id moment).2.merged)

/-- What happens in the course of time, record by record. -/
theorem perm_elapse (link : Link) (moment : Moment) (t : Transmission Peer) :
    (t.records.toList.flatMap fun ((peer, id), record) => (pass link moment peer id record).2).Perm
      (t.elapse link moment).2.merged := by
  rw [Transmission.elapse, Progress.merged, List.map_flatMap, List.map_flatMap, List.flatMap_map,
    List.flatMap_map]
  exact (List.flatMap_append_perm _ _ _).symm

/-- Nothing happens to a record before its time-out, or if it has none. -/
theorem pass_of_not_before {link : Link} {moment : Moment} {peer : Peer} {id : UInt16}
    {record : Record} (h : ∀ timer ∈ record.timer?, ¬ timer.Before moment) :
    pass link moment peer id record = (some record, []) := by
  rw [pass, Record.elapse_of_not_before h]
  rfl

/-- A task that sleeps again may send its message once less. -/
theorem left_lt_of_again {link : Link} {peer : Peer} {id : UInt16} {parcel : Parcel}
    {pace pace' : Pace} (h : (retry link peer id parcel pace).1 = .again pace') :
    pace'.backoff.left < pace.backoff.left := by
  rw [retry] at h
  split at h
  · cases h
  · rename_i hmore
    -- The last copy was not sent, so one of those that are left is.
    have hleft : pace.backoff.left ≠ 0 := fun hzero => hmore (Backoff.left_eq_zero_iff.1 hzero)
    cases hnext : pace.backoff.next? with
    | none =>
      rw [hnext] at h
      cases h
    | some backoff =>
      rw [hnext] at h
      dsimp only at h
      split at h
      · cases h
        rw [Backoff.left_of_next? hnext]
        exact Nat.sub_one_lt hleft
      · cases h

/-- What becomes of a record is what its task does. -/
theorem follows (link : Link) (moment : Moment) :
    Tasks.Follows (·.timer.Before moment) (@retry Peer link) Stands (pass link moment) where
  idle peer id pace? parcel record h hidle := by
    refine pass_of_not_before fun timer htimer => ?_
    rw [h.timer] at htimer
    obtain ⟨pace, hpace, rfl⟩ := Option.map_eq_some_iff.1 htimer
    exact hidle pace hpace
  fires peer id pace parcel record h hdue := by
    obtain ⟨hticket, hbytes, htimer, hbackoff⟩ := h
    have hbackoff : record.backoff = pace.backoff := hbackoff pace rfl
    rw [pass, Record.elapse, hbackoff, retry, ← hticket, ← hbytes]
    cases hleft : pace.backoff.left with
    | zero =>
      -- The last copy was sent.
      rw [if_pos (Backoff.left_eq_zero_iff.1 hleft), Record.elapseFor_zero htimer hdue]
      exact ⟨none, .none, rfl⟩
    | succ left =>
      have hmore : ¬ pace.backoff.exhausted := fun hexhausted => by
        rw [Backoff.left_eq_zero_iff.2 hexhausted] at hleft
        cases hleft
      rw [if_neg hmore]
      cases hnext : pace.backoff.next? with
      | none =>
        -- The task breaks off, and nothing happens to the record any more.
        rw [Record.elapseFor_succ_of_none htimer hdue (hbackoff ▸ hnext)]
        have hrest : pass link moment peer id { record with timer? := none } =
            (some { record with timer? := none }, []) :=
          pass_of_not_before fun _ htimer => by cases htimer
        refine ⟨some { record with timer? := none }, .some ⟨hticket, hbytes, rfl, ?_⟩, ?_⟩
        · intro pace hpace
          cases hpace
        · rw [Option.bind_some, Option.elim_some, hrest]
          rfl
      | some backoff =>
        dsimp only
        by_cases hopen : link.isOpen
        · -- One more copy goes out, and the record starts on the next time-out.
          rw [if_pos hopen, Record.elapseFor_succ_of_open htimer hdue (hbackoff ▸ hnext) hopen]
          refine ⟨some (.start record.ticket record.bytes backoff pace.timer.due),
            .some ⟨hticket, hbytes, rfl, ?_⟩, ?_⟩
          · intro pace' hpace'
            rw [← Option.some.inj hpace']
            rfl
          · have hfewer : backoff.left = left := by
              rw [Backoff.left_of_next? hnext, hleft, Nat.add_sub_cancel]
            rw [Option.bind_some, Option.elim_some, pass, Record.elapse]
            simp only [Record.start, hfewer]
            rfl
        · rw [if_neg hopen, Record.elapseFor_succ_of_closed htimer hdue (hbackoff ▸ hnext) hopen]
          exact ⟨none, .none, rfl⟩

/-! ### Operations -/

variable [DecidableEq Peer]

/-- The tasks after a message is to be sent: if it is confirmable and accepted, a task is armed that
    owns its schedule. -/
def send (link : Link) (peer : Peer) (m : Message) (t : Transmission Peer)
    (tasks : Tasks Peer Parcel Pace) : Tasks Peer Parcel Pace :=
  match (t.send link peer m).result with
  | .error _ => tasks
  | .ok receipt =>
    match m.type?, { m with id? := some receipt.id }.encode,
      Backoff.start? link.timing (Transmission.jitter link.timing t.draws).1 with
    | some .con, .ok bytes, some backoff =>
      tasks.arm peer receipt.id ⟨receipt.ticket, bytes⟩
        ⟨backoff, .after link.now backoff.current.ceilMillis⟩
    | _, _, _ => tasks

/-- What an event does to the tasks of a sender before any time passes. -/
def tend (link : Link) (t : Transmission Peer) (tasks : Tasks Peer Parcel Pace) :
    Event Peer → Tasks Peer Parcel Pace
  | .send peer m => send link peer m t tasks
  | .receive peer m =>
    match (Transmission.outcome? m : Option (Outcome Peer)), m.id? with
    | some _, some id => tasks.remove peer id
    | _, _ => tasks
  | .cancel peer id => tasks.remove peer id
  | .close => tasks.retain fun _ _ _ => false
  | .purge => tasks
  | .sleep _ => tasks
  | .closeLink => tasks

/-- What an event does to the messages in flight before any time passes. -/
def operate (link : Link) (t : Transmission Peer) : Event Peer → Transmission Peer × Progress Peer
  | .send peer m => ((t.send link peer m).transmission, (t.send link peer m).progress)
  | .receive peer m =>
    ((t.receive link peer m).1, { resolutions := (t.receive link peer m).2.toList })
  | .cancel peer id =>
    ((t.cancel link peer id).1, { resolutions := (t.cancel link peer id).2.toList })
  | .close => t.close link.now
  | .purge => (t.purge link.timing link.now, {})
  | .sleep _ => (t, {})
  | .closeLink => (t, {})

/-- A step is an operation, after which time passes. -/
theorem step_eq (s : Sender Peer) (event : Event Peer) :
    let late := (operate s.link s.transmission event).1.elapse (event.link s.link)
      (.endOf (event.link s.link).now)
    (s.step event).1 = ⟨event.link s.link, late.1⟩ ∧
      (s.step event).2.progress = (operate s.link s.transmission event).2 ++ late.2 := by
  cases event <;> exact ⟨rfl, rfl⟩

/-- The tasks own the schedules of the messages in flight. -/
abbrev Holds (tasks : Tasks Peer Parcel Pace) (t : Transmission Peer) : Prop :=
  tasks.Mirrors Stands t.records

variable {link : Link} {tasks : Tasks Peer Parcel Pace} {t : Transmission Peer}

/-- A task that is armed belongs to a message in flight, and is in the time-out of its record. -/
theorem Holds.armed (h : Holds tasks t) {n : Nat} {task : Task Peer Pace}
    (harmed : tasks.armed.find? n = some task) :
    ∃ record, t.records.find? task.peer task.id = some record ∧
      record.backoff = task.state.backoff ∧ record.timer? = some task.state.timer := by
  obtain ⟨parcel, hrecord⟩ := h.tidy.exists_record harmed
  have hstands := h.stands task.peer task.id
  rw [Tasks.record?_of_find? hrecord, h.tidy.state?_of_armed harmed] at hstands
  generalize t.records.find? task.peer task.id = record? at hstands ⊢
  cases hstands with
  | some hstands => exact ⟨_, rfl, hstands.backoff _ rfl, hstands.timer⟩

/-- A message that is accepted gets a task, if it is confirmable; any other has none. -/
theorem Holds.send (h : Holds tasks t) (link : Link) (peer : Peer) (m : Message) :
    Holds (send link peer m t tasks) (t.send link peer m).transmission := by
  have hcases := t.send_cases link peer m
  rw [Pace.send]
  generalize t.send link peer m = sent at hcases ⊢
  rcases hcases with ⟨⟨failure, hresult⟩, -, hrecords, -⟩ | haccepts
  · -- A message that is refused gets no task.
    rw [hresult]
    exact h.congr fun _ _ => by rw [hrecords]
  · cases haccepts with
    | once type_eq unconfirmed encoded records next =>
      dsimp only
      split
      · rename_i hcon _ _
        exact absurd (Option.some.inj (type_eq.symm.trans hcon)) unconfirmed
      · exact h.congr fun _ _ => by rw [records]
    | @start id bytes backoff t' type_eq encoded free drawn records next =>
      dsimp only
      rw [encoded, drawn, type_eq]
      have hstands : Stands (some ⟨backoff, .after link.now backoff.current.ceilMillis⟩)
          ⟨t.nextTicket, bytes⟩ (.start t.nextTicket bytes backoff link.now) :=
        ⟨rfl, rfl, rfl, fun pace hpace => Option.some.inj hpace ▸ rfl⟩
      exact (h.arm free hstands).congr fun _ _ => by rw [records]

/-- The task of a message that is called off is stopped. -/
theorem Holds.cancel (h : Holds tasks t) (link : Link) (peer : Peer) (id : UInt16) :
    Holds (tasks.remove peer id) (t.cancel link peer id).1 := by
  rw [Transmission.cancel]
  cases hfind : t.records.find? peer id with
  | none => exact h.remove_of_none hfind
  | some record => exact h.remove peer id

/-- The task of a message that is acknowledged or rejected is stopped. -/
theorem Holds.receive (h : Holds tasks t) (link : Link) (peer : Peer) (m : Message) :
    Holds (tend link t tasks (.receive peer m)) (t.receive link peer m).1 := by
  rw [tend, Transmission.receive]
  cases (Transmission.outcome? m : Option (Outcome Peer)) with
  | none => exact h
  | some outcome =>
    cases m.id? with
    | none => exact h
    | some id =>
      dsimp only
      cases hfind : t.records.find? peer id with
      | none => exact h.remove_of_none hfind
      | some record => exact h.remove peer id

/-- If all messages are called off, all tasks are stopped. -/
theorem Holds.close (h : Holds tasks t) (time : Nat) :
    Holds (tasks.retain fun _ _ _ => false) (t.close time).1 := by
  refine Tasks.Mirrors.retain h _ fun peer id => ?_
  cases tasks.record? peer id <;> rfl

/-- An event leaves its task to each message that stays in flight, and stops the others. -/
theorem Holds.operate (h : Holds tasks t) (link : Link) (event : Event Peer) :
    Holds (tend link t tasks event) (operate link t event).1 := by
  cases event with
  | send peer m => exact h.send link peer m
  | receive peer m => exact h.receive link peer m
  | cancel peer id => exact h.cancel link peer id
  | close => exact h.close link.now
  | purge => exact h
  | sleep ms => exact h
  | closeLink => exact h

/-! ### Runs -/

/-- A run of a sender with its tasks. After each event the tasks that are due take turns; recorded
    is all that is sent and ended. -/
inductive Run : Sender Peer → Tasks Peer Parcel Pace → List (Event Peer) → Sender Peer →
    Tasks Peer Parcel Pace → List (List (Emission Peer ⊕ Resolution Peer)) → Prop where
  | nil {s : Sender Peer} {tasks : Tasks Peer Parcel Pace} : Run s tasks [] s tasks []
  | cons {s s' : Sender Peer} {tasks tasks₁ tasks₂ : Tasks Peer Parcel Pace} {event : Event Peer}
      {events : List (Event Peer)} {late : List (Emission Peer ⊕ Resolution Peer)}
      {saids : List (List (Emission Peer ⊕ Resolution Peer))}
      (runs : Tasks.Runs (·.timer.Before (.endOf (event.link s.link).now))
        (retry (event.link s.link)) (tend s.link s.transmission tasks event) late tasks₁)
      (rest : Run (s.step event).1 tasks₁ events s' tasks₂ saids) :
      Run s tasks (event :: events) s' tasks₂
        (((operate s.link s.transmission event).2.merged ++ late) :: saids)

/-- All that is sent and ended, up to its order. -/
def Agrees (said : List (Emission Peer ⊕ Resolution Peer)) (report : Report Peer) : Prop :=
  said.Perm report.progress.merged

/-- In whatever order the tasks take turns, they send and end what the records of a sender do that
    carry their own timers. -/
theorem Run.agrees {s s' : Sender Peer} {tasks tasks' : Tasks Peer Parcel Pace}
    {events : List (Event Peer)} {saids : List (List (Emission Peer ⊕ Resolution Peer))}
    (hrun : Run s tasks events s' tasks' saids) (h : Holds tasks s.transmission) :
    s' = (s.run events).1 ∧ Holds tasks' s'.transmission ∧
      List.Forall₂ Agrees saids (s.run events).2 := by
  induction hrun with
  | nil => exact ⟨rfl, h, .nil⟩
  | @cons s s' tasks tasks₁ tasks₂ event events late saids runs rest ih =>
    obtain ⟨hstate, hprogress⟩ := step_eq s event
    -- After the event the tasks run until none is due. This gives what the passing of time does.
    obtain ⟨hholds, hlate⟩ := runs.mirrors (follows _ _) (h.operate s.link event)
    obtain ⟨hend, hrest, hsaids⟩ := ih (by rw [hstate]; exact hholds)
    have hagrees : Agrees ((operate s.link s.transmission event).2.merged ++ late)
        (s.step event).2 := by
      rw [Agrees, hprogress]
      exact (List.Perm.append_left _ (hlate.trans (perm_elapse _ _ _))).trans
        (Progress.merged_append _ _).symm
    exact ⟨hend, hrest, .cons hagrees hsaids⟩

/-- From the start on, the tasks send and end what the records of a sender do that carry their own
    timers, and each task that is armed belongs to the one message in flight that holds its
    handle. -/
theorem run_agrees (link : Link) {s : Sender Peer} {tasks : Tasks Peer Parcel Pace}
    {events : List (Event Peer)} {saids : List (List (Emission Peer ⊕ Resolution Peer))}
    (hrun : Run { link } {} events s tasks saids) :
    tasks.Tidy ∧
      (∀ n task, tasks.armed.find? n = some task → ∃ record,
        (Sender.run { link } events).1.transmission.records.find? task.peer task.id = some record ∧
          record.backoff = task.state.backoff ∧ record.timer? = some task.state.timer) ∧
        List.Forall₂ Agrees saids (Sender.run { link } events).2 := by
  obtain ⟨rfl, hholds, hsaids⟩ := hrun.agrees Tasks.mirrors_empty
  exact ⟨hholds.tidy, fun _ _ => hholds.armed, hsaids⟩

/-- A task sleeps again only as often as its message may be sent again, so each run of events is a
    run with tasks. -/
theorem exists_run (s : Sender Peer) (tasks : Tasks Peer Parcel Pace) (events : List (Event Peer)) :
    ∃ s' tasks' saids, Run s tasks events s' tasks' saids := by
  induction events generalizing s tasks with
  | nil => exact ⟨s, tasks, [], .nil⟩
  | cons event events ih =>
    have hruns : ∃ late tasks₁, Tasks.Runs (·.timer.Before (.endOf (event.link s.link).now))
        (retry (event.link s.link)) (tend s.link s.transmission tasks event) late tasks₁ := by
      refine Tasks.exists_runs (fun pace => pace.backoff.left)
        (fun {peer id parcel pace pace'} _ hagain => ?_) _
      exact left_lt_of_again hagain
    obtain ⟨late, tasks₁, hruns⟩ := hruns
    obtain ⟨s', tasks', saids, hrest⟩ := ih (s.step event).1 tasks₁
    exact ⟨s', tasks', _, .cons hruns hrest⟩

end Pace

end Coap
