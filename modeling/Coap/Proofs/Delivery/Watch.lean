import Coap.Proofs.Delivery.Independence
import Coap.Proofs.Delivery.Tasks

/-!
# Receivers whose timers are tasks

A `Watch` is a receiver whose acknowledgement timers are tasks of their own. A request that is
handed on arms one; it is stopped when the request is answered before it fires, or dropped. When it
fires it looks for the entry of its key, and acknowledges the request unless this was done.

* `Watch.Holds.armed`: a timer is armed for a request that is remembered and not acknowledged;
* `Watch.run_agrees`: in whatever order timers take turns, a watch answers and sends what the
  receiver does whose entries carry their own timers;
* `Watch.exists_run`: each run of events is a run of a watch.
-/

namespace Coap

open Receiver

/-- A receiver whose acknowledgement timers are tasks of their own. -/
structure Watch (Peer : Type) where
  link : Link := {}
  tasks : Tasks Peer Reception.Entry Timer := {}

namespace Watch

variable {Peer : Type}

/-- What the timer of a request does: it acknowledges the request and drops the handle, unless there
    was an acknowledgement already. -/
def ring (link : Link) (peer : Peer) (id : UInt16) (entry : Reception.Entry) (timer : Timer) :
    Tasks.Act Reception.Entry Timer × List (Emission Peer) :=
  if entry.acknowledged then (.rest entry true, [])
  else (.rest { entry with acknowledged := true } false,
    link.emit { time := timer.due, peer, bytes := Reception.bareAck id })

/-- Drops the requests that are too old, and stops their timers. -/
def purge (timing : Timing) (time : Nat) (tasks : Tasks Peer Reception.Entry Timer) :
    Tasks Peer Reception.Entry Timer :=
  tasks.retain fun _ _ entry => !entry.expired timing time

variable [DecidableEq Peer]

/-- Takes in a message. A request that is handed on arms a timer. -/
def receive (link : Link) (peer : Peer) (m : Message) (tasks : Tasks Peer Reception.Entry Timer) :
    Tasks Peer Reception.Entry Timer × Verdict × List (Emission Peer) :=
  match m.isConfirmable, m.id? with
  | true, some id =>
    if !m.code.isRequest then
      (tasks, .forward, link.emit { time := link.now, peer, bytes := Reception.bareAck id })
    else if (tasks.record? peer id).isSome then (tasks, .duplicate, [])
    else
      (tasks.arm peer id ⟨link.now, false⟩ (.after link.now link.timing.ackDelay), .forward, [])
  | _, _ => (tasks, .forward, [])

/-- The tasks without the request that a response answers. The timer of a request that was
    acknowledged has ended, any other one is stopped. -/
def answered (peer : Peer) (response : Response) (tasks : Tasks Peer Reception.Entry Timer) :
    Tasks Peer Reception.Entry Timer :=
  match response.message.id? with
  | some id =>
    match tasks.record? peer id with
    | some entry => if entry.acknowledged then tasks.drop peer id else tasks.remove peer id
    | none => tasks
  | none => tasks

/-- Settles the type and the id of a response, unless its type is set. -/
def prepare (peer : Peer) (response : Response) (tasks : Tasks Peer Reception.Entry Timer) :
    Tasks Peer Reception.Entry Timer × Response :=
  match response.message.type? with
  | some _ => (tasks, response)
  | none =>
    (answered peer response tasks,
      Reception.settle (response.message.id?.bind (tasks.record? peer)) response)

/-- What an event does to the tasks before any time passes, and what it is answered and sends. -/
def handle (link : Link) (tasks : Tasks Peer Reception.Entry Timer) :
    Event Peer → Tasks Peer Reception.Entry Timer × Report Peer
  | .receive peer m =>
    let (tasks, verdict, emissions) := receive link peer m tasks
    (tasks, ⟨.verdict verdict, emissions⟩)
  | .prepare peer response =>
    let (tasks, response) := prepare peer response tasks
    (tasks, ⟨.response response, []⟩)
  | .purge =>
    let kept := purge link.timing link.now tasks
    (kept, ⟨.count (tasks.records.size - kept.records.size), []⟩)
  | .sleep _ => (tasks, ⟨.done, []⟩)
  | .close => (tasks, ⟨.done, []⟩)

/-- A watch takes an event, and then the timers that are due take turns. -/
inductive Step (w : Watch Peer) (event : Event Peer) : Watch Peer → Report Peer → Prop where
  | mk {tasks : Tasks Peer Reception.Entry Timer} {late : List (Emission Peer)}
      (runs : Tasks.Runs (·.Before (.endOf (event.link w.link).now)) (ring (event.link w.link))
        (handle w.link w.tasks event).1 late tasks) :
      Step w event ⟨event.link w.link, tasks⟩
        { (handle w.link w.tasks event).2 with
          emissions := (handle w.link w.tasks event).2.emissions ++ late }

/-- A run of a watch. -/
inductive Run : Watch Peer → List (Event Peer) → Watch Peer → List (Report Peer) → Prop where
  | nil {w : Watch Peer} : Run w [] w []
  | cons {w w₁ w₂ : Watch Peer} {event : Event Peer} {events : List (Event Peer)}
      {report : Report Peer} {reports : List (Report Peer)} (step : Step w event w₁ report)
      (rest : Run w₁ events w₂ reports) : Run w (event :: events) w₂ (report :: reports)

/-! ### Entries and their timers -/

/-- An entry stands for itself. Its timer is armed just if it was not acknowledged. -/
def Stands (timing : Timing) (timer? : Option Timer) (entry entry' : Reception.Entry) : Prop :=
  entry' = entry ∧ timer? = if entry.acknowledged then none else some (entry.timer timing)

/-- What becomes of an entry in the course of time, and what is sent. -/
def pass (link : Link) (moment : Moment) (peer : Peer) (id : UInt16) (entry : Reception.Entry) :
    Option Reception.Entry × List (Emission Peer) :=
  (some { entry with
      acknowledged := entry.acknowledged || entry.fires link.timing moment },
    if entry.fires link.timing moment then
      link.emit { time := (entry.timer link.timing).due, peer, bytes := Reception.bareAck id }
    else [])

variable {link : Link} {moment : Moment} {peer : Peer} {id : UInt16}
  {tasks tasks' : Tasks Peer Reception.Entry Timer} {r : Reception Peer}

omit [DecidableEq Peer] in
/-- Nothing happens to an entry whose timer does not fire. -/
theorem pass_of_not_fires {entry : Reception.Entry}
    (h : entry.fires link.timing moment = false) :
    pass link moment peer id entry = (some entry, []) := by
  rw [pass, h, Bool.or_false]
  rfl

omit [DecidableEq Peer] in
/-- What becomes of an entry is what its timer does. -/
theorem follows (link : Link) (moment : Moment) :
    Tasks.Follows (·.Before moment) (@ring Peer link) (Stands link.timing)
      (pass link moment) where
  idle peer id timer? entry entry' := by
    rintro ⟨rfl, rfl⟩ hidle
    refine pass_of_not_fires ?_
    cases hack : entry'.acknowledged with
    | true => simp [Reception.Entry.fires, hack]
    | false =>
      have hwaits : ¬ (entry'.timer link.timing).Before moment := hidle _ (by simp [hack])
      simp [Reception.Entry.fires, hack, hwaits]
  fires peer id timer entry entry' := by
    rintro ⟨rfl, htimer⟩ hdue
    cases hack : entry'.acknowledged with
    | true => simp [hack] at htimer
    | false =>
      simp only [hack, Bool.false_eq_true, if_false, Option.some.injEq] at htimer
      subst htimer
      have hfires : entry'.fires link.timing moment := by
        simpa [Reception.Entry.fires, hack] using hdue
      -- Once it is acknowledged nothing happens to the entry any more.
      have hrest : pass link moment peer id { entry' with acknowledged := true } =
          (some { entry' with acknowledged := true }, []) := pass_of_not_fires rfl
      refine ⟨some { entry' with acknowledged := true }, ?_, ?_⟩
      · rw [ring, hack]
        exact .some ⟨rfl, rfl⟩
      · rw [Option.bind_some, Option.elim_some, hrest, ring, pass, hfires, hack]
        simp

/-! ### Operations -/

/-- The tasks hold the entries of a reception, each with its timer. -/
abbrev Holds (timing : Timing) (tasks : Tasks Peer Reception.Entry Timer) (r : Reception Peer) :
    Prop :=
  tasks.Mirrors (Stands timing) r.entries

/-- The record of a key is the entry of this key. -/
theorem Holds.record?_eq {timing : Timing} (h : Holds timing tasks r) (peer : Peer) (id : UInt16) :
    tasks.record? peer id = r.entries.find? peer id := by
  have hstands := h.stands peer id
  generalize tasks.record? peer id = record?, r.entries.find? peer id = entry? at hstands ⊢
  cases hstands with
  | none => rfl
  | some hstands => rw [hstands.1]

/-- A timer is armed just for a request that was not acknowledged, and fires when this is due. -/
theorem Holds.state?_eq {timing : Timing} (h : Holds timing tasks r) {entry : Reception.Entry}
    (hfind : r.entries.find? peer id = some entry) :
    tasks.state? peer id = if entry.acknowledged then none else some (entry.timer timing) := by
  have hstands := h.stands peer id
  rw [h.record?_eq, hfind] at hstands
  cases hstands with
  | some hstands => exact hstands.2

/-- A timer that is armed belongs to a request that is remembered and not acknowledged. -/
theorem Holds.armed {timing : Timing} (h : Holds timing tasks r) {n : Nat} {task : Task Peer Timer}
    (harmed : tasks.armed.find? n = some task) :
    ∃ entry, r.entries.find? task.peer task.id = some entry ∧ entry.acknowledged = false ∧
      task.state = entry.timer timing := by
  obtain ⟨entry, hrecord⟩ := h.tidy.exists_record harmed
  have hfind := (h.record?_eq task.peer task.id).symm.trans (Tasks.record?_of_find? hrecord)
  have hstate := (h.tidy.state?_of_armed harmed).symm.trans (h.state?_eq hfind)
  refine ⟨entry, hfind, ?_⟩
  cases hack : entry.acknowledged with
  | true => simp [hack] at hstate
  | false => exact ⟨rfl, by simpa [hack] using hstate⟩

theorem Holds.contains_eq {timing : Timing} (h : Holds timing tasks r) (peer : Peer)
    (id : UInt16) : (tasks.record? peer id).isSome = r.entries.contains peer id :=
  congrArg Option.isSome (h.record?_eq peer id)

/-- A message has the same verdict, and the timer of a request is armed that is handed on. -/
theorem Holds.receive (h : Holds link.timing tasks r) (peer : Peer) (m : Message) :
    Holds link.timing (receive link peer m tasks).1 (r.receive link peer m).reception ∧
      (receive link peer m tasks).2 =
        ((r.receive link peer m).verdict, (r.receive link peer m).emissions) := by
  rw [Watch.receive, Reception.receive]
  cases m.isConfirmable with
  | false => exact ⟨h, rfl⟩
  | true =>
    cases m.id? with
    | none => exact ⟨h, rfl⟩
    | some id =>
      dsimp only
      split
      · exact ⟨h, rfl⟩
      · -- The key is known to both or to none.
        rw [← h.contains_eq]
        by_cases hknown : (tasks.record? peer id).isSome
        · rw [if_pos hknown, if_pos hknown]
          exact ⟨h, rfl⟩
        · rw [if_neg hknown, if_neg hknown]
          rw [h.record?_eq, Option.not_isSome_iff_eq_none] at hknown
          exact ⟨h.arm hknown ⟨rfl, rfl⟩, rfl⟩

/-- The timer of a request that is answered is stopped or has ended. -/
theorem Holds.answered {timing : Timing} (h : Holds timing tasks r) (peer : Peer)
    (response : Response) :
    Holds timing (answered peer response tasks) (r.answered peer response) := by
  rw [Watch.answered, Reception.answered]
  cases response.message.id? with
  | none => exact h
  | some id =>
    dsimp only
    cases hrecord : tasks.record? peer id with
    | none =>
      rw [h.record?_eq] at hrecord
      exact h.congr (Ledger.find?_erase_of_none hrecord)
    -- The flag of the entry says whether its timer is armed still.
    | some entry =>
      dsimp only
      split
      · rename_i hack
        refine h.drop ?_
        rw [h.state?_eq (h.record?_eq peer id ▸ hrecord), if_pos hack]
      · exact h.remove peer id

/-- A response gets the same type and id, and takes away the same entry. -/
theorem Holds.prepare {timing : Timing} (h : Holds timing tasks r) (peer : Peer)
    (response : Response) :
    Holds timing (prepare peer response tasks).1 (r.prepare peer response).1 ∧
      (prepare peer response tasks).2 = (r.prepare peer response).2 := by
  rw [Watch.prepare, Reception.prepare]
  cases response.message.type? with
  | some type => exact ⟨h, rfl⟩
  | none =>
    refine ⟨h.answered peer response, ?_⟩
    have hpending : response.message.id?.bind (tasks.record? peer) = r.pending? peer response :=
      congrArg response.message.id?.bind (funext (h.record?_eq peer))
    rw [hpending]

/-- The same entries are dropped, and their timers are stopped. -/
theorem Holds.purge (h : Holds link.timing tasks r) (time : Nat) :
    Holds link.timing (purge link.timing time tasks) (r.purge link.timing time) := by
  refine Tasks.Mirrors.retain h _ fun peer id => ?_
  rw [Reception.find?_purge, h.record?_eq]
  cases r.entries.find? peer id with
  | none => rfl
  | some entry => cases hexpired : entry.expired link.timing time <;> simp [Option.filter, hexpired]

/-- As many requests are remembered. -/
theorem Holds.size_eq {timing : Timing} (h : Holds timing tasks r) :
    tasks.records.size = r.size := by
  refine Ledger.size_congr fun peer id => ?_
  rw [← h.record?_eq, Tasks.record?, Option.isSome_map]

/-- An event has the same answer, sends the same at once and leaves the same entries. -/
theorem Holds.handle (h : Holds link.timing tasks r) (event : Event Peer) :
    Holds link.timing (handle link tasks event).1 (event.reception link r) ∧
      (Watch.handle link tasks event).2.answer = (Receiver.step ⟨link, r⟩ event).2.answer ∧
        (Watch.handle link tasks event).2.emissions = event.acks link r := by
  -- Receiving, preparing and purging work on the tasks. The other two leave them alone.
  cases event with
  | receive peer m =>
    obtain ⟨hholds, heq⟩ := h.receive peer m
    refine ⟨hholds, ?_, ?_⟩
    · simp only [Watch.handle, heq]
      rfl
    · simp only [Watch.handle, heq]
      rfl
  | prepare peer response =>
    obtain ⟨hholds, heq⟩ := h.prepare peer response
    refine ⟨hholds, ?_, rfl⟩
    simp only [Watch.handle, heq]
    rfl
  | purge =>
    refine ⟨h.purge link.now, ?_, rfl⟩
    simp only [Watch.handle, h.size_eq, (h.purge link.now).size_eq]
    rfl
  | sleep ms => exact ⟨h, rfl, rfl⟩
  | close => exact ⟨h, rfl, rfl⟩

/-! ### Runs -/

/-- The same answer, and the same datagrams up to their order. -/
def Agrees (report report' : Report Peer) : Prop :=
  report.answer = report'.answer ∧ report.emissions.Perm report'.emissions

/-- In whatever order timers take turns, a step has the same answer, sends the same and leaves the
    same entries. -/
theorem Step.agrees {w w' : Watch Peer} {event : Event Peer} {report : Report Peer}
    (hstep : Step w event w' report) (h : Holds w.link.timing w.tasks r) :
    w'.link = event.link w.link ∧
      Holds w'.link.timing w'.tasks (Receiver.step ⟨w.link, r⟩ event).1.reception ∧
        Agrees report (Receiver.step ⟨w.link, r⟩ event).2 := by
  cases hstep with
  | mk runs =>
    obtain ⟨hholds, hanswer, hemissions⟩ := h.handle event
    obtain ⟨hrest, hlate⟩ := runs.mirrors (follows _ _) (event.link_timing w.link ▸ hholds)
    refine ⟨rfl, ?_, hanswer, ?_⟩
    · rw [step_reception]
      exact hrest
    · rw [step_emissions, ← hemissions]
      exact .append_left _ hlate

/-- In whatever order timers take turns, a watch does what a receiver does: in each step it gives
    the same answer and sends the same datagrams, and in the end it holds the same entries. -/
theorem Run.agrees {w w' : Watch Peer} {events : List (Event Peer)} {reports : List (Report Peer)}
    (hrun : Run w events w' reports) (h : Holds w.link.timing w.tasks r) :
    Holds w'.link.timing w'.tasks (Receiver.run ⟨w.link, r⟩ events).1.reception ∧
      List.Forall₂ Agrees reports (Receiver.run ⟨w.link, r⟩ events).2 := by
  induction hrun generalizing r with
  | nil => exact ⟨h, .nil⟩
  | @cons w w₁ w₂ event events report reports step rest ih =>
    obtain ⟨hlink, hholds, hagrees⟩ := step.agrees h
    obtain ⟨hrest, hreports⟩ := ih hholds
    have hstep : (Receiver.step ⟨w.link, r⟩ event).1 =
        ⟨w₁.link, (Receiver.step ⟨w.link, r⟩ event).1.reception⟩ := by
      rw [hlink, ← Receiver.step_link ⟨w.link, r⟩ event]
    rw [Receiver.run_cons, hstep]
    exact ⟨hrest, .cons hagrees hreports⟩

/-- A watch that starts with nothing does what a receiver does, and each timer that is armed belongs
    to the one request that holds its handle, which is remembered and not acknowledged. -/
theorem run_agrees (link : Link) {w : Watch Peer} {events : List (Event Peer)}
    {reports : List (Report Peer)} (hrun : Run { link } events w reports) :
    w.tasks.Tidy ∧
      (∀ n task, w.tasks.armed.find? n = some task → ∃ entry,
        (Receiver.run { link } events).1.reception.entries.find? task.peer task.id = some entry ∧
          entry.acknowledged = false ∧ task.state = entry.timer w.link.timing) ∧
        List.Forall₂ Agrees reports (Receiver.run { link } events).2 := by
  obtain ⟨hholds, hreports⟩ := hrun.agrees (r := {}) Tasks.mirrors_empty
  exact ⟨hholds.tidy, fun _ _ => hholds.armed, hreports⟩

/-- Timers that are due always come to an end, so each run of events is a run of a watch. -/
theorem exists_run (w : Watch Peer) (events : List (Event Peer)) :
    ∃ w' reports, Run w events w' reports := by
  induction events generalizing w with
  | nil => exact ⟨w, [], .nil⟩
  | cons event events ih =>
    -- A timer that has fired does not sleep again.
    have hruns : ∃ late tasks, Tasks.Runs (·.Before (.endOf (event.link w.link).now))
        (ring (event.link w.link)) (handle w.link w.tasks event).1 late tasks := by
      refine Tasks.exists_runs (fun _ => 0) (fun {peer id entry timer timer'} _ hagain => ?_) _
      rw [ring] at hagain
      split at hagain <;> cases hagain
    obtain ⟨late, tasks, hruns⟩ := hruns
    obtain ⟨w', reports, hrest⟩ := ih ⟨event.link w.link, tasks⟩
    exact ⟨w', _, .cons (.mk hruns) hrest⟩

end Watch

end Coap
