import Coap.Proofs.Endpoint.Departure
import Coap.Proofs.Endpoint.Rest

/-!
# The course of a request

A request that has gone out passes through two phases at most: its message is to be acknowledged,
and then its response is to come. In the first phase the message is in flight and is sent again and
again, in the second one it is in flight no more (`Endpoint.Course`). It is settled by the phase in
which a request ends how it may do so (`Endpoint.Ended`).

* `Endpoint.coupled_run`: after every run requests and messages are coupled;
* `Endpoint.Course.fate`, `Endpoint.Course.elapse`: the course of a request at an event and in the
  course of time;
* `Endpoint.tracks_run`: the course of a request through a run.
-/

namespace Coap

variable {Peer : Type}

namespace Effects

variable {effects effects' : Effects Peer} {ticket time time' : Nat}

/-- No copy of a message is sent after a time. -/
def SendsBy (ticket time : Nat) (effects : Effects Peer) : Prop :=
  ∀ x ∈ effects.emissions, x.ticket? = some ticket → x.time ≤ time

theorem SendsBy.mono (h : effects.SendsBy ticket time) (hle : time ≤ time') :
    effects.SendsBy ticket time' :=
  fun x hx hticket => (h x hx hticket).trans hle

/-- What is sent in two parts by a time. -/
theorem SendsBy.append (h : effects.SendsBy ticket time) (h' : effects'.SendsBy ticket time) :
    (effects ++ effects').SendsBy ticket time :=
  fun x hx => (List.mem_append.1 hx).elim (h x) (h' x)

/-- Nothing of a message is sent. -/
theorem sendsBy_of_ne (h : ∀ x ∈ effects.emissions, x.ticket? ≠ some ticket) (time : Nat) :
    effects.SendsBy ticket time :=
  fun x hx hticket => absurd hticket (h x hx)

end Effects

variable [DecidableEq Peer]

/-- A bare acknowledgement goes out under no ticket. -/
theorem Reception.ticket_of_mem_elapse {link : Link} {moment : Moment} {r : Reception Peer}
    {x : Emission Peer} (h : x ∈ (r.elapse link moment).2) : x.ticket? = none := by
  obtain ⟨peer, id, entry, -, hx⟩ := Ledger.mem_flatMap_toList.1 h
  dsimp only at hx
  split at hx
  · rw [Link.emit] at hx
    split at hx
    · rw [List.mem_singleton.1 hx]
    · cases hx
  · cases hx

namespace Endpoint

variable {e e' made : Endpoint Peer} {effects past : Effects Peer} {event : Event Peer} {k : Nat}
  {a : Asked Peer} {moment : Moment} {stop stop' : Nat}

/-! ### Time -/

/-- The messages in flight after some time, and what was sent under a ticket meanwhile. -/
theorem Seated.elapse_transmission (h : e.Seated) (moment : Moment) :
    (e.elapse moment).1.transmission = (e.transmission.elapse e.link moment).1 ∧
      ∀ {x ticket}, x ∈ (e.elapse moment).2.emissions → x.ticket? = some ticket →
        x ∈ ((e.transmission.elapse e.link moment).2.of ticket).emissions := by
  obtain ⟨⟨waiting, live, hframe⟩, hemissions, -⟩ := h.elapse_frame moment
  refine ⟨hframe ▸ rfl, fun {x ticket} hx hticket => ?_⟩
  rw [hemissions] at hx
  rcases List.mem_append.1 hx with hx | hx
  · cases (Reception.ticket_of_mem_elapse hx).symm.trans hticket
  · exact List.mem_filter.2 ⟨hx, decide_eq_true hticket⟩

/-- In the course of time requests and messages stay coupled. -/
theorem Coupled.elapse (h : e.Coupled) (hseated : e.Seated) (moment : Moment) :
    (e.elapse moment).1.Coupled := by
  have hturn := Transmission.Turn.of_elapse h.ticketed e.link moment
  have hadvances := Transmission.advances_elapse e.link moment e.transmission
  have hages := fun k => hseated.ages h.apart h.ticketed moment k
  obtain ⟨htransmission, -⟩ := hseated.elapse_transmission moment
  -- Whoever waits has waited before, in the same phase.
  have hbefore : ∀ {k x}, (e.elapse moment).1.live.find? k = some x →
      e.live.find? k = some x ∧ (x.phase = .delivery →
        ((e.transmission.elapse e.link moment).2.of x.ticket).resolutions = []) := by
    intro k x hx
    cases hages k with
    | gone before after => cases hx.symm.trans after
    | delivery before phase resolutions after =>
      obtain rfl := Option.some.inj (hx.symm.trans after)
      exact ⟨before, fun _ => resolutions⟩
    | failed before phase resolutions after => cases hx.symm.trans after
    | response before phase waits after =>
      obtain rfl := Option.some.inj (hx.symm.trans after)
      exact ⟨before, fun hphase => by cases phase.symm.trans hphase⟩
    | late before phase due after => cases hx.symm.trans after
  refine ⟨htransmission ▸ hturn.ticketed,
    fun hx hx' => h.apart (hbefore hx).1 (hbefore hx').1, fun hx => ?_, fun hx hphase => ?_,
    fun hx hphase => ?_⟩
  · rw [htransmission]
    exact Nat.lt_of_lt_of_le (h.lt (hbefore hx).1) hadvances.le
  · obtain ⟨hx, hnone⟩ := hbefore hx
    obtain ⟨record, hr, hticket⟩ := h.delivery hx hphase
    obtain ⟨rest, hrest, hsame⟩ :=
      h.ticketed.find?_elapse_of_resolutions hr (hticket ▸ hnone hphase)
    rw [htransmission]
    exact ⟨rest, hrest, hsame.trans hticket⟩
  · obtain ⟨hx, -⟩ := hbefore hx
    rw [htransmission]
    exact hadvances.not_live (h.lt hx) (h.response hx hphase)

/-- Every event leaves requests and messages coupled. -/
theorem Coupled.step (h : e.Coupled) (hseated : e.Seated) (event : Event Peer) :
    (e.step event).1.Coupled := by
  by_cases hsleep : ∃ ms, event = .sleep ms
  · obtain ⟨ms, rfl⟩ := hsleep
    let P (_ : Nat) (e : Endpoint Peer) (_ : Effects Peer) : Prop := e.Coupled
    rw [step_sleep]
    have hstart : P e.link.now e {} := h
    exact hseated.advance_rec (fun hs hc _ _ => hc.elapse hs _)
      (fun _ hc => hc.congr rfl rfl rfl) (fun hc => hc.congr rfl rfl rfl) hstart ms
  · obtain ⟨e₁, effects, answer, hacts, hs, hstep⟩ :=
      h.acts hseated fun ms heq => hsleep ⟨ms, heq⟩
    rw [hstep]
    exact hacts.coupled.elapse hs _

/-- After every run requests and messages are coupled. -/
theorem coupled_run (service : Service Peer) (responseTimeout : Nat) (link : Link) (draws : Draws)
    (events : List (Event Peer)) :
    let start : Endpoint Peer := { service, responseTimeout, link, transmission := { draws } }
    (start.run events).1.Coupled := by
  intro start
  induction events using List.reverseRecOn with
  | nil =>
    refine ⟨.empty draws, fun hk => ?_, fun hk => ?_, fun hk => ?_, fun hk => ?_⟩
    all_goals cases hk
  | append_singleton events event ih =>
    rw [run_concat]
    exact ih.step (seated_run service responseTimeout link draws events) event

/-! ### The course of a request -/

/-- How a request ends that was made at an endpoint, if it is known when its message may have
    arrived. -/
inductive Ended (made : Endpoint Peer) (a : Asked Peer) (arrived : Nat → Prop)
    (finish : Finish Peer) : Prop where
  /-- Its message is given up. -/
  | givenUp {f : Flight Peer} (launches : made.Launches a f)
      (time_eq : finish.time = f.time (f.last + 1))
      (result_eq : finish.result = .error (.unacknowledged a.peer a.id))
  /-- Something else ends it while its message is to be acknowledged. -/
  | undelivered {f : Flight Peer} (launches : made.Launches a f) (within : f.Within finish.time)
      (untimed : Untimed finish.result)
  /-- No response comes in time. -/
  | late {since : Nat} (arrived : arrived since)
      (time_eq : finish.time = (Timer.after since made.responseTimeout).due)
      (result_eq : finish.result = .error .noResponse)
  /-- Something else ends it while its response is to come. -/
  | delivered {since : Nat} (arrived : arrived since)
      (le_due : finish.time ≤ (Timer.after since made.responseTimeout).due)
      (untimed : Untimed finish.result)

/-- Where a request has got to by a time, and what was brought about since it was made. It may have
    been called off, and it is known when its message may have arrived. -/
inductive Course (made : Endpoint Peer) (k : Nat) (a : Asked Peer) (called : Prop)
    (arrived : Nat → Prop) (stop : Nat) (e : Endpoint Peer) (past : Effects Peer) : Prop where
  /-- Its message is to be acknowledged. -/
  | delivery {f : Flight Peer} {record : Record} {latest : Nat} (launches : made.Launches a f)
      (live : e.live.find? k = some a.exchange)
      (found : e.transmission.records.find? a.peer a.id = some record)
      (flies : f.Flies latest record) (le_stop : latest ≤ stop)
      (sends : past.SendsBy a.ticket latest) (finishes : past.finishes k = [])
  /-- Its response is to come. -/
  | response {since : Nat} (arrived : arrived since)
      (live : e.live.find? k = some { a.exchange with phase := .response since })
      (le_stop : since ≤ stop) (sends : past.SendsBy a.ticket since)
      (finishes : past.finishes k = [])
  | calledOff (called : called) (gone : e.live.find? k = none) (finishes : past.finishes k = [])
  | ended {finish : Finish Peer} (ended : Ended made a arrived finish)
      (gone : e.live.find? k = none) (silent : ¬ e.transmission.Live a.ticket)
      (le_stop : finish.time ≤ stop) (sends : past.SendsBy a.ticket finish.time)
      (finishes : past.finishes k = [finish])

variable {called called' : Prop} {arrived arrived' : Nat → Prop}

omit [DecidableEq Peer] in
theorem Ended.mono {finish : Finish Peer} (h : Ended made a arrived finish)
    (harrived : ∀ {since}, arrived since → arrived' since) : Ended made a arrived' finish := by
  cases h with
  | givenUp launches time_eq result_eq => exact .givenUp launches time_eq result_eq
  | undelivered launches within untimed => exact .undelivered launches within untimed
  | late arrived time_eq result_eq => exact .late (harrived arrived) time_eq result_eq
  | delivered arrived le_due untimed => exact .delivered (harrived arrived) le_due untimed

omit [DecidableEq Peer] in
theorem Launches.fresh {f : Flight Peer} (h : made.Launches a f) :
    f.backoff.retransmissions = 0 :=
  (Backoff.start?_eq_some h.drawn).1

/-- How a request begins that goes out. -/
theorem Departs.course (h : Departs k a e e' effects) :
    Course e k a False (fun since => a.message.type? ≠ some .con ∧ since = e.link.now)
      e.link.now e' effects := by
  have hsends : effects.SendsBy a.ticket e.link.now :=
    fun x hx _ => Nat.le_of_eq (h.emissions x hx).1
  cases h.departed with
  | launched launches live found =>
    refine .delivery launches live found Flight.flies_start (Nat.le_of_eq launches.start_eq) ?_
      (Effects.finishes_of_nil h.finished)
    exact launches.start_eq ▸ hsends
  | once unconfirmed live silent =>
    exact .response ⟨unconfirmed, rfl⟩ live le_rfl hsends (Effects.finishes_of_nil h.finished)

/-- Whatever a request waits for, the time for it is not over. -/
structure Timely (made : Endpoint Peer) (k : Nat) (a : Asked Peer) (e : Endpoint Peer) : Prop where
  delivery : ∀ {f record latest}, made.Launches a f →
    e.transmission.records.find? a.peer a.id = some record → f.Flies latest record →
      f.Within e.link.now
  response : ∀ {since}, e.live.find? k = some { a.exchange with phase := .response since } →
    e.link.now ≤ (Timer.after since made.responseTimeout).due

/-- An endpoint where every timer has fired that is due. -/
theorem timely_of_calm (hcalm : e.Calm (.endOf e.link.now))
    (hpatient : e.Patient (.endOf e.link.now))
    (htimeout : e.responseTimeout = made.responseTimeout) : Timely made k a e where
  delivery launches found flies :=
    (flies.pending launches.fresh (hcalm.transmission found)).within
  response hk := by
    rw [← htimeout]
    exact Nat.le_of_not_le fun hdue => hpatient hk _ rfl (Timer.before_endOf.2 hdue)

/-- The course of a request at an event, while no time passes. -/
theorem Course.fate (h : Course made k a called arrived e.link.now e past)
    (hfate : Fate event k e e' effects) (htimely : Timely made k a e)
    (hadvances : e.transmission.Advances e'.transmission)
    (hlt : a.ticket < e.transmission.nextTicket)
    (hsends : ∀ x ∈ effects.emissions, x.ticket? ≠ some a.ticket)
    (hcalled : called ∨ event = .abandon k → called')
    (harrived : ∀ {since}, arrived since → arrived' since)
    (hacknowledges : event.Acknowledges a.exchange → ∀ {f}, made.Launches a f →
      f.Within e.link.now → arrived' e.link.now) :
    Course made k a called' arrived' e.link.now e' (past ++ effects) := by
  have happend : ∀ {time}, past.SendsBy a.ticket time →
      (past ++ effects).SendsBy a.ticket time :=
    fun hpast => hpast.append (Effects.sendsBy_of_ne hsends _)
  -- By where the course of the request is before, and what becomes of the request at the event.
  cases h with
  | delivery launches live found flies le_stop sends finishes =>
    have hwithin := htimely.delivery launches found flies
    cases hfate with
    | gone before => cases live.symm.trans before
    -- Its message is in flight as it was, so it is where it was.
    | kept before after record finishes' =>
      obtain rfl := Option.some.inj (live.symm.trans before)
      have hkept := record found (flies.ticket_eq.trans launches.ticket_eq)
      exact .delivery launches after hkept flies le_stop (happend sends)
        (Effects.finishes_append_eq finishes finishes')
    | calledOff event_eq before after finishes' =>
      exact .calledOff (hcalled (.inr event_eq)) after
        (Effects.finishes_append_eq finishes finishes')
    -- The acknowledgement came before the next time-out was over.
    | arrived acknowledges before phase after silent finishes' =>
      obtain rfl := Option.some.inj (live.symm.trans before)
      exact .response (hacknowledges acknowledges launches hwithin) after le_rfl
        (happend (sends.mono le_stop)) (Effects.finishes_append_eq finishes finishes')
    -- It ends before it was acknowledged, for a reason other than its time-outs.
    | ended before after silent finishes' untimed =>
      obtain rfl := Option.some.inj (live.symm.trans before)
      exact .ended (.undelivered launches hwithin untimed) after silent le_rfl
        (happend (sends.mono le_stop)) (Effects.finishes_append_eq finishes finishes')
  | response harrive live le_stop sends finishes =>
    cases hfate with
    | gone before => cases live.symm.trans before
    | kept before after record finishes' =>
      obtain rfl := Option.some.inj (live.symm.trans before)
      exact .response (harrived harrive) after le_stop (happend sends)
        (Effects.finishes_append_eq finishes finishes')
    | calledOff event_eq before after finishes' =>
      exact .calledOff (hcalled (.inr event_eq)) after
        (Effects.finishes_append_eq finishes finishes')
    | arrived acknowledges before phase =>
      obtain rfl := Option.some.inj (live.symm.trans before)
      cases phase
    | ended before after silent finishes' untimed =>
      obtain rfl := Option.some.inj (live.symm.trans before)
      exact .ended (.delivered (harrived harrive) (htimely.response live) untimed) after silent
        le_rfl (happend (sends.mono le_stop)) (Effects.finishes_append_eq finishes finishes')
  -- Who was called off or has ended is not there any more, and stays away.
  | calledOff hoff gone finishes =>
    obtain ⟨after, finishes'⟩ := hfate.of_none gone
    exact .calledOff (hcalled (.inl hoff)) after (Effects.finishes_append_eq finishes finishes')
  | ended ended gone silent le_stop sends finishes =>
    obtain ⟨after, finishes'⟩ := hfate.of_none gone
    exact .ended (ended.mono harrived) after (hadvances.not_live hlt silent) le_stop
      (happend sends) (Effects.finishes_append_eq finishes finishes')

/-- A message that is in flight no more is not sent again in the course of time. -/
theorem Coupled.silent_elapse (h : e.Coupled) (hseated : e.Seated) {ticket : Nat}
    (hgone : ¬ e.transmission.Live ticket) (moment : Moment) :
    (∀ x ∈ (e.elapse moment).2.emissions, x.ticket? ≠ some ticket) ∧
      ¬ (e.elapse moment).1.transmission.Live ticket := by
  have hturn := Transmission.Turn.of_elapse h.ticketed e.link moment
  obtain ⟨htransmission, hsent⟩ := hseated.elapse_transmission moment
  rw [htransmission]
  refine ⟨fun x hx hticket => ?_, fun hlive => ?_⟩
  · obtain ⟨hx, -⟩ := List.mem_filter.1 (hsent hx hticket)
    obtain ⟨ticket', hticket', hlive⟩ := hturn.emissions x hx
    obtain rfl := Option.some.inj (hticket.symm.trans hticket')
    exact hlive.elim hgone List.not_mem_nil
  · exact (hturn.live hlive).elim hgone List.not_mem_nil

/-- The course of a request whose message is to be acknowledged, as time goes on. -/
theorem Course.elapse_delivery {f : Flight Peer} {record : Record} {latest : Nat}
    (launches : made.Launches a f) (live : e.live.find? k = some a.exchange)
    (found : e.transmission.records.find? a.peer a.id = some record)
    (flies : f.Flies latest record) (sends : past.SendsBy a.ticket latest)
    (finishes : past.finishes k = []) (hseated : e.Seated) (hc : e.Coupled)
    (hby : moment.By stop) (hle : latest ≤ stop) :
    Course made k a called arrived stop (e.elapse moment).1 (past ++ (e.elapse moment).2) := by
  have hticket : record.ticket = a.ticket := flies.ticket_eq.trans launches.ticket_eq
  have hopen : e.link.isOpen := hseated.isOpen (place?_eq_some_iff.2 ⟨_, live, rfl⟩)
  have hpasses := flies.elapse launches.fresh hopen hby hle
  have hof := Transmission.of_elapse hc.ticketed found e.link moment
  rw [launches.peer_eq, launches.id_eq] at hpasses
  rw [hticket] at hof
  obtain ⟨htransmission, hsent⟩ := hseated.elapse_transmission moment
  have hfind : (e.elapse moment).1.transmission.records.find? a.peer a.id =
      (record.elapse e.link a.peer a.id moment).1 := by
    rw [htransmission, Transmission.find?_elapse, found, Option.bind_some]
  generalize record.elapse e.link a.peer a.id moment = elapsed at *
  obtain ⟨rest, progress⟩ := elapsed
  have happend : ∀ {time}, latest ≤ time → (∀ x ∈ progress.emissions, x.time ≤ time) →
      (past ++ (e.elapse moment).2).SendsBy a.ticket time := by
    intro time hlater hemissions
    refine (sends.mono hlater).append fun x hx hx' => hemissions x ?_
    have hmem := hsent hx hx'
    rw [hof] at hmem
    exact hmem
  have hof' := congrArg Progress.resolutions hof
  cases hseated.ages hc.apart hc.ticketed moment k with
  | gone before => cases live.symm.trans before
  | delivery before phase resolutions after finishes' =>
    obtain rfl := Option.some.inj (live.symm.trans before)
    cases hpasses with
    | flies flies' later le_stop emissions =>
      exact .delivery launches after hfind flies' le_stop (happend later emissions)
        (Effects.finishes_append_eq finishes finishes')
    | givenUp later le_stop emissions resolutions' =>
      cases resolutions'.symm.trans (hof'.symm.trans resolutions)
  | failed before phase resolutions after finishes' =>
    obtain rfl := Option.some.inj (live.symm.trans before)
    cases hpasses with
    | flies flies' later le_stop emissions resolutions' =>
      cases resolutions'.symm.trans (hof'.symm.trans resolutions)
    | givenUp later le_stop emissions resolutions' =>
      -- The end that is reported is that of the last time-out.
      have hends := resolutions.symm.trans (hof'.trans resolutions')
      obtain ⟨rfl, -, houtcome⟩ := Resolution.mk.inj (List.cons.inj hends).1
      obtain rfl := Outcome.failed.inj houtcome
      refine .ended (.givenUp launches rfl ?_) after ?_ le_stop (happend later emissions)
        (Effects.finishes_append_eq finishes finishes')
      · rw [← launches.peer_eq, ← launches.id_eq]
      · have hturn := Transmission.Turn.of_elapse hc.ticketed e.link moment
        have hmem := resolutions.symm ▸ List.mem_singleton_self _
        rw [htransmission]
        exact (hturn.resolutions _ (List.mem_filter.1 hmem).1).2
  | response before phase =>
    obtain rfl := Option.some.inj (live.symm.trans before)
    cases phase
  | late before phase =>
    obtain rfl := Option.some.inj (live.symm.trans before)
    cases phase

/-- The course of a request whose response is to come, as time goes on. -/
theorem Course.elapse_response {since : Nat} (harrived : arrived since)
    (live : e.live.find? k = some { a.exchange with phase := .response since })
    (sends : past.SendsBy a.ticket since) (finishes : past.finishes k = [])
    (hseated : e.Seated) (hc : e.Coupled) (htimeout : e.responseTimeout = made.responseTimeout)
    (hby : moment.By stop) (hle : since ≤ stop) :
    Course made k a called arrived stop (e.elapse moment).1 (past ++ (e.elapse moment).2) := by
  obtain ⟨hsilent, hgone⟩ := hc.silent_elapse hseated (hc.response live rfl) moment
  have happend : ∀ {time}, since ≤ time →
      (past ++ (e.elapse moment).2).SendsBy a.ticket time :=
    fun hlater => (sends.mono hlater).append (Effects.sendsBy_of_ne hsilent _)
  -- A request in this phase waits for its own time-out only.
  cases hseated.ages hc.apart hc.ticketed moment k with
  | gone before => cases live.symm.trans before
  | delivery before phase =>
    obtain rfl := Option.some.inj (live.symm.trans before)
    cases phase
  | failed before phase =>
    obtain rfl := Option.some.inj (live.symm.trans before)
    cases phase
  | response before phase waits after finishes' =>
    obtain rfl := Option.some.inj (live.symm.trans before)
    exact .response harrived after hle (happend le_rfl)
      (Effects.finishes_append_eq finishes finishes')
  | late before phase due after finishes' =>
    obtain rfl := Option.some.inj (live.symm.trans before)
    obtain rfl := Phase.response.inj phase
    have hlater : since ≤ (Timer.after since e.responseTimeout).due := Nat.le_add_right _ _
    exact .ended (.late harrived (htimeout ▸ rfl) rfl) after hgone (hby _ due) (happend hlater)
      (Effects.finishes_append_eq finishes finishes')

/-- The course of a request as time goes on. -/
theorem Course.elapse (h : Course made k a called arrived stop e past) (hseated : e.Seated)
    (hc : e.Coupled) (htimeout : e.responseTimeout = made.responseTimeout)
    (hby : moment.By stop') (hle : stop ≤ stop') :
    Course made k a called arrived stop' (e.elapse moment).1 (past ++ (e.elapse moment).2) := by
  -- By where the course of the request is. Its end and its being called off are not undone.
  have hages := hseated.ages hc.apart hc.ticketed moment k
  cases h with
  | delivery launches live found flies le_stop sends finishes =>
    exact elapse_delivery launches live found flies sends finishes hseated hc hby
      (le_stop.trans hle)
  | response harrived live le_stop sends finishes =>
    exact elapse_response harrived live sends finishes hseated hc htimeout hby
      (le_stop.trans hle)
  | calledOff hoff gone finishes =>
    obtain ⟨after, finishes'⟩ := hages.of_none gone
    exact .calledOff hoff after (Effects.finishes_append_eq finishes finishes')
  | ended ended gone silent le_stop sends finishes =>
    obtain ⟨after, finishes'⟩ := hages.of_none gone
    obtain ⟨hsilent, hgone⟩ := hc.silent_elapse hseated silent moment
    exact .ended ended after hgone (le_stop.trans hle)
      (sends.append (Effects.sendsBy_of_ne hsilent _))
      (Effects.finishes_append_eq finishes finishes')

/-! ### Steps and runs -/

/-- The course of a request is the same if more counts as called off or as come in. -/
theorem Course.mono (h : Course made k a called arrived stop e past) (hcalled : called → called')
    (harrived : ∀ {since}, arrived since → arrived' since) :
    Course made k a called' arrived' stop e past := by
  cases h with
  | delivery launches live found flies le_stop sends finishes =>
    exact .delivery launches live found flies le_stop sends finishes
  | response arrived live le_stop sends finishes =>
    exact .response (harrived arrived) live le_stop sends finishes
  | calledOff called gone finishes => exact .calledOff (hcalled called) gone finishes
  | ended ended gone silent le_stop sends finishes =>
    exact .ended (ended.mono harrived) gone silent le_stop sends finishes

/-- It matters only which requests wait, and what is in flight. -/
theorem Course.congr (h : Course made k a called arrived stop e past) (hlive : e'.live = e.live)
    (hrecords : e'.transmission.records = e.transmission.records) :
    Course made k a called arrived stop e' past := by
  cases h with
  | delivery launches live found flies le_stop sends finishes =>
    exact .delivery launches (hlive ▸ live) (hrecords ▸ found) flies le_stop sends finishes
  | response arrived live le_stop sends finishes =>
    exact .response arrived (hlive ▸ live) le_stop sends finishes
  | calledOff called gone finishes => exact .calledOff called (hlive ▸ gone) finishes
  | ended ended gone silent le_stop sends finishes =>
    exact .ended ended (hlive ▸ gone) (mt (Transmission.live_congr hrecords).1 silent) le_stop
      sends finishes

/-- An endpoint at which the course of a request is known. -/
structure Tracks (made : Endpoint Peer) (k : Nat) (a : Asked Peer) (called : Prop)
    (arrived : Nat → Prop) (stop : Nat) (e : Endpoint Peer) (past : Effects Peer) : Prop where
  seated : e.Seated
  coupled : e.Coupled
  timeout_eq : e.responseTimeout = made.responseTimeout
  course : Course made k a called arrived stop e past

/-- The course of a request goes on as time passes. -/
theorem Tracks.elapse (h : Tracks made k a called arrived stop e past) (hby : moment.By stop')
    (hle : stop ≤ stop') :
    Tracks made k a called arrived stop' (e.elapse moment).1 (past ++ (e.elapse moment).2) where
  seated := (h.seated.spares_elapse 0 moment).seated
  coupled := h.coupled.elapse h.seated moment
  timeout_eq := (proceeds_elapse moment e).responseTimeout.trans h.timeout_eq
  course := h.course.elapse h.seated h.coupled h.timeout_eq hby hle

/-- It matters only which requests wait, and what is in flight. -/
theorem Tracks.congr (h : Tracks made k a called arrived stop e past) (hseated : e'.Seated)
    (htimeout : e'.responseTimeout = e.responseTimeout) (hlive : e'.live = e.live)
    (hrecords : e'.transmission.records = e.transmission.records)
    (hnext : e'.transmission.nextTicket = e.transmission.nextTicket) :
    Tracks made k a called arrived stop e' past :=
  ⟨hseated, h.coupled.congr hlive hrecords hnext, htimeout.trans h.timeout_eq,
    h.course.congr hlive hrecords⟩

theorem Tracks.settle (h : Tracks made k a called arrived e.link.now e past)
    (answer : Answer Peer) (effects : Effects Peer) :
    Tracks made k a called arrived (e.settle answer effects).1.link.now
      (e.settle answer effects).1 (past ++ (e.elapse (.endOf e.link.now)).2) := by
  have hlink : (e.settle answer effects).1.link = e.link := (proceeds_elapse _ e).link_eq
  rw [hlink]
  exact h.elapse (Moment.endOf_by _) le_rfl

/-- The course of a request goes on over a while. -/
theorem Tracks.advance (h : Tracks made k a called arrived e.link.now e past) (ms : Nat) :
    Tracks made k a called arrived (e.link.now + ms) (e.advance ms).1
      (past ++ (e.advance ms).2) := by
  have hframe : ∀ {e e' : Endpoint Peer}, e.Seated → e'.link.isOpen = e.link.isOpen →
      e'.live = e.live → e'.waiting = e.waiting → e'.nextRequest = e.nextRequest → e'.Seated := by
    intro e e' hseated hopen hlive hwaiting hnext
    have hplace : ∀ k, e'.place? k = e.place? k := fun k => by rw [place?, place?, hlive]
    exact ⟨fun hk => hopen ▸ hseated.isOpen (hplace _ ▸ hk),
      fun hk => hnext ▸ hseated.lt (hwaiting ▸ hk),
      fun hk => hwaiting ▸ hseated.waiting_iff (hplace _ ▸ hk)⟩
  exact h.seated.advance_rec (fun _ h hle hby => h.elapse hby hle)
    (fun _ h => h.congr (hframe h.seated rfl rfl rfl rfl) rfl rfl rfl rfl)
    (fun h => h.congr (hframe h.seated rfl rfl rfl rfl) rfl rfl rfl rfl) h ms

/-- An endpoint between two events that has made a request. -/
structure Rests (e : Endpoint Peer) (k : Nat) (a : Asked Peer) : Prop where
  calm : e.Calm (.endOf e.link.now)
  patient : e.Patient (.endOf e.link.now)
  lt : k < e.nextRequest
  ticket_lt : a.ticket < e.transmission.nextTicket

/-- After every run that follows a request everything has happened that was due. -/
theorem rests_run (service : Service Peer) (responseTimeout : Nat) (link : Link) (draws : Draws)
    (before after : List (Event Peer)) :
    let start : Endpoint Peer := { service, responseTimeout, link, transmission := { draws } }
    let e := (start.run before).1
    e.Asks event k a → ((e.step event).1.run after).1.Rests k a := by
  intro start e hasks
  -- A request that was made is known by its ticket and its number from then on.
  let events := before ++ event :: after
  have hties : Ties (start.HasAsked events) (start.run events).1.nextRequest
      (start.run events).1 := ties_run service responseTimeout link draws events
  have hasked : start.HasAsked events k a := ⟨before, event, after, rfl, hasks⟩
  have hrests : (start.run events).1.Rests k a :=
    ⟨calm_run service responseTimeout link draws events,
      patient_run service responseTimeout link draws events, (hties.bounds hasked).1,
      (hties.bounds hasked).2⟩
  rw [run_split] at hrests
  exact hrests

/-- The course of a request through a step. -/
theorem Tracks.step (h : Tracks made k a called arrived e.link.now e past) (hrests : e.Rests k a)
    (event : Event Peer) (hcalled : called ∨ event = .abandon k → called')
    (harrived : ∀ {since}, arrived since → arrived' since)
    (hacknowledges : event.Acknowledges a.exchange → ∀ {f}, made.Launches a f →
      f.Within e.link.now → arrived' e.link.now) :
    Tracks made k a called' arrived' (e.step event).1.link.now (e.step event).1
      (past ++ (e.step event).2.effects) := by
  -- Time passes on its own if the event is to sleep. Otherwise the event comes first.
  by_cases hsleep : ∃ ms, event = .sleep ms
  · obtain ⟨ms, rfl⟩ := hsleep
    have hlater : Tracks made k a called' arrived' e.link.now e past :=
      ⟨h.seated, h.coupled, h.timeout_eq, h.course.mono (fun hc => hcalled (.inl hc)) harrived⟩
    rw [link_step]
    rw [step_sleep]
    exact hlater.advance ms
  · obtain ⟨reception, _, hproceeds⟩ := e.proceeds_from event
    obtain ⟨e₁, effects, answer, hacts, hseated, hstep⟩ :=
      h.coupled.acts h.seated fun ms heq => hsleep ⟨ms, heq⟩
    have htimeout : e₁.responseTimeout = e.responseTimeout := by
      rw [hstep] at hproceeds
      exact (proceeds_elapse _ e₁).responseTimeout.symm.trans hproceeds.responseTimeout
    -- What goes out under a ticket at an event is new, and this ticket was given out before.
    have hsends : ∀ x ∈ effects.emissions, x.ticket? ≠ some a.ticket :=
      fun x hx hticket => Nat.not_le.2 hrests.ticket_lt (hacts.emissions x hx _ hticket)
    have htimely : Timely made k a e := timely_of_calm hrests.calm hrests.patient h.timeout_eq
    have hcourse := h.course.fate (hacts.fate k hrests.lt) htimely hacts.advances
      hrests.ticket_lt hsends hcalled harrived hacknowledges
    rw [← hacts.now_eq] at hcourse
    have htracks : Tracks made k a called' arrived' e₁.link.now e₁ (past ++ effects) :=
      ⟨hseated, hacts.coupled, htimeout.trans h.timeout_eq, hcourse⟩
    rw [hstep, effects_settle, ← Effects.append_assoc]
    exact htracks.settle answer effects

/-- The course of a request in the step in which it is made. -/
theorem Asks.tracks (hasks : e.Asks event k a) (hseated : e.Seated) (hc : e.Coupled) :
    Tracks e k a False (fun since => a.message.type? ≠ some .con ∧ since = e.link.now)
      (e.step event).1.link.now (e.step event).1 (e.step event).2.effects := by
  obtain ⟨peer, request, -, -, rfl, -⟩ := hasks.made
  obtain ⟨request', hrequest, rfl, receipt, hresult, rfl⟩ := asks_request_iff.1 hasks
  have hdeparts := ((hc.numbered request).departs hresult e.nextRequest).of_numbered
  have hlaunched := hdeparts.coupled hc
  have hacts := hc.acts_request peer request
  have hrequested := (proceeds_request peer request e).responseTimeout
  have heffects := effects_settle (.started e.nextRequest) (e.request peer request).2
    (e.request peer request).1
  rw [step_request, heffects]
  refine Tracks.settle ⟨hseated.request peer request, hacts.coupled, hrequested, ?_⟩ _ _
  rw [hacts.now_eq]
  rw [request_eq peer hrequest]
  generalize (e.numbered request).launch e.nextRequest peer request' = launched at *
  obtain ⟨e₁, effects⟩ := launched
  -- The request may be closed at once, when its predecessor is.
  have hmoves : Moves (.request peer request) e₁ _ _ := hlaunched.moves_displace
    (e.waiting.find? (peer, request'.message.token?.getD []))
  have htimely : Timely e e.nextRequest (.ofReceipt peer request' receipt) e₁ := by
    constructor
    · intro f record latest launches _ _
      rw [hdeparts.now_eq, ← launches.start_eq]
      exact Flight.within_start
    · intro since hlive
      cases hdeparts.departed with
      | launched launches live => cases hlive.symm.trans live
      | once unconfirmed live =>
        obtain rfl := Phase.response.inj
          (congrArg Exchange.phase (Option.some.inj (hlive.symm.trans live)))
        rw [hdeparts.now_eq]
        exact Nat.le_add_right _ _
  have hcourse := hdeparts.course
  rw [← hdeparts.now_eq] at hcourse ⊢
  refine hcourse.fate (hmoves.fate _) htimely hmoves.advances hdeparts.ticket_lt
    (fun x hx hticket => Nat.not_le.2 hdeparts.ticket_lt (hmoves.emissions x hx _ hticket))
    (fun hoff => hoff.elim id fun heq => by cases heq) id fun hacknowledges => ?_
  obtain ⟨bytes, m, heq, -⟩ := hacknowledges
  cases heq

/-- When the message of a request may have arrived in a run that starts where it has gone out. -/
inductive Arrived (made start : Endpoint Peer) (a : Asked Peer) (events : List (Event Peer))
    (since : Nat) : Prop where
  /-- It wants no acknowledgement, so it is taken to arrive at once. -/
  | once (unconfirmed : a.message.type? ≠ some .con) (since_eq : since = made.link.now)
  /-- It was acknowledged by an empty message, and not too late. -/
  | acknowledged {f : Flight Peer} {before : List (Event Peer)} {event : Event Peer}
      {after : List (Event Peer)} (launches : made.Launches a f) (within : f.Within since)
      (events_eq : events = before ++ event :: after)
      (acknowledges : event.Acknowledges a.exchange)
      (since_eq : since = (start.run before).1.link.now)

/-- What came in stays so in a run that goes on. -/
theorem Arrived.concat {start : Endpoint Peer} {events : List (Event Peer)} {since : Nat}
    (h : Arrived made start a events since) (event : Event Peer) :
    Arrived made start a (events ++ [event]) since := by
  cases h with
  | once unconfirmed since_eq => exact .once unconfirmed since_eq
  | @acknowledged f before event' after launches within events_eq acknowledges since_eq =>
    have hsplit : events ++ [event] = before ++ event' :: (after ++ [event]) := by
      rw [events_eq, List.append_assoc, List.cons_append]
    exact .acknowledged launches within hsplit acknowledges since_eq

/-- The course of a request through a run. -/
theorem tracks_run (service : Service Peer) (responseTimeout : Nat) (link : Link) (draws : Draws)
    (before : List (Event Peer)) (after : List (Event Peer)) :
    let start : Endpoint Peer := { service, responseTimeout, link, transmission := { draws } }
    let e := (start.run before).1
    let made := e.step event
    let last := (made.1.run after).1
    e.Asks event k a →
      Tracks e k a (.abandon k ∈ after) (Arrived e made.1 a after) last.link.now last
        (made.2.effects ++ total (made.1.run after).2) := by
  intro start e made last hasks
  have hseated : e.Seated := seated_run service responseTimeout link draws before
  have hcoupled : e.Coupled := coupled_run service responseTimeout link draws before
  have hrests : ∀ after, (made.1.run after).1.Rests k a := fun after =>
    rests_run service responseTimeout link draws before after hasks
  clear_value e
  -- By induction from the end of the run: the last event moves the course on by one step.
  induction after using List.reverseRecOn with
  | nil =>
    have htracks := hasks.tracks hseated hcoupled
    refine ⟨htracks.seated, htracks.coupled, htracks.timeout_eq, ?_⟩
    have hnothing : made.2.effects ++ total (made.1.run []).2 = made.2.effects :=
      Effects.append_empty _
    rw [hnothing]
    exact htracks.course.mono False.elim fun harrived => .once harrived.1 harrived.2
  | append_singleton after event' ih =>
    have hlast : last = ((made.1.run after).1.step event').1 := run_concat _ _ _
    rw [hlast, run_concat_snd, total_concat, ← Effects.append_assoc]
    refine ih.step (hrests after) event' ?_ (fun harrived => harrived.concat event') ?_
    · rintro (hoff | rfl)
      · exact List.mem_append_left _ hoff
      · exact List.mem_append_right _ (List.mem_singleton_self _)
    · exact fun hacknowledges f launches within =>
        .acknowledged launches within rfl hacknowledges rfl

end Endpoint

end Coap
