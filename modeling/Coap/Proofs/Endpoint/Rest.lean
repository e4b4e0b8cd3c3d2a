import Coap.Proofs.Endpoint.Emission

/-!
# Between two events

Every timer that is due fires within the event at which it falls due. So between two events an
endpoint is at rest (`Endpoint.Calm`), and as long as the clock stands nothing happens but what an
event does itself.

* `Endpoint.Calm.elapse`: an endpoint that is at rest does nothing in the course of no time;
* `Endpoint.calm_run`: after every run an endpoint is at rest;
* `Endpoint.patient_run`: after every run all requests that wait have time left.
-/

namespace Coap

/-- A request that was acknowledged on its own as soon as this was due is not due any more. -/
theorem Reception.Entry.fires_flagged (timing : Timing) (moment : Moment) (entry : Entry) :
    fires timing moment
      { entry with acknowledged := entry.acknowledged || entry.fires timing moment } = false := by
  -- The timer is told from the time at which the request came in.
  change (!(entry.acknowledged || (!entry.acknowledged && (entry.timer timing).Before moment)) &&
    (entry.timer timing).Before moment) = false
  generalize decide ((entry.timer timing).Before moment) = before
  cases entry.acknowledged <;> cases before <;> rfl

namespace Endpoint

variable {Peer : Type} [DecidableEq Peer]

/-- No message in flight and no bare acknowledgement is due before a moment. -/
structure Calm (e : Endpoint Peer) (moment : Moment) : Prop where
  transmission : e.transmission.Calm moment
  reception : ∀ {peer id entry}, e.reception.entries.find? peer id = some entry →
    entry.fires e.link.timing moment = false

variable {e e' : Endpoint Peer} {moment : Moment}

/-- As long as no bare acknowledgement is due, the requests of peers are remembered as before. -/
theorem Seated.entries_elapse (h : e.Seated) {moment : Moment}
    (hcalm : ∀ {peer id entry}, e.reception.entries.find? peer id = some entry →
      entry.fires e.link.timing moment = false) (peer : Peer) (id : UInt16) :
    (e.elapse moment).1.reception.entries.find? peer id = e.reception.entries.find? peer id := by
  obtain ⟨⟨waiting, live, hframe⟩, -⟩ := h.elapse_frame moment
  have hfind := e.reception.find?_elapse e.link moment peer id
  rw [hframe]
  cases hr : e.reception.entries.find? peer id with
  | none =>
    rw [hr] at hfind
    exact hfind
  | some entry =>
    rw [hr, Option.map_some, hcalm hr, Bool.or_false] at hfind
    exact hfind

/-- An endpoint that is at rest does nothing in the course of no time. -/
theorem Calm.elapse (h : e.Calm moment) (hseated : e.Seated) :
    (e.elapse moment).2.emissions = [] ∧
      (∀ peer id, (e.elapse moment).1.transmission.records.find? peer id =
        e.transmission.records.find? peer id) ∧
      ∀ peer id, (e.elapse moment).1.reception.entries.find? peer id =
        e.reception.entries.find? peer id := by
  have hentries := hseated.entries_elapse h.reception
  obtain ⟨⟨waiting, live, hframe⟩, hemissions, -⟩ := hseated.elapse_frame moment
  obtain ⟨hnothing, hrecords⟩ := Transmission.elapse_of_calm h.transmission
  -- No entry is due, so none is acknowledged.
  have hacks : (e.reception.elapse e.link moment).2 = [] := by
    refine List.eq_nil_iff_forall_not_mem.2 fun x hx => ?_
    obtain ⟨peer, id, entry, hr, hx⟩ := Ledger.mem_flatMap_toList.1 hx
    dsimp only at hx
    rw [h.reception hr] at hx
    cases hx
  rw [hframe] at hentries ⊢
  exact ⟨by rw [hemissions, hacks, hnothing]; rfl, hrecords, hentries⟩

/-- At a moment everything that was due before it has happened. -/
theorem Seated.calm_elapse (h : e.Seated) (moment : Moment) :
    (e.elapse moment).1.Calm moment := by
  obtain ⟨⟨waiting, live, hframe⟩, -⟩ := h.elapse_frame moment
  rw [hframe]
  refine ⟨Transmission.calm_elapse e.link moment e.transmission, fun {peer id entry'} hr => ?_⟩
  have hfind := (e.reception.find?_elapse e.link moment peer id).symm.trans hr
  obtain ⟨entry, -, rfl⟩ := Option.map_eq_some_iff.1 hfind
  exact entry.fires_flagged e.link.timing moment

/-! ### Requests -/

/-- No request waits whose time is up before a moment. -/
def Patient (e : Endpoint Peer) (moment : Moment) : Prop :=
  ∀ {k exchange}, e.live.find? k = some exchange →
    ∀ timer ∈ exchange.timer? e.responseTimeout, ¬ timer.Before moment

/-- At a moment every request was given up whose time was up before it. -/
theorem Seated.patient_elapse (h : e.Seated) (moment : Moment) :
    (e.elapse moment).1.Patient moment := by
  intro k exchange hk timer ht hbefore
  have hresolved : (e.resolved moment).1.responseTimeout = e.responseTimeout :=
    (h.resolved moment).2.responseTimeout_eq
  have htimeout : (e.elapse moment).1.responseTimeout = e.responseTimeout :=
    (proceeds_elapse moment e).responseTimeout
  by_cases hlate : ∃ timer, (e.resolved moment).1.Late moment k timer
  · obtain ⟨late, hlate⟩ := hlate
    cases hk.symm.trans (h.elapse_of_late hlate).1
  · have hlive := (h.elapse_of_not_late moment k fun late hl => hlate ⟨late, hl⟩).1
    refine hlate ⟨timer, hbefore, exchange, hlive.symm.trans hk, ?_⟩
    rw [hresolved, ← htimeout]
    exact ht

/-! ### Steps and runs -/

/-- The last thing in every step is that time passes up to the end of the present millisecond. -/
theorem Seated.exists_elapse_step (h : e.Seated) (event : Event Peer) :
    ∃ (e₁ : Endpoint Peer) (link : Link), e₁.Seated ∧ link.timing = e₁.link.timing ∧
      (e.step event).1 = { (e₁.elapse (.endOf link.now)).1 with link } := by
  have hsettle : ∀ {e₁ : Endpoint Peer} (answer : Answer Peer) (effects : Effects Peer),
      e₁.Seated → ∃ (e₂ : Endpoint Peer) (link : Link), e₂.Seated ∧
        link.timing = e₂.link.timing ∧
          (e₁.settle answer effects).1 = { (e₂.elapse (.endOf link.now)).1 with link } := by
    intro e₁ answer effects hseated
    refine ⟨e₁, e₁.link, hseated, rfl, ?_⟩
    obtain ⟨⟨waiting, live, hframe⟩, -⟩ := hseated.elapse_frame (.endOf e₁.link.now)
    rw [Endpoint.settle, hframe]
    rfl
  cases event with
  | datagram peer bytes => exact hsettle _ _ (h.spares_receive 0 peer bytes).seated
  | request peer request => exact hsettle _ _ (h.request peer request)
  | abandon k => exact hsettle .done {} (h.abandon k)
  | respond responder response => exact hsettle _ _ (h.spares_respond 0 responder response).seated
  | shutdown => exact hsettle .done _ (seated_shutdown e)
  -- Purges come before the last stretch of time and keep everybody seated.
  | sleep ms =>
    have hpurges := h.spares_purges 0 (e.link.now / e.link.timing.purgeInterval + 1)
      (purgeCount e.link e.link.now (e.link.now + ms))
    rw [step_sleep, advance]
    generalize e.purges (e.link.now / e.link.timing.purgeInterval + 1)
      (purgeCount e.link e.link.now (e.link.now + ms)) = purged at *
    obtain ⟨e', first⟩ := purged
    obtain ⟨⟨waiting, live, hframe⟩, -⟩ :=
      hpurges.seated.elapse_frame (.endOf (e.link.now + ms))
    refine ⟨e', { e'.link with now := e.link.now + ms }, hpurges.seated, rfl, ?_⟩
    dsimp only
    rw [hframe]
    rfl

theorem Seated.calm_step (h : e.Seated) (event : Event Peer) :
    (e.step event).1.Calm (.endOf (e.step event).1.link.now) := by
  obtain ⟨e₁, link, hseated, htiming, hstep⟩ := h.exists_elapse_step event
  have hcalm := hseated.calm_elapse (.endOf link.now)
  have hlink : (e₁.elapse (.endOf link.now)).1.link = e₁.link := (proceeds_elapse _ e₁).link_eq
  rw [hstep]
  refine ⟨hcalm.transmission, fun hr => ?_⟩
  rw [← hcalm.reception hr, hlink, ← htiming]

theorem Seated.patient_step (h : e.Seated) (event : Event Peer) :
    (e.step event).1.Patient (.endOf (e.step event).1.link.now) := by
  obtain ⟨e₁, link, hseated, -, hstep⟩ := h.exists_elapse_step event
  rw [hstep]
  exact hseated.patient_elapse (.endOf link.now)

/-- After every run an endpoint is at rest. -/
theorem calm_run (service : Service Peer) (responseTimeout : Nat) (link : Link) (draws : Draws)
    (events : List (Event Peer)) :
    let start : Endpoint Peer := { service, responseTimeout, link, transmission := { draws } }
    (start.run events).1.Calm (.endOf (start.run events).1.link.now) := by
  intro start
  induction events using List.reverseRecOn with
  | nil => exact ⟨fun hr => (by cases hr), fun hr => by cases hr⟩
  | append_singleton events event ih =>
    rw [run_concat]
    exact (seated_run service responseTimeout link draws events).calm_step event

/-- After every run all requests that wait have time left. -/
theorem patient_run (service : Service Peer) (responseTimeout : Nat) (link : Link) (draws : Draws)
    (events : List (Event Peer)) :
    let start : Endpoint Peer := { service, responseTimeout, link, transmission := { draws } }
    (start.run events).1.Patient (.endOf (start.run events).1.link.now) := by
  intro start
  induction events using List.reverseRecOn with
  | nil =>
    intro k exchange hk
    cases hk
  | append_singleton events event ih =>
    rw [run_concat]
    exact (seated_run service responseTimeout link draws events).patient_step event

end Endpoint

end Coap
