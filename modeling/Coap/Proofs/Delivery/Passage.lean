import Coap.Proofs.Delivery.Settlement

/-!
# Up to a moment

What time does to a message in flight up to a moment, which need not be the end of a millisecond
(`Flight.Passes`). While the way out is open a message that nothing else ends is sent again and
again until it is given up, unless one of its time-outs is no duration; then it may be left without
a timer (`Flight.Flies`).

No time-out takes longer than the longest wait, so a copy may be sent before its nominal time
(`Flight.nominal`), but never after it.

* `Transmission.calm_elapse`: at a moment no timer is due before it any more;
* `Flight.Flies.elapse`: what becomes of a message on its way up to a moment;
* `Flight.time_le_nominal`, `Flight.le_nominal_of_unfit`: how the times of a message relate to the
  nominal ones;
* `Flight.Flies.pending`: a message that is on its way has not been given up yet.
-/

namespace Coap

variable {Peer : Type}

/-- Every timer that fires before a moment is due by a time. -/
def Moment.By (moment : Moment) (time : Nat) : Prop :=
  ∀ timer : Timer, timer.Before moment → timer.due ≤ time

/-- A moment is by a time that is not before its own. -/
theorem Moment.by_of_le {moment : Moment} {time : Nat} (h : moment.time ≤ time) :
    moment.By time := by
  rintro timer (hlt | ⟨heq, -⟩)
  · exact Nat.le_trans (Nat.le_of_lt hlt) h
  · exact heq ▸ h

theorem Moment.endOf_by (time : Nat) : (Moment.endOf time).By time :=
  fun _ h => Timer.before_endOf.1 h

/-! ### What remains -/

namespace Record

variable {link : Link} {peer : Peer} {id : UInt16} {moment : Moment} {left : Nat}
  {record : Record}

/-- What remains of a record at a moment, and its end if nothing remains. -/
inductive Remains (moment : Moment) : Option Record → Progress Peer → Prop where
  /-- No timer is due before the moment any more. -/
  | kept {rest : Record} {progress : Progress Peer} (resolutions : progress.resolutions = [])
      (waits : ∀ timer ∈ rest.timer?, ¬ timer.Before moment) : Remains moment (some rest) progress
  | ended {r : Resolution Peer} {progress : Progress Peer}
      (resolutions : progress.resolutions = [r]) : Remains moment none progress

/-- A record that is left over waits for a timer that is not due at the moment. -/
theorem Elapses.remains {rest? : Option Record} {progress : Progress Peer}
    (h : Elapses link peer id moment record rest? progress) : Remains moment rest? progress := by
  induction h with
  | waits calm => exact .kept rfl calm
  | givenUp => exact .ended rfl
  | stalled =>
    refine .kept rfl fun timer ht => ?_
    cases ht
  | closed => exact .ended rfl
  | sent timer_eq due next_eq is_open later ih =>
    -- What remains is settled by the time-outs after this copy.
    cases ih with
    | kept resolutions waits => exact .kept resolutions waits
    | ended resolutions => exact .ended resolutions

end Record

namespace Transmission

variable [DecidableEq Peer] {link : Link} {moment : Moment} {t : Transmission Peer} {peer : Peer}
  {id : UInt16} {record : Record}

/-- At a moment no timer is due before it any more. -/
theorem calm_elapse (link : Link) (moment : Moment) (t : Transmission Peer) :
    (t.elapse link moment).1.Calm moment := by
  intro peer id rest hr
  rw [find?_elapse] at hr
  obtain ⟨record, -, hrest⟩ := Option.bind_eq_some_iff.1 hr
  have hremains := (record.elapses_elapse link peer id moment).remains
  generalize record.elapse link peer id moment = elapsed at *
  obtain ⟨_, progress⟩ := elapsed
  subst hrest
  cases hremains with
  | kept resolutions waits => exact waits

/-- A message whose end is not reported is still in flight. -/
theorem Ticketed.find?_elapse_of_resolutions (ht : t.Ticketed)
    (hr : t.records.find? peer id = some record)
    (hnone : ((t.elapse link moment).2.of record.ticket).resolutions = []) :
    ∃ rest, (t.elapse link moment).1.records.find? peer id = some rest ∧
      rest.ticket = record.ticket := by
  rw [of_elapse ht hr] at hnone
  rw [find?_elapse, hr, Option.bind_some]
  have hremains := (record.elapses_elapse link peer id moment).remains
  have hconcerns := record.elapse_concerns link peer id moment
  generalize record.elapse link peer id moment = elapsed at *
  obtain ⟨rest?, progress⟩ := elapsed
  cases hremains with
  | kept => exact ⟨_, rfl, (hconcerns.rest _ rfl).1⟩
  | ended resolutions => cases hnone.symm.trans resolutions

end Transmission

namespace Flight

/-! ### On the way -/

/-- The record of a message on its way, of which the last copy so far was sent at a time. -/
inductive Flies (f : Flight Peer) : (latest : Nat) → Record → Prop where
  /-- The next time-out counts. -/
  | timed {k : Nat} {record : Record} (stage : f.IsAt k record) (le_last : k ≤ f.last) :
      Flies f (f.time k) record
  /-- The next time-out would be too long. -/
  | stalled {latest : Nat} {record : Record} (ticket_eq : record.ticket = f.ticket)
      (timer_eq : record.timer? = none) (unfit : ¬ f.Feasible) : Flies f latest record

/-- What becomes of a message up to a time: it is on its way, or it was given up. No copy is sent
    after the latest one. -/
inductive Passes (f : Flight Peer) (latest stop : Nat) : Option Record → Progress Peer → Prop where
  | flies {latest' : Nat} {record : Record} {progress : Progress Peer}
      (flies : f.Flies latest' record) (later : latest ≤ latest') (le_stop : latest' ≤ stop)
      (emissions : ∀ e ∈ progress.emissions, e.time ≤ latest')
      (resolutions : progress.resolutions = []) : Passes f latest stop (some record) progress
  | givenUp {progress : Progress Peer} (later : latest ≤ f.time (f.last + 1))
      (le_stop : f.time (f.last + 1) ≤ stop)
      (emissions : ∀ e ∈ progress.emissions, e.time ≤ f.time (f.last + 1))
      (resolutions : progress.resolutions = [f.givenUp]) : Passes f latest stop none progress

variable {f : Flight Peer} {latest stop now time : Nat} {record : Record} {moment : Moment}

/-- A record on its way is about the message of its ticket. -/
theorem Flies.ticket_eq (h : f.Flies latest record) : record.ticket = f.ticket := by
  cases h with
  | timed stage => exact ticket_of_isAt stage
  | stalled ticket_eq => exact ticket_eq

/-- A message that was just sent is on its way. -/
theorem flies_start : f.Flies f.start (.start f.ticket f.bytes f.backoff f.start) :=
  .timed (k := 0) isAt_zero (Nat.zero_le _)

/-- A copy that is sent first. -/
theorem Passes.cons {latest' : Nat} {rest : Option Record} {progress : Progress Peer}
    {e : Emission Peer} (h : f.Passes latest' stop rest progress) (hlater : latest ≤ latest')
    (he : e.time ≤ latest') :
    f.Passes latest stop rest { progress with emissions := e :: progress.emissions } := by
  cases h with
  | flies flies later le_stop emissions resolutions =>
    exact .flies flies (hlater.trans later) le_stop
      (List.forall_mem_cons.2 ⟨he.trans later, emissions⟩) resolutions
  | givenUp later le_stop emissions resolutions =>
    exact .givenUp (hlater.trans later) le_stop
      (List.forall_mem_cons.2 ⟨he.trans later, emissions⟩) resolutions

/-- From any stage on, what happens until a moment is part of the schedule. -/
theorem passes_elapseFor {link : Link} (hopen : link.isOpen) (hby : moment.By stop)
    {left k : Nat} (hleft : left = f.last - k) (hk : k ≤ f.last) (hsent : f.time k ≤ stop)
    (h : f.IsAt k record) :
    f.Passes (f.time k) stop (record.elapseFor link f.peer f.id moment left).1
      (record.elapseFor link f.peer f.id moment left).2 := by
  -- The induction is on the copies that are left.
  induction left generalizing k record with
  | zero =>
    obtain ⟨timer, ht, hdue⟩ := exists_timer_of_isAt h
    by_cases hb : timer.Before moment
    · obtain rfl : k = f.last := Nat.le_antisymm hk (Nat.le_of_sub_eq_zero hleft.symm)
      rw [Record.elapseFor_zero ht hb, ticket_of_isAt h, hdue]
      exact .givenUp (f.time_mono (Nat.le_succ _)) (hdue ▸ hby timer hb) (List.forall_mem_nil _)
        rfl
    · rw [Record.elapseFor_of_not_before (Record.not_before_of_timer_eq ht hb)]
      exact .flies (.timed h hk) le_rfl hsent (List.forall_mem_nil _) rfl
  | succ left ih =>
    obtain ⟨timer, ht, hdue⟩ := exists_timer_of_isAt h
    by_cases hb : timer.Before moment
    · have hk' : k < f.last := by omega
      have hmono : f.time k ≤ f.time (k + 1) := f.time_mono (Nat.le_succ k)
      cases hn : record.backoff.next? with
      | none =>
        rw [Record.elapseFor_succ_of_none ht hb hn]
        have hticket : record.ticket = f.ticket := ticket_of_isAt h
        refine .flies (.stalled hticket rfl fun hf => ?_) le_rfl hsent
          (List.forall_mem_nil _) rfl
        obtain ⟨b, hb, -⟩ := exists_next_of_isAt hf hk' h
        cases hn.symm.trans hb
      | some b =>
        -- One more copy goes out; what becomes of the message is settled at a later stage.
        rw [Record.elapseFor_succ_of_open ht hb hn hopen, hdue]
        exact (ih (by omega) hk' (hdue ▸ hby timer hb) (isAt_succ h hn)).cons hmono le_rfl
    · rw [Record.elapseFor_of_not_before (Record.not_before_of_timer_eq ht hb)]
      exact .flies (.timed h hk) le_rfl hsent (List.forall_mem_nil _) rfl

/-- What becomes of a message on its way up to a moment. -/
theorem Flies.elapse (h : f.Flies latest record) (hfresh : f.backoff.retransmissions = 0)
    {link : Link} (hopen : link.isOpen) (hby : moment.By stop) (hlatest : latest ≤ stop) :
    f.Passes latest stop (record.elapse link f.peer f.id moment).1
      (record.elapse link f.peer f.id moment).2 := by
  cases h with
  | timed stage le_last =>
    refine passes_elapseFor hopen hby ?_ le_last hlatest stage
    obtain ⟨b, hb, rfl⟩ := stage
    exact Backoff.left_of_after? hb hfresh
  | stalled ticket_eq timer_eq unfit =>
    rw [Record.elapse_of_not_before]
    · exact .flies (.stalled ticket_eq timer_eq unfit) le_rfl hlatest (List.forall_mem_nil _) rfl
    · intro timer ht
      rw [timer_eq] at ht
      cases ht

/-- A message that is on its way when every timer has fired has not been given up yet. -/
theorem Flies.lt_deadline (h : f.Flies latest record) (hf : f.Feasible)
    (hcalm : ∀ timer ∈ record.timer?, ¬ timer.Before (.endOf now)) :
    now < f.time (f.last + 1) := by
  cases h with
  | timed stage le_last =>
    obtain ⟨timer, ht, hdue⟩ := exists_timer_of_isAt stage
    have hnow : now < timer.due := Nat.lt_of_not_le fun hle =>
      hcalm timer ht (Timer.before_endOf.2 hle)
    exact Nat.lt_of_lt_of_le (hdue ▸ hnow) (f.time_mono (Nat.succ_le_succ le_last))
  | stalled ticket_eq timer_eq unfit => exact absurd hf unfit

/-! ### Nominal times -/

/-- When a message would be sent for the `k`-th time after its first transmission if no wait were
    too long: each time-out is twice the one before, rounded up to a millisecond. -/
def nominal (f : Flight Peer) : (k : Nat) → Nat
  | 0 => f.start
  | k + 1 => f.nominal k + f.backoff.waitMillis k

/-- No copy is sent after its nominal time. -/
theorem time_le_nominal (f : Flight Peer) (k : Nat) : f.time k ≤ f.nominal k := by
  induction k with
  | zero => exact Nat.le_refl _
  | succ k ih => exact Nat.add_le_add ih (Nat.min_le_left _ _)

/-- A message with a time-out that is no duration would not be given up while the seconds of the
    clock fit into 64 bits. -/
theorem le_nominal_of_unfit (hfresh : f.backoff.retransmissions = 0) (h : ¬ f.Feasible) :
    UInt64.size * 1000 ≤ f.nominal (f.last + 1) := by
  have hlong : UInt64.size * nanosPerSecond ≤ 2 ^ f.last * f.backoff.current.nanoseconds :=
    Nat.le_of_not_lt fun hfits => h ⟨hfresh, hfits⟩
  have hseconds : UInt64.size * nanosPerSecond = UInt64.size * 1000 * 1000000 := rfl
  have hwait : UInt64.size * 1000 ≤ f.backoff.waitMillis f.last := by
    rw [Backoff.waitMillis, Nat.le_div_iff_mul_le (by decide)]
    omega
  exact hwait.trans (Nat.le_add_left _ _)

/-- A time at which a message has not been given up yet. It is before the deadline if all time-outs
    are durations, and in any case before the nominal one, as far as the clock goes. -/
structure Pending (f : Flight Peer) (time : Nat) : Prop where
  deadline : f.Feasible → time < f.time (f.last + 1)
  nominal : time < UInt64.size * 1000 → time < f.nominal (f.last + 1)

/-- A time until which a message may be on its way. -/
structure Within (f : Flight Peer) (time : Nat) : Prop where
  deadline : f.Feasible → time ≤ f.time (f.last + 1)
  nominal : time < UInt64.size * 1000 → time ≤ f.nominal (f.last + 1)

theorem Pending.within (h : f.Pending time) : f.Within time :=
  ⟨fun hf => Nat.le_of_lt (h.deadline hf), fun hclock => Nat.le_of_lt (h.nominal hclock)⟩

/-- A time is within a schedule up to the time at which its message is given up. -/
theorem within_of_le (h : time ≤ f.time (f.last + 1)) : f.Within time :=
  ⟨fun _ => h, fun _ => h.trans (f.time_le_nominal _)⟩

theorem within_start : f.Within f.start := within_of_le (f.time_mono (Nat.zero_le _))

/-- A message that is on its way when every timer has fired has not been given up yet. -/
theorem Flies.pending (h : f.Flies latest record) (hfresh : f.backoff.retransmissions = 0)
    (hcalm : ∀ timer ∈ record.timer?, ¬ timer.Before (.endOf now)) : f.Pending now := by
  refine ⟨fun hf => h.lt_deadline hf hcalm, fun hclock => ?_⟩
  by_cases hf : f.Feasible
  · exact Nat.lt_of_lt_of_le (h.lt_deadline hf hcalm) (f.time_le_nominal _)
  · exact Nat.lt_of_lt_of_le hclock (le_nominal_of_unfit hfresh hf)

end Flight

end Coap
