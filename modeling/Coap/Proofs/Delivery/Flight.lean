import Coap.Delivery.Record
import Coap.Proofs.Time.Schedule

/-!
# Messages in flight

What happens to a record in the course of time concerns the message of its ticket, and the record
is kept just as long as this message is not at its end (`Record.Concerns`).

A confirmable message (`Flight`) is due to be sent at fixed times. As long as nothing else ends it,
its record goes through the stages of its schedule (`Flight.IsAt`): at each of them one more copy
is sent, after the last one the message is given up.

* `Record.Elapses`: what the time-outs of a record do up to a moment;
* `Record.elapse_concerns`: whatever happens to a record concerns its message;
* `Flight.elapse_of_isAt`: the copies that are sent until a given time, and the stage at which
  they leave the record.
-/

namespace Coap

variable {Peer : Type}

/-! ### The message that a record is about -/

/-- What happened to a record concerns its message, and this is not at its end if the record was
    kept. -/
structure Record.Concerns (record : Record) (rest : Option Record) (progress : Progress Peer) :
    Prop where
  emissions : ∀ e ∈ progress.emissions, e.ticket? = some record.ticket
  resolutions : ∀ r ∈ progress.resolutions, r.ticket = record.ticket
  rest : ∀ record' ∈ rest, record'.ticket = record.ticket ∧ progress.resolutions = []

/-- A record that is kept as it is, or whose timer ended, is about the same message. -/
theorem Record.Concerns.rfl {record record' : Record} (h : record'.ticket = record.ticket) :
    record.Concerns (some record') ({} : Progress Peer) where
  emissions _ he := absurd he List.not_mem_nil
  resolutions _ hr := absurd hr List.not_mem_nil
  rest r hr := by
    obtain rfl := Option.some.inj hr
    exact ⟨h, .refl _⟩

/-- The end of a message concerns this message, and its record is gone. -/
theorem Record.Concerns.ended {record : Record} {time : Nat} {outcome : Outcome Peer} :
    record.Concerns none { resolutions := [⟨time, record.ticket, outcome⟩] } where
  emissions _ he := absurd he List.not_mem_nil
  resolutions r hr := by rw [List.mem_singleton.1 hr]
  rest _ hr := by cases hr

namespace Record

variable {link : Link} {peer : Peer} {id : UInt16} {moment : Moment} {left : Nat} {record : Record}
  {timer : Timer}

/-- A record has one timer. -/
theorem not_before_of_timer_eq (ht : record.timer? = some timer) (hb : ¬ timer.Before moment) :
    ∀ timer' ∈ record.timer?, ¬ timer'.Before moment := by
  intro timer' ht'
  obtain rfl := Option.some.inj (ht.symm.trans ht')
  exact hb

/-- Nothing happens before the time-out. -/
theorem elapseFor_of_not_before (h : ∀ timer ∈ record.timer?, ¬ timer.Before moment) :
    elapseFor link peer id moment left record = (some record, {}) := by
  rw [elapseFor]
  cases ht : record.timer? with
  | none => rfl
  | some timer => exact if_pos (h timer ht)

/-- After the last copy the time-out gives the message up. -/
theorem elapseFor_zero (ht : record.timer? = some timer) (hb : timer.Before moment) :
    elapseFor link peer id moment 0 record = (none,
      { resolutions := [⟨timer.due, record.ticket, .failed (.unacknowledged peer id)⟩] }) := by
  rw [elapseFor, ht]
  exact if_neg (not_not_intro hb)

/-- If the next time-out is too long the task breaks off, and the record is left without a timer. -/
theorem elapseFor_succ_of_none (ht : record.timer? = some timer) (hb : timer.Before moment)
    (hn : record.backoff.next? = none) :
    elapseFor link peer id moment (left + 1) record =
      (some { record with timer? := none }, {}) := by
  rw [elapseFor, ht, hn]
  exact if_neg (not_not_intro hb)

/-- If the way out is closed the time-out ends the message. -/
theorem elapseFor_succ_of_closed (ht : record.timer? = some timer) (hb : timer.Before moment)
    {backoff : Backoff} (hn : record.backoff.next? = some backoff) (hc : ¬ link.isOpen) :
    elapseFor link peer id moment (left + 1) record =
      (none, { resolutions := [⟨timer.due, record.ticket, .failed .closed⟩] }) := by
  rw [elapseFor, ht, hn]
  refine (if_neg (not_not_intro hb)).trans (if_pos ?_)
  rw [Bool.eq_false_iff.2 hc]
  rfl

/-- The time-out sends one more copy, and the next one counts from when this was due. -/
theorem elapseFor_succ_of_open (ht : record.timer? = some timer) (hb : timer.Before moment)
    {backoff : Backoff} (hn : record.backoff.next? = some backoff) (ho : link.isOpen) :
    elapseFor link peer id moment (left + 1) record =
      let later := elapseFor link peer id moment left
        (start record.ticket record.bytes backoff timer.due)
      (later.1, { later.2 with
        emissions := ⟨timer.due, peer, record.bytes, record.ticket⟩ :: later.2.emissions }) := by
  rw [elapseFor, ht, hn]
  refine (if_neg (not_not_intro hb)).trans (if_neg ?_)
  rw [ho]
  exact Bool.false_ne_true

/-- What the time-outs of a record do up to a moment, one after the other: what remains of it, and
    what happens meanwhile. -/
inductive Elapses (link : Link) (peer : Peer) (id : UInt16) (moment : Moment) :
    Record → Option Record → Progress Peer → Prop where
  /-- No timer is due before the moment. -/
  | waits {record : Record} (calm : ∀ timer ∈ record.timer?, ¬ timer.Before moment) :
    Elapses link peer id moment record (some record) {}
  /-- The time-out after the last copy. -/
  | givenUp {record : Record} {timer : Timer} (timer_eq : record.timer? = some timer)
      (due : timer.Before moment) :
    Elapses link peer id moment record none
      { resolutions := [⟨timer.due, record.ticket, .failed (.unacknowledged peer id)⟩] }
  /-- The next time-out would be too long. -/
  | stalled {record : Record} {timer : Timer} (timer_eq : record.timer? = some timer)
      (due : timer.Before moment) (too_long : record.backoff.next? = none) :
    Elapses link peer id moment record (some { record with timer? := none }) {}
  /-- The way out is closed when a copy would go out. -/
  | closed {record : Record} {timer : Timer} (timer_eq : record.timer? = some timer)
      (due : timer.Before moment) (not_open : ¬ link.isOpen) :
    Elapses link peer id moment record none
      { resolutions := [⟨timer.due, record.ticket, .failed .closed⟩] }
  /-- One more copy goes out, and the next time-out counts from when this one was due. -/
  | sent {record : Record} {timer : Timer} {backoff : Backoff} {rest? : Option Record}
      {progress : Progress Peer} (timer_eq : record.timer? = some timer)
      (due : timer.Before moment) (next_eq : record.backoff.next? = some backoff)
      (is_open : link.isOpen)
      (later : Elapses link peer id moment (start record.ticket record.bytes backoff timer.due)
        rest? progress) :
    Elapses link peer id moment record rest?
      { progress with
        emissions := ⟨timer.due, peer, record.bytes, record.ticket⟩ :: progress.emissions }

/-- Nothing else happens to a record within some time-outs. -/
theorem elapses_elapseFor (link : Link) (peer : Peer) (id : UInt16) (moment : Moment)
    (left : Nat) (record : Record) :
    Elapses link peer id moment record (elapseFor link peer id moment left record).1
      (elapseFor link peer id moment left record).2 := by
  -- The induction is on how often the timer may be armed again.
  induction left generalizing record with
  | zero =>
    by_cases hb : ∃ timer, record.timer? = some timer ∧ timer.Before moment
    · obtain ⟨timer, ht, hb⟩ := hb
      rw [elapseFor_zero ht hb]
      exact .givenUp ht hb
    · have hcalm : ∀ timer ∈ record.timer?, ¬ timer.Before moment :=
        fun timer ht hbefore => hb ⟨timer, ht, hbefore⟩
      rw [elapseFor_of_not_before hcalm]
      exact .waits hcalm
  | succ left ih =>
    by_cases hb : ∃ timer, record.timer? = some timer ∧ timer.Before moment
    · obtain ⟨timer, ht, hb⟩ := hb
      cases hn : record.backoff.next? with
      | none =>
        rw [elapseFor_succ_of_none ht hb hn]
        exact .stalled ht hb hn
      | some backoff =>
        by_cases ho : link.isOpen
        · rw [elapseFor_succ_of_open ht hb hn ho]
          exact .sent ht hb hn ho (ih (start record.ticket record.bytes backoff timer.due))
        · rw [elapseFor_succ_of_closed ht hb hn ho]
          exact .closed ht hb ho
    · have hcalm : ∀ timer ∈ record.timer?, ¬ timer.Before moment :=
        fun timer ht hbefore => hb ⟨timer, ht, hbefore⟩
      rw [elapseFor_of_not_before hcalm]
      exact .waits hcalm

theorem elapses_elapse (link : Link) (peer : Peer) (id : UInt16) (moment : Moment)
    (record : Record) :
    Elapses link peer id moment record (record.elapse link peer id moment).1
      (record.elapse link peer id moment).2 :=
  elapses_elapseFor link peer id moment record.backoff.left record

/-- Whatever the time-outs of a record do concerns its message. -/
theorem Elapses.concerns {rest? : Option Record} {progress : Progress Peer}
    (h : Elapses link peer id moment record rest? progress) :
    record.Concerns rest? progress := by
  induction h with
  | waits => exact .rfl rfl
  | givenUp => exact .ended
  | stalled => exact .rfl rfl
  | closed => exact .ended
  | sent timer_eq due next_eq is_open later ih =>
    -- The record that is armed again has the ticket of the one before.
    obtain ⟨emissions, resolutions, rest⟩ := ih
    exact ⟨List.forall_mem_cons.2 ⟨rfl, emissions⟩, resolutions, rest⟩

theorem elapse_concerns (link : Link) (peer : Peer) (id : UInt16) (moment : Moment)
    (record : Record) :
    record.Concerns (record.elapse link peer id moment).1 (record.elapse link peer id moment).2 :=
  (elapses_elapse link peer id moment record).concerns

end Record

/-! ### The stages of a message -/

/-- A confirmable message that was accepted. -/
structure Flight (Peer : Type) where
  ticket : Nat
  peer : Peer
  id : UInt16
  bytes : Bytes
  /-- The schedule from the first transmission on. -/
  backoff : Backoff
  /-- When the message was sent first. -/
  start : Nat

namespace Flight

variable (f : Flight Peer)

/-- How often the message is sent again. -/
def last : Nat := f.backoff.maxRetransmit

/-- When the message is due to be sent for the `k`-th time after its first transmission. After the
    last transmission this is when the message is given up. -/
def time (k : Nat) : Nat := f.backoff.sendTime f.start k

/-- The datagram that is sent then. -/
def copy (k : Nat) : Emission Peer := ⟨f.time k, f.peer, f.bytes, f.ticket⟩

/-- The first copies. -/
def copies (count : Nat) : List (Emission Peer) := (List.range count).map f.copy

/-- The end of a message that nothing else ended. -/
def givenUp : Resolution Peer :=
  ⟨f.time (f.last + 1), f.ticket, .failed (.unacknowledged f.peer f.id)⟩

/-- The schedule starts with the first transmission, and each time-out of it is a duration. -/
structure Feasible : Prop where
  fresh : f.backoff.retransmissions = 0
  fits : 2 ^ f.last * f.backoff.current.nanoseconds < UInt64.size * nanosPerSecond

/-- A record whose message was sent `k` times after its first transmission. -/
def IsAt (k : Nat) (record : Record) : Prop :=
  ∃ b, f.backoff.after? k = some b ∧ record = .start f.ticket f.bytes b (f.time k)

variable {f}

/-- One more copy comes behind the others. -/
theorem copies_succ (f : Flight Peer) (k : Nat) : f.copies (k + 1) = f.copies k ++ [f.copy k] := by
  rw [copies, copies, List.range_succ, List.map_append, List.map_singleton]

/-- A message is sent again at times in order. -/
theorem time_mono (f : Flight Peer) {j k : Nat} (h : j ≤ k) : f.time j ≤ f.time k :=
  f.backoff.sendTime_mono f.start h

theorem ticket_of_isAt {k : Nat} {record : Record} (h : f.IsAt k record) :
    record.ticket = f.ticket := by
  obtain ⟨b, -, rfl⟩ := h
  rfl

theorem isAt_zero : f.IsAt 0 (.start f.ticket f.bytes f.backoff f.start) := ⟨f.backoff, rfl, rfl⟩

/-- A record at a stage waits for the next one. -/
theorem exists_timer_of_isAt {k : Nat} {record : Record} (h : f.IsAt k record) :
    ∃ timer, record.timer? = some timer ∧ timer.due = f.time (k + 1) := by
  obtain ⟨b, hb, rfl⟩ := h
  refine ⟨_, rfl, ?_⟩
  rw [Backoff.ceilMillis_of_after? hb]
  rfl

/-- A record waits for the next time of its schedule. -/
theorem not_before_of_isAt {k now : Nat} {record : Record} (h : f.IsAt k record)
    (hnow : ¬ f.time (k + 1) ≤ now) : ∀ timer ∈ record.timer?, ¬ timer.Before (.endOf now) := by
  obtain ⟨timer, ht, hdue⟩ := exists_timer_of_isAt h
  exact Record.not_before_of_timer_eq ht fun hb => hnow (hdue ▸ Timer.before_endOf.1 hb)

/-- There is a next stage as long as the message may be sent again. -/
theorem exists_next_of_isAt (hf : f.Feasible) {k : Nat} (hk : k < f.last) {record : Record}
    (h : f.IsAt k record) :
    ∃ b, record.backoff.next? = some b ∧
      f.IsAt (k + 1) (.start record.ticket record.bytes b (f.time (k + 1))) := by
  obtain ⟨b, hb, rfl⟩ := h
  -- The next time-out is not longer than the last one, which is a duration.
  have hfit : 2 ^ (k + 1) * f.backoff.current.nanoseconds < UInt64.size * nanosPerSecond :=
    Nat.lt_of_le_of_lt
      (Nat.mul_le_mul_right _ (Nat.pow_le_pow_right Nat.two_pos hk)) hf.fits
  obtain ⟨b', hb'⟩ := Backoff.exists_after? hfit
  have hnext : b.next? = some b' := by
    rw [Backoff.after?, hb] at hb'
    exact hb'
  exact ⟨b', hnext, b', hb', rfl⟩

/-- The stage of a record tells how often its message may still be sent again. -/
theorem left_of_isAt (hf : f.Feasible) {k : Nat} {record : Record} (h : f.IsAt k record) :
    record.backoff.left = f.last - k := by
  obtain ⟨b, hb, rfl⟩ := h
  exact Backoff.left_of_after? hb hf.fresh

variable (f) in
/-- Where a message stands at a time that nothing but time has passed since `count` copies had
    been sent: it is on its way, at the stage of this time, or it was given up. -/
inductive Arrives (now count : Nat) : Option Record → Progress Peer → Prop where
  | flying {j : Nat} {record : Record} {progress : Progress Peer} (stage : f.IsAt j record)
      (le_last : j ≤ f.last) (sent : f.time j ≤ now) (waits : now < f.time (j + 1))
      (emissions : f.copies count ++ progress.emissions = f.copies (j + 1))
      (resolutions : progress.resolutions = []) : Arrives now count (some record) progress
  | givenUp {progress : Progress Peer} (due : f.time (f.last + 1) ≤ now)
      (emissions : f.copies count ++ progress.emissions = f.copies (f.last + 1))
      (resolutions : progress.resolutions = [f.givenUp]) : Arrives now count none progress

/-- A copy that is sent first. -/
theorem Arrives.cons {now k : Nat} {rest : Option Record} {progress : Progress Peer}
    (h : f.Arrives now (k + 1) rest progress) :
    f.Arrives now k rest { progress with emissions := f.copy k :: progress.emissions } := by
  have hcopies : ∀ count, f.copies (k + 1) ++ progress.emissions = f.copies count →
      f.copies k ++ f.copy k :: progress.emissions = f.copies count := by
    intro count hcount
    rw [← hcount, copies_succ, List.append_assoc, List.singleton_append]
  cases h with
  | flying stage le_last sent waits emissions resolutions =>
    exact .flying stage le_last sent waits (hcopies _ emissions) resolutions
  | givenUp due emissions resolutions => exact .givenUp due (hcopies _ emissions) resolutions

/-- From any stage on, the record goes through the stages that are due: the induction is on the
    copies left. -/
theorem elapseFor_of_isAt (hf : f.Feasible) {link : Link} (hopen : link.isOpen) {now : Nat}
    {left k : Nat} {record : Record} (hleft : left = f.last - k) (hk : k ≤ f.last)
    (hsent : f.time k ≤ now) (h : f.IsAt k record) :
    f.Arrives now (k + 1) (record.elapseFor link f.peer f.id (.endOf now) left).1
      (record.elapseFor link f.peer f.id (.endOf now) left).2 := by
  -- The induction is on the copies that are left.
  induction left generalizing k record with
  | zero =>
    obtain ⟨timer, ht, hdue⟩ := exists_timer_of_isAt h
    by_cases hnow : f.time (k + 1) ≤ now
    · -- None is left, so this is the last stage, and the message is given up.
      obtain rfl : k = f.last := Nat.le_antisymm hk (Nat.le_of_sub_eq_zero hleft.symm)
      rw [Record.elapseFor_zero ht (Timer.before_endOf.2 (hdue ▸ hnow))]
      refine .givenUp hnow (List.append_nil _) ?_
      rw [ticket_of_isAt h, hdue]
      rfl
    · rw [Record.elapseFor_of_not_before (not_before_of_isAt h hnow)]
      exact .flying h hk hsent (Nat.lt_of_not_le hnow) (List.append_nil _) rfl
  | succ left ih =>
    obtain ⟨timer, ht, hdue⟩ := exists_timer_of_isAt h
    by_cases hnow : f.time (k + 1) ≤ now
    · -- The time-out is over: the record gets to the next stage and goes on from there.
      have hk' : k < f.last := by omega
      obtain ⟨b, hb, hnext⟩ := exists_next_of_isAt hf hk' h
      have hcopy : (⟨f.time (k + 1), f.peer, record.bytes, record.ticket⟩ : Emission Peer) =
          f.copy (k + 1) := by
        obtain ⟨c, -, rfl⟩ := h
        rfl
      rw [Record.elapseFor_succ_of_open ht (Timer.before_endOf.2 (hdue ▸ hnow)) hb hopen, hdue,
        hcopy]
      exact (ih (by omega) hk' hnow hnext).cons
    · rw [Record.elapseFor_of_not_before (not_before_of_isAt h hnow)]
      exact .flying h hk hsent (Nat.lt_of_not_le hnow) (List.append_nil _) rfl

/-- The copies that are sent until a given time, and the stage at which they leave the record. -/
theorem elapse_of_isAt (hf : f.Feasible) {link : Link} (hopen : link.isOpen) {now k : Nat}
    {record : Record} (hk : k ≤ f.last) (hsent : f.time k ≤ now) (h : f.IsAt k record) :
    f.Arrives now (k + 1) (record.elapse link f.peer f.id (.endOf now)).1
      (record.elapse link f.peer f.id (.endOf now)).2 :=
  elapseFor_of_isAt hf hopen (left_of_isAt hf h) hk hsent h

end Flight

end Coap
