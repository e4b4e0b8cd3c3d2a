import Coap.Proofs.Delivery.Tickets

/-!
# How time ends a message

In the course of time nothing but its time-outs ends a message in flight. The last one gives it up,
and any other does so just if the way out is closed (`Flight.Expires`). This holds whether or not
the way out is open and whether or not all the time-outs of the message are durations; if one is
not, the message may be left without a timer (`Flight.Waits`).

* `Flight.lapses_elapseFor`, `Flight.Waits.lapses`: what becomes of a message until a given time;
* `Transmission.elapse_of_calm`: as long as no timer is due, nothing happens.
-/

namespace Coap

variable {Peer : Type}

namespace Flight

/-- How a time-out ends a message. -/
inductive Expires (f : Flight Peer) (isOpen : Bool) : Resolution Peer → Prop where
  /-- The last one gives it up. -/
  | givenUp : Expires f isOpen f.givenUp
  /-- After any other one a further copy would be sent, which takes an open way out. -/
  | closed {k : Nat} (lt_last : k < f.last) (isClosed : isOpen = false) :
      Expires f isOpen ⟨f.time (k + 1), f.ticket, .failed .closed⟩

/-- The record of a message at a given time, when every time-out until then is over. -/
inductive Waits (f : Flight Peer) (now : Nat) : Record → Prop where
  /-- The next time-out is not over. -/
  | timed {k : Nat} {record : Record} (stage : f.IsAt k record) (le_last : k ≤ f.last)
      (sent : f.time k ≤ now) (waits : now < f.time (k + 1)) : Waits f now record
  /-- The next time-out would be too long. -/
  | stalled {record : Record} (ticket_eq : record.ticket = f.ticket)
      (timer_eq : record.timer? = none) (unfit : ¬ f.Feasible) : Waits f now record

/-- What becomes of a message until a given time: it waits, or it has ended after another time. -/
inductive Lapses (f : Flight Peer) (isOpen : Bool) (since now : Nat) :
    Option Record → Progress Peer → Prop where
  | waits {record : Record} {progress : Progress Peer} (waits : f.Waits now record)
      (resolutions : progress.resolutions = []) : Lapses f isOpen since now (some record) progress
  | expires {r : Resolution Peer} {progress : Progress Peer} (expires : f.Expires isOpen r)
      (since_le : since ≤ r.time) (le_now : r.time ≤ now)
      (resolutions : progress.resolutions = [r]) : Lapses f isOpen since now none progress

variable {f : Flight Peer} {now : Nat} {record : Record}

theorem Expires.ticket_eq {isOpen : Bool} {r : Resolution Peer} (h : f.Expires isOpen r) :
    r.ticket = f.ticket := by
  cases h <;> rfl

theorem Waits.ticket_eq (h : f.Waits now record) : record.ticket = f.ticket := by
  cases h with
  | timed stage => exact ticket_of_isAt stage
  | stalled ticket_eq => exact ticket_eq

/-- The time-out of a message that waits is not over. -/
theorem Waits.not_before (h : f.Waits now record) :
    ∀ timer ∈ record.timer?, ¬ timer.Before (.endOf now) := by
  cases h with
  | timed stage le_last sent waits => exact not_before_of_isAt stage (Nat.not_le.2 waits)
  | stalled ticket_eq timer_eq =>
    intro timer ht
    rw [timer_eq] at ht
    cases ht

/-- What ends the message while time passes is its last time-out or the closed way out. -/
theorem Lapses.expires_of_mem {isOpen : Bool} {since : Nat} {rest : Option Record}
    {progress : Progress Peer} (h : f.Lapses isOpen since now rest progress) {r : Resolution Peer}
    (hr : r ∈ progress.resolutions) : f.Expires isOpen r ∧ since ≤ r.time ∧ r.time ≤ now := by
  cases h with
  | waits waits resolutions =>
    rw [resolutions] at hr
    cases hr
  | expires expires since_le le_now resolutions =>
    rw [resolutions] at hr
    obtain rfl := List.mem_singleton.1 hr
    exact ⟨expires, since_le, le_now⟩

/-- The next stage of a schedule starts when the time-out of the stage before is over. -/
theorem isAt_succ {k : Nat} (h : f.IsAt k record) {b : Backoff}
    (hb : record.backoff.next? = some b) :
    f.IsAt (k + 1) (.start record.ticket record.bytes b (f.time (k + 1))) := by
  obtain ⟨c, hc, rfl⟩ := h
  refine ⟨b, ?_, rfl⟩
  rw [Backoff.after?, hc]
  exact hb

/-- From any stage on, the message lapses as its schedule says: the induction is on the copies left.
    -/
theorem lapses_elapseFor {link : Link} {since left k : Nat} (hleft : left = f.last - k)
    (hk : k ≤ f.last) (hsent : f.time k ≤ now) (hsince : since ≤ f.time (k + 1))
    (h : f.IsAt k record) :
    f.Lapses link.isOpen since now (record.elapseFor link f.peer f.id (.endOf now) left).1
      (record.elapseFor link f.peer f.id (.endOf now) left).2 := by
  -- The induction is on the copies that are left.
  induction left generalizing k record with
  | zero =>
    obtain ⟨timer, ht, hdue⟩ := exists_timer_of_isAt h
    by_cases hnow : f.time (k + 1) ≤ now
    · obtain rfl : k = f.last := Nat.le_antisymm hk (Nat.le_of_sub_eq_zero hleft.symm)
      rw [Record.elapseFor_zero ht (Timer.before_endOf.2 (hdue ▸ hnow)), ticket_of_isAt h, hdue]
      exact .expires .givenUp hsince hnow rfl
    · rw [Record.elapseFor_of_not_before (not_before_of_isAt h hnow)]
      exact .waits (.timed h hk hsent (Nat.lt_of_not_le hnow)) rfl
  | succ left ih =>
    obtain ⟨timer, ht, hdue⟩ := exists_timer_of_isAt h
    by_cases hnow : f.time (k + 1) ≤ now
    · have hk' : k < f.last := by omega
      have hb := Timer.before_endOf.2 (hdue ▸ hnow)
      cases hn : record.backoff.next? with
      | none =>
        rw [Record.elapseFor_succ_of_none ht hb hn]
        have hticket : record.ticket = f.ticket := ticket_of_isAt h
        refine .waits (.stalled hticket rfl fun hf => ?_) rfl
        obtain ⟨b, hb, -⟩ := exists_next_of_isAt hf hk' h
        rw [hn] at hb
        cases hb
      | some b =>
        by_cases ho : link.isOpen
        · -- One more copy goes out; what becomes of the message is settled at a later stage.
          rw [Record.elapseFor_succ_of_open ht hb hn ho, hdue]
          have := ih (by omega) hk' hnow (Nat.le_trans hsince (f.time_mono (Nat.le_succ _)))
            (isAt_succ h hn)
          generalize Record.elapseFor _ _ _ _ _ _ = later at this
          obtain ⟨rest, progress⟩ := later
          cases this with
          | waits waits resolutions => exact .waits waits resolutions
          | expires expires since_le le_now resolutions =>
            exact .expires expires since_le le_now resolutions
        · rw [Record.elapseFor_succ_of_closed ht hb hn ho, ticket_of_isAt h, hdue]
          exact .expires (.closed hk' (Bool.eq_false_iff.2 ho)) hsince hnow rfl
    · rw [Record.elapseFor_of_not_before (not_before_of_isAt h hnow)]
      exact .waits (.timed h hk hsent (Nat.lt_of_not_le hnow)) rfl

/-- What becomes of a message from one of its stages on. -/
theorem lapses_of_isAt (hfresh : f.backoff.retransmissions = 0) (link : Link) {since k : Nat}
    (hk : k ≤ f.last) (hsent : f.time k ≤ link.now) (hsince : since ≤ f.time (k + 1))
    (h : f.IsAt k record) :
    f.Lapses link.isOpen since link.now
      (record.elapse link f.peer f.id (.endOf link.now)).1
      (record.elapse link f.peer f.id (.endOf link.now)).2 := by
  refine lapses_elapseFor ?_ hk hsent hsince h
  obtain ⟨b, hb, rfl⟩ := h
  exact Backoff.left_of_after? hb hfresh

/-- What becomes of a message that waits at an earlier time: if it ends it does so later. -/
theorem Waits.lapses (h : f.Waits now record) (hfresh : f.backoff.retransmissions = 0) {link : Link}
    (hnow : now ≤ link.now) :
    f.Lapses link.isOpen (now + 1) link.now
      (record.elapse link f.peer f.id (.endOf link.now)).1
      (record.elapse link f.peer f.id (.endOf link.now)).2 := by
  cases h with
  | timed stage le_last sent waits =>
    exact lapses_of_isAt hfresh link le_last (Nat.le_trans sent hnow) waits stage
  | stalled ticket_eq timer_eq unfit =>
    rw [Record.elapse_of_not_before]
    · exact .waits (.stalled ticket_eq timer_eq unfit) rfl
    · intro timer ht
      rw [timer_eq] at ht
      cases ht

/-- A message that was sent just now. -/
theorem lapses_start (hfresh : f.backoff.retransmissions = 0) {link : Link}
    (hstart : f.start = link.now) :
    f.Lapses link.isOpen f.start link.now
      ((Record.start f.ticket f.bytes f.backoff f.start).elapse link f.peer f.id
        (.endOf link.now)).1
      ((Record.start f.ticket f.bytes f.backoff f.start).elapse link f.peer f.id
        (.endOf link.now)).2 :=
  lapses_of_isAt hfresh link (Nat.zero_le _) (Nat.le_of_eq hstart)
    (f.time_mono (Nat.zero_le 1)) isAt_zero

end Flight

namespace Record

/-- Time ends a message once at most, and as one that failed; it is not closed as long as the way
    out is open. -/
theorem Elapses.resolutions {link : Link} {peer : Peer} {id : UInt16} {moment : Moment}
    {record : Record} {rest? : Option Record} {progress : Progress Peer}
    (h : Elapses link peer id moment record rest? progress) :
    progress.resolutions = [] ∨ ∃ time failure,
      progress.resolutions = [⟨time, record.ticket, .failed failure⟩] ∧
        (failure = .closed → ¬ link.isOpen) := by
  induction h with
  | waits => exact .inl rfl
  | givenUp => exact .inr ⟨_, _, rfl, fun h => by cases h⟩
  | stalled => exact .inl rfl
  | closed timer_eq due not_open => exact .inr ⟨_, _, rfl, fun _ => not_open⟩
  -- A copy ends nothing; what ends comes later.
  | sent timer_eq due next_eq is_open later ih => exact ih

end Record

namespace Transmission

variable [DecidableEq Peer] {t : Transmission Peer}

/-- No timer is due before a moment. -/
def Calm (t : Transmission Peer) (moment : Moment) : Prop :=
  ∀ {peer id record}, t.records.find? peer id = some record →
    ∀ timer ∈ record.timer?, ¬ timer.Before moment

/-- As long as no timer is due, nothing happens. -/
theorem elapse_of_calm {link : Link} {moment : Moment} (h : t.Calm moment) :
    (t.elapse link moment).2 = {} ∧ ∀ peer id,
      (t.elapse link moment).1.records.find? peer id = t.records.find? peer id := by
  have hrecord : ∀ {peer id record}, t.records.find? peer id = some record →
      record.elapse link peer id moment = (some record, {}) :=
    fun hr => Record.elapse_of_not_before (h hr)
  -- Whatever is sent or ended would come from a record whose timer is due.
  have hemissions : (t.elapse link moment).2.emissions = [] := by
    refine List.eq_nil_iff_forall_not_mem.2 fun e he => ?_
    obtain ⟨peer, id, record, hr, he⟩ := mem_elapse_emissions.1 he
    rw [hrecord hr] at he
    cases he
  have hresolutions : (t.elapse link moment).2.resolutions = [] := by
    refine List.eq_nil_iff_forall_not_mem.2 fun r hmem => ?_
    obtain ⟨peer, id, record, hr, hmem⟩ := mem_elapse_resolutions.1 hmem
    rw [hrecord hr] at hmem
    cases hmem
  constructor
  · generalize (t.elapse link moment).2 = progress at hemissions hresolutions
    obtain ⟨emissions, resolutions⟩ := progress
    exact congr (congrArg Progress.mk hemissions) hresolutions
  · intro peer id
    rw [find?_elapse]
    cases hr : t.records.find? peer id with
    | none => rfl
    | some record => rw [Option.bind_some, hrecord hr]

/-- Whatever ends in the course of time has failed; it is not closed as long as the way out is
    open. -/
theorem failed_of_mem_elapse {link : Link} {moment : Moment} {r : Resolution Peer}
    (hr : r ∈ (t.elapse link moment).2.resolutions) :
    ∃ failure, r.outcome = .failed failure ∧ (failure = .closed → ¬ link.isOpen) := by
  obtain ⟨peer, id, record, -, hr⟩ := mem_elapse_resolutions.1 hr
  rcases (record.elapses_elapse link peer id moment).resolutions with
    hnone | ⟨time, failure, hone, hclosed⟩
  · rw [hnone] at hr
    cases hr
  · rw [hone] at hr
    obtain rfl := List.mem_singleton.1 hr
    exact ⟨failure, rfl, hclosed⟩

/-- Time ends each message once at most. -/
theorem length_resolutions_elapse_le (ht : t.Ticketed) (link : Link) (moment : Moment)
    (ticket : Nat) : ((t.elapse link moment).2.of ticket).resolutions.length ≤ 1 := by
  -- Only the record with this ticket can end it, and if there is one then it does so once at most.
  by_cases hlive : t.Live ticket
  · obtain ⟨peer, id, record, hr, rfl⟩ := hlive
    rw [of_elapse ht hr]
    rcases (record.elapses_elapse link peer id moment).resolutions with
      hnone | ⟨time, failure, hone, -⟩
    · rw [hnone]
      exact Nat.zero_le _
    · rw [hone]
      exact Nat.le_refl _
  · have hnone := (Turn.of_elapse ht link moment).of_eq_empty fun hor =>
      hlive (hor.resolve_right List.not_mem_nil)
    rw [hnone]
    exact Nat.zero_le _

end Transmission

end Coap
