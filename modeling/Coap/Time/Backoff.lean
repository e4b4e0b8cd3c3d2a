import Coap.Time.Duration
import Coap.Time.Timing

/-!
# Back-off

The time between two transmissions of a message doubles with each of them. The first one is drawn
at random between the configured time and that time scaled by the random factor.

* `next?_eq_some_iff`: what a step of the schedule does.
-/

namespace Coap

/-- The retransmission schedule of one message. -/
structure Backoff where
  /-- The time until the next transmission. -/
  current : Duration
  /-- How often the message was sent again. -/
  retransmissions : Nat
  maxRetransmit : Nat

namespace Backoff

/-- Whether the first time-out is drawn at random. -/
def isRandom (timing : Timing) : Bool := timing.ackRandomFactor.exceedsOne

/-- The factor of the first time-out for a draw `u` between 0 and 1. There is none if a draw beyond
    that leads to a factor that is too large for a double, not even for a time-out of zero. -/
def factor? (timing : Timing) (u : Ratio) : Option Ratio :=
  if isRandom timing then do
    let excess ← timing.ackRandomFactor.excess.nearest?
    let share ← (u.mul excess).nearest?
    ((Ratio.ofNat 1).add share).nearest?
  else some (.ofNat 1)

/-- A schedule whose first time-out is settled by the draw `u`; there is none if that is negative
    or too long for a duration. -/
def start? (timing : Timing) (u : Ratio) : Option Backoff := do
  let current ← Duration.ofScaledMillis? timing.ackTimeout (← factor? timing u)
  return ⟨current, 0, timing.maxRetransmit⟩

/-- Whether the message was sent again as often as is allowed. -/
def exhausted (b : Backoff) : Bool := b.maxRetransmit ≤ b.retransmissions

/-- How often the message may still be sent again. -/
def left (b : Backoff) : Nat := b.maxRetransmit - b.retransmissions

/-- The schedule after one more transmission; there is none if the time-out becomes too long for a
    duration. -/
def next? (b : Backoff) : Option Backoff :=
  b.current.double?.map fun current =>
    { b with current, retransmissions := b.retransmissions + 1 }

/-- A schedule is exhausted just if the message may not be sent again any more. -/
theorem left_eq_zero_iff {b : Backoff} : b.left = 0 ↔ b.exhausted := by
  simp [left, exhausted, Nat.sub_eq_zero_iff_le]

/-- A step doubles the time-out and counts one transmission. -/
theorem next?_eq_some_iff {b b' : Backoff} :
    b.next? = some b' ↔
      b'.current.nanoseconds = 2 * b.current.nanoseconds ∧
      b'.retransmissions = b.retransmissions + 1 ∧ b'.maxRetransmit = b.maxRetransmit := by
  simp only [next?, Option.map_eq_some_iff, Duration.double?, Duration.ofNanoseconds?_eq_some_iff]
  constructor
  · rintro ⟨d, hd, rfl⟩
    exact ⟨hd, rfl, rfl⟩
  · obtain ⟨c, r, m⟩ := b'
    rintro ⟨hc, rfl, rfl⟩
    exact ⟨c, hc, rfl⟩

/-- After one more transmission the message may be sent again once less. -/
theorem left_of_next? {b b' : Backoff} (h : b.next? = some b') : b'.left = b.left - 1 := by
  obtain ⟨-, hcount, hmost⟩ := next?_eq_some_iff.1 h
  rw [left, left, hcount, hmost, Nat.sub_add_eq]

end Backoff

end Coap
