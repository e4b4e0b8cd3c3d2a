/-!
# Timers

The clock counts milliseconds. Timers that are due at the same millisecond fire in the order in
which they were armed, so a point between two of them (a `Moment`) is a pair of times. No timer
waits longer than thirty years (`Timer.after`).
-/

namespace Coap

/-- An armed timer. -/
structure Timer where
  /-- When it was armed. -/
  armed : Nat
  /-- When it fires. -/
  due : Nat
  deriving DecidableEq, Repr

/-- The longest time that a timer waits: thirty years of 365 days. -/
def longestWait : Nat := 946080000000

/-- The timer that is armed at a time and fires after a delay, or after the longest wait if the
    delay is longer. -/
def Timer.after (time delay : Nat) : Timer := ⟨time, time + Nat.min delay longestWait⟩

/-- A point in the order in which timers fire. -/
structure Moment where
  time : Nat
  /-- Of the timers due at that time, those armed before this one have fired. -/
  armed : Nat
  deriving DecidableEq, Repr

/-- The moment at which every timer due by a given time has fired. -/
def Moment.endOf (time : Nat) : Moment := ⟨time + 1, 0⟩

/-- Whether a timer fires before a moment. -/
def Timer.Before (timer : Timer) (moment : Moment) : Prop :=
  timer.due < moment.time ∨ timer.due = moment.time ∧ timer.armed < moment.armed

instance (timer : Timer) (moment : Moment) : Decidable (timer.Before moment) :=
  inferInstanceAs (Decidable (_ ∨ _))

/-- At the end of a millisecond every timer has fired that is due by then. -/
theorem Timer.before_endOf {timer : Timer} {time : Nat} :
    timer.Before (.endOf time) ↔ timer.due ≤ time := by
  simp only [Before, Moment.endOf, Nat.not_lt_zero, and_false, or_false, Nat.lt_succ_iff]

end Coap
