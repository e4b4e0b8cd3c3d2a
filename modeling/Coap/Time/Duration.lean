import Coap.Time.Ratio

/-!
# Durations

A duration is a whole number of nanoseconds; its whole seconds fit 64 bits. It is scaled by a
factor in double precision, as a number of seconds, and rounded to the nearest nanosecond.

* `nanoseconds_of_double?`: doubling is exact.
-/

namespace Coap

/-- The nanoseconds of a second. -/
def nanosPerSecond : Nat := 1000000000

theorem nanosPerSecond_pos : 0 < nanosPerSecond := Nat.succ_pos _

/-- A span of time. -/
structure Duration where
  nanoseconds : Nat
  lt_limit : nanoseconds < UInt64.size * nanosPerSecond

namespace Duration

/-- The duration of a number of nanoseconds, if it is not too long for one. -/
def ofNanoseconds? (n : Nat) : Option Duration :=
  if h : n < UInt64.size * nanosPerSecond then some ⟨n, h⟩ else none

/-- The duration of a number of seconds, rounded to a nanosecond. A negative number has none. -/
def ofSeconds? (seconds : Ratio) : Option Duration :=
  if seconds.isNegative then none
  else ofNanoseconds? (seconds.mul (.ofNat nanosPerSecond)).round

/-- A number of milliseconds as seconds in double precision: the whole seconds and the rest are
    converted on their own and then added. -/
def secondsOfMillis? (ms : Nat) : Option Ratio := do
  let whole ← (Ratio.ofNat (ms / 1000)).nearest?
  let rest ← Ratio.nearest? ⟨Int.ofNat (ms % 1000 * 1000000), nanosPerSecond, nanosPerSecond_pos⟩
  (whole.add rest).nearest?

/-- A number of milliseconds, scaled by a factor. -/
def ofScaledMillis? (ms : Nat) (factor : Ratio) : Option Duration := do
  let seconds ← secondsOfMillis? ms
  ofSeconds? (← (factor.mul seconds).nearest?)

/-- The duration twice as long, if it is not too long for one. -/
def double? (d : Duration) : Option Duration := ofNanoseconds? (2 * d.nanoseconds)

/-- The whole milliseconds that cover a duration. -/
def ceilMillis (d : Duration) : Nat := (d.nanoseconds + 999999) / 1000000

/-- Nanoseconds make the duration that has as many of them, if there is one. -/
theorem ofNanoseconds?_eq_some_iff {n : Nat} {d : Duration} :
    ofNanoseconds? n = some d ↔ d.nanoseconds = n := by
  rw [ofNanoseconds?]
  split
  · rename_i h
    constructor
    · intro hd
      cases hd
      rfl
    · rintro rfl
      rfl
  · rename_i h
    constructor
    · intro hd
      cases hd
    · rintro rfl
      exact absurd d.lt_limit h

/-- Doubling is exact. -/
theorem nanoseconds_of_double? {d d' : Duration} (h : d.double? = some d') :
    d'.nanoseconds = 2 * d.nanoseconds :=
  ofNanoseconds?_eq_some_iff.1 h

end Duration

end Coap
