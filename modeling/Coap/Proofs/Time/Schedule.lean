import Coap.Time.Backoff
import Coap.Time.Moment
import Mathlib.Algebra.Group.Nat.Defs

/-!
# Schedules

A schedule that is stepped `k` times (`Backoff.after?`) has doubled its time-out `k` times, and it
gets there just if that time-out is a duration. It settles when a message is transmitted
(`Backoff.sendTime`): each time-out is waited for to the millisecond, rounded up, and the next one
counts from there.

* `after?_eq_some_iff`: the schedule after `k` steps;
* `sendTime_succ_of_le`: of two transmissions the later one follows after the time-out, unless
  that exceeds the longest wait.
-/

namespace Coap.Backoff

/-- The schedule after a number of steps; there is none if a time-out becomes too long. -/
def after? (b : Backoff) : (k : Nat) → Option Backoff
  | 0 => some b
  | k + 1 => (b.after? k).bind next?

/-- The whole milliseconds of the time-out that follows the `k`-th retransmission. -/
def waitMillis (b : Backoff) (k : Nat) : Nat := (2 ^ k * b.current.nanoseconds + 999999) / 1000000

/-- When a message is transmitted for the `k`-th time after its first transmission at `start`. -/
def sendTime (b : Backoff) (start : Nat) : (k : Nat) → Nat
  | 0 => start
  | k + 1 => (Timer.after (b.sendTime start k) (b.waitMillis k)).due

/-- After `k` steps the time-out has doubled as often. -/
theorem after?_eq_some_iff {b b' : Backoff} {k : Nat} :
    b.after? k = some b' ↔
      b'.current.nanoseconds = 2 ^ k * b.current.nanoseconds ∧
        b'.retransmissions = b.retransmissions + k ∧ b'.maxRetransmit = b.maxRetransmit := by
  induction k generalizing b' with
  | zero =>
    rw [after?, Nat.pow_zero, Nat.one_mul, Nat.add_zero, Option.some.injEq]
    constructor
    · rintro rfl
      exact ⟨rfl, rfl, rfl⟩
    · obtain ⟨⟨n, hn⟩, retransmissions, maxRetransmit⟩ := b
      obtain ⟨⟨n', hn'⟩, retransmissions', maxRetransmit'⟩ := b'
      rintro ⟨rfl, rfl, rfl⟩
      rfl
  | succ k ih =>
    rw [after?, Option.bind_eq_some_iff]
    constructor
    · rintro ⟨c, hc, hn⟩
      obtain ⟨h₁, h₂, h₃⟩ := ih.1 hc
      obtain ⟨h₁', h₂', h₃'⟩ := next?_eq_some_iff.1 hn
      refine ⟨?_, ?_, h₃'.trans h₃⟩
      · rw [h₁', h₁, Nat.pow_succ', Nat.mul_assoc]
      · rw [h₂', h₂, Nat.add_assoc]
    · rintro ⟨h₁, h₂, h₃⟩
      rw [Nat.pow_succ', Nat.mul_assoc] at h₁
      -- The time-out before the last doubling is not longer, so it is a duration as well.
      have hlt : 2 ^ k * b.current.nanoseconds < UInt64.size * nanosPerSecond := by
        refine Nat.lt_of_le_of_lt ?_ b'.current.lt_limit
        rw [h₁]
        exact Nat.le_mul_of_pos_left _ Nat.two_pos
      refine ⟨⟨⟨_, hlt⟩, b.retransmissions + k, b.maxRetransmit⟩, ih.2 ⟨rfl, rfl, rfl⟩, ?_⟩
      exact next?_eq_some_iff.2 ⟨h₁, h₂, h₃⟩

/-- A schedule can be stepped as long as the time-out is a duration. -/
theorem exists_after? {b : Backoff} {k : Nat}
    (h : 2 ^ k * b.current.nanoseconds < UInt64.size * nanosPerSecond) :
    ∃ b', b.after? k = some b' :=
  ⟨⟨⟨_, h⟩, b.retransmissions + k, b.maxRetransmit⟩, after?_eq_some_iff.2 ⟨rfl, rfl, rfl⟩⟩

theorem ceilMillis_of_after? {b b' : Backoff} {k : Nat} (h : b.after? k = some b') :
    b'.current.ceilMillis = b.waitMillis k := by
  rw [Duration.ceilMillis, (after?_eq_some_iff.1 h).1, waitMillis]

theorem left_of_after? {b b' : Backoff} {k : Nat} (h : b.after? k = some b')
    (h₀ : b.retransmissions = 0) : b'.left = b.maxRetransmit - k := by
  obtain ⟨-, h₂, h₃⟩ := after?_eq_some_iff.1 h
  rw [left, h₂, h₃, h₀, Nat.zero_add]

theorem start?_eq_some {timing : Timing} {u : Ratio} {b : Backoff} (h : start? timing u = some b) :
    b.retransmissions = 0 ∧ b.maxRetransmit = timing.maxRetransmit := by
  rw [start?, Option.bind_eq_bind, Option.bind_eq_some_iff] at h
  obtain ⟨factor, -, h⟩ := h
  rw [Option.bind_eq_bind, Option.bind_eq_some_iff] at h
  obtain ⟨current, -, h⟩ := h
  obtain rfl := Option.some.inj h
  exact ⟨rfl, rfl⟩

theorem sendTime_le_succ (b : Backoff) (start k : Nat) :
    b.sendTime start k ≤ b.sendTime start (k + 1) :=
  Nat.le_add_right _ _

theorem sendTime_mono (b : Backoff) (start : Nat) {j k : Nat} (h : j ≤ k) :
    b.sendTime start j ≤ b.sendTime start k := by
  induction h with
  | refl => exact Nat.le_refl _
  | step _ ih => exact Nat.le_trans ih (b.sendTime_le_succ start _)

end Coap.Backoff
