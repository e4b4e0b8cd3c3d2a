import Coap.Proofs.Time.Schedule
import Mathlib.Algebra.Order.Ring.Nat
import Mathlib.Tactic.Ring

/-!
# First time-outs

Every step of the calculation of a first time-out is rounded, and none of them loses more than half
of what it rounds (`Ratio.AtLeast.nearest`). A time-out is given in whole milliseconds, a million
times what a duration can tell apart, so one that is not zero does not become zero on the way.

* `Ratio.AtLeast.nearest`: rounding to a double loses half of a ratio at most;
* `Backoff.nanoseconds_pos_of_start?`: a first time-out takes its time, if it was not set to zero
  and no draw is negative.
-/

namespace Coap

/-- A quotient that is not less than one loses half of it at most when it is rounded. -/
theorem le_two_mul_roundDiv {num den : Nat} (hden : 0 < den) (h : den ≤ num) :
    num ≤ 2 * (roundDiv num den * den) := by
  have htwice := two_mul_le_roundDiv num hden
  have hexpand : (2 * roundDiv num den + 1) * den = 2 * (roundDiv num den * den) + den := by ring
  omega

namespace Ratio

/-- A ratio is not less than `a / b`. -/
structure AtLeast (x : Ratio) (a b : Nat) : Prop where
  nonneg : 0 ≤ x.num
  le : a * x.den ≤ b * x.num.natAbs

variable {x y : Ratio} {a b c d : Nat}

theorem isNegative_eq_false_iff : x.isNegative = false ↔ 0 ≤ x.num := by
  rw [isNegative, decide_eq_false_iff_not, not_lt]

/-- A ratio that is not negative is not less than zero. -/
theorem atLeast_zero (h : 0 ≤ x.num) : x.AtLeast 0 1 :=
  ⟨h, (Nat.zero_mul _).le.trans (Nat.zero_le _)⟩

theorem atLeast_ofNat (n : Nat) : (ofNat n).AtLeast n 1 :=
  ⟨Int.natCast_nonneg n, ((Nat.mul_one n).trans (Nat.one_mul n).symm).le⟩

theorem AtLeast.mul (hx : x.AtLeast a b) (hy : y.AtLeast c d) :
    (x.mul y).AtLeast (a * c) (b * d) where
  nonneg := Int.mul_nonneg hx.nonneg hy.nonneg
  le := by
    have h := Nat.mul_le_mul hx.le hy.le
    have hnum : (x.mul y).num.natAbs = x.num.natAbs * y.num.natAbs := Int.natAbs_mul _ _
    have hden : (x.mul y).den = x.den * y.den := rfl
    rw [hnum, hden]
    calc a * c * (x.den * y.den) = a * x.den * (c * y.den) := by ring
      _ ≤ b * x.num.natAbs * (d * y.num.natAbs) := h
      _ = b * d * (x.num.natAbs * y.num.natAbs) := by ring

/-- A sum is not less than either of its terms, as far as the other one is not negative. -/
theorem AtLeast.add_right (hx : x.AtLeast a b) (hy : 0 ≤ y.num) : (x.add y).AtLeast a b where
  nonneg := Int.add_nonneg (Int.mul_nonneg hx.nonneg (Int.natCast_nonneg _))
    (Int.mul_nonneg hy (Int.natCast_nonneg _))
  -- Over a common denominator the sum has both terms, and the one that is known is large enough.
  le := by
    have hnum : (x.add y).num.natAbs = x.num.natAbs * y.den + y.num.natAbs * x.den := by
      refine (Int.natAbs_add_of_nonneg (Int.mul_nonneg hx.nonneg (Int.natCast_nonneg _))
        (Int.mul_nonneg hy (Int.natCast_nonneg _))).trans ?_
      rw [Int.natAbs_mul, Int.natAbs_mul]
      rfl
    have hden : (x.add y).den = x.den * y.den := rfl
    have h := Nat.mul_le_mul_right y.den hx.le
    rw [hnum, hden]
    calc a * (x.den * y.den) = a * x.den * y.den := by ring
      _ ≤ b * x.num.natAbs * y.den := h
      _ ≤ b * (x.num.natAbs * y.den + y.num.natAbs * x.den) := by
        rw [Nat.mul_add, ← Nat.mul_assoc]
        exact Nat.le_add_right _ _

theorem add_comm (x y : Ratio) : x.add y = y.add x := by
  rw [add, add, mk.injEq]
  exact ⟨Int.add_comm _ _, Nat.mul_comm _ _⟩

/-- What is scaled for rounding has more digits than are cut off. -/
theorem shift_le_scaled (h : x.num ≠ 0) :
    let scaled := x.num.natAbs <<< (53 + x.den.log2)
    x.den <<< ((scaled / x.den).log2 - 52) ≤ scaled := by
  intro scaled
  -- The scaled numerator is not less than the denominator, so there is a quotient to cut off digits
  -- from.
  have hscaled : x.den ≤ scaled := by
    calc x.den ≤ 2 ^ (53 + x.den.log2) :=
          Nat.lt_log2_self.le.trans (Nat.pow_le_pow_right Nat.two_pos (by omega))
      _ ≤ x.num.natAbs * 2 ^ (53 + x.den.log2) :=
          Nat.le_mul_of_pos_left _ (Int.natAbs_pos.2 h)
      _ = scaled := (Nat.shiftLeft_eq _ _).symm
  have hquotient : scaled / x.den ≠ 0 := Nat.ne_of_gt (Nat.div_pos hscaled x.den_pos)
  rw [Nat.shiftLeft_eq]
  calc x.den * 2 ^ ((scaled / x.den).log2 - 52)
      ≤ x.den * 2 ^ (scaled / x.den).log2 :=
        Nat.mul_le_mul_left _ (Nat.pow_le_pow_right Nat.two_pos (Nat.sub_le _ _))
    _ ≤ x.den * (scaled / x.den) := Nat.mul_le_mul_left _ (Nat.log2_self_le hquotient)
    _ ≤ scaled := Nat.mul_div_le scaled x.den

/-- Rounding to a double loses half of a ratio at most. -/
theorem AtLeast.nearest (h : x.AtLeast a b) : x.nearest.AtLeast a (2 * b) := by
  have hsign : x.isNegative = false := isNegative_eq_false_iff.2 h.nonneg
  let scale := 53 + x.den.log2
  let scaled := x.num.natAbs <<< scale
  let more := (scaled / x.den).log2 - 52
  let rounded := roundDiv scaled (x.den <<< more)
  have hnearest : x.nearest = ⟨Int.ofNat (rounded <<< more), 1 <<< scale, shift_pos scale⟩ := by
    simp only [Ratio.nearest, withSignOf, hsign, Bool.false_eq_true, if_false]
    rfl
  have hscaled : scaled = x.num.natAbs * 2 ^ scale := Nat.shiftLeft_eq _ _
  have hround : scaled ≤ 2 * (rounded * (x.den <<< more)) := by
    by_cases hnum : x.num = 0
    · rw [hscaled, hnum, Int.natAbs_zero, Nat.zero_mul]
      exact Nat.zero_le _
    · refine le_two_mul_roundDiv ?_ (shift_le_scaled hnum)
      rw [Nat.shiftLeft_eq]
      exact Nat.mul_pos x.den_pos (Nat.two_pow_pos more)
  constructor
  · rw [hnearest]
    exact Int.natCast_nonneg _
  · -- Both sides are multiplied by the denominator, as the bound on the ratio is about it.
    have hnum : x.nearest.num.natAbs = rounded * 2 ^ more := by
      rw [hnearest]
      exact Nat.shiftLeft_eq _ _
    have hden : x.nearest.den = 2 ^ scale := by
      rw [hnearest]
      exact Nat.one_shiftLeft _
    rw [hnum, hden]
    refine Nat.le_of_mul_le_mul_right ?_ x.den_pos
    calc a * 2 ^ scale * x.den = a * x.den * 2 ^ scale := by ring
      _ ≤ b * x.num.natAbs * 2 ^ scale := Nat.mul_le_mul_right _ h.le
      _ = b * scaled := by rw [hscaled]; ring
      _ ≤ b * (2 * (rounded * (x.den <<< more))) := Nat.mul_le_mul_left b hround
      _ = 2 * b * (rounded * 2 ^ more) * x.den := by rw [Nat.shiftLeft_eq]; ring

theorem AtLeast.nearest? (h : x.AtLeast a b) (hy : x.nearest? = some y) : y.AtLeast a (2 * b) := by
  rw [Ratio.nearest?] at hy
  split at hy
  · obtain rfl := Option.some.inj hy
    exact h.nearest
  · cases hy

/-- A ratio that is not less than one is not rounded to zero. -/
theorem AtLeast.round_pos (h : x.AtLeast a b) (hab : b ≤ a) (hb : 0 < b) : 0 < x.round := by
  have hone : x.den ≤ x.num.natAbs := by
    refine Nat.le_of_mul_le_mul_left ?_ hb
    exact (Nat.mul_le_mul_right _ hab).trans h.le
  have htwice := two_mul_le_roundDiv x.num.natAbs x.den_pos
  have hpos := x.den_pos
  rw [round]
  by_contra hzero
  rw [Nat.eq_zero_of_not_pos hzero] at htwice
  omega

end Ratio

namespace Duration

/-- A millisecond at least stays a quarter of one. -/
theorem atLeast_of_secondsOfMillis? {ms : Nat} (h : 0 < ms) {seconds : Ratio}
    (hs : secondsOfMillis? ms = some seconds) : seconds.AtLeast 1 4000 := by
  rw [secondsOfMillis?, Option.bind_eq_bind, Option.bind_eq_some_iff] at hs
  obtain ⟨whole, hwhole, hs⟩ := hs
  rw [Option.bind_eq_some_iff] at hs
  obtain ⟨rest, hrest, hs⟩ := hs
  have hwhole' := (Ratio.atLeast_ofNat (ms / 1000)).nearest? hwhole
  have hrest' : rest.AtLeast (ms % 1000) 2000 := by
    refine Ratio.AtLeast.nearest? (b := 1000) ⟨Int.natCast_nonneg _, ?_⟩ hrest
    change ms % 1000 * 1000000000 ≤ 1000 * (ms % 1000 * 1000000)
    omega
  have hsum : (whole.add rest).AtLeast 1 2000 := by
    -- One of the two terms is large enough: the whole seconds, or the rest of a second.
    rcases Nat.eq_zero_or_pos (ms % 1000) with hnone | hsome
    · have hthousand : 1 ≤ ms / 1000 := by omega
      refine Ratio.AtLeast.add_right ⟨hwhole'.nonneg, ?_⟩ hrest'.nonneg
      have hle := (Nat.mul_le_mul_right whole.den hthousand).trans hwhole'.le
      omega
    · rw [Ratio.add_comm]
      refine Ratio.AtLeast.add_right ⟨hrest'.nonneg, ?_⟩ hwhole'.nonneg
      exact (Nat.mul_le_mul_right rest.den hsome).trans hrest'.le
  exact hsum.nearest? hs

end Duration

namespace Backoff

/-- The factor of a first time-out does not make it shorter than half of it. -/
theorem atLeast_of_factor? {timing : Timing} {u factor : Ratio} (hu : u.isNegative = false)
    (h : factor? timing u = some factor) : factor.AtLeast 1 2 := by
  rw [factor?] at h
  -- The factor is one, or one and a share of the excess, which is not negative.
  split at h
  · rename_i hrandom
    rw [Option.bind_eq_bind, Option.bind_eq_some_iff] at h
    obtain ⟨excess, hexcess, h⟩ := h
    rw [Option.bind_eq_some_iff] at h
    obtain ⟨share, hshare, h⟩ := h
    have hgt : Int.ofNat timing.ackRandomFactor.den < timing.ackRandomFactor.num :=
      of_decide_eq_true hrandom
    have hexcess' := (Ratio.atLeast_zero (x := timing.ackRandomFactor.excess)
      (Int.sub_nonneg.2 (Int.le_of_lt hgt))).nearest? hexcess
    have hshare' := ((Ratio.atLeast_zero (Ratio.isNegative_eq_false_iff.1 hu)).mul
      hexcess').nearest? hshare
    exact ((Ratio.atLeast_ofNat 1).add_right hshare'.nonneg).nearest? h
  · obtain rfl := Option.some.inj h
    exact ⟨Int.natCast_nonneg 1, by decide⟩

/-- A first time-out takes its time, if it was not set to zero and the draw is not negative. -/
theorem nanoseconds_pos_of_start? {timing : Timing} {u : Ratio} {b : Backoff}
    (htimeout : 0 < timing.ackTimeout) (hu : u.isNegative = false)
    (h : start? timing u = some b) : 0 < b.current.nanoseconds := by
  rw [start?, Option.bind_eq_bind, Option.bind_eq_some_iff] at h
  obtain ⟨factor, hfactor, h⟩ := h
  rw [Option.bind_eq_bind, Option.bind_eq_some_iff] at h
  obtain ⟨current, hcurrent, h⟩ := h
  obtain rfl := Option.some.inj h
  rw [Duration.ofScaledMillis?, Option.bind_eq_bind, Option.bind_eq_some_iff] at hcurrent
  obtain ⟨seconds, hseconds, hcurrent⟩ := hcurrent
  rw [Option.bind_eq_some_iff] at hcurrent
  obtain ⟨scaled, hscaled, hcurrent⟩ := hcurrent
  -- Each rounding may halve the bound once more, and that is still enough.
  have hscaled' : scaled.AtLeast 1 16000 :=
    ((atLeast_of_factor? hu hfactor).mul
      (Duration.atLeast_of_secondsOfMillis? htimeout hseconds)).nearest? hscaled
  rw [Duration.ofSeconds?] at hcurrent
  split at hcurrent
  · cases hcurrent
  · rw [Duration.ofNanoseconds?_eq_some_iff.1 hcurrent]
    exact (hscaled'.mul (Ratio.atLeast_ofNat nanosPerSecond)).round_pos (by decide) (by decide)

end Backoff

end Coap
