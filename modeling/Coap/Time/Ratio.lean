/-!
# Ratios in double precision

Time-outs are scaled in double precision: each step of the calculation is rounded to the nearest
number that has 53 binary digits. The numbers are kept as exact ratios here, and rounding is an
operation of its own (`nearest?`), so that nothing of a calculation is left to the machine. What is
too large for a double has no nearest one; numbers that are too small for one are not rounded any
further, as they only occur as terms of larger ones.

* `two_mul_le_roundDiv`: rounding lowers a quotient by half a unit at most.
-/

namespace Coap

/-- A quotient rounded to the nearest whole number, a half to the even neighbour. -/
def roundDiv (num den : Nat) : Nat :=
  let quotient := num / den
  let twice := 2 * (num % den)
  if twice < den then quotient
  else if den < twice then quotient + 1
  else quotient + quotient % 2

/-- Rounding lowers a quotient by half a unit at most. -/
theorem two_mul_le_roundDiv (num : Nat) {den : Nat} (h : 0 < den) :
    2 * num ≤ (2 * roundDiv num den + 1) * den := by
  have hdiv := Nat.div_add_mod num den
  have hmod := Nat.mod_lt num h
  have hcomm := Nat.mul_comm den (num / den)
  unfold roundDiv
  simp only
  split
  · rw [Nat.add_mul, Nat.mul_assoc]
    omega
  split
  · rw [Nat.add_mul, Nat.mul_assoc, Nat.add_mul]
    omega
  · rw [Nat.add_mul, Nat.mul_assoc, Nat.add_mul]
    omega

/-- A ratio of a whole number to a positive one. -/
structure Ratio where
  num : Int
  den : Nat
  den_pos : 0 < den
  deriving DecidableEq, Repr

namespace Ratio

/-- A whole number. -/
def ofNat (n : Nat) : Ratio := ⟨Int.ofNat n, 1, Nat.one_pos⟩

/-- Whether a ratio is less than zero. -/
def isNegative (x : Ratio) : Bool := x.num < 0

/-- Whether a ratio is greater than one. -/
def exceedsOne (x : Ratio) : Bool := Int.ofNat x.den < x.num

/-- The sum of two ratios. -/
def add (x y : Ratio) : Ratio :=
  ⟨x.num * Int.ofNat y.den + y.num * Int.ofNat x.den, x.den * y.den,
    Nat.mul_pos x.den_pos y.den_pos⟩

/-- The product of two ratios. -/
def mul (x y : Ratio) : Ratio := ⟨x.num * y.num, x.den * y.den, Nat.mul_pos x.den_pos y.den_pos⟩

/-- How far a ratio exceeds one. -/
def excess (x : Ratio) : Ratio := { x with num := x.num - Int.ofNat x.den }

/-- A magnitude with the sign of a ratio. -/
def withSignOf (x : Ratio) (magnitude : Nat) : Int :=
  if x.isNegative then -Int.ofNat magnitude else Int.ofNat magnitude

/-- A power of two is positive. -/
theorem shift_pos (k : Nat) : 0 < 1 <<< k := by
  rw [Nat.one_shiftLeft]
  exact Nat.two_pow_pos k

/-- The nearest ratio whose numerator has 53 binary digits, and of two the one that is even. The
    ratio is first scaled so that its whole part has `more` binary digits than that. -/
def nearest (x : Ratio) : Ratio :=
  let scale := 53 + x.den.log2
  let scaled := x.num.natAbs <<< scale
  let more := (scaled / x.den).log2 - 52
  ⟨x.withSignOf (roundDiv scaled (x.den <<< more) <<< more), 1 <<< scale, shift_pos scale⟩

/-- Whether the magnitude of a ratio has no more than the 1024 binary digits of the largest double
    in front of its point. -/
def isBounded (x : Ratio) : Bool := x.num.natAbs < x.den <<< 1024

/-- The nearest double, if the ratio is not too large for one. -/
def nearest? (x : Ratio) : Option Ratio := if x.nearest.isBounded then some x.nearest else none

/-- The whole number that is nearest to the magnitude of a ratio. -/
def round (x : Ratio) : Nat := roundDiv x.num.natAbs x.den

/-- The fraction of a double has 52 bits, below its exponent. -/
def fractionBound : Nat := 0x10000000000000

/-- The exponent of a double has 11 bits, below its sign; one that is all ones marks an infinity
    or a value that is no number. -/
def exponentBound : Nat := 2048

/-- The ratio that is exactly the double with the given bits; there is none if it is infinite or no
    number. -/
def ofBits? (bits : UInt64) : Option Ratio :=
  let fraction := bits.toNat % fractionBound
  let exponent := bits.toNat / fractionBound % exponentBound
  let hasSign := exponentBound ≤ bits.toNat / fractionBound
  if exponent + 1 = exponentBound then none
  else
    -- Subnormal doubles have the exponent of the smallest normal ones and no leading digit.
    let mantissa := if exponent = 0 then fraction else fractionBound + fraction
    let magnitude := Int.ofNat (mantissa <<< (exponent - 1))
    some ⟨if hasSign then -magnitude else magnitude, 1 <<< 1074, shift_pos 1074⟩

end Ratio

end Coap
