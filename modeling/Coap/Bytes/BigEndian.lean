/-!
# Numbers in network byte order

A number is written with its most significant byte first, in a given number of bytes
(`ofNat`) or in as few as it needs (`width`).

* `toNat_ofNat`: writing in `w` bytes keeps the number modulo `bound w`;
* `ofNat_toNat`: a byte string is the written form of the number it denotes;
* `lt_bound_width`: a number fits the width it needs.
-/

namespace Coap

/-- A byte string. -/
abbrev Bytes := List UInt8

namespace BigEndian

/-- How many numbers `width` bytes can denote: all those below this one. -/
def bound : (width : Nat) → Nat
  | 0 => 1
  | width + 1 => 256 * bound width

/-- The low `width` bytes of `n`, the most significant one first. -/
def ofNat : (width n : Nat) → Bytes
  | 0, _ => []
  | width + 1, n => UInt8.ofNat (n / bound width) :: ofNat width n

/-- The number that `bytes` denote, read after the digits `high`. -/
def toNatAfter (high : Nat) : (bytes : Bytes) → Nat
  | [] => high
  | b :: bytes => toNatAfter (high * 256 + b.toNat) bytes

/-- The number that a byte string denotes. -/
def toNat (bytes : Bytes) : Nat := toNatAfter 0 bytes

/-- The fewest bytes that hold `n`: none for `0`. -/
def width (n : Nat) : Nat :=
  if h : n = 0 then 0 else width (n / 256) + 1
termination_by n
decreasing_by exact Nat.div_lt_self (Nat.pos_of_ne_zero h) (by decide)

/-- A number is written in as many bytes as are asked for. -/
@[simp]
theorem length_ofNat (w n : Nat) : (ofNat w n).length = w := by
  induction w with
  | zero => rfl
  | succ w ih => simp [ofNat, ih]

theorem bound_pos (w : Nat) : 0 < bound w := by
  induction w with
  | zero => exact Nat.one_pos
  | succ w ih => exact Nat.mul_pos (by decide) ih

/-- The bytes read so far count as the high part of the number. -/
theorem toNatAfter_eq (high : Nat) (bytes : Bytes) :
    toNatAfter high bytes = high * bound bytes.length + toNat bytes := by
  induction bytes generalizing high with
  | nil => simp [toNatAfter, toNat, bound]
  | cons b bytes ih =>
    simp only [toNat, toNatAfter, List.length_cons, bound]
    rw [ih, ih (0 * 256 + b.toNat), Nat.zero_mul, Nat.zero_add, Nat.add_mul, Nat.mul_assoc,
      Nat.add_assoc]

/-- The first byte is the most significant one. -/
theorem toNat_cons (b : UInt8) (bytes : Bytes) :
    toNat (b :: bytes) = b.toNat * bound bytes.length + toNat bytes := by
  rw [toNat, toNatAfter, toNatAfter_eq, Nat.zero_mul, Nat.zero_add]

/-- Some bytes stand for a number below the bound of their length. -/
theorem toNat_lt (bytes : Bytes) : toNat bytes < bound bytes.length := by
  induction bytes with
  | nil => simp [toNat, toNatAfter, bound]
  | cons b bytes ih =>
    have hb : b.toNat + 1 ≤ 256 := b.toNat_lt
    calc toNat (b :: bytes)
        = b.toNat * bound bytes.length + toNat bytes := toNat_cons b bytes
      _ < b.toNat * bound bytes.length + bound bytes.length := Nat.add_lt_add_left ih _
      _ = (b.toNat + 1) * bound bytes.length := (Nat.succ_mul _ _).symm
      _ ≤ 256 * bound bytes.length := Nat.mul_le_mul_right _ hb

/-- A number that is too large for the bytes is read back without its high part. -/
theorem toNat_ofNat (w n : Nat) : toNat (ofNat w n) = n % bound w := by
  induction w with
  | zero => simp [ofNat, toNat, toNatAfter, bound, Nat.mod_one]
  | succ w ih =>
    have hmod : n % (bound w * 256) = n % bound w + bound w * (n / bound w % 256) := Nat.mod_mul
    rw [ofNat, toNat_cons, length_ofNat, ih, UInt8.toNat_ofNat', bound, Nat.mul_comm 256, hmod,
      Nat.add_comm, Nat.mul_comm]

/-- Bytes are what is written for the number they stand for, whatever was read before them. -/
theorem ofNat_toNatAfter (high : Nat) (bytes : Bytes) :
    ofNat bytes.length (toNatAfter high bytes) = bytes := by
  induction bytes generalizing high with
  | nil => rfl
  | cons b bytes ih =>
    have hb : b.toNat < 256 := b.toNat_lt
    rw [toNatAfter, List.length_cons, ofNat, ih]
    congr 1
    rw [toNatAfter_eq, Nat.mul_comm, Nat.mul_add_div (bound_pos _),
      Nat.div_eq_of_lt (toNat_lt bytes)]
    apply UInt8.toNat_inj.1
    rw [UInt8.toNat_ofNat']
    omega

/-- A byte string is the written form, in its own length, of the number it denotes. -/
theorem ofNat_toNat (bytes : Bytes) : ofNat bytes.length (toNat bytes) = bytes :=
  ofNat_toNatAfter 0 bytes

/-- A number fits the width it needs. -/
theorem lt_bound_width (n : Nat) : n < bound (width n) := by
  induction n using width.induct with
  | case1 => exact bound_pos _
  | case2 n h ih =>
    rw [width, dif_neg h, bound]
    omega

/-- A number that fits `w` bytes needs no more than these. -/
theorem width_le {w n : Nat} (h : n < bound w) : width n ≤ w := by
  induction w generalizing n with
  | zero =>
    have hn : n = 0 := by simpa [bound] using h
    have hw : width n = 0 := by rw [width, dif_pos hn]
    exact Nat.le_of_eq hw
  | succ w ih =>
    rw [width]
    split
    · exact Nat.zero_le _
    · have : n / 256 < bound w := by
        rw [bound] at h
        omega
      exact Nat.succ_le_succ (ih this)

/-- More bytes hold larger numbers. -/
theorem bound_mono {v w : Nat} (h : v ≤ w) : bound v ≤ bound w := by
  induction h with
  | refl => exact Nat.le_refl _
  | step _ ih => exact Nat.le_trans ih (Nat.le_mul_of_pos_left _ (by decide))

/-- The numbers that fit `w` bytes are those that need no more. -/
theorem width_le_iff {w n : Nat} : width n ≤ w ↔ n < bound w :=
  ⟨fun h => Nat.lt_of_lt_of_le (lt_bound_width n) (bound_mono h), width_le⟩

end BigEndian

end Coap
