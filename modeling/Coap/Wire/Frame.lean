import Coap.Options

/-!
# Option frames

Each option is written as a frame: a byte with the step from the number before (upper half) and
the length of the value (lower half), a second byte for lengths from 15 on, and the value. A step
of more than 15 is bridged by *fenceposts*, frames without a value whose number is a multiple
of 14; a receiver skips every frame with such a number.

* `take_append`: a frame is read back from its written form, whatever follows;
* `ofOptions`: the frames of some options, fenceposts included.
-/

namespace Coap.Wire

/-- The numbers of fenceposts are the multiples of this one. -/
def fencepost : Nat := 14

/-- Whether a receiver skips the frame with a given number. -/
def isFencepost (number : Nat) : Bool := number % fencepost == 0

/-- The largest half of a byte: the longest step, and the mark of a length that goes on. -/
def maxNibble : Nat := 15

/-- An option on the wire. -/
structure Frame where
  /-- The step from the number of the frame before. -/
  delta : Nat
  value : Bytes
  deriving DecidableEq

namespace Frame

/-- The written form of a frame. -/
def bytes (f : Frame) : Bytes :=
  if f.value.length < maxNibble then UInt8.ofNat (f.delta * 16 + f.value.length) :: f.value
  else
    UInt8.ofNat (f.delta * 16 + maxNibble) :: UInt8.ofNat (f.value.length - maxNibble) :: f.value

/-- Splits off a value of a given length. -/
def takeValue (number delta length : Nat) (rest : Bytes) : Except Fault (Frame × Bytes) :=
  if length ≤ rest.length then .ok (⟨delta, rest.take length⟩, rest.drop length)
  else .error (.valueMissing number length rest.length)

/-- The frame at the start of a byte string, and what follows it. The number of the frame before
    is there for the wording of faults. -/
def take (last : Nat) : Bytes → Except Fault (Frame × Bytes)
  | [] => .error .optionMissing
  | first :: rest =>
    let delta := first.toNat / 16
    let number := last + delta
    if first.toNat % 16 < maxNibble then takeValue number delta (first.toNat % 16) rest
    else
      match rest with
      | [] => .error (.lengthMissing number)
      | more :: rest => takeValue number delta (maxNibble + more.toNat) rest

/-- The frames that lead from the number `last` through the given options. -/
def ofOptions (last : Nat) : List Opt → List Frame
  | [] => []
  | o :: rest =>
    if maxNibble < o.number - last then
      let post := (last / fencepost + 1) * fencepost
      ⟨post - last, []⟩ :: ofOptions post (o :: rest)
    else ⟨o.number - last, o.encode⟩ :: ofOptions o.number rest
termination_by options => (options.length, (options.head?.map Opt.number).getD 0 - last)
decreasing_by
  · simp only [List.head?_cons, Option.map_some, Option.getD_some]
    apply Prod.Lex.right
    simp only [fencepost, maxNibble] at *
    omega
  · apply Prod.Lex.left
    simp

/-! ### Reading frames back -/

/-- A value is taken off the bytes if they begin with it. -/
theorem takeValue_append (number delta : Nat) (value rest : Bytes) :
    takeValue number delta value.length (value ++ rest) = .ok (⟨delta, value⟩, rest) := by
  simp [takeValue]

/-- A frame is read back from its written form, whatever follows. -/
theorem take_append {f : Frame} (hd : f.delta ≤ maxNibble)
    (hv : f.value.length ≤ Opt.Name.longest) (last : Nat) (rest : Bytes) :
    take last (f.bytes ++ rest) = .ok (f, rest) := by
  obtain ⟨delta, value⟩ := f
  simp only [maxNibble, Opt.Name.longest] at hd hv
  unfold bytes
  split
  · -- A short value: its length is in the lower half of the first byte.
    rename_i h
    simp only [maxNibble] at h
    have hb : (UInt8.ofNat (delta * 16 + value.length)).toNat = delta * 16 + value.length := by
      rw [UInt8.toNat_ofNat']
      omega
    have h₁ : (delta * 16 + value.length) % 16 = value.length := by omega
    have h₂ : (delta * 16 + value.length) / 16 = delta := by omega
    rw [List.cons_append, take.eq_def]
    simp only [hb, h₁, h₂, maxNibble, if_pos h, takeValue_append]
  · -- A longer value: what its length is over fifteen is in a byte of its own.
    rename_i h
    simp only [maxNibble] at h
    have hb : (UInt8.ofNat (delta * 16 + 15)).toNat = delta * 16 + 15 := by
      rw [UInt8.toNat_ofNat']
      omega
    have hm : 15 + (UInt8.ofNat (value.length - 15)).toNat = value.length := by
      rw [UInt8.toNat_ofNat']
      omega
    have h₁ : (delta * 16 + 15) % 16 = 15 := by omega
    have h₂ : (delta * 16 + 15) / 16 = delta := by omega
    rw [List.cons_append, List.cons_append, take.eq_def]
    simp only [maxNibble, hb, h₁, h₂, hm, Nat.lt_irrefl, if_false, takeValue_append]

end Frame

end Coap.Wire
