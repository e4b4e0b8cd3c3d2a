import Coap.Bytes.BigEndian

/-!
# Hexadecimal digits

Bytes are shown as two lower-case digits each (`ofBytes`), and a digit of either case is read
(`digit?`).
-/

namespace Coap.Hex

/-- The value of a hexadecimal digit of either case, given as an ASCII byte. -/
def digit? (b : UInt8) : Option Nat :=
  let n := b.toNat
  if 48 ≤ n ∧ n ≤ 57 then some (n - 48)
  else if 65 ≤ n ∧ n ≤ 70 then some (n - 55)
  else if 97 ≤ n ∧ n ≤ 102 then some (n - 87)
  else none

/-- The two lower-case digits of a byte. -/
def ofByte (b : UInt8) : List Char :=
  [Nat.digitChar (b.toNat / 16), Nat.digitChar (b.toNat % 16)]

/-- A byte string in lower-case digits. -/
def ofBytes (bytes : Bytes) : String :=
  String.ofList (bytes.flatMap ofByte)

/-- The bytes that pairs of digits denote. -/
def toBytes? : List UInt8 → Option Bytes
  | [] => some []
  | [_] => none
  | h :: l :: rest => do
    let high ← digit? h
    let low ← digit? l
    let bytes ← toBytes? rest
    return UInt8.ofNat (high * 16 + low) :: bytes

end Coap.Hex
