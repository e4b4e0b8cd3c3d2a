import Coap.Bytes.BigEndian

/-!
# Bytes shown as text

Bytes that come from elsewhere are shown as UTF-8 as far as they are: whatever is not the form of
a character is replaced by the replacement character, one for each longest part that some form of
a character begins with.
-/

namespace Coap.Text

/-- What a first byte announces. -/
structure Lead where
  /-- The bits of the number that it holds. -/
  bits : Nat
  /-- How many bytes follow. -/
  count : Nat
  /-- The bounds of the second byte. -/
  low : UInt8 := 0x80
  high : UInt8 := 0xbf

/-- The announcement of a first byte, if it can be one. -/
def lead? (b : UInt8) : Option Lead :=
  let n := b.toNat
  if n < 0x80 then some { bits := n, count := 0 }
  else if n < 0xc2 then none
  else if n < 0xe0 then some { bits := n - 0xc0, count := 1 }
  else if n = 0xe0 then some { bits := 0, count := 2, low := 0xa0 }
  else if n = 0xed then some { bits := 0xd, count := 2, high := 0x9f }
  else if n < 0xf0 then some { bits := n - 0xe0, count := 2 }
  else if n = 0xf0 then some { bits := 0, count := 3, low := 0x90 }
  else if n < 0xf4 then some { bits := n - 0xf0, count := 3 }
  else if n = 0xf4 then some { bits := 4, count := 3, high := 0x8f }
  else none

/-- The bytes at the front that can follow a first byte: those within the bounds of the second
    byte, and then those within the general bounds. -/
def followers (low high : UInt8) : (count : Nat) → Bytes → Bytes
  | 0, _ | _, [] => []
  | count + 1, b :: rest =>
    if low ≤ b ∧ b ≤ high then b :: followers 0x80 0xbf count rest else []

/-- The character that begins with a byte, and how many of the bytes behind it belong to it. -/
def lossyChar (b : UInt8) (rest : Bytes) : Char × Nat :=
  match lead? b with
  | none => ('\ufffd', 0)
  | some lead =>
    let tail := followers lead.low lead.high lead.count rest
    if tail.length = lead.count then
      (Char.ofNat (tail.foldl (fun n b => n * 64 + b.toNat % 64) lead.bits), lead.count)
    else ('\ufffd', tail.length)

/-- The characters that bytes are shown as. -/
def lossyChars : Bytes → List Char
  | [] => []
  | b :: rest =>
    let (c, count) := lossyChar b rest
    c :: lossyChars (rest.drop count)
termination_by bytes => bytes.length
decreasing_by
  simp only [List.length_drop, List.length_cons]
  omega

/-- The text that bytes are shown as. -/
def lossy (bytes : Bytes) : String := String.ofList (lossyChars bytes)

end Coap.Text
