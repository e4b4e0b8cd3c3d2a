import Coap.Bytes.Hex
import Coap.Text.Quoted

/-!
# Percent encoding

In the text of an option a byte may be written as `%` and its two hexadecimal digits. `decode`
takes the bytes of a text back: every `%` has to start such a triplet, and any other byte stands
for itself.

* `decode_triplet`, `decode_plain`: what the first byte of a text stands for.
-/

namespace Coap.Percent

/-- The byte of `%`. -/
def sign : UInt8 := 37

/-- The byte that two hexadecimal digits denote. -/
def pair? (high low : UInt8) : Option UInt8 := do
  let h ← Hex.digit? high
  let l ← Hex.digit? low
  return UInt8.ofNat (h * 16 + l)

/-- The bytes that a percent encoded text stands for; `none` if a `%` lacks its digits. -/
def decode : Bytes → Option Bytes
  | [] => some []
  | b :: rest =>
    if b = sign then
      match rest with
      | high :: low :: rest =>
        match pair? high low with
        | some byte => (decode rest).map (byte :: ·)
        | none => none
      | _ => none
    else (decode rest).map (b :: ·)

/-- The wording of the refusal of a text. -/
def message (text : String) : String := s!"invalid percent encoding in {Text.quoted text}"

/-- Nothing stands for nothing. -/
@[simp]
theorem decode_nil : decode [] = some [] := by simp [decode]

/-- After a percent sign come two digits, and there is no way to go on without them. -/
theorem decode_triplet (high low : UInt8) (rest : Bytes) :
    decode (sign :: high :: low :: rest) =
      (pair? high low).bind fun byte => (decode rest).map (byte :: ·) := by
  rw [decode, if_pos rfl]
  cases pair? high low <;> rfl

/-- Any other byte stands for itself. -/
theorem decode_plain {b : UInt8} (h : b ≠ sign) (rest : Bytes) :
    decode (b :: rest) = (decode rest).map (b :: ·) := by
  rw [decode.eq_def]
  simp [h]

end Coap.Percent
