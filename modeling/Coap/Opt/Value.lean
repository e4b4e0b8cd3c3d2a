import Coap.Bytes.Hex
import Coap.Fault
import Coap.Text.Utf8

/-!
# Option values

A value has one of the four formats. A number keeps the count of bytes it was written in, so that
a value read from the wire is written back as it came.

* `length_encode`: the length of a value is that of its written form;
* `decode_encode`: a sound value is read back from its written form.
-/

namespace Coap.Opt

/-- The value of an option. -/
inductive Value where
  | empty
  | octets (bytes : Bytes)
  /-- A number, written in `width` bytes. -/
  | uint (number width : Nat)
  | text (s : String)
  deriving DecidableEq

namespace Value

/-- The format that a value has. -/
def format : Value → Format
  | empty => .empty
  | octets _ => .octets
  | uint _ _ => .uint
  | text _ => .text

/-- The written form of a value; of a number, as many of its low bytes as its width says. -/
def encode : Value → Bytes
  | empty => []
  | octets bytes => bytes
  | uint number width => BigEndian.ofNat width number
  | text s => Text.bytes s

/-- The bytes that the written form of a value has. -/
def length : Value → Nat
  | empty => 0
  | octets bytes => bytes.length
  | uint _ width => width
  | text s => (Text.bytes s).length

/-- The most bytes of a number that is read. -/
def widest : Nat := 8

/-- The value of a given format that some bytes are the written form of. Too many bytes are no
    number, and bytes that are not UTF-8 are no text. (The registry gives the empty format to no
    value with a byte, and that of a number to none that is too wide.) -/
def decode : Format → Bytes → Except OptFault Value
  | .empty, _ => .ok empty
  | .octets, bytes => .ok (octets bytes)
  | .uint, bytes =>
    if widest < bytes.length then .error (.tooWide bytes.length)
    else .ok (uint (BigEndian.toNat bytes) bytes.length)
  | .text, bytes =>
    match Text.ofBytes? bytes with
    | some s => .ok (text s)
    | none => .error .notText

/-- Whether the width of a number holds it. -/
def IsSound : Value → Prop
  | uint number width => number < BigEndian.bound width
  | _ => True

instance (value : Value) : Decidable value.IsSound := by
  cases value <;> unfold IsSound <;> infer_instance

/-- The length of a value is that of its written form. -/
@[simp]
theorem length_encode (value : Value) : value.encode.length = value.length := by
  cases value <;> simp [encode, length]

/-! ### Reading values -/

/-- What is read as a number. -/
theorem decode_uint_eq_ok_iff {bytes : Bytes} {value : Value} :
    decode .uint bytes = .ok value ↔
      bytes.length ≤ widest ∧ value = uint (BigEndian.toNat bytes) bytes.length := by
  rw [decode]
  split
  · rename_i h
    exact iff_of_false (fun he => by cases he) fun he => absurd he.1 (Nat.not_le.2 h)
  · rename_i h
    rw [Except.ok.injEq, eq_comm]
    exact (and_iff_right (Nat.not_lt.1 h)).symm

/-- What is read as a text. -/
theorem decode_text_eq_ok_iff {bytes : Bytes} {value : Value} :
    decode .text bytes = .ok value ↔ ∃ s, Text.bytes s = bytes ∧ value = text s := by
  rw [decode]
  constructor
  · intro h
    cases hs : Text.ofBytes? bytes with
    | none =>
      rw [hs] at h
      cases h
    | some s =>
      rw [hs] at h
      cases h
      exact ⟨s, Text.ofBytes?_eq_some_iff.1 hs, rfl⟩
  · rintro ⟨s, rfl, rfl⟩
    rw [Text.ofBytes?_bytes]

/-- A value is read as one of the format that is asked for. -/
theorem format_of_decode {format : Format} {bytes : Bytes} {value : Value}
    (h : decode format bytes = .ok value) : value.format = format := by
  cases format with
  | uint =>
    obtain ⟨-, rfl⟩ := decode_uint_eq_ok_iff.1 h
    rfl
  | text =>
    obtain ⟨s, -, rfl⟩ := decode_text_eq_ok_iff.1 h
    rfl
  | _ =>
    cases h
    rfl

/-- A number that is read fits the bytes that it is read from. -/
theorem isSound_of_decode {format : Format} {bytes : Bytes} {value : Value}
    (h : decode format bytes = .ok value) : value.IsSound := by
  cases format with
  | uint =>
    obtain ⟨-, rfl⟩ := decode_uint_eq_ok_iff.1 h
    exact BigEndian.toNat_lt bytes
  | text =>
    obtain ⟨s, -, rfl⟩ := decode_text_eq_ok_iff.1 h
    trivial
  | _ =>
    cases h
    trivial

/-- What is read from some bytes has these bytes as its written form, unless the format is empty
    and they are not. -/
theorem encode_eq_of_decode {format : Format} {bytes : Bytes} {value : Value}
    (h : decode format bytes = .ok value) (hb : format = .empty → bytes = []) :
    value.encode = bytes := by
  cases format with
  | empty =>
    cases h
    exact (hb rfl).symm
  | octets =>
    cases h
    rfl
  | uint =>
    obtain ⟨-, rfl⟩ := decode_uint_eq_ok_iff.1 h
    exact BigEndian.ofNat_toNat bytes
  | text =>
    obtain ⟨s, hs, rfl⟩ := decode_text_eq_ok_iff.1 h
    exact hs

/-- A sound value is read back from its written form, as long as it is no number that is too
    wide. -/
theorem decode_encode {value : Value} (h : value.IsSound)
    (hwidth : value.format = .uint → value.length ≤ widest) :
    decode value.format value.encode = .ok value := by
  cases value with
  | uint number width =>
    have hlength : (uint number width).encode.length = width := length_encode _
    have hnumber : BigEndian.toNat (uint number width).encode = number := by
      rw [encode, BigEndian.toNat_ofNat, Nat.mod_eq_of_lt h]
    refine decode_uint_eq_ok_iff.2 ⟨?_, by rw [hnumber, hlength]⟩
    rw [hlength]
    exact hwidth rfl
  | text s => exact decode_text_eq_ok_iff.2 ⟨s, rfl, rfl⟩
  | _ => rfl

end Value

end Coap.Opt
