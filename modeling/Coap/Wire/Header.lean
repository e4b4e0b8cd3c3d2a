import Coap.Bytes.BigEndian
import Coap.MessageType

/-!
# The fixed header

A message starts with four bytes: two bits of version, two of type, four that count the option
frames, a byte of code and two of message id.

* `ofBytes?_append`: a header is read back from its written form, whatever follows.
-/

namespace Coap.Wire

/-- The fixed header of a message. -/
structure Header where
  version : Nat
  type : MessageType
  /-- The number of option frames that follow. -/
  count : Nat
  code : UInt8
  id : UInt16
  deriving DecidableEq

namespace Header

/-- The four bytes of a header; of the version only the two lowest bits. -/
def bytes (h : Header) : Bytes :=
  [UInt8.ofNat (h.version % 4 * 64 + h.type.number * 16 + h.count), h.code,
    UInt8.ofNat (h.id.toNat / 256), UInt8.ofNat (h.id.toNat % 256)]

/-- The type in the first byte of a header. -/
def typeOfByte (b : UInt8) : MessageType :=
  match b.toNat / 16 % 4 with
  | 0 => .con
  | 1 => .non
  | 2 => .ack
  | _ => .rst

/-- The header at the start of a byte string, and what follows it. -/
def ofBytes? : Bytes → Option (Header × Bytes)
  | first :: code :: high :: low :: rest =>
    some (⟨first.toNat / 64, typeOfByte first, first.toNat % 16, code,
      UInt16.ofNat (high.toNat * 256 + low.toNat)⟩, rest)
  | _ => none

/-- Bytes have no header just if they are too few for one. -/
theorem ofBytes?_eq_none_iff {b : Bytes} : ofBytes? b = none ↔ b.length < 4 := by
  match b with
  | [] | [_] | [_, _] | [_, _, _] => simp [ofBytes?]
  | _ :: _ :: _ :: _ :: _ => simp [ofBytes?]

/-- A header is read back from its written form, whatever follows. -/
theorem ofBytes?_append {h : Header} (hv : h.version < 4) (hc : h.count < 16) (rest : Bytes) :
    ofBytes? (h.bytes ++ rest) = some (h, rest) := by
  obtain ⟨version, type, count, code, id⟩ := h
  simp only at hv hc
  have ht := type.number_lt
  have hid := id.toNat_lt
  simp only [bytes, List.cons_append, List.nil_append, ofBytes?, Option.some.injEq, Prod.mk.injEq,
    Header.mk.injEq, true_and, and_true, UInt8.toNat_ofNat', Nat.reducePow]
  -- What shares a byte is separated again by its bounds: version, type and count.
  refine ⟨by omega, ?_, by omega, ?_⟩
  · have hn : (UInt8.ofNat (version % 4 * 64 + type.number * 16 + count)).toNat / 16 % 4 =
        type.number := by
      rw [UInt8.toNat_ofNat']
      omega
    rw [typeOfByte, hn]
    cases type <;> rfl
  · apply UInt16.toNat_inj.1
    rw [UInt16.toNat_ofNat']
    omega

end Header

end Coap.Wire
