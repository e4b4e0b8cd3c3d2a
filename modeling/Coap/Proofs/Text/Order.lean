import Coap.Proofs.Text.Ascii

/-!
# The order of texts

Texts are in the order of their first character that differs, and so are their bytes. The first
byte of a character grows with the number of its bytes, and of two characters with as many bytes the
larger one has the larger digits from the first one on that differs. In either case the bytes differ
before one of the characters ends, so what follows makes no difference.

* `Text.utf8EncodeChar_append_lt`: a smaller character has smaller bytes, whatever follows;
* `Text.bytes_lt_iff`: texts are in the order of their bytes.
-/

namespace Coap.Text

/-- A smaller character has smaller bytes, whatever follows. -/
theorem utf8EncodeChar_append_lt {c c' : Char} (h : c < c') (rest rest' : Bytes) :
    String.utf8EncodeChar c ++ rest < String.utf8EncodeChar c' ++ rest' := by
  have hlt : c.val.toNat < c'.val.toNat := h
  -- With this bound no digit of a character of four bytes is cut off.
  have hmax : c'.val.toNat < 0x110000 := by rcases c'.valid with h | h <;> omega
  simp only [String.utf8EncodeChar]
  split_ifs <;>
    simp (disch := omega) only [List.cons_append, List.nil_append, List.cons_lt_cons_iff,
      UInt8.lt_iff_toNat_lt, ← UInt8.toNat_inj, UInt8.toNat_ofNat', Nat.mod_eq_of_lt,
      Nat.add_lt_add_iff_right, Nat.add_right_cancel_iff] <;>
    omega

theorem flatMap_utf8EncodeChar_lt {l l' : List Char} (h : l < l') :
    l.flatMap String.utf8EncodeChar < l'.flatMap String.utf8EncodeChar := by
  -- By the first place where the lists differ, or at which the first one ends.
  induction h with
  | @nil c rest =>
    obtain ⟨b, bytes, hbytes⟩ : ∃ b bytes, String.utf8EncodeChar c = b :: bytes := by
      refine List.exists_cons_of_ne_nil (List.ne_nil_of_length_pos ?_)
      rw [String.length_utf8EncodeChar]
      exact c.utf8Size_pos
    rw [List.flatMap_cons, hbytes]
    exact List.nil_lt_cons _ _
  | rel h =>
    rw [List.flatMap_cons, List.flatMap_cons]
    exact utf8EncodeChar_append_lt h _ _
  | cons _ ih =>
    rw [List.flatMap_cons, List.flatMap_cons]
    exact List.append_left_lt ih

/-- Texts are in the order of their bytes. -/
theorem bytes_lt_iff {s t : String} : bytes s < bytes t ↔ s < t := by
  have hmono {s t : String} (h : s < t) : bytes s < bytes t := by
    rw [bytes_eq_flatMap, bytes_eq_flatMap]
    exact flatMap_utf8EncodeChar_lt (String.lt_iff_toList_lt.1 h)
  refine ⟨fun h => ?_, hmono⟩
  rcases lt_trichotomy s t with hlt | rfl | hgt
  · exact hlt
  · exact absurd h (List.lt_irrefl _)
  · exact absurd (hmono hgt) (List.lt_asymm h)

end Coap.Text
