import Coap.Text.Utf8
import Mathlib

/-!
# ASCII characters among the bytes of a text

The bytes of a text are those of its characters, one after the other. A character below 128 is a
single byte, and all bytes of any other character are at least 128. So what concerns ASCII
characters only can be done, and looked for, byte by byte.

* `Text.bytes_toLower`: the letters of a text are made lower-case by doing so in its bytes;
* `Text.mem_bytes_iff`: an ASCII byte is among those of a text just if its character is in the text;
* `Text.exists_isUpper_iff`: so upper-case letters are found among the bytes.
-/

namespace Coap.Text

theorem bytes_eq_flatMap (s : String) : bytes s = s.toList.flatMap String.utf8EncodeChar := by
  rw [bytes, ← String.utf8Encode_toList, List.utf8Encode, List.data_toByteArray]

@[simp]
theorem bytes_append (s t : String) : bytes (s ++ t) = bytes s ++ bytes t := by
  rw [bytes_eq_flatMap, bytes_eq_flatMap, bytes_eq_flatMap, String.toList_append,
    List.flatMap_append]

/-! ### Characters -/

variable {c : Char}

theorem toNat_ofNat_of_lt (h : c.toNat < 128) : (UInt8.ofNat c.toNat).toNat = c.toNat :=
  UInt8.toNat_ofNat_of_lt' (Nat.lt_trans h (by decide))

theorem utf8EncodeChar_of_lt (h : c.toNat < 128) :
    String.utf8EncodeChar c = [UInt8.ofNat c.toNat] :=
  if_pos (Nat.le_of_lt_succ h)

theorem le_of_mem_utf8EncodeChar (h : 128 ≤ c.toNat) {b : UInt8}
    (hb : b ∈ String.utf8EncodeChar c) : 128 ≤ b.toNat := by
  have hlarge : ¬ c.val.toNat ≤ 0x7f := Nat.not_le.2 h
  rw [String.utf8EncodeChar, if_neg hlarge] at hb
  split_ifs at hb <;>
    · simp only [List.mem_cons, List.not_mem_nil, or_false] at hb
      rcases hb with rfl | rfl | rfl | rfl <;>
        · rw [UInt8.toNat_ofNat']
          omega

theorem toNat_toLower (c : Char) :
    c.toLower.toNat = if 65 ≤ c.toNat ∧ c.toNat ≤ 90 then c.toNat + 32 else c.toNat := by
  have hletter : (c.val ≥ 'A'.val ∧ c.val ≤ 'Z'.val) ↔ 65 ≤ c.toNat ∧ c.toNat ≤ 90 := Iff.rfl
  rw [Char.toLower]
  split
  · rename_i h
    rw [if_pos (hletter.1 h)]
    have hle : c.toNat ≤ 90 := (hletter.1 h).2
    exact Nat.mod_eq_of_lt (Nat.lt_of_le_of_lt (Nat.add_le_add_right hle 32) (by decide))
  · rename_i h
    rw [if_neg (mt hletter.2 h)]

/-- Whether a byte is an upper-case letter. -/
def IsUpper (b : UInt8) : Prop := 65 ≤ b.toNat ∧ b.toNat ≤ 90

instance (b : UInt8) : Decidable (IsUpper b) := inferInstanceAs (Decidable (_ ∧ _))

/-- What holds of each of the 256 bytes holds of all. -/
theorem forall_byte {P : UInt8 → Prop} (h : ∀ k < 256, P (UInt8.ofNat k)) : ∀ b, P b := by
  intro b
  have hb := h b.toNat b.toNat_lt
  rwa [UInt8.ofNat_toNat] at hb

theorem toNat_toAsciiLower (b : UInt8) :
    b.toAsciiLower.toNat = if IsUpper b then b.toNat + 32 else b.toNat := by
  revert b
  exact forall_byte (by decide +kernel)

/-- Just the upper-case letters are changed. -/
theorem toAsciiLower_eq_self_iff {b : UInt8} : b.toAsciiLower = b ↔ ¬ IsUpper b := by
  rw [← UInt8.toNat_inj, toNat_toAsciiLower]
  split <;> simp [*]

theorem not_isUpper_toAsciiLower (b : UInt8) : ¬ IsUpper b.toAsciiLower := by
  have hnat := toNat_toAsciiLower b
  rintro ⟨hlow, hhigh⟩
  split at hnat
  · rename_i h
    have hlarge : 65 ≤ b.toNat := h.1
    omega
  · rename_i h
    exact h ⟨hnat ▸ hlow, hnat ▸ hhigh⟩

/-- The bytes of a character are made lower-case with it. -/
theorem utf8EncodeChar_toLower (c : Char) :
    String.utf8EncodeChar c.toLower = (String.utf8EncodeChar c).map UInt8.toAsciiLower := by
  have hnat := toNat_toLower c
  by_cases h : c.toNat < 128
  · have hlower : c.toLower.toNat < 128 := by
      rw [hnat]
      split <;> omega
    rw [utf8EncodeChar_of_lt h, utf8EncodeChar_of_lt hlower, List.map_singleton, hnat]
    refine congrArg (fun b => [b]) (UInt8.toNat_inj.1 ?_)
    rw [toNat_toAsciiLower, ← hnat, toNat_ofNat_of_lt hlower]
    simp only [IsUpper, toNat_ofNat_of_lt h, hnat]
  · -- Neither the character nor any of its bytes is a letter.
    have hlarge : 128 ≤ c.toNat := Nat.not_lt.1 h
    have hsame : c.toLower = c := by
      refine Char.toNat_inj.1 ?_
      rw [hnat, if_neg]
      omega
    rw [hsame]
    refine ((List.map_congr_left fun b hb => ?_).trans (List.map_id _)).symm
    have hb' := le_of_mem_utf8EncodeChar hlarge hb
    exact toAsciiLower_eq_self_iff.2 fun hupper => absurd hupper.2 (by omega)

/-! ### Texts -/

/-- The letters of a text are made lower-case by doing so in its bytes. -/
theorem bytes_toLower (s : String) : bytes s.toLower = (bytes s).map UInt8.toAsciiLower := by
  rw [bytes_eq_flatMap, bytes_eq_flatMap, String.toLower, String.toList_map, List.flatMap_map,
    List.map_flatMap]
  exact List.flatMap_congr fun c _ => utf8EncodeChar_toLower c

/-- An ASCII byte is among those of a text just if its character is in the text. -/
theorem mem_bytes_iff {b : UInt8} (h : b.toNat < 128) {s : String} :
    b ∈ bytes s ↔ ∃ c ∈ s.toList, c.toNat = b.toNat := by
  rw [bytes_eq_flatMap, List.mem_flatMap]
  refine exists_congr fun c => and_congr_right fun _ => ?_
  by_cases hsmall : c.toNat < 128
  · rw [utf8EncodeChar_of_lt hsmall, List.mem_singleton, ← UInt8.toNat_inj,
      toNat_ofNat_of_lt hsmall, eq_comm]
  · have hlarge : 128 ≤ c.toNat := Nat.not_lt.1 hsmall
    refine iff_of_false (fun hb => ?_) (by omega)
    have := le_of_mem_utf8EncodeChar hlarge hb
    omega

/-- There is an upper-case letter in a text just if there is one among the bytes. -/
theorem exists_isUpper_iff {s : String} :
    (∃ c ∈ s.toList, c.isUpper = true) ↔ ∃ b ∈ bytes s, IsUpper b := by
  have hrange (c : Char) : c.isUpper = true ↔ 65 ≤ c.toNat ∧ c.toNat ≤ 90 := by
    rw [Char.isUpper, decide_eq_true_iff]
    exact Iff.rfl
  constructor
  · rintro ⟨c, hc, hupper⟩
    obtain ⟨hlow, hhigh⟩ := (hrange c).1 hupper
    have hbyte : (UInt8.ofNat c.toNat).toNat = c.toNat := toNat_ofNat_of_lt (by omega)
    refine ⟨UInt8.ofNat c.toNat, (mem_bytes_iff (by omega)).2 ⟨c, hc, hbyte.symm⟩, ?_⟩
    rw [IsUpper, hbyte]
    exact ⟨hlow, hhigh⟩
  · rintro ⟨b, hb, hlow, hhigh⟩
    obtain ⟨c, hc, hbyte⟩ := (mem_bytes_iff (by omega)).1 hb
    exact ⟨c, hc, (hrange c).2 (hbyte ▸ ⟨hlow, hhigh⟩)⟩

end Coap.Text
