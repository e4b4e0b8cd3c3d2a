import Coap.Proofs.Message.Setting
import Coap.Proofs.Text.Percent
import Mathlib

/-!
# Values on the wire

Which bytes are the written form of an option is told by the registry: their number has to be
within its bounds, and the bytes of a text have to be UTF-8. The written form says all there is to
an option of a known name. So a number that is read from more bytes than it needs makes another
option than the same number in as few as it needs; and just zeros in front make the difference.

* `BigEndian.toNat_eq_iff`: the byte strings that denote a number;
* `Opt.exists_ofBytes_iff`: the bytes that are the written form of an option;
* `Opt.exists_uint_iff`: the numbers that an option can have;
* `Opt.written_forms`: options are the same as their written forms, and a number that is not read
  from the wire has the shortest one.
-/

namespace Coap

namespace BigEndian

/-! ### The shortest written form of a number -/

theorem bound_eq_pow (w : Nat) : bound w = 256 ^ w := by
  induction w with
  | zero => rfl
  | succ w ih => rw [bound, ih, Nat.pow_succ']

/-- In more bytes than it needs a number is written with zeros in front. -/
theorem ofNat_add {w n : Nat} (h : n < bound w) (k : Nat) :
    ofNat (k + w) n = List.replicate k 0 ++ ofNat w n := by
  induction k with
  | zero => rw [Nat.zero_add, List.replicate_zero, List.nil_append]
  | succ k ih =>
    have hlt : n < bound (k + w) := Nat.lt_of_lt_of_le h (bound_mono (Nat.le_add_left w k))
    rw [Nat.succ_add, ofNat, Nat.div_eq_of_lt hlt, ih, List.replicate_succ, List.cons_append]
    rfl

/-- The byte strings that denote a number are its shortest written form with zeros in front. -/
theorem toNat_eq_iff {bytes : Bytes} {n : Nat} :
    toNat bytes = n ↔ ∃ k, bytes = List.replicate k 0 ++ ofNat (width n) n := by
  constructor
  · rintro rfl
    obtain ⟨k, hk⟩ := Nat.exists_eq_add_of_le' (width_le (toNat_lt bytes))
    refine ⟨k, ?_⟩
    rw [← ofNat_add (lt_bound_width _), ← hk, ofNat_toNat]
  · rintro ⟨k, rfl⟩
    have hlt : n < bound (k + width n) :=
      Nat.lt_of_lt_of_le (lt_bound_width n) (bound_mono (Nat.le_add_left _ k))
    rw [← ofNat_add (lt_bound_width n), toNat_ofNat, Nat.mod_eq_of_lt hlt]

/-- The shortest written form of a number does not begin with a zero. -/
theorem head?_ofNat_width_ne (n : Nat) : (ofNat (width n) n).head? ≠ some 0 := by
  cases hwidth : width n with
  | zero => simp [ofNat]
  | succ w =>
    -- The first byte is the number of times that what the others can tell goes into the number.
    have hhigh : n < 256 * bound w := by
      have h := lt_bound_width n
      rwa [hwidth, bound] at h
    have hlow : bound w ≤ n := by
      refine Nat.not_lt.1 fun h => ?_
      have hle := width_le h
      omega
    have hdigit : n / bound w < 256 := Nat.div_lt_of_lt_mul (by rwa [Nat.mul_comm])
    have hpos : 0 < n / bound w := Nat.div_pos hlow (bound_pos w)
    rw [ofNat, List.head?_cons]
    intro hzero
    have hnat := congrArg UInt8.toNat (Option.some.inj hzero)
    rw [UInt8.toNat_ofNat_of_lt' hdigit] at hnat
    exact Nat.ne_of_gt hpos hnat

end BigEndian

namespace Opt

/-! ### Reading -/

/-- The bytes that are the written form of an option. -/
theorem exists_ofBytes_iff {name : Name} {bytes : Bytes} :
    (∃ o, ofBytes name bytes = .ok o) ↔
      name.Admits bytes.length ∧ (name.format = .text → ∃ s, Text.bytes s = bytes) := by
  simp only [ofBytes_eq_ok_iff]
  constructor
  · rintro ⟨o, rfl, rfl⟩
    have hadmits : o.name.Admits o.encode.length := by
      rw [encode, Value.length_encode]
      exact o.fits.admits
    exact ⟨hadmits, fun hf => ((exists_encode_eq_iff hf).1 ⟨o, rfl, rfl⟩).2⟩
  · rintro ⟨hadmits, htext⟩
    have hread : ∃ value, Value.decode name.format bytes = .ok value := by
      cases hf : name.format with
      | text =>
        obtain ⟨s, rfl⟩ := htext hf
        exact ⟨.text s, Value.decode_text_eq_ok_iff.2 ⟨s, rfl, rfl⟩⟩
      | uint =>
        -- Bytes of a right length are never too many for a number.
        have hwidth := Nat.le_trans hadmits.2 (maxLength_le_widest hf)
        exact ⟨_, Value.decode_uint_eq_ok_iff.2 ⟨hwidth, rfl⟩⟩
      | _ => exact ⟨_, rfl⟩
    obtain ⟨value, hvalue⟩ := hread
    exact ⟨⟨name, value, Value.fits_of_decode hvalue hadmits⟩, rfl,
      Value.encode_eq_of_decode hvalue (eq_nil_of_admits hadmits)⟩

/-- Some bytes are read as a number in an option of a given name. -/
def Name.Reads (name : Name) (bytes : Bytes) (number : Nat) : Prop :=
  ∃ o, ofBytes name bytes = .ok o ∧ o.uint? = some number

theorem minLength_eq_zero {name : Name} (h : name.format = .uint) : name.entry.minLength = 0 := by
  revert h
  cases name <;> decide

/-- A number is told by its written form. -/
theorem value_eq_uint {o : Opt} (hf : o.name.format = .uint) :
    o.value = .uint (BigEndian.toNat o.encode) o.encode.length := by
  obtain ⟨name, value, fits⟩ := o
  cases value with
  | uint number width =>
    have hsound : number < BigEndian.bound width := fits.sound
    simp only [encode, Value.encode]
    rw [BigEndian.toNat_ofNat, Nat.mod_eq_of_lt hsound, BigEndian.length_ofNat]
  | _ => cases fits.format_eq.trans hf

/-- The bytes that are read as a number are no more than the registry allows, and denote it. -/
theorem Name.reads_iff {name : Name} (hf : name.format = .uint) {bytes : Bytes} {number : Nat} :
    name.Reads bytes number ↔
      bytes.length ≤ name.entry.maxLength ∧ BigEndian.toNat bytes = number := by
  constructor
  · rintro ⟨o, ho, hnumber⟩
    obtain ⟨hadmits, -⟩ := exists_ofBytes_iff.1 ⟨o, ho⟩
    obtain ⟨rfl, rfl⟩ := ofBytes_eq_ok_iff.1 ho
    rw [uint?, value_eq_uint hf] at hnumber
    exact ⟨hadmits.2, Option.some.inj hnumber⟩
  · rintro ⟨hle, rfl⟩
    have hadmits : name.Admits bytes.length := ⟨minLength_eq_zero hf ▸ Nat.zero_le _, hle⟩
    obtain ⟨o, ho⟩ := exists_ofBytes_iff.2
      ⟨hadmits, fun htext => absurd (hf.symm.trans htext) (by decide)⟩
    obtain ⟨rfl, rfl⟩ := ofBytes_eq_ok_iff.1 ho
    exact ⟨o, ho, by rw [uint?, value_eq_uint hf]⟩

/-! ### Making -/

/-- The numbers that an option can have. -/
theorem exists_uint_iff {name : Name} {number : Nat} :
    (∃ o, uint name number = .ok o) ↔
      name.format = .uint ∧ number < 256 ^ name.entry.maxLength := by
  simp only [uint_eq_ok_iff]
  rw [exists_value_eq_iff, ← BigEndian.bound_eq_pow]
  constructor
  · intro h
    have hf : name.format = .uint := h.format_eq.symm
    exact ⟨hf, (fits_uint_iff hf (minLength_eq_zero hf)).1 h⟩
  · rintro ⟨hf, hlt⟩
    exact (fits_uint_iff hf (minLength_eq_zero hf)).2 hlt

/-- The bytes that are read as a number are the written form of the option that is made of it, with
    zeros in front. -/
theorem Name.reads_iff_of_uint {name : Name} {number : Nat} {o : Opt}
    (h : uint name number = .ok o) {bytes : Bytes} :
    name.Reads bytes number ↔ bytes.length ≤ name.entry.maxLength ∧
      ∃ k, bytes = List.replicate k 0 ++ o.encode := by
  obtain ⟨rfl, hvalue⟩ := uint_eq_ok_iff.1 h
  have hf : o.name.format = .uint := (exists_uint_iff.1 ⟨o, h⟩).1
  rw [Name.reads_iff hf, BigEndian.toNat_eq_iff, encode, hvalue, Value.encode]

/-- An option is made from a value of one of the four formats, or read from its written form. -/
inductive Made (name : Name) (o : Opt) : Prop where
  | uint {number : Nat} (h : Opt.uint name number = .ok o)
  | text {s : String} (h : Opt.text name s = .ok o)
  | octets {bytes : Bytes} (h : Opt.octets name bytes = .ok o)
  | empty (h : Opt.empty name = .ok o)
  | read {bytes : Bytes} (h : Opt.ofBytes name bytes = .ok o)

theorem Made.name_eq {name : Name} {o : Opt} (h : Made name o) : o.name = name := by
  cases h with
  | uint h => exact (uint_eq_ok_iff.1 h).1
  | text h => exact (text_eq_ok_iff.1 h).2.1
  | octets h => exact (octets_eq_ok_iff.1 h).1
  | empty h => exact (empty_eq_ok_iff.1 h).1
  | read h => exact (ofBytes_eq_ok_iff.1 h).1

/-- Options are the same as their written forms. Bytes are read just if their number is within the
    bounds for the name and those of a text are UTF-8, and then they are the written form of what is
    read; an option, however it was made, is read back from its written form, and two of them of one
    name are equal just if their written forms are. A number makes an option just if the longest
    value that the name may have can hold it. Its written form is then the shortest one that is read
    as this number, without a zero in front; all others are this one with zeros in front. -/
theorem written_forms :
    (∀ name bytes,
      ((∃ o, ofBytes name bytes = .ok o) ↔
        name.entry.minLength ≤ bytes.length ∧ bytes.length ≤ name.entry.maxLength ∧
          (name.format = .text → ∃ s, Text.bytes s = bytes)) ∧
      ∀ o, ofBytes name bytes = .ok o → o.encode = bytes) ∧
    (∀ name o, Made name o → ofBytes name o.encode = .ok o) ∧
    (∀ name a b, Made name a → Made name b → (a = b ↔ a.encode = b.encode)) ∧
    ∀ name number,
      ((∃ o, uint name number = .ok o) ↔
        name.format = .uint ∧ number < 256 ^ name.entry.maxLength) ∧
      ∀ o, uint name number = .ok o →
        name.Reads o.encode number ∧
          (∀ bytes, name.Reads bytes number → bytes ≠ o.encode →
            o.encode.length < bytes.length) ∧
          (∀ bytes, name.Reads bytes number ↔ bytes.length ≤ name.entry.maxLength ∧
            ∃ k, bytes = List.replicate k 0 ++ o.encode) ∧
          o.encode.head? ≠ some 0 ∧ (number = 0 → o.encode = []) := by
  refine ⟨fun name bytes => ⟨exists_ofBytes_iff.trans and_assoc, fun o h => ?_⟩,
    fun name o h => ?_, fun name a b ha hb => ?_,
    fun name number => ⟨exists_uint_iff, fun o h => ?_⟩⟩
  · exact (ofBytes_eq_ok_iff.1 h).2
  · rw [← h.name_eq]
    exact ofBytes_encode o
  · exact eq_iff_encode_eq (ha.name_eq.trans hb.name_eq.symm)
  · -- The shortest form of the number is the one that is written.
    have hencode : o.encode = BigEndian.ofNat (BigEndian.width number) number := by
      rw [encode, (uint_eq_ok_iff.1 h).2, Value.encode]
    obtain ⟨rfl, -⟩ := uint_eq_ok_iff.1 h
    have hmax : o.encode.length ≤ o.name.entry.maxLength :=
      (exists_ofBytes_iff.1 ⟨o, ofBytes_encode o⟩).1.2
    refine ⟨(Name.reads_iff_of_uint h).2 ⟨hmax, 0, rfl⟩, fun bytes hreads hne => ?_,
      fun bytes => Name.reads_iff_of_uint h, hencode ▸ BigEndian.head?_ofNat_width_ne number, ?_⟩
    · -- Any other form has zeros in front, and at least one of them.
      obtain ⟨-, k, rfl⟩ := (Name.reads_iff_of_uint h).1 hreads
      cases k with
      | zero => exact absurd rfl hne
      | succ k =>
        rw [List.length_append, List.length_replicate]
        exact Nat.lt_add_of_pos_left k.succ_pos
    · rintro rfl
      rw [hencode, BigEndian.width, dif_pos rfl]
      rfl

/-- The number 300 takes two bytes. With a zero in front it is read as well, but makes another
    option; and a text is read back. -/
theorem written_forms_padded :
    let short : Opt := ⟨.maxAge, .uint 300 2, rfl, by decide, by decide⟩
    let padded : Opt := ⟨.maxAge, .uint 300 3, rfl, by decide, by decide⟩
    let segment : Opt := ⟨.uriPath, .text "é", rfl, by decide, trivial⟩
    uint .maxAge 300 = .ok short ∧ short.encode = [1, 44] ∧
      Name.maxAge.Reads [0, 1, 44] 300 ∧ [0, 1, 44] ≠ short.encode ∧
      short.encode.length < [0, 1, 44].length ∧
      ofBytes .maxAge [0, 1, 44] = .ok padded ∧ padded.encode = [0, 1, 44] ∧ short ≠ padded ∧
      text .uriPath "%c3%a9" = .ok segment ∧ ofBytes .uriPath segment.encode = .ok segment := by
  intro short padded segment
  obtain ⟨hread, hback, hsame, hnumber⟩ := written_forms
  have hwidth : BigEndian.width 300 = 2 := by
    rw [BigEndian.width, dif_neg (by decide), BigEndian.width, dif_neg (by decide),
      BigEndian.width, dif_pos (by decide)]
  have hshort : uint .maxAge 300 = .ok short := uint_eq_ok_iff.2 ⟨rfl, by rw [hwidth]⟩
  obtain ⟨-, hlonger, hreads, -⟩ := (hnumber .maxAge 300).2 short hshort
  have hencode : short.encode = [1, 44] := by decide
  have hzero : Name.maxAge.Reads [0, 1, 44] 300 := (hreads _).2 ⟨by decide, 1, by decide⟩
  have hne : [0, 1, 44] ≠ short.encode := by decide
  have hpadded : ofBytes .maxAge [0, 1, 44] = .ok padded := ofBytes_eq_ok_iff.2 ⟨rfl, by decide⟩
  have hsegment : text .uriPath "%c3%a9" = .ok segment :=
    text_eq_ok_iff.2 ⟨rfl, rfl, by decide⟩
  refine ⟨hshort, hencode, hzero, hne, hlonger _ hzero hne, hpadded,
    (hread _ _).2 _ hpadded, ?_, hsegment, hback _ _ (.text hsegment)⟩
  rw [ne_eq, hsame .maxAge short padded (.uint hshort) (.read hpadded)]
  decide

end Opt

end Coap
