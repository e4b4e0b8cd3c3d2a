import Coap.Opt.Basic
import Mathlib.Data.List.Basic

/-!
# Percent encoded texts

A percent encoded text is a row of pieces (`Percent.Piece`): bytes other than the percent sign, each
of which stands for itself, and triplets of a percent sign and two hexadecimal digits. Just these
texts can be decoded. Any bytes can be written in this way, whichever of them are to be triplets, as
long as every percent sign is among them.

* `Hex.digit?_eq_some_iff`: which bytes are hexadecimal digits, and of which value;
* `decode_written`, `exists_pieces_of_decode`: a text is decoded to what its pieces stand for;
* `exists_pieces_marked`: the bytes that become triplets can be chosen;
* `Opt.exists_encode_eq_iff`: the written forms of options that hold a text;
* `decoding`: which texts are decoded, and which options are made of them.
-/

namespace Coap

namespace Hex

/-- The hexadecimal digits in ascending order of their values, with lower-case letters. -/
def lower : Bytes := Text.bytes "0123456789abcdef"

/-- The hexadecimal digits in ascending order of their values, with upper-case letters. -/
def upper : Bytes := Text.bytes "0123456789ABCDEF"

/-- A byte is the hexadecimal digit of a value, of either case. -/
def IsDigit (b : UInt8) (value : Nat) : Prop := lower[value]? = some b ∨ upper[value]? = some b

instance (b : UInt8) (value : Nat) : Decidable (IsDigit b value) :=
  inferInstanceAs (Decidable (_ ∨ _))

theorem isDigit_of_digit? : ∀ k < 256, ∀ n ∈ digit? (UInt8.ofNat k), IsDigit (UInt8.ofNat k) n := by
  decide +kernel

theorem digit?_lower : ∀ i : Fin 16, digit? (lower.get i) = some i.val := by decide

theorem digit?_upper : ∀ i : Fin 16, digit? (upper.get i) = some i.val := by decide

/-- The digits that are read are those of either case. -/
theorem digit?_eq_some_iff {b : UInt8} {n : Nat} : digit? b = some n ↔ IsDigit b n := by
  constructor
  · intro h
    have hb := isDigit_of_digit? b.toNat b.toNat_lt n
    rw [UInt8.ofNat_toNat] at hb
    exact hb h
  · rintro (h | h)
    · obtain ⟨hlt, rfl⟩ := List.getElem?_eq_some_iff.1 h
      exact digit?_lower ⟨n, hlt⟩
    · obtain ⟨hlt, rfl⟩ := List.getElem?_eq_some_iff.1 h
      exact digit?_upper ⟨n, hlt⟩

end Hex

namespace Percent

/-- A piece of a percent encoded text. -/
inductive Piece where
  /-- A byte that stands for itself. -/
  | plain (b : UInt8) (ne_sign : b ≠ sign)
  /-- A percent sign and the digits of two values. -/
  | triplet (high low : UInt8) (h l : Nat) (high_digit : Hex.IsDigit high h)
      (low_digit : Hex.IsDigit low l)

namespace Piece

/-- The bytes of a piece. -/
def written : Piece → Bytes
  | plain b _ => [b]
  | triplet high low _ _ _ _ => [sign, high, low]

/-- The byte that a piece stands for. -/
def byte : Piece → UInt8
  | plain b _ => b
  | triplet _ _ h l _ _ => UInt8.ofNat (16 * h + l)

/-- Whether a piece is a triplet. -/
def isTriplet : Piece → Bool
  | plain _ _ => false
  | triplet _ _ _ _ _ _ => true

/-- The lower-case triplet of a byte. -/
def escape (b : UInt8) : Piece :=
  have hhigh : b.toNat / 16 < Hex.lower.length := Nat.div_lt_of_lt_mul b.toNat_lt
  have hlow : b.toNat % 16 < Hex.lower.length := Nat.mod_lt _ (by decide)
  triplet Hex.lower[b.toNat / 16] Hex.lower[b.toNat % 16] (b.toNat / 16) (b.toNat % 16)
    (.inl (List.getElem?_eq_getElem hhigh)) (.inl (List.getElem?_eq_getElem hlow))

theorem byte_escape (b : UInt8) : (escape b).byte = b := by
  change UInt8.ofNat (16 * (b.toNat / 16) + b.toNat % 16) = b
  rw [Nat.div_add_mod, UInt8.ofNat_toNat]

end Piece

theorem pair?_eq_some_iff {high low b : UInt8} :
    pair? high low = some b ↔
      ∃ h l, Hex.IsDigit high h ∧ Hex.IsDigit low l ∧ UInt8.ofNat (16 * h + l) = b := by
  simp only [← Hex.digit?_eq_some_iff, Nat.mul_comm 16]
  cases hhigh : Hex.digit? high <;> cases hlow : Hex.digit? low <;> simp [pair?, hhigh, hlow]

/-- A text that consists of pieces is decoded to what they stand for. -/
theorem decode_written (pieces : List Piece) :
    decode (pieces.flatMap Piece.written) = some (pieces.map Piece.byte) := by
  induction pieces with
  | nil => exact decode_nil
  | cons piece pieces ih =>
    rw [List.flatMap_cons, List.map_cons]
    cases piece with
    | plain b ne_sign =>
      rw [Piece.written, List.singleton_append, decode_plain ne_sign, ih]
      rfl
    | triplet high low h l high_digit low_digit =>
      have hpair := pair?_eq_some_iff.2 ⟨h, l, high_digit, low_digit, rfl⟩
      rw [Piece.written, List.cons_append, List.cons_append, List.cons_append, List.nil_append,
        decode_triplet, hpair, ih]
      rfl

/-- What is decoded consists of pieces. -/
theorem exists_pieces_of_decode {text bytes : Bytes} (h : decode text = some bytes) :
    ∃ pieces : List Piece,
      pieces.flatMap Piece.written = text ∧ pieces.map Piece.byte = bytes := by
  -- The decoder goes on past a triplet or a plain byte. A sign that begins no triplet makes it
  -- fail.
  fun_induction decode text generalizing bytes with
  | case1 =>
    cases h
    exact ⟨[], rfl, rfl⟩
  | case2 high low rest b hpair ih =>
    obtain ⟨decoded, hdecoded, rfl⟩ := Option.map_eq_some_iff.1 h
    obtain ⟨pieces, rfl, rfl⟩ := ih hdecoded
    obtain ⟨v, w, high_digit, low_digit, rfl⟩ := pair?_eq_some_iff.1 hpair
    exact ⟨.triplet high low v w high_digit low_digit :: pieces, rfl, rfl⟩
  | case3 => cases h
  | case4 => cases h
  | case5 b rest ne_sign ih =>
    obtain ⟨decoded, hdecoded, rfl⟩ := Option.map_eq_some_iff.1 h
    obtain ⟨pieces, rfl, rfl⟩ := ih hdecoded
    exact ⟨.plain b ne_sign :: pieces, rfl, rfl⟩

/-- What has no percent sign stands for itself. -/
theorem decode_of_sign_not_mem {text : Bytes} (h : sign ∉ text) : decode text = some text := by
  induction text with
  | nil => exact decode_nil
  | cons b rest ih =>
    rw [List.mem_cons, not_or] at h
    rw [decode_plain (Ne.symm h.1), ih h.2, Option.map_some]

/-- What is decoded is not longer than the text. -/
theorem length_le_of_decode {text bytes : Bytes} (h : decode text = some bytes) :
    bytes.length ≤ text.length := by
  -- A triplet is three bytes for one, and any other piece is one for one.
  fun_induction decode text generalizing bytes with
  | case1 =>
    cases h
    exact Nat.le_refl _
  | case2 high low rest b _ ih =>
    obtain ⟨decoded, hdecoded, rfl⟩ := Option.map_eq_some_iff.1 h
    have hle := ih hdecoded
    simp only [List.length_cons]
    omega
  | case3 => cases h
  | case4 => cases h
  | case5 b rest _ ih =>
    obtain ⟨decoded, hdecoded, rfl⟩ := Option.map_eq_some_iff.1 h
    exact Nat.succ_le_succ (ih hdecoded)

/-- What is decoded from a text with a percent sign is shorter. -/
theorem length_lt_of_decode {text bytes : Bytes} (h : decode text = some bytes)
    (hsign : sign ∈ text) : bytes.length < text.length := by
  fun_induction decode text generalizing bytes with
  | case1 => exact absurd hsign List.not_mem_nil
  | case2 high low rest b _ ih =>
    obtain ⟨decoded, hdecoded, rfl⟩ := Option.map_eq_some_iff.1 h
    have hle := length_le_of_decode hdecoded
    simp only [List.length_cons]
    omega
  | case3 => cases h
  | case4 => cases h
  | case5 b rest ne_sign ih =>
    obtain ⟨decoded, hdecoded, rfl⟩ := Option.map_eq_some_iff.1 h
    have hrest : sign ∈ rest := (List.mem_cons.1 hsign).resolve_left (Ne.symm ne_sign)
    exact Nat.succ_lt_succ (ih hdecoded hrest)

/-- The bytes that become triplets can be chosen, as long as every percent sign is among them. -/
theorem exists_pieces_marked {marked : List (UInt8 × Bool)}
    (h : ∀ mark ∈ marked, mark.1 = sign → mark.2 = true) :
    ∃ pieces : List Piece, pieces.map (fun piece => (piece.byte, piece.isTriplet)) = marked := by
  induction marked with
  | nil => exact ⟨[], rfl⟩
  | cons mark marked ih =>
    obtain ⟨pieces, hpieces⟩ := ih fun mark' hmark => h mark' (List.mem_cons_of_mem _ hmark)
    obtain ⟨b, isTriplet⟩ := mark
    -- Every byte may become a triplet, and each but the sign may stand for itself.
    cases isTriplet with
    | true =>
      refine ⟨.escape b :: pieces, ?_⟩
      rw [List.map_cons, hpieces, Piece.byte_escape]
      rfl
    | false =>
      have ne_sign : b ≠ sign := fun hb => Bool.noConfusion (h (b, false) List.mem_cons_self hb)
      exact ⟨.plain b ne_sign :: pieces, by rw [List.map_cons, hpieces]; rfl⟩

end Percent

namespace Opt

/-- The written forms of the options of a name that hold a text. -/
theorem exists_encode_eq_iff {name : Name} (hf : name.format = .text) {bytes : Bytes} :
    (∃ o : Opt, o.name = name ∧ o.encode = bytes) ↔
      name.Admits bytes.length ∧ ∃ s, Text.bytes s = bytes := by
  constructor
  · rintro ⟨o, rfl, rfl⟩
    obtain ⟨s, hs⟩ := exists_value_eq_text hf
    have hfits := o.fits
    rw [hs] at hfits
    rw [encode, hs]
    exact ⟨hfits.admits, s, rfl⟩
  · rintro ⟨hadmits, s, rfl⟩
    exact ⟨⟨name, .text s, hf.symm, hadmits, trivial⟩, rfl, rfl⟩

end Opt

namespace Percent

/-- A text is decoded just if it consists of pieces, and then to what they stand for. So bytes come
    back from everything that they may be written as, whichever of them are triplets. A text makes
    an option other than a host name just if it is decoded to a text of a length that the name
    admits; this is the written form of the option. -/
theorem decoding :
    (∀ text bytes, decode text = some bytes ↔ ∃ pieces : List Piece,
      pieces.flatMap Piece.written = text ∧ pieces.map Piece.byte = bytes) ∧
    (∀ marked : List (UInt8 × Bool), (∀ mark ∈ marked, mark.1 = sign → mark.2 = true) →
      (∃ pieces : List Piece,
        pieces.map (fun piece => (piece.byte, piece.isTriplet)) = marked) ∧
      ∀ pieces : List Piece, pieces.map (fun piece => (piece.byte, piece.isTriplet)) = marked →
        decode (pieces.flatMap Piece.written) = some (marked.map Prod.fst)) ∧
    ∀ (name : Opt.Name) (s : String), name.format = .text → name ≠ .uriHost →
      ((∃ o, Opt.text name s = .ok o) ↔ ∃ bytes, decode (Text.bytes s) = some bytes ∧
        name.entry.minLength ≤ bytes.length ∧ bytes.length ≤ name.entry.maxLength ∧
          ∃ decoded, Text.bytes decoded = bytes) ∧
      ∀ o, Opt.text name s = .ok o →
        o.name = name ∧ decode (Text.bytes s) = some o.encode := by
  refine ⟨fun text bytes => ⟨exists_pieces_of_decode, ?_⟩, fun marked hmarked =>
    ⟨exists_pieces_marked hmarked, ?_⟩, fun name s hf hne => ?_⟩
  · rintro ⟨pieces, rfl, rfl⟩
    exact decode_written pieces
  · rintro pieces rfl
    rw [decode_written, List.map_map]
    rfl
  · -- Only a host name is spelled in another way before it is decoded.
    have hspelling : Opt.spelling name s = s := if_neg hne
    simp only [Opt.text_eq_ok_iff, hspelling, hf, true_and]
    refine ⟨⟨?_, ?_⟩, fun o h => h⟩
    · rintro ⟨o, hname, hdecode⟩
      obtain ⟨⟨hmin, hmax⟩, hs⟩ := (Opt.exists_encode_eq_iff hf).1 ⟨o, hname, rfl⟩
      exact ⟨o.encode, hdecode, hmin, hmax, hs⟩
    · rintro ⟨bytes, hdecode, hmin, hmax, hs⟩
      obtain ⟨o, hname, rfl⟩ := (Opt.exists_encode_eq_iff hf).2 ⟨⟨hmin, hmax⟩, hs⟩
      exact ⟨o, hname, hdecode⟩

/-- A segment of a path with triplets in both cases, one of them in place of a slash and two of them
    in place of a letter; and a percent sign that has to become a triplet before a letter. -/
theorem decoding_mixed_case :
    let s := "%2Fa%c3%A9"
    let marked := [(sign, true), (97, false)]
    Opt.Name.uriPath.format = .text ∧ Opt.Name.uriPath ≠ .uriHost ∧
      (∃ o, Opt.text .uriPath s = .ok o ∧ o.name = .uriPath ∧
        o.encode = [0x2f, 0x61, 0xc3, 0xa9]) ∧
      (∀ mark ∈ marked, mark.1 = sign → mark.2 = true) ∧
      ∃ pieces : List Piece, pieces.map (fun piece => (piece.byte, piece.isTriplet)) = marked ∧
        decode (pieces.flatMap Piece.written) = some [sign, 97] := by
  intro s marked
  obtain ⟨-, hwritings, hoptions⟩ := decoding
  have hmarked : ∀ mark ∈ marked, mark.1 = sign → mark.2 = true := by simp [marked, sign]
  obtain ⟨⟨pieces, hpieces⟩, hdecoded⟩ := hwritings marked hmarked
  obtain ⟨hmade, hform⟩ := hoptions .uriPath s rfl (by decide)
  have hdecode : decode (Text.bytes s) = some [0x2f, 0x61, 0xc3, 0xa9] := by decide
  obtain ⟨o, ho⟩ := hmade.2 ⟨_, hdecode, by decide, by decide, "/aé", by decide⟩
  obtain ⟨hname, hencode⟩ := hform o ho
  exact ⟨rfl, by decide, ⟨o, ho, hname, Option.some.inj (hencode.symm.trans hdecode)⟩, hmarked,
    pieces, hpieces, hdecoded pieces hpieces⟩

end Percent

end Coap
