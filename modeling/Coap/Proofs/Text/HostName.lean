import Coap.Proofs.Text.Ascii
import Coap.Proofs.Text.Percent

/-!
# Host names

The letters of a host name do not distinguish case, so they are made lower-case; and this is done
before triplets are decoded. A letter that stands for itself becomes lower-case in this way, while
one that a triplet stands for stays as it is (`Percent.Piece.hostByte`): upper-case letters get into
a host name just through triplets in their place (`Percent.Piece.HidesUpper`).

* `Percent.decode_map_toAsciiLower`: what is decoded once the letters of a text are lower-case;
* `Opt.text_uriHost_eq_ok_iff`: the host name that is made of the pieces of a text;
* `Percent.folding`: when a host name is what is decoded, in lower-case letters, and when two
  spellings of it make the same option.
-/

namespace Coap

/-- The case of a hexadecimal digit does not matter. -/
theorem Hex.isDigit_toAsciiLower {b : UInt8} {value : Nat} :
    IsDigit b.toAsciiLower value ↔ IsDigit b value := by
  have hdigit (b : UInt8) : digit? b.toAsciiLower = digit? b := by
    revert b
    exact Text.forall_byte (by decide +kernel)
  rw [← digit?_eq_some_iff, hdigit, digit?_eq_some_iff]

namespace Percent

theorem toAsciiLower_eq_sign_iff {b : UInt8} : b.toAsciiLower = sign ↔ b = sign := by
  constructor
  · intro h
    have hnat := Text.toNat_toAsciiLower b
    rw [h] at hnat
    have hsign : sign.toNat = 37 := rfl
    split at hnat
    · rename_i hupper
      have hlarge : 65 ≤ b.toNat := hupper.1
      omega
    · exact UInt8.toNat_inj.1 hnat.symm
  · rintro rfl
    rfl

namespace Piece

/-- The byte of a host name that a piece becomes. Only a letter that stands for itself is made
    lower-case. -/
def hostByte : Piece → UInt8
  | plain b _ => b.toAsciiLower
  | triplet _ _ h l _ _ => UInt8.ofNat (16 * h + l)

/-- Whether a piece is a triplet in place of an upper-case letter. -/
def HidesUpper (piece : Piece) : Prop := piece.isTriplet = true ∧ Text.IsUpper piece.byte

instance (piece : Piece) : Decidable piece.HidesUpper := inferInstanceAs (Decidable (_ ∧ _))

/-- A piece becomes the lower-case form of what it stands for, unless it hides a letter. -/
theorem hostByte_eq_iff {piece : Piece} :
    piece.hostByte = piece.byte.toAsciiLower ↔ ¬ piece.HidesUpper := by
  cases piece with
  | plain b _ => simp [hostByte, byte, HidesUpper, isTriplet]
  | triplet high low h l _ _ =>
    rw [eq_comm, hostByte, byte, Text.toAsciiLower_eq_self_iff, HidesUpper, isTriplet, byte]
    simp

theorem isUpper_hostByte_iff {piece : Piece} : Text.IsUpper piece.hostByte ↔ piece.HidesUpper := by
  cases piece with
  | plain b _ => simp [hostByte, HidesUpper, isTriplet, Text.not_isUpper_toAsciiLower]
  | triplet high low h l _ _ => simp [hostByte, HidesUpper, isTriplet, byte]

/-- A piece with its letters in lower-case. -/
def lower : Piece → Piece
  | plain b ne_sign => plain b.toAsciiLower (mt toAsciiLower_eq_sign_iff.1 ne_sign)
  | triplet high low h l high_digit low_digit =>
    triplet high.toAsciiLower low.toAsciiLower h l
      (Hex.isDigit_toAsciiLower.2 high_digit) (Hex.isDigit_toAsciiLower.2 low_digit)

theorem written_lower (piece : Piece) :
    piece.lower.written = piece.written.map UInt8.toAsciiLower := by
  cases piece <;> rfl

theorem byte_lower (piece : Piece) : piece.lower.byte = piece.hostByte := by
  cases piece <;> rfl

/-- A text that becomes a piece in lower-case letters is a piece. -/
theorem exists_of_written_eq_map {piece : Piece} {text : Bytes}
    (h : piece.written = text.map UInt8.toAsciiLower) :
    ∃ source : Piece, source.written = text ∧ source.lower = piece := by
  cases piece with
  | plain b ne_sign =>
    obtain ⟨c, rfl, rfl⟩ := List.map_eq_singleton_iff.1 h.symm
    exact ⟨.plain c (mt toAsciiLower_eq_sign_iff.2 ne_sign), rfl, rfl⟩
  | triplet high low v w high_digit low_digit =>
    obtain ⟨first, digits, rfl, hfirst, hdigits⟩ := List.map_eq_cons_iff.1 h.symm
    obtain ⟨high, last, rfl, rfl, hlast⟩ := List.map_eq_cons_iff.1 hdigits
    obtain ⟨low, rfl, rfl⟩ := List.map_eq_singleton_iff.1 hlast
    obtain rfl := toAsciiLower_eq_sign_iff.1 hfirst
    exact ⟨.triplet high low v w (Hex.isDigit_toAsciiLower.1 high_digit)
      (Hex.isDigit_toAsciiLower.1 low_digit), rfl, rfl⟩

end Piece

/-! ### Decoding texts in lower-case letters -/

/-- The pieces of a text in lower-case letters are those of the text, in lower-case letters. -/
theorem exists_pieces_of_flatMap_eq_map {pieces : List Piece} {text : Bytes}
    (h : pieces.flatMap Piece.written = text.map UInt8.toAsciiLower) :
    ∃ sources : List Piece,
      sources.flatMap Piece.written = text ∧ sources.map Piece.lower = pieces := by
  induction pieces generalizing text with
  | nil => exact ⟨[], (List.map_eq_nil_iff.1 h.symm).symm, rfl⟩
  | cons piece pieces ih =>
    obtain ⟨head, rest, rfl, hhead, hrest⟩ := List.map_eq_append_iff.1 h.symm
    obtain ⟨source, rfl, rfl⟩ := Piece.exists_of_written_eq_map hhead.symm
    obtain ⟨sources, rfl, rfl⟩ := ih hrest.symm
    exact ⟨source :: sources, rfl, rfl⟩

theorem decode_map_toAsciiLower (pieces : List Piece) :
    decode ((pieces.flatMap Piece.written).map UInt8.toAsciiLower) =
      some (pieces.map Piece.hostByte) := by
  have hwritten : (pieces.map Piece.lower).flatMap Piece.written =
      (pieces.flatMap Piece.written).map UInt8.toAsciiLower := by
    rw [List.flatMap_map, List.map_flatMap]
    exact List.flatMap_congr fun piece _ => piece.written_lower
  rw [← hwritten, decode_written, List.map_map]
  exact congrArg some (List.map_congr_left fun piece _ => piece.byte_lower)

/-- Only texts that consist of pieces can be decoded once their letters are lower-case. -/
theorem exists_pieces_of_decode_map_toAsciiLower {text bytes : Bytes}
    (h : decode (text.map UInt8.toAsciiLower) = some bytes) :
    ∃ pieces : List Piece, pieces.flatMap Piece.written = text := by
  obtain ⟨lowered, hwritten, -⟩ := exists_pieces_of_decode h
  obtain ⟨pieces, hpieces, -⟩ := exists_pieces_of_flatMap_eq_map hwritten
  exact ⟨pieces, hpieces⟩

/-- What becomes of the pieces is what they stand for, in lower-case letters, just if none of them
    hides a letter. -/
theorem map_hostByte_eq_iff {pieces : List Piece} :
    pieces.map Piece.hostByte = (pieces.map Piece.byte).map UInt8.toAsciiLower ↔
      ∀ piece ∈ pieces, ¬ piece.HidesUpper := by
  rw [List.map_map, List.map_inj_left]
  exact forall₂_congr fun piece _ => Piece.hostByte_eq_iff

theorem exists_isUpper_map_hostByte_iff {pieces : List Piece} :
    (∃ b ∈ pieces.map Piece.hostByte, Text.IsUpper b) ↔ ∃ piece ∈ pieces, piece.HidesUpper := by
  simp only [List.mem_map, exists_exists_and_eq_and, Piece.isUpper_hostByte_iff]

end Percent

/-! ### Options -/

namespace Opt

theorem spelling_uriHost (s : String) : spelling .uriHost s = s.toLower := if_pos rfl

/-- The host name that is made of the pieces of a text. -/
theorem text_uriHost_eq_ok_iff {s : String} {pieces : List Percent.Piece}
    (h : pieces.flatMap Percent.Piece.written = Text.bytes s) {o : Opt} :
    text .uriHost s = .ok o ↔
      o.name = .uriHost ∧ o.encode = pieces.map Percent.Piece.hostByte := by
  have hformat : Name.uriHost.format = .text := rfl
  rw [text_eq_ok_iff, spelling_uriHost, Text.bytes_toLower, ← h, Percent.decode_map_toAsciiLower,
    and_iff_right hformat, Option.some.injEq, @eq_comm _ o.encode]

/-- A text that makes a host name consists of pieces. -/
theorem exists_pieces_of_text_uriHost {s : String} {o : Opt} (h : text .uriHost s = .ok o) :
    ∃ pieces : List Percent.Piece, pieces.flatMap Percent.Piece.written = Text.bytes s := by
  obtain ⟨-, -, hdecode⟩ := text_eq_ok_iff.1 h
  rw [spelling_uriHost, Text.bytes_toLower] at hdecode
  exact Percent.exists_pieces_of_decode_map_toAsciiLower hdecode

/-- Texts that are taken in the same spelling make the same option. -/
theorem text_congr {name : Name} {s t : String} (h : spelling name s = spelling name t) :
    text name s = text name t := by
  unfold text
  rw [h]

end Opt

namespace Percent

/-- The letters of a text become lower-case before its triplets are decoded. So a text makes a host
    name of what its pieces become: of the letters that stand for themselves in lower-case, and of
    just what the triplets stand for. The host name is what is decoded, in lower-case letters, as
    long as no triplet stands in place of an upper-case letter; and just such triplets bring
    upper-case letters into it. Texts that differ in the case of letters only, be they digits of
    triplets, make the same option; and so do texts that stand for the same letters of either case,
    as long as none of these triplets is in them. -/
theorem folding (s t : String) :
    (∀ o, Opt.text .uriHost s = .ok o ↔ ∃ pieces : List Piece,
      pieces.flatMap Piece.written = Text.bytes s ∧ o.name = .uriHost ∧
        o.encode = pieces.map Piece.hostByte) ∧
    (∀ o, Opt.text .uriHost s = .ok o →
      ∀ pieces : List Piece, pieces.flatMap Piece.written = Text.bytes s →
        ∃ host decoded, o.value = .text host ∧ decode (Text.bytes s) = some decoded ∧
          (Text.bytes host = decoded.map UInt8.toAsciiLower ↔
            ∀ piece ∈ pieces, ¬ piece.HidesUpper) ∧
          ((∃ c ∈ host.toList, c.isUpper = true) ↔ ∃ piece ∈ pieces, piece.HidesUpper)) ∧
    (s.toLower = t.toLower → Opt.text .uriHost s = Opt.text .uriHost t) ∧
    ∀ sources targets : List Piece,
      sources.flatMap Piece.written = Text.bytes s → (∀ piece ∈ sources, ¬ piece.HidesUpper) →
      targets.flatMap Piece.written = Text.bytes t → (∀ piece ∈ targets, ¬ piece.HidesUpper) →
      (sources.map Piece.byte).map UInt8.toAsciiLower =
        (targets.map Piece.byte).map UInt8.toAsciiLower →
      ∀ o, Opt.text .uriHost s = .ok o ↔ Opt.text .uriHost t = .ok o := by
  -- What is decoded is told from the pieces in the lower-cased text, and these from those of the
  -- text.
  refine ⟨fun o => ⟨fun h => ?_, ?_⟩, fun o h pieces hwritten => ?_, fun h => ?_,
    fun sources targets hs hsources ht htargets hsame o => ?_⟩
  · obtain ⟨pieces, hwritten⟩ := Opt.exists_pieces_of_text_uriHost h
    exact ⟨pieces, hwritten, (Opt.text_uriHost_eq_ok_iff hwritten).1 h⟩
  · rintro ⟨pieces, hwritten, hmade⟩
    exact (Opt.text_uriHost_eq_ok_iff hwritten).2 hmade
  · obtain ⟨hname, hencode⟩ := (Opt.text_uriHost_eq_ok_iff hwritten).1 h
    obtain ⟨host, hhost⟩ := Opt.exists_value_eq_text (hname ▸ rfl : o.name.format = .text)
    have hbytes : Text.bytes host = pieces.map Piece.hostByte := by
      rw [← hencode, Opt.encode, hhost, Opt.Value.encode]
    refine ⟨host, pieces.map Piece.byte, hhost, hwritten ▸ decode_written pieces, ?_, ?_⟩
    · rw [hbytes, map_hostByte_eq_iff]
    · rw [Text.exists_isUpper_iff, hbytes, exists_isUpper_map_hostByte_iff]
  · -- Only the lower-cased text is read, so what has the same one makes the same option.
    refine Opt.text_congr ?_
    rw [Opt.spelling_uriHost, Opt.spelling_uriHost, h]
  · -- Without hidden capitals each of the pieces stands for its letter in lower case.
    rw [Opt.text_uriHost_eq_ok_iff hs, Opt.text_uriHost_eq_ok_iff ht,
      map_hostByte_eq_iff.2 hsources, map_hostByte_eq_iff.2 htargets, hsame]

/-- One host name in two spellings, each with an upper-case letter and with a triplet in place of a
    lower-case one; and a triplet with a digit in either case. -/
theorem folding_two_spellings :
    let sources : List Piece :=
      [.plain 65 (by decide), .triplet 54 50 6 2 (by decide) (by decide)]
    let targets : List Piece :=
      [.triplet 54 49 6 1 (by decide) (by decide), .plain 66 (by decide)]
    let host : Opt := ⟨.uriHost, .text "ab", rfl, by decide, trivial⟩
    sources.flatMap Piece.written = Text.bytes "A%62" ∧
      (∀ piece ∈ sources, ¬ piece.HidesUpper) ∧
      targets.flatMap Piece.written = Text.bytes "%61B" ∧
      (∀ piece ∈ targets, ¬ piece.HidesUpper) ∧
      Opt.text .uriHost "A%62" = .ok host ∧ Opt.text .uriHost "%61B" = .ok host ∧
      (∃ decoded, decode (Text.bytes "A%62") = some decoded ∧
        Text.bytes "ab" = decoded.map UInt8.toAsciiLower) ∧
      "%6D".toLower = "%6d".toLower ∧
      Opt.text .uriHost "%6D" = Opt.text .uriHost "%6d" := by
  intro sources targets host
  obtain ⟨hmade, hform, -, hsame⟩ := folding "A%62" "%61B"
  have hs : sources.flatMap Piece.written = Text.bytes "A%62" := by decide
  have ht : targets.flatMap Piece.written = Text.bytes "%61B" := by decide
  have hsources : ∀ piece ∈ sources, ¬ piece.HidesUpper := by decide
  have htargets : ∀ piece ∈ targets, ¬ piece.HidesUpper := by decide
  have hlower : "%6D".toLower = "%6d".toLower := by
    rw [← String.toList_inj, String.toLower, String.toLower, String.toList_map, String.toList_map]
    decide
  -- The first spelling is evaluated, and the second one makes the same option.
  have hhost : Opt.text .uriHost "A%62" = .ok host :=
    (hmade _).2 ⟨sources, hs, rfl, by decide⟩
  have hhost' : Opt.text .uriHost "%61B" = .ok host :=
    (hsame sources targets hs hsources ht htargets (by decide) host).1 hhost
  obtain ⟨text, decoded, htext, hdecoded, hiff, -⟩ := hform _ hhost sources hs
  obtain rfl : "ab" = text := Opt.Value.text.inj htext
  exact ⟨hs, hsources, ht, htargets, hhost, hhost', ⟨decoded, hdecoded, hiff.2 hsources⟩, hlower,
    (folding "%6D" "%6d").2.2.1 hlower⟩

/-- A triplet in place of the first letter keeps it upper-case, and so the option is not that of the
    same name in lower-case letters. -/
theorem folding_hidden :
    ∃ host other : Opt, Opt.text .uriHost "%41BC" = .ok host ∧ Opt.text .uriHost "abc" = .ok other ∧
      decode (Text.bytes "%41BC") = some (Text.bytes "ABC") ∧ "ABC".toLower = "abc" ∧
      host.value = .text "Abc" ∧ other.value = .text "abc" ∧ host ≠ other := by
  let sources : List Piece :=
    [.triplet 52 49 4 1 (by decide) (by decide), .plain 66 (by decide), .plain 67 (by decide)]
  let targets : List Piece := [.plain 97 (by decide), .plain 98 (by decide), .plain 99 (by decide)]
  have hs : sources.flatMap Piece.written = Text.bytes "%41BC" := by decide
  have ht : targets.flatMap Piece.written = Text.bytes "abc" := by decide
  let host : Opt := ⟨.uriHost, .text "Abc", rfl, by decide, trivial⟩
  let other : Opt := ⟨.uriHost, .text "abc", rfl, by decide, trivial⟩
  have hlower : "ABC".toLower = "abc" := by
    rw [← String.toList_inj, String.toLower, String.toList_map]
    decide
  exact ⟨host, other, (Opt.text_uriHost_eq_ok_iff hs).2 ⟨rfl, by decide⟩,
    (Opt.text_uriHost_eq_ok_iff ht).2 ⟨rfl, by decide⟩, by decide, hlower, rfl, rfl, by decide⟩

end Percent

end Coap
