import Coap.Fault
import Coap.Opt.Value
import Coap.Text.Percent

/-!
# Options

An option is a name with a value that the registry admits for it: of the right format, with a
length within the bounds, and, for a number, wide enough. It is read from its written form
(`Opt.ofBytes`) or made from a value (`Opt.uint`, `Opt.text`, `Opt.octets`, `Opt.empty`).

* `uint_eq_ok_iff`, `octets_eq_ok_iff`, `empty_eq_ok_iff`, `text_eq_ok_iff`: which options are made;
* `ofBytes_encode`: an option is read back from its written form;
* `ofBytes_eq_ok_iff`: what is read from some bytes is the option with that written form.
-/

namespace Coap

namespace Opt

/-- Whether values of an option may have a given number of bytes. -/
def Name.Admits (name : Name) (length : Nat) : Prop :=
  name.entry.minLength ≤ length ∧ length ≤ name.entry.maxLength

instance (name : Name) (length : Nat) : Decidable (name.Admits length) :=
  inferInstanceAs (Decidable (_ ∧ _))

/-- Whether a value is one that an option may have. -/
structure Value.Fits (value : Value) (name : Name) : Prop where
  format_eq : value.format = name.format
  admits : name.Admits value.length
  sound : value.IsSound

end Opt

/-- An option of a message. -/
structure Opt where
  name : Opt.Name
  value : Opt.Value
  fits : value.Fits name
  deriving DecidableEq

namespace Opt

/-- The number of an option. -/
def number (o : Opt) : Nat := o.name.number

/-- The written form of the value of an option. -/
def encode (o : Opt) : Bytes := o.value.encode

/-- The value of a numeric option. -/
def uint? (o : Opt) : Option Nat :=
  match o.value with
  | .uint number _ => some number
  | _ => none

/-- The value of an option that holds bytes. -/
def octets? (o : Opt) : Option Bytes :=
  match o.value with
  | .octets bytes => some bytes
  | _ => none

/-- The value of an option that holds a text. -/
def text? (o : Opt) : Option String :=
  match o.value with
  | .text s => some s
  | _ => none

/-- How an option reads in messages. -/
def render (o : Opt) : String :=
  match o.value with
  | .empty => o.name.label
  | .octets bytes => s!"{o.name}: 0x{Hex.ofBytes bytes}"
  | .uint number _ => s!"{o.name}: {number}"
  | .text s => s!"{o.name}: \"{s}\""

instance : ToString Opt := ⟨render⟩

/-! ### Reading options -/

/-- An option without a value has no room for one. -/
theorem maxLength_eq_zero {name : Name} (h : name.format = .empty) : name.entry.maxLength = 0 := by
  revert h
  cases name <;> decide

/-- Values of the empty format have no bytes. -/
theorem eq_nil_of_admits {name : Name} {bytes : Bytes} (h : name.Admits bytes.length)
    (hf : name.format = .empty) : bytes = [] := by
  have hmax := h.2
  rw [maxLength_eq_zero hf] at hmax
  exact List.eq_nil_of_length_eq_zero (Nat.le_zero.1 hmax)

/-- A number of the registry is never too wide. -/
theorem maxLength_le_widest {name : Name} (h : name.format = .uint) :
    name.entry.maxLength ≤ Value.widest := by
  revert h
  cases name <;> decide

/-- A value that is read from bytes of a right length is one that the option may have. -/
theorem Value.fits_of_decode {name : Name} {bytes : Bytes} {value : Value}
    (h : Value.decode name.format bytes = .ok value) (hb : name.Admits bytes.length) :
    value.Fits name where
  format_eq := Value.format_of_decode h
  sound := Value.isSound_of_decode h
  admits := by
    rw [← Value.length_encode, Value.encode_eq_of_decode h (eq_nil_of_admits hb)]
    exact hb

/-- The option with a given name and written form. -/
def ofBytes (name : Name) (bytes : Bytes) : Except Fault Opt :=
  if hb : name.Admits bytes.length then
    match h : Value.decode name.format bytes with
    | .ok value => .ok ⟨name, value, Value.fits_of_decode h hb⟩
    | .error why => .error (.option name why)
  else .error (.option name (.length bytes.length))

/-! ### Making options -/

/-- The numeric option with a given value, in as few bytes as it needs. -/
def uint (name : Name) (number : Nat) : Except Fault Opt :=
  if hf : name.format = .uint then
    if hb : name.Admits (BigEndian.width number) then
      .ok
        ⟨name, .uint number (BigEndian.width number), hf.symm, hb, BigEndian.lt_bound_width number⟩
    else .error (.option name (.length (BigEndian.width number)))
  else .error (.option name (.format .uint))

/-- The option with the given bytes as its value. -/
def octets (name : Name) (bytes : Bytes) : Except Fault Opt :=
  if hf : name.format = .octets then
    if hb : name.Admits bytes.length then .ok ⟨name, .octets bytes, hf.symm, hb, trivial⟩
    else .error (.option name (.length bytes.length))
  else .error (.option name (.format .octets))

/-- The option that has no value. -/
def empty (name : Name) : Except Fault Opt :=
  if hf : name.format = .empty then
    .ok ⟨name, .empty, hf.symm, by revert hf; cases name <;> decide, trivial⟩
  else .error (.option name (.format .empty))

/-- How a text is taken before percent decoding: the letters of a host name do not distinguish
    case, so they become lower-case. -/
def spelling (name : Name) (s : String) : String :=
  if name = .uriHost then s.toLower else s

/-- A text takes up as many bytes as it is read from. -/
theorem admits_text {name : Name} {bytes : Bytes} {s : String}
    (h : Text.ofBytes? bytes = some s) (hb : name.Admits bytes.length) :
    name.Admits (Value.text s).length := by
  rwa [Value.length, Text.ofBytes?_eq_some_iff.1 h]

/-- The option whose value is written as a percent encoded text. -/
def text (name : Name) (s : String) : Except Fault Opt :=
  if hf : name.format = .text then
    match Percent.decode (Text.bytes (spelling name s)) with
    | none => .error (.option name (.percent (spelling name s)))
    | some bytes =>
      if hb : name.Admits bytes.length then
        match h : Text.ofBytes? bytes with
        | none => .error (.option name .notTextDecoded)
        | some decoded =>
          .ok ⟨name, .text decoded, hf.symm, admits_text h hb, trivial⟩
      else .error (.option name (.length bytes.length))
  else .error (.option name (.format .text))

/-- There is an option for each value that the registry admits for a name. -/
theorem exists_value_eq_iff {name : Name} {value : Value} :
    (∃ o : Opt, o.name = name ∧ o.value = value) ↔ value.Fits name := by
  constructor
  · rintro ⟨o, rfl, rfl⟩
    exact o.fits
  · intro h
    exact ⟨⟨name, value, h⟩, rfl, rfl⟩

/-- An option of a name whose values are texts holds one. -/
theorem exists_value_eq_text {o : Opt} (h : o.name.format = .text) : ∃ s, o.value = .text s := by
  obtain ⟨name, value, fits⟩ := o
  cases value with
  | text s => exact ⟨s, rfl⟩
  | _ => cases fits.format_eq.trans h

/-- A number makes an option just if it has room for it, in its shortest form. -/
theorem uint_eq_ok_iff {name : Name} {number : Nat} {o : Opt} :
    uint name number = .ok o ↔
      o.name = name ∧ o.value = .uint number (BigEndian.width number) := by
  constructor
  · intro h
    rw [uint] at h
    split at h
    · split at h
      · obtain rfl := Except.ok.inj h
        exact ⟨rfl, rfl⟩
      · cases h
    · cases h
  · obtain ⟨name, value, fits⟩ := o
    rintro ⟨rfl, rfl⟩
    exact (dif_pos fits.format_eq.symm).trans (dif_pos fits.admits)

theorem octets_eq_ok_iff {name : Name} {bytes : Bytes} {o : Opt} :
    octets name bytes = .ok o ↔ o.name = name ∧ o.value = .octets bytes := by
  constructor
  · intro h
    rw [octets] at h
    split at h
    · split at h
      · obtain rfl := Except.ok.inj h
        exact ⟨rfl, rfl⟩
      · cases h
    · cases h
  · obtain ⟨name, value, fits⟩ := o
    rintro ⟨rfl, rfl⟩
    exact (dif_pos fits.format_eq.symm).trans (dif_pos fits.admits)

theorem empty_eq_ok_iff {name : Name} {o : Opt} :
    empty name = .ok o ↔ o.name = name ∧ o.value = .empty := by
  constructor
  · intro h
    rw [empty] at h
    split at h
    · obtain rfl := Except.ok.inj h
      exact ⟨rfl, rfl⟩
    · cases h
  · obtain ⟨name, value, fits⟩ := o
    rintro ⟨rfl, rfl⟩
    exact dif_pos fits.format_eq.symm

/-- The option with a given text is the one that has the decoded text as its written form. -/
theorem text_eq_ok_iff {name : Name} {s : String} {o : Opt} :
    text name s = .ok o ↔ name.format = .text ∧ o.name = name ∧
      Percent.decode (Text.bytes (spelling name s)) = some o.encode := by
  constructor
  · intro h
    rw [text] at h
    -- Every branch but one is a fault: of the kind, the escapes, the length or the encoding.
    split at h
    · rename_i hf
      split at h
      · cases h
      rename_i bytes hdecode
      split at h
      · split at h
        · cases h
        rename_i decoded hbytes
        obtain rfl := Except.ok.inj h
        refine ⟨hf, rfl, hdecode.trans (congrArg some ?_)⟩
        exact (Text.ofBytes?_eq_some_iff.1 hbytes).symm
      · cases h
    · cases h
  · -- The value is valid already, so none of the branches that are faults is taken.
    rintro ⟨hf, rfl, hdecode⟩
    obtain ⟨name, value, fits⟩ := o
    cases value with
    | text decoded =>
      have hbytes : Text.ofBytes? (Text.bytes decoded) = some decoded := Text.ofBytes?_bytes decoded
      have hadmits : name.Admits (Text.bytes decoded).length := fits.admits
      rw [text, dif_pos hf, hdecode]
      dsimp only [encode, Value.encode]
      rw [dif_pos hadmits]
      split
      · rename_i hnone
        cases hnone.symm.trans hbytes
      · rename_i decoded' hsome
        obtain rfl := Option.some.inj (hsome.symm.trans hbytes)
        rfl
    | _ => cases fits.format_eq.trans hf

/-! ### Written forms -/

/-- No value is longer than the longest one that any option admits. -/
theorem length_encode_le (o : Opt) : o.encode.length ≤ Name.longest := by
  rw [encode, Value.length_encode]
  exact Nat.le_trans o.fits.admits.2 o.name.maxLength_le

/-- An option is read back from its written form. -/
theorem ofBytes_encode (o : Opt) : ofBytes o.name o.encode = .ok o := by
  obtain ⟨name, value, hf, hb, hs⟩ := o
  have hd : Value.decode name.format value.encode = .ok value :=
    hf ▸ Value.decode_encode hs fun hu => Nat.le_trans hb.2 (maxLength_le_widest (hf ▸ hu))
  have hb' : name.Admits value.encode.length := by rwa [Value.length_encode]
  simp only [encode]
  rw [ofBytes, dif_pos hb']
  split
  · rename_i v h
    rw [hd] at h
    cases h
    rfl
  · rename_i h
    rw [hd] at h
    cases h

/-- What is read from some bytes is the option with that name and written form. -/
theorem ofBytes_eq_ok_iff {name : Name} {bytes : Bytes} {o : Opt} :
    ofBytes name bytes = .ok o ↔ o.name = name ∧ o.encode = bytes := by
  constructor
  · intro h
    unfold ofBytes at h
    split at h
    · rename_i hb
      split at h
      · rename_i value hv
        cases h
        exact ⟨rfl, Value.encode_eq_of_decode hv (eq_nil_of_admits hb)⟩
      · cases h
    · cases h
  · rintro ⟨rfl, rfl⟩
    exact ofBytes_encode o

/-- Options of one name are equal just if their written forms are. -/
theorem eq_iff_encode_eq {a b : Opt} (h : a.name = b.name) : a = b ↔ a.encode = b.encode := by
  refine ⟨fun e => e ▸ rfl, fun e => ?_⟩
  have hb := ofBytes_encode b
  rw [← h, ← e, ofBytes_encode a] at hb
  exact Except.ok.inj hb

end Opt

end Coap
