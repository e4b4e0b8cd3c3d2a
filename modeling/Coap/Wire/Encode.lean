import Coap.Message
import Coap.Wire.Frame
import Coap.Wire.Header

/-!
# The written form of messages

A message is written as its header, the frames of its options and its payload. Its type, its id
and its code have to be settled, no value may be longer than its length field can tell, and its
frames, fenceposts included, have to be few enough for the count in the header.

* `unwritable?_eq_none`: no option has a value that is too long.
-/

namespace Coap.Message

/-- The frames of the options of a message. -/
def frames (m : Message) : List Wire.Frame := Wire.Frame.ofOptions 0 m.options.toList

/-- The first option with a value that is too long for its length field. -/
def unwritable? (m : Message) : Option Opt :=
  m.options.toList.find? fun o => Opt.Name.longest < o.encode.length

/-- The registry rules out values that are too long. -/
theorem unwritable?_eq_none (m : Message) : m.unwritable? = none :=
  List.find?_eq_none.2 fun o _ => by simpa using o.length_encode_le

/-- The written form of a message, or the first of the reasons why it has none. -/
def encode (m : Message) : Except Fault Bytes :=
  match m.type?, m.id?, m.code with
  | none, _, _ => .error .typeUnset
  | some _, none, _ => .error .idUnset
  | some _, some _, .unassigned number => .error (.unknownCode number)
  | some type, some id, code =>
    match m.unwritable? with
    | some o => .error (.option o.name (.unwritable o.encode.length))
    | none =>
      if maxOptions < m.frames.length then .error .tooManyOptions
      else
        .ok (Wire.Header.bytes ⟨m.version, type, m.frames.length, code.number, id⟩ ++
          m.frames.flatMap Wire.Frame.bytes ++ m.payload)

end Coap.Message
