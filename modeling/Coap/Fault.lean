import Coap.Code
import Coap.MessageType
import Coap.Opt.Name
import Coap.Text.Percent

/-!
# Faults of messages

Why a message or one of its options is refused, one constructor per cause. A cause belongs to one
of five kinds (`Fault.kind`), has one wording (`Fault.message`), and is critical unless it
concerns an option that a receiver may skip (`Fault.isCritical`).
-/

namespace Coap

/-- What is wrong with an option that has a name. -/
inductive OptFault where
  /-- A value of some format is given where the option wants another. -/
  | format (given : Opt.Format)
  /-- The value has too few or too many bytes. -/
  | length (length : Nat)
  /-- The value has to be a number, but there are too many bytes for one. -/
  | tooWide (length : Nat)
  /-- The value has to be a text, but the bytes are not UTF-8. -/
  | notText
  /-- The bytes left by percent decoding are not UTF-8. -/
  | notTextDecoded
  /-- Some percent sign of the text lacks its two digits. -/
  | percent (text : String)
  /-- The option means nothing under this code. -/
  | meaningless (code : Code)
  /-- The option may occur once under this code, and it already does. -/
  | onlyOnce (code : Code)
  /-- An equal option is already there. -/
  | repeated
  /-- The written form of the value has more bytes than the length field can tell. -/
  | unwritable (length : Nat)
  deriving DecidableEq

/-- Why a message is refused. -/
inductive Fault where
  | typeUnset
  | idUnset
  /-- Fewer bytes than a header has. -/
  | short (length : Nat)
  | version (v : Nat)
  | option (name : Opt.Name) (why : OptFault)
  | unknownOption (number : Nat)
  | tooManyOptions
  | unknownCode (number : UInt8)
  /-- The code of an empty message on a type that cannot be empty. -/
  | emptyWithType (type : MessageType)
  /-- A request is to be made with a code that is no method. -/
  | notMethod (code : Code)
  /-- A request is to be made with a type that requests do not have. -/
  | requestType (type : MessageType)
  /-- A message is taken for a request. -/
  | notRequest (code : Code)
  /-- A response is to be made with a code that is no status. -/
  | notStatus (code : Code)
  /-- A message is taken for a response. -/
  | notResponse (code : Code)
  /-- The message ends where the header of an option should be. -/
  | optionMissing
  /-- The message ends where the length of a long value should go on. -/
  | lengthMissing (number : Nat)
  /-- The message ends within the value of an option. -/
  | valueMissing (number length left : Nat)
  deriving DecidableEq

/-- The kinds of faults. -/
inductive FaultKind where
  | header
  | option
  | tooManyOptions
  | unsupported
  | truncated
  deriving DecidableEq, Repr

/-- The wording of what is wrong with an option. -/
def OptFault.message (name : Opt.Name) : OptFault → String
  | format given => s!"{name} holds {name.format} values, not {given}"
  | length n =>
    s!"{name} value length must be between {name.entry.minLength} and {name.entry.maxLength} " ++
      s!"but is {n}"
  | tooWide n => s!"{n} bytes do not fit an unsigned integer"
  | notText => "value is not valid UTF-8"
  | notTextDecoded => "decoded value is not valid UTF-8"
  | percent text => Percent.message text
  | meaningless code => s!"{name} has no meaning in a message with code {code}"
  | onlyOnce code => s!"{name} may occur only once in a message with code {code}"
  | repeated => s!"{name} with an equal value is already present"
  | unwritable n => s!"{n} value bytes do not fit the length field"

namespace Fault

/-- The kind of a fault. -/
def kind : Fault → FaultKind
  | typeUnset | idUnset | short _ | version _ => .header
  | option _ _ | unknownOption _ => .option
  | tooManyOptions => .tooManyOptions
  | unknownCode _ | emptyWithType _ | notMethod _ | requestType _ | notRequest _ | notStatus _
  | notResponse _ => .unsupported
  | optionMissing | lengthMissing _ | valueMissing _ _ _ => .truncated

/-- The number of the option at fault. -/
def optionNumber? : Fault → Option Nat
  | option name _ => some name.number
  | unknownOption number => some number
  | _ => none

/-- Whether a receiver has to refuse the message: always, unless the fault is that of an option
    it may skip. -/
def isCritical (fault : Fault) : Bool :=
  match fault.optionNumber? with
  | some number => Opt.isCritical number
  | none => true

/-- What is wrong, without the kind of the fault. -/
def detail : Fault → String
  | typeUnset => "message type not set"
  | idUnset => "message id not set"
  | short length => s!"{length} bytes are too short for a header"
  | version v => s!"unsupported protocol version {v}"
  | option name why => why.message name
  | unknownOption _ => "unknown option"
  | tooManyOptions => "too many options (at most 15)"
  | unknownCode number => s!"unknown code {number}"
  | emptyWithType type => s!"EMPTY code on a {type} message"
  | notMethod code => s!"{code} is not a request method"
  | requestType type => s!"a request cannot be sent as {type}"
  | notRequest code => s!"{code} is not a request"
  | notStatus code => s!"{code} is not a response code"
  | notResponse code => s!"{code} is not a response"
  | optionMissing => "option header missing"
  | lengthMissing number => s!"length extension of option {number} missing"
  | valueMissing number length left => s!"option {number} needs {length} bytes, {left} left"

/-- The wording of a fault. -/
def message (fault : Fault) : String :=
  match fault.kind with
  | .header => s!"invalid header: {fault.detail}"
  | .option => s!"invalid option {fault.optionNumber?.getD 0}: {fault.detail}"
  | .tooManyOptions => fault.detail
  | .unsupported => s!"unsupported message: {fault.detail}"
  | .truncated => s!"truncated message: {fault.detail}"

instance : ToString Fault := ⟨message⟩

/-- A fault is one of an option just if it has an option number. -/
theorem kind_eq_option_iff {fault : Fault} :
    fault.kind = .option ↔ fault.optionNumber?.isSome := by
  cases fault <;> simp [kind, optionNumber?]

end Fault

end Coap
