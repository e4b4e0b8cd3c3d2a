/-!
# Codes

The code of a message is a byte: `0` for the empty message, `1` to `4` for the methods of
requests, and a class (three bits) with a detail (five bits) for the status of a response. Bytes
to which nothing is assigned are kept as they are.

* `ofNumber_number`: reading the number of an assigned code gives the code back.
-/

namespace Coap

/-- The code of a message. -/
inductive Code where
  | empty
  | get
  | post
  | put
  | delete
  | created
  | deleted
  | valid
  | changed
  | content
  | badRequest
  | unauthorized
  | badOption
  | forbidden
  | notFound
  | methodNotAllowed
  | preconditionFailed
  | requestEntityTooLarge
  | unsupportedMediaType
  | internalServerError
  | notImplemented
  | badGateway
  | serviceUnavailable
  | gatewayTimeout
  | proxyingNotSupported
  /-- A byte that stands for no code known here. -/
  | unassigned (number : UInt8)
  deriving DecidableEq, Repr

namespace Code

/-- The byte of a code. -/
def number : Code → UInt8
  | empty => 0
  | get => 1
  | post => 2
  | put => 3
  | delete => 4
  | created => 65
  | deleted => 66
  | valid => 67
  | changed => 68
  | content => 69
  | badRequest => 128
  | unauthorized => 129
  | badOption => 130
  | forbidden => 131
  | notFound => 132
  | methodNotAllowed => 133
  | preconditionFailed => 140
  | requestEntityTooLarge => 141
  | unsupportedMediaType => 143
  | internalServerError => 160
  | notImplemented => 161
  | badGateway => 162
  | serviceUnavailable => 163
  | gatewayTimeout => 164
  | proxyingNotSupported => 165
  | unassigned number => number

/-- The codes with a meaning, in ascending order. -/
def assigned : List Code :=
  [empty, get, post, put, delete, created, deleted, valid, changed, content, badRequest,
    unauthorized, badOption, forbidden, notFound, methodNotAllowed, preconditionFailed,
    requestEntityTooLarge, unsupportedMediaType, internalServerError, notImplemented, badGateway,
    serviceUnavailable, gatewayTimeout, proxyingNotSupported]

/-- The code of a byte. -/
def ofNumber (number : UInt8) : Code :=
  (assigned.find? fun code => code.number == number).getD (unassigned number)

/-- Whether a code is the method of a request. -/
def isRequest : Code → Bool
  | get | post | put | delete => true
  | _ => false

/-- Whether no meaning is assigned to a code. -/
def isUnassigned : Code → Bool
  | unassigned _ => true
  | _ => false

/-- Whether a code is the status of a response. -/
def isResponse (code : Code) : Bool :=
  !code.isUnassigned && 64 ≤ code.number

/-- Whether a code is that of a bare acknowledgement or reset. -/
def isEmpty (code : Code) : Bool := code == empty

/-- The class of a status, its upper three bits. -/
def statusClass (code : Code) : Nat := code.number.toNat / 32

/-- The detail of a status, its lower five bits. -/
def detail (code : Code) : Nat := code.number.toNat % 32

/-- The name of an assigned code; an unassigned one has its byte instead. -/
def name : Code → String
  | empty => "Empty"
  | get => "Get"
  | post => "Post"
  | put => "Put"
  | delete => "Delete"
  | created => "Created"
  | deleted => "Deleted"
  | valid => "Valid"
  | changed => "Changed"
  | content => "Content"
  | badRequest => "BadRequest"
  | unauthorized => "Unauthorized"
  | badOption => "BadOption"
  | forbidden => "Forbidden"
  | notFound => "NotFound"
  | methodNotAllowed => "MethodNotAllowed"
  | preconditionFailed => "PreconditionFailed"
  | requestEntityTooLarge => "RequestEntityTooLarge"
  | unsupportedMediaType => "UnsupportedMediaType"
  | internalServerError => "InternalServerError"
  | notImplemented => "NotImplemented"
  | badGateway => "BadGateway"
  | serviceUnavailable => "ServiceUnavailable"
  | gatewayTimeout => "GatewayTimeout"
  | proxyingNotSupported => "ProxyingNotSupported"
  | unassigned number => s!"Unknown({number})"

/-- A number in two digits at least. -/
def twoDigits (n : Nat) : String :=
  if n < 10 then s!"0{n}" else toString n

/-- How a code reads in messages: a method by its name, a status by class, detail and name. -/
def label : Code → String
  | empty => "EMPTY"
  | get => "GET"
  | post => "POST"
  | put => "PUT"
  | delete => "DELETE"
  | unassigned number => s!"CODE{number}"
  | code => s!"{code.statusClass}.{twoDigits code.detail} {code.name}"

instance : ToString Code := ⟨label⟩

/-- No status is a method. -/
theorem isRequest_of_isResponse {code : Code} (h : code.isResponse) : code.isRequest = false := by
  cases code with
  | get | post | put | delete => cases h
  | _ => rfl

/-- Reading the number of an assigned code gives the code back. -/
theorem ofNumber_number {code : Code} (h : code.isUnassigned = false) :
    ofNumber code.number = code := by
  cases code with
  | unassigned n => simp [isUnassigned] at h
  | _ => rfl

end Code

end Coap
