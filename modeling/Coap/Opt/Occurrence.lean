import Coap.Code
import Coap.Opt.Name

/-!
# Which option may stand in which message

An option has a meaning only under some codes, and there it may stand once or several times. The
code also tells which of the two meanings of number 10 is the one at hand (`Name.ofNumber?`).

* `number_of_ofNumber?`: the option found for a number has that number.
-/

namespace Coap.Opt

/-- How often an option may occur in a message. -/
inductive Occurrence where
  /-- The option has no meaning there. -/
  | never
  | once
  | repeatable
  deriving DecidableEq, Repr

namespace Name

/-- How often an option may occur in a request with a given method. -/
def occurrenceInRequest (method : Code) : Name → Occurrence
  | proxyUri | uriHost | uriPort | token => .once
  | uriPath | uriQuery | accept => .repeatable
  | contentType => if method = .post ∨ method = .put then .once else .never
  | etag => if method = .get then .repeatable else .never
  | observeRequest => if method = .get then .once else .never
  | ifMatch => if method = .put then .repeatable else .never
  | ifNoneMatch => if method = .put then .once else .never
  | _ => .never

/-- How often an option may occur in a response with a given status. -/
def occurrenceInResponse (status : Code) : Name → Occurrence
  | contentType | maxAge | token => .once
  | etag | observeResponse => if status = .valid ∨ status = .content then .once else .never
  | locationPath | locationQuery => if status = .created then .repeatable else .never
  | _ => .never

/-- How often an option may occur in a message with a given code. -/
def occurrence (code : Code) (name : Name) : Occurrence :=
  if code.isRequest then occurrenceInRequest code name
  else if code.isResponse then occurrenceInResponse code name
  else .never

/-- The option that a number stands for in a message with a given code. -/
def ofNumber? (code : Code) (number : Nat) : Option Name :=
  if number = observeRequest.number then
    some (if code.isRequest then observeRequest else observeResponse)
  else registry.find? fun name => name.number == number

/-- The option found for a number has that number. -/
theorem number_of_ofNumber? {code : Code} {number : Nat} {name : Name}
    (h : ofNumber? code number = some name) : name.number = number := by
  rw [ofNumber?] at h
  split at h
  · rename_i hn
    rw [hn, ← Option.some.inj h]
    split <;> rfl
  · simpa using List.find?_some h

end Name

end Coap.Opt
