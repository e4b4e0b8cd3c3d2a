/-!
# The registry of options

Every option has a number, a format for its values and bounds on their length. A message carries
the number only, and a receiver that does not know an option may skip it if the number is even
(*elective*) and has to refuse the message if it is odd (*critical*). Number 10 has two meanings,
one in requests and one in responses.

* `number_le`, `maxLength_le`: how large the numbers and the values of options get.
-/

namespace Coap.Opt

/-- What the values of an option are. -/
inductive Format where
  /-- No value. -/
  | empty
  /-- Bytes without a meaning of their own. -/
  | octets
  /-- A number in network byte order. -/
  | uint
  /-- A text in UTF-8. -/
  | text
  deriving DecidableEq, Repr

/-- The name of a format in error messages. -/
def Format.label : Format → String
  | empty => "Empty"
  | octets => "Opaque"
  | uint => "Uint"
  | text => "String"

instance : ToString Format := ⟨Format.label⟩

/-- An option known here. -/
inductive Name where
  | contentType
  | maxAge
  | proxyUri
  | etag
  | uriHost
  | locationPath
  | uriPort
  | locationQuery
  | uriPath
  | observeRequest
  | observeResponse
  | token
  | accept
  | ifMatch
  | uriQuery
  | ifNoneMatch
  deriving DecidableEq, Repr

/-- What the registry says of an option. -/
structure Entry where
  number : Nat
  format : Format
  /-- The fewest bytes of a value. -/
  minLength : Nat
  /-- The most bytes of a value. -/
  maxLength : Nat
  label : String

namespace Name

/-- The most bytes that any value may have: all that the length field can tell. -/
def longest : Nat := 270

/-- The registry entry of an option. -/
def entry : Name → Entry
  | contentType => ⟨1, .uint, 0, 2, "Content-Type"⟩
  | maxAge => ⟨2, .uint, 0, 4, "Max-Age"⟩
  | proxyUri => ⟨3, .text, 1, longest, "Proxy-Uri"⟩
  | etag => ⟨4, .octets, 1, 8, "ETag"⟩
  | uriHost => ⟨5, .text, 1, longest, "Uri-Host"⟩
  | locationPath => ⟨6, .text, 1, longest, "Location-Path"⟩
  | uriPort => ⟨7, .uint, 0, 2, "Uri-Port"⟩
  | locationQuery => ⟨8, .text, 1, longest, "Location-Query"⟩
  | uriPath => ⟨9, .text, 1, longest, "Uri-Path"⟩
  | observeRequest => ⟨10, .uint, 0, 2, "Observe(request)"⟩
  | observeResponse => ⟨10, .uint, 0, 2, "Observe(response)"⟩
  | token => ⟨11, .octets, 1, 8, "Token"⟩
  | accept => ⟨12, .uint, 0, 2, "Accept"⟩
  | ifMatch => ⟨13, .octets, 0, 8, "If-Match"⟩
  | uriQuery => ⟨15, .text, 1, longest, "Uri-Query"⟩
  | ifNoneMatch => ⟨21, .empty, 0, 0, "If-None-Match"⟩

/-- The number that stands for an option on the wire. -/
def number (name : Name) : Nat := name.entry.number

/-- What the values of an option are. -/
def format (name : Name) : Format := name.entry.format

/-- How an option reads in messages. -/
def label (name : Name) : String := name.entry.label

instance : ToString Name := ⟨label⟩

/-- The options known here, in ascending order of their numbers. -/
def registry : List Name :=
  [contentType, maxAge, proxyUri, etag, uriHost, locationPath, uriPort, locationQuery, uriPath,
    observeRequest, observeResponse, token, accept, ifMatch, uriQuery, ifNoneMatch]

/-- If-None-Match has the largest number. -/
theorem number_le (name : Name) : name.number ≤ 21 := by cases name <;> decide

/-- No value is longer than the length field can tell. -/
theorem maxLength_le (name : Name) : name.entry.maxLength ≤ longest := by
  cases name <;> decide

end Name

/-- Whether a receiver has to understand the option with a given number. -/
def isCritical (number : Nat) : Bool := number % 2 == 1

end Coap.Opt
