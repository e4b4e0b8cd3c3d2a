import Coap.Message
import Coap.Wire.Frame
import Coap.Wire.Header

/-!
# Reading messages

A datagram is read as a header, as many option frames as the header counts and a payload. An
option that is unknown, malformed or not allowed under the code makes the whole message unreadable
if it is critical and is left out otherwise; the options after it keep their numbers all the same.
-/

namespace Coap.Wire

/-- The option of a frame with a given number, in a message with a given code. -/
def resolve (code : Code) (number : Nat) (value : Bytes) : Except Fault Opt :=
  match Opt.Name.ofNumber? code number with
  | some name => Opt.ofBytes name value
  | none => .error (.unknownOption number)

/-- The options after a frame: with its option, if there is one and it may be added, and without
    it if a receiver may skip it. -/
def keep (code : Code) (kept : Options) (number : Nat) (value : Bytes) : Except Fault Options :=
  if isFencepost number then .ok kept
  else
    match (resolve code number value).bind (kept.add code) with
    | .ok options => .ok options
    | .error fault => if fault.isCritical then .error fault else .ok kept

/-- Reads a given count of frames, after the number `last` and with the options `kept` so far.
    Gives the options and what follows the frames. -/
def readOptions (code : Code) : (count last : Nat) → (kept : Options) → Bytes →
    Except Fault (Options × Bytes)
  | 0, _, kept, rest => .ok (kept, rest)
  | count + 1, last, kept, bytes =>
    match Frame.take last bytes with
    | .error fault => .error fault
    | .ok (frame, rest) =>
      match keep code kept (last + frame.delta) frame.value with
      | .error fault => .error fault
      | .ok kept => readOptions code count (last + frame.delta) kept rest

end Coap.Wire

namespace Coap.Message

open Wire

/-- What the header rules out, the version first, before any option is read. -/
def headerFault? (h : Header) : Option Fault :=
  if h.version ≠ protocolVersion then some (.version h.version)
  else
    match Code.ofNumber h.code, h.type with
    | .unassigned number, _ => some (.unknownCode number)
    | .empty, .con => some (.emptyWithType .con)
    | .empty, .non => some (.emptyWithType .non)
    | _, _ => none

/-- The message that a datagram holds, or why it holds none. The payload of an empty message is
    dropped. -/
def decode (datagram : Bytes) : Except Fault Message :=
  match Header.ofBytes? datagram with
  | none => .error (.short datagram.length)
  | some (h, body) =>
    match headerFault? h with
    | some fault => .error fault
    | none =>
      let code := Code.ofNumber h.code
      match readOptions code h.count 0 ∅ body with
      | .error fault => .error fault
      | .ok (options, rest) =>
        .ok
          { type? := some h.type
            code
            id? := some h.id
            options
            payload := if code.isEmpty then [] else rest }

end Coap.Message
