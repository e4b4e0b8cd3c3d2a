import Coap.Bytes.BigEndian

/-!
# Network addresses

An address is that of a host, of one of two families, with a port. It reads `127.0.0.1:5683` or
`[::1]:5683` (`Address.render`), where the longest run of zero groups of a host of the second
family is left out. Every way to write an address that leaves no doubt is read (`Address.parse?`):
groups may have leading zeros, any run of zeros may be left out, and the last two groups may be
written as a host of the first family.
-/

namespace Coap

/-- The address of a host and a port. -/
inductive Address where
  /-- A host of 32 bits. -/
  | v4 (host : BitVec 32) (port : UInt16)
  /-- A host of 128 bits, on the link with a given number if that is not zero. -/
  | v6 (host : BitVec 128) (scope : UInt32) (port : UInt16)
  deriving DecidableEq, Repr

namespace Address

/-! ### Writing -/

/-- The low `count` digits of a number in a base, the most significant one first. -/
def digits (base : Nat) : (count n : Nat) → List Nat
  | 0, _ => []
  | count + 1, n => digits base count (n / base) ++ [n % base]

/-- The digits of a host of 32 bits, in the order of writing. -/
def octets (host : BitVec 32) : List Nat := digits 256 4 host.toNat

/-- The groups of a host of 128 bits, in the order of writing. -/
def groups (host : BitVec 128) : List Nat := digits 65536 8 host.toNat

/-- A host of 32 bits. -/
def renderOctets (octets : List Nat) : String := ".".intercalate (octets.map toString)

/-- Groups, in hexadecimal digits. -/
def renderGroups (groups : List Nat) : String :=
  ":".intercalate (groups.map fun group => String.ofList (Nat.toDigits 16 group))

/-- The number of zero groups from a place on. -/
def zerosFrom (groups : List Nat) (start : Nat) : Nat :=
  ((groups.drop start).takeWhile (· == 0)).length

/-- The start of the first one of the longest runs of zero groups. -/
def longestRun (groups : List Nat) : Nat :=
  (List.range groups.length).foldl
    (fun best start => if zerosFrom groups best < zerosFrom groups start then start else best) 0

/-- A host of 128 bits. A host of 32 bits that is mapped into these reads like one. -/
def renderHost (groups : List Nat) : String :=
  match groups with
  | [0, 0, 0, 0, 0, 65535, high, low] =>
    "::ffff:" ++ renderOctets [high / 256, high % 256, low / 256, low % 256]
  | _ =>
    let start := longestRun groups
    let length := zerosFrom groups start
    if 1 < length then
      renderGroups (groups.take start) ++ "::" ++ renderGroups (groups.drop (start + length))
    else renderGroups groups

/-- An address as text. -/
def render : Address → String
  | v4 host port => s!"{renderOctets (octets host)}:{port}"
  | v6 host scope port =>
    let suffix := if scope = 0 then "" else s!"%{scope}"
    s!"[{renderHost (groups host)}{suffix}]:{port}"

instance : ToString Address := ⟨render⟩

/-- A list of numbers by which addresses are ordered: by family, host, port and link. -/
def key : Address → List Nat
  | v4 host port => [4, host.toNat, port.toNat]
  | v6 host scope port => [6, host.toNat, port.toNat, scope.toNat]

/-! ### Reading -/

/-- The value of a digit in a base up to 16. -/
def digit? (base : Nat) (c : Char) : Option Nat :=
  let value? :=
    if '0' ≤ c ∧ c ≤ '9' then some (c.toNat - '0'.toNat)
    else if 'a' ≤ c ∧ c ≤ 'f' then some (c.toNat - 'a'.toNat + 10)
    else if 'A' ≤ c ∧ c ≤ 'F' then some (c.toNat - 'A'.toNat + 10)
    else none
  value?.filter (· < base)

/-- Reads a number, from all digits at the front. -/
def number (base : Nat) (cs : List Char) : Option (Nat × List Char) :=
  match cs.span fun c => (digit? base c).isSome with
  | ([], _) => none
  | (digits, rest) => some ((digits.filterMap (digit? base)).foldl (base * · + ·) 0, rest)

/-- Reads a number below a limit. -/
def numberBelow (base limit : Nat) (cs : List Char) : Option (Nat × List Char) :=
  (number base cs).filter fun (n, _) => n < limit

/-- Reads a decimal number below 256 that has no leading zeros. -/
def octet (cs : List Char) : Option (Nat × List Char) :=
  if cs.head? = some '0' then (number 10 cs).filter fun (_, rest) => rest = cs.tail
  else numberBelow 10 256 cs

/-- Reads a hexadecimal number of at most four digits. -/
def group (cs : List Char) : Option (Nat × List Char) :=
  (number 16 cs).filter fun (_, rest) => cs.length ≤ rest.length + 4

/-- Reads a given character. -/
def char (c : Char) : List Char → Option (List Char)
  | [] => none
  | c' :: rest => if c' = c then some rest else none

/-- Reads a host of 32 bits. -/
def readOctets (cs : List Char) : Option (Nat × List Char) := do
  let (a, cs) ← octet cs
  let (b, cs) ← octet (← char '.' cs)
  let (c, cs) ← octet (← char '.' cs)
  let (d, cs) ← octet (← char '.' cs)
  return (((a * 256 + b) * 256 + c) * 256 + d, cs)

/-- Reads at most `limit` groups with colons between them. The last two may be a host of 32 bits,
    as the second component tells. -/
def readGroups (isFirst : Bool) : (limit : Nat) → List Char → List Nat × Bool × List Char
  | 0, cs => ([], false, cs)
  | limit + 1, cs =>
    match if isFirst then some cs else char ':' cs with
    | none => ([], false, cs)
    | some after =>
      match if 0 < limit then readOctets after else none with
      | some (n, rest) => ([n / 65536, n % 65536], true, rest)
      | none =>
        match group after with
        | none => ([], false, cs)
        | some (n, rest) =>
          let (groups, isMapped, rest) := readGroups false limit rest
          (n :: groups, isMapped, rest)

/-- Reads a host of 128 bits. -/
def readHost (cs : List Char) : Option (Nat × List Char) := do
  let (head, isMapped, rest) := readGroups true 8 cs
  let value (groups : List Nat) : Nat := groups.foldl (65536 * · + ·) 0
  if head.length = 8 then return (value head, rest)
  if isMapped then none
  let rest ← char ':' (← char ':' rest)
  let (tail, _, rest) := readGroups true (7 - head.length) rest
  return (value (head ++ List.replicate (8 - head.length - tail.length) 0 ++ tail), rest)

/-- Reads a port at the end. -/
def readPort (cs : List Char) : Option UInt16 := do
  let (port, rest) ← numberBelow 10 UInt16.size (← char ':' cs)
  if rest.isEmpty then some (UInt16.ofNat port) else none

/-- Reads the number of a link, if there is one. -/
def readScope (cs : List Char) : Option (Nat × List Char) :=
  match char '%' cs with
  | none => some (0, cs)
  | some rest => numberBelow 10 UInt32.size rest

/-- The address that a text denotes. -/
def parse? (text : String) : Option Address :=
  let cs := text.toList
  match readOctets cs with
  | some (host, rest) => (readPort rest).map (v4 (BitVec.ofNat 32 host))
  | none => do
    let (host, rest) ← readHost (← char '[' cs)
    let (scope, rest) ← readScope rest
    let port ← readPort (← char ']' rest)
    return v6 (BitVec.ofNat 128 host) (UInt32.ofNat scope) port

end Address

end Coap
