import Coap.CommandLine.Flags
import Coap.Net.Address
import Coap.Time.Timing
import Coap.Directory

/-!
# Commands

The program serves static texts (`server`) or fetches one resource and prints it (`get`). The
flags of reliable delivery are taken before and behind the name of the command, where the latter
win.
-/

namespace Coap.CommandLine

/-- The settings of reliable delivery. -/
structure Delivery where
  /-- The first time-out, in milliseconds. -/
  ackTimeout : Nat := 2000
  /-- How often a message is sent again. -/
  maxRetransmit : Nat := 4
  deriving DecidableEq, Repr

/-- The timing that the settings ask for. -/
def Delivery.timing (d : Delivery) : Timing :=
  { ackTimeout := d.ackTimeout, maxRetransmit := d.maxRetransmit }

/-- The settings of a server. -/
structure Serving where
  /-- The address to listen at. -/
  address : Address := .v4 0 5683
  /-- The texts that are served, by path. -/
  resources : List (String × String) := []
  /-- How many datagrams may be worked on at a time. The endpoint needs no more than one. -/
  maxWorkers : Nat := 64
  deriving DecidableEq, Repr

/-- The most datagrams that can be worked on at a time: they are counted in 61 bits. -/
def workerLimit : Nat := 0x1fffffffffffffff

/-- The settings of a fetch. -/
structure Fetching where
  path : String := Directory.wellKnownCore
  /-- Whether the request is to be acknowledged. -/
  confirmable : Bool := true
  /-- How many seconds to wait for a response of its own. -/
  timeout : Nat := 10
  deriving DecidableEq, Repr

/-- What the program is to do. -/
inductive Command where
  | serve (delivery : Delivery) (serving : Serving)
  | fetch (delivery : Delivery) (server : Address) (fetching : Fetching)
  deriving DecidableEq, Repr

/-! ### Values -/

/-- A whole number in decimal digits, of which there is at least one. -/
def digits? (cs : List Char) : Option Nat :=
  if cs.isEmpty then none
  else cs.foldlM (fun n c => if c.isDigit then some (n * 10 + (c.toNat - '0'.toNat)) else none) 0

/-- A whole number below a limit, perhaps with a plus sign. -/
def natBelow? (limit : Nat) (text : String) : Option Nat :=
  let digits :=
    match text.toList with
    | '+' :: cs => cs
    | cs => cs
  (digits? digits).filter (· < limit)

/-- A whole number below a limit, where also zero may have a sign. -/
def countBelow? (limit : Nat) (text : String) : Option Nat :=
  match text.toList with
  | '-' :: cs => (digits? cs).filter (· = 0)
  | _ => natBelow? limit text

/-- A path and a text, with an equals sign between them. -/
def resource? (text : String) : Option (String × String) :=
  match text.toList.span (· ≠ '=') with
  | (path, _ :: value) =>
    if path.isEmpty then none else some (String.ofList path, String.ofList value)
  | (_, []) => none

/-! ### Flags -/

/-- The flag that asks for help. -/
def helpFlag {σ : Type} : Flag σ := ⟨"help", some 'h', .stop .help⟩

/-- The flags of reliable delivery. -/
def deliveryFlags : List (Flag Delivery) :=
  [⟨"ack-timeout-ms", none, .value fun text d =>
      (natBelow? UInt64.size text).map fun ackTimeout => { d with ackTimeout }⟩,
    ⟨"max-retransmit", none, .value fun text d =>
      (countBelow? UInt32.size text).map fun maxRetransmit => { d with maxRetransmit }⟩]

/-- The flags in front of the name of the command. -/
def topFlags : List (Flag Delivery) :=
  deliveryFlags ++ [helpFlag, ⟨"version", some 'V', .stop .version⟩]

/-- The flags of a server. -/
def servingFlags : List (Flag Serving) :=
  [⟨"bind", some 'b', .value fun text s =>
      (Address.parse? text).map fun address => { s with address }⟩,
    ⟨"resource", some 'r', .values fun text s =>
      (resource? text).map fun resource => { s with resources := s.resources ++ [resource] }⟩,
    ⟨"max-workers", none, .value fun text s =>
      (natBelow? UInt64.size text).map fun maxWorkers => { s with maxWorkers }⟩]

/-- The flags of a fetch, apart from the server to ask. -/
def fetchingFlags : List (Flag Fetching) :=
  [⟨"path", some 'p', .value fun text f => some { f with path := text }⟩,
    ⟨"non", none, .switch fun f => { f with confirmable := false }⟩,
    ⟨"timeout", none, .value fun text f =>
      (natBelow? UInt64.size text).map fun timeout => { f with timeout }⟩]

/-- The flag that names the server to ask. -/
def serverFlag : Flag (Option Address) :=
  ⟨"server", some 's', .value fun text _ => (Address.parse? text).map some⟩

/-- The flags behind the name of a command. -/
def commandFlags {σ : Type} (flags : List (Flag σ)) : List (Flag (Delivery × σ)) :=
  (flags.map fun flag => flag.within Prod.snd fun s p => (p.1, s)) ++
    (deliveryFlags.map fun flag => flag.within Prod.fst fun d p => (d, p.2)) ++ [helpFlag]

/-- Reads the words behind the name of a command, all of which have to be flags. -/
def readCommand {σ : Type} (flags : List (Flag σ)) (delivery : Delivery) (settings : σ)
    (words : List String) : Except Stop (Delivery × σ) := do
  match ← read (commandFlags flags) (delivery, settings) words with
  | (settings, none) => return settings
  | (_, some (word, _)) => throw (.misuse (.unexpected word))

/-- The command of a command line. -/
def Command.parse (words : List String) : Except Stop Command := do
  match ← read topFlags {} words with
  | (_, none) => throw (.misuse .missingCommand)
  | (delivery, some ("server", words)) =>
    let (delivery, serving) ← readCommand servingFlags delivery {} words
    return .serve delivery serving
  | (delivery, some ("get", words)) =>
    let flags := serverFlag.within Prod.fst (fun server p => (server, p.2)) ::
      fetchingFlags.map fun flag => flag.within Prod.snd fun f p => (p.1, f)
    match ← readCommand flags delivery (none, {}) words with
    | (delivery, some server, fetching) => return .fetch delivery server fetching
    | (_, none, _) => throw (.misuse (.missingFlag "server"))
  | (_, some ("help", words)) =>
    throw (if words ∈ [[], ["server"], ["get"], ["help"]] then .help
      else .misuse (.unexpected (" ".intercalate words)))
  | (_, some (word, _)) => throw (.misuse (.unexpected word))

/-- The name and the version of the program. -/
def version : String := "coap-over-udp 0.1.0"

/-- How the program is used, line by line. -/
def usageLines : List String :=
  ["Usage: coap-over-udp [OPTIONS] <COMMAND>",
    "",
    "Commands:",
    "  server  Serve static text resources",
    "    -b, --bind <ADDRESS>         Address to listen at [0.0.0.0:5683]",
    "    -r, --resource <PATH=TEXT>   Text to serve, may be repeated",
    "        --max-workers <N>        Datagrams worked on at a time [64]",
    "  get     Fetch one resource and print it",
    "    -s, --server <ADDRESS>       Server to ask",
    "    -p, --path <PATH>            Path of the resource [/.well-known/core]",
    "        --non                    Send the request as non-confirmable",
    "        --timeout <SECONDS>      Time to wait for a separate response [10]",
    "",
    "Options:",
    "        --ack-timeout-ms <MS>    First time-out [2000]",
    "        --max-retransmit <N>     Retransmissions before giving up [4]",
    "    -h, --help                   Print help",
    "    -V, --version                Print version"]

/-- How the program is used. -/
def usage : String := "\n".intercalate usageLines ++ "\n"

end Coap.CommandLine
