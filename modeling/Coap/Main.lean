import Coap.CommandLine.Transcript
import Std.Async.Timer
import Std.Async.UDP

/-!
# The program

The outermost layer: it reads the command line, carries datagrams between a socket and an endpoint,
tells the endpoint the time and prints what a run leaves behind.
-/

namespace Coap.Main

open Std.Async Std.Net CommandLine

/-- An address as the socket wants it. -/
def toSocketAddress : Address → SocketAddress
  | .v4 host port =>
    let octet (i : Nat) : UInt8 := UInt8.ofNat ((Address.octets host)[i]?.getD 0)
    .v4 ⟨.ofParts (octet 0) (octet 1) (octet 2) (octet 3), port⟩
  | .v6 host _ port =>
    let group (i : Nat) : UInt16 := UInt16.ofNat ((Address.groups host)[i]?.getD 0)
    .v6 ⟨.ofParts (group 0) (group 1) (group 2) (group 3) (group 4) (group 5) (group 6) (group 7),
      port⟩

/-- An address as the socket gives it. -/
def ofSocketAddress : SocketAddress → Address
  | .v4 a =>
    .v4 (BitVec.ofNat 32 (a.addr.octets.toList.foldl (fun n b => n * 256 + b.toNat) 0)) a.port
  | .v6 a =>
    .v6 (BitVec.ofNat 128 (a.addr.segments.toList.foldl (fun n g => n * 65536 + g.toNat) 0)) 0
      a.port

/-- Random draws, enough for one event. -/
def freshDraws : IO Draws := do
  let bytes := (← IO.getRandomBytes 14).toList
  let (id, bytes) := bytes.splitAt 2
  let (token, bytes) := bytes.splitAt tokenLength
  let jitter : Ratio := ⟨Int.ofNat (BigEndian.toNat bytes), UInt64.size, Nat.succ_pos _⟩
  return { ids := [UInt16.ofNat (BigEndian.toNat id)], tokens := [token], jitter := [jitter] }

/-- A socket, and when its endpoint came into being. -/
structure Host where
  socket : UDP.Socket
  start : Nat

/-- Opens a socket. -/
def Host.listen (address : Address) : IO Host := do
  let socket ← UDP.Socket.mk
  socket.bind (toSocketAddress address)
  return ⟨socket, ← IO.monoMsNow⟩

/-- Sends datagrams. One that cannot be sent is lost. -/
def Host.send (host : Host) (emissions : List (Emission Address)) : IO Unit := do
  for emission in emissions do
    try
      (host.socket.send emission.bytes.toByteArray (toSocketAddress emission.peer)).block
    catch _ => pure ()

/-- Waits for a datagram, but no longer than until a given time of the endpoint. -/
def Host.await (host : Host) (due? : Option Nat) : IO (Option (Address × Bytes)) := do
  let datagram : Selectable (Option (Address × Bytes)) :=
    .case (host.socket.recvSelector 65535) fun (bytes, peer?) =>
      return peer?.map fun peer => (ofSocketAddress peer, bytes.toList)
  match due? with
  | none => (Selectable.one #[datagram]).block
  | some due =>
    let left := host.start + due - (← IO.monoMsNow)
    let alarm ← (Selector.sleep (.ofNat left)).block
    (Selectable.one #[datagram, .case alarm fun _ => return none]).block

/-- Tells an endpoint the time and then an event, if there is one. -/
def Host.step (host : Host) (e : Endpoint Address) (event? : Option (Endpoint.Event Address)) :
    IO (Endpoint Address × List (Finish Address)) := do
  let elapsed := (← IO.monoMsNow) - host.start - e.link.now
  let draws ← freshDraws
  let e := { e with transmission := { e.transmission with draws } }
  let (e, reports) := e.run (.sleep elapsed :: event?.toList)
  let effects := reports.map Endpoint.Report.effects
  host.send (effects.flatMap Effects.emissions)
  return (e, effects.flatMap Effects.finished)

/-- Works on what comes in, until a request has ended. -/
partial def Host.work (host : Host) (e : Endpoint Address) :
    IO (Except (Failure Address) Response) := do
  let datagram? ← host.await e.due?
  let (e, finished) ← host.step e (datagram?.map fun (peer, bytes) => .datagram peer bytes)
  match finished with
  | finish :: _ => return finish.result
  | [] => host.work e

/-- Serves until the end of the process. -/
def serve (delivery : Delivery) (serving : Serving) : IO Transcript := do
  let host? := (← (Host.listen serving.address).toBaseIO).toOption
  match serving.start host? with
  | .error transcript => return transcript
  | .ok host => return .ofResult (← host.work (serving.endpoint delivery))

/-- Fetches a resource. -/
def fetch (delivery : Delivery) (server : Address) (fetching : Fetching) : IO Transcript := do
  let host ← Host.listen (clientAddress server)
  match fetching.request with
  | .error fault => return .failed fault.message
  | .ok request =>
    let (e, finished) ← host.step (fetching.endpoint delivery) (some (.request server request))
    match finished with
    | finish :: _ => return .ofResult finish.result
    | [] => return .ofResult (← host.work e)

/-- Does what a command line asks for. -/
def run (words : List String) : IO Transcript :=
  match Command.parse words with
  | .error stop => return .ofStop stop
  | .ok (.serve delivery serving) => serve delivery serving
  | .ok (.fetch delivery server fetching) =>
    try fetch delivery server fetching
    catch e => return .failed s!"socket I/O error: {e}"

end Coap.Main

/-- Runs the program. -/
def main (words : List String) : IO UInt32 := do
  let transcript ← Coap.Main.run words
  (← IO.getStdout).putStr transcript.output
  (← IO.getStderr).putStr transcript.errors
  return transcript.exitCode
