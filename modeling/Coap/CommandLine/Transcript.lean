import Coap.CommandLine.Command
import Coap.Endpoint.Run
import Coap.Text.Lossy

/-!
# What the program does and shows

The endpoint behind each command (`Serving.endpoint`, `Fetching.endpoint`), the request of a fetch
(`Fetching.request`), and what a run leaves on the screen (`Transcript`).
-/

namespace Coap.CommandLine

/-- What a run of the program leaves behind. -/
structure Transcript where
  /-- What is printed. -/
  output : String := ""
  /-- What is printed about errors. -/
  errors : String := ""
  exitCode : UInt32 := 0
  deriving DecidableEq, Repr

/-- The texts that a server serves. -/
def Serving.directory (serving : Serving) : Directory :=
  .ofList <| serving.resources.map fun (path, text) => (path, ⟨Text.bytes text, 0⟩)

/-- The endpoint of a server. -/
def Serving.endpoint (serving : Serving) (delivery : Delivery) : Endpoint Address where
  service := .ofDirectory serving.directory
  link := { timing := delivery.timing }

/-- The endpoint of a fetch. -/
def Fetching.endpoint (fetching : Fetching) (delivery : Delivery) : Endpoint Address where
  service := .none
  responseTimeout := fetching.timeout * 1000
  link := { timing := delivery.timing }

/-- The address at which a client of a server listens. -/
def clientAddress : Address → Address
  | .v4 _ _ => .v4 0 0
  | .v6 _ _ _ => .v6 0 0 0

/-- The request of a fetch. -/
def Fetching.request (fetching : Fetching) : Except Fault Request := do
  let r ← Request.make (if fetching.confirmable then .con else .non) .get
  (r.setPath fetching.path).toExcept

namespace Transcript

/-- A run that ends with an error. -/
def failed (message : String) : Transcript := { errors := s!"Error: {message}\n", exitCode := 1 }

/-- A run that does not get beyond the command line. -/
def ofStop : Stop → Transcript
  | .help => { output := usage }
  | .version => { output := s!"{version}\n" }
  | .misuse why => { errors := s!"error: {why.message}\n\n{usage}", exitCode := 2 }

/-- A run that is broken off. -/
def aborted (message : String) : Transcript := { errors := s!"{message}\n", exitCode := 101 }

/-- A fetch that got a response: the status and the payload are printed, and a status that is no
    success is an error. -/
def ofResponse (response : Response) : Transcript :=
  let code := response.message.code
  let payload := response.message.payload
  let output := s!"{code}\n" ++ if payload.isEmpty then "" else s!"{Text.lossy payload}\n"
  if code.statusClass = 2 then { output }
  else { failed s!"request failed with {code}" with output }

/-- A fetch that came to an end. -/
def ofResult : Except (Failure Address) Response → Transcript
  | .ok response => ofResponse response
  | .error failure => failed failure.message

end Transcript

/-- The socket with which a server comes to serve, or how it ends before that. There is no socket if
    the address cannot be had. -/
def Serving.start {Socket : Type} (socket? : Option Socket) (serving : Serving) :
    Except Transcript Socket :=
  match socket? with
  | none => .error (.failed s!"cannot bind {serving.address}")
  | some socket =>
    if workerLimit < serving.maxWorkers then
      .error (.aborted s!"at most {workerLimit} datagrams can be worked on at a time")
    else .ok socket

end Coap.CommandLine
