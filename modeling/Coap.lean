import Coap.Bytes.Hex
import Coap.Text.Utf8
import Coap.Text.Percent
import Coap.Text.Quoted
import Coap.Text.Path
import Coap.MessageType
import Coap.Code
import Coap.Opt.Occurrence
import Coap.Opt.Value
import Coap.Opt.Basic
import Coap.Options
import Coap.Options.Change
import Coap.Request
import Coap.Response
import Coap.Wire.Encode
import Coap.Wire.Decode
import Coap.Directory
import Coap.Time.Backoff
import Coap.Time.Moment
import Coap.Draws
import Coap.Store.Table
import Coap.Store.IdMap
import Coap.Store.Ledger
import Coap.Delivery.Receiver
import Coap.Delivery.Sender
import Coap.Endpoint.Run
import Coap.Net.Address
import Coap.Text.Lossy
import Coap.Main
import Coap.Proofs.Options.Reachable
import Coap.Proofs.Options.Multimap
import Coap.Proofs.Options.Replacement
import Coap.Proofs.Text.Ascii
import Coap.Proofs.Text.Order
import Coap.Proofs.Text.Percent
import Coap.Proofs.Text.HostName
import Coap.Proofs.Message.Setting
import Coap.Proofs.Message.Path
import Coap.Proofs.Directory.Placement
import Coap.Proofs.Directory.History
import Coap.Proofs.Wire.Grammar
import Coap.Proofs.Wire.Fencepost
import Coap.Proofs.Wire.Layout
import Coap.Proofs.Wire.RoundTrip
import Coap.Proofs.Wire.Bridging
import Coap.Proofs.Wire.Value
import Coap.Proofs.Message.Equality
import Coap.Proofs.Wire.Cursor
import Coap.Proofs.Wire.Truncation
import Coap.Proofs.Time.Schedule
import Coap.Proofs.Time.Timeout
import Coap.Proofs.Time.Doubling
import Coap.Proofs.Store.Table
import Coap.Proofs.Store.Ledger
import Coap.Proofs.Delivery.Tasks
import Coap.Proofs.Delivery.Flight
import Coap.Proofs.Delivery.Change
import Coap.Proofs.Delivery.Tickets
import Coap.Proofs.Delivery.Retransmission
import Coap.Proofs.Delivery.Pace
import Coap.Proofs.Delivery.Stay
import Coap.Proofs.Delivery.Watch
import Coap.Proofs.Delivery.Acknowledgement
import Coap.Proofs.Delivery.Duplicate
import Coap.Proofs.Delivery.Independence
import Coap.Proofs.Delivery.Expiry
import Coap.Proofs.Delivery.Settlement
import Coap.Proofs.Delivery.Passage
import Coap.Proofs.Delivery.Allocation
import Coap.Proofs.Delivery.Refusal
import Coap.Proofs.Delivery.Rotation
import Coap.Proofs.Endpoint.Recession
import Coap.Proofs.Endpoint.Provenance
import Coap.Proofs.Endpoint.Token
import Coap.Proofs.Endpoint.Places
import Coap.Proofs.Endpoint.Displacement
import Coap.Proofs.Endpoint.Elapse
import Coap.Proofs.Endpoint.Emission
import Coap.Proofs.Endpoint.Rest
import Coap.Proofs.Endpoint.Reply
import Coap.Proofs.Endpoint.Serving
import Coap.Proofs.Endpoint.Separation
import Coap.Proofs.Endpoint.Coupling
import Coap.Proofs.Endpoint.Departure
import Coap.Proofs.Endpoint.Course
import Coap.Proofs.Endpoint.Punctuality
import Coap.Proofs.Endpoint.Quiescence
import Coap.Proofs.Endpoint.Lifetime
import Coap.Proofs.Endpoint.Finality
import Coap.Proofs.Endpoint.Tenancy
import Coap.Proofs.Endpoint.Retention
