import Coap.Bytes.BigEndian
import Coap.Time.Ratio

/-!
# Random draws

Message ids, tokens and the jitter of time-outs are random. The draws come from a supply that is
settled in advance, so that a run is a function of its inputs; an empty supply gives zeros.
-/

namespace Coap

/-- The number of bytes of a token that is drawn. -/
def tokenLength : Nat := 4

/-- The draws still to be made. -/
structure Draws where
  /-- First message ids. -/
  ids : List UInt16 := []
  /-- Tokens. -/
  tokens : List Bytes := []
  /-- Jitter, between 0 and 1. -/
  jitter : List Ratio := []

namespace Draws

/-- Draws a first message id. -/
def id (draws : Draws) : UInt16 × Draws :=
  match draws.ids with
  | [] => (0, draws)
  | id :: ids => (id, { draws with ids })

/-- Draws a token. -/
def token (draws : Draws) : Bytes × Draws :=
  match draws.tokens with
  | [] => (List.replicate tokenLength 0, draws)
  | token :: tokens => (token, { draws with tokens })

/-- Draws the jitter of a time-out. -/
def nextJitter (draws : Draws) : Ratio × Draws :=
  match draws.jitter with
  | [] => (.ofNat 0, draws)
  | u :: jitter => (u, { draws with jitter })

end Draws

end Coap
