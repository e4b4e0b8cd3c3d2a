import Coap.Time.Ratio

/-!
# Timing parameters

How long a peer waits before it acknowledges, sends again or forgets. Times are in milliseconds.
-/

namespace Coap

/-- The parameters of reliable delivery. -/
structure Timing where
  /-- How long a request waits for its response before it is acknowledged on its own. -/
  ackDelay : Nat := 1900
  /-- How long a message waits for its acknowledgement at first, before the random factor. -/
  ackTimeout : Nat := 2000
  /-- The upper bound of the random factor. -/
  ackRandomFactor : Ratio := ⟨3, 2, Nat.two_pos⟩
  /-- How often a message is sent again. -/
  maxRetransmit : Nat := 4
  /-- How long the state of an exchange is kept. -/
  exchangeLifetime : Nat := 247000
  /-- The time between two purges of state that is too old; with `0` nothing is ever purged. -/
  purgeInterval : Nat := 10000
  deriving DecidableEq, Repr

end Coap
