-- The published status of a listener. Each start begins a new generation, and
-- only the newest generation may change the status. Whoever watches the status is
-- told of every change, so a call that waits for one can go on once it is made.
import PortalDns.Address.Basic

namespace PortalDns

/-- Where a listener is in its life. -/
inductive Status where
  | idle
  | binding
  /-- Answering queries at this endpoint. -/
  | serving (endpoint : Endpoint)
  /-- Told to stop, but not done yet. -/
  | stopRequested
  /-- Done, with the socket closed. -/
  | stopped
deriving DecidableEq, Repr

namespace Status

/-- Whether a start call need not wait any longer. -/
def settled : Status → Bool
  | serving _ => true
  | stopped => true
  | _ => false

/-- The status once a socket is bound: a stop that was asked for meanwhile wins. -/
def serve (e : Endpoint) : Status → Status
  | binding => serving e
  | s => s

/-- The status once a stop is asked for. -/
def requestStop : Status → Status
  | stopped => stopped
  | _ => stopRequested

end Status

/-- The status and the generation that may change it. -/
structure Publisher where
  status : Status := .idle
  generation : Nat := 0
deriving DecidableEq, Repr

namespace Publisher

def begin (p : Publisher) : Publisher where
  status := .binding
  generation := p.generation + 1

/-- Changes the status on behalf of a generation, unless a newer one has begun. -/
def update (p : Publisher) (generation : Nat) (change : Status → Status) : Publisher :=
  if p.generation = generation then { p with status := change p.status } else p

end Publisher

end PortalDns
