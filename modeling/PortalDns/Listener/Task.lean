-- The task that serves one generation. It binds the socket, however often that
-- fails, answers datagrams one at a time, looks for a stop between them, and
-- closes the socket before it says that it has stopped.
import PortalDns.Listener.Socket
import PortalDns.Listener.Status
import PortalDns.Portal.Policy

namespace PortalDns

/-- What reached the task through the channel by which it is told to stop. -/
inductive Signal where
  | none
  | sent
  /-- The sender is gone, so nobody can send any more. -/
  | dropped
deriving DecidableEq, Repr

/-- What a task with an open socket does next. -/
inductive Stage where
  | bound
  | checking
  /-- Waits for a datagram, but not for long. -/
  | polling
  /-- Makes the reply to the first `size` octets of the buffer. -/
  | handling (peer : Endpoint) (size : Nat)
  | sending (peer : Endpoint) (reply : Octets)
  | closing
deriving DecidableEq, Repr

inductive Phase where
  | binding
  /-- Waits before the next attempt to bind, or for a stop. -/
  | waiting
  | opened (socket : Endpoint) (stage : Stage)
  /-- Holds no socket any more and says that it has stopped. -/
  | closed
  | finishing
  | ended
deriving DecidableEq, Repr

structure Task where
  generation : Nat
  interface : Interface
  phase : Phase := .binding
  signal : Signal := .none
  /-- The octets received last, over those received before. -/
  buffer : Octets := Datagram.emptyBuffer
deriving DecidableEq, Repr

/-- What happens to a task, or what it does. -/
inductive TaskEvent where
  | bind (socket : Endpoint)
  | failBind
  | retryBind
  /-- A stop arrives before the socket is bound. -/
  | giveUp
  /-- The endpoint of the bound socket cannot be told. -/
  | loseEndpoint
  | publishServing
  | check
  /-- No datagram arrives in time, or the socket reports an error. -/
  | idle
  | receive (peer : Endpoint) (datagram : Octets)
  | handle
  | send
  | failSend
  | close
  | publishStopped
  | exit
deriving DecidableEq, Repr

namespace Task

def socket? (t : Task) : Option Endpoint :=
  match t.phase with
  | .opened socket _ => some socket
  | _ => none

def hasEnded (t : Task) : Bool := t.phase = .ended

/-- What follows the reply that was made, or was not. -/
def afterHandling (peer : Endpoint) : Option Octets → Stage
  | some reply => .sending peer reply
  | none => .checking

/-- The task after an event, if it is one that can happen to it now. -/
def step? (t : Task) (event : TaskEvent) : Option Task :=
  match t.phase, event with
  | .binding, .bind socket => some { t with phase := .opened socket .bound }
  | .binding, .failBind => some { t with phase := .waiting }
  | .waiting, .retryBind => some { t with phase := .binding }
  | .waiting, .giveUp => if t.signal = .none then none else some { t with phase := .closed }
  | .opened _ .bound, .loseEndpoint => some { t with phase := .closed }
  | .opened socket .bound, .publishServing => some { t with phase := .opened socket .checking }
  | .opened socket .checking, .check =>
    if t.signal = .none then some { t with phase := .opened socket .polling }
    else some { t with phase := .opened socket .closing }
  | .opened socket .polling, .idle => some { t with phase := .opened socket .checking }
  | .opened socket .polling, .receive peer datagram =>
    let (buffer, size) := Datagram.receive t.buffer datagram
    some { t with buffer, phase := .opened socket (.handling peer size) }
  | .opened socket (.handling peer size), .handle =>
    let reply := Portal.replyTo t.interface peer.address (t.buffer.take size)
    some { t with phase := .opened socket (afterHandling peer reply) }
  | .opened socket (.sending _ _), .send => some { t with phase := .opened socket .checking }
  | .opened socket (.sending _ _), .failSend => some { t with phase := .opened socket .checking }
  | .opened _ .closing, .close => some { t with phase := .closed }
  | .closed, .publishStopped => some { t with phase := .finishing }
  | .finishing, .exit => some { t with phase := .ended }
  | _, _ => none

/-- What an event does to the published status. -/
def publication (t : Task) (event : TaskEvent) : Status → Status :=
  match t.phase, event with
  | .opened socket .bound, .publishServing => Status.serve socket
  | .closed, .publishStopped => fun _ => .stopped
  | _, _ => id

/-- The reply that an event sends, and to whom. One that is no message is not sent. -/
def sent? (t : Task) (event : TaskEvent) : Option (Endpoint × Octets) :=
  match t.phase, event with
  | .opened _ (.sending peer reply), .send =>
    if Datagram.hasMessageLength reply then some (peer, reply) else none
  | _, _ => none

end Task

end PortalDns
