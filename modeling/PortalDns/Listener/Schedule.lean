-- One run among all that a listener has: whatever can go on by itself does, stop
-- calls first, then start calls, then tasks, until all that is left to do is to
-- wait.
import PortalDns.Listener.Basic

namespace PortalDns

def StopCall.next? (number : Nat) : StopCall → Option Action
  | taken _ => some (.announce number)
  | announced _ => some (.signal number)
  | signalled _ => some (.join number)
  | joined _ => some (.release number)
  | returned => none

def StartCall.next? (number : Nat) (c : StartCall) : Option Action :=
  match c.phase with
  | .waiting => some (.observe number)
  | .seen _ => some (.conclude number)
  | .returned _ => none

/-- A host, as far as listeners notice it. -/
structure Host where
  link : Link
  /-- The ports that the host hands out by itself, the next one first. -/
  ports : List UInt16 := (List.range' 49152 16384).map UInt16.ofNat
deriving DecidableEq, Repr

/-- Ports that are in use get to the end of the line. So a port that was given back rests, and a
socket that asks for any port gets one that was not in use lately. -/
def Host.rest (h : Host) (used : List UInt16) : Host :=
  { h with ports := h.ports.filter (· ∉ used) ++ h.ports.filter (· ∈ used) }

namespace Listener

/-- The endpoint at which an attempt to bind succeeds now, if there is one. -/
def bindable? (l : Listener) (host : Host) : Option Endpoint :=
  let ports := if l.settings.port = 0 then host.ports else [l.settings.port]
  (ports.map (Endpoint.mk l.settings.bindAddress)).find? l.isFree

/-- What a task does next, unless it waits. -/
def nextEvent? (l : Listener) (host : Host) (t : Task) : Option TaskEvent :=
  match t.phase with
  | .binding => some ((l.bindable? host).elim .failBind .bind)
  | .waiting =>
    if t.signal ≠ .none then some .giveUp
    else if (l.bindable? host).isSome then some .retryBind
    else none
  | .opened _ .bound => some .publishServing
  | .opened _ .checking => some .check
  | .opened _ .polling => if t.signal = .none then none else some .idle
  | .opened _ (.handling ..) => some .handle
  | .opened _ (.sending ..) => some .send
  | .opened _ .closing => some .close
  | .closed => some .publishStopped
  | .finishing => some .exit
  | .ended => none

/-- The steps that calls and tasks would take next, the most urgent first. -/
def pending (l : Listener) (host : Host) : List Action :=
  let stops := l.stops.mapIdx StopCall.next?
  let starts := l.starts.mapIdx StartCall.next?
  let tasks := l.tasks.mapIdx fun number t => (l.nextEvent? host t).map (.task number)
  (stops ++ starts ++ tasks).filterMap id

def due? (l : Listener) (host : Host) : Option Action :=
  (l.pending host).find? fun a => (l.step? a).isSome

/-- Takes up to `patience` steps as they are due, and gathers the replies that they send. -/
def settleWithin (host : Host) : Nat → Listener → Listener × List (Endpoint × Octets)
  | 0, l => (l, [])
  | patience + 1, l =>
    match l.due? host with
    | none => (l, [])
    | some action =>
      let (settled, replies) := settleWithin host patience ((l.step? action).getD l)
      (settled, (l.sent? action).toList ++ replies)

/-- Takes steps until none is due. No call has more than four steps left, and no task more than
sixteen before it waits or has ended. -/
def settle (l : Listener) (host : Host) : Listener × List (Endpoint × Octets) :=
  settleWithin host (4 * (l.starts.length + l.stops.length) + 16 * l.tasks.length) l

end Listener

end PortalDns
