-- Calls on a listener that are under way. A start call waits until its
-- generation serves or cannot serve any more; a stop call waits until the task
-- whose handle it took has ended.
import PortalDns.Listener.Status

namespace PortalDns

inductive StartError where
  | alreadyRunning
  | cancelled
deriving DecidableEq, Repr

def StartError.message : StartError → String
  | alreadyRunning => "captive dns is already running"
  | cancelled => "stopped before the socket was bound"

/-- What is needed to stop a task and to wait for its end. Each task has one handle, and whoever
holds it is the one to stop the task. -/
structure Handle where
  generation : Nat
  /-- The number of the task, in order of starts. -/
  task : Nat
deriving DecidableEq, Repr

/-- What a start call returns: the endpoint that is served, or why none is. -/
inductive StartResult where
  | started (endpoint : Endpoint)
  | failed (error : StartError)
deriving DecidableEq, Repr

inductive StartPhase where
  | waiting
  /-- Saw this status and looks once more whether its generation is the newest. -/
  | seen (status : Status)
  | returned (result : StartResult)
deriving DecidableEq, Repr

structure StartCall where
  /-- The generation that the call began. One that was refused began none. -/
  generation : Option Nat
  phase : StartPhase
deriving DecidableEq, Repr

inductive StopCall where
  /-- Holds the handle and has done nothing with it. -/
  | taken (handle : Handle)
  | announced (handle : Handle)
  | signalled (handle : Handle)
  | joined (handle : Handle)
  | returned
deriving DecidableEq, Repr

def StopCall.handle? : StopCall → Option Handle
  | taken handle => some handle
  | announced handle => some handle
  | signalled handle => some handle
  | joined handle => some handle
  | returned => none

def StartCall.result? (c : StartCall) : Option StartResult :=
  match c.phase with
  | .returned result => some result
  | _ => none

end PortalDns
