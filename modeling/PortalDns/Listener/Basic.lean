-- A listener and all that goes on in it: the published status, the tasks, and
-- the calls under way. Calls and tasks take their steps in any order, so a run
-- of a listener is any list of steps that can each be taken. A call that is given
-- up halfway is one that takes no more of its steps: nobody else notices.
import PortalDns.Listener.Call
import PortalDns.Listener.Settings
import PortalDns.Listener.Task

namespace PortalDns

structure Listener where
  settings : Settings
  publisher : Publisher := {}
  /-- The handle of the task that runs, until a stop call takes it. -/
  slot : Option Handle := none
  tasks : List Task := []
  starts : List StartCall := []
  stops : List StopCall := []
  /-- Whether the owner has let go of the listener. -/
  dropped : Bool := false
  /-- The endpoints that sockets of others hold. -/
  others : List Endpoint := []
deriving DecidableEq, Repr

/-- One step of a run. Calls and tasks are named by their numbers. -/
inductive Action where
  /-- A start call begins a generation and spawns its task, or is refused. -/
  | start (interface : Interface)
  /-- A waiting start call sees a status that it has waited for. -/
  | observe (call : Nat)
  | conclude (call : Nat)
  /-- A stop call takes the handle, or returns if there is none. -/
  | stop
  /-- A stop call publishes that a stop is asked for. -/
  | announce (call : Nat)
  | signal (call : Nat)
  | join (call : Nat)
  /-- A stop call publishes that all is done, and returns. -/
  | release (call : Nat)
  /-- The owner lets go of the listener, whether or not calls are under way. They need not go on. -/
  | drop
  | task (number : Nat) (event : TaskEvent)
  /-- Others open and close sockets of theirs. -/
  | occupy (endpoints : List Endpoint)
deriving DecidableEq, Repr

namespace Listener

def status (l : Listener) : Status := l.publisher.status

def isCurrent (l : Listener) (generation : Nat) : Bool := l.publisher.generation = generation

/-- Whether a socket can be bound to an endpoint: no other is. -/
def isFree (l : Listener) (e : Endpoint) : Bool :=
  e ∉ l.others ∧ ∀ t ∈ l.tasks, t.socket? ≠ some e

def isRunning (l : Listener) (task : Nat) : Bool :=
  l.tasks[task]?.any (! ·.hasEnded)

/-- Whether the world around a task lets an event happen: only a free endpoint that the settings
allow can be bound. -/
def permits (l : Listener) : TaskEvent → Bool
  | .bind socket => l.settings.Allows socket ∧ l.isFree socket
  | _ => true

def signalTask (l : Listener) (task : Nat) (signal : Signal) : Listener :=
  { l with tasks := l.tasks.modify task fun t => { t with signal } }

/-! ## Steps -/

def spawn (l : Listener) (interface : Interface) : Listener :=
  let publisher := l.publisher.begin
  { l with
    publisher
    slot := some { generation := publisher.generation, task := l.tasks.length }
    tasks := l.tasks ++ [{ generation := publisher.generation, interface }]
    starts := l.starts ++ [{ generation := some publisher.generation, phase := .waiting }] }

/-- Refuses a start call, and changes nothing else. -/
def refuse (l : Listener) : Listener :=
  { l with
    starts := l.starts ++ [{ generation := none, phase := .returned (.failed .alreadyRunning) }] }

/-- What a start call returns that has seen `status`: an endpoint only if its generation is still
the newest. -/
def startResult (l : Listener) (generation : Nat) : Status → StartResult
  | .serving e => if l.isCurrent generation then .started e else .failed .cancelled
  | _ => .failed .cancelled

def setStart (l : Listener) (call : Nat) (c : StartCall) : Listener :=
  { l with starts := l.starts.set call c }

def setStop (l : Listener) (call : Nat) (c : StopCall) : Listener :=
  { l with stops := l.stops.set call c }

def publish (l : Listener) (generation : Nat) (change : Status → Status) : Listener :=
  { l with publisher := l.publisher.update generation change }

/-- The listener after a step, if the step can be taken. -/
def step? (l : Listener) : Action → Option Listener
  | .start interface =>
    if l.dropped then none
    else if l.slot.any fun h => l.isRunning h.task then some l.refuse
    else some (l.spawn interface)
  | .observe call =>
    match l.starts[call]? with
    | some ⟨some generation, .waiting⟩ =>
      if l.status.settled || !l.isCurrent generation then
        some (l.setStart call ⟨some generation, .seen l.status⟩)
      else none
    | _ => none
  | .conclude call =>
    match l.starts[call]? with
    | some ⟨some generation, .seen status⟩ =>
      some (l.setStart call ⟨some generation, .returned (l.startResult generation status)⟩)
    | _ => none
  | .stop =>
    if l.dropped then none
    else
      match l.slot with
      | none => some { l with stops := l.stops ++ [.returned] }
      | some handle => some { l with slot := none, stops := l.stops ++ [.taken handle] }
  | .announce call =>
    match l.stops[call]? with
    | some (.taken h) =>
      some ((l.publish h.generation Status.requestStop).setStop call (.announced h))
    | _ => none
  | .signal call =>
    match l.stops[call]? with
    | some (.announced h) => some ((l.signalTask h.task .sent).setStop call (.signalled h))
    | _ => none
  | .join call =>
    match l.stops[call]? with
    | some (.signalled h) =>
      if l.isRunning h.task then none else some (l.setStop call (.joined h))
    | _ => none
  | .release call =>
    match l.stops[call]? with
    | some (.joined h) => some ((l.publish h.generation fun _ => .stopped).setStop call .returned)
    | _ => none
  | .drop =>
    if l.dropped then none
    else
      match l.slot with
      | none => some { l with dropped := true }
      | some h => some { l.signalTask h.task .dropped with slot := none, dropped := true }
  | .task number event =>
    match l.tasks[number]? with
    | none => none
    | some t =>
      match t.step? event with
      | none => none
      | some t' =>
        if l.permits event then
          some { l.publish t.generation (t.publication event) with
            tasks := l.tasks.set number t' }
        else none
  | .occupy endpoints =>
    if ∀ t ∈ l.tasks, ∀ e ∈ t.socket?, e ∉ endpoints then some { l with others := endpoints }
    else none

/-- The reply that a step sends, and to whom. -/
def sent? (l : Listener) : Action → Option (Endpoint × Octets)
  | .task number event => l.tasks[number]?.bind (·.sent? event)
  | _ => none

/-! ## Runs -/

def run? (l : Listener) (actions : List Action) : Option Listener :=
  actions.foldlM step? l

/-- The states that a listener can be in: a new one, and whatever a step leads to. -/
inductive Reachable : Listener → Prop where
  | new (settings : Settings) : Reachable { settings }
  | step {l l' : Listener} {action : Action} :
    Reachable l → l.step? action = some l' → Reachable l'

theorem Reachable.run {l l' : Listener} {actions : List Action} (hl : Reachable l)
    (h : l.run? actions = some l') : Reachable l' := by
  induction actions generalizing l with
  | nil =>
    cases h
    exact hl
  | cons action actions ih =>
    rw [run?, List.foldlM_cons] at h
    obtain ⟨m, hm, hrest⟩ := Option.bind_eq_some_iff.1 h
    exact ih (hl.step hm) hrest

end Listener

end PortalDns
