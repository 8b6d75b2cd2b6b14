-- Several listeners on one host, and whole calls on them one after the other.
-- Each command starts some calls, lets everything go on that can, and looks at
-- the outcome.
import PortalDns.Listener.Schedule

namespace PortalDns

structure Site where
  interface : Interface
  listener : Listener
  /-- A socket of someone else that holds the port of the settings. -/
  squatter : Option Endpoint := none
  /-- The endpoint of the last start call that succeeded. -/
  started : Option Endpoint := none
deriving DecidableEq, Repr

inductive Command where
  /-- Nothing: the status alone is of interest. -/
  | look
  | start
  | stop
  /-- A start call, and a stop call as soon as the task tries to bind. -/
  | startAndStop
  /-- A start call, while which the squatter goes away. -/
  | startAndFree
  | startTwice
  /-- A stop call, and a start call as soon as the stop is announced. -/
  | stopAndStart
  /-- A client sends a datagram to the endpoint that was started last. -/
  | exchange (client : IPAddress) (datagram : Octets)
  /-- Tries to bind a socket to the endpoint that was started last. -/
  | rebind
  | drop
deriving DecidableEq, Repr

inductive Outcome where
  | done
  | started (result : StartResult)
  | startedTwice (first second : StartResult)
  | replies (replies : List Octets)
  | free (isFree : Bool)
  | ended (ended : Bool)
deriving DecidableEq, Repr

inductive CommandError where
  /-- The datagram of the client is not sent. -/
  | unsent (cause : SendError)
  | endless
  /-- There is no such listener, or no more. -/
  | noListener
  | notStarted
deriving DecidableEq, Repr

def CommandError.message : CommandError → String
  | unsent cause => cause.message
  | endless => "the call never returns"
  | noListener => "no such listener"
  | notStarted => "no endpoint was started"

namespace Site

def take (site : Site) (action : Action) : Except CommandError Site :=
  match site.listener.step? action with
  | some listener => .ok { site with listener }
  | none => .error .noListener

def settle (site : Site) (host : Host) : Site :=
  { site with listener := (site.listener.settle host).1 }

/-- The result of a start call, and the endpoint to remember. -/
def resultOf (site : Site) (call : Nat) : Except CommandError (StartResult × Site) :=
  match site.listener.starts[call]?.bind (·.result?) with
  | some (.started e) => .ok (.started e, { site with started := some e })
  | some result => .ok (result, site)
  | none => .error .endless

def nextStart (site : Site) : Nat := site.listener.starts.length

def isBinding (site : Site) : Bool := site.listener.status = .binding

def free (site : Site) : Except CommandError Site := do
  let others := site.listener.others.filter fun e => some e ≠ site.squatter
  return { ← site.take (.occupy others) with squatter := none }

/-- What comes back to a client that sends a datagram. -/
def exchange (site : Site) (host : Host) (client : IPAddress) (datagram : Octets) :
    Except CommandError (List Octets × Site) := do
  let e ← site.started.elim (.error .notStarted) .ok
  let arrived ← (Datagram.send host.link datagram).mapError .unsent
  match site.listener.tasks.findIdx? fun t => t.socket? = some e with
  | none => return ([], site)
  | some number =>
    let site ← site.take (.task number (.receive ⟨client, 1⟩ arrived))
    let (listener, replies) := site.listener.settle host
    return (replies.map Prod.snd, { site with listener })

def run (host : Host) (site : Site) : Command → Except CommandError (Outcome × Site)
  | .look => return (.done, site)
  | .start => do
    let after := (← site.take (.start site.interface)).settle host
    let (result, after) ← after.resultOf site.nextStart
    return (.started result, after)
  | .stop => do
    let after := (← site.take .stop).settle host
    return (.done, after)
  | .startAndStop => do
    let begun ← site.take (.start site.interface)
    let stopped ← if begun.isBinding then begun.take .stop else pure begun
    let (result, after) ← (stopped.settle host).resultOf site.nextStart
    return (.started result, after)
  | .startAndFree => do
    let begun ← site.take (.start site.interface)
    let freed ← if begun.isBinding then begun.free else pure begun
    let (result, after) ← (freed.settle host).resultOf site.nextStart
    return (.started result, after)
  | .startTwice => do
    let begun ← site.take (.start site.interface)
    let both ← begun.take (.start site.interface)
    let (first, after) ← (both.settle host).resultOf site.nextStart
    let (second, after) ← after.resultOf begun.nextStart
    return (.startedTwice first second, after)
  | .stopAndStart => do
    let stopping ← site.take .stop
    let number := site.listener.stops.length
    let announced := (stopping.take (.announce number)).toOption.getD stopping
    let begun ← announced.take (.start site.interface)
    let (result, after) ← (begun.settle host).resultOf site.nextStart
    return (.started result, after)
  | .exchange client datagram => do
    let (replies, after) ← site.exchange host client datagram
    return (.replies replies, after)
  | .rebind => do
    let e ← site.started.elim (.error .notStarted) .ok
    return (.free (site.listener.isFree e), site)
  | .drop => do
    let after := (← site.take .drop).settle host
    return (.ended (after.listener.status = .stopped), after)

end Site

structure Session where
  host : Host
  sites : List Site := []
deriving DecidableEq, Repr

namespace Session

/-- The endpoints that a site keeps others from. -/
def held (site : Site) : List Endpoint :=
  site.squatter.toList ++ site.listener.tasks.filterMap (·.socket?)

/-- The session after something was done with its sites: the ports that they hold are in use. -/
def update (s : Session) (sites : List Site) : Session where
  host := s.host.rest ((sites.flatMap held).map (·.port))
  sites

/-- The settings of a listener of a session: a port of the local host that the host picks. -/
def localSettings : Settings := { bindAddress := .v4 IPv4.loopback, port := 0 }

/-- A new listener. Its port may be one that a socket of someone else holds. -/
def add (s : Session) (interface : Interface) (squatted : Bool) : Session :=
  let others := s.sites.flatMap held
  let fresh : Listener := { settings := localSettings, others }
  let squatter := if squatted then fresh.bindable? s.host else none
  let settings := { localSettings with port := squatter.elim 0 Endpoint.port }
  s.update (s.sites ++ [{ interface, listener := { settings }, squatter }])

/-- What all sites but this one hold, and its own squatter. -/
def around (s : Session) (number : Nat) (site : Site) : List Endpoint :=
  site.squatter.toList ++ (s.sites.eraseIdx number).flatMap held

/-- The site with this number, if its listener was not dropped. -/
def site? (s : Session) (number : Nat) : Option Site :=
  s.sites[number]?.filter (! ·.listener.dropped)

def run (s : Session) (number : Nat) (command : Command) :
    Except CommandError (Outcome × Session) := do
  let site ← (s.site? number).elim (.error .noListener) .ok
  let site ← site.take (.occupy (s.around number site))
  let (outcome, site) ← site.run s.host command
  return (outcome, s.update (s.sites.set number site))

end Session

end PortalDns
