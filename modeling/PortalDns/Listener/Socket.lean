-- Datagrams on their way: what a host sends, what it refuses to send, and how
-- much of a datagram is received.
import PortalDns.Message.Header

namespace PortalDns

inductive Link where
  | up
  | unreachable
deriving DecidableEq, Repr

inductive SendError where
  /-- No message has so many octets. -/
  | refused (length : Nat)
  /-- No datagram has so many octets. -/
  | messageTooLong
  | networkUnreachable
deriving DecidableEq, Repr

def SendError.message : SendError → String
  | refused length => s!"refusing to send {length} octet response"
  | messageTooLong => "Message too long (os error 90)"
  | networkUnreachable => "Network is unreachable (os error 101)"

namespace Datagram

/-- How many octets are received: one more than a message has, so that a longer datagram is
seen to be too long. -/
def bufferLength : Nat := maxMessageLength + 1

/-- The most octets that the length field of a datagram can tell. -/
def maxLength : Nat := 0xFFFF

/-- The most octets that the headers of the protocols leave for a datagram's content. -/
def maxContentLength : Nat := maxLength - 20 - 8

/-- Whether a message may have these octets, by their number. -/
def hasMessageLength (d : Octets) : Bool :=
  Header.length ≤ d.length && d.length ≤ maxMessageLength

/-- Sends octets as they are: what reaches the peer. Octets beyond the length field are refused
before the way is looked for, and those that leave no room for the headers after that. -/
def send (link : Link) (d : Octets) : Except SendError Octets :=
  if maxLength < d.length then .error .messageTooLong
  else
    match link with
    | .unreachable => .error .networkUnreachable
    | .up => if maxContentLength < d.length then .error .messageTooLong else .ok d

def sendMessage (link : Link) (d : Octets) : Except SendError Octets :=
  if hasMessageLength d then send link d else .error (.refused d.length)

/-- A buffer after a datagram was received into it, and the number of octets received. What the
datagram does not reach stays as it was. -/
def receive (buffer d : Octets) : Octets × Nat :=
  let received := d.take buffer.length
  (received ++ buffer.drop received.length, received.length)

def emptyBuffer : Octets := List.replicate bufferLength 0

end Datagram

end PortalDns
