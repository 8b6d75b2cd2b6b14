-- Replies: a copy of the query, marked as a response, with answers appended.
import PortalDns.Message.Query
import PortalDns.Record.Basic

namespace PortalDns

structure Reply where
  writer : Writer
  answers : UInt16 := 0
deriving DecidableEq, Repr

namespace Reply

/-- Where the flags stand in a message. -/
def flagsIndex : Nat := 2

/-- Where the number of answers stands in a message. -/
def answersIndex : Nat := 6

/-- The reply without answers: the octets of the query, with the bit of a response set. -/
def ofQuery (q : Query) : Reply where
  writer := {
    octets := q.octets.modify flagsIndex (· ||| Header.responseBit)
    limit := maxMessageLength }

/-- Appends an answer. When that fails, what was written of it is taken back. -/
def push (record : Record) : EStateM WriteError Reply Unit := fun reply =>
  match counterField (reply.answers.toNat + 1) with
  | .error e => .error e reply
  | .ok answers =>
    match record.write reply.writer with
    | .ok _ writer => .ok () { writer, answers }
    | .error e writer =>
      .error e { reply with writer := writer.truncate reply.writer.size }

/-- The finished datagram, with the number of answers in its header. -/
def finish (reply : Reply) : Octets :=
  reply.writer.octets.setUInt16 answersIndex reply.answers

end Reply

end PortalDns
