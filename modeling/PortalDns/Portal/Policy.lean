-- What a captive portal answers: every name has the address of the portal,
-- servers and links have fixed answers, and nothing else is answered.
import PortalDns.Message.Reply
import PortalDns.Portal.Interface

namespace PortalDns

namespace Portal

/-! ## Answers -/

/-- The name of the server that every name has, as a text. -/
def serverText : String := "ns."

/-- Where every link leads. -/
def target : Octets := utf8 "http://esp.nonet".toList

/-- The class of answers with a link, which is the one that clients of a portal expect. -/
def targetClass : RecordClass := RecordClass.ofCode 256

/-- What is answered for a type, and in which class. -/
def data? (address : IPv4) : QueryType → Option (RecordData × RecordClass)
  | .record .a => some (.a address, .internet)
  | .record .ns => (Name.ofDotted? serverText).map fun server => (.ns server, .internet)
  | .record .uri => some (.uri 10 1 target, targetClass)
  | _ => none

/-- The answer to a question, whatever its class. Nobody may keep it. -/
def answer? (address : IPv4) (q : Question) : Option Record :=
  (data? address q.qtype).map fun (data, recordClass) =>
    { name := q.name, data, recordClass, ttl := 0 }

/-! ## Replies -/

inductive Dropped where
  | rejected (cause : Rejection)
  | malformed (cause : DecodeError)
  | overflow (cause : WriteError)
deriving DecidableEq, Repr

namespace Dropped

def cause : Dropped → String
  | rejected cause => cause.message
  | malformed cause => cause.message
  | overflow cause => cause.message

def message : Dropped → String
  | rejected cause => "rejected: " ++ cause.message
  | malformed cause => "malformed question: " ++ cause.message
  | overflow cause => "response overflow: " ++ cause.message

end Dropped

/-- Appends the answer to one question, if it has one. -/
def answerNext (address : IPv4) (reply : Reply) : Except DecodeError Question → Except Dropped Reply
  | .error e => .error (.malformed e)
  | .ok question =>
    match answer? address question with
    | none => .ok reply
    | some record =>
      match Reply.push record reply with
      | .ok _ reply => .ok reply
      | .error e _ => .error (.overflow e)

/-- The reply to a datagram, with the answers to all its questions or not at all. -/
def respond (address : IPv4) (d : Octets) : Except Dropped Octets := do
  let query ← (Query.parse d).mapError .rejected
  let reply ← query.questions.toList.foldlM (answerNext address) (Reply.ofQuery query)
  return reply.finish

/-- The reply that a peer gets: none for what is no query, nor for peers of other networks. -/
def replyTo (i : Interface) (peer : IPAddress) (d : Octets) : Option Octets :=
  if i.contains peer then (respond i.address d).toOption else none

end Portal

end PortalDns
