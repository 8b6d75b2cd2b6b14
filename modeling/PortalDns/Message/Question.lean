-- The questions of a message: a name, and the type and class that are asked for.
import PortalDns.Message.Header
import PortalDns.Name.Dotted
import PortalDns.Name.Wire
import PortalDns.Record.Code

namespace PortalDns

/-- Reads a name of the message with this id. A name with a fault leaves the reader where it
was. -/
def Name.read (id : UInt16) : ReadM Name := fun r =>
  match NameWalk.finish r.octets { cursor := r.position } with
  | .ok (name, next) => .ok name (r.seek next)
  | .error fault => .error (.name fault id) r

def QueryType.read (id : UInt16) : ReadM QueryType := do
  return ofCode (← Reader.require Reader.word? (.questionTooShort id))

def QueryClass.read (id : UInt16) : ReadM QueryClass := do
  return ofCode (← Reader.require Reader.word? (.questionTooShort id))

structure Question where
  name : Name
  qtype : QueryType
  qclass : QueryClass
deriving DecidableEq, Repr

namespace Question

/-- The name, the class and the type, as they are written in zone files. -/
def toText (q : Question) : String :=
  " ".intercalate [q.name.toDotted, q.qclass.toText, q.qtype.toText]

/-- The question on the wire. -/
def encode (q : Question) : Octets :=
  q.name.encode ++ Octets.ofUInt16 q.qtype.code ++ Octets.ofUInt16 q.qclass.code

/-- Reads a question of the message with this id. -/
def read (id : UInt16) : ReadM Question := do
  let name ← Name.read id
  let qtype ← QueryType.read id
  let qclass ← QueryClass.read id
  return { name, qtype, qclass }

end Question

end PortalDns
