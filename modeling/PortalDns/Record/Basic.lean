-- Records, the answers that are appended to a reply. They are only ever
-- written, never read.
import PortalDns.Address.Basic
import PortalDns.Name.Wire
import PortalDns.Record.Code

namespace PortalDns

/-- What a record says, by its type. -/
inductive RecordData where
  | a (address : IPv4)
  | ns (server : Name)
  /-- Where a resource is: the target runs to the end of the data. -/
  | uri (priority weight : UInt16) (target : Octets)
deriving DecidableEq, Repr

structure Record where
  name : Name
  data : RecordData
  recordClass : RecordClass
  /-- For how many seconds the answer may be kept. -/
  ttl : UInt32
deriving DecidableEq, Repr

namespace RecordData

def type : RecordData → RecordType
  | a _ => .a
  | ns _ => .ns
  | uri .. => .uri

def encode : RecordData → Octets
  | a address => address.octets
  | ns server => server.encode
  | uri priority weight target =>
    Octets.ofUInt16 priority ++ Octets.ofUInt16 weight ++ target

def write : RecordData → WriteM Unit
  | a address => Writer.put address.octets
  | ns server => server.write
  | uri priority weight target => do
    Writer.putUInt16 priority
    Writer.putUInt16 weight
    Writer.put target

end RecordData

namespace Record

/-- The record on the wire, with `length` in the field for the length of its data. -/
def encodeWith (r : Record) (length : UInt16) : Octets :=
  r.name.encode ++ Octets.ofUInt16 r.data.type.code ++ Octets.ofUInt16 r.recordClass.code ++
    Octets.ofUInt32 r.ttl ++ Octets.ofUInt16 length ++ r.data.encode

def encode (r : Record) : Octets :=
  r.encodeWith (UInt16.ofNat r.data.encode.length)

/-- Writes the record. The length of its data is zero until the data is written. -/
def write (r : Record) : WriteM Unit := do
  r.name.write
  Writer.putUInt16 r.data.type.code
  Writer.putUInt16 r.recordClass.code
  Writer.putUInt32 r.ttl
  let mark := (← get).size
  Writer.putUInt16 0
  r.data.write
  let length ← ofExcept (counterField ((← get).size - mark - 2))
  Writer.overwrite mark length

end Record

end PortalDns
