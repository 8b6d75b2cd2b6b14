-- The header of a message, of which a query's fate depends on the id, the TC
-- bit and the four counts. All else in it is echoed unread.
import PortalDns.Name.Item

namespace PortalDns

inductive DecodeError where
  /-- Not even the id is there. -/
  | noId
  | headerTooShort (id : UInt16)
  | questionTooShort (id : UInt16)
  /-- A name in the message with this id has a fault. -/
  | name (fault : NameFault) (id : UInt16)
deriving DecidableEq, Repr

namespace DecodeError

def id? : DecodeError → Option UInt16
  | noId => none
  | headerTooShort id => some id
  | questionTooShort id => some id
  | name _ id => some id

/-- What is wrong, before the id is named. -/
def cause : DecodeError → String
  | noId => "datagram too short to hold an id"
  | headerTooShort _ => "header too short"
  | questionTooShort _ => "question too short"
  | name .tooShort _ => "domain name runs past end of datagram"
  | name .tooLong _ => "domain name over 255 octets"
  | name .pointerOutside _ => "domain pointer outside datagram"
  | name .pointerLoop _ => "domain pointers loop"
  | name .reservedLabel _ => "reserved label type"

def message (e : DecodeError) : String :=
  match e.id? with
  | none => e.cause
  | some id => s!"{e.cause} (id {id.toNat})"

end DecodeError

/-- Decoding from a reader, which stays where it came to when a part is missing. -/
abbrev ReadM := EStateM DecodeError Reader

def Header.length : Nat := 12

/-- The most octets of a message, read or written. -/
def maxMessageLength : Nat := 512

structure Header where
  id : UInt16
  /-- The TC bit: the sender cut the message short. -/
  truncated : Bool
  questions : UInt16
  answers : UInt16
  authorities : UInt16
  additional : UInt16
deriving DecidableEq, Repr

namespace Header

/-- A message that carries records comes from a server, not from a client. -/
def hasRecords (h : Header) : Bool :=
  h.answers != 0 || h.authorities != 0 || h.additional != 0

/-- The widths of the fields: the id, two octets of flags, and four counts. -/
def widths : List Nat := [2, 1, 1, 2, 2, 2, 2]

/-- The TC bit of the first octet of flags. -/
def truncatedBit : UInt8 := 0x02

/-- The QR bit of the first octet of flags, which tells a response from a query. -/
def responseBit : UInt8 := 0x80

/-- The header whose fields these are. The second octet of flags is not looked at. -/
def ofFields : List Octets → Except DecodeError Header
  | [] => .error .noId
  | [id, flags, _, questions, answers, authorities, additional] =>
    .ok {
      id := Octets.toUInt16 id
      truncated := UInt8.ofNat (Octets.number flags) &&& truncatedBit ≠ 0
      questions := Octets.toUInt16 questions
      answers := Octets.toUInt16 answers
      authorities := Octets.toUInt16 authorities
      additional := Octets.toUInt16 additional }
  | id :: _ => .error (.headerTooShort (Octets.toUInt16 id))

/-- Reads the fields that are there, which must be all. -/
def read : ReadM Header := fun r =>
  let (fields, rest) := r.fields widths
  match ofFields fields with
  | .ok header => .ok header rest
  | .error e => .error e rest

end Header

end PortalDns
