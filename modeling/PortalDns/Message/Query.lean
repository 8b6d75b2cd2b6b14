-- Queries: the datagrams that are answered at all, and their questions, which
-- are decoded one at a time.
import PortalDns.Message.Question

namespace PortalDns

/-- Why a datagram is not taken for a query. -/
inductive Rejection where
  | tooShort (length : Nat)
  | tooLong (length : Nat)
  | notAQuery (id : UInt16)
  /-- The message was cut short by its sender. -/
  | truncated (id : UInt16)
deriving DecidableEq, Repr

namespace Rejection

def id? : Rejection → Option UInt16
  | tooShort _ => none
  | tooLong _ => none
  | notAQuery id => some id
  | truncated id => some id

def message : Rejection → String
  | tooShort length => s!"datagram of {length} octets is too short"
  | tooLong length => s!"datagram of {length} octets is too long"
  | notAQuery id => s!"datagram {id.toNat} carries records"
  | truncated id => s!"datagram {id.toNat} is truncated"

end Rejection

/-! ## Questions one at a time -/

/-- The questions of a query that are still to come. -/
structure Questions where
  reader : Reader
  /-- The id of the query, which errors name. -/
  id : UInt16
  /-- How many questions the header still promises. -/
  remaining : Nat
  /-- Whether a question could not be decoded. None comes after it. -/
  failed : Bool := false
deriving DecidableEq, Repr

namespace Questions

/-- The next question, or why it cannot be decoded, and the questions after it. -/
def next? (qs : Questions) : Option (Except DecodeError Question × Questions) :=
  if qs.failed || qs.remaining = 0 then
    none
  else
    match Question.read qs.id qs.reader with
    | .ok question reader =>
      some (.ok question, { qs with reader, remaining := qs.remaining - 1 })
    | .error e reader =>
      some (.error e, { qs with reader, remaining := qs.remaining - 1, failed := true })

def upperBound (qs : Questions) : Nat :=
  if qs.failed then 0 else qs.remaining

theorem remaining_of_next? {qs rest : Questions} {item : Except DecodeError Question}
    (h : qs.next? = some (item, rest)) : qs.remaining = rest.remaining + 1 := by
  unfold next? at h
  grind

/-- The next `n` items, or as many as come. -/
def take : Nat → Questions → List (Except DecodeError Question)
  | 0, _ => []
  | n + 1, qs =>
    match qs.next? with
    | none => []
    | some (item, rest) => item :: rest.take n

def toList (qs : Questions) : List (Except DecodeError Question) :=
  qs.take qs.remaining

/-- What is to come is the next item and what comes after it. -/
theorem toList_eq (qs : Questions) :
    qs.toList = match qs.next? with
      | none => []
      | some (item, rest) => item :: rest.toList := by
  cases hn : qs.next? with
  | none => cases hr : qs.remaining <;> simp [toList, take, hn, hr]
  | some pair => simp [toList, remaining_of_next? hn, take, hn]

end Questions

/-! ## Queries -/

/-- A datagram whose header is that of a query. Its questions are not decoded yet. -/
structure Query where
  octets : Octets
  header : Header
deriving DecidableEq, Repr

namespace Query

def id (q : Query) : UInt16 := q.header.id

/-- Takes a datagram for a query, by its length and its header alone. -/
def parse (d : Octets) : Except Rejection Query :=
  if d.length < Header.length then .error (.tooShort d.length)
  else if maxMessageLength < d.length then .error (.tooLong d.length)
  else
    match Header.read (Reader.ofOctets d) with
    | .error .. => .error (.tooShort d.length)
    | .ok header _ =>
      if header.hasRecords then .error (.notAQuery header.id)
      else if header.truncated then .error (.truncated header.id)
      else .ok { octets := d, header }

/-- The questions behind the header. -/
def questions (q : Query) : Questions where
  reader := (Reader.ofOctets q.octets).seek Header.length
  id := q.id
  remaining := q.header.questions.toNat

end Query

end PortalDns
