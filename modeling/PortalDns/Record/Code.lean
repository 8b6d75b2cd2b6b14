-- The numbers of record types and classes. A few have names; each other number
-- is its own type or class, so numbers and values correspond one to one.

namespace PortalDns

/-! ## Types -/

/-- A record type. Only the types that clients of a captive portal ask for have names. -/
inductive RecordType where
  | a
  | ns
  | aaaa
  | uri
  | other (code : UInt16) (unnamed : code ≠ 1 ∧ code ≠ 2 ∧ code ≠ 28 ∧ code ≠ 256)
deriving DecidableEq, Repr

namespace RecordType

def code : RecordType → UInt16
  | a => 1
  | ns => 2
  | aaaa => 28
  | uri => 256
  | other code _ => code

def ofCode (n : UInt16) : RecordType :=
  if h₁ : n = 1 then a
  else if h₂ : n = 2 then ns
  else if h₃ : n = 28 then aaaa
  else if h₄ : n = 256 then uri
  else other n ⟨h₁, h₂, h₃, h₄⟩

def toText : RecordType → String
  | a => "A"
  | ns => "NS"
  | aaaa => "AAAA"
  | uri => "URI"
  | other code _ => s!"TYPE{code.toNat}"

@[simp] theorem code_ofCode (n : UInt16) : (ofCode n).code = n := by
  grind [ofCode, code]

end RecordType

/-! ## Classes -/

/-- A record class. Only the internet has a name. -/
inductive RecordClass where
  | internet
  | other (code : UInt16) (unnamed : code ≠ 1)
deriving DecidableEq, Repr

namespace RecordClass

def code : RecordClass → UInt16
  | internet => 1
  | other code _ => code

def ofCode (n : UInt16) : RecordClass :=
  if h : n = 1 then internet else other n h

def toText : RecordClass → String
  | internet => "IN"
  | other code _ => s!"CLASS{code.toNat}"

@[simp] theorem code_ofCode (n : UInt16) : (ofCode n).code = n := by
  grind [ofCode, code]

end RecordClass

/-! ## What questions ask for -/

/-- What a question asks for: the records of one type, or of any. -/
inductive QueryType where
  | record (type : RecordType)
  | any
deriving DecidableEq, Repr

namespace QueryType

def code : QueryType → UInt16
  | record type => type.code
  | any => 255

def ofCode (n : UInt16) : QueryType :=
  if n = 255 then any else record (RecordType.ofCode n)

def toText : QueryType → String
  | record type => type.toText
  | any => "ANY"

@[simp] theorem code_ofCode (n : UInt16) : (ofCode n).code = n := by
  grind [ofCode, code, RecordType.code_ofCode]

end QueryType

/-- The class that a question asks in: one class, or any. -/
inductive QueryClass where
  | record (recordClass : RecordClass)
  | any
deriving DecidableEq, Repr

namespace QueryClass

def code : QueryClass → UInt16
  | record recordClass => recordClass.code
  | any => 255

def ofCode (n : UInt16) : QueryClass :=
  if n = 255 then any else record (RecordClass.ofCode n)

def toText : QueryClass → String
  | record recordClass => recordClass.toText
  | any => "ANY"

@[simp] theorem code_ofCode (n : UInt16) : (ofCode n).code = n := by
  grind [ofCode, code, RecordClass.code_ofCode]

end QueryClass

end PortalDns
