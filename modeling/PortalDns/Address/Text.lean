-- Addresses as text. Version 6 has one text for each address: groups in
-- hexadecimal without leading zeros, the longest run of zero groups left out,
-- and mapped addresses with their last part as version 4.
import PortalDns.Address.Basic
import PortalDns.Text.Dots

namespace PortalDns

namespace IPv4

def toText (a : IPv4) : String :=
  ".".intercalate (a.octets.map fun o => toString o.toNat)

/-- The number that decimal digits are, if it fits into an octet. -/
def octetOfDigits? (cs : List Char) : Option UInt8 :=
  let n := cs.foldl (fun n c => n * 10 + (c.toNat - '0'.toNat)) 0
  if cs ≠ [] ∧ cs.all Char.isDigit ∧ n < 256 then some (UInt8.ofNat n) else none

/-- The address of four numbers with dots between them. -/
def ofText? (s : String) : Option IPv4 := do
  let [a, b, c, d] ← (splitDots s.toList).mapM octetOfDigits? | none
  return ofOctets a b c d

end IPv4

namespace IPv6

/-- A stretch of groups, from its first one on. -/
structure Run where
  start : Nat
  length : Nat
deriving DecidableEq, Repr

/-- The longest run of zero groups among `groups`, the first of which is group `i`: of two that
are equally long the earlier, and no longer one than `best`. -/
def longestZeroRun (groups : List UInt16) (i : Nat) (current best : Run) : Run :=
  match groups with
  | [] => best
  | g :: rest =>
    if g = 0 then
      let grown : Run := ⟨current.start, current.length + 1⟩
      longestZeroRun rest (i + 1) grown (if best.length < grown.length then grown else best)
    else
      longestZeroRun rest (i + 1) ⟨i + 1, 0⟩ best

def groupsText (groups : List UInt16) : String :=
  ":".intercalate (groups.map fun g => String.ofList (Nat.toDigits 16 g.toNat))

def toText (a : IPv6) : String :=
  match a.mapped? with
  | some v4 => "::ffff:" ++ v4.toText
  | none =>
    let groups := a.groups.toList
    let run := longestZeroRun groups 0 ⟨0, 0⟩ ⟨0, 0⟩
    if 1 < run.length then
      groupsText (groups.take run.start) ++ "::" ++
        groupsText (groups.drop (run.start + run.length))
    else
      groupsText groups

end IPv6

def IPAddress.toText : IPAddress → String
  | .v4 address => address.toText
  | .v6 address => address.toText

/-- The address and the port, with a colon between them. -/
def Endpoint.toText (e : Endpoint) : String :=
  match e.address with
  | .v4 address => s!"{address.toText}:{e.port.toNat}"
  | .v6 address => s!"[{address.toText}]:{e.port.toNat}"

end PortalDns
