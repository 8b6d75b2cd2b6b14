-- What stands at one offset of a name on the wire: a label, a pointer to where
-- the name goes on, or the octet that ends it.
import PortalDns.Name.Basic
import PortalDns.Octets.Reader

namespace PortalDns

/-- Why octets are not a name. -/
inductive NameFault where
  /-- The name runs past the end of the octets. -/
  | tooShort
  | tooLong
  | pointerOutside
  | pointerLoop
  /-- A length octet has one of its two top bits set, but not both. -/
  | reservedLabel
deriving DecidableEq, Repr

inductive NameItem where
  /-- A length octet and so many octets. -/
  | label (l : Label)
  /-- Two octets, both top bits set, with the offset of the next item in the other 14. -/
  | pointer (target : Nat)
  | final
deriving DecidableEq, Repr

namespace NameItem

def width : NameItem → Nat
  | label l => 1 + l.size
  | pointer _ => 2
  | final => 1

/-- Reads one item. When that fails, the reader stands behind what was read of it. -/
def read : EStateM NameFault Reader NameItem := do
  let size ← Reader.require Reader.octet? .tooShort
  if 0xC0 ≤ size.toNat then
    let low ← Reader.require Reader.octet? .tooShort
    let target := (size.toNat - 0xC0) * 256 + low.toNat
    if (← get).octets.size ≤ target then throw .pointerOutside
    return pointer target
  else if h : Label.maxLength < size.toNat then
    throw .reservedLabel
  else if size = 0 then
    return final
  else
    let os ← Reader.require (Reader.take? size.toNat) .tooShort
    return label ⟨os.val, by have := os.property; omega⟩

end NameItem

end PortalDns
