-- The octets that reading a name looks at, in the order in which it does,
-- wherever the pointers lead and however the reading ends.
import PortalDns.Name.Wire

namespace PortalDns

namespace NameWalk

/-- The walks whose next item is read, from `w` to the end of the name or to a fault. -/
def trail (d : Array UInt8) (w : NameWalk) : List NameWalk :=
  match _ : step d w with
  | .ok (.next v) => w :: trail d v
  | _ => [w]
termination_by d.size - w.consumed
decreasing_by
  have := consumed_lt_of_step ‹_›
  omega

/-- Where the reader stands after the item at the cursor, or after what there is of it. -/
def readEnd (d : Array UInt8) (w : NameWalk) : Nat :=
  match NameItem.read ⟨d, w.cursor⟩ with
  | .ok _ r => r.position
  | .error _ r => r.position

/-- The offsets of the octets that are read of the item at the cursor. -/
def offsets (d : Array UInt8) (w : NameWalk) : List Nat :=
  List.range' w.cursor (readEnd d w - w.cursor)

end NameWalk

/-- The walks of reading the name at an offset. -/
def Name.trail (d : Octets) (offset : Nat) : List NameWalk :=
  NameWalk.trail d.toArray { cursor := offset }

/-- The offsets of all octets that are read for the name at an offset. -/
def Name.offsetsRead (d : Octets) (offset : Nat) : List Nat :=
  (Name.trail d offset).flatMap (NameWalk.offsets d.toArray)

end PortalDns
