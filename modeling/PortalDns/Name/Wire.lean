-- Names on the wire. A name is written label by label; it is read along the
-- pointers that stand in it, wherever they lead. A name that reads more octets
-- than the datagram has goes in circles, so reading always ends.
import PortalDns.Name.Item
import PortalDns.Octets.Writer

namespace PortalDns

/-! ## Writing -/

/-- A label on the wire: the number of its octets, and its octets. -/
def Label.encode (l : Label) : Octets := UInt8.ofNat l.size :: l.octets

/-- A name on the wire, without pointers. -/
def Name.encode (n : Name) : Octets := n.labels.flatMap Label.encode

def Label.write (l : Label) : WriteM Unit := do
  Writer.putOctet (UInt8.ofNat l.size)
  Writer.put l.octets

def Name.write (n : Name) : WriteM Unit := n.labels.forM Label.write

/-! ## Reading -/

/-- How far the reading of a name has come. -/
structure NameWalk where
  cursor : Nat
  /-- Where to read on after the name: behind its first pointer, once there was one. -/
  resume : Option Nat := none
  /-- How many octets of the items so far were read. -/
  consumed : Nat := 0
  labels : List Label := []
  len : Nat := 0
deriving DecidableEq, Repr

namespace NameWalk

/-- Goes past a label, and keeps it. -/
def pass (w : NameWalk) (l : Label) : NameWalk :=
  { w with
    cursor := w.cursor + (1 + l.size)
    consumed := w.consumed + (1 + l.size)
    labels := w.labels ++ [l]
    len := w.len + (1 + l.size) }

/-- Goes where a pointer leads. -/
def jump (w : NameWalk) (target : Nat) : NameWalk :=
  { w with
    cursor := target
    resume := some (w.resume.getD (w.cursor + 2))
    consumed := w.consumed + 2 }

/-- The name that has been read once its last label was passed, and where to read on. -/
def result (w : NameWalk) : Name × Nat :=
  (⟨w.labels, w.len⟩, w.resume.getD w.cursor)

/-- What one item leads to: the rest of the walk, or its end. -/
inductive Step where
  | next (w : NameWalk)
  | done (n : Name) (resume : Nat)

/-- Reads the item at the cursor. A walk over `d` goes on only as long as it has consumed no
more octets than `d` has. -/
def step (d : Array UInt8) (w : NameWalk) : Except NameFault Step :=
  match NameItem.read ⟨d, w.cursor⟩ with
  | .error fault _ => .error fault
  | .ok (.label l) _ =>
    let w := w.pass l
    if Name.maxLength < w.len then .error .tooLong
    else if d.size < w.consumed then .error .pointerLoop
    else .ok (.next w)
  | .ok (.pointer target) _ =>
    let w := w.jump target
    if d.size < w.consumed then .error .pointerLoop else .ok (.next w)
  | .ok .final _ =>
    let w := w.pass Label.empty
    if Name.maxLength < w.len then .error .tooLong
    else .ok (.done w.result.1 w.result.2)

/-- A step that does not end the walk consumes octets, of which there are no more than `d`
has. -/
theorem consumed_lt_of_step {d : Array UInt8} {w v : NameWalk} (h : step d w = .ok (.next v)) :
    w.consumed < v.consumed ∧ v.consumed ≤ d.size := by
  unfold step at h
  grind [pass, jump]

def finish (d : Array UInt8) (w : NameWalk) : Except NameFault (Name × Nat) :=
  match _ : step d w with
  | .error fault => .error fault
  | .ok (.done n resume) => .ok (n, resume)
  | .ok (.next v) => finish d v
termination_by d.size - w.consumed
decreasing_by
  have := consumed_lt_of_step ‹_›
  omega

end NameWalk

/-- The name that starts at an offset, and the offset behind it. -/
def Name.decode (d : Octets) (offset : Nat) : Except NameFault (Name × Nat) :=
  NameWalk.finish d.toArray { cursor := offset }

end PortalDns
