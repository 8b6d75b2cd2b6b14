-- Domain names as lists of labels. A name is plain data, so one can be put
-- together by hand that breaks the rules; `Name.WellFormed` states the rules.
import PortalDns.Octets.Basic

namespace PortalDns

/-- The most octets that a label holds. -/
def Label.maxLength : Nat := 63

/-- The most octets that a name takes on the wire. -/
def Name.maxLength : Nat := 255

/-- A label: octets of any value, but no more than fit under its length octet. -/
structure Label where
  octets : Octets
  length_le : octets.length ≤ Label.maxLength
deriving DecidableEq, Repr

namespace Label

/-- The label without octets, which ends every name. -/
def empty : Label := ⟨[], by decide⟩

def ofOctets? (os : Octets) : Option Label :=
  if h : os.length ≤ maxLength then some ⟨os, h⟩ else none

def size (l : Label) : Nat := l.octets.length

def isEmpty (l : Label) : Bool := l.octets.isEmpty

@[ext] theorem ext {a b : Label} (h : a.octets = b.octets) : a = b := by
  cases a
  cases b
  simp_all

end Label

/-- A domain name: its labels as they came, and the octets that they are said to take on the
wire. Two names are equal only if they agree octet by octet: case is kept. -/
structure Name where
  labels : List Label
  len : Nat
deriving DecidableEq, Repr

namespace Name

/-- The octets that labels take on the wire: each its own octets and one for their number. -/
def wireLength : List Label → Nat
  | [] => 0
  | l :: ls => 1 + l.size + wireLength ls

/-- What every name from the wire or from a text keeps: the last label is empty and no other
is, and `len` is the length on the wire, within its bound. -/
structure WellFormed (n : Name) : Prop where
  last_empty : n.labels.getLast? = some Label.empty
  inner_nonempty : ∀ l ∈ n.labels.dropLast, l ≠ Label.empty
  len_eq : n.len = wireLength n.labels
  len_le : n.len ≤ maxLength

/-- The name of the root: the empty label alone. -/
def root : Name := ⟨[Label.empty], 1⟩

/-- A name of one label counts as the root, whatever the label holds. -/
def isRoot (n : Name) : Bool := n.labels.length = 1

/-- The name of these labels, unless it would not be well formed. -/
def ofLabels? (labels : List Label) : Option Name :=
  if labels.getLast? = some Label.empty ∧ (∀ l ∈ labels.dropLast, l ≠ Label.empty) ∧
      wireLength labels ≤ maxLength then
    some ⟨labels, wireLength labels⟩
  else
    none

end Name

end PortalDns
