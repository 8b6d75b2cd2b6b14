-- Reading octets from the front. A read takes what it asks for or nothing:
-- only a read that succeeds moves the position.
import PortalDns.Octets.Basic

namespace PortalDns

/-- Octets and the offset of the next one to read. The offset may lie past the end, where
nothing can be read. The octets are an array, so that any of them is reached at once. -/
structure Reader where
  octets : Array UInt8
  position : Nat := 0
deriving DecidableEq, Repr

namespace Reader

def ofOctets (d : Octets) : Reader := { octets := d.toArray }

/-- The same octets, read from `position` on. -/
def seek (r : Reader) (position : Nat) : Reader := { r with position }

/-- The next `n` octets and the reader past them, if so many are left. From past the end not
even no octets can be taken. -/
def take? (n : Nat) (r : Reader) : Option ({ os : Octets // os.length = n } × Reader) :=
  if h : r.position + n ≤ r.octets.size then
    let os := List.ofFn fun i : Fin n => r.octets[r.position + i.val]
    some (⟨os, by simp [os]⟩, r.seek (r.position + n))
  else
    none

def octet? (r : Reader) : Option (UInt8 × Reader) :=
  (r.take? 1).map fun (os, rest) => (UInt8.ofNat (Octets.number os), rest)

def word? (r : Reader) : Option (UInt16 × Reader) :=
  (r.take? 2).map fun (os, rest) => (Octets.toUInt16 os, rest)

/-- Fields of the given widths one after the other, up to the first one that is cut short, and
the reader past those that were there. -/
def fields (r : Reader) : List Nat → List Octets × Reader
  | [] => ([], r)
  | width :: widths =>
    match r.take? width with
    | none => ([], r)
    | some (os, rest) =>
      let (more, last) := rest.fields widths
      (os :: more, last)

/-- A read as a step that fails with `fault` when the octets run out, without moving. -/
def require {ε α : Type} (read : Reader → Option (α × Reader)) (fault : ε) : EStateM ε Reader α :=
  fun r =>
    match read r with
    | some (a, rest) => .ok a rest
    | none => .error fault r

/-! ## What a read takes and where it leads -/

theorem take?_eq_none_iff {n : Nat} {r : Reader} :
    r.take? n = none ↔ r.octets.size < r.position + n := by
  simp [take?]

theorem take?_eq_some_iff {n : Nat} {r rest : Reader} {os : { os : Octets // os.length = n }} :
    r.take? n = some (os, rest) ↔
      r.position + n ≤ r.octets.size ∧ os.val = (r.octets.toList.drop r.position).take n ∧
        rest = r.seek (r.position + n) := by
  unfold take?
  split
  · have hos (h : r.position + n ≤ r.octets.size) :
        (List.ofFn fun i : Fin n => r.octets[r.position + i.val]) =
          (r.octets.toList.drop r.position).take n := by
      apply List.ext_getElem
      · simp
        omega
      · simp
    simp only [Option.some.injEq, Prod.mk.injEq, Subtype.ext_iff, *, true_and]
    constructor <;> rintro ⟨h, h'⟩ <;> exact ⟨h.symm, h'.symm⟩
  · simp [*]

end Reader

end PortalDns
