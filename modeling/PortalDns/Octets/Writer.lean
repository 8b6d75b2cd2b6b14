-- Writing octets up to a limit. A single write is all or nothing; one that is
-- made of several may stop half-way and then keeps what it has written.
import PortalDns.Octets.Basic

namespace PortalDns

/-- Octets written so far and how many there may be. -/
structure Writer where
  octets : Octets := []
  limit : Nat
deriving DecidableEq, Repr

inductive WriteError where
  | messageTooLong (limit : Nat)
  | counterTooLarge (counter bits : Nat)
  /-- There is no whole word at `index` to overwrite. -/
  | notWritten (index : Nat)
deriving DecidableEq, Repr

def WriteError.message : WriteError → String
  | .messageTooLong limit => s!"message would exceed {limit} octets"
  | .counterTooLarge counter bits => s!"'{counter}' cannot be converted to a u{bits}"
  | .notWritten index => s!"no word was written at {index}"

/-- A write that may fail, leaving behind what was written before it failed. -/
abbrev WriteM := EStateM WriteError Writer

/-- A count as a field of 16 bits. -/
def counterField (n : Nat) : Except WriteError UInt16 :=
  if n < 0x10000 then .ok (UInt16.ofNat n) else .error (.counterTooLarge n 16)

namespace Writer

def size (w : Writer) : Nat := w.octets.length

/-- Appends octets, or nothing if they do not fit. -/
def put (os : Octets) : WriteM Unit := fun w =>
  if w.size + os.length ≤ w.limit then .ok () { w with octets := w.octets ++ os }
  else .error (.messageTooLong w.limit) w

def putOctet (o : UInt8) : WriteM Unit := put [o]

def putUInt16 (w : UInt16) : WriteM Unit := put (Octets.ofUInt16 w)

def putUInt32 (w : UInt32) : WriteM Unit := put (Octets.ofUInt32 w)

/-- Replaces the word at `index`, which must be written already. -/
def overwrite (index : Nat) (word : UInt16) : WriteM Unit := fun w =>
  if index + 2 ≤ w.size then .ok () { w with octets := w.octets.setUInt16 index word }
  else .error (.notWritten index) w

/-- Takes back all octets from `index` on. -/
def truncate (index : Nat) (w : Writer) : Writer := { w with octets := w.octets.take index }

end Writer

end PortalDns
