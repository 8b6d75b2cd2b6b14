-- Addresses of the two internet protocols, and endpoints: an address with a
-- port.
import PortalDns.Octets.Basic

namespace PortalDns

/-- An address of version 4. Its bits are compared and masked as one word. -/
structure IPv4 where
  bits : UInt32
deriving DecidableEq, Repr

namespace IPv4

def ofOctets (a b c d : UInt8) : IPv4 :=
  ⟨UInt32.ofNat (Octets.number [a, b, c, d])⟩

def octets (a : IPv4) : Octets := Octets.ofUInt32 a.bits

/-- The address that stands for all local ones. -/
def unspecified : IPv4 := ⟨0⟩

def loopback : IPv4 := ofOctets 127 0 0 1

end IPv4

/-- An address of version 6, in its eight groups of 16 bits. -/
structure IPv6 where
  groups : Vector UInt16 8
deriving DecidableEq, Repr

namespace IPv6

def ofOctets? (os : Octets) : Option IPv6 :=
  if os.length = 16 then
    some ⟨Vector.ofFn fun i => Octets.toUInt16 ((os.drop (2 * i)).take 2)⟩
  else
    none

/-- The address of version 4 that is mapped into `::ffff:0:0/96`. -/
def mapped? (a : IPv6) : Option IPv4 :=
  if (∀ i : Fin 5, a.groups[i] = 0) ∧ a.groups[5] = 0xFFFF then
    some ⟨UInt32.ofNat (a.groups[6].toNat * 0x10000 + a.groups[7].toNat)⟩
  else
    none

end IPv6

inductive IPAddress where
  | v4 (address : IPv4)
  | v6 (address : IPv6)
deriving DecidableEq, Repr

/-- Where a socket is bound, or where a datagram comes from. -/
structure Endpoint where
  address : IPAddress
  port : UInt16
deriving DecidableEq, Repr

end PortalDns
