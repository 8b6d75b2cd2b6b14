-- The network that the portal serves: its own address on it, and the mask that
-- tells who is on the same network.
import PortalDns.Address.Text

namespace PortalDns

/-- An interface. The mask may have its bits anywhere. -/
structure Interface where
  address : IPv4
  netmask : IPv4
deriving DecidableEq, Repr

namespace Interface

/-- The interface whose mask is so many leading bits, of which there are 32. -/
def ofPrefix? (address : IPv4) (bits : Nat) : Option Interface :=
  if bits ≤ 32 then
    some { address, netmask := ⟨UInt32.ofNat (0x100000000 - (1 <<< (32 - bits)))⟩ }
  else
    none

/-- The address with the bits of the hosts cleared. -/
def network (i : Interface) : IPv4 := ⟨i.address.bits &&& i.netmask.bits⟩

/-- Whether an address is on the network: every bit of the mask agrees. -/
def covers (i : Interface) (peer : IPv4) : Bool :=
  peer.bits &&& i.netmask.bits = i.network.bits

/-- Whether a peer is on the network. One of version 6 is only if it is a mapped address of
version 4 that is. -/
def contains (i : Interface) : IPAddress → Bool
  | .v4 peer => i.covers peer
  | .v6 peer => peer.mapped?.any i.covers

def toText (i : Interface) : String :=
  i.address.toText ++ " netmask " ++ i.netmask.toText

end Interface

end PortalDns
