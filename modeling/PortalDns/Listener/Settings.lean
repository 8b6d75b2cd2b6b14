-- Where and how a listener listens.
import PortalDns.Address.Text

namespace PortalDns

structure Settings where
  /-- The local address. All of them by default: peers are told apart by their network. -/
  bindAddress : IPAddress := .v4 IPv4.unspecified
  /-- The local port. With 0 the host picks one. -/
  port : UInt16 := 53
  /-- For how many milliseconds the listener waits for a datagram before it looks for a stop. -/
  pollInterval : Nat := 200
  /-- How many milliseconds lie between two attempts to bind. -/
  bindRetryInterval : Nat := 1000
deriving DecidableEq, Repr

namespace Settings

def endpoint (s : Settings) : Endpoint := ⟨s.bindAddress, s.port⟩

/-- Whether a socket that was bound with these settings can be bound to `e`. -/
def Allows (s : Settings) (e : Endpoint) : Prop :=
  e.address = s.bindAddress ∧ e.port ≠ 0 ∧ (s.port = 0 ∨ e.port = s.port)

instance (s : Settings) (e : Endpoint) : Decidable (s.Allows e) := by
  unfold Allows
  infer_instance

end Settings

end PortalDns
