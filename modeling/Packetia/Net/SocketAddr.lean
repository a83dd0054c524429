import Packetia.Stun.Message

/-!
# Socket addresses

`network::SocketAddr` (`network/UdpSocket.h`): an address of one of two families, or none, which
is what the default constructor makes.
-/

namespace Packetia.Net

open Stun

inductive SocketAddr
  | none
  | v4 (ip : Octets 4) (port : BitVec 16)
  | v6 (ip : Octets 16) (port : BitVec 16) (scope : BitVec 32)
  deriving DecidableEq

namespace SocketAddr

def isV6 : SocketAddr → Bool
  | .v6 .. => true
  | _ => false

def isValid : SocketAddr → Bool
  | .none => false
  | _ => true

def port : SocketAddr → BitVec 16
  | .none => 0
  | .v4 _ port => port
  | .v6 _ port _ => port

/-- `operator==`. No address is not even equal to itself. -/
def same (a b : SocketAddr) : Bool := a ≠ .none ∧ a = b

/-- The address for the codec, with its bytes in an array for both families. -/
def endpoint : SocketAddr → Option IpEndpoint
  | .none => Option.none
  | .v4 ip port => some { family := .ipv4, port, ip := octetsAt ip.1 0 16 }
  | .v6 ip port _ => some { family := .ipv6, port, ip }

theorem same_iff {a b : SocketAddr} : a.same b = true ↔ a ≠ .none ∧ a = b := by
  rw [same, decide_eq_true_eq]

end SocketAddr

end Packetia.Net
