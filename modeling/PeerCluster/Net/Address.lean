/-!
# Network addresses

Addresses of the two families of the internet protocol, and the ends of a transport channel. A
multicast group is an address out of a range that its family sets aside.
-/

namespace PeerCluster

/-- An address of version 4: four bytes. -/
structure IPv4 where
  octets : Vector UInt8 4
  deriving DecidableEq, Repr

/-- An address of version 6: eight groups of sixteen bits. -/
structure IPv6 where
  groups : Vector UInt16 8
  deriving DecidableEq, Repr

/-- An address of either version. -/
inductive IPAddress where
  | v4 (ip : IPv4)
  | v6 (ip : IPv6)
  deriving DecidableEq, Repr

/-- An address with a port. The scope of an address of version 6 names an interface, and zero names
none. -/
inductive SocketAddress where
  | v4 (ip : IPv4) (port : UInt16)
  | v6 (ip : IPv6) (scope : UInt32) (port : UInt16)
  deriving DecidableEq, Repr

namespace IPv4

/-- The address with the given bytes. -/
def ofOctets (a b c d : UInt8) : IPv4 :=
  ⟨#v[a, b, c, d]⟩

/-- The address that stands for every interface. -/
def unspecified : IPv4 :=
  ofOctets 0 0 0 0

/-- Whether the address lies in 224.0.0.0/4. -/
def isMulticast (ip : IPv4) : Bool :=
  let first : UInt8 := ip.octets[0]
  224 ≤ first && first ≤ 239

/-- The sixteen bits of two bytes. -/
def word (high low : UInt8) : UInt16 :=
  high.toUInt16 <<< 8 ||| low.toUInt16

/-- The bytes as two groups of sixteen bits. -/
def words (ip : IPv4) : List UInt16 :=
  [word ip.octets[0] ip.octets[1], word ip.octets[2] ip.octets[3]]

end IPv4

namespace IPv6

/-- Whether the address lies in ff00::/8. -/
def isMulticast (ip : IPv6) : Bool :=
  let first : UInt16 := ip.groups[0]
  first &&& 0xFF00 == 0xFF00

/-- The address of version 4 that an address in ::ffff:0:0/96 stands for. -/
def mapped? (ip : IPv6) : Option IPv4 :=
  if ip.groups.toList.take 6 = [0, 0, 0, 0, 0, 0xFFFF] then
    let high : UInt16 := ip.groups[6]
    let low : UInt16 := ip.groups[7]
    some (.ofOctets (high >>> 8).toUInt8 high.toUInt8 (low >>> 8).toUInt8 low.toUInt8)
  else none

end IPv6

namespace IPAddress

/-- Whether the address names a multicast group. -/
def isMulticast : IPAddress → Bool
  | .v4 ip => ip.isMulticast
  | .v6 ip => ip.isMulticast

end IPAddress

namespace SocketAddress

/-- An address of either version with a port, in no scope. -/
def of : IPAddress → UInt16 → SocketAddress
  | .v4 ip, port => .v4 ip port
  | .v6 ip, port => .v6 ip 0 port

/-- The port. -/
def port : SocketAddress → UInt16
  | .v4 _ port => port
  | .v6 _ _ port => port

end SocketAddress

end PeerCluster
