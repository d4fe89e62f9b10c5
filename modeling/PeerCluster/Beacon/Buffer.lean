import PeerCluster.Beacon.Calls

/-!
# The buffer of the receive loop

A receive loop begins with a buffer into which it receives one datagram after the other. The buffer has
one byte more than a heartbeat may have, so that a larger datagram can be told from a heartbeat. What
does not fit into it is cut off.

There are limits to the length of a buffer. A receive loop that cannot have its buffer ends before its
first round, and nobody takes note of it: to the beacon the loop is still there. Whether a machine has
the memory for a buffer is not asked here.
-/

namespace PeerCluster

/-- The most bytes that a buffer, or anything else in memory, can have. -/
def maxBufferSize : Nat := UInt64.size / 2 - 1

namespace Settings.Membership

/-- How many bytes the buffer of the receive loop has. -/
def bufferSize (m : Membership) : UInt64 :=
  m.maxPacketSize + 1

/-- Whether the receive loop can have its buffer. -/
def hasBuffer (m : Membership) : Bool :=
  m.bufferSize.toNat ≤ maxBufferSize

/-- What the receive loop gets of a datagram. -/
def received (m : Membership) (datagram : List UInt8) : List UInt8 :=
  datagram.take m.bufferSize.toNat

end Settings.Membership

/-- A datagram arrives, and the receive loop makes a round with what it gets of it. -/
def Beacon.Scene.arrive (s : Scene) (datagram : List UInt8) (heardAt sweptAt : Nat) :
    List MemberEvent × Scene :=
  let m := s.beacon.settings
  if m.hasBuffer then s.receive (.datagram (m.received datagram)) heardAt sweptAt else ([], s)

end PeerCluster
