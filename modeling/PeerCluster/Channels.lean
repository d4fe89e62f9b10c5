/-!
# Channels of the beacon

The beacon has two loops, one that hears heartbeats and one that sends them. They are started and
stopped together or apart.
-/

namespace PeerCluster

/-- A set of loops of the beacon. -/
structure Channels where
  receive : Bool
  transmit : Bool
  deriving DecidableEq, Repr

namespace Channels

/-- Neither loop. -/
def none : Channels := ⟨false, false⟩

/-- Both loops. -/
def all : Channels := ⟨true, true⟩

/-- The loops of either set. -/
def union (a b : Channels) : Channels :=
  ⟨a.receive || b.receive, a.transmit || b.transmit⟩

/-- The loops of the first set that are not in the second. -/
def without (a b : Channels) : Channels :=
  ⟨a.receive && !b.receive, a.transmit && !b.transmit⟩

/-- Whether there is no loop. -/
def isEmpty (a : Channels) : Bool :=
  !a.receive && !a.transmit

/-- Whether the second set is not empty and lies in the first. -/
def contains (a b : Channels) : Bool :=
  !b.isEmpty && (b.without a).isEmpty

/-- The set as a number: 1 for hearing and 2 for sending. -/
def bits (a : Channels) : Nat :=
  (if a.receive then 1 else 0) + (if a.transmit then 2 else 0)

/-- The set that the two lowest bits of a number give. -/
def ofBits (n : Nat) : Channels :=
  ⟨n.testBit 0, n.testBit 1⟩

@[simp] theorem ofBits_bits (a : Channels) : ofBits a.bits = a := by
  obtain ⟨r, t⟩ := a
  cases r <;> cases t <;> rfl

end Channels

end PeerCluster
