/-!
# The backlog

Items wait in the order in which they were accepted. Whoever takes, takes everything. A backlog with
a limit accepts no more items than that, and a disabled one holds and accepts nothing.
-/

namespace PeerCluster

/-- Items that wait to be taken. -/
structure Backlog (α : Type) where
  items : Array α := #[]
  enabled : Bool := true
  /-- The most items that may wait; zero for no limit. -/
  maxLength : Nat := 0

namespace Backlog

variable {α : Type}

/-- An empty backlog with the given limit. -/
def empty (maxLength : Nat) : Backlog α :=
  { maxLength }

/-- How many items wait. -/
def size (b : Backlog α) : Nat :=
  b.items.size

/-- Whether no item waits. -/
def isEmpty (b : Backlog α) : Bool :=
  b.items.isEmpty

/-- Whether no further item is accepted for want of room. -/
def isFull (b : Backlog α) : Bool :=
  b.maxLength != 0 && b.maxLength ≤ b.size

/-- Adds an item, and says whether it was accepted. -/
def add (b : Backlog α) (a : α) : Bool × Backlog α :=
  if b.enabled && !b.isFull then (true, { b with items := b.items.push a }) else (false, b)

/-- Takes every item. -/
def takeAll (b : Backlog α) : List α × Backlog α :=
  (b.items.toList, { b with items := #[] })

/-- Enables or disables a backlog. Disabling drops what waits. -/
def setEnabled (b : Backlog α) (enabled : Bool) : Backlog α :=
  { b with enabled, items := if enabled then b.items else #[] }

end Backlog

end PeerCluster
