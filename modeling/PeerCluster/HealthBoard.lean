import PeerCluster.Health
import PeerCluster.Member.Map

/-!
# The health of every peer

Everything that talks to one peer shares one cell with its health. The board keeps the cell of each
id. A cell that has been taken off the board lives on for those who still hold it, but a later
look-up of the id finds a fresh one.
-/

namespace PeerCluster

/-- Names a cell. -/
structure HealthCell where
  index : Nat
  deriving DecidableEq, Repr

/-- Cells with the health of peers, and the cell of each id. -/
structure HealthBoard where
  /-- Every cell ever made. -/
  cells : Array Health := #[]
  /-- The cells on the board. -/
  posted : MemberMap HealthCell := {}

namespace HealthBoard

/-- Makes a cell that is not on the board. -/
def fresh (b : HealthBoard) : HealthCell × HealthBoard :=
  (⟨b.cells.size⟩, { b with cells := b.cells.push .ready })

/-- The cell of an id. -/
def find? (b : HealthBoard) (id : MemberId) : Option HealthCell :=
  b.posted.get? id

/-- The cell of an id, made when it is missing. -/
def findOrPost (b : HealthBoard) (id : MemberId) : HealthCell × HealthBoard :=
  match b.find? id with
  | some cell => (cell, b)
  | none =>
    let (cell, b) := b.fresh
    (cell, { b with posted := b.posted.insert id cell })

/-- Takes the cell of an id off the board. -/
def take (b : HealthBoard) (id : MemberId) : Option HealthCell × HealthBoard :=
  (b.find? id, { b with posted := b.posted.erase id })

/-- What a cell holds. -/
def read (b : HealthBoard) (cell : HealthCell) : Health :=
  b.cells[cell.index]?.getD .ready

/-- Marks a cell. -/
def mark (b : HealthBoard) (cell : HealthCell) (next : Health) : HealthBoard :=
  { b with cells := b.cells.modify cell.index fun now => now.mark next }

/-- The health of an id on the board. -/
def health? (b : HealthBoard) (id : MemberId) : Option Health :=
  (b.find? id).map b.read

/-- How many ids are on the board. -/
def size (b : HealthBoard) : Nat :=
  b.posted.size

/-- Whether no id is on the board. -/
def isEmpty (b : HealthBoard) : Bool :=
  b.posted.isEmpty

end HealthBoard

end PeerCluster
