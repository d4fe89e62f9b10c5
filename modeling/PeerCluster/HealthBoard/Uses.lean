import PeerCluster.HealthBoard

/-!
# Using a board

Whoever finds a cell goes on holding it, also when the cell has been taken off the board. A usage is a
board with all the cells that its uses have given so far, so that every one of them can still be marked,
whatever has happened to the board since.
-/

namespace PeerCluster.HealthBoard

/-- One use of a board. -/
inductive Use where
  | find (id : MemberId)
  | findOrPost (id : MemberId)
  | take (id : MemberId)
  /-- Marks the cell that the use at a place has given. -/
  | mark (holder : Nat) (next : Health)
  deriving DecidableEq, Repr

/-- A board that has been used. -/
structure Usage where
  board : HealthBoard := {}
  /-- The cell that each use has given, in order; `none` for one that gave none. -/
  given : List (Option HealthCell) := []

namespace Usage

/-- The cell that the use at a place has given. -/
def cell? (s : Usage) (holder : Nat) : Option HealthCell :=
  s.given[holder]?.join

/-- What one use gives, and the board that it leaves. -/
def perform (s : Usage) : Use → Option HealthCell × HealthBoard
  | .find id => (s.board.find? id, s.board)
  | .findOrPost id =>
    let (cell, board) := s.board.findOrPost id
    (some cell, board)
  | .take id => s.board.take id
  | .mark holder next =>
    match s.cell? holder with
    | some cell => (none, s.board.mark cell next)
    | none => (none, s.board)

/-- The usage after one more use. -/
def next (s : Usage) (u : Use) : Usage :=
  let (cell, board) := s.perform u
  ⟨board, s.given ++ [cell]⟩

/-- A new board after a list of uses. -/
def after (uses : List Use) : Usage :=
  uses.foldl next {}

end Usage

end PeerCluster.HealthBoard
