import PeerCluster.CourierPool

/-!
# Sweeps of the pool, piece by piece

Who sweeps the pool goes round the desks of the couriers that are in the pool when the round begins.
Others may come in its way between any two of these pieces:

* it comes to the next desk and stands in line there, if nobody else does, so that from then on the
  courier is busy;
* it looks at the connection and gives it up if it has reached a limit;
* it leaves the line; and
* it takes the courier out of the pool if the connection was given up, unless another courier has come
  in its place.

Until it has been to a desk it counts as one of those who come to the courier.
-/

namespace PeerCluster

namespace CourierPool

/-- Somebody is going to come to a courier. -/
def hold (p : CourierPool) (c : CourierId) : CourierPool :=
  p.modify c fun d => { d with holders := d.holders + 1 }

/-- Somebody is going to come to all these couriers. -/
def holdAll (p : CourierPool) (route : List (MemberId × CourierId)) : CourierPool :=
  route.foldl (fun p e => p.hold e.2) p

/-- Somebody who was going to come to a courier is done with it. -/
def release (p : CourierPool) (c : CourierId) : CourierPool :=
  let p := p.modify c fun d => { d with holders := d.holders - 1 }
  if p.isCurrent c then p else p.retire c

/-- The first in line leaves the line, and has done nothing to the courier. -/
def stepOut (p : CourierPool) (c : CourierId) : CourierPool :=
  p.modify c fun d => { d with line := d.line.tail }

/-- Whether the connection of a courier has reached a limit. -/
def isOverdue (p : CourierPool) (now : Nat) (c : CourierId) : Bool :=
  (p.desk? c).any fun d => (d.courier.recycle now).1.isSome

end CourierPool

/-- How far somebody is who goes round the desks. -/
inductive Sweeper.Stage where
  /-- It is about to come to the next desk. -/
  | walks
  /-- It stands in front of the line, and is about to look at the connection. -/
  | looks
  /-- It stands in front of the line, and has given the connection up. -/
  | closes
  /-- It has left the line, and is about to take the courier out of the pool. -/
  | leaves
  deriving DecidableEq, Repr

/-- Somebody who sweeps the pool. -/
structure Sweeper where
  /-- The couriers that it has still to visit, with their peers. It is with the first of them. -/
  route : List (MemberId × CourierId)
  stage : Sweeper.Stage := .walks
  /-- How many couriers it has taken out of the pool. -/
  count : Nat := 0

namespace Sweeper

/-- A round begins. -/
def setOut (p : CourierPool) : Sweeper × CourierPool :=
  let route := p.current.entries
  ({ route }, p.holdAll route)

/-- Whether a round is over. -/
def isOver (s : Sweeper) : Bool :=
  s.route.isEmpty

/-- The next piece of a round, by somebody who stands in line with a ticket. -/
def goOn (s : Sweeper) (now : Nat) (t : Ticket) (p : CourierPool) : Sweeper × CourierPool :=
  match s.route with
  | [] => (s, p)
  | (id, c) :: rest =>
    match s.stage with
    | .walks =>
      if p.isFree c then ({ s with stage := .looks }, p.join c t)
      else ({ s with route := rest }, p.release c)
    | .looks =>
      if p.isOverdue now c then ({ s with stage := .closes }, p.letGo c)
      else ({ s with route := rest, stage := .walks }, (p.stepOut c).release c)
    | .closes => ({ s with stage := .leaves }, p.stepOut c)
    | .leaves =>
      if p.current.get? id = some c then
        ({ route := rest, count := s.count + 1 },
          CourierPool.release { p with current := p.current.erase id } c)
      else ({ s with route := rest, stage := .walks }, p.release c)

end Sweeper

end PeerCluster
