import PeerCluster.Courier

/-!
# The pool of couriers

The pool keeps one courier for each peer and hires one when it is needed. A courier serves one
delivery at a time: deliveries stand in line for it, and the first in line is being served.

A courier goes to one address. A peer that has moved gets a new courier, unless the old one is busy.
A courier that has left the pool serves those who still come to it and then lets go of its
connection.
-/

namespace PeerCluster

/-- A place in the line for a courier: one delivery of one mailing. -/
structure Ticket where
  mailing : Nat
  delivery : Nat
  deriving DecidableEq, Repr

/-- Names a courier. -/
structure CourierId where
  index : Nat
  deriving DecidableEq, Repr

/-- A courier, and those who want its service. -/
structure CourierPool.Desk where
  courier : Courier
  /-- Those who stand in line. The first is being served. -/
  line : List Ticket := []
  /-- How many deliveries have been told to go to this courier and are not over. -/
  holders : Nat := 0

/-- The couriers of a node, and the health of its peers. -/
structure CourierPool where
  settings : Settings.Delivery
  fanOut : Settings.FanOut := .sequential
  /-- Who the couriers say is calling. -/
  self : Handshake
  board : HealthBoard := {}
  /-- Every courier ever hired. -/
  desks : Array CourierPool.Desk := #[]
  /-- The courier of each peer. -/
  current : MemberMap CourierId := {}
  /-- The connections that couriers have let go of, to be closed. -/
  released : List Link := []

namespace CourierPool

/-- The desk of a courier. -/
def desk? (p : CourierPool) (c : CourierId) : Option Desk :=
  p.desks[c.index]?

/-- Whether nobody stands in line for a courier. -/
def isFree (p : CourierPool) (c : CourierId) : Bool :=
  match p.desk? c with
  | some d => d.line.isEmpty
  | none => true

/-- Whether a courier goes to the given address. -/
def goesTo (p : CourierPool) (c : CourierId) (address : String) : Bool :=
  match p.desk? c with
  | some d => d.courier.destination.address == address
  | none => false

/-- Changes the desk of a courier. -/
def modify (p : CourierPool) (c : CourierId) (f : Desk → Desk) : CourierPool :=
  { p with desks := p.desks.modify c.index f }

/-- A courier lets go of its connection. -/
def letGo (p : CourierPool) (c : CourierId) : CourierPool :=
  match p.desk? c with
  | some d =>
    { p.modify c fun d => { d with courier := d.courier.dropped } with
      released := d.courier.link.toList ++ p.released }
  | none => p

/-- A courier that has left the pool lets go of its connection, unless somebody still comes to
it. -/
def retire (p : CourierPool) (c : CourierId) : CourierPool :=
  match p.desk? c with
  | some d => if d.holders = 0 then p.letGo c else p
  | none => p

/-- Hires a courier for a peer, in the place of an older one. -/
def hire (p : CourierPool) (m : Member) : CourierId × CourierPool :=
  let (cell, board) := p.board.findOrPost m.id
  let courier : Courier := { settings := p.settings, self := p.self, destination := m, cell }
  let id : CourierId := ⟨p.desks.size⟩
  (id, { p with
    board
    desks := p.desks.push { courier }
    current := p.current.insert m.id id })

/-- The courier for a peer. A busy courier is kept whatever its address. -/
def courierFor (p : CourierPool) (m : Member) : CourierId × CourierPool :=
  match p.current.get? m.id with
  | some c =>
    if !p.isFree c || p.goesTo c m.address then (c, p) else (p.retire c).hire m
  | none => p.hire m

/-- Makes sure that a peer has a courier. -/
def add (p : CourierPool) (m : Member) : CourierPool :=
  (p.courierFor m).2

/-- Takes the courier of a peer out of the pool, and says whether there was one. -/
def remove (p : CourierPool) (id : MemberId) : Bool × CourierPool :=
  match p.current.get? id with
  | none => (false, p)
  | some c =>
    let p := if p.isFree c then p.letGo c else p
    (true, { p with current := p.current.erase id })

/-! ## Standing in line -/

/-- The courier for a delivery to a peer. -/
def assign (p : CourierPool) (m : Member) : CourierId × CourierPool :=
  let (c, p) := p.courierFor m
  (c, p.modify c fun d => { d with holders := d.holders + 1 })

/-- Joins the line for a courier. -/
def join (p : CourierPool) (c : CourierId) (t : Ticket) : CourierPool :=
  p.modify c fun d => { d with line := d.line ++ [t] }

/-- Whether a ticket is the first in line. -/
def serves (p : CourierPool) (c : CourierId) (t : Ticket) : Bool :=
  match p.desk? c with
  | some d => d.line.head? == some t
  | none => false

/-- Whether a courier is still in the pool. -/
def isCurrent (p : CourierPool) (c : CourierId) : Bool :=
  p.current.values.contains c

/-- The first in line leaves, and the courier is as its service has left it. -/
def leave (p : CourierPool) (c : CourierId) (courier : Courier) : CourierPool :=
  let p := p.modify c fun d => ⟨courier, d.line.tail, d.holders - 1⟩
  if p.isCurrent c then p else p.retire c

/-! ## Giving connections up -/

/-- Gives up the connection of one peer's courier if it has reached a limit, and then takes the
courier out of the pool. A busy courier is passed over. -/
def sweepOne (now : Nat) (p : CourierPool) (id : MemberId) (c : CourierId) : Bool × CourierPool :=
  match p.desk? c with
  | none => (false, p)
  | some d =>
    if !d.line.isEmpty then (false, p)
    else match d.courier.recycle now with
      | (none, _) => (false, p)
      | (some _, _) =>
        let p := p.letGo c
        if p.current.get? id = some c then (true, { p with current := p.current.erase id })
        else (false, p)

/-- Gives up every connection that has reached a limit, and says how many couriers have left the
pool. -/
def sweep (p : CourierPool) (now : Nat) : Nat × CourierPool :=
  p.current.entries.foldl
    (fun (count, p) e =>
      let (left, p) := sweepOne now p e.1 e.2
      (if left then count + 1 else count, p))
    (0, p)

/-! ## What can be seen from outside -/

/-- How many couriers are in the pool. -/
def size (p : CourierPool) : Nat :=
  p.current.size

/-- The peers to which a connection is held. Those of busy couriers are left out. -/
def connectedPeers (p : CourierPool) : List Member :=
  p.current.values.filterMap fun c =>
    match p.desk? c with
    | some d =>
      if d.line.isEmpty && d.courier.isConnected then some d.courier.destination else none
    | none => none

end CourierPool

end PeerCluster
