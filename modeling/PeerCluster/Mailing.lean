import PeerCluster.CourierPool

/-!
# Mailings

A mailing delivers one message to a list of members. Those that are under suspicion when it begins
come last. The deliveries are made one after the other or all at once, every one of them is made,
and the mailing reports exactly the members that were not reached.

Each delivery goes through phases: it finds the courier of its member, joins the line for the
courier, is served, and is over. A step takes one delivery from one phase to the next, so any
interleaving of deliveries, of one mailing or of several, is a sequence of steps.
-/

namespace PeerCluster

/-- How far a delivery is. -/
inductive Mailing.Phase where
  /-- It has not begun. -/
  | pending
  /-- It has found its courier. -/
  | assigned (courier : CourierId)
  /-- It stands in line for its courier. -/
  | queued (courier : CourierId)
  /-- It is being served, and this is left of the service. -/
  | served (courier : CourierId) (rest : Exchange (Except DeliveryError Unit × Courier))
  | over (result : Except DeliveryError Unit)

/-- One delivery of a mailing. -/
structure Mailing.Delivery where
  member : Member
  /-- Whether the member was under suspicion when the mailing began. -/
  wasSuspect : Bool
  phase : Mailing.Phase := .pending

/-- A message on its way to several members. -/
structure Mailing where
  number : Nat
  payload : ByteArray
  /-- Whether the members are asked for an answer. -/
  wait : Bool
  fanOut : Settings.FanOut
  /-- The deliveries, in the order in which they are begun and reported. -/
  deliveries : List Mailing.Delivery

namespace Mailing

/-! ## Beginning -/

/-- Notes for each member whether it is under suspicion, and posts its health. -/
def snapshot (board : HealthBoard) : List Member → List Delivery × HealthBoard
  | [] => ([], board)
  | m :: rest =>
    let (cell, board) := board.findOrPost m.id
    let delivery : Delivery := { member := m, wasSuspect := (board.read cell).isSuspect }
    let (deliveries, board) := snapshot board rest
    (delivery :: deliveries, board)

/-- Begins a mailing. Members under suspicion come last, and within each group the order is kept. -/
def begin (p : CourierPool) (number : Nat) (members : List Member) (payload : ByteArray)
    (wait : Bool) : Mailing × CourierPool :=
  let (ds, board) := snapshot p.board members
  let ordered := ds.filter (fun d => !d.wasSuspect) ++ ds.filter fun d => d.wasSuspect
  (⟨number, payload, wait, p.fanOut, ordered⟩, { p with board })

/-! ## Steps -/

/-- Whether a delivery is over. -/
def Delivery.isOver (d : Delivery) : Bool :=
  match d.phase with
  | .over _ => true
  | _ => false

/-- Whether the delivery at a place may take a step: where they are made one after the other, all
before it have to be over. -/
def mayStep (g : Mailing) (place : Nat) : Bool :=
  match g.fanOut with
  | .sequential => (g.deliveries.take place).all Delivery.isOver
  | .parallel => true

/-- What a delivery can do next. -/
inductive Move where
  /-- It takes a step that needs nothing from the world. -/
  | steps (phase : Phase) (pool : CourierPool)
  /-- It asks the world. -/
  | asks (q : Ask) (next : q.Answer → Phase)
  /-- It waits for its turn. -/
  | waits
  | isOver

/-- What a delivery can do next. -/
def Delivery.move (p : CourierPool) (t : Ticket) (payload : ByteArray) (wait : Bool)
    (d : Delivery) : Move :=
  match d.phase with
  | .pending =>
    let (c, p) := p.assign d.member
    .steps (.assigned c) p
  | .assigned c => .steps (.queued c) (p.join c t)
  | .queued c =>
    match p.desk? c with
    | some desk =>
      if desk.line.head? = some t then .steps (.served c (desk.courier.send payload wait)) p
      else .waits
    | none => .waits
  | .served c (.done (result, courier)) => .steps (.over result) (p.leave c courier)
  | .served c (.ask (.mark health) next) =>
    match p.desk? c with
    | some desk =>
      .steps (.served c (next ())) { p with board := p.board.mark desk.courier.cell health }
    | none => .waits
  | .served c (.ask q next) => .asks q fun answer => .served c (next answer)
  | .over _ => .isOver

/-- What the delivery at a place can do next. -/
def moveAt (g : Mailing) (p : CourierPool) (place : Nat) : Move :=
  match g.deliveries[place]? with
  | none => .isOver
  | some d => if g.mayStep place then d.move p ⟨g.number, place⟩ g.payload g.wait else .waits

/-- The mailing with the delivery at a place in another phase. -/
def withPhase (g : Mailing) (place : Nat) (phase : Phase) : Mailing :=
  { g with deliveries := g.deliveries.modify place fun d => { d with phase } }

/-! ## The report -/

/-- Whether every delivery is over. -/
def isOver (g : Mailing) : Bool :=
  g.deliveries.all Delivery.isOver

/-- Notes the failures. A member that was already under suspicion is failing from now on. -/
def failures (board : HealthBoard) : List Delivery → List Failure × HealthBoard
  | [] => ([], board)
  | d :: rest =>
    match d.phase with
    | .over (.error cause) =>
      let (cell, board) := board.findOrPost d.member.id
      let board := if d.wasSuspect then board.mark cell .failing else board
      let (fs, after) := failures board rest
      (.mk d.member cause (board.read cell) :: fs, after)
    | _ => failures board rest

/-- What a mailing reports when all its deliveries are over. -/
def report (g : Mailing) (p : CourierPool) : Except DeliveryError Unit × CourierPool :=
  let (fs, board) := failures p.board g.deliveries
  (if fs.isEmpty then .ok () else .error (.faulty fs), { p with board })

end Mailing

end PeerCluster
