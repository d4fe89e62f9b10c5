import PeerCluster.BacklogWorker
import PeerCluster.Simulation.Network

/-!
# A depot in memory

A depot is a pool of couriers on a simulated network, with the mailings that are under way. The
caller's own mailing goes first. Everything else goes on while the caller waits: the mailings in the
background, in the order in which they were handed in, the backlog worker and the sweeps of the
pool. Time passes only when nothing can go on without it.
-/

namespace PeerCluster.Simulation

/-- For whom a mailing is made. -/
inductive Owner where
  /-- The caller, who waits for it. -/
  | caller
  /-- The backlog worker. -/
  | worker
  /-- The caller, who asks for it later by a name. -/
  | background (name : String)
  deriving DecidableEq

/-- How far a mailing is. -/
inductive Job.State where
  | unbegun (message : PendingMessage)
  | going (mailing : Mailing)
  | done (result : Except DeliveryError Unit)

/-- A mailing of a depot. -/
structure Job where
  owner : Owner
  state : Job.State

/-- Couriers on a simulated network, and what is under way. -/
structure Depot where
  network : Network
  pool : CourierPool
  jobs : List Job := []
  worker : Option BacklogWorker := none
  /-- The number of the next mailing. -/
  nextNumber : Nat := 0
  /-- Since when each delivery has been in its phase. -/
  since : List (Ticket × Nat) := []
  /-- How often the pool is swept, and when next. -/
  sweeps : Option (Nat × Nat) := none

namespace Depot

/-- Whether a job is done. -/
def Job.isDone (j : Job) : Bool :=
  match j.state with
  | .done _ => true
  | _ => false

/-- The depot with the job at a place in another state. -/
def withState (d : Depot) (place : Nat) (state : Job.State) : Depot :=
  { d with jobs := d.jobs.modify place fun j => { j with state } }

/-- The depot after a delivery of a mailing has changed its phase. -/
def withPhase (d : Depot) (place : Nat) (g : Mailing) (delivery : Nat) (phase : Mailing.Phase) :
    Depot :=
  let ticket : Ticket := ⟨g.number, delivery⟩
  { d.withState place (.going (g.withPhase delivery phase)) with
    since := (ticket, d.network.now) :: d.since.filter fun s => s.1 != ticket }

/-- The answer to a question that was asked at the given time: one that is there now, or none at
all when the patience of the asker has run out. -/
def answer? (n : Network) (q : Ask) (since : Nat) : Option (q.Answer × Network) :=
  match n.answer? q with
  | some found => some found
  | none =>
    let (ms, nothing) := Network.patience q
    if since + ms ≤ n.now then some (nothing, n) else none

/-- One step of a delivery of a mailing, if it can take one now. -/
def stepDelivery (d : Depot) (place : Nat) (g : Mailing) (delivery : Nat) : Option Depot :=
  match g.moveAt d.pool delivery with
  | .steps phase pool => some ({ d with pool }.withPhase place g delivery phase)
  | .asks q next =>
    let since := (d.since.lookup ⟨g.number, delivery⟩).getD d.network.now
    match answer? d.network q since with
    | some (a, network) => some ({ d with network }.withPhase place g delivery (next a))
    | none => none
  | .waits | .isOver => none

/-- One step of the job at a place, if it can take one now. -/
def stepJob (d : Depot) (place : Nat) : Option Depot :=
  match d.jobs[place]? with
  | none => none
  | some j =>
    match j.state with
    | .done _ => none
    | .unbegun m =>
      let (g, pool) := Mailing.begin d.pool d.nextNumber m.destinations m.payload m.wait
      some ({ d with pool, nextNumber := d.nextNumber + 1 }.withState place (.going g))
    | .going g =>
      if g.isOver then
        let (result, pool) := g.report d.pool
        some ({ d with pool }.withState place (.done result))
      else (List.range g.deliveries.length).findSome? (d.stepDelivery place g)

/-- One step of the backlog worker, if it can take one now. -/
def stepWorker (d : Depot) : Option Depot :=
  match d.worker with
  | none => none
  | some w =>
    match w.move with
    | .steps w => some { d with worker := some w }
    | .sends m w =>
      some { d with worker := some w, jobs := d.jobs ++ [⟨.worker, .unbegun m⟩] }
    | .waits =>
      if d.jobs.any fun j => j.owner = .worker && Job.isDone j then
        some { d with
          worker := some w.sent
          jobs := d.jobs.filter fun j => j.owner ≠ .worker }
      else none
    | .ended => none

/-- The places of the caller's own mailings. -/
def callerPlaces (d : Depot) : List Nat :=
  (List.range d.jobs.length).filter fun i => (d.jobs[i]?.map Job.owner) = some .caller

/-- Whether a mailing of the caller is under way. -/
def callerWaits (d : Depot) : Bool :=
  d.jobs.any fun j => j.owner = .caller && !Job.isDone j

/-- One step of anything that can take one now: of the caller's own mailing if possible, else of
everything else. -/
def step? (d : Depot) : Option Depot :=
  match d.callerPlaces.findSome? d.stepJob with
  | some d => some d
  | none =>
    match (List.range d.jobs.length).findSome? d.stepJob with
    | some d => some d
    | none => d.stepWorker

/-- When something will be able to go on that cannot now. -/
def nextTimes (d : Depot) : List Nat :=
  let sweep := d.sweeps.toList.map Prod.snd
  d.jobs.foldl
    (fun times j =>
      match j.state with
      | .going g =>
        (List.range g.deliveries.length).filterMap (fun i =>
          match g.moveAt d.pool i with
          | .asks q _ =>
            some ((d.since.lookup ⟨g.number, i⟩).getD d.network.now + (Network.patience q).1)
          | _ => none) ++ times
      | _ => times)
    sweep

/-- Sweeps the pool if it is time to. -/
def sweepIfDue (d : Depot) : Depot :=
  match d.sweeps with
  | some (period, due) =>
    if due ≤ d.network.now then
      { d with
        pool := (d.pool.sweep d.network.now).2
        sweeps := some (period, d.network.now + period) }
    else d
  | none => d

/-- Time passes to the given moment. -/
def passTo (d : Depot) (time : Nat) : Depot :=
  sweepIfDue { d with network := { d.network with now := max d.network.now time } }

/-- Goes on until nothing can go on without time passing, or the caller's own mailing is done. The
first argument bounds the number of steps. -/
def settle : (bound : Nat) → Depot → Depot
  | 0, d => d
  | bound + 1, d =>
    let waited := d.callerWaits
    match d.step? with
    | none => d
    | some d => if waited && !d.callerWaits then d else settle bound d

/-- Goes on, and lets time pass up to the given moment, until a goal is reached. The first argument
bounds the number of moments. -/
def runUntil (goal : Depot → Bool) (deadline : Nat) : (bound : Nat) → Depot → Depot
  | 0, d => d
  | bound + 1, d =>
    let d := settle horizon d
    if goal d then d
    else
      match d.nextTimes.min? with
      | none => d
      | some time => if deadline < time then d.passTo deadline
          else runUntil goal deadline bound (d.passTo time)

/-- How long a script waits for something that may never happen. -/
def scriptPatience : Nat := 5000

/-- Waits for a goal, and says whether it was reached. -/
def waitFor (d : Depot) (goal : Depot → Bool) : Bool × Depot :=
  let d := runUntil goal (d.network.now + scriptPatience) horizon d
  (goal d, d)

/-- The result of the job of an owner. -/
def result? (d : Depot) (owner : Owner) : Option (Except DeliveryError Unit) :=
  d.jobs.findSome? fun j =>
    if j.owner = owner then
      match j.state with
      | .done result => some result
      | _ => none
    else none

/-- Sends a message and waits for the outcome. -/
def send (d : Depot) (m : PendingMessage) : Option (Except DeliveryError Unit) × Depot :=
  let d := { d with jobs := ⟨.caller, .unbegun m⟩ :: d.jobs }
  let d := runUntil (fun d => !d.callerWaits) horizon horizon d
  (d.result? .caller, { d with jobs := d.jobs.filter fun j => j.owner ≠ .caller })

/-- Hands a message in to be sent in the background. -/
def handIn (d : Depot) (name : String) (m : PendingMessage) : Depot :=
  { d with jobs := d.jobs ++ [⟨.background name, .unbegun m⟩] }

/-- Waits for the outcome of a message that was handed in. -/
def join (d : Depot) (name : String) : Option (Except DeliveryError Unit) × Depot :=
  let owner := Owner.background name
  let d := runUntil (fun d => (d.result? owner).isSome) horizon horizon d
  (d.result? owner, { d with jobs := d.jobs.filter fun j => j.owner ≠ owner })

/-- Whether messages are being sent in the background. -/
def hasBackground (d : Depot) : Bool :=
  d.jobs.any fun j =>
    match j.owner with
    | .background _ => true
    | _ => false

/-- Changes the backlog worker. -/
def withWorker (d : Depot) (f : BacklogWorker → BacklogWorker) : Depot :=
  { d with worker := d.worker.map f }

/-- Leaves a message in the backlog, and says whether it was accepted. -/
def enqueue (d : Depot) (m : PendingMessage) : Bool × Depot :=
  match d.worker with
  | none => (false, d)
  | some w =>
    let (accepted, w) := w.enqueue m
    (accepted, { d with worker := some w })

/-- Waits for the backlog worker to end. -/
def joinWorker (d : Depot) : Depot :=
  let ended (d : Depot) : Bool := (d.worker.map BacklogWorker.hasEnded).getD true
  { runUntil ended horizon horizon d with worker := none }

end Depot

end PeerCluster.Simulation
