import PeerCluster.Backlog.Timeline

/-!
# Calls of the backlog that overlap

Those who add to a backlog, disable it or wait for its items may come in each other's way. Each call
is cut here into the pieces between which another one may come in:

* who adds an item or disables the backlog first changes the backlog and then, in a piece of its own,
  wakes everybody who listens;
* who waits begins to listen, then looks into the backlog, and sleeps if there is nothing to take. It
  begins anew when it is woken, and gives up at its deadline.

Waking reaches those who listen at that moment, and nobody who begins to listen later. Time passes
only while everybody sleeps. A scene is a backlog with the calls that are in flight.
-/

namespace PeerCluster.Backlog

/-- Where somebody stands who waits for items. -/
inductive Stage where
  /-- It is about to listen. -/
  | arriving
  /-- It listens, and is about to look into the backlog. -/
  | looking
  /-- It listens, and has found nothing to take. -/
  | sleeping
  deriving DecidableEq, Repr

/-- Somebody who waits for items. -/
structure Waiter (ρ : Type) where
  name : ρ
  deadline : Nat
  stage : Stage := .arriving
  /-- Whether it has been woken since it began to listen. -/
  woken : Bool := false
  deriving DecidableEq, Repr

/-- How a wait ended. -/
structure Answer (ρ α : Type) where
  name : ρ
  deadline : Nat
  items : List α
  /-- When it ended. -/
  time : Nat
  deriving DecidableEq, Repr

/-- A backlog and the calls in flight. -/
structure Scene (ρ α : Type) where
  now : Nat := 0
  backlog : Backlog α
  waiters : List (Waiter ρ) := []
  /-- How many have changed the backlog and are about to wake those who listen. -/
  wakers : Nat := 0
  /-- The waits that have ended, last first. -/
  answers : List (Answer ρ α) := []

/-- What can happen next. -/
inductive Move (ρ α : Type) where
  /-- Somebody adds an item, as far as the backlog is concerned. -/
  | adds (a : α)
  /-- Somebody enables or disables the backlog, as far as the backlog is concerned. -/
  | sets (enabled : Bool)
  /-- Somebody who has changed the backlog wakes those who listen. -/
  | wakes
  /-- A wait begins, with a deadline so many milliseconds away. -/
  | begins (name : ρ) (ms : Nat)
  /-- The waiter at a place goes on, unless it sleeps. -/
  | goesOn (place : Nat)
  /-- The waiter at a place gives up, if it sleeps and its deadline has come. -/
  | givesUp (place : Nat)
  /-- So many milliseconds pass, if everybody sleeps until then. -/
  | passes (ms : Nat)
  deriving DecidableEq, Repr

variable {ρ α : Type}

/-- Whether this is the next piece of a call in flight. -/
def Move.isWork : Move ρ α → Bool
  | .wakes | .goesOn _ | .givesUp _ => true
  | .adds _ | .sets _ | .begins .. | .passes _ => false

namespace Waiter

/-- Wakes a waiter, if it listens. -/
def wake (w : Waiter ρ) : Waiter ρ :=
  if w.stage = .arriving then w else { w with woken := true }

/-- Whether a waiter does nothing before it is woken or its deadline comes. -/
def isAsleep (w : Waiter ρ) : Bool :=
  w.stage = .sleeping && !w.woken

end Waiter

/-- What somebody finds who looks into the backlog: the answer, if there is one. -/
def look (b : Backlog α) : Option (List α) × Backlog α :=
  if !b.enabled then (some [], b)
  else if b.isEmpty then (none, b)
  else
    let (items, b) := b.takeAll
    (some items, b)

namespace Scene

/-- A backlog that nobody waits for. -/
def fresh (maxLength : Nat) : Scene ρ α :=
  { backlog := .empty maxLength }

/-- An item is added, and it is said whether it was accepted. -/
def add (s : Scene ρ α) (a : α) : Bool × Scene ρ α :=
  let (accepted, backlog) := s.backlog.add a
  (accepted, { s with backlog, wakers := if accepted then s.wakers + 1 else s.wakers })

/-- The backlog is enabled or disabled. -/
def setEnabled (s : Scene ρ α) (enabled : Bool) : Scene ρ α :=
  { s with
    backlog := s.backlog.setEnabled enabled
    wakers := if enabled then s.wakers else s.wakers + 1 }

/-- Those who listen are woken. -/
def wake (s : Scene ρ α) : Scene ρ α :=
  if s.wakers = 0 then s
  else { s with wakers := s.wakers - 1, waiters := s.waiters.map Waiter.wake }

/-- A wait begins. -/
def begin (s : Scene ρ α) (name : ρ) (ms : Nat) : Scene ρ α :=
  { s with waiters := s.waiters ++ [⟨name, s.now + ms, .arriving, false⟩] }

/-- The wait at a place ends. -/
def answer (s : Scene ρ α) (place : Nat) (w : Waiter ρ) (items : List α) : Scene ρ α :=
  { s with
    waiters := s.waiters.eraseIdx place
    answers := ⟨w.name, w.deadline, items, s.now⟩ :: s.answers }

/-- The waiter at a place goes on. -/
def goOn (s : Scene ρ α) (place : Nat) : Scene ρ α :=
  match s.waiters[place]? with
  | none => s
  | some w =>
    match w.stage with
    | .arriving =>
      { s with waiters := s.waiters.set place { w with stage := .looking, woken := false } }
    | .looking =>
      match s.backlog.look with
      | (some items, backlog) => { s with backlog }.answer place w items
      | (none, backlog) =>
        { s with backlog, waiters := s.waiters.set place { w with stage := .sleeping } }
    | .sleeping =>
      if w.woken then { s with waiters := s.waiters.set place { w with stage := .arriving } } else s

/-- The waiter at a place gives up, if it sleeps and its deadline has come. -/
def giveUp (s : Scene ρ α) (place : Nat) : Scene ρ α :=
  match s.waiters[place]? with
  | none => s
  | some w => if w.stage = .sleeping ∧ w.deadline ≤ s.now then s.answer place w [] else s

/-- So many milliseconds pass, if everybody sleeps until then. -/
def pass (s : Scene ρ α) (ms : Nat) : Scene ρ α :=
  if s.wakers = 0 ∧ ∀ w ∈ s.waiters, w.isAsleep ∧ s.now + ms ≤ w.deadline then
    { s with now := s.now + ms }
  else s

/-- The scene after a move. -/
def next (s : Scene ρ α) : Move ρ α → Scene ρ α
  | .adds a => (s.add a).2
  | .sets enabled => s.setEnabled enabled
  | .wakes => s.wake
  | .begins name ms => s.begin name ms
  | .goesOn place => s.goOn place
  | .givesUp place => s.giveUp place
  | .passes ms => s.pass ms

/-- The scene after a list of moves. -/
def run (s : Scene ρ α) (moves : List (Move ρ α)) : Scene ρ α :=
  moves.foldl next s

end Scene

end PeerCluster.Backlog
