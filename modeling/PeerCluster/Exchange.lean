import PeerCluster.DeliveryError
import PeerCluster.Frame
import PeerCluster.Settings.Basic

/-!
# Exchanges with the world

A courier talks to its peer over connections that it does not own: it asks, and the world answers.
An exchange is a courier's whole plan, as the next thing it asks and what it does with every
possible answer. So the same plan can be carried out over sockets, in a simulation, and in a proof
that lets the world answer what it likes.
-/

namespace PeerCluster

/-- Names a connection. -/
structure Link where
  number : Nat
  deriving DecidableEq, Repr

/-- How the attempt to open a connection ends. -/
inductive Dialled where
  | connected (link : Link)
  | failed (fault : IoFault)
  | timedOut

/-- How the wait for a frame ends. -/
inductive Heard where
  | frame (f : Frame)
  /-- The peer closed the connection before a frame began. -/
  | ended
  | failed (error : DeliveryError)
  | timedOut

/-- What a courier asks of the world. -/
inductive Ask where
  /-- Opens a connection to an address. -/
  | dial (address : String) (settings : Settings.Delivery)
  /-- Writes a frame within so many milliseconds. -/
  | write (link : Link) (frame : Frame) (ms : Nat)
  /-- Waits for a frame for so many milliseconds. -/
  | read (link : Link) (ms : Nat)
  | close (link : Link)
  /-- Marks the health of the peer. -/
  | mark (next : Health)
  /-- Reads the clock, in milliseconds. -/
  | clock

/-- What the world can answer. -/
abbrev Ask.Answer : Ask → Type
  | .dial .. => Dialled
  | .write .. => Except IoFault Unit
  | .read .. => Heard
  | .close _ => Unit
  | .mark _ => Unit
  | .clock => Nat

/-- A plan that asks the world and comes to a result. -/
inductive Exchange (α : Type) where
  | done (a : α)
  | ask (q : Ask) (next : q.Answer → Exchange α)

namespace Exchange

variable {α β : Type}

/-- A plan, and another one that begins with its result. -/
def bind : Exchange α → (α → Exchange β) → Exchange β
  | done a, f => f a
  | ask q next, f => ask q fun answer => (next answer).bind f

instance : Monad Exchange where
  pure := done
  bind := bind

/-- Asks the world once. -/
def request (q : Ask) : Exchange q.Answer :=
  ask q done

theorem bind_done (x : Exchange α) : x.bind done = x := by
  induction x with
  | done a => rfl
  | ask q next ih => exact congrArg (ask q) (funext ih)

theorem bind_assoc {γ : Type} (x : Exchange α) (f : α → Exchange β) (g : β → Exchange γ) :
    (x.bind f).bind g = x.bind fun a => (f a).bind g := by
  induction x with
  | done a => rfl
  | ask q next ih => exact congrArg (ask q) (funext ih)

instance : LawfulMonad Exchange :=
  LawfulMonad.mk' Exchange (fun x => bind_done x) (fun _ _ => rfl) bind_assoc

/-- Carries a plan out in a world that answers everything at once. -/
def run {σ : Type} (answer : (q : Ask) → σ → q.Answer × σ) : Exchange α → σ → α × σ
  | done a, s => (a, s)
  | ask q next, s =>
    let (a, s) := answer q s
    (next a).run answer s

end Exchange

end PeerCluster
