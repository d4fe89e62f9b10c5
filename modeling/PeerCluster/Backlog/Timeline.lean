import PeerCluster.Backlog

/-!
# Waiting for the backlog

A remover wants all items of a backlog and is ready to wait for them until its deadline. Accepting
an item wakes every remover that sleeps, and so does disabling the backlog. A remover that is awake
acts once: it takes what waits, gives up if the backlog is disabled or its deadline has come, or
goes to sleep again. Time, in milliseconds, passes only while everybody sleeps.

Removers act in the order in which they began to wait, so of several that one item wakes the first
takes it and the others sleep on.
-/

namespace PeerCluster

/-- Somebody who waits for items. -/
structure Backlog.Remover (ρ : Type) where
  /-- Who waits. -/
  name : ρ
  deadline : Nat
  /-- Whether the remover acts before time passes. -/
  awake : Bool
  deriving DecidableEq, Repr

/-- How a wait ended. -/
structure Backlog.Ended (ρ α : Type) where
  name : ρ
  items : List α
  /-- When it ended. -/
  time : Nat

/-- A backlog, those who wait for its items, and the time. -/
structure Backlog.Timeline (ρ α : Type) where
  now : Nat := 0
  backlog : Backlog α
  /-- Those who wait, in the order in which they began. -/
  removers : List (Backlog.Remover ρ) := []
  /-- The waits that have ended, last first. -/
  ended : List (Backlog.Ended ρ α) := []

namespace Backlog.Timeline

variable {ρ α : Type}

/-- Wakes everybody. -/
def wake (rs : List (Remover ρ)) : List (Remover ρ) :=
  rs.map fun r => { r with awake := true }

/-- Adds an item, and says whether it was accepted. -/
def add (t : Timeline ρ α) (a : α) : Bool × Timeline ρ α :=
  let (accepted, backlog) := t.backlog.add a
  (accepted, { t with backlog, removers := if accepted then wake t.removers else t.removers })

/-- Enables or disables the backlog. -/
def setEnabled (t : Timeline ρ α) (enabled : Bool) : Timeline ρ α :=
  { t with
    backlog := t.backlog.setEnabled enabled
    removers := if enabled then t.removers else wake t.removers }

/-- A remover begins, with a deadline so many milliseconds away. -/
def begin (t : Timeline ρ α) (name : ρ) (ms : Nat) : Timeline ρ α :=
  { t with removers := t.removers ++ [⟨name, t.now + ms, true⟩] }

/-- A remover that is awake acts: its wait ends with the items it takes, or it stays and sleeps. -/
def act (now : Nat) (b : Backlog α) (r : Remover ρ) : Option (List α) × Backlog α :=
  if !b.enabled then (some [], b)
  else if !b.isEmpty then
    let (items, b) := b.takeAll
    (some items, b)
  else if r.deadline ≤ now then (some [], b)
  else (none, b)

/-- The remover at a place in the order acts, if it is awake. -/
def stepAt (t : Timeline ρ α) (place : Nat) : Timeline ρ α :=
  match t.removers[place]? with
  | none => t
  | some r =>
    if r.awake then
      match act t.now t.backlog r with
      | (some items, backlog) =>
        { t with
          backlog
          removers := t.removers.eraseIdx place
          ended := ⟨r.name, items, t.now⟩ :: t.ended }
      | (none, backlog) =>
        { t with backlog, removers := t.removers.set place { r with awake := false } }
    else t

/-- Those who wait act in turn, from the given place on. -/
def settleFrom (t : Timeline ρ α) (place : Nat) : (left : Nat) → Timeline ρ α
  | 0 => t
  | left + 1 =>
    let before := t.removers.length
    let t := t.stepAt place
    settleFrom t (if t.removers.length < before then place else place + 1) left

/-- Everybody who is awake acts. Acting wakes nobody, so once in turn is enough. -/
def settle (t : Timeline ρ α) : Timeline ρ α :=
  t.settleFrom 0 t.removers.length

/-- So many milliseconds pass while everybody sleeps. The waits whose deadline comes meanwhile end
with nothing, in the order of their deadlines. -/
def sleep (t : Timeline ρ α) (ms : Nat) : Timeline ρ α :=
  let wakeUp := t.now + ms
  let (due, later) := t.removers.partition fun r => r.deadline ≤ wakeUp
  let ends := (due.mergeSort fun a b => a.deadline ≤ b.deadline).map fun r =>
    (⟨r.name, [], r.deadline⟩ : Ended ρ α)
  { t with now := wakeUp, removers := later, ended := ends.reverse ++ t.ended }

end Backlog.Timeline

end PeerCluster
