import PeerCluster.Feed.Calls

/-!
# A feed among threads

Several threads use a feed at once, and what is called may keep subscriptions of its own. A crowd is a
feed with those who are using its list of subscribers and the publications under way. It leaves open what
is done and when: every move is a piece of it during which nobody else gets or lets go of the lock, and
any move may come at any time, whoever makes it.

Whoever reads the list waits while somebody changes it, and whoever subscribes waits while anybody uses
it. Whoever gives a subscription up does not wait.

What a subscriber calls is shared by the list and by the publications that have not called it yet or are
calling it. When the last of them lets go of it, the subscriptions that it keeps are given up: if that is
the cancellation that takes it off the list, before the cancellation is over, and otherwise by the thread
of that publication.

The feed itself is never given up, and nothing that is let go of fails. Whoever subscribes takes a number
when the turn comes: a number says no more than what its cancellation takes off the list.
-/

namespace PeerCluster.Feed

/-- Who keeps a subscription that was handed out. -/
inductive Keeper where
  /-- Nobody yet: the subscriber has been added, and the lock not been let go of. -/
  | newcomer
  | somebody
  /-- What is called for the subscription that was handed out at a place. -/
  | callee (place : Nat)
  /-- The cancellation under way, which has let go of what kept it. -/
  | cancellation
  /-- It has been given up, while the lock was in the given state. -/
  | nobody (lock : Lock)
  deriving DecidableEq, Repr

/-- What is called for a subscription. -/
structure Callee (κ : Type) where
  /-- The place at which the subscription was handed out. -/
  place : Nat
  call : κ
  deriving DecidableEq, Repr

/-- A subscription that was handed out. -/
structure Handle (κ : Type) where
  subscription : Subscription
  callee : Callee κ
  keeper : Keeper := .newcomer

/-- What somebody reads the list of subscribers for. -/
inductive Reading where
  | publication (event : MemberEvent)
  | count

/-- A publication that makes its calls, and the one that it is making. -/
structure Round (κ : Type) extends Publication (Callee κ) where
  calling : Option (Callee κ) := none

/-- Whether a publication still has what is called for the subscription at a place. -/
def Round.holds {κ : Type} (r : Round κ) (place : Nat) : Bool :=
  (r.calling.toList ++ r.due).any fun c => c.place == place

/-- A feed, those who use its list of subscribers, and the publications under way. -/
structure Crowd (κ : Type) where
  feed : Feed (Callee κ) := {}
  /-- Every subscription that was handed out, in order. -/
  handles : List (Handle κ) := []
  readings : List Reading := []
  /-- Whether somebody changes the list. -/
  writing : Bool := false
  rounds : List (Round κ) := []
  /-- How many publications have read the list. -/
  begun : Nat := 0
  /-- The calls made so far, in order. -/
  deliveries : List (Delivery (Callee κ)) := []
  /-- What those who counted the subscribers have found, in order. -/
  counts : List Nat := []

namespace Crowd

/-- What can happen next. -/
inductive Move (κ : Type) where
  | subscribe (call : κ)
  /-- Somebody leaves the subscription at a place to what is called for the one at another place. -/
  | entrust (place callee : Nat)
  /-- Somebody gives up the subscription at a place. -/
  | drop (place : Nat)
  | read (purpose : Reading)
  /-- One of those who read the list lets go of the lock. -/
  | finishReading (index : Nat)
  /-- Whoever changes the list gives up what it has let go of, one after the other, and then lets go of
  the lock. -/
  | finishWriting
  /-- A publication returns from the call that it is making, and makes its next one or is over. -/
  | goOn (index : Nat)
  /-- A publication is cut short by what it calls. -/
  | abandon (index : Nat)

variable {κ : Type}

/-- What the lock is doing. -/
def lock (s : Crowd κ) : Lock :=
  if s.writing then .writing else if s.readings.isEmpty then .free else .reading

/-- Whether the list or a publication still has what is called for the subscription at a place. -/
def shares (s : Crowd κ) (place : Nat) : Bool :=
  s.feed.calls.any (fun c => c.place == place) || s.rounds.any fun r => r.holds place

/-- What nobody shares any more leaves the subscriptions that it keeps to an heir. -/
def letGo (s : Crowd κ) (heir : Keeper) : Crowd κ :=
  { s with
    handles := s.handles.map fun h =>
      match h.keeper with
      | .callee place => if s.shares place then h else { h with keeper := heir }
      | _ => h }

/-- Gives up the subscription at a place. -/
def giveUp (s : Crowd κ) (place : Nat) : Crowd κ :=
  match s.handles[place]? with
  | none => s
  | some h =>
    let t := { s with
      feed := s.feed.cancelUnder s.lock h.subscription
      handles := s.handles.set place { h with keeper := .nobody s.lock } }
    match s.lock with
    | .free => letGo { t with writing := true } .cancellation
    | .reading | .writing => t

/-- Those who have subscribed get their subscriptions. -/
def handOut (s : Crowd κ) : List (Handle κ) :=
  s.handles.map fun h => if h.keeper = .newcomer then { h with keeper := .somebody } else h

/-- The crowd after a move. -/
def next (s : Crowd κ) : Move κ → Crowd κ
  | .subscribe call =>
    if s.lock = .free then
      let callee : Callee κ := ⟨s.handles.length, call⟩
      let (subscription, feed) := s.feed.subscribe callee
      { s with feed, handles := s.handles ++ [{ subscription, callee }], writing := true }
    else s
  | .entrust place callee =>
    match s.handles[place]? with
    | some h =>
      if h.keeper = .somebody ∧ s.shares callee then
        { s with handles := s.handles.set place { h with keeper := .callee callee } }
      else s
    | none => s
  | .drop place =>
    if s.handles[place]?.any fun h => h.keeper = .somebody then s.giveUp place else s
  | .read purpose => if s.writing then s else { s with readings := s.readings ++ [purpose] }
  | .finishReading index =>
    match s.readings[index]? with
    | none => s
    | some .count =>
      { s with readings := s.readings.eraseIdx index, counts := s.counts ++ [s.feed.count] }
    | some (.publication event) =>
      { s with
        readings := s.readings.eraseIdx index
        rounds := s.rounds ++ [{ number := s.begun, event, due := s.feed.calls }]
        begun := s.begun + 1 }
  | .finishWriting =>
    if s.writing then
      match s.handles.findIdx? fun h => h.keeper = .cancellation with
      | some place => s.giveUp place
      | none => { s with handles := s.handOut, writing := false }
    else s
  | .goOn index =>
    match s.rounds[index]? with
    | none => s
    | some r =>
      match r.due with
      | [] => letGo { s with rounds := s.rounds.eraseIdx index } .somebody
      | c :: due =>
        letGo { s with
          rounds := s.rounds.set index { r with due, calling := some c }
          deliveries := s.deliveries ++ [⟨r.number, r.event, c⟩] } .somebody
  | .abandon index => letGo { s with rounds := s.rounds.eraseIdx index } .somebody

/-- The crowd after a list of moves. -/
def run (s : Crowd κ) (moves : List (Move κ)) : Crowd κ :=
  moves.foldl next s

/-- Who keeps the subscription that was handed out at a place. -/
def keeper? (s : Crowd κ) (place : Nat) : Option Keeper :=
  s.handles[place]?.map Handle.keeper

end Crowd

end PeerCluster.Feed
