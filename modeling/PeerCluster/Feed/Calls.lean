import PeerCluster.Feed

/-!
# Publications that nest

One thread uses a feed. What it calls may itself subscribe, give subscriptions up and publish, so
publications nest to any depth. A scene is a feed with the publications that are under way. It leaves
open what is done and when: every move is one piece of it, and any move may come at any time, whoever
makes it.

A publication settles when it begins whom it will call. Of the publications under way the innermost one
goes on.

Nothing that is called holds a subscription, so none is given up while the list of subscribers is read or
changed, and the lock is free whenever a move begins.
-/

namespace PeerCluster.Feed

/-- A publication under way. -/
structure Publication (κ : Type) where
  /-- How many publications had begun before. -/
  number : Nat
  event : MemberEvent
  /-- The calls that it has still to make, in order. -/
  due : List κ

/-- A call that a publication has made. -/
structure Delivery (κ : Type) where
  publication : Nat
  event : MemberEvent
  call : κ
  deriving DecidableEq, Repr

/-- A feed and the publications under way. -/
structure Scene (κ : Type) where
  feed : Feed κ := {}
  /-- Every subscription that was handed out, in order, with the call that it was handed out for; `none`
  in the place of one that was given up. -/
  handles : List (Option (Subscription × κ)) := []
  /-- The publications under way, innermost first. -/
  publications : List (Publication κ) := []
  /-- How many publications have begun. -/
  begun : Nat := 0
  /-- The calls made so far, in order. -/
  deliveries : List (Delivery κ) := []

/-- What can happen next. -/
inductive Move (κ : Type) where
  | subscribe (call : κ)
  /-- The subscription that was handed out at a place is given up, if it is still held. -/
  | drop (place : Nat)
  | publish (event : MemberEvent)
  /-- The innermost publication makes its next call, or is over. -/
  | goOn

namespace Scene

variable {κ : Type}

/-- The subscriptions that are held, in the order in which they were handed out. -/
def held (s : Scene κ) : List (Subscription × κ) :=
  s.handles.reduceOption

/-- The innermost publication goes on. -/
def goOn (s : Scene κ) : Scene κ :=
  match s.publications with
  | [] => s
  | ⟨_, _, []⟩ :: outer => { s with publications := outer }
  | ⟨number, event, call :: due⟩ :: outer =>
    { s with
      publications := ⟨number, event, due⟩ :: outer
      deliveries := s.deliveries ++ [⟨number, event, call⟩] }

/-- The scene after a move. -/
def next (s : Scene κ) : Move κ → Scene κ
  | .subscribe call =>
    let (subscription, feed) := s.feed.subscribe call
    { s with feed, handles := s.handles ++ [some (subscription, call)] }
  | .drop place =>
    match s.handles[place]? with
    | some (some (subscription, _)) =>
      { s with feed := s.feed.cancel subscription, handles := s.handles.set place none }
    | _ => s
  | .publish event =>
    { s with
      publications := ⟨s.begun, event, s.feed.calls⟩ :: s.publications
      begun := s.begun + 1 }
  | .goOn => s.goOn

/-- The scene after a list of moves. -/
def run (s : Scene κ) (moves : List (Move κ)) : Scene κ :=
  moves.foldl next s

end Scene

end PeerCluster.Feed
