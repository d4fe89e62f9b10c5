import PeerCluster.Frame

/-!
# Scripted peers

A scripted peer stands in for another node. It records every frame that it is sent, and reacts to
each message as its script says for that message of that connection.
-/

namespace PeerCluster.Simulation

/-- A frame that a peer sends, which may carry the id of the message that it reacts to, plus
something. -/
structure ScriptedFrame where
  frame : Frame
  echoPlus : Option UInt64 := none

/-- The frame as a reaction to the message of the given id. -/
def ScriptedFrame.toFrame (s : ScriptedFrame) (id : UInt64) : Frame :=
  match s.echoPlus with
  | some k => { s.frame with id := id + k }
  | none => s.frame

/-- How a peer reacts to a message. -/
inductive Reaction where
  /-- It answers if it was asked to. -/
  | answer (accepted : Bool)
  /-- It answers although it may not have been asked to. -/
  | insist (accepted : Bool)
  | silent
  /-- It ends its side of the connection and goes on reading. -/
  | hangUp
  /-- It waits for a release and then accepts the message. -/
  | hold
  /-- It sends frames, then bytes, and may then end its side. -/
  | send (frames : List ScriptedFrame) (raw : ByteArray) (hangsUp : Bool)

/-- What becomes of an attempt to connect to a peer. -/
inductive Reach where
  | accepts
  | refuses
  /-- Nothing is ever heard. -/
  | swallows
  deriving DecidableEq, Repr

/-- A peer with its script. -/
structure Peer where
  /-- What the script calls the peer. -/
  name : String
  member : Member
  reach : Reach := .accepts
  /-- The reactions to each message of each connection. -/
  script : List (List Reaction) := []
  /-- The reaction where the script says nothing. -/
  otherwise : Reaction := .answer true

/-- The reaction to a message of a connection. -/
def Peer.reaction (p : Peer) (connection message : Nat) : Reaction :=
  match p.script[connection]? with
  | some reactions => reactions[message]?.getD p.otherwise
  | none => p.otherwise

end PeerCluster.Simulation
