import PeerCluster.DeliveryError
import PeerCluster.Text.Utf8

/-!
# What a node tells its log
-/

namespace PeerCluster

/-- How important a notice is. -/
inductive Notice.Level where
  | debug
  | info
  | warning
  deriving DecidableEq, Repr

/-- What a node tells its log. -/
inductive Notice where
  | starting
  | identity (self : Member)
  | running (live : Nat)
  | joined (m : Member) (live : Nat)
  | left (m : Member) (live : Nat)
  | received (source : Member) (payload : ByteArray)
  /-- A line was broadcast to nobody. -/
  | noPeers
  | delivered (peers : Nat)
  | undelivered (error : DeliveryError)
  /-- A message from the backlog did not reach everybody. -/
  | backlogUndelivered (error : DeliveryError)
  | backlogFull
  | interrupted
  | stopping

namespace Notice

/-- How important a notice is. -/
def level : Notice → Level
  | noPeers | delivered _ => .debug
  | undelivered _ | backlogUndelivered _ | backlogFull => .warning
  | _ => .info

/-- The word for a level. -/
def Level.name : Level → String
  | debug => "DEBUG"
  | info => "INFO"
  | warning => "WARN"

/-- The text of a notice. -/
def text : Notice → String
  | starting => "Starting cluster-node"
  | identity self => "Member ID: " ++ self.id.render ++ " (data channel " ++ self.address ++ ")"
  | running live => s!"Node running with {live} peer(s). Type to broadcast, Ctrl+C to stop."
  | joined m live => "Peer joined: " ++ m.render ++ s!" ({live} live)"
  | left m live => "Peer left: " ++ m.render ++ s!" ({live} live)"
  | received source payload =>
    "Message from " ++ source.render ++ s!" ({payload.size} bytes): " ++
      Utf8.display payload.data.toList
  | noPeers => "No peers, dropping line"
  | delivered peers => s!"Sent to {peers} peer(s)"
  | undelivered error => "Send failed: " ++ error.message
  | backlogUndelivered error => "Queued message not fully delivered: " ++ error.message
  | backlogFull => "Send queue full, message dropped"
  | interrupted => "Shutdown signal received"
  | stopping => "Shutting down"

/-- The line that a notice is in the log. -/
def line (n : Notice) : String :=
  n.level.name ++ " cluster_node: " ++ n.text

end Notice

end PeerCluster
