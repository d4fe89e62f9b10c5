import PeerCluster.Json.Printer
import PeerCluster.Member.Id

/-!
# Members

A member is a process of the cluster as its heartbeats describe it: who it is, where its data
channel listens, how long it lives and how many heartbeats it has sent. The domain separates
clusters that share a network, and the payload is whatever the application announces.
-/

namespace PeerCluster

/-- A process of the cluster. -/
structure Member where
  id : MemberId
  /-- The host on which the data channel listens. -/
  host : String
  /-- The port on which the data channel listens. -/
  port : UInt16
  /-- How many milliseconds the member has lived, by its own account. -/
  aliveMs : UInt64 := 0
  /-- How many heartbeats the member has sent. -/
  sequence : UInt64 := 0
  domain : List UInt8 := []
  payload : List UInt8 := []
  deriving DecidableEq, Repr, Inhabited

namespace Member

/-- Whether a host has to be bracketed before a port can follow it: it holds a colon and is not
bracketed yet. -/
def needsBrackets (host : String) : Bool :=
  host.toList.contains ':' && host.toList.head? != some '['

/-- The host and the port of the data channel. -/
def address (m : Member) : String :=
  let host := if needsBrackets m.host then "[" ++ m.host ++ "]" else m.host
  host ++ ":" ++ Nat.repr m.port.toNat

/-- How a member is shown in messages. -/
def render (m : Member) : String :=
  m.id.render ++ "@" ++ m.address

/-- The fields of a member in JSON. -/
def fields (m : Member) : List (String × Json) :=
  [("id", .text m.id.render), ("host", .text m.host), ("port", .natural m.port.toNat),
    ("aliveMs", .natural m.aliveMs.toNat), ("sequence", .natural m.sequence.toNat),
    ("domain", .bytes m.domain), ("payload", .bytes m.payload)]

/-- The JSON text of a member. -/
def toJson (m : Member) : Json :=
  .record m.fields

end Member

end PeerCluster
