import PeerCluster.Member

/-!
# Changes in the set of live peers
-/

namespace PeerCluster

/-- What happened to a peer. -/
inductive MemberEvent.Kind where
  /-- Its first heartbeat arrived. -/
  | joined
  /-- It announced its shutdown or fell silent. -/
  | left
  deriving DecidableEq, Repr

/-- A change in the set of live peers. -/
structure MemberEvent where
  kind : MemberEvent.Kind
  member : Member
  deriving DecidableEq, Repr

namespace MemberEvent

/-- A peer joined. -/
def joined (m : Member) : MemberEvent :=
  ⟨.joined, m⟩

/-- A peer left. -/
def left (m : Member) : MemberEvent :=
  ⟨.left, m⟩

/-- The word for a kind of event. -/
def Kind.name : Kind → String
  | .joined => "added"
  | .left => "disappeared"

/-- The JSON text of an event: the member's fields behind the kind. -/
def toJson (e : MemberEvent) : Json :=
  .record (("type", .text e.kind.name) :: e.member.fields)

end MemberEvent

end PeerCluster
