import PeerCluster.Json.Value

/-!
# Health of the way to a peer

A failure moves the health one step away from ready and a verified success moves it back. Suspicion
never makes a failing peer look better.
-/

namespace PeerCluster

/-- How the way to a peer is doing. -/
inductive Health where
  | ready
  /-- The latest attempt failed. -/
  | suspect
  /-- A whole delivery failed that began under suspicion. -/
  | failing
  deriving DecidableEq, Repr, Inhabited

namespace Health

/-- The health after it has been marked: only a ready peer becomes suspect, while the other two
marks always hold. -/
def mark (now : Health) (next : Health) : Health :=
  match next, now with
  | .suspect, .failing => .failing
  | next, _ => next

/-- The word for a health. -/
def name : Health → String
  | .ready => "ready"
  | .suspect => "suspect"
  | .failing => "failing"

/-- The health that a word names. -/
def ofName? : String → Option Health
  | "ready" => some .ready
  | "suspect" => some .suspect
  | "failing" => some .failing
  | _ => none

/-- A peer without a failure. -/
def isReady (h : Health) : Bool :=
  h == .ready

/-- A suspect or failing peer. -/
def isSuspect (h : Health) : Bool :=
  h != .ready

/-- A failing peer. -/
def isFailing (h : Health) : Bool :=
  h == .failing

/-- The JSON text of a health. -/
def toJson (h : Health) : Json :=
  .text h.name

end Health

end PeerCluster
