import PeerCluster.Health
import PeerCluster.IoFault
import PeerCluster.Member
import PeerCluster.WireError

/-!
# Why a delivery failed

A delivery to one peer fails for a cause of its own, or after several attempts for the causes of the
first and the last. A delivery to many fails for exactly the listed members.
-/

namespace PeerCluster

mutual

/-- Why a delivery failed. -/
inductive DeliveryError where
  | io (fault : IoFault)
  | connectTimeout (address : String) (ms : Nat)
  | ackTimeout (address : String) (ms : Nat)
  /-- The peer answered that it did not accept the message. -/
  | remoteFailure (address : String) (id : UInt64)
  | wire (error : WireError)
  | notConnected
  /-- Every attempt failed. -/
  | exhausted (attempts : Nat) (first last : DeliveryError)
  /-- Of several members, the listed ones were not reached. -/
  | faulty (failures : List Failure)

/-- A member that was not reached. -/
inductive Failure where
  /-- The member, why it was not reached, and its health afterwards. -/
  | mk (member : Member) (cause : DeliveryError) (health : Health)

end

instance : Inhabited DeliveryError := ⟨.notConnected⟩

namespace Failure

/-- The member that was not reached. -/
def member : Failure → Member
  | mk member _ _ => member

/-- Why the member was not reached. -/
def cause : Failure → DeliveryError
  | mk _ cause _ => cause

/-- The member's health after the failure. -/
def health : Failure → Health
  | mk _ _ health => health

end Failure

namespace DeliveryError

/-- Whether a fresh connection might help. -/
def isRetryable : DeliveryError → Bool
  | io _ | connectTimeout .. | ackTimeout .. | wire _ | notConnected => true
  | remoteFailure .. | exhausted .. | faulty _ => false

mutual

/-- How an error is described to a reader. -/
def message : DeliveryError → String
  | io fault => "IO error: " ++ fault.message
  | connectTimeout address ms => "Connect to " ++ address ++ s!" timed out after {ms}ms"
  | ackTimeout address ms => "No acknowledgement from " ++ address ++ s!" within {ms}ms"
  | remoteFailure address id => "Remote " ++ address ++ s!" failed to process message {id.toNat}"
  | wire error => "Protocol error: " ++ error.message
  | notConnected => "Not connected"
  | exhausted attempts first last =>
    s!"Gave up after {attempts} attempts (first: " ++ first.message ++ "; last: " ++ last.message ++
      ")"
  | faulty failures =>
    s!"Delivery failed for {failures.length} member(s): " ++ ", ".intercalate (messages failures)

/-- How each failure in a list is described. -/
def messages : List Failure → List String
  | [] => []
  | .mk member cause health :: rest =>
    (member.render ++ " [" ++ health.name ++ "]: " ++ cause.message) :: messages rest

end

end DeliveryError

end PeerCluster
