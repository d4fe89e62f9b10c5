import PeerCluster.Inbound
import PeerCluster.Simulation.Network

/-!
# Callers in memory

Callers that connect to the local node one after the other, send everything they have, and read the
answers to the end.
-/

namespace PeerCluster.Simulation

/-- Serves callers, each with what it sends; `none` when the host cannot be reached at all. -/
def Host.serve? (h : Host) (listener : Listener) (streams : List FrameStream) :
    Option (List Inbound) :=
  match h, streams with
  | .isolated, _ :: _ => none
  | _, _ => some (streams.map fun s => Inbound.serve listener (.atOnce s))

end PeerCluster.Simulation
