import PeerCluster.Simulation.Network
import PeerCluster.Startup

/-!
# A machine in memory

A machine with a few files, on which a node can be started.
-/

namespace PeerCluster.Simulation

/-- A machine. -/
structure Machine where
  host : Host
  /-- What is found under each path. Under every other path nothing is found. -/
  files : List (String × Settings.File) := []

namespace Machine

/-- Whether an address is set aside for documentation, so that no machine has it. -/
def isForDocumentation : SocketAddress → Bool
  | .v4 ip _ => ip.octets.toList.take 3 == [192, 0, 2]
  | .v6 .. => false

/-- What a starting node finds on a machine. -/
def asks (k : Machine) : Startup.Host Id where
  find path := (k.files.lookup path).getD .missing
  listen address :=
    if isForDocumentation address then .error (.os .addressNotAvailable) else .ok ()
  join _ :=
    match k.host with
    | .isolated => .error (.os .noSuchDevice)
    | .loopback => .ok ()

/-- Starts a node with the given command line. -/
def start (k : Machine) (arguments : List String) : Startup.Outcome :=
  Startup.start k.asks arguments

end Machine

end PeerCluster.Simulation
