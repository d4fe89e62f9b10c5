import PeerCluster.CommandLine
import PeerCluster.IoFault
import PeerCluster.Net.Printer

/-!
# Starting a node

A node reads its command line and its settings, opens its data channel, and joins the multicast
group of the heartbeats, in this order. The first of these that fails is reported, and nothing else
is tried.
-/

namespace PeerCluster.Startup

/-- What a starting node asks of the machine that it runs on. -/
structure Host (m : Type → Type) where
  /-- What is found where a settings file is looked for. -/
  find : (path : String) → m Settings.File
  /-- Opens the data channel. -/
  listen : SocketAddress → m (Except IoFault Unit)
  /-- Joins the multicast group of the heartbeats. -/
  join : Settings → m (Except IoFault Unit)

/-- Why a node does not start. -/
inductive Failure where
  | settings (path : String) (error : Settings.LoadError)
  /-- The data channel cannot be opened. -/
  | deaf (address : SocketAddress) (fault : IoFault)
  /-- The multicast group cannot be joined. -/
  | alone (group : SocketAddress) (fault : IoFault)
  deriving DecidableEq, Repr

/-- How a failure is described to a reader. -/
def Failure.message : Failure → String
  | settings path error => error.message path
  | deaf address _ => "Failed to bind " ++ address.render
  | alone group _ => "Failed to join " ++ group.render

/-- What is behind a failure, if the operating system reported it. -/
def Failure.cause? : Failure → Option IoFault
  | settings _ (.unreadable fault) | deaf _ fault | alone _ fault => some fault
  | settings _ _ => none

/-- The text of a failure, with what is behind it. -/
def Failure.report (f : Failure) : String :=
  "Error: " ++ f.message ++
    match f.cause? with
    | some fault => "\n\nCaused by:\n    " ++ fault.message
    | none => ""

/-- What becomes of a node that is started. -/
inductive Outcome where
  | helped
  | misused (reason : CommandLine.Misuse)
  | failed (failure : Failure)
  | started (options : CommandLine.Options) (settings : Settings)

/-- The number with which a node ends that was not started. -/
def Outcome.exitCode? : Outcome → Option UInt32
  | helped => some 0
  | misused _ => some 2
  | failed _ => some 1
  | started .. => none

variable {m : Type → Type} [Monad m]

/-- Opens the data channel and joins the multicast group. -/
def connect (host : Host m) (s : Settings) : m (Except Failure Unit) := do
  match ← host.listen s.listening.listen with
  | .error fault => return .error (.deaf s.listening.listen fault)
  | .ok () =>
    match ← host.join s with
    | .error fault => return .error (.alone s.membership.group fault)
    | .ok () => return .ok ()

/-- Starts a node with the given options. -/
def startWith (host : Host m) (options : CommandLine.Options) : m Outcome := do
  let file ← match options.config with
    | some path => host.find path
    | none => pure .missing
  match options.settings file with
  | .error error => return .failed (.settings (options.config.getD "") error)
  | .ok s =>
    match ← connect host s with
    | .error failure => return .failed failure
    | .ok () => return .started options s

/-- Starts a node with the given command line. -/
def start (host : Host m) (arguments : List String) : m Outcome :=
  match CommandLine.read arguments with
  | .error reason => pure (.misused reason)
  | .ok .help => pure .helped
  | .ok (.run options) => startWith host options

end PeerCluster.Startup
