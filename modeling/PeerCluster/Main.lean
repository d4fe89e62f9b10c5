import PeerCluster.Live.Loop
import PeerCluster.Startup

/-!
# The program

Starts a node on the machine that it is called on and keeps it going until it is interrupted.
-/

namespace PeerCluster.Live

/-- What a starting node has opened. -/
structure Opened where
  server : IO.Ref (Option Std.Async.TCP.Socket.Server)
  socket : IO.Ref (Option Std.Async.UDP.Socket)

/-- What is found where a settings file is looked for. -/
def find (path : String) : IO Settings.File := do
  try
    return .content (← IO.FS.readBinFile path).data.toList
  catch e =>
    match e with
    | .noFileOrDirectory .. => return .missing
    | e => return .unreadable (faultOf e)

/-- The machine on which the program runs. -/
def machine (opened : Opened) : Startup.Host IO where
  find := find
  listen address := do
    tell false .starting
    let result ← listen address
    opened.server.set result.toOption
    return result.map fun _ => ()
  join s := do
    let result ← join s.membership
    opened.socket.set result.toOption
    return result.map fun _ => ()

/-- Runs the program. -/
def program (arguments : List String) : IO UInt32 := do
  let opened : Opened := ⟨← IO.mkRef none, ← IO.mkRef none⟩
  let outcome ← Startup.start (machine opened) arguments
  match outcome with
  | .helped => IO.print CommandLine.help
  | .misused reason => IO.eprintln ("error: " ++ reason.message)
  | .failed failure => IO.eprintln failure.report
  | .started options settings =>
    if let (some server, some socket) := (← opened.server.get, ← opened.socket.get) then
      work options.verbose settings server socket
  return outcome.exitCode?.getD 0

end PeerCluster.Live

def main (arguments : List String) : IO UInt32 :=
  PeerCluster.Live.program arguments
