import PeerCluster.Exchange
import PeerCluster.FrameStream
import PeerCluster.Net.Reader
import Std.Async

/-!
# Sockets

Connections that carry frames, and sockets in a multicast group, on a real machine.
-/

namespace PeerCluster.Live

open Std.Async (Async Selectable Selector)

/-! ## Addresses -/

/-- An address as sockets take it. -/
def native : IPAddress → Std.Net.IPAddr
  | .v4 ip => .v4 ⟨ip.octets⟩
  | .v6 ip => .v6 ⟨ip.groups⟩

/-- An address with a port as sockets take it. -/
def nativeWith (port : UInt16) : Std.Net.IPAddr → Std.Net.SocketAddress
  | .v4 ip => .v4 ⟨ip, port⟩
  | .v6 ip => .v6 ⟨ip, port⟩

/-- The address without its port. -/
def ipOf : SocketAddress → IPAddress
  | .v4 ip _ => .v4 ip
  | .v6 ip _ _ => .v6 ip

/-- The port that a socket is bound to. -/
def portOf : Std.Net.SocketAddress → UInt16
  | .v4 a => a.port
  | .v6 a => a.port

/-- Splits a host and a port at the last colon. -/
def hostAndPort (address : String) : String × UInt16 :=
  let parts := address.splitOn ":"
  (":".intercalate parts.dropLast, (parts.getLastD "").toNat?.getD 0 |>.toUInt16)

/-! ## Failures and time -/

/-- The number and the text of a failure that the machine reports. -/
def codeAndText? : IO.Error → Option (UInt32 × String)
  | .alreadyExists _ code text | .noFileOrDirectory _ code text | .invalidArgument _ code text
  | .permissionDenied _ code text | .resourceExhausted _ code text | .inappropriateType _ code text
  | .noSuchThing _ code text | .interrupted _ code text => some (code, text)
  | .otherError code text | .resourceBusy code text | .resourceVanished code text
  | .unsupportedOperation code text | .hardwareFault code text | .unsatisfiedConstraints code text
  | .illegalOperation code text | .protocolError code text | .timeExpired code text =>
    some (code, text)
  | .unexpectedEof | .userError _ => none

/-- What the machine reports. A number may stand for its negative. -/
def faultOf (e : IO.Error) : IoFault :=
  match codeAndText? e with
  | some (code, text) =>
    .os (.ofCode (if code < 0x80000000 then code.toNat else (0 - code).toNat) text)
  | none => .other (toString e)

/-- Does something that may fail. -/
def trying {α : Type} (x : Async α) : Async (Except IoFault α) := do
  try
    return .ok (← x)
  catch e =>
    return .error (faultOf e)

/-- Lets something go on by itself. -/
def begin (x : Async Unit) : IO Unit :=
  discard x.toIO

/-- Waits. -/
def pause (ms : Nat) : Async Unit :=
  Std.Async.sleep (.ofNat ms)

/-! ## Connections -/

/-- A connection, with the bytes that have arrived on it and nobody has looked at. -/
structure Connection where
  client : Std.Async.TCP.Socket.Client
  arrived : IO.Ref ByteArray
  ended : IO.Ref Bool

/-- A connection over a socket. -/
def Connection.of (client : Std.Async.TCP.Socket.Client) : IO Connection :=
  return ⟨client, ← IO.mkRef .empty, ← IO.mkRef false⟩

/-- The addresses that a text may mean. -/
def resolve (address : String) : Async (Option Std.Net.SocketAddress) :=
  match SocketAddress.ofText? address with
  | some a => return some (nativeWith a.port (native (ipOf a)))
  | none => do
    let (host, port) := hostAndPort address
    let found ← Std.Async.DNS.getAddrInfo host (toString port)
    return found[0]?.map (nativeWith port)

/-- Opens a connection. -/
def dial (address : String) (settings : Settings.Delivery) : Async (Except IoFault Connection) := do
  match ← trying (resolve address) with
  | .error fault => return .error fault
  | .ok none => return .error (.noAddress address)
  | .ok (some target) =>
    trying do
      let client ← Std.Async.TCP.Socket.Client.mk
      client.connect target
      if settings.tcpNoDelay then client.noDelay
      Connection.of client

/-- Waits for bytes, and says whether any arrived. -/
def Connection.await (c : Connection) (ms : Nat) : Async Bool := do
  let arrival : Selectable (Option (Option ByteArray)) :=
    .case (c.client.recvSelector 65536) fun bytes => return some bytes
  let timer : Selectable (Option (Option ByteArray)) :=
    .case (← Selector.sleep (.ofNat ms)) fun _ => return none
  match ← Selectable.one #[arrival, timer] with
  | none => return false
  | some none =>
    c.ended.set true
    return true
  | some (some bytes) =>
    c.arrived.modify (· ++ bytes)
    return true

/-- Waits for a frame until the given moment. -/
partial def Connection.hearUntil (c : Connection) (deadline : Nat) : Async Heard := do
  match FrameStream.arrived? (← c.arrived.get) (← c.ended.get) with
  | some (.frame f rest) =>
    c.arrived.set rest.bytes
    return .frame f
  | some .ended => return .ended
  | some (.failed e) => return .failed e
  | none =>
    let now ← IO.monoMsNow
    if deadline ≤ now then return .timedOut
    match ← trying (c.await (deadline - now)) with
    | .ok _ => c.hearUntil deadline
    | .error fault => return .failed (.io fault)

/-- Waits for a frame for so many milliseconds. -/
def Connection.hear (c : Connection) (ms : Nat) : Async Heard := do
  c.hearUntil ((← IO.monoMsNow) + ms)

/-- Sends a frame. -/
def Connection.say (c : Connection) (f : Frame) : Async (Except IoFault Unit) :=
  trying (c.client.send f.encode)

/-- Lets go of a connection. -/
def Connection.close (c : Connection) : Async Unit := do
  discard (trying c.client.shutdown)

/-- Opens the data channel. -/
def listen (address : SocketAddress) : IO (Except IoFault Std.Async.TCP.Socket.Server) := do
  try
    let server ← Std.Async.TCP.Socket.Server.mk
    server.bind (nativeWith address.port (native (ipOf address)))
    server.listen 1024
    return .ok server
  catch e =>
    return .error (faultOf e)

/-! ## The multicast group -/

/-- The interface that a node uses for its group, if it is told one of the same family. -/
def interface? (m : Settings.Membership) : Option IPAddress :=
  match m.address, m.bind with
  | .v4 _, some (.v4 ip) => if ip = .unspecified then none else some (.v4 ip)
  | _, _ => none

/-- Opens a socket and joins the group. -/
def join (m : Settings.Membership) : IO (Except IoFault Std.Async.UDP.Socket) := do
  try
    let socket ← Std.Async.UDP.Socket.mk
    let anywhere : Std.Net.IPAddr := match m.address with
      | .v4 _ => .v4 (.ofParts 0 0 0 0)
      | .v6 _ => .v6 (.ofParts 0 0 0 0 0 0 0 0)
    socket.bind (nativeWith m.port anywhere)
    let interface := interface? m |>.map native
    socket.setMembership (native m.address) interface .enterGroup
    socket.setMulticastLoop true
    if let some ip := interface then socket.setMulticastInterface ip
    if let some ttl := m.ttl then socket.setMulticastTTL ttl
    return .ok socket
  catch e =>
    return .error (faultOf e)

/-- Leaves the group. -/
def leave (m : Settings.Membership) (socket : Std.Async.UDP.Socket) : IO Unit := do
  try
    socket.setMembership (native m.address) ((interface? m).map native) .leaveGroup
  catch _ =>
    return ()

/-- Sends a datagram to the group. -/
def transmit (m : Settings.Membership) (socket : Std.Async.UDP.Socket) (datagram : List UInt8) :
    Async (Except IoFault Unit) :=
  trying (socket.send datagram.toByteArray (some (nativeWith m.port (native m.address))))

end PeerCluster.Live
