import PeerCluster.Json.Printer
import PeerCluster.Json.Reader
import PeerCluster.Json.Record
import PeerCluster.Member

/-!
# The handshake

The first frame of a connection says which member is calling, as a small JSON record. A record of
another type is no handshake. A handshake of another version is accepted, but worth a warning.
-/

namespace PeerCluster

/-- Who is calling. -/
structure Handshake where
  /-- What kind of record this is. -/
  type : String
  version : UInt32
  memberId : MemberId
  /-- The host on which the caller's data channel listens. -/
  host : String
  /-- The port on which the caller's data channel listens. -/
  port : UInt16
  deriving DecidableEq, Repr

namespace Handshake

/-- The version of the data channel that this library speaks. -/
def currentVersion : UInt32 := 1

/-- The type of every handshake. -/
def typeName : String := "handshake"

/-- The handshake of a caller. -/
def of (id : MemberId) (host : String) (port : UInt16) : Handshake :=
  ⟨typeName, currentVersion, id, host, port⟩

/-- The handshake of a member. -/
def ofMember (m : Member) : Handshake :=
  of m.id m.host m.port

/-- The caller, as far as the handshake describes it. -/
def toMember (h : Handshake) : Member :=
  { id := h.memberId, host := h.host, port := h.port }

/-- Whether the caller speaks another version. -/
def isOtherVersion (h : Handshake) : Bool :=
  h.version != currentVersion

/-- The JSON record of a handshake. -/
def toJson (h : Handshake) : Json :=
  .record [("type", .text h.type), ("version", .natural h.version.toNat),
    ("memberId", .text h.memberId.render), ("host", .text h.host), ("port", .natural h.port.toNat)]

/-- The JSON text of a handshake. -/
def text (h : Handshake) : String :=
  h.toJson.render

/-- The record that a JSON value gives. -/
def ofJson? (v : Json) : Option Handshake := do
  let g ← Json.given? ["type", "version", "memberId", "host", "port"] v
  return {
    type := ← g.required "type" Json.text?
    version := ← g.required "version" Json.word32?
    memberId := ← g.required "memberId" (Json.named? MemberId.ofText?)
    host := ← g.required "host" Json.text?
    port := ← g.required "port" Json.word16? }

/-- The handshake that bytes hold, if they hold one. -/
def ofBytes? (bs : List UInt8) : Option Handshake := do
  let h ← ofJson? (← Json.parse? bs)
  guard (h.type = typeName)
  return h

end Handshake

end PeerCluster
