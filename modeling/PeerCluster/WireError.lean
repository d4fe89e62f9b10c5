import PeerCluster.Frame.Kind
import PeerCluster.Text.Utf8

/-!
# What can be wrong with bytes from the network

The causes for which a heartbeat, a frame or a handshake is refused, and their wording.
-/

namespace PeerCluster

/-- What is wrong behind the header of a heartbeat. -/
inductive Heartbeat.BodyError where
  /-- The bytes end inside a word or a list of bytes. -/
  | shortBytes
  /-- The bytes end inside a text. -/
  | shortText
  /-- The bytes of a text are not UTF-8. -/
  | notText (fault : Utf8.Fault)
  /-- The command is none of the known ones. -/
  | unknownCommand (code : Nat)
  /-- Bytes follow the last field. -/
  | trailingBytes
  deriving DecidableEq, Repr

/-- How an error is described to a reader. -/
def Heartbeat.BodyError.message : BodyError → String
  | .shortBytes => "io error: unexpected end of file"
  | .shortText => "io error: "
  | .notText fault => "string is not valid utf8: " ++ fault.message
  | .unknownCommand code =>
    "invalid value: integer `" ++ Nat.repr code ++ "`, expected variant index 0 <= i < 2"
  | .trailingBytes => "Slice had bytes remaining after deserialization"

/-- Why bytes from the network are refused. -/
inductive WireError where
  | badMagic
  | unsupportedVersion (version : UInt8)
  | truncated (size : Nat)
  | tooLarge (size limit : Nat)
  | body (error : Heartbeat.BodyError)
  | unknownKind (code : UInt8)
  | invalidHandshake
  | unexpectedFrame (expected got : Frame.Kind)
  | mismatchedReply (expected got : UInt64)
  deriving DecidableEq, Repr

/-- How an error is described to a reader. -/
def WireError.message : WireError → String
  | badMagic => "Bad magic: not a heartbeat packet"
  | unsupportedVersion version => s!"Unsupported protocol version: {version.toNat}"
  | truncated size => s!"Truncated packet: {size} bytes"
  | tooLarge size limit => s!"Packet too large: {size} bytes (limit {limit})"
  | body error => "Malformed body: " ++ error.message
  | unknownKind code => s!"Unknown frame kind: {code.toNat}"
  | invalidHandshake => "Invalid handshake"
  | unexpectedFrame expected got =>
    "Unexpected frame: expected " ++ expected.name ++ ", got " ++ got.name
  | mismatchedReply expected got =>
    s!"Reply for message {got.toNat} while waiting on {expected.toNat}"

end PeerCluster
