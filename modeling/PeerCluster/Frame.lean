import PeerCluster.BigEndian
import PeerCluster.Frame.Kind
import PeerCluster.Handshake
import PeerCluster.WireError

/-!
# Frames

The data channel carries frames. On the wire a frame is

* four bytes: how many bytes follow;
* one byte: the kind;
* one byte: flags, of which the lowest bit asks for an answer;
* eight bytes: the id of a message, which its answer repeats;
* the body.

A frame of more than 50 MiB is neither sent nor accepted.
-/

namespace PeerCluster

/-- A unit of the data channel. -/
structure Frame where
  kind : Frame.Kind
  flags : UInt8
  id : UInt64
  body : ByteArray

namespace Frame

/-- The most bytes that may follow the length of a frame. -/
def maxSize : Nat := 50 * 1024 * 1024

/-- How many bytes the length takes. -/
def lengthWidth : Nat := 4

/-- How many bytes kind, flags and id take. -/
def headerSize : Nat := 10

/-- The flag that asks for an answer. -/
def ackFlag : UInt8 := 1

/-! ## Frames of each kind -/

/-- The frame that opens a connection. -/
def ofHandshake (h : Handshake) : Frame :=
  ⟨.handshake, 0, 0, h.text.toUTF8⟩

/-- A frame that carries a payload. -/
def message (id : UInt64) (payload : ByteArray) (ack : Bool) : Frame :=
  ⟨.message, if ack then ackFlag else 0, id, payload⟩

/-- The answer that a message was accepted. -/
def ack (id : UInt64) : Frame :=
  ⟨.ack, 0, id, .empty⟩

/-- The answer that a message was not accepted. -/
def nack (id : UInt64) : Frame :=
  ⟨.nack, 0, id, .empty⟩

/-- The answer to a message. -/
def reply (accepted : Bool) (id : UInt64) : Frame :=
  if accepted then ack id else nack id

/-- Whether the sender of a frame waits for an answer. -/
def asksForAck (f : Frame) : Bool :=
  f.flags &&& ackFlag != 0

/-- The handshake in a frame. -/
def handshake (f : Frame) : Except WireError Handshake :=
  if f.kind = .handshake then
    match Handshake.ofBytes? f.body.data.toList with
    | some h => .ok h
    | none => .error .invalidHandshake
  else .error (.unexpectedFrame .handshake f.kind)

/-! ## On the wire -/

/-- How many bytes follow the length. -/
def wireSize (f : Frame) : Nat :=
  headerSize + f.body.size

/-- A frame is refused when more bytes than allowed would follow its length. -/
def checkSize (size : Nat) : Except WireError Unit :=
  if maxSize < size then .error (.tooLarge size maxSize) else .ok ()

/-- Kind, flags and id. -/
def header (f : Frame) : List UInt8 :=
  f.kind.code :: f.flags :: BigEndian.bytes 8 f.id.toNat

/-- The bytes of a frame, with its length. -/
def encode (f : Frame) : ByteArray :=
  (BigEndian.bytes lengthWidth f.wireSize ++ f.header).toByteArray ++ f.body

/-- The frame in the bytes that follow a length. -/
def decode (bs : ByteArray) : Except WireError Frame := do
  if bs.size < headerSize then throw (.truncated bs.size)
  checkSize bs.size
  match (bs.extract 0 headerSize).data.toList with
  | code :: flags :: id =>
    match Kind.ofCode? code with
    | some kind =>
      return ⟨kind, flags, (BigEndian.value id).toUInt64, bs.extract headerSize bs.size⟩
    | none => throw (.unknownKind code)
  | _ => throw (.truncated bs.size)

end Frame

end PeerCluster
