import PeerCluster.BigEndian
import PeerCluster.Member
import PeerCluster.WireError

/-!
# Heartbeat datagrams

A heartbeat is one datagram: four bytes that mark it as a heartbeat, one byte for the version, and a
body of fixed layout.

* the command: four bytes, 0 for a living member and 1 for one that leaves;
* the id: sixteen bytes;
* the host: its length in eight bytes and its UTF-8 bytes;
* the port: two bytes;
* domain and payload: for each the length in eight bytes and the bytes;
* the sequence number and the age in milliseconds: eight bytes each.

All words are big-endian, and nothing may follow the body. The field readers below take their field
from the front and give what follows it.
-/

namespace PeerCluster.Heartbeat

/-- What a heartbeat says about its sender. -/
inductive Command where
  | alive
  /-- The member leaves; its peers drop it at once. -/
  | shutdown
  deriving DecidableEq, Repr

/-- A heartbeat. -/
structure Packet where
  command : Command
  member : Member
  deriving DecidableEq, Repr

/-- The most bytes of a datagram, unless settings say otherwise. -/
def defaultMaxSize : Nat := 8192

/-- The first bytes of every heartbeat: `CLHB`. -/
def magic : List UInt8 := [0x43, 0x4C, 0x48, 0x42]

/-- The version of the layout. -/
def version : UInt8 := 1

/-- How many bytes stand before the body. -/
def headerSize : Nat := 5

namespace Command

/-- The number for a command. -/
def code : Command → Nat
  | alive => 0
  | shutdown => 1

/-- The command that a number stands for. -/
def ofCode? : Nat → Option Command
  | 0 => some alive
  | 1 => some shutdown
  | _ => none

@[simp] theorem ofCode?_code (c : Command) : ofCode? c.code = some c := by
  cases c <;> rfl

theorem code_of_ofCode? {n : Nat} {c : Command} (h : ofCode? n = some c) : c.code = n := by
  match n with
  | 0 | 1 => simp only [ofCode?, Option.some.injEq] at h; rw [← h, code]
  | n + 2 => simp [ofCode?] at h

/-- The word for a command. -/
def name : Command → String
  | alive => "alive"
  | shutdown => "shutdown"

end Command

/-! ## Fields -/

/-- Takes so many bytes. -/
def takeBytes (short : BodyError) (n : Nat) (bs : List UInt8) :
    Except BodyError (List UInt8 × List UInt8) :=
  if bs.length < n then .error short else .ok (bs.take n, bs.drop n)

/-- Takes a word of so many bytes. -/
def takeWord (width : Nat) (bs : List UInt8) : Except BodyError (Nat × List UInt8) := do
  let (word, rest) ← takeBytes .shortBytes width bs
  return (BigEndian.value word, rest)

/-- Takes a command. -/
def takeCommand (bs : List UInt8) : Except BodyError (Command × List UInt8) := do
  let (code, rest) ← takeWord 4 bs
  match Command.ofCode? code with
  | some command => return (command, rest)
  | none => throw (.unknownCommand code)

/-- Takes bytes behind their length. -/
def takeBlock (bs : List UInt8) : Except BodyError (List UInt8 × List UInt8) := do
  let (length, rest) ← takeWord 8 bs
  takeBytes .shortBytes length rest

/-- Takes a text behind its length in bytes. -/
def takeText (bs : List UInt8) : Except BodyError (String × List UInt8) := do
  let (length, rest) ← takeWord 8 bs
  let (content, rest) ← takeBytes .shortText length rest
  match Utf8.decode content with
  | .ok text => return (text, rest)
  | .error fault => throw (.notText fault)

/-- Takes a whole body. -/
def takeBody (bs : List UInt8) : Except BodyError (Packet × List UInt8) := do
  let (command, bs) ← takeCommand bs
  let (id, bs) ← takeBytes .shortBytes 16 bs
  let (host, bs) ← takeText bs
  let (port, bs) ← takeWord 2 bs
  let (domain, bs) ← takeBlock bs
  let (payload, bs) ← takeBlock bs
  let (sequence, bs) ← takeWord 8 bs
  let (aliveMs, bs) ← takeWord 8 bs
  return (⟨command, {
    id := .ofBytes id
    host
    port := port.toUInt16
    domain
    payload
    sequence := sequence.toUInt64
    aliveMs := aliveMs.toUInt64 }⟩, bs)

/-- Bytes behind their length. -/
def block (bs : List UInt8) : List UInt8 :=
  BigEndian.bytes 8 bs.length ++ bs

namespace Packet

/-- Whether the sender leaves. -/
def isShutdown (p : Packet) : Bool :=
  p.command == .shutdown

/-- What stands behind the header. -/
def body (p : Packet) : List UInt8 :=
  BigEndian.bytes 4 p.command.code ++ p.member.id.bytes ++ block (Utf8.encode p.member.host) ++
    BigEndian.bytes 2 p.member.port.toNat ++ block p.member.domain ++ block p.member.payload ++
    BigEndian.bytes 8 p.member.sequence.toNat ++ BigEndian.bytes 8 p.member.aliveMs.toNat

/-- The bytes of a heartbeat, however many they are. -/
def bytes (p : Packet) : List UInt8 :=
  magic ++ version :: p.body

/-- The datagram of a heartbeat, which may not be longer than the limit. -/
def encode (p : Packet) (maxSize : Nat) : Except WireError (List UInt8) :=
  let bs := p.bytes
  if maxSize < bs.length then .error (.tooLarge bs.length maxSize) else .ok bs

/-- The heartbeat in a datagram, which may not be longer than the limit. -/
def decode (bs : List UInt8) (maxSize : Nat) : Except WireError Packet := do
  if maxSize < bs.length then throw (.tooLarge bs.length maxSize)
  if bs.length < headerSize then throw (.truncated bs.length)
  if bs.take magic.length ≠ magic then throw .badMagic
  let given := bs[magic.length]?.getD 0
  if given ≠ version then throw (.unsupportedVersion given)
  match takeBody (bs.drop headerSize) with
  | .error e => throw (.body e)
  | .ok (p, []) => return p
  | .ok (_, _ :: _) => throw (.body .trailingBytes)

end Packet

end PeerCluster.Heartbeat
