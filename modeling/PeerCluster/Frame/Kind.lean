/-!
# Kinds of frames
-/

namespace PeerCluster

/-- What a frame is for. -/
inductive Frame.Kind where
  /-- Says who is calling; the first frame of every connection. -/
  | handshake
  /-- Carries a payload. -/
  | message
  /-- Answers that a message was accepted. -/
  | ack
  /-- Answers that a message was not accepted. -/
  | nack
  deriving DecidableEq, Repr

namespace Frame.Kind

/-- The byte for a kind on the wire. -/
def code : Kind → UInt8
  | handshake => 1
  | message => 2
  | ack => 3
  | nack => 4

/-- The kind that a byte stands for. -/
def ofCode? (b : UInt8) : Option Kind :=
  [handshake, message, ack, nack].find? fun k => k.code == b

@[simp] theorem ofCode?_code (k : Kind) : ofCode? k.code = some k := by
  cases k <;> rfl

/-- The word for a kind. -/
def name : Kind → String
  | handshake => "handshake"
  | message => "message"
  | ack => "ack"
  | nack => "nack"

/-- The kind that a word names. -/
def ofName? (word : String) : Option Kind :=
  [handshake, message, ack, nack].find? fun k => k.name == word

end Frame.Kind

end PeerCluster
