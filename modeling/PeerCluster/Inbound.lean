import PeerCluster.FrameStream

/-!
# Inbound connections

A caller opens a connection with a handshake, and everything it then sends is attributed to the
member of that handshake. Each message is handed to a listener once, in the order of the stream, and
answered if the caller asked for it. Other frames after the first have no effect. The connection is
over when its stream ends or a frame is refused.

A caller may take its time, but not before it has said who it is: the first frame is awaited only for so
long, and without it the connection is over.
-/

namespace PeerCluster

/-- A message that was handed to a listener. -/
structure Receipt where
  payload : ByteArray
  source : Member

/-- Whether a listener accepts a message, given the messages before it (last first). -/
abbrev Listener := (before : List Receipt) → (latest : Receipt) → Bool

/-- How far a connection is. -/
inductive Inbound.Phase where
  /-- The handshake is awaited. -/
  | fresh
  /-- Messages of the given member are awaited. -/
  | known (source : Member)
  /-- Nothing more is read, and why if the caller is to blame. -/
  | over (error : Option DeliveryError)

/-- An inbound connection. -/
structure Inbound where
  phase : Inbound.Phase := .fresh
  /-- The messages handed to the listener, last first. -/
  receipts : List Receipt := []
  /-- The answers, last first. -/
  replies : List Frame := []

namespace Inbound

/-- Hands a message to the listener and answers it if the caller asked for it. -/
def hand (listener : Listener) (s : Inbound) (source : Member) (f : Frame) : Inbound :=
  let receipt : Receipt := ⟨f.body, source⟩
  let accepted := listener s.receipts receipt
  { s with
    receipts := receipt :: s.receipts
    replies := if f.asksForAck then .reply accepted f.id :: s.replies else s.replies }

/-- Takes a frame in. -/
def take (listener : Listener) (s : Inbound) (f : Frame) : Inbound :=
  match s.phase with
  | .fresh =>
    match f.handshake with
    | .ok h => { s with phase := .known h.toMember }
    | .error e => { s with phase := .over (some (.wire e)) }
  | .known source => if f.kind = .message then s.hand listener source f else s
  | .over _ => s

/-- Whether nothing more is read. -/
def isOver (s : Inbound) : Bool :=
  match s.phase with
  | .over _ => true
  | _ => false

/-- Takes the frames of a stream in, to its end. -/
def takeAll (listener : Listener) (s : Inbound) (stream : FrameStream) : Inbound :=
  if s.isOver then s
  else match _h : stream.front with
    | .frame f rest => takeAll listener (s.take listener f) rest
    | .ended => { s with phase := .over none }
    | .failed e => { s with phase := .over (some e) }
termination_by stream.size
decreasing_by exact FrameStream.size_lt_of_front _h

/-- What a caller sends, and when. -/
structure Transmission where
  /-- The pieces in which the bytes arrive, each with how many milliseconds it is behind what came
  before it. -/
  pieces : List (Nat × ByteArray)
  /-- How many milliseconds the end of the stream is behind the last piece. -/
  closing : Nat := 0

namespace Transmission

/-- What is sent, whenever it arrives. -/
def stream (t : Transmission) : FrameStream :=
  ⟨t.pieces.map Prod.snd⟩

/-- A stream that arrives at once. -/
def atOnce (stream : FrameStream) : Transmission :=
  ⟨stream.pieces.map (0, ·), 0⟩

/-- Whether what is at the front shows within so many milliseconds, behind what has been heard. -/
def showsWithin (closing patience : Nat) (heard : ByteArray) : List (Nat × ByteArray) → Bool
  | [] => closing ≤ patience
  | (wait, piece) :: later =>
    wait ≤ patience && ((FrameStream.arrived? (heard ++ piece) false).isSome ||
      showsWithin closing (patience - wait) (heard ++ piece) later)

end Transmission

/-- How many milliseconds a caller may take to say who it is. -/
def handshakePatience : Nat := 10000

/-- Serves a connection to its end. -/
def serve (listener : Listener) (t : Transmission) : Inbound :=
  if Transmission.showsWithin t.closing handshakePatience .empty t.pieces then
    takeAll listener {} t.stream
  else { phase := .over none }

/-- The bytes of the answers, in order. -/
def replyBytes (s : Inbound) : ByteArray :=
  s.replies.reverse.foldl (fun bs f => bs ++ f.encode) .empty

end Inbound

end PeerCluster
