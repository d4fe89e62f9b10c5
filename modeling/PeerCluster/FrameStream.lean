import PeerCluster.DeliveryError
import PeerCluster.Frame

/-!
# Streams of frames

A connection delivers its bytes in pieces, cut anywhere. A reader takes exactly as many bytes as the
next frame needs, so the pieces do not show in the frames. A stream that ends before the length of a
frame is complete ends quietly; one that ends inside a frame does not.
-/

namespace PeerCluster

/-- The bytes that a stream will deliver, in pieces, before it ends. -/
structure FrameStream where
  pieces : List ByteArray

namespace FrameStream

/-- How many bytes pieces hold. -/
def sizeOf : List ByteArray → Nat
  | [] => 0
  | p :: rest => p.size + sizeOf rest

/-- How many bytes a stream will deliver. -/
def size (s : FrameStream) : Nat :=
  sizeOf s.pieces

/-- Takes exactly `n` bytes behind those already taken; `none` when the pieces end before. -/
def takeOnto (taken : ByteArray) (n : Nat) : List ByteArray → Option (ByteArray × List ByteArray)
  | [] => if n = 0 then some (taken, []) else none
  | p :: rest =>
    if p.size < n then takeOnto (taken ++ p) (n - p.size) rest
    else some (taken ++ p.extract 0 n, p.extract n p.size :: rest)

/-- Taking `n` bytes leaves `n` fewer. -/
theorem sizeOf_takeOnto {taken got : ByteArray} {n : Nat} {ps rest : List ByteArray}
    (h : takeOnto taken n ps = some (got, rest)) : sizeOf rest + n = sizeOf ps := by
  induction ps generalizing taken n with
  | nil =>
    simp only [takeOnto] at h
    split at h
    · simp_all
    · simp at h
  | cons p ps ih =>
    simp only [takeOnto] at h
    split at h
    · have := ih h
      simp only [sizeOf]
      omega
    · simp only [Option.some.injEq, Prod.mk.injEq] at h
      obtain ⟨-, rfl⟩ := h
      simp only [sizeOf, ByteArray.size_extract]
      omega

/-- Takes exactly `n` bytes from the front. -/
def take? (s : FrameStream) (n : Nat) : Option (ByteArray × FrameStream) :=
  (takeOnto .empty n s.pieces).map fun (got, rest) => (got, ⟨rest⟩)

theorem size_take? {s rest : FrameStream} {got : ByteArray} {n : Nat}
    (h : s.take? n = some (got, rest)) : rest.size + n = s.size := by
  simp only [take?, Option.map_eq_some_iff, Prod.mk.injEq] at h
  obtain ⟨⟨got', rest'⟩, h, -, rfl⟩ := h
  exact sizeOf_takeOnto h

/-- What a reader finds at the front of a stream. -/
inductive Front where
  | frame (f : Frame) (rest : FrameStream)
  /-- The stream ends before another frame begins. -/
  | ended
  | failed (error : DeliveryError)

/-- Reads the frame at the front. -/
def front (s : FrameStream) : Front :=
  match s.take? Frame.lengthWidth with
  | none => .ended
  | some (length, afterLength) =>
    let size := BigEndian.value length.data.toList
    match Frame.checkSize size with
    | .error e => .failed (.wire e)
    | .ok () =>
      match afterLength.take? size with
      | none => .failed (.io .earlyEnd)
      | some (bytes, rest) =>
        match Frame.decode bytes with
        | .ok f => .frame f rest
        | .error e => .failed (.wire e)

/-- What a reader finds at the front of the bytes that have arrived so far; `none` while more may
arrive and it takes more to tell. -/
def arrived? (bytes : ByteArray) (ended : Bool) : Option Front :=
  match front ⟨[bytes]⟩ with
  | .frame f rest => some (.frame f rest)
  | .failed (.wire e) => some (.failed (.wire e))
  | found => if ended then some found else none

/-- The bytes that a stream will deliver. -/
def bytes (s : FrameStream) : ByteArray :=
  s.pieces.foldl (· ++ ·) .empty

/-- Reading a frame uses up at least its length. -/
theorem size_lt_of_front {s rest : FrameStream} {f : Frame} (h : s.front = .frame f rest) :
    rest.size < s.size := by
  unfold front at h
  split at h
  · simp at h
  · rename_i length afterLength hlength
    dsimp only at h
    split at h
    · simp at h
    · split at h
      · simp at h
      · rename_i bytes rest' hbytes
        split at h
        · simp only [Front.frame.injEq] at h
          have h1 := size_take? hlength
          have h2 := size_take? hbytes
          have h3 : Frame.lengthWidth = 4 := rfl
          obtain ⟨-, rfl⟩ := h
          omega
        · simp at h

/-- Reads frames behind those already read (last first) until the stream ends or a frame is
refused. -/
def framesOnto (read : List Frame) (s : FrameStream) : List Frame × Option DeliveryError :=
  match _h : s.front with
  | .frame f rest => framesOnto (f :: read) rest
  | .ended => (read.reverse, none)
  | .failed e => (read.reverse, some e)
termination_by s.size
decreasing_by exact size_lt_of_front _h

/-- The frames of a stream, and why reading them failed if it did. -/
def frames (s : FrameStream) : List Frame × Option DeliveryError :=
  framesOnto [] s

/-! ## Writing -/

/-- The other end of a stream: what has reached it, and whether it still listens. -/
structure Sink where
  received : ByteArray := .empty
  listening : Bool := true

/-- Writes one frame. A frame that is too large is refused before anything is written. -/
def Sink.write (k : Sink) (f : Frame) : Except DeliveryError Unit × Sink :=
  match Frame.checkSize f.wireSize with
  | .error e => (.error (.wire e), k)
  | .ok () =>
    if k.listening then (.ok (), { k with received := k.received ++ f.encode })
    else (.error (.io .brokenPipe), k)

/-- Writes frames one after the other, also after one has failed. -/
def Sink.writeAll (k : Sink) : List Frame → List (Except DeliveryError Unit) × Sink
  | [] => ([], k)
  | f :: rest =>
    let (result, k) := k.write f
    let (results, k) := k.writeAll rest
    (result :: results, k)

end FrameStream

end PeerCluster
