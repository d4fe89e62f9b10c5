import PeerCluster.Exchange
import PeerCluster.HealthBoard

/-!
# Couriers

A courier delivers messages to one peer, one at a time, over a connection that it keeps. A
connection opens with the handshake of the local member. Messages are numbered, and a peer that is
asked for an answer repeats the number.

* A delivery that fails in a way that a fresh connection might mend is tried again on one, up to a
  limit; then the causes of the first and the last attempt are reported.
* An answer that the message was not accepted is final.
* The health of the peer becomes ready with a verified success and suspect with a failed attempt.
-/

namespace PeerCluster

/-- Somebody who delivers messages to one peer. -/
structure Courier where
  settings : Settings.Delivery
  /-- Who the courier says is calling. -/
  self : Handshake
  destination : Member
  /-- Where the health of the peer is kept. -/
  cell : HealthCell
  /-- The connection that is held. -/
  link : Option Link := none
  /-- How many messages have been written on the connection that is held. -/
  requests : UInt64 := 0
  /-- When the latest connection was opened or a message was last written, in milliseconds. -/
  lastUsed : Option Nat := none
  /-- The number of the next message. -/
  nextId : UInt64 := 1

namespace Courier

/-- Whether a connection is held. -/
def isConnected (c : Courier) : Bool :=
  c.link.isSome

/-! ## Opening and closing the connection -/

/-- Opens a connection and says who is calling. -/
def dial (c : Courier) : Exchange (Except DeliveryError Link) := do
  let address := c.destination.address
  match ← .request (.dial address c.settings) with
  | .timedOut => return .error (.connectTimeout address c.settings.connectTimeoutMs.toNat)
  | .failed fault => return .error (.io fault)
  | .connected link =>
    let hello := Frame.ofHandshake c.self
    match Frame.checkSize hello.wireSize with
    | .error e =>
      .request (.close link)
      return .error (.wire e)
    | .ok () =>
      match ← .request (.write link hello c.settings.readTimeoutMs.toNat) with
      | .ok () => return .ok link
      | .error fault =>
        .request (.close link)
        return .error (.io fault)

/-- Makes sure that a connection is held. -/
def connect (c : Courier) : Exchange (Except DeliveryError Link × Courier) :=
  match c.link with
  | some link => return (.ok link, c)
  | none => do
    match ← c.dial with
    | .ok link =>
      let now ← .request .clock
      return (.ok link, { c with link := some link, requests := 0, lastUsed := some now })
    | .error e =>
      .request (.mark .suspect)
      return (.error e, c)

/-- The courier without a connection. -/
def dropped (c : Courier) : Courier :=
  { c with link := none, requests := 0 }

/-- Gives the connection up, if one is held. -/
def disconnect (c : Courier) : Exchange Courier := do
  match c.link with
  | some link => .request (.close link)
  | none => pure ()
  return c.dropped

/-- Whether the connection has carried as many messages as it may. -/
def isWornOut (c : Courier) : Bool :=
  let most := c.settings.keepaliveMaxRequests
  0 < most && most ≤ c.requests

/-- Whether the connection has been idle for as long as it may. -/
def isIdle (c : Courier) (now : Nat) : Bool :=
  match c.settings.keepaliveIdleMs, c.lastUsed with
  | some limit, some used => limit.toNat ≤ now - used
  | _, _ => false

/-- The connection that has reached a limit and is given up. -/
def recycle (c : Courier) (now : Nat) : Option Link × Courier :=
  match c.link with
  | some link => if c.isWornOut || c.isIdle now then (some link, c.dropped) else (none, c)
  | none => (none, c)

/-! ## Delivering -/

/-- What the answer to the message of the given number means. -/
inductive Verdict where
  /-- The peer has accepted the message. -/
  | verified
  /-- The peer has not accepted the message, which is no failure by the settings. -/
  | tolerated
  | failed (error : DeliveryError)

/-- Judges what was heard after the message of the given number. -/
def judge (c : Courier) (id : UInt64) : Heard → Verdict
  | .timedOut | .ended =>
    .failed (.ackTimeout c.destination.address c.settings.readTimeoutMs.toNat)
  | .failed e => .failed e
  | .frame f =>
    if f.id ≠ id then .failed (.wire (.mismatchedReply id f.id))
    else match f.kind with
      | .ack => .verified
      | .nack =>
        if c.settings.throwOnFailedAck then .failed (.remoteFailure c.destination.address id)
        else .tolerated
      | kind => .failed (.wire (.unexpectedFrame .ack kind))

/-- One attempt to deliver a payload. -/
def attempt (c : Courier) (payload : ByteArray) (wait : Bool) :
    Exchange (Except DeliveryError Unit × Courier) := do
  match ← c.connect with
  | (.error e, c) => return (.error e, c)
  | (.ok link, c) =>
    let id := c.nextId
    let ms := c.settings.readTimeoutMs.toNat
    let c := { c with nextId := id + 1 }
    match ← .request (.write link (.message id payload wait) ms) with
    | .error fault => return (.error (.io fault), c)
    | .ok () =>
      let now ← .request .clock
      let c := { c with requests := c.requests + 1, lastUsed := some now }
      if wait then
        match c.judge id (← .request (.read link ms)) with
        | .verified =>
          .request (.mark .ready)
          return (.ok (), c)
        | .tolerated => return (.ok (), c)
        | .failed e => return (.error e, c)
      else
        .request (.mark .ready)
        return (.ok (), c)

/-- The causes of failed attempts, as far as they are reported. -/
inductive Causes where
  | none
  | one (cause : DeliveryError)
  | several (first last : DeliveryError)

/-- The causes with that of one more attempt. -/
def Causes.add : Causes → DeliveryError → Causes
  | .none, e => .one e
  | .one first, e => .several first e
  | .several first _, e => .several first e

/-- What is reported after so many attempts. -/
def Causes.report (attempts : Nat) : Causes → DeliveryError
  | .none => .notConnected
  | .one cause => cause
  | .several first last => .exhausted attempts first last

/-- Makes as many further attempts as are left. Every attempt but the first begins without a
connection, and none is held after the last. -/
def attemptUpTo (payload : ByteArray) (wait : Bool) (attempts : Nat) :
    (left : Nat) → Causes → Courier → Exchange (Except DeliveryError Unit × Courier)
  | 0, causes, c => do
    let c ← c.disconnect
    return (.error (causes.report attempts), c)
  | left + 1, causes, c => do
    let c ← match causes with
      | .none => pure c
      | _ => c.disconnect
    match ← c.attempt payload wait with
    | (.ok (), c) => return (.ok (), c)
    | (.error e, c) =>
      if e.isRetryable then
        .request (.mark .suspect)
        attemptUpTo payload wait attempts left (causes.add e) c
      else return (.error e, c)

/-- Delivers a payload. One that does not fit into a frame is refused before anything is asked of
the world. -/
def send (c : Courier) (payload : ByteArray) (wait : Bool) :
    Exchange (Except DeliveryError Unit × Courier) :=
  match Frame.checkSize (Frame.headerSize + payload.size) with
  | .error e => return (.error (.wire e), c)
  | .ok () =>
    let attempts := c.settings.attempts
    attemptUpTo payload wait attempts attempts .none c

end Courier

end PeerCluster
