import PeerCluster.Beacon.Calls
import PeerCluster.Proofs.HeartbeatCodec

/-!
# What the calls of a beacon do

Only a few things matter to how calls overlap: which loops are asked for, on which socket each of them
works, which socket is held, and how many have been opened. Hearing and sending heartbeats leave all
of them alone (`SameLoops`). For starting, stopping and recovering there is one statement each that
says everything a call can do to them (`starts_start`, `stops_stop`, `recovers_attemptRecovery`), so
that no later proof opens a call.
-/

namespace PeerCluster

open Heartbeat (Packet)

/-- Whether a loop is in a set. -/
def Channels.has (c : Channels) : Beacon.Side → Bool
  | .send => c.transmit
  | .receive => c.receive

namespace Channels

variable {c c' : Channels}

@[simp] theorem has_union (side : Beacon.Side) :
    (c.union c').has side = (c.has side || c'.has side) := by
  cases side <;> rfl

@[simp] theorem has_without (side : Beacon.Side) :
    (c.without c').has side = (c.has side && !c'.has side) := by
  cases side <;> rfl

@[simp] theorem has_all (side : Beacon.Side) : all.has side = true := by
  cases side <;> rfl

theorem isEmpty_iff : c.isEmpty = true ↔ ∀ side, c.has side = false := by
  constructor
  · intro h side
    rw [isEmpty, Bool.and_eq_true, Bool.not_eq_true', Bool.not_eq_true'] at h
    cases side with
    | send => exact h.2
    | receive => exact h.1
  · intro h
    rw [isEmpty, Bool.and_eq_true, Bool.not_eq_true', Bool.not_eq_true']
    exact ⟨h .receive, h .send⟩

theorem isEmpty_eq_false_iff : c.isEmpty = false ↔ ∃ side, c.has side = true := by
  rw [← Bool.not_eq_true, isEmpty_iff]
  simp

theorem isEmpty_of_without (h : (c.without c').isEmpty = false) : c.isEmpty = false := by
  obtain ⟨side, hside⟩ := isEmpty_eq_false_iff.1 h
  rw [has_without, Bool.and_eq_true] at hside
  exact isEmpty_eq_false_iff.2 ⟨side, hside.1⟩

/-- Taking back what has just been added. -/
theorem without_union_without : (c.union c').without (c'.without c) = c := by
  obtain ⟨r, t⟩ := c
  obtain ⟨r', t'⟩ := c'
  cases r <;> cases t <;> cases r' <;> cases t' <;> rfl

end Channels

namespace Beacon

variable {b b' b'' : Beacon} {k : SocketId}

/-- The socket on which a loop works, while there is such a loop. -/
def loop (b : Beacon) : Side → Option SocketId
  | .send => b.sending
  | .receive => b.hearing

/-! ## The pieces of a call -/

/-- Neither what is asked for, nor the loops, nor the socket change. -/
structure SameLoops (b b' : Beacon) : Prop where
  running : b'.running = b.running
  loop : ∀ side, b'.loop side = b.loop side
  socket : b'.socket = b.socket

theorem SameLoops.trans (h : b.SameLoops b') (h' : b'.SameLoops b'') : b.SameLoops b'' :=
  ⟨h'.running.trans h.running, fun side => (h'.loop side).trans (h.loop side),
    h'.socket.trans h.socket⟩

/-- What makes up the loops tells that they are the same. -/
theorem sameLoops_of (hrunning : b'.running = b.running) (hhearing : b'.hearing = b.hearing)
    (hsending : b'.sending = b.sending) (hsocket : b'.socket = b.socket) : b.SameLoops b' := by
  refine ⟨hrunning, fun side => ?_, hsocket⟩
  cases side with
  | send => exact hsending
  | receive => exact hhearing

theorem SameLoops.refl (b : Beacon) : b.SameLoops b :=
  ⟨rfl, fun _ => rfl, rfl⟩

theorem sameLoops_withErrors (b : Beacon) (side : Side) (n : UInt32) :
    b.SameLoops (b.withErrors side n) := by
  cases side <;> exact sameLoops_of rfl rfl rfl rfl

theorem sameLoops_triggerRecovery (b : Beacon) : b.SameLoops b.triggerRecovery.2 := by
  rw [triggerRecovery]
  split <;> exact sameLoops_of rfl rfl rfl rfl

theorem sameLoops_recordError (b : Beacon) (side : Side) :
    b.SameLoops (b.recordError side).2 := by
  rw [recordError]
  split
  · exact (sameLoops_withErrors b side 0).trans (sameLoops_triggerRecovery _)
  · exact sameLoops_withErrors b side _

theorem sameLoops_hear (b : Beacon) (datagram : List UInt8) (now : Nat) :
    b.SameLoops (b.hear datagram now).2 := by
  rw [hear]
  split
  · exact .refl b
  · dsimp only
    split
    · exact .refl b
    · split <;> exact sameLoops_of rfl rfl rfl rfl

theorem sameLoops_receiveRound (b : Beacon) (r : Received) (heardAt sweptAt : Nat) :
    b.SameLoops (b.receiveRound r heardAt sweptAt).2.2 := by
  cases r with
  | datagram bs =>
    have hreset := sameLoops_withErrors b .receive 0
    rw [receiveRound]
    dsimp only
    split
    · exact hreset.trans (sameLoops_of rfl rfl rfl rfl)
    · exact (hreset.trans (sameLoops_hear _ bs heardAt)).trans (sameLoops_of rfl rfl rfl rfl)
  | timedOut => exact sameLoops_of rfl rfl rfl rfl
  | failed => exact (sameLoops_recordError b .receive).trans (sameLoops_of rfl rfl rfl rfl)

theorem sameLoops_compose (b : Beacon) (command : Heartbeat.Command) (age : UInt64) :
    b.SameLoops (b.compose command age).2 :=
  sameLoops_of rfl rfl rfl rfl

theorem sameLoops_noteSent (b : Beacon) (outcome : Sent) :
    b.SameLoops (b.noteSent outcome).2 := by
  cases outcome with
  | sent => exact sameLoops_withErrors b .send 0
  | refused => exact .refl b
  | failed => exact sameLoops_recordError b .send

/-- A heartbeat that is composed says what it should. -/
theorem decode_compose {command : Heartbeat.Command} {age : UInt64} {datagram : List UInt8}
    (h : (b.compose command age).1 = .ok datagram) :
    Packet.decode datagram b.settings.maxPacketSize.toNat =
      .ok ⟨command, (b.compose command age).2.self⟩ := by
  obtain ⟨rfl, hsize⟩ := Packet.encode_eq_ok_iff.1 h
  refine Packet.decode_eq_ok_iff.2 ⟨hsize, Packet.fits_of_length_bytes_lt ?_, rfl⟩
  exact Nat.lt_of_le_of_lt hsize b.settings.maxPacketSize.toNat_lt

/-- A loop begins if it is among those to begin, is asked for and is not there yet. -/
theorem loop_spawnLoops (b : Beacon) (channels : Channels) (k : SocketId) (side : Side) :
    (b.spawnLoops channels k).loop side =
      if channels.has side && b.running.has side && (b.loop side).isNone then some k
      else b.loop side := by
  rw [spawnLoops]
  cases hhears : channels.receive && b.running.receive && b.hearing.isNone <;>
    cases hsends : channels.transmit && b.running.transmit && b.sending.isNone <;>
      cases side <;> simp [loop, Channels.has, hhears, hsends]

theorem loop_spawnLoops_of_eq_none {side : Side} (channels : Channels) (k : SocketId)
    (h : b.loop side = none) :
    (b.spawnLoops channels k).loop side =
      if channels.has side && b.running.has side then some k else none := by
  rw [loop_spawnLoops, h, Option.isNone_none, Bool.and_true]

theorem spawnLoops_frame (b : Beacon) (channels : Channels) (k : SocketId) :
    (b.spawnLoops channels k).running = b.running ∧
      (b.spawnLoops channels k).socket = b.socket ∧
      (b.spawnLoops channels k).opened = b.opened := by
  rw [spawnLoops]
  cases channels.receive && b.running.receive && b.hearing.isNone
  · simp only [Bool.false_eq_true, if_false]
    split <;> exact ⟨rfl, rfl, rfl⟩
  · simp only [if_true]
    split <;> exact ⟨rfl, rfl, rfl⟩

theorem loop_endLoops (b : Beacon) (channels : Channels) (side : Side) :
    (b.endLoops channels).loop side = if channels.has side then none else b.loop side := by
  cases side <;> rfl

/-- A socket is held: the one there is, or one that is opened now. -/
theorem ensureSocket_cases (b : Beacon) (opening : Except IoFault Unit) :
    (∃ k, b.socket = some k ∧ b.ensureSocket opening = (.ok k, b)) ∨
      (b.socket = none ∧ opening = .ok () ∧ b.ensureSocket opening =
        (.ok ⟨b.opened⟩, { b with socket := some ⟨b.opened⟩, opened := b.opened + 1 })) ∨
      ∃ fault, b.socket = none ∧ opening = .error fault ∧
        b.ensureSocket opening = (.error fault, b) := by
  cases hsocket : b.socket with
  | some k => exact .inl ⟨k, rfl, by simp only [ensureSocket, hsocket]⟩
  | none =>
    cases opening with
    | ok u => exact .inr (.inl ⟨rfl, rfl, by simp only [ensureSocket, hsocket]⟩)
    | error fault => exact .inr (.inr ⟨fault, rfl, rfl, by simp only [ensureSocket, hsocket]⟩)

/-! ## Starting -/

/-- Loops are asked for that were not, and a socket is held. -/
structure Asks (b : Beacon) (channels : Channels) (k : SocketId) (b' : Beacon) : Prop where
  running : b'.running = b.running.union channels
  loop : ∀ side, b'.loop side = b.loop side
  socket : b'.socket = some k
  /-- A socket that was held is held still. -/
  keeps : ∀ {k'}, b.socket = some k' → k' = k

/-- How a start begins. -/
inductive Starts (b : Beacon) (channels : Channels) : Started → Beacon → Prop
  | already : (channels.without b.running).isEmpty = true → Starts b channels .already b
  /-- Nothing changes if no socket can be opened. -/
  | failed {fault : IoFault} {b' : Beacon} : b.SameLoops b' → Starts b channels (.failed fault) b'
  | announcing {k : SocketId} {datagram : List UInt8} {b' : Beacon} {m : Member} :
    (channels.without b.running).isEmpty = false → b.Asks channels k b' →
      Packet.decode datagram b.settings.maxPacketSize.toNat = .ok ⟨.alive, m⟩ →
      Starts b channels (.announcing (channels.without b.running) k datagram) b'
  | begun {k : SocketId} {b' : Beacon} :
    (channels.without b.running).isEmpty = false → b.Asks channels k b' →
      Starts b channels (.begun (channels.without b.running))
        (b'.spawnLoops (channels.without b.running) k)

theorem Asks.compose {channels : Channels} (h : b.Asks channels k b')
    (command : Heartbeat.Command) (age : UInt64) :
    b.Asks channels k (b'.compose command age).2 := by
  have hsame := sameLoops_compose b' command age
  exact ⟨hsame.running.trans h.running, fun side => (hsame.loop side).trans (h.loop side),
    hsame.socket.trans h.socket, h.keeps⟩

theorem asks_of_socket (channels : Channels) (h : b.socket = some k) :
    b.Asks channels k { b with running := b.running.union channels } :=
  ⟨rfl, fun side => by cases side <;> rfl, h, fun h' => Option.some.inj (h'.symm.trans h)⟩

theorem asks_of_opening (channels : Channels) (h : b.socket = none) :
    b.Asks channels ⟨b.opened⟩
      { b with
        running := b.running.union channels
        socket := some ⟨b.opened⟩
        opened := b.opened + 1 } :=
  ⟨rfl, fun side => by cases side <;> rfl, rfl, fun h' => by rw [h] at h'; cases h'⟩

theorem starts_start (b : Beacon) (channels : Channels) (opening : Except IoFault Unit)
    (age : UInt64) :
    b.Starts channels (b.start channels opening age).1 (b.start channels opening age).2 := by
  cases hmore : (channels.without b.running).isEmpty with
  | true =>
    have hstart : b.start channels opening age = (.already, b) := by rw [start]; exact if_pos hmore
    rw [hstart]
    exact .already hmore
  | false =>
    -- What follows once there is a socket is the same whether it was held or has been opened.
    have hrest {b' : Beacon} {k : SocketId} (hasks : b.Asks channels k b')
        (hsettings : b'.settings = b.settings)
        (hensure : Beacon.ensureSocket { b with running := b.running.union channels } opening =
          (.ok k, b')) :
        b.Starts channels (b.start channels opening age).1 (b.start channels opening age).2 := by
      cases hcompose : b'.compose .alive age with
      | mk packet b'' =>
        have hcomposed := hasks.compose .alive age
        have hdecode (datagram : List UInt8) (h : (b'.compose .alive age).1 = .ok datagram) :=
          decode_compose h
        rw [hcompose] at hcomposed hdecode
        rw [hsettings] at hdecode
        cases htransmit : (channels.without b.running).transmit <;> cases packet <;>
          simp only [start, hmore, hensure, htransmit, hcompose, Bool.false_eq_true, if_false,
            if_true]
        · exact .begun hmore hasks
        · exact .begun hmore hasks
        · exact .begun hmore hcomposed
        · exact .announcing hmore hcomposed (hdecode _ rfl)
    rcases ensureSocket_cases { b with running := b.running.union channels } opening with
      ⟨k, hsocket, hensure⟩ | ⟨hsocket, -, hensure⟩ | ⟨fault, -, -, hensure⟩
    · exact hrest (asks_of_socket channels hsocket) rfl hensure
    · exact hrest (asks_of_opening channels hsocket) rfl hensure
    · simp only [start, hmore, hensure, Bool.false_eq_true, if_false]
      refine .failed (sameLoops_of ?_ rfl rfl rfl)
      exact Channels.without_union_without

/-! ## Stopping -/

/-- Loops are ended and not asked for any more. -/
structure Ends (b : Beacon) (channels : Channels) (b' : Beacon) : Prop where
  running : b'.running = b.running.without channels
  loop : ∀ side, b'.loop side = if channels.has side then none else b.loop side

/-- What a stop does. -/
inductive Stops (b : Beacon) (channels : Channels) : Stopped → Beacon → Prop
  | partly {b' : Beacon} : (b.running.without channels).isEmpty = false →
    b.Ends channels b' → b'.socket = b.socket → Stops b channels .partly b'
  | idle {b' : Beacon} : (b.running.without channels).isEmpty = true → b.socket = none →
    b.Ends channels b' → b'.socket = none → Stops b channels .idle b'
  | leaving {k : SocketId} {b' : Beacon} : b.running.isEmpty = true → b.socket = some k →
    b.Ends channels b' → b'.socket = none → Stops b channels (.leaving k) b'
  | announcing {k : SocketId} {datagram : List UInt8} {b' : Beacon} {m : Member} :
    b.running.isEmpty = false → (b.running.without channels).isEmpty = true →
    b.socket = some k → b.Ends channels b' → b'.socket = none →
    Packet.decode datagram b.settings.maxPacketSize.toNat = .ok ⟨.shutdown, m⟩ →
    Stops b channels (.announcing k datagram) b'
  | unannounced {k : SocketId} {e : WireError} {b' : Beacon} :
    b.running.isEmpty = false → (b.running.without channels).isEmpty = true →
    b.socket = some k → b.Ends channels b' → b'.socket = none →
    Stops b channels (.unannounced k e) b'

theorem isEmpty_without_of_isEmpty {c c' : Channels} (h : c.isEmpty = true) :
    (c.without c').isEmpty = true := by
  refine Channels.isEmpty_iff.2 fun side => ?_
  rw [Channels.has_without, Channels.isEmpty_iff.1 h side, Bool.false_and]

theorem stops_stop (b : Beacon) (channels : Channels) (age : UInt64) :
    b.Stops channels (b.stop channels age).1 (b.stop channels age).2 := by
  have hloop (b' : Beacon) (hhearing : b'.hearing = (b.endLoops channels).hearing)
      (hsending : b'.sending = (b.endLoops channels).sending)
      (hrunning : b'.running = b.running.without channels) : b.Ends channels b' := by
    refine ⟨hrunning, fun side => ?_⟩
    rw [← loop_endLoops]
    cases side with
    | send => exact hsending
    | receive => exact hhearing
  cases hless : (b.running.without channels).isEmpty with
  | false =>
    simp only [stop, hless, Bool.not_false, if_true]
    exact .partly hless (hloop _ rfl rfl rfl) rfl
  | true =>
    cases hsocket : b.socket with
    | none =>
      simp only [stop, hless, endLoops, hsocket, Bool.not_true, Bool.false_eq_true, if_false]
      exact .idle hless hsocket (hloop _ rfl rfl rfl) rfl
    | some k =>
      cases hran : b.running.isEmpty with
      | true =>
        simp only [stop, hless, endLoops, hsocket, hran, Bool.not_true, Bool.false_eq_true,
          if_false, if_true]
        exact .leaving hran hsocket (hloop _ rfl rfl rfl) rfl
      | false =>
        simp only [stop, hless, endLoops, hsocket, hran, Bool.not_true, Bool.false_eq_true,
          if_false]
        split
        next datagram b' hcompose =>
          have hdecode := decode_compose (congrArg Prod.fst hcompose)
          obtain rfl := congrArg Prod.snd hcompose
          exact .announcing hran hless hsocket (hloop _ rfl rfl rfl) rfl hdecode
        next e b' hcompose =>
          obtain rfl := congrArg Prod.snd hcompose
          exact .unannounced hran hless hsocket (hloop _ rfl rfl rfl) rfl

/-! ## Recovering -/

/-- What one attempt to recover does. -/
inductive Recovers (b : Beacon) (opening : Except IoFault Unit) : Recovery → Beacon → Prop
  | abandoned {b' : Beacon} : b.running.isEmpty = true → b.SameLoops b' →
    Recovers b opening .abandoned b'
  /-- Every loop has ended and no socket is held when none can be opened. -/
  | failed {fault : IoFault} {b' : Beacon} : b.running.isEmpty = false → opening = .error fault →
    b'.running = b.running → (∀ side, b'.loop side = none) → b'.socket = none →
    Recovers b opening (.failed fault) b'
  | recovered {b' : Beacon} : b.running.isEmpty = false → opening = .ok () →
    b'.running = b.running →
    (∀ side, b'.loop side = if b.running.has side then some ⟨b.opened⟩ else none) →
    b'.socket = some ⟨b.opened⟩ → b'.opened = b.opened + 1 → Recovers b opening .recovered b'

theorem recovers_attemptRecovery (b : Beacon) (opening : Except IoFault Unit) :
    b.Recovers opening (b.attemptRecovery opening).1 (b.attemptRecovery opening).2 := by
  cases hruns : b.running.isEmpty with
  | true =>
    simp only [attemptRecovery, hruns, if_true]
    exact .abandoned hruns (sameLoops_of rfl rfl rfl rfl)
  | false =>
    cases opening with
    | error fault =>
      simp only [attemptRecovery, hruns, ensureSocket, Bool.false_eq_true, if_false]
      exact .failed hruns rfl rfl (fun side => by cases side <;> rfl) rfl
    | ok u =>
      simp only [attemptRecovery, hruns, ensureSocket, resume, endLoops, Bool.false_eq_true,
        if_false, if_true]
      obtain ⟨hrunning, hsocket, hopened⟩ := spawnLoops_frame
        { b.endLoops .all with socket := some ⟨b.opened⟩, opened := b.opened + 1 } b.running
        ⟨b.opened⟩
      refine .recovered hruns rfl hrunning (fun side => ?_) hsocket hopened
      refine (loop_spawnLoops_of_eq_none _ _ (by cases side <;> rfl)).trans ?_
      rw [Bool.and_self]

end Beacon

end PeerCluster
