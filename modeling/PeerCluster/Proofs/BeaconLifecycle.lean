import PeerCluster.Proofs.OverlappingCalls

/-!
# The life of a beacon

A peer forgets a member when it hears a farewell from it. A missing farewell keeps a member on the
rosters that is gone, and one too many drops a member that is still there.

**Theorem (`lifecycle`).** Whatever has happened before,

* *failing*: a start that finds no socket changes neither what is asked for nor the loops nor the
  socket;
* *farewells*: the sockets on which a farewell is attempted along a run are those that were held when
  a stop left nothing asked for, each once and in that order; and
* *recovering*: a recovery ends with exactly the loops that are asked for on the socket that its last
  attempt has opened, or with neither a loop nor a socket if none is asked for.

The farewells of a move are read off the datagrams that it hands out (`farewells`), so that a start or
a beat counts as soon as what it sends would be heard as one. Which of them say so is known from the
round trip of a heartbeat. That a recovery which finds nothing asked for leaves no socket behind is
the invariant `Sound`, since the attempt itself touches none.
-/

namespace PeerCluster.Beacon

open Heartbeat (Packet)

/-! ## Farewells -/

/-- Whether a datagram tells the peers that the member leaves. -/
def isFarewell (b : Beacon) (datagram : List UInt8) : Bool :=
  match Packet.decode datagram b.settings.maxPacketSize.toNat with
  | .ok packet => packet.isShutdown
  | .error _ => false

theorem isFarewell_eq {b : Beacon} {datagram : List UInt8} {command : Heartbeat.Command}
    {m : Member} (h : Packet.decode datagram b.settings.maxPacketSize.toNat = .ok ⟨command, m⟩) :
    b.isFarewell datagram = (command == .shutdown) := by
  rw [isFarewell, h]
  rfl

namespace Scene

/-- The sockets on which a move tries to send a farewell. -/
def farewells (s : Scene) : Move → List SocketId
  | .start channels opening age => match (s.start channels opening age).1 with
    | .announcing _ k datagram => if s.beacon.isFarewell datagram then [k] else []
    | _ => []
  | .stop channels age => match (s.stop channels age).1 with
    | .announcing k datagram => if s.beacon.isFarewell datagram then [k] else []
    | .unannounced k _ => [k]
    | _ => []
  | .beat age isSent => match s.beacon.sending, (s.beat age isSent).1 with
    | some k, some datagram => if s.beacon.isFarewell datagram then [k] else []
    | _, _ => []
  | .trigger | .goOn .. | .receive .. | .payload .. => []

/-- The socket that was held when a stop left nothing asked for. -/
def lastStops (s : Scene) : Move → List SocketId
  | .stop channels _ =>
    if !s.beacon.running.isEmpty && (s.beacon.running.without channels).isEmpty then
      s.beacon.socket.toList
    else []
  | _ => []

/-- What is said of each move of a run, in order. -/
def along {α : Type} (f : Scene → Move → List α) (s : Scene) : List Move → List α
  | [] => []
  | m :: moves => f s m ++ along f (s.next m) moves

theorem fst_start (s : Scene) (channels : Channels) (opening : Except IoFault Unit)
    (age : UInt64) :
    (s.start channels opening age).1 = (s.beacon.start channels opening age).1 := by
  rw [start]
  generalize s.beacon.start channels opening age = result
  obtain ⟨started, b⟩ := result
  cases started <;> rfl

theorem fst_stop (s : Scene) (channels : Channels) (age : UInt64) :
    (s.stop channels age).1 = (s.beacon.stop channels age).1 := by
  rw [stop]
  generalize s.beacon.stop channels age = result
  obtain ⟨stopped, b⟩ := result
  cases stopped <;> rfl

theorem farewells_start (s : Scene) (channels : Channels) (opening : Except IoFault Unit)
    (age : UInt64) : s.farewells (.start channels opening age) = [] := by
  rw [farewells, fst_start]
  split
  next newly k datagram hstarted =>
    have hstarts := starts_start s.beacon channels opening age
    rw [hstarted] at hstarts
    cases hstarts with
    | announcing hmore hasks hdecode =>
      rw [isFarewell_eq hdecode]
      rfl
  next => rfl

/-- What the transmit loop sends is a heartbeat of a living member. -/
theorem fst_compose_of_beat {s : Scene} {age : UInt64} {isSent : Bool} {datagram : List UInt8}
    (h : (s.beat age isSent).1 = some datagram) :
    (s.beacon.compose .alive age).1 = .ok datagram := by
  rw [beat] at h
  split at h
  next => cases h
  next =>
    generalize s.beacon.compose .alive age = result at h ⊢
    obtain ⟨packet, b⟩ := result
    cases packet with
    | error e => cases h
    | ok datagram' => exact congrArg Except.ok (Option.some.inj h)

theorem farewells_beat (s : Scene) (age : UInt64) (isSent : Bool) :
    s.farewells (.beat age isSent) = [] := by
  rw [farewells]
  split
  next k datagram hsending hsent =>
    rw [isFarewell_eq (decode_compose (fst_compose_of_beat hsent))]
    rfl
  next => rfl

theorem farewells_stop (s : Scene) (channels : Channels) (age : UInt64) :
    s.farewells (.stop channels age) = s.lastStops (.stop channels age) := by
  have hstops := stops_stop s.beacon channels age
  rw [farewells, fst_stop, lastStops]
  generalize s.beacon.stop channels age = result at hstops
  obtain ⟨stopped, b⟩ := result
  dsimp only at hstops ⊢
  cases hstops with
  | partly hless => rw [hless, Bool.and_false]; rfl
  | idle hless hsocket => rw [hsocket, Option.toList_none, ite_self]
  | leaving hran => rw [hran]; rfl
  | announcing hran hless hsocket hends hreleased hdecode =>
    dsimp only
    rw [hran, hless, hsocket, isFarewell_eq hdecode]
    rfl
  | unannounced hran hless hsocket =>
    rw [hran, hless, hsocket]
    rfl

/-- Only a stop tries to send a farewell, and it does so exactly when it leaves nothing asked for. -/
theorem farewells_eq (s : Scene) (m : Move) : s.farewells m = s.lastStops m := by
  cases m with
  | start channels opening age => exact farewells_start s channels opening age
  | stop channels age => exact farewells_stop s channels age
  | beat age isSent => exact farewells_beat s age isSent
  | trigger | goOn | receive | payload => rfl

theorem along_congr {α : Type} {f g : Scene → Move → List α} (h : ∀ s m, f s m = g s m)
    (s : Scene) (moves : List Move) : along f s moves = along g s moves := by
  induction moves generalizing s with
  | nil => rfl
  | cons m moves ih => rw [along, along, h, ih]

/-! ## Failing and recovering -/

/-- A start that has no socket to begin its loops on changes nothing. -/
theorem same_of_start_failed {s : Scene} {channels : Channels} {opening : Except IoFault Unit}
    {age : UInt64} {fault : IoFault} (h : (s.start channels opening age).1 = .failed fault) :
    s.beacon.SameLoops (s.start channels opening age).2.beacon ∧
      (s.start channels opening age).2.calls = s.calls := by
  have hstarts := starts_start s.beacon channels opening age
  rw [fst_start] at h
  rw [start]
  generalize s.beacon.start channels opening age = result at h hstarts ⊢
  obtain ⟨started, b⟩ := result
  obtain rfl : started = .failed fault := h
  cases hstarts with
  | failed hsame => exact ⟨hsame, rfl⟩

/-- An attempt of the recovery at a place that is its last one leaves every loop that is asked for on
a socket that it has opened, or nothing at all. -/
structure Settles (s : Scene) (place : Nat) (opening : Except IoFault Unit) (s' : Scene) :
    Prop where
  rebuilt : s'.calls = s.calls.eraseIdx place → s'.beacon.running.isEmpty = false →
    opening = .ok () ∧ s'.beacon.opened = s.beacon.opened + 1 ∧
      s'.beacon.socket = some ⟨s.beacon.opened⟩ ∧
      ∀ side, s'.beacon.loop side =
        if s'.beacon.running.has side then some ⟨s.beacon.opened⟩ else none
  abandoned : s.beacon.running.isEmpty = true →
    s'.calls = s.calls.eraseIdx place ∧ s'.beacon.socket = none ∧
      ∀ side, s'.beacon.loop side = none

/-- A call that is still in flight has not ended. -/
theorem ne_eraseIdx {s : Scene} {place : Nat} {c : Call} (hplace : s.calls[place]? = some c) :
    s.calls ≠ s.calls.eraseIdx place := by
  intro hsame
  have hlength := congrArg List.length hsame
  obtain ⟨hlt, -⟩ := List.getElem?_eq_some_iff.1 hplace
  rw [List.length_eraseIdx_of_lt hlt] at hlength
  omega

theorem Sound.settles {s : Scene} {place : Nat} (h : s.Sound) (opening : Except IoFault Unit)
    (hplace : s.calls[place]? = some .recovering) :
    s.Settles place opening (s.next (.goOn place opening)) := by
  have hrecovers := recovers_attemptRecovery s.beacon opening
  rw [Scene.next, Scene.goOn, hplace]
  dsimp only
  generalize s.beacon.attemptRecovery opening = result at hrecovers ⊢
  obtain ⟨recovery, b⟩ := result
  dsimp only at hrecovers ⊢
  cases hrecovers with
  | abandoned hempty hsame =>
    constructor
    · intro _ hsome
      rw [hsame.running, hempty] at hsome
      cases hsome
    · intro _
      refine ⟨rfl, hsame.socket.trans (h.released hempty), fun side => ?_⟩
      exact (hsame.loop side).trans (h.loop_eq_none hempty side)
  | failed hsome hopening hrunning hloop hsocket =>
    constructor
    · intro hends
      exact absurd hends (ne_eraseIdx hplace)
    · intro hempty
      rw [hempty] at hsome
      cases hsome
  | recovered hsome hopening hrunning hloop hsocket hopened =>
    constructor
    · intro _ _
      refine ⟨hopening, hopened, hsocket, fun side => ?_⟩
      rw [hrunning, hloop]
    · intro hempty
      rw [hempty] at hsome
      cases hsome

/-- **The life of a beacon.** Whatever has happened before, a start that fails changes nothing, and a
recovery ends with every loop that is asked for on a socket of its own, or with nothing at all. Along
a whole run, the sockets on which a farewell is attempted are those that were held when a stop left
nothing asked for, each once and in that order. -/
theorem lifecycle (settings : Settings.Membership) (self : Member) (roster : Roster)
    (moves : List Move) :
    let fresh : Scene := ⟨{ settings, self, roster }, []⟩
    let s := fresh.run moves
    (∀ channels opening age fault, (s.start channels opening age).1 = .failed fault →
      s.beacon.SameLoops (s.next (.start channels opening age)).beacon ∧
        (s.next (.start channels opening age)).calls = s.calls) ∧
    along farewells fresh moves = along lastStops fresh moves ∧
    ∀ place opening, s.calls[place]? = some .recovering →
      s.Settles place opening (s.next (.goOn place opening)) := by
  intro fresh s
  have hsound : s.Sound := (sound_of_whole [] (whole_initial settings self roster)).run moves
  refine ⟨fun channels opening age fault hfailed => ?_, ?_, fun place opening hplace => ?_⟩
  · exact same_of_start_failed hfailed
  · exact along_congr farewells_eq fresh moves
  · exact hsound.settles opening hplace

/-- Both loops are started, and their socket is lost. While the recovery waits for its next attempt
they are stopped with no socket held, a start fails, and another gives them a new socket. The recovery
replaces that one, and the stop after it is the only one that sends a farewell. -/
theorem lifecycle_of_lost_socket :
    let fresh : Scene := ⟨{ settings := {}, self := novice.self, roster := novice.roster }, []⟩
    let lost : List Move := [.start .all (.ok ()) 0, .goOn 0 (.ok ()), .trigger,
      .goOn 0 (.error .earlyEnd), .stop .all 5]
    let back : List Move := lost ++ [.start .all (.ok ()) 6, .goOn 1 (.ok ())]
    let gone : List Move := back ++ [.goOn 0 (.ok ()), .stop .all 7]
    ((fresh.run lost).start .all (.error .earlyEnd) 0).1 = .failed .earlyEnd ∧
      (fresh.run lost).beacon.SameLoops
        ((fresh.run lost).next (.start .all (.error .earlyEnd) 0)).beacon ∧
      (fresh.run back).calls[0]? = some .recovering ∧
      (fresh.run back).Settles 0 (.ok ()) ((fresh.run back).next (.goOn 0 (.ok ()))) ∧
      along farewells fresh gone = [⟨2⟩] := by
  intro fresh lost back gone
  have hfailed : ((fresh.run lost).start .all (.error .earlyEnd) 0).1 = .failed .earlyEnd := by
    decide +kernel
  have hplace : (fresh.run back).calls[0]? = some .recovering := by decide +kernel
  have hgone : along lastStops fresh gone = [⟨2⟩] := by decide +kernel
  refine ⟨hfailed, ?_, hplace, ?_, ?_⟩
  · exact ((lifecycle {} novice.self novice.roster lost).1 _ _ _ _ hfailed).1
  · exact (lifecycle {} novice.self novice.roster back).2.2 _ _ hplace
  · exact (lifecycle {} novice.self novice.roster gone).2.1.trans hgone

end Scene

end PeerCluster.Beacon
