import PeerCluster.Proofs.BeaconLifecycle
import PeerCluster.Proofs.FailureDetection

/-!
# What a beacon announces

Along any run of a beacon, each heartbeat of a living member that it composes is an `Announcement`: the
member as it was then, and the datagram, if it is not too large. A first heartbeat of a start and a
heartbeat of the transmit loop are announcements, a farewell is none.

Each announcement takes the next number, also one that is too large or cannot be sent, and nothing
else changes the number (`speaks_next`). So no two announcements of a run share a number, as long as
the numbers do not run out (`along_announced`).
-/

namespace PeerCluster.Beacon

open Heartbeat (Packet)

/-! ## Announcements -/

/-- A heartbeat of a living member, as the member composed it. -/
structure Announcement where
  /-- The member as it was then. -/
  member : Member
  /-- What is to be sent, unless it is too large. -/
  datagram : Option (List UInt8)

/-- The member keeps its name and its settings. -/
structure SameSpeaker (b b' : Beacon) : Prop where
  settings : b'.settings = b.settings
  id : b'.self.id = b.self.id
  domain : b'.self.domain = b.self.domain

/-- What is announced while one beacon becomes another. -/
inductive Speaks (b : Beacon) : List Announcement → Beacon → Prop
  | silent {b' : Beacon} : SameSpeaker b b' → b'.self.sequence = b.self.sequence → Speaks b [] b'
  | announces {b' : Beacon} {datagram : Option (List UInt8)} : SameSpeaker b b' →
    b'.self.sequence = b.self.sequence + 1 →
    (∀ bs, datagram = some bs →
      Packet.encode ⟨.alive, b'.self⟩ b.settings.maxPacketSize.toNat = .ok bs) →
    Speaks b [⟨b'.self, datagram⟩] b'

/-- The heartbeat of a living member that the first piece of a start composes, if it composes one. -/
def Started.announced (started : Started) (b : Beacon) : List Announcement :=
  match started with
  | .announcing _ _ datagram => [⟨b.self, some datagram⟩]
  | .begun newly => if newly.transmit then [⟨b.self, none⟩] else []
  | .already | .failed _ => []

/-- The heartbeat of a living member that a move composes, if it composes one. -/
def Scene.announced (s : Scene) (m : Move) : List Announcement :=
  match m with
  | .start channels opening age =>
    (s.start channels opening age).1.announced (s.next m).beacon
  | .beat age isSent =>
    if s.beacon.sending.isNone then [] else [⟨(s.next m).beacon.self, (s.beat age isSent).1⟩]
  | .stop .. | .trigger | .goOn .. | .receive .. | .payload .. => []

/-! ## One move of the speaker -/

section Speaker

variable {b b' b'' : Beacon}

theorem SameSpeaker.trans (h : SameSpeaker b b') (h' : SameSpeaker b' b'') : SameSpeaker b b'' :=
  ⟨h'.settings.trans h.settings, h'.id.trans h.id, h'.domain.trans h.domain⟩

/-- What goes on behind an announcement leaves the member alone. -/
theorem Speaks.trans_same {said : List Announcement} (h : Speaks b said b')
    (hsettings : b''.settings = b'.settings) (hself : b''.self = b'.self) : Speaks b said b'' := by
  have hsame : SameSpeaker b' b'' := ⟨hsettings, by rw [hself], by rw [hself]⟩
  cases h with
  | silent hspeaker hsequence => exact .silent (hspeaker.trans hsame) (by rw [hself, hsequence])
  | announces hspeaker hsequence hdatagram =>
    rw [← hself] at hsequence hdatagram ⊢
    exact .announces (hspeaker.trans hsame) hsequence hdatagram

/-- What goes on before an announcement leaves the member alone. -/
theorem Speaks.of_same {said : List Announcement} (hsettings : b'.settings = b.settings)
    (hself : b'.self = b.self) (h : Speaks b' said b'') : Speaks b said b'' := by
  have hsame : SameSpeaker b b' := ⟨hsettings, by rw [hself], by rw [hself]⟩
  cases h with
  | silent hspeaker hsequence => exact .silent (hsame.trans hspeaker) (by rw [hsequence, hself])
  | announces hspeaker hsequence hdatagram =>
    rw [hself] at hsequence
    rw [hsettings] at hdatagram
    exact .announces (hsame.trans hspeaker) hsequence hdatagram

theorem speaks_of_same (hsettings : b'.settings = b.settings) (hself : b'.self = b.self) :
    Speaks b [] b' :=
  .silent ⟨hsettings, by rw [hself], by rw [hself]⟩ (by rw [hself])

/-- Every heartbeat of a living member takes the next number, whatever becomes of it. -/
theorem speaks_compose (b : Beacon) (age : UInt64) :
    Speaks b [⟨(b.compose .alive age).2.self, (b.compose .alive age).1.toOption⟩]
      (b.compose .alive age).2 := by
  refine .announces ⟨rfl, rfl, rfl⟩ rfl fun bs hbs => ?_
  show (b.compose .alive age).1 = .ok bs
  cases hcomposed : (b.compose .alive age).1 with
  | error e => rw [hcomposed] at hbs; cases hbs
  | ok d => rw [hcomposed] at hbs; rw [Option.some.inj hbs]

theorem self_spawnLoops (b : Beacon) (channels : Channels) (k : SocketId) :
    (b.spawnLoops channels k).settings = b.settings ∧
      (b.spawnLoops channels k).self = b.self := by
  unfold spawnLoops
  cases channels.receive && b.running.receive && b.hearing.isNone
  · simp only [Bool.false_eq_true, if_false]
    split <;> exact ⟨rfl, rfl⟩
  · simp only [if_true]
    split <;> exact ⟨rfl, rfl⟩

theorem self_noteSent (b : Beacon) (outcome : Sent) :
    (b.noteSent outcome).2.settings = b.settings ∧ (b.noteSent outcome).2.self = b.self := by
  cases outcome with
  | sent | refused => exact ⟨rfl, rfl⟩
  | failed =>
    have hstation := (recordError_frame b .send).1
    exact ⟨hstation.settings, hstation.self⟩

theorem self_attemptRecovery (b : Beacon) (opening : Except IoFault Unit) :
    (b.attemptRecovery opening).2.settings = b.settings ∧
      (b.attemptRecovery opening).2.self = b.self := by
  cases hruns : b.running.isEmpty with
  | true =>
    rw [attemptRecovery, if_pos hruns]
    exact ⟨rfl, rfl⟩
  | false =>
    cases opening with
    | error fault =>
      simp only [attemptRecovery, hruns, ensureSocket, Bool.false_eq_true, if_false]
      exact ⟨rfl, rfl⟩
    | ok u =>
      simp only [attemptRecovery, hruns, ensureSocket, resume, endLoops, Bool.false_eq_true,
        if_false]
      exact self_spawnLoops _ _ _

theorem speaks_start (b : Beacon) (channels : Channels) (opening : Except IoFault Unit)
    (age : UInt64) :
    Speaks b ((b.start channels opening age).1.announced (b.start channels opening age).2)
      (b.start channels opening age).2 := by
  unfold start
  dsimp only
  split
  · exact speaks_of_same rfl rfl
  · -- Asking for loops and opening a socket leave the member alone.
    obtain ⟨result, asked, hensure, hsettings, hself⟩ :
        ∃ result asked, Beacon.ensureSocket { b with running := b.running.union channels } opening =
          (result, asked) ∧ asked.settings = b.settings ∧ asked.self = b.self := by
      rcases ensureSocket_cases { b with running := b.running.union channels } opening with
        ⟨k, -, h⟩ | ⟨-, -, h⟩ | ⟨fault, -, -, h⟩ <;> exact ⟨_, _, h, rfl, rfl⟩
    rw [hensure]
    cases result with
    | error fault => exact speaks_of_same hsettings hself
    | ok k =>
      dsimp only
      cases htransmit : (channels.without b.running).transmit with
      | false =>
        simp only [Started.announced, htransmit, Bool.false_eq_true, if_false]
        have hspawned := self_spawnLoops asked (channels.without b.running) k
        exact speaks_of_same (hspawned.1.trans hsettings) (hspawned.2.trans hself)
      | true =>
        have hspeaks := (speaks_compose asked age).of_same hsettings hself
        cases hcompose : asked.compose .alive age with
        | mk packet composed =>
          rw [hcompose] at hspeaks
          cases packet with
          | ok datagram => exact hspeaks
          | error e =>
            simp only [Started.announced, htransmit, if_true]
            have hspawned := self_spawnLoops composed (channels.without b.running) k
            rw [hspawned.2]
            exact hspeaks.trans_same hspawned.1 hspawned.2

/-- A farewell repeats the number of the last heartbeat. -/
theorem speaks_stop (b : Beacon) (channels : Channels) (age : UInt64) :
    Speaks b [] (b.stop channels age).2 := by
  unfold stop
  dsimp only
  split
  · exact speaks_of_same rfl rfl
  · split
    · exact speaks_of_same rfl rfl
    · split
      · exact speaks_of_same rfl rfl
      · split <;>
        next hcompose =>
          rw [← congrArg Prod.snd hcompose]
          exact .silent ⟨rfl, rfl, rfl⟩ rfl

theorem speaks_beat (s : Scene) (age : UInt64) (isSent : Bool) :
    Speaks s.beacon (s.announced (.beat age isSent)) (s.next (.beat age isSent)).beacon := by
  unfold Scene.announced Scene.next Scene.beat
  cases hsending : s.beacon.sending.isNone with
  | true => exact speaks_of_same rfl rfl
  | false =>
    have hspeaks := speaks_compose s.beacon age
    cases hcompose : s.beacon.compose .alive age with
    | mk packet composed =>
      rw [hcompose] at hspeaks
      cases packet with
      | ok datagram =>
        have hnoted := self_noteSent composed (if isSent then .sent else .failed)
        simp only [hcompose, Bool.false_eq_true, if_false, Scene.beacon_awaiting]
        rw [hnoted.2]
        exact hspeaks.trans_same hnoted.1 hnoted.2
      | error e =>
        simp only [hcompose, Bool.false_eq_true, if_false, Scene.beacon_awaiting]
        exact hspeaks

/-- A move announces the member under its next number, or leaves the number as it is. -/
theorem speaks_next (s : Scene) (m : Move) :
    Speaks s.beacon (s.announced m) (s.next m).beacon := by
  cases m with
  | start channels opening age =>
    have hspeaks := speaks_start s.beacon channels opening age
    show Speaks s.beacon ((s.start channels opening age).1.announced
      (s.start channels opening age).2.beacon) (s.start channels opening age).2.beacon
    unfold Scene.start
    generalize s.beacon.start channels opening age = result at hspeaks ⊢
    obtain ⟨started, b⟩ := result
    cases started <;> exact hspeaks
  | stop channels age =>
    have hspeaks := speaks_stop s.beacon channels age
    show Speaks s.beacon [] (s.stop channels age).2.beacon
    unfold Scene.stop
    generalize s.beacon.stop channels age = result at hspeaks ⊢
    obtain ⟨stopped, b⟩ := result
    cases stopped <;> exact hspeaks
  | trigger =>
    show Speaks s.beacon [] (Scene.awaiting s.beacon.triggerRecovery.1
      { s with beacon := s.beacon.triggerRecovery.2 }).beacon
    rw [Scene.beacon_awaiting]
    unfold triggerRecovery
    split <;> exact speaks_of_same rfl rfl
  | goOn place opening =>
    show Speaks s.beacon [] (s.goOn place opening).beacon
    unfold Scene.goOn
    split
    · exact speaks_of_same rfl rfl
    · have hspawned := self_spawnLoops s.beacon
      exact speaks_of_same (hspawned _ _).1 (hspawned _ _).2
    · exact speaks_of_same rfl rfl
    · have hrecovered := self_attemptRecovery s.beacon opening
      split <;>
      next hattempt =>
        rw [hattempt] at hrecovered
        exact speaks_of_same hrecovered.1 hrecovered.2
  | receive r heardAt sweptAt =>
    show Speaks s.beacon [] (s.receive r heardAt sweptAt).2.beacon
    have hstation := (receiveRound_frame s.beacon r heardAt sweptAt).1
    unfold Scene.receive
    split
    · exact speaks_of_same rfl rfl
    · dsimp only
      rw [Scene.beacon_awaiting]
      exact speaks_of_same hstation.settings hstation.self
  | beat age isSent => exact speaks_beat s age isSent
  | payload payload => exact .silent ⟨rfl, rfl, rfl⟩ rfl

/-! ## A run of the speaker -/

/-- An announcement of a member after it was last seen. -/
structure Announcement.Follows (a : Announcement) (b : Beacon) : Prop where
  id : a.member.id = b.self.id
  domain : a.member.domain = b.self.domain
  sequence : b.self.sequence.toNat < a.member.sequence.toNat
  datagram : ∀ bs, a.datagram = some bs →
    Packet.encode ⟨.alive, a.member⟩ b.settings.maxPacketSize.toNat = .ok bs

theorem Announcement.Follows.of_same {a : Announcement} (h : a.Follows b')
    (hspeaker : SameSpeaker b b')
    (hsequence : b.self.sequence.toNat ≤ b'.self.sequence.toNat) : a.Follows b :=
  ⟨h.id.trans hspeaker.id, h.domain.trans hspeaker.domain, Nat.lt_of_le_of_lt hsequence h.sequence,
    by rw [← hspeaker.settings]; exact h.datagram⟩

/-- No two announcements of a run share a number, as long as the numbers do not run out. -/
theorem along_announced {s : Scene} {moves : List Move}
    (hcount : s.beacon.self.sequence.toNat + (s.along Scene.announced moves).length < UInt64.size) :
    (∀ a ∈ s.along Scene.announced moves, a.Follows s.beacon) ∧
      (s.along Scene.announced moves).Pairwise fun a a' =>
        a.member.sequence.toNat < a'.member.sequence.toNat := by
  induction moves generalizing s with
  | nil => exact ⟨nofun, .nil⟩
  | cons m moves ih =>
    have hspeaks := speaks_next s m
    unfold Scene.along at hcount ⊢
    generalize s.announced m = said at hspeaks hcount ⊢
    cases hspeaks with
    | silent hspeaker hsequence =>
      rw [List.nil_append] at hcount ⊢
      rw [← hsequence] at hcount
      obtain ⟨hfollows, hincrease⟩ := ih hcount
      refine ⟨fun a ha => (hfollows a ha).of_same hspeaker ?_, hincrease⟩
      exact Nat.le_of_eq (by rw [hsequence])
    | @announces _ datagram hspeaker hsequence hdatagram =>
      rw [List.singleton_append, List.length_cons] at hcount
      have hnext : (s.next m).beacon.self.sequence.toNat = s.beacon.self.sequence.toNat + 1 := by
        rw [hsequence, UInt64.toNat_add]
        exact Nat.mod_eq_of_lt (Nat.lt_of_le_of_lt (by simp) hcount)
      obtain ⟨hfollows, hincrease⟩ := ih (s := s.next m) (by omega)
      refine ⟨fun a ha => ?_, List.pairwise_cons.2 ⟨fun a ha => (hfollows a ha).sequence, hincrease⟩⟩
      rcases List.mem_cons.1 ha with rfl | ha
      · exact ⟨hspeaker.id, hspeaker.domain, by dsimp only; omega, hdatagram⟩
      · exact (hfollows a ha).of_same hspeaker (by omega)

end Speaker

end PeerCluster.Beacon
