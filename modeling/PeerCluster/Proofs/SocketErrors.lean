import Mathlib.Data.List.Perm.Basic
import PeerCluster.Proofs.Announcements

/-!
# Socket errors in a row

Each loop of a beacon counts the errors of its socket, and calls for a recovery when there have been
too many in a row.

**Theorem (`recovers_on_errors_in_a_row`).** Suppose the threshold is not zero. After any run of a
beacon,

* *counts*: the count of a loop is the number of its errors since it was last reset, and what resets it
  is a heartbeat that has been sent, a datagram that has been received, another loop in its place, or
  an error that reaches the threshold; so every count is below the threshold;
* *calls*: an error calls for a recovery exactly if the count reaches the threshold with it; and
* *recoveries*: one more recovery has begun after a move exactly if that move has called for one while
  recoveries are enabled and none was in flight. At most one is in flight at any time.

What a move is to a loop is read off the scene without its counts: whether the loop has failed
(`fails`), has succeeded (`succeeds`) or has begun (`begins`). A loop that a recovery puts in another's
place is told from that one by its socket, so that the invariant `Numbered` is needed: every socket in
use has been opened, and the next one has another number. Every move does to the counts what its three
readings say (`errors_next`), and to the recoveries what the counts say (`recoveries_of_starts`,
`recoveries_of_not_starts`).
-/

namespace PeerCluster.Beacon

variable {b b' b'' : Beacon} {side : Side} {k : SocketId}

/-! ## Counting errors -/

theorem errors_withErrors (b : Beacon) (side other : Side) (n : UInt32) :
    (b.withErrors side n).errors other = if other = side then n else b.errors other := by
  cases side <;> cases other <;> rfl

theorem errors_triggerRecovery (b : Beacon) (side : Side) :
    b.triggerRecovery.2.errors side = b.errors side := by
  rw [triggerRecovery]
  split <;> cases side <;> rfl

theorem toNat_errors_add_one (h : b.errors side < b.settings.recoveryThreshold) :
    (b.errors side + 1).toNat = (b.errors side).toNat + 1 := by
  have hthreshold := b.settings.recoveryThreshold.toNat_lt
  rw [UInt32.lt_iff_toNat_lt] at h
  rw [UInt32.toNat_add, UInt32.toNat_one, Nat.mod_eq_of_lt (by omega)]

/-- An error that reaches the threshold calls for a recovery. -/
theorem recordError_of_reached
    (h : (b.errors side).toNat + 1 = b.settings.recoveryThreshold.toNat) :
    b.recordError side = (b.withErrors side 0).triggerRecovery := by
  have hbelow : b.errors side < b.settings.recoveryThreshold := by
    rw [UInt32.lt_iff_toNat_lt]
    omega
  have hreached : b.settings.recoveryThreshold ≤ b.errors side + 1 := by
    rw [UInt32.le_iff_toNat_le, toNat_errors_add_one hbelow]
    exact Nat.le_of_eq h.symm
  rw [recordError, if_pos hreached]

/-- Any other error is only counted. -/
theorem recordError_of_not_reached (hbelow : b.errors side < b.settings.recoveryThreshold)
    (h : (b.errors side).toNat + 1 ≠ b.settings.recoveryThreshold.toNat) :
    b.recordError side = (false, b.withErrors side (b.errors side + 1)) := by
  have hnot : ¬b.settings.recoveryThreshold ≤ b.errors side + 1 := by
    rw [UInt32.le_iff_toNat_le, toNat_errors_add_one hbelow]
    rw [UInt32.lt_iff_toNat_lt] at hbelow
    omega
  rw [recordError, if_neg hnot]

/-! ## The calls -/

/-- A loop is there, and it is not the one that was there before. -/
def hasBegun (b b' : Beacon) (side : Side) : Bool :=
  (b'.loop side).isSome && b'.loop side != b.loop side

/-- Every socket in use has been opened. -/
structure Numbered (b : Beacon) : Prop where
  hearing : ∀ k, b.hearing = some k → k.number < b.opened
  sending : ∀ k, b.sending = some k → k.number < b.opened
  socket : ∀ k, b.socket = some k → k.number < b.opened

theorem Numbered.loop (h : b.Numbered) (hloop : b.loop side = some k) : k.number < b.opened := by
  cases side with
  | send => exact h.sending k hloop
  | receive => exact h.hearing k hloop

theorem numbered_of (hloop : ∀ side k, b.loop side = some k → k.number < b.opened)
    (hsocket : ∀ k, b.socket = some k → k.number < b.opened) : b.Numbered :=
  ⟨hloop .receive, hloop .send, hsocket⟩

/-- No loop begins or ends, and nothing that is counted changes. -/
structure Still (b b' : Beacon) : Prop where
  loop : ∀ side, b'.loop side = b.loop side
  errors : ∀ side, b'.errors side = b.errors side
  recovering : b'.recovering = b.recovering
  recoveries : b'.recoveries = b.recoveries
  opened : b.opened ≤ b'.opened
  numbered : b.Numbered → b'.Numbered

/-- Nothing that is counted changes, but for the counts of the loops that begin. -/
structure Renews (b b' : Beacon) : Prop where
  errors : ∀ side, b'.errors side = if b.hasBegun b' side then 0 else b.errors side
  recoveries : b'.recoveries = b.recoveries
  opened : b.opened ≤ b'.opened
  numbered : b'.Numbered

theorem hasBegun_of_loop_eq (h : b'.loop side = b.loop side) : b.hasBegun b' side = false := by
  rw [hasBegun, h, bne_self_eq_false, Bool.and_false]

theorem hasBegun_of_eq_none (h : b'.loop side = none) : b.hasBegun b' side = false := by
  rw [hasBegun, h]
  rfl

/-- What makes up the loops and the counts tells that they are the same. -/
theorem still_of_same (hloops : b.SameLoops b') (hsend : b'.sendErrors = b.sendErrors)
    (hreceive : b'.receiveErrors = b.receiveErrors) (hrecovering : b'.recovering = b.recovering)
    (hrecoveries : b'.recoveries = b.recoveries) (hopened : b'.opened = b.opened) :
    b.Still b' where
  loop := hloops.loop
  errors side := by
    cases side with
    | send => exact hsend
    | receive => exact hreceive
  recovering := hrecovering
  recoveries := hrecoveries
  opened := Nat.le_of_eq hopened.symm
  numbered h := by
    refine numbered_of (fun side k hloop => ?_) fun k hsocket => ?_
    · rw [hloops.loop] at hloop
      exact hopened ▸ h.loop hloop
    · rw [hloops.socket] at hsocket
      exact hopened ▸ h.socket k hsocket

theorem Still.refl (b : Beacon) : b.Still b :=
  ⟨fun _ => rfl, fun _ => rfl, rfl, rfl, Nat.le_refl _, id⟩

theorem Still.trans (h : b.Still b') (h' : b'.Still b'') : b.Still b'' where
  loop side := (h'.loop side).trans (h.loop side)
  errors side := (h'.errors side).trans (h.errors side)
  recovering := h'.recovering.trans h.recovering
  recoveries := h'.recoveries.trans h.recoveries
  opened := Nat.le_trans h.opened h'.opened
  numbered hnumbered := h'.numbered (h.numbered hnumbered)

theorem Still.renews (h : b.Still b') (hnumbered : b.Numbered) : b.Renews b' where
  errors side := by
    rw [hasBegun_of_loop_eq (h.loop side), h.errors]
    rfl
  recoveries := h.recoveries
  opened := h.opened
  numbered := h.numbered hnumbered

theorem Still.trans_renews (h : b.Still b') (h' : b'.Renews b'') : b.Renews b'' where
  errors side := by
    rw [h'.errors, h.errors, hasBegun, hasBegun, h.loop]
  recoveries := h'.recoveries.trans h.recoveries
  opened := Nat.le_trans h.opened h'.opened
  numbered := h'.numbered

theorem errors_spawnLoops (b : Beacon) (channels : Channels) (k : SocketId) (side : Side) :
    (b.spawnLoops channels k).errors side =
      if channels.has side && b.running.has side && (b.loop side).isNone then 0
      else b.errors side := by
  rw [spawnLoops]
  cases hhears : channels.receive && b.running.receive && b.hearing.isNone <;>
    cases hsends : channels.transmit && b.running.transmit && b.sending.isNone <;>
      cases side <;> simp [loop, errors, Channels.has, hhears, hsends]

theorem counts_spawnLoops (b : Beacon) (channels : Channels) (k : SocketId) :
    (b.spawnLoops channels k).recovering = b.recovering ∧
      (b.spawnLoops channels k).recoveries = b.recoveries := by
  rw [spawnLoops]
  cases channels.receive && b.running.receive && b.hearing.isNone
  · simp only [Bool.false_eq_true, if_false]
    split <;> exact ⟨rfl, rfl⟩
  · simp only [if_true]
    split <;> exact ⟨rfl, rfl⟩

/-- A loop begins with no error. -/
theorem renews_spawnLoops (channels : Channels) (hnumbered : b.Numbered)
    (hk : k.number < b.opened) : b.Renews (b.spawnLoops channels k) := by
  obtain ⟨-, hsocket, hopened⟩ := spawnLoops_frame b channels k
  refine ⟨fun side => ?_, (counts_spawnLoops b channels k).2, Nat.le_of_eq hopened.symm,
    numbered_of (fun side k' hloop => ?_) fun k' hheld => ?_⟩
  · rw [errors_spawnLoops, hasBegun, loop_spawnLoops]
    cases hbegins : channels.has side && b.running.has side && (b.loop side).isNone with
    | false => simp
    | true =>
      rw [Bool.and_eq_true, Option.isNone_iff_eq_none] at hbegins
      simp [hbegins.2]
  · rw [hopened]
    rw [loop_spawnLoops] at hloop
    split at hloop
    · exact Option.some.inj hloop ▸ hk
    · exact hnumbered.loop hloop
  · rw [hopened]
    exact hnumbered.socket k' (hsocket ▸ hheld)

theorem still_compose (b : Beacon) (command : Heartbeat.Command) (age : UInt64) :
    b.Still (b.compose command age).2 :=
  still_of_same (sameLoops_compose b command age) rfl rfl rfl rfl rfl

/-- What a start does to what is counted. It may begin loops on the socket that it holds. -/
inductive Begins (b : Beacon) : Started → Beacon → Prop
  | already : Begins b .already b
  | failed {fault : IoFault} {b' : Beacon} : b.Still b' → Begins b (.failed fault) b'
  | announcing {newly : Channels} {k : SocketId} {datagram : List UInt8} {b' : Beacon} :
    b.Still b' → b'.socket = some k → Begins b (.announcing newly k datagram) b'
  | begun {newly : Channels} {k : SocketId} {b' : Beacon} :
    b.Still b' → b'.socket = some k → Begins b (.begun newly) (b'.spawnLoops newly k)

theorem still_running (b : Beacon) (running : Channels) : b.Still { b with running } where
  loop side := by cases side <;> rfl
  errors side := by cases side <;> rfl
  recovering := rfl
  recoveries := rfl
  opened := Nat.le_refl _
  numbered h := ⟨h.hearing, h.sending, h.socket⟩

theorem still_ensureSocket (b : Beacon) (running : Channels) (opening : Except IoFault Unit) :
    b.Still (Beacon.ensureSocket { b with running } opening).2 := by
  have hasked := still_running b running
  rcases ensureSocket_cases { b with running } opening with
    ⟨k, -, hensure⟩ | ⟨-, -, hensure⟩ | ⟨fault, -, -, hensure⟩ <;> rw [hensure]
  · exact hasked
  · refine ⟨hasked.loop, hasked.errors, rfl, rfl, Nat.le_succ _, fun h => numbered_of ?_ ?_⟩
    · intro side k hloop
      exact Nat.lt_succ_of_lt ((hasked.numbered h).loop hloop)
    · rintro k ⟨⟩
      exact Nat.lt_succ_self _
  · exact hasked

theorem begins_start (b : Beacon) (channels : Channels) (opening : Except IoFault Unit)
    (age : UInt64) :
    b.Begins (b.start channels opening age).1 (b.start channels opening age).2 := by
  have hensured := still_ensureSocket b (b.running.union channels) opening
  have hheld : ∀ k b', Beacon.ensureSocket { b with running := b.running.union channels } opening =
      (.ok k, b') → b'.socket = some k := by
    intro k b' hensure
    rcases ensureSocket_cases { b with running := b.running.union channels } opening with
      ⟨k', hsocket, h⟩ | ⟨-, -, h⟩ | ⟨fault, -, -, h⟩ <;> rw [h] at hensure <;> cases hensure
    · exact hsocket
    · rfl
  rw [start]
  dsimp only
  split
  next => exact .already
  next =>
    generalize Beacon.ensureSocket { b with running := b.running.union channels } opening =
      ensured at hensured hheld ⊢
    obtain ⟨result, asked⟩ := ensured
    cases result with
    | error fault =>
      exact .failed (hensured.trans (still_running asked _))
    | ok k =>
      have hsocket := hheld k asked rfl
      have hcomposed := hensured.trans (still_compose asked .alive age)
      dsimp only at hcomposed ⊢
      split
      · split
        next datagram composed hcompose =>
          rw [hcompose] at hcomposed
          exact .announcing hcomposed (congrArg (fun r => r.2.socket) hcompose ▸ hsocket)
        next e composed hcompose =>
          rw [hcompose] at hcomposed
          exact .begun hcomposed (congrArg (fun r => r.2.socket) hcompose ▸ hsocket)
      · exact .begun hensured hsocket

theorem renews_start (hnumbered : b.Numbered) (channels : Channels)
    (opening : Except IoFault Unit) (age : UInt64) :
    b.Renews (b.start channels opening age).2 ∧
      (b.start channels opening age).2.recovering = b.recovering := by
  have hbegins := begins_start b channels opening age
  generalize b.start channels opening age = result at hbegins ⊢
  obtain ⟨started, b'⟩ := result
  cases hbegins with
  | already => exact ⟨(Still.refl _).renews hnumbered, rfl⟩
  | failed hstill => exact ⟨hstill.renews hnumbered, hstill.recovering⟩
  | announcing hstill => exact ⟨hstill.renews hnumbered, hstill.recovering⟩
  | @begun newly k asked hstill hsocket =>
    have hasked := hstill.numbered hnumbered
    refine ⟨hstill.trans_renews (renews_spawnLoops newly hasked (hasked.socket k hsocket)), ?_⟩
    exact (counts_spawnLoops asked newly k).1.trans hstill.recovering

/-- A stop begins no loop. -/
theorem renews_stop (hnumbered : b.Numbered) (channels : Channels) (age : UInt64) :
    b.Renews (b.stop channels age).2 ∧ (b.stop channels age).2.recovering = b.recovering := by
  have hends : ∀ b' : Beacon, b'.hearing = (b.endLoops channels).hearing →
      b'.sending = (b.endLoops channels).sending → b'.sendErrors = b.sendErrors →
      b'.receiveErrors = b.receiveErrors → b'.recoveries = b.recoveries →
      b'.opened = b.opened → (b'.socket = b.socket ∨ b'.socket = none) → b.Renews b' := by
    intro b' hhearing hsending hsend hreceive hrecoveries hopened hsocket
    have hloop (side : Side) :
        b'.loop side = if channels.has side then none else b.loop side := by
      rw [← loop_endLoops]
      cases side with
      | send => exact hsending
      | receive => exact hhearing
    refine ⟨fun side => ?_, hrecoveries, Nat.le_of_eq hopened.symm,
      numbered_of (fun side k hk => ?_) fun k hk => ?_⟩
    · have hsame : b'.errors side = b.errors side := by
        cases side with
        | send => exact hsend
        | receive => exact hreceive
      have hnone : b.hasBegun b' side = false := by
        cases hended : channels.has side with
        | true => exact hasBegun_of_eq_none (by rw [hloop, hended]; rfl)
        | false => exact hasBegun_of_loop_eq (by rw [hloop, hended]; rfl)
      rw [hsame, hnone]
      rfl
    · rw [hloop] at hk
      split at hk
      · cases hk
      · exact hopened ▸ hnumbered.loop hk
    · rcases hsocket with hsame | hnone
      · exact hopened ▸ hnumbered.socket k (hsame ▸ hk)
      · rw [hnone] at hk
        cases hk
  rw [stop]
  dsimp only
  split
  · exact ⟨hends _ rfl rfl rfl rfl rfl rfl (.inl rfl), rfl⟩
  · split
    · exact ⟨hends _ rfl rfl rfl rfl rfl rfl (.inl rfl), rfl⟩
    · split
      · exact ⟨hends _ rfl rfl rfl rfl rfl rfl (.inr rfl), rfl⟩
      · split <;>
        next hcompose =>
          rw [← congrArg Prod.snd hcompose]
          exact ⟨hends _ rfl rfl rfl rfl rfl rfl (.inr rfl), rfl⟩

/-- The beacon when a recovery has opened its socket. -/
def rebuilt (b : Beacon) : Beacon :=
  { b.endLoops .all with socket := some ⟨b.opened⟩, opened := b.opened + 1 }

theorem attemptRecovery_of_opened (hruns : b.running.isEmpty = false) :
    b.attemptRecovery (.ok ()) =
      (.recovered, { b.rebuilt.spawnLoops b.running ⟨b.opened⟩ with recovering := false }) := by
  simp only [attemptRecovery, hruns, ensureSocket, resume, endLoops, rebuilt, Bool.false_eq_true,
    if_false, if_true]

theorem loop_rebuilt (b : Beacon) (side : Side) : b.rebuilt.loop side = none := by
  cases side <;> rfl

theorem numbered_rebuilt (b : Beacon) : b.rebuilt.Numbered := by
  refine numbered_of (fun side k hloop => ?_) fun k hsocket => ?_
  · rw [loop_rebuilt] at hloop
    cases hloop
  · cases hsocket
    exact Nat.lt_succ_self _

/-- On a socket that has just been opened, every loop is another one. -/
theorem renews_rebuilt (hnumbered : b.Numbered) :
    b.Renews (b.rebuilt.spawnLoops b.running ⟨b.opened⟩) := by
  have hspawned :=
    renews_spawnLoops (k := ⟨b.opened⟩) b.running b.numbered_rebuilt (Nat.lt_succ_self _)
  refine ⟨fun side => ?_, hspawned.recoveries, Nat.le_trans (Nat.le_succ _) hspawned.opened,
    hspawned.numbered⟩
  have hloop := loop_spawnLoops_of_eq_none b.running ⟨b.opened⟩ (b.loop_rebuilt side)
  have hsame : b.rebuilt.errors side = b.errors side := by cases side <;> rfl
  -- The loop that was there before works on a socket with a lower number.
  have hother : some ⟨b.opened⟩ ≠ b.loop side := by
    intro hold
    exact Nat.lt_irrefl _ (hnumbered.loop hold.symm)
  rw [hspawned.errors, hsame, hasBegun, hasBegun, loop_rebuilt, hloop]
  cases b.running.has side && b.rebuilt.running.has side <;> simp [hother]

/-- A recovery ends when it does not fail, and every loop that it leaves is another one. -/
theorem renews_attemptRecovery (hnumbered : b.Numbered) (opening : Except IoFault Unit) :
    b.Renews (b.attemptRecovery opening).2 ∧
      ((∃ fault, (b.attemptRecovery opening).1 = .failed fault) ∧
          (b.attemptRecovery opening).2.recovering = b.recovering ∨
        (∀ fault, (b.attemptRecovery opening).1 ≠ .failed fault) ∧
          (b.attemptRecovery opening).2.recovering = false) := by
  cases hruns : b.running.isEmpty with
  | true =>
    rw [attemptRecovery, if_pos hruns]
    refine ⟨⟨fun side => ?_, rfl, Nat.le_refl _, ?_⟩, .inr ⟨fun _ => by rintro ⟨⟩, rfl⟩⟩
    · rw [hasBegun_of_loop_eq (by cases side <;> rfl)]
      cases side <;> rfl
    · exact ⟨hnumbered.hearing, hnumbered.sending, hnumbered.socket⟩
  | false =>
    cases opening with
    | error fault =>
      simp only [attemptRecovery, hruns, ensureSocket, Bool.false_eq_true, if_false]
      refine ⟨⟨fun side => ?_, rfl, Nat.le_refl _, numbered_of (fun side k hloop => ?_) ?_⟩,
        .inl ⟨⟨fault, rfl⟩, rfl⟩⟩
      · rw [hasBegun_of_eq_none (by cases side <;> rfl)]
        cases side <;> rfl
      · cases side <;> cases hloop
      · rintro k ⟨⟩
    | ok u =>
      obtain ⟨herrors, hrecoveries, hopened, hrebuilt⟩ := renews_rebuilt hnumbered
      rw [attemptRecovery_of_opened hruns]
      refine ⟨⟨fun side => ?_, hrecoveries, hopened, ?_⟩, .inr ⟨fun _ => by rintro ⟨⟩, rfl⟩⟩
      · cases side with
        | send => exact herrors .send
        | receive => exact herrors .receive
      · exact ⟨hrebuilt.hearing, hrebuilt.sending, hrebuilt.socket⟩

/-! ## The rounds -/

/-- Whether a recovery can begin. -/
def mayRecover (b : Beacon) : Bool :=
  b.settings.recoveryEnabled && !b.recovering

/-- Whether the next error of a loop reaches the threshold. -/
def isDue (b : Beacon) (side : Side) : Bool :=
  (b.errors side).toNat + 1 == b.settings.recoveryThreshold.toNat

/-- A recovery begins, or it does not, and the loops are left alone. -/
structure Enters (b : Beacon) (begins : Bool) (b' : Beacon) : Prop where
  loops : b.SameLoops b'
  opened : b'.opened = b.opened
  recovering : b'.recovering = (b.recovering || begins)
  recoveries : b'.recoveries = b.recoveries + if begins then 1 else 0

theorem Enters.trans {begins begins' : Bool} (h : b.Enters begins b')
    (h' : b'.Enters begins' b'') (hone : begins = false ∨ begins' = false) :
    b.Enters (begins || begins') b'' := by
  refine ⟨h.loops.trans h'.loops, h'.opened.trans h.opened, ?_, ?_⟩
  · rw [h'.recovering, h.recovering, Bool.or_assoc]
  · rw [h'.recoveries, h.recoveries]
    rcases hone with rfl | rfl <;> simp

/-- What makes up the loops and the recoveries tells that none begins. -/
theorem enters_of_same (hloops : b.SameLoops b') (hopened : b'.opened = b.opened)
    (hrecovering : b'.recovering = b.recovering) (hrecoveries : b'.recoveries = b.recoveries) :
    b.Enters false b' :=
  ⟨hloops, hopened, by rw [hrecovering, Bool.or_false], by
    rw [hrecoveries, if_neg Bool.false_ne_true, UInt32.add_zero]⟩

theorem triggerRecovery_eq (b : Beacon) : b.triggerRecovery.1 = b.mayRecover := by
  rw [triggerRecovery, mayRecover]
  split
  next hmay => exact hmay.symm
  next hnot => exact (Bool.eq_false_iff.2 hnot).symm

theorem enters_triggerRecovery (b : Beacon) : b.Enters b.mayRecover b.triggerRecovery.2 := by
  refine ⟨sameLoops_triggerRecovery b, ?_, ?_, ?_⟩ <;> rw [triggerRecovery, ← mayRecover] <;>
    cases b.mayRecover <;> simp

theorem enters_withErrors (b : Beacon) (side : Side) (n : UInt32) :
    b.Enters false (b.withErrors side n) := by
  refine enters_of_same (sameLoops_withErrors b side n) ?_ ?_ ?_ <;> cases side <;> rfl

/-- An error calls for a recovery if it reaches the threshold. -/
theorem enters_recordError (hbelow : b.errors side < b.settings.recoveryThreshold) :
    (b.recordError side).1 = (b.isDue side && b.mayRecover) ∧
      b.Enters (b.isDue side && b.mayRecover) (b.recordError side).2 := by
  cases hdue : b.isDue side with
  | true =>
    rw [recordError_of_reached (beq_iff_eq.1 hdue), Bool.true_and, triggerRecovery_eq]
    have hsame : (b.withErrors side 0).mayRecover = b.mayRecover := by cases side <;> rfl
    have htriggered := enters_triggerRecovery (b.withErrors side 0)
    rw [hsame] at htriggered ⊢
    exact ⟨rfl, (enters_withErrors b side 0).trans htriggered (.inl rfl)⟩
  | false =>
    rw [recordError_of_not_reached hbelow (beq_eq_false_iff_ne.1 hdue), Bool.false_and]
    exact ⟨rfl, enters_withErrors b side _⟩

/-- An error is counted, and the count begins anew when it reaches the threshold. -/
theorem errors_recordError (hbelow : b.errors side < b.settings.recoveryThreshold) (other : Side) :
    ((b.recordError side).2.errors other).toNat =
      if other = side then if b.isDue side then 0 else (b.errors side).toNat + 1
      else (b.errors other).toNat := by
  cases hdue : b.isDue side with
  | true =>
    rw [recordError_of_reached (beq_iff_eq.1 hdue), errors_triggerRecovery, errors_withErrors]
    split <;> rfl
  | false =>
    rw [recordError_of_not_reached hbelow (beq_eq_false_iff_ne.1 hdue)]
    dsimp only
    rw [errors_withErrors]
    split
    · exact toNat_errors_add_one hbelow
    · rfl

theorem exists_roster_hear (b : Beacon) (datagram : List UInt8) (now : Nat) :
    ∃ roster, (b.hear datagram now).2 = { b with roster } := by
  rw [hear]
  split
  · exact ⟨b.roster, rfl⟩
  · dsimp only
    split
    · exact ⟨b.roster, rfl⟩
    · split <;> exact ⟨_, rfl⟩

/-- A datagram that is taken in changes the roster only. -/
theorem enters_hear (b : Beacon) (datagram : List UInt8) (now : Nat) :
    b.Enters false (b.hear datagram now).2 ∧
      ∀ side, (b.hear datagram now).2.errors side = b.errors side := by
  obtain ⟨roster, hroster⟩ := exists_roster_hear b datagram now
  rw [hroster]
  exact ⟨enters_of_same (sameLoops_of rfl rfl rfl rfl) rfl rfl rfl, fun side => by cases side <;> rfl⟩

theorem enters_expire (b : Beacon) (now : Nat) :
    b.Enters false (b.expire now).2 ∧ ∀ side, (b.expire now).2.errors side = b.errors side :=
  ⟨enters_of_same (sameLoops_of rfl rfl rfl rfl) rfl rfl rfl, fun side => by cases side <;> rfl⟩

theorem enters_receiveRound (hbelow : b.errors .receive < b.settings.recoveryThreshold)
    (r : Received) (heardAt sweptAt : Nat) :
    (b.receiveRound r heardAt sweptAt).2.1 =
        ((match r with | .failed => true | _ => false) && b.isDue .receive && b.mayRecover) ∧
      b.Enters (b.receiveRound r heardAt sweptAt).2.1 (b.receiveRound r heardAt sweptAt).2.2 := by
  cases r with
  | datagram bs =>
    have hreset := enters_withErrors b .receive 0
    rw [receiveRound]
    dsimp only
    split
    · exact ⟨rfl, hreset.trans (enters_expire _ _).1 (.inl rfl)⟩
    · exact ⟨rfl, (hreset.trans (enters_hear _ bs heardAt).1 (.inl rfl)).trans
        (enters_expire _ _).1 (.inl rfl)⟩
  | timedOut => exact ⟨rfl, (enters_expire b sweptAt).1⟩
  | failed =>
    obtain ⟨htriggered, henters⟩ := enters_recordError hbelow
    refine ⟨htriggered, ?_⟩
    have hswept := henters.trans (enters_expire _ sweptAt).1 (.inr rfl)
    rw [Bool.or_false, ← htriggered] at hswept
    exact hswept

theorem errors_receiveRound (hbelow : b.errors .receive < b.settings.recoveryThreshold)
    (r : Received) (heardAt sweptAt : Nat) (side : Side) :
    ((b.receiveRound r heardAt sweptAt).2.2.errors side).toNat =
      if side = .receive then
        match r with
        | .datagram _ => 0
        | .timedOut => (b.errors side).toNat
        | .failed => if b.isDue side then 0 else (b.errors side).toNat + 1
      else (b.errors side).toNat := by
  cases r with
  | datagram bs =>
    rw [receiveRound]
    dsimp only
    split
    · rw [(enters_expire _ _).2, errors_withErrors]
      split <;> rfl
    · rw [(enters_expire _ _).2, (enters_hear _ _ _).2, errors_withErrors]
      split <;> rfl
  | timedOut =>
    rw [receiveRound, (enters_expire _ _).2]
    exact (ite_self _).symm
  | failed =>
    rw [receiveRound, (enters_expire _ _).2, errors_recordError hbelow]
    split
    next hside => rw [hside]
    next => rfl

namespace Scene

variable {s : Scene} {m : Move}

/-! ## What a move is to a loop -/

/-- Whether a loop fails to use its socket. A heartbeat that is too large is not tried. -/
def fails (s : Scene) : Side → Move → Bool
  | .receive, .receive .failed _ _ => s.beacon.hearing.isSome
  | .send, .beat age false => (s.beat age false).1.isSome
  | _, _ => false

/-- Whether a loop uses its socket: it receives a datagram, whatever is in it, or sends a
heartbeat. -/
def succeeds (s : Scene) : Side → Move → Bool
  | .receive, .receive (.datagram _) _ _ => s.beacon.hearing.isSome
  | .send, .beat age true => (s.beat age true).1.isSome
  | _, _ => false

/-- Whether a loop begins. -/
def begins (s : Scene) (side : Side) (m : Move) : Bool :=
  s.beacon.hasBegun (s.next m).beacon side

/-- Whether the count of a loop reaches the threshold. -/
def reaches (s : Scene) (side : Side) (m : Move) : Bool :=
  s.fails side m && s.beacon.isDue side

/-- Whether the count of a loop begins anew. -/
def resets (s : Scene) (side : Side) (m : Move) : Bool :=
  s.succeeds side m || s.begins side m || s.reaches side m

/-- Whether a move calls for a recovery: one of the loops does, or it is called for outright. -/
def callsForRecovery (s : Scene) : Move → Bool
  | .trigger => true
  | m => s.reaches .send m || s.reaches .receive m

/-- Whether a recovery begins. -/
def recovers (s : Scene) (m : Move) : Bool :=
  s.callsForRecovery m && s.beacon.mayRecover

/-- A round leaves the loops alone, and counts what it is to them. -/
structure Rounds (s : Scene) (m : Move) (b : Beacon) : Prop where
  next : s.next m = awaiting (s.recovers m) { s with beacon := b }
  enters : s.beacon.Enters (s.recovers m) b
  errors : ∀ side, (b.errors side).toNat = if s.succeeds side m || s.reaches side m then 0
    else (s.beacon.errors side).toNat + if s.fails side m then 1 else 0

/-- Every count is below the threshold. -/
def Below (s : Scene) : Prop :=
  ∀ side, s.beacon.errors side < s.beacon.settings.recoveryThreshold

/-- A move that is no round of a loop and calls for nothing. -/
theorem rounds_of_nothing {b : Beacon} (hnext : s.next m = { s with beacon := b })
    (hfails : ∀ side, s.fails side m = false) (hsucceeds : ∀ side, s.succeeds side m = false)
    (hcalls : s.callsForRecovery m = false) (henters : s.beacon.Enters false b)
    (herrors : ∀ side, b.errors side = s.beacon.errors side) : s.Rounds m b := by
  have hrecovers : s.recovers m = false := by rw [recovers, hcalls, Bool.false_and]
  refine ⟨hrecovers ▸ hnext, hrecovers ▸ henters, fun side => ?_⟩
  rw [reaches, hfails, hsucceeds, herrors]
  rfl

theorem rounds_receive (hbelow : s.Below) (r : Received) (heardAt sweptAt : Nat) :
    ∃ b, s.Rounds (.receive r heardAt sweptAt) b := by
  cases hhearing : s.beacon.hearing.isSome with
  | false =>
    have hnone : s.beacon.hearing.isNone = true := by
      rw [← Option.not_isSome, hhearing]
      rfl
    refine ⟨s.beacon, rounds_of_nothing ?_ (fun side => ?_) (fun side => ?_) ?_
      (enters_of_same (.refl _) rfl rfl rfl) fun _ => rfl⟩
    · rw [Scene.next, Scene.receive, hnone]
      rfl
    · cases side <;> cases r <;> simp [fails, hhearing]
    · cases side <;> cases r <;> simp [succeeds, hhearing]
    · cases r <;> simp [callsForRecovery, reaches, fails, hhearing]
  | true =>
    have hnone : s.beacon.hearing.isNone = false := by
      rw [← Option.not_isSome, hhearing]
      rfl
    obtain ⟨htriggered, henters⟩ := enters_receiveRound (hbelow .receive) r heardAt sweptAt
    have hrecovers : s.recovers (.receive r heardAt sweptAt) =
        (s.beacon.receiveRound r heardAt sweptAt).2.1 := by
      rw [htriggered]
      cases r <;> simp [recovers, callsForRecovery, reaches, fails, hhearing]
    refine ⟨(s.beacon.receiveRound r heardAt sweptAt).2.2, ?_, hrecovers ▸ henters, fun side => ?_⟩
    · rw [Scene.next, Scene.receive, hnone, hrecovers]
      rfl
    · rw [errors_receiveRound (hbelow .receive)]
      cases side <;> cases r <;> simp [succeeds, fails, reaches, hhearing]

theorem rounds_beat (hbelow : s.Below) (age : UInt64) (isSent : Bool) :
    ∃ b, s.Rounds (.beat age isSent) b := by
  cases hsending : s.beacon.sending.isNone with
  | true =>
    have hbeat : s.beat age isSent = (none, s) := by
      rw [Scene.beat, hsending]
      rfl
    refine ⟨s.beacon, rounds_of_nothing (congrArg Prod.snd hbeat) (fun side => ?_)
      (fun side => ?_) ?_ (enters_of_same (.refl _) rfl rfl rfl) fun _ => rfl⟩
    · cases side <;> cases isSent <;> simp [fails, hbeat]
    · cases side <;> cases isSent <;> simp [succeeds, hbeat]
    · cases isSent <;> simp [callsForRecovery, reaches, fails, hbeat]
  | false =>
    -- Composing a heartbeat changes nothing that is counted.
    have hcomposed := enters_of_same (sameLoops_compose s.beacon .alive age) rfl rfl rfl
    have hsame := (still_compose s.beacon .alive age).errors
    cases hcompose : (s.beacon.compose .alive age).1 with
    | error e =>
      have hbeat : s.beat age isSent =
          (none, { s with beacon := (s.beacon.compose .alive age).2 }) := by
        rw [Scene.beat, hsending, ← Prod.eta (s.beacon.compose .alive age), hcompose]
        rfl
      refine ⟨(s.beacon.compose .alive age).2, rounds_of_nothing (congrArg Prod.snd hbeat)
        (fun side => ?_) (fun side => ?_) ?_ hcomposed hsame⟩
      · cases side <;> cases isSent <;> simp [fails, hbeat]
      · cases side <;> cases isSent <;> simp [succeeds, hbeat]
      · cases isSent <;> simp [callsForRecovery, reaches, fails, hbeat]
    | ok datagram =>
      cases isSent with
      | true =>
        have hbeat : s.beat age true = (some datagram,
            { s with beacon := (s.beacon.compose .alive age).2.withErrors .send 0 }) := by
          rw [Scene.beat, hsending, ← Prod.eta (s.beacon.compose .alive age), hcompose]
          rfl
        have hrecovers : s.recovers (.beat age true) = false := by
          simp [recovers, callsForRecovery, reaches, fails]
        refine ⟨_, by rw [hrecovers]; exact congrArg Prod.snd hbeat,
          hrecovers ▸ hcomposed.trans (enters_withErrors _ .send 0) (.inl rfl), fun side => ?_⟩
        rw [errors_withErrors, hsame]
        cases side <;> simp [succeeds, fails, reaches, hbeat]
      | false =>
        have hbelow' : (s.beacon.compose .alive age).2.errors .send <
            (s.beacon.compose .alive age).2.settings.recoveryThreshold := hbelow .send
        have hbeat : s.beat age false = (some datagram,
            awaiting ((s.beacon.compose .alive age).2.recordError .send).1
              { s with beacon := ((s.beacon.compose .alive age).2.recordError .send).2 }) := by
          rw [Scene.beat, hsending, ← Prod.eta (s.beacon.compose .alive age), hcompose]
          rfl
        obtain ⟨htriggered, henters⟩ := enters_recordError hbelow'
        have hrecovers : s.recovers (.beat age false) =
            ((s.beacon.compose .alive age).2.isDue .send &&
              (s.beacon.compose .alive age).2.mayRecover) := by
          simp only [recovers, callsForRecovery, reaches, fails, hbeat, Option.isSome_some,
            Bool.true_and, Bool.false_and, Bool.or_false]
          rfl
        have hentered := hcomposed.trans henters (.inl rfl)
        rw [Bool.false_or, ← hrecovers] at hentered
        refine ⟨_, ?_, hentered, fun side => ?_⟩
        · rw [hrecovers, ← htriggered]
          exact congrArg Prod.snd hbeat
        · rw [errors_recordError hbelow', hsame]
          cases side <;> simp [succeeds, fails, reaches, hbeat] <;> rfl

/-- Every round of a loop, and what else leaves the loops alone, does to the counts what it is to
them. -/
theorem rounds_next (hrests : Rests m) (hbelow : s.Below) : ∃ b, s.Rounds m b := by
  cases m with
  | start | stop | goOn => exact hrests.elim
  | receive r heardAt sweptAt => exact rounds_receive hbelow r heardAt sweptAt
  | beat age isSent => exact rounds_beat hbelow age isSent
  | trigger =>
    have hrecovers : s.recovers .trigger = s.beacon.mayRecover := Bool.true_and _
    refine ⟨s.beacon.triggerRecovery.2, ?_, hrecovers ▸ enters_triggerRecovery _, fun side => ?_⟩
    · rw [hrecovers, ← triggerRecovery_eq]
      rfl
    · rw [errors_triggerRecovery]
      cases side <;> rfl
  | payload payload =>
    refine ⟨s.beacon.withPayload payload, rounds_of_nothing rfl (fun side => ?_) (fun side => ?_)
      rfl (enters_of_same (sameLoops_of rfl rfl rfl rfl) rfl rfl rfl) fun side => ?_⟩ <;>
      cases side <;> rfl

/-! ## The invariant -/

/-- What holds of a scene after any run: every socket in use has been opened, and the flag says
whether a recovery is in flight. -/
structure Counted (s : Scene) : Prop where
  numbered : s.beacon.Numbered
  starting : ∀ {newly k}, .starting newly k ∈ s.calls → k.number < s.beacon.opened
  recovering : s.calls.count .recovering = s.beacon.recovering.toNat

theorem counted_fresh (settings : Settings.Membership) (self : Member) (roster : Roster) :
    Counted ⟨{ settings, self, roster }, []⟩ where
  numbered := ⟨nofun, nofun, nofun⟩
  starting := nofun
  recovering := rfl

/-- A call that has ended is in flight once less. -/
theorem count_eraseIdx {calls : List Call} {place : Nat} {c : Call}
    (hplace : calls[place]? = some c) (c' : Call) :
    calls.count c' = (calls.eraseIdx place).count c' + if c = c' then 1 else 0 := by
  obtain ⟨hlt, hget⟩ := List.getElem?_eq_some_iff.1 hplace
  rw [← (List.getElem_cons_eraseIdx_perm hlt).count_eq, hget, List.count_cons]
  simp only [beq_iff_eq]

theorem Counted.isRecovering_iff (h : s.Counted) :
    s.beacon.recovering = true ↔ .recovering ∈ s.calls := by
  rw [← List.count_pos_iff, h.recovering]
  cases s.beacon.recovering <;> simp

/-- A recovery begins with a move that calls for one while recoveries are enabled and none is in
flight. -/
def StartsRecovery (s : Scene) (m : Move) : Prop :=
  s.callsForRecovery m = true ∧ s.beacon.settings.recoveryEnabled = true ∧ .recovering ∉ s.calls

theorem Counted.recovers_iff (h : s.Counted) (m : Move) :
    s.recovers m = true ↔ s.StartsRecovery m := by
  rw [recovers, mayRecover, Bool.and_eq_true, Bool.and_eq_true, Bool.not_eq_true',
    StartsRecovery, ← h.isRecovering_iff, Bool.not_eq_true]

/-- What a call does: it calls for no recovery, and renews the counts of the loops that begin. -/
structure Goes (s s' : Scene) : Prop where
  renews : s.beacon.Renews s'.beacon
  counted : s'.Counted

theorem Counted.rounds (h : s.Counted) {b : Beacon} (hrounds : s.Rounds m b) :
    (s.next m).Counted := by
  obtain ⟨hnext, henters, -⟩ := hrounds
  have hnumbered : b.Numbered := by
    refine numbered_of (fun side k hloop => ?_) fun k hsocket => ?_
    · rw [henters.opened]
      exact h.numbered.loop (henters.loops.loop side ▸ hloop)
    · rw [henters.opened]
      exact h.numbered.socket k (henters.loops.socket ▸ hsocket)
  rw [hnext]
  cases hrecovers : s.recovers m with
  | false =>
    have hflag := henters.recovering
    rw [hrecovers, Bool.or_false] at hflag
    exact ⟨hnumbered, fun hc => henters.opened ▸ h.starting hc, hflag ▸ h.recovering⟩
  | true =>
    have hfree : s.beacon.recovering = false := by
      rw [recovers, mayRecover, Bool.and_eq_true, Bool.and_eq_true, Bool.not_eq_true'] at hrecovers
      exact hrecovers.2.2
    have hflag := henters.recovering
    rw [hrecovers, Bool.or_true] at hflag
    refine ⟨hnumbered, fun hc => ?_, ?_⟩
    · rcases List.mem_append.1 hc with hc | hc
      · exact henters.opened ▸ h.starting hc
      · cases List.mem_singleton.1 hc
    · have hnone := h.recovering
      rw [hfree] at hnone
      show (s.calls ++ [Call.recovering]).count .recovering = b.recovering.toNat
      rw [List.count_append, hnone, hflag]
      rfl

theorem Counted.start (h : s.Counted) (channels : Channels) (opening : Except IoFault Unit)
    (age : UInt64) : s.Goes (s.start channels opening age).2 := by
  obtain ⟨hrenews, hflag⟩ := renews_start h.numbered channels opening age
  have hbegins := begins_start s.beacon channels opening age
  have hstarting {newly k} (hc : Call.starting newly k ∈ s.calls) :=
    Nat.lt_of_lt_of_le (h.starting hc) hrenews.opened
  rw [Scene.start]
  generalize s.beacon.start channels opening age = result at hrenews hflag hbegins hstarting ⊢
  obtain ⟨started, b⟩ := result
  dsimp only at hrenews hflag hbegins hstarting ⊢
  have hsame := hflag ▸ h.recovering
  cases hbegins with
  | already => exact ⟨hrenews, hrenews.numbered, hstarting, hsame⟩
  | failed => exact ⟨hrenews, hrenews.numbered, hstarting, hsame⟩
  | begun => exact ⟨hrenews, hrenews.numbered, hstarting, hsame⟩
  | announcing hstill hsocket =>
    refine ⟨hrenews, hrenews.numbered, fun hc => ?_, ?_⟩
    · rcases List.mem_append.1 hc with hc | hc
      · exact hstarting hc
      · cases List.mem_singleton.1 hc
        exact hrenews.numbered.socket _ hsocket
    · rw [List.count_append]
      exact hsame

theorem Counted.stop (h : s.Counted) (channels : Channels) (age : UInt64) :
    s.Goes (s.stop channels age).2 := by
  obtain ⟨hrenews, hflag⟩ := renews_stop h.numbered channels age
  have hstarting {newly k} (hc : Call.starting newly k ∈ s.calls) :=
    Nat.lt_of_lt_of_le (h.starting hc) hrenews.opened
  rw [Scene.stop]
  generalize s.beacon.stop channels age = result at hrenews hflag hstarting ⊢
  obtain ⟨stopped, b⟩ := result
  dsimp only at hrenews hflag hstarting ⊢
  have hsame := hflag ▸ h.recovering
  cases stopped with
  | partly | idle | unannounced | leaving => exact ⟨hrenews, hrenews.numbered, hstarting, hsame⟩
  | announcing k datagram =>
    refine ⟨hrenews, hrenews.numbered, fun hc => ?_, ?_⟩
    · rcases List.mem_append.1 hc with hc | hc
      · exact hstarting hc
      · cases List.mem_singleton.1 hc
    · rw [List.count_append]
      exact hsame

theorem Counted.goOn (h : s.Counted) (place : Nat) (opening : Except IoFault Unit) :
    s.Goes (s.goOn place opening) := by
  rw [Scene.goOn]
  cases hplace : s.calls[place]? with
  | none => exact ⟨(Still.refl _).renews h.numbered, h⟩
  | some c =>
    have hleft := count_eraseIdx hplace .recovering
    cases c with
    | starting newly k =>
      have hk := h.starting (List.mem_of_getElem? hplace)
      have hrenews := renews_spawnLoops newly h.numbered hk
      refine ⟨hrenews, hrenews.numbered, fun hc => ?_, ?_⟩
      · exact Nat.lt_of_lt_of_le (h.starting (List.mem_of_mem_eraseIdx hc)) hrenews.opened
      · rw [if_neg (by rintro ⟨⟩), h.recovering] at hleft
        refine hleft.symm.trans ?_
        dsimp only [finishStart]
        rw [(counts_spawnLoops _ _ _).1]
    | stopping k =>
      rw [if_neg (by rintro ⟨⟩), h.recovering] at hleft
      exact ⟨(Still.refl _).renews h.numbered, h.numbered,
        fun hc => h.starting (List.mem_of_mem_eraseIdx hc), hleft.symm⟩
    | recovering =>
      obtain ⟨hrenews, hends⟩ := renews_attemptRecovery h.numbered opening
      have hstarting {newly k} (hc : Call.starting newly k ∈ s.calls) :=
        Nat.lt_of_lt_of_le (h.starting hc) hrenews.opened
      dsimp only
      generalize s.beacon.attemptRecovery opening = result at hrenews hends hstarting ⊢
      obtain ⟨recovery, b⟩ := result
      dsimp only at hrenews hends hstarting ⊢
      obtain ⟨⟨fault, rfl⟩, hflag⟩ | ⟨hnot, hflag⟩ := hends
      · exact ⟨hrenews, hrenews.numbered, hstarting, hflag ▸ h.recovering⟩
      · -- The recovery that ends is the only one.
        have hnone : (s.calls.eraseIdx place).count .recovering = 0 := by
          have hone := h.recovering
          rw [if_pos rfl] at hleft
          have hle := s.beacon.recovering.toNat_le
          omega
        have hends : s.Goes ⟨b, s.calls.eraseIdx place⟩ := by
          refine ⟨hrenews, hrenews.numbered, fun hc => hstarting (List.mem_of_mem_eraseIdx hc), ?_⟩
          rw [hflag]
          exact hnone
        cases recovery with
        | failed fault => exact absurd rfl (hnot fault)
        | recovered | abandoned => exact hends

/-- What a call does to the counts, and to the recoveries. -/
theorem Counted.goes (h : s.Counted) (hcall : ¬Rests m) : s.Goes (s.next m) := by
  cases m with
  | start channels opening age => exact h.start channels opening age
  | stop channels age => exact h.stop channels age
  | goOn place opening => exact h.goOn place opening
  | receive | beat | trigger | payload => exact absurd trivial hcall

theorem settings_next (s : Scene) (m : Move) :
    (s.next m).beacon.settings = s.beacon.settings := by
  have hspeaks := speaks_next s m
  generalize s.announced m = said at hspeaks
  cases hspeaks with
  | silent hspeaker => exact hspeaker.settings
  | announces hspeaker => exact hspeaker.settings

theorem Counted.next (h : s.Counted) (hbelow : s.Below) (m : Move) : (s.next m).Counted := by
  by_cases hrests : Rests m
  · obtain ⟨b, hrounds⟩ := rounds_next hrests hbelow
    exact h.rounds hrounds
  · exact (h.goes hrests).counted

/-- **Errors in a row.** What a move does to the count of a loop. -/
theorem errors_next (h : s.Counted) (hbelow : s.Below) (m : Move) (side : Side) :
    ((s.next m).beacon.errors side).toNat = if s.resets side m then 0
      else (s.beacon.errors side).toNat + if s.fails side m then 1 else 0 := by
  by_cases hrests : Rests m
  · obtain ⟨b, hrounds⟩ := rounds_next hrests hbelow
    have hbegins : s.begins side m = false :=
      hasBegun_of_loop_eq ((rests_next hrests s).1.loop side)
    rw [resets, hbegins, Bool.or_false, hrounds.next, beacon_awaiting]
    exact hrounds.errors side
  · have hfails : s.fails side m = false := by
      cases m with
      | start | stop | goOn => cases side <;> rfl
      | receive | beat | trigger | payload => exact absurd trivial hrests
    have hsucceeds : s.succeeds side m = false := by
      cases m with
      | start | stop | goOn => cases side <;> rfl
      | receive | beat | trigger | payload => exact absurd trivial hrests
    rw [(h.goes hrests).renews.errors side, resets, reaches, hfails, hsucceeds, ← begins]
    cases s.begins side m <;> rfl

/-- A recovery that begins is counted and in flight. -/
theorem recoveries_of_starts (h : s.Counted) (hbelow : s.Below) (hstarts : s.StartsRecovery m) :
    (s.next m).beacon.recoveries = s.beacon.recoveries + 1 ∧
      (s.next m).calls = s.calls ++ [.recovering] := by
  have hrecovers := (h.recovers_iff m).2 hstarts
  have hrests : Rests m := by
    cases m with
    | start | stop | goOn => cases hrecovers
    | receive | beat | trigger | payload => trivial
  obtain ⟨b, hrounds⟩ := rounds_next hrests hbelow
  have hrecoveries := hrounds.enters.recoveries
  rw [hrecovers] at hrecoveries
  rw [hrounds.next, hrecovers]
  exact ⟨hrecoveries, rfl⟩

theorem recoveries_of_not_starts (h : s.Counted) (hbelow : s.Below)
    (hnot : ¬s.StartsRecovery m) : (s.next m).beacon.recoveries = s.beacon.recoveries := by
  by_cases hrests : Rests m
  · obtain ⟨b, hrounds⟩ := rounds_next hrests hbelow
    have hrecoveries := hrounds.enters.recoveries
    rw [if_neg (mt (h.recovers_iff m).1 hnot), UInt32.add_zero] at hrecoveries
    rw [hrounds.next, beacon_awaiting, hrecoveries]
  · exact (h.goes hrests).renews.recoveries

theorem Below.next (hbelow : s.Below) (h : s.Counted)
    (hthreshold : 0 < s.beacon.settings.recoveryThreshold) (m : Move) : (s.next m).Below := by
  intro side
  have hside := hbelow side
  rw [UInt32.lt_iff_toNat_lt] at hthreshold hside
  rw [UInt32.lt_iff_toNat_lt, settings_next, errors_next h hbelow]
  cases hresets : s.resets side m with
  | true => exact hthreshold
  | false =>
    rw [if_neg Bool.false_ne_true]
    rw [resets, Bool.or_eq_false_iff, reaches, isDue] at hresets
    cases hfails : s.fails side m with
    | false => exact hside
    | true =>
      rw [hfails, Bool.true_and, beq_eq_false_iff_ne] at hresets
      have hnot := hresets.2
      simp only [if_true]
      omega

/-! ## Errors since the last reset -/

/-- The moves with which the count of a loop begins anew, one by one. -/
def resetsOf (side : Side) (s : Scene) (m : Move) : List Move :=
  if s.resets side m then [m] else []

/-- The errors of a loop, one by one. -/
def errorsOf (side : Side) (s : Scene) (m : Move) : List Move :=
  if s.fails side m then [m] else []

/-- The second part of a run is all that has happened since the count of a loop began anew. -/
structure SinceReset (side : Side) (s : Scene) (before after : List Move) : Prop where
  last : ∀ {earlier m}, before = earlier ++ [m] → (s.run earlier).resets side m = true
  none : along (resetsOf side) (s.run before) after = []

theorem along_append {α : Type} (f : Scene → Move → List α) (s : Scene) (before after : List Move) :
    along f s (before ++ after) = along f s before ++ along f (s.run before) after := by
  induction before generalizing s with
  | nil => rfl
  | cons m before ih =>
    rw [List.cons_append, along, along, ih, List.append_assoc]
    rfl

theorem run_append (s : Scene) (before after : List Move) :
    s.run (before ++ after) = (s.run before).run after :=
  List.foldl_append

/-- What holds of a beacon with a threshold after any run. -/
theorem counted_run {settings : Settings.Membership} (hthreshold : 0 < settings.recoveryThreshold)
    (self : Member) (roster : Roster) (moves : List Move) :
    (Scene.run ⟨{ settings, self, roster }, []⟩ moves).Counted ∧
      (Scene.run ⟨{ settings, self, roster }, []⟩ moves).Below ∧
      (Scene.run ⟨{ settings, self, roster }, []⟩ moves).beacon.settings = settings := by
  induction moves using List.reverseRecOn with
  | nil =>
    refine ⟨counted_fresh settings self roster, fun side => ?_, rfl⟩
    cases side <;> exact hthreshold
  | append_singleton moves m ih =>
    obtain ⟨hcounted, hbelow, hsettings⟩ := ih
    rw [run_concat]
    refine ⟨hcounted.next hbelow m, hbelow.next hcounted ?_ m, ?_⟩
    · rw [hsettings]
      exact hthreshold
    · rw [settings_next, hsettings]

/-- The count of a loop is the number of its errors since it began anew. -/
theorem exists_sinceReset {settings : Settings.Membership}
    (hthreshold : 0 < settings.recoveryThreshold) (self : Member) (roster : Roster)
    (moves : List Move) (side : Side) :
    ∃ before after, moves = before ++ after ∧
      SinceReset side ⟨{ settings, self, roster }, []⟩ before after ∧
      ((Scene.run ⟨{ settings, self, roster }, []⟩ moves).beacon.errors side).toNat =
        (along (errorsOf side) (Scene.run ⟨{ settings, self, roster }, []⟩ before)
          after).length := by
  induction moves using List.reverseRecOn with
  | nil => exact ⟨[], [], rfl, ⟨fun h => by simp at h, rfl⟩, by cases side <;> rfl⟩
  | append_singleton moves m ih =>
    obtain ⟨hcounted, hbelow, -⟩ := counted_run hthreshold self roster moves
    have hnext := errors_next hcounted hbelow m side
    rw [← run_concat] at hnext
    rw [hnext]
    cases hresets : (Scene.run ⟨{ settings, self, roster }, []⟩ moves).resets side m with
    | true =>
      refine ⟨moves ++ [m], [], (List.append_nil _).symm, ⟨fun h => ?_, rfl⟩, rfl⟩
      obtain ⟨rfl, hm⟩ := List.append_inj' h rfl
      cases hm
      exact hresets
    | false =>
      obtain ⟨before, after, rfl, hsince, hcount⟩ := ih
      rw [run_append] at hresets hcount ⊢
      refine ⟨before, after ++ [m], List.append_assoc _ _ _, ⟨hsince.last, ?_⟩, ?_⟩
      · rw [along_append, hsince.none]
        simp [along, resetsOf, hresets]
      · rw [along_append, List.length_append, hcount]
        simp only [along, errorsOf, Bool.false_eq_true, if_false, List.append_nil]
        split <;> rfl

/-- **Errors in a row make a recovery.** After any run of a beacon whose threshold is not zero, the
count of a loop is the number of its errors since it began anew, and is below the threshold. An error
with which it reaches the threshold calls for a recovery, and any other error is only counted. A move
begins one more recovery exactly if it calls for one while recoveries are enabled and none is in
flight, so that at most one ever is. -/
theorem recovers_on_errors_in_a_row (settings : Settings.Membership)
    (hthreshold : 0 < settings.recoveryThreshold) (self : Member) (roster : Roster)
    (moves : List Move) :
    let fresh : Scene := ⟨{ settings, self, roster }, []⟩
    let s := fresh.run moves
    (∀ side, ∃ before after, moves = before ++ after ∧ SinceReset side fresh before after ∧
      (s.beacon.errors side).toNat =
        (along (errorsOf side) (fresh.run before) after).length) ∧
    (∀ side, s.beacon.errors side < settings.recoveryThreshold) ∧
    (∀ side, s.beacon.recordError side =
      if (s.beacon.errors side).toNat + 1 = settings.recoveryThreshold.toNat then
        (s.beacon.withErrors side 0).triggerRecovery
      else (false, s.beacon.withErrors side (s.beacon.errors side + 1))) ∧
    (∀ m, s.StartsRecovery m → (s.next m).beacon.recoveries = s.beacon.recoveries + 1 ∧
      (s.next m).calls = s.calls ++ [.recovering]) ∧
    (∀ m, ¬s.StartsRecovery m → (s.next m).beacon.recoveries = s.beacon.recoveries) ∧
    s.calls.count .recovering ≤ 1 := by
  intro fresh s
  obtain ⟨hcounted, hbelow, hsettings⟩ := counted_run hthreshold self roster moves
  refine ⟨exists_sinceReset hthreshold self roster moves, fun side => ?_, fun side => ?_,
    fun m => recoveries_of_starts hcounted hbelow, fun m => recoveries_of_not_starts hcounted hbelow,
    ?_⟩
  · exact hsettings ▸ hbelow side
  · rw [← hsettings]
    split
    next hdue => exact recordError_of_reached hdue
    next hnot => exact recordError_of_not_reached (hbelow side) hnot
  · rw [hcounted.recovering]
    exact Bool.toNat_le _

/-- Two errors in a row are too many. The first is followed by a wait for a datagram that times out,
which neither counts nor resets; the second begins a recovery. While that one is in flight two errors
of the other loop begin none. -/
theorem recovers_on_errors_in_a_row_of_two :
    let settings : Settings.Membership := { recoveryThreshold := 2 }
    let fresh : Scene := ⟨{ settings, self := novice.self, roster := novice.roster }, []⟩
    let one : List Move := [.start .all (.ok ()) 0, .goOn 0 (.ok ()), .beat 1 false,
      .receive .timedOut 0 0]
    let more : List Move := one ++ [.beat 2 false, .receive .failed 3 3]
    0 < settings.recoveryThreshold ∧
      (fresh.run one).beacon.errors .send = 1 ∧
      (fresh.run one).StartsRecovery (.beat 2 false) ∧
      ((fresh.run one).next (.beat 2 false)).beacon.recoveries = 1 ∧
      (fresh.run more).callsForRecovery (.receive .failed 4 4) = true ∧
      ((fresh.run more).next (.receive .failed 4 4)).beacon.recoveries = 1 := by
  intro settings fresh one more
  have hthreshold : 0 < settings.recoveryThreshold := by decide
  have hstarts : (fresh.run one).StartsRecovery (.beat 2 false) := by
    unfold StartsRecovery
    decide +kernel
  have hnot : ¬(fresh.run more).StartsRecovery (.receive .failed 4 4) := by
    unfold StartsRecovery
    decide +kernel
  obtain ⟨-, -, -, hbegins, -, -⟩ :=
    recovers_on_errors_in_a_row settings hthreshold novice.self novice.roster one
  obtain ⟨-, -, -, -, hrests, -⟩ :=
    recovers_on_errors_in_a_row settings hthreshold novice.self novice.roster more
  have hzero : (fresh.run one).beacon.recoveries = 0 := by decide +kernel
  have hone : (fresh.run more).beacon.recoveries = 1 := by decide +kernel
  refine ⟨hthreshold, by decide +kernel, hstarts, ?_, by decide +kernel, ?_⟩
  · rw [(hbegins _ hstarts).1, hzero]
    rfl
  · rw [hrests _ hnot, hone]

end Scene

end PeerCluster.Beacon
