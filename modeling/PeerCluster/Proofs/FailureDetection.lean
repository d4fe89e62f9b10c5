import PeerCluster.Proofs.Hearing
import Mathlib.Data.List.Induction

/-!
# Failure detection is exact

The roster keeps one time for each peer. Over a run of the receive loop that time is a function of
everything that was heard: `latest?` picks the last heeded heartbeat of a peer out of a whole
history, and the roster knows exactly that.

**Theorem (`known_iff_latest_fresh`).** After every round of a receive loop that began with an empty
roster, a peer is known exactly if its latest heeded heartbeat was one of a living member and was
received no longer ago than peers may be silent; and it was last seen then.

So a peer whose heartbeats come often enough is known after every round, and one that falls silent
is gone after the first round that looks at the clock past the limit.

The proof is an induction over the rounds. A peer that was dropped has been silent for too long at
that time, and since the clock does not go back it still has been when it is looked at again; this
is the one place where the clock matters.
-/

namespace PeerCluster.Beacon

open Heartbeat (Packet)

/-! ## Rounds -/

/-- What decides a round of the receive loop. -/
structure Round where
  received : Received
  /-- The clock when the wait for a datagram ended. -/
  heardAt : Nat
  /-- The clock when silent peers were dropped. -/
  sweptAt : Nat

/-- The beacon after rounds of the receive loop. -/
def afterRounds (b : Beacon) (rounds : List Round) : Beacon :=
  rounds.foldl (fun b r => (b.receiveRound r.received r.heardAt r.sweptAt).2.2) b

/-- The readings of the clock, in order. -/
def readings (rounds : List Round) : List Nat :=
  rounds.flatMap fun r => [r.heardAt, r.sweptAt]

/-- The heeded heartbeat that a round brings from a peer, and when. -/
def Round.from? (b : Beacon) (id : MemberId) (r : Round) : Option (Packet × Nat) :=
  match r.received with
  | .datagram bs =>
    ((b.heeded? bs).filter fun p => p.member.id = id).map fun p => (p, r.heardAt)
  | .timedOut | .failed => none

/-- The latest heeded heartbeat of a peer, and when it was received. -/
def latest? (b : Beacon) (id : MemberId) (rounds : List Round) : Option (Packet × Nat) :=
  (rounds.filterMap fun r => r.from? b id).getLast?

theorem latest?_concat (b : Beacon) (id : MemberId) (rounds : List Round) (r : Round) :
    latest? b id (rounds ++ [r]) = (r.from? b id).or (latest? b id rounds) := by
  rw [latest?, List.filterMap_append]
  cases h : r.from? b id with
  | none => simp [h, latest?]
  | some found => simp [h]

/-! ## One round -/

theorem hear_withErrors (b : Beacon) (side : Side) (n : UInt32) (bs : List UInt8) (now : Nat) :
    (b.withErrors side n).hear bs now =
      ((b.hear bs now).1, (b.hear bs now).2.withErrors side n) := by
  rw [hear_eq, hear_eq]
  cases side with
  | send | receive =>
    show Option.elim (b.heeded? bs) _ _ = _
    cases b.heeded? bs with
    | none => rfl
    | some p => simp only [Option.elim_some, heed]; split <;> rfl

theorem heeded?_of_too_large {b : Beacon} {bs : List UInt8}
    (h : b.settings.maxPacketSize.toNat < bs.length) : b.heeded? bs = none := by
  rw [heeded?, Packet.decode, if_pos h]
  rfl

/-- Counting an error changes neither the station nor the roster. -/
theorem recordError_frame (b : Beacon) (side : Side) :
    SameStation b (b.recordError side).2 ∧ (b.recordError side).2.roster = b.roster := by
  rw [recordError]
  cases side with
  | send | receive =>
    split
    · rw [triggerRecovery]
      split <;> exact ⟨⟨rfl, rfl, rfl⟩, rfl⟩
    · exact ⟨⟨rfl, rfl, rfl⟩, rfl⟩

/-- A round keeps the station, and its roster is the one after the datagram, if there was one, and
after a look at the clock. -/
theorem receiveRound_frame (b : Beacon) (r : Received) (heardAt sweptAt : Nat) :
    SameStation b (b.receiveRound r heardAt sweptAt).2.2 ∧
      (b.receiveRound r heardAt sweptAt).2.2.roster =
        ((match r with
          | .datagram bs => (b.hear bs heardAt).2
          | .timedOut | .failed => b).expire sweptAt).2.roster := by
  cases r with
  | datagram bs =>
    by_cases hlarge : b.settings.maxPacketSize.toNat < bs.length
    · have hlarge' : (b.withErrors .receive 0).settings.maxPacketSize.toNat < bs.length := hlarge
      -- The loop drops what `hear` would refuse.
      simp only [receiveRound, if_pos hlarge', hear_eq, heeded?_of_too_large hlarge]
      exact ⟨⟨rfl, rfl, rfl⟩, rfl⟩
    · have hsmall : ¬ (b.withErrors .receive 0).settings.maxPacketSize.toNat < bs.length := hlarge
      simp only [receiveRound, if_neg hsmall, hear_withErrors]
      obtain ⟨hsettings, hself, hlocal⟩ := sameStation_hear b bs heardAt
      exact ⟨⟨hsettings, hself, hlocal⟩, rfl⟩
  | timedOut => exact ⟨⟨rfl, rfl, rfl⟩, rfl⟩
  | failed =>
    obtain ⟨⟨hsettings, hself, hlocal⟩, hroster⟩ := recordError_frame b .receive
    refine ⟨⟨hsettings, hself, hlocal⟩, ?_⟩
    show (Roster.expire (b.recordError .receive).2.roster
      (b.recordError .receive).2.settings.expirationMs.toNat sweptAt).2 = _
    rw [hroster, hsettings]
    rfl

/-! ## One peer -/

/-- When a peer counts as seen, given its latest heartbeat, the age that is allowed and the clock. -/
def seenAt? (maxAge now : Nat) : Option (Packet × Nat) → Option Nat
  | some (p, at_) => if p.command = .alive ∧ now - at_ ≤ maxAge then some at_ else none
  | none => none

theorem lastSeen?_hear {b : Beacon} (hlocal : b.roster.localId = b.self.id) (id : MemberId)
    (bs : List UInt8) (now : Nat) :
    (b.hear bs now).2.roster.lastSeen? id =
      match (b.heeded? bs).filter fun p => p.member.id = id with
      | none => b.roster.lastSeen? id
      | some p => if p.isShutdown then none else some now := by
  rw [Roster.lastSeen?, get?_peers_hear]
  cases hp : (b.heeded? bs).filter fun p => p.member.id = id with
  | none => rfl
  | some p =>
    obtain ⟨hheeded, hid⟩ := Option.filter_eq_some_iff.1 hp
    have hne : id ≠ b.roster.localId := by
      rw [hlocal, ← of_decide_eq_true hid]
      exact id_ne_of_heeded hheeded
    simp only [if_neg hne]
    split
    · rfl
    · cases b.roster.peers.get? id <;> rfl

theorem lastSeen?_expire (r : Roster) (maxAge now : Nat) (id : MemberId) :
    (r.expire maxAge now).2.lastSeen? id =
      (r.lastSeen? id).filter fun at_ => now - at_ ≤ maxAge := by
  rw [Roster.lastSeen?, Roster.get?_peers_expire, Roster.lastSeen?]
  cases r.peers.get? id with
  | none => rfl
  | some e =>
    by_cases hold : maxAge < now - e.lastSeen
    · have hnot : ¬ now - e.lastSeen ≤ maxAge := by omega
      simp [Roster.Entry.isOlder, hold, hnot, Option.filter]
    · have hle : now - e.lastSeen ≤ maxAge := by omega
      simp [Roster.Entry.isOlder, hold, hle, Option.filter]

/-- A look at a clock that has not gone back drops exactly the peers that no longer count as
seen. -/
theorem filter_seenAt? {maxAge before now : Nat} (h : before ≤ now)
    (latest : Option (Packet × Nat)) :
    (seenAt? maxAge before latest).filter (fun at_ => now - at_ ≤ maxAge) =
      seenAt? maxAge now latest := by
  match latest with
  | none => rfl
  | some (p, at_) =>
    simp only [seenAt?]
    by_cases halive : p.command = .alive
    · by_cases hfresh : now - at_ ≤ maxAge
      · have hbefore : before - at_ ≤ maxAge := by omega
        simp [halive, hfresh, hbefore, Option.filter]
      · by_cases hbefore : before - at_ ≤ maxAge <;>
          simp [halive, hfresh, hbefore, Option.filter]
    · simp [halive]

/-- One round moves the time of a peer from what its latest heartbeat said before to what it says
now, if the clock has not gone back since. -/
theorem lastSeen?_receiveRound {b : Beacon} (hlocal : b.roster.localId = b.self.id) (id : MemberId)
    (r : Round) {before : Nat} (hclock : before ≤ r.sweptAt) {latest : Option (Packet × Nat)}
    (h : b.roster.lastSeen? id = seenAt? b.settings.expirationMs.toNat before latest) :
    (b.receiveRound r.received r.heardAt r.sweptAt).2.2.roster.lastSeen? id =
      seenAt? b.settings.expirationMs.toNat r.sweptAt ((r.from? b id).or latest) := by
  rw [(receiveRound_frame b r.received r.heardAt r.sweptAt).2, expire, lastSeen?_expire]
  obtain ⟨received, heardAt, sweptAt⟩ := r
  cases received with
  | timedOut | failed =>
    show (b.roster.lastSeen? id).filter _ = _
    rw [h]
    exact filter_seenAt? hclock latest
  | datagram bs =>
    have hsettings := (sameStation_hear b bs heardAt).settings
    simp only [hsettings, lastSeen?_hear hlocal, Round.from?]
    cases (b.heeded? bs).filter fun p => p.member.id = id with
    | none =>
      simp only [h]
      exact filter_seenAt? hclock latest
    | some p =>
      obtain ⟨command, member⟩ := p
      cases command with
      | shutdown => rfl
      | alive =>
        by_cases hfresh : sweptAt - heardAt ≤ b.settings.expirationMs.toNat <;>
          simp [seenAt?, Packet.isShutdown, hfresh, Option.filter]

/-! ## Runs -/

theorem afterRounds_concat (b : Beacon) (rounds : List Round) (r : Round) :
    b.afterRounds (rounds ++ [r]) =
      ((b.afterRounds rounds).receiveRound r.received r.heardAt r.sweptAt).2.2 := by
  simp [afterRounds]

theorem sameStation_afterRounds (b : Beacon) (rounds : List Round) :
    SameStation b (b.afterRounds rounds) := by
  induction rounds using List.reverseRecOn with
  | nil => exact ⟨rfl, rfl, rfl⟩
  | append_singleton rounds r ih =>
    rw [afterRounds_concat]
    exact ih.trans (receiveRound_frame _ _ _ _).1

theorem SameStation.from? {b b' : Beacon} (h : SameStation b b') (id : MemberId) (r : Round) :
    r.from? b' id = r.from? b id := by
  rw [Round.from?, Round.from?]
  cases r.received with
  | datagram bs => simp only [h.heeded?]
  | timedOut | failed => rfl

/-- The clock at the end of the last round. -/
def clockAfter (rounds : List Round) : Nat :=
  (rounds.getLast?.map Round.sweptAt).getD 0

theorem clockAfter_le {rounds : List Round} {r : Round}
    (h : (readings (rounds ++ [r])).Pairwise (· ≤ ·)) : clockAfter rounds ≤ r.sweptAt := by
  rw [clockAfter]
  cases hlast : rounds.getLast? with
  | none => exact Nat.zero_le _
  | some last =>
    rw [readings, List.flatMap_append, List.pairwise_append] at h
    refine h.2.2 last.sweptAt ?_ r.sweptAt (by simp)
    exact List.mem_flatMap.2 ⟨last, List.mem_of_getLast? hlast, by simp⟩

/-- The invariant of the receive loop: the time that the roster keeps for a peer is what the latest
heeded heartbeat of the peer says. -/
theorem lastSeen?_afterRounds {b : Beacon} (hempty : b.roster.isEmpty)
    (hlocal : b.roster.localId = b.self.id) (id : MemberId) {rounds : List Round}
    (hclock : (readings rounds).Pairwise (· ≤ ·)) :
    (b.afterRounds rounds).roster.lastSeen? id =
      seenAt? b.settings.expirationMs.toNat (clockAfter rounds) (latest? b id rounds) := by
  induction rounds using List.reverseRecOn with
  | nil => exact congrArg _ (Roster.get?_peers_of_isEmpty hempty id)
  | append_singleton rounds r ih =>
    have hbefore : (readings rounds).Pairwise (· ≤ ·) := by
      rw [readings, List.flatMap_append, List.pairwise_append] at hclock
      exact hclock.1
    have hstation := sameStation_afterRounds b rounds
    have hstep := lastSeen?_receiveRound (b := b.afterRounds rounds)
      (by rw [hstation.localId, hlocal, hstation.self]) id r (clockAfter_le hclock)
      (by rw [hstation.settings]; exact ih hbefore)
    rw [hstation.settings, hstation.from?] at hstep
    rw [afterRounds_concat, hstep, latest?_concat]
    simp [clockAfter]

theorem seenAt?_eq_some_iff {maxAge now at_ : Nat} {latest : Option (Packet × Nat)} :
    seenAt? maxAge now latest = some at_ ↔
      ∃ p, latest = some (p, at_) ∧ p.command = .alive ∧ now - at_ ≤ maxAge := by
  match latest with
  | none => simp [seenAt?]
  | some (p, t) =>
    simp only [seenAt?]
    split
    · rename_i hfresh
      simp only [Option.some.injEq, Prod.mk.injEq]
      constructor
      · intro heq
        subst heq
        exact ⟨p, ⟨rfl, rfl⟩, hfresh⟩
      · intro h
        rcases h with ⟨_, ⟨_, rfl⟩, _⟩
        rfl
    · rename_i hstale
      simp only [reduceCtorEq, false_iff, Option.some.injEq, Prod.mk.injEq]
      intro h
      rcases h with ⟨_, ⟨rfl, rfl⟩, hfresh⟩
      exact hstale hfresh

/-- **Failure detection is exact.** After every round of the receive loop, a peer is known exactly if
its latest heeded heartbeat was one of a living member and was received no longer ago than peers may
be silent. The time kept for a known peer is when that heartbeat was received. -/
theorem known_iff_latest_fresh (b : Beacon) (rounds : List Round) (last : Round) (id : MemberId)
    (hempty : b.roster.isEmpty) (hlocal : b.roster.localId = b.self.id)
    (hclock : (readings (rounds ++ [last])).Pairwise (· ≤ ·)) :
    ((b.afterRounds (rounds ++ [last])).roster.contains id ↔
      ∃ p at_, latest? b id (rounds ++ [last]) = some (p, at_) ∧ p.command = .alive ∧
        last.sweptAt - at_ ≤ b.settings.expirationMs.toNat) ∧
    ∀ at_, (b.afterRounds (rounds ++ [last])).roster.lastSeen? id = some at_ →
      ∃ p, latest? b id (rounds ++ [last]) = some (p, at_) := by
  have hseen := lastSeen?_afterRounds hempty hlocal id hclock
  have hnow : clockAfter (rounds ++ [last]) = last.sweptAt := by simp [clockAfter]
  rw [hnow] at hseen
  constructor
  · rw [Roster.contains_iff_lastSeen?, hseen]
    simp only [seenAt?_eq_some_iff]
    exact exists_comm
  · intro at_ h
    rw [hseen, seenAt?_eq_some_iff] at h
    obtain ⟨p, hp, -⟩ := h
    exact ⟨p, hp⟩

/-- A peer that was heard once is known up to the last millisecond that it may be silent, and no
longer. -/
theorem known_until_the_limit :
    let heard : Round := ⟨.datagram (beat .alive), 10, 12⟩
    let inTime : Round := ⟨.timedOut, 3009, 3010⟩
    let late : Round := ⟨.failed, 3009, 3011⟩
    novice.roster.isEmpty ∧ novice.roster.localId = novice.self.id ∧
      (readings [heard, inTime]).Pairwise (· ≤ ·) ∧ (readings [heard, late]).Pairwise (· ≤ ·) ∧
      (novice.afterRounds [heard, inTime]).roster.contains ⟨2⟩ ∧
      ¬ (novice.afterRounds [heard, late]).roster.contains ⟨2⟩ := by
  intro heard inTime late
  have hinTime : (readings [heard, inTime]).Pairwise (· ≤ ·) := by decide
  have hlate : (readings [heard, late]).Pairwise (· ≤ ·) := by decide
  refine ⟨rfl, rfl, hinTime, hlate, ?_, fun hknown => ?_⟩
  · have hlatest : latest? novice ⟨2⟩ [heard, inTime] =
        some (⟨.alive, { id := ⟨2⟩, host := "10.0.0.2", port := 4000 }⟩, 10) := by
      decide +kernel
    exact (known_iff_latest_fresh novice [heard] inTime ⟨2⟩ rfl rfl hinTime).1.2
      ⟨_, _, hlatest, rfl, by decide⟩
  · have hlatest : latest? novice ⟨2⟩ [heard, late] =
        some (⟨.alive, { id := ⟨2⟩, host := "10.0.0.2", port := 4000 }⟩, 10) := by
      decide +kernel
    obtain ⟨p, at_, hp, -, hfresh⟩ :=
      (known_iff_latest_fresh novice [heard] late ⟨2⟩ rfl rfl hlate).1.1 hknown
    obtain ⟨rfl, rfl⟩ := Prod.mk.inj (Option.some.inj (hlatest.symm.trans hp))
    exact absurd hfresh (by decide)

end PeerCluster.Beacon
