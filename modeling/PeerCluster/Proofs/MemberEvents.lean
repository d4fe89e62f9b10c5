import PeerCluster.Proofs.Hearing

/-!
# Events mirror the roster

A beacon reports who joins and who leaves. Whatever it takes in, in whatever order and whatever the
clock does, its reports about one peer are `joined`, `left`, `joined`, and so on, and the peer is on
the roster exactly while the latest of them is `joined`.

**Theorem (`events_mirror_roster`).** This holds of every run that begins with an empty roster, and
no report is about the local member.

The invariant behind it is a count. The reports about a peer are the first `n` turns of joining and
leaving, and the peer is known exactly if `n` is odd. Each intake adds the turn that changes
whether the peer is known, or none (`reports_take`).
-/

namespace PeerCluster.Beacon

open Heartbeat (Packet)

/-! ## Intakes -/

/-- What a beacon takes in. -/
inductive Intake where
  | datagram (bs : List UInt8) (now : Nat)
  | sweep (now : Nat)

/-- Takes one thing in: what is reported, and the beacon afterwards. -/
def take (b : Beacon) : Intake → List MemberEvent × Beacon
  | .datagram bs now => ((b.hear bs now).1.toList, (b.hear bs now).2)
  | .sweep now => b.expire now

/-- Takes things in, one after the other. -/
def takeAll (b : Beacon) : List Intake → List MemberEvent × Beacon
  | [] => ([], b)
  | i :: rest => ((b.take i).1 ++ ((b.take i).2.takeAll rest).1, ((b.take i).2.takeAll rest).2)

/-- What is reported about one peer. -/
def reportsOn (id : MemberId) (events : List MemberEvent) : List MemberEvent.Kind :=
  (events.filter fun e => e.member.id = id).map MemberEvent.kind

/-! ## Turns -/

/-- The turn with the given number: joining and leaving in alternation. -/
def turn (i : Nat) : MemberEvent.Kind :=
  if i % 2 = 0 then .joined else .left

/-- The report that a change of being known calls for. -/
def change (before after : Bool) : List MemberEvent.Kind :=
  match before, after with
  | false, true => [.joined]
  | true, false => [.left]
  | _, _ => []

theorem change_self (known : Bool) : change known known = [] := by
  cases known <;> rfl

/-! ## One intake -/

theorem contains_eq (r : Roster) (id : MemberId) : r.contains id = (r.peers.get? id).isSome :=
  rfl

theorem reportsOn_left (id : MemberId) (ms : List Member) :
    reportsOn id (ms.map .left) = (ms.filter fun m => m.id = id).map fun _ => .left := by
  rw [reportsOn, List.filter_map, List.map_map]
  rfl

theorem reports_expire {b : Beacon} (hkeyed : b.roster.Keyed) (id : MemberId) (now : Nat) :
    reportsOn id (b.expire now).1 =
      change (b.roster.contains id) ((b.expire now).2.roster.contains id) := by
  rw [contains_eq, contains_eq, get?_peers_expire]
  show reportsOn id ((b.roster.expire _ now).1.map .left) = _
  rw [reportsOn_left, Roster.filter_fst_expire hkeyed]
  cases b.roster.peers.get? id with
  | none => rfl
  | some e =>
    by_cases hold : e.isOlder b.settings.expirationMs.toNat now <;>
      simp [hold, change, Option.filter]

theorem reports_heed {b : Beacon} (hkeyed : b.roster.Keyed) (id : MemberId) (p : Packet)
    (now : Nat) :
    reportsOn id (b.heed p now).1.toList =
      change (b.roster.contains id) ((b.heed p now).2.roster.contains id) := by
  rw [heed, contains_eq, contains_eq]
  split
  · rw [Roster.get?_peers_remove, Roster.get?]
    cases hold : b.roster.peers.get? p.member.id with
    | none =>
      by_cases hid : id = p.member.id
      · simp [hid, hold, reportsOn, change]
      · simp [hid, reportsOn, change_self]
    | some e =>
      have hkey : e.member.id = p.member.id := hkeyed _ _ hold
      by_cases hid : id = p.member.id
      · simp [hid, hold, reportsOn, change, hkey, MemberEvent.left]
      · simp [hid, Ne.symm hid, reportsOn, change_self, hkey, MemberEvent.left]
  · rw [Roster.get?_peers_hear, Roster.fst_hear, contains_eq]
    by_cases hlocal : p.member.id = b.roster.localId
    · simp [hlocal, reportsOn, change_self]
    · by_cases hid : id = p.member.id
      · subst hid
        cases b.roster.peers.get? p.member.id <;>
          simp [hlocal, reportsOn, change, MemberEvent.joined]
      · cases b.roster.peers.get? p.member.id <;>
          simp [hlocal, hid, Ne.symm hid, reportsOn, change_self, MemberEvent.joined]

/-- An intake reports the change that it makes to a peer, and nothing else about it. -/
theorem reports_take {b : Beacon} (hkeyed : b.roster.Keyed) (id : MemberId) (i : Intake) :
    reportsOn id (b.take i).1 =
      change (b.roster.contains id) ((b.take i).2.roster.contains id) := by
  cases i with
  | sweep now => exact reports_expire hkeyed id now
  | datagram bs now =>
    simp only [take, hear_eq]
    cases b.heeded? bs with
    | none => exact (change_self _).symm
    | some p => exact reports_heed hkeyed id p now

/-! ## Runs -/

theorem self_take (b : Beacon) (i : Intake) : (b.take i).2.self = b.self := by
  cases i with
  | sweep now => rfl
  | datagram bs now => exact (sameStation_hear b bs now).self

theorem keyed_take {b : Beacon} (h : b.roster.Keyed) (i : Intake) :
    (b.take i).2.roster.Keyed := by
  cases i with
  | sweep now => exact h.expire _ _
  | datagram bs now =>
    simp only [take, hear_eq]
    cases b.heeded? bs with
    | none => exact h
    | some p =>
      simp only [Option.elim_some, heed]
      split
      · exact h.remove _
      · exact h.hear _ _

theorem reportsOn_append (id : MemberId) (es es' : List MemberEvent) :
    reportsOn id (es ++ es') = reportsOn id es ++ reportsOn id es' := by
  simp [reportsOn]

/-- A change of being known is the next turn, or none. -/
theorem change_eq_turn {before : Bool} (after : Bool) {k : Nat} (h : before = decide (k % 2 = 1)) :
    ∃ n, change before after = (List.range' k n).map turn ∧
      after = decide ((k + n) % 2 = 1) := by
  by_cases hodd : k % 2 = 1
  · obtain rfl : before = true := by simp [h, hodd]
    have heven : (k + 1) % 2 = 0 := by omega
    cases after with
    | true => exact ⟨0, rfl, by simp [hodd]⟩
    | false => exact ⟨1, by simp [change, turn, hodd], by simp [heven]⟩
  · obtain rfl : before = false := by simp [h, hodd]
    have heven : k % 2 = 0 := by omega
    have hnext : (k + 1) % 2 = 1 := by omega
    cases after with
    | false => exact ⟨0, rfl, by simp [heven]⟩
    | true => exact ⟨1, by simp [change, turn, heven], by simp [hnext]⟩

/-- The invariant of a run: the reports on a peer are the turns in order, and the peer is known
exactly after an odd number of them. -/
theorem reports_takeAll {b : Beacon} (hkeyed : b.roster.Keyed) (id : MemberId) {k : Nat}
    (hk : b.roster.contains id = decide (k % 2 = 1)) (inputs : List Intake) :
    ∃ n, reportsOn id (b.takeAll inputs).1 = (List.range' k n).map turn ∧
      (b.takeAll inputs).2.roster.contains id = decide ((k + n) % 2 = 1) := by
  induction inputs generalizing b k with
  | nil => exact ⟨0, rfl, hk⟩
  | cons i rest ih =>
    obtain ⟨n, hn, hafter⟩ := change_eq_turn ((b.take i).2.roster.contains id) hk
    obtain ⟨m, hm, hend⟩ := ih (keyed_take hkeyed i) hafter
    refine ⟨n + m, ?_, ?_⟩
    · rw [takeAll, reportsOn_append, reports_take hkeyed, hn, hm, ← List.map_append,
        List.range'_append_1]
    · rw [takeAll, hend, Nat.add_assoc]

theorem getLast?_turns (n : Nat) :
    ((List.range n).map turn).getLast? = some .joined ↔ n % 2 = 1 := by
  cases n with
  | zero => simp
  | succ n =>
    rw [List.range_succ, List.map_append, List.map_singleton, List.getLast?_concat]
    by_cases heven : n % 2 = 0
    · have hodd : (n + 1) % 2 = 1 := by omega
      simp [turn, heven, hodd]
    · have hnot : ¬ (n + 1) % 2 = 1 := by omega
      simp [turn, heven, hnot]

theorem not_contains_self_take {b : Beacon} (h : b.roster.contains b.self.id = false)
    (i : Intake) : (b.take i).2.roster.contains b.self.id = false := by
  rw [contains_eq, Option.isSome_eq_false_iff, Option.isNone_iff_eq_none] at h ⊢
  cases i with
  | sweep now =>
    show (b.expire now).2.roster.peers.get? b.self.id = none
    rw [get?_peers_expire, h]
    rfl
  | datagram bs now =>
    have hnot : (b.heeded? bs).filter (fun p => p.member.id = b.self.id) = none := by
      rw [Option.filter_eq_none_iff]
      intro p hp
      simpa using id_ne_of_heeded hp
    show (b.hear bs now).2.roster.peers.get? b.self.id = none
    rw [get?_peers_hear, hnot]
    exact h

theorem reportsOn_self_takeAll {b : Beacon} (hkeyed : b.roster.Keyed)
    (h : b.roster.contains b.self.id = false) (inputs : List Intake) :
    reportsOn b.self.id (b.takeAll inputs).1 = [] := by
  induction inputs generalizing b with
  | nil => rfl
  | cons i rest ih =>
    have hafter := not_contains_self_take h i
    have hrest := ih (keyed_take hkeyed i) (by rw [self_take]; exact hafter)
    rw [self_take] at hrest
    rw [takeAll, reportsOn_append, reports_take hkeyed, h, hafter, hrest]
    rfl

/-- **Events mirror the roster.** In every run from an empty roster, whatever is taken in and
whatever the clock does, the reports about a peer alternate between joining and leaving, the first
one being that it joined; the peer is on the roster exactly if the latest of them is that it joined;
and no report is about the local member. -/
theorem events_mirror_roster (b : Beacon) (hempty : b.roster.isEmpty) (inputs : List Intake) :
    (∀ id i kind, (reportsOn id (b.takeAll inputs).1)[i]? = some kind →
      kind = if i % 2 = 0 then .joined else .left) ∧
    (∀ id, (reportsOn id (b.takeAll inputs).1).getLast? = some .joined ↔
      (b.takeAll inputs).2.roster.contains id) ∧
    ∀ e ∈ (b.takeAll inputs).1, e.member.id ≠ b.self.id := by
  have hnone := Roster.get?_peers_of_isEmpty hempty
  have hkeyed : b.roster.Keyed := fun id e he => by simp [hnone] at he
  have hcount (id : MemberId) :
      ∃ n, reportsOn id (b.takeAll inputs).1 = (List.range n).map turn ∧
        (b.takeAll inputs).2.roster.contains id = decide (n % 2 = 1) := by
    obtain ⟨n, hn, hknown⟩ :=
      reports_takeAll hkeyed id (k := 0) (by simp [contains_eq, hnone]) inputs
    exact ⟨n, by rw [hn, List.range_eq_range'], by rw [hknown, Nat.zero_add]⟩
  refine ⟨fun id i kind h => ?_, fun id => ?_, fun e he hself => ?_⟩
  · obtain ⟨n, hn, -⟩ := hcount id
    rw [hn, List.getElem?_map, Option.map_eq_some_iff] at h
    obtain ⟨j, hj, rfl⟩ := h
    obtain rfl : i = j := by simpa using (List.getElem?_eq_some_iff.1 hj).2
    rfl
  · obtain ⟨n, hn, hknown⟩ := hcount id
    rw [hn, getLast?_turns, hknown, decide_eq_true_iff]
  · have hreports := reportsOn_self_takeAll hkeyed (by simp [contains_eq, hnone]) inputs
    have hmem : e ∈ (b.takeAll inputs).1.filter fun e => e.member.id = b.self.id :=
      List.mem_filter.2 ⟨he, by simpa using hself⟩
    rw [List.map_eq_nil_iff.1 hreports] at hmem
    cases hmem

/-- A peer that joins, falls silent, is heard again when the clock has gone back, and shuts down
twice. -/
theorem events_mirror_roster_of_comings_and_goings :
    let inputs : List Intake := [.datagram (beat .alive) 10, .sweep 3011,
      .datagram (beat .alive) 5, .datagram (beat .shutdown) 6, .datagram (beat .shutdown) 7]
    novice.roster.isEmpty ∧
      reportsOn ⟨2⟩ (novice.takeAll inputs).1 = [.joined, .left, .joined, .left] ∧
      ¬ (novice.takeAll inputs).2.roster.contains ⟨2⟩ := by
  intro inputs
  have hreports : reportsOn ⟨2⟩ (novice.takeAll inputs).1 = [.joined, .left, .joined, .left] := by
    decide +kernel
  refine ⟨rfl, hreports, fun hknown => ?_⟩
  have hlast := ((events_mirror_roster novice rfl inputs).2.1 ⟨2⟩).2 hknown
  rw [hreports] at hlast
  cases hlast

end PeerCluster.Beacon
