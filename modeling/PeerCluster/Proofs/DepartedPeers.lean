import PeerCluster.Node
import PeerCluster.Proofs.Acquaintances
import PeerCluster.Proofs.ExchangeRuns
import PeerCluster.Proofs.FailureDetection
import PeerCluster.Proofs.MemberEvents

/-!
# Peers that have left

A node forgets a peer when it takes note that the peer has left. Until then the peer is still tracked
(`Tracks`): it is on the roster, or a change about it waits to be taken note of.

**The invariant** (`Minds`). The latest change that waits about a peer says whether the peer is on the
roster, and a line is only being delivered to peers that are tracked. Nobody takes note of a change
meanwhile, so a line makes nobody known who has been forgotten.

**Messages from the backlog.** They wait while changes are taken note of, and still name the peers
that lived when they were left there. So one may be sent to a peer that has been forgotten
(`SendsLate`), and then the node knows the peer again, for good.

**Theorem (`known_peers_live_or_late`).** There is no other way: when a node is settled, it knows only
peers that are on the roster and peers to whom a message from the backlog was sent late. A node without
a backlog knows only peers that are on the roster.
-/

namespace PeerCluster

open CourierPool

/-! ## Changes of the roster -/

namespace Beacon

/-- Two changes of being known, one after the other: either nothing is reported and nothing has
changed, or the latest report says whether the peer is known. -/
theorem change_append (before between after : Bool) :
    (change before between ++ change between after = [] ∧ after = before) ∨
      ∃ kind, (change before between ++ change between after).getLast? = some kind ∧
        (after = true ↔ kind = .joined) := by
  cases before <;> cases between <;> cases after <;> simp [change]

/-- What a round of the receive loop reports about a peer tells whether the peer is known then. -/
theorem receiveRound_spec {b : Beacon} (hkeyed : b.roster.Keyed) (r : Received)
    (heardAt sweptAt : Nat) :
    (b.receiveRound r heardAt sweptAt).2.2.roster.Keyed ∧
      ∀ id, ∃ between, reportsOn id (b.receiveRound r heardAt sweptAt).1 =
        change (b.roster.contains id) between ++
          change between ((b.receiveRound r heardAt sweptAt).2.2.roster.contains id) := by
  -- Whatever was heard, the look at the clock comes after it.
  have hsweep : ∀ (b₁ : Beacon) (events : List MemberEvent), b₁.roster.Keyed →
      (∀ id, reportsOn id events = change (b.roster.contains id) (b₁.roster.contains id)) →
      (b₁.expire sweptAt).2.roster.Keyed ∧
        ∀ id, ∃ between, reportsOn id (events ++ (b₁.expire sweptAt).1) =
          change (b.roster.contains id) between ++
            change between ((b₁.expire sweptAt).2.roster.contains id) := by
    intro b₁ events hkeyed₁ hevents
    refine ⟨hkeyed₁.expire _ _, fun id => ⟨b₁.roster.contains id, ?_⟩⟩
    rw [reportsOn_append, hevents, reports_expire hkeyed₁]
  have hquiet : ∀ b₁ : Beacon, b₁.roster = b.roster → b₁.roster.Keyed ∧
      ∀ id, reportsOn id [] = change (b.roster.contains id) (b₁.roster.contains id) := by
    intro b₁ hroster
    rw [hroster]
    exact ⟨hkeyed, fun id => (change_self _).symm⟩
  cases r with
  | timedOut => exact hsweep b [] hkeyed (hquiet b rfl).2
  | failed =>
    obtain ⟨hkeyed₁, hevents⟩ := hquiet _ (recordError_frame b .receive).2
    exact hsweep _ [] hkeyed₁ hevents
  | datagram bs =>
    have hcleared : (b.withErrors .receive 0).roster.Keyed := hkeyed
    by_cases hlarge : (b.withErrors .receive 0).settings.maxPacketSize.toNat < bs.length
    · simp only [receiveRound, if_pos hlarge]
      exact hsweep _ [] hcleared (hquiet _ rfl).2
    · simp only [receiveRound, if_neg hlarge]
      exact hsweep _ _ (keyed_take hcleared (.datagram bs heardAt))
        fun id => reports_take hcleared id (.datagram bs heardAt)

end Beacon

namespace Node

open Beacon (reportsOn)

variable {n n' : Node} {id : MemberId}

/-! ## Whom a node tracks -/

/-- Whether the node has a courier for a peer or holds its health. -/
def Knows (n : Node) (id : MemberId) : Prop :=
  n.pool.Knows id

instance (n : Node) (id : MemberId) : Decidable (n.Knows id) :=
  inferInstanceAs (Decidable (n.pool.Knows id))

/-- A peer is on the roster, or a change about it waits. -/
def Tracks (n : Node) (id : MemberId) : Prop :=
  n.beacon.roster.contains id ∨ reportsOn id n.changes ≠ []

/-- A message from the backlog is being sent to a peer that is not tracked any more. -/
def SendsLate (n : Node) (id : MemberId) : Prop :=
  ∃ g, n.queued = some g ∧ id ∈ g.ids ∧ ¬ n.Tracks id

/-- A node that has not heard, sent or noted anything. -/
structure IsFresh (n : Node) : Prop where
  roster : n.beacon.roster.isEmpty
  pool : ∀ id, ¬ n.Knows id
  changes : n.changes = []
  direct : n.direct = none
  queued : n.queued = none

/-- What holds of a node at any time. -/
structure Minds (n : Node) : Prop where
  keyed : n.beacon.roster.Keyed
  latest : ∀ id kind, (reportsOn id n.changes).getLast? = some kind →
    (n.beacon.roster.contains id = true ↔ kind = .joined)
  direct : ∀ g, n.direct = some g → ∀ id ∈ g.ids, n.Tracks id

theorem IsFresh.minds (h : n.IsFresh) : n.Minds where
  keyed := by
    intro id e he
    rw [Roster.get?_peers_of_isEmpty h.roster] at he
    cases he
  latest := by
    intro id kind hkind
    rw [h.changes] at hkind
    cases hkind
  direct := by
    intro g hg
    rw [h.direct] at hg
    cases hg

/-! ## Moves that change nothing about who lives -/

/-- The peers that a move has to do with: those of a mailing that was under way or is begun, and those
that live. -/
inductive Concerns (n n' : Node) (id : MemberId) : Prop
  | lives : n.beacon.roster.contains id → Concerns n n' id
  | direct {g : Mailing} : n.direct = some g → id ∈ g.ids → Concerns n n' id
  | queued {g : Mailing} : n.queued = some g → id ∈ g.ids → Concerns n n' id
  | begun {g : Mailing} : n'.queued = some g → id ∈ g.ids → Concerns n n' id

/-- A move after which the same peers live and the same changes wait. -/
structure SendsOnly (n n' : Node) : Prop where
  beacon : n'.beacon = n.beacon
  changes : n'.changes = n.changes
  knows : ∀ id, n'.Knows id → n.Knows id ∨ Concerns n n' id
  direct : ∀ g', n'.direct = some g' → ∀ id ∈ g'.ids,
    n.beacon.roster.contains id ∨ ∃ g, n.direct = some g ∧ id ∈ g.ids

theorem SendsOnly.refl (n : Node) : SendsOnly n n :=
  ⟨rfl, rfl, fun _ h => .inl h, fun g hg _ hid => .inr ⟨g, hg, hid⟩⟩

theorem SendsOnly.tracks (h : SendsOnly n n') : n'.Tracks id ↔ n.Tracks id := by
  rw [Tracks, Tracks, h.beacon, h.changes]

/-- Another mailing with the same peers is under way. -/
theorem sendsOnly_of_origin {origin : Origin} {g : Mailing} {pool : CourierPool}
    {g' : Option Mailing} (hg : n.mailing? origin = some g) (hmeets : Meets g.ids n.pool pool)
    (hids : ∀ h, g' = some h → h.ids = g.ids) :
    SendsOnly n ({ n with pool }.withMailing origin g') := by
  have hconcerns : ∀ id, id ∈ g.ids →
      Concerns n ({ n with pool }.withMailing origin g') id := by
    intro id hid
    cases origin with
    | line => exact .direct hg hid
    | backlog => exact .queued hg hid
  refine ⟨by cases origin <;> rfl, by cases origin <;> rfl, fun id hknows => ?_, fun h hh id hid => ?_⟩
  · have hpool : ({ n with pool }.withMailing origin g').pool = pool := by cases origin <;> rfl
    rw [Knows, hpool] at hknows
    exact (hmeets id hknows).imp_right (hconcerns id)
  · cases origin with
    | line => exact .inr ⟨g, hg, hids h hh ▸ hid⟩
    | backlog => exact .inr ⟨h, hh, hid⟩

/-- A delivery has to do with the peers of its mailing only. -/
theorem sendsOnly_delivers (n : Node) (origin : Origin) (place : Nat)
    (answer : (q : Ask) → q.Answer) : SendsOnly n (n.next (.delivers origin place answer)) := by
  rw [next, moveOf]
  cases hg : n.mailing? origin with
  | none => exact .refl n
  | some g =>
    have hgoes : ∀ {phase : Mailing.Phase} {pool : CourierPool}, g.Goes n.pool place phase pool →
        SendsOnly n ({ n with pool }.withPhase origin place phase) := by
      intro phase pool hgoes
      have hsame : ({ n with pool } : Node).mailing? origin = some g := by
        cases origin <;> exact hg
      rw [withPhase, hsame]
      refine sendsOnly_of_origin hg hgoes.meets fun h hh => ?_
      rw [← Option.some.inj hh]
      exact Mailing.ids_of_withPhase g place phase
    dsimp only
    cases hmove : g.moveAt n.pool place with
    | steps phase pool => exact hgoes (.steps hmove)
    | asks q next => exact hgoes (.asks (answer q) hmove)
    | waits | isOver => exact .refl n

/-- So has the report of a mailing. -/
theorem sendsOnly_reports (n : Node) (origin : Origin) :
    SendsOnly n (n.next (.reports origin)) := by
  rw [next, report]
  cases hg : n.mailing? origin with
  | none => exact .refl n
  | some g =>
    have hends : SendsOnly n ({ n with pool := (g.report n.pool).2 }.withMailing origin none) :=
      sendsOnly_of_origin hg (Mailing.meets_report n.pool g) nofun
    have hworker : ∀ worker,
        SendsOnly n { { n with pool := (g.report n.pool).2 }.withMailing origin none with worker } :=
      fun worker => ⟨hends.beacon, hends.changes,
        fun id hknows => (hends.knows id hknows).imp_right fun hconcerns => by
          cases hconcerns with
          | lives h => exact .lives h
          | direct h hid => exact .direct h hid
          | queued h hid => exact .queued h hid
          | begun h hid => exact .begun h hid,
        hends.direct⟩
    dsimp only
    split
    · cases origin with
      | line => cases (g.report n.pool).1 <;> exact hends
      | backlog => cases (g.report n.pool).1 <;> exact hworker _
    · exact .refl n

/-- Beginning a mailing makes at most those known whom it is for. -/
theorem knows_begin {origin : Origin} {m : PendingMessage} (h : (n.begin origin m).Knows id) :
    n.Knows id ∨ id ∈ m.destinations.map Member.id := by
  refine Mailing.meets_begin n.pool n.begun m.destinations m.payload m.wait id ?_
  cases origin <;> exact h

/-- A line is for the peers that live. -/
theorem sendsOnly_broadcasts (hkeyed : n.beacon.roster.Keyed) (line : ByteArray) :
    SendsOnly n (n.next (.broadcasts line)) := by
  have hlives : ∀ id ∈ n.beacon.roster.members.map Member.id,
      n.beacon.roster.contains id := by
    intro id hid
    rw [Roster.members, List.map_map, MemberMap.values, List.map_map] at hid
    obtain ⟨⟨key, e⟩, he, rfl⟩ := List.mem_map.1 hid
    have hfound := MemberMap.mem_entries.1 he
    have hkey : e.member.id = key := hkeyed key e hfound
    show (n.beacon.roster.peers.get? e.member.id).isSome
    rw [hkey, hfound]
    rfl
  rw [next]
  split
  · rw [broadcast]
    dsimp only
    split
    · exact .refl n
    · cases hworker : n.worker with
      | none =>
        refine ⟨rfl, rfl, fun id hknows => ?_, fun g hg id hid => ?_⟩
        · exact (knows_begin hknows).imp_right fun hid => .lives (hlives id hid)
        · obtain rfl := Option.some.inj hg
          exact .inl (hlives id (Mailing.mem_ids_begin.1 hid))
      | some w => exact ⟨rfl, rfl, fun _ h => .inl h, fun g hg _ hid => .inr ⟨g, hg, hid⟩⟩
  · exact .refl n

/-- The worker makes at most those known to whom it begins to send. -/
theorem sendsOnly_works (n : Node) : SendsOnly n (n.next .works) := by
  rw [next, work]
  split
  · exact ⟨rfl, rfl, fun _ h => .inl h, fun g hg _ hid => .inr ⟨g, hg, hid⟩⟩
  · rename_i m w _
    refine ⟨rfl, rfl, fun id hknows => ?_, fun g hg _ hid => .inr ⟨g, hg, hid⟩⟩
    have hbegun : (begin { n with worker := some w } .backlog m).Knows id := hknows
    exact (knows_begin hbegun).imp_right fun hid => .begun rfl (Mailing.mem_ids_begin.2 hid)
  · exact .refl n

/-! ## Whom the node knows after a move -/

theorem reportsOn_cons (id : MemberId) (e : MemberEvent) (rest : List MemberEvent) :
    reportsOn id (e :: rest) =
      if e.member.id = id then e.kind :: reportsOn id rest else reportsOn id rest := by
  by_cases hid : e.member.id = id <;> simp [reportsOn, hid]

/-- When nothing else waits about a peer that has joined, it is on the roster. -/
theorem Minds.tracks_of_joined {m : Member} {rest : List MemberEvent} (hminds : n.Minds)
    (hchanges : n.changes = ⟨.joined, m⟩ :: rest) :
    n.beacon.roster.contains m.id ∨ reportsOn m.id rest ≠ [] := by
  by_cases hrest : reportsOn m.id rest = []
  · have hlast : (reportsOn m.id n.changes).getLast? = some .joined := by
      rw [hchanges, reportsOn_cons, if_pos rfl, hrest]
      rfl
    exact .inl ((hminds.latest m.id _ hlast).2 rfl)
  · exact .inr hrest

/-- The pool when a change has been taken note of. -/
def noted (p : CourierPool) (e : MemberEvent) : CourierPool :=
  match e.kind with
  | .joined => p.add e.member
  | .left =>
    { (p.remove e.member.id).2 with board := ((p.remove e.member.id).2.board.take e.member.id).2 }

/-- A peer that has joined becomes known, one that has left is forgotten, and the others stay as they
are. -/
theorem knows_noted {p : CourierPool} {e : MemberEvent} (h : (noted p e).Knows id) :
    (e.kind = .joined ∧ e.member.id = id) ∨ (e.member.id ≠ id ∧ p.Knows id) := by
  obtain ⟨kind, m⟩ := e
  by_cases hid : m.id = id
  · cases kind with
    | joined => exact .inl ⟨rfl, hid⟩
    | left =>
      subst hid
      exact absurd h (not_knows_forget p m.id)
  · refine .inr ⟨hid, ?_⟩
    cases kind with
    | joined =>
      exact (meets_add p m id h).resolve_right fun hmem => hid (List.mem_singleton.1 hmem).symm
    | left => exact (meets_forget [] p m.id id h).resolve_right List.not_mem_nil

/-- Only a node that delivers no line takes note of a change. -/
theorem takesNote_cases (n : Node) :
    n.next .takesNote = n ∨ ∃ e rest, n.direct = none ∧ n.changes = e :: rest ∧
      n.next .takesNote = { n with changes := rest, pool := noted n.pool e } := by
  rw [next]
  by_cases hfree : n.isFree = true
  · rw [if_pos hfree]
    cases hchanges : n.changes with
    | nil =>
      rw [takeNote, hchanges]
      exact .inl rfl
    | cons e rest =>
      obtain ⟨kind, m⟩ := e
      refine .inr ⟨_, rest, Option.isNone_iff_eq_none.1 hfree, rfl, ?_⟩
      rw [takeNote, hchanges]
      cases kind <;> rfl
  · rw [if_neg hfree]
    exact .inl rfl

/-- A peer that is known after a change has been taken note of is tracked further. -/
theorem tracks_takesNote (hminds : n.Minds) (hknown : n.Knows id → n.Tracks id)
    (hknows : (n.next .takesNote).Knows id) : (n.next .takesNote).Tracks id := by
  rcases takesNote_cases n with hsame | ⟨⟨kind, m⟩, rest, -, hchanges, hnext⟩
  · rw [hsame] at hknows ⊢
    exact hknown hknows
  · rw [hnext] at hknows ⊢
    rcases knows_noted hknows with ⟨rfl, rfl⟩ | ⟨hid, hbefore⟩
    · exact hminds.tracks_of_joined hchanges
    · have htracks := hknown hbefore
      rw [Tracks, hchanges, reportsOn_cons, if_neg hid] at htracks
      exact htracks

theorem next_hears (n : Node) (r : Beacon.Received) (heardAt sweptAt : Nat) :
    n.next (.hears r heardAt sweptAt) =
      n.withChanges (n.beacon.receiveRound r heardAt sweptAt).1
        (n.beacon.receiveRound r heardAt sweptAt).2.2 :=
  rfl

/-- Whatever the beacon hears, nobody gets out of sight before a note of it has been taken. -/
theorem tracks_hears (hminds : n.Minds) (r : Beacon.Received) (heardAt sweptAt : Nat)
    (htracks : n.Tracks id) : (n.next (.hears r heardAt sweptAt)).Tracks id := by
  obtain ⟨between, hreports⟩ := (Beacon.receiveRound_spec hminds.keyed r heardAt sweptAt).2 id
  rw [next_hears, Tracks, withChanges, Beacon.reportsOn_append, hreports]
  rcases htracks with hlives | hwaits
  · rcases Beacon.change_append (n.beacon.roster.contains id) between
      ((n.beacon.receiveRound r heardAt sweptAt).2.2.roster.contains id) with
      ⟨-, hsame⟩ | ⟨kind, hkind, -⟩
    · exact .inl (hsame.trans hlives)
    · refine .inr fun hnil => ?_
      rw [(List.append_eq_nil_iff.1 hnil).2] at hkind
      cases hkind
  · exact .inr fun hnil => hwaits (List.append_eq_nil_iff.1 hnil).1

/-- Every other move only sends. -/
theorem next_cases (hkeyed : n.beacon.roster.Keyed) (move : Move) :
    SendsOnly n (n.next move) ∨ (∃ r heardAt sweptAt, move = .hears r heardAt sweptAt) ∨
      move = .takesNote := by
  cases move with
  | hears r heardAt sweptAt => exact .inr (.inl ⟨r, heardAt, sweptAt, rfl⟩)
  | takesNote => exact .inr (.inr rfl)
  | broadcasts line => exact .inl (sendsOnly_broadcasts hkeyed line)
  | delivers origin place answer => exact .inl (sendsOnly_delivers n origin place answer)
  | reports origin => exact .inl (sendsOnly_reports n origin)
  | works => exact .inl (sendsOnly_works n)
  | timesOut => exact .inl ⟨rfl, rfl, fun _ h => .inl h, fun g hg _ hid => .inr ⟨g, hg, hid⟩⟩
  | sweeps now =>
    exact .inl ⟨rfl, rfl,
      fun id hknows => .inl ((meets_sweep [] n.pool now id hknows).resolve_right List.not_mem_nil),
      fun g hg _ hid => .inr ⟨g, hg, hid⟩⟩

/-- Every move keeps the invariant. -/
theorem Minds.next (h : n.Minds) (move : Move) : (n.next move).Minds := by
  rcases next_cases h.keyed move with hsends | ⟨r, heardAt, sweptAt, rfl⟩ | rfl
  · refine ⟨hsends.beacon ▸ h.keyed, fun id kind hkind => ?_, fun g' hg' id hid => ?_⟩
    · rw [hsends.changes] at hkind
      rw [hsends.beacon]
      exact h.latest id kind hkind
    · rw [hsends.tracks]
      rcases hsends.direct g' hg' id hid with hlives | ⟨g, hg, hid⟩
      · exact .inl hlives
      · exact h.direct g hg id hid
  · have hspec := Beacon.receiveRound_spec h.keyed r heardAt sweptAt
    refine ⟨hspec.1, fun id kind hkind => ?_,
      fun g hg id hid => tracks_hears h r heardAt sweptAt (h.direct g hg id hid)⟩
    obtain ⟨between, hreports⟩ := hspec.2 id
    rw [next_hears, withChanges, Beacon.reportsOn_append, hreports] at hkind
    rcases Beacon.change_append (n.beacon.roster.contains id) between
      ((n.beacon.receiveRound r heardAt sweptAt).2.2.roster.contains id) with
      ⟨hnone, hsame⟩ | ⟨kind', hkind', hlives⟩
    · rw [hnone, List.append_nil] at hkind
      exact hsame ▸ h.latest id kind hkind
    · rw [List.getLast?_append, hkind'] at hkind
      obtain rfl := Option.some.inj hkind
      exact hlives
  · rcases takesNote_cases n with hsame | ⟨e, rest, hdirect, hchanges, hnext⟩
    · rw [hsame]
      exact h
    · rw [hnext]
      refine ⟨h.keyed, fun id kind hkind => h.latest id kind ?_, fun g hg => ?_⟩
      · rw [hchanges, reportsOn_cons]
        split
        · rw [List.getLast?_cons, hkind]
          rfl
        · exact hkind
      · have hnone : n.direct = some g := hg
        rw [hdirect] at hnone
        cases hnone

/-- A move makes nobody known who is not tracked, unless a message from the backlog is sent late. -/
theorem tracks_next (hminds : n.Minds) (hknown : n.Knows id → n.Tracks id) (move : Move)
    (hknows : (n.next move).Knows id) :
    (n.next move).Tracks id ∨ n.SendsLate id ∨ (n.next move).SendsLate id := by
  rcases next_cases hminds.keyed move with hsends | ⟨r, heardAt, sweptAt, rfl⟩ | rfl
  · rw [hsends.tracks]
    by_cases htracks : n.Tracks id
    · exact .inl htracks
    · refine .inr ?_
      rcases hsends.knows id hknows with hbefore | hconcerns
      · exact absurd (hknown hbefore) htracks
      · cases hconcerns with
        | lives hlives => exact absurd (.inl hlives) htracks
        | direct hg hid => exact absurd (hminds.direct _ hg id hid) htracks
        | queued hg hid => exact .inl ⟨_, hg, hid, htracks⟩
        | begun hg hid => exact .inr ⟨_, hg, hid, mt hsends.tracks.1 htracks⟩
  · exact .inl (tracks_hears hminds r heardAt sweptAt (hknown hknows))
  · exact .inl (tracks_takesNote hminds hknown hknows)

/-! ## Runs -/

/-- Whoever is known but not tracked was sent to late at some time of the run. -/
theorem tracks_run (hminds : n.Minds) (hknown : n.Knows id → n.Tracks id) (moves : List Move)
    (hknows : (n.run moves).Knows id) :
    (n.run moves).Tracks id ∨ ∃ before, before <+: moves ∧ (n.run before).SendsLate id := by
  induction moves generalizing n with
  | nil => exact .inl (hknown hknows)
  | cons move rest ih =>
    by_cases hafter : (n.next move).Knows id → (n.next move).Tracks id
    · rcases ih (hminds.next move) hafter hknows with htracks | ⟨before, hbefore, hlate⟩
      · exact .inl htracks
      · exact .inr ⟨move :: before, List.cons_prefix_cons.2 ⟨rfl, hbefore⟩, hlate⟩
    · obtain ⟨hknows', hnot⟩ := Classical.not_imp.1 hafter
      rcases (tracks_next hminds hknown move hknows').resolve_left hnot with hlate | hlate
      · exact .inr ⟨[], List.nil_prefix, hlate⟩
      · exact .inr ⟨[move], List.cons_prefix_cons.2 ⟨rfl, List.nil_prefix⟩, hlate⟩

/-- A node without a backlog never begins to send from one. -/
theorem queued_next (hworker : n.worker = none) (hqueued : n.queued = none) (move : Move) :
    (n.next move).worker = none ∧ (n.next move).queued = none := by
  have hnone : n.mailing? .backlog = none := hqueued
  cases move with
  | hears | sweeps => exact ⟨hworker, hqueued⟩
  | takesNote =>
    rcases takesNote_cases n with hsame | ⟨e, rest, -, -, hnext⟩
    · rw [hsame]
      exact ⟨hworker, hqueued⟩
    · rw [hnext]
      exact ⟨hworker, hqueued⟩
  | broadcasts line =>
    rw [next]
    split
    · rw [broadcast, hworker]
      dsimp only
      split
      · exact ⟨hworker, hqueued⟩
      · exact ⟨hworker, hqueued⟩
    · exact ⟨hworker, hqueued⟩
  | delivers origin place answer =>
    cases origin with
    | line =>
      rw [next]
      split <;> exact ⟨hworker, hqueued⟩
    | backlog =>
      rw [next, moveOf, hnone]
      exact ⟨hworker, hqueued⟩
  | reports origin =>
    cases origin with
    | line =>
      rw [next, report]
      cases n.mailing? .line with
      | none => exact ⟨hworker, hqueued⟩
      | some g =>
        dsimp only
        split
        · cases (g.report n.pool).1 <;> exact ⟨hworker, hqueued⟩
        · exact ⟨hworker, hqueued⟩
    | backlog =>
      rw [next, report, hnone]
      exact ⟨hworker, hqueued⟩
  | works =>
    rw [next, work, hworker]
    exact ⟨hworker, hqueued⟩
  | timesOut => exact ⟨by rw [next, hworker]; rfl, hqueued⟩

theorem queued_run (hworker : n.worker = none) (hqueued : n.queued = none) (moves : List Move) :
    (n.run moves).queued = none := by
  induction moves generalizing n with
  | nil => exact hqueued
  | cons move rest ih =>
    obtain ⟨hworker', hqueued'⟩ := queued_next hworker hqueued move
    exact ih hworker' hqueued'

/-- **Theorem.** A settled node knows only peers that are on the roster, but for those to whom a
message from the backlog was being sent, at some time of the run, when they had left and been
forgotten. So a node without a backlog knows only peers that are on the roster. -/
theorem known_peers_live_or_late {moves : List Move} (hfresh : n.IsFresh)
    (hsettled : (n.run moves).isSettled) (hknows : (n.run moves).Knows id) :
    (n.run moves).beacon.roster.contains id ∨
      n.worker.isSome ∧ ∃ before, before <+: moves ∧ (n.run before).SendsLate id := by
  have hnobody : n.Knows id → n.Tracks id := fun hknows => absurd hknows (hfresh.pool id)
  rcases tracks_run hfresh.minds hnobody moves hknows with htracks | ⟨before, hbefore, hlate⟩
  · refine .inl (htracks.resolve_right fun hwaits => hwaits ?_)
    have hchanges : (n.run moves).changes = [] := by
      simp only [isSettled, Bool.and_eq_true, List.isEmpty_iff] at hsettled
      exact hsettled.1.1.1
    rw [hchanges]
    rfl
  · refine .inr ⟨?_, before, hbefore, hlate⟩
    cases hworker : n.worker with
    | some w => rfl
    | none =>
      obtain ⟨g, hg, -⟩ := hlate
      rw [queued_run hworker hfresh.queued before] at hg
      cases hg

/-! ## A message that is sent late -/

/-- A node with a backlog that has not heard of anybody. -/
def novice : Node where
  beacon := .novice
  pool := { settings := {}, self := .of ⟨1⟩ "10.0.0.1" 4000 }
  worker := some { backlog := .empty 0 }

theorem isFresh_novice : novice.IsFresh :=
  ⟨rfl, fun _ h => h.elim nofun nofun, rfl, rfl, rfl⟩

/-- A peer joins, a line is left in the backlog for it, and the peer leaves again. The worker has taken
the message meanwhile, and sends it when the peer has been forgotten. -/
def lateMessage : List Move :=
  [.hears (.datagram (Beacon.beat .alive)) 0 0, .takesNote, .broadcasts "hello".toUTF8,
    .works, .works, .works, .hears (.datagram (Beacon.beat .shutdown)) 1 1, .takesNote, .works] ++
    List.replicate 10 (.delivers .backlog 0 Exchange.offline) ++ [.reports .backlog]

/-- The node then knows a peer that has left, though nothing is left to be done. -/
theorem late_message_revives_peer :
    ¬ ∀ (n : Node) (moves : List Move) (id : MemberId), n.IsFresh → (n.run moves).isSettled →
      (n.run moves).Knows id → (n.run moves).beacon.roster.contains id := by
  intro hall
  have hlives := hall novice lateMessage ⟨2⟩ isFresh_novice (by decide +kernel) (by decide +kernel)
  exact absurd hlives (by decide +kernel)

/-- The peer that is known at the end of this run was sent to late. -/
theorem known_peers_live_or_late_of_late_message :
    (novice.run lateMessage).Knows ⟨2⟩ ∧
      ∃ before, before <+: lateMessage ∧ (novice.run before).SendsLate ⟨2⟩ := by
  have hknows : (novice.run lateMessage).Knows ⟨2⟩ := by decide +kernel
  have hsettled : (novice.run lateMessage).isSettled := by decide +kernel
  have hgone : ¬ (novice.run lateMessage).beacon.roster.contains ⟨2⟩ := by decide +kernel
  exact ⟨hknows, ((known_peers_live_or_late isFresh_novice hsettled hknows).resolve_left hgone).2⟩

end Node

end PeerCluster
