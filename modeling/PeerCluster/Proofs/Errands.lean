import PeerCluster.Proofs.Offices
import PeerCluster.Proofs.Visits

/-!
# A mailing among peers

**An errand** (`Errand`) is a mailing at work, with the pool and what has been asked of each peer. No
other mailing takes a step meanwhile. Every peer answers by what has been asked of it alone, and names
its connections itself (`Walks`).

**The invariant** (`Course`). Every delivery is at a stage of its own visit, and nobody else is
concerned: the other peers have been asked nothing, their couriers are as they were, and so is every
cell that is not of one of the couriers at work. A step keeps this because the deliveries go to
different peers, whose health is kept in different cells (`Course.walks`).
-/

namespace PeerCluster

open Mailing

/-! ## A mailing and all its peers -/

/-- A mailing at work, with the pool of couriers and what has been asked of each peer so far. -/
structure Errand where
  mailing : Mailing
  pool : CourierPool
  seen : MemberId → List Ask

namespace Errand

/-- A mailing begins, with all connections closed that have been given up. -/
def begin (pool : CourierPool) (fanOut : Settings.FanOut) (number : Nat) (members : List Member)
    (payload : ByteArray) (wait : Bool) (seen : MemberId → List Ask) : Errand :=
  let (mailing, pool) :=
    Mailing.begin { pool.closed with fanOut } number members payload wait
  ⟨mailing, pool, seen⟩

/-- One step of some delivery. Every peer answers by what has been asked of it alone, the clock may say
anything, and a connection that is given up is closed at once. -/
inductive Walks (peers : MemberId → Peer) : Errand → Errand → Prop
  | steps {s : Errand} {place : Nat} {d : Delivery} {phase : Phase} {pool : CourierPool} :
    s.mailing.deliveries[place]? = some d →
    s.mailing.moveAt s.pool place = .steps phase pool →
    Walks peers s ⟨s.mailing.withPhase place phase, pool.closed,
      tell s.seen d.member.id (pool.released.map .close)⟩
  | asks {s : Errand} {place : Nat} {d : Delivery} {q : Ask} {next : q.Answer → Phase} :
    s.mailing.deliveries[place]? = some d → s.mailing.moveAt s.pool place = .asks q next →
    q ≠ .clock →
    Walks peers s ⟨s.mailing.withPhase place (next (peers d.member.id (s.seen d.member.id) q)),
      s.pool, tell s.seen d.member.id [q]⟩
  | reads {s : Errand} {place : Nat} {d : Delivery} {next : Nat → Phase} (now : Nat) :
    s.mailing.deliveries[place]? = some d → s.mailing.moveAt s.pool place = .asks .clock next →
    Walks peers s ⟨s.mailing.withPhase place (next now), s.pool, s.seen⟩

/-- The delivery at a place of a mailing that begins. -/
def visit (s : Errand) (peers : MemberId → Peer) (place : Nat) (m : Member) : Visit :=
  let received := CourierPool.reception (s.pool.newcomer m) m (s.pool.deskOf? m.id)
  { ticket := ⟨s.mailing.number, place⟩
    member := m
    peer := peers m.id
    payload := s.mailing.payload
    wait := s.mailing.wait
    before := s.pool.view s.seen received.1.courier.cell m.id
    desk := received.1
    gone := received.2 }

end Errand

/-! ## A whole mailing -/

namespace Errand

variable {peers : MemberId → Peer} {s₀ s s' : Errand} {place : Nat} {o : Office}
  {p pool : CourierPool} {d : Delivery} {phase : Phase}

/-- What holds of a mailing that begins. -/
structure Begun (peers : MemberId → Peer) (s₀ : Errand) : Prop where
  atStart : s₀.mailing.atStart = s₀.mailing
  distinct : (s₀.mailing.deliveries.map fun d => d.member.id).Nodup
  released : s₀.pool.released = []
  posted : ∀ d ∈ s₀.mailing.deliveries, (s₀.pool.board.find? d.member.id).isSome
  /-- Nobody stands in line for the mailing yet. -/
  new : ∀ c, ∀ t ∈ s₀.pool.line c, t.mailing ≠ s₀.mailing.number
  /-- Every peer's health is kept in a cell of its own. -/
  apart : ∃ owner : HealthCell → MemberId, ∀ i d, s₀.mailing.deliveries[i]? = some d →
    owner (s₀.visit peers i d.member).cell = d.member.id

/-- How far a mailing is. -/
structure Course (o : Office) (peers : MemberId → Peer) (s₀ s : Errand) : Prop where
  sound : (o.put s.mailing.number (some s.mailing) s.pool).Sound
  atStart : s.mailing.atStart = s₀.mailing
  stages : ∀ i d, s.mailing.deliveries[i]? = some d →
    (s₀.visit peers i d.member).Stage d.phase
      (s.pool.view s.seen (s₀.visit peers i d.member).cell d.member.id)
  released : s.pool.released = []
  settings : s.pool.settings = s₀.pool.settings
  self : s.pool.self = s₀.pool.self
  posted : s.pool.board.posted = s₀.pool.board.posted
  size : s.pool.board.cells.size = s₀.pool.board.cells.size
  /-- The cells of everyone else hold what they held. -/
  cells : ∀ cell, (∀ i d, s₀.mailing.deliveries[i]? = some d →
      (s₀.visit peers i d.member).cell ≠ cell) →
    s.pool.board.read cell = s₀.pool.board.read cell
  others : ∀ id, (∀ d ∈ s₀.mailing.deliveries, d.member.id ≠ id) →
    s.pool.deskOf? id = s₀.pool.deskOf? id ∧ s.seen id = s₀.seen id

theorem Course.start (h : s₀.Begun peers)
    (hsound : (o.put s₀.mailing.number (some s₀.mailing) s₀.pool).Sound) :
    Course o peers s₀ s₀ where
  sound := hsound
  atStart := h.atStart
  stages i d hd := by
    have hphase : d.phase = .pending := by
      rw [← h.atStart, Mailing.atStart, List.getElem?_map, Option.map_eq_some_iff] at hd
      obtain ⟨d', -, rfl⟩ := hd
      rfl
    rw [hphase]
    exact .pending
  released := h.released
  settings := rfl
  self := rfl
  posted := rfl
  size := rfl
  cells _ _ := rfl
  others _ _ := ⟨rfl, rfl⟩

/-- The delivery at a place is the one that the mailing began with, further on. -/
theorem Course.began (h : Course o peers s₀ s) (hd : s.mailing.deliveries[place]? = some d) :
    ∃ d₀, s₀.mailing.deliveries[place]? = some d₀ ∧ d₀.member = d.member := by
  rw [← h.atStart, Mailing.atStart, List.getElem?_map, hd]
  exact ⟨_, rfl, rfl⟩

/-- A delivery that the mailing began with is still at its place. -/
theorem Course.further (h : Course o peers s₀ s) (hd : s₀.mailing.deliveries[place]? = some d) :
    ∃ phase, s.mailing.deliveries[place]? = some { d with phase } := by
  rw [← h.atStart, Mailing.atStart, List.getElem?_map, Option.map_eq_some_iff] at hd
  obtain ⟨d', hd', rfl⟩ := hd
  exact ⟨d'.phase, hd'⟩

theorem Course.number (h : Course o peers s₀ s) : s.mailing.number = s₀.mailing.number := by
  rw [← h.atStart]
  rfl

theorem Course.relies (h : Course o peers s₀ s) (hbegun : s₀.Begun peers)
    (hd : s.mailing.deliveries[place]? = some d) :
    (s₀.visit peers place d.member).Relies s.pool where
  coherent := h.sound.coherent
  released := h.released
  posted := by
    obtain ⟨d₀, hd₀, hmember⟩ := h.began hd
    have hposted := hbegun.posted d₀ (List.mem_of_getElem? hd₀)
    rw [hmember] at hposted
    rw [HealthBoard.find?, h.posted]
    exact hposted
  reception := by
    obtain ⟨d₀, hd₀, hmember⟩ := h.began hd
    obtain ⟨cell, hcell⟩ := Option.isSome_iff_exists.1
      (hbegun.posted d₀ (List.mem_of_getElem? hd₀))
    rw [hmember] at hcell
    have hcell' : s.pool.board.find? d.member.id = some cell := by
      rw [HealthBoard.find?, h.posted]
      exact hcell
    have hnewcomer : s.pool.newcomer d.member = s₀.pool.newcomer d.member := by
      rw [CourierPool.newcomer, CourierPool.newcomer, h.settings, h.self,
        HealthBoard.findOrPost, hcell', HealthBoard.findOrPost, hcell]
    show CourierPool.reception (s.pool.newcomer d.member) d.member _ = _
    rw [hnewcomer]
    rfl
  first := by
    intro hmem
    obtain ⟨desk, hdesk, ht⟩ := CourierPool.exists_of_mem_reception hmem
    obtain ⟨c, hline⟩ := CourierPool.exists_line_of_deskOf? hdesk
    exact hbegun.new c _ (hline ▸ ht) rfl

theorem move_of_moveAt {g : Mailing} {move : Move} (hd : g.deliveries[place]? = some d)
    (hmove : g.moveAt p place = move) (hwaits : move ≠ .waits) :
    d.move p ⟨g.number, place⟩ g.payload g.wait = move := by
  rw [moveAt, hd] at hmove
  dsimp only at hmove
  split at hmove
  · exact hmove
  · exact absurd hmove.symm hwaits

theorem closed_of_released (h : p.released = []) : p.closed = p := by
  rw [CourierPool.closed, ← h]

/-- A step of a mailing is one of some delivery, and touches the peer of that one only. -/
theorem Course.advances (h : Course o peers s₀ s) (hbegun : s₀.Begun peers)
    (hwalks : Walks peers s s') :
    ∃ place d phase pool, s.mailing.deliveries[place]? = some d ∧
      s.mailing.Goes s.pool place phase pool ∧
      s'.mailing = s.mailing.withPhase place phase ∧ s'.pool = pool.closed ∧
      (s₀.visit peers place d.member).Advances s.pool s.seen phase s'.pool s'.seen := by
  have hstart {place : Nat} {d : Delivery} {move : Move}
      (hd : s.mailing.deliveries[place]? = some d)
      (hmove : s.mailing.moveAt s.pool place = move) (hwaits : move ≠ .waits) :
      d.move s.pool (s₀.visit peers place d.member).ticket
        (s₀.visit peers place d.member).payload (s₀.visit peers place d.member).wait = move := by
    obtain ⟨hnumber, hpayload, hwait, -⟩ := Mailing.mk.inj h.atStart
    have hmove := move_of_moveAt hd hmove hwaits
    rw [hnumber, hpayload, hwait] at hmove
    exact hmove
  cases hwalks with
  | @steps place d phase pool hd hmove =>
    refine ⟨place, d, phase, pool, hd, .steps hmove, rfl, rfl, ?_⟩
    exact (h.stages place d hd).steps (h.relies hbegun hd) rfl (hstart hd hmove nofun)
  | @asks place d q next hd hmove hclock =>
    refine ⟨place, d, _, s.pool, hd, .asks _ hmove, rfl, (closed_of_released h.released).symm, ?_⟩
    obtain ⟨c, rest, hphase, rfl, hmark⟩ :=
      Visit.exists_served_of_asks (move_of_moveAt hd hmove nofun)
    have hstage := h.stages place d hd
    rw [hphase] at hstage
    exact hstage.asks (h.relies hbegun hd) hclock hmark
  | @reads place d next now hd hmove =>
    refine ⟨place, d, _, s.pool, hd, .asks now hmove, rfl, (closed_of_released h.released).symm, ?_⟩
    obtain ⟨c, rest, hphase, rfl, -⟩ :=
      Visit.exists_served_of_asks (move_of_moveAt hd hmove nofun)
    have hstage := h.stages place d hd
    rw [hphase] at hstage
    exact hstage.reads (h.relies hbegun hd) now

/-- Two deliveries of a mailing that are at different places go to different peers. -/
theorem Begun.id_ne {i : Nat} {d' : Delivery} (h : s₀.Begun peers)
    (hd : s₀.mailing.deliveries[place]? = some d) (hd' : s₀.mailing.deliveries[i]? = some d')
    (hne : i ≠ place) : d'.member.id ≠ d.member.id := by
  intro hid
  have hsame : (s₀.mailing.deliveries.map fun d => d.member.id)[i]? =
      (s₀.mailing.deliveries.map fun d => d.member.id)[place]? := by
    rw [List.getElem?_map, List.getElem?_map, hd, hd']
    exact congrArg some hid
  obtain ⟨hlt, -⟩ := List.getElem?_eq_some_iff.1 hd'
  refine hne ((List.getElem?_inj ?_ h.distinct).1 hsame)
  rw [List.length_map]
  exact hlt

theorem put_withPhase (o : Office) (g : Mailing) (p pool : CourierPool) (place : Nat)
    (phase : Phase) :
    (o.put g.number (some g) p).withPhase g place phase pool =
      o.put g.number (some (g.withPhase place phase)) pool := by
  rw [Office.withPhase, Office.put, Office.put, Function.update_idem]
  rfl

/-- A step of a mailing leaves it on its course. -/
theorem Course.walks (h : Course o peers s₀ s) (hbegun : s₀.Begun peers)
    (hwalks : Walks peers s s') : Course o peers s₀ s' := by
  obtain ⟨place, d, phase, pool, hd, hgoes, hmailing, hpool, htouches, hstage⟩ :=
    h.advances hbegun hwalks
  obtain ⟨d₀, hd₀, hmember⟩ := h.began hd
  obtain ⟨owner, howner⟩ := hbegun.apart
  obtain ⟨mailing', pool', seen'⟩ := s'
  obtain rfl : mailing' = s.mailing.withPhase place phase := hmailing
  have hcell {i : Nat} {m : Member} {d' : Delivery} (hi : s₀.mailing.deliveries[i]? = some d')
      (hm : d'.member = m) : owner (s₀.visit peers i m).cell = m.id := by
    rw [← hm]
    exact howner i d' hi
  constructor
  · have hsound := h.sound.goes (Office.mailing?_put_self ..) hgoes
    rw [put_withPhase] at hsound
    have hkeeps : pool.Rearranges pool.closed :=
      CourierPool.rearranges_of_desks hsound.coherent rfl rfl fun _ _ hc => hc
    exact (show pool' = pool.closed from hpool) ▸ hsound.keeps hkeeps.toKeeps
  · exact (atStart_withPhase ..).trans h.atStart
  · intro i d' hi
    rw [getElem?_withPhase] at hi
    split at hi
    next heq =>
      subst heq
      rw [hd] at hi
      cases hi
      exact hstage
    next hne =>
      -- Another delivery goes to another peer, whose health is kept in another cell.
      obtain ⟨d₁, hd₁, hmember'⟩ := h.began hi
      have hid := hbegun.id_ne hd₀ hd₁ (Ne.symm hne)
      rw [hmember, hmember'] at hid
      have hapart : (s₀.visit peers i d'.member).cell ≠ (s₀.visit peers place d.member).cell := by
        intro heq
        have howner := congrArg owner heq
        rw [hcell hd₁ hmember', hcell hd₀ hmember] at howner
        exact hid howner
      have hview := htouches.view h.sound.coherent hid hapart
      dsimp only at hview ⊢
      rw [hview]
      exact h.stages i d' hi
  · exact htouches.released
  · exact htouches.settings.trans h.settings
  · exact htouches.self.trans h.self
  · exact htouches.posted.trans h.posted
  · exact htouches.size.trans h.size
  · intro cell hothers
    have hne := hothers place d₀ hd₀
    rw [hmember] at hne
    exact (htouches.cells cell hne.symm).trans (h.cells cell hothers)
  · intro id hothers
    have hne := hothers d₀ (List.mem_of_getElem? hd₀)
    rw [hmember] at hne
    obtain ⟨hdesk, hseen⟩ := h.others id hothers
    exact ⟨(htouches.spares.deskOf? h.sound.coherent hne.symm).trans hdesk,
      (htouches.seen id hne.symm).trans hseen⟩

theorem Course.run (h : Course o peers s₀ s) (hbegun : s₀.Begun peers)
    (hrun : Relation.ReflTransGen (Walks peers) s s') : Course o peers s₀ s' := by
  induction hrun with
  | refl => exact h
  | tail _ hwalks ih => exact ih.walks hbegun hwalks

end Errand

end PeerCluster
