import PeerCluster.Proofs.BoundedRetry
import PeerCluster.Proofs.HealthEpisodes
import PeerCluster.Proofs.HeldConnections

/-!
# Messages that do not fit into a frame

A courier refuses such a message before it asks anything of the world. The mailing still finds a courier
for every member, stands in line for it, and reports a failure like any other.

**The invariant** (`Refusing`). A delivery that is being served has nothing left to do but to hand the
refusal over, and the courier has the connection that it had when it was called. Others cannot have taken
it, since the delivery is in front of its line (`Works.held?_of_served`).

**Theorem (`unsendable_harms_no_peer`).** The mailing comes to its end. Then every member is reported with
the size of the message as the cause (`Declines.report`), and

* *connections*: none was opened or written on, and the only ones given up were held by couriers that have
  left the pool: a courier that was free and went to another address than the one that is listed has been
  replaced, or a courier had been taken out by others and was used for the last time;
* *health*: every peer on the board has the health that it had, unless others have changed it, but for
  listed peers that were suspect when the mailing began.

Both exceptions occur: a suspect peer is reported as failing like after any other failure, and a
connection to a former address is given up (`unsendable_may_harm`).
-/

namespace PeerCluster

open Relation (ReflTransGen)

namespace HealthBoard

variable {b b' b'' : HealthBoard} {id : MemberId}

/-- If a peer is on the board it stays there, in the same cell and with the same health. -/
def KeepsHealth (b b' : HealthBoard) (id : MemberId) : Prop :=
  ∀ cell, b.find? id = some cell → b'.find? id = some cell ∧ b'.read cell = b.read cell

theorem KeepsHealth.refl (b : HealthBoard) (id : MemberId) : b.KeepsHealth b id :=
  fun _ hcell => ⟨hcell, rfl⟩

theorem KeepsHealth.trans (h : b.KeepsHealth b' id) (h' : b'.KeepsHealth b'' id) :
    b.KeepsHealth b'' id := by
  intro cell hcell
  obtain ⟨hfind, hread⟩ := h cell hcell
  obtain ⟨hfind', hread'⟩ := h' cell hfind
  exact ⟨hfind', hread'.trans hread⟩

theorem KeepsHealth.health?_eq_some {health : Health} (h : b.KeepsHealth b' id)
    (hknown : b.health? id = some health) : b'.health? id = some health := by
  obtain ⟨cell, hcell, rfl⟩ := Option.map_eq_some_iff.1 hknown
  obtain ⟨hfind, hsame⟩ := h cell hcell
  rw [health?, hfind, Option.map_some, hsame]

theorem keepsHealth_of_uses (huses : ReflTransGen Uses b b')
    (hhealth : b'.healthOf id = b.healthOf id) : b.KeepsHealth b' id := by
  intro cell hcell
  have hcell' := remembers_of_uses huses id cell hcell
  rw [healthOf_of_find hcell, healthOf_of_find hcell'] at hhealth
  exact ⟨hcell', hhealth⟩

end HealthBoard

/-- Why a message that does not fit into a frame is refused. -/
def Courier.refusal (payload : ByteArray) : DeliveryError :=
  .wire (.tooLarge (Frame.headerSize + payload.size) Frame.maxSize)

theorem Courier.send_of_large (c : Courier) {payload : ByteArray}
    (hlarge : Frame.maxSize < Frame.headerSize + payload.size) (wait : Bool) :
    c.send payload wait = .done (.error (refusal payload), c) := by
  rw [send, Frame.checkSize, if_pos hlarge]
  rfl

/-! ## One delivery -/

namespace Mailing

open Courier (refusal)

variable {p p' pool : CourierPool} {t : Ticket} {payload : ByteArray} {wait : Bool} {m : Member}
  {phase before after : Phase}

/-- A delivery is refused, and its courier has what it had when it was called. -/
def Phase.Refused (payload : ByteArray) (p : CourierPool) : Phase → Prop
  | .pending | .assigned _ | .queued _ => True
  | .served c rest => ∃ courier : Courier,
    rest = .done (.error (refusal payload), courier) ∧ courier.link = p.held? c
  | .over result => result = .error (refusal payload)

theorem Phase.Refused.keeps (h : phase.Refused payload p)
    (hheld : ∀ c rest, phase = .served c rest → p'.held? c = p.held? c) :
    phase.Refused payload p' := by
  cases phase with
  | pending | assigned | queued => trivial
  | served c rest =>
    obtain ⟨courier, hrest, hlink⟩ := h
    exact ⟨courier, hrest, hlink.trans (hheld c rest rfl).symm⟩
  | «over» => exact h

theorem Turns.refused (h : Turns p t payload wait m before after pool)
    (hlarge : Frame.maxSize < Frame.headerSize + payload.size) (hbefore : before.Refused payload p) :
    after.Refused payload pool := by
  cases h with
  | assigns | joins => trivial
  | @calls c desk hdesk hhead =>
    exact ⟨desk.courier, desk.courier.send_of_large hlarge wait, (CourierPool.held?_of_desk hdesk).symm⟩
  | asks | marks =>
    obtain ⟨courier, hrest, -⟩ := hbefore
    cases hrest
  | ends =>
    obtain ⟨courier, hrest, -⟩ := hbefore
    cases hrest
    rfl

/-- A delivery that is refused asks nothing of the world. -/
theorem move_ne_asks {d : Delivery} (h : d.phase.Refused payload p) (q : Ask)
    (next : q.Answer → Phase) : d.move p t payload wait ≠ .asks q next := by
  intro hmove
  rw [Delivery.move] at hmove
  split at hmove <;> rename_i hphase
  · cases hmove
  · cases hmove
  · split at hmove
    · split at hmove <;> cases hmove
    · cases hmove
  · cases hmove
  · split at hmove <;> cases hmove
  · rw [hphase] at h
    obtain ⟨courier, hrest, -⟩ := h
    cases hrest
  · cases hmove

/-- Nobody's health changes, and no connection is opened, written on, or given up but one of a courier
that leaves the pool. -/
structure Harmless (m : Member) (p pool : CourierPool) : Prop where
  connections : p.Retains m pool
  health : ∀ id, p.board.KeepsHealth pool.board id

theorem Goes.harmless {g : Mailing} {place : Nat} {d : Delivery} (h : g.Goes p place phase pool)
    (hd : g.deliveries[place]? = some d) (hp : p.Coherent) (hfits : d.phase.FitsIn p d.member)
    (hrefused : d.phase.Refused payload p) : Harmless d.member p pool := by
  suffices hturns : p.Retains d.member pool ∧ ∀ id, pool.board.healthOf id = p.board.healthOf id from
    ⟨hturns.1, fun id => HealthBoard.keepsHealth_of_uses h.uses (hturns.2 id)⟩
  obtain ⟨-, hturns⟩ := h.turns_at hd
  generalize d.phase = before at hturns hfits hrefused
  cases hturns with
  | assigns =>
    exact ⟨CourierPool.retains_assign hp d.member, (CourierPool.assign_spec hp d.member).1.health⟩
  | joins c => exact ⟨.all rfl (CourierPool.held?_modify fun _ _ => rfl), fun _ => rfl⟩
  | calls => exact ⟨.all rfl rfl, fun _ => rfl⟩
  | asks | marks =>
    obtain ⟨courier, hrest, -⟩ := hrefused
    cases hrest
  | @ends c result courier =>
    obtain ⟨cell, hcell, -⟩ := hfits
    obtain ⟨courier', hrest, hlink⟩ := hrefused
    cases hrest
    refine ⟨CourierPool.retains_leave hcell hlink, fun id => ?_⟩
    rw [CourierPool.board_leave]

/-! ## The report -/

/-- If every delivery has failed for one cause, every member is reported with it. -/
theorem failures_of_refused {e : DeliveryError} {ds : List Delivery} (b : HealthBoard)
    (hall : ∀ d ∈ ds, d.cause? = some e) :
    (failures b ds).1.map Failure.member = ds.map Delivery.member ∧
      ∀ f ∈ (failures b ds).1, f.cause = e := by
  induction ds generalizing b with
  | nil => exact ⟨rfl, nofun⟩
  | cons d rest ih =>
    obtain ⟨hcause, hrest⟩ := List.forall_mem_cons.1 hall
    obtain ⟨hmembers, hcauses⟩ := ih (blame b d) hrest
    rw [failures_cons_of_some b rest hcause]
    exact ⟨congrArg (d.member :: ·) hmembers, List.forall_mem_cons.2 ⟨rfl, hcauses⟩⟩

end Mailing

/-! ## A mailing among others -/

namespace Office

open Mailing
open Courier (refusal)
open Exchange (Transcript)

variable {n : Nat} {o o' begun start : Office} {g g₀ : Mailing} {place : Nat} {phase : Phase}
  {pool : CourierPool} {members : List Member} {payload : ByteArray} {wait : Bool}
  {spared : MemberId → Prop}

/-- One step while a mailing is under way. Whoever else is at work leaves the mailing alone, and the
health of the spared peers. -/
inductive Passes (n : Nat) (spared : MemberId → Prop) : Office → Office → Prop
  | goes {o : Office} {g : Mailing} {place : Nat} {phase : Phase} {pool : CourierPool} :
    o.mailing? n = some g → g.Goes o.pool place phase pool →
      Passes n spared o (o.withPhase g place phase pool)
  | others {o o' : Office} : Works o o' → o'.mailing? n = o.mailing? n →
    (∀ id, spared id → o.pool.board.KeepsHealth o'.pool.board id) → Passes n spared o o'

theorem Passes.works (h : Passes n spared o o') : Works o o' := by
  cases h with
  | goes hg hgoes => exact .goes hg hgoes
  | others hworks => exact hworks

/-- Every step of the mailing itself leaves less of it to be done. -/
theorem Passes.left (hpasses : Passes n spared o o') (h : o.Sound) :
    o'.mailing? n = o.mailing? n ∨
      InvImage (Relation.CutExpand Follows) (fun g => g.elim 0 Mailing.left)
        (o'.mailing? n) (o.mailing? n) := by
  cases hpasses with
  | goes hg hgoes =>
    obtain rfl := h.numbers _ _ hg
    exact .inr (left_goes hg hgoes)
  | others _ hsame => exact .inl hsame

/-- What holds at any time of a mailing whose message does not fit into a frame. -/
structure Refusing (start : Office) (spared : MemberId → Prop) (g₀ : Mailing) (o : Office)
    (g : Mailing) : Prop where
  sound : o.Sound
  underWay : o.mailing? g.number = some g
  atStart : g.atStart = g₀
  large : Frame.maxSize < Frame.headerSize + g.payload.size
  refused : ∀ (i : Nat) (d : Mailing.Delivery), g.deliveries[i]? = some d →
    d.phase.Refused g.payload o.pool
  health : ∀ id, spared id → start.pool.board.KeepsHealth o.pool.board id

theorem Refusing.number (h : Refusing start spared g₀ o g) : g.number = g₀.number := by
  rw [← h.atStart]
  rfl

/-- The mailing itself does no harm. -/
theorem Refusing.harmless {d : Mailing.Delivery} (h : Refusing start spared g₀ o g)
    (hd : g.deliveries[place]? = some d) (hgoes : g.Goes o.pool place phase pool) :
    Harmless d.member o.pool pool :=
  hgoes.harmless hd h.sound.coherent (h.sound.fits _ d ((delivery?_eq h.underWay place).trans hd))
    (h.refused place d hd)

theorem Refusing.goes (h : Refusing start spared g₀ o g) (hgoes : g.Goes o.pool place phase pool) :
    Refusing start spared g₀ (o.withPhase g place phase pool) (g.withPhase place phase) := by
  obtain ⟨d, hd, -, hturns⟩ := hgoes.turns
  refine ⟨h.sound.goes h.underWay hgoes, mailing?_put_self .., (atStart_withPhase ..).trans h.atStart,
    h.large, fun i d' hd' => ?_,
    fun id hid => (h.health id hid).trans ((h.harmless hd hgoes).health id)⟩
  by_cases hi : place = i
  · subst hi
    rw [getElem?_withPhase_self hd] at hd'
    obtain rfl := Option.some.inj hd'
    exact hturns.refused h.large (h.refused place d hd)
  · rw [getElem?_withPhase, if_neg hi] at hd'
    -- The other deliveries that are being served are in front of other lines.
    have hdelivery : o.delivery? ⟨g.number, i⟩ = some d' := (delivery?_eq h.underWay i).trans hd'
    have hne : (⟨g.number, i⟩ : Ticket) ≠ ⟨g.number, place⟩ := by simpa using Ne.symm hi
    have hstays : (o.withPhase g place phase pool).delivery? ⟨g.number, i⟩ = some d' := by
      rw [delivery?_withPhase h.underWay hd, Function.update_of_ne hne]
      exact hdelivery
    refine (h.refused i d' hd').keeps fun c rest hphase => ?_
    exact (Works.goes h.underWay hgoes).held?_of_served h.sound hdelivery hphase hstays

theorem Refusing.others (h : Refusing start spared g₀ o g) (hworks : Works o o')
    (hsame : o'.mailing? g.number = o.mailing? g.number)
    (hspares : ∀ id, spared id → o.pool.board.KeepsHealth o'.pool.board id) :
    Refusing start spared g₀ o' g := by
  have hunderWay := hsame.trans h.underWay
  refine ⟨hworks.sound h.sound, hunderWay, h.atStart, h.large, fun i d hd => ?_,
    fun id hid => (h.health id hid).trans (hspares id hid)⟩
  refine (h.refused i d hd).keeps fun c rest hphase => ?_
  exact hworks.held?_of_served h.sound ((delivery?_eq h.underWay i).trans hd) hphase
    ((delivery?_eq hunderWay i).trans hd)

theorem Refusing.passes (h : Refusing start spared g₀ o g) (hpasses : Passes g.number spared o o') :
    ∃ g', Refusing start spared g₀ o' g' := by
  cases hpasses with
  | goes hg hgoes =>
    obtain rfl := Option.some.inj (h.underWay.symm.trans hg)
    exact ⟨_, h.goes hgoes⟩
  | others hworks hsame hspares => exact ⟨g, h.others hworks hsame hspares⟩

theorem refusing_later (hbegun : Refusing start spared g₀ begun g₀)
    (hpasses : ReflTransGen (Passes g₀.number spared) begun o) :
    ∃ g, Refusing start spared g₀ o g := by
  induction hpasses with
  | refl => exact ⟨g₀, hbegun⟩
  | tail _ hpass ih =>
    obtain ⟨g, hg⟩ := ih
    exact hg.passes (hg.number.symm ▸ hpass)

theorem refusing_begins (h : o.Sound) (hnew : o.mailing? n = none) (members : List Member)
    (hlarge : Frame.maxSize < Frame.headerSize + payload.size) (wait : Bool) :
    let g₀ : Mailing := ⟨n, payload, wait, o.pool.fanOut,
      (suspectsLast o.pool.board members).map (Delivery.to o.pool.board)⟩
    Refusing o spared g₀ (o.begins n members payload wait) g₀ := by
  intro g₀
  have haccount := account_begins h hnew members payload wait
  obtain ⟨hpool, hbegin⟩ := begin_spec h.coherent n members payload wait
  rw [hbegin] at haccount
  refine ⟨haccount.sound, haccount.underWay, haccount.atStart, hlarge, fun i d hd => ?_,
    fun id _ => HealthBoard.keepsHealth_of_uses (uses_snapshot _ members) (hpool.health id)⟩
  obtain ⟨m, -, rfl⟩ := List.mem_map.1 (List.mem_of_getElem? hd)
  trivial

/-! ## When it is over -/

/-- How a mailing ends whose message does not fit into a frame. -/
structure Declines (o : Office) (members : List Member) (payload : ByteArray)
    (spared : MemberId → Prop) (o' : Office) (g : Mailing) : Prop where
  /-- Every member is reported with the size of the message as the cause, those under suspicion last. -/
  report : ∃ fs, (g.report o'.pool).1 = .error (.faulty fs) ∧
    fs.map Failure.member = suspectsLast o.pool.board members ∧ ∀ f ∈ fs, f.cause = refusal payload
  /-- The report concerns no courier. -/
  couriers : (g.report o'.pool).2 = { o'.pool with board := (g.report o'.pool).2.board }
  /-- The report changes the health of nobody but listed peers that were under suspicion. -/
  reported : ∀ id, ((∃ m ∈ members, m.id = id) → o.pool.board.healthOf id = .ready) →
    o'.pool.board.KeepsHealth (g.report o'.pool).2.board id
  /-- Whom others have spared has the health that it had when the mailing began. That is not said of
  listed peers that were suspect. -/
  health : ∀ id, spared id → ((∃ m ∈ members, m.id = id) → o.pool.board.healthOf id ≠ .suspect) →
    o.pool.board.KeepsHealth (g.report o'.pool).2.board id

theorem Refusing.cause? (h : Refusing start spared g₀ o g) (hover : g.isOver = true)
    {d : Mailing.Delivery} (hd : d ∈ g.deliveries) : d.cause? = some (refusal g.payload) := by
  obtain ⟨i, hi⟩ := List.mem_iff_getElem?.1 hd
  have hrefused := h.refused i d hi
  have hdover := List.all_eq_true.1 hover d hd
  rw [Delivery.isOver] at hdover
  split at hdover
  next result hphase =>
    rw [hphase] at hrefused
    rw [cause?_eq_some, hphase]
    exact congrArg Phase.over hrefused
  next => cases hdover

/-- The report blames those who were listed and under suspicion. -/
theorem Refusing.blames_iff (h : Refusing start spared ⟨n, payload, wait, o.pool.fanOut,
      (suspectsLast o.pool.board members).map (Delivery.to o.pool.board)⟩ o' g)
    (hover : g.isOver = true) (id : MemberId) :
    g.blames id = true ↔
      (∃ m ∈ members, m.id = id) ∧ (o.pool.board.healthOf id).isSuspect = true := by
  obtain ⟨hmembers, hsuspect⟩ := members_of_atStart h.atStart
  rw [Mailing.blames_iff]
  constructor
  · intro hall
    rcases hall with ⟨d, hd, rfl, hwas, -⟩
    have hmem : d.member ∈ suspectsLast o.pool.board members :=
      hmembers ▸ List.mem_map_of_mem hd
    exact ⟨⟨d.member, (suspectsLast_perm _ members).mem_iff.1 hmem, rfl⟩, hsuspect d hd ▸ hwas⟩
  · intro hall
    rcases hall with ⟨⟨m, hm, rfl⟩, hwas⟩
    obtain ⟨d, hd, rfl⟩ := List.mem_map.1
      (hmembers ▸ (suspectsLast_perm o.pool.board members).mem_iff.2 hm)
    exact ⟨d, hd, rfl, (hsuspect d hd).trans hwas, by rw [h.cause? hover hd]; rfl⟩

theorem Refusing.declines (h : Refusing o spared ⟨n, payload, wait, o.pool.fanOut,
      (suspectsLast o.pool.board members).map (Delivery.to o.pool.board)⟩ o' g)
    (hsome : members ≠ []) (hover : g.isOver = true) :
    Declines o members payload spared o' g := by
  obtain ⟨hmembers, -⟩ := members_of_atStart h.atStart
  obtain ⟨-, hpayload, -⟩ := Mailing.mk.inj h.atStart
  have huses := uses_failures o'.pool.board g.deliveries
  have hhealth := healthOf_report h.sound.coherent g
  have hblames := h.blames_iff hover
  refine ⟨?_, rfl, fun id hready => ?_, fun id hspared hnot cell hcell => ?_⟩
  · obtain ⟨hnames, hcauses⟩ := failures_of_refused o'.pool.board fun d hd => h.cause? hover hd
    rw [hmembers] at hnames
    refine ⟨(failures o'.pool.board g.deliveries).1, ?_, hnames, fun f hf =>
      (hcauses f hf).trans (congrArg refusal hpayload)⟩
    -- Somebody is named.
    have hne : (failures o'.pool.board g.deliveries).1 ≠ [] := by
      intro hnil
      rw [hnil] at hnames
      have hperm := suspectsLast_perm o.pool.board members
      rw [← hnames] at hperm
      exact hsome hperm.symm.eq_nil
    show (if _ then _ else _) = _
    rw [if_neg (by rwa [List.isEmpty_iff])]
  · refine HealthBoard.keepsHealth_of_uses huses ((hhealth id).trans (if_neg ?_))
    rw [hblames]
    rintro ⟨hlisted, hwas⟩
    rw [hready hlisted] at hwas
    cases hwas
  · obtain ⟨hcell', hread⟩ := h.health id hspared cell hcell
    have hkept : (g.report o'.pool).2.board.healthOf id = o'.pool.board.healthOf id := by
      rw [hhealth]
      split
      next hblamed =>
        -- It was failing, and still is.
        obtain ⟨hlisted, hwas⟩ := (hblames id).1 hblamed
        have hnot := hnot hlisted
        rw [HealthBoard.healthOf_of_find hcell', hread, ← HealthBoard.healthOf_of_find hcell]
        generalize o.pool.board.healthOf id = was at hwas hnot
        cases was with
        | failing => rfl
        | ready => cases hwas
        | suspect => exact absurd rfl hnot
      next => rfl
    obtain ⟨hfind, hsame⟩ := HealthBoard.keepsHealth_of_uses huses hkept cell hcell'
    exact ⟨hfind, hsame.trans hread⟩

/-- **Theorem.** A message that does not fit into a frame is sent to some members, whatever else is under
way. The mailing takes only so many steps, is never stuck and can be brought to its end. It asks nothing
of the world, no connection is opened, and none is given up but by couriers that leave the pool. In the
end every member is reported, and every peer on the board has the health that it had, if others have
spared it, and unless it was listed and suspect. -/
theorem unsendable_harms_no_peer (h : o.Reached) (hnew : o.mailing? n = none)
    (hsome : members ≠ []) (hlarge : Frame.maxSize < Frame.headerSize + payload.size) (wait : Bool)
    (spared : MemberId → Prop) :
    ((o.begins n members payload wait).pool =
      { o.pool with board := (o.begins n members payload wait).pool.board } ∧
      ∀ id, o.pool.board.KeepsHealth (o.begins n members payload wait).pool.board id) ∧
    (∀ f : Nat → Office, f 0 = o.begins n members payload wait →
      (∀ k, Passes n spared (f k) (f (k + 1))) →
      ∃ k, ∀ j ≥ k, (f j).mailing? n = (f k).mailing? n) ∧
    ∀ o', ReflTransGen (Passes n spared) (o.begins n members payload wait) o' →
      ∃ g, o'.mailing? n = some g ∧
        (g.isOver = false → o'.Proceeds g) ∧
        (∃ o'' g', ReflTransGen (Advances n) o' o'' ∧ o''.mailing? n = some g' ∧
          g'.isOver = true) ∧
        (∀ place q next, g.moveAt o'.pool place ≠ .asks q next) ∧
        (∀ place phase pool, g.Goes o'.pool place phase pool →
          ∃ m ∈ members, Harmless m o'.pool pool) ∧
        (g.isOver = true → Declines o members payload spared o' g) := by
  have hsound := h.sound
  obtain ⟨hpool, -⟩ := begin_spec hsound.coherent n members payload wait
  have hbegun : Refusing o spared _ _ _ := refusing_begins hsound hnew members hlarge wait
  refine ⟨⟨rfl, fun id => HealthBoard.keepsHealth_of_uses (uses_snapshot _ members) (hpool.health id)⟩,
    fun f hf hpasses => ?_, fun o' hpasses => ?_⟩
  · have hsounds : ∀ k, (f k).Sound := by
      intro k
      induction k with
      | zero => exact hf ▸ hbegun.sound
      | succ k ih => exact (hpasses k).works.sound ih
    exact exists_still_of_left fun k => (hpasses k).left (hsounds k)
  · obtain ⟨g, hrefusing⟩ := refusing_later hbegun hpasses
    obtain ⟨hmembers, -⟩ := members_of_atStart hrefusing.atStart
    have hnumber : g.number = n := hrefusing.number
    have hg : o'.mailing? n = some g := hnumber ▸ hrefusing.underWay
    refine ⟨g, hg, hrefusing.sound.proceeds hg, hrefusing.sound.advances_to_end hg,
      fun place q next hmove => ?_, fun place phase pool hgoes => ?_, hrefusing.declines hsome⟩
    · obtain ⟨d, hd, -, hmove⟩ := exists_move hmove nofun nofun
      exact move_ne_asks (hrefusing.refused place d hd) q next hmove
    · obtain ⟨d, hd, -, -⟩ := hgoes.turns
      have hmem : d.member ∈ suspectsLast o.pool.board members :=
        hmembers ▸ List.mem_map_of_mem (List.mem_of_getElem? hd)
      exact ⟨d.member, (suspectsLast_perm _ members).mem_iff.1 hmem, hrefusing.harmless hd hgoes⟩

/-! ## Two exceptions -/

/-- A message that does not fit into a frame. -/
def oversized : ByteArray :=
  ⟨Array.replicate Frame.maxSize 0⟩

theorem large_oversized : Frame.maxSize < Frame.headerSize + oversized.size := by
  have hsize : oversized.size = Frame.maxSize := Array.size_replicate
  rw [hsize]
  exact Nat.lt_add_of_pos_left (by decide)

/-- Where no other mailing is under way, only the deliveries of this one go on. -/
theorem passes_of_advances (hadvances : ReflTransGen (Advances n) o o') (h : o.Sound)
    (halone : ∀ n' ≠ n, o.mailing? n' = none) : ReflTransGen (Passes n spared) o o' := by
  suffices hall : ReflTransGen (Passes n spared) o o' ∧ o'.Sound ∧ ∀ n' ≠ n, o'.mailing? n' = none
    from hall.1
  induction hadvances with
  | refl => exact ⟨.refl, h, halone⟩
  | tail _ hadvance ih =>
    obtain ⟨hpasses, hsound, halone⟩ := ih
    have hsound' := hadvance.works.sound hsound
    cases hadvance with
    | goes hg hgoes =>
      obtain rfl := hsound.numbers _ _ hg
      exact ⟨hpasses.tail (.goes hg hgoes), hsound',
        fun n' hn => (mailing?_put_of_ne _ _ _ hn).trans (halone n' hn)⟩
    | clears _ _ _ _ ht hg' =>
      rw [halone _ ht] at hg'
      cases hg'

/-- Where nothing else is under way, the mailing comes to its end alone. -/
theorem exists_refused (h : o.Reached) (halone : ∀ n', o.mailing? n' = none)
    (hlarge : Frame.maxSize < Frame.headerSize + payload.size) (n : Nat) (members : List Member)
    (wait : Bool) : ∃ o' g, ReflTransGen (Passes n spared) (o.begins n members payload wait) o' ∧
      o'.mailing? n = some g ∧ g.isOver = true ∧
      Refusing o spared ⟨n, payload, wait, o.pool.fanOut,
        (suspectsLast o.pool.board members).map (Delivery.to o.pool.board)⟩ o' g := by
  have hbegun : Refusing o spared _ _ _ := refusing_begins h.sound (halone n) members hlarge wait
  obtain ⟨o', g, hadvances, hg, hover⟩ := hbegun.sound.advances_to_end hbegun.underWay
  have hpasses : ReflTransGen (Passes n spared) (o.begins n members payload wait) o' :=
    passes_of_advances hadvances hbegun.sound fun n' hn =>
      (mailing?_put_of_ne _ _ _ hn).trans (halone n')
  obtain ⟨g', hrefusing⟩ := refusing_later hbegun hpasses
  have hnumber : g'.number = n := hrefusing.number
  obtain rfl := Option.some.inj (hg.symm.trans (hnumber ▸ hrefusing.underWay))
  exact ⟨o', g, hpasses, hg, hover, hrefusing⟩

/-- A member. -/
def doubted : Member := { id := ⟨2⟩, host := "10.0.0.2", port := 4000 }

/-- Another member. -/
def trusted : Member := { id := ⟨3⟩, host := "10.0.0.3", port := 4000 }

/-- An office in which the first member is suspect and nothing is under way. -/
def suspecting : Office where
  pool := { settings := {}, self := .of ⟨1⟩ "10.0.0.1" 4000,
            board := (({} : HealthBoard).findOrPost doubted.id).2.mark ⟨0⟩ .suspect }

theorem reached_suspecting : suspecting.Reached :=
  ⟨_, _, _, .tail (.tail .refl (.looksUp _ doubted.id)) (.marks _ ⟨0⟩ .suspect)⟩

/-- A third member. -/
def spurned : Member := { id := ⟨4⟩, host := "10.0.0.4", port := 4000 }

/-- An office that knows all three of them, the first as suspect, the second as ready and the third as
failing, and in which nothing is under way. -/
def acquainted : Office where
  pool := { suspecting.pool with
    board := ((suspecting.pool.board.findOrPost trusted.id).2.findOrPost spurned.id).2.mark ⟨2⟩ .failing }

theorem reached_acquainted : acquainted.Reached := by
  obtain ⟨settings, fanOut, self, hworks⟩ := reached_suspecting
  exact ⟨settings, fanOut, self, .tail (.tail (.tail hworks (.looksUp _ trusted.id))
    (.looksUp _ spurned.id)) (.marks _ ⟨2⟩ .failing)⟩

/-- A mailing to all three of them: the ready one is still ready afterwards, and the failing one still
failing. -/
theorem unsendable_harms_no_peer_of_known_peers :
    let members := [doubted, trusted, spurned]
    acquainted.Reached ∧ acquainted.mailing? 0 = none ∧ members ≠ [] ∧
      Frame.maxSize < Frame.headerSize + oversized.size ∧
      acquainted.pool.board.health? doubted.id = some .suspect ∧
      acquainted.pool.board.health? trusted.id = some .ready ∧
      acquainted.pool.board.health? spurned.id = some .failing ∧
      ∃ o' g, ReflTransGen (Passes 0 fun _ => True) (acquainted.begins 0 members oversized true) o' ∧
        o'.mailing? 0 = some g ∧ Declines acquainted members oversized (fun _ => True) o' g ∧
        (g.report o'.pool).2.board.health? trusted.id = some .ready ∧
        (g.report o'.pool).2.board.health? spurned.id = some .failing := by
  intro members
  have hsome : members ≠ [] := by decide
  obtain ⟨-, -, hcourse⟩ := unsendable_harms_no_peer (n := 0) reached_acquainted rfl hsome
    large_oversized true fun _ => True
  obtain ⟨o', g, hpasses, hg, hover, -⟩ :=
    exists_refused reached_acquainted (fun _ => rfl) large_oversized 0 members true
  obtain ⟨g', hg', -, -, -, -, hdeclines⟩ := hcourse o' hpasses
  obtain rfl := Option.some.inj (hg.symm.trans hg')
  have hdeclines := hdeclines hover
  have hready : acquainted.pool.board.health? trusted.id = some .ready := by decide +kernel
  have hfailing : acquainted.pool.board.health? spurned.id = some .failing := by decide +kernel
  have htrusted := hdeclines.health trusted.id trivial fun _ => by decide +kernel
  have hspurned := hdeclines.health spurned.id trivial fun _ => by decide +kernel
  exact ⟨reached_acquainted, rfl, hsome, large_oversized, by decide +kernel, hready, hfailing, o', g,
    hpasses, hg, hdeclines, htrusted.health?_eq_some hready, hspurned.health?_eq_some hfailing⟩

/-- Whatever a courier at work comes to where each question has one answer can happen. -/
theorem Reached.serves {d : Mailing.Delivery} {c : CourierId} {desk : CourierPool.Desk}
    {x : Exchange (Except DeliveryError Unit × Courier)} (h : o.Reached)
    (answer : (q : Ask) → q.Answer) (hg : o.mailing? n = some g) (hd : g.deliveries[place]? = some d)
    (hmay : g.mayStep place = true) (hphase : d.phase = .served c x)
    (hdesk : o.pool.desk? c = some desk) (ts : Transcript) :
    ∃ (o' : Office) (g' : Mailing) (board : HealthBoard), o'.Reached ∧ o'.mailing? n = some g' ∧
      (∀ i, g'.deliveries[i]? = if place = i then
        some { d with phase := .over (x.answered answer ts).1.1 } else g.deliveries[i]?) ∧
      (∀ n' ≠ n, o'.mailing? n' = o.mailing? n') ∧
      o'.pool = CourierPool.leave { o.pool with board } c (x.answered answer ts).1.2 := by
  induction x generalizing o g d ts with
  | done a =>
    have hmove : g.moveAt o.pool place = .steps (.over a.1) (o.pool.leave c a.2) := by
      simp only [moveAt, hd, hmay, if_true, Delivery.move, hphase]
    obtain ⟨settings, fanOut, self, hworks⟩ := h
    obtain rfl := (Reached.sound ⟨settings, fanOut, self, hworks⟩).numbers _ _ hg
    refine ⟨_, _, o.pool.board, ⟨settings, fanOut, self, hworks.tail (.goes hg (.steps hmove))⟩,
      mailing?_withPhase rfl, fun i => ?_, fun n' hn => mailing?_put_of_ne _ _ _ hn, rfl⟩
    rw [getElem?_withPhase]
    split
    next heq => rw [← heq, hd]; rfl
    next => rfl
  | ask q next ih =>
    obtain ⟨board, hgoes⟩ := exists_goes_of_ask hd hmay hphase hdesk (answer q)
    have hnot : d.isOver = false := by
      rw [Delivery.isOver, hphase]
    obtain ⟨settings, fanOut, self, hworks⟩ := h
    obtain rfl := (Reached.sound ⟨settings, fanOut, self, hworks⟩).numbers _ _ hg
    obtain ⟨o', g', board', hreached, hg', hdeliveries, hothers, hpool⟩ :=
      ih (answer q) (o := o.withPhase g place _ { o.pool with board })
        ⟨settings, fanOut, self, hworks.tail (.goes hg hgoes)⟩
        (mailing?_withPhase rfl) (getElem?_withPhase_self hd) (mayStep_withPhase hmay hd hnot) rfl
        hdesk (ts ++ [⟨q, answer q⟩])
    refine ⟨o', g', board', hreached, hg', fun i => ?_,
      fun n' hn => (hothers n' hn).trans (mailing?_put_of_ne _ _ _ hn), hpool⟩
    rw [hdeliveries, getElem?_withPhase]
    split <;> rfl

/-- How a peer answers that takes every message and never says anything. -/
def taking : (q : Ask) → q.Answer
  | .dial .. => .connected ⟨0⟩
  | .write .. => .ok ()
  | q => Exchange.offline q

/-- The connection of the only attempt is held when it has been answered so. -/
theorem answered_taking :
    ((retrier.send "first".toUTF8 false).answered taking []).1.2.link = some ⟨0⟩ ∧
      ((retrier.send "first".toUTF8 false).answered taking []).1.2.destination = stranger := by
  have hsize : Frame.checkSize (Frame.headerSize + "first".toUTF8.size) = .ok () :=
    Frame.checkSize_eq_ok_iff.2 (by decide +kernel)
  have hfits : (Frame.ofHandshake retrier.self).Fits := Delivery.fits_greeting_novice
  obtain ⟨f, hsend, hsucceeds⟩ : ∃ f,
      retrier.send "first".toUTF8 false = (retrier.attempt "first".toUTF8 false).bind f ∧
        ∀ c, f (.ok (), c) = .done (.ok (), c) := by
    rw [Courier.send, hsize]
    dsimp only
    rw [show retrier.settings.attempts = 1 from rfl, Delivery.attemptUpTo_succ]
    exact ⟨_, rfl, fun _ => rfl⟩
  rw [hsend, Courier.attempt, Courier.connect, Courier.dial_of_fits hfits]
  show ((f (.ok (), _)).answered taking _).1.2.link = _ ∧
    ((f (.ok (), _)).answered taking _).1.2.destination = _
  rw [hsucceeds]
  exact ⟨rfl, rfl⟩

/-- A message has been delivered, and the courier holds on to the connection. -/
theorem exists_connected : ∃ o : Office, o.Reached ∧ o.mailing? 1 = none ∧
    o.pool.current.get? stranger.id = some ⟨0⟩ ∧ ∃ courier : Courier,
      o.pool.desk? ⟨0⟩ = some ⟨courier, [], 0⟩ ∧ courier.link = some ⟨0⟩ ∧
      courier.destination = stranger := by
  let start := (novice.begins 0 [stranger] "first".toUTF8 false).stumbles 0 0 3
  let served : Mailing.Delivery :=
    ⟨stranger, false, .served ⟨0⟩ (retrier.send "first".toUTF8 false)⟩
  let g : Mailing := ⟨0, "first".toUTF8, false, .sequential, [served]⟩
  have hreached : start.Reached :=
    ((Remembered.begins ⟨_, _, _, .refl⟩ rfl [stranger] _ false).stumbles 0 0 3).reached
  have hg : start.mailing? 0 = some g := rfl
  have hd : g.deliveries[0]? = some served := rfl
  have hdesk : start.pool.desk? ⟨0⟩ = some ⟨retrier, [⟨0, 0⟩], 1⟩ := rfl
  obtain ⟨o, g', board, ho, -, -, hothers, hpool⟩ :=
    hreached.serves taking hg hd rfl rfl hdesk []
  have hcurrent : start.pool.current.get? stranger.id = some ⟨0⟩ := rfl
  obtain ⟨hlink, hdestination⟩ := answered_taking
  have hseats := CourierPool.seats_leave (p := { start.pool with board }) hcurrent hdesk rfl
    ((retrier.send "first".toUTF8 false).answered taking []).1.2
  rw [← hpool] at hseats
  exact ⟨o, ho, (hothers 1 (by decide)).trans rfl, hseats.current, _, hseats.desk, hlink,
    hdestination⟩

/-- The member has moved. -/
def moved : Member :=
  { stranger with host := "10.0.0.4" }

/-- A free courier that goes to another address lets go of its connection when it is replaced. -/
theorem released_assign {p : CourierPool} {m : Member} {c : CourierId} {courier : Courier}
    {link : Link} (hc : p.current.get? m.id = some c) (hdesk : p.desk? c = some ⟨courier, [], 0⟩)
    (hlink : courier.link = some link) (haway : courier.destination.address ≠ m.address) :
    (p.assign m).2.released = link :: p.released := by
  have hreplaced : p.courierFor m = (p.retire c).hire m := by
    rw [CourierPool.courierFor, hc]
    simp only [CourierPool.isFree, CourierPool.goesTo, hdesk, List.isEmpty_nil, Bool.not_true,
      Bool.false_or, beq_iff_eq, if_neg haway]
  have hretired : p.retire c = p.letGo c := by
    rw [CourierPool.retire, hdesk]
    rfl
  show (p.courierFor m).2.released = _
  rw [hreplaced, hretired]
  show (p.letGo c).released = _
  rw [CourierPool.released_letGo, CourierPool.held?_of_desk hdesk, hlink]
  rfl

/-- Nobody else is at work. A suspect member is failing after the mailing, and a connection to the
address at which a member was before is given up. -/
theorem unsendable_may_harm :
    (∃ o' g, ReflTransGen (Passes 0 fun _ => True) (suspecting.begins 0 [doubted] oversized true) o' ∧
      o'.mailing? 0 = some g ∧ g.isOver = true ∧
      suspecting.pool.board.healthOf doubted.id = .suspect ∧
      (g.report o'.pool).2.board.healthOf doubted.id = .failing) ∧
    ∃ (o o' : Office) (link : Link), o.Reached ∧ o.mailing? 1 = none ∧
      (∃ c, o.pool.held? c = some link) ∧
      Passes 1 (fun _ => True) (o.begins 1 [moved] oversized true) o' ∧
      o'.pool.released = link :: o.pool.released := by
  constructor
  · obtain ⟨o', g, hpasses, hg, hover, hrefusing⟩ :=
      exists_refused reached_suspecting (fun _ => rfl) large_oversized 0 [doubted] true
    have hsuspect : suspecting.pool.board.healthOf doubted.id = .suspect := by decide +kernel
    refine ⟨o', g, hpasses, hg, hover, hsuspect, ?_⟩
    rw [healthOf_report hrefusing.sound.coherent, if_pos]
    rw [hrefusing.blames_iff hover, hsuspect]
    exact ⟨⟨doubted, List.mem_singleton_self _, rfl⟩, rfl⟩
  · obtain ⟨o, ho, hnew, hcurrent, courier, hdesk, hlink, hdestination⟩ := exists_connected
    have haway : courier.destination.address ≠ moved.address := by
      rw [hdestination]
      decide +kernel
    -- The only delivery finds its courier.
    let pool := (Mailing.begin o.pool 1 [moved] oversized true).2
    let g : Mailing := ⟨1, oversized, true, o.pool.fanOut,
      (suspectsLast o.pool.board [moved]).map (Delivery.to o.pool.board)⟩
    have hd : g.deliveries[0]? = some (Delivery.to o.pool.board moved) := by
      have hone : suspectsLast o.pool.board [moved] = [moved] :=
        List.perm_singleton.1 (suspectsLast_perm _ _)
      show ((suspectsLast o.pool.board [moved]).map _)[0]? = _
      rw [hone]
      rfl
    have hmay : g.mayStep 0 = true := mayStep_iff.2 fun _ i hi => absurd hi (Nat.not_lt_zero i)
    have hmove : g.moveAt pool 0 =
        .steps (.assigned (pool.assign moved).1) (pool.assign moved).2 := by
      simp only [moveAt, hd, hmay, if_true, Delivery.move, Delivery.to]
    refine ⟨o, _, ⟨0⟩, ho, hnew, ⟨⟨0⟩, (CourierPool.held?_of_desk hdesk).trans hlink⟩,
      .goes (g := g) (begins_eq ho.sound.coherent 1 [moved] oversized true ▸ mailing?_put_self ..)
        (.steps hmove), ?_⟩
    exact released_assign (p := pool) hcurrent hdesk hlink haway

end Office

end PeerCluster
