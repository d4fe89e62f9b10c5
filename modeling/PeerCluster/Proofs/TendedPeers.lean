import PeerCluster.Proofs.Dismissals
import PeerCluster.Proofs.FanOut

/-!
# Couriers that are up to date

**Cells** (`OnBoard`). Every courier of the pool reports to the cell that is on the board for its peer. A
courier is hired with the cell that a look-up finds, and keeps it. So this lasts as long as nobody who has
a courier is taken off the board (`OnBoard.keeps`).

**Addresses** (`Reaches`). The courier of a peer goes to the address of the peer once the peer has been
added, unless somebody stood in line for an older courier then (`reaches_add`).

**Deliveries** (`Mailing.Phase.Tended`). A delivery that begins when nobody stands in line for the courier
of its member goes to where the member is, and leaves the pool with the courier that does. No other
peer is concerned (`Mailing.Turns.tended`).
-/

namespace PeerCluster

namespace CourierPool

variable {p p' : CourierPool} {c : CourierId} {m : Member}

/-! ## Couriers on the board -/

/-- Every courier of the pool reports to the cell that is on the board for its peer. -/
def OnBoard (p : CourierPool) : Prop :=
  ∀ id c x, p.current.get? id = some c → p.contact? c = some x → p.board.find? id = some x.cell

/-- Couriers stay on the board with their contacts, as long as the cells of those that stay in the pool
are not taken away. -/
theorem OnBoard.keeps (h : p.OnBoard) (hp : p.Coherent)
    (hcontacts : ∀ c x, p.contact? c = some x → p'.contact? c = some x)
    (hcurrent : ∀ id c, p'.current.get? id = some c → p.current.get? id = some c)
    (hboard : ∀ id c cell, p'.current.get? id = some c → p.board.find? id = some cell →
      p'.board.find? id = some cell) : p'.OnBoard := by
  intro id c x hc hx
  obtain ⟨owner, hkept⟩ := hp
  obtain ⟨cell, hcell⟩ := hkept.current id c (hcurrent id c hc)
  obtain rfl := Option.some.inj ((hcontacts c _ hcell).symm.trans hx)
  exact hboard id c cell hc (h id c _ (hcurrent id c hc) hcell)

/-- So they do when others look peers up and mark them. -/
theorem OnBoard.uses {board : HealthBoard} (h : p.OnBoard) (hp : p.Coherent)
    (huses : Relation.ReflTransGen HealthBoard.Uses p.board board) : OnBoard { p with board } :=
  h.keeps hp (fun _ _ hx => hx) (fun _ _ hc => hc) fun id _ cell _ hcell =>
    HealthBoard.remembers_of_uses huses id cell hcell

theorem OnBoard.remove (h : p.OnBoard) (hp : p.Coherent) (id : MemberId) :
    (p.remove id).2.OnBoard ∧
      OnBoard { (p.remove id).2 with board := ((p.remove id).2.board.take id).2 } := by
  obtain ⟨-, hnone, hspares⟩ := remove_spec hp id
  have hcontacts := (rearranges_remove hp id).contacts
  have hother : ∀ {id' c}, (p.remove id).2.current.get? id' = some c → id' ≠ id := by
    rintro id' c hc rfl
    rw [hnone] at hc
    cases hc
  have hcurrent : ∀ id' c, (p.remove id).2.current.get? id' = some c →
      p.current.get? id' = some c := fun id' c hc =>
    (hspares.current id' (hother hc)).symm.trans hc
  refine ⟨h.keeps hp hcontacts hcurrent fun id' c cell _ hcell => ?_,
    h.keeps hp hcontacts hcurrent fun id' c cell hc hcell => ?_⟩
  · rwa [board_remove]
  · rwa [HealthBoard.find?_take, if_neg (hother hc), board_remove]

theorem OnBoard.sweep (h : p.OnBoard) (hp : p.Coherent) (now : Nat) : (p.sweep now).2.OnBoard := by
  obtain ⟨-, hcurrent, -⟩ := sweep_spec hp now
  refine h.keeps hp (rearranges_sweep hp now).contacts (fun id c hc => ((hcurrent id c).1 hc).1) ?_
  rw [board_sweep]
  exact fun _ _ _ _ hcell => hcell

theorem OnBoard.hire (h : p.OnBoard) (hp : p.Coherent) (m : Member) : (p.hire m).2.OnBoard := by
  have hfound := p.board.found_findOrPost m.id
  intro id c x hc hx
  have hinsert : (p.current.insert m.id (p.hire m).1).get? id = some c := hc
  rw [MemberMap.get?_insert] at hinsert
  by_cases hid : id = m.id
  · rw [if_pos hid] at hinsert
    rw [← Option.some.inj hinsert, contact?, desk?_hire, if_pos rfl] at hx
    rw [← Option.some.inj hx, hid]
    exact hfound.find
  · rw [if_neg hid] at hinsert
    obtain ⟨owner, hkept⟩ := hp
    obtain ⟨cell, hcell⟩ := hkept.current id c hinsert
    have hsame := (hire_spec ⟨owner, hkept⟩ m).1.contacts c _ hcell
    obtain rfl := Option.some.inj (hsame.symm.trans hx)
    exact (hfound.others id hid).trans (h id c _ hinsert hcell)

theorem OnBoard.courierFor (h : p.OnBoard) (hp : p.Coherent) (m : Member) :
    (p.courierFor m).2.OnBoard := by
  rw [CourierPool.courierFor]
  split
  · split
    · exact h
    · rename_i c _ _
      have hretire := rearranges_retire hp c
      obtain ⟨hboard, hcurrent⟩ := posted_retire p c
      refine OnBoard.hire (h.keeps hp hretire.contacts ?_ ?_) hretire.coherent m
      · rw [hcurrent]
        exact fun _ _ hc => hc
      · rw [hboard]
        exact fun _ _ _ _ hcell => hcell
  · exact h.hire hp m

theorem current_leave (p : CourierPool) (c : CourierId) (courier : Courier) :
    (p.leave c courier).current = p.current := by
  rw [leave]
  split
  · rfl
  · exact (posted_retire _ c).2

/-! ## Addresses -/

/-- The pool's courier for a peer goes to the address of the peer. -/
def Reaches (p : CourierPool) (m : Member) : Prop :=
  ∃ c, p.current.get? m.id = some c ∧ p.goesTo c m.address = true

theorem goesTo_iff {address : String} :
    p.goesTo c address = true ↔
      ∃ d, p.desk? c = some d ∧ d.courier.destination.address = address := by
  rw [goesTo]
  cases p.desk? c with
  | none => simp
  | some d => simp

theorem isFree_eq (p : CourierPool) (c : CourierId) : p.isFree c = (p.line c).isEmpty := by
  rw [isFree, line]
  cases p.desk? c <;> rfl

theorem reaches_hire (p : CourierPool) (m : Member) : (p.hire m).2.Reaches m := by
  have hdesk := desk?_hire p m (p.hire m).1
  rw [if_pos rfl] at hdesk
  exact ⟨(p.hire m).1, (MemberMap.get?_insert ..).trans (if_pos rfl), goesTo_iff.2 ⟨_, hdesk, rfl⟩⟩

/-- A courier for whom nobody stands in line is replaced unless it goes to the address. -/
theorem reaches_add (hfree : ∀ c, p.current.get? m.id = some c → p.line c = []) :
    (p.add m).Reaches m := by
  rw [add, courierFor]
  split
  next c hc =>
    split
    next hkept =>
      rw [isFree_eq, hfree c hc] at hkept
      exact ⟨c, hc, hkept⟩
    next => exact reaches_hire _ m
  next => exact reaches_hire p m

theorem address_reception {fresh : Courier} {desk? : Option Desk}
    (hfresh : fresh.destination = m) (hfree : ∀ d, desk? = some d → d.line = []) :
    (reception fresh m desk?).1.courier.destination.address = m.address := by
  cases desk? with
  | none => exact congrArg Member.address hfresh
  | some d =>
    rw [reception, hfree d rfl]
    split
    next hsame => exact beq_iff_eq.1 hsame
    next => exact congrArg Member.address hfresh

end CourierPool

/-! ## Deliveries -/

namespace Mailing

variable {p pool : CourierPool} {t : Ticket} {payload : ByteArray} {wait : Bool} {m : Member}
  {before after : Phase} {id : MemberId}

/-- When a delivery has gone on, every delivery of its mailing is this one, or one to another member that
is as it was. -/
theorem cases_of_mem_withPhase {g : Mailing} {place : Nat} {d d' : Delivery} {phase : Phase}
    (hdistinct : (g.deliveries.map fun d => d.member.id).Nodup)
    (hd : g.deliveries[place]? = some d) (hd' : d' ∈ (g.withPhase place phase).deliveries) :
    d' = { d with phase } ∨ d' ∈ g.deliveries ∧ d'.member.id ≠ d.member.id := by
  obtain ⟨front, back, hdeliveries, hafter⟩ := deliveries_withPhase hd phase
  rw [hdeliveries] at hdistinct ⊢
  have hnew := (List.nodup_cons.1 ((List.perm_middle.map _).nodup_iff.1 hdistinct)).1
  rw [hafter, List.mem_append, List.mem_cons] at hd'
  by_cases hself : d' = { d with phase }
  · exact .inl hself
  · have hother : d' ∈ front ++ back :=
      List.mem_append.2 (hd'.imp_right fun h => h.resolve_left hself)
    refine .inr ⟨?_, fun heq => hnew (List.mem_map.2 ⟨d', hother, heq⟩)⟩
    exact List.mem_append.2 ((List.mem_append.1 hother).imp_right (List.mem_cons_of_mem _))

/-- From when it has found its courier on, a delivery is to the address of its member, and by the courier
that the pool keeps for the member. -/
def Phase.Tended (p : CourierPool) (m : Member) : Phase → Prop
  | .pending => True
  | .assigned c | .queued c => p.current.get? m.id = some c ∧ p.goesTo c m.address = true
  | .served c rest => (p.current.get? m.id = some c ∧ p.goesTo c m.address = true) ∧
    ∀ result courier, rest.MayYield (result, courier) → courier.destination.address = m.address
  | .over _ => p.Reaches m

/-- What happens to the couriers of another peer does not matter. -/
theorem Phase.Tended.spares {phase : Phase} (h : phase.Tended p m) (hp : p.Coherent)
    (hspares : CourierPool.Spares id p pool) (hid : m.id ≠ id) : phase.Tended pool m := by
  have hsame : ∀ c, p.current.get? m.id = some c ∧ p.goesTo c m.address = true →
      pool.current.get? m.id = some c ∧ pool.goesTo c m.address = true := by
    rintro c ⟨hc, hgoes⟩
    obtain ⟨owner, hkept⟩ := hp
    obtain ⟨cell, hcell⟩ := hkept.current m.id c hc
    refine ⟨(hspares.current m.id hid).trans hc, ?_⟩
    rw [CourierPool.goesTo, hspares.desks c _ hcell hid]
    exact hgoes
  cases phase with
  | pending => trivial
  | assigned c | queued c => exact hsame c h
  | served c rest => exact ⟨hsame c h.1, h.2⟩
  | «over» result =>
    obtain ⟨c, hc⟩ := h
    exact ⟨c, hsame c hc⟩

theorem Turns.tended (h : Turns p t payload wait m before after pool) (hp : p.Coherent)
    (hposted : (p.board.find? m.id).isSome) (htended : before.Tended p m)
    (hfree : before = .pending → ∀ c, p.current.get? m.id = some c → p.line c = []) :
    CourierPool.Spares m.id p pool ∧ after.Tended pool m := by
  have hdesk : ∀ c, p.current.get? m.id = some c ∧ p.goesTo c m.address = true →
      ∃ d, p.desk? c = some d ∧ d.courier.destination.id = m.id ∧
        d.courier.destination.address = m.address := by
    rintro c ⟨hc, hgoes⟩
    obtain ⟨d, hd, haddress⟩ := CourierPool.goesTo_iff.1 hgoes
    exact ⟨d, hd, hp.destination hc hd, haddress⟩
  cases h with
  | assigns =>
    have hseats := CourierPool.seats_assign hp hposted
    have haddress : (CourierPool.reception (p.newcomer m) m
        (p.deskOf? m.id)).1.courier.destination.address = m.address := by
      refine CourierPool.address_reception rfl fun d hd => ?_
      obtain ⟨c, hc, hd⟩ := Option.bind_eq_some_iff.1 hd
      rw [← CourierPool.line_of_desk hd]
      exact hfree rfl c hc
    exact ⟨hseats.spares, hseats.current, CourierPool.goesTo_iff.2 ⟨_, hseats.desk, haddress⟩⟩
  | joins c =>
    obtain ⟨d, hd, hid, haddress⟩ := hdesk c htended
    have hseats := CourierPool.seats_join htended.1 hd hid t
    exact ⟨hseats.spares, hseats.current, CourierPool.goesTo_iff.2 ⟨_, hseats.desk, haddress⟩⟩
  | @calls c desk hd hhead =>
    refine ⟨.refl m.id p, htended, fun result courier hyields => ?_⟩
    obtain ⟨d, hd', -, haddress⟩ := hdesk c htended
    obtain rfl := Option.some.inj (hd.symm.trans hd')
    rw [(Courier.alike_send hyields).destination]
    exact haddress
  | asks answer =>
    exact ⟨.refl m.id p, htended.1, fun result courier hyields => htended.2 result courier hyields.ask⟩
  | marks health hd =>
    exact ⟨⟨fun _ _ => rfl, fun _ _ _ _ => rfl⟩, htended.1,
      fun result courier hyields => htended.2 result courier hyields.ask⟩
  | @ends c result courier =>
    obtain ⟨hc, hrest⟩ := htended
    obtain ⟨d, hd, hid, -⟩ := hdesk c hc
    have hseats := CourierPool.seats_leave hc.1 hd hid courier
    have haddress := hrest result courier (Exchange.mayYield_done _)
    exact ⟨hseats.spares, c, hseats.current, CourierPool.goesTo_iff.2 ⟨_, hseats.desk, haddress⟩⟩

theorem Turns.onBoard (h : Turns p t payload wait m before after pool) (hp : p.Coherent)
    (hfits : before.FitsIn p m) (honBoard : p.OnBoard) : pool.OnBoard := by
  cases h with
  | assigns =>
    have hcourier := honBoard.courierFor hp m
    have hcontact : ∀ c, (p.assign m).2.contact? c = (p.courierFor m).2.contact? c :=
      CourierPool.contact?_modify fun _ _ => rfl
    exact hcourier.keeps (CourierPool.courierFor_spec hp m).1.coherent
      (fun c x hx => (hcontact c).trans hx) (fun _ _ hc => hc) fun _ _ _ _ hcell => hcell
  | joins c =>
    exact honBoard.keeps hp (fun c' x hx => (CourierPool.contact?_join p c c' t).trans hx)
      (fun _ _ hc => hc) fun _ _ _ _ hcell => hcell
  | calls | asks => exact honBoard
  | marks => exact honBoard
  | @ends c result courier =>
    obtain ⟨cell, hcell, hrest⟩ := hfits
    have hcontact := hrest result courier (Exchange.mayYield_done _)
    have hleaves := CourierPool.leaves_leave hp (hcontact ▸ hcell)
    refine honBoard.keeps hp hleaves.contacts (fun id c' hc' => ?_) fun id c' cell hc' hcell => ?_
    · rwa [CourierPool.current_leave] at hc'
    · rwa [CourierPool.board_leave]

end Mailing

end PeerCluster
