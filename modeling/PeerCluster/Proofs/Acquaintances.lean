import PeerCluster.Proofs.DeliverySteps
import PeerCluster.Proofs.MailingReports

/-!
# Whom a pool knows

A pool knows a peer while it has a courier or the health of the peer (`Knows`). Both are made when they
are missed, by whatever has to do with the peer, so what is done for some peers makes the pool know at
most these (`Meets`). Only forgetting a peer ends it (`not_knows_forget`).
-/

namespace PeerCluster

namespace CourierPool

variable {p p' p'' : CourierPool} {ids ids' : List MemberId}

/-- The pool has a courier for a peer, or the health of the peer is on the board. -/
def Knows (p : CourierPool) (id : MemberId) : Prop :=
  (p.current.get? id).isSome ∨ (p.board.find? id).isSome

instance (p : CourierPool) (id : MemberId) : Decidable (p.Knows id) :=
  inferInstanceAs (Decidable (_ ∨ _))

/-- Between two states a pool gets to know at most the given peers. -/
def Meets (ids : List MemberId) (p p' : CourierPool) : Prop :=
  ∀ id, p'.Knows id → p.Knows id ∨ id ∈ ids

theorem Meets.refl (ids : List MemberId) (p : CourierPool) : Meets ids p p :=
  fun _ h => .inl h

theorem Meets.trans (h : Meets ids p p') (h' : Meets ids p' p'') : Meets ids p p'' :=
  fun id hid => (h' id hid).elim (h id) .inr

theorem Meets.mono (h : Meets ids p p') (hsub : ids ⊆ ids') : Meets ids' p p' :=
  fun id hid => (h id hid).imp_right fun hmem => hsub hmem

/-- A pool that finds no more couriers and has the same board knows nobody else. -/
theorem meets_of_current (ids : List MemberId) (hboard : p'.board.posted = p.board.posted)
    (hcurrent : ∀ id c, p'.current.get? id = some c → p.current.get? id = some c) :
    Meets ids p p' := by
  intro id hknows
  refine .inl ?_
  rcases hknows with hcourier | hcell
  · obtain ⟨c, hc⟩ := Option.isSome_iff_exists.1 hcourier
    exact .inl (hcurrent id c hc ▸ rfl)
  · rw [HealthBoard.find?, hboard] at hcell
    exact .inr hcell

theorem meets_post (p : CourierPool) (id : MemberId) :
    Meets [id] p { p with board := (p.board.findOrPost id).2 } := by
  intro id' hknows
  rcases hknows with hcourier | hcell
  · exact .inl (.inl hcourier)
  · by_cases hid : id' = id
    · exact .inr (List.mem_singleton.2 hid)
    · have hcell' : ((p.board.findOrPost id).2.find? id').isSome := hcell
      rw [(p.board.found_findOrPost id).others id' hid] at hcell'
      exact .inl (.inr hcell')

/-! ## Couriers -/

theorem posted_letGo (p : CourierPool) (c : CourierId) :
    (p.letGo c).board = p.board ∧ (p.letGo c).current = p.current := by
  rw [letGo]
  split <;> exact ⟨rfl, rfl⟩

theorem posted_retire (p : CourierPool) (c : CourierId) :
    (p.retire c).board = p.board ∧ (p.retire c).current = p.current := by
  rw [retire]
  split
  · split
    · exact posted_letGo p c
    · exact ⟨rfl, rfl⟩
  · exact ⟨rfl, rfl⟩

theorem meets_same (ids : List MemberId) (h : p'.board = p.board ∧ p'.current = p.current) :
    Meets ids p p' :=
  meets_of_current ids (h.1 ▸ rfl) fun _ _ hc => h.2 ▸ hc

theorem meets_hire (p : CourierPool) (m : Member) : Meets [m.id] p (p.hire m).2 := by
  intro id hknows
  rcases hknows with hcourier | hcell
  · by_cases hid : id = m.id
    · exact .inr (List.mem_singleton.2 hid)
    · have hcourier' : ((p.current.insert m.id (p.hire m).1).get? id).isSome := hcourier
      rw [MemberMap.get?_insert, if_neg hid] at hcourier'
      exact .inl (.inl hcourier')
  · exact meets_post p m.id id (.inr hcell)

theorem meets_courierFor (p : CourierPool) (m : Member) :
    Meets [m.id] p (p.courierFor m).2 := by
  rw [courierFor]
  split
  · split
    · exact .refl _ p
    · exact (meets_same _ (posted_retire p _)).trans (meets_hire _ m)
  · exact meets_hire p m

theorem meets_add (p : CourierPool) (m : Member) : Meets [m.id] p (p.add m) :=
  meets_courierFor p m

theorem meets_assign (p : CourierPool) (m : Member) : Meets [m.id] p (p.assign m).2 :=
  (meets_courierFor p m).trans (meets_same _ ⟨rfl, rfl⟩)

theorem meets_leave (ids : List MemberId) (p : CourierPool) (c : CourierId) (courier : Courier) :
    Meets ids p (p.leave c courier) := by
  rw [leave]
  have hleft : Meets ids p (p.modify c fun d => ⟨courier, d.line.tail, d.holders - 1⟩) :=
    meets_same ids ⟨rfl, rfl⟩
  refine hleft.trans ?_
  split
  · exact .refl ids _
  · exact meets_same ids (posted_retire _ c)

theorem meets_erase (ids : List MemberId) (p : CourierPool) (id : MemberId) :
    Meets ids p { p with current := p.current.erase id } :=
  meets_of_current ids rfl fun _ _ => get?_current_erase

theorem meets_sweepOne (ids : List MemberId) (now : Nat) (p : CourierPool) (id : MemberId)
    (c : CourierId) : Meets ids p (sweepOne now p id c).2 := by
  rw [sweepOne]
  split
  · exact .refl ids p
  · split
    · exact .refl ids p
    · split
      · exact .refl ids p
      · dsimp only
        split
        · exact (meets_same ids (posted_letGo p c)).trans (meets_erase ids _ id)
        · exact meets_same ids (posted_letGo p c)

/-- Giving connections up makes no peer known. -/
theorem meets_sweep (ids : List MemberId) (p : CourierPool) (now : Nat) :
    Meets ids p (p.sweep now).2 := by
  have hfold : ∀ (es : List (MemberId × CourierId)) (s : Nat × CourierPool),
      Meets ids s.2 (es.foldl
        (fun s e =>
          (if (sweepOne now s.2 e.1 e.2).1 then s.1 + 1 else s.1, (sweepOne now s.2 e.1 e.2).2))
        s).2 := by
    intro es
    induction es with
    | nil => exact fun s => .refl ids s.2
    | cons e es ih => exact fun s => (meets_sweepOne ids now s.2 e.1 e.2).trans (ih _)
  exact hfold _ (0, p)

/-- A peer is forgotten when its courier and its health have been taken away. -/
theorem not_knows_forget (p : CourierPool) (id : MemberId) :
    ¬ Knows { (p.remove id).2 with board := ((p.remove id).2.board.take id).2 } id := by
  intro hknows
  rcases hknows with hcourier | hcell
  · have hnone : (p.remove id).2.current.get? id = none := by
      rw [remove]
      split
      · assumption
      · exact (MemberMap.get?_erase ..).trans (if_pos rfl)
    have hcourier' : ((p.remove id).2.current.get? id).isSome := hcourier
    rw [hnone] at hcourier'
    cases hcourier'
  · have hcell' : (((p.remove id).2.board.take id).2.find? id).isSome := hcell
    rw [HealthBoard.find?_take, if_pos rfl] at hcell'
    cases hcell'

theorem meets_forget (ids : List MemberId) (p : CourierPool) (id : MemberId) :
    Meets ids p { (p.remove id).2 with board := ((p.remove id).2.board.take id).2 } := by
  have hremove : Meets ids p (p.remove id).2 := by
    rw [remove]
    split
    · exact .refl ids p
    · rename_i c _
      dsimp only
      split
      · exact (meets_same ids (posted_letGo p c)).trans (meets_erase ids _ id)
      · exact meets_erase ids p id
  refine hremove.trans fun id' hknows => ?_
  rcases hknows with hcourier | hcell
  · exact .inl (.inl hcourier)
  · have hcell' : (((p.remove id).2.board.take id).2.find? id').isSome := hcell
    rw [HealthBoard.find?_take] at hcell'
    split at hcell'
    · cases hcell'
    · exact .inl (.inr hcell')

end CourierPool

/-! ## Mailings -/

namespace Mailing

open CourierPool

variable {g : Mailing} {p pool : CourierPool}

/-- The peers that a mailing is for. -/
def ids (g : Mailing) : List MemberId :=
  g.deliveries.map fun d => d.member.id

theorem meets_snapshot (p : CourierPool) (members : List Member) :
    Meets (members.map Member.id) p { p with board := (snapshot p.board members).2 } := by
  induction members generalizing p with
  | nil => exact .refl _ p
  | cons m rest ih =>
    have hpost := meets_post p m.id
    exact (hpost.mono (by simp)).trans ((ih { p with board := (p.board.findOrPost m.id).2 }).mono
      (List.subset_cons_self ..))

/-- A mailing is for the members that it was begun for. -/
theorem mem_ids_begin {number : Nat} {members : List Member} {payload : ByteArray} {wait : Bool}
    {id : MemberId} :
    id ∈ (Mailing.begin p number members payload wait).1.ids ↔ id ∈ members.map Member.id := by
  have hsnapshot : ∀ (b : HealthBoard) (members : List Member),
      (snapshot b members).1.map Delivery.member = members := by
    intro b members
    induction members generalizing b with
    | nil => rfl
    | cons m rest ih => exact congrArg (m :: ·) (ih _)
  have hboth : ∀ ds : List Delivery,
      id ∈ (ds.filter (fun d => !d.wasSuspect) ++ ds.filter fun d => d.wasSuspect).map
        (fun d => d.member.id) ↔ id ∈ ds.map fun d => d.member.id := by
    intro ds
    simp only [List.mem_map, List.mem_append, List.mem_filter]
    constructor
    · rintro ⟨d, ⟨hd, -⟩ | ⟨hd, -⟩, rfl⟩ <;> exact ⟨d, hd, rfl⟩
    · rintro ⟨d, hd, rfl⟩
      exact ⟨d, by simp [hd], rfl⟩
  have hids : (Mailing.begin p number members payload wait).1.ids =
      ((snapshot p.board members).1.filter (fun d => !d.wasSuspect) ++
        (snapshot p.board members).1.filter fun d => d.wasSuspect).map fun d => d.member.id := rfl
  rw [hids, hboth]
  show id ∈ (snapshot p.board members).1.map (Member.id ∘ Delivery.member) ↔ _
  rw [← List.map_map, hsnapshot]

theorem meets_begin (p : CourierPool) (number : Nat) (members : List Member) (payload : ByteArray)
    (wait : Bool) :
    Meets (members.map Member.id) p (Mailing.begin p number members payload wait).2 :=
  meets_snapshot p members

/-- A step of a delivery makes at most its own peer known. -/
theorem Turns.meets {t : Ticket} {payload : ByteArray} {wait : Bool} {m : Member}
    {phase phase' : Phase} (h : Turns p t payload wait m phase phase' pool) :
    Meets [m.id] p pool := by
  cases h with
  | assigns => exact meets_assign p m
  | joins c => exact meets_same _ ⟨rfl, rfl⟩
  | calls | asks => exact .refl _ p
  | marks health hdesk => exact meets_of_current _ rfl fun _ _ hc => hc
  | ends => exact meets_leave _ p _ _

theorem Goes.meets {place : Nat} {phase : Phase} (h : g.Goes p place phase pool) :
    Meets g.ids p pool := by
  obtain ⟨d, hd, -, hturns⟩ := h.turns
  refine hturns.meets.mono fun id hid => ?_
  rw [List.mem_singleton.1 hid]
  exact List.mem_map.2 ⟨d, List.mem_of_getElem? hd, rfl⟩

theorem ids_of_withPhase (g : Mailing) (place : Nat) (phase : Phase) :
    (g.withPhase place phase).ids = g.ids :=
  ids_withPhase g place phase

theorem meets_failures (p : CourierPool) (ds : List Delivery) :
    Meets (ds.map fun d => d.member.id) p { p with board := (failures p.board ds).2 } := by
  induction ds generalizing p with
  | nil => exact .refl _ p
  | cons d rest ih =>
    cases hcause : d.cause? with
    | none =>
      rw [failures_cons_of_none p.board rest hcause]
      exact (ih p).mono (List.subset_cons_self ..)
    | some cause =>
      rw [failures_cons_of_some p.board rest hcause]
      have hblame : Meets [d.member.id] p { p with board := blame p.board d } := by
        refine (meets_post p d.member.id).trans (meets_of_current _ ?_ fun _ _ hc => hc)
        rw [blame]
        dsimp only
        split <;> rfl
      exact (hblame.mono (by simp)).trans
        ((ih { p with board := blame p.board d }).mono (List.subset_cons_self ..))

/-- A report makes at most the peers of its mailing known. -/
theorem meets_report (p : CourierPool) (g : Mailing) : Meets g.ids p (g.report p).2 :=
  meets_failures p g.deliveries

end Mailing

end PeerCluster
