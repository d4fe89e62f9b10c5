import PeerCluster.Proofs.Offices

/-!
# The round of a mailing

**A round** (`Round`). What happens from the beginning of a mailing on: its deliveries take steps, and
so does everything else in the office. Whoever else is at work may do as they like, but leave the
health of a member alone once the delivery to it is over. It is noted when a courier is called and
when a delivery is over.

**Termination** (`Sound.exists_still`, `Sound.advances_to_end`). A mailing takes only so many steps, and
at any time it can be brought to its end: a delivery that is not in front of its line gets there when
those before it are served (`Advances`). If no member is listed twice that is a round
(`Sound.exists_over`).
-/

namespace PeerCluster

namespace Mailing

/-- What is noted of a delivery. -/
inductive Event where
  /-- A courier is asked to deliver, and this is what it is like then. -/
  | called (member : Member) (courier : Courier)
  /-- The delivery is over, with this result, and this is the member's health then. -/
  | ended (member : Member) (result : Except DeliveryError Unit) (health : Health)

/-- What is noted when the delivery to a member goes from one phase to another. -/
def Phase.events (before after : Phase) (m : Member) (p pool : CourierPool) : List Event :=
  match before, after with
  | .queued c, .served _ _ => ((p.desk? c).map fun desk => .called m desk.courier).toList
  | .served _ _, .over result => [.ended m result (pool.board.healthOf m.id)]
  | _, _ => []

end Mailing

namespace Office

open Mailing
open Relation (ReflTransGen)

variable {o o' : Office} {n : Nat} {g : Mailing} {place : Nat} {d : Delivery} {phase : Phase}
  {pool : CourierPool} {es log : List Event}

/-! ## Rounds -/

/-- One step of the round of a mailing, with what is noted. Whoever else is at work leaves the mailing
alone, and the health of a member once the delivery to it is over. -/
inductive Step (n : Nat) : Office → List Event → Office → Prop
  | goes {o : Office} {g : Mailing} {place : Nat} {d : Delivery} {phase : Phase}
    {pool : CourierPool} :
    o.mailing? n = some g → g.deliveries[place]? = some d → g.Goes o.pool place phase pool →
      Step n o (d.phase.events phase d.member o.pool pool) (o.withPhase g place phase pool)
  | others {o o' : Office} :
    Works o o' → o'.mailing? n = o.mailing? n →
      (∀ g, o.mailing? n = some g → ∀ d ∈ g.deliveries, d.isOver = true →
        o'.pool.board.healthOf d.member.id = o.pool.board.healthOf d.member.id) →
      Step n o [] o'

/-- What may have been noted of a mailing since an office, and the office that it is now. -/
inductive Round (n : Nat) (start : Office) : List Event → Office → Prop
  | starts : Round n start [] start
  | goesOn {log es : List Event} {o o' : Office} :
    Round n start log o → Step n o es o' → Round n start (log ++ es) o'

theorem Step.works (h : Step n o es o') : Works o o' := by
  cases h with
  | goes hg _ hgoes => exact .goes hg hgoes
  | others hworks => exact hworks

/-- Every step of a delivery leaves less of its mailing to be done. -/
theorem left_goes (hg : o.mailing? g.number = some g) (hgoes : g.Goes o.pool place phase pool) :
    InvImage (Relation.CutExpand Follows) (fun g => g.elim 0 Mailing.left)
      ((o.withPhase g place phase pool).mailing? g.number) (o.mailing? g.number) := by
  rw [InvImage, withPhase, mailing?_put_self, hg]
  exact cutExpand_left hgoes

/-- If a mailing changes only when it leaves less to be done, it changes only so many times. -/
theorem exists_still_of_left {f : Nat → Office}
    (hf : ∀ k, (f (k + 1)).mailing? n = (f k).mailing? n ∨
      InvImage (Relation.CutExpand Follows) (fun g => g.elim 0 Mailing.left)
        ((f (k + 1)).mailing? n) ((f k).mailing? n)) :
    ∃ k, ∀ j ≥ k, (f j).mailing? n = (f k).mailing? n :=
  exists_unchanged (f := fun k => (f k).mailing? n)
    (InvImage.wf (fun g => g.elim 0 Mailing.left) wellFounded_follows.cutExpand) hf

/-- Every step of the mailing itself leaves less of it to be done. -/
theorem Step.left (hstep : Step n o es o') (h : o.Sound) :
    o'.mailing? n = o.mailing? n ∨
      InvImage (Relation.CutExpand Follows) (fun g => g.elim 0 Mailing.left)
        (o'.mailing? n) (o.mailing? n) := by
  cases hstep with
  | goes hg hd hgoes =>
    obtain rfl := h.numbers _ _ hg
    exact .inr (left_goes hg hgoes)
  | others _ hsame => exact .inl hsame

/-- A mailing takes only so many steps. -/
theorem Sound.exists_still {f : Nat → Office} (h : (f 0).Sound)
    (hf : ∀ k, ∃ es, Step n (f k) es (f (k + 1))) :
    ∃ k, ∀ j ≥ k, (f j).mailing? n = (f k).mailing? n := by
  have hsound : ∀ k, (f k).Sound := by
    intro k
    induction k with
    | zero => exact h
    | succ k ih =>
      obtain ⟨es, hstep⟩ := hf k
      exact hstep.works.sound ih
  refine exists_still_of_left fun k => ?_
  obtain ⟨es, hstep⟩ := hf k
  exact hstep.left (hsound k)

/-! ## Coming to an end -/

/-- Who stands in line and goes on stays where it is or leaves the front. -/
theorem line_of_turns {t : Ticket} {payload : ByteArray} {wait : Bool} {m : Member}
    {before after : Phase} {p : CourierPool} (hp : p.Coherent) (hfits : before.FitsIn p m)
    (hturns : Turns p t payload wait m before after pool) {c : CourierId}
    (hstands : before.StandsAt c) :
    pool.line c = p.line c ∨ pool.line c = (p.line c).tail := by
  cases hturns with
  | assigns | joins => exact hstands.elim
  | calls | asks => exact .inl rfl
  | marks => exact .inl rfl
  | ends =>
    obtain ⟨cell, hcell, hrest⟩ := hfits
    have hcontact := hrest _ _ (Exchange.mayYield_done _)
    obtain rfl := hstands
    exact .inr (CourierPool.leaves_leave hp (hcontact ▸ hcell)).self

/-- Deliveries that stand in the same line are to the same peer. -/
theorem Sound.id_eq (h : o.Sound) {t t' : Ticket} {d d' : Delivery} (hd : o.delivery? t = some d)
    (hd' : o.delivery? t' = some d') {c : CourierId} (hstands : d.phase.StandsAt c)
    (hstands' : d'.phase.StandsAt c) : d.member.id = d'.member.id := by
  obtain ⟨cell, hcell⟩ := (h.fits t d hd).contact hstands
  obtain ⟨cell', hcell'⟩ := (h.fits t' d' hd').contact hstands'
  exact congrArg Contact.peer (Option.some.inj (hcell.symm.trans hcell'))

/-- One step on the way to the end of a mailing: one of its deliveries goes on, or one of another
mailing that is in front of a line in which one of them stands. -/
inductive Advances (n : Nat) : Office → Office → Prop
  | goes {o : Office} {g : Mailing} {place : Nat} {phase : Phase} {pool : CourierPool} :
    o.mailing? n = some g → g.Goes o.pool place phase pool →
      Advances n o (o.withPhase g place phase pool)
  | clears {o : Office} {g g' : Mailing} {place : Nat} {d : Delivery} {c : CourierId} {t : Ticket}
    {phase : Phase} {pool : CourierPool} :
    o.mailing? n = some g → g.deliveries[place]? = some d → d.phase = .queued c →
      (o.pool.line c).head? = some t → t.mailing ≠ n → o.mailing? t.mailing = some g' →
      g'.Goes o.pool t.delivery phase pool → Advances n o (o.withPhase g' t.delivery phase pool)

theorem Advances.works (h : Advances n o o') : Works o o' := by
  cases h with
  | goes hg hgoes => exact .goes hg hgoes
  | clears _ _ _ _ _ hg' hgoes => exact .goes hg' hgoes

/-- While a delivery stands in line, the one in front goes on if it is of another mailing. -/
theorem Sound.front_goes (h : o.Sound) (hg : o.mailing? n = some g)
    (hd : g.deliveries[place]? = some d) {c : CourierId} (hphase : d.phase = .queued c)
    {t : Ticket} (hhead : (o.pool.line c).head? = some t) (ht : t.mailing ≠ n) {before : Phase}
    (hbefore : (o.delivery? t).map Delivery.phase = some before) :
    ∃ after o', Advances n o o' ∧ Follows after before ∧
      (o'.delivery? t).map Delivery.phase = some after ∧ o'.mailing? n = some g ∧
      (o'.pool.line c = o.pool.line c ∨ o'.pool.line c = (o.pool.line c).tail) := by
  obtain ⟨n', place'⟩ := t
  obtain ⟨front, hfront, hstands⟩ := h.lines.known c _ (List.mem_of_mem_head? hhead)
  rw [hfront] at hbefore
  obtain rfl := Option.some.inj hbefore
  obtain ⟨g', hg', hgo⟩ := h.canGo_of_head hhead
  obtain rfl := h.numbers _ _ hg'
  obtain ⟨after, pool, hgoes⟩ := hgo.exists_goes
  have hd' : g'.deliveries[place']? = some front := (delivery?_eq hg' _).symm.trans hfront
  obtain ⟨-, hturns⟩ := hgoes.turns_at hd'
  have hothers := mailing?_put_of_ne o (some (g'.withPhase place' after)) pool (Ne.symm ht)
  refine ⟨after, o.withPhase g' place' after pool, .clears hg hd hphase hhead ht hg' hgoes,
    ⟨_, _, _, _, _, _, hturns⟩, ?_, hothers.trans hg,
    line_of_turns h.coherent (h.fits _ _ hfront) hturns hstands⟩
  rw [delivery?_withPhase hg' hd', Function.update_self]
  rfl

/-- The delivery of another mailing in front of a line gets out of the way. -/
theorem Sound.front_leaves (h : o.Sound) (hg : o.mailing? n = some g)
    (hd : g.deliveries[place]? = some d) {c : CourierId} (hphase : d.phase = .queued c)
    {t : Ticket} (hhead : (o.pool.line c).head? = some t) (ht : t.mailing ≠ n) {before : Phase}
    (hbefore : (o.delivery? t).map Delivery.phase = some before) :
    ∃ o', ReflTransGen (Advances n) o o' ∧ o'.Sound ∧ o'.mailing? n = some g ∧
      o'.pool.line c = (o.pool.line c).tail := by
  induction before using wellFounded_follows.induction generalizing o with
  | _ before ih =>
    obtain ⟨after, o₁, hadvances, hfollows, hafter, hg₁, hline⟩ :=
      h.front_goes hg hd hphase hhead ht hbefore
    have hsound := hadvances.works.sound h
    rcases hline with hsame | hleft
    · obtain ⟨o', hrest, hsound', hg', hleft⟩ := ih after hfollows hsound hg₁ (hsame ▸ hhead) hafter
      exact ⟨o', hrest.head hadvances, hsound', hg', hsame ▸ hleft⟩
    · exact ⟨o₁, .single hadvances, hsound, hg₁, hleft⟩

/-- A delivery that stands in line gets to the front, unless another one of its mailing can go on
before. -/
theorem Sound.reaches_front (h : o.Sound) (hg : o.mailing? n = some g)
    (hd : g.deliveries[place]? = some d) {c : CourierId} (hphase : d.phase = .queued c)
    {ahead behind : List Ticket} (hline : o.pool.line c = ahead ++ ⟨n, place⟩ :: behind) :
    ∃ o', ReflTransGen (Advances n) o o' ∧ o'.Sound ∧ o'.mailing? n = some g ∧
      ∃ place, g.CanGo o'.pool place := by
  induction ahead generalizing o with
  | nil =>
    have hhead : (o.pool.line c).head? = some ⟨n, place⟩ := congrArg List.head? hline
    obtain ⟨g', hg', hgo⟩ := h.canGo_of_head hhead
    obtain rfl := Option.some.inj (hg.symm.trans hg')
    exact ⟨o, .refl, h, hg, place, hgo⟩
  | cons t ahead ih =>
    have hhead : (o.pool.line c).head? = some t := congrArg List.head? hline
    by_cases ht : t.mailing = n
    · obtain ⟨g', hg', hgo⟩ := h.canGo_of_head hhead
      obtain rfl := Option.some.inj (hg.symm.trans (ht ▸ hg'))
      exact ⟨o, .refl, h, hg, t.delivery, hgo⟩
    · obtain ⟨front, hfront, -⟩ := h.lines.known c t (List.mem_of_mem_head? hhead)
      obtain ⟨o₁, hfirst, hsound, hg₁, hleft⟩ := h.front_leaves hg hd hphase hhead ht
        (congrArg (Option.map Delivery.phase) hfront)
      rw [hline] at hleft
      obtain ⟨o', hrest, hreached⟩ := ih hsound hg₁ hleft
      exact ⟨o', hfirst.trans hrest, hreached⟩

/-- A mailing that is not over gets to where it can go on. -/
theorem Sound.reaches_canGo (h : o.Sound) (hg : o.mailing? n = some g) (hover : g.isOver = false) :
    ∃ o', ReflTransGen (Advances n) o o' ∧ o'.Sound ∧ o'.mailing? n = some g ∧
      ∃ place, g.CanGo o'.pool place := by
  rcases h.proceeds hg hover with hgo | ⟨place, d, c, -, -, hd, hphase, -⟩
  · exact ⟨o, .refl, h, hg, hgo⟩
  · have hmem : (⟨n, place⟩ : Ticket) ∈ o.pool.line c :=
      h.lines.stands _ d c ((delivery?_eq hg place).trans hd) (by rw [hphase]; rfl)
    obtain ⟨ahead, behind, hline⟩ := List.append_of_mem hmem
    exact h.reaches_front hg hd hphase hline

/-- Whatever has happened, a mailing can be brought to its end by deliveries alone. -/
theorem Sound.advances_to_end (h : o.Sound) (hg : o.mailing? n = some g) :
    ∃ o' g', ReflTransGen (Advances n) o o' ∧ o'.mailing? n = some g' ∧ g'.isOver = true := by
  induction g using (InvImage.wf Mailing.left wellFounded_follows.cutExpand).induction
    generalizing o with
  | _ g ih =>
    cases hover : g.isOver with
    | true => exact ⟨o, g, .refl, hg, hover⟩
    | false =>
      obtain ⟨o₁, hfirst, hsound, hg₁, place, hgo⟩ := h.reaches_canGo hg hover
      obtain ⟨phase, pool, hgoes⟩ := hgo.exists_goes
      obtain rfl := hsound.numbers _ _ hg₁
      obtain ⟨o', g', hrest, hover'⟩ := ih _ (cutExpand_left hgoes) (hsound.goes hg₁ hgoes)
        (mailing?_put_self ..)
      exact ⟨o', g', (hfirst.tail (.goes hg₁ hgoes)).trans hrest, hover'⟩

/-- If no member is listed twice, a delivery in front of another one is to a member to whom none is
over. -/
theorem Advances.step (hadvances : Advances n o o') (h : o.Sound) (hg : o.mailing? n = some g)
    (hdistinct : (g.deliveries.map fun d => d.member.id).Nodup) :
    ∃ es g', Step n o es o' ∧ o'.mailing? n = some g' ∧
      (g'.deliveries.map fun d => d.member.id).Nodup := by
  cases hadvances with
  | goes hg₁ hgoes =>
    obtain rfl := Option.some.inj (hg.symm.trans hg₁)
    obtain rfl := h.numbers _ _ hg
    obtain ⟨d, hd, -, -⟩ := hgoes.turns
    exact ⟨_, _, .goes hg hd hgoes, mailing?_put_self .., ids_withPhase g .. ▸ hdistinct⟩
  | @clears g₁ g' place d c t phase pool hg₁ hd hphase hhead ht hg' hgoes =>
    obtain rfl := Option.some.inj (hg.symm.trans hg₁)
    obtain ⟨n', place'⟩ := t
    obtain rfl := h.numbers _ _ hg'
    have hsame : (o.withPhase g' place' phase pool).mailing? n = o.mailing? n :=
      mailing?_put_of_ne _ _ _ (Ne.symm ht)
    refine ⟨[], g, .others (.goes hg' hgoes) hsame fun g₂ hg₂ d₂ hd₂ hover => ?_, hsame.trans hg,
      hdistinct⟩
    obtain rfl := Option.some.inj (hg.symm.trans hg₂)
    -- It is to the same peer as the one that stands behind it.
    obtain ⟨front, hfront, hstands⟩ := h.lines.known c _ (List.mem_of_mem_head? hhead)
    have hpeer := h.id_eq hfront ((delivery?_eq hg place).trans hd) hstands (by rw [hphase]; rfl)
    refine h.healthOf_goes hg' ((delivery?_eq hg' _).symm.trans hfront) hgoes fun heq => ?_
    obtain rfl := List.inj_on_of_nodup_map hdistinct hd₂ (List.mem_of_getElem? hd)
      (heq.trans hpeer)
    rw [Delivery.isOver, hphase] at hover
    cases hover

/-- Whatever has happened, the round of a mailing to distinct members can be brought to its end. -/
theorem Sound.exists_over (h : o.Sound) (hg : o.mailing? n = some g)
    (hdistinct : (g.deliveries.map fun d => d.member.id).Nodup) :
    ∃ log o' g', Round n o log o' ∧ o'.mailing? n = some g' ∧ g'.isOver = true := by
  obtain ⟨o', g', hadvances, hg', hover⟩ := h.advances_to_end hg
  suffices hround : ∃ log g₁, Round n o log o' ∧ o'.Sound ∧ o'.mailing? n = some g₁ ∧
      (g₁.deliveries.map fun d => d.member.id).Nodup by
    obtain ⟨log, -, hround, -⟩ := hround
    exact ⟨log, o', g', hround, hg', hover⟩
  clear hg' hover
  induction hadvances with
  | refl => exact ⟨[], g, .starts, h, hg, hdistinct⟩
  | tail _ hstep ih =>
    obtain ⟨log, g₁, hround, hsound, hg₁, hdistinct₁⟩ := ih
    obtain ⟨es, g₂, hstep', hg₂, hdistinct₂⟩ := hstep.step hsound hg₁ hdistinct₁
    exact ⟨_, g₂, hround.goesOn hstep', hstep.works.sound hsound, hg₂, hdistinct₂⟩

end Office

end PeerCluster
