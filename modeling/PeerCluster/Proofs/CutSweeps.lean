import PeerCluster.CourierPool.Sweeps
import PeerCluster.Proofs.HeldConnections

/-!
# Rounds that nobody comes in the way of

**Theorem (`Sweeper.exists_undisturbed`).** Where nobody else does anything from the beginning of a
round to its end, the round leaves the pool as a sweep all at once does, and counts as many couriers.

At each desk the pieces of the round undo each other except for what the sweep does there
(`exists_visit`): who has come to the courier goes again, and who has joined the line leaves it. The
desks that are still to be visited do not matter, since a round comes to every desk once
(`holdAll_comm`).
-/

namespace PeerCluster

namespace CourierPool

variable {p : CourierPool} {c c' : CourierId} {d : Desk} {id : MemberId}

/-! ## Changes to one desk -/

theorem modify_modify (p : CourierPool) (c : CourierId) (f g : Desk → Desk) :
    (p.modify c f).modify c g = p.modify c (g ∘ f) := by
  have hdesks : (p.desks.modify c.index f).modify c.index g = p.desks.modify c.index (g ∘ f) := by
    refine Array.ext_getElem? fun i => ?_
    rw [Array.getElem?_modify, Array.getElem?_modify, Array.getElem?_modify]
    split
    · exact Option.map_map ..
    · rfl
  exact congrArg (fun desks => { p with desks }) hdesks

theorem modify_comm (hne : c ≠ c') (f g : Desk → Desk) :
    (p.modify c f).modify c' g = (p.modify c' g).modify c f := by
  have hdesks : (p.desks.modify c.index f).modify c'.index g =
      (p.desks.modify c'.index g).modify c.index f := by
    refine Array.ext_getElem? fun i => ?_
    simp only [Array.getElem?_modify]
    by_cases hc : c.index = i
    · have hc' : c'.index ≠ i := fun heq => hne (congrArg CourierId.mk (hc.trans heq.symm))
      rw [if_pos hc, if_neg hc', if_neg hc', if_pos hc]
    · rw [if_neg hc, if_neg hc]
  exact congrArg (fun desks => { p with desks }) hdesks

/-- Only what a change makes of the desk as it is matters. -/
theorem modify_congr {f g : Desk → Desk} (hd : p.desk? c = some d) (hsame : f d = g d) :
    p.modify c f = p.modify c g := by
  have hdesks : p.desks.modify c.index f = p.desks.modify c.index g := by
    refine Array.ext_getElem? fun i => ?_
    rw [Array.getElem?_modify, Array.getElem?_modify]
    split
    next heq =>
      have hi : p.desks[i]? = some d := heq ▸ hd
      rw [hi]
      exact congrArg some hsame
    next => rfl
  exact congrArg (fun desks => { p with desks }) hdesks

theorem modify_of_same {f : Desk → Desk} (hd : p.desk? c = some d) (hsame : f d = d) :
    p.modify c f = p := by
  have hdesks : (p.desks.modify c.index fun d => d) = p.desks := by
    refine Array.ext_getElem? fun i => ?_
    rw [Array.getElem?_modify]
    split
    · exact Option.map_id'
    · rfl
  exact (modify_congr hd hsame).trans (congrArg (fun desks => { p with desks }) hdesks)

theorem desk?_modify_self {f : Desk → Desk} (hd : p.desk? c = some d) :
    (p.modify c f).desk? c = some (f d) := by
  rw [desk?_modify, if_pos rfl, hd]
  rfl

theorem letGo_of_desk (hd : p.desk? c = some d) :
    p.letGo c = { p.modify c fun d => { d with courier := d.courier.dropped } with
      released := d.courier.link.toList ++ p.released } := by
  rw [letGo, hd]

/-! ## One desk -/

/-- Who is done with a courier of the pool only counts itself out. -/
theorem release_of_current (hc : p.current.get? id = some c) :
    p.release c = p.modify c fun d => { d with holders := d.holders - 1 } := by
  rw [release]
  exact if_pos (isCurrent_of_get? hc)

/-- So it does with a courier that has left the pool and holds no connection. -/
theorem release_of_dropped (hd : p.desk? c = some d) (hlink : d.courier.dropped = d.courier)
    (hgone : p.isCurrent c = false) :
    p.release c = p.modify c fun d => { d with holders := d.holders - 1 } := by
  let q := p.modify c fun d => { d with holders := d.holders - 1 }
  have hcounted : q.desk? c = some { d with holders := d.holders - 1 } := desk?_modify_self hd
  have hnone : d.courier.link = none := congrArg Courier.link hlink.symm
  have hsame : (q.modify c fun d => { d with courier := d.courier.dropped }) = q := by
    refine modify_of_same hcounted ?_
    dsimp only
    rw [hlink]
  have hletGo : q.letGo c = q := by
    rw [letGo_of_desk hcounted, hsame]
    dsimp only
    rw [hnone]
    rfl
  have hgone' : q.isCurrent c = false := hgone
  show (if q.isCurrent c then q else q.retire c) = q
  rw [hgone', if_neg Bool.false_ne_true]
  rcases q.retire_cases c with heq | heq
  · exact heq.trans hletGo
  · exact heq

/-- Who comes to a courier of the pool and goes again changes nothing. -/
theorem release_hold (hc : p.current.get? id = some c) (hd : p.desk? c = some d) :
    (p.hold c).release c = p := by
  have hfound : (p.hold c).current.get? id = some c := hc
  rw [release_of_current hfound, hold, modify_modify]
  exact modify_of_same hd rfl

/-- Nor does it if it stands in line in between. -/
theorem release_stepOut (t : Ticket) (hc : p.current.get? id = some c) (hd : p.desk? c = some d)
    (hline : d.line = []) : (((p.hold c).join c t).stepOut c).release c = p := by
  have hfound : (((p.hold c).join c t).stepOut c).current.get? id = some c := hc
  rw [release_of_current hfound, stepOut, join, hold, modify_modify, modify_modify, modify_modify]
  refine modify_of_same hd ?_
  show Desk.mk d.courier (d.line ++ [t]).tail d.holders = d
  rw [hline]
  exact congrArg (Desk.mk d.courier · d.holders) hline.symm

/-- Who comes to a free courier and has it let go of its connection leaves the line with nothing else
done. -/
theorem stepOut_letGo (t : Ticket) (hd : p.desk? c = some d) (hline : d.line = []) :
    (((p.hold c).join c t).letGo c).stepOut c =
      { p.modify c fun _ => ⟨d.courier.dropped, [], d.holders + 1⟩ with
        released := d.courier.link.toList ++ p.released } := by
  have hjoined : ((p.hold c).join c t).desk? c = some ⟨d.courier, d.line ++ [t], d.holders + 1⟩ :=
    desk?_modify_self (desk?_modify_self hd)
  have hdesks :
      ((((p.hold c).join c t).modify c fun d => { d with courier := d.courier.dropped }).modify c
        fun d => { d with line := d.line.tail }) =
      p.modify c fun _ => ⟨d.courier.dropped, [], d.holders + 1⟩ := by
    rw [modify_modify, join, modify_modify, hold, modify_modify]
    refine modify_congr hd ?_
    show Desk.mk d.courier.dropped (d.line ++ [t]).tail (d.holders + 1) = _
    rw [hline]
    rfl
  rw [letGo_of_desk hjoined]
  exact congrArg (fun q : CourierPool => { q with released := d.courier.link.toList ++ p.released })
    hdesks

/-- When it goes after the courier has left the pool, only the connection is missing. -/
theorem release_swept {current : MemberMap CourierId} (released : List Link) (hd : p.desk? c = some d)
    (hline : d.line = []) (hgone : isCurrent { p with current } c = false) :
    release { p.modify c fun _ => ⟨d.courier.dropped, [], d.holders + 1⟩ with released, current } c =
      { p.modify c fun d => { d with courier := d.courier.dropped } with released, current } := by
  have hdesk :
      desk? { p.modify c fun _ => ⟨d.courier.dropped, [], d.holders + 1⟩ with released, current } c =
        some ⟨d.courier.dropped, [], d.holders + 1⟩ := desk?_modify_self hd
  have hdesks :
      ((p.modify c fun _ => ⟨d.courier.dropped, [], d.holders + 1⟩).modify c
        fun d => { d with holders := d.holders - 1 }) =
      p.modify c fun d => { d with courier := d.courier.dropped } := by
    rw [modify_modify]
    refine modify_congr hd ?_
    rw [hline]
    rfl
  rw [release_of_dropped hdesk rfl hgone]
  exact congrArg (fun q : CourierPool => { q with released, current }) hdesks

/-! ## The desks that are still to be visited -/

variable {route : List (MemberId × CourierId)}

/-- What concerns none of these couriers may as well happen before. -/
theorem holdAll_comm {f : CourierPool → CourierPool}
    (hf : ∀ q, ∀ e ∈ route, (f q).hold e.2 = f (q.hold e.2)) :
    (f p).holdAll route = f (p.holdAll route) := by
  induction route generalizing p with
  | nil => rfl
  | cons e rest ih =>
    show ((f p).hold e.2).holdAll rest = f ((p.hold e.2).holdAll rest)
    rw [hf p e List.mem_cons_self]
    exact ih fun q e' he' => hf q e' (List.mem_cons_of_mem _ he')

theorem current_holdAll (p : CourierPool) (route : List (MemberId × CourierId)) :
    (p.holdAll route).current = p.current := by
  induction route generalizing p with
  | nil => rfl
  | cons e rest ih => exact ih (p.hold e.2)

theorem desk?_hold_of_ne (p : CourierPool) (hne : c ≠ c') : (p.hold c').desk? c = p.desk? c := by
  rw [hold, desk?_modify, if_neg hne]

theorem desk?_holdAll (hnew : ∀ e ∈ route, c ≠ e.2) : (p.holdAll route).desk? c = p.desk? c := by
  induction route generalizing p with
  | nil => rfl
  | cons e rest ih =>
    exact (ih fun e' he' => hnew e' (List.mem_cons_of_mem _ he')).trans
      (desk?_hold_of_ne p (hnew e List.mem_cons_self))

theorem hold_swept (p : CourierPool) (id : MemberId) (hne : c ≠ c') :
    (p.swept id c).hold c' = (p.hold c').swept id c := by
  rw [swept, swept, letGo, letGo, desk?_hold_of_ne p hne]
  cases p.desk? c with
  | none => rfl
  | some d =>
    have hcomm := modify_comm (p := p) hne (fun d => { d with courier := d.courier.dropped })
      fun d => { d with holders := d.holders + 1 }
    exact congrArg (fun q : CourierPool => { q with
      released := d.courier.link.toList ++ p.released
      current := p.current.erase id }) hcomm

/-- A sweep does the same at a desk, whoever is going to come to others. -/
theorem sweepOne_holdAll (now : Nat) (hc : p.current.get? id = some c)
    (hnew : ∀ e ∈ route, c ≠ e.2) : sweepOne now (p.holdAll route) id c =
      ((sweepOne now p id c).1, (sweepOne now p id c).2.holdAll route) := by
  have hfound : (p.holdAll route).current.get? id = some c := by rwa [current_holdAll]
  have hswept : (p.swept id c).holdAll route = (p.holdAll route).swept id c :=
    holdAll_comm (f := fun q => q.swept id c) fun q e he => hold_swept q id (hnew e he)
  rw [sweepOne_of_current now hc, sweepOne_of_current now hfound, isDue_of_desk (desk?_holdAll hnew)]
  split
  · rw [hswept]
  · rfl

end CourierPool

/-! ## Rounds -/

namespace Sweeper

open CourierPool

variable {p : CourierPool} {c : CourierId} {d : Desk} {id : MemberId}
  {rest : List (MemberId × CourierId)}

/-- A round and the pool after so many more pieces, where nobody else does anything. -/
def undisturbed (now : Nat) (t : Ticket) :
    (pieces : Nat) → Sweeper × CourierPool → Sweeper × CourierPool
  | 0, r => r
  | pieces + 1, r => undisturbed now t pieces (r.1.goOn now t r.2)

theorem undisturbed_add (now : Nat) (t : Ticket) (k k' : Nat) (r : Sweeper × CourierPool) :
    undisturbed now t (k + k') r = undisturbed now t k' (undisturbed now t k r) := by
  induction k generalizing r with
  | zero => rw [Nat.zero_add, undisturbed]
  | succ k ih =>
    rw [Nat.succ_add, undisturbed, undisturbed]
    exact ih _

/-- At one desk a round does what a sweep does there. -/
theorem exists_visit (now : Nat) (t : Ticket) (count : Nat) (rest : List (MemberId × CourierId))
    (hc : p.current.get? id = some c) (hd : p.desk? c = some d)
    (hone : ∀ id', p.current.get? id' = some c → id' = id) :
    ∃ pieces, undisturbed now t pieces ({ route := (id, c) :: rest, count }, p.hold c) =
      ({ route := rest, count := if (sweepOne now p id c).1 then count + 1 else count },
        (sweepOne now p id c).2) := by
  have hfree : (p.hold c).isFree c = d.line.isEmpty := by
    rw [isFree, hold, desk?_modify_self hd]
  rw [sweepOne_of_current now hc]
  cases hline : d.line.isEmpty with
  | false =>
    have hdue : p.isDue now c = false := by
      rw [isDue, hd, Option.any_some, hline, Bool.false_and]
    refine ⟨1, ?_⟩
    simp only [undisturbed, goOn, hfree, hline, hdue, release_hold hc hd, Bool.false_eq_true, if_false]
  | true =>
    have hempty : d.line = [] := List.isEmpty_iff.1 hline
    have hspent : ((p.hold c).join c t).isOverdue now c = p.isDue now c := by
      have hjoined : ((p.hold c).join c t).desk? c =
          some ⟨d.courier, d.line ++ [t], d.holders + 1⟩ :=
        desk?_modify_self (desk?_modify_self hd)
      rw [isOverdue, hjoined, isDue, hd, Option.any_some, Option.any_some, hline, Bool.true_and]
      exact d.courier.isSome_recycle now
    cases hdue : p.isDue now c with
    | false =>
      -- It joins the line, looks, and leaves the line again.
      refine ⟨2, ?_⟩
      simp only [undisturbed, goOn, hfree, hline, hspent, hdue, release_stepOut t hc hd hempty,
        Bool.false_eq_true, if_false, if_true]
    | true =>
      have hgone : isCurrent { p with current := p.current.erase id } c = false := by
        rw [Bool.eq_false_iff, ne_eq, isCurrent_iff]
        rintro ⟨id', hid'⟩
        rw [MemberMap.get?_erase] at hid'
        split at hid'
        · cases hid'
        · exact absurd (hone id' hid') ‹_›
      have hback := release_swept (d.courier.link.toList ++ p.released) hd hempty hgone
      -- It joins the line, lets the connection go, leaves the line and takes the courier out.
      refine ⟨4, ?_⟩
      simp only [undisturbed, goOn, hfree, hline, hspent, hdue, if_true]
      rw [stepOut_letGo t hd hempty]
      refine (if_pos hc).trans ?_
      rw [swept, letGo_of_desk hd]
      exact congrArg (Prod.mk _) hback

/-- The rest of a round does what the rest of a sweep does. -/
theorem exists_round (now : Nat) (t : Ticket) (count : Nat) (h : p.Coherent)
    (hcurrent : ∀ e ∈ rest, p.current.get? e.1 = some e.2)
    (hdistinct : rest.Pairwise fun e e' => e.1 ≠ e'.1 ∧ e.2 ≠ e'.2) :
    let r := rest.foldl (fun s e => (if (sweepOne now s.2 e.1 e.2).1 then s.1 + 1 else s.1,
      (sweepOne now s.2 e.1 e.2).2)) (count, p)
    ∃ pieces, undisturbed now t pieces ({ route := rest, count }, p.holdAll rest) =
      ({ route := [], count := r.1 }, r.2) := by
  induction rest generalizing p count with
  | nil => exact ⟨0, rfl⟩
  | cons e rest ih =>
    obtain ⟨id, c⟩ := e
    obtain ⟨hnew, hdistinct⟩ := List.pairwise_cons.1 hdistinct
    have hc : p.current.get? id = some c := hcurrent _ List.mem_cons_self
    have hne : ∀ e ∈ rest, c ≠ e.2 := fun e he => (hnew e he).2
    obtain ⟨d, hd, -⟩ := h.exists_desk hc
    have hheld : (p.hold c).holdAll rest = (p.holdAll rest).hold c :=
      holdAll_comm (f := fun q => q.hold c) fun q e he => modify_comm (hne e he) ..
    have hfound : (p.holdAll rest).current = p.current := current_holdAll p rest
    obtain ⟨k, hvisit⟩ := exists_visit now t count rest (hfound ▸ hc)
      ((desk?_holdAll hne).trans hd) fun id' hid' => h.eq_of_current (hfound ▸ hid') hc
    have hrest : ∀ e ∈ rest, (sweepOne now p id c).2.current.get? e.1 = some e.2 := by
      intro e he
      rw [sweepOne_of_current now hc]
      split
      · exact (MemberMap.get?_erase ..).trans ((if_neg (hnew e he).1.symm).trans
          (hcurrent e (List.mem_cons_of_mem _ he)))
      · exact hcurrent e (List.mem_cons_of_mem _ he)
    obtain ⟨k', hround⟩ := ih (if (sweepOne now p id c).1 then count + 1 else count)
      (rearranges_sweepOne h now id c).coherent hrest hdistinct
    refine ⟨k + k', ?_⟩
    rw [undisturbed_add]
    -- Who is going to come to the other couriers might as well come to them after this visit.
    show undisturbed now t k' (undisturbed now t k (_, (p.hold c).holdAll rest)) = _
    rw [hheld, hvisit, sweepOne_holdAll now hc hne]
    exact hround

/-- **Theorem.** A round that nobody comes in the way of leaves the pool as a sweep does, and counts as
many couriers. -/
theorem exists_undisturbed (h : p.Coherent) (now : Nat) (t : Ticket) :
    ∃ pieces, undisturbed now t pieces (setOut p) =
      ({ route := [], count := (p.sweep now).1 }, (p.sweep now).2) :=
  exists_round now t 0 h (fun _ => MemberMap.mem_entries.1) h.pairwise_current

end Sweeper

end PeerCluster
