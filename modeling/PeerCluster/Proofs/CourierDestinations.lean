import PeerCluster.CourierPool.Sweeps
import PeerCluster.Proofs.DirectedPlans

/-!
# Where couriers go

**Staying on course** (`KeepsCourse`). A courier goes to one address as long as it works. Whatever
happens to the pool, except that a delivery leaves a courier, no courier is sent elsewhere and none is
given a connection, and who is newly found for an id goes to the peer of that id. So it is with the
pieces of a round as well as with a sweep all at once.

**The right connections** (`Directed`). The connection that a courier holds was opened to the address
that it goes to. This lasts while couriers keep their course, and when a delivery leaves a courier, if
it has opened connections to that address only (`Directed.leave`).
-/

namespace PeerCluster

namespace CourierPool

variable {p p' p'' : CourierPool} {c : CourierId} {m : Member} {id : MemberId}

/-- Where a courier goes. -/
def destination? (p : CourierPool) (c : CourierId) : Option Member :=
  (p.desk? c).map fun d => d.courier.destination

theorem destination?_of_desk {d : Desk} (h : p.desk? c = some d) :
    p.destination? c = some d.courier.destination := by
  rw [destination?, h]
  rfl

theorem exists_desk_of_destination (h : p.destination? c = some m) :
    ∃ d, p.desk? c = some d ∧ d.courier.destination = m :=
  Option.map_eq_some_iff.1 h

/-- Every courier goes where it went before and holds no other connection, and whoever is now found for
an id and was not before goes to the peer of that id. -/
structure KeepsCourse (p p' : CourierPool) : Prop where
  destinations : ∀ c m, p.destination? c = some m → p'.destination? c = some m
  held : ∀ c link, p'.held? c = some link → p.held? c = some link
  current : ∀ id c, p'.current.get? id = some c →
    p.current.get? id = some c ∨ ∃ m, p'.destination? c = some m ∧ m.id = id

theorem KeepsCourse.refl (p : CourierPool) : p.KeepsCourse p :=
  ⟨fun _ _ h => h, fun _ _ h => h, fun _ _ h => .inl h⟩

theorem KeepsCourse.trans (h : p.KeepsCourse p') (h' : p'.KeepsCourse p'') : p.KeepsCourse p'' where
  destinations c m hm := h'.destinations c m (h.destinations c m hm)
  held c link hlink := h.held c link (h'.held c link hlink)
  current id c hc := by
    rcases h'.current id c hc with hc | hnew
    · refine (h.current id c hc).imp_right fun ⟨m, hm, hid⟩ => ⟨m, h'.destinations c m hm, hid⟩
    · exact .inr hnew

/-- Where no desk is another one and nobody new is found. -/
theorem keepsCourse_of_desks (hdesks : p'.desks = p.desks)
    (hcurrent : ∀ id c, p'.current.get? id = some c → p.current.get? id = some c) :
    p.KeepsCourse p' := by
  have hdesk : ∀ c, p'.desk? c = p.desk? c := fun c => congrArg (·[c.index]?) hdesks
  refine ⟨fun c m hm => ?_, fun c link hlink => ?_, fun id c hc => .inl (hcurrent id c hc)⟩
  · rwa [destination?, hdesk]
  · rwa [held?, hdesk] at hlink

theorem keepsCourse_modify {f : Desk → Desk} (hf : ∀ d, (f d).courier = d.courier) :
    p.KeepsCourse (p.modify c f) := by
  have hheld : (p.modify c f).held? = p.held? := held?_modify fun d _ => congrArg Courier.link (hf d)
  refine ⟨fun c' m hm => ?_, fun c' link hlink => hheld ▸ hlink, fun id c' hc => .inl hc⟩
  obtain ⟨d, hd, rfl⟩ := exists_desk_of_destination hm
  rw [destination?, desk?_modify]
  split
  next heq =>
    rw [← heq, hd]
    exact congrArg (some ·.destination) (hf d)
  next => exact destination?_of_desk hd

theorem keepsCourse_letGo (p : CourierPool) (c : CourierId) : p.KeepsCourse (p.letGo c) := by
  refine ⟨fun c' m hm => ?_, fun c' link hlink => ?_, fun id c' hc => .inl ?_⟩
  · obtain ⟨d, hd, rfl⟩ := exists_desk_of_destination hm
    rw [destination?, desk?_letGo]
    split
    next heq =>
      rw [← heq, hd]
      rfl
    next => exact destination?_of_desk hd
  · rw [held?_letGo] at hlink
    by_cases hc : c' = c
    · rw [hc, Function.update_self] at hlink
      cases hlink
    · rwa [Function.update_of_ne hc] at hlink
  · rwa [(posted_letGo p c).2] at hc

theorem keepsCourse_retire (p : CourierPool) (c : CourierId) : p.KeepsCourse (p.retire c) := by
  rcases p.retire_cases c with h | h <;> rw [h]
  · exact keepsCourse_letGo p c
  · exact .refl p

theorem keepsCourse_erase (p : CourierPool) (id : MemberId) :
    p.KeepsCourse { p with current := p.current.erase id } :=
  keepsCourse_of_desks rfl fun _ _ => get?_current_erase

theorem destination?_hire (p : CourierPool) (m : Member) :
    (p.hire m).2.destination? (p.hire m).1 = some m := by
  rw [destination?, desk?_hire, if_pos rfl]
  rfl

theorem keepsCourse_hire (p : CourierPool) (m : Member) : p.KeepsCourse (p.hire m).2 := by
  refine ⟨fun c m' hm => ?_, fun c link hlink => ?_, fun id c hc => ?_⟩
  · obtain ⟨d, hd, rfl⟩ := exists_desk_of_destination hm
    rw [destination?, desk?_hire, if_neg, hd]
    · rfl
    · rintro rfl
      rw [desk?_hired] at hd
      cases hd
  · rwa [held?_hire] at hlink
  · have hinsert : (p.current.insert m.id (p.hire m).1).get? id = some c := hc
    rw [MemberMap.get?_insert] at hinsert
    split at hinsert
    next heq =>
      rw [← Option.some.inj hinsert, heq]
      exact .inr ⟨m, destination?_hire p m, rfl⟩
    next => exact .inl hinsert

theorem keepsCourse_courierFor (p : CourierPool) (m : Member) : p.KeepsCourse (p.courierFor m).2 := by
  have hfinds := p.finds_courierFor m
  generalize p.courierFor m = found at hfinds
  cases hfinds with
  | keeps => exact .refl p
  | @replaces c => exact (keepsCourse_retire p c).trans (keepsCourse_hire _ m)
  | hires => exact keepsCourse_hire p m

theorem keepsCourse_assign (p : CourierPool) (m : Member) : p.KeepsCourse (p.assign m).2 :=
  (keepsCourse_courierFor p m).trans (keepsCourse_modify fun _ => rfl)

theorem keepsCourse_join (p : CourierPool) (c : CourierId) (t : Ticket) : p.KeepsCourse (p.join c t) :=
  keepsCourse_modify fun _ => rfl

theorem keepsCourse_remove (p : CourierPool) (id : MemberId) : p.KeepsCourse (p.remove id).2 := by
  rw [remove]
  split
  · exact .refl p
  · rename_i c _
    have hfree : p.KeepsCourse (if p.isFree c then p.letGo c else p) := by
      split
      · exact keepsCourse_letGo p c
      · exact .refl p
    have hcurrent : (if p.isFree c then p.letGo c else p).current = p.current := by
      split
      · exact (posted_letGo p c).2
      · rfl
    refine hfree.trans (keepsCourse_of_desks rfl fun id' c' hc => ?_)
    exact get?_current_erase hc

/-! ## Sweeps -/

theorem keepsCourse_sweepOne (p : CourierPool) (now : Nat) (id : MemberId) (c : CourierId) :
    p.KeepsCourse (sweepOne now p id c).2 := by
  rw [sweepOne]
  split
  · exact .refl p
  · split
    · exact .refl p
    · split
      · exact .refl p
      · dsimp only
        split
        · exact (keepsCourse_letGo p c).trans (keepsCourse_erase _ id)
        · exact keepsCourse_letGo p c

/-- Where every change to a pool keeps its couriers on course, many do. -/
theorem keepsCourse_foldl {α β : Type} {f : α × CourierPool → β → α × CourierPool}
    (hf : ∀ (s : α × CourierPool) b, s.2.KeepsCourse (f s b).2) (bs : List β)
    (s : α × CourierPool) : s.2.KeepsCourse (bs.foldl f s).2 := by
  induction bs generalizing s with
  | nil => exact .refl s.2
  | cons b rest ih => exact (hf s b).trans (ih (f s b))

theorem keepsCourse_sweep (p : CourierPool) (now : Nat) : p.KeepsCourse (p.sweep now).2 :=
  keepsCourse_foldl (fun (s : Nat × CourierPool) e => keepsCourse_sweepOne s.2 now e.1 e.2) _ (0, p)

theorem keepsCourse_holdAll (p : CourierPool) (route : List (MemberId × CourierId)) :
    p.KeepsCourse (p.holdAll route) := by
  induction route generalizing p with
  | nil => exact .refl p
  | cons e rest ih =>
    have hhold : p.KeepsCourse (p.hold e.2) := keepsCourse_modify fun _ => rfl
    exact hhold.trans (ih (p.hold e.2))

theorem keepsCourse_release (p : CourierPool) (c : CourierId) : p.KeepsCourse (p.release c) := by
  have hmodify : p.KeepsCourse (p.modify c fun d => { d with holders := d.holders - 1 }) :=
    keepsCourse_modify fun _ => rfl
  rw [release]
  split
  · exact hmodify
  · exact hmodify.trans (keepsCourse_retire _ c)

theorem keepsCourse_stepOut (p : CourierPool) (c : CourierId) : p.KeepsCourse (p.stepOut c) :=
  keepsCourse_modify fun _ => rfl

/-! ## Couriers and their connections -/

variable {opened opened' : Link → Option String}

/-- Every connection that is held was opened to the address that its courier goes to, and the courier
that is found for an id goes to the peer of that id. -/
structure Directed (opened : Link → Option String) (p : CourierPool) : Prop where
  held : ∀ c link, p.held? c = some link →
    ∃ m, p.destination? c = some m ∧ opened link = some m.address
  current : ∀ id c, p.current.get? id = some c → ∃ m, p.destination? c = some m ∧ m.id = id

theorem Directed.keepsCourse (h : p.Directed opened) (hcourse : p.KeepsCourse p') :
    p'.Directed opened where
  held c link hlink := by
    obtain ⟨m, hm, hopened⟩ := h.held c link (hcourse.held c link hlink)
    exact ⟨m, hcourse.destinations c m hm, hopened⟩
  current id c hc := by
    rcases hcourse.current id c hc with hc | hnew
    · obtain ⟨m, hm, hid⟩ := h.current id c hc
      exact ⟨m, hcourse.destinations c m hm, hid⟩
    · exact hnew

theorem Directed.opens (h : p.Directed opened)
    (hopened : ∀ link address, opened link = some address → opened' link = some address) :
    p.Directed opened' where
  held c link hlink := by
    obtain ⟨m, hm, haddress⟩ := h.held c link hlink
    exact ⟨m, hm, hopened link _ haddress⟩
  current := h.current

/-- A delivery leaves a courier that holds one of the connections that were opened to its address. -/
theorem Directed.leave {courier : Courier} {own : List Link} (h : p.Directed opened)
    (hm : p.destination? c = some m) (hcourier : courier.HoldsOf m own)
    (hown : ∀ link ∈ own, opened link = some m.address) :
    (p.leave c courier).Directed opened ∧
      ∀ c' m', p.destination? c' = some m' → (p.leave c courier).destination? c' = some m' := by
  obtain ⟨d, hd, -⟩ := exists_desk_of_destination hm
  let q := p.modify c fun d => ⟨courier, d.line.tail, d.holders - 1⟩
  have hdesk : ∀ c', q.desk? c' =
      if c' = c then some ⟨courier, d.line.tail, d.holders - 1⟩ else p.desk? c' := fun c' => by
    rw [desk?_modify, hd]
    rfl
  have hsame : ∀ c', q.destination? c' = p.destination? c' := fun c' => by
    rw [destination?, hdesk]
    split
    next heq =>
      rw [heq, hm, ← hcourier.destination]
      rfl
    next => rfl
  have hq : q.Directed opened := by
    refine ⟨fun c' link hlink => ?_, fun id c' hc => ?_⟩
    · rw [hsame]
      rw [held?, hdesk] at hlink
      split at hlink
      next heq => exact ⟨m, heq ▸ hm, hown link (hcourier.held link hlink)⟩
      next => exact h.held c' link hlink
    · rw [hsame]
      exact h.current id c' hc
  have hcourse : q.KeepsCourse (p.leave c courier) := by
    rw [CourierPool.leave]
    split
    · exact .refl q
    · exact keepsCourse_retire q c
  exact ⟨hq.keepsCourse hcourse, fun c' m' hm' =>
    hcourse.destinations c' m' ((hsame c').trans hm')⟩

end CourierPool

/-! ## Rounds -/

namespace Sweeper

open CourierPool

theorem keepsCourse_setOut (p : CourierPool) : p.KeepsCourse (Sweeper.setOut p).2 :=
  keepsCourse_holdAll p p.current.entries

theorem keepsCourse_goOn (s : Sweeper) (now : Nat) (t : Ticket) (p : CourierPool) :
    p.KeepsCourse (s.goOn now t p).2 := by
  rw [goOn]
  split
  · exact .refl p
  · rename_i id c rest _
    split
    · split
      · exact keepsCourse_join p c t
      · exact keepsCourse_release p c
    · split
      · exact keepsCourse_letGo p c
      · exact (keepsCourse_stepOut p c).trans (keepsCourse_release _ c)
    · exact keepsCourse_stepOut p c
    · split
      · exact (keepsCourse_erase p id).trans (keepsCourse_release _ c)
      · exact keepsCourse_release p c

end Sweeper

end PeerCluster
