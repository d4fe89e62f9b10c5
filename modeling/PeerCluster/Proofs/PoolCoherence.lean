import PeerCluster.CourierPool
import PeerCluster.Proofs.HealthCells

/-!
# The pool keeps its peers apart

**Couriers** (`Coherent`). A courier reports into a cell that is for its own peer, and the courier
that the pool keeps for an id goes to the peer of that id.

**Changes** (`Rearranges`). Couriers are hired, retired and taken out of the pool at any time. Nobody
who stands in line for a courier notices, and nobody's health changes. Joining a line, leaving it and
reporting about a peer change just that.
-/

namespace PeerCluster

/-- The peer that a courier goes to, and where it reports about it. -/
structure Contact where
  peer : MemberId
  cell : HealthCell

namespace Courier

def contact (c : Courier) : Contact :=
  ⟨c.destination.id, c.cell⟩

end Courier

namespace CourierPool

variable {p p' p'' : CourierPool} {c c' : CourierId}

/-- The contact of a courier that was hired. -/
def contact? (p : CourierPool) (c : CourierId) : Option Contact :=
  (p.desk? c).map fun d => d.courier.contact

/-- Those who stand in line for a courier. -/
def line (p : CourierPool) (c : CourierId) : List Ticket :=
  (p.desk? c).elim [] Desk.line

theorem contact?_of_desk {d : Desk} (h : p.desk? c = some d) :
    p.contact? c = some d.courier.contact := by
  rw [contact?, h]
  rfl

theorem line_of_desk {d : Desk} (h : p.desk? c = some d) : p.line c = d.line := by
  rw [line, h]
  rfl

theorem exists_desk {x : Contact} (h : p.contact? c = some x) :
    ∃ d, p.desk? c = some d ∧ d.courier.contact = x :=
  Option.map_eq_some_iff.1 h

/-! ## Changing a desk -/

theorem desk?_modify (p : CourierPool) (c c' : CourierId) (f : Desk → Desk) :
    (p.modify c f).desk? c' = if c' = c then (p.desk? c).map f else p.desk? c' := by
  rw [desk?, modify, Array.getElem?_modify]
  by_cases h : c' = c
  · rw [if_pos h, h, if_pos rfl]
    rfl
  · have hindex : c.index ≠ c'.index := fun heq => h (congrArg CourierId.mk heq.symm)
    rw [if_neg h, if_neg hindex]
    rfl

theorem contact?_modify {f : Desk → Desk}
    (hf : ∀ d, p.desk? c = some d → (f d).courier.contact = d.courier.contact) (c' : CourierId) :
    (p.modify c f).contact? c' = p.contact? c' := by
  rw [contact?, desk?_modify]
  by_cases h : c' = c
  · subst h
    rw [if_pos rfl, contact?]
    cases hdesk : p.desk? c' with
    | none => rfl
    | some d => exact congrArg some (hf d hdesk)
  · rw [if_neg h]
    rfl

theorem line_modify_self {d : Desk} (f : Desk → Desk) (h : p.desk? c = some d) :
    (p.modify c f).line c = (f d).line := by
  rw [line, desk?_modify, if_pos rfl, h]
  rfl

theorem line_modify_of_ne (f : Desk → Desk) (h : c' ≠ c) : (p.modify c f).line c' = p.line c' := by
  rw [line, desk?_modify, if_neg h]
  rfl

/-! ## Coherence -/

/-- The couriers report to where they should, and the pool finds the right ones. -/
structure KeptBy (owner : HealthCell → MemberId) (p : CourierPool) : Prop where
  board : p.board.Kept owner
  hired : ∀ c x, p.contact? c = some x →
    x.cell.index < p.board.cells.size ∧ owner x.cell = x.peer
  current : ∀ id c, p.current.get? id = some c → ∃ cell, p.contact? c = some ⟨id, cell⟩

/-- Every cell is for one id only. -/
def Coherent (p : CourierPool) : Prop :=
  ∃ owner, p.KeptBy owner

theorem coherent_initial (settings : Settings.Delivery) (fanOut : Settings.FanOut)
    (self : Handshake) : Coherent { settings, fanOut, self } :=
  ⟨fun _ => ⟨0⟩, ⟨⟨nofun, nofun⟩, fun c x h => by simp [contact?, desk?] at h, nofun⟩⟩

/-- A pool with the same board and the same contacts is as coherent if it finds fewer couriers. -/
theorem Coherent.of_contacts (h : p.Coherent) (hboard : p'.board = p.board)
    (hcontacts : ∀ c, p'.contact? c = p.contact? c)
    (hcurrent : ∀ id c, p'.current.get? id = some c → p.current.get? id = some c) :
    p'.Coherent := by
  obtain ⟨owner, hkept, hhired, hfound⟩ := h
  refine ⟨owner, hboard ▸ hkept, fun c x hx => ?_, fun id c hc => ?_⟩
  · rw [hboard]
    exact hhired c x (hcontacts c ▸ hx)
  · rw [hcontacts]
    exact hfound id c (hcurrent id c hc)

/-- What is reported about one peer does not show in the health of another. -/
theorem Coherent.healthOf_mark (h : p.Coherent) {x : Contact} (hx : p.contact? c = some x)
    {id : MemberId} (hid : id ≠ x.peer) (next : Health) :
    (p.board.mark x.cell next).healthOf id = p.board.healthOf id := by
  obtain ⟨owner, hkept, hhired, -⟩ := h
  exact hkept.healthOf_mark ((hhired c x hx).2.symm ▸ hid) next

/-! ## Rearranging the couriers -/

/-- The pool changes and those who stand in line do not notice. -/
structure Keeps (p p' : CourierPool) : Prop where
  coherent : p'.Coherent
  contacts : ∀ c x, p.contact? c = some x → p'.contact? c = some x
  lines : ∀ c, p'.line c = p.line c

theorem keeps_mark (h : p.Coherent) (cell : HealthCell) (next : Health) :
    p.Keeps { p with board := p.board.mark cell next } := by
  obtain ⟨owner, hkept, hhired, hfound⟩ := h
  refine ⟨⟨owner, hkept.mark cell next, fun c x hx => ?_, hfound⟩, fun _ _ hx => hx, fun _ => rfl⟩
  rw [HealthBoard.size_cells_mark]
  exact hhired c x hx

theorem keeps_take (h : p.Coherent) (id : MemberId) :
    p.Keeps { p with board := (p.board.take id).2 } := by
  obtain ⟨owner, hkept, hhired, hfound⟩ := h
  exact ⟨⟨owner, hkept.take id, hhired, hfound⟩, fun _ _ hx => hx, fun _ => rfl⟩

/-- The couriers are rearranged, and nobody's health changes. -/
structure Rearranges (p p' : CourierPool) : Prop extends Keeps p p' where
  health : ∀ id, p'.board.healthOf id = p.board.healthOf id

theorem Keeps.trans (h : p.Keeps p') (h' : p'.Keeps p'') : p.Keeps p'' :=
  ⟨h'.coherent, fun c x hx => h'.contacts c x (h.contacts c x hx),
    fun c => (h'.lines c).trans (h.lines c)⟩

theorem Rearranges.refl (h : p.Coherent) : p.Rearranges p :=
  ⟨⟨h, fun _ _ hx => hx, fun _ => rfl⟩, fun _ => rfl⟩

theorem Rearranges.trans (h : p.Rearranges p') (h' : p'.Rearranges p'') : p.Rearranges p'' :=
  ⟨h.toKeeps.trans h'.toKeeps, fun id => (h'.health id).trans (h.health id)⟩

theorem rearranges_of_desks (h : p.Coherent) (hboard : p'.board = p.board)
    (hdesks : p'.desks = p.desks)
    (hcurrent : ∀ id c, p'.current.get? id = some c → p.current.get? id = some c) :
    p.Rearranges p' := by
  have hcontacts : ∀ c, p'.contact? c = p.contact? c := fun c => by
    rw [contact?, contact?, desk?, desk?, hdesks]
  refine ⟨⟨h.of_contacts hboard hcontacts hcurrent, fun c x hx => (hcontacts c).trans hx,
    fun c => ?_⟩, fun id => ?_⟩
  · rw [line, line, desk?, desk?, hdesks]
  · rw [hboard]

theorem rearranges_modify {f : Desk → Desk} (h : p.Coherent)
    (hcontact : ∀ d, p.desk? c = some d → (f d).courier.contact = d.courier.contact)
    (hline : ∀ d, p.desk? c = some d → (f d).line = d.line) : p.Rearranges (p.modify c f) := by
  have hcontacts := contact?_modify hcontact
  refine ⟨⟨h.of_contacts rfl hcontacts fun _ _ hc => hc, fun c' x hx => (hcontacts c').trans hx,
    fun c' => ?_⟩, fun _ => rfl⟩
  by_cases heq : c' = c
  · subst heq
    cases hdesk : p.desk? c' with
    | none => rw [line, line, desk?_modify, if_pos rfl, hdesk]; rfl
    | some d => rw [line_modify_self f hdesk, line_of_desk hdesk, hline d hdesk]
  · exact line_modify_of_ne f heq

theorem rearranges_post (h : p.Coherent) (id : MemberId) :
    p.Rearranges { p with board := (p.board.findOrPost id).2 } := by
  obtain ⟨owner, hkept, hhired, hfound⟩ := h
  have hfind := p.board.found_findOrPost id
  obtain ⟨owner', hkept', -, hold⟩ := hfind.kept hkept
  refine ⟨⟨⟨owner', hkept', fun c x hx => ?_, hfound⟩, fun _ _ hx => hx, fun _ => rfl⟩,
    hfind.healthOf hkept⟩
  obtain ⟨hmade, howner⟩ := hhired c x hx
  exact ⟨Nat.lt_of_lt_of_le hmade hfind.grows, (hold _ hmade).trans howner⟩

theorem rearranges_letGo (h : p.Coherent) (c : CourierId) : p.Rearranges (p.letGo c) := by
  rw [letGo]
  split
  · have hmodify := rearranges_modify (c := c)
      (f := fun d => { d with courier := d.courier.dropped }) h (fun _ _ => rfl) fun _ _ => rfl
    exact hmodify.trans (rearranges_of_desks hmodify.coherent rfl rfl fun _ _ hc => hc)
  · exact .refl h

theorem rearranges_retire (h : p.Coherent) (c : CourierId) : p.Rearranges (p.retire c) := by
  rw [retire]
  split
  · split
    · exact rearranges_letGo h c
    · exact .refl h
  · exact .refl h

theorem desk?_hire (p : CourierPool) (m : Member) (c : CourierId) :
    (p.hire m).2.desk? c =
      if c = (p.hire m).1 then
        some { courier := {
          settings := p.settings, self := p.self, destination := m,
          cell := (p.board.findOrPost m.id).1 } }
      else p.desk? c := by
  by_cases h : c = (p.hire m).1
  · subst h
    rw [if_pos rfl]
    simp [hire, desk?]
  · have hindex : c.index ≠ p.desks.size := fun heq => h (congrArg CourierId.mk heq)
    rw [if_neg h]
    simp [hire, desk?, Array.getElem?_push, hindex]

theorem desk?_hired (p : CourierPool) (m : Member) : p.desk? (p.hire m).1 = none := by
  simp [hire, desk?]

/-- A new courier goes to its peer, and nobody stands in line for it. -/
theorem hire_spec (h : p.Coherent) (m : Member) :
    p.Rearranges (p.hire m).2 ∧
      ∃ cell, (p.hire m).2.contact? (p.hire m).1 = some ⟨m.id, cell⟩ := by
  obtain ⟨owner, hkept, hhired, hfound⟩ := h
  have hfind := p.board.found_findOrPost m.id
  obtain ⟨owner', hkept', howner, hold⟩ := hfind.kept hkept
  have hnew : (p.hire m).2.contact? (p.hire m).1 =
      some ⟨m.id, (p.board.findOrPost m.id).1⟩ := by
    rw [contact?, desk?_hire, if_pos rfl]
    rfl
  have hcontacts : ∀ c x, p.contact? c = some x → (p.hire m).2.contact? c = some x := by
    intro c x hx
    have hne : c ≠ (p.hire m).1 := by
      intro heq
      rw [heq, contact?, desk?_hired] at hx
      cases hx
    rw [contact?, desk?_hire, if_neg hne]
    exact hx
  refine ⟨⟨⟨⟨owner', hkept', fun c x hx => ?_, fun id c hc => ?_⟩, hcontacts, fun c => ?_⟩,
    hfind.healthOf hkept⟩, _, hnew⟩
  · by_cases heq : c = (p.hire m).1
    · rw [heq, hnew] at hx
      obtain rfl := Option.some.inj hx
      exact ⟨hfind.made hkept, howner⟩
    · rw [contact?, desk?_hire, if_neg heq] at hx
      obtain ⟨hmade, howner⟩ := hhired c x hx
      exact ⟨Nat.lt_of_lt_of_le hmade hfind.grows, (hold _ hmade).trans howner⟩
  · have hc : (p.current.insert m.id (p.hire m).1).get? id = some c := hc
    rw [MemberMap.get?_insert] at hc
    split at hc
    · rename_i heq
      rw [heq, ← Option.some.inj hc]
      exact ⟨_, hnew⟩
    · obtain ⟨cell, hcell⟩ := hfound id c hc
      exact ⟨cell, hcontacts c _ hcell⟩
  · rw [line, desk?_hire]
    split
    · rename_i heq
      rw [heq, line, desk?_hired]
      rfl
    · rfl

/-- The courier for a peer goes to it, though maybe to an address that the peer had before. -/
theorem courierFor_spec (h : p.Coherent) (m : Member) :
    p.Rearranges (p.courierFor m).2 ∧
      ∃ cell, (p.courierFor m).2.contact? (p.courierFor m).1 = some ⟨m.id, cell⟩ := by
  rw [courierFor]
  split
  · rename_i c hcurrent
    split
    · obtain ⟨owner, hkept⟩ := h
      exact ⟨.refl ⟨owner, hkept⟩, hkept.current m.id c hcurrent⟩
    · have hretire := rearranges_retire h c
      obtain ⟨hhire, hcontact⟩ := hire_spec hretire.coherent m
      exact ⟨hretire.trans hhire, hcontact⟩
  · exact hire_spec h m

theorem rearranges_add (h : p.Coherent) (m : Member) : p.Rearranges (p.add m) :=
  (courierFor_spec h m).1

theorem assign_spec (h : p.Coherent) (m : Member) :
    p.Rearranges (p.assign m).2 ∧
      ∃ cell, (p.assign m).2.contact? (p.assign m).1 = some ⟨m.id, cell⟩ := by
  obtain ⟨hcourier, cell, hcell⟩ := courierFor_spec h m
  have hmodify := rearranges_modify (c := (p.courierFor m).1)
    (f := fun d => { d with holders := d.holders + 1 }) hcourier.coherent (fun _ _ => rfl)
    fun _ _ => rfl
  exact ⟨hcourier.trans hmodify, cell, hmodify.contacts _ _ hcell⟩

theorem get?_current_erase {id id' : MemberId} (h : (p.current.erase id).get? id' = some c) :
    p.current.get? id' = some c := by
  rw [MemberMap.get?_erase] at h
  split at h
  · cases h
  · exact h

theorem rearranges_erase (h : p.Coherent) (id : MemberId) :
    p.Rearranges { p with current := p.current.erase id } :=
  rearranges_of_desks h rfl rfl fun _ _ => get?_current_erase

theorem rearranges_remove (h : p.Coherent) (id : MemberId) : p.Rearranges (p.remove id).2 := by
  rw [remove]
  split
  · exact .refl h
  · rename_i c hcurrent
    have hletGo : p.Rearranges (if p.isFree c then p.letGo c else p) := by
      split
      · exact rearranges_letGo h c
      · exact .refl h
    exact hletGo.trans (rearranges_erase hletGo.coherent id)

theorem rearranges_sweepOne (h : p.Coherent) (now : Nat) (id : MemberId) (c : CourierId) :
    p.Rearranges (sweepOne now p id c).2 := by
  rw [sweepOne]
  split
  · exact .refl h
  · split
    · exact .refl h
    · split
      · exact .refl h
      · have hletGo := rearranges_letGo h c
        dsimp only
        split
        · exact hletGo.trans (rearranges_erase hletGo.coherent id)
        · exact hletGo

theorem rearranges_sweep (h : p.Coherent) (now : Nat) : p.Rearranges (p.sweep now).2 := by
  have hfold : ∀ (es : List (MemberId × CourierId)) (s : Nat × CourierPool), s.2.Coherent →
      s.2.Rearranges (es.foldl
        (fun s e =>
          (if (sweepOne now s.2 e.1 e.2).1 then s.1 + 1 else s.1, (sweepOne now s.2 e.1 e.2).2))
        s).2 := by
    intro es
    induction es with
    | nil => exact fun s hs => .refl hs
    | cons e es ih =>
      intro s hs
      have hone := rearranges_sweepOne hs now e.1 e.2
      exact hone.trans (ih (_, (sweepOne now s.2 e.1 e.2).2) hone.coherent)
  exact hfold _ (0, p) h

/-! ## Standing in line -/

theorem contact?_join (p : CourierPool) (c c' : CourierId) (t : Ticket) :
    (p.join c t).contact? c' = p.contact? c' := by
  refine contact?_modify (fun d _ => ?_) c'
  rfl

theorem Coherent.join (h : p.Coherent) (c : CourierId) (t : Ticket) : (p.join c t).Coherent :=
  h.of_contacts rfl (fun c' => contact?_join p c c' t) fun _ _ hc => hc

theorem line_join_self {x : Contact} (h : p.contact? c = some x) (t : Ticket) :
    (p.join c t).line c = p.line c ++ [t] := by
  obtain ⟨d, hdesk, -⟩ := exists_desk h
  rw [join, line_modify_self _ hdesk, line_of_desk hdesk]

theorem line_join_of_ne (t : Ticket) (h : c' ≠ c) : (p.join c t).line c' = p.line c' :=
  line_modify_of_ne _ h

/-- A courier that has been served with goes on as it was, and the first in line is gone. -/
structure Leaves (p : CourierPool) (c : CourierId) (p' : CourierPool) : Prop where
  coherent : p'.Coherent
  contacts : ∀ c x, p.contact? c = some x → p'.contact? c = some x
  self : p'.line c = (p.line c).tail
  others : ∀ c' ≠ c, p'.line c' = p.line c'
  health : ∀ id, p'.board.healthOf id = p.board.healthOf id

theorem leaves_leave (h : p.Coherent) {courier : Courier}
    (hcontact : p.contact? c = some courier.contact) : p.Leaves c (p.leave c courier) := by
  obtain ⟨d, hdesk, hcourier⟩ := exists_desk hcontact
  let f : Desk → Desk := fun d => ⟨courier, d.line.tail, d.holders - 1⟩
  have hf : ∀ d, p.desk? c = some d → (f d).courier.contact = d.courier.contact := by
    intro d' hdesk'
    rw [hdesk] at hdesk'
    rw [← Option.some.inj hdesk', hcourier]
  have hcontacts := contact?_modify hf
  have hcoherent : (p.modify c f).Coherent := h.of_contacts rfl hcontacts fun _ _ hc => hc
  have hself : (p.modify c f).line c = (p.line c).tail := by
    rw [line_modify_self f hdesk, line_of_desk hdesk]
  have hrest : (p.modify c f).Rearranges (p.leave c courier) := by
    rw [leave]
    split
    · exact .refl hcoherent
    · exact rearranges_retire hcoherent c
  exact ⟨hrest.coherent, fun c' x hx => hrest.contacts c' x ((hcontacts c').trans hx),
    (hrest.lines c).trans hself, fun c' hne => (hrest.lines c').trans (line_modify_of_ne f hne),
    hrest.health⟩

end CourierPool

end PeerCluster
