import PeerCluster.Proofs.PoolCoherence

/-!
# How a delivery finds its courier

**Receptions** (`reception`). Which courier a delivery is told to go to, and which connection is given
up for it, depends on the desk of the courier that its peer has already, and on nothing else that
deliveries change (`seats_assign`).

**Sparing the others** (`Spares`). Finding a courier, joining its line and leaving it concern the
couriers of one peer. Those of the others stay in the pool as they are.
-/

namespace PeerCluster

namespace CourierPool

variable {p p' p'' : CourierPool} {c c' : CourierId} {id : MemberId} {m : Member} {d : Desk}

/-- The desk of the courier that the pool keeps for an id. -/
def deskOf? (p : CourierPool) (id : MemberId) : Option Desk :=
  (p.current.get? id).bind p.desk?

theorem deskOf?_of_current (h : p.current.get? id = some c) : p.deskOf? id = p.desk? c := by
  rw [deskOf?, h]
  rfl

theorem deskOf?_of_not_current (h : p.current.get? id = none) : p.deskOf? id = none := by
  rw [deskOf?, h]
  rfl

theorem Coherent.exists_desk (h : p.Coherent) (hc : p.current.get? id = some c) :
    ∃ d, p.desk? c = some d ∧ d.courier.destination.id = id := by
  obtain ⟨owner, hkept⟩ := h
  obtain ⟨cell, hcell⟩ := hkept.current id c hc
  obtain ⟨d, hd, hcontact⟩ := CourierPool.exists_desk hcell
  exact ⟨d, hd, congrArg Contact.peer hcontact⟩

theorem Coherent.destination (h : p.Coherent) (hc : p.current.get? id = some c)
    (hd : p.desk? c = some d) : d.courier.destination.id = id := by
  obtain ⟨d', hd', hid⟩ := h.exists_desk hc
  rw [← Option.some.inj (hd'.symm.trans hd)]
  exact hid

/-! ## Nobody else is concerned -/

/-- At most the couriers of one id are concerned. -/
structure Spares (id : MemberId) (p p' : CourierPool) : Prop where
  current : ∀ id' ≠ id, p'.current.get? id' = p.current.get? id'
  desks : ∀ c x, p.contact? c = some x → x.peer ≠ id → p'.desk? c = p.desk? c

theorem Spares.refl (id : MemberId) (p : CourierPool) : Spares id p p :=
  ⟨fun _ _ => rfl, fun _ _ _ _ => rfl⟩

theorem Spares.trans (h : Spares id p p') (h' : Spares id p' p'') : Spares id p p'' := by
  refine ⟨fun id' hid => (h'.current id' hid).trans (h.current id' hid), fun c x hx hpeer => ?_⟩
  have hdesk := h.desks c x hx hpeer
  have hx' : p'.contact? c = some x := by
    rw [contact?, hdesk]
    exact hx
  exact (h'.desks c x hx' hpeer).trans hdesk

theorem Spares.deskOf? (h : Spares id p p') (hp : p.Coherent) {id' : MemberId} (hid : id' ≠ id) :
    p'.deskOf? id' = p.deskOf? id' := by
  cases hc : p.current.get? id' with
  | none => rw [deskOf?_of_not_current hc, deskOf?_of_not_current ((h.current id' hid).trans hc)]
  | some c =>
    obtain ⟨owner, hkept⟩ := hp
    obtain ⟨cell, hcell⟩ := hkept.current id' c hc
    rw [deskOf?_of_current hc, deskOf?_of_current ((h.current id' hid).trans hc)]
    exact h.desks c _ hcell hid

theorem spares_modify (f : Desk → Desk) (hc : ∀ x, p.contact? c = some x → x.peer = id) :
    Spares id p (p.modify c f) := by
  refine ⟨fun _ _ => rfl, fun c' x hx hpeer => ?_⟩
  rw [desk?_modify, if_neg]
  rintro rfl
  exact hpeer (hc x hx)

theorem spares_letGo (hc : ∀ x, p.contact? c = some x → x.peer = id) : Spares id p (p.letGo c) := by
  rw [letGo]
  split
  · exact ⟨fun _ _ => rfl, (spares_modify _ hc).desks⟩
  · exact .refl id p

theorem spares_retire (hc : ∀ x, p.contact? c = some x → x.peer = id) :
    Spares id p (p.retire c) := by
  rw [retire]
  split
  · split
    · exact spares_letGo hc
    · exact .refl id p
  · exact .refl id p

theorem spares_hire (p : CourierPool) (m : Member) : Spares m.id p (p.hire m).2 := by
  refine ⟨fun id' hid => ?_, fun c x hx _ => ?_⟩
  · exact (p.current.get?_insert m.id id' _).trans (if_neg hid)
  · rw [desk?_hire, if_neg]
    rintro rfl
    rw [contact?, desk?_hired] at hx
    cases hx

/-! ## How a delivery is received -/

/-- The courier that is hired for a peer. -/
def newcomer (p : CourierPool) (m : Member) : Courier :=
  { settings := p.settings, self := p.self, destination := m, cell := (p.board.findOrPost m.id).1 }

/-- The desk to which a delivery to a peer is told to go if the peer has one already, or none, and the
connections that are given up for it. -/
def reception (fresh : Courier) (m : Member) : Option Desk → Desk × List Link
  | some d =>
    if !d.line.isEmpty || d.courier.destination.address == m.address then (d, [])
    else ({ courier := fresh }, if d.holders = 0 then d.courier.link.toList else [])
  | none => ({ courier := fresh }, [])

/-- Nobody stands in line at a new desk. -/
theorem exists_of_mem_reception {fresh : Courier} {desk? : Option Desk} {t : Ticket}
    (h : t ∈ (reception fresh m desk?).1.line) : ∃ d, desk? = some d ∧ t ∈ d.line := by
  cases desk? with
  | none => cases h
  | some d =>
    rw [reception] at h
    split at h
    · exact ⟨d, rfl, h⟩
    · cases h

theorem exists_line_of_deskOf? (h : p.deskOf? id = some d) : ∃ c, p.line c = d.line := by
  obtain ⟨c, -, hd⟩ := Option.bind_eq_some_iff.1 h
  exact ⟨c, line_of_desk hd⟩

/-- A pool with a courier at its desk, and what else matters as in another pool. -/
structure Seats (p : CourierPool) (id : MemberId) (c : CourierId) (d : Desk) (gone : List Link)
    (p' : CourierPool) : Prop where
  current : p'.current.get? id = some c
  desk : p'.desk? c = some d
  released : p'.released = gone ++ p.released
  board : p'.board = p.board
  settings : p'.settings = p.settings
  self : p'.self = p.self
  spares : Spares id p p'

theorem Seats.modify {gone : List Link} (h : Seats p id c d gone p')
    (hid : d.courier.destination.id = id) (f : Desk → Desk) :
    Seats p id c (f d) gone (p'.modify c f) where
  current := h.current
  desk := by rw [desk?_modify, if_pos rfl, h.desk]; rfl
  released := h.released
  board := h.board
  settings := h.settings
  self := h.self
  spares := h.spares.trans (spares_modify f fun x hx => by
    rw [contact?_of_desk h.desk] at hx
    rw [← Option.some.inj hx]
    exact hid)

/-- A courier is hired in the place of one that is retired, or of none. -/
theorem seats_hire {p₁ : CourierPool} {gone : List Link} (hreleased : p₁.released = gone ++ p.released)
    (hboard : p₁.board = p.board) (hsettings : p₁.settings = p.settings) (hself : p₁.self = p.self)
    (hspares : Spares m.id p p₁) (hposted : (p.board.find? m.id).isSome) :
    Seats p m.id (p₁.hire m).1 { courier := p.newcomer m } gone (p₁.hire m).2 where
  current := (p₁.current.get?_insert m.id m.id _).trans (if_pos rfl)
  desk := by
    rw [desk?_hire, if_pos rfl, newcomer, hboard, hsettings, hself]
  released := hreleased
  board := by
    obtain ⟨cell, hcell⟩ := Option.isSome_iff_exists.1 hposted
    rw [← hboard] at hcell ⊢
    show (p₁.board.findOrPost m.id).2 = p₁.board
    rw [HealthBoard.findOrPost, hcell]
  settings := hsettings
  self := hself
  spares := hspares.trans (spares_hire p₁ m)

theorem seats_courierFor (h : p.Coherent) (hposted : (p.board.find? m.id).isSome) :
    Seats p m.id (p.courierFor m).1 (reception (p.newcomer m) m (p.deskOf? m.id)).1
      (reception (p.newcomer m) m (p.deskOf? m.id)).2 (p.courierFor m).2 := by
  cases hc : p.current.get? m.id with
  | none =>
    have hfor : p.courierFor m = p.hire m := by rw [courierFor, hc]
    rw [hfor, deskOf?_of_not_current hc]
    exact seats_hire rfl rfl rfl rfl (.refl _ _) hposted
  | some c =>
    obtain ⟨d, hd, hid⟩ := h.exists_desk hc
    have hfor : p.courierFor m = if !d.line.isEmpty || d.courier.destination.address == m.address
        then (c, p) else (p.retire c).hire m := by
      rw [courierFor, hc]
      dsimp only
      rw [isFree, goesTo, hd]
    rw [hfor, deskOf?_of_current hc, hd, reception]
    split
    next => exact ⟨hc, hd, rfl, rfl, rfl, rfl, .refl _ _⟩
    next =>
      have hspares : Spares m.id p (p.retire c) := spares_retire fun x hx => by
        rw [contact?_of_desk hd] at hx
        rw [← Option.some.inj hx]
        exact hid
      by_cases hholders : d.holders = 0
      · have hretire : p.retire c = p.letGo c := by rw [retire, hd]; exact if_pos hholders
        rw [if_pos hholders]
        rw [hretire] at hspares ⊢
        rw [letGo, hd] at hspares ⊢
        exact seats_hire rfl rfl rfl rfl hspares hposted
      · have hretire : p.retire c = p := by rw [retire, hd]; exact if_neg hholders
        rw [if_neg hholders, hretire]
        exact seats_hire rfl rfl rfl rfl (.refl _ _) hposted

/-- A delivery is told to go to a courier of its peer. -/
theorem seats_assign (h : p.Coherent) (hposted : (p.board.find? m.id).isSome) :
    let r := reception (p.newcomer m) m (p.deskOf? m.id)
    Seats p m.id (p.assign m).1 { r.1 with holders := r.1.holders + 1 } r.2 (p.assign m).2 := by
  have hseats := seats_courierFor h hposted
  have hcoherent := (courierFor_spec h m).1.coherent
  exact hseats.modify (hcoherent.destination hseats.current hseats.desk)
    fun d => { d with holders := d.holders + 1 }

/-- A delivery joins the line of the courier of its peer. -/
theorem seats_join (hc : p.current.get? id = some c) (hd : p.desk? c = some d)
    (hid : d.courier.destination.id = id) (t : Ticket) :
    Seats p id c { d with line := d.line ++ [t] } [] (p.join c t) := by
  have hseats : Seats p id c d [] p := ⟨hc, hd, rfl, rfl, rfl, rfl, .refl _ _⟩
  exact hseats.modify hid fun d => { d with line := d.line ++ [t] }

theorem isCurrent_of_get? (hc : p.current.get? id = some c) : p.isCurrent c = true := by
  rw [isCurrent, List.contains_iff_mem]
  exact List.mem_map.2 ⟨(id, c), MemberMap.mem_entries.2 hc, rfl⟩

/-- A delivery leaves the line of the courier of its peer, who is in the pool and stays there. -/
theorem seats_leave (hc : p.current.get? id = some c) (hd : p.desk? c = some d)
    (hid : d.courier.destination.id = id) (courier : Courier) :
    Seats p id c ⟨courier, d.line.tail, d.holders - 1⟩ [] (p.leave c courier) := by
  have hseats : Seats p id c d [] p := ⟨hc, hd, rfl, rfl, rfl, rfl, .refl _ _⟩
  have hleave : p.leave c courier =
      p.modify c fun d => ⟨courier, d.line.tail, d.holders - 1⟩ := if_pos (isCurrent_of_get? hc)
  rw [hleave]
  exact hseats.modify hid fun d => ⟨courier, d.line.tail, d.holders - 1⟩

end CourierPool

end PeerCluster
