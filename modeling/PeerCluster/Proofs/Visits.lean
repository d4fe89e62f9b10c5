import PeerCluster.Proofs.DeliverySteps
import PeerCluster.Proofs.PeerWorlds
import PeerCluster.Proofs.Receptions

/-!
# One delivery and its peer

**The view** (`View`) is all that a delivery can change: the courier of its peer, the desk of that
courier, what the peer has been asked, and its health.

**Stages** (`Visit.Stage`). At every phase of a delivery the view is known from what it was when the
mailing began. While the delivery is being served, whatever the rest of the service comes to the whole
service comes to, so that in the end the view is that of a service in the peer's own world.

**Steps** (`Visit.Stage.steps`, `Visit.Stage.asks`, `Visit.Stage.reads`). Each step takes a delivery to
its next stage, and leaves the views of all other peers alone (`Touches.view`).
-/

namespace PeerCluster

open Exchange Mailing

/-! ## One delivery and its peer -/

/-- What there is of one peer: its courier, that courier's desk, what has been asked of the peer, and
its health. -/
structure View where
  courier : Option CourierId
  desk : Option CourierPool.Desk
  state : Peer.State

/-- What there is of the peer of an id whose health is kept in a cell. -/
def CourierPool.view (p : CourierPool) (seen : MemberId → List Ask) (cell : HealthCell)
    (id : MemberId) : View :=
  ⟨p.current.get? id, p.deskOf? id, ⟨seen id, p.board.read cell⟩⟩

/-- A delivery to a peer, with what it finds when the mailing begins. -/
structure Visit where
  ticket : Ticket
  member : Member
  peer : Peer
  payload : ByteArray
  wait : Bool
  before : View
  /-- The desk to which the delivery is told to go. -/
  desk : CourierPool.Desk
  /-- The connections that are given up for it. -/
  gone : List Link

namespace Visit

/-- Where the courier keeps the health of the peer. -/
def cell (v : Visit) : HealthCell :=
  v.desk.courier.cell

/-- The peer when its delivery is received. -/
def told (v : Visit) : Peer.State :=
  { v.before.state with seen := v.before.state.seen ++ v.gone.map .close }

/-- What the courier is going to do. -/
def plan (v : Visit) : Exchange (Except DeliveryError Unit × Courier) :=
  v.desk.courier.send v.payload v.wait

/-- How far a delivery is, and what there is of its peer by then. -/
inductive Stage (v : Visit) : Phase → View → Prop
  | pending : Stage v .pending v.before
  | assigned (c : CourierId) :
    Stage v (.assigned c) ⟨some c, some { v.desk with holders := v.desk.holders + 1 }, v.told⟩
  | queued (c : CourierId) :
    Stage v (.queued c)
      ⟨some c, some ⟨v.desk.courier, v.desk.line ++ [v.ticket], v.desk.holders + 1⟩, v.told⟩
  /-- Whatever the rest of the service comes to, the whole service comes to. -/
  | served {c : CourierId} {rest : Exchange (Except DeliveryError Unit × Courier)}
    {state : Peer.State} :
    v.desk.line = [] →
    (∀ outcome state', rest.Runs v.peer.answers state outcome state' →
      v.plan.Runs v.peer.answers v.told outcome state') →
    Stage v (.served c rest)
      ⟨some c, some ⟨v.desk.courier, [v.ticket], v.desk.holders + 1⟩, state⟩
  | over {c : CourierId} {result : Except DeliveryError Unit} {courier : Courier}
    {state : Peer.State} :
    v.plan.Runs v.peer.answers v.told (result, courier) state →
    Stage v (.over result) ⟨some c, some ⟨courier, [], v.desk.holders⟩, state⟩

end Visit

/-! ## One step -/

/-- The pool when all connections have been closed that couriers have let go of. -/
def CourierPool.closed (p : CourierPool) : CourierPool :=
  { p with released := [] }

/-- More is asked of a peer. -/
def tell (seen : MemberId → List Ask) (id : MemberId) (asked : List Ask) : MemberId → List Ask :=
  Function.update seen id (seen id ++ asked)

/-- A pool and what peers have been asked change for the peer of one id only, whose health is kept in a
cell. -/
structure Touches (id : MemberId) (cell : HealthCell) (p : CourierPool)
    (seen : MemberId → List Ask) (p' : CourierPool) (seen' : MemberId → List Ask) : Prop where
  spares : CourierPool.Spares id p p'
  posted : p'.board.posted = p.board.posted
  size : p'.board.cells.size = p.board.cells.size
  cells : ∀ cell' ≠ cell, p'.board.read cell' = p.board.read cell'
  seen : ∀ id' ≠ id, seen' id' = seen id'
  released : p'.released = []
  settings : p'.settings = p.settings
  self : p'.self = p.self

variable {p p' pool : CourierPool} {seen seen' : MemberId → List Ask} {id id' : MemberId}
  {cell cell' : HealthCell} {c : CourierId} {desk : CourierPool.Desk} {v : Visit} {d : Delivery}
  {phase : Phase}

theorem Touches.view (h : Touches id cell p seen p' seen') (hp : p.Coherent) (hid : id' ≠ id)
    (hcell : cell' ≠ cell) : p'.view seen' cell' id' = p.view seen cell' id' := by
  rw [CourierPool.view, CourierPool.view, h.spares.current id' hid, h.spares.deskOf? hp hid,
    h.seen id' hid, h.cells cell' hcell]

theorem view_of_desk (seen : MemberId → List Ask) (cell : HealthCell)
    (hc : p.current.get? id = some c) (hd : p.desk? c = some desk) :
    p.view seen cell id = ⟨some c, some desk, ⟨seen id, p.board.read cell⟩⟩ := by
  rw [CourierPool.view, CourierPool.deskOf?_of_current hc, hc, hd]

theorem desk_of_view {state : Peer.State}
    (h : p.view seen cell id = ⟨some c, some desk, state⟩) :
    p.current.get? id = some c ∧ p.desk? c = some desk ∧ seen id = state.seen ∧
      p.board.read cell = state.health := by
  obtain ⟨hc, hdesk, rfl⟩ := View.mk.inj h
  rw [CourierPool.deskOf?_of_current hc] at hdesk
  exact ⟨hc, hdesk, rfl, rfl⟩

theorem tell_self (seen : MemberId → List Ask) (id : MemberId) (asked : List Ask) :
    tell seen id asked id = seen id ++ asked :=
  Function.update_self ..

theorem tell_of_ne (asked : List Ask) (h : id' ≠ id) : tell seen id asked id' = seen id' :=
  Function.update_of_ne h ..

/-- The courier of a peer is at its desk, and the connections that it has given up are closed. -/
theorem CourierPool.Seats.touches {gone : List Link} (h : CourierPool.Seats p id c desk gone p')
    (hreleased : p.released = []) (seen : MemberId → List Ask) (cell : HealthCell) :
    Touches id cell p seen p'.closed (tell seen id (p'.released.map .close)) ∧
      p'.closed.view (tell seen id (p'.released.map .close)) cell id =
        ⟨some c, some desk, ⟨seen id ++ gone.map .close, p.board.read cell⟩⟩ := by
  have hboard : p'.closed.board = p.board := h.board
  constructor
  · refine ⟨⟨h.spares.current, h.spares.desks⟩, ?_, ?_, fun cell' _ => ?_,
      fun id' hid => tell_of_ne _ hid, rfl, h.settings, h.self⟩
    · rw [hboard]
    · rw [hboard]
    · rw [hboard]
  · have hc : p'.closed.current.get? id = some c := h.current
    rw [view_of_desk _ _ hc h.desk, hboard, tell_self, h.released, hreleased, List.append_nil]

namespace Visit

/-- A step of a delivery, which touches its own peer only. -/
structure Advances (v : Visit) (p : CourierPool) (seen : MemberId → List Ask) (phase : Phase)
    (p' : CourierPool) (seen' : MemberId → List Ask) : Prop where
  touches : Touches v.member.id v.cell p seen p' seen'
  stage : v.Stage phase (p'.view seen' v.cell v.member.id)

/-- What a delivery relies on in the pool, and the others leave alone. -/
structure Relies (v : Visit) (p : CourierPool) : Prop where
  coherent : p.Coherent
  released : p.released = []
  posted : (p.board.find? v.member.id).isSome
  reception : CourierPool.reception (p.newcomer v.member) v.member v.before.desk = (v.desk, v.gone)
  first : v.ticket ∉ v.desk.line

theorem Stage.assigns (h : v.Stage .pending (p.view seen v.cell v.member.id)) (hp : v.Relies p) :
    v.Advances p seen (.assigned (p.assign v.member).1) (p.assign v.member).2.closed
      (tell seen v.member.id ((p.assign v.member).2.released.map .close)) := by
  generalize hview : p.view seen v.cell v.member.id = view at h
  cases h with
  | pending =>
    have hdesk : p.deskOf? v.member.id = v.before.desk := congrArg View.desk hview
    have hstate : ⟨seen v.member.id, p.board.read v.cell⟩ = v.before.state :=
      congrArg View.state hview
    have htold : v.told = ⟨seen v.member.id ++ v.gone.map .close, p.board.read v.cell⟩ := by
      rw [told, ← hstate]
    have hseats := CourierPool.seats_assign hp.coherent hp.posted
    rw [hdesk, hp.reception] at hseats
    obtain ⟨htouches, hafter⟩ := hseats.touches hp.released seen v.cell
    refine ⟨htouches, ?_⟩
    rw [hafter, ← htold]
    exact .assigned _

theorem Stage.joins (h : v.Stage (.assigned c) (p.view seen v.cell v.member.id))
    (hp : v.Relies p) :
    v.Advances p seen (.queued c) (p.join c v.ticket).closed
      (tell seen v.member.id ((p.join c v.ticket).released.map .close)) := by
  generalize hview : p.view seen v.cell v.member.id = view at h
  cases h with
  | assigned =>
    obtain ⟨hc, hdesk, hseen, hhealth⟩ := desk_of_view hview
    have hid := hp.coherent.destination hc hdesk
    have hseats := CourierPool.seats_join hc hdesk hid v.ticket
    obtain ⟨htouches, hafter⟩ := hseats.touches hp.released seen v.cell
    refine ⟨htouches, ?_⟩
    rw [hafter, hseen, hhealth, List.map_nil, List.append_nil]
    exact .queued c

theorem Stage.calls (h : v.Stage (.queued c) (p.view seen v.cell v.member.id))
    (hp : v.Relies p)
    (hdesk : p.desk? c = some desk) (hhead : desk.line.head? = some v.ticket) :
    v.Advances p seen (.served c (desk.courier.send v.payload v.wait)) p.closed
      (tell seen v.member.id (p.released.map .close)) := by
  generalize hview : p.view seen v.cell v.member.id = view at h
  cases h with
  | queued =>
    obtain ⟨hc, hdesk', hseen, hhealth⟩ := desk_of_view hview
    obtain rfl := Option.some.inj (hdesk.symm.trans hdesk')
    -- Whoever else were in front would have been there before.
    have hfirst := hp.first
    have hline : v.desk.line = [] := by
      cases hline : v.desk.line with
      | nil => rfl
      | cons t rest =>
        rw [hline] at hhead hfirst
        exact absurd (Option.some.inj hhead ▸ List.mem_cons_self) hfirst
    have hseats : CourierPool.Seats p v.member.id c _ [] p :=
      ⟨hc, hdesk, rfl, rfl, rfl, rfl, .refl _ _⟩
    obtain ⟨htouches, hafter⟩ := hseats.touches hp.released seen v.cell
    refine ⟨htouches, ?_⟩
    rw [hafter, hseen, hhealth, List.map_nil, List.append_nil, hline, List.nil_append]
    exact .served hline fun _ _ hruns => hruns

theorem Stage.ends {result : Except DeliveryError Unit} {courier : Courier}
    (h : v.Stage (.served c (.done (result, courier))) (p.view seen v.cell v.member.id))
    (hp : v.Relies p) :
    v.Advances p seen (.over result) (p.leave c courier).closed
      (tell seen v.member.id ((p.leave c courier).released.map .close)) := by
  generalize hview : p.view seen v.cell v.member.id = view at h
  cases h with
  | served hline hruns =>
    obtain ⟨hc, hdesk, hseen, hhealth⟩ := desk_of_view hview
    have hid := hp.coherent.destination hc hdesk
    have hseats := CourierPool.seats_leave hc hdesk hid courier
    obtain ⟨htouches, hafter⟩ := hseats.touches hp.released seen v.cell
    refine ⟨htouches, ?_⟩
    rw [hafter, hseen, hhealth, List.map_nil, List.append_nil]
    exact .over (hruns _ _ (.done _ _))

/-- Marking the health of a peer touches that peer only. -/
theorem Stage.marks {health : Health} {next : Unit → Exchange (Except DeliveryError Unit × Courier)}
    (h : v.Stage (.served c (.ask (.mark health) next)) (p.view seen v.cell v.member.id))
    (hp : v.Relies p) (hdesk : p.desk? c = some desk) :
    let pool : CourierPool := { p with board := p.board.mark desk.courier.cell health }
    v.Advances p seen (.served c (next ())) pool.closed
      (tell seen v.member.id (pool.released.map .close)) := by
  intro pool
  generalize hview : p.view seen v.cell v.member.id = view at h
  cases h with
  | @served _ _ state hline hruns =>
    obtain ⟨hc, hdesk', hseen, hhealth⟩ := desk_of_view hview
    obtain rfl := Option.some.inj (hdesk.symm.trans hdesk')
    obtain ⟨owner, hkept⟩ := hp.coherent
    have hmade := (hkept.hired c _ (CourierPool.contact?_of_desk hdesk)).1
    have hnothing : pool.released.map Ask.close = [] := by rw [hp.released]; rfl
    constructor
    · exact ⟨⟨fun _ _ => rfl, fun _ _ _ _ => rfl⟩, rfl, HealthBoard.size_cells_mark ..,
        fun cell' hcell => HealthBoard.read_mark_of_ne hcell health,
        fun id' hid => tell_of_ne _ hid, rfl, rfl, rfl⟩
    · have hc' : pool.closed.current.get? v.member.id = some c := hc
      have hread : pool.closed.board.read v.cell = state.health.mark health := by
        rw [← hhealth]
        exact HealthBoard.read_mark_self hmade health
      rw [view_of_desk _ _ hc' hdesk, hread, tell_self, hnothing, List.append_nil, hseen]
      exact .served hline fun outcome state' hrest => hruns outcome state' (.ask rfl hrest)

/-- A question to a peer, which it answers by what it has been asked before. -/
theorem Stage.asks {q : Ask} {next : q.Answer → Exchange (Except DeliveryError Unit × Courier)}
    (h : v.Stage (.served c (.ask q next)) (p.view seen v.cell v.member.id))
    (hp : v.Relies p) (hclock : q ≠ .clock) (hmark : ∀ health, q ≠ .mark health) :
    v.Advances p seen (.served c (next (v.peer (seen v.member.id) q))) p
      (tell seen v.member.id [q]) := by
  generalize hview : p.view seen v.cell v.member.id = view at h
  cases h with
  | served hline hruns =>
    obtain ⟨hc, hdesk, hseen, hhealth⟩ := desk_of_view hview
    constructor
    · exact ⟨.refl _ _, rfl, rfl, fun _ _ => rfl, fun id' hid => tell_of_ne _ hid, hp.released, rfl,
        rfl⟩
    · rw [view_of_desk _ _ hc hdesk, hhealth, tell_self, hseen]
      refine .served hline fun outcome state' hrest => hruns outcome state' (.ask ?_ hrest)
      exact Peer.answers_of_asked hclock hmark

/-- The clock says something, and the peer hears nothing of it. -/
theorem Stage.reads {next : Nat → Exchange (Except DeliveryError Unit × Courier)}
    (h : v.Stage (.served c (.ask .clock next)) (p.view seen v.cell v.member.id))
    (hp : v.Relies p) (now : Nat) :
    v.Advances p seen (.served c (next now)) p seen := by
  generalize hview : p.view seen v.cell v.member.id = view at h
  cases h with
  | served hline hruns =>
    constructor
    · exact ⟨.refl _ _, rfl, rfl, fun _ _ => rfl, fun _ _ => rfl, hp.released, rfl, rfl⟩
    · rw [hview]
      exact .served hline fun outcome state' hrest => hruns outcome state' (.ask rfl hrest)

/-- Every step that needs nothing from the world. -/
theorem Stage.steps (h : v.Stage d.phase (p.view seen v.cell v.member.id)) (hp : v.Relies p)
    (hmember : d.member = v.member) (hmove : d.move p v.ticket v.payload v.wait = .steps phase pool) :
    v.Advances p seen phase pool.closed (tell seen v.member.id (pool.released.map .close)) := by
  rw [Delivery.move] at hmove
  cases hphase : d.phase with
  | pending =>
    rw [hphase] at h hmove
    rw [hmember] at hmove
    cases hmove
    exact h.assigns hp
  | assigned c =>
    rw [hphase] at h hmove
    cases hmove
    exact h.joins hp
  | queued c =>
    rw [hphase] at h hmove
    dsimp only at hmove
    split at hmove
    next desk hdesk =>
      split at hmove
      next hhead =>
        cases hmove
        exact h.calls hp hdesk hhead
      next => cases hmove
    next => cases hmove
  | served c rest =>
    rw [hphase] at h hmove
    cases rest with
    | done outcome =>
      cases hmove
      exact h.ends hp
    | ask q next =>
      cases q with
      | mark health =>
        dsimp only at hmove
        split at hmove
        next desk hdesk =>
          cases hmove
          exact h.marks hp hdesk
        next => cases hmove
      | dial | write | read | close | clock => cases hmove
  | «over» result =>
    rw [hphase] at hmove
    cases hmove

/-- What is asked of the world, is asked by a delivery that is being served. -/
theorem exists_served_of_asks {q : Ask} {next : q.Answer → Phase} {t : Ticket}
    {payload : ByteArray} {wait : Bool} (hmove : d.move p t payload wait = .asks q next) :
    ∃ c rest, d.phase = .served c (.ask q rest) ∧ (next = fun answer => .served c (rest answer)) ∧
      ∀ health, q ≠ .mark health := by
  rw [Delivery.move] at hmove
  split at hmove
  · cases hmove
  · cases hmove
  · split at hmove
    · split at hmove <;> cases hmove
    · cases hmove
  · cases hmove
  · split at hmove <;> cases hmove
  · rename_i c q' rest hmark hphase
    cases hmove
    refine ⟨c, rest, hphase, rfl, fun health heq => ?_⟩
    subst heq
    exact hmark health rest rfl HEq.rfl
  · cases hmove

end Visit

end PeerCluster
