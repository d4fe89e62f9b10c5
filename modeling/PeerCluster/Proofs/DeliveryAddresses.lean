import PeerCluster.Proofs.CourierDestinations
import PeerCluster.Proofs.DirectedPlans
import PeerCluster.Proofs.UnsendableMessages

/-!
# Where frames go

A delivery to a member that has moved finds the courier that the pool has for the peer. If nobody stands
in line for it, another one takes its place that goes to the new address. If somebody does, it is kept,
and this may be another delivery or somebody who sweeps the pool, piece by piece.

**What happens** (`Premises.Moves`). A delivery takes a step, and if it opens a connection, it is noted
to which address. Anything else happens in the office, and any number of rounds of sweeping go on. It is
also noted which deliveries found the courier of their peer busy.

**Theorem (`Premises.frames_reach_address`).** Every frame is written on a connection that was opened to
the address of the courier that serves the delivery, and this courier goes to the peer of the member. It
is the address of the member, unless the delivery found the courier of its peer busy.

The invariant (`Premises.Directed`) says of every courier that the connection it holds was opened to its
own address, and of every delivery that its courier suits the member and that what is left of the
service talks to the address of the courier only (`Courier.talksTo_send`).

**Exception (`Premises.frames_may_miss_address`).** Where one mailing lists a peer with two addresses
and all deliveries are made at once, the second delivery may go to the first address.
-/

namespace PeerCluster

open Relation (ReflTransGen)

/-- Whether somebody stands in line for the courier of a peer. -/
def CourierPool.isBusy (p : CourierPool) (id : MemberId) : Bool :=
  (p.current.get? id).any fun c => !p.isFree c

/-! ## Deliveries -/

/-- Whether a delivery to a member may go to this destination, when it has found the courier of its peer
busy or not. -/
def Member.Suits (busy : Bool) (m target : Member) : Prop :=
  target.id = m.id ∧ (busy = false → target.address = m.address)

namespace Mailing

variable {p pool : CourierPool} {t : Ticket} {payload : ByteArray} {wait busy : Bool} {m : Member}
  {phase : Phase} {d : Delivery} {opened opened' : Link → Option String}

/-- The courier of a delivery suits the member, and what is left of its service talks to its address over
connections that were opened to it. -/
def Phase.Directed (opened : Link → Option String) (p : CourierPool) (busy : Bool) (m : Member) :
    Phase → Prop
  | .pending | .over _ => True
  | .assigned c | .queued c => ∃ target, p.destination? c = some target ∧ m.Suits busy target
  | .served c rest => ∃ target own, p.destination? c = some target ∧ m.Suits busy target ∧
    (∀ link ∈ own, opened link = some target.address) ∧
    rest.TalksTo target.address (fun own result => result.2.HoldsOf target own) own

theorem Phase.Directed.keeps (h : phase.Directed opened p busy m)
    (hdestinations : ∀ c m, p.destination? c = some m → pool.destination? c = some m)
    (hopened : ∀ link address, opened link = some address → opened' link = some address) :
    phase.Directed opened' pool busy m := by
  cases phase with
  | pending | «over» => trivial
  | assigned c | queued c =>
    obtain ⟨target, htarget, hsuits⟩ := h
    exact ⟨target, hdestinations c target htarget, hsuits⟩
  | served c rest =>
    obtain ⟨target, own, htarget, hsuits, hown, hrest⟩ := h
    exact ⟨target, own, hdestinations c target htarget, hsuits,
      fun link hlink => hopened link _ (hown link hlink), hrest⟩

/-- The courier that is found suits the member. -/
theorem suits_assign (h : p.Directed opened) (m : Member) :
    ∃ target, (p.assign m).2.destination? (p.assign m).1 = some target ∧
      m.Suits (p.isBusy m.id) target := by
  have hcounted : (p.courierFor m).2.KeepsCourse (p.assign m).2 :=
    CourierPool.keepsCourse_modify fun _ => rfl
  suffices hfound : ∃ target, (p.courierFor m).2.destination? (p.courierFor m).1 = some target ∧
      m.Suits (p.isBusy m.id) target by
    obtain ⟨target, htarget, hsuits⟩ := hfound
    exact ⟨target, hcounted.destinations _ _ htarget, hsuits⟩
  have hfinds := p.finds_courierFor m
  generalize p.courierFor m = found at hfinds
  cases hfinds with
  | @keeps c hc hkept =>
    obtain ⟨target, htarget, hid⟩ := h.current m.id c hc
    refine ⟨target, htarget, hid, fun hfree => ?_⟩
    rw [CourierPool.isBusy, hc, Option.any_some, Bool.not_eq_false'] at hfree
    -- A courier that is kept is busy, or it goes where the member is.
    rcases hkept with hbusy | hgoes
    · rw [hfree] at hbusy
      cases hbusy
    · obtain ⟨desk, hdesk, haddress⟩ := CourierPool.goesTo_iff.1 hgoes
      rw [CourierPool.destination?_of_desk hdesk] at htarget
      rw [← Option.some.inj htarget, haddress]
  | replaces | hires => exact ⟨m, CourierPool.destination?_hire _ m, rfl, fun _ => rfl⟩

/-- A delivery that takes a step keeps what the invariant says of the couriers, and of itself. -/
theorem directed_of_steps (hmove : d.move p t payload wait = .steps phase pool)
    (hp : p.Directed opened) (hd : d.phase.Directed opened p busy d.member)
    (hbusy : d.phase = .pending → busy = p.isBusy d.member.id) :
    pool.Directed opened ∧
      (∀ c m, p.destination? c = some m → pool.destination? c = some m) ∧
      phase.Directed opened pool busy d.member := by
  rw [Delivery.move] at hmove
  split at hmove <;> rename_i hphase
  · cases hmove
    -- Here it is decided which courier serves the delivery, and for good.
    have hcourse := CourierPool.keepsCourse_assign p d.member
    rw [hbusy hphase]
    exact ⟨hp.keepsCourse hcourse, hcourse.destinations, suits_assign hp d.member⟩
  · rename_i c
    cases hmove
    rw [hphase] at hd
    have hqueued : (Phase.queued c).Directed opened p busy d.member := hd
    have hcourse := CourierPool.keepsCourse_join p c t
    exact ⟨hp.keepsCourse hcourse, hcourse.destinations,
      hqueued.keeps hcourse.destinations fun _ _ h => h⟩
  · rename_i c
    split at hmove
    · rename_i desk hdesk
      split at hmove
      · cases hmove
        rw [hphase] at hd
        obtain ⟨target, htarget, hsuits⟩ := hd
        have heq := CourierPool.destination?_of_desk hdesk
        obtain rfl := Option.some.inj (heq.symm.trans htarget)
        refine ⟨hp, fun _ _ h => h, _, desk.courier.link.toList, htarget, hsuits, fun link hlink => ?_,
          Courier.talksTo_send ⟨rfl, fun link hlink => ?_⟩ payload wait⟩
        · have hheld := (CourierPool.held?_of_desk hdesk).trans (Option.mem_toList.1 hlink)
          obtain ⟨m, hm, haddress⟩ := hp.held c link hheld
          obtain rfl := Option.some.inj (htarget.symm.trans hm)
          exact haddress
        · exact Option.mem_toList.2 hlink
      · cases hmove
    · cases hmove
  · rename_i c result courier
    cases hmove
    rw [hphase] at hd
    obtain ⟨target, own, htarget, -, hown, hrest⟩ := hd
    obtain ⟨hpool, hdestinations⟩ := hp.leave htarget hrest hown
    exact ⟨hpool, hdestinations, trivial⟩
  · split at hmove
    · rename_i c health next desk _
      cases hmove
      rw [hphase] at hd
      obtain ⟨target, own, htarget, hsuits, hown, hrest⟩ := hd
      exact ⟨hp.keepsCourse (CourierPool.keepsCourse_of_desks rfl fun _ _ hc => hc), fun _ _ h => h,
        target, own, htarget, hsuits, hown, hrest.2 ()⟩
    · cases hmove
  · cases hmove
  · cases hmove

theorem pending_of_mem_begin {n : Nat} {members : List Member}
    (hd : d ∈ (Mailing.begin p n members payload wait).1.deliveries) : d.phase = .pending := by
  have hpending : ∀ (members : List Member) (board : HealthBoard),
      ∀ d ∈ (snapshot board members).1, d.phase = .pending := by
    intro members
    induction members with
    | nil => nofun
    | cons m rest ih =>
      intro board d hd
      rcases List.mem_cons.1 hd with rfl | hd
      · rfl
      · exact ih _ d hd
  rcases List.mem_append.1 hd with hd | hd
  · exact hpending members p.board d (List.mem_of_mem_filter hd)
  · exact hpending members p.board d (List.mem_of_mem_filter hd)

/-- Only a courier at work asks the world. -/
theorem served_of_asks {q : Ask} {next : q.Answer → Phase}
    (hmove : d.move p t payload wait = .asks q next) :
    ∃ c rest, d.phase = .served c (.ask q rest) ∧ next = fun answer => .served c (rest answer) := by
  rw [Delivery.move] at hmove
  split at hmove <;> rename_i hphase
  · cases hmove
  · cases hmove
  · split at hmove
    · split at hmove <;> cases hmove
    · cases hmove
  · cases hmove
  · split at hmove <;> cases hmove
  · cases hmove
    exact ⟨_, _, hphase, rfl⟩
  · cases hmove

end Mailing

/-! ## The premises -/

/-- An office whose pool is swept piece by piece, with what is known of its connections. -/
structure Premises where
  office : Office
  /-- Those who sweep the pool. -/
  sweeper? : Nat → Option Sweeper := fun _ => none
  /-- The address that a connection was opened to. -/
  opened : Link → Option String := fun _ => none
  /-- Whether a delivery found the courier of its peer busy. -/
  foundBusy : Ticket → Bool := fun _ => false

namespace Premises

open Mailing

/-- The connections with one more that is opened, if there is one. -/
def opening (f : Premises) : Option (Link × String) → Link → Option String
  | some (link, address) => Function.update f.opened link (some address)
  | none => f.opened

/-- Whether a delivery that goes on finds the courier of its peer busy now, or has done so before. -/
def findsBusy (f : Premises) (t : Ticket) (d : Delivery) : Bool :=
  match d.phase with
  | .pending => f.office.pool.isBusy d.member.id
  | _ => f.foundBusy t

/-- The premises when somebody who sweeps the pool has gone on. -/
def swept (f : Premises) (n : Nat) (next : Sweeper × CourierPool) : Premises :=
  { f with
    office := { f.office with pool := next.2 }
    sweeper? := Function.update f.sweeper? n (some next.1) }

/-- One thing after the other that may happen. Mailings and those who sweep have different numbers. -/
inductive Moves : Premises → Premises → Prop
  /-- Anything happens but that a delivery goes on. -/
  | happens {f : Premises} {o : Office} : Office.Works f.office o →
    (∀ t d, o.delivery? t = some d → d.phase = .pending ∨ f.office.delivery? t = some d) →
    (∀ n, (f.sweeper? n).isSome → o.mailing? n = none) → Moves f { f with office := o }
  | steps {f : Premises} {n : Nat} {g : Mailing} {place : Nat} {d : Delivery} {phase : Phase}
    {pool : CourierPool} : f.office.mailing? n = some g → g.deliveries[place]? = some d →
    g.moveAt f.office.pool place = .steps phase pool →
      Moves f { f with
        office := f.office.withPhase g place phase pool
        foundBusy := Function.update f.foundBusy ⟨n, place⟩ (f.findsBusy ⟨n, place⟩ d) }
  /-- What a delivery asks is answered. Every connection is opened once. -/
  | asks {f : Premises} {n : Nat} {g : Mailing} {place : Nat} {q : Ask} {next : q.Answer → Phase}
    (answer : q.Answer) : f.office.mailing? n = some g →
    g.moveAt f.office.pool place = .asks q next →
    (∀ link address, q.opens answer = some (link, address) → f.opened link = none) →
      Moves f { f with
        office := f.office.withPhase g place (next answer) f.office.pool
        opened := f.opening (q.opens answer) }
  | setsOut {f : Premises} {n : Nat} : f.office.mailing? n = none → f.sweeper? n = none →
    Moves f (f.swept n (Sweeper.setOut f.office.pool))
  | sweeps {f : Premises} {n : Nat} {s : Sweeper} (now : Nat) : f.sweeper? n = some s →
    Moves f (f.swept n (s.goOn now ⟨n, 0⟩ f.office.pool))
  | returns {f : Premises} {n : Nat} {s : Sweeper} : f.sweeper? n = some s → s.isOver = true →
    Moves f { f with sweeper? := Function.update f.sweeper? n none }

/-- What may be reached from a pool without couriers. -/
def Reached (f : Premises) : Prop :=
  ∃ settings fanOut self,
    ReflTransGen Moves { office := { pool := { settings, fanOut, self } } } f

/-- What holds of the premises at any time. -/
structure Directed (f : Premises) : Prop where
  numbers : ∀ n g, f.office.mailing? n = some g → g.number = n
  pool : f.office.pool.Directed f.opened
  deliveries : ∀ t d, f.office.delivery? t = some d →
    d.phase.Directed f.opened f.office.pool (f.foundBusy t) d.member

variable {f f' : Premises} {n place : Nat} {g : Mailing} {d : Delivery} {phase : Phase}
  {pool : CourierPool}

theorem directed_initial (settings : Settings.Delivery) (fanOut : Settings.FanOut) (self : Handshake) :
    Directed { office := { pool := { settings, fanOut, self } } } :=
  ⟨nofun, ⟨nofun, nofun⟩, nofun⟩

/-- Where the pool changes and no delivery does. -/
theorem Directed.keepsCourse {sweeper? : Nat → Option Sweeper} (h : f.Directed)
    (hcourse : f.office.pool.KeepsCourse pool) :
    Directed { f with office := { f.office with pool }, sweeper? } :=
  ⟨h.numbers, h.pool.keepsCourse hcourse, fun t d hd =>
    (h.deliveries t d hd).keeps hcourse.destinations fun _ _ haddress => haddress⟩

/-- Whatever happens but that a delivery goes on, no courier is sent elsewhere. -/
theorem keepsCourse_of_works {o o' : Office} (hworks : Office.Works o o')
    (hrest : ∀ t d, o'.delivery? t = some d → d.phase = .pending ∨ o.delivery? t = some d)
    (hnumbers : ∀ n g, o.mailing? n = some g → g.number = n) :
    o.pool.KeepsCourse o'.pool ∧ ∀ n g, o'.mailing? n = some g → g.number = n := by
  have hboard : ∀ board : HealthBoard, o.pool.KeepsCourse { o.pool with board } := fun _ =>
    CourierPool.keepsCourse_of_desks rfl fun _ _ hc => hc
  cases hworks with
  | adds m => exact ⟨CourierPool.keepsCourse_courierFor o.pool m, hnumbers⟩
  | removes id => exact ⟨CourierPool.keepsCourse_remove o.pool id, hnumbers⟩
  | sweeps now => exact ⟨CourierPool.keepsCourse_sweep o.pool now, hnumbers⟩
  | closes => exact ⟨CourierPool.keepsCourse_of_desks rfl fun _ _ hc => hc, hnumbers⟩
  | looksUp | forgets | marks => exact ⟨hboard _, hnumbers⟩
  | begins n members payload wait hnew =>
    refine ⟨hboard _, fun n' g hg => ?_⟩
    by_cases hn : n' = n
    · subst hn
      rw [Office.begins, Office.mailing?_put_self] at hg
      rw [← Option.some.inj hg]
      rfl
    · rw [Office.begins, Office.mailing?_put_of_ne _ _ _ hn] at hg
      exact hnumbers n' g hg
  | @reports n =>
    refine ⟨hboard _, fun n' g hg => ?_⟩
    by_cases hn : n' = n
    · subst hn
      rw [Office.mailing?_put_self] at hg
      cases hg
    · rw [Office.mailing?_put_of_ne _ _ _ hn] at hg
      exact hnumbers n' g hg
  | @goes n g place phase pool hg hgoes =>
    -- A delivery that goes on has begun, and is not what it was.
    obtain rfl := hnumbers _ _ hg
    obtain ⟨d, hd, -, hturns⟩ := hgoes.turns
    have hafter : (o.withPhase g place phase pool).delivery? ⟨g.number, place⟩ =
        some { d with phase } := by
      rw [Office.delivery?_withPhase hg hd, Function.update_self]
    exfalso
    rcases hrest _ _ hafter with hpending | hsame
    · generalize d.phase = before at hturns
      obtain rfl : phase = .pending := hpending
      cases hturns
    · rw [(Office.delivery?_eq hg place).trans hd] at hsame
      have hphase : d.phase = phase := congrArg Delivery.phase (Option.some.inj hsame)
      have hfollows : Follows phase d.phase := ⟨_, _, _, _, _, _, hturns⟩
      rw [hphase] at hfollows
      exact wellFounded_follows.asymmetric _ _ hfollows hfollows

/-- When a delivery has gone on, it is what it has become, and the others are as they were. -/
theorem Directed.withPhase {opened : Link → Option String} {foundBusy : Ticket → Bool}
    (h : f.Directed) (hg : f.office.mailing? n = some g) (hd : g.deliveries[place]? = some d)
    (hpool : pool.Directed opened)
    (hdestinations : ∀ c m, f.office.pool.destination? c = some m → pool.destination? c = some m)
    (hopened : ∀ link address, f.opened link = some address → opened link = some address)
    (hfound : ∀ t ≠ ⟨n, place⟩, foundBusy t = f.foundBusy t)
    (hphase : phase.Directed opened pool (foundBusy ⟨n, place⟩) d.member) :
    Directed { f with office := f.office.withPhase g place phase pool, opened, foundBusy } := by
  obtain rfl := h.numbers _ _ hg
  refine ⟨fun n' g' hg' => ?_, hpool, fun t d' hd' => ?_⟩
  · by_cases hn : n' = g.number
    · subst hn
      rw [Office.withPhase, Office.mailing?_put_self] at hg'
      rw [← Option.some.inj hg']
      rfl
    · rw [Office.withPhase, Office.mailing?_put_of_ne _ _ _ hn] at hg'
      exact h.numbers n' g' hg'
  · rw [Office.delivery?_withPhase hg hd] at hd'
    by_cases ht : t = ⟨g.number, place⟩
    · subst ht
      rw [Function.update_self] at hd'
      rw [← Option.some.inj hd']
      exact hphase
    · rw [Function.update_of_ne ht] at hd'
      show d'.phase.Directed opened pool (foundBusy t) d'.member
      rw [hfound t ht]
      exact (h.deliveries t d' hd').keeps hdestinations hopened

theorem opening_of_known {answer : Option (Link × String)}
    (hnew : ∀ link address, answer = some (link, address) → f.opened link = none) {link : Link}
    {address : String} (h : f.opened link = some address) : f.opening answer link = some address := by
  obtain _ | ⟨link', address'⟩ := answer
  · exact h
  · refine (Function.update_of_ne ?_ ..).trans h
    rintro rfl
    rw [hnew _ _ rfl] at h
    cases h

theorem Directed.steps (h : f.Directed) (hg : f.office.mailing? n = some g)
    (hd : g.deliveries[place]? = some d) (hmove : g.moveAt f.office.pool place = .steps phase pool) :
    Directed { f with
      office := f.office.withPhase g place phase pool
      foundBusy := Function.update f.foundBusy ⟨n, place⟩ (f.findsBusy ⟨n, place⟩ d) } := by
  have hdelivery : f.office.delivery? ⟨n, place⟩ = some d := (Office.delivery?_eq hg place).trans hd
  obtain ⟨d', hd', -, hmove⟩ := exists_move hmove nofun nofun
  obtain rfl := Option.some.inj (hd.symm.trans hd')
  have hbefore := h.deliveries _ d hdelivery
  have hfound : d.phase.Directed f.opened f.office.pool (f.findsBusy ⟨n, place⟩ d) d.member ∧
      (d.phase = .pending → f.findsBusy ⟨n, place⟩ d = f.office.pool.isBusy d.member.id) := by
    rw [findsBusy]
    cases hphase : d.phase with
    | pending => exact ⟨trivial, fun _ => rfl⟩
    | _ =>
      rw [hphase] at hbefore
      exact ⟨hbefore, nofun⟩
  obtain ⟨hpool, hdestinations, hafter⟩ := directed_of_steps hmove h.pool hfound.1 hfound.2
  refine h.withPhase hg hd hpool hdestinations (fun _ _ haddress => haddress)
    (fun t ht => Function.update_of_ne ht ..) ?_
  rwa [Function.update_self]

theorem Directed.asks {q : Ask} {next : q.Answer → Phase} (h : f.Directed) (answer : q.Answer)
    (hg : f.office.mailing? n = some g) (hmove : g.moveAt f.office.pool place = .asks q next)
    (hnew : ∀ link address, q.opens answer = some (link, address) → f.opened link = none) :
    Directed { f with
      office := f.office.withPhase g place (next answer) f.office.pool
      opened := f.opening (q.opens answer) } := by
  obtain ⟨d, hd, -, hmove⟩ := exists_move hmove nofun nofun
  obtain ⟨c, rest, hphase, hnext⟩ := served_of_asks hmove
  have hbefore := h.deliveries _ d ((Office.delivery?_eq hg place).trans hd)
  rw [hphase] at hbefore
  obtain ⟨target, own, htarget, hsuits, hown, hgoesTo, hrest⟩ := hbefore
  refine h.withPhase hg hd (h.pool.opens fun _ _ => opening_of_known hnew) (fun _ _ hm => hm)
    (fun _ _ => opening_of_known hnew) (fun _ _ => rfl) ?_
  rw [hnext]
  refine ⟨target, _, htarget, hsuits, fun link hlink => ?_, hrest answer⟩
  rcases List.mem_append.1 hlink with hlink | hlink
  · obtain ⟨⟨_, address⟩, hopens, rfl⟩ := Option.map_eq_some_iff.1 (Option.mem_toList.1 hlink)
    have haddress : address = target.address := hgoesTo.address_of_opens hopens
    rw [hopens, haddress]
    exact Function.update_self ..
  · exact opening_of_known hnew (hown link hlink)

theorem Moves.directed (hmoves : Moves f f') (h : f.Directed) : f'.Directed := by
  cases hmoves with
  | @happens o hworks hrest _ =>
    obtain ⟨hcourse, hnumbers⟩ := keepsCourse_of_works hworks hrest h.numbers
    refine ⟨hnumbers, h.pool.keepsCourse hcourse, fun t d hd => ?_⟩
    rcases hrest t d hd with hpending | hsame
    · show d.phase.Directed _ _ _ _
      rw [hpending]
      trivial
    · exact (h.deliveries t d hsame).keeps hcourse.destinations fun _ _ haddress => haddress
  | steps hg hd hmove => exact h.steps hg hd hmove
  | asks answer hg hmove hnew => exact h.asks answer hg hmove hnew
  | setsOut => exact h.keepsCourse (Sweeper.keepsCourse_setOut _)
  | @sweeps n s now => exact h.keepsCourse (s.keepsCourse_goOn now ⟨n, 0⟩ _)
  | returns => exact h.keepsCourse (.refl _)

theorem Reached.moves (h : f.Reached) (hmoves : ReflTransGen Moves f f') : f'.Reached := by
  obtain ⟨settings, fanOut, self, hbefore⟩ := h
  exact ⟨settings, fanOut, self, hbefore.trans hmoves⟩

theorem Reached.directed (h : f.Reached) : f.Directed := by
  obtain ⟨settings, fanOut, self, hmoves⟩ := h
  induction hmoves with
  | refl => exact directed_initial settings fanOut self
  | tail _ hmove ih => exact hmove.directed ih

/-- **Theorem.** A frame that a delivery is about to write goes on a connection that was opened to where
the courier goes that serves it, and this courier goes to the peer of the member. If the delivery did not
find the courier of its peer busy, the connection was opened to the address of the member. -/
theorem frames_reach_address {link : Link} {frame : Frame} {ms : Nat}
    {next : Except IoFault Unit → Phase} (h : f.Reached) (hg : f.office.mailing? n = some g)
    (hmove : g.moveAt f.office.pool place = .asks (.write link frame ms) next) :
    ∃ d c desk, g.deliveries[place]? = some d ∧ d.phase.StandsAt c ∧
      f.office.pool.desk? c = some desk ∧ desk.courier.destination.id = d.member.id ∧
      f.opened link = some desk.courier.destination.address ∧
      (f.foundBusy ⟨n, place⟩ = false → f.opened link = some d.member.address) := by
  obtain ⟨d, hd, -, hmove⟩ := exists_move hmove nofun nofun
  obtain ⟨c, rest, hphase, -⟩ := served_of_asks hmove
  have hdirected := h.directed.deliveries _ d ((Office.delivery?_eq hg place).trans hd)
  rw [hphase] at hdirected
  obtain ⟨target, own, htarget, ⟨hid, haddress⟩, hown, hlink, -⟩ := hdirected
  obtain ⟨desk, hdesk, rfl⟩ := CourierPool.exists_desk_of_destination htarget
  have hstands : d.phase.StandsAt c := hphase ▸ rfl
  refine ⟨d, c, desk, hd, hstands, hdesk, hid, hown link hlink, fun hfree => ?_⟩
  rw [← haddress hfree]
  exact hown link hlink

/-! ## Examples -/

theorem Reached.begins (h : f.Reached) (hnew : f.office.mailing? n = none)
    (hnobody : ∀ n, f.sweeper? n = none) (members : List Member) (payload : ByteArray) (wait : Bool) :
    Reached { f with office := f.office.begins n members payload wait } := by
  obtain ⟨settings, fanOut, self, hmoves⟩ := h
  refine ⟨settings, fanOut, self,
    hmoves.tail (.happens (.begins _ n members payload wait hnew) ?_ ?_)⟩
  · intro t d hd
    obtain ⟨g, hg, hd⟩ := Option.bind_eq_some_iff.1 hd
    by_cases ht : t.mailing = n
    · rw [ht, Office.begins, Office.mailing?_put_self] at hg
      obtain rfl := Option.some.inj hg
      exact .inl (pending_of_mem_begin (List.mem_of_getElem? hd))
    · rw [Office.begins, Office.mailing?_put_of_ne _ _ _ ht] at hg
      exact .inr (Option.bind_eq_some_iff.2 ⟨g, hg, hd⟩)
  · intro n' hn'
    rw [hnobody] at hn'
    cases hn'

/-- The delivery at a place goes one step on, where no connection is ever opened. -/
def stumble (f : Premises) (n place : Nat) : Premises :=
  match f.office.mailing? n with
  | none => f
  | some g =>
    match g.deliveries[place]?, g.moveAt f.office.pool place with
    | some d, .steps phase pool =>
      { f with
        office := f.office.withPhase g place phase pool
        foundBusy := Function.update f.foundBusy ⟨n, place⟩ (f.findsBusy ⟨n, place⟩ d) }
    | some _, .asks q next =>
      { f with office := f.office.withPhase g place (next (Exchange.offline q)) f.office.pool }
    | _, _ => f

/-- The delivery at a place goes so many steps on. -/
def stumbles (f : Premises) (n place : Nat) : (steps : Nat) → Premises
  | 0 => f
  | steps + 1 => (f.stumble n place).stumbles n place steps

theorem opens_offline (q : Ask) : q.opens (Exchange.offline q) = none := by
  cases q <;> rfl

theorem moves_stumble (f : Premises) (n place : Nat) : ReflTransGen Moves f (f.stumble n place) := by
  rw [Premises.stumble]
  cases hg : f.office.mailing? n with
  | none => exact .refl
  | some g =>
    dsimp only
    cases hd : g.deliveries[place]? with
    | none => exact .refl
    | some d =>
      cases hmove : g.moveAt f.office.pool place with
      | steps phase pool => exact .single (.steps hg hd hmove)
      | asks q next =>
        have hopens := opens_offline q
        have hasks := Moves.asks (Exchange.offline q) hg hmove fun _ _ heq => by
          rw [hopens] at heq
          cases heq
        rw [hopens] at hasks
        exact .single hasks
      | waits | isOver => exact .refl

theorem moves_stumbles (f : Premises) (n place steps : Nat) :
    ReflTransGen Moves f (f.stumbles n place steps) := by
  induction steps generalizing f with
  | zero => exact .refl
  | succ steps ih => exact (moves_stumble f n place).trans (ih (f.stumble n place))

theorem Reached.stumbles (h : f.Reached) (n place steps : Nat) : (f.stumbles n place steps).Reached :=
  h.moves (moves_stumbles f n place steps)

/-- A courier without a connection that begins a delivery may open one and is then about to write its
greeting. -/
theorem Reached.greets {c : CourierId} {courier : Courier} {payload : ByteArray} {wait : Bool}
    (h : f.Reached) (link : Link) (hg : f.office.mailing? n = some g)
    (hd : g.deliveries[place]? = some d)
    (hmay : g.mayStep place = true) (hphase : d.phase = .served c (courier.send payload wait))
    (hlink : courier.link = none) (hfits : (Frame.ofHandshake courier.self).Fits)
    (hsize : Frame.checkSize (Frame.headerSize + payload.size) = .ok ()) (hnew : f.opened link = none) :
    ∃ (f' : Premises) (g' : Mailing) (next : Except IoFault Unit → Phase), f'.Reached ∧
      f'.office.mailing? n = some g' ∧
      g'.deliveries.map Delivery.member = g.deliveries.map Delivery.member ∧
      g'.moveAt f'.office.pool place = .asks (.write link (Frame.ofHandshake courier.self)
        courier.settings.readTimeoutMs.toNat) next ∧
      f'.opened link = some courier.destination.address ∧ f'.foundBusy = f.foundBusy := by
  obtain ⟨next, hsend, hgreets⟩ := Courier.send_greets hlink hfits hsize wait
  obtain ⟨rest, hgreets⟩ := hgreets link
  rw [hsend] at hphase
  have hmove : g.moveAt f.office.pool place =
      .asks (.dial courier.destination.address courier.settings)
        fun answer => .served c (next answer) := by
    simp only [moveAt, hd, hmay, if_true, Delivery.move, hphase]
  have hnumber := h.directed.numbers n g hg
  obtain ⟨settings, fanOut, self, hmoves⟩ := h
  have hmoves' := hmoves.tail (.asks (Dialled.connected link) hg hmove fun link' address heq => by
    have heq : some (link, courier.destination.address) = some (link', address) := heq
    rw [← (Prod.mk.inj (Option.some.inj heq)).1]
    exact hnew)
  have hnot : d.isOver = false := by
    rw [Delivery.isOver, hphase]
  refine ⟨_, g.withPhase place (.served c (next (.connected link))),
    fun outcome => .served c (rest outcome), ⟨settings, fanOut, self, hmoves'⟩,
    Office.mailing?_withPhase hnumber, members_withPhase .., ?_,
    Function.update_self .., rfl⟩
  rw [moveAt, getElem?_withPhase_self hd]
  simp only [mayStep_withPhase hmay hd hnot, if_true, Delivery.move, hgreets]

open Office (stranger moved retrier)

/-- A mailing to a member at two addresses, all at once. -/
def twice : Premises where
  office := Office.begins
    { pool := {
        settings := { maxRetryAttempts := 0 }
        fanOut := .parallel
        self := Delivery.novice.self } }
    0 [stranger, moved] "first".toUTF8 false

theorem reached_twice : twice.Reached :=
  Reached.begins (f := { office := { pool := _ } }) ⟨_, _, _, .refl⟩ rfl (fun _ => rfl) ..

theorem fits_first : Frame.checkSize (Frame.headerSize + "first".toUTF8.size) = .ok () :=
  Frame.checkSize_eq_ok_iff.2 (by decide +kernel)

/-- The greeting of the first delivery goes to the first address. -/
theorem frames_reach_address_of_first : ∃ (f : Premises) (g : Mailing) (link : Link) (frame : Frame)
    (ms : Nat) (next : Except IoFault Unit → Phase), f.Reached ∧ f.office.mailing? 0 = some g ∧
    g.deliveries.map Delivery.member = [stranger, moved] ∧
    g.moveAt f.office.pool 0 = .asks (.write link frame ms) next ∧
    f.foundBusy ⟨0, 0⟩ = false ∧ f.opened link = some stranger.address := by
  -- The delivery finds its courier, joins the line and is served.
  let before := twice.stumbles 0 0 3
  let served : Delivery := ⟨stranger, false, .served ⟨0⟩ (retrier.send "first".toUTF8 false)⟩
  let waiting : Delivery := ⟨moved, false, .pending⟩
  let g : Mailing := ⟨0, "first".toUTF8, false, .parallel, [served, waiting]⟩
  have hg : before.office.mailing? 0 = some g := rfl
  have hd : g.deliveries[0]? = some served := rfl
  obtain ⟨f, g', next, hf, hg', hmembers, hmove, hopened, hfound⟩ :=
    (reached_twice.stumbles 0 0 3).greets ⟨0⟩ hg hd rfl rfl rfl Delivery.fits_greeting_novice
      fits_first rfl
  have hfree : f.foundBusy ⟨0, 0⟩ = false := hfound ▸ rfl
  obtain ⟨d, c, desk, hd', -, -, -, -, haddress⟩ := frames_reach_address hf hg' hmove
  have hmember : some stranger = some d.member := by
    rw [← Option.map_some, ← hd', ← List.getElem?_map, hmembers]
    rfl
  rw [← Option.some.inj hmember] at haddress
  exact ⟨f, g', _, _, _, _, hf, hg', hmembers, hmove, hfree, haddress hfree⟩

/-- The premises when the second delivery has joined the line before the first one, which has failed, has
left it. -/
def overtaken : Premises :=
  (((twice.stumbles 0 0 2).stumbles 0 1 2).stumbles 0 0 5).stumbles 0 1 1

theorem reached_overtaken : overtaken.Reached :=
  (((reached_twice.stumbles 0 0 2).stumbles 0 1 2).stumbles 0 0 5).stumbles 0 1 1

theorem mailing_overtaken : ∃ result, overtaken.office.mailing? 0 =
    some ⟨0, "first".toUTF8, false, .parallel,
      [⟨stranger, false, .over result⟩,
        ⟨moved, false, .served ⟨0⟩ (retrier.send "first".toUTF8 false)⟩]⟩ :=
  ⟨_, rfl⟩

/-- The second delivery finds the courier busy with the first one, and its greeting goes to the first
address as well. -/
theorem frames_may_miss_address : ∃ (f : Premises) (g : Mailing) (link : Link) (frame : Frame)
    (ms : Nat) (next : Except IoFault Unit → Phase), f.Reached ∧ f.office.mailing? 0 = some g ∧
    g.deliveries.map Delivery.member = [stranger, moved] ∧
    g.moveAt f.office.pool 1 = .asks (.write link frame ms) next ∧
    f.opened link = some stranger.address ∧ f.opened link ≠ some moved.address := by
  obtain ⟨result, hg⟩ := mailing_overtaken
  let served : Delivery := ⟨moved, false, .served ⟨0⟩ (retrier.send "first".toUTF8 false)⟩
  have hd : [⟨stranger, false, .over result⟩, served][1]? = some served := rfl
  obtain ⟨f, g', next, hf, hg', hmembers, hmove, hopened, -⟩ :=
    reached_overtaken.greets ⟨0⟩ hg hd rfl rfl rfl Delivery.fits_greeting_novice fits_first rfl
  have hmoved : stranger.address ≠ moved.address := by decide +kernel
  refine ⟨f, g', _, _, _, _, hf, hg', hmembers, hmove, hopened, ?_⟩
  rw [hopened]
  exact fun heq => hmoved (Option.some.inj heq)

end Premises

end PeerCluster
