import PeerCluster.Proofs.TendedPeers

/-!
# The connections that couriers hold

**Holding on** (`held?`). A courier holds one connection or none. Hiring couriers opens none, and whoever
adds and removes peers, sweeps the pool or looks a courier up makes nobody let go but couriers for whom
nobody stands in line (`Frees`). So a courier at work keeps what it holds, whatever else happens in the
office (`Works.held?_of_served`).

**Looking up** (`Retains`). A delivery that finds its courier costs at most one connection: that of a
courier to the same peer which is free, goes to another address, and leaves the pool.
-/

namespace PeerCluster

namespace CourierPool

variable {p p' : CourierPool} {c c' : CourierId} {m : Member} {d : Desk}

/-- The connection that a courier holds. -/
def held? (p : CourierPool) (c : CourierId) : Option Link :=
  (p.desk? c).bind fun d => d.courier.link

theorem held?_of_desk (h : p.desk? c = some d) : p.held? c = d.courier.link := by
  rw [held?, h]
  rfl

theorem held?_modify {f : Desk → Desk}
    (hf : ∀ d, p.desk? c = some d → (f d).courier.link = d.courier.link) :
    (p.modify c f).held? = p.held? := by
  funext c'
  rw [held?, held?, desk?_modify]
  by_cases hc : c' = c
  · subst hc
    rw [if_pos rfl]
    cases hdesk : p.desk? c' with
    | none => rfl
    | some d => exact hf d hdesk
  · rw [if_neg hc]

theorem held?_letGo (p : CourierPool) (c : CourierId) :
    (p.letGo c).held? = Function.update p.held? c none := by
  funext c'
  rw [held?, desk?_letGo]
  by_cases hc : c' = c
  · subst hc
    rw [if_pos rfl, Function.update_self]
    cases p.desk? c' <;> rfl
  · rw [if_neg hc, Function.update_of_ne hc]
    rfl

theorem released_letGo (p : CourierPool) (c : CourierId) :
    (p.letGo c).released = (p.held? c).toList ++ p.released := by
  rw [letGo, held?]
  cases p.desk? c <;> rfl

/-- A new courier holds no connection. -/
theorem held?_hire (p : CourierPool) (m : Member) : (p.hire m).2.held? = p.held? := by
  funext c
  rw [held?, held?, desk?_hire]
  split
  next hc =>
    rw [hc, desk?_hired]
    rfl
  next => rfl

/-- A courier that is retired lets go of its connection, or everything stays as it is. -/
theorem retire_cases (p : CourierPool) (c : CourierId) : p.retire c = p.letGo c ∨ p.retire c = p := by
  rw [retire]
  split
  · split
    · exact .inl rfl
    · exact .inr rfl
  · exact .inr rfl

/-! ## Who lets go -/

/-- Nobody holds a connection that it did not hold, and only couriers for whom nobody stands in line
let go of theirs. -/
def Frees (p p' : CourierPool) : Prop :=
  ∀ c, p'.held? c = p.held? c ∨ p.line c = [] ∧ p'.held? c = none

theorem frees_of_held (h : p'.held? = p.held?) : p.Frees p' :=
  fun _ => .inl (congrFun h _)

theorem frees_of_letGo (hfree : p.line c = []) (h : p'.held? = Function.update p.held? c none) :
    p.Frees p' := by
  intro c'
  rw [h]
  by_cases hc : c' = c
  · subst hc
    exact .inr ⟨hfree, Function.update_self ..⟩
  · exact .inl (Function.update_of_ne hc ..)

theorem line_of_isFree (h : p.isFree c = true) : p.line c = [] := by
  rwa [isFree_eq, List.isEmpty_iff] at h

/-- How the courier for a peer is found. -/
inductive Finds (p : CourierPool) (m : Member) : CourierId × CourierPool → Prop
  /-- A courier that is busy or goes to the right address is kept. -/
  | keeps {c : CourierId} : p.current.get? m.id = some c →
    (p.isFree c = false ∨ p.goesTo c m.address = true) → Finds p m (c, p)
  | replaces {c : CourierId} : p.current.get? m.id = some c → p.isFree c = true →
    p.goesTo c m.address = false → Finds p m ((p.retire c).hire m)
  | hires : p.current.get? m.id = none → Finds p m (p.hire m)

theorem finds_courierFor (p : CourierPool) (m : Member) : p.Finds m (p.courierFor m) := by
  rw [courierFor]
  split
  next c hc =>
    split
    next hkept => exact .keeps hc (by simpa using hkept)
    next hnot =>
      rw [Bool.or_eq_true, not_or, Bool.not_eq_true, Bool.not_eq_true, Bool.not_eq_false'] at hnot
      exact .replaces hc hnot.1 hnot.2
  next hc => exact .hires hc

theorem frees_courierFor (p : CourierPool) (m : Member) : p.Frees (p.courierFor m).2 := by
  have hfinds := p.finds_courierFor m
  generalize p.courierFor m = found at hfinds
  cases hfinds with
  | keeps => exact frees_of_held rfl
  | @replaces c _ hfree _ =>
    rcases p.retire_cases c with h | h <;> rw [h]
    · exact frees_of_letGo (line_of_isFree hfree) ((held?_hire ..).trans (held?_letGo ..))
    · exact frees_of_held (held?_hire ..)
  | hires => exact frees_of_held (held?_hire ..)

theorem frees_remove (p : CourierPool) (id : MemberId) : p.Frees (p.remove id).2 := by
  rw [remove]
  split
  · exact frees_of_held rfl
  · rename_i c _
    show p.Frees { (if p.isFree c then p.letGo c else p) with current := _ }
    split
    next hfree => exact frees_of_letGo (line_of_isFree hfree) (held?_letGo p c)
    next => exact frees_of_held rfl

theorem frees_sweep (h : p.Coherent) (now : Nat) : p.Frees (p.sweep now).2 := by
  obtain ⟨-, -, hdesks⟩ := sweep_spec h now
  intro c
  rw [held?, hdesks]
  split
  next hdue =>
    obtain ⟨d, hd, hdue⟩ := Option.any_eq_true _ _ |>.1 hdue.2
    rw [Bool.and_eq_true] at hdue
    refine .inr ⟨?_, ?_⟩
    · rw [line_of_desk hd]
      exact List.isEmpty_iff.1 hdue.1
    · rw [hd]
      rfl
  next => exact .inl rfl

/-! ## What a delivery costs -/

theorem isCurrent_iff : p.isCurrent c = true ↔ ∃ id, p.current.get? id = some c := by
  constructor
  · intro h
    obtain ⟨e, he, rfl⟩ := List.mem_map.1 (List.contains_iff_mem.1 h)
    exact ⟨e.1, MemberMap.mem_entries.1 he⟩
  · rintro ⟨id, hc⟩
    exact isCurrent_of_get? hc

/-- Nobody opens a connection, and at most one courier lets go of its own. It goes to the peer of the
member and is not in the pool any more: it was free and had another address, so that another courier
has taken its place, or it had left the pool before. -/
inductive Retains (m : Member) (p p' : CourierPool) : Prop
  | all : p'.released = p.released → p'.held? = p.held? → Retains m p p'
  | allBut {c : CourierId} {cell : HealthCell} : p.contact? c = some ⟨m.id, cell⟩ →
    (p.isFree c = true ∧ p.goesTo c m.address = false ∨ p.isCurrent c = false) →
    p'.isCurrent c = false → p'.released = (p.held? c).toList ++ p.released →
    p'.held? = Function.update p.held? c none → Retains m p p'

theorem Retains.of_held {p'' : CourierPool} (h : Retains m p p') (hreleased : p''.released = p'.released)
    (hheld : p''.held? = p'.held?) (hcurrent : p''.current = p'.current) : Retains m p p'' := by
  cases h with
  | all hr hh => exact .all (hreleased.trans hr) (hheld.trans hh)
  | allBut hcontact hwhy hleft hr hh =>
    refine .allBut hcontact hwhy ?_ (hreleased.trans hr) (hheld.trans hh)
    rw [isCurrent, hcurrent]
    exact hleft

/-- Whoever is replaced by a new courier has left the pool. -/
theorem not_isCurrent_hire (h : p.Coherent) (hc : p.current.get? m.id = some c)
    (hcurrent : p'.current = p.current) (hdesks : p'.desks.size = p.desks.size) :
    (p'.hire m).2.isCurrent c = false := by
  rw [Bool.eq_false_iff, ne_eq, isCurrent_iff]
  rintro ⟨id, hid⟩
  replace hid : (p'.current.insert m.id (p'.hire m).1).get? id = some c := hid
  rw [MemberMap.get?_insert, hcurrent] at hid
  split at hid
  · obtain ⟨d, hd, -⟩ := h.exists_desk hc
    have hnew : (⟨p'.desks.size⟩ : CourierId) = c := Option.some.inj hid
    rw [← hnew, hdesks, desk?, Array.getElem?_eq_none (Nat.le_refl _)] at hd
    cases hd
  · rename_i hne
    exact hne (h.eq_of_current hid hc)

theorem retains_courierFor (h : p.Coherent) (m : Member) : Retains m p (p.courierFor m).2 := by
  have hfinds := p.finds_courierFor m
  generalize p.courierFor m = found at hfinds
  cases hfinds with
  | keeps => exact .all rfl rfl
  | @replaces c hc hfree haway =>
    rcases p.retire_cases c with hretire | hretire <;> rw [hretire]
    · obtain ⟨owner, hkept⟩ := h
      obtain ⟨cell, hcell⟩ := hkept.current m.id c hc
      refine .allBut hcell (.inl ⟨hfree, haway⟩)
        (not_isCurrent_hire ⟨owner, hkept⟩ hc (posted_letGo p c).2 ?_) (released_letGo p c)
        ((held?_hire ..).trans (held?_letGo ..))
      rw [letGo]
      split
      · exact Array.size_modify ..
      · rfl
    · exact .all rfl (held?_hire ..)
  | hires => exact .all rfl (held?_hire ..)

theorem retains_assign (h : p.Coherent) (m : Member) : Retains m p (p.assign m).2 :=
  (retains_courierFor h m).of_held rfl (held?_modify fun _ _ => rfl) rfl

/-- Who leaves the line of a courier that has done nothing costs a connection only if the courier is
not in the pool. -/
theorem retains_leave {courier : Courier} {cell : HealthCell}
    (hcontact : p.contact? c = some ⟨m.id, cell⟩) (hlink : courier.link = p.held? c) :
    Retains m p (p.leave c courier) := by
  have hheld : (p.modify c fun d => ⟨courier, d.line.tail, d.holders - 1⟩).held? = p.held? :=
    held?_modify fun d hd => hlink.trans (held?_of_desk hd)
  rw [leave]
  split
  next => exact .all rfl hheld
  next hgone =>
    have hgone : p.isCurrent c = false := Bool.eq_false_iff.2 hgone
    rcases (p.modify c fun d => ⟨courier, d.line.tail, d.holders - 1⟩).retire_cases c with h | h <;>
      rw [h]
    · refine .allBut hcontact (.inr hgone) ?_ ?_ ?_
      · rw [isCurrent, (posted_letGo _ c).2]
        exact hgone
      · rw [released_letGo, hheld]
        rfl
      · rw [held?_letGo, hheld]
    · exact .all rfl hheld

end CourierPool

/-! ## Couriers at work -/

/-- A courier whose greeting fits into a frame writes it on the connection that it has opened. -/
theorem Courier.dial_of_fits {c : Courier} (h : (Frame.ofHandshake c.self).Fits) : c.dial =
    .ask (.dial c.destination.address c.settings) fun
      | .timedOut =>
        .done (.error (.connectTimeout c.destination.address c.settings.connectTimeoutMs.toNat))
      | .failed fault => .done (.error (.io fault))
      | .connected link =>
        .ask (.write link (Frame.ofHandshake c.self) c.settings.readTimeoutMs.toNat) fun
          | .ok () => .done (.ok link)
          | .error fault => .ask (.close link) fun _ => .done (.error (.io fault)) := by
  have hhello : Frame.checkSize (Frame.ofHandshake c.self).wireSize = .ok () :=
    Frame.checkSize_eq_ok_iff.2 h
  rw [dial]
  simp only [hhello]
  refine congrArg (Exchange.ask _) (funext fun answer => ?_)
  cases answer with
  | timedOut | failed => rfl
  | connected link =>
    refine congrArg (Exchange.ask _) (funext fun outcome => ?_)
    cases outcome <;> rfl

namespace Office

open Mailing

variable {o o' : Office} {t : Ticket} {d : Mailing.Delivery} {c : CourierId}
  {rest : Exchange (Except DeliveryError Unit × Courier)}

/-- Whatever happens while a delivery is being served, its courier holds what it held. -/
theorem Works.held?_of_served (hworks : Works o o') (h : o.Sound) (hd : o.delivery? t = some d)
    (hphase : d.phase = .served c rest) (hstays : o'.delivery? t = some d) :
    o'.pool.held? c = o.pool.held? c := by
  have hhead := h.lines.served t d c rest hd hphase
  have hfrees : ∀ {p : CourierPool}, o.pool.Frees p → p.held? c = o.pool.held? c := by
    intro p hp
    refine (hp c).resolve_right fun hfree => ?_
    rw [hfree.1] at hhead
    cases hhead
  cases hworks with
  | adds m => exact hfrees (CourierPool.frees_courierFor o.pool m)
  | removes id => exact hfrees (CourierPool.frees_remove o.pool id)
  | sweeps now => exact hfrees (CourierPool.frees_sweep h.coherent now)
  | closes | looksUp | forgets | begins | reports => rfl
  | marks => rfl
  | @goes n g place phase pool hg hgoes =>
    obtain rfl := h.numbers _ _ hg
    obtain ⟨d', hd', -, hturns⟩ := hgoes.turns
    have hdelivery' : o.delivery? ⟨g.number, place⟩ = some d' := (delivery?_eq hg place).trans hd'
    have hfits' := h.fits _ d' hdelivery'
    show pool.held? c = o.pool.held? c
    generalize hbefore : d'.phase = before at hturns hfits'
    cases hturns with
    | assigns =>
      have hmodify : (o.pool.assign d'.member).2.held? = (o.pool.courierFor d'.member).2.held? :=
        CourierPool.held?_modify fun _ _ => rfl
      rw [hmodify]
      exact hfrees (CourierPool.frees_courierFor o.pool d'.member)
    | joins c' =>
      have hmodify : (o.pool.join c' ⟨g.number, place⟩).held? = o.pool.held? :=
        CourierPool.held?_modify fun _ _ => rfl
      rw [hmodify]
    | calls | asks => rfl
    | marks => rfl
    | @ends c' result courier =>
      have hc : c ≠ c' := by
        rintro rfl
        -- Only one delivery is in front.
        have hhead' := h.lines.served _ d' c _ hdelivery' hbefore
        obtain rfl := Option.some.inj (hhead.symm.trans hhead')
        rw [delivery?_withPhase hg hd', Function.update_self] at hstays
        rw [← Option.some.inj hstays] at hphase
        cases hphase
      have hmodify : ∀ f, (o.pool.modify c' f).held? c = o.pool.held? c := fun f => by
        rw [CourierPool.held?, CourierPool.desk?_modify, if_neg hc]
        rfl
      rw [CourierPool.leave]
      split
      · exact hmodify _
      · rcases (o.pool.modify c' _).retire_cases c' with heq | heq
        · rw [heq, CourierPool.held?_letGo, Function.update_of_ne hc]
          exact hmodify _
        · rw [heq]
          exact hmodify _

end Office

end PeerCluster
