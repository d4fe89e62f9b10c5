import PeerCluster.Proofs.DeliveryTranscripts
import PeerCluster.Proofs.FanOut
import PeerCluster.Proofs.PostedCells

/-!
# The minutes of a mailing

**Minutes** (`Minutes`). From the beginning of a mailing on it is recorded what its deliveries ask and
are answered, and every change of somebody's health that others bring about. Others may do as they like,
but nobody is forgotten.

**The account** (`Ledger`). The minutes hold the whole transcript of every delivery, and what they make
of a peer's health is its health.
-/

namespace PeerCluster

open Exchange

/-! ## What is recorded -/

/-- What is recorded while a mailing is under way. -/
inductive Happening where
  /-- The delivery at a place asks something on behalf of its member, and is answered. -/
  | asks (place : Nat) (peer : MemberId) (said : Said)
  /-- Somebody else has changed the health of a peer. -/
  | elsewhere (peer : MemberId) (health : Health)

namespace Happening

/-- The peer whom it is about. -/
def peer : Happening → MemberId
  | asks _ peer _ | elsewhere peer _ => peer

/-- What the health of an id becomes. -/
def effect (id : MemberId) (now : Health) : Happening → Health
  | asks _ peer ⟨.mark next, _⟩ => if peer = id then now.mark next else now
  | asks .. => now
  | elsewhere peer health => if peer = id then health else now

/-- What is said if it is the delivery at a place that asks. -/
def saidAt? (place : Nat) : Happening → Option Said
  | asks place' _ said => if place' = place then some said else none
  | elsewhere .. => none

variable {id : MemberId} {now : Health} {e : Happening}

theorem effect_of_ne (h : e.peer ≠ id) : e.effect id now = now := by
  cases e with
  | asks place peer said =>
    obtain ⟨q, answer⟩ := said
    cases q with
    | mark next => exact if_neg h
    | _ => rfl
  | elsewhere peer health => exact if_neg h

/-- A mark of suspicion never ends one. -/
theorem isSuspect_effect {place : Nat} {peer : MemberId} {said : Said}
    (hsaid : ∀ next, said = ⟨.mark next, ()⟩ → next = .suspect) (h : now.isSuspect = true) :
    ((asks place peer said).effect id now).isSuspect = true := by
  obtain ⟨q, answer⟩ := said
  cases q with
  | mark next =>
    obtain rfl := hsaid next rfl
    rw [effect]
    split
    · cases now <;> rfl
    · exact h
  | _ => exact h

theorem saidAt?_eq_some_iff {place : Nat} {said : Said} :
    e.saidAt? place = some said ↔ ∃ peer, e = .asks place peer said := by
  cases e with
  | asks place' peer said' => simp [saidAt?, eq_comm]
  | elsewhere => simp [saidAt?]

end Happening

/-- What the health of an id becomes by all that has been recorded. -/
def replay (id : MemberId) (log : List Happening) (start : Health) : Health :=
  log.foldl (Happening.effect id) start

/-- What the delivery at a place has said. -/
def saidAt (place : Nat) (log : List Happening) : Transcript :=
  log.filterMap (Happening.saidAt? place)

variable {id : MemberId} {log log' : List Happening} {start : Health}

theorem replay_append : replay id (log ++ log') start = replay id log' (replay id log start) :=
  List.foldl_append

theorem replay_of_ne (h : ∀ e ∈ log, e.peer ≠ id) : replay id log start = start := by
  induction log generalizing start with
  | nil => rfl
  | cons e rest ih =>
    obtain ⟨he, hrest⟩ := List.forall_mem_cons.1 h
    exact (ih hrest).trans (Happening.effect_of_ne he)

/-- A suspicion lasts as long as whatever is recorded about the peer is at most another one. -/
theorem isSuspect_replay
    (h : ∀ e ∈ log, e.peer = id → ∃ place peer said, e = .asks place peer said ∧
      ∀ next, said = ⟨.mark next, ()⟩ → next = .suspect)
    (hstart : start.isSuspect = true) : (replay id log start).isSuspect = true := by
  induction log generalizing start with
  | nil => exact hstart
  | cons e rest ih =>
    obtain ⟨he, hrest⟩ := List.forall_mem_cons.1 h
    refine ih hrest ?_
    by_cases hpeer : e.peer = id
    · obtain ⟨place, peer, said, rfl, hsaid⟩ := he hpeer
      exact Happening.isSuspect_effect hsaid hstart
    · rwa [Happening.effect_of_ne hpeer]

theorem saidAt_append (place : Nat) (log log' : List Happening) :
    saidAt place (log ++ log') = saidAt place log ++ saidAt place log' :=
  List.filterMap_append

theorem mem_saidAt {place : Nat} {said : Said} :
    said ∈ saidAt place log ↔ ∃ peer, .asks place peer said ∈ log := by
  rw [saidAt, List.mem_filterMap]
  simp only [Happening.saidAt?_eq_some_iff]
  constructor
  · intro hall
    rcases hall with ⟨_, hmem, peer, rfl⟩
    exact ⟨peer, hmem⟩
  · intro hall
    rcases hall with ⟨peer, hmem⟩
    exact ⟨_, hmem, peer, rfl⟩

theorem saidAt_asks (place : Nat) (peer : MemberId) (ts : Transcript) :
    saidAt place (ts.map (.asks place peer)) = ts := by
  induction ts with
  | nil => rfl
  | cons said rest ih =>
    rw [List.map_cons, saidAt, List.filterMap_cons, Happening.saidAt?, if_pos rfl]
    exact congrArg (said :: ·) ih

theorem saidAt_asks_of_ne {place place' : Nat} (h : place' ≠ place) (peer : MemberId)
    (ts : Transcript) : saidAt place (ts.map (.asks place' peer)) = [] := by
  rw [saidAt, List.filterMap_map, List.filterMap_eq_nil_iff]
  exact fun said _ => if_neg h

theorem saidAt_elsewhere (place : Nat) (changes : List (MemberId × Health)) :
    saidAt place (changes.map fun x => .elsewhere x.1 x.2) = [] := by
  rw [saidAt, List.filterMap_map, List.filterMap_eq_nil_iff]
  exact fun _ _ => rfl

/-! ## One delivery -/

namespace Mailing

/-- What is said when a delivery goes from one phase to another. -/
inductive Phase.Speaks : Phase → Transcript → Phase → Prop
  | asks {c : CourierId} {q : Ask}
    {next : q.Answer → Exchange (Except DeliveryError Unit × Courier)} (answer : q.Answer) :
    Speaks (.served c (.ask q next)) [⟨q, answer⟩] (.served c (next answer))
  | silent {before after : Phase} :
    (∀ c q next, before ≠ .served c (.ask q next)) → Speaks before [] after

/-- What a delivery has said fits how far it is. -/
inductive Phase.Told (payload : ByteArray) (wait : Bool) : Phase → Transcript → Prop
  | pending : Told payload wait .pending []
  | assigned (c : CourierId) : Told payload wait (.assigned c) []
  | queued (c : CourierId) : Told payload wait (.queued c) []
  | served {courier : Courier} {c : CourierId}
    {rest : Exchange (Except DeliveryError Unit × Courier)} {ts : Transcript} :
    (∀ a ts', rest.Runs Written ts a ts' → (courier.send payload wait).Runs Written [] a ts') →
    Told payload wait (.served c rest) ts
  | over {courier courier' : Courier} {result : Except DeliveryError Unit} {ts : Transcript} :
    (courier.send payload wait).Runs Written [] (result, courier') ts →
    Told payload wait (.over result) ts

variable {g : Mailing} {p pool : CourierPool} {place : Nat} {d : Delivery} {before after : Phase}
  {t : Ticket} {payload : ByteArray} {wait : Bool} {m : Member} {ts said : Transcript}

theorem Turns.exists_speaks (h : Turns p t payload wait m before after pool) :
    ∃ said, before.Speaks said after := by
  cases h with
  | assigns | joins | calls | ends =>
    refine ⟨[], .silent fun _ _ _ heq => ?_⟩
    cases heq
  | asks answer => exact ⟨_, .asks answer⟩
  | marks => exact ⟨_, .asks (q := .mark _) ()⟩

theorem Phase.Told.turns (h : before.Told payload wait ts)
    (hturns : Turns p t payload wait m before after pool) (hspeaks : before.Speaks said after) :
    after.Told payload wait (ts ++ said) := by
  cases hspeaks with
  | asks answer =>
    cases h with
    | served hrest => exact .served fun a ts' hrun => hrest a ts' (.ask rfl hrun)
  | silent hsilent =>
    rw [List.append_nil]
    cases hturns with
    | assigns =>
      cases h
      exact .assigned _
    | joins c =>
      cases h
      exact .queued c
    | calls =>
      cases h
      exact .served fun _ _ => id
    | asks | marks => exact absurd rfl (hsilent _ _ _)
    | ends =>
      cases h with
      | served hrest => exact .over (hrest _ _ (.done ..))

/-- A delivery never asks for another mark than suspect or ready. -/
theorem Phase.Told.mark {c : CourierId} {next : Health}
    {rest : Unit → Exchange (Except DeliveryError Unit × Courier)}
    (h : (Phase.served c (.ask (.mark next) rest)).Told payload wait ts) :
    next = .suspect ∨ next = .ready := by
  cases h with
  | served hrest =>
    obtain ⟨⟨result, courier'⟩, ts', hrun⟩ := exists_written (rest ()) (ts ++ [⟨.mark next, ()⟩])
    have hmem : (⟨.mark next, ()⟩ : Said) ∈ ts' := hrun.prefix.subset (by simp)
    rcases Courier.send_written (hrest _ _ (.ask rfl hrun)) with ⟨-, hproven⟩ | ⟨hdoubtful, -⟩
    · obtain ⟨before, rfl, hmarks, -⟩ := hproven
      rcases List.mem_append.1 hmem with hbefore | hlast
      · exact .inl (hmarks next hbefore)
      · have heq := congrArg Sigma.fst (List.mem_singleton.1 hlast)
        exact .inr (Ask.mark.inj heq)
    · exact .inl (hdoubtful.marks next hmem)

/-- Only marks show in the pool. -/
theorem Turns.pool_eq {c : CourierId} {q : Ask}
    {next : q.Answer → Exchange (Except DeliveryError Unit × Courier)}
    (h : Turns p t payload wait m (.served c (.ask q next)) after pool)
    (hq : ∀ health, q ≠ .mark health) : pool = p := by
  cases h with
  | asks => rfl
  | marks health => exact absurd rfl (hq health)

/-- A mark is made in the cell of the courier. -/
theorem Goes.mark {c : CourierId} {next : Health}
    {rest : Unit → Exchange (Except DeliveryError Unit × Courier)}
    (h : g.Goes p place after pool) (hd : g.deliveries[place]? = some d)
    (hphase : d.phase = .served c (.ask (.mark next) rest)) :
    ∃ desk, p.desk? c = some desk ∧
      pool = { p with board := p.board.mark desk.courier.cell next } := by
  have hmove : ∀ move, g.moveAt p place = move → move ≠ .waits →
      ∃ desk, p.desk? c = some desk ∧ move = .steps (.served c (rest ()))
        { p with board := p.board.mark desk.courier.cell next } := by
    intro move hmove hwaits
    rw [moveAt, hd] at hmove
    dsimp only at hmove
    split at hmove
    · rw [Delivery.move, hphase] at hmove
      dsimp only at hmove
      split at hmove
      · exact ⟨_, ‹_›, hmove.symm⟩
      · exact absurd hmove.symm hwaits
    · exact absurd hmove.symm hwaits
  cases h with
  | steps hsteps =>
    obtain ⟨desk, hdesk, heq⟩ := hmove _ hsteps (by simp)
    exact ⟨desk, hdesk, (Move.steps.inj heq).2⟩
  | asks answer hasks =>
    obtain ⟨desk, -, heq⟩ := hmove _ hasks (by simp)
    cases heq

theorem getElem?_withPhase_self (hd : g.deliveries[place]? = some d) :
    (g.withPhase place after).deliveries[place]? = some { d with phase := after } := by
  rw [getElem?_withPhase, if_pos rfl, hd]
  rfl

/-- Whatever a courier at work asks is answered in some step. -/
theorem exists_goes_of_ask {c : CourierId} {desk : CourierPool.Desk} {q : Ask}
    {next : q.Answer → Exchange (Except DeliveryError Unit × Courier)}
    (hd : g.deliveries[place]? = some d) (hmay : g.mayStep place = true)
    (hphase : d.phase = .served c (.ask q next)) (hdesk : p.desk? c = some desk)
    (answer : q.Answer) : ∃ board, g.Goes p place (.served c (next answer)) { p with board } := by
  have hmove : g.moveAt p place = d.move p ⟨g.number, place⟩ g.payload g.wait := by
    simp only [moveAt, hd, hmay, if_true]
  rw [Delivery.move, hphase] at hmove
  cases q with
  | mark health =>
    simp only [hdesk] at hmove
    exact ⟨_, .steps hmove⟩
  | dial | write | read | close | clock => exact ⟨p.board, .asks answer hmove⟩

end Mailing

/-! ## A mailing among others -/

namespace Office

open Mailing

variable {n : Nat} {o o' begun : Office} {g g₀ : Mailing} {place : Nat} {d : Delivery} {phase : Phase}
  {pool : CourierPool} {said : Transcript}

/-- One step from which on a mailing is under way, with what is recorded. Whoever else is at work leaves
the mailing alone and forgets nobody, and it is recorded what they make of somebody's health. -/
inductive Records (n : Nat) : Office → List Happening → Office → Prop
  | goes {o : Office} {g : Mailing} {place : Nat} {d : Delivery} {phase : Phase}
    {pool : CourierPool} {said : Transcript} :
    o.mailing? n = some g → g.deliveries[place]? = some d → g.Goes o.pool place phase pool →
      d.phase.Speaks said phase →
      Records n o (said.map (.asks place d.member.id)) (o.withPhase g place phase pool)
  | others {o o' : Office} (changes : List (MemberId × Health)) :
    Works o o' → o'.mailing? n = o.mailing? n → o.pool.board.Remembers o'.pool.board →
      (∀ id, o'.pool.board.healthOf id =
        replay id (changes.map fun x => .elsewhere x.1 x.2) (o.pool.board.healthOf id)) →
      Records n o (changes.map fun x => .elsewhere x.1 x.2) o'

/-- All that has been recorded of a mailing since it began, and the office as it is now. -/
inductive Minutes (n : Nat) (begun : Office) : List Happening → Office → Prop
  | starts : Minutes n begun [] begun
  | goesOn {log es : List Happening} {o o' : Office} :
    Minutes n begun log o → Records n o es o' → Minutes n begun (log ++ es) o'

/-- What holds at any time of a mailing that is under way. -/
structure Ledger (begun : Office) (g₀ : Mailing) (log : List Happening) (o : Office) (g : Mailing) :
    Prop where
  sound : o.Sound
  complete : o.pool.board.IsComplete
  underWay : o.mailing? g.number = some g
  atStart : g.atStart = g₀
  told : ∀ (i : Nat) (d : Mailing.Delivery), g.deliveries[i]? = some d →
    d.phase.Told g.payload g.wait (saidAt i log)
  /-- A delivery only asks on behalf of its own member. -/
  named : ∀ i peer x, .asks i peer x ∈ log →
    ∃ d : Mailing.Delivery, g.deliveries[i]? = some d ∧ d.member.id = peer
  health : ∀ id, o.pool.board.healthOf id = replay id log (begun.pool.board.healthOf id)

/-- A step of a delivery shows in its member's health as recorded. -/
theorem Sound.healthOf_speaks (h : o.Sound) (hcomplete : o.pool.board.IsComplete)
    (hg : o.mailing? g.number = some g) (hd : g.deliveries[place]? = some d)
    (hgoes : g.Goes o.pool place phase pool) (hspeaks : d.phase.Speaks said phase) (id : MemberId) :
    pool.board.healthOf id =
      replay id (said.map (.asks place d.member.id)) (o.pool.board.healthOf id) := by
  by_cases hid : d.member.id = id
  · subst hid
    have hfits := h.fits _ d ((delivery?_eq hg place).trans hd)
    obtain ⟨-, hturns⟩ := hgoes.turns_at hd
    generalize hphase : d.phase = before at hspeaks hturns hfits
    cases hspeaks with
    | @asks c q next answer =>
      cases q with
      | mark health =>
        obtain ⟨desk, hdesk, rfl⟩ := hgoes.mark hd hphase
        obtain ⟨cell, hcell, -⟩ := hfits
        have hcontact := (CourierPool.contact?_of_desk hdesk).symm.trans hcell
        have hfind := CourierPool.find?_of_contact h.coherent hcomplete
          (CourierPool.contact?_of_desk hdesk)
        rw [Option.some.inj hcontact] at hfind
        obtain ⟨owner, hkept⟩ := h.coherent
        have hcell' : desk.courier.cell = cell := congrArg Contact.cell (Option.some.inj hcontact)
        rw [hcell', hkept.board.healthOf_mark_self hfind]
        exact (if_pos rfl).symm
      | dial | write | read | close | clock => rw [hturns.pool_eq nofun]; rfl
    | silent hsilent =>
      cases hturns with
      | assigns => exact (CourierPool.assign_spec h.coherent d.member).1.health _
      | joins | calls => rfl
      | asks | marks => exact absurd rfl (hsilent _ _ _)
      | ends => rw [CourierPool.board_leave]; rfl
  · rw [replay_of_ne fun e he => ?_, h.healthOf_goes hg hd hgoes (Ne.symm hid)]
    obtain ⟨x, -, rfl⟩ := List.mem_map.1 he
    exact hid

theorem Ledger.goes {log : List Happening} (h : Ledger begun g₀ log o g)
    (hd : g.deliveries[place]? = some d) (hgoes : g.Goes o.pool place phase pool)
    (hspeaks : d.phase.Speaks said phase) :
    Ledger begun g₀ (log ++ said.map (.asks place d.member.id)) (o.withPhase g place phase pool)
      (g.withPhase place phase) where
  sound := h.sound.goes h.underWay hgoes
  complete := HealthBoard.complete_of_uses hgoes.uses h.complete
  underWay := mailing?_put_self ..
  atStart := (atStart_withPhase ..).trans h.atStart
  told i d' hd' := by
    rw [getElem?_withPhase] at hd'
    rw [saidAt_append]
    split at hd'
    · rename_i heq
      subst heq
      rw [hd] at hd'
      obtain rfl := Option.some.inj hd'
      rw [saidAt_asks]
      exact (h.told place d hd).turns (hgoes.turns_at hd).2 hspeaks
    · rename_i hne
      rw [saidAt_asks_of_ne hne, List.append_nil]
      exact h.told i d' hd'
  named i peer x hx := by
    have hstays : ∀ (i : Nat) (d' : Mailing.Delivery), g.deliveries[i]? = some d' →
        ∃ d₁ : Mailing.Delivery, (g.withPhase place phase).deliveries[i]? = some d₁ ∧
          d₁.member.id = d'.member.id := by
      intro i d' hd'
      rw [getElem?_withPhase, hd']
      split <;> exact ⟨_, rfl, rfl⟩
    rcases List.mem_append.1 hx with hx | hx
    · obtain ⟨d', hd', rfl⟩ := h.named i peer x hx
      exact hstays i d' hd'
    · obtain ⟨y, -, heq⟩ := List.mem_map.1 hx
      cases heq
      exact hstays place d hd
  health id := by
    rw [replay_append, ← h.health]
    exact h.sound.healthOf_speaks h.complete h.underWay hd hgoes hspeaks id

theorem Ledger.others {log : List Happening} (h : Ledger begun g₀ log o g)
    (changes : List (MemberId × Health)) (hworks : Works o o')
    (hsame : o'.mailing? g.number = o.mailing? g.number)
    (hremembers : o.pool.board.Remembers o'.pool.board)
    (hhealth : ∀ id, o'.pool.board.healthOf id =
      replay id (changes.map fun x => .elsewhere x.1 x.2) (o.pool.board.healthOf id)) :
    Ledger begun g₀ (log ++ changes.map fun x => .elsewhere x.1 x.2) o' g where
  sound := hworks.sound h.sound
  complete := hworks.complete hremembers h.complete
  underWay := hsame.trans h.underWay
  atStart := h.atStart
  told i d hd := by
    rw [saidAt_append, saidAt_elsewhere, List.append_nil]
    exact h.told i d hd
  named i peer x hx := by
    rcases List.mem_append.1 hx with hx | hx
    · exact h.named i peer x hx
    · obtain ⟨y, -, heq⟩ := List.mem_map.1 hx
      cases heq
  health id := by
    rw [replay_append, ← h.health]
    exact hhealth id

theorem Ledger.records {log es : List Happening} (h : Ledger begun g₀ log o g)
    (hrecords : Records g.number o es o') : ∃ g', Ledger begun g₀ (log ++ es) o' g' := by
  cases hrecords with
  | goes hg hd hgoes hspeaks =>
    obtain rfl := Option.some.inj (h.underWay.symm.trans hg)
    exact ⟨_, h.goes hd hgoes hspeaks⟩
  | others changes hworks hsame hremembers hhealth =>
    exact ⟨g, h.others changes hworks hsame hremembers hhealth⟩

theorem Ledger.number {log : List Happening} (h : Ledger begun g₀ log o g) :
    g.number = g₀.number := by
  rw [← h.atStart]
  rfl

theorem Minutes.ledger {log : List Happening} (h : Minutes n begun log o) (hnumber : g₀.number = n)
    (hbegun : Ledger begun g₀ [] begun g₀) : ∃ g, Ledger begun g₀ log o g := by
  induction h with
  | starts => exact ⟨g₀, hbegun⟩
  | goesOn _ hrecords ih =>
    obtain ⟨g, hg⟩ := ih
    exact hg.records ((hg.number.trans hnumber).symm ▸ hrecords)

/-- A mailing that begins has said nothing yet. -/
theorem ledger_begins (h : o.Sound) (hcomplete : o.pool.board.IsComplete)
    (hnew : o.mailing? n = none) (members : List Member) (payload : ByteArray) (wait : Bool) :
    let g₀ : Mailing := ⟨n, payload, wait, o.pool.fanOut,
      (suspectsLast o.pool.board members).map (Delivery.to o.pool.board)⟩
    Ledger (o.begins n members payload wait) g₀ [] (o.begins n members payload wait) g₀ := by
  intro g₀
  have haccount := account_begins h hnew members payload wait
  rw [(begin_spec h.coherent n members payload wait).2] at haccount
  have hboard : (o.begins n members payload wait).pool.board =
      (snapshot o.pool.board members).2 := rfl
  refine ⟨haccount.sound, ?_, haccount.underWay, haccount.atStart, fun i d hd => ?_,
    fun _ _ _ hx => absurd hx List.not_mem_nil, fun _ => rfl⟩
  · rw [hboard]
    exact HealthBoard.complete_of_uses (uses_snapshot _ members) hcomplete
  · obtain ⟨m, -, rfl⟩ := List.mem_map.1 (List.mem_of_getElem? hd)
    exact .pending

/-! ## What can happen -/

/-- Every step of a delivery can be recorded. -/
theorem Minutes.goes {log : List Happening} (h : Minutes n begun log o)
    (hg : o.mailing? n = some g) (hgoes : g.Goes o.pool place phase pool) :
    ∃ log', Minutes n begun log' (o.withPhase g place phase pool) := by
  obtain ⟨d, hd, -, hturns⟩ := hgoes.turns
  obtain ⟨said, hspeaks⟩ := hturns.exists_speaks
  exact ⟨_, h.goesOn (.goes hg hd hgoes hspeaks)⟩

theorem mailing?_withPhase (hnumber : g.number = n) :
    (o.withPhase g place phase pool).mailing? n = some (g.withPhase place phase) := by
  rw [← hnumber]
  exact mailing?_put_self ..

/-- Whatever the plan of a courier at work may come to can happen. -/
theorem Minutes.serves {log : List Happening} {c : CourierId} {desk : CourierPool.Desk}
    {x : Exchange (Except DeliveryError Unit × Courier)} {result : Except DeliveryError Unit}
    {courier : Courier} {ts ts' : Transcript} (h : Minutes n begun log o)
    (hg : o.mailing? n = some g) (hnumber : g.number = n) (hd : g.deliveries[place]? = some d)
    (hmay : g.mayStep place = true) (hphase : d.phase = .served c x)
    (hdesk : o.pool.desk? c = some desk) (hrun : x.Runs Written ts (result, courier) ts') :
    ∃ o' g' said, ts' = ts ++ said ∧
      Minutes n begun (log ++ said.map (.asks place d.member.id)) o' ∧
      o'.mailing? n = some g' ∧ ∀ i, g'.deliveries[i]? =
        if place = i then some { d with phase := .over result } else g.deliveries[i]? := by
  generalize ha : (result, courier) = a at hrun
  induction hrun generalizing o g d log with
  | done ts a =>
    subst ha
    have hmove : g.moveAt o.pool place = .steps (.over result) (o.pool.leave c courier) := by
      simp only [moveAt, hd, hmay, if_true, Delivery.move, hphase]
    have hspeaks : d.phase.Speaks [] (.over result) := by
      rw [hphase]
      exact .silent fun _ _ _ heq => by cases heq
    refine ⟨_, _, [], (List.append_nil ts).symm, h.goesOn (.goes hg hd (.steps hmove) hspeaks),
      mailing?_withPhase hnumber, fun i => ?_⟩
    split
    · rename_i heq
      rw [← heq, getElem?_withPhase_self hd]
    · rename_i hne
      rw [getElem?_withPhase, if_neg hne]
  | @ask ts _ ts' q answer next a hanswer _ ih =>
    obtain rfl := hanswer
    obtain ⟨board, hgoes⟩ := exists_goes_of_ask hd hmay hphase hdesk answer
    have hnot : d.isOver = false := by
      rw [Delivery.isOver, hphase]
    have hspeaks : d.phase.Speaks [⟨q, answer⟩] (.served c (next answer)) := hphase ▸ .asks answer
    obtain ⟨o', g', said, rfl, hminutes, hg', hdeliveries⟩ :=
      ih (h.goesOn (.goes hg hd hgoes hspeaks)) (mailing?_withPhase hnumber) hnumber
        (getElem?_withPhase_self hd) (mayStep_withPhase hmay hd hnot) rfl hdesk ha
    refine ⟨o', g', ⟨q, answer⟩ :: said, List.append_assoc .., ?_, hg', fun i => ?_⟩
    · rw [List.append_assoc] at hminutes
      exact hminutes
    · rw [hdeliveries, getElem?_withPhase]
      split <;> rfl

end Office

end PeerCluster
