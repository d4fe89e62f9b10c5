import PeerCluster.Proofs.Rounds

/-!
# A mailing reaches everyone and blames exactly the failed

**The account** (`Account`). At any time of a round the notes are made up of what each delivery has
come to: nothing before its courier is called, then the call, and then also how it ended. If the
deliveries are made one after the other, the notes are in their order.

**Theorem (`mailing_reaches_everyone`).** A mailing takes only so many steps, is never stuck, and can
always be brought to its end. Then it has called a courier of every member once, those under suspicion
last, and it reports exactly the failed deliveries.
-/

namespace PeerCluster

namespace Mailing

variable {g : Mailing} {p : CourierPool} {d : Delivery} {phase : Phase}
  {payload : ByteArray} {wait : Bool} {b b' : HealthBoard} {m : Member} {es : List Event}

/-! ## What is noted -/

/-- What has been noted of a delivery fits how far it is. -/
inductive Noted (payload : ByteArray) (wait : Bool) (b : HealthBoard) (m : Member) :
    Phase → List Event → Prop
  | pending : Noted payload wait b m .pending []
  | assigned (c : CourierId) : Noted payload wait b m (.assigned c) []
  | queued (c : CourierId) : Noted payload wait b m (.queued c) []
  | served {courier : Courier} {c : CourierId}
    {rest : Exchange (Except DeliveryError Unit × Courier)} :
    courier.destination.id = m.id →
      (∀ a, rest.MayYield a → (courier.send payload wait).MayYield a) →
      Noted payload wait b m (.served c rest) [.called m courier]
  | over {courier courier' : Courier} {result : Except DeliveryError Unit} :
    courier.destination.id = m.id → (courier.send payload wait).MayYield (result, courier') →
      Noted payload wait b m (.over result)
        [.called m courier, .ended m result (b.healthOf m.id)]

/-- Only the health of a member to whom the delivery is over has been noted. -/
theorem Noted.keeps (h : Noted payload wait b m phase es)
    (hb : ∀ result, phase = .over result → b'.healthOf m.id = b.healthOf m.id) :
    Noted payload wait b' m phase es := by
  cases h with
  | pending => exact .pending
  | assigned c => exact .assigned c
  | queued c => exact .queued c
  | served hpeer hrest => exact .served hpeer hrest
  | «over» hpeer hyields => exact hb _ rfl ▸ .over hpeer hyields

theorem Noted.eq_nil (h : Noted payload wait b m .pending es) : es = [] := by
  cases h
  rfl

/-- The notes of one delivery and those of the deliveries before and behind it. -/
theorem exists_notes {notes : List (Delivery × List Event)} {front back : List Delivery}
    (h : notes.map Prod.fst = front ++ d :: back) :
    ∃ before es behind, notes = before ++ (d, es) :: behind ∧ before.map Prod.fst = front ∧
      behind.map Prod.fst = back := by
  obtain ⟨before, rest, hnotes, hbefore, hrest⟩ := List.map_eq_append_iff.1 h
  obtain ⟨⟨d', es⟩, behind, rfl, rfl, hbehind⟩ := List.map_eq_cons_iff.1 hrest
  exact ⟨before, es, behind, hnotes, hbefore, hbehind⟩

/-! ## What a delivery has come to -/

/-- What a delivery has come to. -/
structure Outcome where
  member : Member
  /-- Whether the member was under suspicion when the mailing began. -/
  wasSuspect : Bool
  /-- The courier as it was when it was called. -/
  courier : Courier
  result : Except DeliveryError Unit
  /-- The health of the member when the delivery was over. -/
  health : Health

namespace Outcome

/-- The call, and how it ended. -/
def events (x : Outcome) : List Event :=
  [.called x.member x.courier, .ended x.member x.result x.health]

/-- The health of the member after the report. -/
def healthAfter (x : Outcome) : Health :=
  match x.result with
  | .ok () => x.health
  | .error _ => if x.wasSuspect then .failing else x.health

/-- What is reported about a delivery. -/
def failure? (x : Outcome) : Option Failure :=
  match x.result with
  | .ok () => none
  | .error cause => some (.mk x.member cause x.healthAfter)

/-- The delivery when it is over. -/
def delivery (x : Outcome) : Delivery :=
  ⟨x.member, x.wasSuspect, .over x.result⟩

variable {x : Outcome}

theorem failure?_delivery (h : x.health = b.healthOf x.member.id) :
    x.delivery.failure? b = x.failure? := by
  obtain ⟨m, wasSuspect, courier, result, health⟩ := x
  obtain rfl : health = b.healthOf m.id := h
  cases result <;> rfl

theorem failure?_eq_none : x.failure? = none ↔ x.result = .ok () := by
  obtain ⟨m, wasSuspect, courier, result, health⟩ := x
  cases result <;> simp [failure?]

end Outcome

theorem exists_outcome (hnoted : Noted payload wait b d.member d.phase es)
    (hover : d.isOver = true) :
    ∃ x : Outcome, (x.delivery, x.events) = (d, es) ∧ x.health = b.healthOf x.member.id ∧
      x.courier.destination.id = x.member.id ∧
      ∃ courier', (x.courier.send payload wait).MayYield (x.result, courier') := by
  obtain ⟨m, wasSuspect, phase⟩ := d
  cases hnoted with
  | pending | assigned | queued | served => cases hover
  | @«over» courier courier' result hpeer hyields =>
    exact ⟨⟨m, wasSuspect, courier, result, b.healthOf m.id⟩, rfl, rfl, hpeer, courier', hyields⟩

/-- The notes of deliveries that are all over are those of outcomes. -/
theorem exists_outcomes {notes : List (Delivery × List Event)}
    (h : ∀ x ∈ notes, Noted payload wait b x.1.member x.1.phase x.2 ∧ x.1.isOver = true) :
    ∃ outcomes : List Outcome, notes = outcomes.map (fun x => (x.delivery, x.events)) ∧
      ∀ x ∈ outcomes, x.health = b.healthOf x.member.id ∧
        x.courier.destination.id = x.member.id ∧
        ∃ courier', (x.courier.send payload wait).MayYield (x.result, courier') := by
  induction notes with
  | nil => exact ⟨[], rfl, List.forall_mem_nil _⟩
  | cons note notes ih =>
    obtain ⟨outcomes, rfl, hrest⟩ := ih fun x hx => h x (List.mem_cons_of_mem _ hx)
    obtain ⟨hnoted, hover⟩ := h note (List.mem_cons_self ..)
    obtain ⟨x, hx, hfirst⟩ := exists_outcome hnoted hover
    refine ⟨x :: outcomes, ?_, List.forall_mem_cons.2 ⟨hfirst, hrest⟩⟩
    rw [List.map_cons, hx]

/-- A report blames exactly the failed deliveries. -/
structure Reported (p : CourierPool) (outcomes : List Outcome)
    (report : Except DeliveryError Unit × CourierPool) : Prop where
  success : report.1 = .ok () ↔ ∀ x ∈ outcomes, x.result = .ok ()
  failure : ¬(∀ x ∈ outcomes, x.result = .ok ()) →
    report.1 = .error (.faulty (outcomes.filterMap Outcome.failure?))
  health : ∀ x ∈ outcomes, report.2.board.healthOf x.member.id = x.healthAfter
  others : ∀ id, (∀ x ∈ outcomes, x.member.id ≠ id) →
    report.2.board.healthOf id = p.board.healthOf id

theorem reported {outcomes : List Outcome} (hp : p.Coherent)
    (hdeliveries : g.deliveries = outcomes.map Outcome.delivery)
    (hhealth : ∀ x ∈ outcomes, x.health = p.board.healthOf x.member.id)
    (hdistinct : (outcomes.map fun x => x.member.id).Nodup) :
    Reported p outcomes (g.report p) := by
  have hids : (g.deliveries.map fun d => d.member.id).Nodup := by
    rwa [hdeliveries, List.map_map]
  obtain ⟨hreport, hfailed, hothers⟩ := report_spec hp hids
  have hfailures : g.deliveries.filterMap (Delivery.failure? p.board) =
      outcomes.filterMap Outcome.failure? := by
    rw [hdeliveries, List.filterMap_map]
    exact List.filterMap_congr fun x hx => Outcome.failure?_delivery (hhealth x hx)
  have hnone : outcomes.filterMap Outcome.failure? = [] ↔ ∀ x ∈ outcomes, x.result = .ok () := by
    rw [List.filterMap_eq_nil_iff]
    exact forall₂_congr fun _ _ => Outcome.failure?_eq_none
  rw [hfailures] at hreport
  refine ⟨?_, fun hnot => ?_, fun x hx => ?_, fun id hid => hothers id fun d hd _ => ?_⟩
  · rw [hreport, ← hnone, ← List.isEmpty_iff]
    split <;> simp_all
  · rw [hreport, if_neg]
    rwa [List.isEmpty_iff, hnone]
  · have hmem : x.delivery ∈ g.deliveries := hdeliveries ▸ List.mem_map_of_mem hx
    cases hresult : x.result with
    | ok =>
      rw [Outcome.healthAfter, hresult, hhealth x hx]
      refine hothers _ fun d hd hcause heq => ?_
      rw [hdeliveries] at hd
      obtain ⟨y, hy, rfl⟩ := List.mem_map.1 hd
      obtain rfl := List.inj_on_of_nodup_map hdistinct hy hx heq
      rw [Delivery.cause?, Outcome.delivery, hresult] at hcause
      cases hcause
    | error cause =>
      rw [Outcome.healthAfter, hresult, hhealth x hx]
      refine hfailed x.delivery hmem ?_
      rw [Delivery.cause?, Outcome.delivery, hresult]
      rfl
  · rw [hdeliveries] at hd
    obtain ⟨x, hx, rfl⟩ := List.mem_map.1 hd
    exact hid x hx

end Mailing

namespace Office

open Mailing

variable {o o' : Office} {n : Nat} {g : Mailing} {place : Nat} {d : Delivery} {phase : Phase}
  {pool : CourierPool} {es log : List Event}

/-- A step of a delivery is noted as it should be. -/
theorem Sound.noted_goes (h : o.Sound) (hg : o.mailing? g.number = some g)
    (hd : g.deliveries[place]? = some d) (hgoes : g.Goes o.pool place phase pool)
    (hnoted : Noted g.payload g.wait o.pool.board d.member d.phase es) :
    Noted g.payload g.wait pool.board d.member phase
      (es ++ d.phase.events phase d.member o.pool pool) := by
  obtain ⟨-, hturns⟩ := hgoes.turns_at hd
  have hfits := h.fits _ d ((delivery?_eq hg place).trans hd)
  generalize d.phase = before at hturns hfits hnoted
  cases hturns with
  | assigns =>
    cases hnoted
    exact .assigned _
  | joins c =>
    cases hnoted
    exact .queued c
  | calls hdesk hhead =>
    cases hnoted
    obtain ⟨cell, hcell⟩ := hfits
    have hcontact := (CourierPool.contact?_of_desk hdesk).symm.trans hcell
    rw [List.nil_append, Phase.events, hdesk]
    exact .served (congrArg Contact.peer (Option.some.inj hcontact)) fun _ => id
  | asks answer =>
    cases hnoted with
    | served hpeer hrest => exact .served hpeer fun a ha => hrest a ha.ask
  | marks health hdesk =>
    cases hnoted with
    | served hpeer hrest => exact .served hpeer fun a ha => hrest a ha.ask
  | ends =>
    cases hnoted with
    | served hpeer hrest => exact .over hpeer (hrest _ (Exchange.mayYield_done _))

/-- If the deliveries are made one after the other, those after one that is not over have not
begun. -/
theorem Sound.pending_behind (h : o.Sound) (hg : o.mailing? n = some g)
    (hsequential : g.fanOut = .sequential) {front back : List Delivery}
    (hdeliveries : g.deliveries = front ++ d :: back) (hover : d.isOver = false) :
    ∀ d' ∈ back, d'.phase = .pending := by
  intro d' hd'
  by_contra hphase
  obtain ⟨i, hi⟩ := List.mem_iff_getElem?.1 hd'
  have hat : g.deliveries[front.length + (i + 1)]? = some d' := by
    rw [hdeliveries, List.getElem?_append_right (Nat.le_add_right ..), Nat.add_sub_cancel_left,
      List.getElem?_cons_succ, hi]
  have hmay := mayStep_iff.1 (h.inTurn n g hg _ d' hat hphase) hsequential front.length
    (by omega) d (by rw [hdeliveries]; simp)
  rw [hover] at hmay
  cases hmay

/-! ## The account -/

/-- The notes are made up of what the deliveries have come to. -/
structure Account (g₀ : Mailing) (log : List Event) (o : Office) (g : Mailing) : Prop where
  sound : o.Sound
  underWay : o.mailing? g.number = some g
  atStart : g.atStart = g₀
  noted : ∃ notes : List (Delivery × List Event),
    notes.map Prod.fst = g.deliveries ∧
    (∀ x ∈ notes, Noted g.payload g.wait o.pool.board x.1.member x.1.phase x.2) ∧
    log.Perm (notes.flatMap Prod.snd) ∧
    (g.fanOut = .sequential → log = notes.flatMap Prod.snd)

theorem Account.goes {g₀ : Mailing} (h : Account g₀ log o g)
    (hdistinct : (g.deliveries.map fun d => d.member.id).Nodup)
    (hd : g.deliveries[place]? = some d) (hgoes : g.Goes o.pool place phase pool) :
    Account g₀ (log ++ d.phase.events phase d.member o.pool pool)
      (o.withPhase g place phase pool) (g.withPhase place phase) := by
  obtain ⟨front, back, hdeliveries, hafter⟩ := deliveries_withPhase hd phase
  obtain ⟨notes, hnotes, hnoted, hperm, hinOrder⟩ := h.noted
  rw [hdeliveries] at hnotes hdistinct
  obtain ⟨before, es, behind, rfl, rfl, rfl⟩ := exists_notes hnotes
  -- The others notice nothing.
  have hothers : ∀ x ∈ before ++ behind, x.1.member.id ≠ d.member.id := by
    have hnotIn := (List.nodup_cons.1 ((List.perm_middle.map _).nodup_iff.1 hdistinct)).1
    rw [← List.map_append] at hnotIn
    exact fun x hx heq => hnotIn (List.mem_map.2 ⟨x.1, List.mem_map_of_mem hx, heq⟩)
  have hkeep : ∀ x ∈ before ++ behind,
      Noted g.payload g.wait pool.board x.1.member x.1.phase x.2 := by
    intro x hx
    refine (hnoted x ?_).keeps fun _ _ =>
      h.sound.healthOf_goes h.underWay hd hgoes (hothers x hx)
    rw [List.mem_append] at hx ⊢
    exact hx.imp_right (List.mem_cons_of_mem _)
  have hself := h.sound.noted_goes h.underWay hd hgoes
    (hnoted (d, es) (List.mem_append_right _ (List.mem_cons_self ..)))
  refine ⟨h.sound.goes h.underWay hgoes, mailing?_put_self .., (atStart_withPhase ..).trans h.atStart,
    before ++ ({ d with phase }, es ++ d.phase.events phase d.member o.pool pool) :: behind,
    ?_, fun x hx => ?_, ?_, fun hsequential => ?_⟩
  · rw [hafter, List.map_append, List.map_cons]
  · rcases List.mem_append.1 hx with hx | hx
    · exact hkeep x (List.mem_append_left _ hx)
    · rcases List.mem_cons.1 hx with rfl | hx
      · exact hself
      · exact hkeep x (List.mem_append_right _ hx)
  · simp only [List.flatMap_append, List.flatMap_cons, List.append_assoc] at hperm ⊢
    refine (hperm.append_right _).trans ?_
    simp only [List.append_assoc]
    exact .append_left _ (.append_left _ List.perm_append_comm)
  · -- Nothing has been noted yet of those behind.
    obtain ⟨-, hturns⟩ := hgoes.turns_at hd
    have hpending := h.sound.pending_behind h.underWay hsequential hdeliveries hturns.isOver
    have hnothing : behind.flatMap Prod.snd = [] := by
      refine List.flatMap_eq_nil_iff.2 fun x hx => ?_
      have hx' := hnoted x (List.mem_append_right _ (List.mem_cons_of_mem _ hx))
      rw [hpending x.1 (List.mem_map_of_mem hx)] at hx'
      exact hx'.eq_nil
    rw [hinOrder hsequential]
    simp only [List.flatMap_append, List.flatMap_cons, List.append_assoc, hnothing, List.append_nil]

theorem Account.others {g₀ : Mailing} (h : Account g₀ log o g) (hworks : Works o o')
    (hsame : o'.mailing? g.number = o.mailing? g.number)
    (hhealth : ∀ d ∈ g.deliveries, d.isOver = true →
      o'.pool.board.healthOf d.member.id = o.pool.board.healthOf d.member.id) :
    Account g₀ log o' g := by
  obtain ⟨notes, hnotes, hnoted, hlog⟩ := h.noted
  refine ⟨hworks.sound h.sound, hsame.trans h.underWay, h.atStart, notes, hnotes,
    fun x hx => ?_, hlog⟩
  have hd : x.1 ∈ g.deliveries := hnotes ▸ List.mem_map_of_mem hx
  refine (hnoted x hx).keeps fun result hphase => hhealth x.1 hd ?_
  rw [Delivery.isOver, hphase]

theorem Account.step {g₀ : Mailing} (h : Account g₀ log o g)
    (hdistinct : (g.deliveries.map fun d => d.member.id).Nodup) (hstep : Step g.number o es o') :
    ∃ g', Account g₀ (log ++ es) o' g' := by
  cases hstep with
  | goes hg hd hgoes =>
    obtain rfl := Option.some.inj (h.underWay.symm.trans hg)
    exact ⟨_, h.goes hdistinct hd hgoes⟩
  | others hworks hsame hhealth =>
    rw [List.append_nil]
    exact ⟨g, h.others hworks hsame (hhealth g h.underWay)⟩

theorem Account.number {g₀ : Mailing} (h : Account g₀ log o g) : g.number = g₀.number := by
  rw [← h.atStart]
  rfl

theorem Account.ids {g₀ : Mailing} (h : Account g₀ log o g) :
    (g.deliveries.map fun d => d.member.id) = g₀.deliveries.map fun d => d.member.id := by
  rw [← h.atStart, ids_atStart]

/-- The account of a whole round. -/
theorem Round.account {start : Office} (hround : Round n start log o) {g₀ : Mailing}
    (hnumber : g₀.number = n) (hdistinct : (g₀.deliveries.map fun d => d.member.id).Nodup)
    (hstart : Account g₀ [] start g₀) : ∃ g, Account g₀ log o g := by
  induction hround with
  | starts => exact ⟨g₀, hstart⟩
  | goesOn _ hstep ih =>
    obtain ⟨g, hg⟩ := ih
    exact hg.step (hg.ids ▸ hdistinct) ((hg.number.trans hnumber).symm ▸ hstep)

/-! ## How a round ends -/

/-- Everyone has been called once and has come to something. -/
structure Settled (o : Office) (members : List Member) (payload : ByteArray) (wait : Bool)
    (log : List Event) (outcomes : List Outcome) : Prop where
  everyone : outcomes.map Outcome.member = suspectsLast o.pool.board members
  suspects : ∀ x ∈ outcomes, x.wasSuspect = isSuspected o.pool.board x.member
  delivered : ∀ x ∈ outcomes, x.courier.destination.id = x.member.id ∧
    ∃ courier', (x.courier.send payload wait).MayYield (x.result, courier')
  once : log.Perm (outcomes.flatMap Outcome.events)
  inOrder : o.pool.fanOut = .sequential → log = outcomes.flatMap Outcome.events

/-- Once every delivery is over, the account is one of outcomes. -/
theorem Account.outcomes {g₀ : Mailing} (h : Account g₀ log o g) (hover : g.isOver = true) :
    ∃ outcomes : List Outcome, g.deliveries = outcomes.map Outcome.delivery ∧
      (∀ x ∈ outcomes, x.health = o.pool.board.healthOf x.member.id ∧
        x.courier.destination.id = x.member.id ∧
        ∃ courier', (x.courier.send g.payload g.wait).MayYield (x.result, courier')) ∧
      log.Perm (outcomes.flatMap Outcome.events) ∧
      (g.fanOut = .sequential → log = outcomes.flatMap Outcome.events) := by
  obtain ⟨notes, hnotes, hnoted, hlog⟩ := h.noted
  obtain ⟨outcomes, rfl, houtcomes⟩ := exists_outcomes fun x hx =>
    ⟨hnoted x hx, List.all_eq_true.1 hover x.1 (hnotes ▸ List.mem_map_of_mem hx)⟩
  rw [List.flatMap_map] at hlog
  rw [List.map_map] at hnotes
  exact ⟨outcomes, hnotes.symm, houtcomes, hlog⟩

/-- When a mailing is over, everyone has been called once and exactly the failed are blamed. -/
theorem Account.settles {members : List Member} {payload : ByteArray} {wait : Bool}
    (h : Account ⟨n, payload, wait, o.pool.fanOut,
      (suspectsLast o.pool.board members).map (Delivery.to o.pool.board)⟩ log o' g)
    (hdistinct : (g.deliveries.map fun d => d.member.id).Nodup) (hover : g.isOver = true) :
    ∃ outcomes, Settled o members payload wait log outcomes ∧
      Reported o'.pool outcomes (g.report o'.pool) := by
  obtain ⟨outcomes, hdeliveries, houtcomes, hperm, hinOrder⟩ := h.outcomes hover
  obtain ⟨-, hpayload, hwait, hfanOut, hmembers⟩ := Mailing.mk.inj h.atStart
  rw [hpayload, hwait] at houtcomes
  rw [hfanOut] at hinOrder
  rw [hdeliveries, List.map_map] at hmembers hdistinct
  have heveryone : outcomes.map Outcome.member = suspectsLast o.pool.board members := by
    have h := congrArg (List.map Delivery.member) hmembers
    rwa [List.map_map, List.map_map, show Delivery.member ∘ Delivery.to o.pool.board = id from rfl,
      List.map_id] at h
  refine ⟨outcomes, ⟨heveryone, fun x hx => ?_, fun x hx => (houtcomes x hx).2, hperm, hinOrder⟩,
    reported h.sound.coherent hdeliveries (fun x hx => (houtcomes x hx).1) hdistinct⟩
  obtain ⟨m, -, hm⟩ := List.mem_map.1 (hmembers ▸ List.mem_map_of_mem hx)
  obtain ⟨rfl, hsuspect, -⟩ := Delivery.mk.inj hm
  exact hsuspect.symm

theorem suspectsLast_perm (b : HealthBoard) (members : List Member) :
    (suspectsLast b members).Perm members := by
  refine List.perm_append_comm.trans ?_
  exact List.filter_append_perm (isSuspected b) members

theorem account_begins (h : o.Sound) (hnew : o.mailing? n = none) (members : List Member)
    (payload : ByteArray) (wait : Bool) :
    let g₀ := (Mailing.begin o.pool n members payload wait).1
    Account g₀ [] (o.begins n members payload wait) g₀ := by
  intro g₀
  obtain ⟨-, hbegin⟩ := begin_spec h.coherent n members payload wait
  have hpending : ∀ d ∈ g₀.deliveries, d.phase = .pending := by
    intro d hd
    rw [show g₀ = _ from hbegin] at hd
    obtain ⟨m, -, rfl⟩ := List.mem_map.1 hd
    rfl
  have hnothing : (g₀.deliveries.map fun d => (d, ([] : List Event))).flatMap Prod.snd = [] := by
    rw [List.flatMap_map]
    exact List.flatMap_eq_nil_iff.2 fun _ _ => rfl
  refine ⟨h.begins hnew members payload wait, mailing?_put_self .., ?_,
    g₀.deliveries.map fun d => (d, []), ?_, fun x hx => ?_, ?_, fun _ => ?_⟩
  · refine congrArg (Mailing.mk g₀.number g₀.payload g₀.wait g₀.fanOut) ?_
    refine (List.map_congr_left fun d hd => ?_).trans (List.map_id _)
    rw [← hpending d hd]
    rfl
  · rw [List.map_map]
    exact List.map_id _
  · obtain ⟨d, hd, rfl⟩ := List.mem_map.1 hx
    rw [hpending d hd]
    exact .pending
  · rw [hnothing]
  · rw [hnothing]

/-- A mailing takes only so many steps, and until it is over it is not stuck and can be brought to its
end. No delivery shows in the health of another member. Once the mailing is over it has called a courier
of every member once, those that were under suspicion last, and it blames exactly the failed
deliveries. -/
theorem mailing_reaches_everyone (h : o.Reached) (hnew : o.mailing? n = none)
    {members : List Member} (hdistinct : (members.map Member.id).Nodup) (payload : ByteArray)
    (wait : Bool) :
    (∀ f : Nat → Office, f 0 = o.begins n members payload wait →
      (∀ k, ∃ es, Step n (f k) es (f (k + 1))) →
      ∃ k, ∀ j ≥ k, (f j).mailing? n = (f k).mailing? n) ∧
    ∀ log o', Round n (o.begins n members payload wait) log o' →
      ∃ g, o'.mailing? n = some g ∧
        (g.isOver = false → o'.Proceeds g) ∧
        (∃ log' o'' g', Round n o' log' o'' ∧ o''.mailing? n = some g' ∧ g'.isOver = true) ∧
        (∀ (place : Nat) (d : Delivery) (phase : Phase) (pool : CourierPool),
          g.deliveries[place]? = some d → g.Goes o'.pool place phase pool →
          ∀ id ≠ d.member.id, pool.board.healthOf id = o'.pool.board.healthOf id) ∧
        (g.isOver = true → ∃ outcomes, Settled o members payload wait log outcomes ∧
          Reported o'.pool outcomes (g.report o'.pool)) := by
  have hsound := h.sound
  have hstart := account_begins hsound hnew members payload wait
  obtain ⟨-, hbegin⟩ := begin_spec hsound.coherent n members payload wait
  refine ⟨fun f hf hsteps => Sound.exists_still (hf ▸ hstart.sound) hsteps,
    fun log o' hround => ?_⟩
  rw [hbegin] at hstart
  have hids : (((suspectsLast o.pool.board members).map
      (Delivery.to o.pool.board)).map fun d => d.member.id).Nodup := by
    rw [List.map_map]
    exact ((suspectsLast_perm _ members).map _).nodup_iff.2 hdistinct
  obtain ⟨g, haccount⟩ := hround.account rfl hids hstart
  have hnumber : g.number = n := haccount.number
  have hg : o'.mailing? n = some g := hnumber ▸ haccount.underWay
  have hgids : (g.deliveries.map fun d => d.member.id).Nodup := haccount.ids ▸ hids
  exact ⟨g, hg, haccount.sound.proceeds hg, haccount.sound.exists_over hg hgids,
    fun place d phase pool hd hgoes id hid =>
      haccount.sound.healthOf_goes haccount.underWay hd hgoes hid, haccount.settles hgids⟩

/-- A mailing to two members, one of which is under suspicion. -/
theorem mailing_reaches_everyone_of_two_members :
    let suspect : Member := { id := ⟨1⟩, host := "first", port := 7000 }
    let other : Member := { id := ⟨2⟩, host := "second", port := 7000 }
    let o : Office := { pool := {
      settings := {}, self := .of ⟨3⟩ "third" 7000,
      board := (({} : HealthBoard).findOrPost suspect.id).2.mark ⟨0⟩ .suspect } }
    ∃ log o' g outcomes,
      Round 0 (o.begins 0 [suspect, other] "hello".toUTF8 false) log o' ∧
      o'.mailing? 0 = some g ∧ outcomes.map Outcome.member = [other, suspect] ∧
      Settled o [suspect, other] "hello".toUTF8 false log outcomes ∧
      Reported o'.pool outcomes (g.report o'.pool) := by
  intro suspect other o
  have hreached : o.Reached :=
    ⟨_, _, _, .tail (.tail .refl (.looksUp _ suspect.id)) (.marks _ ⟨0⟩ .suspect)⟩
  have hdistinct : ([suspect, other].map Member.id).Nodup := by decide
  obtain ⟨-, hrounds⟩ := mailing_reaches_everyone (n := 0) hreached rfl hdistinct "hello".toUTF8 false
  obtain ⟨-, -, -, ⟨log, o', g, hround, hg, hover⟩, -⟩ := hrounds [] _ .starts
  obtain ⟨g', hg', -, -, -, hends⟩ := hrounds log o' hround
  obtain rfl := Option.some.inj (hg.symm.trans hg')
  obtain ⟨outcomes, hsettled, hreported⟩ := hends hover
  exact ⟨log, o', g, outcomes, hround, hg, hsettled.everyone.trans (by decide +kernel), hsettled,
    hreported⟩

end Office

end PeerCluster
