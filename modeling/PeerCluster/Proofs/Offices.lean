import PeerCluster.Proofs.CourierLines
import PeerCluster.Proofs.DeliverySteps
import PeerCluster.Proofs.MailingReports
import PeerCluster.Proofs.Services

/-!
# A pool of couriers at work

**The state** (`Office`). A pool and all mailings that are under way.

**What happens** (`Works`). A delivery of some mailing takes a step, and what it asks of the world is
answered in some way (`Mailing.Goes`). A mailing begins, or it is over and reports. At any time peers
are added and removed, connections are swept, and the board of healths is used by others.

**The invariant** (`Sound`). A delivery only ever goes to a courier of its own peer, and the lines are
made up of exactly the deliveries that stand in them (`Works.sound`). So a mailing that is not over is
never stuck: one of its deliveries can go on, or stands in line behind one that can
(`Sound.proceeds`).
-/

namespace PeerCluster

theorem Courier.Alike.contact {c c' : Courier} (h : c.Alike c') : c'.contact = c.contact := by
  rw [Courier.contact, Courier.contact, h.destination, h.cell]

/-- A delivery only goes to a courier of its own peer, and the service leaves it one. -/
def Mailing.Phase.FitsIn (p : CourierPool) (m : Member) : Mailing.Phase → Prop
  | .pending | .over _ => True
  | .assigned c | .queued c => ∃ cell, p.contact? c = some ⟨m.id, cell⟩
  | .served c rest => ∃ cell, p.contact? c = some ⟨m.id, cell⟩ ∧
    ∀ result courier, rest.MayYield (result, courier) → courier.contact = ⟨m.id, cell⟩

theorem Mailing.Phase.FitsIn.keeps {p p' : CourierPool} {m : Member} {phase : Mailing.Phase}
    (h : phase.FitsIn p m)
    (hcontacts : ∀ c x, p.contact? c = some x → p'.contact? c = some x) :
    phase.FitsIn p' m := by
  cases phase with
  | pending | «over» => trivial
  | assigned c | queued c =>
    obtain ⟨cell, hcell⟩ := h
    exact ⟨cell, hcontacts _ _ hcell⟩
  | served c rest =>
    obtain ⟨cell, hcell, hrest⟩ := h
    exact ⟨cell, hcontacts _ _ hcell, hrest⟩

theorem Mailing.Phase.FitsIn.contact {p : CourierPool} {m : Member} {phase : Mailing.Phase}
    (h : phase.FitsIn p m) {c : CourierId} (hstands : phase.StandsAt c) :
    ∃ cell, p.contact? c = some ⟨m.id, cell⟩ := by
  cases phase with
  | pending | assigned | «over» => exact hstands.elim
  | queued => exact hstands ▸ h
  | served =>
    obtain ⟨cell, hcell, -⟩ := h
    exact ⟨cell, hstands ▸ hcell⟩

/-! ## The office -/

/-- A pool of couriers and the mailings that are under way. -/
structure Office where
  pool : CourierPool
  mailing? : Nat → Option Mailing := fun _ => none

namespace Office

open Mailing

/-- The delivery that a ticket belongs to. -/
def delivery? (o : Office) (t : Ticket) : Option Delivery :=
  (o.mailing? t.mailing).bind fun g => g.deliveries[t.delivery]?

/-- The office with another pool, and with another mailing of a number or none. -/
def put (o : Office) (n : Nat) (g : Option Mailing) (pool : CourierPool) : Office :=
  ⟨pool, Function.update o.mailing? n g⟩

/-- The office when a mailing begins. -/
def begins (o : Office) (n : Nat) (members : List Member) (payload : ByteArray) (wait : Bool) :
    Office :=
  let (g, pool) := Mailing.begin o.pool n members payload wait
  o.put n (some g) pool

/-- The office after a delivery of a mailing has gone on. -/
def withPhase (o : Office) (g : Mailing) (place : Nat) (phase : Phase) (pool : CourierPool) :
    Office :=
  o.put g.number (some (g.withPhase place phase)) pool

/-- One thing after the other that may happen in an office. -/
inductive Works : Office → Office → Prop
  | adds (o : Office) (m : Member) : Works o { o with pool := o.pool.add m }
  | removes (o : Office) (id : MemberId) : Works o { o with pool := (o.pool.remove id).2 }
  | sweeps (o : Office) (now : Nat) : Works o { o with pool := (o.pool.sweep now).2 }
  | closes (o : Office) (released : List Link) :
    Works o { o with pool := { o.pool with released } }
  | looksUp (o : Office) (id : MemberId) :
    Works o { o with pool := { o.pool with board := (o.pool.board.findOrPost id).2 } }
  | forgets (o : Office) (id : MemberId) :
    Works o { o with pool := { o.pool with board := (o.pool.board.take id).2 } }
  | marks (o : Office) (cell : HealthCell) (next : Health) :
    Works o { o with pool := { o.pool with board := o.pool.board.mark cell next } }
  | begins (o : Office) (n : Nat) (members : List Member) (payload : ByteArray) (wait : Bool) :
    o.mailing? n = none → Works o (o.begins n members payload wait)
  | goes {o : Office} {n : Nat} {g : Mailing} {place : Nat} {phase : Phase} {pool : CourierPool} :
    o.mailing? n = some g → g.Goes o.pool place phase pool →
      Works o (o.withPhase g place phase pool)
  | reports {o : Office} {n : Nat} {g : Mailing} :
    o.mailing? n = some g → g.isOver = true →
      Works o (o.put n none (g.report o.pool).2)

/-- The states that an office gets into whose pool begins without couriers. -/
def Reached (o : Office) : Prop :=
  ∃ settings fanOut self,
    Relation.ReflTransGen Works ⟨{ settings, fanOut, self }, fun _ => none⟩ o

/-! ## The invariant -/

/-- What holds of an office at any time. -/
structure Sound (o : Office) : Prop where
  coherent : o.pool.Coherent
  numbers : ∀ n g, o.mailing? n = some g → g.number = n
  /-- A delivery that has begun did so when it was its turn. -/
  inTurn : ∀ n g, o.mailing? n = some g → ∀ i d, g.deliveries[i]? = some d →
    d.phase ≠ .pending → g.mayStep i = true
  fits : ∀ t d, o.delivery? t = some d → d.phase.FitsIn o.pool d.member
  lines : InLine o.delivery? o.pool.line

variable {o o' : Office} {n : Nat} {g : Mailing} {place : Nat} {d : Delivery} {phase : Phase}
  {pool : CourierPool}

theorem sound_initial (settings : Settings.Delivery) (fanOut : Settings.FanOut)
    (self : Handshake) : Sound ⟨{ settings, fanOut, self }, fun _ => none⟩ where
  coherent := CourierPool.coherent_initial settings fanOut self
  numbers := nofun
  inTurn := nofun
  fits := nofun
  lines := by
    have hempty : ∀ c, ({ settings, fanOut, self } : CourierPool).line c = [] := fun _ => rfl
    refine ⟨fun c => hempty c ▸ .nil, fun c t ht => ?_, nofun, nofun⟩
    rw [hempty] at ht
    cases ht

theorem Sound.keeps (h : o.Sound) (hkeeps : o.pool.Keeps pool) : Sound { o with pool } where
  coherent := hkeeps.coherent
  numbers := h.numbers
  inTurn := h.inTurn
  fits t d hd := (h.fits t d hd).keeps hkeeps.contacts
  lines := by
    rw [show pool.line = o.pool.line from funext hkeeps.lines]
    exact h.lines

theorem delivery?_eq (h : o.mailing? n = some g) (place : Nat) :
    o.delivery? ⟨n, place⟩ = g.deliveries[place]? := by
  rw [delivery?, h]
  rfl

theorem mailing?_put_self (o : Office) (n : Nat) (g : Option Mailing) (pool : CourierPool) :
    (o.put n g pool).mailing? n = g :=
  Function.update_self ..

theorem mailing?_put_of_ne (o : Office) {n n' : Nat} (g : Option Mailing) (pool : CourierPool)
    (h : n' ≠ n) : (o.put n g pool).mailing? n' = o.mailing? n' :=
  Function.update_of_ne h ..

theorem delivery?_withPhase (hg : o.mailing? g.number = some g)
    (hd : g.deliveries[place]? = some d) :
    (o.withPhase g place phase pool).delivery? =
      Function.update o.delivery? ⟨g.number, place⟩ (some { d with phase }) := by
  funext t
  obtain ⟨n, i⟩ := t
  by_cases hn : n = g.number
  · subst hn
    rw [withPhase, delivery?_eq (mailing?_put_self ..), getElem?_withPhase]
    by_cases hi : place = i
    · subst hi
      rw [if_pos rfl, hd, Function.update_self]
      rfl
    · have hne : (⟨g.number, i⟩ : Ticket) ≠ ⟨g.number, place⟩ := by simpa using Ne.symm hi
      rw [if_neg hi, Function.update_of_ne hne, delivery?_eq hg]
  · have hne : (⟨n, i⟩ : Ticket) ≠ ⟨g.number, place⟩ := by simp [hn]
    rw [Function.update_of_ne hne, delivery?, withPhase, mailing?_put_of_ne _ _ _ hn]
    rfl

/-- A step of a delivery keeps the invariant if it keeps what it is about. -/
theorem Sound.withPhase (h : o.Sound) (hg : o.mailing? g.number = some g)
    (hd : g.deliveries[place]? = some d) (hmay : g.mayStep place = true) (hnot : d.isOver = false)
    (hcoherent : pool.Coherent)
    (hcontacts : ∀ c x, o.pool.contact? c = some x → pool.contact? c = some x)
    (hfits : phase.FitsIn pool d.member)
    (hlines : InLine (Function.update o.delivery? ⟨g.number, place⟩ (some { d with phase }))
      pool.line) :
    Sound (o.withPhase g place phase pool) where
  coherent := hcoherent
  numbers n g' hg' := by
    by_cases hn : n = g.number
    · subst hn
      rw [Office.withPhase, mailing?_put_self] at hg'
      rw [← Option.some.inj hg']
      rfl
    · rw [Office.withPhase, mailing?_put_of_ne _ _ _ hn] at hg'
      exact h.numbers n g' hg'
  inTurn n g' hg' i d' hd' hphase := by
    by_cases hn : n = g.number
    · subst hn
      rw [Office.withPhase, mailing?_put_self] at hg'
      obtain rfl := Option.some.inj hg'
      refine mayStep_withPhase ?_ hd hnot
      rw [getElem?_withPhase] at hd'
      split at hd'
      · rename_i heq
        exact heq ▸ hmay
      · exact h.inTurn _ g hg i d' hd' hphase
    · rw [Office.withPhase, mailing?_put_of_ne _ _ _ hn] at hg'
      exact h.inTurn n g' hg' i d' hd' hphase
  fits t d' hd' := by
    rw [delivery?_withPhase hg hd] at hd'
    by_cases ht : t = ⟨g.number, place⟩
    · subst ht
      rw [Function.update_self] at hd'
      rw [← Option.some.inj hd']
      exact hfits
    · rw [Function.update_of_ne ht] at hd'
      exact (h.fits t d' hd').keeps hcontacts
  lines := by
    rw [delivery?_withPhase hg hd]
    exact hlines

/-- Every step of a delivery keeps the invariant. -/
theorem Sound.goes (h : o.Sound) (hg : o.mailing? g.number = some g)
    (hgoes : g.Goes o.pool place phase pool) : Sound (o.withPhase g place phase pool) := by
  obtain ⟨d, hd, hmay, hturns⟩ := hgoes.turns
  have hdelivery : o.delivery? ⟨g.number, place⟩ = some d := (delivery?_eq hg place).trans hd
  have hfits := h.fits _ d hdelivery
  have hnot := hturns.isOver
  generalize hphase : d.phase = before at hturns hfits
  have hstands : ∀ c, d.phase.StandsAt c ↔ before.StandsAt c := fun c => by rw [hphase]
  cases hturns with
  | assigns =>
    obtain ⟨hassign, hcell⟩ := CourierPool.assign_spec h.coherent d.member
    refine h.withPhase hg hd hmay hnot hassign.coherent hassign.contacts hcell ?_
    rw [show (o.pool.assign d.member).2.line = o.pool.line from funext hassign.lines]
    exact h.lines.stays hdelivery (fun c => (hstands c).symm) nofun
  | joins c =>
    obtain ⟨cell, hcell⟩ := hfits
    have hcontacts := CourierPool.contact?_join o.pool c (t := ⟨g.number, place⟩)
    refine h.withPhase hg hd hmay hnot (h.coherent.join c _)
      (fun c' x hx => (hcontacts c').trans hx) ⟨cell, (hcontacts c).trans hcell⟩ ?_
    have hline : (o.pool.join c ⟨g.number, place⟩).line =
        Function.update o.pool.line c (o.pool.line c ++ [⟨g.number, place⟩]) := by
      funext c'
      by_cases hc : c' = c
      · subst hc
        rw [Function.update_self, CourierPool.line_join_self hcell]
      · rw [Function.update_of_ne hc, CourierPool.line_join_of_ne _ hc]
    rw [hline]
    exact h.lines.joins hdelivery (fun c => (hstands c).1) rfl
  | calls hdesk hhead =>
    rename_i c desk
    obtain ⟨cell, hcell⟩ := hfits
    have hcontact := (CourierPool.contact?_of_desk hdesk).symm.trans hcell
    refine h.withPhase hg hd hmay hnot h.coherent (fun _ _ hx => hx) ⟨cell, hcell, ?_⟩ ?_
    · intro result courier hyields
      rw [(Courier.alike_send hyields).contact]
      exact Option.some.inj hcontact
    · refine h.lines.stays hdelivery (fun c' => (hstands c').symm) fun c' rest hserved => ?_
      obtain ⟨rfl, -⟩ := Phase.served.inj hserved
      rw [CourierPool.line_of_desk hdesk]
      exact hhead
  | asks answer =>
    rename_i c q next
    obtain ⟨cell, hcell, hrest⟩ := hfits
    refine h.withPhase hg hd hmay hnot h.coherent (fun _ _ hx => hx)
      ⟨cell, hcell, fun result courier hyields => hrest result courier hyields.ask⟩ ?_
    refine h.lines.stays hdelivery (fun c' => (hstands c').symm) fun c' rest hserved => ?_
    obtain ⟨rfl, -⟩ := Phase.served.inj hserved
    exact h.lines.served _ d c _ hdelivery hphase
  | marks health hdesk =>
    rename_i c desk next
    obtain ⟨cell, hcell, hrest⟩ := hfits
    have hkeeps := CourierPool.keeps_mark h.coherent desk.courier.cell health
    refine h.withPhase hg hd hmay hnot hkeeps.coherent hkeeps.contacts
      ⟨cell, hcell, fun result courier hyields =>
        hrest result courier hyields.ask⟩ ?_
    refine h.lines.stays hdelivery (fun c' => (hstands c').symm) fun c' rest hserved => ?_
    obtain ⟨rfl, -⟩ := Phase.served.inj hserved
    exact h.lines.served _ d c _ hdelivery hphase
  | ends =>
    rename_i c result courier
    obtain ⟨cell, hcell, hrest⟩ := hfits
    have hcontact := hrest result courier (Exchange.mayYield_done _)
    have hleaves := CourierPool.leaves_leave h.coherent (hcontact ▸ hcell)
    refine h.withPhase hg hd hmay hnot hleaves.coherent hleaves.contacts trivial ?_
    have hline : (o.pool.leave c courier).line =
        Function.update o.pool.line c (o.pool.line c).tail := by
      funext c'
      by_cases hc : c' = c
      · subst hc
        rw [Function.update_self, hleaves.self]
      · rw [Function.update_of_ne hc, hleaves.others c' hc]
    rw [hline]
    exact h.lines.leaves hdelivery hphase fun _ => id

/-- A mailing may be put in the place of one that nobody stands in line for. -/
theorem Sound.put {g' : Option Mailing} (h : o.Sound) (hkeeps : o.pool.Keeps pool)
    (hold : ∀ g, o.mailing? n = some g → ∀ d ∈ g.deliveries, ∀ c, ¬d.phase.StandsAt c)
    (hnew : ∀ g, g' = some g → g.number = n ∧ ∀ d ∈ g.deliveries, d.phase = .pending) :
    Sound (o.put n g' pool) := by
  -- Every delivery is an old one or has not begun.
  have hdelivery : ∀ t d, (o.put n g' pool).delivery? t = some d →
      d.phase = .pending ∨ o.delivery? t = some d := by
    intro t d hd
    obtain ⟨g, hg, hd⟩ := Option.bind_eq_some_iff.1 hd
    by_cases ht : t.mailing = n
    · rw [ht, mailing?_put_self] at hg
      exact .inl ((hnew g hg).2 d (List.mem_of_getElem? hd))
    · rw [mailing?_put_of_ne _ _ _ ht] at hg
      exact .inr (Option.bind_eq_some_iff.2 ⟨g, hg, hd⟩)
  refine ⟨hkeeps.coherent, fun n' g hg => ?_, fun n' g hg i d hd hphase => ?_, fun t d hd => ?_, ?_⟩
  · by_cases hn : n' = n
    · subst hn
      rw [mailing?_put_self] at hg
      exact (hnew g hg).1
    · rw [mailing?_put_of_ne _ _ _ hn] at hg
      exact h.numbers n' g hg
  · by_cases hn : n' = n
    · subst hn
      rw [mailing?_put_self] at hg
      exact absurd ((hnew g hg).2 d (List.mem_of_getElem? hd)) hphase
    · rw [mailing?_put_of_ne _ _ _ hn] at hg
      exact h.inTurn n' g hg i d hd hphase
  · rcases hdelivery t d hd with hphase | hd
    · rw [hphase]
      trivial
    · exact (h.fits t d hd).keeps hkeeps.contacts
  · rw [show (o.put n g' pool).pool.line = o.pool.line from funext hkeeps.lines]
    refine h.lines.of_standing (fun t d c hd hstands => ?_) fun t d c hd hstands => ?_
    · obtain ⟨g, hg, hd⟩ := Option.bind_eq_some_iff.1 hd
      have ht : t.mailing ≠ n := fun ht =>
        hold g (ht ▸ hg) d (List.mem_of_getElem? hd) c hstands
      exact Option.bind_eq_some_iff.2 ⟨g, (mailing?_put_of_ne _ _ _ ht).trans hg, hd⟩
    · rcases hdelivery t d hd with hphase | hd
      · rw [hphase] at hstands
        exact hstands.elim
      · exact hd

theorem begins_eq (h : o.pool.Coherent) (n : Nat) (members : List Member) (payload : ByteArray)
    (wait : Bool) :
    o.begins n members payload wait =
      o.put n (some ⟨n, payload, wait, o.pool.fanOut,
          (suspectsLast o.pool.board members).map (Delivery.to o.pool.board)⟩)
        (Mailing.begin o.pool n members payload wait).2 := by
  rw [← (begin_spec h n members payload wait).2]
  rfl

theorem Sound.begins (h : o.Sound) (hnew : o.mailing? n = none) (members : List Member)
    (payload : ByteArray) (wait : Bool) : Sound (o.begins n members payload wait) := by
  obtain ⟨hpool, -⟩ := begin_spec h.coherent n members payload wait
  rw [begins_eq h.coherent]
  refine h.put hpool.toKeeps (fun g hg => ?_) fun g hg => ?_
  · rw [hnew] at hg
    cases hg
  · rw [← Option.some.inj hg]
    refine ⟨rfl, fun d hd => ?_⟩
    obtain ⟨m, -, rfl⟩ := List.mem_map.1 hd
    rfl

theorem Sound.reports (h : o.Sound) (hg : o.mailing? n = some g) (hover : g.isOver = true) :
    Sound (o.put n none (g.report o.pool).2) := by
  refine h.put (keeps_report h.coherent g) (fun g' hg' d hd c hstands => ?_) nofun
  obtain rfl := Option.some.inj (hg.symm.trans hg')
  have hd := List.all_eq_true.1 hover d hd
  rw [Delivery.isOver] at hd
  split at hd
  · rename_i hphase
    rw [hphase] at hstands
    exact hstands
  · cases hd

/-- Whatever happens in an office keeps the invariant. -/
theorem Works.sound (hworks : Works o o') (h : o.Sound) : o'.Sound := by
  cases hworks with
  | adds m => exact h.keeps (CourierPool.rearranges_add h.coherent m).toKeeps
  | removes id => exact h.keeps (CourierPool.rearranges_remove h.coherent id).toKeeps
  | sweeps now => exact h.keeps (CourierPool.rearranges_sweep h.coherent now).toKeeps
  | closes released =>
    have hsame : o.pool.Rearranges { o.pool with released } :=
      CourierPool.rearranges_of_desks h.coherent rfl rfl fun _ _ hc => hc
    exact h.keeps hsame.toKeeps
  | looksUp id => exact h.keeps (CourierPool.rearranges_post h.coherent id).toKeeps
  | forgets id => exact h.keeps (CourierPool.keeps_take h.coherent id)
  | marks cell next => exact h.keeps (CourierPool.keeps_mark h.coherent cell next)
  | begins n members payload wait hnew => exact h.begins hnew members payload wait
  | goes hg hgoes =>
    obtain rfl := h.numbers _ _ hg
    exact h.goes hg hgoes
  | reports hg hover => exact h.reports hg hover

theorem Reached.sound (h : o.Reached) : o.Sound := by
  obtain ⟨settings, fanOut, self, hworks⟩ := h
  induction hworks with
  | refl => exact sound_initial settings fanOut self
  | tail _ hstep ih => exact hstep.sound ih

/-- A delivery shows in nobody's health but its own member's. -/
theorem Sound.healthOf_goes (h : o.Sound) (hg : o.mailing? g.number = some g)
    (hd : g.deliveries[place]? = some d) (hgoes : g.Goes o.pool place phase pool)
    {id : MemberId} (hid : id ≠ d.member.id) :
    pool.board.healthOf id = o.pool.board.healthOf id := by
  obtain ⟨-, hturns⟩ := hgoes.turns_at hd
  have hfits := h.fits _ d ((delivery?_eq hg place).trans hd)
  generalize d.phase = before at hturns hfits
  cases hturns with
  | assigns => exact (CourierPool.assign_spec h.coherent d.member).1.health id
  | joins | calls | asks => rfl
  | marks health hdesk =>
    obtain ⟨cell, hcell, -⟩ := hfits
    have hcontact := CourierPool.contact?_of_desk hdesk
    refine h.coherent.healthOf_mark hcontact ?_ health
    rw [Option.some.inj (hcontact.symm.trans hcell)]
    exact hid
  | ends =>
    obtain ⟨cell, hcell, hrest⟩ := hfits
    have hcontact := hrest _ _ (Exchange.mayYield_done _)
    exact (CourierPool.leaves_leave h.coherent (hcontact ▸ hcell)).health id

/-! ## No mailing is stuck -/

/-- A delivery can go on when it is its turn and it is not kept waiting in line. -/
theorem canGo_of_mayStep (hd : g.deliveries[place]? = some d) (hmay : g.mayStep place = true)
    (hover : d.isOver = false) (hfits : d.phase.FitsIn o.pool d.member)
    (hhead : ∀ c, d.phase = .queued c → (o.pool.line c).head? = some ⟨g.number, place⟩) :
    g.CanGo o.pool place := by
  have hat : g.moveAt o.pool place = d.move o.pool ⟨g.number, place⟩ g.payload g.wait := by
    simp only [moveAt, hd, hmay, if_true]
  rw [CanGo, hat, Delivery.move]
  cases hphase : d.phase with
  | pending | assigned => exact .inl ⟨_, _, rfl⟩
  | queued c =>
    rw [hphase] at hfits
    obtain ⟨cell, hcell⟩ := hfits
    obtain ⟨desk, hdesk, -⟩ := CourierPool.exists_desk hcell
    have hhead := hhead c hphase
    rw [CourierPool.line_of_desk hdesk] at hhead
    simp only [hdesk, hhead, if_true]
    exact .inl ⟨_, _, rfl⟩
  | served c rest =>
    rw [hphase] at hfits
    obtain ⟨cell, hcell, -⟩ := hfits
    obtain ⟨desk, hdesk, -⟩ := CourierPool.exists_desk hcell
    cases rest with
    | done => exact .inl ⟨_, _, rfl⟩
    | ask q next =>
      cases q with
      | mark health =>
        simp only [hdesk]
        exact .inl ⟨_, _, rfl⟩
      | dial | write | read | close | clock => exact .inr ⟨_, _, rfl⟩
  | «over» =>
    rw [Delivery.isOver, hphase] at hover
    cases hover

/-- The delivery in front of a line can go on. -/
theorem Sound.canGo_of_head (h : o.Sound) {c : CourierId} {t : Ticket}
    (hhead : (o.pool.line c).head? = some t) :
    ∃ g, o.mailing? t.mailing = some g ∧ g.CanGo o.pool t.delivery := by
  obtain ⟨n, place⟩ := t
  obtain ⟨d, hdelivery, hstands⟩ := h.lines.known c _ (List.mem_of_head? hhead)
  obtain ⟨g, hg, hd⟩ := Option.bind_eq_some_iff.1 hdelivery
  obtain rfl := h.numbers n g hg
  refine ⟨g, hg, canGo_of_mayStep hd (h.inTurn _ g hg place d hd ?_) ?_ (h.fits _ d hdelivery) ?_⟩
  · intro hphase
    rw [hphase] at hstands
    exact hstands
  · rw [Delivery.isOver]
    split
    · rename_i hphase
      rw [hphase] at hstands
      exact hstands.elim
    · rfl
  · intro c' hphase
    rw [hphase] at hstands
    obtain rfl : c' = c := hstands
    exact hhead

/-- A mailing that is not over has a delivery that is not over and whose turn it is. -/
theorem exists_mayStep (h : g.isOver = false) :
    ∃ place d, g.deliveries[place]? = some d ∧ g.mayStep place = true ∧ d.isOver = false := by
  obtain ⟨d, hd, hover⟩ : ∃ d ∈ g.deliveries, d.isOver = false := by
    simpa [isOver] using h
  obtain ⟨i, hi⟩ := List.mem_iff_getElem?.1 hd
  induction i using Nat.strongRecOn generalizing d with
  | ind i ih =>
    by_cases hmay : g.mayStep i = true
    · exact ⟨i, d, hi, hmay, hover⟩
    · rw [mayStep_iff] at hmay
      push Not at hmay
      obtain ⟨-, j, hj, d', hd', hnot⟩ := hmay
      exact ih j hj d' (List.mem_of_getElem? hd') (Bool.eq_false_iff.2 hnot) hd'

/-- One of the deliveries of a mailing can take a step, or stands in line behind one that can. -/
def Proceeds (o : Office) (g : Mailing) : Prop :=
  (∃ place, g.CanGo o.pool place) ∨
    ∃ (place : Nat) (d : Delivery) (c : CourierId) (t : Ticket) (g' : Mailing),
      g.deliveries[place]? = some d ∧ d.phase = .queued c ∧
      (o.pool.line c).head? = some t ∧ o.mailing? t.mailing = some g' ∧
      g'.CanGo o.pool t.delivery

/-- A mailing that is not over is not stuck. -/
theorem Sound.proceeds (h : o.Sound) (hg : o.mailing? n = some g) (hover : g.isOver = false) :
    o.Proceeds g := by
  obtain rfl := h.numbers n g hg
  obtain ⟨place, d, hd, hmay, hnot⟩ := exists_mayStep hover
  have hdelivery : o.delivery? ⟨g.number, place⟩ = some d := (delivery?_eq hg place).trans hd
  by_cases hqueued : ∃ c, d.phase = .queued c
  · obtain ⟨c, hphase⟩ := hqueued
    have hmem := h.lines.stands _ d c hdelivery (by rw [hphase]; rfl)
    obtain ⟨t, hhead⟩ := Option.isSome_iff_exists.1
      (List.isSome_head?.2 (List.ne_nil_of_mem hmem))
    obtain ⟨g', hg', hgo⟩ := h.canGo_of_head hhead
    exact .inr ⟨place, d, c, t, g', hd, hphase, hhead, hg', hgo⟩
  · refine .inl ⟨place, canGo_of_mayStep hd hmay hnot (h.fits _ d hdelivery) fun c hphase => ?_⟩
    exact absurd ⟨c, hphase⟩ hqueued

end Office

end PeerCluster
