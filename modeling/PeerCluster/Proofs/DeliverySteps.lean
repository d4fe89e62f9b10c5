import PeerCluster.Mailing
import Mathlib.Logic.Hydra

/-!
# The steps of a delivery

**Steps** (`Goes.turns`). A step takes a delivery from one phase to a next one (`Turns`). If the
deliveries are made one after the other, it takes a step only when all before it are over
(`mayStep_iff`).

**Termination** (`cutExpand_left`). A delivery takes only so many steps, whatever the world answers.
What is left of a mailing is a multiset of phases, and every step replaces one of them by one that
follows it.
-/

namespace PeerCluster

namespace Mailing

variable {g : Mailing} {p pool : CourierPool} {place : Nat} {phase : Phase}

/-! ## One delivery -/

/-- One step of the delivery at a place, with any answer to what it asks. -/
inductive Goes (g : Mailing) (p : CourierPool) (place : Nat) : Phase → CourierPool → Prop
  | steps {phase : Phase} {pool : CourierPool} :
    g.moveAt p place = .steps phase pool → Goes g p place phase pool
  | asks {q : Ask} {next : q.Answer → Phase} (answer : q.Answer) :
    g.moveAt p place = .asks q next → Goes g p place (next answer) p

/-- Whether the delivery at a place can take a step, if only the world answers. -/
def CanGo (g : Mailing) (p : CourierPool) (place : Nat) : Prop :=
  (∃ phase pool, g.moveAt p place = .steps phase pool) ∨
    ∃ q next, g.moveAt p place = .asks q next

/-- What a step takes a delivery from and to. -/
inductive Turns (p : CourierPool) (t : Ticket) (payload : ByteArray) (wait : Bool) (m : Member) :
    Phase → Phase → CourierPool → Prop
  | assigns : Turns p t payload wait m .pending (.assigned (p.assign m).1) (p.assign m).2
  | joins (c : CourierId) : Turns p t payload wait m (.assigned c) (.queued c) (p.join c t)
  | calls {c : CourierId} {desk : CourierPool.Desk} :
    p.desk? c = some desk → desk.line.head? = some t →
      Turns p t payload wait m (.queued c) (.served c (desk.courier.send payload wait)) p
  | asks {c : CourierId} {q : Ask}
    {next : q.Answer → Exchange (Except DeliveryError Unit × Courier)} (answer : q.Answer) :
    Turns p t payload wait m (.served c (.ask q next)) (.served c (next answer)) p
  | marks {c : CourierId} {desk : CourierPool.Desk} (health : Health)
    {next : Unit → Exchange (Except DeliveryError Unit × Courier)} :
    p.desk? c = some desk →
      Turns p t payload wait m (.served c (.ask (.mark health) next)) (.served c (next ()))
        { p with board := p.board.mark desk.courier.cell health }
  | ends {c : CourierId} {result : Except DeliveryError Unit} {courier : Courier} :
    Turns p t payload wait m (.served c (.done (result, courier))) (.over result)
      (p.leave c courier)

variable {t : Ticket} {payload : ByteArray} {wait : Bool} {m : Member} {d : Delivery}

theorem turns_of_steps {phase : Phase} {pool : CourierPool}
    (h : d.move p t payload wait = .steps phase pool) :
    Turns p t payload wait d.member d.phase phase pool := by
  rw [Delivery.move] at h
  split at h <;> rename_i hphase <;> rw [hphase]
  · cases h
    exact .assigns
  · cases h
    exact .joins _
  · split at h
    · split at h
      · cases h
        exact .calls ‹_› ‹_›
      · cases h
    · cases h
  · cases h
    exact .ends
  · split at h
    · cases h
      exact .marks _ ‹_›
    · cases h
  · cases h
  · cases h

theorem turns_of_asks {q : Ask} {next : q.Answer → Phase}
    (h : d.move p t payload wait = .asks q next) (answer : q.Answer) :
    Turns p t payload wait d.member d.phase (next answer) p := by
  rw [Delivery.move] at h
  split at h <;> rename_i hphase <;> rw [hphase]
  · cases h
  · cases h
  · split at h
    · split at h <;> cases h
    · cases h
  · cases h
  · split at h <;> cases h
  · cases h
    exact .asks answer
  · cases h

/-- Who neither waits nor is over is a delivery whose turn it is. -/
theorem exists_move {move : Move} (hmove : g.moveAt p place = move) (hover : move ≠ .isOver)
    (hwaits : move ≠ .waits) :
    ∃ d, g.deliveries[place]? = some d ∧ g.mayStep place = true ∧
      d.move p ⟨g.number, place⟩ g.payload g.wait = move := by
  rw [moveAt] at hmove
  split at hmove
  · exact absurd hmove.symm hover
  · rename_i d hd
    split at hmove
    · exact ⟨d, hd, ‹_›, hmove⟩
    · exact absurd hmove.symm hwaits

/-- A step is one of those that its phase allows, and only taken when it is the turn of the
delivery. -/
theorem Goes.turns {phase : Phase} {pool : CourierPool} (h : g.Goes p place phase pool) :
    ∃ d, g.deliveries[place]? = some d ∧ g.mayStep place = true ∧
      Turns p ⟨g.number, place⟩ g.payload g.wait d.member d.phase phase pool := by
  cases h with
  | steps hmove =>
    obtain ⟨d, hd, hmay, hmove⟩ := exists_move hmove nofun nofun
    exact ⟨d, hd, hmay, turns_of_steps hmove⟩
  | asks answer hmove =>
    obtain ⟨d, hd, hmay, hmove⟩ := exists_move hmove nofun nofun
    exact ⟨d, hd, hmay, turns_of_asks hmove answer⟩

theorem Goes.turns_at {phase : Phase} {pool : CourierPool} (h : g.Goes p place phase pool)
    (hd : g.deliveries[place]? = some d) :
    g.mayStep place = true ∧
      Turns p ⟨g.number, place⟩ g.payload g.wait d.member d.phase phase pool := by
  obtain ⟨d', hd', hturns⟩ := h.turns
  obtain rfl := Option.some.inj (hd.symm.trans hd')
  exact hturns

/-- A delivery that is over takes no step. -/
theorem Turns.isOver {pool : CourierPool} (h : Turns p t payload wait m d.phase phase pool) :
    d.isOver = false := by
  rw [Delivery.isOver]
  cases hphase : d.phase with
  | «over» =>
    rw [hphase] at h
    cases h
  | _ => rfl

/-- Whatever is asked can be answered. -/
theorem nonempty_answer (q : Ask) : Nonempty q.Answer := by
  cases q with
  | dial => exact ⟨.timedOut⟩
  | write => exact ⟨.ok ()⟩
  | read => exact ⟨.timedOut⟩
  | close | mark => exact ⟨()⟩
  | clock => exact ⟨(0 : Nat)⟩

theorem CanGo.exists_goes (h : g.CanGo p place) : ∃ phase pool, g.Goes p place phase pool := by
  rcases h with ⟨phase, pool, hmove⟩ | ⟨q, next, hmove⟩
  · exact ⟨phase, pool, .steps hmove⟩
  · obtain ⟨answer⟩ := nonempty_answer q
    exact ⟨next answer, p, .asks answer hmove⟩

/-! ## A delivery in another phase -/

theorem getElem?_withPhase (g : Mailing) (place i : Nat) (phase : Phase) :
    (g.withPhase place phase).deliveries[i]? =
      if place = i then g.deliveries[i]?.map fun d => { d with phase } else g.deliveries[i]? := by
  rw [withPhase, List.getElem?_modify]
  split
  · rfl
  · exact Option.map_id'

theorem deliveries_withPhase (hd : g.deliveries[place]? = some d) (phase : Phase) :
    ∃ front back, g.deliveries = front ++ d :: back ∧
      (g.withPhase place phase).deliveries = front ++ { d with phase } :: back := by
  obtain ⟨hlt, -⟩ := List.getElem?_eq_some_iff.1 hd
  obtain ⟨front, d', back, hdeliveries, hlength, hmodify⟩ :=
    List.exists_of_modify (fun d : Delivery => { d with phase }) hlt
  obtain rfl : d' = d := by
    rw [hdeliveries, ← hlength] at hd
    simpa using hd
  exact ⟨front, back, hdeliveries, hmodify⟩

/-- The mailing before any of its deliveries has begun. -/
def atStart (g : Mailing) : Mailing :=
  { g with deliveries := g.deliveries.map fun d => { d with phase := .pending } }

theorem atStart_withPhase (g : Mailing) (place : Nat) (phase : Phase) :
    (g.withPhase place phase).atStart = g.atStart := by
  rw [atStart, atStart, withPhase]
  refine congrArg (Mailing.mk g.number g.payload g.wait g.fanOut) (List.ext_getElem? fun i => ?_)
  rw [List.getElem?_map, List.getElem?_map, List.getElem?_modify]
  split <;> cases g.deliveries[i]? <;> rfl

theorem members_atStart (g : Mailing) :
    g.atStart.deliveries.map Delivery.member = g.deliveries.map Delivery.member := by
  rw [atStart, List.map_map]
  rfl

theorem members_withPhase (g : Mailing) (place : Nat) (phase : Phase) :
    (g.withPhase place phase).deliveries.map Delivery.member = g.deliveries.map Delivery.member := by
  rw [← members_atStart, atStart_withPhase, members_atStart]

theorem ids_atStart (g : Mailing) :
    (g.atStart.deliveries.map fun d => d.member.id) = g.deliveries.map fun d => d.member.id := by
  rw [atStart, List.map_map]
  rfl

theorem ids_withPhase (g : Mailing) (place : Nat) (phase : Phase) :
    ((g.withPhase place phase).deliveries.map fun d => d.member.id) =
      g.deliveries.map fun d => d.member.id := by
  rw [← ids_atStart, atStart_withPhase, ids_atStart]

/-! ## The turn of a delivery -/

theorem mayStep_iff :
    g.mayStep place = true ↔ g.fanOut = .sequential →
      ∀ i < place, ∀ d, g.deliveries[i]? = some d → d.isOver = true := by
  rw [mayStep]
  cases g.fanOut with
  | parallel => simp
  | sequential =>
    simp only [List.all_eq_true, true_implies]
    constructor
    · intro h i hi d hd
      exact h d (List.mem_of_getElem? ((List.getElem?_take_of_lt hi).trans hd))
    · intro h d hd
      obtain ⟨i, hi⟩ := List.mem_iff_getElem?.1 hd
      rw [List.getElem?_take] at hi
      split at hi
      · exact h i ‹_› d hi
      · cases hi

/-- It stays the turn of a delivery when one that is not over goes on. -/
theorem mayStep_withPhase {i : Nat} {d : Delivery} {phase : Phase} (h : g.mayStep i = true)
    (hd : g.deliveries[place]? = some d) (hnot : d.isOver = false) :
    (g.withPhase place phase).mayStep i = true := by
  rw [mayStep_iff] at h ⊢
  intro hfanOut j hj d' hd'
  rw [getElem?_withPhase] at hd'
  split at hd'
  · rename_i heq
    subst heq
    rw [h hfanOut _ hj d hd] at hnot
    cases hnot
  · exact h hfanOut j hj d' hd'

/-! ## A delivery takes only so many steps -/

/-- One phase follows another. -/
def Follows (after before : Phase) : Prop :=
  ∃ p t payload wait m pool, Turns p t payload wait m before after pool

theorem wellFounded_follows : WellFounded Follows := by
  have hover : ∀ result, Acc Follows (.over result) := fun result =>
    ⟨_, fun phase ⟨_, _, _, _, _, _, hturns⟩ => by cases hturns⟩
  have hserved : ∀ c rest, Acc Follows (.served c rest) := by
    intro c rest
    induction rest with
    | done a =>
      refine ⟨_, fun phase ⟨_, _, _, _, _, _, hturns⟩ => ?_⟩
      cases hturns
      exact hover _
    | ask q next ih =>
      refine ⟨_, fun phase ⟨_, _, _, _, _, _, hturns⟩ => ?_⟩
      cases hturns with
      | asks answer => exact ih answer
      | marks health hdesk => exact ih ()
  have hqueued : ∀ c, Acc Follows (.queued c) := by
    refine fun c => ⟨_, fun phase ⟨_, _, _, _, _, _, hturns⟩ => ?_⟩
    cases hturns
    exact hserved _ _
  have hassigned : ∀ c, Acc Follows (.assigned c) := by
    refine fun c => ⟨_, fun phase ⟨_, _, _, _, _, _, hturns⟩ => ?_⟩
    cases hturns
    exact hqueued _
  refine ⟨fun phase => ?_⟩
  cases phase with
  | pending =>
    refine ⟨_, fun phase ⟨_, _, _, _, _, _, hturns⟩ => ?_⟩
    cases hturns
    exact hassigned _
  | assigned c => exact hassigned c
  | queued c => exact hqueued c
  | served c rest => exact hserved c rest
  | «over» result => exact hover result

/-- What changes only along a well-founded relation changes only so many times. -/
theorem exists_unchanged {α : Type} {r : α → α → Prop} (hr : WellFounded r) {f : Nat → α}
    (hf : ∀ k, f (k + 1) = f k ∨ r (f (k + 1)) (f k)) : ∃ k, ∀ j ≥ k, f j = f k := by
  have hreaches : ∀ k, ∀ j ≥ k, Relation.ReflTransGen r (f j) (f k) := by
    intro k j hj
    induction j, hj using Nat.le_induction with
    | base => exact .refl
    | succ j _ ih =>
      rcases hf j with hsame | hless
      · exact hsame ▸ ih
      · exact .head hless ih
  suffices h : ∀ a k, f k = a → ∃ k, ∀ j ≥ k, f j = f k from h _ 0 rfl
  intro a
  induction a using hr.transGen.induction with
  | _ a ih =>
    rintro k rfl
    by_cases hsame : ∀ j ≥ k, f (j + 1) = f j
    · exact ⟨k, fun j hj => Nat.le_induction rfl (fun j hj ih => (hsame j hj).trans ih) j hj⟩
    · push Not at hsame
      obtain ⟨j, hj, hchanged⟩ := hsame
      exact ih _ (.head' ((hf j).resolve_left hchanged) (hreaches k j hj)) (j + 1) rfl

/-- What is left of a mailing to be done. -/
def left (g : Mailing) : Multiset Phase :=
  g.deliveries.map Delivery.phase

/-- Every step of a delivery leaves less to be done. -/
theorem cutExpand_left (hgoes : g.Goes p place phase pool) :
    Relation.CutExpand Follows (g.withPhase place phase).left g.left := by
  obtain ⟨d, hd, -, hturns⟩ := hgoes.turns
  obtain ⟨front, back, hdeliveries, hafter⟩ := deliveries_withPhase hd phase
  have hmiddle : ∀ x : Delivery, (↑((front ++ x :: back).map Delivery.phase) : Multiset Phase) =
      ↑((front ++ back).map Delivery.phase) + {x.phase} := fun x => by
    rw [Multiset.add_comm, Multiset.singleton_add]
    exact Multiset.coe_eq_coe.2 (List.perm_middle.map Delivery.phase)
  rw [left, left, hdeliveries, hafter, hmiddle, hmiddle]
  exact Relation.cutExpand_add_single _ ⟨_, _, _, _, _, _, hturns⟩

end Mailing

end PeerCluster
