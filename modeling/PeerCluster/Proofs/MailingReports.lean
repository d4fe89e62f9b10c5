import PeerCluster.Mailing
import PeerCluster.Proofs.PoolCoherence
import Mathlib.Data.List.Basic

/-!
# How a mailing begins and what it reports

**Beginning** (`begin_spec`). The deliveries are those of the members, first of those that are not
under suspicion and then of the others, and within each group the order is kept. Looking the members
up changes nobody's health.

**Reporting** (`report_spec`). The report names exactly the members whose deliveries failed, in the
order of the deliveries, each with its own cause. A member that was under suspicion when the mailing
began is failing from now on, and every other one is reported with the health that it has.
-/

namespace PeerCluster

namespace Mailing

variable {p : CourierPool}

/-! ## Beginning -/

/-- Whether a member is under suspicion. -/
def isSuspected (b : HealthBoard) (m : Member) : Bool :=
  (b.healthOf m.id).isSuspect

/-- Members under suspicion come last. -/
def suspectsLast (b : HealthBoard) (members : List Member) : List Member :=
  members.filter (fun m => !isSuspected b m) ++ members.filter (isSuspected b)

/-- The delivery to a member before it has begun. -/
def Delivery.to (b : HealthBoard) (m : Member) : Delivery :=
  { member := m, wasSuspect := isSuspected b m }

theorem snapshot_spec (h : p.Coherent) (members : List Member) :
    p.Rearranges { p with board := (snapshot p.board members).2 } ∧
      (snapshot p.board members).1 = members.map (Delivery.to p.board) := by
  induction members generalizing p with
  | nil => exact ⟨.refl h, rfl⟩
  | cons m rest ih =>
    have hpost := CourierPool.rearranges_post h m.id
    have hfound := p.board.found_findOrPost m.id
    obtain ⟨hrest, hdeliveries⟩ := ih hpost.coherent
    refine ⟨hpost.trans hrest, ?_⟩
    rw [snapshot, List.map_cons]
    refine List.cons.injEq .. ▸ ⟨?_, ?_⟩
    · rw [Delivery.to, isSuspected, ← hpost.health, HealthBoard.healthOf_of_find hfound.find]
    · rw [hdeliveries]
      refine List.map_congr_left fun m' _ => ?_
      rw [Delivery.to, Delivery.to, isSuspected, isSuspected, hpost.health]

theorem begin_spec (h : p.Coherent) (number : Nat) (members : List Member) (payload : ByteArray)
    (wait : Bool) :
    p.Rearranges (Mailing.begin p number members payload wait).2 ∧
      (Mailing.begin p number members payload wait).1 =
        ⟨number, payload, wait, p.fanOut,
          (suspectsLast p.board members).map (Delivery.to p.board)⟩ := by
  obtain ⟨hboard, hdeliveries⟩ := snapshot_spec h members
  refine ⟨hboard, ?_⟩
  have hordered : (snapshot p.board members).1.filter (fun d => !d.wasSuspect) ++
      (snapshot p.board members).1.filter (fun d => d.wasSuspect) =
        (suspectsLast p.board members).map (Delivery.to p.board) := by
    rw [hdeliveries, List.filter_map, List.filter_map, suspectsLast, List.map_append]
    rfl
  exact congrArg (Mailing.mk number payload wait p.fanOut) hordered

/-! ## Reporting -/

/-- Why a delivery failed, if it did. -/
def Delivery.cause? (d : Delivery) : Option DeliveryError :=
  match d.phase with
  | .over (.error cause) => some cause
  | _ => none

/-- The health of the member of a failed delivery when that has been reported. -/
def Delivery.healthAfter (b : HealthBoard) (d : Delivery) : Health :=
  if d.wasSuspect then .failing else b.healthOf d.member.id

/-- What is reported about a delivery. -/
def Delivery.failure? (b : HealthBoard) (d : Delivery) : Option Failure :=
  d.cause?.map fun cause => .mk d.member cause (d.healthAfter b)

/-- The board when one failed delivery is reported. -/
def blame (b : HealthBoard) (d : Delivery) : HealthBoard :=
  let (cell, b) := b.findOrPost d.member.id
  if d.wasSuspect then b.mark cell .failing else b

theorem cause?_eq_some {d : Delivery} {cause : DeliveryError} :
    d.cause? = some cause ↔ d.phase = .over (.error cause) := by
  obtain ⟨m, wasSuspect, phase⟩ := d
  cases phase with
  | «over» result => cases result <;> simp [Delivery.cause?]
  | _ => simp [Delivery.cause?]

theorem failures_cons_of_none (b : HealthBoard) {d : Delivery} (rest : List Delivery)
    (h : d.cause? = none) : failures b (d :: rest) = failures b rest := by
  rw [failures]
  split
  · rename_i cause hphase
    rw [cause?_eq_some.2 hphase] at h
    cases h
  · rfl

theorem failures_cons_of_some (b : HealthBoard) {d : Delivery} {cause : DeliveryError}
    (rest : List Delivery) (h : d.cause? = some cause) :
    failures b (d :: rest) =
      (.mk d.member cause ((blame b d).read (b.findOrPost d.member.id).1) ::
        (failures (blame b d) rest).1, (failures (blame b d) rest).2) := by
  rw [failures, cause?_eq_some.1 h]
  rfl

/-- Reporting a failed delivery makes the member failing if it was under suspicion, and changes
nothing else. -/
theorem blame_spec (h : p.Coherent) (d : Delivery) :
    p.Keeps { p with board := blame p.board d } ∧
      (blame p.board d).read (p.board.findOrPost d.member.id).1 = d.healthAfter p.board ∧
      (blame p.board d).healthOf d.member.id = d.healthAfter p.board ∧
      ∀ id ≠ d.member.id, (blame p.board d).healthOf id = p.board.healthOf id := by
  have hpost := CourierPool.rearranges_post h d.member.id
  have hfind := (p.board.found_findOrPost d.member.id).find
  have hhealth := hpost.health d.member.id
  rw [HealthBoard.healthOf_of_find hfind] at hhealth
  rw [Delivery.healthAfter, blame]
  cases d.wasSuspect with
  | false =>
    simp only [Bool.false_eq_true, if_false]
    exact ⟨hpost.toKeeps, hhealth, hpost.health _, fun id _ => hpost.health id⟩
  | true =>
    simp only [if_true]
    obtain ⟨owner, hkept⟩ := hpost.coherent
    have hread : ((p.board.findOrPost d.member.id).2.mark
        (p.board.findOrPost d.member.id).1 .failing).read
        (p.board.findOrPost d.member.id).1 = .failing :=
      HealthBoard.read_mark_self (hkept.board.made _ _ hfind) _
    refine ⟨hpost.toKeeps.trans (CourierPool.keeps_mark hpost.coherent _ _), hread, ?_, ?_⟩
    · rw [HealthBoard.healthOf_of_find ((HealthBoard.find?_mark ..).trans hfind), hread]
    · intro id hid
      have howner := hkept.board.owned _ _ hfind
      rw [hkept.board.healthOf_mark (howner.symm ▸ hid)]
      exact hpost.health id

theorem keeps_failures (h : p.Coherent) (ds : List Delivery) :
    p.Keeps { p with board := (failures p.board ds).2 } := by
  induction ds generalizing p with
  | nil => exact (CourierPool.Rearranges.refl h).toKeeps
  | cons d rest ih =>
    cases hcause : d.cause? with
    | none =>
      rw [failures_cons_of_none p.board rest hcause]
      exact ih h
    | some cause =>
      rw [failures_cons_of_some p.board rest hcause]
      obtain ⟨hkeeps, -⟩ := blame_spec h d
      exact hkeeps.trans (ih hkeeps.coherent)

theorem failures_spec {ds : List Delivery} (h : p.Coherent)
    (hdistinct : (ds.map fun d => d.member.id).Nodup) :
    (failures p.board ds).1 = ds.filterMap (Delivery.failure? p.board) ∧
      (∀ d ∈ ds, d.cause?.isSome →
        (failures p.board ds).2.healthOf d.member.id = d.healthAfter p.board) ∧
      ∀ id, (∀ d ∈ ds, d.cause?.isSome → d.member.id ≠ id) →
        (failures p.board ds).2.healthOf id = p.board.healthOf id := by
  induction ds generalizing p with
  | nil => exact ⟨rfl, nofun, fun _ _ => rfl⟩
  | cons d rest ih =>
    obtain ⟨hnew, hdistinct⟩ := List.nodup_cons.1 hdistinct
    have hne : ∀ d' ∈ rest, d'.member.id ≠ d.member.id :=
      fun d' hd' heq => hnew (List.mem_map.2 ⟨d', hd', heq⟩)
    cases hcause : d.cause? with
    | none =>
      obtain ⟨hlist, hfailed, hothers⟩ := ih h hdistinct
      have hnone : d.failure? p.board = none := by rw [Delivery.failure?, hcause]; rfl
      rw [failures_cons_of_none p.board rest hcause, List.filterMap_cons, hnone]
      refine ⟨hlist, fun d' hd' hsome => ?_, fun id hid => ?_⟩
      · rcases List.mem_cons.1 hd' with rfl | hd'
        · rw [hcause] at hsome
          cases hsome
        · exact hfailed d' hd' hsome
      · exact hothers id fun d' hd' => hid d' (List.mem_cons_of_mem d hd')
    | some cause =>
      obtain ⟨hkeeps, hread, hself, hblamed⟩ := blame_spec h d
      obtain ⟨hlist, hfailed, hothers⟩ := ih hkeeps.coherent hdistinct
      have hsame : ∀ d' ∈ rest, d'.healthAfter (blame p.board d) = d'.healthAfter p.board := by
        intro d' hd'
        rw [Delivery.healthAfter, Delivery.healthAfter, hblamed _ (hne d' hd')]
      have hsome : d.failure? p.board = some (.mk d.member cause (d.healthAfter p.board)) := by
        rw [Delivery.failure?, hcause]
        rfl
      have hrest : rest.filterMap (Delivery.failure? (blame p.board d)) =
          rest.filterMap (Delivery.failure? p.board) := by
        refine List.filterMap_congr fun d' hd' => ?_
        rw [Delivery.failure?, Delivery.failure?, hsame d' hd']
      rw [failures_cons_of_some p.board rest hcause, List.filterMap_cons, hsome, hread]
      refine ⟨by rw [hlist, hrest], fun d' hd' hfails => ?_, fun id hid => ?_⟩
      · rcases List.mem_cons.1 hd' with rfl | hd'
        · rw [hothers _ fun d'' hd'' _ => hne d'' hd'', hself]
        · rw [hfailed d' hd' hfails, hsame d' hd']
      · have hid' := hid d (List.mem_cons_self ..) (by rw [hcause]; rfl)
        rw [hothers id fun d' hd' => hid d' (List.mem_cons_of_mem d hd'), hblamed id hid'.symm]

/-- A mailing reports the failed deliveries, in order, and that is all that a report changes. -/
theorem report_spec {g : Mailing} (h : p.Coherent)
    (hdistinct : (g.deliveries.map fun d => d.member.id).Nodup) :
    let fs := g.deliveries.filterMap (Delivery.failure? p.board)
    (g.report p).1 = (if fs.isEmpty then .ok () else .error (.faulty fs)) ∧
      (∀ d ∈ g.deliveries, d.cause?.isSome →
        (g.report p).2.board.healthOf d.member.id = d.healthAfter p.board) ∧
      ∀ id, (∀ d ∈ g.deliveries, d.cause?.isSome → d.member.id ≠ id) →
        (g.report p).2.board.healthOf id = p.board.healthOf id := by
  intro fs
  obtain ⟨hlist, hfailed, hothers⟩ := failures_spec h hdistinct
  refine ⟨?_, hfailed, hothers⟩
  show (if (failures p.board g.deliveries).1.isEmpty then _ else _) = _
  rw [hlist]

theorem keeps_report (h : p.Coherent) (g : Mailing) : p.Keeps (g.report p).2 :=
  keeps_failures h g.deliveries

end Mailing

end PeerCluster
