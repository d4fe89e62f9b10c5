import PeerCluster.Proofs.PostedCells
import PeerCluster.Proofs.Receptions

/-!
# Couriers that leave the pool

**Removals** (`remove_spec`). Taking the courier of one peer out of the pool concerns no other peer.

**Sweeps** (`sweep_spec`). A sweep goes through the couriers that were in the pool when it began, one
after the other. Exactly those that hold a connection which has reached a limit, and for which nobody
stands in line, leave the pool and let go of it. Every other courier stays as it is, and the sweep says
how many have left.

What becomes of a courier depends on its own desk alone (`sweepOne_of_current`), and no two ids have the
same courier (`Coherent.eq_of_current`). So the couriers that have been gone through do not matter to
those that have not (`foldl_sweepOne`).
-/

namespace PeerCluster

/-- A connection is held that has reached a limit. -/
def Courier.isSpent (c : Courier) (now : Nat) : Bool :=
  c.isConnected && (c.isWornOut || c.isIdle now)

theorem Courier.isSome_recycle (c : Courier) (now : Nat) :
    (c.recycle now).1.isSome = c.isSpent now := by
  rw [recycle, isSpent, isConnected]
  cases c.link with
  | none => rfl
  | some link => cases hspent : c.isWornOut || c.isIdle now <;> rfl

namespace CourierPool

variable {p q : CourierPool} {c c' : CourierId} {id id' : MemberId} {now : Nat}

/-- A courier is to leave the pool: it holds a connection that has reached a limit, and nobody stands in
line for it. -/
def isDue (p : CourierPool) (now : Nat) (c : CourierId) : Bool :=
  (p.desk? c).any fun d => d.line.isEmpty && d.courier.isSpent now

/-- No two ids have the same courier. -/
theorem Coherent.eq_of_current (h : p.Coherent) (hc : p.current.get? id = some c)
    (hc' : p.current.get? id' = some c) : id = id' := by
  obtain ⟨d, hd, hid⟩ := h.exists_desk hc
  rw [← hid, h.destination hc' hd]

/-! ## Removals -/

theorem desk?_letGo (p : CourierPool) (c c' : CourierId) :
    (p.letGo c).desk? c' =
      if c' = c then (p.desk? c).map fun d => { d with courier := d.courier.dropped }
      else p.desk? c' := by
  cases hdesk : p.desk? c with
  | none =>
    have hsame : p.letGo c = p := by rw [letGo, hdesk]
    rw [hsame]
    split
    next heq => rw [heq, hdesk]; rfl
    next => rfl
  | some d =>
    have hmodify := desk?_modify p c c' fun d => { d with courier := d.courier.dropped }
    rw [hdesk] at hmodify
    rw [letGo, hdesk]
    exact hmodify

/-- The peer has no courier any more, and nobody else is concerned. -/
theorem remove_spec (h : p.Coherent) (id : MemberId) :
    (p.remove id).1 = (p.current.get? id).isSome ∧ (p.remove id).2.current.get? id = none ∧
      Spares id p (p.remove id).2 := by
  cases hc : p.current.get? id with
  | none =>
    rw [remove, hc]
    exact ⟨rfl, hc, .refl id p⟩
  | some c =>
    obtain ⟨d, hd, hid⟩ := h.exists_desk hc
    have hpeer : ∀ x, p.contact? c = some x → x.peer = id := by
      intro x hx
      rw [← Option.some.inj ((contact?_of_desk hd).symm.trans hx)]
      exact hid
    have hspares : Spares id p (if p.isFree c then p.letGo c else p) := by
      split
      · exact spares_letGo hpeer
      · exact .refl id p
    rw [remove, hc]
    refine ⟨rfl, (MemberMap.get?_erase ..).trans (if_pos rfl), fun id' hid' => ?_, hspares.desks⟩
    exact ((MemberMap.get?_erase ..).trans (if_neg hid')).trans (hspares.current id' hid')

/-! ## One courier of a sweep -/

/-- The pool when the courier of an id has let go of its connection and left. -/
def swept (p : CourierPool) (id : MemberId) (c : CourierId) : CourierPool :=
  { p.letGo c with current := p.current.erase id }

theorem sweepOne_of_current (now : Nat) (hc : p.current.get? id = some c) :
    sweepOne now p id c = if p.isDue now c then (true, p.swept id c) else (false, p) := by
  have hcurrent := (posted_letGo p c).2
  rw [sweepOne, isDue]
  cases hdesk : p.desk? c with
  | none => rfl
  | some d =>
    have hspent := d.courier.isSome_recycle now
    dsimp only
    rw [Option.any_some, ← hspent]
    cases d.line.isEmpty with
    | false => rfl
    | true =>
      obtain ⟨_ | link, _⟩ := d.courier.recycle now
      · rfl
      · simp [hcurrent, hc, swept]

theorem desk?_swept (p : CourierPool) (id : MemberId) (c c' : CourierId) :
    (p.swept id c).desk? c' =
      if c' = c then (p.desk? c).map fun d => { d with courier := d.courier.dropped }
      else p.desk? c' :=
  desk?_letGo p c c'

theorem isDue_of_desk (h : q.desk? c = p.desk? c) : q.isDue now c = p.isDue now c := by
  rw [isDue, isDue, h]

/-! ## Sweeps -/

/-- What a sweep leaves of the couriers of some ids. -/
structure Swept (now : Nat) (p : CourierPool) (es : List (MemberId × CourierId)) (p' : CourierPool) :
    Prop where
  current : ∀ id c, p'.current.get? id = some c ↔
    p.current.get? id = some c ∧ ¬((id, c) ∈ es ∧ p.isDue now c = true)
  desks : ∀ c, p'.desk? c =
    if c ∈ es.map Prod.snd ∧ p.isDue now c = true
    then (p.desk? c).map fun d => { d with courier := d.courier.dropped } else p.desk? c

theorem Swept.cons_of_not_due {es : List (MemberId × CourierId)} (h : Swept now p es q)
    (hdue : p.isDue now c = false) (id : MemberId) : Swept now p ((id, c) :: es) q where
  current id' c' := by
    rw [h.current]
    refine and_congr_right fun _ => not_congr (and_congr_left fun hdue' => ?_)
    rw [List.mem_cons, Prod.mk.injEq, or_iff_right]
    rintro ⟨-, rfl⟩
    rw [hdue] at hdue'
    cases hdue'
  desks c' := by
    rw [h.desks]
    refine if_congr (and_congr_left fun hdue' => ?_) rfl rfl
    rw [List.map_cons, List.mem_cons, or_iff_right]
    rintro rfl
    rw [hdue] at hdue'
    cases hdue'

theorem Swept.cons_of_due {es : List (MemberId × CourierId)} (h : Swept now (p.swept id c) es q)
    (hcurrent : p.current.get? id = some c) (hdue : p.isDue now c = true)
    (hnew : ∀ e ∈ es, id ≠ e.1 ∧ c ≠ e.2) : Swept now p ((id, c) :: es) q := by
  have hdesk : ∀ c' ≠ c, (p.swept id c).desk? c' = p.desk? c' := fun c' hne =>
    (desk?_swept p id c c').trans (if_neg hne)
  refine ⟨fun id' c' => ?_, fun c' => ?_⟩
  · rw [h.current, swept, MemberMap.get?_erase, ← swept]
    by_cases hid : id' = id
    · subst hid
      rw [if_pos rfl]
      refine ⟨nofun, fun ⟨hc', hnot⟩ => absurd ⟨?_, ?_⟩ hnot⟩
      · rw [← Option.some.inj (hcurrent.symm.trans hc')]
        exact List.mem_cons_self
      · rw [← Option.some.inj (hcurrent.symm.trans hc')]
        exact hdue
    · have hmem : (id', c') ∈ (id, c) :: es ↔ (id', c') ∈ es := by
        rw [List.mem_cons, Prod.mk.injEq, or_iff_right]
        exact fun heq => hid heq.1
      rw [if_neg hid, hmem]
      refine and_congr_right fun _ => not_congr (and_congr_right fun hes => ?_)
      rw [isDue_of_desk (hdesk c' (hnew _ hes).2.symm)]
  · rw [h.desks]
    by_cases hc : c' = c
    · subst hc
      have hgone : c' ∉ es.map Prod.snd := by
        intro hmem
        obtain ⟨e, he, heq⟩ := List.mem_map.1 hmem
        exact (hnew e he).2 heq.symm
      rw [if_neg fun h => hgone h.1, if_pos ⟨List.mem_cons_self, hdue⟩, desk?_swept, if_pos rfl]
    · rw [hdesk c' hc, isDue_of_desk (hdesk c' hc)]
      refine if_congr (and_congr_left fun _ => ?_) rfl rfl
      rw [List.map_cons, List.mem_cons, or_iff_right hc]

/-- A sweep of some ids, of which no two have the same courier. -/
theorem foldl_sweepOne (now : Nat) {es : List (MemberId × CourierId)}
    (hcurrent : ∀ e ∈ es, p.current.get? e.1 = some e.2)
    (hdistinct : es.Pairwise fun e e' => e.1 ≠ e'.1 ∧ e.2 ≠ e'.2) (count : Nat) :
    let r := es.foldl (fun s e => (if (sweepOne now s.2 e.1 e.2).1 then s.1 + 1 else s.1,
      (sweepOne now s.2 e.1 e.2).2)) (count, p)
    r.1 = count + es.countP (fun e => p.isDue now e.2) ∧ Swept now p es r.2 := by
  induction es generalizing p count with
  | nil => exact ⟨rfl, by simp, by simp⟩
  | cons e rest ih =>
    obtain ⟨id, c⟩ := e
    obtain ⟨hnew, hdistinct⟩ := List.pairwise_cons.1 hdistinct
    have hc := hcurrent _ List.mem_cons_self
    have hrest : ∀ e ∈ rest, p.current.get? e.1 = some e.2 := fun e he =>
      hcurrent e (List.mem_cons_of_mem _ he)
    rw [List.foldl_cons, sweepOne_of_current now hc]
    cases hdue : p.isDue now c with
    | false =>
      obtain ⟨hcount, hswept⟩ := ih hrest hdistinct count
      refine ⟨hcount.trans ?_, hswept.cons_of_not_due hdue id⟩
      rw [List.countP_cons_of_neg (by simp [hdue])]
    | true =>
      have hrest' : ∀ e ∈ rest, (p.swept id c).current.get? e.1 = some e.2 := by
        intro e he
        rw [swept, MemberMap.get?_erase, if_neg (hnew e he).1.symm]
        exact hrest e he
      obtain ⟨hcount, hswept⟩ := ih hrest' hdistinct (count + 1)
      refine ⟨hcount.trans ?_, hswept.cons_of_due hc hdue hnew⟩
      have hsame : rest.countP (fun e => (p.swept id c).isDue now e.2) =
          rest.countP fun e => p.isDue now e.2 := by
        refine List.countP_congr fun e he => ?_
        rw [isDue_of_desk ((desk?_swept p id c e.2).trans (if_neg (hnew e he).2.symm))]
      rw [hsame, List.countP_cons, hdue, if_pos rfl]
      omega

/-- No two entries of the pool have an id or a courier in common. -/
theorem Coherent.pairwise_current (h : p.Coherent) :
    p.current.entries.Pairwise fun e e' => e.1 ≠ e'.1 ∧ e.2 ≠ e'.2 := by
  refine p.current.sorted.imp_of_mem fun {e e'} he he' hlt => ?_
  have hids : e.1 ≠ e'.1 := fun heq => MemberId.lt_irrefl _ (heq ▸ hlt)
  refine ⟨hids, fun heq => hids ?_⟩
  exact h.eq_of_current (MemberMap.mem_entries.1 he) (heq ▸ MemberMap.mem_entries.1 he')

/-- A sweep takes out exactly the couriers that are due, and says how many there were. -/
theorem sweep_spec (h : p.Coherent) (now : Nat) :
    (p.sweep now).1 = p.current.values.countP (p.isDue now) ∧
    (∀ id c, (p.sweep now).2.current.get? id = some c ↔
      p.current.get? id = some c ∧ p.isDue now c = false) ∧
    (∀ c, (p.sweep now).2.desk? c =
      if c ∈ p.current.values ∧ p.isDue now c = true
      then (p.desk? c).map fun d => { d with courier := d.courier.dropped } else p.desk? c) := by
  have hcurrent : ∀ e ∈ p.current.entries, p.current.get? e.1 = some e.2 := fun _ =>
    MemberMap.mem_entries.1
  obtain ⟨hcount, hswept⟩ := foldl_sweepOne now hcurrent h.pairwise_current 0
  refine ⟨?_, fun id c => ?_, hswept.desks⟩
  · rw [MemberMap.values, List.countP_map]
    exact hcount.trans (Nat.zero_add _)
  · refine (hswept.current id c).trans (and_congr_right fun hc => ?_)
    rw [and_iff_right (MemberMap.mem_entries.2 hc), Bool.not_eq_true]

end CourierPool

end PeerCluster
