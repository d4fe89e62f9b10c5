import PeerCluster.Proofs.FanOutModes
import PeerCluster.Proofs.TendedPeers

/-!
# The pool and the board stay consistent

**One thing after the other** (`Office.Does`). Peers are added and removed, connections are swept and
mailings are sent, each when the one before is over. While a mailing is under way, its deliveries take
steps in any order that its fan-out allows.

**The invariant** (`Office.Tidy`). Couriers report to cells that are on the board, and a delivery that has
begun has the courier that the pool keeps for its member, on the way to the member's address. Nobody
stands in line for the courier of a member before the delivery to it begins, since the members of a
mailing are distinct and no other mailing is under way (`Office.Tidy.line_of_pending`).

**Theorem (`Office.pool_and_board_stay_consistent`).** At any time every peer has one courier at most,
which goes to that peer and reports to the cell on the board. What has been added or delivered to has a
courier to its address, a removal concerns one peer only, and a sweep takes out exactly the couriers
whose connections have reached a limit.

An office never gets stuck in a mailing (`Office.Tidy.exists_over`).
-/

namespace PeerCluster

/-! ## One thing after the other -/

namespace Office

open Mailing
open Relation (ReflTransGen)

variable {o o' : Office} {n place : Nat} {g : Mailing} {d : Delivery} {phase : Phase}
  {pool : CourierPool} {c : CourierId}

/-- No mailing is under way. -/
def IsQuiet (o : Office) : Prop :=
  ∀ n, o.mailing? n = none

/-- What an office does that takes up one thing after the other. While a mailing is under way nothing
else is done, but that others look peers up and mark them. A peer is taken off the board only with its
courier. -/
inductive Does : Office → Office → Prop
  | adds {o : Office} (m : Member) : o.IsQuiet → Does o { o with pool := o.pool.add m }
  | removes {o : Office} (id : MemberId) :
    o.IsQuiet → Does o { o with pool := (o.pool.remove id).2 }
  | forgets {o : Office} (id : MemberId) : o.IsQuiet →
    Does o { o with pool :=
      { (o.pool.remove id).2 with board := ((o.pool.remove id).2.board.take id).2 } }
  | sweeps {o : Office} (now : Nat) : o.IsQuiet → Does o { o with pool := (o.pool.sweep now).2 }
  | begins {o : Office} (n : Nat) {members : List Member} (payload : ByteArray) (wait : Bool) :
    o.IsQuiet → (members.map Member.id).Nodup → Does o (o.begins n members payload wait)
  | goes {o : Office} {n : Nat} {g : Mailing} {place : Nat} {phase : Phase} {pool : CourierPool} :
    o.mailing? n = some g → g.Goes o.pool place phase pool →
      Does o (o.withPhase g place phase pool)
  | reports {o : Office} {n : Nat} {g : Mailing} :
    o.mailing? n = some g → g.isOver = true → Does o (o.put n none (g.report o.pool).2)
  | looksUp (o : Office) (id : MemberId) :
    Does o { o with pool := { o.pool with board := (o.pool.board.findOrPost id).2 } }
  | marks (o : Office) (cell : HealthCell) (next : Health) :
    Does o { o with pool := { o.pool with board := o.pool.board.mark cell next } }

/-- The states that such an office gets into whose pool begins without couriers. -/
def OneByOne (o : Office) : Prop :=
  ∃ settings fanOut self, ReflTransGen Does ⟨{ settings, fanOut, self }, fun _ => none⟩ o

/-- What holds of such an office at any time. -/
structure Tidy (o : Office) : Prop where
  sound : o.Sound
  onBoard : o.pool.OnBoard
  alone : ∀ {n n' g g'}, o.mailing? n = some g → o.mailing? n' = some g' → n = n'
  distinct : ∀ {n g}, o.mailing? n = some g → (g.deliveries.map fun d => d.member.id).Nodup
  posted : ∀ {n g}, o.mailing? n = some g → ∀ d ∈ g.deliveries,
    (o.pool.board.find? d.member.id).isSome
  tended : ∀ {n g}, o.mailing? n = some g → ∀ d ∈ g.deliveries, d.phase.Tended o.pool d.member

/-! ### Between two mailings -/

theorem Sound.line_of_quiet (h : o.Sound) (hquiet : o.IsQuiet) (c : CourierId) :
    o.pool.line c = [] := by
  rw [List.eq_nil_iff_forall_not_mem]
  intro t ht
  obtain ⟨d, hd, -⟩ := h.lines.known c t ht
  obtain ⟨g, hg, -⟩ := Option.bind_eq_some_iff.1 hd
  rw [hquiet] at hg
  cases hg

theorem tidy_of_quiet (hsound : o.Sound) (honBoard : o.pool.OnBoard) (hquiet : o.IsQuiet) :
    o.Tidy := by
  have hnone : ∀ {n g}, o.mailing? n ≠ some g := by
    intro n g hg
    rw [hquiet] at hg
    cases hg
  exact ⟨hsound, honBoard, fun hg => absurd hg hnone, fun hg => absurd hg hnone,
    fun hg => absurd hg hnone, fun hg => absurd hg hnone⟩

/-! ### While a mailing is under way -/

theorem Tidy.begins (h : o.Tidy) (hquiet : o.IsQuiet) (n : Nat) {members : List Member}
    (hmembers : (members.map Member.id).Nodup) (payload : ByteArray) (wait : Bool) :
    (o.begins n members payload wait).Tidy := by
  have hcoherent := h.sound.coherent
  have hmailing : ∀ {n' g}, (o.begins n members payload wait).mailing? n' = some g →
      n' = n ∧ g.deliveries = (suspectsLast o.pool.board members).map (Delivery.to o.pool.board) := by
    intro n' g hg
    rw [begins_eq hcoherent] at hg
    by_cases hn : n' = n
    · subst hn
      rw [mailing?_put_self] at hg
      rw [← Option.some.inj hg]
      exact ⟨rfl, rfl⟩
    · rw [mailing?_put_of_ne _ _ _ hn, hquiet] at hg
      cases hg
  refine ⟨h.sound.begins (hquiet n) members payload wait,
    h.onBoard.uses hcoherent (uses_snapshot o.pool.board members),
    fun hg hg' => (hmailing hg).1.trans (hmailing hg').1.symm, fun hg => ?_, fun hg d hd => ?_,
    fun hg d hd => ?_⟩
  · rw [(hmailing hg).2, List.map_map]
    exact ((suspectsLast_perm _ members).map _).nodup_iff.2 hmembers
  · rw [(hmailing hg).2] at hd
    obtain ⟨m, hm, rfl⟩ := List.mem_map.1 hd
    exact isSome_find?_snapshot ((suspectsLast_perm _ members).mem_iff.1 hm) o.pool.board
  · rw [(hmailing hg).2] at hd
    obtain ⟨m, hm, rfl⟩ := List.mem_map.1 hd
    trivial

/-- Nobody stands in line for the courier of a member before the delivery to it has begun. -/
theorem Tidy.line_of_pending (h : o.Tidy) (hg : o.mailing? n = some g)
    (hd : d ∈ g.deliveries) (hphase : d.phase = .pending)
    (hc : o.pool.current.get? d.member.id = some c) : o.pool.line c = [] := by
  rw [List.eq_nil_iff_forall_not_mem]
  intro t ht
  obtain ⟨d', hdelivery, hstands⟩ := h.sound.lines.known c t ht
  obtain ⟨g', hg', hd'⟩ := Option.bind_eq_some_iff.1 hdelivery
  obtain rfl := h.alone hg hg'
  obtain rfl := Option.some.inj (hg.symm.trans hg')
  -- It is to the same member, and so it is the same delivery.
  obtain ⟨cell, hcell⟩ := (h.sound.fits t d' hdelivery).contact hstands
  obtain ⟨owner, hkept⟩ := h.sound.coherent
  obtain ⟨cell', hcell'⟩ := hkept.current _ c hc
  have hid : d'.member.id = d.member.id :=
    congrArg Contact.peer (Option.some.inj (hcell.symm.trans hcell'))
  obtain rfl := List.inj_on_of_nodup_map (h.distinct hg) (List.mem_of_getElem? hd') hd hid
  rw [hphase] at hstands
  exact hstands

theorem Tidy.goes (h : o.Tidy) (hg : o.mailing? n = some g) (hgoes : g.Goes o.pool place phase pool) :
    (o.withPhase g place phase pool).Tidy := by
  obtain rfl := h.sound.numbers n g hg
  have hcoherent := h.sound.coherent
  obtain ⟨d, hd, -, hturns⟩ := hgoes.turns
  have hmem := List.mem_of_getElem? hd
  have hfits := h.sound.fits _ d ((delivery?_eq hg place).trans hd)
  obtain ⟨hspares, hself⟩ := hturns.tended hcoherent (h.posted hg d hmem) (h.tended hg d hmem)
    fun hphase c hc => h.line_of_pending hg hmem hphase hc
  -- No other mailing is under way.
  have hmailing : ∀ {n' g'}, (o.withPhase g place phase pool).mailing? n' = some g' →
      n' = g.number ∧ g' = g.withPhase place phase := by
    intro n' g' hg'
    by_cases hn : n' = g.number
    · subst hn
      rw [withPhase, mailing?_put_self] at hg'
      exact ⟨rfl, (Option.some.inj hg').symm⟩
    · rw [withPhase, mailing?_put_of_ne _ _ _ hn] at hg'
      exact absurd (h.alone hg' hg) hn
  have hposted : ∀ d' ∈ g.deliveries, (pool.board.find? d'.member.id).isSome := by
    intro d' hd'
    obtain ⟨cell, hcell⟩ := Option.isSome_iff_exists.1 (h.posted hg d' hd')
    rw [HealthBoard.remembers_of_uses hgoes.uses _ cell hcell]
    rfl
  refine ⟨h.sound.goes hg hgoes, hturns.onBoard hcoherent hfits h.onBoard,
    fun hg' hg'' => (hmailing hg').1.trans (hmailing hg'').1.symm, fun hg' => ?_,
    fun hg' d' hd' => ?_, fun hg' d' hd' => ?_⟩
  · rw [(hmailing hg').2, ids_withPhase]
    exact h.distinct hg
  · rw [(hmailing hg').2] at hd'
    obtain rfl | ⟨hd', -⟩ := cases_of_mem_withPhase (h.distinct hg) hd hd'
    · exact hposted d hmem
    · exact hposted d' hd'
  · rw [(hmailing hg').2] at hd'
    obtain rfl | ⟨hd', hid⟩ := cases_of_mem_withPhase (h.distinct hg) hd hd'
    · exact hself
    · exact (h.tended hg d' hd').spares hcoherent hspares hid

theorem Tidy.reports (h : o.Tidy) (hg : o.mailing? n = some g) (hover : g.isOver = true) :
    (o.put n none (g.report o.pool).2).Tidy := by
  refine tidy_of_quiet (h.sound.reports hg hover)
    (h.onBoard.uses h.sound.coherent (uses_failures o.pool.board g.deliveries)) fun n' => ?_
  by_cases hn : n' = n
  · rw [hn, mailing?_put_self]
  · rw [mailing?_put_of_ne _ _ _ hn, Option.eq_none_iff_forall_ne_some]
    exact fun g' hg' => hn (h.alone hg' hg)

/-- Others look a peer up or mark it. -/
theorem Tidy.uses (h : o.Tidy) {board : HealthBoard}
    (huses : HealthBoard.Uses o.pool.board board) :
    Tidy { o with pool := { o.pool with board } } := by
  have hworks : Works o { o with pool := { o.pool with board } } := by
    cases huses with
    | looksUp id => exact .looksUp o id
    | marks cell next => exact .marks o cell next
  refine ⟨hworks.sound h.sound, h.onBoard.uses h.sound.coherent (.single huses), h.alone,
    h.distinct, fun hg d hd => ?_, h.tended⟩
  obtain ⟨cell, hcell⟩ := Option.isSome_iff_exists.1 (h.posted hg d hd)
  have hafter := HealthBoard.remembers_of_uses (.single huses) _ cell hcell
  exact Option.isSome_iff_exists.2 ⟨cell, hafter⟩

/-! ### At any time -/

theorem Does.tidy (hdoes : Does o o') (h : o.Tidy) : o'.Tidy := by
  have hcoherent := h.sound.coherent
  cases hdoes with
  | adds m hquiet =>
    exact tidy_of_quiet ((Works.adds o m).sound h.sound) (h.onBoard.courierFor hcoherent m) hquiet
  | removes id hquiet =>
    exact tidy_of_quiet ((Works.removes o id).sound h.sound) (h.onBoard.remove hcoherent id).1 hquiet
  | forgets id hquiet =>
    have hremoved := (Works.removes o id).sound h.sound
    exact tidy_of_quiet ((Works.forgets _ id).sound hremoved) (h.onBoard.remove hcoherent id).2 hquiet
  | sweeps now hquiet =>
    exact tidy_of_quiet ((Works.sweeps o now).sound h.sound) (h.onBoard.sweep hcoherent now) hquiet
  | begins n payload wait hquiet hmembers => exact h.begins hquiet n hmembers payload wait
  | goes hg hgoes => exact h.goes hg hgoes
  | reports hg hover => exact h.reports hg hover
  | looksUp id => exact h.uses (.looksUp id)
  | marks cell next => exact h.uses (.marks cell next)

theorem OneByOne.tidy (h : o.OneByOne) : o.Tidy := by
  obtain ⟨settings, fanOut, self, hdoes⟩ := h
  induction hdoes with
  | refl => exact tidy_of_quiet (sound_initial settings fanOut self) nofun fun _ => rfl
  | tail _ hstep ih => exact hstep.tidy ih

/-- A mailing can be brought to its end. -/
theorem Tidy.exists_over (h : o.Tidy) (hg : o.mailing? n = some g) :
    ∃ o' g', ReflTransGen Does o o' ∧ o'.mailing? n = some g' ∧ g'.isOver = true ∧
      g'.atStart = g.atStart := by
  induction g using (InvImage.wf Mailing.left wellFounded_follows.cutExpand).induction
    generalizing o with
  | _ g ih =>
    cases hover : g.isOver with
    | true => exact ⟨o, g, .refl, hg, hover, rfl⟩
    | false =>
      obtain ⟨place, hgo⟩ : ∃ place, g.CanGo o.pool place := by
        obtain hgo | ⟨-, -, -, t, g', -, -, -, hg', hgo⟩ := h.sound.proceeds hg hover
        · exact hgo
        · obtain rfl := h.alone hg hg'
          obtain rfl := Option.some.inj (hg.symm.trans hg')
          exact ⟨t.delivery, hgo⟩
      obtain ⟨phase, pool, hgoes⟩ := hgo.exists_goes
      obtain rfl := h.sound.numbers n g hg
      obtain ⟨o', g', hruns, hg', hover', hstart⟩ := ih _ (cutExpand_left hgoes)
        (h.goes hg hgoes) (mailing?_put_self ..)
      exact ⟨o', g', .head (.goes hg hgoes) hruns, hg', hover',
        hstart.trans (atStart_withPhase g place phase)⟩

end Office

/-! ## What holds of the pool -/

theorem MemberMap.nodup_keys {α : Type} (m : MemberMap α) : m.keys.Nodup := by
  rw [keys, List.nodup_iff_pairwise_ne, List.pairwise_map]
  refine m.sorted.imp fun {e e'} hlt heq => ?_
  rw [heq] at hlt
  exact MemberId.lt_irrefl _ hlt

namespace CourierPool

/-- For each peer there is one courier at most, which goes to that peer and reports to the very cell that
is on the board for it. -/
structure Consistent (p : CourierPool) : Prop where
  once : p.current.keys.Nodup
  courier : ∀ id c, p.current.get? id = some c → ∃ d, p.desk? c = some d ∧
    d.courier.destination.id = id ∧ p.board.find? id = some d.courier.cell

/-- Taking out the courier of a peer leaves all others and the board alone. -/
structure Removes (p : CourierPool) (id : MemberId) (r : Bool × CourierPool) : Prop where
  found : r.1 = (p.current.get? id).isSome
  gone : r.2.current.get? id = none
  others : Spares id p r.2
  board : r.2.board = p.board

/-- Whether a courier holds a connection that has reached a limit. -/
def isSpent (p : CourierPool) (now : Nat) (c : CourierId) : Bool :=
  (p.desk? c).any fun d => d.courier.isSpent now

/-- Exactly the couriers that hold a connection which has reached a limit leave the pool and let go of
it. Everything else stays as it is. -/
structure Recycles (p : CourierPool) (now : Nat) (r : Nat × CourierPool) : Prop where
  count : r.1 = p.current.values.countP (p.isSpent now)
  current : ∀ id c,
    r.2.current.get? id = some c ↔ p.current.get? id = some c ∧ p.isSpent now c = false
  spent : ∀ c ∈ p.current.values, p.isSpent now c = true →
    r.2.desk? c = (p.desk? c).map fun d => { d with courier := d.courier.dropped }
  others : ∀ c, (c ∈ p.current.values → p.isSpent now c = false) → r.2.desk? c = p.desk? c
  board : r.2.board = p.board

variable {p : CourierPool}

theorem OnBoard.consistent (h : p.OnBoard) (hp : p.Coherent) : p.Consistent where
  once := p.current.nodup_keys
  courier id c hc := by
    obtain ⟨d, hd, hid⟩ := hp.exists_desk hc
    exact ⟨d, hd, hid, h id c _ hc (contact?_of_desk hd)⟩

theorem recycles_sweep (hp : p.Coherent) (hfree : ∀ c, p.line c = []) (now : Nat) :
    p.Recycles now (p.sweep now) := by
  -- Nobody stands in line anywhere.
  have hdue : p.isDue now = p.isSpent now := by
    funext c
    rw [isDue, isSpent]
    cases hd : p.desk? c with
    | none => rfl
    | some d =>
      have hline := hfree c
      rw [line_of_desk hd] at hline
      rw [Option.any_some, Option.any_some, hline]
      rfl
  obtain ⟨hcount, hcurrent, hdesks⟩ := sweep_spec hp now
  rw [hdue] at hcount hcurrent hdesks
  refine ⟨hcount, hcurrent, fun c hc hspent => ?_, fun c hc => ?_, board_sweep p now⟩
  · rw [hdesks, if_pos ⟨hc, hspent⟩]
  · rw [hdesks, if_neg]
    rintro ⟨hmem, hspent⟩
    rw [hc hmem] at hspent
    cases hspent

end CourierPool

namespace Office

open Mailing
open Relation (ReflTransGen)

/-- **Theorem.** An office takes up one thing after the other, and takes a peer off the board only with
its courier. Then at any time, also in the middle of a mailing, the courier of a peer goes to that peer
and reports to the very cell that is on the board for it. When a delivery is over, and still when its
mailing has been reported, the courier of the member goes to the address of the member, as it does when
the member has been added. Removing a peer concerns nobody else. A sweep takes exactly those couriers
out of the pool that hold a connection which has reached a limit, says how many, and leaves all others
as they were. -/
theorem pool_and_board_stay_consistent {o : Office} (h : o.OneByOne) :
    o.pool.Consistent ∧
    (∀ n g, o.mailing? n = some g → ∀ d ∈ g.deliveries, d.isOver = true →
      o.pool.Reaches d.member ∧ (g.report o.pool).2.Reaches d.member) ∧
    (o.IsQuiet →
      (∀ m, (o.pool.add m).Reaches m) ∧
      (∀ id, o.pool.Removes id (o.pool.remove id)) ∧
      ∀ now, o.pool.Recycles now (o.pool.sweep now)) := by
  have htidy := h.tidy
  have hcoherent := htidy.sound.coherent
  refine ⟨htidy.onBoard.consistent hcoherent, fun n g hg d hd hover => ?_, fun hquiet => ?_⟩
  · have hreaches : o.pool.Reaches d.member := by
      have htended := htidy.tended hg d hd
      rw [Delivery.isOver] at hover
      split at hover
      next hphase =>
        rw [hphase] at htended
        exact htended
      next => cases hover
    exact ⟨hreaches, hreaches⟩
  · refine ⟨fun m => CourierPool.reaches_add fun c _ => htidy.sound.line_of_quiet hquiet c,
      fun id => ?_, CourierPool.recycles_sweep hcoherent (htidy.sound.line_of_quiet hquiet)⟩
    obtain ⟨hfound, hgone, hothers⟩ := CourierPool.remove_spec hcoherent id
    exact ⟨hfound, hgone, hothers, CourierPool.board_remove o.pool id⟩

/-- A peer is added, moves, and a message is sent to where it is now. -/
theorem pool_and_board_stay_consistent_of_moved_peer :
    let old : Member := { id := ⟨2⟩, host := "old", port := 7000 }
    let moved : Member := { id := ⟨2⟩, host := "new", port := 7000 }
    let start : Office := ⟨{ settings := {}, self := .of ⟨1⟩ "self" 7000 }, fun _ => none⟩
    let o : Office := { start with pool := start.pool.add old }
    (o.pool.add moved).Reaches moved ∧ o.pool.Recycles 0 (o.pool.sweep 0) ∧
    ∃ (o' : Office) (g : Mailing) (d : Delivery), o'.mailing? 0 = some g ∧ d ∈ g.deliveries ∧
      d.member = moved ∧ o'.pool.Consistent ∧ o'.pool.Reaches d.member := by
  intro old moved start o
  have hadded : o.OneByOne := ⟨_, _, _, .single (.adds old fun _ => rfl)⟩
  have hquiet : o.IsQuiet := fun _ => rfl
  obtain ⟨-, -, hrest⟩ := pool_and_board_stay_consistent hadded
  obtain ⟨hadds, -, hsweeps⟩ := hrest hquiet
  -- The mailing begins, and it can be brought to its end.
  have hbegins : Does o (o.begins 0 [moved] "hello".toUTF8 false) :=
    .begins 0 _ false hquiet (by decide)
  obtain ⟨settings, fanOut, self, hruns⟩ := hadded
  have hbegun : OneByOne (o.begins 0 [moved] "hello".toUTF8 false) :=
    ⟨settings, fanOut, self, hruns.tail hbegins⟩
  obtain ⟨o', g, hmore, hg, hover, hstart⟩ := hbegun.tidy.exists_over (mailing?_put_self ..)
  have hends : o'.OneByOne := ⟨settings, fanOut, self, (hruns.tail hbegins).trans hmore⟩
  obtain ⟨hconsistent, hdelivered, -⟩ := pool_and_board_stay_consistent hends
  have hsame : ∀ g : Mailing,
      g.atStart.deliveries.map Delivery.member = g.deliveries.map Delivery.member := fun g => by
    rw [atStart, List.map_map]
    rfl
  have hmembers : g.deliveries.map Delivery.member = [moved] := by
    rw [← hsame, hstart, hsame]
    decide +kernel
  obtain ⟨d, hd, hmember⟩ := List.mem_map.1 (hmembers ▸ List.mem_singleton_self moved)
  have hdone := List.all_eq_true.1 hover d hd
  exact ⟨hadds moved, hsweeps 0, o', g, d, hg, hd, hmember, hconsistent,
    (hdelivered 0 g hg d hd hdone).1⟩

end Office

end PeerCluster
