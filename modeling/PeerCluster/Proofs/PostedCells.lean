import PeerCluster.Proofs.Acquaintances
import PeerCluster.Proofs.Offices

/-!
# A pool that forgets nobody

**Uses of the board** (`Uses`). Whatever an office does looks peers up and marks them, and takes a peer
off the board only to forget it (`Works.uses`).

**Nothing out of sight** (`IsComplete`). As long as nobody is forgotten, every cell that was ever made is
on the board, so each peer has one cell only, and every courier reports to the one that a look-up of its
peer finds (`find?_of_contact`). What a courier marks is then what everybody sees.
-/

namespace PeerCluster

open Relation (ReflTransGen)

namespace HealthBoard

variable {b b' : HealthBoard} {owner : HealthCell → MemberId} {id : MemberId} {cell : HealthCell}

/-- Every cell that was ever made is on the board. -/
def IsComplete (b : HealthBoard) : Prop :=
  ∀ cell : HealthCell, cell.index < b.cells.size → ∃ id, b.find? id = some cell

/-- Nobody on the board is forgotten, or gets another cell. -/
def Remembers (b b' : HealthBoard) : Prop :=
  ∀ id cell, b.find? id = some cell → b'.find? id = some cell

theorem IsComplete.of_remembers (h : b.IsComplete) (hremembers : b.Remembers b')
    (hsize : b'.cells.size = b.cells.size) : b'.IsComplete := by
  intro cell hcell
  obtain ⟨id, hid⟩ := h cell (hsize ▸ hcell)
  exact ⟨id, hremembers id cell hid⟩

/-- A peer is looked up or marked. -/
inductive Uses (b : HealthBoard) : HealthBoard → Prop
  | looksUp (id : MemberId) : Uses b (b.findOrPost id).2
  | marks (cell : HealthCell) (next : Health) : Uses b (b.mark cell next)

theorem remembers_findOrPost (b : HealthBoard) (id : MemberId) :
    b.Remembers (b.findOrPost id).2 :=
  fun _ _ hcell => find?_findOrPost_of_find hcell id

/-- A look-up makes no cell but the one that it puts on the board. -/
theorem size_findOrPost (b : HealthBoard) (id : MemberId) :
    (b.findOrPost id).2.cells.size = b.cells.size ∨
      (b.findOrPost id).2.cells.size = b.cells.size + 1 ∧
        (b.findOrPost id).2.find? id = some ⟨b.cells.size⟩ := by
  cases hfind : b.find? id with
  | some cell =>
    rw [findOrPost, hfind]
    exact .inl rfl
  | none =>
    have hposted := (b.found_findOrPost id).find
    rw [findOrPost, hfind] at hposted ⊢
    exact .inr ⟨Array.size_push .., hposted⟩

theorem IsComplete.findOrPost (h : b.IsComplete) (id : MemberId) :
    (b.findOrPost id).2.IsComplete := by
  rcases b.size_findOrPost id with hsame | ⟨hmore, hposted⟩
  · exact h.of_remembers (b.remembers_findOrPost id) hsame
  · intro cell hcell
    rcases Nat.lt_succ_iff_lt_or_eq.1 (hmore ▸ hcell) with hold | hnew
    · obtain ⟨id', hid'⟩ := h cell hold
      exact ⟨id', b.remembers_findOrPost id id' cell hid'⟩
    · obtain rfl : cell = ⟨b.cells.size⟩ := congrArg HealthCell.mk hnew
      exact ⟨id, hposted⟩

theorem Uses.complete (huses : Uses b b') (h : b.IsComplete) : b'.IsComplete := by
  cases huses with
  | looksUp id => exact h.findOrPost id
  | marks cell next => exact h.of_remembers (fun _ _ hid => hid) (size_cells_mark ..)

theorem complete_of_uses (huses : ReflTransGen Uses b b') (h : b.IsComplete) : b'.IsComplete := by
  induction huses with
  | refl => exact h
  | tail _ huse ih => exact huse.complete ih

theorem remembers_of_uses (huses : ReflTransGen Uses b b') : b.Remembers b' := by
  induction huses with
  | refl => exact fun _ _ hid => hid
  | tail _ huse ih =>
    intro id cell hid
    cases huse with
    | looksUp id' => exact remembers_findOrPost _ id' id cell (ih id cell hid)
    | marks => exact ih id cell hid

/-- What is marked in the cell of an id is the health of that id. -/
theorem Kept.healthOf_mark_self (h : b.Kept owner) (hfind : b.find? id = some cell)
    (next : Health) : (b.mark cell next).healthOf id = (b.healthOf id).mark next := by
  rw [healthOf_of_find hfind, healthOf_of_find ((find?_mark ..).trans hfind),
    read_mark_self (h.made id cell hfind)]

end HealthBoard

namespace CourierPool

open HealthBoard (Uses)

variable {p : CourierPool} {c : CourierId} {x : Contact}

/-- Where no cell is out of sight, a courier reports to the one that is found for its peer. -/
theorem find?_of_contact (h : p.Coherent) (hcomplete : p.board.IsComplete)
    (hx : p.contact? c = some x) : p.board.find? x.peer = some x.cell := by
  obtain ⟨owner, hkept⟩ := h
  obtain ⟨hmade, howner⟩ := hkept.hired c x hx
  obtain ⟨id, hid⟩ := hcomplete x.cell hmade
  rw [← howner, hkept.board.owned id x.cell hid]
  exact hid

/-! ## What a pool does with its board -/

theorem uses_hire (p : CourierPool) (m : Member) : ReflTransGen Uses p.board (p.hire m).2.board :=
  .single (.looksUp m.id)

theorem uses_courierFor (p : CourierPool) (m : Member) :
    ReflTransGen Uses p.board (p.courierFor m).2.board := by
  rw [courierFor]
  split
  · split
    · exact .refl
    · rename_i c _ _
      have hhire := uses_hire (p.retire c) m
      rwa [(posted_retire p c).1] at hhire
  · exact uses_hire p m

theorem board_remove (p : CourierPool) (id : MemberId) : (p.remove id).2.board = p.board := by
  rw [remove]
  split
  · rfl
  · rename_i c _
    show (if p.isFree c then p.letGo c else p).board = p.board
    split
    · exact (posted_letGo p c).1
    · rfl

theorem board_sweepOne (now : Nat) (p : CourierPool) (id : MemberId) (c : CourierId) :
    (sweepOne now p id c).2.board = p.board := by
  rw [sweepOne]
  split
  · rfl
  · split
    · rfl
    · split
      · rfl
      · dsimp only
        split <;> exact (posted_letGo p c).1

theorem board_sweep (p : CourierPool) (now : Nat) : (p.sweep now).2.board = p.board := by
  rw [sweep]
  generalize p.current.entries = entries
  suffices h : ∀ s : Nat × CourierPool, s.2.board = p.board →
      (entries.foldl (fun s e =>
        (if (sweepOne now s.2 e.1 e.2).1 then s.1 + 1 else s.1, (sweepOne now s.2 e.1 e.2).2))
        s).2.board = p.board from h (0, p) rfl
  intro s hs
  induction entries generalizing s with
  | nil => exact hs
  | cons e rest ih => exact ih _ ((board_sweepOne now s.2 e.1 e.2).trans hs)

theorem board_leave (p : CourierPool) (c : CourierId) (courier : Courier) :
    (p.leave c courier).board = p.board := by
  rw [leave]
  split
  · rfl
  · exact (posted_retire _ c).1

end CourierPool

namespace Mailing

open HealthBoard (Uses)

theorem uses_snapshot (b : HealthBoard) (members : List Member) :
    ReflTransGen Uses b (snapshot b members).2 := by
  induction members generalizing b with
  | nil => exact .refl
  | cons m rest ih => exact .head (.looksUp m.id) (ih (b.findOrPost m.id).2)

theorem uses_blame (b : HealthBoard) (d : Delivery) : ReflTransGen Uses b (blame b d) := by
  rw [blame]
  dsimp only
  split
  · exact .tail (.single (.looksUp d.member.id)) (.marks _ .failing)
  · exact .single (.looksUp d.member.id)

theorem uses_failures (b : HealthBoard) (ds : List Delivery) :
    ReflTransGen Uses b (failures b ds).2 := by
  induction ds generalizing b with
  | nil => exact .refl
  | cons d rest ih =>
    cases hcause : d.cause? with
    | none =>
      rw [failures_cons_of_none b rest hcause]
      exact ih b
    | some cause =>
      rw [failures_cons_of_some b rest hcause]
      exact (uses_blame b d).trans (ih (blame b d))

theorem Goes.uses {g : Mailing} {p pool : CourierPool} {place : Nat} {phase : Phase}
    (h : g.Goes p place phase pool) : ReflTransGen Uses p.board pool.board := by
  obtain ⟨d, -, -, hturns⟩ := h.turns
  generalize d.phase = before at hturns
  cases hturns with
  | assigns => exact CourierPool.uses_courierFor p d.member
  | joins | calls | asks => exact .refl
  | marks health => exact .single (.marks _ health)
  | ends => rw [CourierPool.board_leave]

end Mailing

/-! ## An office that forgets nobody -/

namespace Office

open HealthBoard (Uses)

variable {o o' : Office}

/-- An office looks peers up and marks them, or forgets one. -/
theorem Works.uses (h : Works o o') :
    ReflTransGen Uses o.pool.board o'.pool.board ∨
      ∃ id, o'.pool.board = (o.pool.board.take id).2 := by
  cases h with
  | adds m => exact .inl (CourierPool.uses_courierFor o.pool m)
  | removes id => exact .inl (by rw [CourierPool.board_remove])
  | sweeps now => exact .inl (by rw [CourierPool.board_sweep])
  | closes => exact .inl .refl
  | looksUp id => exact .inl (.single (.looksUp id))
  | forgets id => exact .inr ⟨id, rfl⟩
  | marks cell next => exact .inl (.single (.marks cell next))
  | begins n members => exact .inl (Mailing.uses_snapshot _ members)
  | goes _ hgoes => exact .inl hgoes.uses
  | @reports n g => exact .inl (Mailing.uses_failures _ g.deliveries)

theorem Works.complete (h : Works o o') (hremembers : o.pool.board.Remembers o'.pool.board)
    (hcomplete : o.pool.board.IsComplete) : o'.pool.board.IsComplete := by
  rcases h.uses with huses | ⟨id, htake⟩
  · exact HealthBoard.complete_of_uses huses hcomplete
  · exact hcomplete.of_remembers hremembers (congrArg (fun b => b.cells.size) htake)

/-- The states that an office gets into which begins without couriers and forgets nobody. -/
def Remembered (o : Office) : Prop :=
  ∃ settings fanOut self, ReflTransGen
    (fun o o' => Works o o' ∧ o.pool.board.Remembers o'.pool.board)
    ⟨{ settings, fanOut, self }, fun _ => none⟩ o

theorem Remembered.reached (h : o.Remembered) : o.Reached := by
  obtain ⟨settings, fanOut, self, hruns⟩ := h
  exact ⟨settings, fanOut, self, ReflTransGen.mono (fun _ _ hstep => hstep.1) _ _ hruns⟩

theorem Remembered.works (h : o.Remembered) (hworks : Works o o')
    (huses : ReflTransGen Uses o.pool.board o'.pool.board) : o'.Remembered := by
  obtain ⟨settings, fanOut, self, hruns⟩ := h
  exact ⟨settings, fanOut, self, hruns.tail ⟨hworks, HealthBoard.remembers_of_uses huses⟩⟩

theorem Remembered.begins {n : Nat} (h : o.Remembered) (hnew : o.mailing? n = none)
    (members : List Member) (payload : ByteArray) (wait : Bool) :
    (o.begins n members payload wait).Remembered :=
  h.works (.begins o n members payload wait hnew) (Mailing.uses_snapshot _ members)

theorem Remembered.goes {n place : Nat} {g : Mailing} {phase : Mailing.Phase} {pool : CourierPool}
    (h : o.Remembered) (hg : o.mailing? n = some g) (hgoes : g.Goes o.pool place phase pool) :
    (o.withPhase g place phase pool).Remembered :=
  h.works (.goes hg hgoes) hgoes.uses

theorem Remembered.reports {n : Nat} {g : Mailing} (h : o.Remembered)
    (hg : o.mailing? n = some g) (hover : g.isOver = true) :
    (o.put n none (g.report o.pool).2).Remembered :=
  h.works (.reports hg hover) (Mailing.uses_failures _ g.deliveries)

theorem Remembered.complete (h : o.Remembered) : o.pool.board.IsComplete := by
  obtain ⟨settings, fanOut, self, hruns⟩ := h
  induction hruns with
  | refl => exact fun cell hcell => absurd hcell (Nat.not_lt_zero _)
  | tail _ hstep ih => exact hstep.1.complete hstep.2 ih

end Office

end PeerCluster
