import PeerCluster.HealthBoard
import Mathlib.Logic.Function.Basic

/-!
# Every cell is for one id

**Owners** (`Kept`). Every cell on the board is for the id that it is on the board for. A look-up that
makes a missing cell makes it for the id that was looked up (`Found.kept`), and taking an id off the
board gives its cell to nobody else. So what is marked for one id never shows in the health of another
(`Kept.healthOf_mark`).

**Health** (`healthOf`). Looking an id up changes nobody's health, also if it makes a cell
(`Found.healthOf`).
-/

namespace PeerCluster

namespace HealthBoard

variable {b : HealthBoard} {owner : HealthCell → MemberId}

/-- The health that a look-up of an id finds. An id that is not on the board is found ready. -/
def healthOf (b : HealthBoard) (id : MemberId) : Health :=
  (b.health? id).getD .ready

/-- Every cell on the board has been made and is for the id that it is on the board for. -/
structure Kept (owner : HealthCell → MemberId) (b : HealthBoard) : Prop where
  made : ∀ id cell, b.find? id = some cell → cell.index < b.cells.size
  owned : ∀ id cell, b.find? id = some cell → owner cell = id

theorem healthOf_of_find {id : MemberId} {cell : HealthCell} (h : b.find? id = some cell) :
    b.healthOf id = b.read cell := by
  rw [healthOf, health?, h]
  rfl

theorem healthOf_of_not_found {id : MemberId} (h : b.find? id = none) :
    b.healthOf id = .ready := by
  rw [healthOf, health?, h]
  rfl

/-- What a look-up that makes the missing cell finds. -/
structure Found (b : HealthBoard) (id : MemberId) (cell : HealthCell) (b' : HealthBoard) : Prop where
  find : b'.find? id = some cell
  others : ∀ id' ≠ id, b'.find? id' = b.find? id'
  grows : b.cells.size ≤ b'.cells.size
  read : ∀ cell, cell.index < b.cells.size → b'.read cell = b.read cell
  known : b.find? id = some cell ∨
    b.find? id = none ∧ cell = ⟨b.cells.size⟩ ∧ cell.index < b'.cells.size ∧ b'.read cell = .ready

theorem found_findOrPost (b : HealthBoard) (id : MemberId) :
    b.Found id (b.findOrPost id).1 (b.findOrPost id).2 := by
  rw [findOrPost]
  cases hfind : b.find? id with
  | some cell => exact ⟨hfind, fun _ _ => rfl, Nat.le_refl _, fun _ _ => rfl, .inl hfind⟩
  | none =>
    refine ⟨?_, fun id' hne => ?_, ?_, fun cell hcell => ?_, .inr ⟨hfind, rfl, ?_, ?_⟩⟩
    · exact (b.posted.get?_insert id id _).trans (if_pos rfl)
    · exact (b.posted.get?_insert id id' _).trans (if_neg hne)
    · simp [fresh]
    · have hne : cell.index ≠ b.cells.size := Nat.ne_of_lt hcell
      simp [read, fresh, Array.getElem?_push, hne]
    · simp [fresh]
    · simp [read, fresh]

theorem find?_findOrPost_of_find {id : MemberId} {cell : HealthCell} (h : b.find? id = some cell)
    (id' : MemberId) : (b.findOrPost id').2.find? id = some cell := by
  by_cases hid : id = id'
  · subst hid
    rw [findOrPost, h]
    exact h
  · rw [(b.found_findOrPost id').others id hid]
    exact h

theorem Found.healthOf {id : MemberId} {cell : HealthCell} {b' : HealthBoard}
    (h : b.Found id cell b') (hkept : b.Kept owner) (id' : MemberId) :
    b'.healthOf id' = b.healthOf id' := by
  by_cases hid : id' = id
  · subst hid
    rw [healthOf_of_find h.find]
    rcases h.known with hfind | ⟨hnone, -, -, hready⟩
    · rw [healthOf_of_find hfind, h.read cell (hkept.made _ _ hfind)]
    · rw [healthOf_of_not_found hnone, hready]
  · cases hfind : b.find? id' with
    | none => rw [healthOf_of_not_found hfind, healthOf_of_not_found ((h.others _ hid).trans hfind)]
    | some cell' =>
      rw [healthOf_of_find hfind, healthOf_of_find ((h.others _ hid).trans hfind),
        h.read cell' (hkept.made _ _ hfind)]

theorem Found.made {id : MemberId} {cell : HealthCell} {b' : HealthBoard}
    (h : b.Found id cell b') (hkept : b.Kept owner) : cell.index < b'.cells.size := by
  rcases h.known with hfind | ⟨-, -, hlt, -⟩
  · exact Nat.lt_of_lt_of_le (hkept.made _ _ hfind) h.grows
  · exact hlt

/-- The missing cell is made for the id that was looked up, and the others stay for whom they are. -/
theorem Found.kept {id : MemberId} {cell : HealthCell} {b' : HealthBoard}
    (h : b.Found id cell b') (hkept : b.Kept owner) :
    ∃ owner', b'.Kept owner' ∧ owner' cell = id ∧
      ∀ cell, cell.index < b.cells.size → owner' cell = owner cell := by
  have hmade : ∀ id' cell', b'.find? id' = some cell' → cell'.index < b'.cells.size := by
    intro id' cell' hfind'
    by_cases hid : id' = id
    · subst hid
      rw [h.find] at hfind'
      exact Option.some.inj hfind' ▸ h.made hkept
    · rw [h.others _ hid] at hfind'
      exact Nat.lt_of_lt_of_le (hkept.made _ _ hfind') h.grows
  rcases h.known with hfind | ⟨hnone, rfl, -, -⟩
  · refine ⟨owner, ⟨hmade, fun id' cell' hfind' => ?_⟩, hkept.owned _ _ hfind, fun _ _ => rfl⟩
    by_cases hid : id' = id
    · subst hid
      rw [h.find] at hfind'
      exact Option.some.inj hfind' ▸ hkept.owned _ _ hfind
    · rw [h.others _ hid] at hfind'
      exact hkept.owned _ _ hfind'
  · have hold : ∀ cell : HealthCell, cell.index < b.cells.size → cell ≠ ⟨b.cells.size⟩ := by
      intro cell hlt heq
      subst heq
      exact Nat.lt_irrefl _ hlt
    refine ⟨Function.update owner ⟨b.cells.size⟩ id, ⟨hmade, fun id' cell' hfind' => ?_⟩,
      Function.update_self .., fun cell hlt => Function.update_of_ne (hold cell hlt) ..⟩
    by_cases hid : id' = id
    · subst hid
      rw [h.find] at hfind'
      rw [← Option.some.inj hfind', Function.update_self]
    · rw [h.others _ hid] at hfind'
      rw [Function.update_of_ne (hold _ (hkept.made _ _ hfind'))]
      exact hkept.owned _ _ hfind'

@[simp] theorem find?_mark (b : HealthBoard) (cell : HealthCell) (next : Health) (id : MemberId) :
    (b.mark cell next).find? id = b.find? id :=
  rfl

theorem size_cells_mark (b : HealthBoard) (cell : HealthCell) (next : Health) :
    (b.mark cell next).cells.size = b.cells.size :=
  Array.size_modify ..

theorem read_mark_self {cell : HealthCell} (h : cell.index < b.cells.size) (next : Health) :
    (b.mark cell next).read cell = (b.read cell).mark next := by
  simp [read, mark, Array.getElem_modify, h]

theorem read_mark_of_ne {cell cell' : HealthCell} (h : cell' ≠ cell) (next : Health) :
    (b.mark cell next).read cell' = b.read cell' := by
  have hindex : cell.index ≠ cell'.index := fun heq => h (congrArg HealthCell.mk heq.symm)
  simp [read, mark, Array.getElem?_modify, hindex]

theorem Kept.mark (h : b.Kept owner) (cell : HealthCell) (next : Health) :
    (b.mark cell next).Kept owner :=
  ⟨fun id cell' hfind => (b.size_cells_mark cell next).symm ▸ h.made id cell' hfind, h.owned⟩

/-- What is marked for one id does not show in the health of another. -/
theorem Kept.healthOf_mark (h : b.Kept owner) {cell : HealthCell} {id : MemberId}
    (hid : id ≠ owner cell) (next : Health) : (b.mark cell next).healthOf id = b.healthOf id := by
  cases hfind : b.find? id with
  | none => rw [healthOf_of_not_found hfind, healthOf_of_not_found ((find?_mark ..).trans hfind)]
  | some cell' =>
    have hne : cell' ≠ cell := fun heq => hid (heq ▸ h.owned _ _ hfind).symm
    rw [healthOf_of_find hfind, healthOf_of_find ((find?_mark ..).trans hfind),
      read_mark_of_ne hne]

theorem find?_take (b : HealthBoard) (id id' : MemberId) :
    (b.take id).2.find? id' = if id' = id then none else b.find? id' :=
  b.posted.get?_erase id id'

theorem Kept.take (h : b.Kept owner) (id : MemberId) : (b.take id).2.Kept owner := by
  have hfind : ∀ id' cell, (b.take id).2.find? id' = some cell → b.find? id' = some cell := by
    intro id' cell hsome
    rw [find?_take] at hsome
    split at hsome
    · cases hsome
    · exact hsome
  exact ⟨fun id' cell hsome => h.made id' cell (hfind id' cell hsome),
    fun id' cell hsome => h.owned id' cell (hfind id' cell hsome)⟩

end HealthBoard

end PeerCluster
