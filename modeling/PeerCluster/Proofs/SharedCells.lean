import Mathlib.Data.List.Induction
import PeerCluster.HealthBoard.Uses
import PeerCluster.Proofs.HealthCells

/-!
# What a board owes to its history

A board can be used by many holders at once, and what they hold is told by what has been done with the
board alone.

**Theorem (`cells_follow_history`).** Two holders share a cell exactly if they found it for one id that
nobody took off the board in between. A cell holds what it was marked with, through whichever of its
holders, since it was last marked ready. Marking it changes no other cell, so one that has been taken
off the board has nothing to do with those that come after it.

**Labels** (`Labelled`). Every cell is made for an id, and in an episode of it: after the id has been
taken off the board so many times. No two cells have the same label, and the cell on the board is the
one with the label of the moment. So holders share a cell if their labels agree, and two labels of one
id agree if it was not taken in between (`takes_eq_iff`).

**Marks** (`MarkedThrough`). A mark shows until the next mark that makes the cell ready, and a suspicion
only if there is no failure beside it (`Marked`).
-/

namespace PeerCluster.HealthBoard

variable {uses : List Use} {u : Use} {id : MemberId}

theorem snd_findOrPost_of_find {b : HealthBoard} {cell : HealthCell} (h : b.find? id = some cell) :
    (b.findOrPost id).2 = b := by
  rw [findOrPost, h]

theorem size_findOrPost_of_not_found {b : HealthBoard} (h : b.find? id = none) :
    (b.findOrPost id).2.cells.size = b.cells.size + 1 := by
  simp [findOrPost, h, fresh]

theorem Found.find?_eq {b b' : HealthBoard} {cell : HealthCell} (h : b.Found id cell b')
    (id' : MemberId) : b'.find? id' = if id' = id then some cell else b.find? id' := by
  split
  next heq => rw [heq, h.find]
  next hne => exact h.others id' hne

/-! ## What the history says -/

/-- Nobody takes an id off the board from the use at one place on and before the use at another. -/
def Stays (uses : List Use) (id : MemberId) (i j : Nat) : Prop :=
  ∀ k, i ≤ k → k < j → uses[k]? ≠ some (.take id)

/-- An id is on the board before the use at a place. -/
def Posted (uses : List Use) (id : MemberId) (i : Nat) : Prop :=
  ∃ k < i, uses[k]? = some (.findOrPost id) ∧ Stays uses id k i

/-- The use at a place gives the cell of an id. -/
def Gives (uses : List Use) (id : MemberId) (i : Nat) : Prop :=
  uses[i]? = some (.findOrPost id) ∨
    (uses[i]? = some (.find id) ∨ uses[i]? = some (.take id)) ∧ Posted uses id i

/-- Two uses give the cell of one id, which nobody takes off the board in between. -/
def Shares (uses : List Use) (i j : Nat) : Prop :=
  ∃ id, Gives uses id i ∧ Gives uses id j ∧ Stays uses id (min i j) (max i j)

/-- A mark has been made through one of some holders, and since then none of them has marked anything
ready. -/
def MarkedThrough (uses : List Use) (mine : Nat → Prop) (next : Health) : Prop :=
  ∃ t h, h < t ∧ uses[t]? = some (.mark h next) ∧ mine h ∧
    ∀ t' h', t < t' → h' < t' → uses[t']? = some (.mark h' .ready) → ¬ mine h'

/-! ## Episodes -/

/-- How often an id has been taken off the board before the use at a place. -/
def takes (uses : List Use) (id : MemberId) (i : Nat) : Nat :=
  (uses.take i).count (.take id)

theorem takes_snoc_of_le {i : Nat} (h : i ≤ uses.length) :
    takes (uses ++ [u]) id i = takes uses id i := by
  rw [takes, List.take_append_of_le_length h, takes]

theorem takes_snoc (uses : List Use) (u : Use) (id : MemberId) :
    takes (uses ++ [u]) id (uses ++ [u]).length =
      takes uses id uses.length + if u = .take id then 1 else 0 := by
  rw [takes, takes, List.take_length, List.take_length, List.count_append, List.count_singleton]
  simp only [beq_iff_eq]

theorem takes_snoc_of_ne (uses : List Use) (h : u ≠ .take id) :
    takes (uses ++ [u]) id (uses ++ [u]).length = takes uses id uses.length := by
  rw [takes_snoc, if_neg h, Nat.add_zero]

theorem takes_add (uses : List Use) (id : MemberId) {i j : Nat} (h : i ≤ j) :
    takes uses id j = takes uses id i + ((uses.drop i).take (j - i)).count (.take id) := by
  obtain ⟨d, rfl⟩ := Nat.exists_eq_add_of_le h
  rw [takes, takes, List.take_add, List.count_append, Nat.add_sub_cancel_left]

/-- An id is in the same episode at two places if nobody takes it in between. -/
theorem takes_eq_iff {i j : Nat} (h : i ≤ j) :
    takes uses id i = takes uses id j ↔ Stays uses id i j := by
  have hzero : takes uses id i = takes uses id j ↔
      ((uses.drop i).take (j - i)).count (.take id) = 0 := by
    rw [takes_add uses id h]
    omega
  rw [hzero, List.count_eq_zero, List.mem_iff_getElem?]
  constructor
  · rintro hnone k hik hkj hk
    refine hnone ⟨k - i, ?_⟩
    rw [List.getElem?_take, if_pos (by omega), List.getElem?_drop, Nat.add_sub_cancel' hik, hk]
  · rintro hstays ⟨d, hd⟩
    rw [List.getElem?_take] at hd
    split at hd
    next hlt =>
      rw [List.getElem?_drop] at hd
      exact hstays (i + d) (by omega) (by omega) hd
    next => cases hd

theorem takes_eq_iff_stays (i j : Nat) :
    takes uses id i = takes uses id j ↔ Stays uses id (min i j) (max i j) := by
  rcases Nat.le_total i j with h | h
  · rw [Nat.min_eq_left h, Nat.max_eq_right h, takes_eq_iff h]
  · rw [Nat.min_eq_right h, Nat.max_eq_left h, ← takes_eq_iff h, eq_comm]

/-! ## One more use -/

theorem stays_snoc_of_le {i j : Nat} (h : j ≤ uses.length) :
    Stays (uses ++ [u]) id i j ↔ Stays uses id i j := by
  refine forall_congr' fun k => forall_congr' fun _ => forall_congr' fun hkj => ?_
  rw [List.getElem?_append_left (by omega)]

theorem posted_snoc_of_le {i : Nat} (h : i ≤ uses.length) :
    Posted (uses ++ [u]) id i ↔ Posted uses id i := by
  refine exists_congr fun k => and_congr_right fun hk => ?_
  rw [stays_snoc_of_le h, List.getElem?_append_left (by omega)]

theorem gives_snoc_of_lt {i : Nat} (h : i < uses.length) :
    Gives (uses ++ [u]) id i ↔ Gives uses id i := by
  rw [Gives, Gives, posted_snoc_of_le (by omega), List.getElem?_append_left h]

theorem gives_snoc_length :
    Gives (uses ++ [u]) id uses.length ↔
      u = .findOrPost id ∨ (u = .find id ∨ u = .take id) ∧ Posted uses id uses.length := by
  rw [Gives, posted_snoc_of_le (Nat.le_refl _), List.getElem?_concat_length]
  simp only [Option.some.injEq]

/-- An id is on the board after a use that posts it, and after any that does not take it off if it was
there before. -/
theorem posted_snoc_length :
    Posted (uses ++ [u]) id (uses.length + 1) ↔
      u = .findOrPost id ∨ Posted uses id uses.length ∧ u ≠ .take id := by
  constructor
  · rintro ⟨k, hk, hpost, hstays⟩
    rcases Nat.lt_succ_iff_lt_or_eq.1 hk with hlt | rfl
    · have hlast := hstays uses.length (by omega) (by omega)
      rw [List.getElem?_concat_length, ne_eq, Option.some.injEq] at hlast
      rw [List.getElem?_append_left hlt] at hpost
      exact .inr ⟨⟨k, hlt, hpost, (stays_snoc_of_le (Nat.le_refl _)).1 fun l hkl hl =>
        hstays l hkl (by omega)⟩, hlast⟩
    · rw [List.getElem?_concat_length, Option.some.injEq] at hpost
      exact .inl hpost
  · rintro (rfl | ⟨⟨k, hk, hpost, hstays⟩, hne⟩)
    · refine ⟨uses.length, by omega, List.getElem?_concat_length, fun l hl hlt => ?_⟩
      obtain rfl : l = uses.length := by omega
      rw [List.getElem?_concat_length]
      nofun
    · refine ⟨k, by omega, by rwa [List.getElem?_append_left hk], fun l hkl hl => ?_⟩
      rcases Nat.lt_succ_iff_lt_or_eq.1 hl with hlt | rfl
      · rw [List.getElem?_append_left hlt]
        exact hstays l hkl hlt
      · rw [List.getElem?_concat_length, ne_eq, Option.some.injEq]
        exact hne

namespace Usage

variable {s : Usage} {label : HealthCell → MemberId × Nat}

theorem after_snoc (uses : List Use) (u : Use) : after (uses ++ [u]) = (after uses).next u := by
  rw [after, List.foldl_append]
  rfl

theorem cell?_next_of_lt {holder : Nat} (h : holder < s.given.length) :
    (s.next u).cell? holder = s.cell? holder := by
  rw [cell?, next, List.getElem?_append_left h, cell?]

theorem cell?_next_length : (s.next u).cell? s.given.length = (s.perform u).1 := by
  rw [cell?, next, List.getElem?_concat_length]
  rfl

/-- A mark gives nothing, and leaves the same cells on the board. -/
theorem perform_mark (s : Usage) (holder : Nat) (next : Health) :
    (s.perform (.mark holder next)).1 = none ∧
      (∀ id, (s.perform (.mark holder next)).2.find? id = s.board.find? id) ∧
      (s.perform (.mark holder next)).2.cells.size = s.board.cells.size := by
  rw [perform]
  split
  next => exact ⟨rfl, fun _ => rfl, size_cells_mark ..⟩
  next => exact ⟨rfl, fun _ => rfl, rfl⟩

theorem lt_of_cell? {holder : Nat} {cell : HealthCell} (h : s.cell? holder = some cell) :
    holder < s.given.length := by
  by_contra hle
  rw [cell?, List.getElem?_eq_none (by omega)] at h
  cases h

/-! ## Labels -/

/-- Every cell ever made is for an id in an episode of it, and the cells on the board are those whose
episode is the latest. -/
structure Labelled (uses : List Use) (label : HealthCell → MemberId × Nat) (b : HealthBoard) :
    Prop where
  made : ∀ {id cell}, b.find? id = some cell → cell.index < b.cells.size
  posted : ∀ {id cell}, cell.index < b.cells.size →
    (b.find? id = some cell ↔ label cell = (id, takes uses id uses.length))
  bounded : ∀ {cell}, cell.index < b.cells.size →
    (label cell).2 ≤ takes uses (label cell).1 uses.length
  distinct : ∀ {cell cell'}, cell.index < b.cells.size → cell'.index < b.cells.size →
    label cell = label cell' → cell = cell'

/-- A use that neither posts nor takes anything. -/
theorem Labelled.of_same {b b' : HealthBoard} (h : Labelled uses label b)
    (hfind : ∀ id, b'.find? id = b.find? id) (hsize : b'.cells.size = b.cells.size)
    (hu : ∀ id, u ≠ .take id) : Labelled (uses ++ [u]) label b' := by
  have htakes : ∀ id, takes (uses ++ [u]) id (uses ++ [u]).length = takes uses id uses.length :=
    fun id => takes_snoc_of_ne uses (hu id)
  constructor
  · intro id cell
    rw [hfind, hsize]
    exact h.made
  · intro id cell
    rw [hfind, hsize, htakes]
    exact h.posted
  · intro cell
    rw [hsize, htakes]
    exact h.bounded
  · intro cell cell'
    rw [hsize]
    exact h.distinct

/-- A cell that is made is the first one of its label. -/
theorem Labelled.post {b b' : HealthBoard} {cell : HealthCell} (h : Labelled uses label b)
    (hfound : b.Found id cell b') (hnone : b.find? id = none) (hcell : cell = ⟨b.cells.size⟩)
    (hsize : b'.cells.size = b.cells.size + 1) :
    Labelled (uses ++ [.findOrPost id])
      (Function.update label cell (id, takes uses id uses.length)) b' := by
  have htakes : ∀ id', takes (uses ++ [.findOrPost id]) id' (uses ++ [Use.findOrPost id]).length =
      takes uses id' uses.length := fun _ => takes_snoc_of_ne uses nofun
  have hmade : ∀ {c : HealthCell}, c.index < b'.cells.size → c = cell ∨ c.index < b.cells.size := by
    intro c hc
    rcases Nat.lt_succ_iff_lt_or_eq.1 (hsize ▸ hc) with hlt | heq
    · exact .inr hlt
    · exact .inl (by rw [hcell, ← heq])
  have hold : ∀ {c : HealthCell}, c.index < b.cells.size → c ≠ cell := by
    rintro c hc rfl
    rw [hcell] at hc
    exact Nat.lt_irrefl _ hc
  -- No cell made before is for this id in this episode: it would be on the board.
  have hfree : ∀ {c : HealthCell}, c.index < b.cells.size →
      label c ≠ (id, takes uses id uses.length) := by
    intro c hc heq
    rw [(h.posted hc).2 heq] at hnone
    cases hnone
  constructor
  · intro id' c hc
    rw [hfound.find?_eq] at hc
    split at hc
    · rw [← Option.some.inj hc, hcell, hsize]
      exact Nat.lt_succ_self _
    · rw [hsize]
      exact Nat.lt_succ_of_lt (h.made hc)
  · intro id' c hc
    rw [hfound.find?_eq, htakes]
    rcases hmade hc with rfl | hlt
    · rw [Function.update_self, Prod.mk.injEq]
      constructor
      · split
        next heq => exact fun _ => heq ▸ ⟨rfl, rfl⟩
        next => exact fun hfind => absurd rfl (hold (h.made hfind))
      · rintro ⟨rfl, -⟩
        rw [if_pos rfl]
    · rw [Function.update_of_ne (hold hlt), ← h.posted hlt]
      split
      next heq =>
        refine ⟨fun hsame => absurd (Option.some.inj hsame).symm (hold hlt), fun hfind => ?_⟩
        rw [heq, hnone] at hfind
        cases hfind
      next => rfl
  · intro c hc
    rw [htakes]
    rcases hmade hc with rfl | hlt
    · exact Nat.le_of_eq (by rw [Function.update_self])
    · rw [Function.update_of_ne (hold hlt)]
      exact h.bounded hlt
  · intro c c' hc hc'
    rcases hmade hc with rfl | hlt <;> rcases hmade hc' with rfl | hlt'
    · exact fun _ => rfl
    · rw [Function.update_self, Function.update_of_ne (hold hlt')]
      exact fun heq => absurd heq.symm (hfree hlt')
    · rw [Function.update_self, Function.update_of_ne (hold hlt)]
      exact fun heq => absurd heq (hfree hlt)
    · rw [Function.update_of_ne (hold hlt), Function.update_of_ne (hold hlt')]
      exact h.distinct hlt hlt'

/-- Taking an id off the board begins its next episode. -/
theorem Labelled.take {b : HealthBoard} (h : Labelled uses label b) (id : MemberId) :
    Labelled (uses ++ [.take id]) label (b.take id).2 := by
  have htakes : ∀ id', takes (uses ++ [.take id]) id' (uses ++ [Use.take id]).length =
      takes uses id' uses.length + if id = id' then 1 else 0 := by
    intro id'
    rw [takes_snoc]
    simp only [Use.take.injEq]
  constructor
  · intro id' cell hfind
    rw [find?_take] at hfind
    split at hfind
    · cases hfind
    · exact h.made hfind
  · intro id' cell hcell
    rw [find?_take, htakes]
    split
    next heq =>
      have hbounded := h.bounded hcell
      rw [if_pos heq.symm]
      refine ⟨nofun, fun hlabel => ?_⟩
      rw [hlabel] at hbounded
      dsimp only at hbounded
      omega
    next hne =>
      rw [if_neg (Ne.symm hne), Nat.add_zero]
      exact h.posted hcell
  · intro cell hcell
    rw [htakes]
    exact Nat.le_add_right_of_le (h.bounded hcell)
  · exact h.distinct

/-! ## What every use has given -/

/-- The cells that the uses have given are labelled with their id and its episode. -/
structure Traced (uses : List Use) (label : HealthCell → MemberId × Nat) (s : Usage) : Prop where
  length : s.given.length = uses.length
  labelled : Labelled uses label s.board
  onBoard : ∀ id, (∃ cell, s.board.find? id = some cell) ↔ Posted uses id uses.length
  given : ∀ {i id}, Gives uses id i → ∃ cell, s.cell? i = some cell ∧
    cell.index < s.board.cells.size ∧ label cell = (id, takes uses id i)
  gives : ∀ {i cell}, s.cell? i = some cell → ∃ id, Gives uses id i

theorem traced_empty : Traced [] (fun _ => (⟨0⟩, 0)) {} where
  length := rfl
  labelled := ⟨nofun, nofun, nofun, nofun⟩
  onBoard _ := ⟨nofun, nofun⟩
  given := by
    rintro i id (h | ⟨h | h, -⟩) <;> cases h
  gives := nofun

/-- What is left to show of a use: the board that it leaves, and the cell that it gives. -/
theorem Traced.snoc {label' : HealthCell → MemberId × Nat} (h : Traced uses label s)
    (hlabelled : Labelled (uses ++ [u]) label' (s.perform u).2)
    (hgrows : s.board.cells.size ≤ (s.perform u).2.cells.size)
    (hagree : ∀ {cell}, cell.index < s.board.cells.size → label' cell = label cell)
    (hboard : ∀ id, (∃ cell, (s.perform u).2.find? id = some cell) ↔
      u = .findOrPost id ∨ Posted uses id uses.length ∧ u ≠ .take id)
    (hgiven : ∀ {id}, (u = .findOrPost id ∨ (u = .find id ∨ u = .take id) ∧
        Posted uses id uses.length) → ∃ cell, (s.perform u).1 = some cell ∧
      cell.index < (s.perform u).2.cells.size ∧ label' cell = (id, takes uses id uses.length))
    (hgives : ∀ {cell}, (s.perform u).1 = some cell → ∃ id, u = .findOrPost id ∨
      (u = .find id ∨ u = .take id) ∧ Posted uses id uses.length) :
    Traced (uses ++ [u]) label' (s.next u) where
  length := by
    rw [Usage.next, List.length_append, List.length_append, h.length]
    rfl
  labelled := hlabelled
  onBoard id := by
    rw [List.length_append, List.length_singleton, posted_snoc_length]
    exact hboard id
  given := by
    intro i id hi
    rcases Nat.lt_trichotomy i uses.length with hlt | rfl | hgt
    · obtain ⟨cell, hcell, hmade, hlabel⟩ := h.given ((gives_snoc_of_lt hlt).1 hi)
      refine ⟨cell, ?_, Nat.lt_of_lt_of_le hmade hgrows, ?_⟩
      · rw [cell?_next_of_lt (h.length ▸ hlt), hcell]
      · rw [hagree hmade, hlabel, takes_snoc_of_le (Nat.le_of_lt hlt)]
    · obtain ⟨cell, hcell, hmade, hlabel⟩ := hgiven (gives_snoc_length.1 hi)
      refine ⟨cell, ?_, hmade, ?_⟩
      · rw [← h.length, cell?_next_length, hcell]
      · rw [hlabel, takes_snoc_of_le (Nat.le_refl _)]
    · have hnone : (uses ++ [u])[i]? = none := by
        rw [List.getElem?_eq_none_iff, List.length_append, List.length_singleton]
        omega
      rw [Gives, hnone] at hi
      rcases hi with hi | ⟨hi | hi, -⟩ <;> cases hi
  gives := by
    intro i cell hcell
    have hi := lt_of_cell? hcell
    rw [Usage.next, List.length_append, List.length_singleton] at hi
    rcases Nat.lt_succ_iff_lt_or_eq.1 hi with hlt | rfl
    · rw [cell?_next_of_lt hlt] at hcell
      obtain ⟨id, hid⟩ := h.gives hcell
      exact ⟨id, (gives_snoc_of_lt (h.length ▸ hlt)).2 hid⟩
    · rw [cell?_next_length] at hcell
      obtain ⟨id, hid⟩ := hgives hcell
      exact ⟨id, by rw [h.length]; exact gives_snoc_length.2 hid⟩

/-- The cell on the board is the one of the moment. -/
theorem Traced.label_of_find {cell : HealthCell} (h : Traced uses label s)
    (hfind : s.board.find? id = some cell) :
    cell.index < s.board.cells.size ∧ label cell = (id, takes uses id uses.length) :=
  have hmade := h.labelled.made hfind
  ⟨hmade, (h.labelled.posted hmade).1 hfind⟩

theorem Traced.find (h : Traced uses label s) (id : MemberId) :
    Traced (uses ++ [.find id]) label (s.next (.find id)) := by
  refine h.snoc (h.labelled.of_same (fun _ => rfl) rfl nofun) (Nat.le_refl _) (fun _ => rfl)
    (fun id' => ?_) ?_ ?_
  · simpa [perform] using h.onBoard id'
  · rintro id' (hu | ⟨hu | hu, hposted⟩) <;> cases hu
    obtain ⟨cell, hcell⟩ := (h.onBoard id).2 hposted
    exact ⟨cell, hcell, h.label_of_find hcell⟩
  · intro cell hcell
    exact ⟨id, .inr ⟨.inl rfl, (h.onBoard id).1 ⟨cell, hcell⟩⟩⟩

theorem Traced.take (h : Traced uses label s) (id : MemberId) :
    Traced (uses ++ [.take id]) label (s.next (.take id)) := by
  refine h.snoc (h.labelled.take id) (Nat.le_refl _) (fun _ => rfl) (fun id' => ?_) ?_ ?_
  · show (∃ cell, (s.board.take id).2.find? id' = some cell) ↔ _
    rw [find?_take, ← h.onBoard]
    by_cases heq : id' = id
    · simp [heq]
    · simp [heq, Ne.symm heq]
  · rintro id' (hu | ⟨hu | hu, hposted⟩) <;> cases hu
    obtain ⟨cell, hcell⟩ := (h.onBoard id).2 hposted
    exact ⟨cell, hcell, h.label_of_find hcell⟩
  · intro cell hcell
    exact ⟨id, .inr ⟨.inr rfl, (h.onBoard id).1 ⟨cell, hcell⟩⟩⟩

theorem Traced.mark (h : Traced uses label s) (holder : Nat) (next : Health) :
    Traced (uses ++ [.mark holder next]) label (s.next (.mark holder next)) := by
  obtain ⟨hnone, hfind, hsize⟩ := s.perform_mark holder next
  refine h.snoc (h.labelled.of_same hfind hsize nofun) (Nat.le_of_eq hsize.symm) (fun _ => rfl)
    (fun id => ?_) ?_ ?_
  · simpa [hfind] using h.onBoard id
  · rintro id (hu | ⟨hu | hu, -⟩) <;> cases hu
  · rw [hnone]
    nofun

theorem Traced.findOrPost (h : Traced uses label s) (id : MemberId) :
    ∃ label', Traced (uses ++ [.findOrPost id]) label' (s.next (.findOrPost id)) := by
  have hfound := s.board.found_findOrPost id
  have hboard : ∀ id', (∃ cell, (s.board.findOrPost id).2.find? id' = some cell) ↔
      Use.findOrPost id = .findOrPost id' ∨
        Posted uses id' uses.length ∧ Use.findOrPost id ≠ .take id' := by
    intro id'
    rw [hfound.find?_eq, ← h.onBoard, Use.findOrPost.injEq]
    by_cases heq : id' = id
    · simp [heq]
    · simp [heq, Ne.symm heq]
  -- What is found is the cell of the moment, whether or not it has just been made.
  have hsnoc : ∀ label', Labelled (uses ++ [.findOrPost id]) label' (s.board.findOrPost id).2 →
      (∀ {cell : HealthCell}, cell.index < s.board.cells.size → label' cell = label cell) →
      Traced (uses ++ [.findOrPost id]) label' (s.next (.findOrPost id)) := by
    intro label' hlabelled hagree
    refine h.snoc hlabelled hfound.grows hagree hboard ?_ fun _ => ⟨id, .inl rfl⟩
    rintro id' (hu | ⟨hu | hu, -⟩) <;> cases hu
    have hmade := hlabelled.made hfound.find
    refine ⟨(s.board.findOrPost id).1, rfl, hmade, ?_⟩
    rw [(hlabelled.posted hmade).1 hfound.find]
    exact congrArg (Prod.mk id) (takes_snoc_of_ne uses nofun)
  rcases hfound.known with hfind | ⟨hnone, hcell, -, -⟩
  · have hsame := snd_findOrPost_of_find hfind
    refine ⟨label, hsnoc label (h.labelled.of_same ?_ ?_ nofun) fun _ => rfl⟩
    · rw [hsame]
      exact fun _ => rfl
    · rw [hsame]
  · have hsize := size_findOrPost_of_not_found hnone
    refine ⟨_, hsnoc _ (h.labelled.post hfound hnone hcell hsize) fun {cell} hlt => ?_⟩
    rw [Function.update_of_ne]
    rintro rfl
    rw [hcell] at hlt
    exact Nat.lt_irrefl _ hlt

theorem exists_traced (uses : List Use) : ∃ label, Traced uses label (after uses) := by
  induction uses using List.reverseRecOn with
  | nil => exact ⟨_, traced_empty⟩
  | append_singleton uses u ih =>
    obtain ⟨label, h⟩ := ih
    rw [after_snoc]
    cases u with
    | find id => exact ⟨label, h.find id⟩
    | findOrPost id => exact h.findOrPost id
    | take id => exact ⟨label, h.take id⟩
    | mark holder next => exact ⟨label, h.mark holder next⟩

/-- What a use has given was made before, for its id and in the episode of that moment. -/
theorem Traced.label_of_gives {i : Nat} {cell : HealthCell} (h : Traced uses label s)
    (hcell : s.cell? i = some cell) (hid : Gives uses id i) :
    cell.index < s.board.cells.size ∧ label cell = (id, takes uses id i) := by
  obtain ⟨cell', hcell', hgiven⟩ := h.given hid
  obtain rfl := Option.some.inj (hcell.symm.trans hcell')
  exact hgiven

theorem Traced.made_of_cell? {i : Nat} {cell : HealthCell} (h : Traced uses label s)
    (hcell : s.cell? i = some cell) : cell.index < s.board.cells.size := by
  obtain ⟨id, hid⟩ := h.gives hcell
  exact (h.label_of_gives hcell hid).1

/-- Holders share a cell exactly if they found it for one id in one episode. -/
theorem Traced.eq_iff_shares {i j : Nat} {cell cell' : HealthCell} (h : Traced uses label s)
    (hi : s.cell? i = some cell) (hj : s.cell? j = some cell') :
    cell = cell' ↔ Shares uses i j := by
  constructor
  · rintro rfl
    obtain ⟨id, hid⟩ := h.gives hi
    obtain ⟨id', hid'⟩ := h.gives hj
    have hlabel := (h.label_of_gives hi hid).2
    rw [(h.label_of_gives hj hid').2, Prod.mk.injEq] at hlabel
    obtain ⟨rfl, htakes⟩ := hlabel
    exact ⟨id', hid, hid', (takes_eq_iff_stays i j).1 htakes.symm⟩
  · rintro ⟨id, hid, hid', hstays⟩
    obtain ⟨hmade, hlabel⟩ := h.label_of_gives hi hid
    obtain ⟨hmade', hlabel'⟩ := h.label_of_gives hj hid'
    refine h.labelled.distinct hmade hmade' ?_
    rw [hlabel, hlabel', (takes_eq_iff_stays i j).2 hstays]

/-! ## Marks -/

/-- What a use adds to the marks made through some holders. -/
theorem markedThrough_snoc {mine : Nat → Prop} {next : Health} :
    MarkedThrough (uses ++ [u]) mine next ↔
      (∃ h < uses.length, u = .mark h next ∧ mine h) ∨
        MarkedThrough uses mine next ∧ ∀ h < uses.length, u = .mark h .ready → ¬ mine h := by
  have hat : ∀ {t v}, (uses ++ [u])[t]? = some v →
      t < uses.length ∧ uses[t]? = some v ∨ t = uses.length ∧ u = v := by
    intro t v hv
    rcases Nat.lt_or_ge t uses.length with hlt | hge
    · exact .inl ⟨hlt, by rwa [List.getElem?_append_left hlt] at hv⟩
    · have htop := (List.getElem?_eq_some_iff.1 hv).1
      rw [List.length_append, List.length_singleton] at htop
      obtain rfl : t = uses.length := by omega
      rw [List.getElem?_concat_length, Option.some.injEq] at hv
      exact .inr ⟨rfl, hv⟩
  constructor
  · rintro ⟨t, h, hlt, hmark, hmine, hlast⟩
    rcases hat hmark with ⟨ht, hmark⟩ | ⟨rfl, rfl⟩
    · refine .inr ⟨⟨t, h, hlt, hmark, hmine, fun t' h' ht' hlt' hready => ?_⟩, fun h' hh' hu => ?_⟩
      · have ht'' := (List.getElem?_eq_some_iff.1 hready).1
        exact hlast t' h' ht' hlt' (by rwa [List.getElem?_append_left ht''])
      · exact hlast uses.length h' ht hh' (by rw [List.getElem?_concat_length, hu])
    · exact .inl ⟨h, hlt, rfl, hmine⟩
  · rintro (⟨h, hlt, rfl, hmine⟩ | ⟨⟨t, h, hlt, hmark, hmine, hlast⟩, hno⟩)
    · refine ⟨uses.length, h, hlt, List.getElem?_concat_length, hmine, fun t' h' ht' _ hready => ?_⟩
      rcases hat hready with ⟨hlt', -⟩ | ⟨rfl, -⟩ <;> omega
    · have ht := (List.getElem?_eq_some_iff.1 hmark).1
      refine ⟨t, h, hlt, by rwa [List.getElem?_append_left ht], hmine, fun t' h' ht' hlt' hready => ?_⟩
      rcases hat hready with ⟨-, hready⟩ | ⟨rfl, hu⟩
      · exact hlast t' h' ht' hlt' hready
      · exact hno h' hlt' hu

theorem markedThrough_congr {mine mine' : Nat → Prop} {next : Health}
    (h : ∀ holder < uses.length, mine holder ↔ mine' holder) :
    MarkedThrough uses mine next ↔ MarkedThrough uses mine' next := by
  have hone : ∀ {mine mine' : Nat → Prop}, (∀ holder < uses.length, mine holder ↔ mine' holder) →
      MarkedThrough uses mine next → MarkedThrough uses mine' next := by
    rintro mine mine' h ⟨t, holder, hlt, hmark, hmine, hlast⟩
    have ht := (List.getElem?_eq_some_iff.1 hmark).1
    refine ⟨t, holder, hlt, hmark, (h holder (by omega)).1 hmine, fun t' h' ht' hlt' hready => ?_⟩
    have ht'' := (List.getElem?_eq_some_iff.1 hready).1
    rw [← h h' (by omega)]
    exact hlast t' h' ht' hlt' hready
  exact ⟨hone h, hone fun holder hlt => (h holder hlt).symm⟩

/-- What a cell holds, by the marks made through its holders. -/
structure Marked (uses : List Use) (s : Usage) (cell : HealthCell) : Prop where
  failing : s.board.read cell = .failing ↔
    MarkedThrough uses (s.cell? · = some cell) .failing
  ready : s.board.read cell = .ready ↔
    ¬ MarkedThrough uses (s.cell? · = some cell) .failing ∧
      ¬ MarkedThrough uses (s.cell? · = some cell) .suspect

/-- A use that marks nothing through the holders of a cell leaves what it holds. -/
theorem Marked.of_unmarked {cell : HealthCell} (h : Marked uses s cell)
    (hlength : s.given.length = uses.length)
    (hread : (s.perform u).2.read cell = s.board.read cell)
    (hno : ∀ holder next, u = .mark holder next → s.cell? holder ≠ some cell) :
    Marked (uses ++ [u]) (s.next u) cell := by
  have hmarked : ∀ next, MarkedThrough (uses ++ [u]) ((s.next u).cell? · = some cell) next ↔
      MarkedThrough uses (s.cell? · = some cell) next := by
    intro next
    have hsame : ∀ holder < uses.length,
        (s.next u).cell? holder = some cell ↔ s.cell? holder = some cell := by
      intro holder hlt
      rw [cell?_next_of_lt (hlength ▸ hlt)]
    rw [markedThrough_snoc, markedThrough_congr hsame]
    constructor
    · rintro (⟨holder, hlt, hu, hmine⟩ | ⟨hmarked, -⟩)
      · exact absurd ((hsame holder hlt).1 hmine) (hno holder next hu)
      · exact hmarked
    · refine fun hmarked => .inr ⟨hmarked, fun holder hlt hu => ?_⟩
      rw [hsame holder hlt]
      exact hno holder .ready hu
  constructor
  · rw [hmarked]
    exact (congrArg (· = Health.failing) hread).to_iff.trans h.failing
  · rw [hmarked, hmarked]
    exact (congrArg (· = Health.ready) hread).to_iff.trans h.ready

/-- A mark through a holder of a cell shows in it. -/
theorem Marked.mark {cell : HealthCell} {holder : Nat} (h : Marked uses s cell)
    (hlength : s.given.length = uses.length) (hmade : cell.index < s.board.cells.size)
    (hholder : s.cell? holder = some cell) (next : Health) :
    Marked (uses ++ [.mark holder next]) (s.next (.mark holder next)) cell := by
  have hread : (s.next (.mark holder next)).board.read cell = (s.board.read cell).mark next := by
    show (s.perform (.mark holder next)).2.read cell = _
    rw [perform, hholder]
    exact read_mark_self hmade next
  have hlt : holder < uses.length := hlength ▸ lt_of_cell? hholder
  have hmarked : ∀ next', MarkedThrough (uses ++ [.mark holder next])
      ((s.next (.mark holder next)).cell? · = some cell) next' ↔
      next = next' ∨ MarkedThrough uses (s.cell? · = some cell) next' ∧ next ≠ .ready := by
    intro next'
    have hsame : ∀ holder' < uses.length,
        (s.next (.mark holder next)).cell? holder' = some cell ↔ s.cell? holder' = some cell := by
      intro holder' hlt'
      rw [cell?_next_of_lt (hlength ▸ hlt')]
    rw [markedThrough_snoc, markedThrough_congr hsame]
    simp only [Use.mark.injEq]
    constructor
    · rintro (⟨holder', -, ⟨-, heq⟩, -⟩ | ⟨hmarked, hno⟩)
      · exact .inl heq
      · exact .inr ⟨hmarked, fun heq => hno holder hlt ⟨rfl, heq⟩ ((hsame holder hlt).2 hholder)⟩
    · rintro (heq | ⟨hmarked, hne⟩)
      · exact .inl ⟨holder, hlt, ⟨rfl, heq⟩, (hsame holder hlt).2 hholder⟩
      · exact .inr ⟨hmarked, fun holder' _ hu => absurd hu.2 hne⟩
  have hfailing := h.failing
  have hready := h.ready
  constructor
  · rw [hread, hmarked, ← hfailing]
    cases next <;> cases s.board.read cell <;> decide
  · rw [hread, hmarked, hmarked, ← hfailing]
    cases next <;> cases hcell : s.board.read cell <;> simp_all [Health.mark]

/-- A cell that has just been made is ready, and nobody has marked it. -/
theorem Traced.marked_post {cell : HealthCell} (h : Traced uses label s) {id : MemberId}
    (hnew : s.board.cells.size ≤ cell.index)
    (hmade : cell.index < (s.board.findOrPost id).2.cells.size) :
    Marked (uses ++ [.findOrPost id]) (s.next (.findOrPost id)) cell := by
  have hready : (s.next (.findOrPost id)).board.read cell = .ready := by
    rcases (s.board.found_findOrPost id).known with hfind | ⟨hnone, hcell, -, hready⟩
    · rw [snd_findOrPost_of_find hfind] at hmade
      omega
    · have hsize := size_findOrPost_of_not_found hnone
      have heq : cell = (s.board.findOrPost id).1 := by
        rw [hcell, HealthCell.mk.injEq]
        omega
      rw [heq]
      exact hready
  have hunmarked : ∀ next, ¬ MarkedThrough (uses ++ [.findOrPost id])
      ((s.next (.findOrPost id)).cell? · = some cell) next := by
    rintro next ⟨t, holder, hlt, hmark, hmine, -⟩
    have ht := (List.getElem?_eq_some_iff.1 hmark).1
    rw [List.length_append, List.length_singleton] at ht
    rw [cell?_next_of_lt (by rw [h.length]; omega)] at hmine
    exact Nat.not_lt.2 hnew (h.made_of_cell? hmine)
  constructor
  · rw [hready]
    exact iff_of_false nofun (hunmarked _)
  · exact iff_of_true hready ⟨hunmarked _, hunmarked _⟩

/-- Every cell holds what it was marked with through its holders. -/
theorem marked_after (uses : List Use) {cell : HealthCell}
    (hmade : cell.index < (after uses).board.cells.size) : Marked uses (after uses) cell := by
  induction uses using List.reverseRecOn generalizing cell with
  | nil => cases hmade
  | append_singleton uses u ih =>
    obtain ⟨label, htraced⟩ := exists_traced uses
    have hlength := htraced.length
    rw [after_snoc] at hmade ⊢
    cases u with
    | find id => exact (ih hmade).of_unmarked hlength rfl nofun
    | take id => exact (ih hmade).of_unmarked hlength rfl nofun
    | findOrPost id =>
      rcases Nat.lt_or_ge cell.index (after uses).board.cells.size with hlt | hge
      · exact (ih hlt).of_unmarked hlength (((after uses).board.found_findOrPost id).read cell hlt)
          nofun
      · exact htraced.marked_post hge hmade
    | mark holder next =>
      have hmade' : cell.index < (after uses).board.cells.size :=
        ((after uses).perform_mark holder next).2.2 ▸ hmade
      by_cases hholder : (after uses).cell? holder = some cell
      · exact (ih hmade').mark hlength hmade' hholder next
      · refine (ih hmade').of_unmarked hlength ?_ ?_
        · rw [perform]
          split
          next cell' hcell' =>
            refine read_mark_of_ne (fun heq => hholder ?_) next
            rw [hcell', heq]
          next => rfl
        · rintro holder' next' ⟨⟩
          exact hholder

/-- **Theorem.** After any uses of a board: a use has given a cell exactly if it posted its id or found it
posted. Two of them gave the same cell exactly if they are about one id that nobody took off the board in
between. A cell is failing if it was marked failing through one of its holders after it was last marked
ready, otherwise suspect if it was marked suspect since then, and otherwise ready. Marking a cell leaves
what all the other holders read as it was, also if the cell has been taken off the board. -/
theorem cells_follow_history (uses : List Use) :
    let s := after uses
    (∀ i, (∃ cell, s.cell? i = some cell) ↔ ∃ id, Gives uses id i) ∧
    (∀ i j cell cell', s.cell? i = some cell → s.cell? j = some cell' →
      (cell = cell' ↔ Shares uses i j)) ∧
    (∀ i cell, s.cell? i = some cell →
      let marked := MarkedThrough uses (Shares uses i)
      (s.board.read cell = .failing ↔ marked .failing) ∧
      (s.board.read cell = .suspect ↔ ¬ marked .failing ∧ marked .suspect) ∧
      (s.board.read cell = .ready ↔ ¬ marked .failing ∧ ¬ marked .suspect)) ∧
    ∀ i j cell next, s.cell? i = some cell → ¬ Shares uses i j →
      (after (uses ++ [.mark j next])).board.read cell = s.board.read cell := by
  intro s
  obtain ⟨label, htraced⟩ := exists_traced uses
  refine ⟨fun i => ⟨fun ⟨_, hcell⟩ => htraced.gives hcell, fun ⟨_, hid⟩ => ?_⟩,
    fun i j cell cell' hi hj => htraced.eq_iff_shares hi hj, fun i cell hcell => ?_,
    fun i j cell next hi hno => ?_⟩
  · obtain ⟨cell, hcell, -⟩ := htraced.given hid
    exact ⟨cell, hcell⟩
  · have hmine : ∀ holder < uses.length, s.cell? holder = some cell ↔ Shares uses i holder := by
      refine fun holder _ => ⟨fun hholder => (htraced.eq_iff_shares hcell hholder).1 rfl,
        fun hshares => ?_⟩
      have ⟨_, _, hid, _⟩ := hshares
      obtain ⟨cell', hcell', -⟩ := htraced.given hid
      rw [hcell', (htraced.eq_iff_shares hcell hcell').2 hshares]
    have hmarked : Marked uses s cell := marked_after uses (htraced.made_of_cell? hcell)
    have hfailing := hmarked.failing
    have hready := hmarked.ready
    rw [markedThrough_congr hmine] at hfailing
    rw [markedThrough_congr hmine, markedThrough_congr hmine] at hready
    refine ⟨hfailing, ?_, hready⟩
    rw [← hfailing] at hready ⊢
    cases hread : s.board.read cell <;> simp_all
  · rw [after_snoc]
    show (s.perform (.mark j next)).2.read cell = _
    rw [perform]
    split
    next cell' hj =>
      exact read_mark_of_ne (fun heq => hno ((htraced.eq_iff_shares hi hj).1 heq)) next
    next => rfl

/-- The first holder is left with a cell that is taken off the board, and marks it in vain for those who
come later. -/
example (a : MemberId) :
    let s := after [.findOrPost a, .mark 0 .failing, .take a, .findOrPost a, .mark 0 .suspect,
      .find a, .mark 5 .suspect]
    s.cell? 0 = s.cell? 2 ∧ s.cell? 3 = s.cell? 5 ∧ (s.cell? 0).map s.board.read = some .failing ∧
      (s.cell? 3).map s.board.read = some .suspect := by
  simp [after, next, perform, cell?, find?, HealthBoard.findOrPost, HealthBoard.take, fresh,
    MemberMap.get?_insert, MemberMap.get?_erase, read, HealthBoard.mark, Health.mark]

end Usage

end PeerCluster.HealthBoard
