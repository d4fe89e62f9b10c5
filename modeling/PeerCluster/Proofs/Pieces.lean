/-!
# Pieces of work

A machine makes moves. Some of them are pieces of work: they are due without anybody asking for
anything. A machine is quiet when no piece of work changes it any more. If every piece that changes
anything leaves fewer to come, the machine comes to rest, in whatever order the pieces are done.
-/

namespace PeerCluster.Pieces

variable {σ μ : Type}

/-- What is noted of the moves of a run, in order. -/
def along {β : Type} (next : σ → μ → σ) (f : σ → μ → List β) (s : σ) : List μ → List β
  | [] => []
  | m :: moves => f s m ++ along next f (next s m) moves

/-- When all work is done: no piece of it changes anything. -/
def Quiet (next : σ → μ → σ) (isWork : μ → Bool) (s : σ) : Prop :=
  ∀ m, isWork m = true → next s m = s

/-- Each of these moves is a piece of work and changes something. -/
def Works (next : σ → μ → σ) (isWork : μ → Bool) (s : σ) : List μ → Prop
  | [] => True
  | m :: moves => isWork m = true ∧ next s m ≠ s ∧ Works next isWork (next s m) moves

variable {next : σ → μ → σ} {isWork : μ → Bool} (Good : σ → Prop) (left : σ → Nat)
  (hkeeps : ∀ s m, Good s → isWork m = true → Good (next s m))
  (hless : ∀ s m, Good s → isWork m = true → next s m = s ∨ left (next s m) < left s)

include hkeeps hless

/-- No more pieces of work follow each other than are left. -/
theorem Works.length_le {s : σ} (hs : Good s) {moves : List μ} (h : Works next isWork s moves) :
    moves.length ≤ left s := by
  induction moves generalizing s with
  | nil => exact Nat.zero_le _
  | cons m moves ih =>
    obtain ⟨hwork, hchanges, hrest⟩ := h
    exact Nat.lt_of_le_of_lt (ih (hkeeps s m hs hwork) hrest)
      ((hless s m hs hwork).resolve_left hchanges)

/-- Work comes to an end. -/
theorem exists_quiet {s : σ} (hs : Good s) :
    ∃ moves, Works next isWork s moves ∧ Quiet next isWork (moves.foldl next s) := by
  induction hn : left s using Nat.strongRecOn generalizing s with
  | ind n ih =>
    by_cases hquiet : Quiet next isWork s
    · exact ⟨[], trivial, hquiet⟩
    · obtain ⟨m, hm⟩ := Classical.not_forall.1 hquiet
      obtain ⟨hwork, hchanges⟩ := Classical.not_imp.1 hm
      have hsmaller := (hless s m hs hwork).resolve_left hchanges
      obtain ⟨moves, hworks, hrest⟩ := ih _ (hn ▸ hsmaller) (hkeeps s m hs hwork) rfl
      exact ⟨m :: moves, ⟨hwork, hchanges, hworks⟩, hrest⟩

end PeerCluster.Pieces
