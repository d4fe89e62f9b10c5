import PeerCluster.Proofs.Pieces
import PeerCluster.Proofs.WorkerScenes

/-!
# The worker comes to rest

When no piece of a call in flight and none of the worker changes anything any more, the worker sends,
has ended or sleeps (`Quiet.cases`); and where it sleeps there is nothing to send (`Good.of_idle`),
because it was about to be woken otherwise.

**Theorem (`Good.comes_to_rest`).** Every piece that changes anything leaves fewer to come
(`left_next`), if the worker waits for any time at all or may end.
-/

namespace PeerCluster.BacklogWorker.Scene

open Backlog (Waiter Effect)

/-- When everybody who can go on has gone on: no further piece changes anything. -/
def Quiet (s : Scene) : Prop :=
  Pieces.Quiet next Move.isWork s

/-- Each of these moves is a piece of work and changes something. -/
def Works (s : Scene) (moves : List Move) : Prop :=
  Pieces.Works next Move.isWork s moves

/-- When the worker sleeps, and nobody is about to wake it. -/
def Idle (s : Scene) : Prop :=
  s.desk.wakers = 0 ∧ ∃ w ∈ s.desk.waiters, w.isAsleep = true

variable {s s' : Scene} {desk : Backlog.Scene Unit PendingMessage}

/-! ## When all is quiet -/

theorem desk_heed (s : Scene) (desk : Backlog.Scene Unit PendingMessage) :
    (s.heed desk).desk = desk := by
  unfold heed
  split <;> rfl

theorem Quiet.quiet_desk (hquiet : s.Quiet) (h : s.Good) (hphase : s.phase = .waiting) :
    s.desk.Quiet := by
  obtain ⟨w, hseat⟩ := h.waits hphase
  have hheed {m : Move} (hwork : m.isWork = true) {desk : Backlog.Scene Unit PendingMessage}
      (hnext : s.next m = s.heed desk) : desk = s.desk := by
    rw [← desk_heed s desk, ← hnext, hquiet m hwork]
  intro m hwork
  cases m with
  | wakes => exact congrArg desk (hquiet .wakes rfl)
  | goesOn place =>
    cases place with
    | zero =>
      refine hheed (m := .goesOn) rfl ?_
      show s.goOn = _
      rw [goOn, hphase]
      rfl
    | succ place =>
      show s.desk.goOn (place + 1) = s.desk
      simp [Backlog.Scene.goOn, hseat]
  | givesUp place =>
    cases place with
    | zero =>
      refine hheed (m := .givesUp) rfl ?_
      show s.giveUp = _
      rw [giveUp, hphase]
      rfl
    | succ place =>
      show s.desk.giveUp (place + 1) = s.desk
      simp [Backlog.Scene.giveUp, hseat]
  | adds | sets | begins | passes => cases hwork

/-- When all is quiet, the worker sends, has ended or sleeps. -/
theorem Quiet.cases (hquiet : s.Quiet) (h : s.Good) :
    (∃ rest, s.phase = .sending rest) ∨ s.phase = .ended ∨ s.Idle := by
  have hproceeds := s.proceeds_goOn
  have hsame : s.goOn.phase = s.phase := congrArg phase (hquiet .goesOn rfl)
  generalize s.goOn = s' at hproceeds hsame
  cases hproceeds with
  | begins hphase _ | ends hphase _ | returns hphase _ | clears hphase _ | sends hphase =>
    cases hsame.trans hphase
  | heeds hphase _ =>
    obtain ⟨w, hseat⟩ := h.waits hphase
    obtain ⟨hwakers, hasleep⟩ := (hquiet.quiet_desk h hphase).asleep
    have hw : w ∈ s.desk.waiters := by
      rw [hseat]
      exact List.mem_singleton.2 rfl
    exact .inr (.inr ⟨hwakers, w, hw, (hasleep w hw).1⟩)
  | rests hphase => exact hphase.imp_right .inl

/-- Where the worker sleeps, there is nothing to send. -/
theorem Good.of_idle (h : s.Good) (hidle : s.Idle) :
    s.desk.backlog.enabled = true ∧ s.worker.held = [] ∧ s.desk.backlog.items.toList = [] := by
  obtain ⟨hwakers, w, hw, hasleep⟩ := hidle
  have hphase : s.phase = .waiting := by
    by_contra hphase
    rw [h.alone hphase] at hw
    cases hw
  obtain ⟨henabled, hempty⟩ := (h.desk.watchful w hw hasleep).resolve_left (by omega)
  refine ⟨henabled, ?_, ?_⟩
  · simp only [held, worker, hphase]
  · rw [Array.toList_eq_nil_iff]
    exact Array.isEmpty_iff.1 hempty

/-- As long as the backlog is enabled, a worker at rest that sends nothing sleeps. -/
theorem Quiet.idle (hquiet : s.Quiet) (h : s.Good) (henabled : s.desk.backlog.enabled = true) :
    (∃ rest, s.phase = .sending rest) ∨ s.Idle := by
  refine (hquiet.cases h).imp_right fun hrest => hrest.resolve_left fun hended => ?_
  rw [h.ended hended] at henabled
  cases henabled

/-- Once the backlog is disabled, a worker at rest that sends nothing has ended. -/
theorem Quiet.ended (hquiet : s.Quiet) (h : s.Good) (hdisabled : s.desk.backlog.enabled = false) :
    (∃ rest, s.phase = .sending rest) ∨ s.phase = .ended := by
  refine (hquiet.cases h).imp_right fun hrest => hrest.resolve_right fun hidle => ?_
  rw [(h.of_idle hidle).1] at hdisabled
  cases hdisabled

/-! ## Coming to rest -/

/-- More pieces than the worker may go through between beginning to look for messages and sleeping
or having some. -/
def cost (s : Scene) : Nat :=
  3 * s.desk.wakers + 8

/-- How many pieces of work the phase of the worker may still bring about. -/
def rank (s : Scene) : Nat :=
  match s.phase with
  | .checking => s.cost
  | .waiting =>
    if s.desk.backlog.enabled = true ∧ ∀ w ∈ s.desk.waiters, s.desk.now < w.deadline then 3
    else s.cost + 1
  | .holding batch => if s.desk.backlog.enabled = true ∧ batch ≠ [] then 2 else s.cost + 1
  | .cleared .. => 1
  | .sending _ | .ended => 0

/-- How many pieces of work may still follow each other. -/
def left (s : Scene) : Nat :=
  s.desk.left + s.rank

theorem left_heed (h : s.Good) (hphase : s.phase = .waiting) (heffect : Effect s.desk desk) :
    s.heed desk = s ∨ (s.heed desk).left < s.left := by
  obtain ⟨w, hseat⟩ := h.waits hphase
  obtain ⟨hnow, hwakers⟩ := Backlog.Scene.frame_effect heffect
  have henabled := (Backlog.Scene.backlog_effect heffect).1
  have hrank : s.rank =
      if s.desk.backlog.enabled = true ∧ s.desk.now < w.deadline then 3 else s.cost + 1 := by
    simp only [rank, hphase, hseat, List.forall_mem_singleton]
  rcases heed_cases hseat heffect with ⟨⟨w', hwaits, hdeadline⟩, -, hheed⟩ |
    ⟨items, hnobody, hheed, hcause⟩
  · rcases Backlog.Scene.left_effect heffect with rfl | hless
    · exact .inl hheed
    · have hrank' : (s.heed desk).rank = s.rank := by
        rw [hheed, hrank]
        simp only [rank, cost, hphase, hwaits, hwakers, henabled, hnow, hdeadline,
          List.forall_mem_singleton]
      refine .inr ?_
      rw [left, left, hrank', desk_heed]
      exact Nat.add_lt_add_right hless _
  · have hless := (Backlog.Scene.left_effect heffect).resolve_left fun hsame => by
      rw [hsame, hseat] at hnobody
      cases hnobody
    have hrank' : (s.heed desk).rank ≤ s.rank := by
      rw [hheed, hrank]
      cases items with
      | nil =>
        -- An enabled backlog answers with nothing at the deadline only.
        have hcondition : ¬(s.desk.backlog.enabled = true ∧ s.desk.now < w.deadline) := by
          rintro ⟨henabled, hearly⟩
          rcases hcause with hlook | ⟨hdue, -, -⟩
          · exact Backlog.look_ne_nil henabled hlook
          · omega
        rw [if_neg hcondition]
        show 3 * desk.wakers + 8 ≤ 3 * s.desk.wakers + 8 + 1
        omega
      | cons m items =>
        have hopen : s.desk.backlog.enabled = true := by
          rcases hcause with hlook | ⟨-, hnothing, -⟩
          · exact Backlog.enabled_of_look hlook
          · cases hnothing
        have htwo : rank { s with desk, phase := .holding (m :: items) } = 2 :=
          if_pos ⟨henabled.trans hopen, List.cons_ne_nil _ _⟩
        show rank { s with desk, phase := .holding (m :: items) } ≤ _
        rw [htwo]
        unfold cost
        split <;> omega
    refine .inr ?_
    rw [left, left, desk_heed]
    exact Nat.add_lt_add_of_lt_of_le hless hrank'

theorem rank_wake (s : Scene) : rank { s with desk := s.desk.wake } ≤ s.rank := by
  unfold Backlog.Scene.wake
  split
  · exact Nat.le_refl _
  · obtain ⟨desk, phase, patience⟩ := s
    have hcost : 3 * (desk.wakers - 1) + 8 ≤ 3 * desk.wakers + 8 := by omega
    cases phase with
    | waiting =>
      simp only [rank, cost, List.forall_mem_map, Backlog.Scene.deadline_wake]
      split <;> omega
    | holding batch =>
      simp only [rank, cost]
      split <;> omega
    | checking => exact hcost
    | cleared | sending | ended => exact Nat.le_refl _

theorem left_proceeds (h : s.Good) (hrest : 0 < s.patience ∨ s.desk.backlog.enabled = false)
    (hproceeds : Proceeds s s') : s' = s ∨ s'.left < s.left := by
  have hphase_left {phase : Phase} (hrank : rank { s with phase } < s.rank) :
      left { s with phase } < s.left :=
    Nat.add_lt_add_left hrank s.desk.left
  cases hproceeds with
  | begins hphase henabled =>
    have hnobody : s.desk.waiters = [] := h.alone (by simp [hphase])
    have hpatient : 0 < s.patience := hrest.resolve_right (by simp [henabled])
    have hrank : rank { s with desk := s.desk.begin () s.patience, phase := .waiting } = 3 := by
      refine if_pos ⟨henabled, ?_⟩
      simp [Backlog.Scene.begin, hnobody, hpatient]
    refine .inr ?_
    rw [left, left, hrank]
    simp only [rank, hphase, cost, Backlog.Scene.left, Backlog.Scene.begin, hnobody,
      List.nil_append, Backlog.Scene.leftOf, List.length_cons, List.length_nil, Waiter.left]
    omega
  | ends hphase _ =>
    refine .inr (hphase_left ?_)
    simp only [rank, hphase, cost]
    omega
  | heeds hphase heffect => exact left_heed h hphase heffect
  | returns hphase hreturns =>
    refine .inr (hphase_left ?_)
    have hnot : ¬(s.desk.backlog.enabled = true ∧ _ ≠ []) := fun hboth =>
      hreturns.elim hboth.2 fun hdisabled => by simp [hdisabled] at hboth
    simp only [rank, hphase, if_neg hnot, cost]
    omega
  | @clears m rest hphase henabled =>
    refine .inr (hphase_left ?_)
    simp [rank, hphase, henabled]
  | sends hphase =>
    refine .inr (hphase_left ?_)
    simp [rank, hphase]
  | rests _ => exact .inl rfl

/-- Every piece of work that changes anything leaves fewer to come, unless the worker neither waits
for any time nor may end. -/
theorem left_next (h : s.Good) (hrest : 0 < s.patience ∨ s.desk.backlog.enabled = false) {m : Move}
    (hwork : m.isWork = true) : s.next m = s ∨ (s.next m).left < s.left := by
  cases m with
  | wakes =>
    rcases Backlog.Scene.left_next (s := s.desk) (m := .wakes) rfl with hsame | hless
    · exact .inl (congrArg (fun desk => { s with desk }) hsame)
    · exact .inr (Nat.add_lt_add_of_lt_of_le hless s.rank_wake)
  | goesOn => exact left_proceeds h hrest s.proceeds_goOn
  | givesUp =>
    show s.giveUp = s ∨ s.giveUp.left < s.left
    rcases s.giveUp_cases with ⟨hphase, hheed⟩ | ⟨-, hsame⟩
    · rw [hheed]
      exact left_heed h hphase (s.desk.effect_giveUp 0)
    · exact .inl hsame
  | enqueues | shutsDown | finishes | passes => cases hwork

theorem patience_heed (s : Scene) (desk : Backlog.Scene Unit PendingMessage) :
    (s.heed desk).patience = s.patience := by
  unfold heed
  split <;> rfl

theorem patience_next (s : Scene) (m : Move) : (s.next m).patience = s.patience := by
  cases m with
  | goesOn =>
    have hproceeds := s.proceeds_goOn
    show s.goOn.patience = _
    generalize s.goOn = s' at hproceeds
    cases hproceeds with
    | heeds => exact patience_heed s _
    | begins | ends | returns | clears | sends | rests => rfl
  | givesUp =>
    show s.giveUp.patience = _
    rcases s.giveUp_cases with ⟨-, hheed⟩ | ⟨-, hsame⟩
    · rw [hheed, patience_heed]
    · rw [hsame]
  | passes ms =>
    show (s.pass ms).patience = _
    unfold pass
    split <;> rfl
  | enqueues | shutsDown | wakes | finishes => rfl

theorem patience_run (s : Scene) (moves : List Move) : (s.run moves).patience = s.patience := by
  induction moves generalizing s with
  | nil => rfl
  | cons m moves ih => exact (ih (s.next m)).trans (s.patience_next m)

/-- A worker that waits for some time, or may end, comes to rest. -/
theorem Good.comes_to_rest (h : s.Good)
    (hrest : 0 < s.patience ∨ s.desk.backlog.enabled = false) :
    (∀ works, s.Works works → works.length ≤ s.left) ∧
      ∃ works, s.Works works ∧ (s.run works).Quiet := by
  have hkeeps (s : Scene) (m : Move)
      (h : s.Good ∧ (0 < s.patience ∨ s.desk.backlog.enabled = false)) (_ : m.isWork = true) :
      (s.next m).Good ∧ (0 < (s.next m).patience ∨ (s.next m).desk.backlog.enabled = false) := by
    refine ⟨h.1.next m, h.2.imp (fun hpatience => ?_) fun hdisabled => ?_⟩
    · rw [patience_next]
      exact hpatience
    · exact ((does_next h.1 m).of_disabled hdisabled).1
  have hless (s : Scene) (m : Move)
      (h : s.Good ∧ (0 < s.patience ∨ s.desk.backlog.enabled = false)) (hwork : m.isWork = true) :
      s.next m = s ∨ (s.next m).left < s.left :=
    left_next h.1 h.2 hwork
  exact ⟨fun works hworks => hworks.length_le _ left hkeeps hless ⟨h, hrest⟩,
    Pieces.exists_quiet _ left hkeeps hless ⟨h, hrest⟩⟩

end PeerCluster.BacklogWorker.Scene
