import PeerCluster.Proofs.WorkerRest

/-!
# The worker sends what is accepted, in order

Messages are left in a backlog at any time, and one worker sends them, one after the other. It takes
everything that waits at once and looks at the backlog again before each message, so a shutdown may
find it with a batch half sent, or about to send a message that it has already decided on.

**Theorem (`worker_sends_in_order`).** The messages that the worker begins to send are the first of the
accepted ones, each once and in their order, whatever becomes of each. Where the worker sleeps, all
have been sent. After a shutdown nothing is accepted, at most one more message is begun, and the
worker ends.
-/

namespace PeerCluster.BacklogWorker.Scene

open Backlog (Effect)

variable {s : Scene}

/-! ## Runs -/

theorem Good.run (h : s.Good) (moves : List Move) : (s.run moves).Good := by
  induction moves generalizing s with
  | nil => exact h
  | cons m moves ih => exact ih (h.next m)

theorem Good.account {a b : List PendingMessage} (h : s.Good) (haccount : Account a b s.worker)
    (moves : List Move) :
    Account (a ++ Pieces.along Scene.next accepted s moves)
      (b ++ Pieces.along Scene.next begun s moves) (s.run moves).worker := by
  induction moves generalizing s a b with
  | nil =>
    rw [Pieces.along, Pieces.along, List.append_nil, List.append_nil]
    exact haccount
  | cons m moves ih =>
    rw [Pieces.along, Pieces.along, ← List.append_assoc, ← List.append_assoc]
    exact ih (h.next m) ((does_next h m).account haccount)

/-- What has been accepted by the time that the worker sleeps has been sent. -/
theorem Good.sent_when_idle {a b : List PendingMessage} (h : s.Good)
    (haccount : Account a b s.worker) (hidle : s.Idle) : b = a := by
  obtain ⟨henabled, hheld, hitems⟩ := h.of_idle hidle
  have hwhole := haccount.whole henabled
  have hnothing : s.worker.backlog.items.toList = [] := hitems
  rw [hheld, hnothing, List.append_nil, List.append_nil] at hwhole
  exact hwhole.symm

/-- Once the backlog is disabled, nothing is accepted any more and only what the worker is committed
to is sent. -/
theorem Good.run_of_disabled (h : s.Good) (hdisabled : s.desk.backlog.enabled = false)
    (moves : List Move) :
    (s.run moves).desk.backlog.enabled = false ∧ Pieces.along Scene.next accepted s moves = [] ∧
      Pieces.along Scene.next begun s moves ++ (s.run moves).worker.committed <+:
        s.worker.committed := by
  induction moves generalizing s with
  | nil => exact ⟨hdisabled, rfl, List.prefix_refl _⟩
  | cons m moves ih =>
    obtain ⟨hstill, hnone, hfirst⟩ := (does_next h m).of_disabled hdisabled
    obtain ⟨hend, hnever, hrest⟩ := ih (h.next m) hstill
    refine ⟨hend, by rw [Pieces.along, hnone, hnever]; rfl, ?_⟩
    rw [Pieces.along, List.append_assoc]
    exact ((List.prefix_append_right_inj _).2 hrest).trans hfirst

/-- Only a shutdown disables the backlog. -/
theorem enabled_next (s : Scene) {m : Move} (hm : m ≠ .shutsDown) :
    (s.next m).desk.backlog.enabled = s.desk.backlog.enabled := by
  have hheed {desk : Backlog.Scene Unit PendingMessage} (heffect : Effect s.desk desk) :
      (s.heed desk).desk.backlog.enabled = s.desk.backlog.enabled := by
    rw [desk_heed]
    exact (Backlog.Scene.backlog_effect heffect).1
  cases m with
  | enqueues m => exact enabled_add s.desk.backlog m
  | shutsDown => exact absurd rfl hm
  | wakes => exact congrArg Backlog.enabled (backlog_wake s.desk)
  | goesOn =>
    have hproceeds := s.proceeds_goOn
    show s.goOn.desk.backlog.enabled = _
    generalize s.goOn = s' at hproceeds
    cases hproceeds with
    | heeds _ heffect => exact hheed heffect
    | begins | ends | returns | clears | sends | rests => rfl
  | givesUp =>
    show s.giveUp.desk.backlog.enabled = _
    rcases s.giveUp_cases with ⟨-, h⟩ | ⟨-, hsame⟩
    · rw [h]
      exact hheed (s.desk.effect_giveUp 0)
    · rw [hsame]
  | finishes report => rfl
  | passes ms => exact congrArg Backlog.enabled (s.backlog_pass ms)

theorem enabled_run (s : Scene) {moves : List Move} (hmoves : .shutsDown ∉ moves) :
    (s.run moves).desk.backlog.enabled = s.desk.backlog.enabled := by
  induction moves generalizing s with
  | nil => rfl
  | cons m moves ih =>
    rw [List.mem_cons, not_or] at hmoves
    exact (ih (s.next m) hmoves.2).trans (s.enabled_next (Ne.symm hmoves.1))

/-- A shutdown is for good. -/
theorem disabled_run {moves : List Move} (h : s.Good) (hmoves : .shutsDown ∈ moves) :
    (s.run moves).desk.backlog.enabled = false := by
  obtain ⟨before, after, rfl⟩ := List.append_of_mem hmoves
  have hrun : s.run (before ++ .shutsDown :: after) = ((s.run before).next .shutsDown).run after :=
    List.foldl_append ..
  rw [hrun]
  exact (((h.run before).next .shutsDown).run_of_disabled rfl after).1

/-- Once the backlog is disabled, the worker ends two steps after the message that it sends is done. -/
theorem ended_of_finished (hdisabled : s.desk.backlog.enabled = false)
    {rest : List PendingMessage} (hphase : s.phase = .sending rest)
    (report : Except DeliveryError Unit) :
    (s.run [.finishes report, .goesOn, .goesOn]).phase = .ended := by
  obtain ⟨desk, phase, patience⟩ := s
  cases hphase
  have hdisabled : desk.backlog.enabled = false := hdisabled
  cases rest with
  | nil =>
    show (enter _ (if desk.backlog.enabled then .waiting else .ended)).phase = .ended
    rw [hdisabled]
    rfl
  | cons m rest =>
    show (goOn (enter _ (if desk.backlog.enabled then .cleared m rest else .checking))).phase =
      .ended
    rw [hdisabled]
    show (enter _ (if desk.backlog.enabled then .waiting else .ended)).phase = .ended
    rw [hdisabled]
    rfl

/-! ## Order -/

/-- **The worker sends what is accepted, in order and once.** Whatever comes between its steps:

* the messages that it begins to send are the first of those that were accepted, in their order;
* the report of one has no influence on those that follow it;
* without a shutdown, when all is quiet and no message is being sent the worker is idle, and when it
  is idle every accepted message has been sent;
* after a shutdown no message is accepted, and at most one is begun, which the worker was committed
  to already; when all is quiet and no message is being sent the worker has ended, at the latest two
  steps after the one that is being sent is done;
* a worker that waits for any time at all, or has been shut down, comes to rest in between, after a
  bounded number of pieces and in any order. -/
theorem worker_sends_in_order (maxLength patience : Nat) (moves : List Move) :
    let start := fresh maxLength patience
    let s := start.run moves
    Pieces.along Scene.next begun start moves <+: Pieces.along Scene.next accepted start moves ∧
    (∀ rest report, s.phase = .sending rest →
      (s.next (.finishes report)).phase = .holding rest) ∧
    (.shutsDown ∉ moves →
      (s.Quiet → (∃ rest, s.phase = .sending rest) ∨ s.Idle) ∧
      (s.Idle → Pieces.along Scene.next begun start moves =
        Pieces.along Scene.next accepted start moves)) ∧
    (∀ more,
      let down := s.next .shutsDown
      let later := down.run more
      (∀ m, (later.worker.enqueue m).1 = false) ∧
      (Pieces.along Scene.next begun down more).length ≤ 1 ∧
      Pieces.along Scene.next begun down more <+: s.worker.committed ∧
      (later.Quiet → (∃ rest, later.phase = .sending rest) ∨ later.phase = .ended) ∧
      ∀ rest report, later.phase = .sending rest →
        (later.run [.finishes report, .goesOn, .goesOn]).phase = .ended) ∧
    (0 < patience ∨ .shutsDown ∈ moves →
      (∀ works, s.Works works → works.length ≤ s.left) ∧
      ∃ works, s.Works works ∧ (s.run works).Quiet) := by
  intro start s
  have hstart : start.Good := good_fresh maxLength patience
  have hgood : s.Good := hstart.run moves
  have haccount : Account (Pieces.along Scene.next accepted start moves)
      (Pieces.along Scene.next begun start moves) s.worker :=
    hstart.account (a := []) (b := [])
      ⟨List.prefix_refl _, fun _ => rfl⟩ moves
  refine ⟨(List.prefix_append _ _).trans haccount.inOrder, fun rest report hphase => ?_,
    fun hmoves => ⟨fun hquiet => hquiet.idle hgood (start.enabled_run hmoves),
      hgood.sent_when_idle haccount⟩, fun more => ?_, fun hrest => ?_⟩
  · show s.worker.sent.phase = _
    simp only [worker, sent, hphase]
  · intro down later
    have hdown : down.Good := hgood.next .shutsDown
    obtain ⟨hdisabled, -, hcommitted⟩ := hdown.run_of_disabled rfl more
    have hprefix := (List.prefix_append _ _).trans hcommitted
    exact ⟨fun m => Backlog.add_refuses_iff.2 (.inl hdisabled),
      Nat.le_trans hprefix.length_le down.worker.length_committed, hprefix,
      fun hquiet => hquiet.ended (hdown.run more) hdisabled,
      fun rest report hphase => ended_of_finished hdisabled hphase report⟩
  · refine hgood.comes_to_rest (hrest.imp (fun hpatience => ?_) fun hmoves => ?_)
    · rw [patience_run]
      exact hpatience
    · exact disabled_run hstart hmoves

/-- Of three messages the first is being sent when the backlog is shut down. It fails, and the worker
ends. -/
example :
    let message (n : Nat) : PendingMessage := ⟨[], ⟨Array.replicate n 0⟩, true⟩
    let start := fresh 0 250
    let moves : List Move := [.goesOn, .goesOn, .goesOn, .enqueues (message 1),
      .enqueues (message 2), .wakes, .goesOn, .goesOn, .goesOn, .wakes, .goesOn, .goesOn,
      .enqueues (message 3), .shutsDown, .enqueues (message 4), .finishes (.error .notConnected),
      .goesOn, .goesOn]
    let s := start.run moves
    (Pieces.along Scene.next accepted start moves).map (fun m => m.payload.size) = [1, 2, 3] ∧
      (Pieces.along Scene.next begun start moves).map (fun m => m.payload.size) = [1] ∧
      s.worker.hasEnded = true := by
  decide +kernel

end PeerCluster.BacklogWorker.Scene
