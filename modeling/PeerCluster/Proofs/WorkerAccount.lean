import PeerCluster.BacklogWorker
import PeerCluster.Proofs.BacklogAccount

/-!
# What the worker owes

The worker of a backlog takes everything that waits and sends it, one message after the other. All
that it does is listed once, in `Does`, with the messages that are accepted and begun meanwhile.

**The account** (`Account`). What has been begun, and then what the worker holds, is the front of what
was accepted, in the same order. As long as the backlog is enabled the rest is what still waits
(`Does.account`). In a disabled backlog nothing is accepted, and of what is held only the message that
the worker is committed to is begun (`Does.of_disabled`).
-/

namespace PeerCluster.BacklogWorker

/-- The messages that the worker has taken and not begun to send. -/
def held (w : BacklogWorker) : List PendingMessage :=
  match w.phase with
  | .holding batch => batch
  | .cleared m rest => m :: rest
  | .sending rest => rest
  | .checking | .waiting | .ended => []

/-- The message that the worker will send whatever happens. -/
def committed (w : BacklogWorker) : List PendingMessage :=
  match w.phase with
  | .cleared m _ => [m]
  | _ => []

theorem length_committed (w : BacklogWorker) : w.committed.length ≤ 1 := by
  unfold committed
  split
  · exact Nat.le_refl _
  · exact Nat.zero_le _

/-- What a worker does while it accepts some messages and begins to send others. -/
inductive Does (w : BacklogWorker) :
    List PendingMessage → List PendingMessage → BacklogWorker → Prop
  | rests : Does w [] [] w
  | enqueues (m : PendingMessage) :
    Does w (if (w.enqueue m).1 then [m] else []) [] (w.enqueue m).2
  | shutsDown : Does w [] [] w.shutdown
  | steps {w' : BacklogWorker} : w.move = .steps w' → Does w [] [] w'
  | sends {m : PendingMessage} {w' : BacklogWorker} : w.move = .sends m w' → Does w [] [m] w'
  | timesOut : Does w [] [] w.timeOut
  | sent : Does w [] [] w.sent

/-- What has been accepted has been sent or is held, or still waits unless it was dropped. -/
structure Account (accepted begun : List PendingMessage) (w : BacklogWorker) : Prop where
  inOrder : begun ++ w.held <+: accepted
  whole : w.backlog.enabled = true → accepted = begun ++ w.held ++ w.backlog.items.toList

section Step

variable {w w' : BacklogWorker} {accepted begun a b : List PendingMessage}

theorem Account.of_same (h : Account accepted begun w) (hbacklog : w'.backlog = w.backlog)
    (hheld : w'.held = w.held) : Account accepted begun w' := by
  refine ⟨?_, fun henabled => ?_⟩
  · rw [hheld]
    exact h.inOrder
  · rw [hbacklog] at henabled ⊢
    rw [hheld]
    exact h.whole henabled

/-- In a disabled backlog, what is held may be dropped. -/
theorem Account.of_disabled (h : Account accepted begun w) (hdisabled : w'.backlog.enabled = false)
    (hheld : w'.held = [] ∨ w'.held = w.held) : Account accepted begun w' := by
  refine ⟨?_, fun henabled => absurd henabled (by simp [hdisabled])⟩
  rcases hheld with hheld | hheld
  · rw [hheld, List.append_nil]
    exact (List.prefix_append _ _).trans h.inOrder
  · rw [hheld]
    exact h.inOrder

theorem Account.enqueue (h : Account accepted begun w) (m : PendingMessage) :
    Account (accepted ++ if (w.enqueue m).1 then [m] else []) begun (w.enqueue m).2 := by
  have hpasses := (w.backlog.passes_add m).items
  cases haccepted : (w.backlog.add m).1 with
  | false =>
    have haccepted' : (w.enqueue m).1 = false := haccepted
    rw [haccepted', if_neg Bool.false_ne_true, List.append_nil]
    exact h.of_same (Backlog.add_of_refused haccepted) rfl
  | true =>
    have haccepted' : (w.enqueue m).1 = true := haccepted
    have henabled : w.backlog.enabled = true := by
      cases hstate : w.backlog.enabled with
      | true => rfl
      | false =>
        have hrefused := (Backlog.add_refuses_iff (a := m)).2 (.inl hstate)
        rw [haccepted] at hrefused
        cases hrefused
    rw [haccepted, if_pos rfl, List.nil_append] at hpasses
    rw [haccepted', if_pos rfl]
    refine ⟨h.inOrder.trans (List.prefix_append _ _), fun _ => ?_⟩
    show accepted ++ [m] = begun ++ w.held ++ (w.backlog.add m).2.items.toList
    rw [← hpasses, ← List.append_assoc, ← h.whole henabled]

/-- What a step of the worker itself does: the backlog and what is held stay, what is held is dropped
because the backlog is disabled, or everything that waits is taken. -/
theorem steps_cases (h : w.move = .steps w') :
    (w'.backlog = w.backlog ∧ w'.held = w.held ∧
        (w.backlog.enabled = true ∨ w'.committed = [])) ∨
      (w'.backlog = w.backlog ∧ w'.held = [] ∧ w.backlog.enabled = false ∧ w'.committed = []) ∨
      (w'.backlog = w.backlog.takeAll.2 ∧ w'.held = w.backlog.items.toList ∧ w.held = [] ∧
        w.backlog.enabled = true) := by
  obtain ⟨backlog, phase⟩ := w
  cases phase with
  | checking =>
    obtain rfl := Move.steps.inj h
    cases backlog.enabled <;> exact .inl ⟨rfl, rfl, .inr rfl⟩
  | waiting =>
    cases henabled : backlog.enabled with
    | false =>
      simp only [move, henabled, Bool.not_false, if_true] at h
      obtain rfl := Move.steps.inj h
      exact .inl ⟨rfl, rfl, .inr rfl⟩
    | true =>
      cases hempty : backlog.isEmpty with
      | true => simp [move, henabled, hempty] at h
      | false =>
        simp only [move, henabled, hempty, Bool.not_true, Bool.false_eq_true, if_false] at h
        obtain rfl := Move.steps.inj h
        exact .inr (.inr ⟨rfl, rfl, rfl, rfl⟩)
  | holding batch =>
    cases batch with
    | nil =>
      obtain rfl := Move.steps.inj h
      exact .inl ⟨rfl, rfl, .inr rfl⟩
    | cons m rest =>
      obtain rfl := Move.steps.inj h
      cases henabled : backlog.enabled with
      | true => exact .inl ⟨rfl, rfl, .inl rfl⟩
      | false => exact .inr (.inl ⟨rfl, rfl, rfl, rfl⟩)
  | cleared m rest => cases h
  | sending rest => cases h
  | ended => cases h

theorem sends_cases {m : PendingMessage} (h : w.move = .sends m w') :
    w'.backlog = w.backlog ∧ w.held = m :: w'.held ∧ w.committed = [m] ∧ w'.committed = [] := by
  obtain ⟨backlog, phase⟩ := w
  cases phase with
  | cleared m rest =>
    cases h
    exact ⟨rfl, rfl, rfl, rfl⟩
  | waiting =>
    cases henabled : backlog.enabled <;> cases hempty : backlog.isEmpty <;>
      simp [move, henabled, hempty] at h
  | holding batch => cases batch <;> cases h
  | checking => cases h
  | sending rest => cases h
  | ended => cases h

theorem Does.account (h : Does w a b w') (haccount : Account accepted begun w) :
    Account (accepted ++ a) (begun ++ b) w' := by
  cases h with
  | rests =>
    rw [List.append_nil, List.append_nil]
    exact haccount
  | enqueues m =>
    rw [List.append_nil]
    exact haccount.enqueue m
  | shutsDown =>
    rw [List.append_nil, List.append_nil]
    exact haccount.of_disabled rfl (.inr rfl)
  | steps hmove =>
    rw [List.append_nil, List.append_nil]
    rcases steps_cases hmove with ⟨hbacklog, hheld, -⟩ | ⟨hbacklog, hheld, hdisabled, -⟩ |
      ⟨hbacklog, hheld, hnone, henabled⟩
    · exact haccount.of_same hbacklog hheld
    · exact haccount.of_disabled (by rw [hbacklog, hdisabled]) (.inl hheld)
    · have hwhole := haccount.whole henabled
      rw [hnone, List.append_nil] at hwhole
      refine ⟨?_, fun _ => ?_⟩
      · rw [hheld]
        exact ⟨[], by rw [List.append_nil, hwhole]⟩
      · rw [hheld, hbacklog, hwhole]
        exact (List.append_nil _).symm
  | @sends m _ hmove =>
    obtain ⟨hbacklog, hheld, -, -⟩ := sends_cases hmove
    have hmoved : begun ++ [m] ++ w'.held = begun ++ w.held := by
      rw [hheld, List.append_assoc, List.singleton_append]
    rw [List.append_nil]
    refine ⟨?_, fun henabled => ?_⟩
    · rw [hmoved]
      exact haccount.inOrder
    · rw [hmoved, hbacklog]
      exact haccount.whole (by rw [← hbacklog]; exact henabled)
  | timesOut =>
    rw [List.append_nil, List.append_nil]
    obtain ⟨backlog, phase⟩ := w
    cases phase <;> exact haccount.of_same rfl rfl
  | sent =>
    rw [List.append_nil, List.append_nil]
    obtain ⟨backlog, phase⟩ := w
    cases phase <;> exact haccount.of_same rfl rfl

/-- In a disabled backlog nothing is accepted, and only what the worker is committed to is sent. -/
theorem Does.of_disabled (h : Does w a b w') (hdisabled : w.backlog.enabled = false) :
    w'.backlog.enabled = false ∧ a = [] ∧ b ++ w'.committed <+: w.committed := by
  cases h with
  | rests => exact ⟨hdisabled, rfl, List.prefix_refl _⟩
  | enqueues m =>
    have hrefused : (w.enqueue m).1 = false := Backlog.add_refuses_iff.2 (.inl hdisabled)
    have hsame : (w.enqueue m).2.backlog = w.backlog := Backlog.add_of_refused hrefused
    rw [hsame, hrefused]
    exact ⟨hdisabled, rfl, List.prefix_refl _⟩
  | shutsDown => exact ⟨rfl, rfl, List.prefix_refl _⟩
  | steps hmove =>
    rcases steps_cases hmove with ⟨hbacklog, -, henabled | hnone⟩ | ⟨hbacklog, -, -, hnone⟩ |
      ⟨-, -, -, henabled⟩
    · rw [hdisabled] at henabled
      cases henabled
    · rw [hbacklog, hnone]
      exact ⟨hdisabled, rfl, List.nil_prefix⟩
    · rw [hbacklog, hnone]
      exact ⟨hdisabled, rfl, List.nil_prefix⟩
    · rw [hdisabled] at henabled
      cases henabled
  | sends hmove =>
    obtain ⟨hbacklog, -, hcommitted, hnone⟩ := sends_cases hmove
    rw [hbacklog, hcommitted, hnone]
    exact ⟨hdisabled, rfl, List.prefix_refl _⟩
  | timesOut =>
    obtain ⟨backlog, phase⟩ := w
    cases phase <;> exact ⟨hdisabled, rfl, List.prefix_refl _⟩
  | sent =>
    obtain ⟨backlog, phase⟩ := w
    cases phase <;> exact ⟨hdisabled, rfl, List.prefix_refl _⟩

end Step

end PeerCluster.BacklogWorker
