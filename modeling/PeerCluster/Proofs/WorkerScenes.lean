import PeerCluster.BacklogWorker.Calls
import PeerCluster.Proofs.BacklogWaits
import PeerCluster.Proofs.WorkerAccount

/-!
# The worker among other calls

In a scene every call is cut into pieces, the worker's wait for messages among them. Each piece is one
of the things that the worker does, or nothing to it (`does_next`): while it waits, looking into the
backlog is the step that takes the messages, and giving up is the end of its time to wait. All that a
piece of the worker can do is listed once, in `Proceeds`.

What holds of every scene (`Good`) is that the worker waits exactly in its phase of waiting, nobody
else does, and it has only ended if the backlog is disabled.
-/

namespace PeerCluster.BacklogWorker.Scene

open Backlog (Waiter Effect)

/-- What holds of every scene. -/
structure Good (s : Scene) : Prop where
  desk : s.desk.Sound
  waits : s.phase = .waiting → ∃ w, s.desk.waiters = [w]
  alone : s.phase ≠ .waiting → s.desk.waiters = []
  ended : s.phase = .ended → s.desk.backlog.enabled = false

/-- What the next piece of the worker does. -/
inductive Proceeds (s : Scene) : Scene → Prop
  | begins : s.phase = .checking → s.desk.backlog.enabled = true →
    Proceeds s { s with desk := s.desk.begin () s.patience, phase := .waiting }
  | ends : s.phase = .checking → s.desk.backlog.enabled = false →
    Proceeds s { s with phase := .ended }
  | heeds {desk : Backlog.Scene Unit PendingMessage} : s.phase = .waiting → Effect s.desk desk →
    Proceeds s (s.heed desk)
  | returns {batch : List PendingMessage} : s.phase = .holding batch →
    (batch = [] ∨ s.desk.backlog.enabled = false) → Proceeds s { s with phase := .checking }
  | clears {m : PendingMessage} {rest : List PendingMessage} : s.phase = .holding (m :: rest) →
    s.desk.backlog.enabled = true → Proceeds s { s with phase := .cleared m rest }
  | sends {m : PendingMessage} {rest : List PendingMessage} : s.phase = .cleared m rest →
    Proceeds s { s with phase := .sending rest }
  | rests : (∃ rest, s.phase = .sending rest) ∨ s.phase = .ended → Proceeds s s

variable {s s' : Scene} {desk : Backlog.Scene Unit PendingMessage}

theorem proceeds_goOn (s : Scene) : Proceeds s s.goOn := by
  obtain ⟨desk, phase, patience⟩ := s
  cases phase with
  | checking =>
    show Proceeds _ (enter _ (if desk.backlog.enabled then .waiting else .ended))
    cases henabled : desk.backlog.enabled with
    | true => exact .begins rfl henabled
    | false => exact .ends rfl henabled
  | waiting => exact .heeds rfl (desk.effect_goOn 0)
  | holding batch =>
    cases batch with
    | nil => exact .returns rfl (.inl rfl)
    | cons m rest =>
      show Proceeds _ (enter _ (if desk.backlog.enabled then .cleared m rest else .checking))
      cases henabled : desk.backlog.enabled with
      | true => exact .clears rfl henabled
      | false => exact .returns rfl (.inr henabled)
  | cleared m rest => exact .sends rfl
  | sending rest => exact .rests (.inl ⟨rest, rfl⟩)
  | ended => exact .rests (.inr rfl)

theorem giveUp_cases (s : Scene) :
    (s.phase = .waiting ∧ s.giveUp = s.heed (s.desk.giveUp 0)) ∨
      (s.phase ≠ .waiting ∧ s.giveUp = s) := by
  obtain ⟨desk, phase, patience⟩ := s
  cases phase with
  | waiting => exact .inl ⟨rfl, rfl⟩
  | _ => exact .inr ⟨nofun, rfl⟩

/-! ## The worker's wait -/

/-- What becomes of the only wait: it goes on, or it ends with what was looked for or with nothing. -/
theorem heed_cases {w : Waiter Unit} (hseat : s.desk.waiters = [w]) (heffect : Effect s.desk desk) :
    ((∃ w', desk.waiters = [w'] ∧ w'.deadline = w.deadline) ∧ desk.backlog = s.desk.backlog ∧
        s.heed desk = { s with desk }) ∨
      ∃ items, desk.waiters = [] ∧
        s.heed desk =
          { s with desk, phase := if items.isEmpty then .checking else .holding items } ∧
        (s.desk.backlog.look = (some items, desk.backlog) ∨
          w.deadline ≤ s.desk.now ∧ items = [] ∧ desk.backlog = s.desk.backlog) := by
  have hsplit {before after : List (Waiter Unit)} {w₀ : Waiter Unit}
      (h : s.desk.waiters = before ++ w₀ :: after) : before = [] ∧ after = [] ∧ w₀ = w := by
    rw [hseat] at h
    cases before with
    | nil =>
      cases h
      exact ⟨rfl, rfl, rfl⟩
    | cons _ before => simp at h
  cases heffect with
  | nothing => exact .inl ⟨⟨w, hseat, rfl⟩, rfl, by simp only [heed, hseat]⟩
  | listens h _ | sleeps h _ _ _ | stirs h _ _ =>
    obtain ⟨rfl, rfl, rfl⟩ := hsplit h
    exact .inl ⟨⟨_, rfl, rfl⟩, rfl, rfl⟩
  | @ends _ _ _ items _ h hcause =>
    obtain ⟨rfl, rfl, rfl⟩ := hsplit h
    refine .inr ⟨items, rfl, rfl, hcause.imp And.right And.right⟩

/-- A piece of the worker's wait is nothing to the worker, or a step of it. -/
theorem does_heed (h : s.Good) (hphase : s.phase = .waiting) (heffect : Effect s.desk desk) :
    Does s.worker [] [] (s.heed desk).worker := by
  obtain ⟨w, hseat⟩ := h.waits hphase
  rcases heed_cases hseat heffect with ⟨-, hbacklog, hheed⟩ | ⟨items, -, hheed, hcause⟩
  · have hsame : (s.heed desk).worker = s.worker := by
      rw [hheed, worker, worker, hbacklog]
    rw [hsame]
    exact .rests
  · rw [hheed]
    rcases hcause with hlook | ⟨-, rfl, hbacklog⟩
    · rcases Backlog.look_cases s.desk.backlog with ⟨hdisabled, h⟩ | ⟨-, -, h⟩ |
        ⟨henabled, hempty, h⟩ <;> rw [h] at hlook <;> obtain ⟨hitems, hbacklog⟩ := Prod.mk.inj hlook
      · obtain rfl := Option.some.inj hitems
        refine .steps ?_
        simp only [worker, move, hphase, hdisabled, ← hbacklog, Bool.not_false, if_true,
          List.isEmpty_nil]
      · cases hitems
      · obtain rfl := Option.some.inj hitems
        have hnonempty : s.desk.backlog.items.toList.isEmpty = false := by
          rw [Array.isEmpty_toList]
          exact hempty
        refine .steps ?_
        simp only [worker, move, hphase, henabled, hempty, ← hbacklog, hnonempty, Bool.not_true,
          Bool.false_eq_true, if_false]
        rfl
    · have htimesOut : s.worker.timeOut = ⟨s.desk.backlog, .checking⟩ := by
        simp only [worker, timeOut, hphase]
      have hdoes := Does.timesOut (w := s.worker)
      rw [htimesOut, ← hbacklog] at hdoes
      exact hdoes

/-! ## One piece after the other -/

theorem Good.heed (h : s.Good) (hphase : s.phase = .waiting) (heffect : Effect s.desk desk) :
    (s.heed desk).Good := by
  have hsound := h.desk.effect heffect
  obtain ⟨w, hseat⟩ := h.waits hphase
  rcases heed_cases hseat heffect with ⟨⟨w', hwaits, -⟩, -, hheed⟩ | ⟨items, hnobody, hheed, -⟩
  · rw [hheed]
    refine ⟨hsound, fun _ => ⟨w', hwaits⟩, fun hnot => absurd hphase hnot, fun hended => ?_⟩
    cases hphase.symm.trans hended
  · rw [hheed]
    cases items.isEmpty <;> exact ⟨hsound, nofun, fun _ => hnobody, nofun⟩

theorem Good.proceeds (h : s.Good) (hproceeds : Proceeds s s') : s'.Good := by
  cases hproceeds with
  | begins hphase _ =>
    have hnobody : s.desk.waiters = [] := h.alone (by simp [hphase])
    refine ⟨h.desk.next (.begins () s.patience),
      fun _ => ⟨⟨(), s.desk.now + s.patience, .arriving, false⟩, ?_⟩, fun hnot => absurd rfl hnot,
      nofun⟩
    show s.desk.waiters ++ _ = _
    rw [hnobody]
    rfl
  | ends hphase hdisabled =>
    exact ⟨h.desk, nofun, fun _ => h.alone (by simp [hphase]), fun _ => hdisabled⟩
  | heeds hphase heffect => exact h.heed hphase heffect
  | returns hphase _ | clears hphase _ | sends hphase =>
    exact ⟨h.desk, nofun, fun _ => h.alone (by simp [hphase]), nofun⟩
  | rests _ => exact h

/-- A piece of somebody else's call, or time that passes. -/
theorem Good.of_desk (h : s.Good) (hsound : desk.Sound)
    (hwaiters : ∃ f : Waiter Unit → Waiter Unit, desk.waiters = s.desk.waiters.map f)
    (henabled : s.desk.backlog.enabled = false → desk.backlog.enabled = false) :
    Good { s with desk } := by
  obtain ⟨f, hwaiters⟩ := hwaiters
  refine ⟨hsound, fun hphase => ?_, fun hphase => ?_, fun hended => henabled (h.ended hended)⟩
  · obtain ⟨w, hseat⟩ := h.waits hphase
    exact ⟨f w, by rw [hwaiters, hseat]; rfl⟩
  · rw [hwaiters, h.alone hphase]
    rfl

theorem backlog_wake (desk : Backlog.Scene Unit PendingMessage) :
    desk.wake.backlog = desk.backlog := by
  unfold Backlog.Scene.wake
  split <;> rfl

theorem backlog_pass (s : Scene) (ms : Nat) : (s.pass ms).desk.backlog = s.desk.backlog := by
  have hpass : (s.desk.pass ms).backlog = s.desk.backlog := by
    unfold Backlog.Scene.pass
    split <;> rfl
  unfold pass
  split
  · exact hpass
  · exact hpass
  · exact hpass
  · rfl

theorem phase_pass (s : Scene) (ms : Nat) : (s.pass ms).phase = s.phase := by
  unfold pass
  split <;> rfl

theorem enabled_add (b : Backlog PendingMessage) (m : PendingMessage) :
    (b.add m).2.enabled = b.enabled := by
  unfold Backlog.add
  split <;> rfl

theorem good_fresh (maxLength patience : Nat) : (fresh maxLength patience).Good :=
  ⟨Backlog.Scene.sound_fresh maxLength, nofun, fun _ => rfl, nofun⟩

theorem Good.next (h : s.Good) (m : Move) : (s.next m).Good := by
  cases m with
  | enqueues m =>
    refine h.of_desk (h.desk.next (.adds m)) ⟨id, (List.map_id _).symm⟩ fun hdisabled => ?_
    show (s.desk.backlog.add m).2.enabled = false
    rw [enabled_add, hdisabled]
  | shutsDown =>
    exact h.of_desk (h.desk.next (.sets false)) ⟨id, (List.map_id _).symm⟩ fun _ => rfl
  | wakes =>
    refine h.of_desk (h.desk.next .wakes) ?_ ?_ <;> unfold Backlog.Scene.wake <;> split
    · exact ⟨id, (List.map_id _).symm⟩
    · exact ⟨Waiter.wake, rfl⟩
    · exact id
    · exact id
  | goesOn => exact h.proceeds s.proceeds_goOn
  | givesUp =>
    show s.giveUp.Good
    rcases s.giveUp_cases with ⟨hphase, hheed⟩ | ⟨-, hsame⟩
    · rw [hheed]
      exact h.heed hphase (s.desk.effect_giveUp 0)
    · rw [hsame]
      exact h
  | finishes report =>
    obtain ⟨desk, phase, patience⟩ := s
    cases phase with
    | sending rest => exact ⟨h.desk, nofun, fun _ => h.alone nofun, nofun⟩
    | _ => exact h
  | passes ms =>
    have hpass : Good { s with desk := s.desk.pass ms } := by
      refine h.of_desk (h.desk.next (.passes ms)) ?_ ?_ <;> unfold Backlog.Scene.pass <;> split
      · exact ⟨id, (List.map_id _).symm⟩
      · exact ⟨id, (List.map_id _).symm⟩
      · exact id
      · exact id
    show (s.pass ms).Good
    unfold pass
    split
    · exact hpass
    · exact hpass
    · exact hpass
    · exact h

/-- The worker begins to send the message that it is committed to. -/
theorem begun_goesOn (s : Scene) : s.begun .goesOn = s.worker.committed := by
  obtain ⟨desk, phase, patience⟩ := s
  cases phase with
  | waiting =>
    unfold begun
    cases hmove : worker ⟨desk, .waiting, patience⟩ |>.move with
    | sends m w => exact absurd (sends_cases hmove).2.2.1 nofun
    | steps | waits | ended => rfl
  | holding batch => cases batch <;> rfl
  | checking | cleared | sending | ended => rfl

theorem Good.does (h : s.Good) (hproceeds : Proceeds s s') :
    Does s.worker [] s.worker.committed s'.worker := by
  have hnone (hphase : ∀ m rest, s.phase ≠ .cleared m rest) : s.worker.committed = [] := by
    unfold committed
    split
    · next m rest hcleared => exact absurd hcleared (hphase m rest)
    · rfl
  cases hproceeds with
  | begins hphase henabled =>
    rw [hnone (by simp [hphase])]
    refine .steps ?_
    simp only [worker, move, hphase, henabled, if_true]
    rfl
  | ends hphase hdisabled =>
    rw [hnone (by simp [hphase])]
    refine .steps ?_
    simp only [worker, move, hphase, hdisabled, Bool.false_eq_true, if_false]
  | heeds hphase heffect =>
    rw [hnone (by simp [hphase])]
    exact does_heed h hphase heffect
  | @returns batch hphase hreturns =>
    rw [hnone (by simp [hphase])]
    refine .steps ?_
    cases batch with
    | nil => simp only [worker, move, hphase]
    | cons m rest =>
      have hdisabled := hreturns.resolve_left (List.cons_ne_nil m rest)
      simp only [worker, move, hphase, hdisabled, Bool.false_eq_true, if_false]
  | clears hphase henabled =>
    rw [hnone (by simp [hphase])]
    refine .steps ?_
    simp only [worker, move, hphase, henabled, if_true]
  | @sends m rest hphase =>
    have hcommitted : s.worker.committed = [m] := by simp only [committed, worker, hphase]
    rw [hcommitted]
    refine .sends ?_
    simp only [worker, move, hphase]
  | rests hphase =>
    rw [hnone fun m rest hcleared => ?_]
    · exact .rests
    · rcases hphase with ⟨_, hphase⟩ | hphase <;> cases hphase.symm.trans hcleared

/-- Every move is nothing to the worker, or one of the things that it does. -/
theorem does_next (h : s.Good) (m : Move) :
    Does s.worker (s.accepted m) (s.begun m) (s.next m).worker := by
  cases m with
  | enqueues m => exact .enqueues m
  | shutsDown => exact .shutsDown
  | wakes =>
    show Does s.worker [] [] ⟨s.desk.wake.backlog, s.phase⟩
    rw [backlog_wake]
    exact .rests
  | goesOn =>
    rw [begun_goesOn]
    exact h.does s.proceeds_goOn
  | givesUp =>
    show Does s.worker [] [] s.giveUp.worker
    rcases s.giveUp_cases with ⟨hphase, hheed⟩ | ⟨-, hsame⟩
    · rw [hheed]
      exact does_heed h hphase (s.desk.effect_giveUp 0)
    · rw [hsame]
      exact .rests
  | finishes report =>
    have hsent : (s.next (.finishes report)).worker = s.worker.sent := by
      obtain ⟨desk, phase, patience⟩ := s
      cases phase <;> rfl
    rw [hsent]
    exact .sent
  | passes ms =>
    show Does s.worker [] [] ⟨(s.pass ms).desk.backlog, (s.pass ms).phase⟩
    rw [backlog_pass, phase_pass]
    exact .rests

end PeerCluster.BacklogWorker.Scene
