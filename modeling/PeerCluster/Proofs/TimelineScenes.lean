import PeerCluster.Proofs.BacklogWaits

/-!
# Timelines are scenes

On a timeline a call is one step: who adds an item wakes everybody at once, and who is awake listens,
looks and goes to sleep at once. A scene cuts the calls into pieces. Every step of a timeline is a run
of such pieces (`Shows.add`, `Shows.setEnabled`, `Shows.begin`, `Shows.stepAt`, `Shows.sleep`), so what
holds of every scene holds of timelines.

**Theorem (`Timeline.Played.exists_scene`).** Every timeline on which one call has followed the other
is shown by a scene of overlapping calls. So whoever sleeps on it does so for an empty and enabled
backlog, before its deadline (`Timeline.Played.sleeps_in_time`).
-/

namespace PeerCluster.Backlog

variable {ρ α : Type}

/-- A waiter as a timeline knows it. -/
def Waiter.remover (w : Waiter ρ) : Remover ρ :=
  ⟨w.name, w.deadline, !w.isAsleep⟩

/-- An answer as a timeline knows it. -/
def Answer.ended (e : Answer ρ α) : Ended ρ α :=
  ⟨e.name, e.items, e.time⟩

/-- A scene between two calls looks like a timeline. -/
structure Scene.Shows (s : Scene ρ α) (t : Timeline ρ α) : Prop where
  now : t.now = s.now
  backlog : t.backlog = s.backlog
  removers : t.removers = s.waiters.map Waiter.remover
  ended : t.ended = s.answers.map Answer.ended
  wakers : s.wakers = 0
  between : ∀ w ∈ s.waiters, w.stage ≠ .looking
  early : ∀ w ∈ s.waiters, w.isAsleep = true → s.now < w.deadline

namespace Scene

variable {s s' : Scene ρ α} {t : Timeline ρ α}

theorem shows_fresh (maxLength : Nat) :
    (fresh maxLength : Scene ρ α).Shows { backlog := .empty maxLength } :=
  ⟨rfl, rfl, rfl, rfl, rfl, nofun, nofun⟩

/-! ## One call after the other -/

theorem remover_wake (w : Waiter ρ) :
    w.wake.remover = { w.remover with awake := true } := by
  unfold Waiter.remover
  rw [not_isAsleep_wake, deadline_wake]
  unfold Waiter.wake
  split <;> rfl

theorem stage_wake (w : Waiter ρ) : w.wake.stage = w.stage := by
  unfold Waiter.wake
  split <;> rfl

/-- Who has changed the backlog wakes everybody. -/
theorem Shows.wake (h : s.Shows t) (backlog : Backlog α) :
    Shows (Scene.wake { s with backlog, wakers := s.wakers + 1 })
      { t with backlog, removers := Timeline.wake t.removers } := by
  unfold Scene.wake
  rw [if_neg (Nat.succ_ne_zero _)]
  refine ⟨h.now, rfl, ?_, h.ended, h.wakers, fun w hw => ?_, fun w hw hasleep => ?_⟩
  · simp only [Timeline.wake, h.removers, List.map_map]
    exact List.map_congr_left fun w _ => (remover_wake w).symm
  · obtain ⟨w₀, hw₀, rfl⟩ := List.mem_map.1 hw
    rw [stage_wake]
    exact h.between w₀ hw₀
  · obtain ⟨w₀, -, rfl⟩ := List.mem_map.1 hw
    rw [not_isAsleep_wake] at hasleep
    cases hasleep

theorem Shows.add (h : s.Shows t) (a : α) : (s.run [.adds a, .wakes]).Shows (t.add a).2 := by
  show (s.add a).2.wake.Shows (t.add a).2
  unfold Scene.add Timeline.add
  rw [h.backlog]
  cases hadd : s.backlog.add a with
  | mk accepted backlog =>
    cases accepted with
    | true => exact h.wake backlog
    | false =>
      obtain rfl : s.backlog = backlog := by
        have hrefused := add_of_refused (congrArg Prod.fst hadd)
        rw [hadd] at hrefused
        exact hrefused.symm
      simp only [Bool.false_eq_true, if_false]
      rw [Scene.wake, if_pos h.wakers]
      exact ⟨h.now, rfl, h.removers, h.ended, h.wakers, h.between, h.early⟩

theorem Shows.setEnabled (h : s.Shows t) (enabled : Bool) :
    (s.run [.sets enabled, .wakes]).Shows (t.setEnabled enabled) := by
  show (s.setEnabled enabled).wake.Shows (t.setEnabled enabled)
  unfold Scene.setEnabled Timeline.setEnabled
  rw [h.backlog]
  cases enabled with
  | false => exact h.wake _
  | true =>
    simp only [if_true]
    rw [Scene.wake, if_pos h.wakers]
    exact ⟨h.now, rfl, h.removers, h.ended, h.wakers, h.between, h.early⟩

theorem Shows.begin (h : s.Shows t) (name : ρ) (ms : Nat) :
    (s.run [.begins name ms]).Shows (t.begin name ms) := by
  refine ⟨h.now, h.backlog, ?_, h.ended, h.wakers, fun w hw => ?_, fun w hw hasleep => ?_⟩
  · show t.removers ++ [⟨name, t.now + ms, true⟩] = (s.waiters ++ _).map Waiter.remover
    rw [List.map_append, h.removers, h.now]
    rfl
  · rcases List.mem_append.1 hw with hw | hw
    · exact h.between w hw
    · cases List.mem_singleton.1 hw
      nofun
  · rcases List.mem_append.1 hw with hw | hw
    · exact h.early w hw hasleep
    · cases List.mem_singleton.1 hw
      cases hasleep

/-! ## One remover after the other -/

theorem run_append (s : Scene ρ α) (moves more : List (Move ρ α)) :
    s.run (moves ++ more) = (s.run moves).run more :=
  List.foldl_append ..

/-- A wait ends. -/
theorem Shows.answer (h : s.Shows t) {place : Nat} {w : Waiter ρ} (backlog : Backlog α)
    (items : List α) :
    Shows (Scene.answer { s with backlog } place w items)
      { t with
        backlog
        removers := t.removers.eraseIdx place
        ended := ⟨w.name, items, t.now⟩ :: t.ended } := by
  refine ⟨h.now, rfl, ?_, ?_, h.wakers, fun x hx => ?_, fun x hx hasleep => ?_⟩
  · rw [h.removers, List.eraseIdx_map]
    rfl
  · rw [h.ended, h.now]
    rfl
  · exact h.between x (List.mem_of_mem_eraseIdx hx)
  · exact h.early x (List.mem_of_mem_eraseIdx hx) hasleep

/-- Whoever has found nothing goes to sleep before its deadline. -/
theorem Shows.sleeps (h : s.Shows t) (place : Nat) {w : Waiter ρ} (hearly : s.now < w.deadline) :
    Shows
      { s with waiters := s.waiters.set place { w with stage := .sleeping, woken := false } }
      { t with removers := t.removers.set place { w.remover with awake := false } } := by
  refine ⟨h.now, h.backlog, ?_, h.ended, h.wakers, fun x hx => ?_, fun x hx hasleep => ?_⟩
  · rw [h.removers, List.map_set]
    rfl
  · rcases List.mem_or_eq_of_mem_set hx with hx | rfl
    · exact h.between x hx
    · nofun
  · rcases List.mem_or_eq_of_mem_set hx with hx | rfl
    · exact h.early x hx hasleep
    · exact hearly

/-- Whoever is awake begins to listen. -/
theorem Shows.listens (h : s.Shows t) {place : Nat} {w : Waiter ρ}
    (hplace : s.waiters[place]? = some w) (hawake : w.isAsleep = false) :
    ∃ moves, s.run moves =
      { s with waiters := s.waiters.set place { w with stage := .looking, woken := false } } := by
  have hlt := (List.getElem?_eq_some_iff.1 hplace).1
  have hbegin {s : Scene ρ α} {w : Waiter ρ} (hplace : s.waiters[place]? = some w)
      (hstage : w.stage = .arriving) : s.goOn place =
        { s with waiters := s.waiters.set place { w with stage := .looking, woken := false } } := by
    simp only [goOn, hplace, hstage]
  cases hstage : w.stage with
  | arriving => exact ⟨[.goesOn place], hbegin hplace hstage⟩
  | looking => exact absurd hstage (h.between w (List.mem_of_getElem? hplace))
  | sleeping =>
    have hwoken : w.woken = true := by simpa [Waiter.isAsleep, hstage] using hawake
    have hstirs : s.goOn place =
        { s with waiters := s.waiters.set place { w with stage := .arriving } } := by
      simp only [goOn, hplace, hstage, hwoken, if_true]
    refine ⟨[.goesOn place, .goesOn place], ?_⟩
    show (s.goOn place).goOn place = _
    rw [hstirs, hbegin (List.getElem?_set_self hlt) rfl, List.set_set]

/-- Whoever listens looks into the backlog. -/
theorem goOn_of_listening {place : Nat} {w : Waiter ρ} (hplace : s.waiters[place]? = some w) :
    goOn { s with waiters := s.waiters.set place { w with stage := .looking, woken := false } }
        place =
      match s.backlog.look with
      | (some items, backlog) => Scene.answer { s with backlog } place w items
      | (none, backlog) =>
        { s with
          backlog
          waiters := s.waiters.set place { w with stage := .sleeping, woken := false } } := by
  have hlt := (List.getElem?_eq_some_iff.1 hplace).1
  simp only [goOn, List.getElem?_set_self hlt, List.set_set]
  obtain ⟨found, backlog⟩ := s.backlog.look
  cases found with
  | none => rfl
  | some items => simp only [Scene.answer, List.eraseIdx_set_eq]

/-- Whoever finds nothing at its deadline gives up. -/
theorem giveUp_of_sleeping {place : Nat} {w : Waiter ρ} (hplace : s.waiters[place]? = some w)
    (hdue : w.deadline ≤ s.now) :
    giveUp { s with waiters := s.waiters.set place { w with stage := .sleeping, woken := false } }
      place = s.answer place w [] := by
  have hlt := (List.getElem?_eq_some_iff.1 hplace).1
  simp only [giveUp, List.getElem?_set_self hlt, hdue, and_self, if_true, Scene.answer,
    List.eraseIdx_set_eq]

theorem Shows.stepAt (h : s.Shows t) (place : Nat) :
    ∃ moves, (s.run moves).Shows (t.stepAt place) := by
  unfold Timeline.stepAt
  rw [h.removers, List.getElem?_map]
  cases hplace : s.waiters[place]? with
  | none => exact ⟨[], h⟩
  | some w =>
    cases hasleep : w.isAsleep with
    | true =>
      have hawake : w.remover.awake = false := by simp [Waiter.remover, hasleep]
      simp only [Option.map_some, hawake, Bool.false_eq_true, if_false]
      exact ⟨[], h⟩
    | false =>
      have hawake : w.remover.awake = true := by simp [Waiter.remover, hasleep]
      obtain ⟨moves, hlistens⟩ := h.listens hplace hasleep
      have hlooks : s.run (moves ++ [.goesOn place]) = _ :=
        (run_append s moves _).trans ((congrArg (goOn · place) hlistens).trans
          (goOn_of_listening hplace))
      simp only [Option.map_some, hawake, if_true, ← h.removers]
      unfold Timeline.act
      rw [h.backlog]
      rcases look_cases s.backlog with ⟨henabled, hlook⟩ | ⟨henabled, hempty, hlook⟩ |
        ⟨henabled, hempty, hlook⟩
      · refine ⟨moves ++ [.goesOn place], ?_⟩
        rw [hlooks, hlook]
        simp only [henabled, Bool.not_false, if_true]
        exact h.answer s.backlog []
      · simp only [hlook] at hlooks
        simp only [henabled, hempty, Bool.not_true, Bool.false_eq_true, if_false]
        by_cases hdue : w.deadline ≤ s.now
        · refine ⟨moves ++ [.goesOn place] ++ [.givesUp place], ?_⟩
          rw [run_append, hlooks, if_pos (by rw [h.now]; exact hdue)]
          show (giveUp _ place).Shows _
          rw [giveUp_of_sleeping hplace hdue]
          exact h.answer s.backlog []
        · refine ⟨moves ++ [.goesOn place], ?_⟩
          rw [hlooks, if_neg (by rw [h.now]; exact hdue)]
          have hsleeps := h.sleeps place (Nat.lt_of_not_le hdue)
          rw [h.backlog] at hsleeps
          exact hsleeps
      · refine ⟨moves ++ [.goesOn place], ?_⟩
        rw [hlooks, hlook]
        simp only [henabled, hempty, Bool.not_true, Bool.not_false, Bool.false_eq_true, if_false,
          if_true]
        exact h.answer s.backlog.takeAll.2 s.backlog.items.toList

theorem Shows.settleFrom (h : s.Shows t) (place left : Nat) :
    ∃ moves, (s.run moves).Shows (t.settleFrom place left) := by
  induction left generalizing s t place with
  | zero => exact ⟨[], h⟩
  | succ left ih =>
    obtain ⟨moves, hstep⟩ := h.stepAt place
    obtain ⟨more, hrest⟩ := ih hstep _
    exact ⟨moves ++ more, by rw [run_append]; exact hrest⟩

/-! ## Time passes -/

/-- Time passes until a moment before which no deadline comes. -/
theorem pass_to {target : Nat} (hwakers : s.wakers = 0) (htarget : s.now ≤ target)
    (hasleep : ∀ w ∈ s.waiters, w.isAsleep = true ∧ target ≤ w.deadline) :
    s.pass (target - s.now) = { s with now := target } := by
  rw [pass, Nat.add_sub_cancel' htarget]
  exact if_pos ⟨hwakers, hasleep⟩

/-- Time passes until the first deadline comes, and whose it is gives up. -/
theorem run_to_deadline {place : Nat} {w : Waiter ρ} (hwakers : s.wakers = 0)
    (hplace : s.waiters[place]? = some w) (hnow : s.now ≤ w.deadline)
    (hasleep : ∀ x ∈ s.waiters, x.isAsleep = true ∧ w.deadline ≤ x.deadline) :
    s.run [.passes (w.deadline - s.now), .givesUp place] =
      Scene.answer { s with now := w.deadline } place w [] := by
  have hstage : w.stage = .sleeping := by
    have hw := (hasleep w (List.mem_of_getElem? hplace)).1
    rw [Waiter.isAsleep, Bool.and_eq_true] at hw
    exact of_decide_eq_true hw.1
  show (s.pass (w.deadline - s.now)).giveUp place = _
  rw [pass_to hwakers hnow hasleep]
  simp only [giveUp, hplace, hstage, Nat.le_refl, and_self, if_true]

/-- Those whose deadline comes meanwhile give up one after the other. -/
theorem exists_run_due {due : List (Waiter ρ)} {target : Nat} (hwakers : s.wakers = 0)
    (hasleep : ∀ w ∈ s.waiters, w.isAsleep = true ∧ s.now ≤ w.deadline) (htarget : s.now ≤ target)
    (hdue : due.Perm (s.waiters.filter fun w => w.deadline ≤ target))
    (hsorted : due.Pairwise fun w w' => w.deadline ≤ w'.deadline) :
    ∃ moves, s.run moves =
      { s with
        now := target
        waiters := s.waiters.filter fun w => !decide (w.deadline ≤ target)
        answers :=
          (due.map fun w => ⟨w.name, w.deadline, [], w.deadline⟩).reverse ++ s.answers } := by
  induction due generalizing s with
  | nil =>
    have hlater : ∀ w ∈ s.waiters, target < w.deadline := by
      intro w hw
      by_contra hnot
      have hmem := hdue.symm.subset (List.mem_filter.2 ⟨hw, by simpa using hnot⟩)
      cases hmem
    have hstay : s.waiters.filter (fun w => !decide (w.deadline ≤ target)) = s.waiters :=
      List.filter_eq_self.2 fun w hw => by simpa using hlater w hw
    refine ⟨[.passes (target - s.now)], ?_⟩
    rw [hstay]
    exact pass_to hwakers htarget fun w hw => ⟨(hasleep w hw).1, Nat.le_of_lt (hlater w hw)⟩
  | cons w due ih =>
    obtain ⟨hw, hwdue⟩ := List.mem_filter.1 (hdue.subset (List.mem_cons_self ..))
    have hwdue : w.deadline ≤ target := by simpa using hwdue
    obtain ⟨place, hplace⟩ := List.getElem?_of_mem hw
    obtain ⟨before, after, hsplit, -, herase⟩ := exists_split hplace
    have hfirst : ∀ x ∈ s.waiters, w.deadline ≤ x.deadline := by
      intro x hx
      by_cases hxdue : x.deadline ≤ target
      · rcases List.mem_cons.1 (hdue.symm.subset (List.mem_filter.2 ⟨hx, by simpa using hxdue⟩))
          with rfl | hx
        · exact Nat.le_refl _
        · exact (List.pairwise_cons.1 hsorted).1 x hx
      · exact Nat.le_trans hwdue (Nat.le_of_lt (Nat.lt_of_not_le hxdue))
    have hrun := run_to_deadline hwakers hplace (hasleep w hw).2
      fun x hx => ⟨(hasleep x hx).1, hfirst x hx⟩
    have hrest : due.Perm ((before ++ after).filter fun w => w.deadline ≤ target) := by
      rw [hsplit, List.filter_append, List.filter_cons_of_pos (by simpa using hwdue)] at hdue
      rw [List.filter_append]
      exact (hdue.trans List.perm_middle).cons_inv
    have hmem : ∀ x ∈ before ++ after, x ∈ s.waiters := by
      rw [← herase]
      exact fun x hx => List.mem_of_mem_eraseIdx hx
    obtain ⟨moves, hmoves⟩ := ih
      (s := Scene.answer { s with now := w.deadline } place w []) hwakers
      (by
        rw [Scene.answer, herase]
        exact fun x hx => ⟨(hasleep x (hmem x hx)).1, hfirst x (hmem x hx)⟩)
      hwdue (by rw [Scene.answer, herase]; exact hrest) (List.pairwise_cons.1 hsorted).2
    refine ⟨[.passes (w.deadline - s.now), .givesUp place] ++ moves, ?_⟩
    rw [run_append, hrun, hmoves]
    have hlater : s.waiters.filter (fun w => !decide (w.deadline ≤ target)) =
        (before ++ after).filter fun w => !decide (w.deadline ≤ target) := by
      rw [hsplit, List.filter_append, List.filter_append,
        List.filter_cons_of_neg (by simpa using hwdue)]
    simp only [Scene.answer, herase, hlater, List.map_cons, List.reverse_cons, List.append_assoc,
      List.singleton_append]

theorem Shows.sleep (h : s.Shows t) (hasleep : ∀ r ∈ t.removers, r.awake = false) (ms : Nat) :
    ∃ moves, (s.run moves).Shows (t.sleep ms) := by
  have hwaiters : ∀ w ∈ s.waiters, w.isAsleep = true := by
    intro w hw
    have hawake := hasleep w.remover (by rw [h.removers]; exact List.mem_map_of_mem hw)
    simpa [Waiter.remover] using hawake
  let due := (s.waiters.filter fun w => w.deadline ≤ s.now + ms).mergeSort fun w w' =>
    w.deadline ≤ w'.deadline
  have hsorted : due.Pairwise fun w w' => decide (w.deadline ≤ w'.deadline) = true :=
    List.pairwise_mergeSort
      (by simp only [decide_eq_true_eq]; exact fun _ _ _ => Nat.le_trans)
      (by simpa using fun w w' : Waiter ρ => Nat.le_total w.deadline w'.deadline) _
  obtain ⟨moves, hmoves⟩ := exists_run_due h.wakers
    (fun w hw => ⟨hwaiters w hw, Nat.le_of_lt (h.early w hw (hwaiters w hw))⟩)
    (Nat.le_add_right s.now ms) (List.mergeSort_perm ..)
    (hsorted.imp fun hle => of_decide_eq_true hle)
  -- The removers that are due are those of the waiters, in the same order.
  have hdue : (t.removers.filter fun r => decide (r.deadline ≤ t.now + ms)).mergeSort
      (fun r r' => r.deadline ≤ r'.deadline) = due.map Waiter.remover := by
    have hmap : due.map Waiter.remover =
        ((s.waiters.filter fun w => w.deadline ≤ s.now + ms).map Waiter.remover).mergeSort
          fun r r' => r.deadline ≤ r'.deadline := List.map_mergeSort fun _ _ _ _ => rfl
    rw [hmap, h.removers, h.now, List.filter_map]
    rfl
  refine ⟨moves, ?_⟩
  rw [hmoves]
  unfold Timeline.sleep
  dsimp only
  rw [List.partition_eq_filter_filter]
  dsimp only
  rw [hdue, h.now]
  refine ⟨rfl, h.backlog, ?_, ?_, h.wakers, fun w hw => ?_, fun w hw _ => ?_⟩
  · rw [h.removers, List.filter_map]
    rfl
  · rw [h.ended, List.map_append, List.map_reverse, List.map_map, List.map_map]
    rfl
  · exact h.between w (List.mem_filter.1 hw).1
  · have hlater := (List.mem_filter.1 hw).2
    simpa using hlater

end Scene

/-! ## Timelines as a whole -/

/-- A timeline on which calls have been made one after the other, each played to its end before time
passes. -/
inductive Timeline.Played (maxLength : Nat) : Timeline ρ α → Prop
  | starts : Played maxLength { backlog := .empty maxLength }
  | adds {t : Timeline ρ α} (a : α) : Played maxLength t → Played maxLength (t.add a).2
  | sets {t : Timeline ρ α} (enabled : Bool) :
    Played maxLength t → Played maxLength (t.setEnabled enabled)
  | begins {t : Timeline ρ α} (name : ρ) (ms : Nat) :
    Played maxLength t → Played maxLength (t.begin name ms)
  | acts {t : Timeline ρ α} (place : Nat) : Played maxLength t → Played maxLength (t.stepAt place)
  | settles {t : Timeline ρ α} : Played maxLength t → Played maxLength t.settle
  | sleeps {t : Timeline ρ α} (ms : Nat) :
    Played maxLength t → (∀ r ∈ t.removers, r.awake = false) → Played maxLength (t.sleep ms)

/-- Every timeline is shown by a run of overlapping calls. -/
theorem Timeline.Played.exists_scene {maxLength : Nat} {t : Timeline ρ α}
    (h : t.Played maxLength) :
    ∃ moves, ((Scene.fresh maxLength : Scene ρ α).run moves).Shows t := by
  have hmore {t t' : Timeline ρ α}
      (h : ∃ moves, ((Scene.fresh maxLength : Scene ρ α).run moves).Shows t)
      (hstep : ∀ s : Scene ρ α, s.Shows t → ∃ more, (s.run more).Shows t') :
      ∃ moves, ((Scene.fresh maxLength : Scene ρ α).run moves).Shows t' := by
    obtain ⟨moves, hshows⟩ := h
    obtain ⟨more, hstep⟩ := hstep _ hshows
    exact ⟨moves ++ more, by rw [Scene.run_append]; exact hstep⟩
  induction h with
  | starts => exact ⟨[], Scene.shows_fresh maxLength⟩
  | adds a _ ih => exact hmore ih fun s hs => ⟨_, hs.add a⟩
  | sets enabled _ ih => exact hmore ih fun s hs => ⟨_, hs.setEnabled enabled⟩
  | begins name ms _ ih => exact hmore ih fun s hs => ⟨_, hs.begin name ms⟩
  | acts place _ ih => exact hmore ih fun s hs => hs.stepAt place
  | settles _ ih => exact hmore ih fun s hs => hs.settleFrom 0 _
  | sleeps ms _ hasleep ih => exact hmore ih fun s hs => hs.sleep hasleep ms

/-- **Nobody sleeps on a timeline with work.** Whoever sleeps on a timeline does so for an empty and
enabled backlog, and its deadline is still to come. -/
theorem Timeline.Played.sleeps_in_time {maxLength : Nat} {t : Timeline ρ α}
    (h : t.Played maxLength) {r : Remover ρ} (hr : r ∈ t.removers) (hasleep : r.awake = false) :
    t.backlog.isEmpty = true ∧ t.backlog.enabled = true ∧ t.now < r.deadline := by
  obtain ⟨moves, hshows⟩ := h.exists_scene
  have hsound := (Scene.sound_fresh maxLength).run moves
  rw [hshows.removers] at hr
  obtain ⟨w, hw, rfl⟩ := List.mem_map.1 hr
  have hasleep : w.isAsleep = true := by simpa [Waiter.remover] using hasleep
  have hwakers := hshows.wakers
  obtain ⟨henabled, hempty⟩ := (hsound.watchful w hw hasleep).resolve_left (by omega)
  rw [hshows.backlog, hshows.now]
  exact ⟨hempty, henabled, hshows.early w hw hasleep⟩

end PeerCluster.Backlog
