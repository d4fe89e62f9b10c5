import PeerCluster.Backlog.Calls
import PeerCluster.Proofs.BacklogAccount
import PeerCluster.Proofs.Pieces
import Mathlib.Data.List.Perm.Basic

/-!
# Nobody sleeps on a backlog with work

Whoever finds nothing in a backlog sleeps until it is woken. It must not miss the call of somebody
who changes the backlog just then, whatever comes between two pieces of their calls.

The proof is an induction over the moves with the invariant `Sound`:

* *watchfulness*: whoever sleeps and has not been woken would find nothing, or somebody is still about
  to wake it;
* *punctuality*: no deadline of a waiter has passed, and no wait ended after its deadline.

Watchfulness holds because a waiter listens before it looks: what it does not find was added after it
began to listen, and who added it wakes it later still. All that a move of a waiter can do is listed
once, in `Effect`.

**Theorem (`waits_end_in_time`).** When everybody sleeps, the backlog is empty and enabled, and every
deadline is still to come. A wait ends with nothing at its deadline or by a disabled backlog only.
Everybody who has begun to wait has been answered by its deadline, once. The calls in flight come to
rest after finitely many pieces, in any order (`left_next`).
-/

namespace PeerCluster.Backlog

variable {ρ α : Type}

/-- When everybody who can go on has gone on: no piece of a call in flight changes anything. -/
def Scene.Quiet (s : Scene ρ α) : Prop :=
  Pieces.Quiet next Move.isWork s

/-- Each of these moves is a piece of a call in flight and changes something. -/
def Scene.Works (s : Scene ρ α) (moves : List (Move ρ α)) : Prop :=
  Pieces.Works next Move.isWork s moves

/-- Who begins to wait, and until when. -/
def Scene.begun (s : Scene ρ α) : Move ρ α → List (ρ × Nat)
  | .begins name ms => [(name, s.now + ms)]
  | _ => []

/-! ## What a waiter can do -/

/-- What the next piece of a wait does to a scene. -/
inductive Effect (s : Scene ρ α) : Scene ρ α → Prop
  | nothing : Effect s s
  | listens {before after : List (Waiter ρ)} {w : Waiter ρ} :
    s.waiters = before ++ w :: after → w.stage = .arriving →
      Effect s { s with
        waiters := before ++ { w with stage := .looking, woken := false } :: after }
  | sleeps {before after : List (Waiter ρ)} {w : Waiter ρ} :
    s.waiters = before ++ w :: after → w.stage = .looking → s.backlog.enabled = true →
      s.backlog.isEmpty = true →
      Effect s { s with waiters := before ++ { w with stage := .sleeping } :: after }
  | stirs {before after : List (Waiter ρ)} {w : Waiter ρ} :
    s.waiters = before ++ w :: after → w.stage = .sleeping → w.woken = true →
      Effect s { s with waiters := before ++ { w with stage := .arriving } :: after }
  | ends {before after : List (Waiter ρ)} {w : Waiter ρ} {items : List α} {backlog : Backlog α} :
    s.waiters = before ++ w :: after →
      (w.stage = .looking ∧ s.backlog.look = (some items, backlog) ∨
        w.stage = .sleeping ∧ w.deadline ≤ s.now ∧ items = [] ∧ backlog = s.backlog) →
      Effect s { s with
        backlog
        waiters := before ++ after
        answers := ⟨w.name, w.deadline, items, s.now⟩ :: s.answers }

theorem exists_split {l : List (Waiter ρ)} {place : Nat} {w : Waiter ρ}
    (h : l[place]? = some w) :
    ∃ before after, l = before ++ w :: after ∧ (∀ w', l.set place w' = before ++ w' :: after) ∧
      l.eraseIdx place = before ++ after := by
  obtain ⟨hlt, rfl⟩ := List.getElem?_eq_some_iff.1 h
  refine ⟨l.take place, l.drop (place + 1), ?_, fun w' => ?_, List.eraseIdx_eq_take_drop_succ ..⟩
  · rw [← List.drop_eq_getElem_cons hlt, List.take_append_drop]
  · rw [List.set_eq_take_append_cons_drop, if_pos hlt]

/-- How many pieces a waiter may still go through before it sleeps or ends. -/
def Waiter.left (w : Waiter ρ) : Nat :=
  match w.stage with
  | .arriving => 3
  | .looking => if w.woken then 5 else 2
  | .sleeping => if w.woken then 4 else 1

theorem Waiter.left_pos (w : Waiter ρ) : 0 < w.left := by
  unfold left
  cases w.stage <;> cases w.woken <;> decide

theorem Waiter.left_wake (w : Waiter ρ) : w.wake.left ≤ w.left + 3 := by
  unfold left wake
  cases hstage : w.stage <;> cases hwoken : w.woken <;> simp [hstage]

theorem look_cases (b : Backlog α) :
    (b.enabled = false ∧ b.look = (some [], b)) ∨
      (b.enabled = true ∧ b.isEmpty = true ∧ b.look = (none, b)) ∨
      (b.enabled = true ∧ b.isEmpty = false ∧ b.look = (some b.items.toList, b.takeAll.2)) := by
  unfold look
  cases b.enabled <;> cases b.isEmpty <;> simp [takeAll]

theorem enabled_of_look {b b' : Backlog α} {a : α} {items : List α}
    (h : b.look = (some (a :: items), b')) : b.enabled = true := by
  rcases look_cases b with ⟨-, hlook⟩ | ⟨henabled, -⟩ | ⟨henabled, -⟩
  · rw [hlook] at h
    cases h
  · exact henabled
  · exact henabled

/-- An enabled backlog answers nobody with nothing. -/
theorem look_ne_nil {b b' : Backlog α} (henabled : b.enabled = true) : b.look ≠ (some [], b') := by
  intro h
  rcases look_cases b with ⟨hdisabled, -⟩ | ⟨-, -, hlook⟩ | ⟨-, hempty, hlook⟩
  · rw [henabled] at hdisabled
    cases hdisabled
  · rw [hlook] at h
    cases h
  · rw [hlook] at h
    have hitems := Option.some.inj (congrArg Prod.fst h)
    rw [Backlog.isEmpty, Array.toList_eq_nil_iff.1 hitems] at hempty
    cases hempty

namespace Scene

variable {s s' : Scene ρ α}

theorem effect_goOn (s : Scene ρ α) (place : Nat) : Effect s (s.goOn place) := by
  unfold goOn
  split
  · exact .nothing
  · next w hw =>
    obtain ⟨before, after, hsplit, hset, herase⟩ := exists_split hw
    split
    · next hstage =>
      rw [hset]
      exact .listens hsplit hstage
    · next hstage =>
      rcases look_cases s.backlog with ⟨-, hlook⟩ | ⟨henabled, hempty, hlook⟩ | ⟨-, -, hlook⟩
      · simp only [hlook, answer, herase]
        exact .ends hsplit (.inl ⟨hstage, hlook⟩)
      · simp only [hlook, hset]
        exact .sleeps hsplit hstage henabled hempty
      · simp only [hlook, answer, herase]
        exact .ends hsplit (.inl ⟨hstage, hlook⟩)
    · next hstage =>
      split
      · next hwoken =>
        rw [hset]
        exact .stirs hsplit hstage hwoken
      · exact .nothing

theorem effect_giveUp (s : Scene ρ α) (place : Nat) : Effect s (s.giveUp place) := by
  unfold giveUp
  split
  · exact .nothing
  · next w hw =>
    obtain ⟨before, after, hsplit, -, herase⟩ := exists_split hw
    split
    · next hdue =>
      rw [answer, herase]
      exact .ends hsplit (.inr ⟨hdue.1, hdue.2, rfl, rfl⟩)
    · exact .nothing

/-! ## Watchfulness and punctuality -/

/-- Whoever sleeps would find nothing or is about to be woken, and no deadline is missed. -/
structure Sound (s : Scene ρ α) : Prop where
  watchful : ∀ w ∈ s.waiters, w.isAsleep = true →
    0 < s.wakers ∨ s.backlog.enabled = true ∧ s.backlog.isEmpty = true
  punctual : ∀ w ∈ s.waiters, s.now ≤ w.deadline
  answered : ∀ e ∈ s.answers, e.time ≤ e.deadline

theorem Sound.of_waiters (h : s.Sound) {waiters : List (Waiter ρ)}
    (hwaiters : ∀ w ∈ waiters, (∃ w₀ ∈ s.waiters, w.deadline = w₀.deadline) ∧
      (w.isAsleep = true → w ∈ s.waiters ∨ s.backlog.enabled = true ∧ s.backlog.isEmpty = true)) :
    Sound { s with waiters } := by
  refine ⟨fun w hw hasleep => ?_, fun w hw => ?_, h.answered⟩
  · rcases (hwaiters w hw).2 hasleep with hold | hempty
    · exact h.watchful w hold hasleep
    · exact .inr hempty
  · obtain ⟨w₀, hw₀, hdeadline⟩ := (hwaiters w hw).1
    rw [hdeadline]
    exact h.punctual w₀ hw₀

/-- One waiter changes its stage. -/
theorem Sound.replace (h : s.Sound) {before after : List (Waiter ρ)} {w w' : Waiter ρ}
    (hsplit : s.waiters = before ++ w :: after) (hdeadline : w'.deadline = w.deadline)
    (hasleep : w'.isAsleep = true → s.backlog.enabled = true ∧ s.backlog.isEmpty = true) :
    Sound { s with waiters := before ++ w' :: after } := by
  refine h.of_waiters fun x hx => ?_
  rw [hsplit]
  rcases List.mem_append.1 hx with hx | hx
  · exact ⟨⟨x, by simp [hx], rfl⟩, fun _ => .inl (by simp [hx])⟩
  · rcases List.mem_cons.1 hx with rfl | hx
    · exact ⟨⟨w, by simp, hdeadline⟩, fun h => .inr (hasleep h)⟩
    · exact ⟨⟨x, by simp [hx], rfl⟩, fun _ => .inl (by simp [hx])⟩

/-- A piece of a wait neither fills nor disables the backlog. -/
theorem backlog_effect (h : Effect s s') :
    s'.backlog.enabled = s.backlog.enabled ∧
      (s.backlog.isEmpty = true → s'.backlog.isEmpty = true) := by
  cases h with
  | nothing | listens | sleeps | stirs => exact ⟨rfl, id⟩
  | ends _ hcause =>
    rcases hcause with ⟨-, hlook⟩ | ⟨-, -, -, rfl⟩
    · rcases look_cases s.backlog with ⟨-, h⟩ | ⟨-, -, h⟩ | ⟨-, -, h⟩ <;>
        rw [h] at hlook <;> cases hlook
      · exact ⟨rfl, id⟩
      · exact ⟨rfl, fun _ => rfl⟩
    · exact ⟨rfl, id⟩

theorem frame_effect (h : Effect s s') : s'.now = s.now ∧ s'.wakers = s.wakers := by
  cases h <;> exact ⟨rfl, rfl⟩

theorem Sound.effect (h : s.Sound) (heffect : Effect s s') : s'.Sound := by
  have hbacklog := backlog_effect heffect
  cases heffect with
  | nothing => exact h
  | listens hsplit _ => exact h.replace hsplit rfl nofun
  | sleeps hsplit _ henabled hempty => exact h.replace hsplit rfl fun _ => ⟨henabled, hempty⟩
  | stirs hsplit _ _ => exact h.replace hsplit rfl nofun
  | @ends before after w items backlog hsplit _ =>
    have hmem : ∀ x ∈ before ++ after, x ∈ s.waiters := by
      intro x hx
      rw [hsplit]
      rcases List.mem_append.1 hx with hx | hx <;> simp [hx]
    refine ⟨fun x hx hasleep => ?_, fun x hx => h.punctual x (hmem x hx), fun e he => ?_⟩
    · exact (h.watchful x (hmem x hx) hasleep).imp_right fun hempty =>
        ⟨hbacklog.1.trans hempty.1, hbacklog.2 hempty.2⟩
    · rcases List.mem_cons.1 he with rfl | he
      · exact h.punctual w (by rw [hsplit]; simp)
      · exact h.answered e he

theorem not_isAsleep_wake (w : Waiter ρ) : w.wake.isAsleep = false := by
  unfold Waiter.wake
  split
  · next hstage => simp [Waiter.isAsleep, hstage]
  · simp [Waiter.isAsleep]

theorem deadline_wake (w : Waiter ρ) : w.wake.deadline = w.deadline := by
  unfold Waiter.wake
  split <;> rfl

theorem sound_fresh (maxLength : Nat) : (fresh maxLength : Scene ρ α).Sound :=
  ⟨nofun, nofun, nofun⟩

theorem Sound.next (h : s.Sound) (m : Move ρ α) : (s.next m).Sound := by
  cases m with
  | adds a =>
    show (s.add a).2.Sound
    unfold Scene.add
    cases haccepted : (s.backlog.add a).1 with
    | false =>
      simp only [haccepted, add_of_refused haccepted, Bool.false_eq_true, if_false]
      exact h
    | true =>
      simp only [haccepted, if_true]
      exact ⟨fun _ _ _ => .inl (Nat.succ_pos _), h.punctual, h.answered⟩
  | sets enabled =>
    cases enabled with
    | false => exact ⟨fun _ _ _ => .inl (Nat.succ_pos _), h.punctual, h.answered⟩
    | true =>
      refine ⟨fun w hw hasleep => ?_, h.punctual, h.answered⟩
      exact (h.watchful w hw hasleep).imp_right fun hempty => ⟨rfl, hempty.2⟩
  | wakes =>
    show s.wake.Sound
    unfold wake
    split
    · exact h
    · refine ⟨fun w hw hasleep => ?_, fun w hw => ?_, h.answered⟩ <;>
        obtain ⟨w₀, hw₀, rfl⟩ := List.mem_map.1 hw
      · rw [not_isAsleep_wake] at hasleep
        cases hasleep
      · rw [deadline_wake]
        exact h.punctual w₀ hw₀
  | begins name ms =>
    refine ⟨fun w hw hasleep => ?_, fun w hw => ?_, h.answered⟩ <;>
      rcases List.mem_append.1 hw with hw | hw
    · exact h.watchful w hw hasleep
    · cases List.mem_singleton.1 hw
      cases hasleep
    · exact h.punctual w hw
    · cases List.mem_singleton.1 hw
      exact Nat.le_add_right _ _
  | goesOn place => exact h.effect (s.effect_goOn place)
  | givesUp place => exact h.effect (s.effect_giveUp place)
  | passes ms =>
    show (s.pass ms).Sound
    unfold pass
    split
    · next hpass => exact ⟨h.watchful, fun w hw => (hpass.2 w hw).2, h.answered⟩
    · exact h

theorem Sound.run (h : s.Sound) (moves : List (Move ρ α)) : (s.run moves).Sound := by
  induction moves generalizing s with
  | nil => exact h
  | cons m moves ih => exact ih (h.next m)

/-! ## Who has begun to wait -/

/-- Everybody who waits or has been answered, with its deadline. -/
def parties (s : Scene ρ α) : List (ρ × Nat) :=
  s.answers.map (fun e => (e.name, e.deadline)) ++ s.waiters.map fun w => (w.name, w.deadline)

theorem parties_effect (heffect : Effect s s') : s'.parties.Perm s.parties := by
  unfold parties
  cases heffect with
  | nothing => exact .refl _
  | listens hsplit _ | sleeps hsplit _ _ _ | stirs hsplit _ _ =>
    rw [hsplit]
    simp only [List.map_append, List.map_cons]
    exact .refl _
  | ends hsplit _ =>
    rw [hsplit]
    simp only [List.map_append, List.map_cons, List.cons_append, ← List.append_assoc]
    exact List.perm_middle.symm

theorem parties_next (s : Scene ρ α) (m : Move ρ α) :
    (s.next m).parties.Perm (s.parties ++ s.begun m) := by
  have hsame {s' : Scene ρ α} (hanswers : s'.answers = s.answers)
      (hwaiters : s'.waiters.map (fun w => (w.name, w.deadline)) =
        s.waiters.map fun w => (w.name, w.deadline)) : s'.parties.Perm (s.parties ++ []) := by
    rw [List.append_nil, parties, parties, hanswers, hwaiters]
  cases m with
  | adds a => exact hsame rfl rfl
  | sets enabled => exact hsame rfl rfl
  | wakes =>
    show s.wake.parties.Perm _
    unfold wake
    split
    · exact hsame rfl rfl
    · refine hsame rfl ?_
      rw [List.map_map]
      refine List.map_congr_left fun w _ => ?_
      show (w.wake.name, w.wake.deadline) = _
      unfold Waiter.wake
      split <;> rfl
  | begins name ms =>
    show (s.begin name ms).parties.Perm _
    simp only [parties, begin, begun, List.map_append, List.map_cons, List.map_nil,
      List.append_assoc]
    exact .refl _
  | goesOn place => exact (parties_effect (s.effect_goOn place)).trans (hsame rfl rfl)
  | givesUp place => exact (parties_effect (s.effect_giveUp place)).trans (hsame rfl rfl)
  | passes ms =>
    show (s.pass ms).parties.Perm _
    unfold pass
    split <;> exact hsame rfl rfl

theorem parties_run (s : Scene ρ α) (moves : List (Move ρ α)) :
    (s.run moves).parties.Perm (s.parties ++ Pieces.along next begun s moves) := by
  induction moves generalizing s with
  | nil => rw [Pieces.along, List.append_nil]; exact .refl _
  | cons m moves ih =>
    rw [Pieces.along, ← List.append_assoc]
    exact (ih (s.next m)).trans ((s.parties_next m).append_right _)

/-! ## Coming to rest -/

/-- How many pieces waiters may still go through before they sleep or end. -/
def leftOf : List (Waiter ρ) → Nat
  | [] => 0
  | w :: waiters => w.left + leftOf waiters

theorem leftOf_append (before after : List (Waiter ρ)) :
    leftOf (before ++ after) = leftOf before + leftOf after := by
  induction before with
  | nil => exact (Nat.zero_add _).symm
  | cons w before ih => rw [List.cons_append, leftOf, leftOf, ih, Nat.add_assoc]

/-- How many pieces of the calls in flight may still follow each other. Waking may cost everybody
three further pieces. -/
def left (s : Scene ρ α) : Nat :=
  leftOf s.waiters + s.wakers * (3 * s.waiters.length + 1)

theorem left_replace {before after : List (Waiter ρ)} {w w' : Waiter ρ}
    (hsplit : s.waiters = before ++ w :: after) (hless : w'.left < w.left) :
    left { s with waiters := before ++ w' :: after } < s.left := by
  simp only [left, hsplit, leftOf_append, leftOf, List.length_append, List.length_cons]
  omega

theorem left_remove {before after : List (Waiter ρ)} {w : Waiter ρ}
    (hsplit : s.waiters = before ++ w :: after) (hwaiters : s'.waiters = before ++ after)
    (hwakers : s'.wakers = s.wakers) : s'.left < s.left := by
  have hpos := w.left_pos
  have hfewer : s.wakers * (3 * (before ++ after).length + 1) ≤
      s.wakers * (3 * (before ++ w :: after).length + 1) :=
    Nat.mul_le_mul_left _ (by simp only [List.length_append, List.length_cons]; omega)
  simp only [left, hsplit, hwaiters, hwakers, leftOf_append, leftOf]
  omega

theorem left_effect (heffect : Effect s s') : s' = s ∨ s'.left < s.left := by
  cases heffect with
  | nothing => exact .inl rfl
  | @listens before after w hsplit hstage =>
    exact .inr (left_replace hsplit (by simp [Waiter.left, hstage]))
  | @sleeps before after w hsplit hstage _ _ =>
    refine .inr (left_replace hsplit ?_)
    cases hwoken : w.woken <;> simp [Waiter.left, hstage, hwoken]
  | @stirs before after w hsplit hstage hwoken =>
    exact .inr (left_replace hsplit (by simp [Waiter.left, hstage, hwoken]))
  | ends hsplit _ => exact .inr (left_remove hsplit rfl rfl)

theorem leftOf_wake (waiters : List (Waiter ρ)) :
    leftOf (waiters.map Waiter.wake) ≤ leftOf waiters + 3 * waiters.length := by
  induction waiters with
  | nil => exact Nat.le_refl _
  | cons w waiters ih =>
    have hwake := w.left_wake
    simp only [List.map_cons, leftOf, List.length_cons]
    omega

/-- A piece of a call in flight that changes anything leaves fewer to come. -/
theorem left_next {m : Move ρ α} (hwork : m.isWork) : s.next m = s ∨ (s.next m).left < s.left := by
  cases m with
  | goesOn place => exact left_effect (s.effect_goOn place)
  | givesUp place => exact left_effect (s.effect_giveUp place)
  | wakes =>
    show s.wake = s ∨ s.wake.left < s.left
    unfold wake
    split
    · exact .inl rfl
    · next hwakers =>
      obtain ⟨n, hn⟩ := Nat.exists_eq_succ_of_ne_zero hwakers
      have hsum := leftOf_wake s.waiters
      simp only [left, hn, List.length_map, Nat.succ_sub_one, Nat.succ_mul]
      omega
  | adds | sets | begins | passes => cases hwork

theorem Works.length_le {moves : List (Move ρ α)} (h : s.Works moves) : moves.length ≤ s.left :=
  Pieces.Works.length_le (fun _ => True) left (fun _ _ _ _ => trivial)
    (fun _ _ _ hwork => left_next hwork) trivial h

/-- The calls in flight come to rest. -/
theorem exists_quiet (s : Scene ρ α) : ∃ moves, s.Works moves ∧ (s.run moves).Quiet :=
  Pieces.exists_quiet (fun _ => True) left (fun _ _ _ _ => trivial)
    (fun _ _ _ hwork => left_next hwork) trivial

/-- When nothing is left to be done, everybody sleeps and has time left. -/
theorem Quiet.asleep (h : s.Quiet) :
    s.wakers = 0 ∧ ∀ w ∈ s.waiters, w.isAsleep = true ∧ s.now < w.deadline := by
  refine ⟨?_, fun w hw => ?_⟩
  · by_contra hwakers
    have hsame := congrArg wakers (h .wakes rfl)
    change s.wake.wakers = s.wakers at hsame
    rw [wake, if_neg hwakers] at hsame
    change s.wakers - 1 = s.wakers at hsame
    omega
  · obtain ⟨place, hplace⟩ := List.getElem?_of_mem hw
    have hlt := (List.getElem?_eq_some_iff.1 hplace).1
    have hset {w' : Waiter ρ} (hsame : s.waiters.set place w' = s.waiters) : w'.stage = w.stage := by
      have hget : (s.waiters.set place w')[place]? = some w' := List.getElem?_set_self hlt
      rw [hsame, hplace] at hget
      rw [Option.some.inj hget]
    have herase : s.waiters.eraseIdx place ≠ s.waiters := by
      intro hsame
      have hlength := congrArg List.length hsame
      rw [List.length_eraseIdx_of_lt hlt] at hlength
      omega
    have hgoOn : (s.goOn place).waiters = s.waiters := congrArg waiters (h (.goesOn place) rfl)
    have hgiveUp : (s.giveUp place).waiters = s.waiters := congrArg waiters (h (.givesUp place) rfl)
    simp only [goOn, hplace] at hgoOn
    simp only [giveUp, hplace] at hgiveUp
    cases hstage : w.stage with
    | arriving =>
      simp only [hstage] at hgoOn
      cases (hset hgoOn).trans hstage
    | looking =>
      rcases look_cases s.backlog with ⟨-, hlook⟩ | ⟨-, -, hlook⟩ | ⟨-, -, hlook⟩ <;>
        simp only [hstage, hlook] at hgoOn
      · exact absurd hgoOn herase
      · cases (hset hgoOn).trans hstage
      · exact absurd hgoOn herase
    | sleeping =>
      cases hwoken : w.woken with
      | true =>
        simp only [hstage, hwoken, if_true] at hgoOn
        cases (hset hgoOn).trans hstage
      | false =>
        refine ⟨by simp [Waiter.isAsleep, hstage, hwoken], Nat.lt_of_not_le fun hdue => ?_⟩
        rw [if_pos ⟨hstage, hdue⟩] at hgiveUp
        exact herase hgiveUp

/-! ## Ends of waits -/

/-- A wait ends with nothing at its deadline, or by a disabled backlog. -/
theorem Sound.ends (h : s.Sound) {m : Move ρ α} {e : Answer ρ α}
    (hends : (s.next m).answers = e :: s.answers) (hnothing : e.items = []) :
    ∃ w ∈ s.waiters, e.name = w.name ∧ e.deadline = w.deadline ∧ e.time = s.now ∧
      (e.time = w.deadline ∨ s.backlog.enabled = false) := by
  have hnone {s' : Scene ρ α} (hsame : s'.answers = s.answers) :
      s'.answers ≠ e :: s.answers := by
    rw [hsame]
    exact fun heq => List.cons_ne_self _ _ heq.symm
  have heffect {s' : Scene ρ α} (heffect : Effect s s') (hends : s'.answers = e :: s.answers) :
      ∃ w ∈ s.waiters, e.name = w.name ∧ e.deadline = w.deadline ∧ e.time = s.now ∧
        (e.time = w.deadline ∨ s.backlog.enabled = false) := by
    cases heffect with
    | nothing | listens | sleeps | stirs => exact absurd hends (hnone rfl)
    | @ends before after w items backlog hsplit hcause =>
      have hw : w ∈ s.waiters := by rw [hsplit]; simp
      obtain rfl := (List.cons.inj hends).1
      refine ⟨w, hw, rfl, rfl, rfl, ?_⟩
      rcases hcause with ⟨-, hlook⟩ | ⟨-, hdue, -, -⟩
      · have hnothing : items = [] := hnothing
        rw [hnothing] at hlook
        exact .inr ((Bool.not_eq_true _).mp fun henabled => look_ne_nil henabled hlook)
      · exact .inl (Nat.le_antisymm (h.punctual w hw) hdue)
  cases m with
  | adds a => exact absurd hends (hnone rfl)
  | sets enabled => exact absurd hends (hnone rfl)
  | begins name ms => exact absurd hends (hnone rfl)
  | wakes =>
    refine absurd hends (hnone ?_)
    show s.wake.answers = s.answers
    unfold wake
    split <;> rfl
  | passes ms =>
    refine absurd hends (hnone ?_)
    show (s.pass ms).answers = s.answers
    unfold pass
    split <;> rfl
  | goesOn place => exact heffect (s.effect_goOn place) hends
  | givesUp place => exact heffect (s.effect_giveUp place) hends

/-- **Nobody sleeps on a backlog with work, and every wait ends in time.** Whatever calls overlap, and
however their pieces are interleaved:

* when everybody who can go on has gone on, whoever still waits does so for an empty and enabled
  backlog, and its deadline is still to come;
* a wait that ends with nothing ends at its deadline, or because the backlog is disabled just then;
* everybody who has begun to wait either waits or has been answered, once and by its deadline, and
  once all is quiet those whose deadline has come have been answered;
* the calls in flight come to rest, after a bounded number of pieces and in any order. -/
theorem waits_end_in_time (maxLength : Nat) (moves : List (Move ρ α)) :
    let start : Scene ρ α := fresh maxLength
    let s := start.run moves
    (s.Quiet → ∀ w ∈ s.waiters,
      s.backlog.isEmpty = true ∧ s.backlog.enabled = true ∧ s.now < w.deadline) ∧
    (∀ m e, (s.next m).answers = e :: s.answers → e.items = [] →
      ∃ w ∈ s.waiters, e.name = w.name ∧ e.deadline = w.deadline ∧ e.time = s.now ∧
        (e.time = w.deadline ∨ s.backlog.enabled = false)) ∧
    (s.parties.Perm (Pieces.along next begun start moves) ∧ (∀ e ∈ s.answers, e.time ≤ e.deadline) ∧
      (s.Quiet → ∀ name deadline, (name, deadline) ∈ Pieces.along next begun start moves →
        deadline ≤ s.now → ∃ e ∈ s.answers, e.name = name ∧ e.deadline = deadline)) ∧
    (∀ works, s.Works works → works.length ≤ s.left) ∧
    ∃ works, s.Works works ∧ (s.run works).Quiet := by
  intro start s
  have hsound : s.Sound := (sound_fresh maxLength).run moves
  have hparties : s.parties.Perm (Pieces.along next begun start moves) := start.parties_run moves
  refine ⟨fun hquiet w hw => ?_, fun m e hends hnothing => hsound.ends hends hnothing,
    ⟨hparties, hsound.answered, fun hquiet name deadline hbegun hdue => ?_⟩,
    fun works hworks => hworks.length_le, s.exists_quiet⟩
  · obtain ⟨hwakers, hasleep⟩ := hquiet.asleep
    obtain ⟨henabled, hempty⟩ := (hsound.watchful w hw (hasleep w hw).1).resolve_left (by omega)
    exact ⟨hempty, henabled, (hasleep w hw).2⟩
  · rcases List.mem_append.1 (hparties.symm.subset hbegun) with hanswered | hwaits
    · obtain ⟨e, he, hparty⟩ := List.mem_map.1 hanswered
      exact ⟨e, he, congrArg Prod.fst hparty, congrArg Prod.snd hparty⟩
    · obtain ⟨w, hw, hparty⟩ := List.mem_map.1 hwaits
      obtain ⟨-, rfl⟩ := Prod.mk.inj hparty
      exact absurd hdue (Nat.not_le.2 (hquiet.asleep.2 w hw).2)

/-- An item is taken by a second waiter before the first one is woken for it: that one finds nothing
and sleeps on until its own deadline. -/
example :
    let s : Scene Nat String := (fresh 0).run [.begins 1 10, .begins 2 10, .goesOn 0, .goesOn 0,
      .adds "late", .goesOn 1, .goesOn 1, .wakes, .goesOn 0, .goesOn 0, .goesOn 0, .passes 10,
      .givesUp 0]
    s.answers = [⟨1, 10, [], 10⟩, ⟨2, 10, ["late"], 0⟩] ∧ s.waiters = [] := by
  decide +kernel

end Scene

end PeerCluster.Backlog
