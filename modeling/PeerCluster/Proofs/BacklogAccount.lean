import PeerCluster.Backlog.Timeline

/-!
# The backlog loses and doubles nothing

**What happens** (`Happens`). Anybody adds items, enables or disables the backlog, or begins to wait
for items. Those who wait act in any order: a remover may be woken late or for nothing, and may notice
late that its deadline has come.

**The account** (`Balanced`). Whatever was accepted has been handed to a remover, was dropped when the
backlog was disabled, or still waits, all of it in the order in which it was accepted
(`Happens.balanced`).

**Theorem (`accepted_items_accounted`).** This holds after any run. Also no more items ever wait than
the limit allows, none wait in a disabled backlog, and an item is only refused for want of room or by
a disabled backlog.
-/

namespace PeerCluster.Backlog

variable {ρ α : Type}

/-! ## One backlog -/

section Backlog

variable {b : Backlog α} {a : α}

theorem isFull_iff : b.isFull = true ↔ b.maxLength ≠ 0 ∧ b.maxLength ≤ b.size := by
  simp [isFull]

/-- An item is refused by a disabled backlog and for want of room. -/
theorem add_refuses_iff :
    (b.add a).1 = false ↔ b.enabled = false ∨ b.maxLength ≠ 0 ∧ b.maxLength ≤ b.size := by
  rw [← isFull_iff, add]
  cases b.enabled <;> cases b.isFull <;> simp

theorem add_of_refused (h : (b.add a).1 = false) : (b.add a).2 = b := by
  rw [add] at h ⊢
  split at h
  · cases h
  · rw [if_neg ‹_›]

/-- No more items wait than may, and none in a disabled backlog. -/
structure Bounded (b : Backlog α) : Prop where
  room : b.maxLength ≠ 0 → b.size ≤ b.maxLength
  disabled : b.enabled = false → b.items.toList = []

theorem bounded_of_nothing (h : b.items = #[]) : b.Bounded :=
  ⟨fun _ => by simp [size, h], fun _ => by rw [h]⟩

/-- What an operation does to a backlog: what it takes in goes to the end, what it gives out comes
from the front. -/
structure Passes (b : Backlog α) (taken given : List α) (b' : Backlog α) : Prop where
  items : b.items.toList ++ taken = given ++ b'.items.toList
  bounded : b.Bounded → b'.Bounded
  maxLength : b'.maxLength = b.maxLength

theorem passes_refl (b : Backlog α) : b.Passes [] [] b :=
  ⟨List.append_nil _, id, rfl⟩

theorem passes_add (b : Backlog α) (a : α) :
    b.Passes (if (b.add a).1 then [a] else []) [] (b.add a).2 := by
  cases haccepted : (b.add a).1 with
  | false =>
    rw [add_of_refused haccepted]
    exact passes_refl b
  | true =>
    have hroom : ¬(b.enabled = false ∨ b.maxLength ≠ 0 ∧ b.maxLength ≤ b.size) := by
      rw [← add_refuses_iff (a := a), haccepted]
      exact Bool.noConfusion
    have hadd : (b.add a).2 = { b with items := b.items.push a } := by
      rw [add] at haccepted ⊢
      split
      · rfl
      · rw [if_neg ‹_›] at haccepted
        cases haccepted
    rw [hadd]
    refine ⟨by simp, fun _ => ⟨fun hlimit => ?_, fun hdisabled => ?_⟩, rfl⟩
    · have hlimit : b.maxLength ≠ 0 := hlimit
      have hlt : b.items.size < b.maxLength :=
        Nat.lt_of_not_le fun hfull => hroom (.inr ⟨hlimit, hfull⟩)
      exact Nat.le_trans (Nat.le_of_eq (Array.size_push ..)) hlt
    · exact absurd (.inl hdisabled) hroom

theorem passes_setEnabled (b : Backlog α) (enabled : Bool) :
    b.Passes [] (if enabled then [] else b.items.toList) (b.setEnabled enabled) := by
  cases enabled with
  | true => exact ⟨by simp [setEnabled], fun h => ⟨h.room, nofun⟩, rfl⟩
  | false => exact ⟨by simp [setEnabled], fun _ => bounded_of_nothing rfl, rfl⟩

theorem passes_act (now : Nat) (b : Backlog α) (r : Remover ρ) :
    b.Passes [] ((Timeline.act now b r).1.getD []) (Timeline.act now b r).2 := by
  rw [Timeline.act]
  split
  · exact passes_refl b
  · split
    · exact ⟨by simp [takeAll], fun _ => bounded_of_nothing rfl, rfl⟩
    · split <;> exact passes_refl b

end Backlog

namespace Timeline

/-! ## What happens -/

/-- What is noted of a backlog. -/
inductive Event (ρ α : Type) where
  /-- An item was added, and this was answered. -/
  | added (a : α) (accepted : Bool)
  /-- A remover was answered with these items. -/
  | returned (name : ρ) (items : List α)
  /-- The backlog was disabled while these items waited. -/
  | dropped (items : List α)

/-- The item that was accepted. -/
def Event.accepted? : Event ρ α → Option α
  | .added a true => some a
  | _ => none

/-- The items that left the backlog. -/
def Event.given : Event ρ α → List α
  | .added .. => []
  | .returned _ items => items
  | .dropped items => items

/-- The waits that have ended between two states. -/
def returns (t t' : Timeline ρ α) : List (Event ρ α) :=
  (t'.ended.take (t'.ended.length - t.ended.length)).reverse.map fun e => .returned e.name e.items

/-- One thing after the other that may happen to a backlog and to those who wait for it. -/
inductive Happens : Timeline ρ α → List (Event ρ α) → Timeline ρ α → Prop
  | adds (t : Timeline ρ α) (a : α) : Happens t [.added a (t.add a).1] (t.add a).2
  | enables (t : Timeline ρ α) : Happens t [] (t.setEnabled true)
  | disables (t : Timeline ρ α) :
    Happens t [.dropped t.backlog.items.toList] (t.setEnabled false)
  | begins (t : Timeline ρ α) (name : ρ) (ms : Nat) : Happens t [] (t.begin name ms)
  | acts (t : Timeline ρ α) (place : Nat) :
    Happens t (t.returns (t.stepAt place)) (t.stepAt place)
  | sleeps (t : Timeline ρ α) (ms : Nat) : Happens t (t.returns (t.sleep ms)) (t.sleep ms)
  /-- Removers are woken late, or for nothing. -/
  | stirs (t : Timeline ρ α) (awake : Remover ρ → Bool) :
    Happens t [] { t with removers := t.removers.map fun r => { r with awake := awake r } }
  /-- Time passes, and nobody has noticed yet. -/
  | elapses (t : Timeline ρ α) (ms : Nat) : Happens t [] { t with now := t.now + ms }
  /-- A remover notices that its deadline has come. -/
  | givesUp {t : Timeline ρ α} {place : Nat} {r : Remover ρ} :
    t.removers[place]? = some r → r.deadline ≤ t.now →
      Happens t [.returned r.name []]
        { t with
          removers := t.removers.eraseIdx place
          ended := ⟨r.name, [], t.now⟩ :: t.ended }

/-- What may have been noted since a backlog was empty, and its state now. -/
inductive Run (maxLength : Nat) : List (Event ρ α) → Timeline ρ α → Prop
  | starts : Run maxLength [] { backlog := .empty maxLength }
  | goesOn {log es : List (Event ρ α)} {t t' : Timeline ρ α} :
    Run maxLength log t → Happens t es t' → Run maxLength (log ++ es) t'

/-! ## The account -/

theorem accepted_returns (t t' : Timeline ρ α) :
    (t.returns t').filterMap Event.accepted? = [] := by
  refine List.filterMap_eq_nil_iff.2 fun e he => ?_
  obtain ⟨ended, -, rfl⟩ := List.mem_map.1 he
  rfl

theorem given_returns {t t' : Timeline ρ α} {es : List (Ended ρ α)}
    (h : t'.ended = es ++ t.ended) :
    (t.returns t').flatMap Event.given = es.reverse.flatMap Ended.items := by
  rw [returns, h, List.length_append, Nat.add_sub_cancel, List.take_left' rfl, List.flatMap_map]
  rfl

/-- A remover that acts is answered with what it takes out. -/
theorem exists_ended_stepAt (t : Timeline ρ α) (place : Nat) :
    ∃ es, (t.stepAt place).ended = es ++ t.ended ∧
      t.backlog.Passes [] (es.reverse.flatMap Ended.items) (t.stepAt place).backlog := by
  rw [stepAt]
  split
  · exact ⟨[], rfl, passes_refl _⟩
  · rename_i r _
    split
    · have hact := passes_act t.now t.backlog r
      split
      · rename_i items backlog heq
        rw [heq] at hact
        refine ⟨[⟨r.name, items, t.now⟩], rfl, ?_⟩
        simpa using hact
      · rename_i backlog heq
        rw [heq] at hact
        exact ⟨[], rfl, hact⟩
    · exact ⟨[], rfl, passes_refl _⟩

/-- Whoever sleeps until its deadline gets nothing. -/
theorem given_returns_sleep (t : Timeline ρ α) (ms : Nat) :
    (t.returns (t.sleep ms)).flatMap Event.given = [] := by
  have hended : (t.sleep ms).ended = _ ++ t.ended := rfl
  rw [given_returns hended, List.reverse_reverse, List.flatMap_map]
  exact List.flatMap_eq_nil_iff.2 fun _ _ => rfl

/-- Everything that happens passes on what is noted. -/
theorem Happens.passes {t t' : Timeline ρ α} {es : List (Event ρ α)} (h : Happens t es t') :
    t.backlog.Passes (es.filterMap Event.accepted?) (es.flatMap Event.given) t'.backlog := by
  cases h with
  | adds a =>
    have hadd := passes_add t.backlog a
    show t.backlog.Passes ([Event.added a (t.backlog.add a).1].filterMap Event.accepted?) _ _
    cases haccepted : (t.backlog.add a).1 with
    | false => rwa [haccepted] at hadd
    | true => rwa [haccepted] at hadd
  | enables => exact passes_setEnabled t.backlog true
  | disables =>
    have hdisable := passes_setEnabled t.backlog false
    rwa [if_neg Bool.false_ne_true, ← List.append_nil t.backlog.items.toList] at hdisable
  | acts place =>
    obtain ⟨es, hended, hpasses⟩ := t.exists_ended_stepAt place
    rw [accepted_returns, given_returns hended]
    exact hpasses
  | sleeps ms =>
    rw [accepted_returns, given_returns_sleep]
    exact passes_refl _
  | begins | stirs | elapses | givesUp => exact passes_refl _

/-- What was accepted is what left the backlog and what still waits, in order. -/
structure Balanced (maxLength : Nat) (log : List (Event ρ α)) (b : Backlog α) : Prop where
  items : log.filterMap Event.accepted? = log.flatMap Event.given ++ b.items.toList
  bounded : b.Bounded
  maxLength : b.maxLength = maxLength

theorem Happens.balanced {maxLength : Nat} {log es : List (Event ρ α)} {t t' : Timeline ρ α}
    (h : Happens t es t') (hbefore : Balanced maxLength log t.backlog) :
    Balanced maxLength (log ++ es) t'.backlog := by
  have hpasses := h.passes
  refine ⟨?_, hpasses.bounded hbefore.bounded, hpasses.maxLength.trans hbefore.maxLength⟩
  calc (log ++ es).filterMap Event.accepted?
      = log.flatMap Event.given ++ (t.backlog.items.toList ++ es.filterMap Event.accepted?) := by
        rw [List.filterMap_append, hbefore.items, List.append_assoc]
    _ = (log ++ es).flatMap Event.given ++ t'.backlog.items.toList := by
        rw [hpasses.items, List.flatMap_append, List.append_assoc]

theorem Run.balanced {maxLength : Nat} {log : List (Event ρ α)} {t : Timeline ρ α}
    (h : Run maxLength log t) : Balanced maxLength log t.backlog := by
  induction h with
  | starts => exact ⟨rfl, bounded_of_nothing rfl, rfl⟩
  | goesOn _ hstep ih => exact hstep.balanced ih

/-- The accepted items are those that removers were answered with and those that were dropped, in the
order in which that happened, and then those that still wait. An item that is refused changes nothing,
and only a disabled or a full backlog refuses one. No more items wait than may, and none in a disabled
backlog. -/
theorem accepted_items_accounted {maxLength : Nat} {log : List (Event ρ α)} {t : Timeline ρ α}
    (h : Run maxLength log t) :
    log.filterMap Event.accepted? = log.flatMap Event.given ++ t.backlog.items.toList ∧
      (∀ a, (t.add a).1 = false → (t.add a).2 = t ∧
        (t.backlog.enabled = false ∨ 0 < maxLength ∧ t.backlog.size = maxLength)) ∧
      (0 < maxLength → t.backlog.size ≤ maxLength) ∧
      (t.backlog.enabled = false → t.backlog.items.toList = []) := by
  obtain ⟨hitems, hbounded, rfl⟩ := h.balanced
  have hroom : 0 < t.backlog.maxLength → t.backlog.size ≤ t.backlog.maxLength :=
    fun hlimit => hbounded.room (Nat.ne_of_gt hlimit)
  refine ⟨hitems, fun a hrefused => ⟨?_, ?_⟩, hroom, hbounded.disabled⟩
  · have hrefused : (t.backlog.add a).1 = false := hrefused
    simp only [Timeline.add, hrefused, add_of_refused hrefused, Bool.false_eq_true, if_false]
  · refine (add_refuses_iff.1 hrefused).imp_right fun hfull => ?_
    have hlimit := Nat.pos_of_ne_zero hfull.1
    exact ⟨hlimit, Nat.le_antisymm (hroom hlimit) hfull.2⟩

/-- Room for one item: one is refused, one is taken by a remover, one is dropped and one waits. -/
theorem accepted_items_accounted_of_refused :
    ∃ (log : List (Event Nat String)) (t : Timeline Nat String), Run 1 log t ∧
      log = [.added "first" true, .added "second" false, .returned 7 ["first"],
        .added "third" true, .dropped ["third"], .added "fourth" true] ∧
      log.filterMap Event.accepted? = log.flatMap Event.given ++ t.backlog.items.toList ∧
      t.backlog.items.toList = ["fourth"] := by
  have hstart : Run 1 [] ({ backlog := .empty 1 } : Timeline Nat String) := .starts
  have hrun := hstart
    |>.goesOn (.adds _ "first") |>.goesOn (.adds _ "second") |>.goesOn (.begins _ 7 10)
    |>.goesOn (.acts _ 0) |>.goesOn (.adds _ "third") |>.goesOn (.disables _)
    |>.goesOn (.enables _) |>.goesOn (.adds _ "fourth")
  exact ⟨_, _, hrun, rfl, (accepted_items_accounted hrun).1, rfl⟩

end Timeline

end PeerCluster.Backlog
