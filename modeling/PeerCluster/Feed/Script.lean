import PeerCluster.Feed

/-!
# Subscribers that act

A subscriber may itself subscribe, cancel and publish while it is called, so publishing nests to any
depth. Here every subscriber has a name and a list of actions, which it performs the first time it
is called. A stage performs one piece of work at a time. Work that a piece brings about is done
before the work that was already waiting, so what an event brings about is over before the action
after it begins.

The work always comes to an end, because an action is performed at most once and only a subscriber's
first call brings new actions.
-/

namespace PeerCluster.Feed.Script

/-- Something that can be done with a feed. -/
inductive Action where
  /-- A new subscription that takes the place of an older one of that name. -/
  | subscribe (name : String) (onFirst : List Action)
  | cancel (name : String)
  | publish (event : MemberEvent)
  /-- The feed is given up. -/
  | close

mutual

/-- How many actions an action can bring about, with itself. -/
def weight : Action → Nat
  | .subscribe _ onFirst => 1 + weights onFirst
  | .cancel _ | .publish _ | .close => 1

/-- How many actions a list of actions can bring about, with themselves. -/
def weights : List Action → Nat
  | [] => 0
  | a :: rest => weight a + weights rest

end

/-- A subscriber: its name, and what it will do the first time it is called. -/
structure Subscriber where
  name : String
  due : List Action

/-- A call of a subscriber. -/
structure Call where
  name : String
  event : MemberEvent

/-- A piece of work. -/
inductive Work where
  | act (a : Action)
  /-- A call of the subscriber that subscribed as the given one. -/
  | call (subscriber : Nat) (event : MemberEvent)

/-- A feed, its subscribers, and what is left to do. -/
structure Stage where
  /-- The feed, until it is given up. -/
  feed : Option (Feed Nat) := some {}
  /-- The subscriptions that are held, by name. -/
  held : List (String × Subscription) := []
  /-- Every subscriber ever, in the order of subscription. -/
  subscribers : List Subscriber := []
  work : List Work := []
  /-- The calls made so far, last first. -/
  calls : List Call := []

namespace Stage

/-- Cancels a subscription, if the feed still exists. -/
def cancelled (feed : Option (Feed Nat)) (s : Option Subscription) : Option (Feed Nat) :=
  match feed, s with
  | some f, some s => some (f.cancel s)
  | feed, _ => feed

/-- Performs an action. -/
def act (g : Stage) : Action → Stage
  | .subscribe name onFirst =>
    match g.feed with
    | none => g
    | some f =>
      let (s, f) := f.subscribe g.subscribers.length
      { g with
        feed := cancelled (some f) (g.held.lookup name)
        held := (name, s) :: g.held.filter fun h => h.1 != name
        subscribers := g.subscribers ++ [⟨name, onFirst⟩] }
  | .cancel name =>
    { g with
      feed := cancelled g.feed (g.held.lookup name)
      held := g.held.filter fun h => h.1 != name }
  | .publish event =>
    match g.feed with
    | none => g
    | some f => { g with work := f.calls.map (.call · event) ++ g.work }
  | .close => { g with feed := none }

/-- Calls a subscriber. -/
def call (g : Stage) (index : Nat) (event : MemberEvent) : Stage :=
  match g.subscribers[index]? with
  | none => g
  | some s =>
    { g with
      subscribers := g.subscribers.set index ⟨s.name, []⟩
      work := s.due.map .act ++ g.work
      calls := ⟨s.name, event⟩ :: g.calls }

/-- Does the next piece of work; `none` when there is none. -/
def step? (g : Stage) : Option Stage :=
  match g.work with
  | [] => none
  | .act a :: rest => some ({ g with work := rest }.act a)
  | .call index event :: rest => some ({ g with work := rest }.call index event)

/-! ## The work ends -/

/-- How many actions a list of work can bring about. -/
def workWeight : List Work → Nat
  | [] => 0
  | .act a :: rest => weight a + workWeight rest
  | .call _ _ :: rest => workWeight rest

/-- How many actions subscribers can still bring about. -/
def dueWeight : List Subscriber → Nat
  | [] => 0
  | s :: rest => weights s.due + dueWeight rest

/-- How many subscribers have not been called yet and have something to do. -/
def expectant (subscribers : List Subscriber) : Nat :=
  subscribers.countP fun s => !s.due.isEmpty

theorem workWeight_append (ws vs : List Work) :
    workWeight (ws ++ vs) = workWeight ws + workWeight vs := by
  induction ws with
  | nil => simp [workWeight]
  | cons w ws ih =>
    cases w with
    | act a => simp only [List.cons_append, workWeight, ih]; omega
    | call => simpa only [List.cons_append, workWeight] using ih

theorem workWeight_acts (as : List Action) : workWeight (as.map .act) = weights as := by
  induction as with
  | nil => rfl
  | cons a as ih => simp [workWeight, weights, ih]

theorem workWeight_calls (is : List Nat) (event : MemberEvent) :
    workWeight (is.map (.call · event)) = 0 := by
  induction is with
  | nil => rfl
  | cons i is ih => simp [workWeight, ih]

theorem dueWeight_append (ss ts : List Subscriber) :
    dueWeight (ss ++ ts) = dueWeight ss + dueWeight ts := by
  induction ss with
  | nil => simp [dueWeight]
  | cons s ss ih => simp [dueWeight, ih]; omega

theorem dueWeight_set {ss : List Subscriber} {i : Nat} {s : Subscriber} (name : String)
    (h : ss[i]? = some s) : dueWeight (ss.set i ⟨name, []⟩) + weights s.due = dueWeight ss := by
  induction ss generalizing i with
  | nil => simp at h
  | cons t ss ih =>
    cases i with
    | zero =>
      simp only [List.getElem?_cons_zero, Option.some.injEq] at h
      subst h
      simp [dueWeight, weights]
      omega
    | succ i =>
      simp only [List.getElem?_cons_succ] at h
      have := ih h
      simp only [List.set_cons_succ, dueWeight]
      omega

theorem expectant_set {ss : List Subscriber} {i : Nat} {s : Subscriber} (name : String)
    (h : ss[i]? = some s) :
    expectant (ss.set i ⟨name, []⟩) + (if s.due.isEmpty then 0 else 1) = expectant ss := by
  unfold expectant
  induction ss generalizing i with
  | nil => simp at h
  | cons t ss ih =>
    cases i with
    | zero =>
      simp only [List.getElem?_cons_zero, Option.some.injEq] at h
      subst h
      cases hd : t.due.isEmpty <;> simp [hd]
    | succ i =>
      simp only [List.getElem?_cons_succ] at h
      have := ih h
      simp only [List.set_cons_succ, List.countP_cons]
      omega

/-- How many actions are left, counting those that are only expected. -/
def actionsLeft (g : Stage) : Nat :=
  workWeight g.work + dueWeight g.subscribers

theorem actionsLeft_act (g : Stage) (a : Action) :
    (g.act a).actionsLeft + 1 ≤ g.actionsLeft + weight a := by
  cases a with
  | subscribe name onFirst =>
    cases hf : g.feed with
    | none => simp [act, hf, actionsLeft, weight]
    | some f =>
      simp only [act, hf, actionsLeft, weight, dueWeight_append, dueWeight]
      omega
  | cancel name => simp [act, actionsLeft, weight]
  | publish event =>
    cases hf : g.feed with
    | none => simp [act, hf, actionsLeft, weight]
    | some f =>
      simp only [act, hf, actionsLeft, weight, workWeight_append, workWeight_calls]
      omega
  | close => simp [act, actionsLeft, weight]

/-- Every piece of work brings the end nearer: an action leaves fewer actions; a first call with
actions leaves as many actions and fewer subscribers to call first; any other call leaves less
work. -/
theorem measure_step {g g' : Stage} (h : g.step? = some g') :
    Prod.Lex (· < ·) (Prod.Lex (· < ·) (· < ·))
      (g'.actionsLeft, expectant g'.subscribers, g'.work.length)
      (g.actionsLeft, expectant g.subscribers, g.work.length) := by
  unfold step? at h
  split at h
  · simp at h
  · rename_i a rest hw
    simp only [Option.some.injEq] at h
    subst h
    apply Prod.Lex.left
    have := actionsLeft_act { g with work := rest } a
    have hg : g.actionsLeft = weight a + (actionsLeft { g with work := rest }) := by
      simp [actionsLeft, hw, workWeight]
      omega
    omega
  · rename_i index event rest hw
    simp only [Option.some.injEq] at h
    subst h
    unfold call
    split
    · rename_i hnone
      have hg : g.actionsLeft = actionsLeft { g with work := rest } := by
        simp [actionsLeft, hw, workWeight]
      rw [hg]
      apply Prod.Lex.right
      apply Prod.Lex.right
      simp [hw]
    · rename_i s hs
      dsimp only at hs
      have hdue := dueWeight_set s.name hs
      have hexp := expectant_set s.name hs
      have hg : g.actionsLeft = actionsLeft
          { g with
            subscribers := g.subscribers.set index ⟨s.name, []⟩
            work := s.due.map .act ++ rest
            calls := ⟨s.name, event⟩ :: g.calls } := by
        simp only [actionsLeft, hw, workWeight, workWeight_append, workWeight_acts]
        omega
      rw [hg]
      apply Prod.Lex.right
      cases hd : s.due.isEmpty with
      | true =>
        have hnil : s.due = [] := List.isEmpty_iff.1 hd
        simp only [hd, ↓reduceIte, Nat.add_zero] at hexp
        rw [hexp, hnil]
        apply Prod.Lex.right
        simp [hw]
      | false =>
        apply Prod.Lex.left
        simp only [hd, Bool.false_eq_true, ↓reduceIte] at hexp
        dsimp only
        omega

/-- Works until nothing is left to do. -/
def run (g : Stage) : Stage :=
  match _h : g.step? with
  | none => g
  | some g' => run g'
termination_by (g.actionsLeft, expectant g.subscribers, g.work.length)
decreasing_by exact measure_step _h

/-- Performs an action and all it brings about, and gives the calls made. -/
def perform (g : Stage) (a : Action) : List Call × Stage :=
  let g := run { g with work := [.act a], calls := [] }
  (g.calls.reverse, g)

/-- Cancels every subscription that is held. -/
def release (g : Stage) : Stage :=
  { g with
    feed := g.held.foldl (fun f h => cancelled f (some h.2)) g.feed
    held := [] }

/-- How many subscribers the feed has, while it exists. -/
def count? (g : Stage) : Option Nat :=
  g.feed.map Feed.count

end Stage

end PeerCluster.Feed.Script
