import Mathlib.Data.List.ReduceOption
import PeerCluster.Feed.Calls

/-!
# Publishing while publishing

What is called subscribes, gives subscriptions up and publishes while the list of subscribers is being
gone through. **Theorem (`exact_under_reentrancy`).** After any moves, the subscribers are those whose
subscription is held, in the order in which they subscribed; a publication calls those that are
subscribers when it begins, each once, in order, and nobody else is ever called.

**Subscribers** (`Registered`). The subscription handed out at a place is numbered with the place, so
that giving it up takes out its own subscriber and, as long as the numbers last, no other.

**Publications** (`account`). What a publication has called, followed by what it has still to call, is
settled when it begins. No move changes the account of a publication that has begun (`account_next`): the
innermost one takes its next call from the front of what is due to the end of what is made, and all the
other moves touch neither. Numbers do not matter to it.

**Ends** (`publications_goOn`). Publications that are let go on come to an end.
-/

namespace PeerCluster.Feed.Scene

variable {κ : Type} {s : Scene κ} {n : Nat}

/-- What every move keeps holds after a run. -/
theorem run_of_next {P : Scene κ → Prop} (hnext : ∀ {s : Scene κ} (m : Move κ), P s → P (s.next m))
    (h : P s) (moves : List (Move κ)) : P (s.run moves) := by
  induction moves generalizing s with
  | nil => exact h
  | cons m rest ih => exact ih (hnext m h)

/-! ## Subscribers -/

/-- Nobody is subscribed whose subscription is not held, and as long as the numbers last nobody else is
missing. A subscription has the number of the place at which it was handed out. -/
structure Registered (s : Scene κ) : Prop where
  sublist : s.feed.subscribers.Sublist s.held
  subscribers : s.handles.length ≤ UInt64.size → s.feed.subscribers = s.held
  numbers : s.feed.next = .ofNat s.handles.length
  place : ∀ {place : Nat} {subscription : Subscription} {call : κ},
    s.handles[place]? = some (some (subscription, call)) → subscription = .after place

theorem registered_empty : Registered ({} : Scene κ) where
  sublist := List.Sublist.refl []
  subscribers _ := rfl
  numbers := rfl
  place := nofun

/-- As long as the numbers last, a subscription tells the place at which it was handed out. -/
theorem Registered.place_inj (h : s.Registered) (hfew : s.handles.length ≤ UInt64.size) {i j : Nat}
    {e e' : Subscription × κ} (hi : s.handles[i]? = some (some e))
    (hj : s.handles[j]? = some (some e')) (hsame : e.1 = e'.1) : i = j := by
  rw [h.place hi, h.place hj] at hsame
  obtain ⟨hi, -⟩ := List.getElem?_eq_some_iff.1 hi
  obtain ⟨hj, -⟩ := List.getElem?_eq_some_iff.1 hj
  exact Subscription.after_inj (Nat.lt_of_lt_of_le hi hfew) (Nat.lt_of_lt_of_le hj hfew) hsame

/-- No two of the subscriptions that are held are the same. -/
theorem Registered.nodup (h : s.Registered) (hfew : s.handles.length ≤ UInt64.size) :
    (s.held.map Prod.fst).Nodup := by
  rw [held, List.nodup_iff_pairwise_ne, List.pairwise_map, List.reduceOption, List.pairwise_filterMap,
    List.pairwise_iff_getElem]
  intro i j hi hj hij e hfirst e' hsecond hsame
  have hplace := h.place_inj hfew (List.getElem?_eq_some_iff.2 ⟨hi, hfirst⟩)
    (List.getElem?_eq_some_iff.2 ⟨hj, hsecond⟩) hsame
  omega

theorem Registered.subscribe (h : s.Registered) (call : κ) :
    (s.next (.subscribe call)).Registered where
  sublist := by
    simp only [Scene.next, Feed.subscribe, held, List.reduceOption_append]
    exact h.sublist.append (List.Sublist.refl _)
  subscribers hfew := by
    simp only [Scene.next, Feed.subscribe, List.length_append] at hfew
    simp only [Scene.next, Feed.subscribe, held, List.reduceOption_append,
      h.subscribers (Nat.le_of_succ_le hfew)]
    rfl
  numbers := by
    simp only [Scene.next, Feed.subscribe, List.length_append, h.numbers]
    exact (UInt64.ofNat_add ..).symm
  place := by
    intro place subscription call' hplace
    simp only [Scene.next, Feed.subscribe, h.numbers, List.getElem?_append] at hplace
    split at hplace
    next => exact h.place hplace
    next hle =>
      obtain ⟨hlt, heq⟩ := List.getElem?_eq_some_iff.1 hplace
      rw [List.length_singleton] at hlt
      have hend : place = s.handles.length := by omega
      rw [List.getElem_singleton, Option.some.injEq, Prod.mk.injEq] at heq
      rw [hend, ← heq.1, Subscription.after]

/-- What is held but for the subscription that was handed out at a place. -/
theorem exists_held_split {place : Nat} {e : Subscription × κ}
    (hplace : s.handles[place]? = some (some e)) :
    ∃ front rest, s.held = front ++ e :: rest ∧
      (s.handles.set place none).reduceOption = front ++ rest := by
  obtain ⟨hlt, hget⟩ := List.getElem?_eq_some_iff.1 hplace
  obtain ⟨front, rest, hsplit, -, hset⟩ :
      ∃ front rest, s.handles = front ++ s.handles[place] :: rest ∧
        front.length = place ∧ s.handles.set place none = front ++ none :: rest :=
    List.exists_of_set hlt
  refine ⟨front.reduceOption, rest.reduceOption, ?_, ?_⟩
  · rw [held, hsplit, hget, List.reduceOption_append, List.reduceOption_cons_of_some]
  · rw [hset, List.reduceOption_append, List.reduceOption_cons_of_none]

theorem Registered.drop (h : s.Registered) (place : Nat) : (s.next (.drop place)).Registered := by
  rw [Scene.next]
  split
  next subscription call hplace =>
    obtain ⟨front, rest, hheld, hleft⟩ := exists_held_split hplace
    exact {
      sublist := by
        rw [held, hleft]
        exact (hheld ▸ h.sublist.filter _).trans (filter_sublist front rest (subscription, call))
      subscribers := by
        intro hfew
        rw [List.length_set] at hfew
        have hnodup := h.nodup hfew
        rw [hheld] at hnodup
        rw [held, hleft, ← filter_of_nodup hnodup, ← hheld, ← h.subscribers hfew]
        rfl
      numbers := by
        rw [Feed.cancel, Feed.cancelUnder, List.length_set, h.numbers]
      place := by
        intro place' subscription' call' hplace'
        rw [List.getElem?_set] at hplace'
        split at hplace'
        next => split at hplace' <;> simp at hplace'
        next => exact h.place hplace' }
  next => exact h

/-- Publications leave the subscribers alone. -/
theorem Registered.of_same {s' : Scene κ} (h : s.Registered) (hfeed : s'.feed = s.feed)
    (hhandles : s'.handles = s.handles) : s'.Registered where
  sublist := by
    rw [hfeed, held, hhandles]
    exact h.sublist
  subscribers := by
    rw [hfeed, held, hhandles]
    exact h.subscribers
  numbers := by rw [hfeed, hhandles, h.numbers]
  place := by
    rw [hhandles]
    exact h.place

theorem feed_goOn (s : Scene κ) : s.goOn.feed = s.feed := by
  rw [goOn]
  split <;> rfl

theorem handles_goOn (s : Scene κ) : s.goOn.handles = s.handles := by
  rw [goOn]
  split <;> rfl

theorem Registered.next (h : s.Registered) (m : Move κ) : (s.next m).Registered := by
  cases m with
  | subscribe call => exact h.subscribe call
  | drop place => exact h.drop place
  | publish event => exact h.of_same rfl rfl
  | goOn => exact h.of_same (feed_goOn s) (handles_goOn s)

theorem Registered.run (h : s.Registered) (moves : List (Move κ)) : (s.run moves).Registered :=
  run_of_next (fun m h => h.next m) h moves

/-! ## Publications -/

/-- The calls that a publication has made, in order. -/
def made (s : Scene κ) (n : Nat) : List (Delivery κ) :=
  s.deliveries.filter fun d => d.publication == n

/-- The calls that a publication has still to make, in order. -/
def due (s : Scene κ) (n : Nat) : List (Delivery κ) :=
  (s.publications.filter fun p => p.number == n).flatMap fun p => p.due.map (⟨p.number, p.event, ·⟩)

/-- All the calls of a publication, in order. -/
def account (s : Scene κ) (n : Nat) : List (Delivery κ) :=
  s.made n ++ s.due n

theorem account_goOn (s : Scene κ) (n : Nat) : s.goOn.account n = s.account n := by
  rw [goOn]
  split
  next => rfl
  next number event outer hpublications =>
    simp only [account, made, due, hpublications, List.filter_cons]
    split <;> rfl
  next number event call rest outer hpublications =>
    simp only [account, made, due, hpublications, List.filter_cons, List.filter_append]
    by_cases hn : number = n
    · simp [hn]
    · simp [hn]

theorem begun_goOn (s : Scene κ) : s.goOn.begun = s.begun := by
  rw [goOn]
  split <;> rfl

theorem begun_le_next (s : Scene κ) (m : Move κ) : s.begun ≤ (s.next m).begun := by
  cases m with
  | subscribe call => exact Nat.le_refl _
  | drop place =>
    rw [next]
    split <;> exact Nat.le_refl _
  | publish event => exact Nat.le_succ _
  | goOn => exact Nat.le_of_eq (begun_goOn s).symm

/-- What a publication calls is settled when it has begun. -/
theorem account_next (h : n < s.begun) (m : Move κ) : (s.next m).account n = s.account n := by
  cases m with
  | subscribe call => rfl
  | drop place =>
    rw [next]
    split <;> rfl
  | publish event =>
    have hother : (s.begun == n) = false := by
      rw [beq_eq_false_iff_ne]
      omega
    simp only [next, account, made, due, List.filter_cons, hother]
    rfl
  | goOn => exact account_goOn s n

theorem account_run (h : n < s.begun) (moves : List (Move κ)) :
    (s.run moves).account n = s.account n := by
  induction moves generalizing s with
  | nil => rfl
  | cons m rest ih =>
    rw [run, List.foldl_cons, ← run, ih (Nat.lt_of_lt_of_le h (begun_le_next s m)), account_next h]

/-- What has made a call, or is under way, has begun. -/
structure Numbered (s : Scene κ) : Prop where
  deliveries : ∀ d ∈ s.deliveries, d.publication < s.begun
  publications : ∀ p ∈ s.publications, p.number < s.begun

theorem numbered_empty : Numbered ({} : Scene κ) where
  deliveries := nofun
  publications := nofun

theorem Numbered.goOn (h : s.Numbered) : s.goOn.Numbered := by
  have hnumbers := h.publications
  rw [Scene.goOn]
  split
  next => exact h
  next number event outer hpublications =>
    rw [hpublications] at hnumbers
    exact ⟨h.deliveries, fun p hp => hnumbers p (List.mem_cons_of_mem _ hp)⟩
  next number event call rest outer hpublications =>
    rw [hpublications] at hnumbers
    have hnumber : number < s.begun := hnumbers _ List.mem_cons_self
    refine ⟨fun d hd => ?_, fun p hp => ?_⟩
    · obtain hd | hd := List.mem_append.1 hd
      · exact h.deliveries d hd
      · rw [List.mem_singleton.1 hd]
        exact hnumber
    · obtain rfl | hp := List.mem_cons.1 hp
      · exact hnumber
      · exact hnumbers p (List.mem_cons_of_mem _ hp)

theorem Numbered.next (h : s.Numbered) (m : Move κ) : (s.next m).Numbered := by
  cases m with
  | subscribe call => exact ⟨h.deliveries, h.publications⟩
  | drop place =>
    rw [Scene.next]
    split <;> exact ⟨h.deliveries, h.publications⟩
  | publish event =>
    refine ⟨fun d hd => Nat.lt_succ_of_lt (h.deliveries d hd), fun p hp => ?_⟩
    obtain rfl | hp := List.mem_cons.1 hp
    · exact Nat.lt_succ_self _
    · exact Nat.lt_succ_of_lt (h.publications p hp)
  | goOn => exact h.goOn

theorem Numbered.run (h : s.Numbered) (moves : List (Move κ)) : (s.run moves).Numbered :=
  run_of_next (fun m h => h.next m) h moves

/-- A publication that begins is going to call the subscribers of that moment. -/
theorem account_publish (h : s.Numbered) (event : MemberEvent) :
    (s.next (.publish event)).account s.begun = s.feed.calls.map (⟨s.begun, event, ·⟩) := by
  have hmade : s.made s.begun = [] := by
    rw [made, List.filter_eq_nil_iff]
    intro d hd
    rw [beq_iff_eq]
    exact Nat.ne_of_lt (h.deliveries d hd)
  have hdue : s.publications.filter (fun p => p.number == s.begun) = [] := by
    rw [List.filter_eq_nil_iff]
    intro p hp
    rw [beq_iff_eq]
    exact Nat.ne_of_lt (h.publications p hp)
  have hmade' : (s.next (.publish event)).made s.begun = [] := hmade
  rw [account, hmade', due]
  simp only [Scene.next, List.filter_cons, beq_self_eq_true, if_true, hdue]
  simp

/-- What has begun in a run began with one of its moves. -/
theorem exists_publish {moves : List (Move κ)} (h : s.begun ≤ n) (h' : n < (s.run moves).begun) :
    ∃ before event after, moves = before ++ .publish event :: after ∧ (s.run before).begun = n := by
  induction moves generalizing s with
  | nil => exact absurd h' (Nat.not_lt.2 h)
  | cons m rest ih =>
    by_cases hafter : (s.next m).begun ≤ n
    · obtain ⟨before, event, after, rfl, hbegun⟩ := ih hafter h'
      exact ⟨m :: before, event, after, rfl, hbegun⟩
    · -- The only move with which something begins.
      obtain ⟨event, rfl⟩ : ∃ event, m = .publish event := by
        cases m with
        | publish event => exact ⟨event, rfl⟩
        | subscribe call => exact absurd h hafter
        | drop place =>
          rw [next] at hafter
          split at hafter <;> exact absurd h hafter
        | goOn =>
          rw [next, begun_goOn] at hafter
          exact absurd h hafter
      refine ⟨[], event, rest, rfl, ?_⟩
      have hbegun : (s.next (.publish event)).begun = s.begun + 1 := rfl
      rw [run, List.foldl_nil]
      omega

/-! ## Ends -/

/-- How often publications have to go on until all of them are over. -/
def toDo (s : Scene κ) : Nat :=
  (s.publications.flatMap Publication.due).length + s.publications.length

theorem toDo_goOn (h : s.publications ≠ []) : s.goOn.toDo + 1 = s.toDo := by
  rw [goOn]
  split
  next hnone => exact absurd hnone h
  next hpublications =>
    rw [toDo, toDo, hpublications]
    rfl
  next hpublications =>
    rw [toDo, toDo, hpublications]
    simp only [List.flatMap_cons, List.length_append, List.length_cons]
    omega

/-- Publications come to an end, as soon as what they call returns. -/
theorem publications_goOn (s : Scene κ) :
    (s.run (List.replicate s.toDo .goOn)).publications = [] := by
  induction htoDo : s.toDo generalizing s with
  | zero =>
    rw [toDo, Nat.add_eq_zero_iff] at htoDo
    exact List.length_eq_zero_iff.1 htoDo.2
  | succ k ih =>
    have hsome : s.publications ≠ [] := by
      intro hnone
      rw [toDo, hnone] at htoDo
      cases htoDo
    have hgoOn := toDo_goOn hsome
    exact ih s.goOn (by omega)

/-- **Theorem.** Whatever is subscribed, given up and published, and by whomever, also by what is being
called: nobody is subscribed whose subscription has been given up, and as long as no more subscriptions
were handed out than there are numbers, the subscribers are those whose subscription is held, in the order
in which they subscribed, and no two of these are the same. However many there were, a publication calls
those that are subscribers when it begins, once each, in that order: it never calls anybody else, and once
it is over it has called all of them. No call is made otherwise, and publications come to an end as soon as
what they call returns. -/
theorem exact_under_reentrancy (moves : List (Move κ)) :
    let start : Scene κ := {}
    let s := start.run moves
    s.feed.subscribers.Sublist s.held ∧
    (s.handles.length ≤ UInt64.size →
      s.feed.subscribers = s.held ∧ (s.held.map Prod.fst).Nodup) ∧
    (∀ before event after, moves = before ++ .publish event :: after →
      let t := start.run before
      let calls : List (Delivery κ) := t.feed.subscribers.map fun e => ⟨t.begun, event, e.2⟩
      s.made t.begun <+: calls ∧
        ((∀ p ∈ s.publications, p.number ≠ t.begun) → s.made t.begun = calls)) ∧
    (∀ d ∈ s.deliveries, ∃ before event after, moves = before ++ .publish event :: after ∧
      d.publication = (start.run before).begun) ∧
    ∃ k, (s.run (List.replicate k .goOn)).publications = [] := by
  intro start s
  have hregistered := (registered_empty (κ := κ)).run moves
  have hnumbered := (numbered_empty (κ := κ)).run
  refine ⟨hregistered.sublist, fun hfew => ⟨hregistered.subscribers hfew, hregistered.nodup hfew⟩, ?_,
    fun d hd => ?_, _, publications_goOn s⟩
  · intro before event after hmoves t calls
    have haccount : s.account t.begun = calls := by
      have hbegun : t.begun < (t.next (.publish event)).begun := Nat.lt_succ_self _
      calc s.account t.begun
        _ = ((t.next (.publish event)).run after).account t.begun := by
          rw [show s = start.run moves from rfl, hmoves, run, List.foldl_append]
          rfl
        _ = (t.next (.publish event)).account t.begun := account_run hbegun after
        _ = calls := by
          rw [account_publish (hnumbered before), Feed.calls, List.map_map]
          rfl
    refine ⟨⟨s.due t.begun, haccount⟩, fun hover => ?_⟩
    have hdue : s.due t.begun = [] := by
      rw [due, List.filter_eq_nil_iff.2, List.flatMap_nil]
      intro p hp
      rw [beq_iff_eq]
      exact hover p hp
    rw [← haccount, account, hdue, List.append_nil]
  · obtain ⟨before, event, after, hmoves, hbegun⟩ :=
      exists_publish (Nat.zero_le _) ((hnumbered moves).deliveries d hd)
    exact ⟨before, event, after, hmoves, hbegun.symm⟩

/-- The first subscriber gives up the second one, subscribes a third and publishes again, while it is
called. The second one is still called for the first publication, and the third only for the other. -/
example (e : MemberEvent) :
    (({} : Scene Nat).run [.subscribe 1, .subscribe 2, .publish e, .goOn, .drop 1, .subscribe 3,
      .publish e, .goOn, .goOn, .goOn, .goOn, .goOn]).deliveries =
        [⟨0, e, 1⟩, ⟨1, e, 1⟩, ⟨1, e, 3⟩, ⟨0, e, 2⟩] :=
  rfl

end PeerCluster.Feed.Scene
