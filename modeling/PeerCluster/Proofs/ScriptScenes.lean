import Mathlib.Data.List.Forall2
import PeerCluster.Feed.Script
import PeerCluster.Proofs.Reentrancy

/-!
# Scripts are scenes

Subscribers that act by a script do what a scene leaves open. **Theorem (`exists_follows_perform`).** An
action of a script, with all that it brings about, is a run of the scene of its feed: the same feed, and
the same calls with the same events in the same order.

A stage keeps the calls that are due in one list, between the actions that are due; a scene keeps them by
publications (`Follows`). They are the same calls in the same order, since what a piece of work brings
about goes in front. A stage keeps subscriptions by name, a scene by the place at which they were handed
out, which is the place of the subscriber (`Holds`).
-/

namespace PeerCluster.Feed

namespace Scene

variable {κ : Type} {s : Scene κ}

/-- The calls that are still to be made, in order. -/
def agenda (s : Scene κ) : List (κ × MemberEvent) :=
  s.publications.flatMap fun p => p.due.map (·, p.event)

theorem feed_drop {place : Nat} {subscription : Subscription} {call : κ}
    (h : s.handles[place]? = some (some (subscription, call))) :
    (s.next (.drop place)).feed = s.feed.cancel subscription := by
  rw [next, h]

theorem handles_drop_of_ne {place place' : Nat} (h : place' ≠ place) :
    (s.next (.drop place)).handles[place']? = s.handles[place']? := by
  rw [next]
  split
  next => exact List.getElem?_set_ne h.symm
  next => rfl

theorem length_handles_drop (s : Scene κ) (place : Nat) :
    (s.next (.drop place)).handles.length = s.handles.length := by
  rw [next]
  split
  next => exact List.length_set
  next => rfl

theorem agenda_drop (s : Scene κ) (place : Nat) : (s.next (.drop place)).agenda = s.agenda := by
  rw [next]
  split <;> rfl

theorem deliveries_drop (s : Scene κ) (place : Nat) :
    (s.next (.drop place)).deliveries = s.deliveries := by
  rw [next]
  split <;> rfl

/-- The calls that are due are made in their order, once the publications in front that have nothing to
call any more are over. -/
theorem exists_goOn {call : κ} {event : MemberEvent} {rest : List (κ × MemberEvent)}
    (h : s.agenda = (call, event) :: rest) :
    ∃ k, let t := s.run (List.replicate k .goOn)
      t.feed = s.feed ∧ t.handles = s.handles ∧ t.agenda = rest ∧
        ∃ n, t.deliveries = s.deliveries ++ [⟨n, event, call⟩] := by
  induction hpublications : s.publications generalizing s with
  | nil => simp [agenda, hpublications] at h
  | cons p outer ih =>
    obtain ⟨number, event', due⟩ := p
    cases due with
    | nil =>
      have hover : s.next .goOn = { s with publications := outer } := by
        rw [next, goOn, hpublications]
      have hagenda : (s.next .goOn).agenda = s.agenda := by
        rw [hover, agenda, agenda, hpublications]
        rfl
      obtain ⟨k, hfeed, hhandles, hrest, n, hcalls⟩ := ih (hagenda.trans h) (by rw [hover])
      exact ⟨k + 1, hfeed.trans (feed_goOn s), hhandles.trans (handles_goOn s), hrest, n,
        hcalls.trans (by rw [hover])⟩
    | cons call' due =>
      have hcall : s.next .goOn =
          { s with
            publications := ⟨number, event', due⟩ :: outer
            deliveries := s.deliveries ++ [⟨number, event', call'⟩] } := by
        rw [next, goOn, hpublications]
      have hagenda : s.agenda = (call', event') :: (s.next .goOn).agenda := by
        rw [hcall, agenda, agenda, hpublications]
        rfl
      rw [h, List.cons.injEq, Prod.mk.injEq] at hagenda
      obtain ⟨⟨rfl, rfl⟩, rfl⟩ := hagenda
      refine ⟨1, ?_, ?_, rfl, number, ?_⟩
      · exact feed_goOn s
      · exact handles_goOn s
      · exact congrArg Scene.deliveries hcall

end Scene

namespace Script

/-- The call that a piece of work is. -/
def Work.call? : Work → Option (Nat × MemberEvent)
  | .act _ => none
  | .call subscriber event => some (subscriber, event)

namespace Stage

variable {g g' : Stage} {s : Scene Nat} {k : Nat}

/-- A call of a stage is a delivery of a scene to the same subscriber. -/
def IsCall (g : Stage) (c : Call) (d : Delivery Nat) : Prop :=
  g.subscribers[d.call]?.map Subscriber.name = some c.name ∧ d.event = c.event

/-- The scene has handed a subscription out for a subscriber of that name, and it is held. -/
def Holds (g : Stage) (s : Scene Nat) (name : String) (subscription : Subscription) (place : Nat) :
    Prop :=
  (∃ call, s.handles[place]? = some (some (subscription, call))) ∧
    g.subscribers[place]?.map Subscriber.name = some name

/-- A stage does what a scene does. The first deliveries of the scene, up to the given one, are earlier
than what the stage has noted. -/
structure Follows (k : Nat) (g : Stage) (s : Scene Nat) : Prop where
  feed : ∀ {f}, g.feed = some f → s.feed = f
  handles : s.handles.length = g.subscribers.length
  held : ∀ e ∈ g.held, ∃ place, g.Holds s e.1 e.2 place
  agenda : g.work.filterMap Work.call? = s.agenda
  calls : List.Forall₂ g.IsCall g.calls.reverse (s.deliveries.drop k)
  long : k ≤ s.deliveries.length
  known : ∀ subscriber ∈ s.feed.calls ++ s.agenda.map Prod.fst, subscriber < g.subscribers.length

theorem IsCall.of_names {c : Call} {d : Delivery Nat} (h : g.IsCall c d)
    (hnames : ∀ i < g.subscribers.length,
      g'.subscribers[i]?.map Subscriber.name = g.subscribers[i]?.map Subscriber.name) :
    g'.IsCall c d := by
  refine ⟨?_, h.2⟩
  rw [hnames, h.1]
  obtain ⟨subscriber, hsubscriber, -⟩ := Option.map_eq_some_iff.1 h.1
  exact (List.getElem?_eq_some_iff.1 hsubscriber).1

theorem Follows.lookup {name : String} {subscription : Subscription} (h : Follows k g s)
    (hlookup : g.held.lookup name = some subscription) : ∃ place, g.Holds s name subscription place := by
  obtain ⟨before, after, hheld, -⟩ := List.lookup_eq_some_iff.1 hlookup
  exact h.held (name, subscription) (hheld ▸ List.mem_append_right _ List.mem_cons_self)

/-- What is held under another name is still held when a subscription is given up. -/
theorem Holds.drop {name name' : String} {subscription subscription' : Subscription} {place place' : Nat}
    (h' : g.Holds s name' subscription' place') (h : g.Holds s name subscription place)
    (hne : name' ≠ name) : g.Holds (s.next (.drop place)) name' subscription' place' := by
  refine ⟨?_, h'.2⟩
  have hplace : place' ≠ place := by
    rintro rfl
    exact hne (Option.some.inj (h'.2.symm.trans h.2))
  rw [Scene.handles_drop_of_ne hplace]
  exact h'.1

/-- Giving up a subscription is a move, if the feed still exists. -/
theorem Follows.cancelled {name : String} {subscription : Subscription} {place : Nat}
    {held : List (String × Subscription)} (h : Follows k g s) (hplace : g.Holds s name subscription place)
    (hheld : ∀ e ∈ held, ∃ place', g.Holds (s.next (.drop place)) e.1 e.2 place') :
    Follows k { g with feed := Stage.cancelled g.feed (some subscription), held }
      (s.next (.drop place)) := by
  obtain ⟨⟨call, hhandle⟩, -⟩ := hplace
  have hdrop := Scene.feed_drop hhandle
  have hagenda := s.agenda_drop place
  have hdeliveries := s.deliveries_drop place
  exact {
    feed := by
      intro f hf
      cases hfeed : g.feed with
      | none => simp [Stage.cancelled, hfeed] at hf
      | some f' =>
        simp only [Stage.cancelled, hfeed, Option.some.injEq] at hf
        rw [← hf, ← h.feed hfeed]
        exact hdrop
    handles := (s.length_handles_drop place).trans h.handles
    held := hheld
    agenda := h.agenda.trans hagenda.symm
    calls := by
      rw [hdeliveries]
      exact h.calls
    long := by
      rw [hdeliveries]
      exact h.long
    known := by
      rw [hdrop, hagenda]
      intro subscriber hsubscriber
      refine h.known subscriber ?_
      rw [List.mem_append] at hsubscriber ⊢
      refine hsubscriber.imp_left fun hcalled => ?_
      obtain ⟨e, he, rfl⟩ := List.mem_map.1 hcalled
      exact List.mem_map_of_mem (List.mem_filter.1 he).1 }

/-- A stage with one subscriber more. -/
def joined (g : Stage) (f : Feed Nat) (subscriber : Subscriber) : Stage :=
  { g with
    feed := some (f.subscribe g.subscribers.length).2
    subscribers := g.subscribers ++ [subscriber] }

theorem Holds.joined {name : String} {subscription : Subscription} {place : Nat}
    (h : g.Holds s name subscription place) (f : Feed Nat) (subscriber : Subscriber) :
    (g.joined f subscriber).Holds (s.next (.subscribe g.subscribers.length)) name subscription
      place := by
  obtain ⟨⟨call, hhandle⟩, hname⟩ := h
  refine ⟨⟨call, ?_⟩, ?_⟩
  · exact (List.getElem?_append_left (List.getElem?_eq_some_iff.1 hhandle).1).trans hhandle
  · obtain ⟨subscriber', hget, -⟩ := Option.map_eq_some_iff.1 hname
    rw [Stage.joined, List.getElem?_append_left (List.getElem?_eq_some_iff.1 hget).1, hname]

theorem Follows.subscribe {f : Feed Nat} (h : Follows k g s) (hfeed : g.feed = some f)
    (subscriber : Subscriber) :
    Follows k (g.joined f subscriber) (s.next (.subscribe g.subscribers.length)) where
  feed := by
    rintro f' ⟨⟩
    rw [← h.feed hfeed]
    rfl
  handles := by
    rw [Stage.joined, List.length_append, ← h.handles]
    exact List.length_append
  held e he := by
    obtain ⟨place, hplace⟩ := h.held e he
    exact ⟨place, hplace.joined f subscriber⟩
  agenda := h.agenda
  calls := h.calls.imp fun _ _ hcall => hcall.of_names fun i hi => by
    rw [Stage.joined, List.getElem?_append_left hi]
  long := h.long
  known := by
    intro i hi
    rw [Stage.joined, List.length_append, List.length_singleton]
    have hi' : i ∈ s.feed.calls ++ s.agenda.map Prod.fst ∨ i = g.subscribers.length := by
      simp only [Scene.next, Feed.subscribe, Feed.calls, List.map_append, List.mem_append,
        List.map_cons, List.map_nil, List.mem_singleton] at hi ⊢
      obtain (hi | hi) | hi := hi
      · exact .inl (.inl hi)
      · exact .inr hi
      · exact .inl (.inr hi)
    obtain hi' | rfl := hi'
    · exact Nat.lt_succ_of_lt (h.known i hi')
    · exact Nat.lt_succ_self _

/-- The newcomer holds the latest subscription. -/
theorem Follows.holds_newcomer {f : Feed Nat} (h : Follows k g s) (hfeed : g.feed = some f)
    (subscriber : Subscriber) :
    (g.joined f subscriber).Holds (s.next (.subscribe g.subscribers.length)) subscriber.name
      (f.subscribe g.subscribers.length).1 s.handles.length := by
  constructor
  · refine ⟨g.subscribers.length, ?_⟩
    rw [← h.feed hfeed]
    exact List.getElem?_concat_length
  · rw [Stage.joined, h.handles, List.getElem?_concat_length]
    rfl

theorem Follows.publish {f : Feed Nat} (h : Follows k g s) (hfeed : g.feed = some f)
    (event : MemberEvent) :
    Follows k { g with work := f.calls.map (.call · event) ++ g.work }
      (s.next (.publish event)) := by
  have hagenda : (s.next (.publish event)).agenda = s.feed.calls.map (·, event) ++ s.agenda := rfl
  exact {
    feed := h.feed
    handles := h.handles
    held := h.held
    agenda := by
      rw [hagenda, h.feed hfeed, List.filterMap_append, h.agenda, List.filterMap_map,
        List.append_cancel_right_eq, ← List.filterMap_eq_map]
      rfl
    calls := h.calls
    long := h.long
    known := by
      intro i hi
      refine h.known i ?_
      rw [hagenda, List.map_append, List.map_map] at hi
      obtain hi | hi := List.mem_append.1 hi
      · exact List.mem_append_left _ hi
      · obtain hi | hi := List.mem_append.1 hi
        · obtain ⟨j, hj, rfl⟩ := List.mem_map.1 hi
          exact List.mem_append_left _ hj
        · exact List.mem_append_right _ hi }

theorem cancelled_none (feed : Option (Feed Nat)) : Stage.cancelled feed none = feed := by
  cases feed <;> rfl

theorem mem_others {held : List (String × Subscription)} {name : String} {e : String × Subscription}
    (h : e ∈ held.filter fun e => e.1 != name) : e ∈ held ∧ e.1 ≠ name :=
  ⟨(List.mem_filter.1 h).1, bne_iff_ne.1 (List.mem_filter.1 h).2⟩

/-- A name's subscription is given up. -/
theorem Follows.cancel (h : Follows k g s) (name : String) :
    ∃ moves, Follows k (g.act (.cancel name)) (s.run moves) := by
  rw [Stage.act]
  cases hlookup : g.held.lookup name with
  | none =>
    refine ⟨[], { h with feed := fun hf => h.feed ?_, held := fun e he => h.held e (mem_others he).1 }⟩
    rwa [cancelled_none] at hf
  | some subscription =>
    obtain ⟨place, hplace⟩ := h.lookup hlookup
    refine ⟨[.drop place], h.cancelled hplace fun e he => ?_⟩
    obtain ⟨place', hplace'⟩ := h.held e (mem_others he).1
    exact ⟨place', hplace'.drop hplace (mem_others he).2⟩

/-- A name subscribes, and gives up the subscription that it had. -/
theorem Follows.resubscribe {f : Feed Nat} (h : Follows k g s) (hfeed : g.feed = some f) (name : String)
    (onFirst : List Action) :
    ∃ moves, Follows k (g.act (.subscribe name onFirst)) (s.run moves) := by
  have hjoined := h.subscribe hfeed ⟨name, onFirst⟩
  have hnew := h.holds_newcomer hfeed ⟨name, onFirst⟩
  simp only [Stage.act, hfeed]
  cases hlookup : g.held.lookup name with
  | none =>
    refine ⟨[.subscribe g.subscribers.length], { hjoined with
      feed := fun hf => hjoined.feed ?_
      held := fun e he => ?_ }⟩
    · rwa [cancelled_none] at hf
    · obtain rfl | he := List.mem_cons.1 he
      · exact ⟨_, hnew⟩
      · exact hjoined.held e (mem_others he).1
  | some subscription =>
    obtain ⟨place, hplace⟩ := h.lookup hlookup
    -- The subscription that is given up is older than the new one, even if it has the same number.
    have holder : s.handles.length ≠ place := by
      obtain ⟨⟨call, hhandle⟩, -⟩ := hplace
      exact Nat.ne_of_gt (List.getElem?_eq_some_iff.1 hhandle).1
    have hplace' := hplace.joined f ⟨name, onFirst⟩
    refine ⟨[.subscribe g.subscribers.length, .drop place], hjoined.cancelled hplace' fun e he => ?_⟩
    obtain rfl | he := List.mem_cons.1 he
    · refine ⟨_, ?_, hnew.2⟩
      rw [Scene.handles_drop_of_ne holder]
      exact hnew.1
    · obtain ⟨place'', hother⟩ := hjoined.held e (mem_others he).1
      exact ⟨place'', hother.drop hplace' (mem_others he).2⟩

/-- An action is a run of moves. -/
theorem Follows.act (h : Follows k g s) (a : Action) :
    ∃ moves, Follows k (g.act a) (s.run moves) := by
  cases a with
  | cancel name => exact h.cancel name
  | close => exact ⟨[], { h with feed := nofun }⟩
  | publish event =>
    rw [Stage.act]
    split
    next => exact ⟨[], h⟩
    next f hfeed => exact ⟨[.publish event], h.publish hfeed event⟩
  | subscribe name onFirst =>
    cases hfeed : g.feed with
    | none =>
      rw [Stage.act, hfeed]
      exact ⟨[], h⟩
    | some f => exact h.resubscribe hfeed name onFirst

/-- A call is a run of moves. -/
theorem Follows.call {index : Nat} {event : MemberEvent} {rest : List Work} (h : Follows k g s)
    (hwork : g.work = .call index event :: rest) :
    ∃ moves, Follows k ({ g with work := rest }.call index event) (s.run moves) := by
  have hagenda : s.agenda = (index, event) :: rest.filterMap Work.call? := by
    rw [← h.agenda, hwork]
    rfl
  obtain ⟨j, hfeed, hhandles, hrest, n, hcalls⟩ := Scene.exists_goOn hagenda
  have hindex : index < g.subscribers.length := h.known index (by simp [hagenda])
  refine ⟨List.replicate j .goOn, ?_⟩
  have hget : g.subscribers[index]? = some g.subscribers[index] := List.getElem?_eq_getElem hindex
  rw [Stage.call, hget]
  dsimp only
  have hnames : ∀ i : Nat, (g.subscribers.set index ⟨g.subscribers[index].name, []⟩)[i]?.map
      Subscriber.name = g.subscribers[i]?.map Subscriber.name := by
    intro i
    rw [List.getElem?_set]
    split
    next hi =>
      rw [← hi, hget]
      rfl
    next => rfl
  exact {
    feed := fun hf => hfeed.trans (h.feed hf)
    handles := by rw [hhandles, List.length_set, h.handles]
    held := by
      intro e he
      obtain ⟨place, hplace, hname⟩ := h.held e he
      exact ⟨place, hhandles.symm ▸ hplace, (hnames place).trans hname⟩
    agenda := by
      rw [hrest, List.filterMap_append, List.filterMap_map, List.filterMap_eq_nil_iff.2, List.nil_append]
      intro a _
      rfl
    calls := by
      rw [hcalls, List.reverse_cons, List.drop_append_of_le_length h.long]
      refine List.rel_append (h.calls.imp fun _ _ hcall => hcall.of_names fun i _ => hnames i)
        (.cons ⟨?_, rfl⟩ .nil)
      rw [hnames, hget]
      rfl
    long := by
      rw [hcalls, List.length_append]
      exact Nat.le_add_right_of_le h.long
    known := by
      intro i hi
      rw [List.length_set]
      refine h.known i ?_
      rw [hfeed, hrest] at hi
      rw [hagenda, List.map_cons]
      obtain hi | hi := List.mem_append.1 hi
      · exact List.mem_append_left _ hi
      · exact List.mem_append_right _ (List.mem_cons_of_mem _ hi) }

theorem Follows.step (h : Follows k g s) (hstep : g.step? = some g') :
    ∃ moves, Follows k g' (s.run moves) := by
  rw [step?] at hstep
  split at hstep
  next => cases hstep
  next a rest hwork =>
    obtain rfl := Option.some.inj hstep
    have hrest : Follows k { g with work := rest } s := { h with
      agenda := by
        rw [← h.agenda, hwork]
        rfl }
    exact hrest.act a
  next index event rest hwork =>
    obtain rfl := Option.some.inj hstep
    exact h.call hwork

theorem Follows.run (h : Follows k g s) : ∃ moves, Follows k g.run (s.run moves) := by
  induction g using Stage.run.induct generalizing s with
  | case1 g hnone =>
    rw [Stage.run, hnone]
    exact ⟨[], h⟩
  | case2 g g' hstep ih =>
    rw [Stage.run, hstep]
    obtain ⟨moves, hmoves⟩ := h.step hstep
    obtain ⟨rest, hrest⟩ := ih hmoves
    refine ⟨moves ++ rest, ?_⟩
    rwa [Scene.run, List.foldl_append]

theorem work_run (g : Stage) : g.run.work = [] := by
  induction g using Stage.run.induct with
  | case1 g hnone =>
    rw [Stage.run, hnone]
    rw [step?] at hnone
    split at hnone
    next hwork => exact hwork
    all_goals cases hnone
  | case2 g g' hstep ih => rwa [Stage.run, hstep]

theorem follows_empty : Follows 0 {} {} where
  feed := by
    rintro f ⟨⟩
    rfl
  handles := rfl
  held := nofun
  agenda := rfl
  calls := .nil
  long := Nat.le_refl _
  known := nofun

/-- **Theorem.** An action of a script, with all that it brings about, is a run of moves: a scene that
the stage follows goes on to one that it follows again, with the calls that the action has made. -/
theorem exists_follows_perform (h : Follows k g s) (hidle : g.work = []) (a : Action) :
    (g.perform a).2.work = [] ∧
    ∃ moves, Follows s.deliveries.length (g.perform a).2 (s.run moves) ∧
      List.Forall₂ (g.perform a).2.IsCall (g.perform a).1
        ((s.run moves).deliveries.drop s.deliveries.length) := by
  have hbegun : Follows s.deliveries.length { g with work := [.act a], calls := [] } s := { h with
    agenda := by
      rw [← h.agenda, hidle]
      rfl
    calls := by
      rw [List.drop_length]
      exact .nil
    long := Nat.le_refl _ }
  obtain ⟨moves, hmoves⟩ := hbegun.run
  exact ⟨work_run _, moves, hmoves, hmoves.calls⟩

end Stage

end Script

end PeerCluster.Feed
