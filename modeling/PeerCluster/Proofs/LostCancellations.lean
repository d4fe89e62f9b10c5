import Mathlib.Data.List.Forall2
import PeerCluster.Feed.Crowd

/-!
# What becomes of a subscription that is given up

A feed among threads is given a subscription up while its lock is free, while somebody reads the list of
subscribers, or while somebody changes it: another thread, or a cancellation that has just let go of what
kept the subscription.

**Theorem (`given_up_exactly_if_free`).** A subscription that is given up while the lock is free is
cancelled at once, and no later publication calls it. One that is given up while the lock is in use
stays for good, and every later publication calls it. So nobody is left exactly if all of them have been
given up and the lock was free every time. A cancellation takes out whatever has its number, so whatever
is said to stay does so as long as no number comes again.

Nobody comes back to a cancellation that was lost: those who use the list can finish at any time, and
what they still do leaves the subscribers as they are (`exists_finishing`). It takes one reader, or one
subscriber that keeps the subscription of another, to lose one (`given_up_in_use_stays`).

**Handles** (`Sound`). The subscribers are those whose handle stands: it has not been given up, or not
while the lock was free. What is called is known by the place of its handle. A move hands one out, gives
one up, or passes some on to other keepers (`Changes`), so that who keeps a subscription changes until it
is given up, and never again (`nobody_next_iff`).

**Publications** (`Advances`). A move begins one with the list as it is, makes a call of one, or ends one.
What a publication calls is thus the list at its beginning, which has what is not cancelled
(`Cancelled`, `Registered`).
-/

namespace PeerCluster.Feed

variable {κ : Type}

/-- Whether the subscriber of a handle is still in the list. -/
def Handle.stands (h : Handle κ) : Bool :=
  h.keeper != .nobody .free

/-- The subscriber of a handle. -/
def Handle.entry (h : Handle κ) : Subscription × Callee κ :=
  (h.subscription, h.callee)

/-- A handle is the same but for its keeper, and has been given up exactly if it had. -/
structure Handle.PassesTo (h h' : Handle κ) : Prop where
  entry : h'.entry = h.entry
  nobody : ∀ l, h'.keeper = .nobody l ↔ h.keeper = .nobody l

theorem Handle.PassesTo.stands {h h' : Handle κ} (hpasses : h.PassesTo h') : h'.stands = h.stands := by
  rw [Handle.stands, Handle.stands, Bool.eq_iff_iff, bne_iff_ne, bne_iff_ne]
  exact not_congr (hpasses.nobody .free)

theorem Handle.passesTo_self (h : Handle κ) : h.PassesTo h :=
  ⟨rfl, fun _ => .rfl⟩

theorem Handle.passesTo_of_held (h : Handle κ) {keeper : Keeper} (hheld : ∀ l, h.keeper ≠ .nobody l)
    (hkeeper : ∀ l, keeper ≠ .nobody l) : h.PassesTo { h with keeper } :=
  ⟨rfl, fun l => iff_of_false (hkeeper l) (hheld l)⟩

/-- A handle belongs to the place at which it was handed out, and its subscription has the number of
that place. -/
structure Handle.At (h : Handle κ) (place : Nat) : Prop where
  subscription : h.subscription = .after place
  callee : h.callee.place = place

theorem Handle.At.of_entry {h h' : Handle κ} {place : Nat} (hat : h.At place)
    (hentry : h'.entry = h.entry) : h'.At place :=
  ⟨(congrArg Prod.fst hentry).trans hat.subscription,
    (congrArg (fun e => e.2.place) hentry).trans hat.callee⟩

theorem somebody_ne_nobody (l : Lock) : Keeper.somebody ≠ .nobody l :=
  nofun

theorem cancellation_ne_nobody (l : Lock) : Keeper.cancellation ≠ .nobody l :=
  nofun

namespace Crowd

variable {s : Crowd κ} {place : Nat}

/-- What every move keeps holds after a run. -/
theorem run_of_next {P : Crowd κ → Prop} (hnext : ∀ {s : Crowd κ} (m : Move κ), P s → P (s.next m))
    (h : P s) (moves : List (Move κ)) : P (s.run moves) := by
  induction moves generalizing s with
  | nil => exact h
  | cons m rest ih => exact ih (hnext m h)

theorem run_append (s : Crowd κ) (before after : List (Move κ)) :
    s.run (before ++ after) = (s.run before).run after :=
  List.foldl_append

/-! ## The subscribers are the handles that stand -/

/-- The subscribers of handles that stand, in order. -/
def standing (hs : List (Handle κ)) : List (Subscription × Callee κ) :=
  (hs.filter Handle.stands).map Handle.entry

theorem standing_append (hs hs' : List (Handle κ)) :
    standing (hs ++ hs') = standing hs ++ standing hs' := by
  rw [standing, List.filter_append, List.map_append, standing, standing]

theorem standing_split (front rest : List (Handle κ)) (h : Handle κ) :
    standing (front ++ h :: rest) =
      standing front ++ if h.stands then h.entry :: standing rest else standing rest := by
  rw [standing_append, standing, standing, standing, List.filter_cons]
  split <;> rfl

/-- Nobody is subscribed whose handle does not stand, and as long as the numbers last nobody else is
missing. -/
structure Sound (s : Crowd κ) : Prop where
  sublist : s.feed.subscribers.Sublist (standing s.handles)
  subscribers : s.handles.length ≤ UInt64.size → s.feed.subscribers = standing s.handles
  numbers : s.feed.next = .ofNat s.handles.length
  place : ∀ {place : Nat} {h : Handle κ}, s.handles[place]? = some h → h.At place

theorem sound_empty : Sound ({} : Crowd κ) where
  sublist := List.Sublist.refl []
  subscribers _ := rfl
  numbers := rfl
  place := nofun

/-! ## Handles that find other keepers -/

theorem standing_of_passing {hs hs' : List (Handle κ)} (h : List.Forall₂ Handle.PassesTo hs hs') :
    standing hs' = standing hs := by
  induction h with
  | nil => rfl
  | cons hpasses _ ih =>
    rw [standing, List.filter_cons, hpasses.stands, standing, List.filter_cons]
    split
    · rw [List.map_cons, List.map_cons, hpasses.entry]
      exact congrArg _ ih
    · exact ih

theorem exists_passing {hs hs' : List (Handle κ)} (h : List.Forall₂ Handle.PassesTo hs hs')
    {h' : Handle κ} (hplace : hs'[place]? = some h') : ∃ h, hs[place]? = some h ∧ h.PassesTo h' := by
  induction h generalizing place with
  | nil => cases hplace
  | cons hpasses _ ih =>
    cases place with
    | zero => exact ⟨_, rfl, Option.some.inj hplace ▸ hpasses⟩
    | succ place => exact ih hplace

theorem Sound.of_passing {s' : Crowd κ} (h : s.Sound) (hfeed : s'.feed = s.feed)
    (hpasses : List.Forall₂ Handle.PassesTo s.handles s'.handles) : s'.Sound where
  sublist := by
    rw [hfeed, standing_of_passing hpasses]
    exact h.sublist
  subscribers := by
    rw [hfeed, standing_of_passing hpasses, ← hpasses.length_eq]
    exact h.subscribers
  numbers := by rw [hfeed, h.numbers, hpasses.length_eq]
  place := by
    intro place h' hplace
    obtain ⟨h₀, hplace₀, hone⟩ := exists_passing hpasses hplace
    exact (h.place hplace₀).of_entry hone.entry

/-- Those that have been given up stay given up, under the same lock, and the others are not. -/
theorem nobody_iff_of_passing {s' : Crowd κ} {l : Lock}
    (h : List.Forall₂ Handle.PassesTo s.handles s'.handles) :
    s'.keeper? place = some (.nobody l) ↔ s.keeper? place = some (.nobody l) := by
  rw [keeper?, keeper?]
  generalize s.handles = hs, s'.handles = hs' at h
  induction h generalizing place with
  | nil => rfl
  | cons hpasses _ ih =>
    cases place with
    | zero => exact Option.some_inj.trans ((hpasses.nobody l).trans Option.some_inj.symm)
    | succ place => exact ih

theorem passing_refl (hs : List (Handle κ)) : List.Forall₂ Handle.PassesTo hs hs :=
  List.forall₂_same.2 fun h _ => h.passesTo_self

theorem passing_letGo (s : Crowd κ) {heir : Keeper} (hheir : ∀ l, heir ≠ .nobody l) :
    List.Forall₂ Handle.PassesTo s.handles (s.letGo heir).handles := by
  refine List.forall₂_map_right_iff.2 (List.forall₂_same.2 fun h _ => ?_)
  split
  next place hkeeper =>
    split
    · exact h.passesTo_self
    · exact h.passesTo_of_held (fun l => by rw [hkeeper]; exact nofun) hheir
  next => exact h.passesTo_self

theorem Sound.letGo (h : s.Sound) {heir : Keeper} (hheir : ∀ l, heir ≠ .nobody l) :
    (s.letGo heir).Sound :=
  h.of_passing rfl (passing_letGo s hheir)

theorem passing_handOut (s : Crowd κ) : List.Forall₂ Handle.PassesTo s.handles s.handOut := by
  refine List.forall₂_map_right_iff.2 (List.forall₂_same.2 fun h _ => ?_)
  split
  next hkeeper =>
    exact h.passesTo_of_held (fun l => by rw [hkeeper]; exact nofun) somebody_ne_nobody
  next => exact h.passesTo_self

/-! ## One handle is given up -/

theorem exists_split {hs : List (Handle κ)} {h : Handle κ} (hplace : hs[place]? = some h) :
    ∃ front rest, hs = front ++ h :: rest ∧ front.length = place := by
  obtain ⟨hlt, rfl⟩ := List.getElem?_eq_some_iff.1 hplace
  refine ⟨hs.take place, hs.drop (place + 1), ?_, ?_⟩
  · rw [List.getElem_cons_drop, List.take_append_drop]
  · rw [List.length_take, Nat.min_eq_left (Nat.le_of_lt hlt)]

/-- The handle at a place is changed. -/
theorem set_split (front rest : List (Handle κ)) (h h' : Handle κ) :
    (front ++ h :: rest).set front.length h' = front ++ h' :: rest := by
  simp

/-- As long as the numbers last, a subscription tells the place at which it was handed out. -/
theorem Sound.place_inj (h : s.Sound) (hfew : s.handles.length ≤ UInt64.size) {i j : Nat}
    {handle handle' : Handle κ} (hi : s.handles[i]? = some handle) (hj : s.handles[j]? = some handle')
    (hsame : handle.subscription = handle'.subscription) : i = j := by
  rw [(h.place hi).subscription, (h.place hj).subscription] at hsame
  obtain ⟨hi, -⟩ := List.getElem?_eq_some_iff.1 hi
  obtain ⟨hj, -⟩ := List.getElem?_eq_some_iff.1 hj
  exact Subscription.after_inj (Nat.lt_of_lt_of_le hi hfew) (Nat.lt_of_lt_of_le hj hfew) hsame

/-- As long as the numbers last, no two of the subscriptions that stand are the same. -/
theorem Sound.nodup (h : s.Sound) (hfew : s.handles.length ≤ UInt64.size) :
    ((standing s.handles).map Prod.fst).Nodup := by
  have hall : (s.handles.map Handle.subscription).Nodup := by
    rw [List.nodup_iff_pairwise_ne, List.pairwise_map, List.pairwise_iff_getElem]
    intro i j hi hj hij hsame
    have hplace := h.place_inj hfew (List.getElem?_eq_getElem hi) (List.getElem?_eq_getElem hj) hsame
    omega
  rw [standing, List.map_map]
  exact hall.sublist (List.filter_sublist.map Handle.subscription)

theorem passing_set {handle : Handle κ} {keeper : Keeper} (hplace : s.handles[place]? = some handle)
    (hheld : ∀ l, handle.keeper ≠ .nobody l) (hkeeper : ∀ l, keeper ≠ .nobody l) :
    List.Forall₂ Handle.PassesTo s.handles (s.handles.set place { handle with keeper }) := by
  obtain ⟨front, rest, hsplit, rfl⟩ := exists_split hplace
  rw [hsplit, set_split]
  exact List.rel_append (passing_refl front)
    (.cons (handle.passesTo_of_held hheld hkeeper) (passing_refl rest))

/-- Giving up a subscription takes its subscriber off the list exactly if its handle stops standing. -/
theorem Sound.giveUp {handle : Handle κ} (h : s.Sound) (hplace : s.handles[place]? = some handle)
    (hheld : ∀ l, handle.keeper ≠ .nobody l) : (s.giveUp place).Sound := by
  have hstands : handle.stands = true := bne_iff_ne.2 (hheld .free)
  have hsound : ∀ t : Crowd κ, t.feed = s.feed.cancelUnder s.lock handle.subscription →
      t.handles = s.handles.set place { handle with keeper := .nobody s.lock } → t.Sound := by
    intro t hfeed hhandles
    obtain ⟨front, rest, hsplit, rfl⟩ := exists_split hplace
    have hbefore : standing s.handles = standing front ++ handle.entry :: standing rest := by
      rw [hsplit, standing_split, if_pos hstands]
    have hafter : standing t.handles = standing front ++
        if s.lock = .free then standing rest else handle.entry :: standing rest := by
      rw [hhandles, hsplit, set_split, standing_split]
      cases s.lock <;> rfl
    refine ⟨?_, fun hfew => ?_, ?_, fun {place'} h' hget => ?_⟩
    · rw [hfeed, hafter]
      cases s.lock with
      | free => exact (hbefore ▸ h.sublist.filter _).trans (filter_sublist _ _ handle.entry)
      | reading | writing => exact hbefore ▸ h.sublist
    · rw [hhandles, List.length_set] at hfew
      rw [hfeed, hafter]
      cases s.lock with
      | free =>
        have hnodup := h.nodup hfew
        rw [hbefore] at hnodup
        exact (congrArg _ ((h.subscribers hfew).trans hbefore)).trans
          (filter_of_nodup (e := handle.entry) hnodup)
      | reading | writing => exact (h.subscribers hfew).trans hbefore
    · rw [hfeed, hhandles, List.length_set, ← h.numbers]
      cases s.lock <;> rfl
    · rw [hhandles, List.getElem?_set] at hget
      split at hget
      next heq =>
        split at hget
        · rw [← Option.some.inj hget, ← heq]
          exact (h.place hplace).of_entry rfl
        · cases hget
      next => exact h.place hget
  rw [Crowd.giveUp, hplace]
  dsimp only
  split
  · exact Sound.letGo (hsound _ rfl rfl) cancellation_ne_nobody
  · exact hsound _ rfl rfl
  · exact hsound _ rfl rfl

/-- What is given up is given up under the lock as it is, and nothing else is. -/
theorem nobody_giveUp_iff {place' : Nat} {handle : Handle κ} {l : Lock}
    (hplace : s.handles[place']? = some handle) :
    (s.giveUp place').keeper? place = some (.nobody l) ↔
      if place = place' then l = s.lock else s.keeper? place = some (.nobody l) := by
  have hset : ∀ t : Crowd κ,
      t.handles = s.handles.set place' { handle with keeper := .nobody s.lock } →
      (t.keeper? place = some (.nobody l) ↔
        if place = place' then l = s.lock else s.keeper? place = some (.nobody l)) := by
    intro t ht
    obtain ⟨hlt, -⟩ := List.getElem?_eq_some_iff.1 hplace
    rw [keeper?, ht]
    split
    next heq => rw [heq, List.getElem?_set_self hlt, Option.map_some, Option.some.injEq,
      Keeper.nobody.injEq, eq_comm]
    next hne => rw [List.getElem?_set_ne (Ne.symm hne), keeper?]
  rw [giveUp, hplace]
  dsimp only
  split
  · exact (nobody_iff_of_passing (passing_letGo _ cancellation_ne_nobody)).trans (hset _ rfl)
  · exact hset _ rfl
  · exact hset _ rfl

/-! ## What a move does to the handles -/

/-- The subscription that a move gives up. -/
def givenUp? (s : Crowd κ) : Move κ → Option Nat
  | .drop place => if s.keeper? place = some .somebody then some place else none
  | .finishWriting =>
    if s.writing then s.handles.findIdx? fun h => h.keeper = .cancellation else none
  | _ => none

/-- What a move gives up had not been given up before. -/
theorem givenUp?_held {m : Move κ} (h : s.givenUp? m = some place) :
    ∃ handle, s.handles[place]? = some handle ∧ ∀ l, handle.keeper ≠ .nobody l := by
  cases m with
  | drop place' =>
    rw [givenUp?] at h
    split at h
    next hkept =>
      cases h
      obtain ⟨handle, hplace, hkeeper⟩ := Option.map_eq_some_iff.1 hkept
      exact ⟨handle, hplace, hkeeper ▸ somebody_ne_nobody⟩
    next => cases h
  | finishWriting =>
    rw [givenUp?] at h
    split at h
    next =>
      obtain ⟨hlt, hkept, -⟩ := List.findIdx?_eq_some_iff_getElem.1 h
      exact ⟨_, List.getElem?_eq_getElem hlt, of_decide_eq_true hkept ▸ cancellation_ne_nobody⟩
    next => cases h
  | _ => cases h

/-- What a move does to the feed and the handles: it gives one up, hands a new one out, or does no more
than to pass some on. -/
inductive Changes (s : Crowd κ) (m : Move κ) (s' : Crowd κ) : Prop where
  | passes (gives : s.givenUp? m = none) (feed : s'.feed = s.feed)
    (handles : List.Forall₂ Handle.PassesTo s.handles s'.handles)
  | subscribes (callee : Callee κ) (newest : callee.place = s.handles.length)
    (gives : s.givenUp? m = none) (feed : s'.feed = (s.feed.subscribe callee).2)
    (handles : s'.handles = s.handles ++ [{ subscription := (s.feed.subscribe callee).1, callee }])
  | givesUp {place : Nat} (gives : s.givenUp? m = some place) (result : s' = s.giveUp place)

theorem changes_next (s : Crowd κ) (m : Move κ) : s.Changes m (s.next m) := by
  have hstays : ∀ {s' : Crowd κ}, s.givenUp? m = none → s'.feed = s.feed → s'.handles = s.handles →
      s.Changes m s' :=
    fun hnone hfeed hhandles => .passes hnone hfeed (hhandles ▸ passing_refl s.handles)
  have hletsGo : ∀ {t : Crowd κ}, s.givenUp? m = none → t.feed = s.feed → t.handles = s.handles →
      s.Changes m (t.letGo .somebody) := by
    intro t hnone hfeed hhandles
    refine .passes hnone hfeed ?_
    rw [← hhandles]
    exact passing_letGo t somebody_ne_nobody
  cases m with
  | subscribe call =>
    rw [next]
    split
    · exact .subscribes ⟨s.handles.length, call⟩ rfl rfl rfl rfl
    · exact hstays rfl rfl rfl
  | entrust place callee =>
    rw [next]
    split
    next handle hplace =>
      split
      next hkept =>
        exact .passes rfl rfl (passing_set hplace (hkept.1 ▸ somebody_ne_nobody) fun _ => nofun)
      next => exact hstays rfl rfl rfl
    next => exact hstays rfl rfl rfl
  | drop place =>
    have hany : (s.handles[place]?.any fun h => h.keeper = .somebody) = true ↔
        s.keeper? place = some .somebody := by
      rw [keeper?]
      cases s.handles[place]? with
      | none => exact iff_of_false nofun nofun
      | some handle =>
        rw [Option.any_some, decide_eq_true_eq, Option.map_some, Option.some.injEq]
    rw [next]
    split
    next hkept => exact .givesUp (if_pos (hany.1 hkept)) rfl
    next hkept => exact hstays (if_neg fun h => hkept (hany.2 h)) rfl rfl
  | read purpose =>
    rw [next]
    split
    · exact hstays rfl rfl rfl
    · exact hstays rfl rfl rfl
  | finishReading index =>
    rw [next]
    split
    · exact hstays rfl rfl rfl
    · exact hstays rfl rfl rfl
    · exact hstays rfl rfl rfl
  | finishWriting =>
    rw [next]
    split
    next hwriting =>
      split
      next place hfind => exact .givesUp ((if_pos hwriting).trans hfind) rfl
      next hfind => exact .passes ((if_pos hwriting).trans hfind) rfl (passing_handOut s)
    next hwriting => exact hstays (if_neg hwriting) rfl rfl
  | goOn index =>
    rw [next]
    split
    next => exact hstays rfl rfl rfl
    next =>
      split
      · exact hletsGo rfl rfl rfl
      · exact hletsGo rfl rfl rfl
  | abandon index => exact hletsGo rfl rfl rfl

theorem Sound.next (h : s.Sound) (m : Move κ) : (s.next m).Sound := by
  cases changes_next s m with
  | passes _ feed handles => exact h.of_passing feed handles
  | subscribes callee newest _ feed handles =>
    refine ⟨?_, fun hfew => ?_, ?_, fun {place} h' hget => ?_⟩
    · rw [feed, handles, standing_append]
      exact h.sublist.append (List.Sublist.refl _)
    · rw [handles, List.length_append] at hfew
      rw [feed, handles, standing_append, ← h.subscribers (Nat.le_of_succ_le hfew)]
      rfl
    · rw [feed, handles, List.length_append, UInt64.ofNat_add, ← h.numbers]
      rfl
    · rw [handles, List.getElem?_append] at hget
      split at hget
      next => exact h.place hget
      next hge =>
        obtain ⟨hlt, heq⟩ := List.getElem?_eq_some_iff.1 hget
        rw [List.length_singleton] at hlt
        obtain rfl : place = s.handles.length := by omega
        rw [List.getElem_singleton] at heq
        rw [← heq]
        exact ⟨congrArg Subscription.mk h.numbers, newest⟩
  | givesUp gives result =>
    obtain ⟨handle, hplace, hheld⟩ := givenUp?_held gives
    exact result ▸ h.giveUp hplace hheld

theorem sound_run (moves : List (Move κ)) : (({} : Crowd κ).run moves).Sound :=
  run_of_next (fun m h => h.next m) sound_empty moves

/-! ## A subscription that has been given up -/

theorem nobody_append_iff {s' : Crowd κ} {l : Lock} {handle : Handle κ}
    (h : s'.handles = s.handles ++ [handle]) (hnew : handle.keeper = .newcomer) :
    s'.keeper? place = some (.nobody l) ↔ s.keeper? place = some (.nobody l) := by
  rw [keeper?, keeper?, h]
  rcases Nat.lt_trichotomy place s.handles.length with hlt | rfl | hgt
  · rw [List.getElem?_append_left hlt]
  · rw [List.getElem?_concat_length, List.getElem?_eq_none (Nat.le_refl _), Option.map_some, hnew]
    exact iff_of_false nofun nofun
  · have hlength : (s.handles ++ [handle]).length ≤ place := by
      rw [List.length_append]
      exact hgt
    rw [List.getElem?_eq_none hlength, List.getElem?_eq_none (Nat.le_of_lt hgt)]

/-- A move leaves those that were given up as they are, and gives up at most one more, under the lock as
it is then. -/
theorem nobody_next_iff (m : Move κ) {l : Lock} :
    (s.next m).keeper? place = some (.nobody l) ↔
      s.keeper? place = some (.nobody l) ∨ s.givenUp? m = some place ∧ s.lock = l := by
  cases changes_next s m with
  | passes gives _ handles =>
    rw [nobody_iff_of_passing handles, gives]
    simp
  | subscribes callee _ gives _ handles =>
    rw [nobody_append_iff handles rfl, gives]
    simp
  | @givesUp place' gives result =>
    obtain ⟨handle, hplace, hheld⟩ := givenUp?_held gives
    rw [result, nobody_giveUp_iff hplace, gives]
    split
    next heq =>
      have hnot : s.keeper? place ≠ some (.nobody l) := by
        rw [heq, keeper?, hplace]
        exact fun h => hheld l (Option.some.inj h)
      exact ⟨fun h => .inr ⟨congrArg some heq.symm, h.symm⟩,
        fun h => (h.resolve_left hnot).2.symm⟩
    next hne =>
      exact ⟨.inl, fun h => h.resolve_right fun h' => hne (Option.some.inj h'.1).symm⟩

theorem nobody_run {l : Lock} (h : s.keeper? place = some (.nobody l)) (moves : List (Move κ)) :
    (s.run moves).keeper? place = some (.nobody l) :=
  run_of_next (P := fun s => s.keeper? place = some (.nobody l))
    (fun m h => (nobody_next_iff m).2 (.inl h)) h moves

/-- Every subscription that has been given up was given up by a move, under the lock as it was then. -/
theorem exists_givenUp {l : Lock} {moves : List (Move κ)}
    (h : (s.run moves).keeper? place = some (.nobody l)) :
    s.keeper? place = some (.nobody l) ∨
      ∃ before m after, moves = before ++ m :: after ∧
        (s.run before).givenUp? m = some place ∧ (s.run before).lock = l := by
  induction moves generalizing s with
  | nil => exact .inl h
  | cons m rest ih =>
    obtain hnext | ⟨before, m', after, rfl, hlater⟩ := ih h
    · obtain hnobody | hnow := (nobody_next_iff m).1 hnext
      · exact .inl hnobody
      · exact .inr ⟨[], m, rest, rfl, hnow⟩
    · exact .inr ⟨m :: before, m', after, rfl, hlater⟩

/-- The callee in the list that belongs to a place is that of a handle that stands. -/
theorem Sound.exists_keeper (h : s.Sound) (hsubscribed : ∃ c ∈ s.feed.calls, c.place = place) :
    ∃ keeper, s.keeper? place = some keeper ∧ keeper ≠ .nobody .free := by
  obtain ⟨c, hc, rfl⟩ := hsubscribed
  obtain ⟨e, he, rfl⟩ := List.mem_map.1 hc
  obtain ⟨handle, hhandle, rfl⟩ := List.mem_map.1 (h.sublist.subset he)
  obtain ⟨hmem, hstands⟩ := List.mem_filter.1 hhandle
  obtain ⟨i, hi, rfl⟩ := List.mem_iff_getElem.1 hmem
  have hplace := List.getElem?_eq_getElem hi
  refine ⟨_, ?_, bne_iff_ne.1 hstands⟩
  rw [Handle.entry, (h.place hplace).callee, keeper?, hplace, Option.map_some]

/-- As long as the numbers last, the callee of a handle that stands is in the list. -/
theorem Sound.exists_callee (h : s.Sound) (hfew : s.handles.length ≤ UInt64.size) {keeper : Keeper}
    (hkeeper : s.keeper? place = some keeper) (hne : keeper ≠ .nobody .free) :
    ∃ c ∈ s.feed.calls, c.place = place := by
  obtain ⟨handle, hplace, rfl⟩ := Option.map_eq_some_iff.1 hkeeper
  have hentry : handle.entry ∈ s.feed.subscribers := by
    rw [h.subscribers hfew]
    exact List.mem_map_of_mem
      (List.mem_filter.2 ⟨List.mem_of_getElem? hplace, bne_iff_ne.2 hne⟩)
  exact ⟨_, List.mem_map_of_mem hentry, (h.place hplace).callee⟩

/-! ## Publications -/

/-- What a move does to the publications under way and to the calls made. -/
inductive Advances (s s' : Crowd κ) : Prop where
  | idle (rounds : s'.rounds = s.rounds) (begun : s'.begun = s.begun)
    (deliveries : s'.deliveries = s.deliveries)
  | begins (event : MemberEvent)
    (rounds : s'.rounds = s.rounds ++ [{ number := s.begun, event, due := s.feed.calls }])
    (begun : s'.begun = s.begun + 1) (deliveries : s'.deliveries = s.deliveries)
  | calls {index : Nat} {r : Round κ} {c : Callee κ} {due : List (Callee κ)}
    (round : r ∈ s.rounds) (head : r.due = c :: due)
    (rounds : s'.rounds = s.rounds.set index { r with due, calling := some c })
    (begun : s'.begun = s.begun) (deliveries : s'.deliveries = s.deliveries ++ [⟨r.number, r.event, c⟩])
  | ends (index : Nat) (rounds : s'.rounds = s.rounds.eraseIdx index) (begun : s'.begun = s.begun)
    (deliveries : s'.deliveries = s.deliveries)

theorem advances_giveUp (place : Nat) : s.Advances (s.giveUp place) := by
  rw [giveUp]
  split
  next => exact .idle rfl rfl rfl
  next =>
    dsimp only
    split
    · exact .idle rfl rfl rfl
    · exact .idle rfl rfl rfl
    · exact .idle rfl rfl rfl

theorem advances_next (m : Move κ) : s.Advances (s.next m) := by
  cases m with
  | subscribe call =>
    rw [next]
    split
    · exact .idle rfl rfl rfl
    · exact .idle rfl rfl rfl
  | entrust place callee =>
    rw [next]
    split
    next =>
      split
      · exact .idle rfl rfl rfl
      · exact .idle rfl rfl rfl
    next => exact .idle rfl rfl rfl
  | drop place =>
    rw [next]
    split
    · exact advances_giveUp place
    · exact .idle rfl rfl rfl
  | read purpose =>
    rw [next]
    split
    · exact .idle rfl rfl rfl
    · exact .idle rfl rfl rfl
  | finishReading index =>
    rw [next]
    split
    next => exact .idle rfl rfl rfl
    next => exact .idle rfl rfl rfl
    next event _ => exact .begins event rfl rfl rfl
  | finishWriting =>
    rw [next]
    split
    next =>
      split
      next place _ => exact advances_giveUp place
      next => exact .idle rfl rfl rfl
    next => exact .idle rfl rfl rfl
  | goOn index =>
    rw [next]
    split
    next => exact .idle rfl rfl rfl
    next r hr =>
      split
      next => exact .ends index rfl rfl rfl
      next c due hdue => exact .calls (List.mem_of_getElem? hr) hdue rfl rfl rfl
  | abandon index => exact .ends index rfl rfl rfl

/-- Publications are numbered in the order in which they begin. -/
structure Numbered (s : Crowd κ) : Prop where
  rounds : ∀ r ∈ s.rounds, r.number < s.begun
  deliveries : ∀ d ∈ s.deliveries, d.publication < s.begun

theorem numbered_empty : Numbered ({} : Crowd κ) where
  rounds := nofun
  deliveries := nofun

theorem Numbered.next (h : s.Numbered) (m : Move κ) : (s.next m).Numbered := by
  cases advances_next m (s := s) with
  | idle rounds begun deliveries =>
    exact ⟨by rw [rounds, begun]; exact h.rounds, by rw [deliveries, begun]; exact h.deliveries⟩
  | begins event rounds begun deliveries =>
    refine ⟨fun r hr => ?_, fun d hd => ?_⟩
    · rw [rounds, List.mem_append, List.mem_singleton] at hr
      rw [begun]
      obtain hr | rfl := hr
      · exact Nat.lt_succ_of_lt (h.rounds r hr)
      · exact Nat.lt_succ_self _
    · rw [deliveries] at hd
      rw [begun]
      exact Nat.lt_succ_of_lt (h.deliveries d hd)
  | calls round head rounds begun deliveries =>
    refine ⟨fun r' hr' => ?_, fun d hd => ?_⟩
    · rw [rounds] at hr'
      rw [begun]
      obtain hr' | rfl := List.mem_or_eq_of_mem_set hr'
      · exact h.rounds r' hr'
      · exact (h.rounds _ round :)
    · rw [deliveries, List.mem_append, List.mem_singleton] at hd
      rw [begun]
      obtain hd | rfl := hd
      · exact h.deliveries d hd
      · exact h.rounds _ round
  | ends index rounds begun deliveries =>
    refine ⟨fun r hr => ?_, by rw [deliveries, begun]; exact h.deliveries⟩
    rw [rounds] at hr
    rw [begun]
    exact h.rounds r (List.mem_of_mem_eraseIdx hr)

theorem numbered_run (moves : List (Move κ)) : (({} : Crowd κ).run moves).Numbered :=
  run_of_next (fun m h => h.next m) numbered_empty moves

/-- The callee of a place is not in the list, and no publication calls it that began when so many had
begun. -/
structure Cancelled (s : Crowd κ) (place since : Nat) : Prop where
  subscribers : ∀ c ∈ s.feed.calls, c.place ≠ place
  due : ∀ r ∈ s.rounds, since ≤ r.number → ∀ c ∈ r.due, c.place ≠ place
  deliveries : ∀ d ∈ s.deliveries, since ≤ d.publication → d.call.place ≠ place

/-- The callee of a place is in the list, and every publication that began when so many had begun has
called it, or will when it goes on. -/
structure Registered (s : Crowd κ) (place since : Nat) : Prop where
  subscribers : ∃ c ∈ s.feed.calls, c.place = place
  rounds : ∀ r ∈ s.rounds, since ≤ r.number → (∃ c ∈ r.due, c.place = place) ∨
    ∃ d ∈ s.deliveries, d.publication = r.number ∧ d.event = r.event ∧ d.call.place = place

/-- The list has no callee any more whose subscription was given up while the lock was free. -/
theorem Sound.not_subscribed (h : s.Sound) (hfree : s.keeper? place = some (.nobody .free)) :
    ∀ c ∈ s.feed.calls, c.place ≠ place := by
  intro c hc hat
  obtain ⟨keeper, hkeeper, hne⟩ := h.exists_keeper ⟨c, hc, hat⟩
  rw [hfree] at hkeeper
  exact hne (Option.some.inj hkeeper).symm

/-- As long as the numbers last, the list still has the callee of a subscription that was given up while
the lock was in use. -/
theorem Sound.subscribed (h : s.Sound) (hfew : s.handles.length ≤ UInt64.size) {l : Lock}
    (hl : l ≠ .free) (hlost : s.keeper? place = some (.nobody l)) :
    ∃ c ∈ s.feed.calls, c.place = place :=
  h.exists_callee hfew hlost fun heq => hl (Keeper.nobody.inj heq)

theorem Cancelled.next {since : Nat} (h : s.Cancelled place since) (m : Move κ)
    (hsubscribers : ∀ c ∈ (s.next m).feed.calls, c.place ≠ place) :
    (s.next m).Cancelled place since := by
  refine ⟨hsubscribers, ?_, ?_⟩
  · intro r hr
    cases advances_next m (s := s) with
    | idle rounds => exact h.due r (rounds ▸ hr)
    | begins event rounds =>
      rw [rounds, List.mem_append, List.mem_singleton] at hr
      obtain hr | rfl := hr
      · exact h.due r hr
      · exact fun _ => h.subscribers
    | calls round head rounds =>
      rw [rounds] at hr
      obtain hr | rfl := List.mem_or_eq_of_mem_set hr
      · exact h.due r hr
      · exact fun hsince c hc => h.due _ round hsince c (head ▸ List.mem_cons_of_mem _ hc)
    | ends index rounds =>
      rw [rounds] at hr
      exact h.due r (List.mem_of_mem_eraseIdx hr)
  · intro d hd
    cases advances_next m (s := s) with
    | idle _ _ deliveries => exact h.deliveries d (deliveries ▸ hd)
    | begins _ _ _ deliveries => exact h.deliveries d (deliveries ▸ hd)
    | calls round head _ _ deliveries =>
      rw [deliveries, List.mem_append, List.mem_singleton] at hd
      obtain hd | rfl := hd
      · exact h.deliveries d hd
      · exact fun hsince => h.due _ round hsince _ (head ▸ List.mem_cons_self)
    | ends _ _ _ deliveries => exact h.deliveries d (deliveries ▸ hd)

theorem Registered.next {since : Nat} (h : s.Registered place since) (m : Move κ)
    (hsubscribers : ∃ c ∈ (s.next m).feed.calls, c.place = place) :
    (s.next m).Registered place since := by
  refine ⟨hsubscribers, fun r hr hsince => ?_⟩
  cases advances_next m (s := s) with
  | idle rounds _ deliveries =>
    rw [deliveries]
    exact h.rounds r (rounds ▸ hr) hsince
  | begins event rounds _ deliveries =>
    rw [deliveries]
    rw [rounds, List.mem_append, List.mem_singleton] at hr
    obtain hr | rfl := hr
    · exact h.rounds r hr hsince
    · exact .inl h.subscribers
  | calls round head rounds _ deliveries =>
    have hstill : ∀ {r : Round κ},
        (∃ d ∈ s.deliveries,
          d.publication = r.number ∧ d.event = r.event ∧ d.call.place = place) →
        ∃ d ∈ (s.next m).deliveries,
          d.publication = r.number ∧ d.event = r.event ∧ d.call.place = place := by
      rintro r ⟨d, hd, hcall⟩
      rw [deliveries]
      exact ⟨d, List.mem_append_left _ hd, hcall⟩
    rw [rounds] at hr
    obtain hr | rfl := List.mem_or_eq_of_mem_set hr
    · exact (h.rounds r hr hsince).imp_right hstill
    · obtain ⟨c', hc', hat⟩ | hdelivered := h.rounds _ round hsince
      · rw [head, List.mem_cons] at hc'
        obtain rfl | hc' := hc'
        · rw [deliveries]
          exact .inr ⟨_, List.mem_append_right _ (List.mem_singleton_self _), rfl, rfl, hat⟩
        · exact .inl ⟨c', hc', hat⟩
      · exact .inr (hstill hdelivered)
  | ends index rounds _ deliveries =>
    rw [deliveries]
    rw [rounds] at hr
    exact h.rounds r (List.mem_of_mem_eraseIdx hr) hsince

/-- What was given up while the lock was free stays off the list. -/
theorem cancelled_run (h : s.Sound) (hnumbered : s.Numbered)
    (hfree : s.keeper? place = some (.nobody .free)) (moves : List (Move κ)) :
    (s.run moves).Cancelled place s.begun := by
  have hnow : s.Cancelled place s.begun :=
    ⟨h.not_subscribed hfree, fun r hr hsince => absurd hsince (Nat.not_le.2 (hnumbered.rounds r hr)),
      fun d hd hsince => absurd hsince (Nat.not_le.2 (hnumbered.deliveries d hd))⟩
  have hrun := run_of_next
    (P := fun t => t.Sound ∧ t.keeper? place = some (.nobody .free) ∧ t.Cancelled place s.begun)
    (fun {t} m ⟨hsound, hkeeper, hcancelled⟩ => by
      have hkeeper' := (nobody_next_iff m).2 (.inl hkeeper)
      have hsound' := hsound.next m
      exact ⟨hsound', hkeeper', hcancelled.next m (hsound'.not_subscribed hkeeper')⟩)
    ⟨h, hfree, hnow⟩ moves
  exact hrun.2.2

theorem length_handles_giveUp {handle : Handle κ} (hplace : s.handles[place]? = some handle) :
    (s.giveUp place).handles.length = s.handles.length := by
  rw [giveUp, hplace]
  dsimp only
  split
  · exact (List.length_map _).trans List.length_set
  · exact List.length_set
  · exact List.length_set

/-- No handle is forgotten. -/
theorem length_handles_le_next (s : Crowd κ) (m : Move κ) :
    s.handles.length ≤ (s.next m).handles.length := by
  cases changes_next s m with
  | passes _ _ handles => exact Nat.le_of_eq handles.length_eq
  | subscribes callee _ _ _ handles =>
    rw [handles, List.length_append]
    exact Nat.le_add_right ..
  | givesUp gives result =>
    obtain ⟨handle, hplace, -⟩ := givenUp?_held gives
    exact Nat.le_of_eq (result ▸ (length_handles_giveUp hplace).symm)

/-- As long as the numbers last, what was given up while the lock was in use stays in the list. -/
theorem registered_run (h : s.Sound) (hnumbered : s.Numbered) {l : Lock} (hl : l ≠ .free)
    (hlost : s.keeper? place = some (.nobody l)) (moves : List (Move κ))
    (hfew : (s.run moves).handles.length ≤ UInt64.size) :
    (s.run moves).Registered place s.begun := by
  have hnow : s.handles.length ≤ UInt64.size → s.Registered place s.begun := fun hfew =>
    ⟨h.subscribed hfew hl hlost,
      fun r hr hsince => absurd hsince (Nat.not_le.2 (hnumbered.rounds r hr))⟩
  have hrun := run_of_next
    (P := fun t => t.Sound ∧ t.keeper? place = some (.nobody l) ∧
      (t.handles.length ≤ UInt64.size → t.Registered place s.begun))
    (fun {t} m ⟨hsound, hkeeper, hregistered⟩ => by
      have hkeeper' := (nobody_next_iff m).2 (.inl hkeeper)
      have hsound' := hsound.next m
      refine ⟨hsound', hkeeper', fun hfew => ?_⟩
      have hbefore := hregistered (Nat.le_trans (length_handles_le_next t m) hfew)
      exact hbefore.next m (hsound'.subscribed hfew hl hkeeper'))
    ⟨h, hlost, hnow⟩ moves
  exact hrun.2.2 hfew

/-! ## Those who use the list finish -/

theorem lock_of_idle (hreadings : s.readings = []) (hwriting : s.writing = false) : s.lock = .free := by
  rw [lock, hwriting, hreadings]
  rfl

theorem lock_of_writing (hwriting : s.writing = true) : s.lock = .writing :=
  if_pos hwriting

theorem exists_finishing_readings (s : Crowd κ) :
    ∃ moves, (s.run moves).readings = [] ∧ (s.run moves).feed = s.feed := by
  induction hreadings : s.readings generalizing s with
  | nil => exact ⟨[], hreadings, rfl⟩
  | cons purpose rest ih =>
    have hfirst : s.readings[0]? = some purpose := by rw [hreadings]; rfl
    have hnext : (s.next (.finishReading 0)).readings = rest ∧
        (s.next (.finishReading 0)).feed = s.feed := by
      rw [next, hfirst]
      cases purpose with
      | count => exact ⟨congrArg (List.eraseIdx · 0) hreadings, rfl⟩
      | publication event => exact ⟨congrArg (List.eraseIdx · 0) hreadings, rfl⟩
    obtain ⟨moves, hdone, hfeed⟩ := ih _ hnext.1
    exact ⟨.finishReading 0 :: moves, hdone, hfeed.trans hnext.2⟩

/-- How many subscriptions the cancellation under way has still to give up. -/
def pending (s : Crowd κ) : Nat :=
  s.handles.countP fun h => h.keeper = .cancellation

/-- Whoever changes the list loses the cancellations of what it has let go of. -/
theorem giveUp_of_writing (hwriting : s.writing = true) {handle : Handle κ}
    (hplace : s.handles[place]? = some handle) :
    s.giveUp place =
      { s with handles := s.handles.set place { handle with keeper := .nobody .writing } } := by
  rw [giveUp, hplace, lock_of_writing hwriting]
  rfl

theorem pending_giveUp (hwriting : s.writing = true) {handle : Handle κ}
    (hplace : s.handles[place]? = some handle) (hkept : handle.keeper = .cancellation) :
    (s.giveUp place).pending < s.pending := by
  rw [giveUp_of_writing hwriting hplace, pending, pending]
  dsimp only
  obtain ⟨front, rest, hsplit, rfl⟩ := exists_split hplace
  rw [hsplit, set_split, List.countP_append, List.countP_append, List.countP_cons, List.countP_cons,
    decide_eq_true hkept, decide_eq_false (cancellation_ne_nobody .writing).symm]
  exact Nat.lt_succ_self _

theorem exists_finishing_writing (hreadings : s.readings = []) :
    ∃ moves, (s.run moves).lock = .free ∧ (s.run moves).feed = s.feed := by
  induction hpending : s.pending using Nat.strongRecOn generalizing s with
  | ind n ih =>
    cases hwriting : s.writing with
    | false => exact ⟨[], lock_of_idle hreadings hwriting, rfl⟩
    | true =>
      cases hfind : s.handles.findIdx? fun h => h.keeper = .cancellation with
      | none =>
        refine ⟨[.finishWriting], ?_⟩
        rw [run, List.foldl_cons, List.foldl_nil, next, if_pos hwriting, hfind]
        exact ⟨lock_of_idle hreadings rfl, rfl⟩
      | some place =>
        obtain ⟨hlt, hkept, -⟩ := List.findIdx?_eq_some_iff_getElem.1 hfind
        have hplace := List.getElem?_eq_getElem hlt
        have hnext : s.next .finishWriting = s.giveUp place := by
          rw [next, if_pos hwriting, hfind]
        have hgiveUp := giveUp_of_writing hwriting hplace
        have hfewer := pending_giveUp hwriting hplace (of_decide_eq_true hkept)
        obtain ⟨moves, hdone, hfeed⟩ :=
          ih _ (hpending ▸ hfewer) (by rw [hgiveUp]; exact hreadings) rfl
        refine ⟨.finishWriting :: moves, ?_⟩
        rw [run, List.foldl_cons, hnext]
        exact ⟨hdone, hfeed.trans (by rw [hgiveUp])⟩

/-- Those who use the list can finish, and leave the subscribers as they are. -/
theorem exists_finishing (s : Crowd κ) :
    ∃ moves, (s.run moves).lock = .free ∧ (s.run moves).feed = s.feed := by
  obtain ⟨reading, hreadings, hfeed⟩ := exists_finishing_readings s
  obtain ⟨writing, hfree, hfeed'⟩ := exists_finishing_writing hreadings
  refine ⟨reading ++ writing, ?_, ?_⟩
  · rw [run_append, hfree]
  · rw [run_append, hfeed', hfeed]

/-- **Theorem.** Whatever is done with a feed, by how many threads, and in which order: a subscription that
has been given up was given up by one of the moves, and nothing but the lock of that moment decides what
becomes of it. If it was free, what it called is off the list from then on, and no publication that begins
later calls it, so nobody is left if all subscriptions have been given up and the lock was free every time.
As long as no more of them were handed out than there are numbers, nobody else is cancelled: if somebody
read or changed the list, what the subscription called is in the list for good, and every publication that
begins later calls it. Those that have not been given up are in the list, too, so nobody is left only if all
of them have been given up and the lock was free every time. And those who use the list can finish, which
leaves the subscribers as they are. -/
theorem given_up_exactly_if_free (moves : List (Move κ)) :
    let start : Crowd κ := {}
    let s := start.run moves
    let few := s.handles.length ≤ UInt64.size
    (∀ place l, s.keeper? place = some (.nobody l) ↔
      ∃ before m after, moves = before ++ m :: after ∧
        (start.run before).givenUp? m = some place ∧ (start.run before).lock = l) ∧
    (∀ before m after place, moves = before ++ m :: after →
      (start.run before).givenUp? m = some place →
      let begun := (start.run (before ++ [m])).begun
      if (start.run before).lock = .free then s.Cancelled place begun
      else few → s.Registered place begun) ∧
    s.feed.subscribers.Sublist (standing s.handles) ∧
    (few → s.feed.subscribers = standing s.handles) ∧
    ((∀ h ∈ s.handles, h.keeper = .nobody .free) → s.feed.count = 0) ∧
    (few → s.feed.count = 0 → ∀ h ∈ s.handles, h.keeper = .nobody .free) ∧
    ∃ finish, (s.run finish).lock = .free ∧ (s.run finish).feed = s.feed := by
  intro start s few
  have hgivenUp : ∀ {before : List (Move κ)} {m : Move κ} {place : Nat},
      (start.run before).givenUp? m = some place →
      (start.run (before ++ [m])).keeper? place = some (.nobody (start.run before).lock) := by
    intro before m place h
    rw [run_append]
    exact (nobody_next_iff m).2 (.inr ⟨h, rfl⟩)
  have hsplit : ∀ {before : List (Move κ)} {m : Move κ} {after : List (Move κ)},
      moves = before ++ m :: after → s = (start.run (before ++ [m])).run after := by
    intro before m after h
    rw [← run_append, List.append_assoc, List.singleton_append, ← h]
  have hsound := sound_run moves
  have hstanding : standing s.handles = [] ↔ ∀ h ∈ s.handles, h.keeper = .nobody .free := by
    rw [standing, List.map_eq_nil_iff, List.filter_eq_nil_iff]
    simp only [Handle.stands, bne_iff_ne, not_not]
  refine ⟨fun place l => ⟨fun h => ?_, ?_⟩, ?_, hsound.sublist, hsound.subscribers, fun hall => ?_,
    fun hfew hnone => ?_, exists_finishing s⟩
  · exact (exists_givenUp h).resolve_left nofun
  · rintro ⟨before, m, after, hmoves, hmove, rfl⟩
    rw [hsplit hmoves]
    exact nobody_run (hgivenUp hmove) after
  · intro before m after place hmoves hmove begun
    have hafter := hsplit hmoves
    split
    next hfree =>
      rw [hafter]
      exact cancelled_run (sound_run _) (numbered_run _) (hfree ▸ hgivenUp hmove) after
    next hused =>
      intro hfew
      rw [hafter]
      exact registered_run (sound_run _) (numbered_run _) hused (hgivenUp hmove) after (hafter ▸ hfew)
  · have hnone := hsound.sublist
    rw [hstanding.2 hall, List.sublist_nil] at hnone
    rw [Feed.count, hnone]
    rfl
  · rw [← hstanding, ← hsound.subscribers hfew]
    exact List.length_eq_zero_iff.1 hnone

/-- The second subscriber keeps the subscription of the first, and is given up. -/
def keptByAnother : List (Move Nat) :=
  [.subscribe 0, .finishWriting, .subscribe 1, .finishWriting, .entrust 0 1, .drop 1, .finishWriting,
    .finishWriting]

/-- The only subscription is given up while somebody counts the subscribers. -/
def givenUpWhileCounted : List (Move Nat) :=
  [.subscribe 0, .finishWriting, .read .count, .drop 0, .finishReading 0]

/-- A later publication, up to the first call that it makes. -/
def announced : List (Move Nat) :=
  [.read (.publication (.joined default)), .finishReading 0, .goOn 0]

/-- All subscriptions have been given up and nobody uses the list any more, and yet a subscriber is left and
a later publication calls it: on one thread because the subscription was kept by another subscriber, and
on two because one of them counted the subscribers. -/
theorem given_up_in_use_stays :
    let s := ({} : Crowd Nat).run keptByAnother
    let t := ({} : Crowd Nat).run givenUpWhileCounted
    (s.lock = .free ∧ s.handles.map Handle.keeper = [.nobody .writing, .nobody .free] ∧
      s.feed.count = 1 ∧
      (s.run announced).deliveries = [⟨0, .joined default, 0, 0⟩]) ∧
    (t.lock = .free ∧ t.handles.map Handle.keeper = [.nobody .reading] ∧ t.feed.count = 1 ∧
      (t.run announced).deliveries = [⟨0, .joined default, 0, 0⟩]) := by
  decide

end Crowd

end PeerCluster.Feed
