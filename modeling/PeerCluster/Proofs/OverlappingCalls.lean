import Mathlib.Data.List.Induction
import PeerCluster.Proofs.BeaconSteps
import PeerCluster.Proofs.Hearing

/-!
# Starts, stops and recoveries that overlap

A start asks for its loops before it has sent its first heartbeat, and begins them afterwards on the
socket that it has fetched before. A stop, another start or a recovery may come in between.

**Theorem (`whole_when_quiet`).** Once no call is in flight any more, exactly the loops that are asked
for are there, and a socket is held exactly if one is asked for.

The invariant is `Sound`: what is missing is still to be done by a call in flight. A loop that is
asked for is there, or a recovery or a start for it is in flight; a socket is held, or a recovery is
in flight. Every move keeps this (`Sound.next`), and without calls it leaves nothing missing.

It does not follow that a loop works on the socket that is held. Three calls are enough to part them
(`begins_on_socket_given_up`): a start begins its loop when the request it finds is that of a later
start, and its socket has been given up by the stop between the two. The theorem says that there is no
other way: whatever loop strays has begun so (`Strays.before_next`).
-/

namespace PeerCluster.Beacon

/-- Exactly the loops that are asked for are there, and a socket is held exactly for them. -/
structure Whole (b : Beacon) : Prop where
  loop : ∀ side, (b.loop side).isSome = b.running.has side
  socket : b.socket.isSome = !b.running.isEmpty

theorem whole_initial (settings : Settings.Membership) (self : Member) (roster : Roster) :
    Whole { settings, self, roster } where
  loop side := by cases side <;> rfl
  socket := rfl

namespace Scene

variable {s s' : Scene} {k : SocketId} {side : Side}

/-! ## The invariant -/

/-- What holds of a scene whichever calls have overlapped. Whatever is missing is still to be done by
a call in flight. -/
structure Sound (s : Scene) : Prop where
  /-- Only a loop that is asked for works. -/
  asked : ∀ {side k}, s.beacon.loop side = some k → s.beacon.running.has side = true
  /-- No socket is held for nobody. -/
  released : s.beacon.running.isEmpty = true → s.beacon.socket = none
  held : s.beacon.running.isEmpty = false → s.beacon.socket.isSome = true ∨ .recovering ∈ s.calls
  working : ∀ {side}, s.beacon.running.has side = true →
    (s.beacon.loop side).isSome = true ∨ .recovering ∈ s.calls ∨
      ∃ newly k, .starting newly k ∈ s.calls ∧ newly.has side = true

/-- Nothing is missing, whatever the calls still do. -/
theorem sound_of_whole {b : Beacon} (calls : List Call) (h : b.Whole) : Sound ⟨b, calls⟩ where
  asked := by
    intro side k hloop
    rw [← h.loop, hloop, Option.isSome_some]
  released := by
    intro hempty
    have hsocket := h.socket
    rw [hempty] at hsocket
    exact Option.isNone_iff_eq_none.1 (Option.isSome_eq_false_iff.1 hsocket)
  held := by
    intro hsome
    left
    rw [h.socket, hsome]
    rfl
  working := by
    intro side hasked
    left
    rw [h.loop, hasked]

/-- With nobody in flight who could do it, nothing is missing. -/
theorem Sound.whole (h : s.Sound) (hcalls : s.calls = []) : s.beacon.Whole where
  loop := by
    intro side
    rw [Bool.eq_iff_iff]
    constructor
    · intro hloop
      obtain ⟨k, hk⟩ := Option.isSome_iff_exists.1 hloop
      exact h.asked hk
    · intro hasked
      obtain hloop | hrecovering | ⟨newly, k, hstarting, -⟩ := h.working hasked
      · exact hloop
      · rw [hcalls] at hrecovering
        cases hrecovering
      · rw [hcalls] at hstarting
        cases hstarting
  socket := by
    cases hempty : s.beacon.running.isEmpty with
    | true => rw [h.released hempty]; rfl
    | false =>
      obtain hsocket | hrecovering := h.held hempty
      · exact hsocket
      · rw [hcalls] at hrecovering
        cases hrecovering

theorem Sound.loop_eq_none (h : s.Sound) (hempty : s.beacon.running.isEmpty = true)
    (side : Side) : s.beacon.loop side = none := by
  rw [Option.eq_none_iff_forall_ne_some]
  intro k hloop
  have hasked := h.asked hloop
  rw [Channels.isEmpty_iff.1 hempty] at hasked
  cases hasked

/-! ## What each move keeps -/

/-- Calls may come, as long as nothing happens to the loops. -/
theorem Sound.of_same (h : s.Sound) (hsame : s.beacon.SameLoops s'.beacon)
    (hcalls : ∀ c ∈ s.calls, c ∈ s'.calls) : s'.Sound where
  asked := by
    intro side k hloop
    rw [hsame.loop] at hloop
    rw [hsame.running]
    exact h.asked hloop
  released := by
    intro hempty
    rw [hsame.running] at hempty
    rw [hsame.socket]
    exact h.released hempty
  held := by
    intro hsome
    rw [hsame.running] at hsome
    rw [hsame.socket]
    exact (h.held hsome).imp_right (hcalls _)
  working := by
    intro side hasked
    rw [hsame.running] at hasked
    rw [hsame.loop]
    obtain hloop | hrecovering | ⟨newly, k, hstarting, hnewly⟩ := h.working hasked
    · exact .inl hloop
    · exact .inr (.inl (hcalls _ hrecovering))
    · exact .inr (.inr ⟨newly, k, hcalls _ hstarting, hnewly⟩)

/-- A start that has asked for its loops and still has to begin them. -/
theorem Sound.of_asks {b : Beacon} {channels : Channels} (h : s.Sound)
    (hmore : (channels.without s.beacon.running).isEmpty = false)
    (hasks : s.beacon.Asks channels k b) :
    Sound ⟨b, s.calls ++ [.starting (channels.without s.beacon.running) k]⟩ where
  asked := by
    intro side k' hloop
    rw [hasks.loop] at hloop
    rw [hasks.running, Channels.has_union, h.asked hloop, Bool.true_or]
  released := by
    intro hempty
    rw [hasks.running, Channels.isEmpty_iff] at hempty
    obtain ⟨side, hside⟩ := Channels.isEmpty_eq_false_iff.1 hmore
    have hnone := hempty side
    rw [Channels.has_without, Bool.and_eq_true] at hside
    rw [Channels.has_union, hside.1, Bool.or_true] at hnone
    cases hnone
  held := by
    intro
    left
    rw [hasks.socket, Option.isSome_some]
  working := by
    intro side hasked
    rw [hasks.loop]
    cases hbefore : s.beacon.running.has side with
    | true =>
      obtain hloop | hrecovering | ⟨newly, k', hstarting, hnewly⟩ := h.working hbefore
      · exact .inl hloop
      · exact .inr (.inl (List.mem_append_left _ hrecovering))
      · exact .inr (.inr ⟨newly, k', List.mem_append_left _ hstarting, hnewly⟩)
    | false =>
      rw [hasks.running, Channels.has_union, hbefore, Bool.false_or] at hasked
      refine .inr (.inr ⟨_, k, List.mem_append_right _ (List.mem_singleton_self _), ?_⟩)
      rw [Channels.has_without, hasked, hbefore]
      rfl

/-- The loops of a start begin, and the start is over. -/
theorem Sound.spawnLoops {newly : Channels} {calls : List Call} (h : s.Sound)
    (hcalls : ∀ c ∈ s.calls, c = .starting newly k ∨ c ∈ calls) :
    Sound ⟨s.beacon.spawnLoops newly k, calls⟩ where
  asked := by
    intro side k' hloop
    obtain ⟨hrunning, -, -⟩ := spawnLoops_frame s.beacon newly k
    rw [hrunning]
    rw [loop_spawnLoops] at hloop
    split at hloop
    next hbegins =>
      rw [Bool.and_eq_true, Bool.and_eq_true] at hbegins
      exact hbegins.1.2
    next => exact h.asked hloop
  released := by
    obtain ⟨hrunning, hsocket, -⟩ := spawnLoops_frame s.beacon newly k
    rw [hrunning, hsocket]
    exact h.released
  held := by
    obtain ⟨hrunning, hsocket, -⟩ := spawnLoops_frame s.beacon newly k
    rw [hrunning, hsocket]
    intro hsome
    refine (h.held hsome).imp_right fun hrecovering => ?_
    exact (hcalls _ hrecovering).resolve_left (by rintro ⟨⟩)
  working := by
    intro side hasked
    obtain ⟨hrunning, -, -⟩ := spawnLoops_frame s.beacon newly k
    rw [hrunning] at hasked
    rw [loop_spawnLoops]
    split
    next => exact .inl rfl
    next hstays =>
      obtain hloop | hrecovering | ⟨newly', k', hstarting, hnewly'⟩ := h.working hasked
      · exact .inl hloop
      · exact .inr (.inl ((hcalls _ hrecovering).resolve_left (by rintro ⟨⟩)))
      · obtain hsame | hstarting := hcalls _ hstarting
        · -- It did not begin, so it was there.
          cases hsame
          rw [hnewly', hasked, Bool.true_and, Bool.true_and, Option.isNone_iff_eq_none] at hstays
          exact .inl (Option.isSome_iff_ne_none.2 hstays)
        · exact .inr (.inr ⟨newly', k', hstarting, hnewly'⟩)

theorem Sound.start (h : s.Sound) (channels : Channels) (opening : Except IoFault Unit)
    (age : UInt64) : (s.start channels opening age).2.Sound := by
  have hstarts := starts_start s.beacon channels opening age
  rw [Scene.start]
  generalize s.beacon.start channels opening age = result at hstarts ⊢
  obtain ⟨started, b⟩ := result
  dsimp only at hstarts ⊢
  cases hstarts with
  | already => exact h
  | failed hsame => exact h.of_same hsame fun _ hc => hc
  | announcing hmore hasks => exact h.of_asks hmore hasks
  | begun hmore hasks =>
    refine (h.of_asks hmore hasks).spawnLoops fun c hc => ?_
    rw [List.mem_append, List.mem_singleton] at hc
    exact hc.symm

theorem Sound.of_ends {b : Beacon} {channels : Channels} {calls : List Call} (h : s.Sound)
    (hends : s.beacon.Ends channels b)
    (hsocket : b.socket = if b.running.isEmpty then none else s.beacon.socket)
    (hcalls : ∀ c ∈ s.calls, c ∈ calls) : Sound ⟨b, calls⟩ where
  asked := by
    intro side k hloop
    rw [hends.loop] at hloop
    split at hloop
    next => cases hloop
    next hkept =>
      rw [hends.running, Channels.has_without, h.asked hloop, Bool.eq_false_iff.2 hkept]
      rfl
  released := by
    intro hempty
    rw [hsocket, if_pos hempty]
  held := by
    intro hsome
    have hbefore : s.beacon.running.isEmpty = false := by
      rw [hends.running] at hsome
      exact Channels.isEmpty_of_without hsome
    rw [hsocket, hsome]
    exact (h.held hbefore).imp_right (hcalls _)
  working := by
    intro side hasked
    rw [hends.running, Channels.has_without, Bool.and_eq_true, Bool.not_eq_true'] at hasked
    rw [hends.loop, hasked.2]
    obtain hloop | hrecovering | ⟨newly, k, hstarting, hnewly⟩ := h.working hasked.1
    · exact .inl hloop
    · exact .inr (.inl (hcalls _ hrecovering))
    · exact .inr (.inr ⟨newly, k, hcalls _ hstarting, hnewly⟩)

theorem Sound.stop (h : s.Sound) (channels : Channels) (age : UInt64) :
    (s.stop channels age).2.Sound := by
  have hstops := stops_stop s.beacon channels age
  rw [Scene.stop]
  generalize s.beacon.stop channels age = result at hstops ⊢
  obtain ⟨stopped, b⟩ := result
  dsimp only at hstops ⊢
  cases hstops with
  | partly hless hends hsocket =>
    refine h.of_ends hends ?_ fun _ hc => hc
    rw [hends.running, hless, hsocket]
    rfl
  | idle hless hbefore hends hsocket =>
    refine h.of_ends hends ?_ fun _ hc => hc
    rw [hends.running, hless, hsocket]
    rfl
  | leaving hran hbefore hends hsocket =>
    rw [h.released hran] at hbefore
    cases hbefore
  | announcing hran hless hbefore hends hsocket =>
    refine h.of_ends hends ?_ fun _ hc => List.mem_append_left _ hc
    rw [hends.running, hless, hsocket]
    rfl
  | unannounced hran hless hbefore hends hsocket =>
    refine h.of_ends hends ?_ fun _ hc => hc
    rw [hends.running, hless, hsocket]
    rfl

/-- A call that is not the one at a place is still there when that one has ended. -/
theorem mem_eraseIdx_of_ne {place : Nat} {c c' : Call} (hplace : s.calls[place]? = some c)
    (hmem : c' ∈ s.calls) (hne : c' ≠ c) : c' ∈ s.calls.eraseIdx place := by
  obtain ⟨i, hi⟩ := List.mem_iff_getElem?.1 hmem
  refine List.mem_eraseIdx_iff_getElem?.2 ⟨i, ?_, hi⟩
  rintro rfl
  exact hne (Option.some.inj (hi.symm.trans hplace))

theorem Sound.recover (h : s.Sound) {place : Nat} (opening : Except IoFault Unit)
    (hplace : s.calls[place]? = some .recovering) : (s.goOn place opening).Sound := by
  have hrecovers := recovers_attemptRecovery s.beacon opening
  rw [goOn, hplace]
  dsimp only
  generalize s.beacon.attemptRecovery opening = result at hrecovers ⊢
  obtain ⟨recovery, b⟩ := result
  dsimp only at hrecovers ⊢
  cases hrecovers with
  | abandoned hempty hsame =>
    refine sound_of_whole _ ⟨fun side => ?_, ?_⟩
    · rw [hsame.loop, hsame.running, Channels.isEmpty_iff.1 hempty, h.loop_eq_none hempty]
      rfl
    · rw [hsame.socket, hsame.running, hempty, h.released hempty]
      rfl
  | failed hsome hopening hrunning hloop hsocket =>
    -- Nothing is left but the recovery itself, which is still in flight.
    have hrecovering : .recovering ∈ s.calls := List.mem_of_getElem? hplace
    exact
      { asked := fun hk => by rw [hloop] at hk; cases hk
        released := fun _ => hsocket
        held := fun _ => .inr hrecovering
        working := fun _ => .inr (.inl hrecovering) }
  | recovered hsome hopening hrunning hloop hsocket =>
    refine sound_of_whole _ ⟨fun side => ?_, ?_⟩
    · rw [hloop, hrunning]
      cases s.beacon.running.has side <;> rfl
    · rw [hsocket, hrunning, hsome]
      rfl

theorem Sound.goOn (h : s.Sound) (place : Nat) (opening : Except IoFault Unit) :
    (s.goOn place opening).Sound := by
  cases hplace : s.calls[place]? with
  | none =>
    rw [Scene.goOn, hplace]
    exact h
  | some c =>
    cases c with
    | recovering => exact h.recover opening hplace
    | starting newly k =>
      rw [Scene.goOn, hplace]
      refine h.spawnLoops fun c hc => ?_
      by_cases hsame : c = .starting newly k
      · exact .inl hsame
      · exact .inr (mem_eraseIdx_of_ne hplace hc hsame)
    | stopping k =>
      rw [Scene.goOn, hplace]
      have hstays {c : Call} (hc : c ∈ s.calls) (hne : c ≠ .stopping k) :=
        mem_eraseIdx_of_ne hplace hc hne
      exact
        { asked := h.asked
          released := h.released
          held := fun hsome => (h.held hsome).imp_right fun hc => hstays hc (by rintro ⟨⟩)
          working := fun hasked => by
            obtain hloop | hrecovering | ⟨newly, k, hstarting, hnewly⟩ := h.working hasked
            · exact .inl hloop
            · exact .inr (.inl (hstays hrecovering (by rintro ⟨⟩)))
            · exact .inr (.inr ⟨newly, k, hstays hstarting (by rintro ⟨⟩), hnewly⟩) }

/-- The moves that leave the loops alone: the rounds of the loops and what else happens meanwhile. -/
def Rests : Move → Prop
  | .trigger | .receive .. | .beat .. | .payload .. => True
  | .start .. | .stop .. | .goOn .. => False

theorem mem_calls_awaiting {c : Call} {triggered : Bool} (h : c ∈ s.calls) :
    c ∈ (awaiting triggered s).calls := by
  cases triggered with
  | true => exact List.mem_append_left _ h
  | false => exact h

theorem beacon_awaiting (triggered : Bool) (s : Scene) :
    (awaiting triggered s).beacon = s.beacon := by
  cases triggered <;> rfl

/-- A recovery that is called for by a round that leaves the loops alone. -/
theorem rests_awaiting {b : Beacon} (triggered : Bool) (h : s.beacon.SameLoops b) :
    s.beacon.SameLoops (awaiting triggered { s with beacon := b }).beacon ∧
      ∀ c ∈ s.calls, c ∈ (awaiting triggered { s with beacon := b }).calls := by
  rw [beacon_awaiting]
  exact ⟨h, fun c hc => mem_calls_awaiting hc⟩

theorem rests_next {m : Move} (h : Rests m) (s : Scene) :
    s.beacon.SameLoops (s.next m).beacon ∧ ∀ c ∈ s.calls, c ∈ (s.next m).calls := by
  cases m with
  | start => exact h.elim
  | stop => exact h.elim
  | goOn => exact h.elim
  | payload payload => exact ⟨sameLoops_of rfl rfl rfl rfl, fun _ hc => hc⟩
  | trigger => exact rests_awaiting _ (sameLoops_triggerRecovery _)
  | receive r heardAt sweptAt =>
    rw [next, Scene.receive]
    split
    · exact ⟨.refl _, fun _ hc => hc⟩
    · exact rests_awaiting _ (sameLoops_receiveRound _ r heardAt sweptAt)
  | beat age isSent =>
    rw [next, Scene.beat]
    split
    · exact ⟨.refl _, fun _ hc => hc⟩
    · have hcompose := sameLoops_compose s.beacon .alive age
      split
      next e b heq =>
        rw [heq] at hcompose
        exact rests_awaiting _ hcompose
      next datagram b heq =>
        rw [heq] at hcompose
        exact rests_awaiting _ (hcompose.trans (sameLoops_noteSent _ _))

theorem Sound.next (h : s.Sound) (m : Move) : (s.next m).Sound := by
  cases m with
  | start channels opening age => exact h.start channels opening age
  | stop channels age => exact h.stop channels age
  | goOn place opening => exact h.goOn place opening
  | trigger | receive | beat | payload =>
    refine h.of_same (rests_next ?_ s).1 (rests_next ?_ s).2 <;> trivial

theorem run_concat (s : Scene) (moves : List Move) (m : Move) :
    s.run (moves ++ [m]) = (s.run moves).next m := by
  rw [run, List.foldl_append]
  rfl

theorem Sound.run (h : s.Sound) (moves : List Move) : (s.run moves).Sound := by
  induction moves generalizing s with
  | nil => exact h
  | cons m moves ih => exact ih (h.next m)

/-! ## Where a loop works -/

/-- A loop begins on a socket that is not held: its start has waited while that socket was given
up. -/
def BeginsLate (s : Scene) (m : Move) (side : Side) (k : SocketId) : Prop :=
  ∃ place opening newly, m = .goOn place opening ∧ s.calls[place]? = some (.starting newly k) ∧
    newly.has side = true ∧ s.beacon.loop side = none ∧ s.beacon.socket ≠ some k

/-- A loop does not work on the socket that is held. -/
def Strays (s : Scene) (side : Side) (k : SocketId) : Prop :=
  s.beacon.loop side = some k ∧ s.beacon.socket ≠ some k

theorem Strays.of_same (hsame : s.beacon.SameLoops s'.beacon) (h : s'.Strays side k) :
    s.Strays side k := by
  obtain ⟨hloop, hsocket⟩ := h
  rw [hsame.loop] at hloop
  rw [hsame.socket] at hsocket
  exact ⟨hloop, hsocket⟩

theorem Strays.before_start {channels : Channels} {opening : Except IoFault Unit} {age : UInt64}
    (h : (s.start channels opening age).2.Strays side k) : s.Strays side k := by
  have hstarts := starts_start s.beacon channels opening age
  rw [Scene.start] at h
  generalize s.beacon.start channels opening age = result at hstarts h
  obtain ⟨started, b⟩ := result
  dsimp only at hstarts h
  cases hstarts with
  | already => exact h
  | failed hsame => exact Strays.of_same hsame h
  | @announcing k' _ _ _ hmore hasks =>
    obtain ⟨hloop, hsocket⟩ := h
    rw [hasks.loop] at hloop
    rw [hasks.socket] at hsocket
    exact ⟨hloop, fun hheld => hsocket (by rw [hasks.keeps hheld])⟩
  | @begun k' b hmore hasks =>
    obtain ⟨hloop, hsocket⟩ := h
    rw [(spawnLoops_frame b _ k').2.1, hasks.socket] at hsocket
    rw [loop_spawnLoops] at hloop
    split at hloop
    next => exact absurd hloop hsocket
    next =>
      rw [hasks.loop] at hloop
      exact ⟨hloop, fun hheld => hsocket (by rw [hasks.keeps hheld])⟩

theorem Strays.before_stop {channels : Channels} {age : UInt64} (hsound : s.Sound)
    (h : (s.stop channels age).2.Strays side k) : s.Strays side k := by
  have hasked := (hsound.stop channels age).asked h.1
  have hstops := stops_stop s.beacon channels age
  rw [Scene.stop] at h hasked
  generalize s.beacon.stop channels age = result at hstops h hasked
  obtain ⟨stopped, b⟩ := result
  dsimp only at hstops h hasked
  -- A loop that is left is asked for, so that the socket has not been given up.
  have hkept {b' : Beacon} (hends : s.beacon.Ends channels b')
      (hasked : b'.running.has side = true) :
      ¬(s.beacon.running.without channels).isEmpty = true := by
    intro hless
    rw [hends.running, Channels.isEmpty_iff.1 hless] at hasked
    cases hasked
  cases hstops with
  | partly hless hends hsocket =>
    obtain ⟨hloop, hother⟩ := h
    rw [hends.loop] at hloop
    rw [hsocket] at hother
    split at hloop
    next => cases hloop
    next => exact ⟨hloop, hother⟩
  | idle hless hbefore hends hsocket => exact absurd hless (hkept hends hasked)
  | leaving hran hbefore hends hsocket =>
    exact absurd (isEmpty_without_of_isEmpty hran) (hkept hends hasked)
  | announcing hran hless hbefore hends hsocket => exact absurd hless (hkept hends hasked)
  | unannounced hran hless hbefore hends hsocket => exact absurd hless (hkept hends hasked)

theorem Strays.before_goOn {place : Nat} {opening : Except IoFault Unit}
    (h : (s.goOn place opening).Strays side k) :
    s.Strays side k ∨ s.BeginsLate (.goOn place opening) side k := by
  cases hplace : s.calls[place]? with
  | none =>
    rw [goOn, hplace] at h
    exact .inl h
  | some c =>
    rw [goOn, hplace] at h
    cases c with
    | stopping => exact .inl h
    | starting newly k' =>
      obtain ⟨hloop, hsocket⟩ := h
      dsimp only [finishStart] at hloop hsocket
      rw [(spawnLoops_frame s.beacon newly k').2.1] at hsocket
      rw [loop_spawnLoops] at hloop
      split at hloop
      next hbegins =>
        rw [Bool.and_eq_true, Bool.and_eq_true, Option.isNone_iff_eq_none] at hbegins
        cases hloop
        exact .inr ⟨place, opening, newly, rfl, hplace, hbegins.1.1, hbegins.2, hsocket⟩
      next => exact .inl ⟨hloop, hsocket⟩
    | recovering =>
      have hrecovers := recovers_attemptRecovery s.beacon opening
      dsimp only at h
      generalize s.beacon.attemptRecovery opening = result at hrecovers h
      obtain ⟨recovery, b⟩ := result
      dsimp only at hrecovers h
      cases hrecovers with
      | abandoned hempty hsame => exact .inl (Strays.of_same hsame h)
      | failed hsome hopening hrunning hloop hsocket =>
        have hnone := h.1
        rw [hloop] at hnone
        cases hnone
      | recovered hsome hopening hrunning hloop hsocket =>
        obtain ⟨hnew, hother⟩ := h
        rw [hloop] at hnew
        rw [hsocket] at hother
        split at hnew
        next => exact absurd hnew hother
        next => cases hnew

/-- No move but a late beginning takes a loop off the socket that is held. -/
theorem Strays.before_next {m : Move} (hsound : s.Sound) (h : (s.next m).Strays side k) :
    s.Strays side k ∨ s.BeginsLate m side k := by
  cases m with
  | start channels opening age => exact .inl h.before_start
  | stop channels age => exact .inl (h.before_stop hsound)
  | goOn place opening => exact h.before_goOn
  | trigger | receive | beat | payload =>
    refine .inl (Strays.of_same (rests_next ?_ s).1 h)
    trivial

/-- At some move of a run, a loop begins late on a socket. -/
def HasBegunLate (s : Scene) (moves : List Move) (side : Side) (k : SocketId) : Prop :=
  ∃ before m after, moves = before ++ m :: after ∧ (s.run before).BeginsLate m side k

theorem Strays.begunLate {moves : List Move} (hsound : s.Sound)
    (hstart : ∀ {side k}, ¬s.Strays side k) (h : (s.run moves).Strays side k) :
    s.HasBegunLate moves side k := by
  induction moves using List.reverseRecOn with
  | nil => exact absurd h hstart
  | append_singleton moves m ih =>
    rw [run_concat] at h
    obtain hstrays | hlate := h.before_next (hsound.run moves)
    · obtain ⟨before, m', after, rfl, hlate⟩ := ih hstrays
      exact ⟨before, m', after ++ [m], by simp, hlate⟩
    · exact ⟨moves, m, [], rfl, hlate⟩

/-- **Nothing is left half done.** Once every call is over, exactly the loops that are asked for are
there, and a socket is held exactly if there is one. A loop that does not work on that socket was
begun by a start that had waited while its socket was given up. -/
theorem whole_when_quiet (settings : Settings.Membership) (self : Member) (roster : Roster)
    (moves : List Move) (hquiet : (Scene.run ⟨{ settings, self, roster }, []⟩ moves).calls = []) :
    (Scene.run ⟨{ settings, self, roster }, []⟩ moves).beacon.Whole ∧
      ∀ side k, (Scene.run ⟨{ settings, self, roster }, []⟩ moves).beacon.loop side = some k →
        (Scene.run ⟨{ settings, self, roster }, []⟩ moves).beacon.socket = some k ∨
          HasBegunLate ⟨{ settings, self, roster }, []⟩ moves side k := by
  have hsound : Sound ⟨{ settings, self, roster }, []⟩ :=
    sound_of_whole _ (whole_initial settings self roster)
  refine ⟨(hsound.run moves).whole hquiet, fun side k hloop => ?_⟩
  by_cases hsocket : (Scene.run ⟨{ settings, self, roster }, []⟩ moves).beacon.socket = some k
  · exact .inl hsocket
  · refine .inr (Strays.begunLate hsound (fun h => ?_) ⟨hloop, hsocket⟩)
    rw [Strays, hsound.loop_eq_none rfl] at h
    cases h.1

/-- Both loops are started, a recovery rebuilds the socket, and one of them is stopped meanwhile. -/
theorem whole_when_quiet_of_recovery :
    let moves : List Move := [.start .all (.ok ()) 0, .goOn 0 (.ok ()), .trigger,
      .goOn 0 (.error .earlyEnd), .stop ⟨true, false⟩ 5, .goOn 0 (.ok ())]
    (Scene.run ⟨novice, []⟩ moves).calls = [] ∧ (Scene.run ⟨novice, []⟩ moves).beacon.Whole ∧
      (Scene.run ⟨novice, []⟩ moves).beacon.loop .send = some ⟨1⟩ := by
  intro moves
  have hquiet : (Scene.run ⟨novice, []⟩ moves).calls = [] := by decide +kernel
  have hfresh : { settings := novice.settings, self := novice.self, roster := novice.roster } =
    novice := rfl
  have hwhole := whole_when_quiet novice.settings novice.self novice.roster moves
  rw [hfresh] at hwhole
  exact ⟨hquiet, (hwhole hquiet).1, by decide +kernel⟩

/-- A start waits for its first heartbeat to be sent. Meanwhile the transmit loop is stopped, so that
the socket is given up, and started again, on another socket. The first start then begins the loop on
the socket that it knows, and the second start finds the loop there. -/
theorem begins_on_socket_given_up :
    let moves : List Move := [.start ⟨false, true⟩ (.ok ()) 0, .stop ⟨false, true⟩ 0,
      .start ⟨false, true⟩ (.ok ()) 0, .goOn 0 (.ok ()), .goOn 0 (.ok ()), .goOn 0 (.ok ())]
    (Scene.run ⟨novice, []⟩ moves).calls = [] ∧
      (Scene.run ⟨novice, []⟩ moves).beacon.loop .send = some ⟨0⟩ ∧
      (Scene.run ⟨novice, []⟩ moves).beacon.socket = some ⟨1⟩ := by
  intro moves
  decide +kernel

end Scene

end PeerCluster.Beacon
