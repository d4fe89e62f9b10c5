import PeerCluster.Proofs.Connections
import PeerCluster.Proofs.HandshakeCodec

/-!
# Both ends of a connection are in step

**Every connection** (`Sound`). What the receiver has not read is the beginning of the frames that it
has not taken, even if the last write was cut. So the receiver takes the greeting first and then the
messages, in order, and the listener is given a beginning of them (`Sound.serve`).

**The connection that a courier holds** (`InStep`). No write was cut, and as many answers have been
read as were asked for, but for the latest one. Then what is on its way back are exactly the answers
that have not been read. While one answer is awaited, any frame that arrives must be that answer, and
the listener must have been called for the latest message (`InStep.hears`). No older answer can be
mistaken for it.

A connection on which a write has failed, or a wait has ended without an answer, is still sound but
no longer in step. The courier never writes on it again.
-/

namespace PeerCluster.Delivery

namespace Story

variable {caller : Handshake} {s s' : Story}

/-! ## What the courier has written and what the receiver makes of it -/

/-- The messages that the courier has begun to write. -/
def messages (s : Story) : List Frame :=
  s.attempts.map Attempt.message

/-- How many of the messages ask for an answer. -/
def asked (s : Story) : Nat :=
  s.messages.countP Frame.asksForAck

/-- The answers of the receiver. -/
def replies (s : Story) : List Frame :=
  (s.calls.filter fun k => k.message.asksForAck).map fun k => .reply k.accepted k.message.id

/-- The frames that the receiver has not taken yet. -/
def unread (caller : Handshake) (s : Story) : List Frame :=
  match s.line.phase with
  | .fresh => .ofHandshake caller :: s.messages
  | .known _ => s.messages.drop s.calls.length
  | .over _ => []

theorem unread_of_fresh (h : s.line.phase = .fresh) :
    s.unread caller = .ofHandshake caller :: s.messages := by
  rw [unread, h]

theorem unread_of_known {source : Member} (h : s.line.phase = .known source) :
    s.unread caller = s.messages.drop s.calls.length := by
  rw [unread, h]

def IsOpen (s : Story) : Prop :=
  ∀ error, s.line.phase ≠ .over error

theorem isOpen_of_fresh (h : s.line.phase = .fresh) : s.IsOpen := by
  intro error herror
  rw [h] at herror
  cases herror

theorem isOpen_of_known {source : Member} (h : s.line.phase = .known source) : s.IsOpen := by
  intro error herror
  rw [h] at herror
  cases herror

/-- What holds of every connection at any time. -/
structure Sound (caller : Handshake) (s : Story) : Prop where
  attempts_places : s.attempts.map Attempt.place = List.range s.attempts.length
  calls_places : s.calls.map Call.place = List.range s.calls.length
  message : ∀ f ∈ s.messages, f.kind = .message ∧ f.Fits
  /-- The listener is given the messages in order. -/
  called : s.calls.map Call.message <+: s.messages
  receipt : ∀ k ∈ s.calls, k.receipt = ⟨k.message.body, caller.toMember⟩
  fresh : s.line.phase = .fresh → s.calls = []
  known : ∀ source, s.line.phase = .known source → source = caller.toMember
  greeting : (Frame.ofHandshake caller).Fits ∨ s.line.forth.bytes = []
  /-- What the receiver has not read is the beginning of the frames that it has not taken. -/
  unread : s.IsOpen → s.line.forth.bytes <+: Frame.bytesOf (s.unread caller)

/-- What holds of a connection on which every write has succeeded and `r` answers have been read. -/
structure InStep (caller : Handshake) (r : Nat) (s : Story) : Prop where
  greeting : (Frame.ofHandshake caller).Fits
  forth : s.IsOpen → s.line.forth.bytes = Frame.bytesOf (s.unread caller)
  read_le : r ≤ s.replies.length
  back : s.line.back.bytes = Frame.bytesOf (s.replies.drop r)

/-- What holds of a connection before anything has been written on it. -/
structure Blank (s : Story) : Prop where
  forth : s.line.forth.bytes = []
  back : s.line.back.bytes = []
  attempts : s.attempts = []
  calls : s.calls = []
  phase : ∀ source, s.line.phase ≠ .known source

/-! ## The receiver takes a frame -/

theorem serve_of_fresh {link : Link} {accepted : Bool} {f : Frame} {rest : List UInt8}
    (h : s.line.phase = .fresh) :
    s.serve link accepted f rest =
      { s with line := {
          forth := { s.line.forth with arrived := rest }
          back := s.line.back
          phase := match f.handshake with
            | .ok h => .known h.toMember
            | .error e => .over (some (.wire e)) } } := by
  simp only [serve, h, Inbound.take]
  cases f.handshake <;> simp

theorem serve_of_known {link : Link} {accepted : Bool} {f : Frame} {rest : List UInt8}
    {source : Member} (h : s.line.phase = .known source) (hkind : f.kind = .message) :
    s.serve link accepted f rest =
      { s with
        line := {
          forth := { s.line.forth with arrived := rest }
          back := s.line.back.put
            (Frame.bytesOf (if f.asksForAck then [.reply accepted f.id] else []))
          phase := .known source }
        calls := s.calls ++ [⟨link, s.calls.length, f, ⟨f.body, source⟩, accepted⟩] } := by
  simp only [serve, h, Inbound.take, hkind, if_true, Inbound.hand]
  cases f.asksForAck <;> simp

theorem serve_of_over {link : Link} {accepted : Bool} {f : Frame} {rest : List UInt8}
    {error : Option DeliveryError} (h : s.line.phase = .over error) :
    s.serve link accepted f rest =
      { s with line := { s.line with forth := { s.line.forth with arrived := rest } } } := by
  simp [serve, h, Inbound.take]

theorem Sound.messages_eq (h : Sound caller s) :
    s.messages = s.calls.map Call.message ++ s.messages.drop s.calls.length := by
  obtain ⟨behind, hbehind⟩ := h.called
  have hdrop : s.messages.drop s.calls.length = behind := by
    rw [← hbehind, ← s.calls.length_map Call.message, List.drop_left]
  rw [hdrop, hbehind]

/-- The next frame that the receiver takes is the first one that it has not taken. What it has not
read afterwards is the beginning of the others. -/
theorem Sound.front {f : Frame} {rest : FrameStream} {more : List UInt8} (h : Sound caller s)
    (hfront : s.line.forth.front? = some (.frame f rest))
    (hbytes : s.line.forth.bytes ++ more = Frame.bytesOf (s.unread caller)) :
    ∃ fs, s.unread caller = f :: fs ∧
      Pipe.bytes { s.line.forth with arrived := rest.contents } ++ more = Frame.bytesOf fs := by
  refine Pipe.eq_cons_of_front (fun g hg => ?_) hbytes hfront
  have hgreeting := h.greeting.resolve_right (Pipe.bytes_ne_nil_of_front hfront)
  rw [Story.unread] at hg
  split at hg
  · rcases List.mem_cons.1 hg with rfl | hg
    · exact hgreeting
    · exact (h.message g hg).2
  · exact (h.message g (List.mem_of_mem_drop hg)).2
  · cases hg

/-- Every frame that the receiver takes keeps the connection sound. -/
theorem Sound.serve {link : Link} {accepted : Bool} {f : Frame} {rest : FrameStream}
    (h : Sound caller s) (hfront : s.line.forth.front? = some (.frame f rest)) :
    Sound caller (s.serve link accepted f rest.contents) := by
  have hgreeting := h.greeting.resolve_right (Pipe.bytes_ne_nil_of_front hfront)
  cases hphase : s.line.phase with
  | «over» error =>
    rw [serve_of_over hphase]
    exact { h with
      greeting := .inl hgreeting
      unread := fun hopen => absurd hphase (hopen error) }
  | fresh =>
    obtain ⟨more, hbytes⟩ := h.unread (isOpen_of_fresh hphase)
    obtain ⟨fs, hunread, hrest⟩ := h.front hfront hbytes
    rw [unread_of_fresh hphase] at hunread
    obtain ⟨rfl, rfl⟩ := List.cons.inj hunread
    rw [serve_of_fresh hphase, Frame.handshake_ofHandshake]
    by_cases htype : caller.type = Handshake.typeName
    · rw [if_pos htype]
      refine { h with fresh := nofun, known := ?_, greeting := .inl hgreeting, unread := ?_ }
      · intro source hsource
        cases hsource
        rfl
      · intro _
        show _ <+: Frame.bytesOf (s.messages.drop s.calls.length)
        rw [h.fresh hphase]
        exact ⟨more, hrest⟩
    · rw [if_neg htype]
      refine { h with fresh := nofun, known := nofun, greeting := .inl hgreeting, unread := ?_ }
      intro hopen
      exact absurd rfl (hopen _)
  | known source =>
    obtain ⟨more, hbytes⟩ := h.unread (isOpen_of_known hphase)
    obtain ⟨fs, hunread, hrest⟩ := h.front hfront hbytes
    rw [unread_of_known hphase] at hunread
    have hmessages := h.messages_eq
    rw [hunread] at hmessages
    have hkind : f.kind = .message := (h.message f (by rw [hmessages]; simp)).1
    have hsource := h.known source hphase
    rw [serve_of_known hphase hkind]
    refine { h with
      calls_places := ?_, called := ?_, receipt := ?_, fresh := nofun, known := ?_,
      greeting := .inl hgreeting, unread := ?_ }
    · rw [List.map_append, h.calls_places, List.length_append, List.length_singleton,
        List.range_succ]
      rfl
    · refine ⟨fs, ?_⟩
      show (s.calls ++ [_]).map Call.message ++ fs = s.messages
      rw [List.map_append, List.append_assoc]
      exact hmessages.symm
    · intro k hk
      rcases List.mem_append.1 hk with hk | hk
      · exact h.receipt k hk
      · rw [List.mem_singleton.1 hk, hsource]
    · intro source' hsource'
      cases hsource'
      exact hsource
    · intro _
      show _ <+: Frame.bytesOf (s.messages.drop (s.calls ++ [_]).length)
      rw [List.length_append, ← List.drop_drop, hunread]
      exact ⟨more, hrest⟩

theorem InStep.serve {r : Nat} {link : Link} {accepted : Bool} {f : Frame} {rest : FrameStream}
    (hsound : Sound caller s) (h : InStep caller r s)
    (hfront : s.line.forth.front? = some (.frame f rest)) :
    InStep caller r (s.serve link accepted f rest.contents) := by
  cases hphase : s.line.phase with
  | «over» error =>
    rw [serve_of_over hphase]
    exact { h with forth := fun hopen => absurd hphase (hopen error) }
  | fresh =>
    have hbytes := h.forth (isOpen_of_fresh hphase)
    rw [← List.append_nil s.line.forth.bytes] at hbytes
    obtain ⟨fs, hunread, hrest⟩ := hsound.front hfront hbytes
    rw [unread_of_fresh hphase] at hunread
    obtain ⟨rfl, rfl⟩ := List.cons.inj hunread
    rw [List.append_nil] at hrest
    rw [serve_of_fresh hphase, Frame.handshake_ofHandshake]
    by_cases htype : caller.type = Handshake.typeName
    · rw [if_pos htype]
      refine { h with forth := fun _ => ?_ }
      show _ = Frame.bytesOf (s.messages.drop s.calls.length)
      rw [hsound.fresh hphase]
      exact hrest
    · rw [if_neg htype]
      exact { h with forth := fun hopen => absurd rfl (hopen _) }
  | known source =>
    have hbytes := h.forth (isOpen_of_known hphase)
    rw [← List.append_nil s.line.forth.bytes] at hbytes
    obtain ⟨fs, hunread, hrest⟩ := hsound.front hfront hbytes
    rw [unread_of_known hphase] at hunread
    rw [List.append_nil] at hrest
    have hmem : f ∈ s.messages := by
      rw [hsound.messages_eq, hunread]
      simp
    have hkind : f.kind = .message := (hsound.message f hmem).1
    rw [serve_of_known hphase hkind]
    have hreplies : ∀ (line : Line) (call : Call), call.message = f → call.accepted = accepted →
        replies ⟨line, s.attempts, s.calls ++ [call]⟩ =
          s.replies ++ if f.asksForAck then [.reply accepted f.id] else [] := by
      intro line call hmessage haccepted
      cases hasks : f.asksForAck <;>
        simp [replies, hmessage, haccepted, hasks]
    refine { h with forth := fun _ => ?_, read_le := ?_, back := ?_ }
    · show _ = Frame.bytesOf (s.messages.drop (s.calls ++ [_]).length)
      rw [List.length_append, ← List.drop_drop, hunread]
      exact hrest
    · rw [hreplies _ _ rfl rfl, List.length_append]
      exact Nat.le_add_right_of_le h.read_le
    · rw [hreplies _ _ rfl rfl, List.drop_append_of_le_length h.read_le, Frame.bytesOf_append,
        Pipe.bytes_put, h.back]

/-! ## What happens by itself -/

variable {link : Link}

theorem Sound.moves (h : Sound caller s) (hmoves : Story.Moves link s s') : Sound caller s' := by
  cases hmoves with
  | stay => exact h
  | carryForth n =>
    exact { h with
      greeting := h.greeting.imp_right fun hnil => (Pipe.bytes_carry _ n).trans hnil
      unread := fun hopen => by
        rw [Pipe.bytes_carry]
        exact h.unread hopen }
  | carryBack n => exact { h with }
  | serve accepted hfront => exact h.serve hfront
  | giveUp error =>
    exact { h with
      fresh := nofun
      known := nofun
      unread := fun hopen => absurd rfl (hopen error) }

theorem InStep.moves {r : Nat} (hsound : Sound caller s) (h : InStep caller r s)
    (hmoves : Story.Moves link s s') : InStep caller r s' := by
  cases hmoves with
  | stay => exact h
  | carryForth n =>
    exact { h with
      forth := fun hopen => by
        rw [Pipe.bytes_carry]
        exact h.forth hopen }
  | carryBack n =>
    exact { h with
      back := by
        rw [Pipe.bytes_carry]
        exact h.back }
  | serve accepted hfront => exact h.serve hsound hfront
  | giveUp error => exact { h with forth := fun hopen => absurd rfl (hopen error) }

theorem Blank.moves (h : Blank s) (hmoves : Story.Moves link s s') : Blank s' := by
  cases hmoves with
  | stay => exact h
  | carryForth n => exact { h with forth := (Pipe.bytes_carry _ n).trans h.forth }
  | carryBack n => exact { h with back := (Pipe.bytes_carry _ n).trans h.back }
  | serve accepted hfront => exact absurd h.forth (Pipe.bytes_ne_nil_of_front hfront)
  | giveUp error => exact { h with phase := nofun }

/-! ## The courier writes -/

theorem blank_initial : Blank ⟨{}, [], []⟩ :=
  ⟨rfl, rfl, rfl, rfl, nofun⟩

theorem sound_initial (caller : Handshake) : Sound caller ⟨{}, [], []⟩ where
  attempts_places := rfl
  calls_places := rfl
  message := nofun
  called := List.prefix_rfl
  receipt := nofun
  fresh := fun _ => rfl
  known := nofun
  greeting := .inr rfl
  unread := fun _ => List.nil_prefix

theorem write_greeting (written : List UInt8) :
    s.write link (.ofHandshake caller) written =
      { s with line := { s.line with forth := s.line.forth.put written } } := by
  have hkind : (Frame.ofHandshake caller).kind ≠ .message := nofun
  simp [write, hkind]

theorem write_message {f : Frame} (hkind : f.kind = .message) (written : List UInt8) :
    s.write link f written =
      { s with
        line := { s.line with forth := s.line.forth.put written }
        attempts := s.attempts ++ [⟨link, s.attempts.length, f⟩] } := by
  simp [write, hkind]

theorem asked_greeting (written : List UInt8) :
    (s.write link (.ofHandshake caller) written).asked = s.asked := by
  rw [write_greeting]
  rfl

theorem asked_of_blank (h : Blank s) : s.asked = 0 := by
  rw [asked, messages, h.attempts]
  rfl

/-- The greeting may be cut anywhere. -/
theorem Blank.sound_greeting {written : List UInt8} (h : Blank s) (hsound : Sound caller s)
    (hfits : (Frame.ofHandshake caller).Fits)
    (hwritten : written <+: (Frame.ofHandshake caller).bytes) :
    Sound caller (s.write link (.ofHandshake caller) written) := by
  rw [write_greeting]
  refine { hsound with greeting := .inl hfits, unread := fun hopen => ?_ }
  rw [Pipe.bytes_put, h.forth, List.nil_append]
  cases hphase : s.line.phase with
  | fresh =>
    show written <+: Frame.bytesOf (s.unread caller)
    rw [unread_of_fresh hphase]
    exact hwritten.trans (List.prefix_append _ _)
  | known source => exact absurd hphase (h.phase source)
  | «over» error => exact absurd hphase (hopen error)

theorem Blank.inStep_greeting (h : Blank s) (hfits : (Frame.ofHandshake caller).Fits) :
    InStep caller 0 (s.write link (.ofHandshake caller) (Frame.ofHandshake caller).bytes) := by
  rw [write_greeting]
  have hmessages : s.messages = [] := by rw [messages, h.attempts, List.map_nil]
  have hreplies : s.replies = [] := by rw [replies, h.calls]; rfl
  refine ⟨hfits, fun hopen => ?_, Nat.zero_le _, ?_⟩
  · rw [Pipe.bytes_put, h.forth, List.nil_append]
    cases hphase : s.line.phase with
    | fresh =>
      show _ = Frame.bytesOf (s.unread caller)
      rw [unread_of_fresh hphase, hmessages]
      simp
    | known source => exact absurd hphase (h.phase source)
    | «over» error => exact absurd hphase (hopen error)
  · show s.line.back.bytes = Frame.bytesOf (s.replies.drop 0)
    rw [h.back, hreplies]
    rfl

theorem unread_write (link : Link) {f : Frame} (hsound : Sound caller s) (hopen : s.IsOpen)
    (hkind : f.kind = .message) (written : List UInt8) :
    (s.write link f written).unread caller = s.unread caller ++ [f] := by
  have hphase' : (s.write link f written).line.phase = s.line.phase := rfl
  have hmessages : (s.write link f written).messages = s.messages ++ [f] := by
    rw [write_message hkind]
    simp [messages]
  have hlength : s.calls.length ≤ s.messages.length := by
    rw [← s.calls.length_map Call.message]
    exact hsound.called.length_le
  cases hphase : s.line.phase with
  | fresh =>
    rw [unread_of_fresh (hphase'.trans hphase), unread_of_fresh hphase, hmessages]
    rfl
  | known source =>
    rw [unread_of_known (hphase'.trans hphase), unread_of_known hphase, hmessages]
    exact List.drop_append_of_le_length hlength
  | «over» error => exact absurd hphase (hopen error)

theorem asked_write {f : Frame} (hkind : f.kind = .message) (written : List UInt8) :
    (s.write link f written).asked = if f.asksForAck then s.asked + 1 else s.asked := by
  rw [write_message hkind, asked, messages, List.map_append, List.countP_append, List.map_singleton,
    List.countP_singleton]
  split <;> rfl

/-- A message may be cut anywhere if the connection was in step before. -/
theorem Sound.write {r : Nat} {f : Frame} {written : List UInt8} (hsound : Sound caller s)
    (h : InStep caller r s) (hkind : f.kind = .message) (hfits : f.Fits)
    (hwritten : written <+: f.bytes) : Sound caller (s.write link f written) := by
  have hunread := fun hopen => unread_write link hsound hopen hkind written
  have hforth := h.forth
  rw [write_message hkind] at hunread ⊢
  refine { hsound with
    attempts_places := ?_, message := ?_, called := ?_, greeting := .inl h.greeting, unread := ?_ }
  · rw [List.map_append, hsound.attempts_places, List.length_append, List.length_singleton,
      List.range_succ]
    rfl
  · intro g hg
    rw [messages, List.map_append, List.mem_append] at hg
    rcases hg with hg | hg
    · exact hsound.message g hg
    · rw [List.mem_singleton.1 hg]
      exact ⟨hkind, hfits⟩
  · rw [messages, List.map_append]
    exact hsound.called.trans (List.prefix_append _ _)
  · intro hopen
    rw [hunread hopen, Pipe.bytes_put, hforth hopen, Frame.bytesOf_append]
    obtain ⟨more, hmore⟩ := hwritten
    refine ⟨more, ?_⟩
    rw [List.append_assoc, hmore, Frame.bytesOf_cons, Frame.bytesOf_nil, List.append_nil]

theorem InStep.write {r : Nat} {f : Frame} (hsound : Sound caller s) (h : InStep caller r s)
    (hkind : f.kind = .message) : InStep caller r (s.write link f f.bytes) := by
  have hunread := fun hopen => unread_write link hsound hopen hkind f.bytes
  rw [write_message hkind] at hunread ⊢
  refine { h with forth := fun hopen => ?_ }
  rw [hunread hopen, Pipe.bytes_put, h.forth hopen, Frame.bytesOf_append]
  simp

/-! ## The courier reads -/

/-- There are as many answers as messages that ask for one, but for those that the listener has not
been given. -/
theorem Sound.length_replies (h : Sound caller s) :
    s.replies.length + (s.messages.drop s.calls.length).countP Frame.asksForAck = s.asked := by
  have hcount := congrArg (List.countP Frame.asksForAck) h.messages_eq
  rw [List.countP_append, List.countP_map] at hcount
  rw [replies, List.length_map, ← List.countP_eq_length_filter]
  exact hcount.symm

/-- When every answer has been given, the listener has been given the latest message, if that asks
for an answer. -/
theorem Sound.called_last {before : List Attempt} {a : Attempt} (h : Sound caller s)
    (hattempts : s.attempts = before ++ [a]) (hasks : a.message.asksForAck)
    (hall : s.replies.length = s.asked) :
    ∃ front k, s.calls = front ++ [k] ∧ k.place = a.place ∧ k.message = a.message := by
  have hcount := h.length_replies
  have hmessages : s.messages = before.map Attempt.message ++ [a.message] := by
    rw [messages, hattempts, List.map_append, List.map_singleton]
  have hnone : s.messages.drop s.calls.length = [] := by
    rcases List.eq_nil_or_concat (s.messages.drop s.calls.length) with hnil | ⟨front, f, hconcat⟩
    · exact hnil
    · rw [List.concat_eq_append] at hconcat
      have hlast := h.messages_eq
      rw [hconcat, hmessages, ← List.append_assoc] at hlast
      obtain rfl : a.message = f := by
        have hboth := congrArg List.getLast? hlast
        rw [List.getLast?_concat, List.getLast?_concat] at hboth
        exact Option.some.inj hboth
      rw [hconcat, List.countP_append, List.countP_singleton, if_pos hasks] at hcount
      omega
  have hcalled := h.messages_eq
  rw [hnone, List.append_nil, hmessages] at hcalled
  rcases List.eq_nil_or_concat s.calls with hnil | ⟨front, k, hconcat⟩
  · rw [hnil] at hcalled
    simp at hcalled
  · rw [List.concat_eq_append] at hconcat
    rw [hconcat, List.map_append, List.map_singleton] at hcalled
    have hlength : before.length = front.length := by
      have hboth := congrArg List.length hcalled
      simpa using hboth
    have hmessage := congrArg List.getLast? hcalled
    have hplace := congrArg List.getLast? h.attempts_places
    have hplace' := congrArg List.getLast? h.calls_places
    rw [hattempts] at hplace
    rw [hconcat] at hplace'
    simp only [List.map_append, List.map_singleton, List.getLast?_concat, List.length_append,
      List.length_singleton, List.range_succ, Option.some.injEq] at hmessage hplace hplace'
    exact ⟨front, k, hconcat, by rw [hplace, hplace', hlength], hmessage.symm⟩

theorem fits_reply (accepted : Bool) (id : UInt64) : (Frame.reply accepted id).Fits := by
  cases accepted <;> exact Nat.le_of_ble_eq_true rfl

theorem fits_of_mem_replies {f : Frame} (h : f ∈ s.replies) : f.Fits := by
  obtain ⟨k, -, rfl⟩ := List.mem_map.1 h
  exact fits_reply _ _

/-- The frame that arrives while one answer is awaited is the answer to the latest message. -/
theorem InStep.hears {r : Nat} {before : List Attempt} {a : Attempt} {f : Frame}
    {rest : FrameStream} (hsound : Sound caller s) (h : InStep caller r s)
    (hattempts : s.attempts = before ++ [a]) (hasks : a.message.asksForAck)
    (hasked : s.asked = r + 1) (hfront : s.line.back.front? = some (.frame f rest)) :
    (∃ k ∈ s.calls, k.place = a.place ∧ k.message = a.message ∧
      f = .reply k.accepted a.message.id) ∧
      InStep caller (r + 1)
        { s with line := { s.line with back := { s.line.back with arrived := rest.contents } } } := by
  have hcount := hsound.length_replies
  have hbytes : s.line.back.bytes ++ [] = Frame.bytesOf (s.replies.drop r) := by
    rw [List.append_nil, h.back]
  obtain ⟨fs, hcons, hrest⟩ := Pipe.eq_cons_of_front
    (fun g hg => fits_of_mem_replies (List.mem_of_mem_drop hg)) hbytes hfront
  have hlength := congrArg List.length hcons
  rw [List.length_drop, List.length_cons] at hlength
  obtain rfl : fs = [] := List.eq_nil_of_length_eq_zero (by omega)
  have hreplies : s.replies = s.replies.take r ++ [f] := by
    rw [← hcons, List.take_append_drop]
  obtain ⟨front, k, hcalls, hplace, hmessage⟩ :=
    hsound.called_last hattempts hasks (by omega)
  refine ⟨⟨k, by rw [hcalls]; simp, hplace, hmessage, ?_⟩, { h with read_le := ?_, back := ?_ }⟩
  · have hlast := congrArg List.getLast? hreplies
    rw [List.getLast?_concat, replies, hcalls] at hlast
    simp only [List.filter_append, hmessage, hasks, List.map_append, List.filter_cons_of_pos,
      List.filter_nil, List.map_singleton, List.getLast?_concat, Option.some.injEq] at hlast
    exact hlast.symm
  · show r + 1 ≤ s.replies.length
    omega
  · show _ = Frame.bytesOf (s.replies.drop (r + 1))
    rw [List.drop_of_length_le (by omega)]
    rw [List.append_nil] at hrest
    exact hrest

end Story

end PeerCluster.Delivery
