import PeerCluster.Courier
import PeerCluster.Inbound
import PeerCluster.Proofs.ExchangeRuns
import PeerCluster.Proofs.FrameCodec
import Mathlib.Logic.Function.Basic
import Mathlib.Logic.Relation

/-!
# A courier, a network and the receiver at its other end

**The state** (`World`). Every connection has two directions, and the bytes of a direction are either
still on their way or have arrived. At the far end of every connection stands a receiver of its own.
Two histories are kept along with it: the messages that the courier has begun to write, and the calls
of the listener.

**What happens by itself** (`Moves`). Some bytes arrive; a receiver takes a frame that has arrived,
and the listener decides about it as it likes; a receiver gives up. A connection that is cut is one on
which no more bytes arrive: what was on its way is lost, wherever the cut is.

**What happens to the courier** (`Answers`). A connection is opened or not. A write succeeds, or it
fails after any part of the frame has been written. A wait ends with the frame that has arrived, or
at any time without one, with any part of the arrived bytes lost. Nothing is assumed about when a wait
times out, what the clock shows, or what closing a connection does to its far end.

Everything that a connection goes through is a `Story`, and a world that changes takes the story of
one connection a step further and leaves the others alone.
-/

namespace PeerCluster.Delivery

/-! ## Connections -/

/-- One direction of a connection. -/
structure Pipe where
  /-- The bytes that have arrived and that nobody has read. -/
  arrived : List UInt8 := []
  /-- The bytes that are on their way. -/
  onTheWay : List UInt8 := []

namespace Pipe

def bytes (p : Pipe) : List UInt8 :=
  p.arrived ++ p.onTheWay

def carry (p : Pipe) (n : Nat) : Pipe :=
  ⟨p.arrived ++ p.onTheWay.take n, p.onTheWay.drop n⟩

def put (p : Pipe) (bs : List UInt8) : Pipe :=
  { p with onTheWay := p.onTheWay ++ bs }

/-- What is found at the front of the bytes that have arrived. -/
def front? (p : Pipe) : Option FrameStream.Front :=
  FrameStream.arrived? p.arrived.toByteArray false

@[simp] theorem bytes_carry (p : Pipe) (n : Nat) : (p.carry n).bytes = p.bytes := by
  simp [bytes, carry]

@[simp] theorem bytes_put (p : Pipe) (bs : List UInt8) : (p.put bs).bytes = p.bytes ++ bs := by
  simp [bytes, put]

@[simp] theorem put_nil (p : Pipe) : p.put [] = p := by
  simp [put]

/-- When frames are being read, what is found at the front is the first of them. -/
theorem eq_cons_of_front {p : Pipe} {f : Frame} {rest : FrameStream} {fs : List Frame}
    {more : List UInt8} (hfs : ∀ g ∈ fs, g.Fits) (hbytes : p.bytes ++ more = Frame.bytesOf fs)
    (h : p.front? = some (.frame f rest)) :
    ∃ fs', fs = f :: fs' ∧
      Pipe.bytes { p with arrived := rest.contents } ++ more = Frame.bytesOf fs' := by
  have hwhole : p.arrived.toByteArray.data.toList ++ (p.onTheWay ++ more) = Frame.bytesOf fs := by
    rw [List.toList_data_toByteArray, ← List.append_assoc]
    exact hbytes
  obtain ⟨fs', hcons, hrest⟩ := FrameStream.arrived?_of_prefix hfs hwhole h
  refine ⟨fs', hcons, ?_⟩
  rw [bytes, List.append_assoc]
  exact hrest

theorem bytes_ne_nil_of_front {p : Pipe} {f : Frame} {rest : FrameStream}
    (h : p.front? = some (.frame f rest)) : p.bytes ≠ [] := by
  intro hnil
  have hbytes : p.bytes ++ [] = Frame.bytesOf [] := by simp [hnil]
  obtain ⟨fs', hcons, -⟩ := eq_cons_of_front (by simp) hbytes h
  cases hcons

/-- How a wait for a frame may end, and what it leaves unread. -/
inductive Hears (p : Pipe) : Heard → Pipe → Prop
  | frame {f : Frame} {rest : FrameStream} :
    p.front? = some (.frame f rest) → Hears p (.frame f) { p with arrived := rest.contents }
  | refused {e : WireError} (p' : Pipe) :
    p.front? = some (.failed (.wire e)) → Hears p (.failed (.wire e)) p'
  | broken (fault : IoFault) (p' : Pipe) : Hears p (.failed (.io fault)) p'
  | ended (p' : Pipe) : Hears p .ended p'
  | timedOut (p' : Pipe) : Hears p .timedOut p'

end Pipe

/-- A connection, and how far the receiver at its far end is. -/
structure Line where
  forth : Pipe := {}
  back : Pipe := {}
  phase : Inbound.Phase := .fresh

/-! ## The world -/

/-- A message that the courier has begun to write. -/
structure Attempt where
  link : Link
  /-- How many messages were written on the connection before. -/
  place : Nat
  message : Frame

/-- A call of the listener. -/
structure Call where
  link : Link
  /-- How many messages of the connection were handed over before. -/
  place : Nat
  message : Frame
  receipt : Receipt
  accepted : Bool

/-- All connections of a courier. -/
structure World where
  lines : Link → Line := fun _ => {}
  opened : Nat := 0
  attempts : List Attempt := []
  calls : List Call := []

/-- What has happened on one connection. -/
structure Story where
  line : Line
  attempts : List Attempt
  calls : List Call

namespace World

/-- What has happened on a connection. -/
def story (w : World) (link : Link) : Story :=
  ⟨w.lines link, w.attempts.filter fun a => a.link = link, w.calls.filter fun k => k.link = link⟩

def withLine (w : World) (link : Link) (line : Line) : World :=
  { w with lines := Function.update w.lines link line }

def write (w : World) (link : Link) (f : Frame) (written : List UInt8) : World :=
  let line := w.lines link
  { w.withLine link { line with forth := line.forth.put written } with
    attempts := w.attempts ++
      if f.kind = .message then [⟨link, (w.story link).attempts.length, f⟩] else [] }

/-- The receiver of a connection takes a frame, and the listener accepts the message in it or
not. -/
def serve (w : World) (link : Link) (accepted : Bool) (f : Frame) (rest : List UInt8) : World :=
  let line := w.lines link
  let taken := (Inbound.mk line.phase [] []).take (fun _ _ => accepted) f
  { w.withLine link {
      forth := { line.forth with arrived := rest }
      back := line.back.put (Frame.bytesOf taken.replies.reverse)
      phase := taken.phase } with
    calls := w.calls ++
      taken.receipts.reverse.map fun r => ⟨link, (w.story link).calls.length, f, r, accepted⟩ }

/-- The calls of the listener that an attempt has led to. -/
def callsFor (w : World) (a : Attempt) : List Call :=
  w.calls.filter fun k => k.link = a.link ∧ k.place = a.place

end World

/-! ## What may happen -/

/-- What may happen by itself. -/
inductive Moves : World → World → Prop
  | carryForth (w : World) (link : Link) (n : Nat) :
    Moves w (w.withLine link { w.lines link with forth := (w.lines link).forth.carry n })
  | carryBack (w : World) (link : Link) (n : Nat) :
    Moves w (w.withLine link { w.lines link with back := (w.lines link).back.carry n })
  | serve (w : World) (link : Link) (accepted : Bool) {f : Frame} {rest : FrameStream} :
    (w.lines link).forth.front? = some (.frame f rest) →
      Moves w (w.serve link accepted f rest.contents)
  | giveUp (w : World) (link : Link) (error : Option DeliveryError) :
    Moves w (w.withLine link { w.lines link with phase := .over error })

/-- Any number of things happen by themselves. -/
abbrev Passes : World → World → Prop :=
  Relation.ReflTransGen Moves

/-- How a question of the courier may be answered at once. -/
def Answers (w : World) : (q : Ask) → q.Answer → World → Prop
  | .dial .., Dialled.connected link, w' =>
    link = ⟨w.opened⟩ ∧ w' = { w with opened := w.opened + 1 }
  | .dial .., _, w' => w' = w
  | .write link f _, outcome, w' =>
    ∃ written, written <+: f.bytes ∧ (outcome = Except.ok () → written = f.bytes) ∧
      w' = w.write link f written
  | .read link _, heard, w' =>
    ∃ back, (w.lines link).back.Hears heard back ∧
      w' = w.withLine link { w.lines link with back }
  | .close _, _, w' => w' = w
  | .mark _, _, w' => w' = w
  | .clock, _, w' => w' = w

/-- How a question of the courier may be answered, after other things have happened. -/
def Responds (w : World) (q : Ask) (answer : q.Answer) (w' : World) : Prop :=
  ∃ w₁, Passes w w₁ ∧ Answers w₁ q answer w'

/-- One thing after the other in the life of a courier: something happens by itself, or the courier
is asked to do something and does it. -/
inductive Goes : World × Courier → World × Courier → Prop
  | moves {w w' : World} (c : Courier) : Moves w w' → Goes (w, c) (w', c)
  | sends {w w' : World} {c c' : Courier} {payload : ByteArray} {wait : Bool}
    {result : Except DeliveryError Unit} :
    (c.send payload wait).Runs Responds w (result, c') w' → Goes (w, c) (w', c')
  | connects {w w' : World} {c c' : Courier} {result : Except DeliveryError Link} :
    c.connect.Runs Responds w (result, c') w' → Goes (w, c) (w', c')
  | disconnects {w w' : World} {c c' : Courier} :
    c.disconnect.Runs Responds w c' w' → Goes (w, c) (w', c')
  | recycles (w : World) (c : Courier) (now : Nat) : Goes (w, c) (w, (c.recycle now).2)

/-- The states that a courier gets into that begins without a connection. -/
def Reached (w : World) (c : Courier) : Prop :=
  ∃ c₀ : Courier, c₀.link = none ∧ Relation.ReflTransGen Goes ({}, c₀) (w, c)

/-! ## The story of a connection -/

namespace Story

def write (s : Story) (link : Link) (f : Frame) (written : List UInt8) : Story :=
  { s with
    line := { s.line with forth := s.line.forth.put written }
    attempts := s.attempts ++
      if f.kind = .message then [⟨link, s.attempts.length, f⟩] else [] }

def serve (s : Story) (link : Link) (accepted : Bool) (f : Frame) (rest : List UInt8) : Story :=
  let taken := (Inbound.mk s.line.phase [] []).take (fun _ _ => accepted) f
  { s with
    line := {
      forth := { s.line.forth with arrived := rest }
      back := s.line.back.put (Frame.bytesOf taken.replies.reverse)
      phase := taken.phase }
    calls := s.calls ++
      taken.receipts.reverse.map fun r => ⟨link, s.calls.length, f, r, accepted⟩ }

inductive Moves (link : Link) (s : Story) : Story → Prop
  | stay : Moves link s s
  | carryForth (n : Nat) :
    Moves link s { s with line := { s.line with forth := s.line.forth.carry n } }
  | carryBack (n : Nat) :
    Moves link s { s with line := { s.line with back := s.line.back.carry n } }
  | serve (accepted : Bool) {f : Frame} {rest : FrameStream} :
    s.line.forth.front? = some (.frame f rest) →
      Moves link s (s.serve link accepted f rest.contents)
  | giveUp (error : Option DeliveryError) :
    Moves link s { s with line := { s.line with phase := .over error } }

end Story

namespace World

theorem story_withLine_self (w : World) (link : Link) (line : Line) :
    (w.withLine link line).story link = { w.story link with line } := by
  simp [story, withLine]

theorem story_withLine_of_ne (w : World) {link link' : Link} (line : Line) (h : link' ≠ link) :
    (w.withLine link line).story link' = w.story link' := by
  simp [story, withLine, Function.update_of_ne h]

theorem story_write_self (w : World) (link : Link) (f : Frame) (written : List UInt8) :
    (w.write link f written).story link = (w.story link).write link f written := by
  by_cases hkind : f.kind = .message <;> simp [story, write, withLine, Story.write, hkind]

theorem story_write_of_ne (w : World) {link link' : Link} (f : Frame) (written : List UInt8)
    (h : link' ≠ link) : (w.write link f written).story link' = w.story link' := by
  by_cases hkind : f.kind = .message <;>
    simp [story, write, withLine, Function.update_of_ne h, hkind, h.symm]

theorem story_serve_self (w : World) (link : Link) (accepted : Bool) (f : Frame)
    (rest : List UInt8) :
    (w.serve link accepted f rest).story link = (w.story link).serve link accepted f rest := by
  simp [story, serve, withLine, Story.serve]

theorem story_serve_of_ne (w : World) {link link' : Link} (accepted : Bool) (f : Frame)
    (rest : List UInt8) (h : link' ≠ link) :
    (w.serve link accepted f rest).story link' = w.story link' := by
  simp [story, serve, withLine, Function.update_of_ne h, h.symm]

end World

/-- What happens by itself happens on one connection, and the others are left alone. -/
theorem Moves.story {w w' : World} (h : Moves w w') (link : Link) :
    Story.Moves link (w.story link) (w'.story link) := by
  cases h with
  | carryForth link' n =>
    by_cases hlink : link = link'
    · subst hlink
      rw [World.story_withLine_self]
      exact .carryForth n
    · rw [World.story_withLine_of_ne w _ hlink]
      exact .stay
  | carryBack link' n =>
    by_cases hlink : link = link'
    · subst hlink
      rw [World.story_withLine_self]
      exact .carryBack n
    · rw [World.story_withLine_of_ne w _ hlink]
      exact .stay
  | serve link' accepted hfront =>
    by_cases hlink : link = link'
    · subst hlink
      rw [World.story_serve_self]
      exact .serve accepted hfront
    · rw [World.story_serve_of_ne w _ _ _ hlink]
      exact .stay
  | giveUp link' error =>
    by_cases hlink : link = link'
    · subst hlink
      rw [World.story_withLine_self]
      exact .giveUp error
    · rw [World.story_withLine_of_ne w _ hlink]
      exact .stay

/-- What one step of the story of a connection keeps is kept while time passes. -/
theorem Passes.story {w w' : World} {link : Link} {P : Story → Prop}
    (hP : ∀ s s', Story.Moves link s s' → P s → P s') (h : Passes w w') (hw : P (w.story link)) :
    P (w'.story link) := by
  induction h with
  | refl => exact hw
  | tail _ hmove ih => exact hP _ _ (hmove.story link) ih

/-! ## Questions that change nothing -/

variable {α : Type} {w w' : World} {a : α}

theorem runs_close_iff {link : Link} {f : Unit → Exchange α} :
    (bind (α := Unit) (Exchange.request (.close link)) f).Runs Responds w a w' ↔
      ∃ w₁, Passes w w₁ ∧ (f ()).Runs Responds w₁ a w' := by
  rw [Exchange.runs_bind_iff]
  constructor
  · intro h
    rcases h with ⟨_, _, hclose, hrun⟩
    obtain ⟨w₁, hpasses, rfl⟩ := (Exchange.runs_request_iff (q := .close link)).1 hclose
    exact ⟨_, hpasses, hrun⟩
  · intro h
    rcases h with ⟨w₁, hpasses, hrun⟩
    exact ⟨(), w₁, (Exchange.runs_request_iff (q := .close link)).2 ⟨w₁, hpasses, rfl⟩, hrun⟩

theorem runs_mark_iff {health : Health} {f : Unit → Exchange α} :
    (bind (α := Unit) (Exchange.request (.mark health)) f).Runs Responds w a w' ↔
      ∃ w₁, Passes w w₁ ∧ (f ()).Runs Responds w₁ a w' := by
  rw [Exchange.runs_bind_iff]
  constructor
  · intro h
    rcases h with ⟨_, _, hmark, hrun⟩
    obtain ⟨w₁, hpasses, rfl⟩ := (Exchange.runs_request_iff (q := .mark health)).1 hmark
    exact ⟨_, hpasses, hrun⟩
  · intro h
    rcases h with ⟨w₁, hpasses, hrun⟩
    exact ⟨(), w₁, (Exchange.runs_request_iff (q := .mark health)).2 ⟨w₁, hpasses, rfl⟩, hrun⟩

/-! ## What the courier has done -/

/-- Between two worlds the courier has made exactly the given attempts. -/
structure Does (made : List Attempt) (w w' : World) : Prop where
  opened : w.opened ≤ w'.opened
  attempts : w'.attempts = w.attempts ++ made
  calls : w.calls <+: w'.calls
  /-- No attempt is made on a connection that a newer one has replaced. -/
  newest : ∀ a ∈ made, w.opened ≤ a.link.number + 1

theorem Does.refl (w : World) : Does [] w w :=
  ⟨Nat.le_refl _, (List.append_nil _).symm, List.prefix_rfl, nofun⟩

theorem Does.trans {w w' w'' : World} {made made' : List Attempt} (h : Does made w w')
    (h' : Does made' w' w'') : Does (made ++ made') w w'' :=
  ⟨Nat.le_trans h.opened h'.opened, by rw [h'.attempts, h.attempts, List.append_assoc],
    h.calls.trans h'.calls, fun a ha => (List.mem_append.1 ha).elim (h.newest a)
      fun ha => Nat.le_trans h.opened (h'.newest a ha)⟩

theorem does_withLine (w : World) (link : Link) (line : Line) :
    Does [] w (w.withLine link line) :=
  ⟨Nat.le_refl _, (List.append_nil _).symm, List.prefix_rfl, nofun⟩

theorem does_write_greeting (w : World) (link : Link) (h : Handshake) (written : List UInt8) :
    Does [] w (w.write link (.ofHandshake h) written) :=
  ⟨Nat.le_refl _, rfl, List.prefix_rfl, nofun⟩

theorem does_write_message {w : World} {link : Link} {f : Frame}
    (hnewest : link.number + 1 = w.opened) (hkind : f.kind = .message) (written : List UInt8) :
    Does [⟨link, (w.story link).attempts.length, f⟩] w (w.write link f written) := by
  refine ⟨Nat.le_refl _, ?_, List.prefix_rfl, fun a ha => ?_⟩
  · show w.attempts ++ (if f.kind = .message then _ else _) = _
    rw [if_pos hkind]
  · rw [List.mem_singleton.1 ha]
    exact Nat.le_of_eq hnewest.symm

theorem Moves.does {w w' : World} (h : Moves w w') : w'.opened = w.opened ∧ Does [] w w' := by
  cases h with
  | carryForth | carryBack | giveUp => exact ⟨rfl, does_withLine w _ _⟩
  | serve => exact ⟨rfl, Nat.le_refl _, (List.append_nil _).symm, List.prefix_append _ _, nofun⟩

theorem Passes.does {w w' : World} (h : Passes w w') : w'.opened = w.opened ∧ Does [] w w' := by
  induction h with
  | refl => exact ⟨rfl, .refl _⟩
  | tail _ hmove ih => exact ⟨hmove.does.1.trans ih.1, ih.2.trans hmove.does.2⟩

end PeerCluster.Delivery
