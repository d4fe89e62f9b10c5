import PeerCluster.Proofs.CourierPlans

/-!
# The world of one peer

**Plans that agree** (`Exchange.Agrees`). A courier reads the clock only to note when it has used its
connection. So two couriers that differ at most in that note (`Courier.Twins`) ask the same of their
peer, whatever their clocks say, and come to the same (`Courier.agrees_send`).

**A peer** (`Peer`) answers by what has been asked of it before, and by nothing else. In its world
plans that agree have one outcome only (`Peer.runs_agree`), even though the clock may say anything.
-/

namespace PeerCluster

open Exchange

/-! ## Plans that agree -/

namespace Exchange

variable {α β α' β' : Type}

/-- Two plans that ask the same and come to related results, though the clock may answer them
differently. -/
inductive Agrees (related : α → β → Prop) : Exchange α → Exchange β → Prop
  | done {a : α} {b : β} : related a b → Agrees related (.done a) (.done b)
  | ask {q : Ask} {next : q.Answer → Exchange α} {next' : q.Answer → Exchange β} :
    (∀ answer answer', (q ≠ .clock → answer = answer') →
      Agrees related (next answer) (next' answer')) →
    Agrees related (.ask q next) (.ask q next')

variable {related : α → β → Prop} {related' : α' → β' → Prop}

theorem Agrees.bind {x : Exchange α} {y : Exchange β} {f : α → Exchange α'} {g : β → Exchange β'}
    (h : Agrees related x y) (hnext : ∀ a b, related a b → Agrees related' (f a) (g b)) :
    Agrees related' (x >>= f) (y >>= g) := by
  induction h with
  | done hab => exact hnext _ _ hab
  | ask _ ih => exact .ask ih

/-- The clock is read, and what follows does not depend on it. -/
theorem agrees_clock {f : Nat → Exchange α} {g : Nat → Exchange β}
    (h : ∀ now now', Agrees related (f now) (g now')) :
    Agrees related (request .clock >>= f) (request .clock >>= g) :=
  .ask fun now now' _ => h now now'

/-- Something else is asked, and both plans go on with the answer. -/
theorem agrees_request {q : Ask} {f : q.Answer → Exchange α} {g : q.Answer → Exchange β}
    (hq : q ≠ .clock) (h : ∀ answer, Agrees related (f answer) (g answer)) :
    Agrees related (request q >>= f) (request q >>= g) :=
  .ask fun answer _ hsame => hsame hq ▸ h answer

end Exchange

/-! ## The plans of a courier -/

namespace Courier

/-- Two couriers that differ at most in when they have used their connection. -/
def Twins (c c' : Courier) : Prop :=
  ∃ used, c' = { c with lastUsed := used }

/-- Equal outcomes, with couriers that are twins. -/
def SameOutcome {ρ : Type} (x y : ρ × Courier) : Prop :=
  x.1 = y.1 ∧ x.2.Twins y.2

variable {c c' : Courier}

theorem Twins.refl (c : Courier) : c.Twins c :=
  ⟨c.lastUsed, rfl⟩

theorem agrees_dial (h : c.Twins c') : Agrees Eq c.dial c'.dial := by
  obtain ⟨used, rfl⟩ := h
  rw [dial, dial]
  refine agrees_request (by simp) fun dialled => ?_
  cases dialled with
  | timedOut => exact .done rfl
  | failed fault => exact .done rfl
  | connected link =>
    dsimp only
    split
    · exact agrees_request (by simp) fun _ => .done rfl
    · refine agrees_request (by simp) fun written => ?_
      cases written with
      | ok u => exact .done rfl
      | error fault => exact agrees_request (by simp) fun _ => .done rfl

theorem agrees_connect (h : c.Twins c') : Agrees SameOutcome c.connect c'.connect := by
  have hdial := agrees_dial h
  obtain ⟨used, rfl⟩ := h
  obtain ⟨settings, self, destination, cell, link, requests, lastUsed, nextId⟩ := c
  cases link with
  | some link => exact .done ⟨rfl, used, rfl⟩
  | none =>
    refine hdial.bind fun dialled dialled' heq => ?_
    subst heq
    cases dialled with
    | ok link => exact agrees_clock fun now now' => .done ⟨rfl, some now', rfl⟩
    | error e => exact agrees_request (by simp) fun _ => .done ⟨rfl, used, rfl⟩

theorem agrees_disconnect (h : c.Twins c') : Agrees Twins c.disconnect c'.disconnect := by
  obtain ⟨used, rfl⟩ := h
  obtain ⟨settings, self, destination, cell, link, requests, lastUsed, nextId⟩ := c
  cases link with
  | some link => exact agrees_request (by simp) fun _ => .done ⟨used, rfl⟩
  | none => exact .done ⟨used, rfl⟩

theorem Twins.judge (h : c.Twins c') (id : UInt64) (heard : Heard) :
    c'.judge id heard = c.judge id heard := by
  obtain ⟨used, rfl⟩ := h
  rfl

theorem agrees_attempt (h : c.Twins c') (payload : ByteArray) (wait : Bool) :
    Agrees SameOutcome (c.attempt payload wait) (c'.attempt payload wait) := by
  rw [attempt, attempt]
  refine (agrees_connect h).bind fun x y hxy => ?_
  obtain ⟨connected, c⟩ := x
  obtain ⟨connected', c'⟩ := y
  obtain ⟨hconnected, used, hused⟩ := hxy
  dsimp only at hconnected hused
  subst hconnected hused
  cases connected with
  | error e => exact .done ⟨rfl, used, rfl⟩
  | ok link =>
    refine agrees_request (by simp) fun written => ?_
    cases written with
    | error fault => exact .done ⟨rfl, used, rfl⟩
    | ok u =>
      refine agrees_clock fun now now' => ?_
      cases wait with
      | false => exact agrees_request (by simp) fun _ => .done ⟨rfl, some now', rfl⟩
      | true =>
        refine agrees_request (by simp) fun heard => ?_
        have htwins : Twins
            { c with nextId := c.nextId + 1, requests := c.requests + 1, lastUsed := some now }
            { c with nextId := c.nextId + 1, requests := c.requests + 1, lastUsed := some now' } :=
          ⟨some now', rfl⟩
        dsimp only
        rw [htwins.judge]
        split
        · exact agrees_request (by simp) fun _ => .done ⟨rfl, htwins⟩
        · exact .done ⟨rfl, htwins⟩
        · exact .done ⟨rfl, htwins⟩

theorem agrees_attemptUpTo (h : c.Twins c') (payload : ByteArray) (wait : Bool)
    (attempts left : Nat) (causes : Causes) :
    Agrees SameOutcome (c.attemptUpTo payload wait attempts left causes)
      (c'.attemptUpTo payload wait attempts left causes) := by
  induction left generalizing causes c c' with
  | zero =>
    rw [attemptUpTo, attemptUpTo]
    exact (agrees_disconnect h).bind fun _ _ htwins => .done ⟨rfl, htwins⟩
  | succ left ih =>
    rw [Delivery.attemptUpTo_succ, Delivery.attemptUpTo_succ]
    have hprepared : Agrees Twins (Delivery.prepared causes c) (Delivery.prepared causes c') := by
      cases causes with
      | none => exact .done h
      | one | several => exact agrees_disconnect h
    refine hprepared.bind fun c c' h => (agrees_attempt h payload wait).bind fun x y hxy => ?_
    obtain ⟨result, c⟩ := x
    obtain ⟨result', c'⟩ := y
    obtain ⟨rfl, htwins⟩ := hxy
    cases result with
    | ok u => exact .done ⟨rfl, htwins⟩
    | error e =>
      dsimp only
      split
      · exact agrees_request (by simp) fun _ => ih htwins _
      · exact .done ⟨rfl, htwins⟩

/-- What a courier does and comes to does not depend on the clock. -/
theorem agrees_send (h : c.Twins c') (payload : ByteArray) (wait : Bool) :
    Agrees SameOutcome (c.send payload wait) (c'.send payload wait) := by
  obtain ⟨used, rfl⟩ := h
  rw [send, send]
  split
  · exact .done ⟨rfl, used, rfl⟩
  · exact agrees_attemptUpTo ⟨used, rfl⟩ payload wait _ _ _

end Courier

/-! ## What a peer answers -/

/-- How a peer answers, after all that has been asked of it before. -/
abbrev Peer :=
  List Ask → (q : Ask) → q.Answer

/-- What has been asked of a peer so far, and how its health is. -/
structure Peer.State where
  seen : List Ask
  health : Health

namespace Peer

variable {α β : Type} {peer : Peer}

/-- The world of one peer. Its health is not its own business, and the clock may say anything. -/
def answers (peer : Peer) : Answering Peer.State
  | s, .clock, _, s' => s' = s
  | s, .mark next, _, s' => s' = { s with health := s.health.mark next }
  | s, q, answer, s' => answer = peer s.seen q ∧ s' = { s with seen := s.seen ++ [q] }

/-- What is asked on a connection, the peer answers. -/
theorem answers_of_asked {s : Peer.State} {q : Ask} (hclock : q ≠ .clock)
    (hmark : ∀ next, q ≠ .mark next) :
    peer.answers s q (peer s.seen q) { s with seen := s.seen ++ [q] } := by
  cases q with
  | clock => exact absurd rfl hclock
  | mark next => exact absurd rfl (hmark next)
  | dial | write | read | close => exact ⟨rfl, rfl⟩

theorem answers_unique {s s₁ s₂ : Peer.State} {q : Ask} {answer answer' : q.Answer}
    (h : peer.answers s q answer s₁) (h' : peer.answers s q answer' s₂) :
    (q ≠ .clock → answer = answer') ∧ s₁ = s₂ := by
  cases q with
  | clock => exact ⟨fun hne => absurd rfl hne, h.trans h'.symm⟩
  | mark next => exact ⟨fun _ => rfl, h.trans h'.symm⟩
  | dial | write | read | close =>
    exact ⟨fun _ => h.1.trans h'.1.symm, h.2.trans h'.2.symm⟩

/-- Plans that agree come to related results and leave the world of the peer the same. -/
theorem runs_agree {related : α → β → Prop} {x : Exchange α} {y : Exchange β} {a : α} {b : β}
    {s s₁ s₂ : Peer.State} (h : Agrees related x y) (hx : x.Runs peer.answers s a s₁)
    (hy : y.Runs peer.answers s b s₂) : related a b ∧ s₁ = s₂ := by
  induction h generalizing s with
  | done hab =>
    cases hx
    cases hy
    exact ⟨hab, rfl⟩
  | ask hnext ih =>
    obtain ⟨answer, t, hanswer, hx⟩ := runs_ask_iff.1 hx
    obtain ⟨answer', t', hanswer', hy⟩ := runs_ask_iff.1 hy
    obtain ⟨hsame, rfl⟩ := answers_unique hanswer hanswer'
    exact ih answer answer' hsame hx hy

end Peer

end PeerCluster
