import PeerCluster.Exchange

/-!
# Carrying a plan out in any world

A world is given by how it may answer: a relation between a state, a question, an answer and the
state afterwards. `Runs` relates a plan to every result that it may come to in such a world, and the
equivalences below take a run apart question by question, so that a proof about a plan reads like
the plan.
-/

namespace PeerCluster.Exchange

variable {σ α β : Type}

/-- How a world may answer. -/
abbrev Answering (σ : Type) :=
  σ → (q : Ask) → q.Answer → σ → Prop

/-- How a world answers in which no connection is ever opened. -/
def offline : (q : Ask) → q.Answer
  | .dial .. => .timedOut
  | .write .. => .error .earlyEnd
  | .read .. => .timedOut
  | .close _ | .mark _ => ()
  | .clock => (0 : Nat)

/-- What a plan may come to, and in which state it leaves the world. -/
inductive Runs (answers : Answering σ) : σ → Exchange α → α → σ → Prop
  | done (s : σ) (a : α) : Runs answers s (.done a) a s
  | ask {s s₁ s₂ : σ} {q : Ask} {answer : q.Answer} {next : q.Answer → Exchange α} {a : α} :
    answers s q answer s₁ → Runs answers s₁ (next answer) a s₂ → Runs answers s (.ask q next) a s₂

variable {answers : Answering σ} {s s' : σ} {a : α} {b : β}

theorem runs_pure_iff {a' : α} : Runs answers s (pure a') a s' ↔ a' = a ∧ s = s' := by
  constructor
  · intro h
    cases h
    exact ⟨rfl, rfl⟩
  · intro h
    rcases h with ⟨rfl, rfl⟩
    exact .done _ _

theorem runs_pure_pair_iff {a' : α} {b' : β} :
    Runs answers s (pure (a', b')) (a, b) s' ↔ a' = a ∧ b' = b ∧ s = s' := by
  rw [runs_pure_iff, Prod.mk.injEq, and_assoc]

theorem runs_ask_iff {q : Ask} {next : q.Answer → Exchange α} :
    Runs answers s (.ask q next) a s' ↔
      ∃ answer s₁, answers s q answer s₁ ∧ Runs answers s₁ (next answer) a s' := by
  constructor
  · intro h
    cases h
    exact ⟨_, _, ‹_›, ‹_›⟩
  · intro h
    rcases h with ⟨answer, s₁, hanswer, hrun⟩
    exact .ask hanswer hrun

/-- A plan in two parts runs one part after the other. -/
theorem runs_bind_iff {x : Exchange α} {f : α → Exchange β} :
    Runs answers s (x >>= f) b s' ↔
      ∃ a s₁, Runs answers s x a s₁ ∧ Runs answers s₁ (f a) b s' := by
  induction x generalizing s with
  | done a =>
    constructor
    · intro h
      exact ⟨a, s, .done _ _, h⟩
    · intro hall
      rcases hall with ⟨_, _, ⟨⟩, h⟩
      exact h
  | ask q next ih =>
    show Runs answers s (.ask q fun answer => next answer >>= f) b s' ↔ _
    constructor
    · intro h
      obtain ⟨answer, s₁, hanswer, hrest⟩ := runs_ask_iff.1 h
      obtain ⟨a, s₂, hfirst, hsecond⟩ := (ih answer).1 hrest
      exact ⟨a, s₂, .ask hanswer hfirst, hsecond⟩
    · intro hall
      rcases hall with ⟨a, s₂, hfirst, hsecond⟩
      obtain ⟨answer, s₁, hanswer, hrest⟩ := runs_ask_iff.1 hfirst
      exact .ask hanswer ((ih answer).2 ⟨a, s₂, hrest, hsecond⟩)

theorem runs_request_iff {q : Ask} {answer : q.Answer} :
    Runs answers s (request q) answer s' ↔ answers s q answer s' := by
  constructor
  · intro h
    obtain ⟨_, _, hanswer, ⟨⟩⟩ := runs_ask_iff.1 h
    exact hanswer
  · intro h
    exact .ask h (.done _ _)

/-- A plan that begins with a question goes on with some answer to it. -/
theorem runs_request_bind_iff {q : Ask} {f : q.Answer → Exchange α} :
    Runs answers s (request q >>= f) a s' ↔
      ∃ answer s₁, answers s q answer s₁ ∧ Runs answers s₁ (f answer) a s' := by
  simp only [runs_bind_iff, runs_request_iff]

end PeerCluster.Exchange
