import PeerCluster.Proofs.CourierPlans

/-!
# What a service leaves of a courier

A courier comes back from a delivery as the same courier (`Courier.Alike`): it only holds another
connection, or none, and has counted on. This holds in any world, so it holds of everything that a
plan may come to (`Exchange.MayYield`).
-/

namespace PeerCluster

open Exchange

/-! ## Whatever the world answers -/

namespace Exchange

variable {α : Type}

/-- A plan may come to a result if the world answers in some way. -/
def MayYield (x : Exchange α) (a : α) : Prop :=
  x.Runs (fun _ _ _ _ => True) () a ()

theorem mayYield_done (a : α) : (done a).MayYield a :=
  .done () a

theorem MayYield.ask {q : Ask} {next : q.Answer → Exchange α} {answer : q.Answer} {a : α}
    (h : (next answer).MayYield a) : (Exchange.ask q next).MayYield a :=
  Runs.ask True.intro h

end Exchange

/-! ## The same courier -/

namespace Courier

/-- Two couriers that differ at most in the connection that they hold and in what they have
counted. -/
structure Alike (c c' : Courier) : Prop where
  settings : c'.settings = c.settings
  self : c'.self = c.self
  destination : c'.destination = c.destination
  cell : c'.cell = c.cell

variable {σ : Type} {answers : Answering σ} {s s' : σ} {c c' c'' : Courier}

theorem Alike.refl (c : Courier) : c.Alike c :=
  ⟨rfl, rfl, rfl, rfl⟩

theorem Alike.trans (h : c.Alike c') (h' : c'.Alike c'') : c.Alike c'' :=
  ⟨h'.settings.trans h.settings, h'.self.trans h.self, h'.destination.trans h.destination,
    h'.cell.trans h.cell⟩

theorem alike_connect {result : Except DeliveryError Link}
    (h : c.connect.Runs answers s (result, c') s') : c.Alike c' := by
  rw [connect] at h
  split at h
  · obtain ⟨heq, -⟩ := runs_pure_iff.1 h
    obtain ⟨-, rfl⟩ := Prod.mk.inj heq
    exact .refl c
  · obtain ⟨dialled, s₁, -, h⟩ := runs_bind_iff.1 h
    cases dialled with
    | ok link =>
      obtain ⟨now, s₂, -, h⟩ := runs_request_bind_iff.1 h
      obtain ⟨heq, -⟩ := runs_pure_iff.1 h
      obtain ⟨-, rfl⟩ := Prod.mk.inj heq
      exact ⟨rfl, rfl, rfl, rfl⟩
    | error e =>
      obtain ⟨_, s₂, -, h⟩ := runs_bind_iff.1 h
      obtain ⟨heq, -⟩ := runs_pure_iff.1 h
      obtain ⟨-, rfl⟩ := Prod.mk.inj heq
      exact .refl c

theorem alike_disconnect (h : c.disconnect.Runs answers s c' s') : c.Alike c' := by
  rw [disconnect] at h
  split at h
  · obtain ⟨_, s₁, -, h⟩ := runs_bind_iff.1 h
    obtain ⟨rfl, -⟩ := runs_pure_iff.1 h
    exact ⟨rfl, rfl, rfl, rfl⟩
  · obtain ⟨rfl, -⟩ := runs_pure_iff.1 h
    exact ⟨rfl, rfl, rfl, rfl⟩

theorem alike_attempt {payload : ByteArray} {wait : Bool} {result : Except DeliveryError Unit}
    (h : (c.attempt payload wait).Runs answers s (result, c') s') : c.Alike c' := by
  rw [attempt] at h
  obtain ⟨⟨connected, c₁⟩, s₁, hconnect, h⟩ := runs_bind_iff.1 h
  have hc₁ := alike_connect hconnect
  cases connected with
  | error e =>
    obtain ⟨heq, -⟩ := runs_pure_iff.1 h
    obtain ⟨-, rfl⟩ := Prod.mk.inj heq
    exact hc₁
  | ok link =>
    obtain ⟨outcome, s₂, -, h⟩ := runs_request_bind_iff.1 h
    cases outcome with
    | error fault =>
      obtain ⟨heq, -⟩ := runs_pure_iff.1 h
      obtain ⟨-, rfl⟩ := Prod.mk.inj heq
      exact hc₁.trans ⟨rfl, rfl, rfl, rfl⟩
    | ok v =>
      obtain ⟨now, s₃, -, h⟩ := runs_request_bind_iff.1 h
      split at h
      · obtain ⟨heard, s₄, -, h⟩ := runs_request_bind_iff.1 h
        split at h
        · obtain ⟨_, s₅, -, h⟩ := runs_bind_iff.1 h
          obtain ⟨heq, -⟩ := runs_pure_iff.1 h
          obtain ⟨-, rfl⟩ := Prod.mk.inj heq
          exact hc₁.trans ⟨rfl, rfl, rfl, rfl⟩
        · obtain ⟨heq, -⟩ := runs_pure_iff.1 h
          obtain ⟨-, rfl⟩ := Prod.mk.inj heq
          exact hc₁.trans ⟨rfl, rfl, rfl, rfl⟩
        · obtain ⟨heq, -⟩ := runs_pure_iff.1 h
          obtain ⟨-, rfl⟩ := Prod.mk.inj heq
          exact hc₁.trans ⟨rfl, rfl, rfl, rfl⟩
      · obtain ⟨_, s₄, -, h⟩ := runs_bind_iff.1 h
        obtain ⟨heq, -⟩ := runs_pure_iff.1 h
        obtain ⟨-, rfl⟩ := Prod.mk.inj heq
        exact hc₁.trans ⟨rfl, rfl, rfl, rfl⟩

theorem alike_attemptUpTo {payload : ByteArray} {wait : Bool} {attempts left : Nat}
    {causes : Causes} {result : Except DeliveryError Unit}
    (h : (c.attemptUpTo payload wait attempts left causes).Runs answers s (result, c') s') :
    c.Alike c' := by
  induction left generalizing causes c s with
  | zero =>
    rw [attemptUpTo] at h
    obtain ⟨c₁, s₁, hdisconnect, h⟩ := runs_bind_iff.1 h
    obtain ⟨heq, -⟩ := runs_pure_iff.1 h
    obtain ⟨-, rfl⟩ := Prod.mk.inj heq
    exact alike_disconnect hdisconnect
  | succ left ih =>
    rw [Delivery.attemptUpTo_succ] at h
    obtain ⟨c₁, s₁, hprepare, h⟩ := runs_bind_iff.1 h
    have hc₁ : c.Alike c₁ := by
      cases causes with
      | none =>
        obtain ⟨rfl, -⟩ := runs_pure_iff.1 hprepare
        exact .refl c
      | one | several => exact alike_disconnect hprepare
    obtain ⟨⟨outcome, c₂⟩, s₂, hattempt, h⟩ := runs_bind_iff.1 h
    have hc₂ := hc₁.trans (alike_attempt hattempt)
    cases outcome with
    | ok u =>
      obtain ⟨heq, -⟩ := runs_pure_iff.1 h
      obtain ⟨-, rfl⟩ := Prod.mk.inj heq
      exact hc₂
    | error e =>
      dsimp only at h
      split at h
      · obtain ⟨_, s₃, -, h⟩ := runs_bind_iff.1 h
        exact hc₂.trans (ih h)
      · obtain ⟨heq, -⟩ := runs_pure_iff.1 h
        obtain ⟨-, rfl⟩ := Prod.mk.inj heq
        exact hc₂

theorem alike_send {payload : ByteArray} {wait : Bool} {result : Except DeliveryError Unit}
    (h : (c.send payload wait).Runs answers s (result, c') s') : c.Alike c' := by
  rw [send] at h
  split at h
  · obtain ⟨heq, -⟩ := runs_pure_iff.1 h
    obtain ⟨-, rfl⟩ := Prod.mk.inj heq
    exact .refl c
  · exact alike_attemptUpTo h

end Courier

end PeerCluster
