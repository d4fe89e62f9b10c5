import PeerCluster.Proofs.CourierPlans

/-!
# A record of the life of a courier

A courier reports how a delivery ended, but neither how its single attempts ended nor what it has
heard on which connection. Here both are written down.

**Attempts** (`sendTold`). A delivery that also tells how each of its attempts ended. Apart from that
it is the same plan (`sendTold_forget`).

**Answers** (`Noted`). The world answers as before, and whatever a courier hears is noted down. Every
run can be noted (`exists_noted`).

**Lives** (`Lives`). One thing after the other in the life of a courier, with both kept on record. The
record leaves nothing out and adds nothing (`Lives.goes`, `exists_lives`).
-/

namespace PeerCluster

open Exchange

/-! ## Deliveries that tell about their attempts -/

namespace Courier

/-- Makes as many further attempts as are left, and tells how each one ended. -/
def attemptUpToTold (payload : ByteArray) (wait : Bool) (attempts : Nat) :
    (left : Nat) → Causes → Courier →
      Exchange (List (Except DeliveryError Unit) × Except DeliveryError Unit × Courier)
  | 0, causes, c => do
    let c ← c.disconnect
    return ([], .error (causes.report attempts), c)
  | left + 1, causes, c => do
    let c ← Delivery.prepared causes c
    match ← c.attempt payload wait with
    | (.ok (), c) => return ([.ok ()], .ok (), c)
    | (.error e, c) =>
      if e.isRetryable then
        .request (.mark .suspect)
        let (outcomes, last) ← attemptUpToTold payload wait attempts left (causes.add e) c
        return (.error e :: outcomes, last)
      else return ([.error e], .error e, c)

/-- Delivers a payload, and tells how each attempt ended. -/
def sendTold (c : Courier) (payload : ByteArray) (wait : Bool) :
    Exchange (List (Except DeliveryError Unit) × Except DeliveryError Unit × Courier) :=
  match Frame.checkSize (Frame.headerSize + payload.size) with
  | .error e => return ([], .error (.wire e), c)
  | .ok () =>
    let attempts := c.settings.attempts
    attemptUpToTold payload wait attempts attempts .none c

theorem attemptUpToTold_forget (payload : ByteArray) (wait : Bool) (attempts left : Nat)
    (causes : Causes) (c : Courier) :
    Prod.snd <$> attemptUpToTold payload wait attempts left causes c =
      attemptUpTo payload wait attempts left causes c := by
  induction left generalizing causes c with
  | zero =>
    rw [attemptUpToTold, attemptUpTo, map_bind]
    rfl
  | succ left ih =>
    rw [attemptUpToTold, Delivery.attemptUpTo_succ, map_bind]
    refine bind_congr fun c => ?_
    rw [map_bind]
    refine bind_congr fun ended => ?_
    obtain ⟨result, c⟩ := ended
    cases result with
    | ok u => rfl
    | error e =>
      dsimp only
      split
      · rw [map_bind]
        refine bind_congr fun _ => ?_
        rw [← ih, map_bind, map_eq_pure_bind]
        rfl
      · rfl

/-- What is told aside, it is the same delivery. -/
theorem sendTold_forget (c : Courier) (payload : ByteArray) (wait : Bool) :
    Prod.snd <$> c.sendTold payload wait = c.send payload wait := by
  rw [sendTold, send]
  cases Frame.checkSize (Frame.headerSize + payload.size) with
  | error e => rfl
  | ok u => exact attemptUpToTold_forget payload wait _ _ .none c

end Courier

namespace Delivery

variable {α β : Type} {w w' : World} {c c' : Courier}

/-! ## Answers that are noted down -/

/-- What a courier has heard, and on which connections. -/
abbrev Notes :=
  List (Link × Heard)

/-- What is noted of an answer. -/
def noteOf : (q : Ask) → q.Answer → Notes
  | .read link _, heard => [(link, heard)]
  | .dial .., _ | .write .., _ | .close _, _ | .mark _, _ | .clock, _ => []

/-- The world answers, and what is heard is noted down. -/
def Noted : Answering (World × Notes) := fun s q answer s' =>
  Responds s.1 q answer s'.1 ∧ s'.2 = s.2 ++ noteOf q answer

theorem runs_of_noted {x : Exchange α} {a : α} {s s' : World × Notes} (h : x.Runs Noted s a s') :
    x.Runs Responds s.1 a s'.1 := by
  induction h with
  | done => exact .done _ _
  | ask hanswer _ ih => exact .ask hanswer.1 ih

theorem exists_noted {x : Exchange α} {a : α} (h : x.Runs Responds w a w') (notes : Notes) :
    ∃ notes', x.Runs Noted (w, notes) a (w', notes') := by
  induction h generalizing notes with
  | done s a => exact ⟨notes, .done _ _⟩
  | @ask s s₁ s₂ q answer next a hanswer _ ih =>
    obtain ⟨notes', hrun⟩ := ih (notes ++ noteOf q answer)
    have hnoted : Noted (s, notes) q answer (s₁, notes ++ noteOf q answer) := ⟨hanswer, rfl⟩
    exact ⟨notes', .ask hnoted hrun⟩

theorem runs_map_iff {σ : Type} {answers : Answering σ} {x : Exchange α} {f : α → β} {b : β}
    {s s' : σ} : (f <$> x).Runs answers s b s' ↔ ∃ a, x.Runs answers s a s' ∧ f a = b := by
  rw [map_eq_pure_bind, runs_bind_iff]
  simp only [runs_pure_iff]
  constructor
  · intro hall
    rcases hall with ⟨a, _, hrun, hb, rfl⟩
    exact ⟨a, hrun, hb⟩
  · intro hall
    rcases hall with ⟨a, hrun, hb⟩
    exact ⟨a, s', hrun, hb, rfl⟩

/-- A plan that begins with a question goes on with the answer and with a note of it. -/
theorem runs_noted_iff {q : Ask} {f : q.Answer → Exchange α} {a : α} {notes : Notes}
    {s' : World × Notes} :
    (request q >>= f).Runs Noted (w, notes) a s' ↔
      ∃ answer w₁, Responds w q answer w₁ ∧
        (f answer).Runs Noted (w₁, notes ++ noteOf q answer) a s' := by
  rw [runs_request_bind_iff]
  constructor
  · intro hall
    rcases hall with ⟨answer, ⟨w₁, notes₁⟩, ⟨hanswer, hnotes⟩, hrun⟩
    exact ⟨answer, w₁, hanswer, hnotes ▸ hrun⟩
  · intro hall
    rcases hall with ⟨answer, w₁, hanswer, hrun⟩
    exact ⟨answer, (w₁, notes ++ noteOf q answer), ⟨hanswer, rfl⟩, hrun⟩

/-! ## A whole life -/

/-- The life of a courier so far. -/
structure Record where
  world : World := {}
  courier : Courier
  notes : Notes := []
  /-- How every attempt of every delivery has ended. -/
  outcomes : List (Except DeliveryError Unit) := []

/-- One thing after the other in the life of a courier, as it is recorded. -/
inductive Lives (r : Record) : Record → Prop
  | moves {w' : World} : Moves r.world w' → Lives r { r with world := w' }
  | sends {payload : ByteArray} {wait : Bool} {outcomes : List (Except DeliveryError Unit)}
    {result : Except DeliveryError Unit} {c' : Courier} {w' : World} {notes' : Notes} :
    (r.courier.sendTold payload wait).Runs Noted (r.world, r.notes) (outcomes, result, c')
      (w', notes') → Lives r ⟨w', c', notes', r.outcomes ++ outcomes⟩
  | connects {result : Except DeliveryError Link} {c' : Courier} {w' : World} {notes' : Notes} :
    r.courier.connect.Runs Noted (r.world, r.notes) (result, c') (w', notes') →
      Lives r ⟨w', c', notes', r.outcomes⟩
  | disconnects {c' : Courier} {w' : World} {notes' : Notes} :
    r.courier.disconnect.Runs Noted (r.world, r.notes) c' (w', notes') →
      Lives r ⟨w', c', notes', r.outcomes⟩
  | recycles (now : Nat) : Lives r { r with courier := (r.courier.recycle now).2 }

theorem Lives.goes {r r' : Record} (h : Lives r r') :
    Goes (r.world, r.courier) (r'.world, r'.courier) := by
  cases h with
  | moves hmoves => exact .moves r.courier hmoves
  | sends hrun =>
    refine .sends (Courier.sendTold_forget .. ▸ runs_map_iff.2 ⟨_, runs_of_noted hrun, rfl⟩)
  | connects hrun => exact .connects (runs_of_noted hrun)
  | disconnects hrun => exact .disconnects (runs_of_noted hrun)
  | recycles now => exact .recycles r.world r.courier now

/-- Whatever happens to a courier can be recorded. -/
theorem exists_lives {r : Record} (h : Goes (r.world, r.courier) (w', c')) :
    ∃ r', Lives r r' ∧ r'.world = w' ∧ r'.courier = c' := by
  generalize hp : (r.world, r.courier) = p at h
  generalize hp' : (w', c') = p' at h
  cases h with
  | moves c hmoves =>
    obtain ⟨rfl, rfl⟩ := Prod.mk.inj hp
    obtain ⟨rfl, rfl⟩ := Prod.mk.inj hp'
    exact ⟨_, .moves hmoves, rfl, rfl⟩
  | sends hrun =>
    obtain ⟨rfl, rfl⟩ := Prod.mk.inj hp
    obtain ⟨rfl, rfl⟩ := Prod.mk.inj hp'
    rw [← Courier.sendTold_forget, runs_map_iff] at hrun
    obtain ⟨⟨outcomes, result, c'⟩, hrun, heq⟩ := hrun
    obtain ⟨rfl, rfl⟩ := Prod.mk.inj heq
    obtain ⟨notes', hnoted⟩ := exists_noted hrun r.notes
    exact ⟨_, .sends hnoted, rfl, rfl⟩
  | connects hrun =>
    obtain ⟨rfl, rfl⟩ := Prod.mk.inj hp
    obtain ⟨rfl, rfl⟩ := Prod.mk.inj hp'
    obtain ⟨notes', hnoted⟩ := exists_noted hrun r.notes
    exact ⟨_, .connects hnoted, rfl, rfl⟩
  | disconnects hrun =>
    obtain ⟨rfl, rfl⟩ := Prod.mk.inj hp
    obtain ⟨rfl, rfl⟩ := Prod.mk.inj hp'
    obtain ⟨notes', hnoted⟩ := exists_noted hrun r.notes
    exact ⟨_, .disconnects hnoted, rfl, rfl⟩
  | recycles w c now =>
    obtain ⟨rfl, rfl⟩ := Prod.mk.inj hp
    obtain ⟨rfl, rfl⟩ := Prod.mk.inj hp'
    exact ⟨_, .recycles now, rfl, rfl⟩

/-! ## Plans that hear nothing -/

/-- A plan that waits for no frame. -/
def IsDeaf (x : Exchange α) : Prop :=
  ∀ s a s', x.Runs Noted s a s' → s'.2 = s.2

theorem isDeaf_pure (a : α) : IsDeaf (pure a : Exchange α) := by
  intro s a' s' hrun
  obtain ⟨-, rfl⟩ := runs_pure_iff.1 hrun
  rfl

theorem isDeaf_request {q : Ask} (hq : ∀ answer, noteOf q answer = []) : IsDeaf (request q) := by
  intro s answer s' hrun
  obtain ⟨-, hnotes⟩ := runs_request_iff.1 hrun
  rw [hnotes, hq answer, List.append_nil]

theorem IsDeaf.bind {x : Exchange α} {f : α → Exchange β} (hx : IsDeaf x)
    (hf : ∀ a, IsDeaf (f a)) : IsDeaf (x >>= f) := by
  intro s b s' hrun
  obtain ⟨a, s₁, hfirst, hsecond⟩ := runs_bind_iff.1 hrun
  exact (hf a _ _ _ hsecond).trans (hx _ _ _ hfirst)

theorem isDeaf_dial (c : Courier) : IsDeaf c.dial := by
  rw [Courier.dial]
  refine (isDeaf_request fun _ => rfl).bind fun dialled => ?_
  cases dialled with
  | timedOut | failed => exact isDeaf_pure _
  | connected link =>
    dsimp only
    split
    · exact (isDeaf_request (q := .close link) fun _ => rfl).bind fun _ => isDeaf_pure _
    · refine (isDeaf_request fun _ => rfl).bind fun written => ?_
      cases written with
      | ok u => exact isDeaf_pure _
      | error fault =>
        exact (isDeaf_request (q := .close link) fun _ => rfl).bind fun _ => isDeaf_pure _

theorem isDeaf_connect (c : Courier) : IsDeaf c.connect := by
  rw [Courier.connect]
  split
  · exact isDeaf_pure _
  · refine (isDeaf_dial c).bind fun dialled => ?_
    cases dialled with
    | ok link => exact (isDeaf_request fun _ => rfl).bind fun _ => isDeaf_pure _
    | error e =>
      exact (isDeaf_request (q := .mark .suspect) fun _ => rfl).bind fun _ => isDeaf_pure _

theorem isDeaf_disconnect (c : Courier) : IsDeaf c.disconnect := by
  rw [Courier.disconnect]
  split
  · exact (isDeaf_request (q := .close _) fun _ => rfl).bind fun _ => isDeaf_pure _
  · exact isDeaf_pure _

theorem isDeaf_prepared (causes : Courier.Causes) (c : Courier) : IsDeaf (prepared causes c) := by
  cases causes with
  | none => exact isDeaf_pure c
  | one | several => exact isDeaf_disconnect c

theorem isDeaf_judged (id : UInt64) (c : Courier) (heard : Heard) :
    IsDeaf (judged id c heard) := by
  rw [judged]
  split
  · exact (isDeaf_request (q := .mark .ready) fun _ => rfl).bind fun _ => isDeaf_pure _
  · exact isDeaf_pure _
  · exact isDeaf_pure _

end Delivery

end PeerCluster
