import Mathlib.Data.List.Basic
import PeerCluster.Proofs.AcknowledgedDelivery
import PeerCluster.Proofs.DeliveryTranscripts

/-!
# Bounded retry

A delivery is a list of attempts. What an attempt exchanges with the peer is given here as a grammar
(`Opens`, `Carries`, `Tries`), which says nothing of how the courier goes about it, and a delivery is
described by its attempts alone.

**Theorem (`send_retries`).** Let a payload fit into a frame. Whatever the world answers, a delivery of
it can be carried out to its end, and then it is a list of attempts, of which

* *all but the last* have failed, and the last one has only if the limit has been reached;
* *the first* uses the connection that was held, and each of the others only one that it has opened;
* *the result* is that of the last attempt: success, or a refusal by the peer, or its cause if only one
  attempt is allowed, or else the causes of the first and the last attempt;
* *the health* of the peer is ready if the last attempt was verified, as before if the first attempt was
  answered by a refusal, and otherwise failing if it was so before and suspect if not; and
* *the connection* of the last attempt is held unless it has failed, and none is held then.

The proof is an induction on the attempts that are left, with the invariant `Going`: all that have been
made have failed, none of their connections is left, and their causes are the ones that would be
reported (`Gathered`). That a failed attempt is always followed by another one, if one is left, needs a
fact about the world: a connection on which nothing can be read fails in a way that a fresh one might
mend (`IsPossible`).
-/

namespace PeerCluster

namespace Exchange

variable {α : Type}

/-! ## Answers that are possible -/

/-- How reading from a connection can fail: the connection breaks, or what arrives is no frame. -/
def IsReadFailure (e : DeliveryError) : Prop :=
  (∃ fault, e = .io fault) ∨ ∃ s : FrameStream, s.front = .failed e

/-- Whether the world can answer so. Only the ways in which a read fails are limited. -/
def IsPossible : (q : Ask) → q.Answer → Prop
  | .read .., .failed e => IsReadFailure e
  | .read .., .frame _ | .read .., .ended | .read .., .timedOut => True
  | .dial .., _ | .write .., _ | .close _, _ | .mark _, _ | .clock, _ => True

/-- The world answers in any way that is possible, and everything is written down. -/
def Possible : Answering Transcript := fun ts q answer ts' =>
  IsPossible q answer ∧ ts' = ts ++ [⟨q, answer⟩]

theorem runs_possible_iff {q : Ask} {f : q.Answer → Exchange α} {a : α} {ts ts' : Transcript} :
    (request q >>= f).Runs Possible ts a ts' ↔
      ∃ answer, IsPossible q answer ∧ (f answer).Runs Possible (ts ++ [⟨q, answer⟩]) a ts' := by
  rw [runs_request_bind_iff]
  constructor
  · intro hall
    rcases hall with ⟨answer, _, ⟨hpossible, rfl⟩, hrun⟩
    exact ⟨answer, hpossible, hrun⟩
  · intro hall
    rcases hall with ⟨answer, hpossible, hrun⟩
    exact ⟨answer, _, ⟨hpossible, rfl⟩, hrun⟩

/-- Carries a plan out in a world that answers each question in one way, and writes everything
down. -/
def answered (x : Exchange α) (answer : (q : Ask) → q.Answer) (ts : Transcript) :
    α × Transcript :=
  x.run (fun q ts => (answer q, ts ++ [⟨q, answer q⟩])) ts

theorem runs_answered (x : Exchange α) {answer : (q : Ask) → q.Answer}
    (hanswer : ∀ q, IsPossible q (answer q)) (ts : Transcript) :
    x.Runs Possible ts (x.answered answer ts).1 (x.answered answer ts).2 := by
  induction x generalizing ts with
  | done a => exact .done ts a
  | ask q next ih =>
    have hsaid : Possible ts q (answer q) (ts ++ [⟨q, answer q⟩]) := ⟨hanswer q, rfl⟩
    exact .ask hsaid (ih (answer q) _)

theorem isPossible_offline (q : Ask) : IsPossible q (offline q) := by
  cases q <;> trivial

/-- What is found at the front of a stream is no frame, or the stream ends inside one. -/
theorem error_of_front_failed {s : FrameStream} {e : DeliveryError} (h : s.front = .failed e) :
    (∃ e', e = .wire e') ∨ e = .io .earlyEnd := by
  rw [FrameStream.front] at h
  split at h
  · cases h
  · dsimp only at h
    split at h
    · cases h
      exact .inl ⟨_, rfl⟩
    · split at h
      · cases h
        exact .inr rfl
      · split at h <;> cases h
        exact .inl ⟨_, rfl⟩

theorem IsReadFailure.isRetryable {e : DeliveryError} (h : IsReadFailure e) :
    e.isRetryable = true := by
  rcases h with ⟨fault, rfl⟩ | ⟨s, hfront⟩
  · rfl
  · rcases error_of_front_failed hfront with ⟨e', rfl⟩ | rfl <;> rfl

theorem IsReadFailure.ne_notConnected {e : DeliveryError} (h : IsReadFailure e) :
    e ≠ .notConnected := by
  rcases h with ⟨fault, rfl⟩ | ⟨s, hfront⟩
  · exact nofun
  · rcases error_of_front_failed hfront with ⟨e', rfl⟩ | rfl <;> exact nofun

/-! ## The health of the peer -/

/-- The health of the peer after everything that has been marked. -/
def healthAfter (h : Health) (ts : Transcript) : Health :=
  ts.foldl (fun h x => match x.1 with
    | .mark next => h.mark next
    | _ => h) h

variable {ts ts' : Transcript}

theorem healthAfter_append (h : Health) (ts ts' : Transcript) :
    healthAfter h (ts ++ ts') = healthAfter (healthAfter h ts) ts' :=
  List.foldl_append

theorem healthAfter_mark (h : Health) (ts : Transcript) (next : Health) (answer : Unit) :
    healthAfter h (ts ++ [⟨.mark next, answer⟩]) = (healthAfter h ts).mark next :=
  healthAfter_append h ts _

/-- What is no mark leaves the health alone. -/
theorem healthAfter_concat (h : Health) (ts : Transcript) {x : Said}
    (hx : ∀ next, x.1 ≠ .mark next) : healthAfter h (ts ++ [x]) = healthAfter h ts := by
  rw [healthAfter_append]
  obtain ⟨q, answer⟩ := x
  cases q with
  | mark next => exact absurd rfl (hx next)
  | dial | write | read | close | clock => rfl

end Exchange

/-! ## The attempts of a delivery -/

namespace Courier

open Exchange

/-- How an attempt ends. -/
inductive Ended where
  /-- The message has been accepted, or has been written and no answer was asked for. -/
  | verified
  /-- The peer has answered that it did not accept the message. -/
  | refused
  | failed (cause : DeliveryError)

/-- How a connection is come by: it is held already, or it is opened and begins with a greeting. A
connection that cannot be greeted on is given up again. -/
inductive Opens (c : Courier) : Option Link → Transcript → Except DeliveryError Link → Prop
  | held (link : Link) : Opens c (some link) [] (.ok link)
  | timedOut : Opens c none [⟨.dial c.destination.address c.settings, .timedOut⟩]
      (.error (.connectTimeout c.destination.address c.settings.connectTimeoutMs.toNat))
  | unreachable (fault : IoFault) :
    Opens c none [⟨.dial c.destination.address c.settings, .failed fault⟩] (.error (.io fault))
  | speechless (link : Link) {e : WireError} :
    Frame.checkSize (Frame.ofHandshake c.self).wireSize = .error e →
    Opens c none [⟨.dial c.destination.address c.settings, .connected link⟩, ⟨.close link, ()⟩]
      (.error (.wire e))
  | greeted (link : Link) :
    Opens c none [⟨.dial c.destination.address c.settings, .connected link⟩,
      ⟨.write link (.ofHandshake c.self) c.settings.readTimeoutMs.toNat, .ok ()⟩] (.ok link)
  | ungreeted (link : Link) (fault : IoFault) :
    Opens c none [⟨.dial c.destination.address c.settings, .connected link⟩,
      ⟨.write link (.ofHandshake c.self) c.settings.readTimeoutMs.toNat, .error fault⟩,
      ⟨.close link, ()⟩] (.error (.io fault))

/-- What an answer to the message of the given number means. -/
inductive Hears (c : Courier) (id : UInt64) : Heard → Ended → Prop
  | accepted {f : Frame} : f.id = id → f.kind = .ack → Hears c id (.frame f) .verified
  | refused {f : Frame} : f.id = id → f.kind = .nack → Hears c id (.frame f) .refused
  | mismatched {f : Frame} : f.id ≠ id →
    Hears c id (.frame f) (.failed (.wire (.mismatchedReply id f.id)))
  | unexpected {f : Frame} : f.id = id → f.kind ≠ .ack → f.kind ≠ .nack →
    Hears c id (.frame f) (.failed (.wire (.unexpectedFrame .ack f.kind)))
  | silent : Hears c id .timedOut
      (.failed (.ackTimeout c.destination.address c.settings.readTimeoutMs.toNat))
  | ended : Hears c id .ended
      (.failed (.ackTimeout c.destination.address c.settings.readTimeoutMs.toNat))
  | failed {e : DeliveryError} : IsReadFailure e → Hears c id (.failed e) (.failed e)

/-- What becomes of the message of the given number on a connection. -/
inductive Carries (c : Courier) (payload : ByteArray) (link : Link) (id : UInt64) :
    Bool → Transcript → Ended → Prop
  | broken (wait : Bool) (fault : IoFault) : Carries c payload link id wait
      [⟨.write link (.message id payload wait) c.settings.readTimeoutMs.toNat, .error fault⟩]
      (.failed (.io fault))
  | written : Carries c payload link id false
      [⟨.write link (.message id payload false) c.settings.readTimeoutMs.toNat, .ok ()⟩] .verified
  | answered {heard : Heard} {ended : Ended} : c.Hears id heard ended →
    Carries c payload link id true
      [⟨.write link (.message id payload true) c.settings.readTimeoutMs.toNat, .ok ()⟩,
        ⟨.read link c.settings.readTimeoutMs.toNat, heard⟩] ended

/-- An attempt, as it is recorded. -/
structure Try where
  /-- The connection that was held when it began. -/
  held : Option Link
  /-- The number of its message. -/
  id : UInt64
  /-- What was exchanged with the peer. -/
  said : Transcript
  ended : Ended
  /-- The connection that was held when it had ended. -/
  left : Option Link

/-- What an attempt can look like: no connection is come by, or the message is carried on one. -/
inductive Tries (c : Courier) (payload : ByteArray) (wait : Bool) : Try → Prop
  | unopened {held : Option Link} {said : Transcript} {cause : DeliveryError} (id : UInt64) :
    c.Opens held said (.error cause) → Tries c payload wait ⟨held, id, said, .failed cause, none⟩
  | opened {held : Option Link} {id : UInt64} {said said' : Transcript} {link : Link}
    {ended : Ended} :
    c.Opens held said (.ok link) → c.Carries payload link id wait said' ended →
    Tries c payload wait ⟨held, id, said ++ said', ended, some link⟩

/-- The result of a delivery whose last attempt has ended so, if it fails for the cause of that
attempt alone. -/
def Ended.result (c : Courier) (id : UInt64) : Ended → Except DeliveryError Unit
  | .verified => .ok ()
  | .refused =>
    if c.settings.throwOnFailedAck then .error (.remoteFailure c.destination.address id) else .ok ()
  | .failed cause => .error cause

variable {c c' : Courier} {payload : ByteArray} {wait : Bool} {ts ts' : Transcript}

/-! ## One attempt -/

/-- What has been exchanged is written down behind what was before, and the health changes so. -/
structure Adds (ts said ts' : Transcript) (marks : Health → Health) : Prop where
  exchanged : exchanged ts' = exchanged ts ++ said
  health : ∀ h, healthAfter h ts' = marks (healthAfter h ts)

theorem Adds.trans {ts'' said said' : Transcript} {marks marks' : Health → Health}
    (h : Adds ts said ts' marks) (h' : Adds ts' said' ts'' marks') :
    Adds ts (said ++ said') ts'' (marks' ∘ marks) where
  exchanged := by rw [h'.exchanged, h.exchanged, List.append_assoc]
  health health := by rw [h'.health, h.health, Function.comp_apply]

theorem adds_nil (ts : Transcript) : Adds ts [] ts id :=
  ⟨(List.append_nil _).symm, fun _ => rfl⟩

theorem adds_exchanged (ts : Transcript) {x : Said} (hx : x.isExchanged = true) :
    Adds ts [x] (ts ++ [x]) id where
  exchanged := exchanged_concat ts hx
  health h := by
    refine healthAfter_concat h ts fun next hnext => ?_
    rw [Said.isExchanged, hnext] at hx
    cases hx

theorem adds_clock (ts : Transcript) (now : Nat) : Adds ts [] (ts ++ [⟨.clock, now⟩]) id where
  exchanged := by rw [exchanged_concat_of_not ts rfl, List.append_nil]
  health h := healthAfter_concat h ts nofun

theorem adds_mark (ts : Transcript) (next : Health) (answer : Unit) :
    Adds ts [] (ts ++ [⟨.mark next, answer⟩]) fun h => h.mark next where
  exchanged := by rw [exchanged_concat_of_not ts rfl, List.append_nil]
  health h := healthAfter_mark h ts next answer

theorem dial_opens {result : Except DeliveryError Link}
    (hrun : c.dial.Runs Possible ts result ts') :
    ∃ said, c.Opens none said result ∧ Adds ts said ts' id := by
  rw [dial, runs_possible_iff] at hrun
  obtain ⟨dialled, -, hrun⟩ := hrun
  have hdialled := adds_exchanged ts
    (x := ⟨.dial c.destination.address c.settings, dialled⟩) rfl
  cases dialled with
  | timedOut =>
    obtain ⟨rfl, rfl⟩ := runs_pure_iff.1 hrun
    exact ⟨_, .timedOut, hdialled⟩
  | failed fault =>
    obtain ⟨rfl, rfl⟩ := runs_pure_iff.1 hrun
    exact ⟨_, .unreachable fault, hdialled⟩
  | connected link =>
    cases hsize : Frame.checkSize (Frame.ofHandshake c.self).wireSize with
    | error e =>
      simp only [hsize] at hrun
      obtain ⟨closed, -, hrun⟩ := runs_possible_iff.1 hrun
      obtain ⟨rfl, rfl⟩ := runs_pure_iff.1 hrun
      exact ⟨_, .speechless link hsize, hdialled.trans (adds_exchanged _ rfl)⟩
    | ok u =>
      simp only [hsize] at hrun
      obtain ⟨written, -, hrun⟩ := runs_possible_iff.1 hrun
      have hwritten := hdialled.trans (adds_exchanged _ (x := ⟨.write link (.ofHandshake c.self)
        c.settings.readTimeoutMs.toNat, written⟩) rfl)
      cases written with
      | ok u =>
        obtain ⟨rfl, rfl⟩ := runs_pure_iff.1 hrun
        exact ⟨_, .greeted link, hwritten⟩
      | error fault =>
        obtain ⟨closed, -, hrun⟩ := runs_possible_iff.1 hrun
        obtain ⟨rfl, rfl⟩ := runs_pure_iff.1 hrun
        exact ⟨_, .ungreeted link fault, hwritten.trans (adds_exchanged _ rfl)⟩

/-- A connection that cannot be come by makes the peer suspect. -/
theorem connect_opens {result : Except DeliveryError Link}
    (hrun : c.connect.Runs Possible ts (result, c') ts') :
    ∃ said marks, c.Opens c.link said result ∧ Adds ts said ts' marks ∧
      match result with
      | .ok link => marks = id ∧ c'.link = some link ∧ c'.nextId = c.nextId
      | .error _ => marks = (fun h => h.mark .suspect) ∧ c' = c ∧ c.link = none := by
  rw [connect] at hrun
  split at hrun
  next link hlink =>
    obtain ⟨hresult, rfl⟩ := runs_pure_iff.1 hrun
    obtain ⟨rfl, rfl⟩ := Prod.mk.inj hresult
    exact ⟨[], id, hlink ▸ .held link, adds_nil ts, rfl, hlink, rfl⟩
  next hlink =>
    obtain ⟨dialled, ts₁, hdial, hrun⟩ := runs_bind_iff.1 hrun
    obtain ⟨said, hopens, hadds⟩ := dial_opens hdial
    rw [← hlink] at hopens
    cases dialled with
    | ok link =>
      obtain ⟨now, -, hrun⟩ := runs_possible_iff.1 hrun
      obtain ⟨hresult, rfl⟩ := runs_pure_iff.1 hrun
      obtain ⟨rfl, rfl⟩ := Prod.mk.inj hresult
      have hall := hadds.trans (adds_clock ts₁ now)
      rw [List.append_nil] at hall
      exact ⟨said, _, hopens, hall, rfl, rfl, rfl⟩
    | error e =>
      obtain ⟨marked, -, hrun⟩ := runs_possible_iff.1 hrun
      obtain ⟨hresult, rfl⟩ := runs_pure_iff.1 hrun
      obtain ⟨rfl, rfl⟩ := Prod.mk.inj hresult
      have hall := hadds.trans (adds_mark ts₁ .suspect marked)
      rw [List.append_nil] at hall
      exact ⟨said, _, hopens, hall, rfl, rfl, hlink⟩

/-- What was heard is judged as it is meant. -/
theorem hears_judge (c : Courier) (id : UInt64) {link : Link} {ms : Nat} {heard : Heard}
    (hpossible : IsPossible (.read link ms) heard) :
    match c.judge id heard with
    | .verified => c.Hears id heard .verified
    | .tolerated => c.Hears id heard .refused ∧ c.settings.throwOnFailedAck = false
    | .failed e => (c.Hears id heard .refused ∧ c.settings.throwOnFailedAck = true ∧
        e = .remoteFailure c.destination.address id) ∨ c.Hears id heard (.failed e) := by
  cases heard with
  | timedOut => exact .inr .silent
  | ended => exact .inr .ended
  | failed e => exact .inr (.failed hpossible)
  | frame f =>
    by_cases hid : f.id = id
    · simp only [judge, hid, ne_eq, not_true_eq_false, if_false]
      cases hkind : f.kind with
      | ack => exact .accepted hid hkind
      | nack =>
        cases hthrow : c.settings.throwOnFailedAck with
        | true => exact .inl ⟨.refused hid hkind, rfl, rfl⟩
        | false => exact ⟨.refused hid hkind, rfl⟩
      | handshake | message =>
        have hother := Hears.unexpected (c := c) hid (by simp [hkind]) (by simp [hkind])
        rw [hkind] at hother
        exact .inr hother
    · simp only [judge, ne_eq, hid, not_false_eq_true, if_true]
      exact .inr (.mismatched hid)

theorem judge_of_alike (h : c.Alike c') (id : UInt64) (heard : Heard) :
    c'.judge id heard = c.judge id heard := by
  cases heard with
  | failed e => rfl
  | timedOut | ended | frame => simp only [judge, h.settings, h.destination]

/-- How an attempt marks the health of the peer when it ends so. -/
def Ended.Marks : Ended → (Health → Health) → Prop
  | .verified, marks => ∀ h, marks h = .ready
  | .refused, marks => ∀ h, marks h = h
  | .failed _, marks => ∀ h, (marks h).mark .suspect = h.mark .suspect

/-- What an attempt does. -/
structure Attempts (c : Courier) (payload : ByteArray) (wait : Bool) (ts : Transcript) (t : Try)
    (outcome : Except DeliveryError Unit) (c' : Courier) (ts' : Transcript) : Prop where
  tries : c.Tries payload wait t
  held : t.held = c.link
  left : c'.link = t.left
  outcome : outcome = t.ended.result c t.id
  adds : ∃ marks, Adds ts t.said ts' marks ∧ t.ended.Marks marks

theorem attempt_tries {outcome : Except DeliveryError Unit}
    (hrun : (c.attempt payload wait).Runs Possible ts (outcome, c') ts') :
    ∃ t, c.Attempts payload wait ts t outcome c' ts' := by
  rw [attempt] at hrun
  obtain ⟨⟨connected, c₁⟩, ts₁, hconnect, hrest⟩ := runs_bind_iff.1 hrun
  obtain ⟨said, marks, hopens, hadds, hconnected⟩ := connect_opens hconnect
  have halike := alike_connect hconnect
  cases connected with
  | error e =>
    obtain ⟨rfl, rfl, hlink⟩ := hconnected
    obtain ⟨hresult, rfl⟩ := runs_pure_iff.1 hrest
    obtain ⟨rfl, rfl⟩ := Prod.mk.inj hresult
    refine ⟨⟨c₁.link, c₁.nextId, said, .failed e, none⟩, .unopened _ hopens, rfl, hlink, rfl,
      _, hadds, fun h => ?_⟩
    cases h <;> rfl
  | ok link =>
    obtain ⟨rfl, hlink, -⟩ := hconnected
    dsimp only at hrest
    rw [halike.settings] at hrest
    obtain ⟨written, -, hrest⟩ := runs_possible_iff.1 hrest
    have hwritten := hadds.trans (adds_exchanged _ (x := ⟨.write link
      (.message c₁.nextId payload wait) c.settings.readTimeoutMs.toNat, written⟩) rfl)
    cases written with
    | error fault =>
      obtain ⟨hresult, rfl⟩ := runs_pure_iff.1 hrest
      obtain ⟨rfl, rfl⟩ := Prod.mk.inj hresult
      exact ⟨⟨c.link, c₁.nextId, _, .failed (.io fault), some link⟩,
        .opened hopens (.broken wait fault), rfl, hlink, rfl, _, hwritten, fun _ => rfl⟩
    | ok u =>
      obtain ⟨now, -, hrest⟩ := runs_possible_iff.1 hrest
      have htimed := hwritten.trans (adds_clock _ now)
      rw [List.append_nil] at htimed
      cases wait with
      | false =>
        obtain ⟨marked, -, hrest⟩ := runs_possible_iff.1 hrest
        obtain ⟨hresult, rfl⟩ := runs_pure_iff.1 hrest
        obtain ⟨rfl, rfl⟩ := Prod.mk.inj hresult
        have hall := htimed.trans (adds_mark _ .ready marked)
        rw [List.append_nil] at hall
        exact ⟨⟨c.link, c₁.nextId, _, .verified, some link⟩, .opened hopens .written, rfl, hlink,
          rfl, _, hall, fun h => rfl⟩
      | true =>
        obtain ⟨heard, hpossible, hrest⟩ := runs_possible_iff.1 hrest
        have hheard := htimed.trans (adds_exchanged _
          (x := ⟨.read link c.settings.readTimeoutMs.toNat, heard⟩) rfl)
        rw [List.append_assoc] at hheard
        -- An answer that ends the attempt so is noted, but for the mark of a verified one.
        have hattempts {ended : Ended} (hmeans : c.Hears c₁.nextId heard ended) :=
          Tries.opened hopens (Carries.answered hmeans : c.Carries payload _ _ _ _ _)
        have hmeans := hears_judge c c₁.nextId hpossible
        rw [judge_of_alike (c := c)] at hrest
        split at hrest
        next hverdict =>
          rw [hverdict] at hmeans
          obtain ⟨marked, -, hrest⟩ := runs_possible_iff.1 hrest
          obtain ⟨hresult, rfl⟩ := runs_pure_iff.1 hrest
          obtain ⟨rfl, rfl⟩ := Prod.mk.inj hresult
          have hall := hheard.trans (adds_mark _ .ready marked)
          rw [List.append_nil] at hall
          exact ⟨_, hattempts hmeans, rfl, hlink, rfl, _, hall, fun h => rfl⟩
        next hverdict =>
          rw [hverdict] at hmeans
          obtain ⟨hresult, rfl⟩ := runs_pure_iff.1 hrest
          obtain ⟨rfl, rfl⟩ := Prod.mk.inj hresult
          refine ⟨_, hattempts hmeans.1, rfl, hlink, ?_, _, hheard, fun h => rfl⟩
          rw [Ended.result, hmeans.2]
          rfl
        next e hverdict =>
          rw [hverdict] at hmeans
          obtain ⟨hresult, rfl⟩ := runs_pure_iff.1 hrest
          obtain ⟨rfl, rfl⟩ := Prod.mk.inj hresult
          obtain ⟨hrefused, hthrow, rfl⟩ | hfailed := hmeans
          · refine ⟨_, hattempts hrefused, rfl, hlink, ?_, _, hheard, fun h => rfl⟩
            rw [Ended.result, hthrow]
            rfl
          · exact ⟨_, hattempts hfailed, rfl, hlink, rfl, _, hheard, fun h => rfl⟩
        exact ⟨rfl, halike.self, halike.destination, halike.cell⟩

/-! ## Causes -/

theorem Opens.mendable {held : Option Link} {said : Transcript} {e : DeliveryError}
    (h : c.Opens held said (.error e)) : e.isRetryable = true ∧ e ≠ .notConnected := by
  cases h <;> exact ⟨rfl, nofun⟩

theorem Hears.mendable {id : UInt64} {heard : Heard} {e : DeliveryError}
    (h : c.Hears id heard (.failed e)) : e.isRetryable = true ∧ e ≠ .notConnected := by
  cases h with
  | mismatched | unexpected | silent | ended => exact ⟨rfl, nofun⟩
  | failed hread => exact ⟨hread.isRetryable, hread.ne_notConnected⟩

/-- Another attempt may mend whatever an attempt fails for. -/
theorem Tries.mendable {t : Try} {e : DeliveryError} (h : c.Tries payload wait t)
    (hended : t.ended = .failed e) : e.isRetryable = true ∧ e ≠ .notConnected := by
  cases h with
  | unopened id hopens =>
    obtain rfl := Ended.failed.inj hended
    exact hopens.mendable
  | opened hopens hcarries =>
    dsimp only at hended
    subst hended
    cases hcarries with
    | broken => exact ⟨rfl, nofun⟩
    | answered hhears => exact hhears.mendable

/-! ## All attempts -/

/-- The attempt has failed. -/
def Try.HasFailed (t : Try) : Prop :=
  ∃ cause, t.ended = .failed cause

/-- The connection of a failed attempt is given up. -/
def Try.closed (t : Try) : Transcript :=
  match t.ended with
  | .failed _ => t.left.toList.map fun link => ⟨.close link, ()⟩
  | .verified | .refused => []

/-- Everything that is exchanged because of an attempt. -/
def Try.whole (t : Try) : Transcript :=
  t.said ++ t.closed

/-- The causes of failed attempts, as far as they are reported. -/
inductive Gathered : Causes → List Try → Prop
  | none : Gathered .none []
  | one {t : Try} {e : DeliveryError} : t.ended = .failed e → Gathered (.one e) [t]
  | several {first last : Try} {e e' : DeliveryError} (between : List Try) :
    first.ended = .failed e → last.ended = .failed e' →
    Gathered (.several e e') (first :: (between ++ [last]))

/-- What holds before an attempt when those that have been made have failed: none of their connections
is left. -/
structure Going (c : Courier) (payload : ByteArray) (wait : Bool) (made : List Try)
    (ts : Transcript) (c' : Courier) : Prop where
  alike : c.Alike c'
  tries : ∀ t ∈ made, c.Tries payload wait t
  failed : ∀ t ∈ made, t.HasFailed
  first : ∀ t ∈ made.head?, t.held = c.link
  anew : ∀ t ∈ made.tail, t.held = none
  exchanged : exchanged ts = made.flatMap Try.whole
  link : c'.link = if made.isEmpty then c.link else none
  health : ∀ h, healthAfter h ts = if made.isEmpty then h else h.mark .suspect

/-- A delivery in at most so many attempts, of which all but the last have failed. -/
structure Retries (c : Courier) (payload : ByteArray) (wait : Bool) (limit : Nat)
    (earlier : List Try) (last : Try) (ts : Transcript) (result : Except DeliveryError Unit)
    (c' : Courier) : Prop where
  tries : ∀ t ∈ earlier ++ [last], c.Tries payload wait t
  failed : ∀ t ∈ earlier, t.HasFailed
  bounded : earlier.length + 1 ≤ limit
  /-- An attempt that has failed is the last one only if no more are allowed. -/
  spent : last.HasFailed → earlier.length + 1 = limit
  /-- The first attempt begins with the connection that is held, and the others with none. -/
  first : ∀ t ∈ (earlier ++ [last]).head?, t.held = c.link
  anew : ∀ t ∈ (earlier ++ [last]).tail, t.held = none
  exchanged : exchanged ts = (earlier ++ [last]).flatMap Try.whole
  /-- The result is that of the last attempt. -/
  succeeds : result = .ok () ↔
    last.ended = .verified ∨ last.ended = .refused ∧ c.settings.throwOnFailedAck = false
  refused : result = .error (.remoteFailure c.destination.address last.id) ↔
    last.ended = .refused ∧ c.settings.throwOnFailedAck = true
  only : ∀ cause, last.ended = .failed cause → limit = 1 → result = .error cause
  exhausted : ∀ cause, last.ended = .failed cause → limit ≠ 1 →
    ∃ first cause', earlier.head? = some first ∧ first.ended = .failed cause' ∧
      result = .error (.exhausted limit cause' cause)
  connected : result ≠ .error .notConnected
  /-- Only a verified attempt makes the peer ready. -/
  ready : last.ended = .verified → ∀ h, healthAfter h ts = .ready
  unharmed : last.ended = .refused → earlier = [] → ∀ h, healthAfter h ts = h
  suspects : last.ended ≠ .verified → earlier ≠ [] ∨ last.HasFailed →
    ∀ h, healthAfter h ts = if h = .failing then .failing else .suspect
  /-- The connection of the last attempt is held unless it has failed. -/
  kept : ¬last.HasFailed → c'.link = last.left ∧ last.left.isSome = true
  dropped : last.HasFailed → c'.link = none

theorem Opens.of_alike {held : Option Link} {said : Transcript} {result : Except DeliveryError Link}
    (halike : c.Alike c') (h : c'.Opens held said result) : c.Opens held said result := by
  obtain ⟨hsettings, hself, hdestination, -⟩ := halike
  cases c
  cases c'
  dsimp only at hsettings hself hdestination
  subst hsettings hself hdestination
  cases h with
  | held link => exact .held link
  | timedOut => exact .timedOut
  | unreachable fault => exact .unreachable fault
  | speechless link hsize => exact .speechless link hsize
  | greeted link => exact .greeted link
  | ungreeted link fault => exact .ungreeted link fault

theorem Hears.of_alike {id : UInt64} {heard : Heard} {ended : Ended} (halike : c.Alike c')
    (h : c'.Hears id heard ended) : c.Hears id heard ended := by
  cases h with
  | accepted hid hkind => exact .accepted hid hkind
  | refused hid hkind => exact .refused hid hkind
  | mismatched hid => exact .mismatched hid
  | unexpected hid hack hnack => exact .unexpected hid hack hnack
  | silent => exact halike.settings ▸ halike.destination ▸ .silent
  | ended => exact halike.settings ▸ halike.destination ▸ .ended
  | failed hread => exact .failed hread

theorem Tries.of_alike {t : Try} (halike : c.Alike c') (h : c'.Tries payload wait t) :
    c.Tries payload wait t := by
  cases h with
  | unopened id hopens => exact .unopened id (hopens.of_alike halike)
  | opened hopens hcarries =>
    refine .opened (hopens.of_alike halike) ?_
    cases hcarries with
    | broken wait fault => exact halike.settings ▸ .broken wait fault
    | written => exact halike.settings ▸ .written
    | answered hhears => exact halike.settings ▸ .answered (hhears.of_alike halike)

theorem Gathered.add {causes : Causes} {made : List Try} {t : Try} {e : DeliveryError}
    (h : Gathered causes made) (hended : t.ended = .failed e) :
    Gathered (causes.add e) (made ++ [t]) := by
  cases h with
  | none => exact .one hended
  | one hfirst => exact .several [] hfirst hended
  | several between hfirst hlast => exact .several (between ++ [_]) hfirst hended

theorem disconnect_closes (hrun : c.disconnect.Runs Possible ts c' ts') :
    c' = c.dropped ∧ Adds ts (c.link.toList.map fun link => ⟨.close link, ()⟩) ts' id := by
  rw [disconnect] at hrun
  split at hrun
  next link hlink =>
    obtain ⟨closed, -, hrest⟩ := runs_possible_iff.1 hrun
    obtain ⟨rfl, rfl⟩ := runs_pure_iff.1 hrest
    rw [hlink]
    exact ⟨rfl, adds_exchanged ts rfl⟩
  next hlink =>
    obtain ⟨rfl, rfl⟩ := runs_pure_iff.1 hrun
    rw [hlink]
    exact ⟨rfl, adds_nil ts⟩

theorem going_start (c : Courier) (payload : ByteArray) (wait : Bool) :
    c.Going payload wait [] [] c where
  alike := .refl c
  tries := nofun
  failed := nofun
  first := nofun
  anew := nofun
  exchanged := rfl
  link := rfl
  health _ := rfl

variable {made : List Try} {t : Try} {outcome : Except DeliveryError Unit} {c₁ c₂ : Courier}
  {ts₁ ts₂ : Transcript}

/-- The attempt that comes next begins where the first one does, or with no connection. -/
theorem Going.next (h : c.Going payload wait made ts c')
    (ht : c'.Attempts payload wait ts t outcome c₁ ts₁) :
    (∀ t' ∈ made ++ [t], c.Tries payload wait t') ∧
      (∀ t' ∈ (made ++ [t]).head?, t'.held = c.link) ∧
      ∀ t' ∈ (made ++ [t]).tail, t'.held = none := by
  have hheld := ht.held.trans h.link
  refine ⟨fun t' hmem => ?_, ?_, ?_⟩
  · rcases List.mem_append.1 hmem with hmade | hnow
    · exact h.tries t' hmade
    · exact List.mem_singleton.1 hnow ▸ ht.tries.of_alike h.alike
  · cases made with
    | nil =>
      rintro t' ⟨⟩
      exact hheld
    | cons first rest => exact h.first
  · cases made with
    | nil => exact nofun
    | cons first rest =>
      intro t' hmem
      rcases List.mem_append.1 hmem with hmade | hnow
      · exact h.anew t' hmade
      · exact List.mem_singleton.1 hnow ▸ hheld

/-- A failed attempt is noted, and its connection is given up. -/
theorem Going.fails {e : DeliveryError} {answer : Unit} (h : c.Going payload wait made ts c')
    (ht : c'.Attempts payload wait ts t outcome c₁ ts₁) (halike : c'.Alike c₁)
    (hended : t.ended = .failed e)
    (hclosed : c₁.disconnect.Runs Possible (ts₁ ++ [⟨.mark .suspect, answer⟩]) c₂ ts₂) :
    c.Going payload wait (made ++ [t]) ts₂ c₂ := by
  obtain ⟨htries, hfirst, hanew⟩ := h.next ht
  obtain ⟨rfl, hcloses⟩ := disconnect_closes hclosed
  obtain ⟨marks, hadds, hmarks⟩ := ht.adds
  rw [hended] at hmarks
  have hall := (hadds.trans (adds_mark ts₁ .suspect answer)).trans hcloses
  have hmore : (made ++ [t]).isEmpty = false := by cases made <;> rfl
  refine ⟨h.alike.trans (halike.trans ⟨rfl, rfl, rfl, rfl⟩), htries, fun t' hmem => ?_, hfirst,
    hanew, ?_, ?_, fun health => ?_⟩
  · rcases List.mem_append.1 hmem with hmade | hnow
    · exact h.failed t' hmade
    · exact List.mem_singleton.1 hnow ▸ ⟨e, hended⟩
  · rw [hall.exchanged, h.exchanged, List.flatMap_append, List.flatMap_singleton, Try.whole,
      Try.closed, hended, ht.left, List.append_nil]
  · rw [hmore]
    rfl
  · rw [hall.health, h.health, hmore, Function.comp_apply, Function.comp_apply, id_eq, hmarks]
    split <;> cases health <;> rfl

/-- A connection is held after an attempt that has not failed. -/
theorem Tries.left_isSome (h : c.Tries payload wait t) (hnot : ¬t.HasFailed) :
    t.left.isSome = true := by
  cases h with
  | unopened => exact absurd ⟨_, rfl⟩ hnot
  | opened => rfl

theorem Try.closed_of_not_failed (hnot : ¬t.HasFailed) : t.closed = [] := by
  rw [Try.closed]
  split
  next cause hended => exact absurd ⟨cause, hended⟩ hnot
  all_goals rfl

/-- A delivery ends with an attempt that has not failed. -/
theorem Going.retries {limit : Nat} (h : c.Going payload wait made ts c')
    (ht : c'.Attempts payload wait ts t outcome c₁ ts₁) (hnot : ¬t.HasFailed)
    (hleft : made.length + 1 ≤ limit) : c.Retries payload wait limit made t ts₁ outcome c₁ := by
  obtain ⟨htries, hfirst, hanew⟩ := h.next ht
  obtain ⟨marks, hadds, hmarks⟩ := ht.adds
  have hresult : outcome = t.ended.result c t.id := by
    rw [ht.outcome]
    cases t.ended with
    | refused => simp only [Ended.result, h.alike.settings, h.alike.destination]
    | verified | failed => rfl
  have hfails {cause : DeliveryError} (hended : t.ended = .failed cause) : False :=
    hnot ⟨cause, hended⟩
  exact
    { tries := htries
      failed := h.failed
      bounded := hleft
      spent := fun hfailed => absurd hfailed hnot
      first := hfirst
      anew := hanew
      exchanged := by
        rw [hadds.exchanged, h.exchanged, List.flatMap_append, List.flatMap_singleton, Try.whole,
          Try.closed_of_not_failed hnot, List.append_nil]
      succeeds := by
        rw [hresult]
        cases hended : t.ended with
        | verified => simp [Ended.result]
        | refused => cases hthrow : c.settings.throwOnFailedAck <;> simp [Ended.result, hthrow]
        | failed cause => exact (hfails hended).elim
      refused := by
        rw [hresult]
        cases hended : t.ended with
        | verified => simp [Ended.result]
        | refused => cases hthrow : c.settings.throwOnFailedAck <;> simp [Ended.result, hthrow]
        | failed cause => exact (hfails hended).elim
      only := fun cause hended => (hfails hended).elim
      exhausted := fun cause hended => (hfails hended).elim
      connected := by
        rw [hresult]
        cases hended : t.ended with
        | verified => exact nofun
        | refused => cases hthrow : c.settings.throwOnFailedAck <;> simp [Ended.result, hthrow]
        | failed cause => exact (hfails hended).elim
      ready := fun hended health => by
        rw [hended] at hmarks
        rw [hadds.health, hmarks]
      unharmed := fun hended hnone health => by
        rw [hended] at hmarks
        rw [hadds.health, hmarks, h.health, hnone]
        rfl
      suspects := fun hended hmore health => by
        rcases hmore with hmore | hfailed
        · have hrefused : t.ended = .refused := by
            cases hcase : t.ended with
            | verified => exact absurd hcase hended
            | refused => rfl
            | failed cause => exact (hfails hcase).elim
          rw [hrefused] at hmarks
          rw [hadds.health, hmarks, h.health, if_neg (by simpa using hmore)]
          cases health <;> rfl
        · exact absurd hfailed hnot
      kept := fun _ => ⟨ht.left, ht.tries.left_isSome hnot⟩
      dropped := fun hfailed => absurd hfailed hnot }

/-- What is reported when all attempts have failed. -/
theorem Gathered.report {causes : Causes} {earlier : List Try} {last : Try} {cause : DeliveryError}
    (h : Gathered causes (earlier ++ [last])) (hlast : last.ended = .failed cause) (limit : Nat) :
    (earlier = [] ∧ causes.report limit = cause) ∨
      ∃ first rest cause', earlier = first :: rest ∧ first.ended = .failed cause' ∧
        causes.report limit = .exhausted limit cause' cause := by
  generalize hmade : earlier ++ [last] = made at h
  cases h with
  | none => simp at hmade
  | one hended =>
    obtain ⟨rfl, hsame⟩ := List.append_inj' (hmade.trans (List.nil_append _).symm) rfl
    rw [← List.singleton_inj.1 hsame, hlast] at hended
    exact .inl ⟨rfl, (Ended.failed.inj hended).symm⟩
  | several between hfirst hended =>
    rw [← List.cons_append] at hmade
    obtain ⟨rfl, hsame⟩ := List.append_inj' hmade rfl
    rw [← List.singleton_inj.1 hsame, hlast] at hended
    obtain rfl := Ended.failed.inj hended
    exact .inr ⟨_, between, _, rfl, hfirst, rfl⟩

/-- A delivery ends when no more attempts are left and all have failed. -/
theorem Going.retries_of_spent {causes : Causes} {earlier : List Try} {last : Try}
    (h : c.Going payload wait (earlier ++ [last]) ts c')
    (hcauses : Gathered causes (earlier ++ [last])) :
    c.Retries payload wait (earlier.length + 1) earlier last ts
      (.error (causes.report (earlier.length + 1))) c' := by
  obtain ⟨cause, hended⟩ := h.failed last (by simp)
  have hmendable := (h.tries last (by simp)).mendable hended
  have hreport := hcauses.report hended (earlier.length + 1)
  have hmade : (earlier ++ [last]).isEmpty = false := by cases earlier <;> rfl
  refine
    { tries := h.tries
      failed := fun t ht => h.failed t (List.mem_append_left _ ht)
      bounded := Nat.le_refl _
      spent := fun _ => rfl
      first := h.first
      anew := h.anew
      exchanged := h.exchanged
      succeeds := ?_
      refused := ?_
      only := fun cause' hcause' hone => ?_
      exhausted := fun cause' hcause' hmore => ?_
      connected := ?_
      ready := fun hready => ?_
      unharmed := fun hrefused => ?_
      suspects := fun _ _ health => ?_
      kept := fun hnot => absurd ⟨cause, hended⟩ hnot
      dropped := fun _ => ?_ }
  · simp [hended]
  · rw [hended]
    rcases hreport with ⟨-, hreport⟩ | ⟨first, rest, cause', -, -, hreport⟩ <;> rw [hreport]
    · refine iff_of_false (fun hsame => ?_) (by simp)
      rw [Except.error.inj hsame] at hmendable
      cases hmendable.1
    · simp
  · obtain rfl := Ended.failed.inj (hended.symm.trans hcause')
    rcases hreport with ⟨-, hreport⟩ | ⟨first, rest, cause', rfl, -, hreport⟩
    · rw [hreport]
    · simp at hone
  · obtain rfl := Ended.failed.inj (hended.symm.trans hcause')
    rcases hreport with ⟨rfl, hreport⟩ | ⟨first, rest, cause', rfl, hfirst, hreport⟩
    · exact absurd rfl hmore
    · exact ⟨first, cause', rfl, hfirst, by rw [hreport]⟩
  · rcases hreport with ⟨-, hreport⟩ | ⟨first, rest, cause', -, -, hreport⟩ <;> rw [hreport]
    · exact fun hsame => hmendable.2 (Except.error.inj hsame)
    · exact nofun
  · cases hended.symm.trans hready
  · cases hended.symm.trans hrefused
  · rw [h.health, hmade]
    cases health <;> rfl
  · rw [h.link, hmade]
    rfl

/-! ## The loop -/

/-- The attempts that are left when the connection of the one before has been given up. -/
def furtherAttempts (payload : ByteArray) (wait : Bool) (limit : Nat) :
    (left : Nat) → Causes → Courier → Exchange (Except DeliveryError Unit × Courier)
  | 0, causes, c => pure (.error (causes.report limit), c)
  | left + 1, causes, c => c.attempt payload wait >>= fun
    | (.ok (), c) => pure (.ok (), c)
    | (.error e, c) =>
      if e.isRetryable then do
        request (.mark .suspect)
        c.attemptUpTo payload wait limit left (causes.add e)
      else pure (.error e, c)

theorem attemptUpTo_add (payload : ByteArray) (wait : Bool) (limit left : Nat) (causes : Causes)
    (e : DeliveryError) (c : Courier) :
    c.attemptUpTo payload wait limit left (causes.add e) =
      c.disconnect >>= furtherAttempts payload wait limit left (causes.add e) := by
  cases left with
  | zero => rfl
  | succ left =>
    rw [Delivery.attemptUpTo_succ]
    cases causes <;> rfl

/-- **The loop.** Attempts follow each other until one has not failed or none is left. -/
theorem further_retries {limit left : Nat} {causes : Causes} {result : Except DeliveryError Unit}
    (h : c.Going payload wait made ts c₁) (hcauses : Gathered causes made)
    (hcount : made.length + left = limit) (hmade : made = [] → left ≠ 0)
    (hrun : (furtherAttempts payload wait limit left causes c₁).Runs Possible ts (result, c') ts') :
    ∃ earlier last, c.Retries payload wait limit earlier last ts' result c' := by
  induction left generalizing made causes c₁ ts with
  | zero =>
    obtain ⟨hresult, rfl⟩ := runs_pure_iff.1 hrun
    obtain ⟨rfl, rfl⟩ := Prod.mk.inj hresult
    obtain ⟨earlier, last, rfl⟩ := made.eq_nil_or_concat'.resolve_left fun hnil => hmade hnil rfl
    rw [List.length_append] at hcount
    subst hcount
    exact ⟨earlier, last, h.retries_of_spent hcauses⟩
  | succ left ih =>
    obtain ⟨⟨outcome, c₂⟩, ts₁, hattempt, hrest⟩ := runs_bind_iff.1 hrun
    obtain ⟨t, ht⟩ := attempt_tries hattempt
    -- A success and a refusal that has to fail end the delivery; neither has failed.
    have hends (hnot : ¬t.HasFailed) (hrest : result = outcome ∧ c' = c₂ ∧ ts' = ts₁) :
        ∃ earlier last, c.Retries payload wait limit earlier last ts' result c' := by
      obtain ⟨rfl, rfl, rfl⟩ := hrest
      exact ⟨made, t, h.retries ht hnot (by omega)⟩
    cases outcome with
    | ok u =>
      obtain ⟨hresult, rfl⟩ := runs_pure_iff.1 hrest
      obtain ⟨rfl, rfl⟩ := Prod.mk.inj hresult
      refine hends (fun hfailed => ?_) ⟨rfl, rfl, rfl⟩
      obtain ⟨cause, hended⟩ := hfailed
      have houtcome := ht.outcome
      rw [hended] at houtcome
      cases houtcome
    | error e =>
      dsimp only at hrest
      cases hended : t.ended with
      | verified =>
        have houtcome := ht.outcome
        rw [hended] at houtcome
        cases houtcome
      | refused =>
        have houtcome := ht.outcome
        rw [hended, Ended.result] at houtcome
        split at houtcome
        · obtain rfl := Except.error.inj houtcome
          obtain ⟨hresult, rfl⟩ := runs_pure_iff.1 hrest
          obtain ⟨rfl, rfl⟩ := Prod.mk.inj hresult
          exact hends (by simp [Try.HasFailed, hended]) ⟨rfl, rfl, rfl⟩
        · cases houtcome
      | failed cause =>
        have houtcome := ht.outcome
        rw [hended] at houtcome
        obtain rfl := Except.error.inj houtcome
        rw [if_pos (ht.tries.mendable hended).1] at hrest
        obtain ⟨marked, -, hrest⟩ := runs_possible_iff.1 hrest
        rw [attemptUpTo_add] at hrest
        obtain ⟨c₃, ts₂, hclosed, hrest⟩ := runs_bind_iff.1 hrest
        refine ih (h.fails ht (alike_attempt hattempt) hended hclosed) (hcauses.add hended) ?_
          (fun hnil => by simp at hnil) hrest
        rw [List.length_append, List.length_singleton]
        omega

/-! ## Connections -/

/-- Whether a frame is written or awaited on a connection. -/
def Said.Uses (x : Said) (link : Link) : Prop :=
  (∃ f ms, x.1 = .write link f ms) ∨ ∃ ms, x.1 = .read link ms

/-- Every connection that an attempt uses has been opened in it. -/
def Try.UsesOwn (t : Try) : Prop :=
  ∀ x ∈ t.said, ∀ link, Said.Uses x link →
    ∃ address settings, ⟨.dial address settings, .connected link⟩ ∈ t.said

theorem Said.not_uses_dial {address : String} {settings : Settings.Delivery} {answer : Dialled}
    {link : Link} : ¬Said.Uses ⟨.dial address settings, answer⟩ link := by
  rintro (⟨f, ms, h⟩ | ⟨ms, h⟩) <;> cases h

theorem Said.not_uses_close {link link' : Link} {answer : Unit} :
    ¬Said.Uses ⟨.close link', answer⟩ link := by
  rintro (⟨f, ms, h⟩ | ⟨ms, h⟩) <;> cases h

theorem Said.uses_write {link link' : Link} {f : Frame} {ms : Nat} {answer : Except IoFault Unit}
    (h : Said.Uses ⟨.write link' f ms, answer⟩ link) : link = link' := by
  rcases h with ⟨f, ms, h⟩ | ⟨ms, h⟩ <;> cases h
  rfl

theorem Said.uses_read {link link' : Link} {ms : Nat} {heard : Heard}
    (h : Said.Uses ⟨.read link' ms, heard⟩ link) : link = link' := by
  rcases h with ⟨f, ms, h⟩ | ⟨ms, h⟩ <;> cases h
  rfl

theorem Opens.usesOwn {said : Transcript} {result : Except DeliveryError Link}
    (h : c.Opens none said result) {x : Said} (hx : x ∈ said) {link : Link}
    (huses : Said.Uses x link) :
    ∃ address settings, ⟨.dial address settings, .connected link⟩ ∈ said := by
  cases h with
  | timedOut | unreachable =>
    obtain rfl := List.mem_singleton.1 hx
    exact absurd huses Said.not_uses_dial
  | speechless =>
    obtain rfl | hx := List.mem_cons.1 hx
    · exact absurd huses Said.not_uses_dial
    · obtain rfl := List.mem_singleton.1 hx
      exact absurd huses Said.not_uses_close
  | greeted =>
    obtain rfl | hx := List.mem_cons.1 hx
    · exact absurd huses Said.not_uses_dial
    · obtain rfl := List.mem_singleton.1 hx
      obtain rfl := Said.uses_write huses
      exact ⟨_, _, List.mem_cons_self⟩
  | ungreeted =>
    obtain rfl | hx := List.mem_cons.1 hx
    · exact absurd huses Said.not_uses_dial
    · obtain rfl | hx := List.mem_cons.1 hx
      · obtain rfl := Said.uses_write huses
        exact ⟨_, _, List.mem_cons_self⟩
      · obtain rfl := List.mem_singleton.1 hx
        exact absurd huses Said.not_uses_close

theorem Opens.dialled {said : Transcript} {link : Link} (h : c.Opens none said (.ok link)) :
    ⟨.dial c.destination.address c.settings, .connected link⟩ ∈ said := by
  cases h
  exact List.mem_cons_self

theorem Carries.uses {link link' : Link} {id : UInt64} {said : Transcript} {ended : Ended}
    (h : c.Carries payload link id wait said ended) {x : Said} (hx : x ∈ said)
    (huses : Said.Uses x link') : link' = link := by
  cases h with
  | broken | written =>
    obtain rfl := List.mem_singleton.1 hx
    exact Said.uses_write huses
  | answered =>
    obtain rfl | hx := List.mem_cons.1 hx
    · exact Said.uses_write huses
    · obtain rfl := List.mem_singleton.1 hx
      exact Said.uses_read huses

theorem Tries.usesOwn (h : c.Tries payload wait t) (hheld : t.held = none) : t.UsesOwn := by
  cases h with
  | unopened id hopens =>
    obtain rfl := hheld
    intro x hx link huses
    exact hopens.usesOwn hx huses
  | opened hopens hcarries =>
    obtain rfl := hheld
    intro x hx link huses
    rcases List.mem_append.1 hx with hx | hx
    · obtain ⟨address, settings, hdialled⟩ := hopens.usesOwn hx huses
      exact ⟨address, settings, List.mem_append_left _ hdialled⟩
    · rw [hcarries.uses hx huses]
      exact ⟨_, _, List.mem_append_left _ hopens.dialled⟩

theorem attemptUpTo_none (payload : ByteArray) (wait : Bool) (limit left : Nat) (c : Courier) :
    c.attemptUpTo payload wait limit (left + 1) .none =
      furtherAttempts payload wait limit (left + 1) .none c := by
  rw [Delivery.attemptUpTo_succ]
  rfl

/-- **Bounded retry.** Whatever the world answers, a delivery of a payload that fits into a frame can be
carried out to its end, and then it is a list of attempts, of which all but the last have failed. -/
theorem send_retries (c : Courier) (payload : ByteArray) (wait : Bool)
    (hfits : Frame.headerSize + payload.size ≤ Frame.maxSize) :
    (∃ result c' ts, (c.send payload wait).Runs Possible [] (result, c') ts) ∧
      ∀ result c' ts, (c.send payload wait).Runs Possible [] (result, c') ts →
        ∃ earlier last, c.Retries payload wait
          (min (c.settings.maxRetryAttempts.toNat + 1) (UInt32.size - 1)) earlier last ts result c' ∧
          ∀ t ∈ (earlier ++ [last]).tail, t.UsesOwn := by
  constructor
  · exact ⟨_, _, _, runs_answered (c.send payload wait) isPossible_offline []⟩
  · intro result c' ts hrun
    have hsize : Frame.checkSize (Frame.headerSize + payload.size) = .ok () :=
      Frame.checkSize_eq_ok_iff.2 hfits
    rw [send, hsize] at hrun
    obtain ⟨left, hleft⟩ := Delivery.exists_attempts_eq_succ c.settings
    dsimp only at hrun
    rw [hleft, attemptUpTo_none] at hrun
    obtain ⟨earlier, last, hretries⟩ := further_retries
      (going_start c payload wait) .none (Nat.zero_add (left + 1)) (fun _ => Nat.succ_ne_zero _) hrun
    rw [← hleft] at hretries
    refine ⟨earlier, last, hretries, fun t ht => ?_⟩
    exact (hretries.tries t (List.mem_of_mem_tail ht)).usesOwn (hretries.anew t ht)

/-- How a peer answers that takes every message and never says anything, and to which no connection can
be opened. -/
def silently : (q : Ask) → q.Answer
  | .write .. => .ok ()
  | q => offline q

/-- A courier writes its message on the connection that it holds, hears nothing, and then cannot open
another connection. -/
theorem send_retries_of_silent_peer :
    let c : Courier := { Delivery.novice with link := some ⟨7⟩ }
    let payload := "hello".toUTF8
    let result : Except DeliveryError Unit := .error (.exhausted 2
      (.ackTimeout c.destination.address 3000) (.connectTimeout c.destination.address 3000))
    Frame.headerSize + payload.size ≤ Frame.maxSize ∧
      ∃ c' ts earlier last, (c.send payload true).Runs Possible [] (result, c') ts ∧
        c.Retries payload true 2 earlier last ts result c' ∧ c'.link = none ∧
        healthAfter .ready ts = .suspect := by
  intro c payload result
  have hfits : Frame.headerSize + payload.size ≤ Frame.maxSize := by decide +kernel
  have hpossible : ∀ q, IsPossible q (silently q) := fun q => by cases q <;> trivial
  obtain ⟨c', ts, hrun⟩ : ∃ c' ts, (c.send payload true).Runs Possible [] (result, c') ts :=
    ⟨_, _, runs_answered (c.send payload true) hpossible []⟩
  obtain ⟨earlier, last, hretries, -⟩ := (send_retries c payload true hfits).2 _ _ _ hrun
  have hfailed : last.HasFailed := by
    cases hended : last.ended with
    | verified => exact absurd (hretries.succeeds.2 (.inl hended)) (by simp [result])
    | refused => exact absurd (hretries.refused.2 ⟨hended, rfl⟩) (by simp [result])
    | failed cause => exact ⟨cause, hended⟩
  have hnot : last.ended ≠ .verified := by
    obtain ⟨cause, hended⟩ := hfailed
    rw [hended]
    exact nofun
  exact ⟨hfits, c', ts, earlier, last, hrun, hretries, hretries.dropped hfailed,
    hretries.suspects hnot (.inr hfailed) .ready⟩

end Courier

end PeerCluster
