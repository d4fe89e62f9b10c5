import PeerCluster.Proofs.Services

/-!
# What is said in a delivery

**Transcripts** (`Written`). The world answers as it likes, and everything that a plan asks is written
down with its answer. A plan can always be carried out to its end (`exists_written`).

**Verified attempts** (`IsVerified`). An attempt has been verified when its message has been written
and, if the peer was asked for an answer, the next thing heard on the connection is that this message was
accepted. This is read off the transcript, not off what the courier makes of it.

**Marks** (`send_written`). A delivery that ends with a verified attempt succeeds, and marks its peer
ready as the last thing it does. Any other delivery never marks its peer ready, and succeeds only if the
settings tolerate that a message was not accepted. The only other mark is suspect.
-/

namespace PeerCluster

/-! ## Transcripts -/

namespace Exchange

variable {α : Type}

/-- Something that was asked of the world, and the answer. -/
abbrev Said :=
  (q : Ask) × q.Answer

/-- Everything that was asked and answered. -/
abbrev Transcript :=
  List Said

/-- The world answers as it likes, and everything is written down. -/
def Written : Answering Transcript := fun ts q answer ts' =>
  ts' = ts ++ [⟨q, answer⟩]

theorem runs_written_iff {q : Ask} {f : q.Answer → Exchange α} {a : α} {ts ts' : Transcript} :
    (request q >>= f).Runs Written ts a ts' ↔
      ∃ answer, (f answer).Runs Written (ts ++ [⟨q, answer⟩]) a ts' := by
  rw [runs_request_bind_iff]
  constructor
  · intro hall
    rcases hall with ⟨answer, _, rfl, hrun⟩
    exact ⟨answer, hrun⟩
  · intro hall
    rcases hall with ⟨answer, hrun⟩
    exact ⟨answer, _, rfl, hrun⟩

/-- Nothing that was written down is lost. -/
theorem Runs.prefix {x : Exchange α} {a : α} {ts ts' : Transcript}
    (h : x.Runs Written ts a ts') : ts <+: ts' := by
  induction h with
  | done => exact List.prefix_rfl
  | ask hanswer _ ih =>
    obtain rfl := hanswer
    exact (List.prefix_append ..).trans ih

/-- Whatever happens in any world can be written down. -/
theorem Runs.written {σ : Type} {answers : Answering σ} {x : Exchange α} {a : α} {s s' : σ}
    (h : x.Runs answers s a s') (ts : Transcript) : ∃ ts', x.Runs Written ts a ts' := by
  induction h generalizing ts with
  | done s a => exact ⟨ts, .done ts a⟩
  | @ask _ _ _ q answer _ _ _ _ ih =>
    obtain ⟨ts', hrun⟩ := ih (ts ++ [⟨q, answer⟩])
    exact ⟨ts', .ask rfl hrun⟩

/-- Whatever is asked can be answered, so a plan can be carried out to its end. -/
theorem exists_written (x : Exchange α) (ts : Transcript) :
    ∃ a ts', x.Runs Written ts a ts' := by
  induction x generalizing ts with
  | done a => exact ⟨a, ts, .done ts a⟩
  | ask q next ih =>
    obtain ⟨a, ts', hrun⟩ := ih (offline q) (ts ++ [⟨q, offline q⟩])
    exact ⟨a, ts', .ask rfl hrun⟩

/-- Whether something was done with a connection, and not only noted. -/
def Said.isExchanged (x : Said) : Bool :=
  match x.1 with
  | .clock | .mark _ => false
  | .dial .. | .write .. | .read .. | .close _ => true

/-- What was exchanged with the peer. -/
def exchanged (ts : Transcript) : Transcript :=
  ts.filter Said.isExchanged

theorem exchanged_append (ts ts' : Transcript) :
    exchanged (ts ++ ts') = exchanged ts ++ exchanged ts' :=
  List.filter_append ..

theorem exchanged_concat (ts : Transcript) {x : Said} (hx : x.isExchanged = true) :
    exchanged (ts ++ [x]) = exchanged ts ++ [x] := by
  simp [exchanged, hx]

theorem exchanged_concat_of_not (ts : Transcript) {x : Said} (hx : x.isExchanged = false) :
    exchanged (ts ++ [x]) = exchanged ts := by
  simp [exchanged, hx]

/-! ## Verified attempts -/

variable {payload : ByteArray} {wait : Bool} {ts ts' : Transcript}

/-- What was exchanged ends with a verified attempt: the message was written, and if the peer was
asked for an answer, what was heard next is the acceptance of this message. -/
inductive IsVerified (payload : ByteArray) : Bool → Transcript → Prop
  | written (before : Transcript) (link : Link) (id : UInt64) (ms : Nat) :
    IsVerified payload false (before ++ [⟨.write link (.message id payload false) ms, .ok ()⟩])
  | accepted (before : Transcript) (link : Link) (ms ms' : Nat) {id : UInt64} {f : Frame} :
    f.kind = .ack → f.id = id →
    IsVerified payload true (before ++
      [⟨.write link (.message id payload true) ms, .ok ()⟩, ⟨.read link ms', .frame f⟩])

/-- What was exchanged before does not matter. -/
theorem IsVerified.prepend (h : IsVerified payload wait ts) (front : Transcript) :
    IsVerified payload wait (front ++ ts) := by
  cases h with
  | written before link id ms =>
    rw [← List.append_assoc]
    exact .written (front ++ before) link id ms
  | accepted before link ms ms' hkind hid =>
    rw [← List.append_assoc]
    exact .accepted (front ++ before) link ms ms' hkind hid

/-- An attempt is only verified by its message that was written, or by an answer. -/
theorem IsVerified.last {x : Said} (h : IsVerified payload wait (ts ++ [x])) :
    (∃ link id ms, x = ⟨.write link (.message id payload false) ms, .ok ()⟩ ∧ wait = false) ∨
      ∃ before link ms ms' f, ts = before ++ [⟨.write link (.message f.id payload true) ms, .ok ()⟩] ∧
        x = ⟨.read link ms', .frame f⟩ ∧ f.kind = .ack := by
  generalize hall : ts ++ [x] = all at h
  cases h with
  | written before link id ms =>
    obtain ⟨-, hx⟩ := List.append_inj' hall rfl
    exact .inl ⟨link, id, ms, List.singleton_inj.1 hx, rfl⟩
  | @accepted before link ms ms' id f hkind hid =>
    rw [List.append_cons before] at hall
    obtain ⟨hbefore, hx⟩ := List.append_inj' hall rfl
    exact .inr ⟨before, link, ms, ms', f, hid ▸ hbefore, List.singleton_inj.1 hx, hkind⟩

/-- The peer is never marked but as suspect. -/
def OnlySuspects (ts : Transcript) : Prop :=
  ∀ next, ⟨.mark next, ()⟩ ∈ ts → next = .suspect

/-- A transcript that leaves open whether the message has been accepted. -/
structure Doubtful (payload : ByteArray) (wait : Bool) (ts : Transcript) : Prop where
  marks : OnlySuspects ts
  unverified : ¬IsVerified payload wait (exchanged ts)

/-- A transcript that ends with a verified attempt, and with the mark that the peer is ready. -/
def Proven (payload : ByteArray) (wait : Bool) (ts : Transcript) : Prop :=
  ∃ before, ts = before ++ [⟨.mark .ready, ()⟩] ∧ OnlySuspects before ∧
    IsVerified payload wait (exchanged before)

theorem doubtful_nil : Doubtful payload wait [] where
  marks := nofun
  unverified h := by
    generalize hnil : exchanged [] = all at h
    cases h <;> simp [exchanged] at hnil

theorem OnlySuspects.concat (h : OnlySuspects ts) {q : Ask} (answer : q.Answer)
    (hq : ∀ next, q = .mark next → next = .suspect) : OnlySuspects (ts ++ [⟨q, answer⟩]) := by
  intro next hnext
  rcases List.mem_append.1 hnext with hbefore | hnow
  · exact h next hbefore
  · exact hq next (congrArg Sigma.fst (List.mem_singleton.1 hnow)).symm

/-- What is only noted leaves everything open if it is not that the peer is ready. -/
theorem Doubtful.notes (h : Doubtful payload wait ts) {q : Ask} (answer : q.Answer)
    (hq : q = .clock ∨ q = .mark .suspect) : Doubtful payload wait (ts ++ [⟨q, answer⟩]) where
  marks := h.marks.concat answer <| by
    rcases hq with rfl | rfl
    · exact nofun
    · exact fun next heq => (Ask.mark.inj heq).symm
  unverified := by
    rw [exchanged_concat_of_not]
    · exact h.unverified
    · rcases hq with rfl | rfl <;> rfl

/-- What is exchanged leaves everything open if it does not verify the attempt. -/
theorem Doubtful.exchanges (h : Doubtful payload wait ts) {q : Ask} (answer : q.Answer)
    (hq : Said.isExchanged ⟨q, answer⟩ = true)
    (hnot : ¬IsVerified payload wait (exchanged ts ++ [⟨q, answer⟩])) :
    Doubtful payload wait (ts ++ [⟨q, answer⟩]) where
  marks := h.marks.concat answer <| by
    rintro next rfl
    cases hq
  unverified := by
    rw [exchanged_concat ts hq]
    exact hnot

theorem Doubtful.dials (h : Doubtful payload wait ts) (address : String)
    (settings : Settings.Delivery) (answer : Dialled) :
    Doubtful payload wait (ts ++ [⟨.dial address settings, answer⟩]) := by
  refine h.exchanges _ rfl fun hverified => ?_
  obtain ⟨link, id, ms, hlast, -⟩ | ⟨before, link, ms, ms', f, -, hlast, -⟩ := hverified.last <;>
    cases hlast

theorem Doubtful.closes (h : Doubtful payload wait ts) (link : Link) (answer : Unit) :
    Doubtful payload wait (ts ++ [⟨.close link, answer⟩]) := by
  refine h.exchanges _ rfl fun hverified => ?_
  obtain ⟨link, id, ms, hlast, -⟩ | ⟨before, link, ms, ms', f, -, hlast, -⟩ := hverified.last <;>
    cases hlast

/-- A message that was written verifies the attempt only if no answer was asked for. -/
theorem Doubtful.writes (h : Doubtful payload wait ts) (link : Link) (f : Frame) (ms : Nat)
    (answer : Except IoFault Unit)
    (hnot : wait = false → answer = .ok () → f.kind ≠ .message) :
    Doubtful payload wait (ts ++ [⟨.write link f ms, answer⟩]) := by
  refine h.exchanges _ rfl fun hverified => ?_
  obtain ⟨link, id, ms, hlast, hwait⟩ | ⟨before, link, ms, ms', f, -, hlast, -⟩ := hverified.last
  · cases hlast
    exact hnot hwait rfl rfl
  · cases hlast

section Sent

/-! After a message has been written -/

variable {before : Transcript} {link : Link} {id : UInt64} {ms : Nat}

/-- An answer that is no acceptance of the message leaves everything open. -/
theorem doubtful_of_answer (hmarks : OnlySuspects ts)
    (hsent : exchanged ts = before ++ [⟨.write link (.message id payload wait) ms, .ok ()⟩])
    (ms' : Nat) {heard : Heard} (hnot : ∀ f, heard = .frame f → f.kind = .ack → f.id ≠ id) :
    Doubtful payload wait (ts ++ [⟨.read link ms', heard⟩]) where
  marks := hmarks.concat (q := .read link ms') heard nofun
  unverified h := by
    rw [exchanged_concat ts rfl, hsent] at h
    obtain ⟨_, _, _, hlast, -⟩ | ⟨before', link', ms₁, ms₂, f, hsaid, hlast, hkind⟩ := h.last
    · cases hlast
    · cases hlast
      obtain ⟨-, hmessage⟩ := List.append_inj' hsaid rfl
      have hframe := (Ask.write.inj (Sigma.mk.inj (List.singleton_inj.1 hmessage)).1).2.1
      exact hnot f rfl hkind (congrArg Frame.id hframe).symm

theorem proven_of_acceptance (hmarks : OnlySuspects ts)
    (hsent : exchanged ts = before ++ [⟨.write link (.message id payload true) ms, .ok ()⟩])
    (ms' : Nat) {f : Frame} (hkind : f.kind = .ack) (hid : f.id = id) :
    Proven payload true (ts ++ [⟨.read link ms', .frame f⟩] ++ [⟨.mark .ready, ()⟩]) := by
  refine ⟨_, rfl, hmarks.concat (q := .read link ms') _ nofun, ?_⟩
  rw [exchanged_concat ts rfl, hsent, ← List.append_cons]
  exact .accepted before link ms ms' hkind hid

theorem proven_of_message (hmarks : OnlySuspects ts)
    (hsent : exchanged ts = before ++ [⟨.write link (.message id payload false) ms, .ok ()⟩]) :
    Proven payload false (ts ++ [⟨.mark .ready, ()⟩]) :=
  ⟨ts, rfl, hmarks, hsent ▸ .written before link id ms⟩

end Sent

end Exchange

/-! ## What a courier says -/

namespace Courier

open Exchange

variable {payload : ByteArray} {wait : Bool} {ts ts' : Transcript} {c c' : Courier}

theorem doubtful_dial (h : Doubtful payload wait ts) {result : Except DeliveryError Link}
    (hrun : c.dial.Runs Written ts result ts') : Doubtful payload wait ts' := by
  rw [dial, runs_written_iff] at hrun
  obtain ⟨dialled, hrun⟩ := hrun
  have hdialled := h.dials c.destination.address c.settings dialled
  cases dialled with
  | timedOut | failed =>
    obtain ⟨-, rfl⟩ := runs_pure_iff.1 hrun
    exact hdialled
  | connected link =>
    cases hsize : Frame.checkSize (Frame.ofHandshake c.self).wireSize with
    | error e =>
      simp only [hsize] at hrun
      obtain ⟨_, hrun⟩ := runs_written_iff.1 hrun
      obtain ⟨-, rfl⟩ := runs_pure_iff.1 hrun
      exact hdialled.closes link _
    | ok u =>
      simp only [hsize] at hrun
      obtain ⟨written, hrun⟩ := runs_written_iff.1 hrun
      have hkind : (Frame.ofHandshake c.self).kind = .handshake := rfl
      have hgreeted := hdialled.writes link (.ofHandshake c.self)
        c.settings.readTimeoutMs.toNat written (by simp [hkind])
      cases written with
      | ok u =>
        obtain ⟨-, rfl⟩ := runs_pure_iff.1 hrun
        exact hgreeted
      | error fault =>
        obtain ⟨_, hrun⟩ := runs_written_iff.1 hrun
        obtain ⟨-, rfl⟩ := runs_pure_iff.1 hrun
        exact hgreeted.closes link _

theorem doubtful_connect (h : Doubtful payload wait ts) {result : Except DeliveryError Link × Courier}
    (hrun : c.connect.Runs Written ts result ts') : Doubtful payload wait ts' := by
  rw [connect] at hrun
  split at hrun
  · obtain ⟨-, rfl⟩ := runs_pure_iff.1 hrun
    exact h
  · obtain ⟨dialled, ts₁, hdial, hrun⟩ := runs_bind_iff.1 hrun
    have hdialled := doubtful_dial h hdial
    cases dialled with
    | ok link =>
      obtain ⟨now, hrun⟩ := runs_written_iff.1 hrun
      obtain ⟨-, rfl⟩ := runs_pure_iff.1 hrun
      exact hdialled.notes _ (.inl rfl)
    | error e =>
      obtain ⟨_, hrun⟩ := runs_written_iff.1 hrun
      obtain ⟨-, rfl⟩ := runs_pure_iff.1 hrun
      exact hdialled.notes _ (.inr rfl)

theorem doubtful_disconnect (h : Doubtful payload wait ts)
    (hrun : c.disconnect.Runs Written ts c' ts') : Doubtful payload wait ts' := by
  rw [disconnect] at hrun
  split at hrun
  · obtain ⟨_, hrun⟩ := runs_written_iff.1 hrun
    obtain ⟨-, rfl⟩ := runs_pure_iff.1 hrun
    exact h.closes _ _
  · obtain ⟨-, rfl⟩ := runs_pure_iff.1 hrun
    exact h

theorem throwOnFailedAck_of_tolerated {id : UInt64} {heard : Heard}
    (h : c.judge id heard = .tolerated) : c.settings.throwOnFailedAck = false := by
  cases heard with
  | timedOut | ended | failed => cases h
  | frame f =>
    simp only [judge] at h
    split at h
    · cases h
    · split at h
      · cases h
      · split at h
        · cases h
        · exact Bool.eq_false_iff.2 ‹_›
      · cases h

theorem judge_eq_verified_iff {id : UInt64} {heard : Heard} :
    c.judge id heard = .verified ↔ ∃ f, heard = .frame f ∧ f.kind = .ack ∧ f.id = id := by
  cases heard with
  | timedOut | ended | failed => simp [judge]
  | frame f =>
    by_cases hid : f.id = id
    · cases hkind : f.kind <;> simp [judge, hid, hkind]
      split <;> simp
    · simp [judge, hid]

/-- How an attempt or a delivery ends: it was verified, or everything is left open. Then it is a
success at most by the settings, which may tolerate that a message was not accepted. -/
def Concludes (c : Courier) (payload : ByteArray) (wait : Bool) (result : Except DeliveryError Unit)
    (ts : Transcript) : Prop :=
  (result = .ok () ∧ Proven payload wait ts) ∨
    (Doubtful payload wait ts ∧ (result = .ok () → c.settings.throwOnFailedAck = false))

theorem Concludes.doubtful {result : Except DeliveryError Unit}
    (h : c.Concludes payload wait result ts) (hresult : result ≠ .ok ()) :
    Doubtful payload wait ts := by
  rcases h with ⟨hok, -⟩ | ⟨hdoubtful, -⟩
  · exact absurd hok hresult
  · exact hdoubtful

theorem attempt_written (h : Doubtful payload wait ts) {result : Except DeliveryError Unit}
    (hrun : (c.attempt payload wait).Runs Written ts (result, c') ts') :
    c.Concludes payload wait result ts' := by
  rw [attempt] at hrun
  obtain ⟨⟨connected, c₁⟩, ts₁, hconnect, hrun⟩ := runs_bind_iff.1 hrun
  have hopened := doubtful_connect h hconnect
  have hsettings : c₁.settings = c.settings := (alike_connect hconnect).settings
  cases connected with
  | error e =>
    obtain ⟨hresult, rfl⟩ := runs_pure_iff.1 hrun
    obtain ⟨rfl, -⟩ := Prod.mk.inj hresult
    exact .inr ⟨hopened, by simp⟩
  | ok link =>
    obtain ⟨written, hrun⟩ := runs_written_iff.1 hrun
    cases written with
    | error fault =>
      obtain ⟨hresult, rfl⟩ := runs_pure_iff.1 hrun
      obtain ⟨rfl, -⟩ := Prod.mk.inj hresult
      exact .inr ⟨hopened.writes link _ _ _ (by simp), by simp⟩
    | ok u =>
      obtain ⟨now, hrun⟩ := runs_written_iff.1 hrun
      -- What has been exchanged so far ends with the message.
      let message : Said :=
        ⟨.write link (.message c₁.nextId payload wait) c₁.settings.readTimeoutMs.toNat, .ok ()⟩
      have hsent : exchanged (ts₁ ++ [message] ++ [⟨.clock, now⟩]) = exchanged ts₁ ++ [message] := by
        rw [exchanged_concat_of_not _ rfl, exchanged_concat _ rfl]
      have hmarks : OnlySuspects (ts₁ ++ [message] ++ [⟨.clock, now⟩]) :=
        (hopened.marks.concat (q := message.1) _ (by simp)).concat (q := .clock) _ (by simp)
      cases wait with
      | false =>
        obtain ⟨_, hrun⟩ := runs_written_iff.1 hrun
        obtain ⟨hresult, rfl⟩ := runs_pure_iff.1 hrun
        obtain ⟨rfl, -⟩ := Prod.mk.inj hresult
        exact .inl ⟨rfl, proven_of_message hmarks hsent⟩
      | true =>
        obtain ⟨heard, hrun⟩ := runs_written_iff.1 hrun
        split at hrun
        · rename_i hverdict
          obtain ⟨f, rfl, hkind, hid⟩ := judge_eq_verified_iff.1 hverdict
          obtain ⟨_, hrun⟩ := runs_written_iff.1 hrun
          obtain ⟨hresult, rfl⟩ := runs_pure_iff.1 hrun
          obtain ⟨rfl, -⟩ := Prod.mk.inj hresult
          exact .inl ⟨rfl, proven_of_acceptance hmarks hsent _ hkind hid⟩
        · rename_i hverdict
          obtain ⟨-, rfl⟩ := runs_pure_iff.1 hrun
          refine .inr ⟨doubtful_of_answer hmarks hsent _ fun f hheard hkind hid => ?_,
            fun _ => hsettings ▸ throwOnFailedAck_of_tolerated hverdict⟩
          rw [judge_eq_verified_iff.2 ⟨f, hheard, hkind, hid⟩] at hverdict
          cases hverdict
        · rename_i e hverdict
          obtain ⟨hresult, rfl⟩ := runs_pure_iff.1 hrun
          obtain ⟨rfl, -⟩ := Prod.mk.inj hresult
          refine .inr ⟨doubtful_of_answer hmarks hsent _ fun f hheard hkind hid => ?_, by simp⟩
          rw [judge_eq_verified_iff.2 ⟨f, hheard, hkind, hid⟩] at hverdict
          cases hverdict

theorem attemptUpTo_written {attempts left : Nat} {causes : Causes}
    (h : Doubtful payload wait ts) {result : Except DeliveryError Unit}
    (hrun : (c.attemptUpTo payload wait attempts left causes).Runs Written ts (result, c') ts') :
    c.Concludes payload wait result ts' := by
  induction left generalizing causes c ts with
  | zero =>
    rw [attemptUpTo] at hrun
    obtain ⟨c₁, ts₁, hdisconnect, hrun⟩ := runs_bind_iff.1 hrun
    obtain ⟨hresult, rfl⟩ := runs_pure_iff.1 hrun
    obtain ⟨rfl, -⟩ := Prod.mk.inj hresult
    exact .inr ⟨doubtful_disconnect h hdisconnect, by simp⟩
  | succ left ih =>
    rw [Delivery.attemptUpTo_succ] at hrun
    obtain ⟨c₁, ts₁, hprepare, hrun⟩ := runs_bind_iff.1 hrun
    obtain ⟨hprepared, hsettings⟩ :
        Doubtful payload wait ts₁ ∧ c₁.settings = c.settings := by
      cases causes with
      | none =>
        obtain ⟨rfl, rfl⟩ := runs_pure_iff.1 hprepare
        exact ⟨h, rfl⟩
      | one | several =>
        exact ⟨doubtful_disconnect h hprepare, (alike_disconnect hprepare).settings⟩
    obtain ⟨⟨outcome, c₂⟩, ts₂, hattempt, hrun⟩ := runs_bind_iff.1 hrun
    have hattempted := attempt_written hprepared hattempt
    rw [Concludes, hsettings] at hattempted
    cases outcome with
    | ok u =>
      obtain ⟨hresult, rfl⟩ := runs_pure_iff.1 hrun
      exact (Prod.mk.inj hresult).1 ▸ hattempted
    | error e =>
      have hdoubtful := Concludes.doubtful hattempted (by simp)
      dsimp only at hrun
      split at hrun
      · obtain ⟨_, hrun⟩ := runs_written_iff.1 hrun
        have hends := ih (hdoubtful.notes _ (.inr rfl)) hrun
        rwa [Concludes, (alike_attempt hattempt).settings, hsettings] at hends
      · obtain ⟨hresult, rfl⟩ := runs_pure_iff.1 hrun
        obtain ⟨rfl, -⟩ := Prod.mk.inj hresult
        exact .inr ⟨hdoubtful, by simp⟩

/-- A whole delivery ends with a verified attempt, and then it succeeds, or it leaves everything
open. -/
theorem send_written {result : Except DeliveryError Unit}
    (hrun : (c.send payload wait).Runs Written [] (result, c') ts) :
    c.Concludes payload wait result ts := by
  rw [send] at hrun
  split at hrun
  · obtain ⟨hresult, rfl⟩ := runs_pure_iff.1 hrun
    obtain ⟨rfl, -⟩ := Prod.mk.inj hresult
    exact .inr ⟨doubtful_nil, by simp⟩
  · exact attemptUpTo_written doubtful_nil hrun

end Courier

end PeerCluster
