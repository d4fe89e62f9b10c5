import PeerCluster.Proofs.HeldConnections

/-!
# Plans that talk to one address

A plan talks to an address (`Exchange.TalksTo`) if it opens connections to this address only, and writes
only on connections that it has been given or has opened. Here the answers of the world are left open:
what a plan does next depends on them, and which connections it has opened.

**Theorem (`Courier.talksTo_send`).** A courier that delivers a message talks to the address of its
destination, over the connection that it holds and those that it opens. The connection that it holds in
the end is one of these.

The plan of a delivery is put together from smaller ones, and so is the proof (`talksTo_bind`): what is
known at the end of one plan, about its result and the connections so far, is what the next one begins
with.
-/

namespace PeerCluster

/-- The connection that an answer opens, and the address it is opened to. -/
def Ask.opens : (q : Ask) → q.Answer → Option (Link × String)
  | .dial address _, .connected link => some (link, address)
  | .dial .., .failed _ | .dial .., .timedOut => none
  | .write .., _ | .read .., _ | .close _, _ | .mark _, _ | .clock, _ => none

/-- Whether who has these connections to an address asks nothing that concerns another address. -/
def Ask.GoesTo (address : String) (own : List Link) : Ask → Prop
  | .dial target _ => target = address
  | .write link .. => link ∈ own
  | .read .. | .close _ | .mark _ | .clock => True

/-- Whatever is opened then is opened to this address. -/
theorem Ask.GoesTo.address_of_opens {address address' : String} {own : List Link} {q : Ask}
    {answer : q.Answer} {link : Link} (hq : q.GoesTo address own)
    (hopens : q.opens answer = some (link, address')) : address' = address := by
  cases q with
  | dial target settings =>
    cases answer with
    | connected link' =>
      have heq : (link', target) = (link, address') := Option.some.inj hopens
      rw [← (Prod.mk.inj heq).2]
      exact hq
    | failed | timedOut => cases hopens
  | _ => cases hopens

namespace Exchange

variable {α β : Type} {address : String} {own : List Link} {P : List Link → α → Prop}
  {Q : List Link → β → Prop}

/-- Whoever carries a plan out with these connections talks to one address only, and what holds in the
end of the result and the connections is as described. -/
def TalksTo (address : String) (P : List Link → α → Prop) (own : List Link) : Exchange α → Prop
  | done a => P own a
  | ask q next => q.GoesTo address own ∧
    ∀ answer, TalksTo address P (((q.opens answer).map Prod.fst).toList ++ own) (next answer)

theorem talksTo_bind {x : Exchange α} {f : α → Exchange β} (hx : x.TalksTo address P own)
    (hf : ∀ own a, P own a → (f a).TalksTo address Q own) : (x >>= f).TalksTo address Q own := by
  induction x generalizing own with
  | done a => exact hf own a hx
  | ask q next ih => exact ⟨hx.1, fun answer => ih answer (hx.2 answer)⟩

/-- A question that concerns no address may be asked at any time. -/
theorem talksTo_request_bind {q : Ask} {f : q.Answer → Exchange β} (hq : q.GoesTo address own)
    (hopens : ∀ answer, q.opens answer = none) (hf : ∀ answer, (f answer).TalksTo address Q own) :
    (request q >>= f).TalksTo address Q own := by
  refine ⟨hq, fun answer => ?_⟩
  rw [hopens]
  exact hf answer

end Exchange

namespace Courier

open Exchange

variable {c : Courier} {own : List Link} {m : Member}

/-- A courier to a destination that holds one of these connections or none. -/
structure HoldsOf (m : Member) (own : List Link) (c : Courier) : Prop where
  destination : c.destination = m
  held : ∀ link, c.link = some link → link ∈ own

theorem holdsOf_dropped (h : c.destination = m) (own : List Link) : c.dropped.HoldsOf m own :=
  ⟨h, nofun⟩

/-- What is opened becomes one of the connections. -/
theorem talksTo_dial (h : c.destination = m) :
    c.dial.TalksTo m.address (fun own result => ∀ link, result = .ok link → link ∈ own) own := by
  refine ⟨congrArg Member.address h, fun answer => ?_⟩
  cases answer with
  | timedOut | failed fault => exact nofun
  | connected link =>
    dsimp only
    split
    · exact talksTo_request_bind trivial (fun _ => rfl) fun _ => nofun
    · refine talksTo_request_bind List.mem_cons_self (fun _ => rfl) fun outcome => ?_
      cases outcome with
      | ok _ =>
        rintro link' hlink
        rw [← Except.ok.inj hlink]
        exact List.mem_cons_self
      | error fault => exact talksTo_request_bind trivial (fun _ => rfl) fun _ => nofun

theorem talksTo_connect (h : c.HoldsOf m own) :
    c.connect.TalksTo m.address (fun own result =>
      result.2.HoldsOf m own ∧ ∀ link, result.1 = .ok link → link ∈ own) own := by
  rw [connect]
  cases hlink : c.link with
  | some link =>
    refine ⟨h, fun link' hlink' => ?_⟩
    rw [← Except.ok.inj hlink']
    exact h.held link hlink
  | none =>
    refine talksTo_bind (talksTo_dial h.destination) fun own result hresult => ?_
    cases result with
    | ok link =>
      refine talksTo_request_bind trivial (fun _ => rfl) fun now => ?_
      refine ⟨⟨h.destination, fun link' hlink' => ?_⟩, hresult⟩
      exact hresult link' (congrArg Except.ok (Option.some.inj hlink'))
    | error e =>
      refine talksTo_request_bind trivial (fun _ => rfl) fun _ =>
        ⟨⟨h.destination, fun link' hlink' => ?_⟩, fun link' hlink' => ?_⟩
      · cases hlink.symm.trans hlink'
      · cases hlink'

theorem talksTo_disconnect (h : c.destination = m) :
    c.disconnect.TalksTo m.address (fun own c => c.HoldsOf m own) own := by
  rw [disconnect]
  split
  · exact talksTo_request_bind trivial (fun _ => rfl) fun _ => holdsOf_dropped h own
  · exact holdsOf_dropped h own

theorem talksTo_attempt (h : c.HoldsOf m own) (payload : ByteArray) (wait : Bool) :
    (c.attempt payload wait).TalksTo m.address (fun own result => result.2.HoldsOf m own) own := by
  refine talksTo_bind (talksTo_connect h) fun own result hresult => ?_
  obtain ⟨connected, c⟩ := result
  obtain ⟨hc, hlink⟩ := hresult
  cases connected with
  | error e => exact hc
  | ok link =>
    -- From here on the courier differs only in what it has counted.
    have hcounted : ∀ requests lastUsed nextId,
        HoldsOf m own { c with requests, lastUsed, nextId } := fun _ _ _ => ⟨hc.destination, hc.held⟩
    refine talksTo_request_bind (hlink link rfl) (fun _ => rfl) fun outcome => ?_
    cases outcome with
    | error fault => exact hcounted ..
    | ok _ =>
      refine talksTo_request_bind trivial (fun _ => rfl) fun now => ?_
      cases wait with
      | true =>
        refine talksTo_request_bind trivial (fun _ => rfl) fun heard => ?_
        dsimp only
        split
        · exact talksTo_request_bind trivial (fun _ => rfl) fun _ => hcounted ..
        · exact hcounted ..
        · exact hcounted ..
      | false => exact talksTo_request_bind trivial (fun _ => rfl) fun _ => hcounted ..

theorem talksTo_attemptUpTo (h : c.HoldsOf m own) (payload : ByteArray) (wait : Bool)
    (attempts left : Nat) (causes : Causes) :
    (attemptUpTo payload wait attempts left causes c).TalksTo m.address
      (fun own result => result.2.HoldsOf m own) own := by
  induction left generalizing own causes c with
  | zero => exact talksTo_bind (talksTo_disconnect h.destination) fun _ _ hc => hc
  | succ left ih =>
    have hprepared : (Delivery.prepared causes c).TalksTo m.address
        (fun own c => c.HoldsOf m own) own := by
      cases causes with
      | none => exact h
      | one | several => exact talksTo_disconnect h.destination
    rw [Delivery.attemptUpTo_succ]
    refine talksTo_bind hprepared fun own c hc => ?_
    refine talksTo_bind (talksTo_attempt hc payload wait) fun own result hresult => ?_
    obtain ⟨outcome, c⟩ := result
    cases outcome with
    | ok _ => exact hresult
    | error e =>
      dsimp only
      split
      · exact talksTo_request_bind trivial (fun _ => rfl) fun _ => ih hresult _
      · exact hresult

/-- A delivery talks to the address of the courier's destination. -/
theorem talksTo_send (h : c.HoldsOf m own) (payload : ByteArray) (wait : Bool) :
    (c.send payload wait).TalksTo m.address (fun own result => result.2.HoldsOf m own) own := by
  rw [send]
  split
  · exact h
  · exact talksTo_attemptUpTo h payload wait _ _ .none

/-- A courier without a connection begins by opening one and writing its greeting. -/
theorem send_greets {payload : ByteArray} (hlink : c.link = none)
    (hfits : (Frame.ofHandshake c.self).Fits)
    (hsize : Frame.checkSize (Frame.headerSize + payload.size) = .ok ()) (wait : Bool) :
    ∃ next, c.send payload wait = .ask (.dial c.destination.address c.settings) next ∧
      ∀ link, ∃ rest, next (.connected link) =
        .ask (.write link (Frame.ofHandshake c.self) c.settings.readTimeoutMs.toNat) rest := by
  obtain ⟨left, hleft⟩ := Delivery.exists_attempts_eq_succ c.settings
  rw [send, hsize]
  dsimp only
  rw [hleft, Delivery.attemptUpTo_succ, Delivery.prepared, pure_bind, attempt, connect, hlink]
  dsimp only
  rw [dial_of_fits hfits]
  exact ⟨_, rfl, fun link => ⟨_, rfl⟩⟩

end Courier

end PeerCluster
