import PeerCluster.Proofs.LosslessDelivery

/-!
# Acknowledged delivery is sound

A courier that asks for an answer reports what the listener has decided.

**The invariant** (`Steady`). Every connection is sound, those that have not been opened are blank,
and every answer that was asked for on the connection that the courier holds has been read. Whatever
the courier is asked to do keeps it (`Goes.steady`), and so does a whole life (`steady_later`).

**The listener** (`Faithful`). Every call of the listener goes back to one attempt, no attempt leads
to two calls, and the listener is given what was written and who has written it. This follows from
the invariant alone, so it stays true however late a message arrives.

**Theorem (`acknowledged_delivery_sound`).** If a delivery succeeds, the listener has been called for
its last attempt, with its payload and in the name of the courier's member, and has accepted it. If
the delivery is refused, the listener has been called for its last attempt and has not accepted it.
And for no attempt of the delivery is the listener ever called twice.
-/

namespace PeerCluster.Delivery

open Exchange

variable {caller : Handshake} {w w' : World}

/-! ## The invariant -/

/-- What holds of a courier and its world between two deliveries. -/
structure Steady (p : World × Courier) : Prop where
  good : Good p.2.self p.1
  settled : Settled p.1 p.2

theorem steady_initial {c : Courier} (hlink : c.link = none) : Steady ({}, c) where
  good := ⟨fun _ => Story.sound_initial c.self, fun _ _ => Story.blank_initial⟩
  settled := by
    intro link hheld
    rw [hlink] at hheld
    cases hheld

/-- A payload that does not fit is refused at once. For any other one, a limited number of attempts
is made. -/
theorem send_spec {c c' : Courier} {payload : ByteArray} {wait : Bool}
    {result : Except DeliveryError Unit} (hsteady : Steady (w, c))
    (hrun : (c.send payload wait).Runs Responds w (result, c') w') :
    ∃ made, made.length ≤ c.settings.attempts ∧ Does made w w' ∧
      Outcome c payload wait made result w' c' ∧ Settled w' c' := by
  rw [Courier.send] at hrun
  cases hsize : Frame.checkSize (Frame.headerSize + payload.size) with
  | error e =>
    simp only [hsize] at hrun
    obtain ⟨hresult, rfl⟩ := runs_pure_iff.1 hrun
    obtain ⟨rfl, rfl⟩ := Prod.mk.inj hresult
    have hbody : ∀ a ∈ ([] : List Attempt), a.message.body = payload :=
      fun _ ha => absurd ha List.not_mem_nil
    exact ⟨[], Nat.zero_le _, .refl w, .failed rfl rfl hsteady.good hbody rfl, hsteady.settled⟩
  | ok u =>
    simp only [hsize] at hrun
    have hfits : ∀ id, (Frame.message id payload wait).Fits :=
      fun _ => Frame.checkSize_eq_ok_iff.1 hsize
    exact attemptUpTo_spec hfits hsteady.good mendable_none (fun _ => hsteady.settled) hrun

theorem settled_recycle {c : Courier} (now : Nat) (h : Settled w c) :
    Settled w (c.recycle now).2 ∧ (c.recycle now).2.self = c.self := by
  rw [Courier.recycle]
  split
  · split
    · exact ⟨settled_dropped w c, rfl⟩
    · exact ⟨h, rfl⟩
  · exact ⟨h, rfl⟩

/-- Whatever the courier does keeps the invariant, and it never goes by another name. -/
theorem Goes.steady {p p' : World × Courier} (h : Goes p p') (hsteady : Steady p) :
    Steady p' ∧ p'.2.self = p.2.self ∧ ∃ made, Does made p.1 p'.1 := by
  cases h with
  | moves c hmoves =>
    have hpasses : Passes _ _ := .single hmoves
    exact ⟨⟨hsteady.good.passes hpasses, hsteady.settled.passes hsteady.good hpasses⟩, rfl,
      [], hpasses.does.2⟩
  | sends hrun =>
    obtain ⟨made, -, hdoes, houtcome, hsettled⟩ := send_spec hsteady hrun
    exact ⟨⟨houtcome.self ▸ houtcome.good, hsettled⟩, houtcome.self, made, hdoes⟩
  | connects hrun =>
    obtain ⟨hself, -, hgood, hdoes, hsettled, -⟩ :=
      connect_spec hsteady.good hsteady.settled hrun
    exact ⟨⟨hself ▸ hgood, hsettled⟩, hself, [], hdoes⟩
  | disconnects hrun =>
    obtain ⟨rfl, hgood, hdoes⟩ := disconnect_spec hsteady.good hrun
    exact ⟨⟨hgood, settled_dropped _ _⟩, rfl, [], hdoes⟩
  | recycles w c now =>
    obtain ⟨hsettled, hself⟩ := settled_recycle now hsteady.settled
    have hgood : Good (c.recycle now).2.self w := by
      rw [hself]
      exact hsteady.good
    exact ⟨⟨hgood, hsettled⟩, hself, [], .refl w⟩

theorem steady_later {p p' : World × Courier} (h : Relation.ReflTransGen Goes p p')
    (hsteady : Steady p) :
    Steady p' ∧ p'.2.self = p.2.self ∧ ∃ made, Does made p.1 p'.1 := by
  induction h with
  | refl => exact ⟨hsteady, rfl, [], .refl _⟩
  | tail _ hgoes ih =>
    obtain ⟨hsteady₁, hself₁, made, hdoes⟩ := ih
    obtain ⟨hsteady₂, hself₂, made', hdoes'⟩ := hgoes.steady hsteady₁
    exact ⟨hsteady₂, hself₂.trans hself₁, made ++ made', hdoes.trans hdoes'⟩

theorem Reached.steady {c : Courier} (h : Reached w c) : Steady (w, c) := by
  obtain ⟨c₀, hlink, hlater⟩ := h
  exact (steady_later hlater (steady_initial hlink)).1

/-! ## What the listener has been given -/

/-- What the listener has been given goes back to what was written, and it is told the caller's id, host
and port. -/
structure Faithful (caller : Handshake) (w : World) : Prop where
  /-- No two attempts have the same place on one connection. -/
  distinct : (w.attempts.map fun a => (a.link, a.place)).Nodup
  attempted : ∀ k ∈ w.calls, ∃ a ∈ w.attempts, k ∈ w.callsFor a
  once : ∀ a ∈ w.attempts, (w.callsFor a).length ≤ 1
  given : ∀ a ∈ w.attempts, ∀ k ∈ w.callsFor a,
    k.message = a.message ∧ k.receipt =
      ⟨a.message.body, { id := caller.memberId, host := caller.host, port := caller.port }⟩

theorem length_filter_place_le_one {α : Type} {l : List α} {place : α → Nat}
    (h : l.map place = List.range l.length) (n : Nat) :
    (l.filter fun x => place x = n).length ≤ 1 := by
  have hcount : (l.map place).count n ≤ 1 := by
    rw [h]
    exact List.nodup_iff_count.1 List.nodup_range n
  rw [List.count, List.countP_map] at hcount
  rw [← List.countP_eq_length_filter]
  exact hcount

theorem getElem?_place {α : Type} {l : List α} {place : α → Nat}
    (h : l.map place = List.range l.length) {x : α} (hx : x ∈ l) : l[place x]? = some x := by
  obtain ⟨i, hi, rfl⟩ := List.mem_iff_getElem.1 hx
  have hplace : (l.map place)[i]? = (List.range l.length)[i]? := by rw [h]
  rw [List.getElem?_map, List.getElem?_eq_getElem hi, List.getElem?_range hi] at hplace
  rw [Option.some.inj hplace, List.getElem?_eq_getElem hi]

namespace Story.Sound

variable {s : Story}

theorem getElem?_messages (h : s.Sound caller) {k : Call} (hk : k ∈ s.calls) :
    s.messages[k.place]? = some k.message := by
  have hcall : (s.calls.map Call.message)[k.place]? = some k.message := by
    rw [List.getElem?_map, getElem?_place h.calls_places hk]
    rfl
  obtain ⟨hlt, -⟩ := List.getElem?_eq_some_iff.1 hcall
  rw [h.messages_eq, List.getElem?_append_left hlt, hcall]

/-- A call that has the place of an attempt was made for its message. -/
theorem message_eq (h : s.Sound caller) {a : Attempt} {k : Call} (ha : a ∈ s.attempts)
    (hk : k ∈ s.calls) (hplace : k.place = a.place) : k.message = a.message := by
  have hmessage := h.getElem?_messages hk
  rw [hplace, messages, List.getElem?_map, getElem?_place h.attempts_places ha] at hmessage
  exact (Option.some.inj hmessage).symm

theorem exists_attempt (h : s.Sound caller) {k : Call} (hk : k ∈ s.calls) :
    ∃ a ∈ s.attempts, a.place = k.place := by
  have hmessage := h.getElem?_messages hk
  rw [messages, List.getElem?_map, Option.map_eq_some_iff] at hmessage
  obtain ⟨a, ha, -⟩ := hmessage
  have hplace := congrArg (fun l : List Nat => l[k.place]?) h.attempts_places
  obtain ⟨hlt, -⟩ := List.getElem?_eq_some_iff.1 ha
  rw [List.getElem?_map, ha, List.getElem?_range hlt] at hplace
  exact ⟨a, List.mem_of_getElem? ha, Option.some.inj hplace⟩

end Story.Sound

theorem mem_callsFor {a : Attempt} {k : Call} :
    k ∈ w.callsFor a ↔ k ∈ (w.story a.link).calls ∧ k.place = a.place := by
  rw [World.callsFor, World.story, List.mem_filter, List.mem_filter]
  simp only [decide_eq_true_eq]
  exact (and_assoc).symm

theorem callsFor_eq (w : World) (a : Attempt) :
    w.callsFor a = (w.story a.link).calls.filter fun k => k.place = a.place := by
  rw [World.callsFor, World.story, List.filter_filter]
  congr 1
  funext k
  simp only [Bool.decide_and, Bool.and_comm]

theorem Good.faithful (h : Good caller w) : Faithful caller w where
  distinct := by
    rw [List.nodup_iff_count]
    intro hall
    rcases hall with ⟨link, n⟩
    have hone := length_filter_place_le_one (h.sound link).attempts_places n
    rw [World.story, List.filter_filter] at hone
    rw [List.count, List.countP_map, List.countP_eq_length_filter]
    refine Nat.le_trans (Nat.le_of_eq ?_) hone
    congr 2
    funext a
    rw [Bool.eq_iff_iff]
    simp [and_comm]
  attempted := by
    intro k hk
    have hstory : k ∈ (w.story k.link).calls := List.mem_filter.2 ⟨hk, decide_eq_true rfl⟩
    obtain ⟨a, ha, hplace⟩ := (h.sound k.link).exists_attempt hstory
    obtain ⟨hmem, hlink⟩ := List.mem_filter.1 ha
    refine ⟨a, hmem, mem_callsFor.2 ?_⟩
    rw [of_decide_eq_true hlink]
    exact ⟨hstory, hplace.symm⟩
  once := by
    intro a _
    rw [callsFor_eq]
    exact length_filter_place_le_one (h.sound a.link).calls_places a.place
  given := by
    intro a ha k hk
    obtain ⟨hstory, hplace⟩ := mem_callsFor.1 hk
    have hattempt : a ∈ (w.story a.link).attempts := List.mem_filter.2 ⟨ha, decide_eq_true rfl⟩
    have hmessage := (h.sound a.link).message_eq hattempt hstory hplace
    refine ⟨hmessage, ?_⟩
    rw [← hmessage]
    exact (h.sound a.link).receipt k hstory

/-! ## Soundness -/

/-- The listener has been called exactly once for an attempt, with its payload and in the name of a
member, and this was its decision. -/
def CalledOnce (w : World) (a : Attempt) (source : Member) (accepted : Bool) : Prop :=
  ∃ k, w.callsFor a = [k] ∧ k.receipt = ⟨a.message.body, source⟩ ∧ k.accepted = accepted

theorem Decided.calledOnce {a : Attempt} {accepted : Bool} (h : Decided w a accepted)
    (hfaithful : Faithful caller w) (ha : a ∈ w.attempts) :
    CalledOnce w a { id := caller.memberId, host := caller.host, port := caller.port } accepted := by
  obtain ⟨k, hk, hlink, hplace, -, haccepted⟩ := h
  have hmem : k ∈ w.callsFor a := List.mem_filter.2 ⟨hk, decide_eq_true ⟨hlink, hplace⟩⟩
  have hpos : 0 < (w.callsFor a).length := List.length_pos_of_mem hmem
  have hone := hfaithful.once a ha
  obtain ⟨k', hk'⟩ := List.length_eq_one_iff.1 (Nat.le_antisymm hone hpos)
  rw [hk', List.mem_singleton] at hmem
  subst hmem
  exact ⟨k, hk', (hfaithful.given a ha k (by rw [hk']; exact List.mem_singleton_self k)).2,
    haccepted⟩

/-- **Theorem.** A delivery that waits for an answer makes some attempts, all with its payload. If it
succeeds, the listener was called for the last one, in the name of the member whose id, host and port the
courier's handshake gives, and has accepted it; if it is refused, the listener was called for the last one
in that name and has not accepted it. At no later time has the listener been called for one of them twice,
or with anything but the payload and that member. -/
theorem acknowledged_delivery_sound {c c' : Courier} {payload : ByteArray}
    {result : Except DeliveryError Unit} (hreached : Reached w c)
    (hthrow : c.settings.throwOnFailedAck = true)
    (hrun : (c.send payload true).Runs Responds w (result, c') w') :
    let source : Member := { id := c.self.memberId, host := c.self.host, port := c.self.port }
    ∃ made : List Attempt,
      w'.attempts = w.attempts ++ made ∧ made.length ≤ c.settings.attempts ∧
      (∀ a ∈ made, a.message.body = payload) ∧
      (result = .ok () →
        ∃ a, made.getLast? = some a ∧ CalledOnce w' a source true) ∧
      (∀ address id, result = .error (.remoteFailure address id) →
        ∃ a, made.getLast? = some a ∧ CalledOnce w' a source false) ∧
      ∀ w'' c'', Relation.ReflTransGen Goes (w', c') (w'', c'') →
        Faithful c.self w'' ∧ ∀ a ∈ made, (w''.callsFor a).length ≤ 1 ∧
          ∀ k ∈ w''.callsFor a, k.receipt = ⟨payload, source⟩ := by
  intro source
  have hsteady := hreached.steady
  obtain ⟨made, hlength, hdoes, houtcome, hsettled⟩ := send_spec hsteady hrun
  have hfaithful := houtcome.good.faithful
  have hmem : ∀ a, made.getLast? = some a → a ∈ w'.attempts := by
    intro a ha
    rw [hdoes.attempts]
    exact List.mem_append_right _ (List.mem_of_getLast? ha)
  refine ⟨made, hdoes.attempts, hlength, houtcome.body, ?_, ?_, ?_⟩
  · intro hok
    obtain ⟨a, accepted, ha, hdecided, haccepted⟩ := houtcome.verified hok rfl
    obtain rfl := haccepted hthrow
    exact ⟨a, ha, hdecided.calledOnce hfaithful (hmem a ha)⟩
  · intro address id hrefused
    obtain ⟨a, ha, hdecided⟩ := houtcome.refused address id hrefused
    exact ⟨a, ha, hdecided.calledOnce hfaithful (hmem a ha)⟩
  · intro w'' c'' hlater
    have hsteady' : Steady (w', c') := ⟨houtcome.self ▸ houtcome.good, hsettled⟩
    obtain ⟨hsteady'', hself, made', hdoes'⟩ := steady_later hlater hsteady'
    have hname : c''.self = c.self := hself.trans houtcome.self
    have hgood := hsteady''.good
    rw [hname] at hgood
    refine ⟨hgood.faithful, fun a ha => ?_⟩
    have hattempt : a ∈ w''.attempts := by
      rw [hdoes'.attempts, hdoes.attempts]
      exact List.mem_append_left _ (List.mem_append_right _ ha)
    refine ⟨hgood.faithful.once a hattempt, fun k hk => ?_⟩
    rw [(hgood.faithful.given a hattempt k hk).2, houtcome.body a ha]

/-- A courier that has not delivered anything. -/
def novice : Courier where
  settings := {}
  self := .of ⟨1⟩ "10.0.0.1" 4000
  destination := { id := ⟨2⟩, host := "10.0.0.2", port := 4000 }
  cell := ⟨0⟩

theorem fits_greeting_novice : (Frame.ofHandshake novice.self).Fits := by
  -- Nothing can be computed through `String.foldl`.
  have hquote : ∀ s, Json.quote s = s.toList.foldl (fun out c => out ++ Json.escapeChar c) "\"" ++
      "\"" := by
    intro s
    rw [Json.quote, String.foldl_eq_foldl_toList]
  simp only [Frame.Fits, Frame.ofHandshake, Frame.wireSize, novice, Handshake.text,
    Handshake.toJson, Handshake.of, Json.record, Json.render, Json.renderOnto, Json.renderFields,
    List.map, hquote]
  decide +kernel

/-- The first message of a courier, once accepted and once not. -/
theorem acknowledged_delivery_sound_of_first_message :
    let payload := "hello".toUTF8
    let source : Member := { id := ⟨1⟩, host := "10.0.0.1", port := 4000 }
    (∃ w' c' a, (novice.send payload true).Runs Responds {} (.ok (), c') w' ∧
      w'.attempts.getLast? = some a ∧ a.message.body = payload ∧
      CalledOnce w' a source true) ∧
    ∃ w' c' a,
      (novice.send payload true).Runs Responds {}
        (.error (.remoteFailure "10.0.0.2:4000" 1), c') w' ∧
      w'.attempts.getLast? = some a ∧ a.message.body = payload ∧
      CalledOnce w' a source false := by
  intro payload source
  have hreached : Reached {} novice := ⟨novice, rfl, .refl⟩
  have hsize : Frame.headerSize + payload.size ≤ Frame.maxSize := by decide +kernel
  constructor
  · obtain ⟨w', c', hrun⟩ :=
      send_may_be_answered (w := {}) true hsize fits_greeting_novice rfl rfl rfl rfl
    obtain ⟨made, hattempts, -, hbody, hverified, -, -⟩ :=
      acknowledged_delivery_sound hreached rfl hrun
    obtain ⟨a, ha, hcalled⟩ := hverified rfl
    obtain rfl : w'.attempts = made := hattempts
    exact ⟨w', c', a, hrun, ha, hbody a (List.mem_of_getLast? ha), hcalled⟩
  · obtain ⟨w', c', hrun⟩ :=
      send_may_be_answered (w := {}) false hsize fits_greeting_novice rfl rfl rfl rfl
    obtain ⟨made, hattempts, -, hbody, -, hrefused, -⟩ :=
      acknowledged_delivery_sound hreached rfl hrun
    obtain ⟨a, ha, hcalled⟩ := hrefused _ _ rfl
    obtain rfl : w'.attempts = made := hattempts
    exact ⟨w', c', a, hrun, ha, hbody a (List.mem_of_getLast? ha), hcalled⟩

end PeerCluster.Delivery
