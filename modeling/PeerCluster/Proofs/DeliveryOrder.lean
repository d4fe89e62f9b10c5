import PeerCluster.Proofs.AcknowledgedDelivery

/-!
# In which order messages arrive

**The order of the courier** (`Career`). A courier is asked for one delivery after the other, and each
makes attempts on the newest connection. So a later attempt is made on the same connection or on a
newer one, and on the same connection the listener is called for it later.

**The order of the listener** (`CalledBefore`). The connections of a courier are served independently
of each other, and what has been written on one that was given up can still arrive. So a message may
be overtaken by one that was written on a newer connection (`order_may_be_lost`).

**Theorem (`overtaken_only_on_older_connection`).** This is the only way in which order is lost, and
it never befalls an attempt whose answer the courier has received.
-/

namespace PeerCluster.Delivery

open Exchange

variable {caller : Handshake} {w w' : World}

/-! ## The deliveries of a courier -/

/-- A delivery that a courier was asked for, and what it came to. -/
structure Dispatch where
  payload : ByteArray
  wait : Bool
  result : Except DeliveryError Unit
  /-- The attempts that the delivery has made, in order. -/
  made : List Attempt

/-- Whether a delivery ended with the answer to its last attempt. -/
def Dispatch.IsAnswered (d : Dispatch) : Prop :=
  d.wait = true ∧ d.result = .ok () ∨ ∃ address id, d.result = .error (.remoteFailure address id)

/-- The states that a courier gets into that begins without a connection, and the deliveries that it
was asked for, in order. -/
inductive Career : List Dispatch → World × Courier → Prop
  | begins {c : Courier} : c.link = none → Career [] ({}, c)
  | moves {ds : List Dispatch} {w w' : World} {c : Courier} :
    Career ds (w, c) → Moves w w' → Career ds (w', c)
  | sends {ds : List Dispatch} {w w' : World} {c c' : Courier} (d : Dispatch) :
    Career ds (w, c) → (c.send d.payload d.wait).Runs Responds w (d.result, c') w' →
      w'.attempts = w.attempts ++ d.made → Career (ds ++ [d]) (w', c')
  | connects {ds : List Dispatch} {w w' : World} {c c' : Courier}
    {result : Except DeliveryError Link} :
    Career ds (w, c) → c.connect.Runs Responds w (result, c') w' → Career ds (w', c')
  | disconnects {ds : List Dispatch} {w w' : World} {c c' : Courier} :
    Career ds (w, c) → c.disconnect.Runs Responds w c' w' → Career ds (w', c')
  | recycles {ds : List Dispatch} {w : World} {c : Courier} (now : Nat) :
    Career ds (w, c) → Career ds (w, (c.recycle now).2)

namespace Career

variable {ds : List Dispatch} {p : World × Courier}

theorem passes {c : Courier} (h : Career ds (w, c)) (hpasses : Passes w w') :
    Career ds (w', c) := by
  induction hpasses with
  | refl => exact h
  | tail _ hmoves ih => exact ih.moves hmoves

theorem reached (h : Career ds p) : Reached p.1 p.2 := by
  have later : ∀ {p p' : World × Courier}, Reached p.1 p.2 → Goes p p' → Reached p'.1 p'.2 := by
    intro p p' hreached hgoes
    obtain ⟨c₀, hlink, hlater⟩ := hreached
    exact ⟨c₀, hlink, hlater.tail hgoes⟩
  induction h with
  | begins hlink => exact ⟨_, hlink, .refl⟩
  | moves _ hmoves ih => exact later ih (.moves _ hmoves)
  | sends d _ hrun _ ih => exact later ih (.sends hrun)
  | connects _ hrun ih => exact later ih (.connects hrun)
  | disconnects _ hrun ih => exact later ih (.disconnects hrun)
  | recycles now _ ih => exact later ih (.recycles _ _ now)

/-- Only deliveries make attempts. -/
theorem attempts_eq (h : Career ds p) : p.1.attempts = ds.flatMap Dispatch.made := by
  induction h with
  | begins => rfl
  | moves _ hmoves ih => rw [← ih, hmoves.does.2.attempts, List.append_nil]
  | sends d _ _ hmade ih => rw [List.flatMap_append, ← ih, hmade, List.flatMap_singleton]
  | connects hcareer hrun ih =>
    have hsteady := hcareer.reached.steady
    obtain ⟨-, -, -, hdoes, -⟩ := connect_spec hsteady.good hsteady.settled hrun
    rw [← ih, hdoes.attempts, List.append_nil]
  | disconnects hcareer hrun ih =>
    obtain ⟨-, -, hdoes⟩ := disconnect_spec hcareer.reached.steady.good hrun
    rw [← ih, hdoes.attempts, List.append_nil]
  | recycles _ _ ih => exact ih

/-- What a courier has gone through falls apart before and behind any of its deliveries. -/
theorem split {front behind : List Dispatch} {d : Dispatch} (h : Career ds p)
    (hds : ds = front ++ d :: behind) :
    ∃ w₁ c₁ w₂ c₂, Career front (w₁, c₁) ∧
      (c₁.send d.payload d.wait).Runs Responds w₁ (d.result, c₂) w₂ ∧
      w₂.attempts = w₁.attempts ++ d.made ∧ Relation.ReflTransGen Goes (w₂, c₂) p := by
  induction h generalizing behind with
  | begins => exact absurd hds (by simp)
  | moves _ hmoves ih =>
    obtain ⟨w₁, c₁, w₂, c₂, hfront, hrun, hmade, hlater⟩ := ih hds
    exact ⟨w₁, c₁, w₂, c₂, hfront, hrun, hmade, hlater.tail (.moves _ hmoves)⟩
  | sends e hcareer hrun hmade ih =>
    rcases List.eq_nil_or_concat behind with rfl | ⟨behind, e', rfl⟩
    · obtain ⟨rfl, rfl⟩ := List.append_singleton_inj.1 hds
      exact ⟨_, _, _, _, hcareer, hrun, hmade, .refl⟩
    · rw [List.concat_eq_append, ← List.cons_append, ← List.append_assoc] at hds
      obtain ⟨hds, -⟩ := List.append_singleton_inj.1 hds
      obtain ⟨w₁, c₁, w₂, c₂, hfront, hrun₁, hmade₁, hlater⟩ := ih hds
      exact ⟨w₁, c₁, w₂, c₂, hfront, hrun₁, hmade₁, hlater.tail (.sends hrun)⟩
  | connects _ hrun ih =>
    obtain ⟨w₁, c₁, w₂, c₂, hfront, hrun₁, hmade, hlater⟩ := ih hds
    exact ⟨w₁, c₁, w₂, c₂, hfront, hrun₁, hmade, hlater.tail (.connects hrun)⟩
  | disconnects _ hrun ih =>
    obtain ⟨w₁, c₁, w₂, c₂, hfront, hrun₁, hmade, hlater⟩ := ih hds
    exact ⟨w₁, c₁, w₂, c₂, hfront, hrun₁, hmade, hlater.tail (.disconnects hrun)⟩
  | recycles now _ ih =>
    obtain ⟨w₁, c₁, w₂, c₂, hfront, hrun₁, hmade, hlater⟩ := ih hds
    exact ⟨w₁, c₁, w₂, c₂, hfront, hrun₁, hmade, hlater.tail (.recycles _ _ now)⟩

end Career

/-! ## The calls of the listener -/

/-- The listener was called for one attempt and, at a later time, for another. -/
def CalledBefore (w : World) (b a : Attempt) : Prop :=
  ∃ l ∈ w.callsFor b, ∃ k ∈ w.callsFor a, [l, k].Sublist w.calls

/-! ## When order is lost -/

/-- The first message on a new connection. -/
def firstOn (w : World) (c : Courier) (payload : ByteArray) : Attempt :=
  ⟨⟨w.opened⟩, 0, .message c.nextId payload false⟩

/-- The world after a courier has opened a connection and written a message on it. -/
def posted (w : World) (c : Courier) (payload : ByteArray) : World :=
  let hello := Frame.ofHandshake c.self
  let m := Frame.message c.nextId payload false
  (World.write { w with opened := w.opened + 1 } ⟨w.opened⟩ hello hello.bytes).write
    ⟨w.opened⟩ m m.bytes

theorem send_may_be_posted {c : Courier} {payload : ByteArray}
    (hsize : Frame.headerSize + payload.size ≤ Frame.maxSize)
    (hgreeting : (Frame.ofHandshake c.self).Fits) (hlink : c.link = none) :
    ∃ c', c'.self = c.self ∧ c'.nextId = c.nextId + 1 ∧
      (c.send payload false).Runs Responds w (.ok (), c') (posted w c payload) := by
  let c' : Courier :=
    { c with
      link := some ⟨w.opened⟩, requests := 0 + 1, lastUsed := some 0, nextId := c.nextId + 1 }
  have hattempt : (c.attempt payload false).Runs Responds w (.ok (), c') (posted w c payload) := by
    rw [Courier.attempt, runs_bind_iff]
    refine ⟨_, _, connect_may_succeed hlink hgreeting, runs_request_bind_iff.2 ?_⟩
    refine ⟨.ok (), posted w c payload, ⟨_, .refl, _, List.prefix_rfl, fun _ => rfl, rfl⟩, ?_⟩
    refine runs_request_bind_iff.2 ⟨0, _, ⟨_, .refl, rfl⟩, ?_⟩
    rw [if_neg Bool.false_ne_true]
    exact runs_mark_iff.2 ⟨_, .refl, .done _ _⟩
  exact ⟨c', rfl, rfl, send_of_attempt hsize hattempt (by simp [IsFinal])⟩

theorem attempts_posted {c : Courier} {payload : ByteArray}
    (h : ∀ a ∈ w.attempts, a.link.number < w.opened) :
    (posted w c payload).attempts = w.attempts ++ [firstOn w c payload] := by
  have hkind : (Frame.ofHandshake c.self).kind ≠ .message := nofun
  have hkind' : (Frame.message c.nextId payload false).kind = .message := rfl
  have hnone : (w.attempts.filter fun a => a.link = ⟨w.opened⟩) = [] := by
    refine List.filter_eq_nil_iff.2 fun a ha heq => ?_
    have hlt := h a ha
    rw [of_decide_eq_true heq] at hlt
    exact Nat.lt_irrefl _ hlt
  simp [posted, World.write, World.story, World.withLine, firstOn, hkind, hkind', hnone]

theorem line_posted_self (c : Courier) (payload : ByteArray) (h : w.lines ⟨w.opened⟩ = {}) :
    (posted w c payload).lines ⟨w.opened⟩ =
      { forth := Pipe.put (Pipe.put {} (Frame.ofHandshake c.self).bytes)
          (firstOn w c payload).message.bytes } := by
  simp only [posted, lines_write_self, h]
  rfl

theorem line_posted_of_ne (c : Courier) (payload : ByteArray) {link : Link}
    (h : link ≠ ⟨w.opened⟩) : (posted w c payload).lines link = w.lines link := by
  simp [posted, World.write, World.withLine, Function.update_of_ne h]

theorem receipts_taken_message (source : Member) (accepted : Bool) (id : UInt64)
    (payload : ByteArray) (wait : Bool) :
    (taken (.known source) accepted (.message id payload wait)).receipts =
      [⟨payload, source⟩] := by
  have hkind : (Frame.message id payload wait).kind = .message := rfl
  simp only [taken, Inbound.take, hkind, if_true, Inbound.hand]
  rfl

/-- What was posted on a connection may reach the listener, while nothing happens on any other
connection. -/
theorem posted_may_arrive {caller : Handshake} {id : UInt64} {payload : ByteArray} {link : Link}
    (hgreeting : (Frame.ofHandshake caller).Fits) (htype : caller.type = Handshake.typeName)
    (hfits : (Frame.message id payload false).Fits) (hcalls : ∀ k ∈ w.calls, k.link ≠ link)
    (hline : w.lines link =
      { forth := Pipe.put (Pipe.put {} (Frame.ofHandshake caller).bytes)
          (Frame.message id payload false).bytes }) :
    ∃ w' k, Passes w w' ∧ (∀ link' ≠ link, w'.lines link' = w.lines link') ∧
      w'.calls = w.calls ++ [k] ∧ k.link = link ∧ k.place = 0 := by
  have hforth : (w.lines link).forth.bytes =
      (Frame.ofHandshake caller).bytes ++ (Frame.message id payload false).bytes := by
    have hempty : Pipe.bytes {} = [] := rfl
    simp only [hline, Pipe.bytes_put, hempty, List.nil_append]
  have hphase : (w.lines link).phase = .fresh := by rw [hline]
  obtain ⟨w₁, hpasses₁, hforth₁, -, hphase₁, hothers₁, hcalls₁⟩ :=
    passes_serve true hgreeting hforth
  rw [hphase, taken_greeting true htype] at hphase₁ hcalls₁
  rw [← List.append_nil (Frame.bytes _)] at hforth₁
  obtain ⟨w₂, hpasses₂, -, -, -, hothers₂, hcalls₂⟩ := passes_serve true hfits hforth₁
  rw [hphase₁, receipts_taken_message] at hcalls₂
  have hcalls₁ : w₁.calls = w.calls := by simpa using hcalls₁
  have hnone : (w₁.story link).calls = [] := by
    refine List.filter_eq_nil_iff.2 fun k hk heq => ?_
    rw [hcalls₁] at hk
    exact hcalls k hk (of_decide_eq_true heq)
  rw [hcalls₁, hnone] at hcalls₂
  refine ⟨w₂, _, hpasses₁.trans hpasses₂, fun link' hne => ?_, hcalls₂, rfl, rfl⟩
  rw [hothers₂ link' hne, hothers₁ link' hne]

theorem disconnect_may_run (w : World) (c : Courier) :
    c.disconnect.Runs Responds w c.dropped w := by
  rw [Courier.disconnect]
  split
  · exact runs_close_iff.2 ⟨w, .refl, .done _ _⟩
  · exact .done _ _

/-- Two messages, each on a connection of its own, of which the later one arrives first. -/
theorem exists_overtaken (first second : ByteArray)
    (hfirst : Frame.headerSize + first.size ≤ Frame.maxSize)
    (hsecond : Frame.headerSize + second.size ≤ Frame.maxSize) :
    let a : Attempt := ⟨⟨0⟩, 0, .message 1 first false⟩
    let b : Attempt := ⟨⟨1⟩, 0, .message 2 second false⟩
    ∃ w c, Career [⟨first, false, .ok (), [a]⟩, ⟨second, false, .ok (), [b]⟩] (w, c) ∧
      CalledBefore w b a := by
  intro a b
  obtain ⟨c₁, hself, hnext, hrun₁⟩ :=
    send_may_be_posted (w := {}) (c := novice) hfirst fits_greeting_novice rfl
  let w₁ := posted {} novice first
  have hattempts₁ : w₁.attempts = [a] := attempts_posted (w := {}) nofun
  have hcareer₁ : Career [⟨first, false, .ok (), [a]⟩] (w₁, c₁) :=
    (Career.begins rfl).sends ⟨first, false, .ok (), [a]⟩ hrun₁ hattempts₁
  have hname : c₁.dropped.self = novice.self := hself
  have hid : c₁.dropped.nextId = 2 := hnext
  obtain ⟨c₂, -, -, hrun₂⟩ :=
    send_may_be_posted (w := w₁) hsecond (hname ▸ fits_greeting_novice) rfl
  let w₂ := posted w₁ c₁.dropped second
  have hb : firstOn w₁ c₁.dropped second = b := by
    rw [firstOn, hid]
    rfl
  have hattempts₂ : w₂.attempts = w₁.attempts ++ [b] := by
    rw [← hb]
    refine attempts_posted fun x hx => ?_
    rw [hattempts₁, List.mem_singleton] at hx
    rw [hx]
    exact Nat.zero_lt_one
  have hcareer₂ := (hcareer₁.disconnects (disconnect_may_run w₁ c₁)).sends
    ⟨second, false, .ok (), [b]⟩ hrun₂ hattempts₂
  have hnew : (⟨1⟩ : Link) ≠ ⟨0⟩ := by decide
  have hline₂ := line_posted_self c₁.dropped second (line_posted_of_ne (w := {}) novice first hnew)
  rw [hname, hb] at hline₂
  -- The later connection is served first.
  obtain ⟨w₃, l, hpasses₃, hothers, hcalls₃, hlLink, hlPlace⟩ :=
    posted_may_arrive (w := w₂) fits_greeting_novice rfl hsecond
      (fun k hk => absurd hk List.not_mem_nil) hline₂
  have hline₃ := (hothers ⟨0⟩ hnew.symm).trans
    ((line_posted_of_ne (w := w₁) c₁.dropped second hnew.symm).trans
      (line_posted_self (w := {}) novice first rfl))
  have hcalls₃ : w₃.calls = [l] := hcalls₃
  obtain ⟨w₄, k, hpasses₄, -, hcalls₄, hkLink, hkPlace⟩ :=
    posted_may_arrive fits_greeting_novice rfl hfirst (fun k hk => by
      rw [hcalls₃, List.mem_singleton] at hk
      rw [hk, hlLink]
      exact hnew) hline₃
  rw [hcalls₃] at hcalls₄
  refine ⟨w₄, c₂, hcareer₂.passes (hpasses₃.trans hpasses₄), l, ?_, k, ?_, ?_⟩
  · exact List.mem_filter.2 ⟨by rw [hcalls₄]; simp, decide_eq_true ⟨hlLink, hlPlace⟩⟩
  · exact List.mem_filter.2 ⟨by rw [hcalls₄]; simp, decide_eq_true ⟨hkLink, hkPlace⟩⟩
  · rw [hcalls₄]
    exact .refl _

/-- After the listener was called for a delivery, it is not called for an earlier one. -/
def InOrder (ds : List Dispatch) (w : World) : Prop :=
  ∀ earlier later, [earlier, later].Sublist ds →
    ∀ a ∈ earlier.made, ∀ b ∈ later.made, ¬CalledBefore w b a

/-- A message that is posted before the connection is given up may arrive behind the one that is
posted after that. -/
theorem order_may_be_lost :
    let first := "first".toUTF8
    let second := "second".toUTF8
    let earlier : Dispatch := ⟨first, false, .ok (), [⟨⟨0⟩, 0, .message 1 first false⟩]⟩
    let later : Dispatch := ⟨second, false, .ok (), [⟨⟨1⟩, 0, .message 2 second false⟩]⟩
    ∃ w c, Career [earlier, later] (w, c) ∧ ¬InOrder [earlier, later] w := by
  intro first second earlier later
  obtain ⟨w, c, hcareer, hcalled⟩ :=
    exists_overtaken first second (by decide +kernel) (by decide +kernel)
  refine ⟨w, c, hcareer, fun hinOrder => ?_⟩
  exact hinOrder earlier later (.refl _) _ (List.mem_singleton_self _) _ (List.mem_singleton_self _)
    hcalled

/-! ## When order is kept -/

theorem place_lt_of_sublist {α : Type} {l : List α} {place : α → Nat}
    (h : l.map place = List.range l.length) {x y : α} (hxy : [x, y].Sublist l) :
    place x < place y := by
  have hplaces := hxy.map place
  rw [h] at hplaces
  have hsorted := List.Pairwise.sublist hplaces List.pairwise_lt_range
  exact List.rel_of_pairwise_cons hsorted (List.mem_singleton_self _)

theorem Good.number_lt (h : Good caller w) {a : Attempt} (ha : a ∈ w.attempts) :
    a.link.number < w.opened := by
  by_contra hnot
  have hblank := h.blank a.link (Nat.le_of_not_lt hnot)
  have hmem : a ∈ (w.story a.link).attempts := List.mem_filter.2 ⟨ha, decide_eq_true rfl⟩
  rw [hblank.attempts] at hmem
  cases hmem

/-- On one connection, the listener is called for the attempts in order. -/
theorem Good.link_ne_of_calledBefore (h : Good caller w) {a b : Attempt}
    (hattempts : [a, b].Sublist w.attempts) (hcalled : CalledBefore w b a) : a.link ≠ b.link := by
  intro hlink
  obtain ⟨l, hl, k, hk, hcalls⟩ := hcalled
  obtain ⟨-, hl⟩ := List.mem_filter.1 hl
  obtain ⟨-, hk⟩ := List.mem_filter.1 hk
  obtain ⟨hlLink, hlPlace⟩ := of_decide_eq_true hl
  obtain ⟨hkLink, hkPlace⟩ := of_decide_eq_true hk
  have hsound := h.sound b.link
  have hattempts' : [a, b].Sublist (w.story b.link).attempts := by
    have hfilter := hattempts.filter fun a => a.link = b.link
    simpa [World.story, hlink] using hfilter
  have hcalls' : [l, k].Sublist (w.story b.link).calls := by
    have hfilter := hcalls.filter fun k => k.link = b.link
    simpa [World.story, hlLink, hkLink, hlink] using hfilter
  have hplace := place_lt_of_sublist hsound.attempts_places hattempts'
  have hplace' := place_lt_of_sublist hsound.calls_places hcalls'
  omega

/-- An attempt that was made later was made on the same connection or on a newer one. -/
theorem Does.number_le {made : List Attempt} (hgood : Good caller w) (h : Does made w w')
    {a b : Attempt} (ha : a ∈ w.attempts) (hb : b ∈ made) : a.link.number ≤ b.link.number := by
  have hold := hgood.number_lt ha
  have hnew := h.newest b hb
  omega

/-- When the listener has decided about an attempt, it is not called for it again behind a later
one. -/
theorem Decided.not_calledBefore {made : List Attempt} {a b : Attempt} {accepted : Bool}
    (hgood : Good caller w) (hgood' : Good caller w') (hdoes : Does made w w')
    (ha : a ∈ w.attempts) (hb : b ∈ made) (h : Decided w a accepted) : ¬CalledBefore w' b a := by
  intro hcalled
  obtain ⟨l, hl, k, hk, hcalls⟩ := hcalled
  obtain ⟨k₀, hk₀, hlink, hplace, -⟩ := h
  obtain ⟨more, hmore⟩ := hdoes.calls
  have hfaithful := hgood'.faithful
  have hold : a ∈ w'.attempts := by
    rw [hdoes.attempts]
    exact List.mem_append_left _ ha
  -- The attempt has been called for once already, so it is not called for again.
  have hkMore : k ∉ more := by
    intro hmem
    have honce := hfaithful.once a hold
    have hfirst : 0 < (w.callsFor a).length :=
      List.length_pos_of_mem (List.mem_filter.2 ⟨hk₀, decide_eq_true ⟨hlink, hplace⟩⟩)
    have hagain : 0 < (more.filter fun k => k.link = a.link ∧ k.place = a.place).length :=
      List.length_pos_of_mem (List.mem_filter.2 ⟨hmem, (List.mem_filter.1 hk).2⟩)
    rw [World.callsFor, ← hmore, List.filter_append, List.length_append] at honce
    rw [World.callsFor] at hfirst
    omega
  -- The other attempt had not been made, so the listener had not been called for it.
  have hlBefore : l ∉ w.calls := by
    intro hmem
    obtain ⟨a', ha', hl'⟩ := hgood.faithful.attempted l hmem
    obtain ⟨hlLink, hlPlace⟩ := of_decide_eq_true (List.mem_filter.1 hl).2
    obtain ⟨hlLink', hlPlace'⟩ := of_decide_eq_true (List.mem_filter.1 hl').2
    have hdistinct := hfaithful.distinct
    rw [hdoes.attempts, List.map_append, List.nodup_append] at hdistinct
    refine hdistinct.2.2 _ (List.mem_map_of_mem ha') _ (List.mem_map_of_mem hb) ?_
    rw [← hlLink, ← hlPlace, hlLink', hlPlace']
  rw [← hmore, List.sublist_append_iff] at hcalls
  obtain ⟨front, behind, heq, hfront, hbehind⟩ := hcalls
  cases front with
  | nil =>
    rw [List.nil_append] at heq
    exact hkMore (hbehind.subset (by rw [← heq]; simp))
  | cons x front =>
    obtain ⟨rfl, -⟩ := List.cons.inj heq
    exact hlBefore (hfront.subset (List.mem_cons_self ..))

/-- The world between two deliveries, in which the earlier one is over and no attempt of the later one
has been made. -/
theorem Career.between {ds : List Dispatch} {c : Courier} {earlier later : Dispatch}
    (h : Career ds (w, c)) (hpair : [earlier, later].Sublist ds) :
    ∃ caller w₂ more, Good caller w₂ ∧ Good caller w ∧ Does more w₂ w ∧
      earlier.made ⊆ w₂.attempts ∧ later.made ⊆ more ∧
      (earlier.IsAnswered → ∀ a, earlier.made.getLast? = some a →
        ∃ accepted, Decided w₂ a accepted) := by
  obtain ⟨first, after, hds, hfirst, hafter⟩ := List.cons_sublist_iff.1 hpair
  obtain ⟨front, between, rfl⟩ := List.append_of_mem hfirst
  rw [List.append_assoc, List.cons_append] at hds
  obtain ⟨w₁, c₁, w₂, c₂, hfront, hrun, hmade, hgoes⟩ := h.split hds
  obtain ⟨made, -, hdoes, houtcome, hsettled₂⟩ := send_spec hfront.reached.steady hrun
  obtain rfl : made = earlier.made := List.append_cancel_left (hdoes.attempts.symm.trans hmade)
  have hsteady₂ : Steady (w₂, c₂) := ⟨houtcome.self ▸ houtcome.good, hsettled₂⟩
  obtain ⟨hsteady, hself, more, hdoes'⟩ := steady_later hgoes hsteady₂
  have hmore : more = (between ++ after).flatMap Dispatch.made := by
    have hattempts := h.attempts_eq
    rw [hds, List.flatMap_append, List.flatMap_cons, ← hfront.attempts_eq, ← List.append_assoc,
      ← hmade, hdoes'.attempts] at hattempts
    exact List.append_cancel_left hattempts
  refine ⟨c₂.self, w₂, more, hsteady₂.good, hself ▸ hsteady.good, hdoes', ?_, ?_, ?_⟩
  · intro a ha
    rw [hmade]
    exact List.mem_append_right _ ha
  · intro b hb
    rw [hmore]
    exact List.mem_flatMap.2 ⟨later, List.mem_append_right _ (List.singleton_sublist.1 hafter), hb⟩
  · intro hanswered a hlast
    rcases hanswered with ⟨hwait, hok⟩ | ⟨address, id, hrefused⟩
    · obtain ⟨a', accepted, ha', hdecided, -⟩ := houtcome.verified hok hwait
      obtain rfl := Option.some.inj (ha'.symm.trans hlast)
      exact ⟨accepted, hdecided⟩
    · obtain ⟨a', ha', hdecided⟩ := houtcome.refused address id hrefused
      obtain rfl := Option.some.inj (ha'.symm.trans hlast)
      exact ⟨false, hdecided⟩

/-- **Theorem.** If the listener was called for an attempt of a later delivery and after that for one
of an earlier delivery, then the earlier one was made on an older connection, which the courier has
given up, and it is not an attempt whose answer the courier has received. -/
theorem overtaken_only_on_older_connection {ds : List Dispatch} {c : Courier}
    {earlier later : Dispatch} {a b : Attempt} (hcareer : Career ds (w, c))
    (hpair : [earlier, later].Sublist ds) (ha : a ∈ earlier.made) (hb : b ∈ later.made)
    (hcalled : CalledBefore w b a) :
    a.link.number < b.link.number ∧ c.link ≠ some a.link ∧
      ¬(earlier.IsAnswered ∧ earlier.made.getLast? = some a) := by
  obtain ⟨caller, w₂, more, hgood₂, hgood, hdoes, hearlier, hlater, hanswered⟩ :=
    hcareer.between hpair
  have hattempts : [a, b].Sublist w.attempts := by
    rw [hdoes.attempts]
    exact (List.singleton_sublist.2 (hearlier ha)).append (List.singleton_sublist.2 (hlater hb))
  have hne : a.link.number ≠ b.link.number := fun hnumber =>
    hgood.link_ne_of_calledBefore hattempts hcalled (congrArg Link.mk hnumber)
  have hle := hdoes.number_le hgood₂ (hearlier ha) (hlater hb)
  have hopened := hgood.number_lt (hattempts.subset (List.mem_cons_of_mem a List.mem_cons_self))
  refine ⟨Nat.lt_of_le_of_ne hle hne, fun hlink => ?_, fun hlast => ?_⟩
  · have hsteady : Steady (w, c) := hcareer.reached.steady
    have hnewest : a.link.number + 1 = w.opened := (hsteady.settled a.link hlink).newest
    omega
  · obtain ⟨accepted, hdecided⟩ := hanswered hlast.1 a hlast.2
    exact hdecided.not_calledBefore hgood₂ hgood hdoes (hearlier ha) (hlater hb) hcalled

/-- Two messages of which the later one arrives first. -/
theorem overtaken_only_on_older_connection_of_two_messages :
    let first := "first".toUTF8
    let second := "second".toUTF8
    let a : Attempt := ⟨⟨0⟩, 0, .message 1 first false⟩
    let b : Attempt := ⟨⟨1⟩, 0, .message 2 second false⟩
    let earlier : Dispatch := ⟨first, false, .ok (), [a]⟩
    let later : Dispatch := ⟨second, false, .ok (), [b]⟩
    ∃ w c, Career [earlier, later] (w, c) ∧ CalledBefore w b a ∧
      a.link.number < b.link.number ∧ c.link ≠ some a.link ∧
      ¬(earlier.IsAnswered ∧ earlier.made.getLast? = some a) := by
  intro first second a b earlier later
  obtain ⟨w, c, hcareer, hcalled⟩ :=
    exists_overtaken first second (by decide +kernel) (by decide +kernel)
  exact ⟨w, c, hcareer, hcalled, overtaken_only_on_older_connection hcareer (.refl _)
    (List.mem_singleton_self _) (List.mem_singleton_self _) hcalled⟩

end PeerCluster.Delivery
