import PeerCluster.Proofs.CourierPlans

/-!
# A delivery can be answered

No delivery has to fail. **Theorem (`send_may_be_answered`).** When the next connection of a courier
will be a new one, the network may carry everything and the receiver may take it, and then the
delivery reports what the listener decides, whatever that is.
-/

namespace PeerCluster.Delivery

open Exchange

variable {w : World} {link : Link}

/-! ## A network that loses nothing -/

theorem lines_withLine_self (w : World) (link : Link) (line : Line) :
    (w.withLine link line).lines link = line :=
  Function.update_self ..

theorem lines_write_self (w : World) (link : Link) (f : Frame) (written : List UInt8) :
    (w.write link f written).lines link =
      { w.lines link with forth := (w.lines link).forth.put written } :=
  Function.update_self ..

/-- What a receiver comes to that takes a frame when it is in a phase. -/
def taken (phase : Inbound.Phase) (accepted : Bool) (f : Frame) : Inbound :=
  (Inbound.mk phase [] []).take (fun _ _ => accepted) f

/-- When everything that is on its way arrives, the first frame is found. -/
theorem Pipe.front?_carry {p : Pipe} {f : Frame} {more : List UInt8} (hfits : f.Fits)
    (h : p.bytes = f.bytes ++ more) :
    ∃ rest, (p.carry p.onTheWay.length).front? = some (.frame f rest) ∧
      Pipe.bytes { p.carry p.onTheWay.length with arrived := rest.contents } = more := by
  have harrived : (p.carry p.onTheWay.length).arrived = p.bytes := by
    simp [Pipe.carry, Pipe.bytes]
  have hempty : (p.carry p.onTheWay.length).onTheWay = [] := by simp [Pipe.carry]
  have hbytes : p.bytes.toByteArray.data.toList = f.bytes ++ more := by
    rw [List.toList_data_toByteArray, h]
  obtain ⟨rest, hfront, hrest⟩ := FrameStream.arrived?_of_bytes hfits hbytes
  refine ⟨rest, ?_, ?_⟩
  · rw [Pipe.front?, harrived]
    exact hfront
  · rw [Pipe.bytes, hempty, List.append_nil]
    exact hrest

/-- A frame that has been written may reach the receiver, while nothing happens on any other
connection. -/
theorem passes_serve (accepted : Bool) {f : Frame} {more : List UInt8} (hfits : f.Fits)
    (h : (w.lines link).forth.bytes = f.bytes ++ more) :
    ∃ w', Passes w w' ∧ (w'.lines link).forth.bytes = more ∧
      (w'.lines link).back.bytes = (w.lines link).back.bytes ++
        Frame.bytesOf (taken (w.lines link).phase accepted f).replies.reverse ∧
      (w'.lines link).phase = (taken (w.lines link).phase accepted f).phase ∧
      (∀ link' ≠ link, w'.lines link' = w.lines link') ∧
      w'.calls = w.calls ++ (taken (w.lines link).phase accepted f).receipts.reverse.map
        fun r => ⟨link, (w.story link).calls.length, f, r, accepted⟩ := by
  obtain ⟨rest, hfront, hrest⟩ := Pipe.front?_carry hfits h
  let line : Line :=
    { w.lines link with forth := (w.lines link).forth.carry (w.lines link).forth.onTheWay.length }
  have hline : (w.withLine link line).lines link = line := lines_withLine_self w link line
  have hfound : ((w.withLine link line).lines link).forth.front? = some (.frame f rest) := by
    rw [hline]
    exact hfront
  refine ⟨_, .tail (.single (.carryForth w link _)) (.serve _ link accepted hfound), ?_⟩
  rw [World.serve, lines_withLine_self, hline]
  refine ⟨hrest, ?_, rfl, fun link' hne => ?_, rfl⟩
  · rw [Pipe.bytes_put]
    rfl
  · exact (Function.update_of_ne hne ..).trans (Function.update_of_ne hne ..)

/-- An answer that has been given may be heard. -/
theorem responds_read {f : Frame} {more : List UInt8} (hfits : f.Fits) (ms : Nat)
    (h : (w.lines link).back.bytes = f.bytes ++ more) :
    ∃ w', Responds w (.read link ms) (.frame f) w' := by
  obtain ⟨rest, hfront, -⟩ := Pipe.front?_carry hfits h
  let line : Line :=
    { w.lines link with back := (w.lines link).back.carry (w.lines link).back.onTheWay.length }
  have hline : (w.withLine link line).lines link = line := lines_withLine_self w link line
  have hheard : ((w.withLine link line).lines link).back.Hears (.frame f)
      { line.back with arrived := rest.contents } := by
    rw [hline]
    exact .frame hfront
  exact ⟨_, _, .single (.carryBack w link _), _, hheard, rfl⟩

/-! ## A delivery over it -/

theorem attempts_pos (d : Settings.Delivery) : 0 < d.attempts := by
  rw [Settings.Delivery.attempts]
  have hsize : 0 < UInt32.size - 1 := by decide
  omega

theorem connect_may_succeed {c : Courier} (hlink : c.link = none)
    (hgreeting : (Frame.ofHandshake c.self).Fits) :
    c.connect.Runs Responds w
      (.ok ⟨w.opened⟩, { c with link := some ⟨w.opened⟩, requests := 0, lastUsed := some 0 })
      (World.write { w with opened := w.opened + 1 } ⟨w.opened⟩ (.ofHandshake c.self)
        (Frame.ofHandshake c.self).bytes) := by
  have hcheck : Frame.checkSize (Frame.ofHandshake c.self).wireSize = .ok () :=
    Frame.checkSize_eq_ok_iff.2 hgreeting
  rw [Courier.connect]
  simp only [hlink]
  rw [runs_bind_iff]
  refine ⟨.ok ⟨w.opened⟩, _, ?_, runs_request_bind_iff.2 ⟨0, _, ⟨_, .refl, rfl⟩, .done _ _⟩⟩
  rw [Courier.dial, runs_request_bind_iff]
  refine ⟨.connected ⟨w.opened⟩, _, ⟨w, .refl, rfl, rfl⟩, ?_⟩
  simp only [hcheck]
  rw [runs_request_bind_iff]
  exact ⟨.ok (), _, ⟨_, .refl, _, List.prefix_rfl, fun _ => rfl, rfl⟩, .done _ _⟩

theorem taken_greeting (accepted : Bool) {caller : Handshake}
    (htype : caller.type = Handshake.typeName) :
    taken .fresh accepted (.ofHandshake caller) = ⟨.known caller.toMember, [], []⟩ := by
  simp [taken, Inbound.take, Frame.handshake_ofHandshake, htype]

theorem replies_taken_message (source : Member) (accepted : Bool) (id : UInt64)
    (payload : ByteArray) :
    (taken (.known source) accepted (.message id payload true)).replies = [.reply accepted id] := by
  have hkind : (Frame.message id payload true).kind = .message := rfl
  simp only [taken, Inbound.take, hkind, if_true, Inbound.hand, asksForAck_message]
  rfl

theorem message_may_be_answered {caller : Handshake} {id : UInt64} {payload : ByteArray}
    (accepted : Bool) (ms : Nat) (hgreeting : (Frame.ofHandshake caller).Fits)
    (htype : caller.type = Handshake.typeName) (hfits : (Frame.message id payload true).Fits)
    (hphase : (w.lines link).phase = .fresh)
    (hforth : (w.lines link).forth.bytes =
      (Frame.ofHandshake caller).bytes ++ (Frame.message id payload true).bytes)
    (hback : (w.lines link).back.bytes = []) :
    ∃ w', Responds w (.read link ms) (.frame (.reply accepted id)) w' := by
  obtain ⟨w₁, hpasses₁, hforth₁, hback₁, hphase₁, -⟩ := passes_serve accepted hgreeting hforth
  rw [hphase, taken_greeting accepted htype] at hback₁ hphase₁
  rw [hback] at hback₁
  rw [← List.append_nil (Frame.bytes _)] at hforth₁
  obtain ⟨w₂, hpasses₂, -, hback₂, -⟩ := passes_serve accepted hfits hforth₁
  rw [hphase₁, hback₁, replies_taken_message] at hback₂
  have hanswer : (w₂.lines link).back.bytes = (Frame.reply accepted id).bytes ++ [] := by
    simp only [hback₂, List.reverse_nil, List.reverse_singleton, Frame.bytesOf_nil,
      Frame.bytesOf_cons, List.nil_append]
  obtain ⟨w₃, w₄, hpasses₃, hheard⟩ := responds_read (Story.fits_reply accepted id) ms hanswer
  exact ⟨w₃, w₄, (hpasses₁.trans hpasses₂).trans hpasses₃, hheard⟩

/-- What the listener decides may be what the courier reports. -/
theorem attempt_may_be_answered {c : Courier} {payload : ByteArray} (accepted : Bool)
    (hfits : (Frame.message c.nextId payload true).Fits)
    (hgreeting : (Frame.ofHandshake c.self).Fits) (htype : c.self.type = Handshake.typeName)
    (hthrow : c.settings.throwOnFailedAck = true) (hlink : c.link = none)
    (hnew : w.lines ⟨w.opened⟩ = {}) :
    ∃ w' c', (c.attempt payload true).Runs Responds w
      (if accepted then .ok () else .error (.remoteFailure c.destination.address c.nextId), c')
      w' := by
  let w₁ := World.write { w with opened := w.opened + 1 } ⟨w.opened⟩ (.ofHandshake c.self)
    (Frame.ofHandshake c.self).bytes
  let m := Frame.message c.nextId payload true
  let w₂ := w₁.write ⟨w.opened⟩ m m.bytes
  have hline : w₂.lines ⟨w.opened⟩ =
      { forth := Pipe.put (Pipe.put {} (Frame.ofHandshake c.self).bytes) m.bytes } := by
    simp only [w₂, w₁, lines_write_self, hnew]
  have hforth : (w₂.lines ⟨w.opened⟩).forth.bytes =
      (Frame.ofHandshake c.self).bytes ++ m.bytes := by
    have hempty : Pipe.bytes {} = [] := rfl
    simp only [hline, Pipe.bytes_put, hempty, List.nil_append]
  obtain ⟨w₃, hread⟩ := message_may_be_answered accepted c.settings.readTimeoutMs.toNat hgreeting
    htype hfits (by rw [hline]) hforth (by rw [hline]; rfl)
  let c₁ : Courier :=
    { c with
      link := some ⟨w.opened⟩, requests := 0 + 1, lastUsed := some 0, nextId := c.nextId + 1 }
  refine ⟨w₃, c₁, ?_⟩
  rw [Courier.attempt, runs_bind_iff]
  refine ⟨_, _, connect_may_succeed hlink hgreeting, runs_request_bind_iff.2 ?_⟩
  refine ⟨.ok (), w₂, ⟨w₁, .refl, m.bytes, List.prefix_rfl, fun _ => rfl, rfl⟩, ?_⟩
  refine runs_request_bind_iff.2 ⟨0, w₂, ⟨w₂, .refl, rfl⟩, ?_⟩
  rw [if_pos rfl]
  refine runs_request_bind_iff.2 ⟨_, w₃, hread, ?_⟩
  show (judged c.nextId c₁ (.frame (.reply accepted c.nextId))).Runs Responds w₃ _ w₃
  rw [judged, judge_reply]
  cases accepted with
  | true => exact runs_mark_iff.2 ⟨w₃, .refl, .done _ _⟩
  | false =>
    rw [if_neg Bool.false_ne_true, if_pos hthrow]
    exact .done _ _

/-- A delivery is over with the first attempt after which no other is made. -/
theorem send_of_attempt {σ : Type} {answers : Answering σ} {s s' : σ} {c c' : Courier}
    {payload : ByteArray} {wait : Bool} {result : Except DeliveryError Unit}
    (hsize : Frame.headerSize + payload.size ≤ Frame.maxSize)
    (hattempt : (c.attempt payload wait).Runs answers s (result, c') s')
    (hfinal : IsFinal result) : (c.send payload wait).Runs answers s (result, c') s' := by
  have hcheck : Frame.checkSize (Frame.headerSize + payload.size) = .ok () :=
    Frame.checkSize_eq_ok_iff.2 hsize
  obtain ⟨left, hleft⟩ := Nat.exists_eq_succ_of_ne_zero (Nat.ne_of_gt (attempts_pos c.settings))
  simp only [Courier.send, hcheck]
  rw [hleft, attemptUpTo_succ, runs_bind_iff]
  refine ⟨c, s, .done _ _, runs_bind_iff.2 ⟨_, _, hattempt, ?_⟩⟩
  cases result with
  | ok u => exact .done _ _
  | error e =>
    simp only [hfinal e rfl]
    exact .done _ _

/-- **Theorem.** A delivery may report what the listener decides, whatever that is. -/
theorem send_may_be_answered {c : Courier} {payload : ByteArray} (accepted : Bool)
    (hsize : Frame.headerSize + payload.size ≤ Frame.maxSize)
    (hgreeting : (Frame.ofHandshake c.self).Fits) (htype : c.self.type = Handshake.typeName)
    (hthrow : c.settings.throwOnFailedAck = true) (hlink : c.link = none)
    (hnew : w.lines ⟨w.opened⟩ = {}) :
    ∃ w' c', (c.send payload true).Runs Responds w
      (if accepted then .ok () else .error (.remoteFailure c.destination.address c.nextId), c')
      w' := by
  obtain ⟨w', c', hattempt⟩ :=
    attempt_may_be_answered accepted hsize hgreeting htype hthrow hlink hnew
  refine ⟨w', c', send_of_attempt hsize hattempt ?_⟩
  intro e he
  cases accepted with
  | true => cases he
  | false =>
    obtain rfl := Except.error.inj he
    rfl

end PeerCluster.Delivery
