import PeerCluster.Proofs.AcknowledgedDelivery
import PeerCluster.Proofs.CourierRecords
import PeerCluster.Proofs.CutStreams
import Mathlib.Data.List.Forall2

/-!
# A courier and its receiver stay in step

**The books** (`Books`). The n-th message that a courier begins to write has the number n + 1, which
is where the courier goes on, and nothing has been heard on a connection that has not been opened.

**Even** (`Even`). A courier that may go on with its connection has heard exactly one answer to every
message on it that asked for one, in order. Writing a message breaks this until its answer is read,
and every way out of an attempt in between gives the connection up before the next one.

**Theorem (`courier_stays_in_step`).** So over a whole life the numbers only grow, no answer is left
unread on the connection that is held, and no attempt ever meets an answer that it did not ask for.
-/

namespace PeerCluster

open Exchange

/-- Whether an error says that courier and receiver are out of step. -/
def DeliveryError.isOutOfStep : DeliveryError → Bool
  | .wire (.mismatchedReply ..) | .wire (.unexpectedFrame ..) => true
  | _ => false

/-! ## Frames that have not arrived as a whole -/

namespace FrameStream

/-- While frames are arriving, nothing that has arrived is refused. -/
theorem arrived?_ne_failed {bs : ByteArray} {more : List UInt8} {fs : List Frame}
    (hfs : ∀ g ∈ fs, g.Fits) (hbs : bs.data.toList ++ more = Frame.bytesOf fs) (e : WireError) :
    arrived? bs false ≠ some (.failed (.wire e)) := by
  cases fs with
  | nil =>
    have hnil : contents ⟨[bs]⟩ = [] := by
      rw [contents_singleton]
      exact (List.append_eq_nil_iff.1 hbs).1
    have hnone : take? ⟨[bs]⟩ Frame.lengthWidth = none := by
      rw [take?_eq_none_iff, hnil]
      decide
    simp [arrived?, front, hnone]
  | cons f fs =>
    have hfits : f.Fits := hfs f List.mem_cons_self
    rw [Frame.bytesOf_cons] at hbs
    by_cases hwhole : f.bytes <+: bs.data.toList
    · obtain ⟨behind, hbehind⟩ := hwhole
      obtain ⟨rest, harrived, -⟩ := arrived?_of_bytes hfits hbehind.symm
      simp [harrived]
    · simp [arrived?_of_short hfits ⟨more, hbs⟩ hwhole]

end FrameStream

namespace Delivery

variable {caller : Handshake} {w w' : World} {c c' : Courier} {notes notes' : Notes} {link : Link}

/-- While an answer is awaited, only the connection itself can fail. -/
theorem Awaits.exists_fault {a : Attempt} {ms : Nat} {e : DeliveryError} (hgood : Good caller w)
    (hawaits : Awaits caller w a) (hread : Responds w (.read a.link ms) (.failed e) w') :
    ∃ fault, e = .io fault := by
  obtain ⟨w₁, hpasses, back, hhears, -⟩ := hread
  obtain ⟨-, -, -, r, -, hstep⟩ := hawaits.passes hgood hpasses
  cases hhears with
  | broken fault => exact ⟨fault, rfl⟩
  | @refused refusal _ hfront =>
    have hfits : ∀ g ∈ (w₁.story a.link).replies.drop r, g.Fits :=
      fun g hg => Story.fits_of_mem_replies (List.mem_of_mem_drop hg)
    have hbytes : (w₁.lines a.link).back.arrived.toByteArray.data.toList ++
        (w₁.lines a.link).back.onTheWay = Frame.bytesOf ((w₁.story a.link).replies.drop r) := by
      rw [List.toList_data_toByteArray]
      exact hstep.back
    exact absurd hfront (FrameStream.arrived?_ne_failed hfits hbytes refusal)

/-! ## The books -/

/-- What has been heard on one connection. -/
def heardOn (link : Link) (notes : Notes) : List Heard :=
  (notes.filter fun n => n.1 = link).map Prod.snd

theorem heardOn_append (link : Link) (notes notes' : Notes) :
    heardOn link (notes ++ notes') = heardOn link notes ++ heardOn link notes' := by
  rw [heardOn, List.filter_append, List.map_append]
  rfl

theorem heardOn_note (link : Link) (heard : Heard) : heardOn link [(link, heard)] = [heard] := by
  simp [heardOn]

theorem heardOn_note_of_ne {link' : Link} (h : link' ≠ link) (heard : Heard) :
    heardOn link' [(link, heard)] = [] := by
  simp [heardOn, h.symm]

/-- The number of the message before which so many have been written. -/
def numberAfter (n : Nat) : UInt64 :=
  .ofNat (n + 1)

theorem numberAfter_succ (n : Nat) : numberAfter (n + 1) = numberAfter n + 1 :=
  UInt64.ofNat_add (n + 1) 1

/-- What holds of a courier at any time. -/
structure Books (w : World) (notes : Notes) (c : Courier) : Prop where
  good : Good c.self w
  unheard : ∀ link, w.opened ≤ link.number → heardOn link notes = []
  next : c.nextId = numberAfter w.attempts.length
  numbered : (w.attempts.map fun a => a.message.id) =
    (List.range w.attempts.length).map numberAfter

theorem Books.does (h : Books w notes c) (hdoes : Does [] w w') (hgood : Good c'.self w')
    (hnext : c'.nextId = c.nextId) : Books w' notes c' := by
  have hattempts : w'.attempts = w.attempts := hdoes.attempts.trans (List.append_nil _)
  refine ⟨hgood, fun link hlink => h.unheard link (Nat.le_trans hdoes.opened hlink), ?_, ?_⟩
  · rw [hnext, hattempts, h.next]
  · rw [hattempts, h.numbered]

/-- The next message has the next number. -/
theorem Books.writes {a : Attempt} (h : Books w notes c) (hdoes : Does [a] w w')
    (hgood : Good c'.self w') (hid : a.message.id = c.nextId) (hnext : c'.nextId = c.nextId + 1) :
    Books w' notes c' := by
  have hlength : w'.attempts.length = w.attempts.length + 1 := by
    rw [hdoes.attempts, List.length_append, List.length_singleton]
  refine ⟨hgood, fun link hlink => h.unheard link (Nat.le_trans hdoes.opened hlink), ?_, ?_⟩
  · rw [hnext, hlength, numberAfter_succ, h.next]
  · rw [hlength, hdoes.attempts, List.map_append, List.range_succ, List.map_append, h.numbered,
      List.map_singleton, List.map_singleton, hid, h.next]

theorem Books.hears (h : Books w notes c) (hopened : link.number < w.opened) (heard : Heard) :
    Books w (notes ++ [(link, heard)]) c := by
  refine { h with unheard := fun link' hlink' => ?_ }
  have hne : link' ≠ link := by
    rintro rfl
    omega
  rw [heardOn_append, h.unheard link' hlink', heardOn_note_of_ne hne, List.append_nil]

/-- As long as the numbers last, they only grow. -/
theorem Books.increasing (h : Books w notes c) (hfew : w.attempts.length < UInt64.size) :
    (w.attempts.map fun a => a.message.id.toNat).Pairwise (· < ·) := by
  have hnumbers : (w.attempts.map fun a => a.message.id.toNat) =
      ((List.range w.attempts.length).map numberAfter).map UInt64.toNat := by
    rw [← h.numbered, List.map_map]
    rfl
  rw [hnumbers, List.pairwise_map, List.pairwise_map]
  refine List.pairwise_lt_range.imp_of_mem fun {i j} hi hj hlt => ?_
  rw [List.mem_range] at hi hj
  rw [numberAfter, numberAfter, UInt64.toNat_ofNat_of_lt', UInt64.toNat_ofNat_of_lt']
  · omega
  · show j + 1 < UInt64.size
    omega
  · show i + 1 < UInt64.size
    omega

/-! ## Answers that have been heard -/

/-- The messages on a connection that ask for an answer. -/
def World.requests (w : World) (link : Link) : List Attempt :=
  (w.story link).attempts.filter fun a => a.message.asksForAck

theorem requests_of_does {made : List Attempt} (hdoes : Does made w w') (link : Link) :
    w'.requests link = w.requests link ++
      (made.filter fun a => a.link = link).filter fun a => a.message.asksForAck := by
  rw [World.requests, World.story, hdoes.attempts, List.filter_append, List.filter_append]
  rfl

/-- What was heard is the listener's decision about a message. -/
def Replied (w : World) (a : Attempt) (heard : Heard) : Prop :=
  ∃ accepted, heard = .frame (.reply accepted a.message.id) ∧ Decided w a accepted

/-- To every message on a connection that asks for an answer, one answer has been heard. -/
def Paid (w : World) (notes : Notes) (link : Link) : Prop :=
  List.Forall₂ (Replied w) (w.requests link) (heardOn link notes)

/-- A message that asks for no answer changes nothing about the answers. -/
theorem Paid.does {made : List Attempt} (h : Paid w notes link) (hdoes : Does made w w')
    (hnone : ∀ a ∈ made, a.message.asksForAck = false) : Paid w' notes link := by
  have hsame : w'.requests link = w.requests link := by
    rw [requests_of_does hdoes, List.filter_eq_nil_iff.2, List.append_nil]
    intro a ha
    rw [hnone a (List.mem_filter.1 ha).1]
    exact Bool.false_ne_true
  rw [Paid, hsame]
  exact h.imp fun a heard ⟨accepted, heq, hdecided⟩ => ⟨accepted, heq, hdecided.does hdoes⟩

theorem Paid.answered {a : Attempt} {heard : Heard} (h : Paid w notes a.link)
    (hdoes : Does [a] w w') (hasks : a.message.asksForAck) (hreplied : Replied w' a heard) :
    Paid w' (notes ++ [(a.link, heard)]) a.link := by
  have hone : w'.requests a.link = w.requests a.link ++ [a] := by
    rw [requests_of_does hdoes]
    simp [hasks]
  rw [Paid, hone, heardOn_append, heardOn_note]
  refine List.rel_append (h.imp ?_) (.cons hreplied .nil)
  exact fun a heard ⟨accepted, heq, hdecided⟩ => ⟨accepted, heq, hdecided.does hdoes⟩

theorem Books.paid_of_unopened (h : Books w notes c) (hlink : w.opened ≤ link.number) :
    Paid w notes link := by
  rw [Paid, h.unheard link hlink, World.requests, (h.good.blank link hlink).attempts]
  exact .nil

/-- What holds of a courier that may go on with the connection that it holds. -/
structure Even (w : World) (notes : Notes) (c : Courier) : Prop where
  settled : Settled w c
  paid : ∀ link, c.link = some link → Paid w notes link

theorem even_of_unlinked (hlink : c.link = none) : Even w notes c := by
  have hno : ∀ link, c.link ≠ some link := by
    intro link hlink'
    rw [hlink] at hlink'
    cases hlink'
  exact ⟨fun link hlink => absurd hlink (hno link), fun link hlink => absurd hlink (hno link)⟩

/-! ## One attempt -/

/-- A connection that is opened is a new one. -/
theorem dial_told {result : Except DeliveryError Link} (hrun : c.dial.Runs Responds w result w') :
    (∀ link, result = .ok link → w.opened ≤ link.number) ∧
      ∀ e, result = .error e → e.isOutOfStep = false := by
  rw [Courier.dial, runs_request_bind_iff] at hrun
  obtain ⟨dialled, w₂, ⟨w₁, hpasses, hanswer⟩, hrun⟩ := hrun
  cases dialled with
  | timedOut | failed =>
    obtain ⟨rfl, -⟩ := runs_pure_iff.1 hrun
    exact ⟨by simp, fun e he => by cases he; rfl⟩
  | connected link =>
    obtain ⟨rfl, -⟩ := hanswer
    have hnew : w.opened ≤ w₁.opened := hpasses.does.2.opened
    cases hsize : Frame.checkSize (Frame.ofHandshake c.self).wireSize with
    | error e =>
      simp only [hsize, runs_close_iff, runs_pure_iff] at hrun
      obtain ⟨w₃, hpasses₃, rfl, -⟩ := hrun
      rw [Frame.checkSize] at hsize
      split at hsize
      · cases hsize
        exact ⟨by simp, fun e he => by cases he; rfl⟩
      · cases hsize
    | ok u =>
      simp only [hsize] at hrun
      obtain ⟨outcome, w₃, -, hrun⟩ := runs_request_bind_iff.1 hrun
      cases outcome with
      | error fault =>
        simp only [runs_close_iff, runs_pure_iff] at hrun
        obtain ⟨w₄, hpasses₄, rfl, -⟩ := hrun
        exact ⟨by simp, fun e he => by cases he; rfl⟩
      | ok v =>
        obtain ⟨rfl, -⟩ := runs_pure_iff.1 hrun
        exact ⟨fun link hlink => Except.ok.inj hlink ▸ hnew, by simp⟩

theorem connect_told {result : Except DeliveryError Link} (hbooks : Books w notes c)
    (heven : Even w notes c) (hrun : c.connect.Runs Noted (w, notes) (result, c') (w', notes')) :
    Books w' notes' c' ∧ Even w' notes' c' ∧
      (∀ link, result = .ok link → c'.link = some link) ∧
      ∀ e, result = .error e → e.isOutOfStep = false := by
  obtain rfl : notes' = notes := isDeaf_connect c _ _ _ hrun
  have hplain := runs_of_noted hrun
  obtain ⟨hself, -, hgood, hdoes, hsettled, hheld, -⟩ :=
    connect_spec hbooks.good heven.settled hplain
  have hbooks' : ∀ {c₁ : Courier}, c₁.self = c.self → c₁.nextId = c.nextId → Books w' notes' c₁ :=
    fun hself hnext => hbooks.does hdoes (hself ▸ hgood) hnext
  rw [Courier.connect] at hplain
  split at hplain
  · rename_i link hlink
    obtain ⟨hresult, rfl⟩ := runs_pure_iff.1 hplain
    obtain ⟨rfl, rfl⟩ := Prod.mk.inj hresult
    exact ⟨hbooks, heven, hheld, by simp⟩
  · rename_i hlink
    obtain ⟨dialled, w₁, hdial, hplain⟩ := runs_bind_iff.1 hplain
    obtain ⟨hnew, hstep⟩ := dial_told hdial
    cases dialled with
    | ok link =>
      obtain ⟨now, w₂, -, hplain⟩ := runs_request_bind_iff.1 hplain
      obtain ⟨hresult, rfl⟩ := runs_pure_iff.1 hplain
      obtain ⟨rfl, rfl⟩ := Prod.mk.inj hresult
      refine ⟨hbooks' rfl rfl, ⟨hsettled, fun link' hlink' => ?_⟩, hheld, by simp⟩
      obtain rfl := Option.some.inj hlink'
      exact (hbooks.paid_of_unopened (hnew link rfl)).does hdoes (List.forall_mem_nil _)
    | error e =>
      obtain ⟨w₂, -, hplain⟩ := runs_mark_iff.1 hplain
      obtain ⟨hresult, rfl⟩ := runs_pure_iff.1 hplain
      obtain ⟨rfl, rfl⟩ := Prod.mk.inj hresult
      refine ⟨hbooks' rfl rfl, even_of_unlinked hlink, hheld, fun e' he' => ?_⟩
      rw [← Except.error.inj he']
      exact hstep e rfl

/-- What is heard while an answer is awaited says nothing about being out of step. -/
theorem Answered.isOutOfStep {a : Attempt} {heard : Heard} {e : DeliveryError}
    (h : Answered caller w a heard) (hfault : ∀ e, heard = .failed e → ∃ fault, e = .io fault)
    (hjudge : c.judge a.message.id heard = .failed e) : e.isOutOfStep = false := by
  cases heard with
  | frame f =>
    obtain ⟨accepted, rfl, -⟩ := h.reply f rfl
    rw [judge_reply] at hjudge
    split at hjudge
    · cases hjudge
    · split at hjudge <;> cases hjudge
      rfl
  | failed e' =>
    obtain ⟨fault, rfl⟩ := hfault e' rfl
    cases hjudge
    rfl
  | ended | timedOut =>
    cases hjudge
    rfl

theorem judged_told {id : UInt64} {heard : Heard} {result : Except DeliveryError Unit}
    (hrun : (judged id c heard).Runs Responds w (result, c') w') :
    c' = c ∧ ∀ e, result = .error e → c.judge id heard = .failed e := by
  rw [judged] at hrun
  split at hrun
  · obtain ⟨w₁, -, hrun⟩ := runs_mark_iff.1 hrun
    obtain ⟨hresult, -⟩ := runs_pure_iff.1 hrun
    obtain ⟨rfl, rfl⟩ := Prod.mk.inj hresult
    exact ⟨rfl, by simp⟩
  · obtain ⟨hresult, -⟩ := runs_pure_iff.1 hrun
    obtain ⟨rfl, rfl⟩ := Prod.mk.inj hresult
    exact ⟨rfl, by simp⟩
  · rename_i hjudge
    obtain ⟨hresult, -⟩ := runs_pure_iff.1 hrun
    obtain ⟨rfl, rfl⟩ := Prod.mk.inj hresult
    exact ⟨rfl, fun e he => Except.error.inj he ▸ hjudge⟩

/-- An attempt that is final has heard a frame, since every other end of a wait can be mended. -/
theorem exists_frame_of_isFinal {a : Attempt} {heard : Heard} {result : Except DeliveryError Unit}
    (hanswered : Answered caller w a heard)
    (hrun : (judged a.message.id c heard).Runs Responds w (result, c') w')
    (hfinal : IsFinal result) : ∃ f, heard = .frame f := by
  have hmendable : ∀ e, c.judge a.message.id heard = .failed e → e.isRetryable = true → False := by
    intro e hjudge he
    rw [judged, hjudge] at hrun
    obtain ⟨hresult, -⟩ := runs_pure_iff.1 hrun
    obtain ⟨rfl, -⟩ := Prod.mk.inj hresult
    exact not_isFinal_error he hfinal
  cases heard with
  | frame f => exact ⟨f, rfl⟩
  | failed e => exact (hmendable e rfl (hanswered.failure e rfl)).elim
  | ended | timedOut => exact (hmendable _ rfl rfl).elim

/-- What was heard is judged in silence. If the attempt is final it was the decision about the message,
and in no case does it say that courier and receiver are out of step. -/
theorem answer_told {a : Attempt} {heard : Heard} {result : Except DeliveryError Unit}
    (hgood : Good c.self w) (hlink : c.link = some a.link) (hanswered : Answered c.self w a heard)
    (hfault : ∀ e, heard = .failed e → ∃ fault, e = .io fault)
    (hrun : (judged a.message.id c heard).Runs Noted (w, notes) (result, c') (w', notes')) :
    notes' = notes ∧ c' = c ∧ Does [] w w' ∧ (IsFinal result → Replied w' a heard) ∧
      ∀ e, result = .error e → e.isOutOfStep = false := by
  have hplain := runs_of_noted hrun
  obtain ⟨hdoes, -, -⟩ := judged_spec hgood hlink hanswered hplain
  obtain ⟨hsame, hfailed⟩ := judged_told hplain
  refine ⟨isDeaf_judged _ _ _ _ _ _ hrun, hsame, hdoes, fun hfinal => ?_,
    fun e he => hanswered.isOutOfStep hfault (hfailed e he)⟩
  obtain ⟨f, rfl⟩ := exists_frame_of_isFinal hanswered hplain hfinal
  obtain ⟨accepted, rfl, hdecided, -⟩ := hanswered.reply f rfl
  exact ⟨accepted, rfl, hdecided.does hdoes⟩

/-- An attempt keeps the books, and one after which no other is made leaves the courier even. -/
theorem attempt_told {payload : ByteArray} {wait : Bool} {result : Except DeliveryError Unit}
    (hbooks : Books w notes c) (heven : Even w notes c)
    (hfits : ∀ id, (Frame.message id payload wait).Fits)
    (hrun : (c.attempt payload wait).Runs Noted (w, notes) (result, c') (w', notes')) :
    Books w' notes' c' ∧ (IsFinal result → Even w' notes' c') ∧
      ∀ e, result = .error e → e.isOutOfStep = false := by
  obtain ⟨_, -, -, houtcome, hsettled⟩ :=
    attempt_spec hbooks.good heven.settled hfits (runs_of_noted hrun)
  have hgood' : Good c'.self w' := houtcome.self ▸ houtcome.good
  rw [Courier.attempt, runs_bind_iff] at hrun
  obtain ⟨⟨connected, c₁⟩, ⟨w₁, notes₁⟩, hconnect, hrun⟩ := hrun
  obtain ⟨hbooks₁, heven₁, hheld, hstep⟩ := connect_told hbooks heven hconnect
  cases connected with
  | error e =>
    obtain ⟨hresult, hsame⟩ := runs_pure_iff.1 hrun
    obtain ⟨rfl, rfl⟩ := Prod.mk.inj hresult
    obtain ⟨rfl, rfl⟩ := Prod.mk.inj hsame
    exact ⟨hbooks₁, fun _ => heven₁, fun e' he' => Except.error.inj he' ▸ hstep e rfl⟩
  | ok link =>
    have hlink₁ : c₁.link = some link := hheld link rfl
    obtain ⟨outcome, w₂, hwrite, hrun⟩ := runs_noted_iff.1 hrun
    simp only [noteOf, List.append_nil] at hrun
    obtain ⟨a, rfl, hmessage, hgood₂, hdoes₂, hwritten⟩ :=
      write_spec hbooks₁.good (heven₁.settled link hlink₁) rfl (hfits _) hwrite
    have hid : a.message.id = c₁.nextId := by
      rw [hmessage]
      rfl
    have hasks : a.message.asksForAck = wait := by
      rw [hmessage]
      exact asksForAck_message ..
    cases outcome with
    | error fault =>
      obtain ⟨hresult, hsame⟩ := runs_pure_iff.1 hrun
      obtain ⟨rfl, rfl⟩ := Prod.mk.inj hresult
      obtain ⟨rfl, rfl⟩ := Prod.mk.inj hsame
      exact ⟨hbooks₁.writes hdoes₂ hgood' hid rfl,
        fun hfinal => absurd hfinal (not_isFinal_error rfl), fun e he => by cases he; rfl⟩
    | ok u =>
      obtain ⟨now, w₃, ⟨_, hpasses₃, rfl⟩, hrun⟩ := runs_noted_iff.1 hrun
      simp only [noteOf, List.append_nil] at hrun
      have hdoes₃ := hdoes₂.trans hpasses₃.does.2
      have hwritten := hwritten rfl
      rw [asksForAck_message] at hwritten
      cases wait with
      | false =>
        rw [if_neg Bool.false_ne_true] at hrun
        obtain ⟨_, w₄, ⟨_, hpasses₄, rfl⟩, hrun⟩ :=
          (runs_noted_iff (q := .mark .ready)).1 hrun
        simp only [noteOf, List.append_nil] at hrun
        obtain ⟨hresult, hsame⟩ := runs_pure_iff.1 hrun
        obtain ⟨rfl, rfl⟩ := Prod.mk.inj hresult
        obtain ⟨rfl, rfl⟩ := Prod.mk.inj hsame
        have hdoes₄ := hdoes₃.trans hpasses₄.does.2
        refine ⟨hbooks₁.writes hdoes₄ hgood' hid rfl, fun hfinal => ⟨hsettled hfinal, ?_⟩, by simp⟩
        intro link hlink
        obtain rfl := Option.some.inj (hlink₁.symm.trans hlink)
        refine (heven₁.paid a.link hlink₁).does hdoes₄ fun b hb => ?_
        rw [List.mem_singleton.1 hb, hasks]
      | true =>
        rw [if_pos rfl] at hrun
        obtain ⟨heard, w₄, hread, hrun⟩ := runs_noted_iff.1 hrun
        have hgood₃ := hgood₂.passes hpasses₃
        have hawaits := hwritten.passes hgood₂ hpasses₃
        obtain ⟨hgood₄, hdoes₄, hanswered⟩ := read_spec hgood₃ hawaits hread
        have hfault : ∀ e, heard = .failed e → ∃ fault, e = .io fault := by
          rintro e rfl
          exact hawaits.exists_fault hgood₃ hread
        let c₂ : Courier :=
          { c₁ with nextId := c₁.nextId + 1, requests := c₁.requests + 1, lastUsed := some now }
        have hjudged : (judged a.message.id c₂ heard).Runs Noted (w₄, notes₁ ++ [(a.link, heard)])
            (result, c') (w', notes') := hid ▸ hrun
        obtain ⟨rfl, rfl, hdoes₅, hreplied, hstep'⟩ :=
          answer_told (c := c₂) hgood₄ hlink₁ hanswered hfault hjudged
        have hdoes := (hdoes₃.trans hdoes₄).trans hdoes₅
        have hopened : a.link.number < w'.opened :=
          Nat.le_trans (Nat.le_of_eq hawaits.newest) (hdoes₄.trans hdoes₅).opened
        refine ⟨(hbooks₁.writes hdoes hgood' hid rfl).hears hopened heard,
          fun hfinal => ⟨hsettled hfinal, fun link hlink => ?_⟩, hstep'⟩
        obtain rfl := Option.some.inj (hlink₁.symm.trans hlink)
        exact (heven₁.paid a.link hlink₁).answered hdoes hasks (hreplied hfinal)

/-! ## A whole delivery -/

theorem prepared_told {causes : Courier.Causes} (hbooks : Books w notes c)
    (heven : causes = .none → Even w notes c)
    (hrun : (prepared causes c).Runs Noted (w, notes) c' (w', notes')) :
    Books w' notes' c' ∧ Even w' notes' c' := by
  obtain rfl : notes' = notes := isDeaf_prepared causes c _ _ _ hrun
  cases causes with
  | none =>
    obtain ⟨rfl, hsame⟩ := runs_pure_iff.1 hrun
    obtain ⟨rfl, -⟩ := Prod.mk.inj hsame
    exact ⟨hbooks, heven rfl⟩
  | one | several =>
    obtain ⟨rfl, hgood, hdoes⟩ := disconnect_spec hbooks.good (runs_of_noted hrun)
    exact ⟨hbooks.does hdoes hgood rfl, even_of_unlinked rfl⟩

theorem attemptUpToTold_spec {payload : ByteArray} {wait : Bool} {attempts left : Nat}
    {causes : Courier.Causes} {outcomes : List (Except DeliveryError Unit)}
    {result : Except DeliveryError Unit} (hfits : ∀ id, (Frame.message id payload wait).Fits)
    (hbooks : Books w notes c) (heven : causes = .none → Even w notes c)
    (hrun : (Courier.attemptUpToTold payload wait attempts left causes c).Runs Noted (w, notes)
      (outcomes, result, c') (w', notes')) :
    Books w' notes' c' ∧ Even w' notes' c' ∧ ∀ e, .error e ∈ outcomes → e.isOutOfStep = false := by
  induction left generalizing causes c w notes outcomes with
  | zero =>
    rw [Courier.attemptUpToTold] at hrun
    obtain ⟨c₁, ⟨w₁, notes₁⟩, hdisconnect, hrun⟩ := runs_bind_iff.1 hrun
    obtain ⟨hresult, hsame⟩ := runs_pure_iff.1 hrun
    cases hresult
    cases hsame
    obtain rfl : notes' = notes := isDeaf_disconnect c _ _ _ hdisconnect
    obtain ⟨rfl, hgood, hdoes⟩ := disconnect_spec hbooks.good (runs_of_noted hdisconnect)
    exact ⟨hbooks.does hdoes hgood rfl, even_of_unlinked rfl, by simp⟩
  | succ left ih =>
    rw [Courier.attemptUpToTold, runs_bind_iff] at hrun
    obtain ⟨c₁, ⟨w₁, notes₁⟩, hprepare, hrun⟩ := hrun
    obtain ⟨hbooks₁, heven₁⟩ := prepared_told hbooks heven hprepare
    obtain ⟨⟨outcome, c₂⟩, ⟨w₂, notes₂⟩, hattempt, hrun⟩ := runs_bind_iff.1 hrun
    obtain ⟨hbooks₂, heven₂, hstep⟩ := attempt_told hbooks₁ heven₁ hfits hattempt
    cases outcome with
    | ok u =>
      obtain ⟨hresult, hsame⟩ := runs_pure_iff.1 hrun
      cases hresult
      cases hsame
      exact ⟨hbooks₂, heven₂ (by simp [IsFinal]), fun e he => by simp at he⟩
    | error e =>
      by_cases he : e.isRetryable = true
      · simp only [he, if_true] at hrun
        obtain ⟨_, w₃, ⟨_, hpasses, rfl⟩, hrun⟩ :=
          (runs_noted_iff (q := .mark .suspect)).1 hrun
        obtain ⟨⟨outcomes', result', c₃⟩, s₄, hrest, hrun⟩ := runs_bind_iff.1 hrun
        obtain ⟨hresult, rfl⟩ := runs_pure_iff.1 hrun
        cases hresult
        simp only [noteOf, List.append_nil] at hrest
        have hbooks₃ := hbooks₂.does hpasses.does.2 (hbooks₂.good.passes hpasses) rfl
        obtain ⟨hbooks', heven', hsteps⟩ :=
          ih hbooks₃ (fun hnone => by cases causes <;> cases hnone) hrest
        refine ⟨hbooks', heven', fun e' he' => ?_⟩
        rcases List.mem_cons.1 he' with he' | he'
        · exact Except.error.inj he' ▸ hstep e rfl
        · exact hsteps e' he'
      · simp only [he] at hrun
        obtain ⟨hresult, hsame⟩ := runs_pure_iff.1 hrun
        cases hresult
        cases hsame
        refine ⟨hbooks₂, heven₂ fun e' he' => ?_, fun e' he' => ?_⟩
        · rw [← Except.error.inj he']
          exact Bool.eq_false_iff.2 he
        · rw [Except.error.inj (List.mem_singleton.1 he')]
          exact hstep e rfl

theorem sendTold_spec {payload : ByteArray} {wait : Bool}
    {outcomes : List (Except DeliveryError Unit)} {result : Except DeliveryError Unit}
    (hbooks : Books w notes c) (heven : Even w notes c)
    (hrun : (c.sendTold payload wait).Runs Noted (w, notes) (outcomes, result, c') (w', notes')) :
    Books w' notes' c' ∧ Even w' notes' c' ∧ ∀ e, .error e ∈ outcomes → e.isOutOfStep = false := by
  rw [Courier.sendTold] at hrun
  cases hsize : Frame.checkSize (Frame.headerSize + payload.size) with
  | error e =>
    simp only [hsize] at hrun
    obtain ⟨hresult, hsame⟩ := runs_pure_iff.1 hrun
    cases hresult
    cases hsame
    exact ⟨hbooks, heven, by simp⟩
  | ok u =>
    simp only [hsize] at hrun
    have hfits : ∀ id, (Frame.message id payload wait).Fits :=
      fun _ => Frame.checkSize_eq_ok_iff.1 hsize
    exact attemptUpToTold_spec hfits hbooks (fun _ => heven) hrun

/-! ## A whole life -/

/-- What holds of the record of a courier between two calls. -/
structure Abreast (r : Record) : Prop where
  books : Books r.world r.notes r.courier
  even : Even r.world r.notes r.courier
  inStep : ∀ e, .error e ∈ r.outcomes → e.isOutOfStep = false

variable {r r' : Record}

theorem abreast_initial (hlink : c.link = none) (hnext : c.nextId = 1) :
    Abreast { courier := c } where
  books := ⟨(steady_initial hlink).good, fun _ _ => rfl, hnext, rfl⟩
  even := even_of_unlinked hlink
  inStep := nofun

theorem Paid.passes (hpasses : Passes w w') (h : Paid w notes link) : Paid w' notes link :=
  h.does hpasses.does.2 nofun

theorem recycle_cases (c : Courier) (now : Nat) :
    (c.recycle now).2 = c ∨ (c.recycle now).2 = c.dropped := by
  rw [Courier.recycle]
  split
  · split
    · exact .inr rfl
    · exact .inl rfl
  · exact .inl rfl

/-- Whatever happens to a courier keeps it abreast of its receiver. -/
theorem Lives.abreast (h : Lives r r') (hr : Abreast r) : Abreast r' := by
  obtain ⟨hbooks, heven, hstep⟩ := hr
  cases h with
  | moves hmoves =>
    have hpasses : Passes _ _ := .single hmoves
    exact ⟨hbooks.does hpasses.does.2 (hbooks.good.passes hpasses) rfl,
      ⟨heven.settled.passes hbooks.good hpasses,
        fun link hlink => (heven.paid link hlink).passes hpasses⟩, hstep⟩
  | sends hrun =>
    obtain ⟨hbooks', heven', hsteps⟩ := sendTold_spec hbooks heven hrun
    refine ⟨hbooks', heven', fun e he => ?_⟩
    rcases List.mem_append.1 he with he | he
    · exact hstep e he
    · exact hsteps e he
  | connects hrun =>
    obtain ⟨hbooks', heven', -⟩ := connect_told hbooks heven hrun
    exact ⟨hbooks', heven', hstep⟩
  | @disconnects c' w' notes' hrun =>
    obtain rfl : notes' = r.notes := isDeaf_disconnect _ _ _ _ hrun
    obtain ⟨rfl, hgood, hdoes⟩ := disconnect_spec hbooks.good (runs_of_noted hrun)
    exact ⟨hbooks.does hdoes hgood rfl, even_of_unlinked rfl, hstep⟩
  | recycles now =>
    rcases recycle_cases r.courier now with hsame | hdropped
    · rw [hsame]
      exact ⟨hbooks, heven, hstep⟩
    · rw [hdropped]
      exact ⟨hbooks.does (.refl _) hbooks.good rfl, even_of_unlinked rfl, hstep⟩

theorem abreast_later (h : Relation.ReflTransGen Lives r r') (hr : Abreast r) : Abreast r' := by
  induction h with
  | refl => exact hr
  | tail _ hlives ih => exact hlives.abreast ih

/-- A courier that is even has read every answer on the connection that it holds. -/
theorem Even.back_eq_nil (hgood : Good c.self w) (h : Even w notes c) (hlink : c.link = some link) :
    (w.lines link).back.bytes = [] := by
  obtain ⟨-, hstep⟩ := h.settled link hlink
  have hcount := (hgood.sound link).length_replies
  have hread := hstep.read_le
  have hback : (w.lines link).back.bytes =
      Frame.bytesOf ((w.story link).replies.drop (w.story link).asked) := hstep.back
  rw [hback, List.drop_of_length_le (by omega), Frame.bytesOf_nil]

/-- **Theorem.** Over the whole life of a courier, the numbers of the messages that it begins to write
only grow, as long as they last. To every message that asks for an answer on the connection that is
held, one answer has been heard, which is the listener's decision about it, and none is left to be
heard. No attempt ever fails because of an answer to another message or of another kind. -/
theorem courier_stays_in_step {settings : Settings.Delivery} {self : Handshake}
    {destination : Member} {cell : HealthCell}
    (h : Relation.ReflTransGen Lives { courier := { settings, self, destination, cell } } r) :
    (r.world.attempts.length < UInt64.size →
      (r.world.attempts.map fun a => a.message.id.toNat).Pairwise (· < ·)) ∧
    (∀ link, r.courier.link = some link →
      Paid r.world r.notes link ∧ (r.world.lines link).back.bytes = []) ∧
    ∀ e, .error e ∈ r.outcomes → e.isOutOfStep = false := by
  obtain ⟨hbooks, heven, hstep⟩ := abreast_later h (abreast_initial rfl rfl)
  exact ⟨hbooks.increasing,
    fun link hlink => ⟨heven.paid link hlink, heven.back_eq_nil hbooks.good hlink⟩, hstep⟩

/-- A courier whose first message was refused by the listener. -/
theorem courier_stays_in_step_of_first_message :
    ∃ r : Record, Relation.ReflTransGen Lives { courier := novice } r ∧
      r.world.attempts ≠ [] ∧ r.world.attempts.length < UInt64.size ∧
      (r.world.attempts.map fun a => a.message.id.toNat).Pairwise (· < ·) ∧
      (∀ link, r.courier.link = some link →
        Paid r.world r.notes link ∧ (r.world.lines link).back.bytes = []) ∧
      ∀ e, .error e ∈ r.outcomes → e.isOutOfStep = false := by
  have hsize : Frame.headerSize + "hello".toUTF8.size ≤ Frame.maxSize := by decide +kernel
  obtain ⟨w', c', hrun⟩ :=
    send_may_be_answered (w := {}) false hsize fits_greeting_novice rfl rfl rfl rfl
  obtain ⟨made, hlength, hdoes, houtcome, -⟩ := send_spec (steady_initial rfl) hrun
  obtain ⟨a, ha, -⟩ := houtcome.refused _ _ rfl
  obtain ⟨r, hlives, rfl, rfl⟩ := exists_lives (r := { courier := novice }) (.sends hrun)
  have hattempts : r.world.attempts = made := hdoes.attempts
  have hsome : r.world.attempts ≠ [] :=
    hattempts ▸ List.ne_nil_of_mem (List.mem_of_getLast? ha)
  have hfew : r.world.attempts.length < UInt64.size :=
    hattempts ▸ Nat.lt_of_le_of_lt hlength (by decide)
  obtain ⟨hincreasing, hread, hstep⟩ := courier_stays_in_step (.single hlives)
  exact ⟨r, .single hlives, hsome, hfew, hincreasing hfew, hread, hstep⟩

end Delivery

end PeerCluster
