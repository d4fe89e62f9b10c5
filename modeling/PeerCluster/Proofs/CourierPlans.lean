import PeerCluster.Proofs.InStep

/-!
# What the plans of a courier come to

Each plan of a courier has one lemma, which says what any run of the plan does in any world: which
attempts it makes, that the connections stay sound, and whether the courier may go on with the
connection that it then holds.

A connection may be held when it is in step and no answer is outstanding (`Holds`). Writing a message
makes an answer outstanding (`Awaits`), and reading the answer makes the connection fit to be held
again. After anything else a courier gives the connection up before the next attempt, so between two
deliveries it only holds a connection that may be held (`Settled`).
-/

namespace PeerCluster.Delivery

open Exchange

/-! ## What holds of every world -/

/-- What holds of the world of a courier at any time. -/
structure Good (caller : Handshake) (w : World) : Prop where
  sound : ∀ link, (w.story link).Sound caller
  /-- Connections that have not been opened are blank. -/
  blank : ∀ link, w.opened ≤ link.number → (w.story link).Blank

/-- A connection that the courier may hold: it is the newest one, and every answer that the courier
has asked for has been read. -/
structure Holds (caller : Handshake) (w : World) (link : Link) : Prop where
  newest : link.number + 1 = w.opened
  inStep : (w.story link).InStep caller (w.story link).asked

/-- The connection that a courier holds between two deliveries. -/
def Settled (w : World) (c : Courier) : Prop :=
  ∀ link, c.link = some link → Holds c.self w link

variable {caller : Handshake} {w w' : World} {link : Link}

theorem Good.passes (h : Good caller w) (hpasses : Passes w w') : Good caller w' := by
  refine ⟨fun link => ?_, fun link hlink => ?_⟩
  · exact hpasses.story (fun _ _ hmoves hsound => hsound.moves hmoves) (h.sound link)
  · rw [hpasses.does.1] at hlink
    exact hpasses.story (fun _ _ hmoves hblank => hblank.moves hmoves) (h.blank link hlink)

theorem Good.inStep_passes {r : Nat} (h : Good caller w) (hpasses : Passes w w')
    (hstep : (w.story link).InStep caller r) : (w'.story link).InStep caller r := by
  have hboth : (w'.story link).Sound caller ∧ (w'.story link).InStep caller r :=
    hpasses.story (P := fun s => s.Sound caller ∧ s.InStep caller r)
      (fun _ _ hmoves ⟨hsound, hstep⟩ => ⟨hsound.moves hmoves, hstep.moves hsound hmoves⟩)
      ⟨h.sound link, hstep⟩
  exact hboth.2

theorem attempts_passes (hpasses : Passes w w') :
    (w'.story link).attempts = (w.story link).attempts := by
  have hattempts := hpasses.does.2.attempts
  rw [List.append_nil] at hattempts
  show w'.attempts.filter _ = w.attempts.filter _
  rw [hattempts]

theorem asked_passes (hpasses : Passes w w') : (w'.story link).asked = (w.story link).asked := by
  rw [Story.asked, Story.messages, attempts_passes hpasses]
  rfl

theorem Holds.passes (hgood : Good caller w) (hpasses : Passes w w') (h : Holds caller w link) :
    Holds caller w' link := by
  refine ⟨?_, ?_⟩
  · rw [hpasses.does.1]
    exact h.newest
  · rw [asked_passes hpasses]
    exact hgood.inStep_passes hpasses h.inStep

theorem Holds.settled {c : Courier} (h : Holds c.self w link) (hlink : c.link = some link) :
    Settled w c := by
  intro link' hlink'
  rw [hlink] at hlink'
  obtain rfl := Option.some.inj hlink'
  exact h

theorem Settled.passes {c : Courier} (hgood : Good c.self w) (hpasses : Passes w w')
    (h : Settled w c) : Settled w' c :=
  fun link hlink => (h link hlink).passes hgood hpasses

theorem Good.write {f : Frame} {written : List UInt8} (h : Good caller w)
    (hopened : link.number < w.opened)
    (hsound : ((w.story link).write link f written).Sound caller) :
    Good caller (w.write link f written) := by
  refine ⟨fun link' => ?_, fun link' hlink' => ?_⟩
  · by_cases heq : link' = link
    · subst heq
      rw [World.story_write_self]
      exact hsound
    · rw [World.story_write_of_ne w _ _ heq]
      exact h.sound link'
  · have hle : w.opened ≤ link'.number := hlink'
    have hne : link' ≠ link := by
      intro heq'
      subst heq'
      omega
    rw [World.story_write_of_ne w _ _ hne]
    exact h.blank link' hle

theorem Good.read {back : Pipe} (h : Good caller w) (hopened : link.number < w.opened) :
    Good caller (w.withLine link { w.lines link with back }) := by
  refine ⟨fun link' => ?_, fun link' hlink' => ?_⟩
  · by_cases heq : link' = link
    · subst heq
      rw [World.story_withLine_self]
      exact { h.sound link' with }
    · rw [World.story_withLine_of_ne w _ heq]
      exact h.sound link'
  · have hle : w.opened ≤ link'.number := hlink'
    have hne : link' ≠ link := by
      intro heq'
      subst heq'
      omega
    rw [World.story_withLine_of_ne w _ hne]
    exact h.blank link' hle

/-! ## Opening a connection -/

theorem Good.dialled (h : Good caller w) : Good caller { w with opened := w.opened + 1 } :=
  ⟨h.sound, fun link hlink => h.blank link (Nat.le_of_succ_le hlink)⟩

/-- The greeting is written on a connection that nothing has been written on. If that succeeds, the
courier may hold the connection. -/
theorem greet_spec {ms : Nat} {outcome : Except IoFault Unit} (hgood : Good caller w)
    (hblank : (w.story link).Blank) (hnewest : link.number + 1 = w.opened)
    (hfits : (Frame.ofHandshake caller).Fits)
    (hwrite : Responds w (.write link (.ofHandshake caller) ms) outcome w') :
    Good caller w' ∧ Does [] w w' ∧ (outcome = .ok () → Holds caller w' link) := by
  obtain ⟨w₁, hpasses, written, hwritten, hall, rfl⟩ := hwrite
  have hgood₁ := hgood.passes hpasses
  have hblank₁ := hpasses.story (fun _ _ hmoves hblank => hblank.moves hmoves) hblank
  have hnewest₁ : link.number + 1 = w₁.opened := by
    rw [hpasses.does.1]
    exact hnewest
  have hgood' : Good caller (w₁.write link (.ofHandshake caller) written) :=
    hgood₁.write (Nat.le_of_eq hnewest₁) (hblank₁.sound_greeting (hgood₁.sound link) hfits hwritten)
  refine ⟨hgood', hpasses.does.2.trans (does_write_greeting w₁ link caller written), ?_⟩
  intro hok
  obtain rfl := hall hok
  refine ⟨hnewest₁, ?_⟩
  rw [World.story_write_self, Story.asked_greeting, Story.asked_of_blank hblank₁]
  exact hblank₁.inStep_greeting hfits

/-- A connection that is opened is one that the courier may hold. One that is not opened leaves the
courier as it was, and another attempt may be made. -/
theorem dial_spec {c : Courier} {result : Except DeliveryError Link} (hgood : Good c.self w)
    (hrun : c.dial.Runs Responds w result w') :
    Good c.self w' ∧ Does [] w w' ∧
      (∀ link, result = .ok link → Holds c.self w' link) ∧
      ∀ e, result = .error e → e.isRetryable = true := by
  rw [Courier.dial, runs_request_bind_iff] at hrun
  obtain ⟨dialled, w₂, ⟨w₁, hpasses, hanswer⟩, hrun⟩ := hrun
  have hgood₁ := hgood.passes hpasses
  have hdoes₁ := hpasses.does.2
  cases dialled with
  | timedOut =>
    obtain rfl : w₂ = w₁ := hanswer
    obtain ⟨rfl, rfl⟩ := runs_pure_iff.1 hrun
    exact ⟨hgood₁, hdoes₁, nofun, fun e he => by cases he; rfl⟩
  | failed fault =>
    obtain rfl : w₂ = w₁ := hanswer
    obtain ⟨rfl, rfl⟩ := runs_pure_iff.1 hrun
    exact ⟨hgood₁, hdoes₁, nofun, fun e he => by cases he; rfl⟩
  | connected link =>
    obtain ⟨rfl, rfl⟩ := hanswer
    have hgood₂ := hgood₁.dialled
    have hdoes₂ : Does [] w { w₁ with opened := w₁.opened + 1 } :=
      ⟨Nat.le_succ_of_le hdoes₁.opened, hdoes₁.attempts, hdoes₁.calls, nofun⟩
    cases hsize : Frame.checkSize (Frame.ofHandshake c.self).wireSize with
    | error e =>
      simp only [hsize, runs_close_iff, runs_pure_iff] at hrun
      obtain ⟨w₃, hpasses₃, rfl, rfl⟩ := hrun
      exact ⟨hgood₂.passes hpasses₃, hdoes₂.trans hpasses₃.does.2, nofun,
        fun e he => by cases he; rfl⟩
    | ok u =>
      simp only [hsize] at hrun
      obtain ⟨outcome, w₃, hwrite, hrun⟩ := runs_request_bind_iff.1 hrun
      obtain ⟨hgood₃, hdoes₃, hheld⟩ := greet_spec hgood₂
        (hgood₁.blank ⟨w₁.opened⟩ (Nat.le_refl _)) rfl
        (Frame.checkSize_eq_ok_iff.1 hsize) hwrite
      have hdoes₃ := hdoes₂.trans hdoes₃
      cases outcome with
      | error fault =>
        simp only [runs_close_iff, runs_pure_iff] at hrun
        obtain ⟨w₄, hpasses₄, rfl, rfl⟩ := hrun
        exact ⟨hgood₃.passes hpasses₄, hdoes₃.trans hpasses₄.does.2, nofun,
          fun e he => by cases he; rfl⟩
      | ok v =>
        obtain ⟨rfl, rfl⟩ := runs_pure_iff.1 hrun
        refine ⟨hgood₃, hdoes₃, fun link hlink => ?_, nofun⟩
        rw [← Except.ok.inj hlink]
        exact hheld rfl

theorem connect_spec {c c' : Courier} {result : Except DeliveryError Link} (hgood : Good c.self w)
    (hsettled : Settled w c) (hrun : c.connect.Runs Responds w (result, c') w') :
    c'.self = c.self ∧ c'.settings = c.settings ∧ Good c.self w' ∧ Does [] w w' ∧
      Settled w' c' ∧
      (∀ link, result = .ok link → c'.link = some link) ∧
      ∀ e, result = .error e → e.isRetryable = true := by
  rw [Courier.connect] at hrun
  split at hrun
  · rename_i link hlink
    obtain ⟨hresult, rfl⟩ := runs_pure_iff.1 hrun
    obtain ⟨rfl, rfl⟩ := Prod.mk.inj hresult
    refine ⟨rfl, rfl, hgood, .refl w, hsettled, fun link' hlink' => ?_, nofun⟩
    rw [hlink, Except.ok.inj hlink']
  · rename_i hlink
    obtain ⟨dialled, w₁, hdial, hrun⟩ := runs_bind_iff.1 hrun
    obtain ⟨hgood₁, hdoes₁, hopened, hfailed⟩ := dial_spec hgood hdial
    cases dialled with
    | ok link =>
      obtain ⟨now, w₂, ⟨_, hpasses, rfl⟩, hrun⟩ := runs_request_bind_iff.1 hrun
      obtain ⟨hresult, rfl⟩ := runs_pure_iff.1 hrun
      obtain ⟨rfl, rfl⟩ := Prod.mk.inj hresult
      refine ⟨rfl, rfl, hgood₁.passes hpasses, hdoes₁.trans hpasses.does.2, ?_, ?_, nofun⟩
      · intro link' hlink'
        obtain rfl := Option.some.inj hlink'
        exact (hopened link rfl).passes hgood₁ hpasses
      · intro link' hlink'
        rw [Except.ok.inj hlink']
    | error e =>
      obtain ⟨w₂, hpasses, hrun⟩ := runs_mark_iff.1 hrun
      obtain ⟨hresult, rfl⟩ := runs_pure_iff.1 hrun
      obtain ⟨rfl, rfl⟩ := Prod.mk.inj hresult
      refine ⟨rfl, rfl, hgood₁.passes hpasses, hdoes₁.trans hpasses.does.2, ?_, nofun, ?_⟩
      · intro link' hlink'
        rw [hlink] at hlink'
        cases hlink'
      · intro e' he'
        exact hfailed e' (by rw [Except.error.inj he'])

theorem disconnect_spec {c c' : Courier} (hgood : Good c.self w)
    (hrun : c.disconnect.Runs Responds w c' w') :
    c' = c.dropped ∧ Good c.self w' ∧ Does [] w w' := by
  rw [Courier.disconnect] at hrun
  split at hrun
  · obtain ⟨w₁, hpasses, hrun⟩ := runs_close_iff.1 hrun
    obtain ⟨rfl, rfl⟩ := runs_pure_iff.1 hrun
    exact ⟨rfl, hgood.passes hpasses, hpasses.does.2⟩
  · obtain ⟨rfl, rfl⟩ := runs_pure_iff.1 hrun
    exact ⟨rfl, hgood, .refl w⟩

/-! ## Writing a message and waiting for the answer -/

/-- The listener has been given the message of an attempt and has decided about it. -/
def Decided (w : World) (a : Attempt) (accepted : Bool) : Prop :=
  ∃ k ∈ w.calls, k.link = a.link ∧ k.place = a.place ∧ k.message = a.message ∧ k.accepted = accepted

theorem Decided.does {a : Attempt} {accepted : Bool} {made : List Attempt}
    (h : Decided w a accepted) (hdoes : Does made w w') : Decided w' a accepted := by
  obtain ⟨k, hk, hcall⟩ := h
  exact ⟨k, hdoes.calls.subset hk, hcall⟩

/-- A connection on which one answer is awaited: the one to the given attempt, which is the latest
one there. -/
structure Awaits (caller : Handshake) (w : World) (a : Attempt) : Prop where
  newest : a.link.number + 1 = w.opened
  latest : ∃ before, (w.story a.link).attempts = before ++ [a]
  asks : a.message.asksForAck
  inStep : ∃ r, (w.story a.link).asked = r + 1 ∧ (w.story a.link).InStep caller r

theorem Awaits.passes {a : Attempt} (hgood : Good caller w) (hpasses : Passes w w')
    (h : Awaits caller w a) : Awaits caller w' a := by
  obtain ⟨r, hasked, hstep⟩ := h.inStep
  refine ⟨?_, ?_, h.asks, r, ?_, hgood.inStep_passes hpasses hstep⟩
  · rw [hpasses.does.1]
    exact h.newest
  · rw [attempts_passes hpasses]
    exact h.latest
  · rw [asked_passes hpasses]
    exact hasked

/-- A message is written on a connection that the courier holds. If that succeeds, the connection is
still in step, and the answer is awaited if there is to be one. -/
theorem write_spec {m : Frame} {ms : Nat} {outcome : Except IoFault Unit} (hgood : Good caller w)
    (hholds : Holds caller w link) (hkind : m.kind = .message) (hfits : m.Fits)
    (hwrite : Responds w (.write link m ms) outcome w') :
    ∃ a : Attempt, a.link = link ∧ a.message = m ∧ Good caller w' ∧ Does [a] w w' ∧
      (outcome = .ok () →
        if m.asksForAck then Awaits caller w' a else Holds caller w' link) := by
  obtain ⟨w₁, hpasses, written, hwritten, hall, rfl⟩ := hwrite
  have hgood₁ := hgood.passes hpasses
  have hholds₁ := hholds.passes hgood hpasses
  have hgood' : Good caller (w₁.write link m written) :=
    hgood₁.write (Nat.le_of_eq hholds₁.newest)
      ((hgood₁.sound link).write hholds₁.inStep hkind hfits hwritten)
  refine ⟨⟨link, (w₁.story link).attempts.length, m⟩, rfl, rfl, hgood',
    hpasses.does.2.trans (does_write_message hholds₁.newest hkind written), fun hok => ?_⟩
  obtain rfl := hall hok
  have hstep : ((w₁.story link).write link m m.bytes).InStep caller (w₁.story link).asked :=
    hholds₁.inStep.write (hgood₁.sound link) hkind
  have hasked : ((w₁.story link).write link m m.bytes).asked =
      if m.asksForAck then (w₁.story link).asked + 1 else (w₁.story link).asked :=
    Story.asked_write hkind m.bytes
  rw [← World.story_write_self] at hstep hasked
  split
  · rename_i hasks
    rw [if_pos hasks] at hasked
    refine ⟨hholds₁.newest, ⟨(w₁.story link).attempts, ?_⟩, hasks, _, hasked, hstep⟩
    rw [World.story_write_self, Story.write_message hkind]
  · rename_i hasks
    rw [if_neg hasks] at hasked
    refine ⟨hholds₁.newest, ?_⟩
    rw [hasked]
    exact hstep

/-- What ends the wait for the answer to an attempt: the listener's decision, after which the courier
may hold the connection, or a failure that a fresh connection might mend. -/
structure Answered (caller : Handshake) (w : World) (a : Attempt) (heard : Heard) : Prop where
  reply : ∀ f, heard = .frame f → ∃ accepted, f = .reply accepted a.message.id ∧
    Decided w a accepted ∧ Holds caller w a.link
  failure : ∀ e, heard = .failed e → e.isRetryable = true

theorem read_spec {a : Attempt} {ms : Nat} {heard : Heard} (hgood : Good caller w)
    (hawaits : Awaits caller w a) (hread : Responds w (.read a.link ms) heard w') :
    Good caller w' ∧ Does [] w w' ∧ Answered caller w' a heard := by
  obtain ⟨w₁, hpasses, back, hhears, rfl⟩ := hread
  have hgood₁ := hgood.passes hpasses
  obtain ⟨hnewest, ⟨before, hlatest⟩, hasks, r, hasked, hstep⟩ := hawaits.passes hgood hpasses
  refine ⟨hgood₁.read (Nat.le_of_eq hnewest), hpasses.does.2.trans (does_withLine w₁ a.link _), ?_⟩
  cases hhears with
  | frame hfront =>
    obtain ⟨⟨k, hk, hplace, hmessage, hreply⟩, hstep'⟩ :=
      hstep.hears (hgood₁.sound a.link) hlatest hasks hasked hfront
    obtain ⟨hcall, hlink⟩ := List.mem_filter.1 hk
    refine ⟨fun f hf => ?_, nofun⟩
    obtain rfl := Heard.frame.inj hf
    refine ⟨k.accepted, hreply, ⟨k, hcall, of_decide_eq_true hlink, hplace, hmessage, rfl⟩,
      hnewest, ?_⟩
    rw [World.story_withLine_self]
    show Story.InStep caller (w₁.story a.link).asked _
    rw [hasked]
    exact hstep'
  | refused | broken => exact ⟨nofun, fun e he => by cases he; rfl⟩
  | ended | timedOut => exact ⟨nofun, nofun⟩

/-! ## Delivering -/

/-- What a delivery comes to that has made the given attempts. -/
structure Outcome (c : Courier) (payload : ByteArray) (wait : Bool) (made : List Attempt)
    (result : Except DeliveryError Unit) (w' : World) (c' : Courier) : Prop where
  self : c'.self = c.self
  settings : c'.settings = c.settings
  good : Good c.self w'
  body : ∀ a ∈ made, a.message.body = payload
  /-- A success was the listener's decision about the last attempt. -/
  verified : result = .ok () → wait = true →
    ∃ a accepted, made.getLast? = some a ∧ Decided w' a accepted ∧
      (c.settings.throwOnFailedAck = true → accepted = true)
  refused : ∀ address id, result = .error (.remoteFailure address id) →
    ∃ a, made.getLast? = some a ∧ Decided w' a false

theorem Outcome.after {c c₁ c' : Courier} {payload : ByteArray} {wait : Bool}
    {made made' : List Attempt} {result : Except DeliveryError Unit}
    (h : Outcome c₁ payload wait made' result w' c') (hself : c₁.self = c.self)
    (hsettings : c₁.settings = c.settings) (hbody : ∀ a ∈ made, a.message.body = payload) :
    Outcome c payload wait (made ++ made') result w' c' := by
  have hlast : ∀ {a : Attempt}, made'.getLast? = some a → (made ++ made').getLast? = some a := by
    intro a ha
    rw [List.getLast?_append, ha]
    rfl
  refine ⟨h.self.trans hself, h.settings.trans hsettings, hself ▸ h.good, fun a ha => ?_,
    fun hok hwait => ?_, fun address id hrefused => ?_⟩
  · rcases List.mem_append.1 ha with ha | ha
    · exact hbody a ha
    · exact h.body a ha
  · obtain ⟨a, accepted, ha, hdecided, hthrow⟩ := h.verified hok hwait
    exact ⟨a, accepted, hlast ha, hdecided, hsettings ▸ hthrow⟩
  · obtain ⟨a, ha, hdecided⟩ := h.refused address id hrefused
    exact ⟨a, hlast ha, hdecided⟩

/-- What is done before the first attempt does not matter if the courier goes on with the same
settings. -/
theorem Outcome.carry {c c₁ c' : Courier} {payload : ByteArray} {wait : Bool}
    {made : List Attempt} {result : Except DeliveryError Unit}
    (h : Outcome c₁ payload wait made result w' c') (hself : c₁.self = c.self)
    (hsettings : c₁.settings = c.settings) : Outcome c payload wait made result w' c' := by
  have hafter : Outcome c payload wait ([] ++ made) result w' c' := h.after hself hsettings nofun
  exact hafter

/-- An attempt that fails for a cause that a fresh connection might mend. -/
theorem Outcome.failed {c c' : Courier} {payload : ByteArray} {wait : Bool} {made : List Attempt}
    {e : DeliveryError} (hself : c'.self = c.self) (hsettings : c'.settings = c.settings)
    (hgood : Good c.self w') (hbody : ∀ a ∈ made, a.message.body = payload)
    (he : e.isRetryable = true) : Outcome c payload wait made (.error e) w' c' where
  self := hself
  settings := hsettings
  good := hgood
  body := hbody
  verified := nofun
  refused := by
    intro address id heq
    rw [Except.error.inj heq] at he
    cases he

theorem asksForAck_message (id : UInt64) (payload : ByteArray) (wait : Bool) :
    (Frame.message id payload wait).asksForAck = wait := by
  cases wait <;> simp [Frame.asksForAck, Frame.message, Frame.ackFlag]

theorem judge_reply (c : Courier) (id : UInt64) (accepted : Bool) :
    c.judge id (.frame (.reply accepted id)) =
      if accepted then .verified
      else if c.settings.throwOnFailedAck then .failed (.remoteFailure c.destination.address id)
      else .tolerated := by
  cases accepted <;> simp [Courier.judge, Frame.reply, Frame.ack, Frame.nack]

/-- What the courier does about what it has heard after the message of the given number. -/
def judged (id : UInt64) (c : Courier) (heard : Heard) :
    Exchange (Except DeliveryError Unit × Courier) :=
  match c.judge id heard with
  | .verified => do
    request (.mark .ready)
    return (.ok (), c)
  | .tolerated => return (.ok (), c)
  | .failed e => return (.error e, c)

/-- Whether no further attempt is made after a result. -/
def IsFinal (result : Except DeliveryError Unit) : Prop :=
  ∀ e, result = .error e → e.isRetryable = false

theorem not_isFinal_error {e : DeliveryError} (he : e.isRetryable = true) :
    ¬IsFinal (.error e) := by
  intro hfinal
  rw [hfinal e rfl] at he
  cases he

theorem judged_spec {c c' : Courier} {a : Attempt} {heard : Heard}
    {result : Except DeliveryError Unit} (hgood : Good c.self w) (hlink : c.link = some a.link)
    (hanswered : Answered c.self w a heard)
    (hrun : (judged a.message.id c heard).Runs Responds w (result, c') w') :
    Does [] w w' ∧ Outcome c a.message.body true [a] result w' c' ∧
      (IsFinal result → Settled w' c') := by
  have hbody : ∀ b ∈ [a], b.message.body = a.message.body := by
    intro b hb
    rw [List.mem_singleton.1 hb]
  rw [judged] at hrun
  cases heard with
  | frame f =>
    obtain ⟨accepted, rfl, hdecided, hholds⟩ := hanswered.reply f rfl
    rw [judge_reply] at hrun
    cases accepted with
    | true =>
      obtain ⟨w₁, hpasses, hrun⟩ := runs_mark_iff.1 hrun
      obtain ⟨hresult, rfl⟩ := runs_pure_iff.1 hrun
      obtain ⟨rfl, rfl⟩ := Prod.mk.inj hresult
      have hdecided₁ := hdecided.does hpasses.does.2
      exact ⟨hpasses.does.2,
        ⟨rfl, rfl, hgood.passes hpasses, hbody, fun _ _ => ⟨a, true, rfl, hdecided₁, fun _ => rfl⟩,
          nofun⟩, fun _ => (hholds.passes hgood hpasses).settled hlink⟩
    | false =>
      rw [if_neg Bool.false_ne_true] at hrun
      by_cases hthrow : c.settings.throwOnFailedAck = true
      · rw [if_pos hthrow] at hrun
        obtain ⟨hresult, rfl⟩ := runs_pure_iff.1 hrun
        obtain ⟨rfl, rfl⟩ := Prod.mk.inj hresult
        exact ⟨.refl w, ⟨rfl, rfl, hgood, hbody, nofun, fun _ _ _ => ⟨a, rfl, hdecided⟩⟩,
          fun _ => hholds.settled hlink⟩
      · rw [if_neg hthrow] at hrun
        obtain ⟨hresult, rfl⟩ := runs_pure_iff.1 hrun
        obtain ⟨rfl, rfl⟩ := Prod.mk.inj hresult
        exact ⟨.refl w, ⟨rfl, rfl, hgood, hbody,
          fun _ _ => ⟨a, false, rfl, hdecided, fun h => absurd h hthrow⟩, nofun⟩,
          fun _ => hholds.settled hlink⟩
  | failed e =>
    obtain ⟨hresult, rfl⟩ := runs_pure_iff.1 hrun
    obtain ⟨rfl, rfl⟩ := Prod.mk.inj hresult
    have he := hanswered.failure e rfl
    exact ⟨.refl w, .failed rfl rfl hgood hbody he, fun h => absurd h (not_isFinal_error he)⟩
  | ended | timedOut =>
    obtain ⟨hresult, rfl⟩ := runs_pure_iff.1 hrun
    obtain ⟨rfl, rfl⟩ := Prod.mk.inj hresult
    exact ⟨.refl w, .failed rfl rfl hgood hbody rfl, fun h => absurd h (not_isFinal_error rfl)⟩

/-- One attempt writes the payload at most once. After a success or a refusal, the courier may go on
with the connection. -/
theorem attempt_spec {c c' : Courier} {payload : ByteArray} {wait : Bool}
    {result : Except DeliveryError Unit} (hgood : Good c.self w) (hsettled : Settled w c)
    (hfits : ∀ id, (Frame.message id payload wait).Fits)
    (hrun : (c.attempt payload wait).Runs Responds w (result, c') w') :
    ∃ made, made.length ≤ 1 ∧ Does made w w' ∧ Outcome c payload wait made result w' c' ∧
      (IsFinal result → Settled w' c') := by
  rw [Courier.attempt, runs_bind_iff] at hrun
  obtain ⟨⟨connected, c₁⟩, w₁, hconnect, hrun⟩ := hrun
  obtain ⟨hself, hsettings, hgood₁, hdoes₁, hsettled₁, hheld, hfailed⟩ :=
    connect_spec hgood hsettled hconnect
  cases connected with
  | error e =>
    obtain ⟨hresult, rfl⟩ := runs_pure_iff.1 hrun
    obtain ⟨rfl, rfl⟩ := Prod.mk.inj hresult
    exact ⟨[], Nat.zero_le _, hdoes₁, .failed hself hsettings hgood₁ nofun (hfailed e rfl),
      fun _ => hsettled₁⟩
  | ok link =>
    have hlink₁ : c₁.link = some link := hheld link rfl
    have hholds := hsettled₁ link hlink₁
    rw [← hself] at hgood₁
    obtain ⟨outcome, w₂, hwrite, hrun⟩ := runs_request_bind_iff.1 hrun
    obtain ⟨a, rfl, hmessage, hgood₂, hdoes₂, hwritten⟩ :=
      write_spec hgood₁ hholds rfl (hfits _) hwrite
    have hbody : ∀ b ∈ [a], b.message.body = payload := by
      intro b hb
      rw [List.mem_singleton.1 hb, hmessage]
      rfl
    refine ⟨[a], Nat.le_refl _, ?_⟩
    cases outcome with
    | error fault =>
      obtain ⟨hresult, rfl⟩ := runs_pure_iff.1 hrun
      obtain ⟨rfl, rfl⟩ := Prod.mk.inj hresult
      rw [hself] at hgood₂
      exact ⟨hdoes₁.trans hdoes₂, .failed hself hsettings hgood₂ hbody rfl,
        fun hfinal => absurd hfinal (not_isFinal_error rfl)⟩
    | ok v =>
      have hwritten := hwritten rfl
      rw [asksForAck_message] at hwritten
      obtain ⟨now, w₃, ⟨_, hpasses₃, rfl⟩, hrun⟩ := runs_request_bind_iff.1 hrun
      have hgood₃ := hgood₂.passes hpasses₃
      have hdoes₃ := (hdoes₁.trans hdoes₂).trans hpasses₃.does.2
      cases wait with
      | false =>
        have hholds₃ := hwritten.passes hgood₂ hpasses₃
        rw [if_neg Bool.false_ne_true] at hrun
        obtain ⟨w₄, hpasses₄, hrun⟩ := runs_mark_iff.1 hrun
        obtain ⟨hresult, rfl⟩ := runs_pure_iff.1 hrun
        obtain ⟨rfl, rfl⟩ := Prod.mk.inj hresult
        have hgood₄ := hgood₃.passes hpasses₄
        rw [hself] at hgood₄
        exact ⟨hdoes₃.trans hpasses₄.does.2, ⟨hself, hsettings, hgood₄, hbody, nofun, nofun⟩,
          fun _ => (hholds₃.passes hgood₃ hpasses₄).settled hlink₁⟩
      | true =>
        have hawaits := hwritten.passes hgood₂ hpasses₃
        rw [if_pos rfl] at hrun
        obtain ⟨heard, w₄, hread, hrun⟩ := runs_request_bind_iff.1 hrun
        obtain ⟨hgood₄, hdoes₄, hanswered⟩ := read_spec hgood₃ hawaits hread
        have hid : a.message.id = c₁.nextId := by
          rw [hmessage]
          rfl
        have hpayload : a.message.body = payload := hbody a (List.mem_singleton_self a)
        let c₂ : Courier :=
          { c₁ with nextId := c₁.nextId + 1, requests := c₁.requests + 1, lastUsed := some now }
        have hjudged : (judged c₁.nextId c₂ heard).Runs Responds w₄ (result, c') w' := hrun
        rw [← hid] at hjudged
        obtain ⟨hdoes₅, houtcome, hsettled₅⟩ := judged_spec (c := c₂) hgood₄ hlink₁ hanswered hjudged
        rw [hpayload] at houtcome
        exact ⟨(hdoes₃.trans hdoes₄).trans hdoes₅, houtcome.carry hself hsettings, hsettled₅⟩

/-- Whether the causes are those of failed attempts that could be tried again. -/
def Mendable : Courier.Causes → Prop
  | .none => True
  | .one cause => cause.isRetryable = true
  | .several .. => True

theorem mendable_none : Mendable .none :=
  True.intro

theorem Mendable.add {causes : Courier.Causes} {e : DeliveryError} (he : e.isRetryable = true) :
    Mendable (causes.add e) := by
  cases causes with
  | none => exact he
  | one | several => trivial

theorem Mendable.report_ne {causes : Courier.Causes} (h : Mendable causes) (attempts : Nat)
    (address : String) (id : UInt64) : causes.report attempts ≠ .remoteFailure address id := by
  cases causes with
  | none | several => nofun
  | one cause =>
    intro heq
    subst heq
    cases h

theorem settled_dropped (w : World) (c : Courier) : Settled w c.dropped :=
  nofun

/-- What comes before an attempt: every attempt but the first begins without a connection. -/
def prepared (causes : Courier.Causes) (c : Courier) : Exchange Courier :=
  match causes with
  | .none => pure c
  | _ => c.disconnect

theorem prepared_spec {causes : Courier.Causes} {c c' : Courier} (hgood : Good c.self w)
    (hsettled : causes = .none → Settled w c)
    (hrun : (prepared causes c).Runs Responds w c' w') :
    c'.self = c.self ∧ c'.settings = c.settings ∧ Good c.self w' ∧ Does [] w w' ∧
      Settled w' c' := by
  cases causes with
  | none =>
    obtain ⟨rfl, rfl⟩ := runs_pure_iff.1 hrun
    exact ⟨rfl, rfl, hgood, .refl w, hsettled rfl⟩
  | one | several =>
    obtain ⟨rfl, hgood', hdoes⟩ := disconnect_spec hgood hrun
    exact ⟨rfl, rfl, hgood', hdoes, settled_dropped w' c⟩

theorem exists_attempts_eq_succ (settings : Settings.Delivery) : ∃ left, settings.attempts = left + 1 := by
  refine Nat.exists_eq_succ_of_ne_zero ?_
  rw [Settings.Delivery.attempts, UInt32.size]
  omega

theorem attemptUpTo_succ (payload : ByteArray) (wait : Bool) (attempts left : Nat)
    (causes : Courier.Causes) (c : Courier) :
    c.attemptUpTo payload wait attempts (left + 1) causes =
      prepared causes c >>= fun c => c.attempt payload wait >>= fun
        | (.ok (), c) => pure (.ok (), c)
        | (.error e, c) =>
          if e.isRetryable then do
            request (.mark .suspect)
            c.attemptUpTo payload wait attempts left (causes.add e)
          else pure (.error e, c) := by
  cases causes <;> rfl

/-- Attempts follow each other until one succeeds or is refused, or none is left. -/
theorem attemptUpTo_spec {payload : ByteArray} {wait : Bool} {attempts left : Nat}
    {causes : Courier.Causes} {c c' : Courier} {result : Except DeliveryError Unit}
    (hfits : ∀ id, (Frame.message id payload wait).Fits) (hgood : Good c.self w)
    (hcauses : Mendable causes) (hsettled : causes = .none → Settled w c)
    (hrun : (c.attemptUpTo payload wait attempts left causes).Runs Responds w (result, c') w') :
    ∃ made, made.length ≤ left ∧ Does made w w' ∧ Outcome c payload wait made result w' c' ∧
      Settled w' c' := by
  induction left generalizing causes c w with
  | zero =>
    rw [Courier.attemptUpTo] at hrun
    obtain ⟨c₁, w₁, hdisconnect, hrun⟩ := runs_bind_iff.1 hrun
    obtain ⟨rfl, hgood₁, hdoes₁⟩ := disconnect_spec hgood hdisconnect
    obtain ⟨hresult, rfl⟩ := runs_pure_iff.1 hrun
    obtain ⟨rfl, rfl⟩ := Prod.mk.inj hresult
    refine ⟨[], Nat.le_refl _, hdoes₁, ⟨rfl, rfl, hgood₁, nofun, nofun, ?_⟩, settled_dropped _ _⟩
    intro address id heq
    exact absurd (Except.error.inj heq) (hcauses.report_ne attempts address id)
  | succ left ih =>
    rw [attemptUpTo_succ, runs_bind_iff] at hrun
    obtain ⟨c₁, w₁, hprepare, hrun⟩ := hrun
    obtain ⟨hself₁, hsettings₁, hgood₁, hdoes₁, hsettled₁⟩ := prepared_spec hgood hsettled hprepare
    obtain ⟨⟨outcome, c₂⟩, w₂, hattempt, hrun⟩ := runs_bind_iff.1 hrun
    rw [← hself₁] at hgood₁
    obtain ⟨made, hmade, hdoes₂, houtcome, hsettled₂⟩ :=
      attempt_spec hgood₁ hsettled₁ hfits hattempt
    have hdoes := hdoes₁.trans hdoes₂
    cases outcome with
    | ok u =>
      obtain ⟨hresult, rfl⟩ := runs_pure_iff.1 hrun
      obtain ⟨rfl, rfl⟩ := Prod.mk.inj hresult
      exact ⟨made, by omega, hdoes, houtcome.carry hself₁ hsettings₁, hsettled₂ nofun⟩
    | error e =>
      by_cases he : e.isRetryable = true
      · simp only [he, if_true] at hrun
        obtain ⟨w₃, hpasses, hrun⟩ := runs_mark_iff.1 hrun
        have hgood₂ := houtcome.good.passes hpasses
        rw [← houtcome.self] at hgood₂
        obtain ⟨made', hmade', hdoes', houtcome', hsettled'⟩ :=
          ih hgood₂ (Mendable.add he) (fun hnone => by cases causes <;> cases hnone) hrun
        have hall := (hdoes.trans hpasses.does.2).trans hdoes'
        rw [List.nil_append, List.append_nil] at hall
        refine ⟨made ++ made', ?_, hall, ?_, hsettled'⟩
        · rw [List.length_append]
          omega
        · exact houtcome'.after (houtcome.self.trans hself₁) (houtcome.settings.trans hsettings₁)
            houtcome.body
      · simp only [he] at hrun
        obtain ⟨hresult, rfl⟩ := runs_pure_iff.1 hrun
        obtain ⟨rfl, rfl⟩ := Prod.mk.inj hresult
        refine ⟨made, by omega, hdoes, houtcome.carry hself₁ hsettings₁, hsettled₂ fun e' he' => ?_⟩
        rw [← Except.error.inj he']
        exact Bool.eq_false_iff.2 he

end PeerCluster.Delivery
