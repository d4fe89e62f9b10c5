import PeerCluster.Inbound
import PeerCluster.Proofs.CutStreams
import Mathlib.Data.List.Basic
import Mathlib.Data.List.Induction

/-!
# A receiver does what the stream says

**What a stream says** (`Spells`). The bytes of every stream are those of some frames, one after the
other, and a rest that begins with no further frame: nothing, a frame that is cut, or one that is
malformed. There is exactly one way to take a stream apart like this (`exists_spells`,
`Spells.unique`).

**What the frames come to** (`take_frames`). If the first frame is a greeting, the messages behind it
are handed to the listener and answered, and no other frame has an effect (`take_frames_known`). A
receiver takes the frames that the stream spells out and stops at the rest (`takeAll_of_spells`).

**Patience** (`showsWithin_iff`). A receiver goes on if the first frame arrives as a whole in time. How
long the caller takes for the other frames, and in which pieces they arrive, does not matter.

**Theorem (`served_as_the_stream_says`).** The deliveries and the answers are given by the greeting, if
it arrives in time, the messages behind it and the listener alone.
-/

namespace PeerCluster

open PeerCluster.Frame

/-! ## What a stream says -/

namespace FrameStream

/-- A stream spells out frames, and what is left behind them does not begin with another one. -/
structure Spells (s : FrameStream) (fs : List Frame) (rest : List UInt8) : Prop where
  contents : s.contents = bytesOf fs ++ rest
  fits : ∀ f ∈ fs, f.Fits
  stops : ∀ (f : Frame) (more : List UInt8), f.Fits → rest ≠ f.bytes ++ more

theorem exists_frames (bs : List UInt8) :
    ∃ fs rest, bs = bytesOf fs ++ rest ∧ (∀ f ∈ fs, f.Fits) ∧
      ∀ (f : Frame) (more : List UInt8), f.Fits → rest ≠ f.bytes ++ more := by
  by_cases h : ∃ (f : Frame) (more : List UInt8), f.Fits ∧ bs = f.bytes ++ more
  · obtain ⟨f, more, hfits, hbs⟩ := h
    have hshorter : more.length < bs.length := by
      have hpositive := List.length_pos_iff.2 f.bytes_ne_nil
      rw [hbs, List.length_append]
      omega
    obtain ⟨fs, rest, hmore, hfs, hstops⟩ := exists_frames more
    refine ⟨f :: fs, rest, ?_, List.forall_mem_cons.2 ⟨hfits, hfs⟩, hstops⟩
    rw [hbs, hmore, bytesOf_cons, List.append_assoc]
  · exact ⟨[], bs, rfl, nofun, fun f more hfits hbs => h ⟨f, more, hfits, hbs⟩⟩
termination_by bs.length

theorem exists_spells (s : FrameStream) : ∃ fs rest, s.Spells fs rest := by
  obtain ⟨fs, rest, hcontents, hfits, hstops⟩ := exists_frames s.contents
  exact ⟨fs, rest, hcontents, hfits, hstops⟩

theorem Spells.unique {s : FrameStream} {fs fs' : List Frame} {rest rest' : List UInt8}
    (h : s.Spells fs rest) (h' : s.Spells fs' rest') : fs = fs' ∧ rest = rest' := by
  obtain ⟨hcontents, hfits, hstops⟩ := h
  obtain ⟨hcontents', hfits', hstops'⟩ := h'
  have heq := hcontents.symm.trans hcontents'
  clear hcontents hcontents'
  induction fs generalizing fs' with
  | nil =>
    cases fs' with
    | nil => exact ⟨rfl, heq⟩
    | cons g fs' =>
      rw [bytesOf_cons, List.append_assoc] at heq
      exact absurd heq (hstops g _ (hfits' g (List.mem_cons_self ..)))
  | cons f fs ih =>
    cases fs' with
    | nil =>
      rw [bytesOf_cons, List.append_assoc] at heq
      exact absurd heq.symm (hstops' f _ (hfits f (List.mem_cons_self ..)))
    | cons g fs' =>
      rw [bytesOf_cons, List.append_assoc, bytesOf_cons, List.append_assoc] at heq
      obtain ⟨rfl, hrest⟩ := bytes_append_inj (hfits f (List.mem_cons_self ..))
        (hfits' g (List.mem_cons_self ..)) heq
      obtain ⟨rfl, rfl⟩ := ih (fun x hx => hfits x (List.mem_cons_of_mem f hx))
        (fun x hx => hfits' x (List.mem_cons_of_mem f hx)) hrest
      exact ⟨rfl, rfl⟩

/-- Behind the frames that a stream spells out, a reader finds no frame. -/
theorem front_ne_frame {s : FrameStream}
    (h : ∀ (f : Frame) (more : List UInt8), f.Fits → s.contents ≠ f.bytes ++ more)
    (f : Frame) (rest : FrameStream) : s.front ≠ .frame f rest := by
  intro hfront
  obtain ⟨hfits, hcontents⟩ := contents_of_front hfront
  exact h f rest.contents hfits hcontents

end FrameStream

namespace Inbound

open FrameStream

variable {listener : Listener}

/-! ## The receiver takes the frames -/

theorem take_of_isOver {s : Inbound} (h : s.isOver = true) (f : Frame) :
    s.take listener f = s := by
  unfold isOver at h
  unfold take
  split at h
  · rename_i hphase
    rw [hphase]
  · cases h

theorem foldl_take_of_isOver {s : Inbound} (h : s.isOver = true) (fs : List Frame) :
    fs.foldl (take listener) s = s := by
  induction fs with
  | nil => rfl
  | cons f fs ih => rw [List.foldl_cons, take_of_isOver h, ih]

theorem takeAll_of_isOver {s : Inbound} (h : s.isOver = true) (stream : FrameStream) :
    s.takeAll listener stream = s := by
  rw [takeAll, if_pos h]

theorem takeAll_of_frame {s : Inbound} {stream rest : FrameStream} {f : Frame}
    (h : s.isOver = false) (hfront : stream.front = .frame f rest) :
    s.takeAll listener stream = (s.take listener f).takeAll listener rest := by
  rw [takeAll, if_neg (by rw [h]; exact Bool.false_ne_true)]
  split <;> rename_i hfound <;> cases hfront.symm.trans hfound
  rfl

/-- A receiver takes the frames at the front of a stream and stands before what follows them. -/
theorem takeAll_of_contents {s : Inbound} {stream : FrameStream} {fs : List Frame}
    {more : List UInt8} (hfs : ∀ f ∈ fs, f.Fits) (h : stream.contents = bytesOf fs ++ more) :
    ∃ rest, rest.contents = more ∧
      s.takeAll listener stream = (fs.foldl (take listener) s).takeAll listener rest := by
  induction fs generalizing s stream with
  | nil => exact ⟨stream, h, rfl⟩
  | cons f fs ih =>
    rw [bytesOf_cons, List.append_assoc] at h
    obtain ⟨after, hfront, hafter⟩ := front_of_contents (hfs f (List.mem_cons_self ..)) h
    obtain ⟨rest, hrest, htakeAll⟩ :=
      ih (s := s.take listener f) (fun g hg => hfs g (List.mem_cons_of_mem f hg)) hafter
    refine ⟨rest, hrest, ?_⟩
    cases hover : s.isOver with
    | true =>
      rw [takeAll_of_isOver hover, foldl_take_of_isOver hover, takeAll_of_isOver hover]
    | false => rw [takeAll_of_frame hover hfront, htakeAll, List.foldl_cons]

/-- When no further frame is found, a receiver is done and does nothing more. -/
theorem takeAll_of_no_frame (listener : Listener) (s : Inbound) {stream : FrameStream}
    (h : ∀ f rest, stream.front ≠ .frame f rest) :
    (s.takeAll listener stream).isOver = true ∧
      (s.takeAll listener stream).receipts = s.receipts ∧
      (s.takeAll listener stream).replies = s.replies := by
  cases hover : s.isOver with
  | true =>
    rw [takeAll_of_isOver hover]
    exact ⟨hover, rfl, rfl⟩
  | false =>
    rw [takeAll, if_neg (by rw [hover]; exact Bool.false_ne_true)]
    split
    · rename_i f rest hfront
      exact absurd hfront (h f rest)
    · exact ⟨rfl, rfl, rfl⟩
    · exact ⟨rfl, rfl, rfl⟩

/-! ## What the frames come to -/

/-- The caller that the first frame names, if it is a greeting. -/
def greetingOf : List Frame → Option Handshake
  | [] => none
  | f :: _ => if f.kind = .handshake then Handshake.ofBytes? f.body.data.toList else none

theorem greetingOf_cons (f : Frame) (fs : List Frame) :
    greetingOf (f :: fs) = f.handshake.toOption := by
  rw [greetingOf, Frame.handshake]
  by_cases hkind : f.kind = .handshake
  · rw [if_pos hkind, if_pos hkind]
    cases Handshake.ofBytes? f.body.data.toList <;> rfl
  · rw [if_neg hkind, if_neg hkind]
    rfl

theorem greetingOf_congr {fs fs' : List Frame} (h : fs'.head? = fs.head?) :
    greetingOf fs' = greetingOf fs := by
  cases fs <;> cases fs' <;> simp_all [greetingOf]

/-- The messages among frames. -/
def messagesOf (fs : List Frame) : List Frame :=
  fs.filter fun f => f.kind = .message

/-- What a listener is handed for messages of a member. -/
def receiptsOf (source : Member) (ms : List Frame) : List Receipt :=
  ms.map fun m => ⟨m.body, source⟩

/-- The answer to a message: an ack if it was accepted and otherwise a nack, with its id. -/
def answerTo (accepted : Bool) (m : Frame) : Frame where
  kind := if accepted then .ack else .nack
  flags := 0
  id := m.id
  body := .empty

theorem reply_eq (accepted : Bool) (m : Frame) : .reply accepted m.id = answerTo accepted m := by
  cases accepted <;> rfl

theorem asksForAck_iff (m : Frame) : m.asksForAck = true ↔ m.flags &&& 1 ≠ 0 :=
  bne_iff_ne

/-- The answers to messages of a member: one for each that has the bit set that asks for it, by what the
listener makes of the message after those before it. -/
def answersTo (listener : Listener) (source : Member) (ms : List Frame) : List Frame :=
  ms.zipIdx.filterMap fun p =>
    if p.1.flags &&& 1 ≠ 0 then
      some (answerTo (listener (receiptsOf source (ms.take p.2)).reverse ⟨p.1.body, source⟩) p.1)
    else none

theorem answersTo_concat (source : Member) (ms : List Frame) (m : Frame) :
    answersTo listener source (ms ++ [m]) = answersTo listener source ms ++
      if m.asksForAck then
        [.reply (listener (receiptsOf source ms).reverse ⟨m.body, source⟩) m.id]
      else [] := by
  have hbefore : ∀ p ∈ ms.zipIdx, (ms ++ [m]).take p.2 = ms.take p.2 := fun p hp =>
    List.take_append_of_le_length (Nat.le_of_lt (List.snd_lt_of_mem_zipIdx hp))
  rw [answersTo, List.zipIdx_append, List.filterMap_append, answersTo, reply_eq]
  congr 1
  · refine List.filterMap_congr fun p hp => ?_
    rw [hbefore p hp]
  · have hasks := asksForAck_iff m
    by_cases hflag : m.flags &&& 1 ≠ 0
    · simp [hasks.2 hflag, hflag]
    · rw [if_neg fun h => hflag (hasks.1 h)]
      simpa using hflag

/-- Behind the greeting, the messages are handed over and answered, and no other frame has an
effect. -/
theorem take_frames_known {source : Member} (fs : List Frame) :
    fs.foldl (take listener) ⟨.known source, [], []⟩ =
      ⟨.known source, (receiptsOf source (messagesOf fs)).reverse,
        (answersTo listener source (messagesOf fs)).reverse⟩ := by
  induction fs using List.reverseRecOn with
  | nil => rfl
  | append_singleton fs f ih =>
    rw [List.foldl_append, ih, List.foldl_cons, List.foldl_nil]
    by_cases hkind : f.kind = .message
    · have hmessages : messagesOf (fs ++ [f]) = messagesOf fs ++ [f] := by
        simp [messagesOf, hkind]
      rw [hmessages, answersTo_concat]
      simp only [take, hkind, if_true, hand]
      cases f.asksForAck <;> simp [receiptsOf]
    · have hmessages : messagesOf (fs ++ [f]) = messagesOf fs := by
        simp [messagesOf, hkind]
      rw [hmessages]
      simp only [take, hkind, if_false]

/-- What the listener is handed and what is answered, by who the caller is and what the messages
are. -/
def servedTo (listener : Listener) (ms : List Frame) : Option Handshake → List Receipt × List Frame
  | none => ([], [])
  | some caller => (receiptsOf caller.toMember ms, answersTo listener caller.toMember ms)

/-- Only the greeting and the messages behind it matter. -/
theorem take_frames (fs : List Frame) :
    let s := fs.foldl (take listener) {}
    (s.receipts.reverse, s.replies.reverse) =
      servedTo listener (messagesOf fs.tail) (greetingOf fs) := by
  cases fs with
  | nil => rfl
  | cons f fs =>
    rw [List.foldl_cons, List.tail_cons]
    cases hhandshake : f.handshake with
    | ok caller =>
      have hgreeting : greetingOf (f :: fs) = some caller := by
        rw [greetingOf_cons, hhandshake]
        rfl
      have hfirst : take listener {} f = ⟨.known caller.toMember, [], []⟩ := by
        simp [take, hhandshake]
      rw [hgreeting, hfirst, take_frames_known]
      simp only [List.reverse_reverse, servedTo]
    | error e =>
      have hgreeting : greetingOf (f :: fs) = none := by
        rw [greetingOf_cons, hhandshake]
        rfl
      have hfirst : take listener {} f = ⟨.over (some (.wire e)), [], []⟩ := by
        simp [take, hhandshake]
      rw [hgreeting, hfirst, foldl_take_of_isOver rfl]
      rfl

/-- What a receiver has done when a stream is over is given by the greeting and the messages that the
stream spells out. -/
theorem takeAll_of_spells (listener : Listener) {stream : FrameStream} {fs : List Frame}
    {rest : List UInt8} (h : stream.Spells fs rest) :
    let served := takeAll listener {} stream
    served.isOver = true ∧ (served.receipts.reverse, served.replies.reverse) =
      servedTo listener (messagesOf fs.tail) (greetingOf fs) := by
  intro served
  obtain ⟨after, hafter, htakeAll⟩ := takeAll_of_contents (s := {}) h.fits h.contents
  obtain ⟨hover, hreceipts, hreplies⟩ :=
    takeAll_of_no_frame listener (fs.foldl (take listener) {})
      (front_ne_frame fun f more hfits => by
        rw [hafter]
        exact h.stops f more hfits)
  rw [← htakeAll] at hover hreceipts hreplies
  refine ⟨hover, ?_⟩
  rw [show served.receipts = _ from hreceipts, show served.replies = _ from hreplies]
  exact take_frames fs

theorem toList_foldl_encode (bs : ByteArray) (fs : List Frame) :
    (fs.foldl (fun bs f => bs ++ f.encode) bs).data.toList = bs.data.toList ++ bytesOf fs := by
  induction fs generalizing bs with
  | nil => exact (List.append_nil _).symm
  | cons f fs ih =>
    rw [List.foldl_cons, ih, ByteArray.toList_data_append, List.append_assoc, bytesOf_cons]
    rfl

theorem toList_replyBytes (s : Inbound) : s.replyBytes.data.toList = bytesOf s.replies.reverse := by
  rw [replyBytes, toList_foldl_encode]
  rfl

/-! ## Patience -/

namespace Transmission

variable {f : Frame} {more : List UInt8}

/-- The bytes that arrive within so many milliseconds. -/
def arrivedWithin (patience : Nat) : List (Nat × ByteArray) → List UInt8
  | [] => []
  | (wait, piece) :: later =>
    if wait ≤ patience then piece.data.toList ++ arrivedWithin (patience - wait) later else []

/-- The first of some frames has arrived as a whole after so many milliseconds. -/
def OpensWithin (t : Transmission) (patience : Nat) (fs : List Frame) : Prop :=
  ∃ f ∈ fs.head?, f.bytes <+: arrivedWithin patience t.pieces

/-- The frame at the front shows exactly if it arrives as a whole in time. -/
theorem showsWithin_iff (hfits : f.Fits) {closing patience : Nat} {heard : ByteArray}
    {pieces : List (Nat × ByteArray)} (hshort : ¬ f.bytes <+: heard.data.toList)
    (h : heard.data.toList ++ contents ⟨pieces.map Prod.snd⟩ = f.bytes ++ more) :
    showsWithin closing patience heard pieces = true ↔
      f.bytes <+: heard.data.toList ++ arrivedWithin patience pieces := by
  induction pieces generalizing patience heard with
  | nil =>
    -- The stream does not end within the frame.
    refine absurd ⟨more, ?_⟩ hshort
    rw [← h]
    exact List.append_nil _
  | cons next later ih =>
    obtain ⟨wait, piece⟩ := next
    have hheard : (heard ++ piece).data.toList = heard.data.toList ++ piece.data.toList :=
      ByteArray.toList_data_append
    have hbehind : (heard ++ piece).data.toList ++ contents ⟨later.map Prod.snd⟩ = f.bytes ++ more := by
      rw [hheard, List.append_assoc, ← h]
      rfl
    rw [showsWithin, arrivedWithin, Bool.and_eq_true, Bool.or_eq_true, decide_eq_true_eq]
    by_cases hwait : wait ≤ patience
    · rw [if_pos hwait, ← List.append_assoc, ← hheard]
      by_cases hwhole : f.bytes <+: (heard ++ piece).data.toList
      · obtain ⟨behind, heq⟩ := hwhole
        obtain ⟨rest, hshows, -⟩ := arrived?_of_bytes hfits heq.symm
        exact iff_of_true ⟨hwait, .inl (by rw [hshows]; rfl)⟩
          (List.IsPrefix.trans ⟨behind, heq⟩ (List.prefix_append ..))
      · rw [arrived?_of_short hfits ⟨_, hbehind⟩ hwhole, ih hwhole hbehind]
        exact ⟨fun hshows => hshows.2.resolve_left Bool.false_ne_true, fun hin => ⟨hwait, .inr hin⟩⟩
    · rw [if_neg hwait, List.append_nil]
      exact iff_of_false (fun hshows => hwait hshows.1) hshort

/-- Whether the first frame of a caller shows in time. -/
theorem showsWithin_iff_opens {t : Transmission} {patience : Nat} {fs : List Frame} {rest : List UInt8}
    (h : t.stream.Spells (f :: fs) rest) :
    showsWithin t.closing patience .empty t.pieces = true ↔ t.OpensWithin patience (f :: fs) := by
  have hcontents := h.contents
  rw [bytesOf_cons, List.append_assoc] at hcontents
  have hshort : ¬ f.bytes <+: ByteArray.empty.data.toList := fun hnil =>
    f.bytes_ne_nil (List.prefix_nil.1 hnil)
  refine (showsWithin_iff (h.fits f List.mem_cons_self) hshort hcontents).trans ⟨fun harrived => ?_, ?_⟩
  · exact ⟨f, rfl, harrived⟩
  · rintro ⟨g, hg, harrived⟩
    cases hg
    exact harrived

end Transmission

/-- If the caller opens in time, its frames are taken, however long it takes for the others. -/
theorem serve_of_opens {t : Transmission} {fs : List Frame} {rest : List UInt8}
    (h : t.stream.Spells fs rest) (hopens : t.OpensWithin handshakePatience fs) :
    serve listener t = takeAll listener {} t.stream := by
  obtain ⟨f, hf, -⟩ := id hopens
  obtain ⟨tail, rfl⟩ := List.head?_eq_some_iff.1 hf
  exact if_pos ((Transmission.showsWithin_iff_opens h).2 hopens)

/-- Without a greeting that arrives in time, nothing comes of what the caller sends. -/
theorem serve_of_no_greeting (listener : Listener) {t : Transmission} {fs : List Frame}
    {rest : List UInt8} (h : t.stream.Spells fs rest)
    (hnone : greetingOf fs = none ∨ ¬ t.OpensWithin handshakePatience fs) :
    (serve listener t).isOver = true ∧ (serve listener t).receipts = [] ∧
      (serve listener t).replies = [] := by
  by_cases hgreeting : greetingOf fs = none
  · rw [serve]
    split
    · obtain ⟨hover, hserved⟩ := takeAll_of_spells listener h
      rw [hgreeting] at hserved
      obtain ⟨hreceipts, hreplies⟩ := Prod.mk.inj hserved
      exact ⟨hover, List.reverse_eq_nil_iff.1 hreceipts, List.reverse_eq_nil_iff.1 hreplies⟩
    · exact ⟨rfl, rfl, rfl⟩
  · cases fs with
    | nil => exact absurd rfl hgreeting
    | cons f tail =>
      have hlate : ¬ Transmission.showsWithin t.closing handshakePatience .empty t.pieces = true :=
        fun hshows => hnone.resolve_left hgreeting ((Transmission.showsWithin_iff_opens h).1 hshows)
      rw [serve, if_neg hlate]
      exact ⟨rfl, rfl, rfl⟩

/-! ## What the stream says -/

/-- **Theorem.** Every stream spells out frames in exactly one way, in whatever pieces and after
whatever waits it arrives. If the first of them is no greeting or does not arrive as a whole within ten
seconds, the listener is not called and nothing is written back. Otherwise the listener is
handed the messages behind the greeting, in order and in the name of the member whose id, host and port
the greeting gives, and the answers that were asked for are written back, in order. All of this depends
on the greeting, on whether it arrives in time and on the messages behind it alone. Then the connection
is over. -/
theorem served_as_the_stream_says (listener : Listener) (t : Transmission) :
    ∃ fs rest, t.stream.Spells fs rest ∧ (∀ fs' rest', t.stream.Spells fs' rest' → fs' = fs) ∧
      let served := serve listener t
      served.isOver = true ∧
      (greetingOf fs = none ∨ ¬ t.OpensWithin 10000 fs →
        served.receipts = [] ∧ served.replyBytes.data.toList = []) ∧
      (∀ caller, greetingOf fs = some caller → t.OpensWithin 10000 fs →
        let source : Member := { id := caller.memberId, host := caller.host, port := caller.port }
        served.receipts.reverse = receiptsOf source (messagesOf fs.tail) ∧
        served.replyBytes.data.toList =
          bytesOf (answersTo listener source (messagesOf fs.tail))) ∧
      ∀ (t' : Transmission) (fs' : List Frame) (rest' : List UInt8),
        t'.stream.Spells fs' rest' → fs'.head? = fs.head? →
        (t'.OpensWithin 10000 fs' ↔ t.OpensWithin 10000 fs) →
        messagesOf fs'.tail = messagesOf fs.tail →
        (serve listener t').receipts = served.receipts ∧
        (serve listener t').replyBytes = served.replyBytes := by
  obtain ⟨fs, rest, hspells⟩ := t.stream.exists_spells
  refine ⟨fs, rest, hspells, fun fs' rest' h => (h.unique hspells).1, ?_⟩
  intro served
  by_cases hserves : greetingOf fs = none ∨ ¬ t.OpensWithin 10000 fs
  · obtain ⟨hover, hreceipts, hreplies⟩ := serve_of_no_greeting listener hspells hserves
    refine ⟨hover, fun _ => ⟨hreceipts, ?_⟩, fun caller hgreeting hopens => ?_, ?_⟩
    · rw [toList_replyBytes, hreplies]
      rfl
    · refine absurd hserves ?_
      rw [hgreeting]
      exact not_or.2 ⟨Option.some_ne_none caller, not_not.2 hopens⟩
    · intro t' fs' rest' hspells' hhead hopens _
      rw [← greetingOf_congr hhead, ← hopens] at hserves
      obtain ⟨-, hreceipts', hreplies'⟩ := serve_of_no_greeting listener hspells' hserves
      exact ⟨hreceipts'.trans hreceipts.symm, by rw [replyBytes, replyBytes, hreplies', hreplies]⟩
  · obtain ⟨hgreeting, hopens⟩ := not_or.1 hserves
    rw [not_not] at hopens
    obtain ⟨hover, hserved⟩ := takeAll_of_spells listener hspells
    rw [← serve_of_opens hspells hopens] at hover hserved
    refine ⟨hover, fun hnone => absurd hnone hserves, fun caller hcaller _ => ?_, ?_⟩
    · rw [hcaller] at hserved
      obtain ⟨hreceipts, hreplies⟩ := Prod.mk.inj hserved
      exact ⟨hreceipts, by rw [toList_replyBytes, hreplies]; rfl⟩
    · intro t' fs' rest' hspells' hhead hopens' hmessages
      obtain ⟨-, hserved'⟩ := takeAll_of_spells listener hspells'
      rw [← serve_of_opens hspells' (hopens'.2 hopens), hmessages, greetingOf_congr hhead, ← hserved]
        at hserved'
      obtain ⟨hreceipts, hreplies⟩ := Prod.mk.inj hserved'
      exact ⟨List.reverse_inj.1 hreceipts, by rw [replyBytes, replyBytes, hreplies]⟩

end Inbound

end PeerCluster
