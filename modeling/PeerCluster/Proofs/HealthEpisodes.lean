import PeerCluster.Proofs.AcknowledgedDelivery
import PeerCluster.Proofs.MailingMinutes

/-!
# Episodes of failure

A failure makes a ready peer suspect, and a verified success makes any peer ready. A peer becomes failing
when a delivery to it fails that began under suspicion. That is decided when a mailing is over, by what
was noted when it began, while its deliveries have changed the health of the same peers meanwhile.

**The report** (`healthOf_report`). It makes exactly those failing whom it blames (`blames`), and leaves
everybody else alone.

**Theorem (`health_follows_attempts`).** Until then every peer's health is what the attempts have made of
it (`Ledger.ready_of_lastWord`). For a peer that was listed once the report does not change that of a
success, since a delivery that fails never marks its peer ready (`Ledger.isSuspect_of_failed`).

For a peer that was listed twice it may. One delivery fails and the next one is verified, and then the
peer is reported as failing though it is ready (`report_overrides_success`).
-/

namespace PeerCluster

open Exchange

namespace Mailing

variable {g : Mailing} {p pool : CourierPool} {place : Nat} {id : MemberId}

/-! ## The report -/

/-- Whether a member was under suspicion when the mailing began and a delivery to it has failed. -/
def blames (g : Mailing) (id : MemberId) : Bool :=
  g.deliveries.any fun d => decide (d.member.id = id) && d.wasSuspect && d.cause?.isSome

theorem blames_iff : g.blames id = true ↔
    ∃ d ∈ g.deliveries, d.member.id = id ∧ d.wasSuspect = true ∧ d.cause?.isSome = true := by
  simp only [blames, List.any_eq_true, Bool.and_eq_true, decide_eq_true_eq, and_assoc]

/-- A report makes those failing whom it blames, and changes nothing else. It does not matter how often
a member is listed, nor what has become of its health meanwhile. -/
theorem healthOf_report (h : p.Coherent) (g : Mailing) (id : MemberId) :
    (g.report p).2.board.healthOf id = if g.blames id then .failing else p.board.healthOf id := by
  show (failures p.board g.deliveries).2.healthOf id = if g.deliveries.any _ then _ else _
  induction g.deliveries generalizing p with
  | nil => rfl
  | cons d rest ih =>
    cases hcause : d.cause? with
    | none =>
      rw [failures_cons_of_none p.board rest hcause, ih h, List.any_cons, hcause]
      simp
    | some cause =>
      obtain ⟨hkeeps, -, hself, hothers⟩ := blame_spec h d
      rw [failures_cons_of_some p.board rest hcause, ih hkeeps.coherent, List.any_cons, hcause]
      by_cases hid : d.member.id = id
      · subst hid
        rw [hself, Delivery.healthAfter]
        cases d.wasSuspect <;> simp
      · rw [hothers id (Ne.symm hid)]
        simp [hid]

/-- No two of the members have the given id. -/
def ListsOnce (id : MemberId) (members : List Member) : Prop :=
  members.Pairwise fun m m' => m.id = id → m'.id ≠ id

theorem ListsOnce.place_eq {members : List Member} (h : ListsOnce id members) {i j : Nat}
    {m m' : Member} (hi : members[i]? = some m) (hj : members[j]? = some m') (hm : m.id = id)
    (hm' : m'.id = id) : i = j := by
  obtain ⟨hilt, rfl⟩ := List.getElem?_eq_some_iff.1 hi
  obtain ⟨hjlt, rfl⟩ := List.getElem?_eq_some_iff.1 hj
  have hpairwise := List.pairwise_iff_getElem.1 h
  rcases Nat.lt_trichotomy i j with hlt | heq | hgt
  · exact absurd hm' (hpairwise i j hilt hjlt hlt hm)
  · exact heq
  · exact absurd hm (hpairwise j i hjlt hilt hgt hm')

theorem ListsOnce.suspectsLast {members : List Member} (h : ListsOnce id members)
    (b : HealthBoard) : ListsOnce id (suspectsLast b members) :=
  ((Office.suspectsLast_perm b members).pairwise_iff fun hne hm' hm => hne hm hm').2 h

/-- The deliveries of a mailing that has gone on are still those it began with. -/
theorem members_of_atStart {n : Nat} {payload : ByteArray} {wait : Bool} {fanOut : Settings.FanOut}
    {b : HealthBoard} {members : List Member}
    (h : g.atStart = ⟨n, payload, wait, fanOut, members.map (Delivery.to b)⟩) :
    g.deliveries.map Delivery.member = members ∧
      ∀ d ∈ g.deliveries, d.wasSuspect = (b.healthOf d.member.id).isSuspect := by
  obtain ⟨-, -, -, -, hdeliveries⟩ := Mailing.mk.inj h
  constructor
  · have hmembers := congrArg (List.map Delivery.member) hdeliveries
    rwa [List.map_map, List.map_map, show Delivery.member ∘ Delivery.to b = id from rfl,
      List.map_id] at hmembers
  · intro d hd
    obtain ⟨m, -, hm⟩ := List.mem_map.1 (hdeliveries ▸ List.mem_map_of_mem hd)
    obtain ⟨rfl, hsuspect, -⟩ := Delivery.mk.inj hm
    exact hsuspect.symm

end Mailing

namespace Office

open Mailing

variable {n : Nat} {o o' begun : Office} {g g₀ : Mailing} {place : Nat} {d : Mailing.Delivery}
  {phase : Phase} {pool : CourierPool} {log : List Happening} {id : MemberId}

/-! ## While a mailing is under way -/

/-- No delivery makes anybody failing. -/
theorem Ledger.not_failing (h : Ledger begun g₀ log o g) (hgoes : g.Goes o.pool place phase pool)
    (hfailing : pool.board.healthOf id = .failing) : o.pool.board.healthOf id = .failing := by
  obtain ⟨d, hd, -, hturns⟩ := hgoes.turns
  obtain ⟨said, hspeaks⟩ := hturns.exists_speaks
  have htold := h.told place d hd
  rw [h.sound.healthOf_speaks h.complete h.underWay hd hgoes hspeaks id] at hfailing
  generalize d.phase = before at hspeaks htold
  cases hspeaks with
  | silent => exact hfailing
  | @asks c q next answer =>
    cases q with
    | dial | write | read | close | clock => exact hfailing
    | mark next =>
      have hmark := htold.mark
      rw [List.map_singleton, replay, List.foldl_cons, List.foldl_nil, Happening.effect] at hfailing
      split at hfailing
      · rcases hmark with rfl | rfl
        · generalize o.pool.board.healthOf id = now at hfailing
          cases now with
          | failing => rfl
          | ready | suspect => cases hfailing
        · cases hfailing
      · exact hfailing

/-! ## When it is over -/

/-- Whatever was recorded last about a peer, the delivery at a place has said it. -/
def HasLastWord (log : List Happening) (place : Nat) (id : MemberId) : Prop :=
  ∃ front x back, log = front ++ .asks place id x :: back ∧ ∀ e ∈ back, e.peer ≠ id

/-- When a mailing is over, every delivery has ended in one way or the other. -/
theorem Ledger.over (h : Ledger begun g₀ log o g) (hover : g.isOver = true)
    (hd : g.deliveries[place]? = some d) :
    ∃ (courier : Courier) (result : Except DeliveryError Unit), d.phase = .over result ∧
      courier.Concludes g.payload g.wait result (saidAt place log) := by
  have hdover := List.all_eq_true.1 hover d (List.mem_of_getElem? hd)
  have htold := h.told place d hd
  rw [Delivery.isOver] at hdover
  generalize saidAt place log = ts at htold ⊢
  generalize d.phase = phase at hdover htold
  cases htold with
  | pending | assigned | queued | served => cases hdover
  | «over» hrun => exact ⟨_, _, rfl, Courier.send_written hrun⟩

/-- A peer whose latest attempt was verified is ready when the deliveries are over. -/
theorem Ledger.ready_of_lastWord (h : Ledger begun g₀ log o g) (hover : g.isOver = true)
    (hlast : HasLastWord log place id)
    (hverified : IsVerified g.payload g.wait (exchanged (saidAt place log))) :
    o.pool.board.healthOf id = .ready ∧
      ∃ d : Mailing.Delivery, g.deliveries[place]? = some d ∧ d.member.id = id ∧
        d.phase = .over (.ok ()) := by
  obtain ⟨front, x, back, rfl, hback⟩ := hlast
  obtain ⟨d, hd, hid⟩ := h.named place id x (by simp)
  obtain ⟨courier, result, hphase, hends⟩ := h.over hover hd
  obtain ⟨rfl, before, hsaid, -⟩ :=
    hends.resolve_right fun hopen => hopen.1.unverified hverified
  refine ⟨?_, d, hd, hid, hphase⟩
  -- The last that was said is the mark.
  have hsilent : saidAt place back = [] := by
    refine List.eq_nil_iff_forall_not_mem.2 fun y hy => ?_
    obtain ⟨peer, hmem⟩ := mem_saidAt.1 hy
    obtain ⟨d', hd', rfl⟩ := h.named place peer y (by simp [hmem])
    obtain rfl := Option.some.inj (hd.symm.trans hd')
    exact hback _ hmem hid
  have hx : x = ⟨.mark .ready, ()⟩ := by
    rw [List.append_cons, saidAt_append, saidAt_append, hsilent, List.append_nil] at hsaid
    have hone : saidAt place [.asks place id x] = [x] := saidAt_asks place id [x]
    rw [hone] at hsaid
    exact List.singleton_inj.1 (List.append_inj' hsaid rfl).2
  rw [h.health, List.append_cons, replay_append, replay_append, replay_of_ne hback, hx]
  show (if id = id then _ else _) = Health.ready
  rw [if_pos rfl]
  rfl

/-- A peer that was under suspicion when the mailing began still is if the only delivery to it has
failed, unless others have changed its health. -/
theorem Ledger.isSuspect_of_failed (h : Ledger begun g₀ log o g) (hover : g.isOver = true)
    (hd : g.deliveries[place]? = some d) (hfailed : d.cause?.isSome = true)
    (honly : ∀ i (d' : Mailing.Delivery), g.deliveries[i]? = some d' →
      d'.member.id = d.member.id → i = place)
    (hothers : ∀ health, .elsewhere d.member.id health ∉ log)
    (hstart : (begun.pool.board.healthOf d.member.id).isSuspect = true) :
    (o.pool.board.healthOf d.member.id).isSuspect = true := by
  obtain ⟨courier, result, hphase, hends⟩ := h.over hover hd
  have hdoubtful : Doubtful g.payload g.wait (saidAt place log) := by
    refine hends.doubtful fun hok => ?_
    rw [Delivery.cause?, hphase, hok] at hfailed
    cases hfailed
  rw [h.health]
  refine isSuspect_replay (fun e he hpeer => ?_) hstart
  cases e with
  | elsewhere peer health =>
    obtain rfl : peer = d.member.id := hpeer
    exact absurd he (hothers health)
  | asks i peer x =>
    obtain ⟨d', hd', hid'⟩ := h.named i peer x he
    obtain rfl := honly i d' hd' (hid'.trans hpeer)
    refine ⟨i, peer, x, rfl, fun next hx => hdoubtful.marks next ?_⟩
    rw [← hx]
    exact mem_saidAt.2 ⟨peer, he⟩

/-! ## When the call returns -/

/-- What a call leaves of the health of a peer. -/
structure Returns (o : Office) (members : List Member) (payload : ByteArray) (wait : Bool)
    (log : List Happening) (o' : Office) (g : Mailing) (id : MemberId) : Prop where
  /-- The report makes a peer failing if it blames it, and otherwise leaves its health alone. -/
  reported : (g.report o'.pool).2.board.healthOf id =
    if g.blames id then .failing else o'.pool.board.healthOf id
  /-- It blames a peer that was under suspicion when the mailing began if a delivery to it failed. -/
  blamed : g.blames id = true ↔ (o.pool.board.healthOf id).isSuspect = true ∧
    ∃ d ∈ g.deliveries, d.member.id = id ∧ d.cause?.isSome = true
  /-- Before the report, a peer whose latest attempt was verified is ready. -/
  verified : ∀ place, HasLastWord log place id →
    IsVerified payload wait (exchanged (saidAt place log)) → o'.pool.board.healthOf id = .ready
  /-- So it is after the report, if it was listed once. -/
  verifiedOnce : ListsOnce id members → ∀ place, HasLastWord log place id →
    IsVerified payload wait (exchanged (saidAt place log)) →
    (g.report o'.pool).2.board.healthOf id = .ready
  /-- A peer that was listed once does not become failing when it is ready, unless others have
  changed its health. -/
  stepwise : ListsOnce id members → (∀ health, .elsewhere id health ∉ log) →
    o'.pool.board.healthOf id = .ready → (g.report o'.pool).2.board.healthOf id = .ready

theorem Ledger.returns {members : List Member} {payload : ByteArray} {wait : Bool}
    (h : Ledger begun ⟨n, payload, wait, o.pool.fanOut,
      (suspectsLast o.pool.board members).map (Delivery.to o.pool.board)⟩ log o' g)
    (hbegun : ∀ id, begun.pool.board.healthOf id = o.pool.board.healthOf id)
    (hover : g.isOver = true) (id : MemberId) :
    Returns o members payload wait log o' g id := by
  obtain ⟨hmembers, hsuspect⟩ := members_of_atStart h.atStart
  obtain ⟨-, hpayload, hwait, -⟩ := Mailing.mk.inj h.atStart
  have hreported := healthOf_report h.sound.coherent g id
  have hblamed : g.blames id = true ↔ (o.pool.board.healthOf id).isSuspect = true ∧
      ∃ d ∈ g.deliveries, d.member.id = id ∧ d.cause?.isSome = true := by
    rw [blames_iff]
    constructor
    · intro hall
      rcases hall with ⟨d, hd, rfl, hwas, hfailed⟩
      exact ⟨hsuspect d hd ▸ hwas, d, hd, rfl, hfailed⟩
    · intro hall
      rcases hall with ⟨hwas, d, hd, rfl, hfailed⟩
      exact ⟨d, hd, rfl, (hsuspect d hd).trans hwas, hfailed⟩
  have honce : ListsOnce id members → ∀ (i j : Nat) (d d' : Mailing.Delivery),
      g.deliveries[i]? = some d → g.deliveries[j]? = some d' → d.member.id = id →
      d'.member.id = id → i = j := by
    intro honce i j d d' hd hd' hid hid'
    have hat : ∀ (k : Nat) (e : Mailing.Delivery), g.deliveries[k]? = some e →
        (suspectsLast o.pool.board members)[k]? = some e.member := by
      intro k e he
      rw [← hmembers, List.getElem?_map, he]
      rfl
    exact (honce.suspectsLast o.pool.board).place_eq (hat i d hd) (hat j d' hd') hid hid'
  have hready := fun place (hlast : HasLastWord log place id) => h.ready_of_lastWord hover hlast
  rw [hpayload, hwait] at hready
  refine ⟨hreported, hblamed, fun place hlast hverified => (hready place hlast hverified).1,
    fun hlisted place hlast hverified => ?_, fun hlisted hothers hbefore => ?_⟩
  · obtain ⟨hbefore, d, hd, hid, hphase⟩ := hready place hlast hverified
    rw [hreported, if_neg, hbefore]
    rw [hblamed]
    rintro ⟨-, d', hd', hid', hfailed⟩
    obtain ⟨i, hi⟩ := List.mem_iff_getElem?.1 hd'
    obtain rfl := honce hlisted i place d' d hi hd hid' hid
    obtain rfl := Option.some.inj (hi.symm.trans hd)
    rw [Delivery.cause?, hphase] at hfailed
    cases hfailed
  · rw [hreported, if_neg, hbefore]
    rw [hblamed]
    rintro ⟨hwas, d, hd, rfl, hfailed⟩
    obtain ⟨i, hi⟩ := List.mem_iff_getElem?.1 hd
    have hstill := h.isSuspect_of_failed hover hi hfailed
      (fun j d' hj hid' => honce hlisted j i d' d hj hi hid' rfl) hothers
      ((hbegun d.member.id).symm ▸ hwas)
    rw [hbefore] at hstill
    cases hstill

theorem Minutes.exists_ledger (h : o.Remembered) (hnew : o.mailing? n = none)
    {members : List Member} {payload : ByteArray} {wait : Bool}
    (hminutes : Minutes n (o.begins n members payload wait) log o') :
    ∃ g, Ledger (o.begins n members payload wait) ⟨n, payload, wait, o.pool.fanOut,
      (suspectsLast o.pool.board members).map (Delivery.to o.pool.board)⟩ log o' g ∧
      o'.mailing? n = some g := by
  obtain ⟨g, hledger⟩ := hminutes.ledger rfl
    (ledger_begins h.reached.sound h.complete hnew members payload wait)
  have hnumber : g.number = n := hledger.number
  exact ⟨g, hledger, hnumber ▸ hledger.underWay⟩

/-- **Theorem.** A mailing goes to any members, some of them perhaps listed more than once, and its
deliveries come to whatever they come to. No step of a delivery makes anybody failing. The report makes
failing exactly those who were under suspicion when the mailing began and to whom a delivery failed. So a
peer whose latest attempt was verified is ready until the report. If it was listed once it still is
afterwards, and no report takes it from ready to failing. -/
theorem health_follows_attempts (h : o.Remembered) (hnew : o.mailing? n = none)
    (members : List Member) (payload : ByteArray) (wait : Bool)
    (hminutes : Minutes n (o.begins n members payload wait) log o') :
    ∃ g, o'.mailing? n = some g ∧
      (∀ place phase pool id, g.Goes o'.pool place phase pool →
        pool.board.healthOf id = .failing → o'.pool.board.healthOf id = .failing) ∧
      (g.isOver = true → ∀ id, Returns o members payload wait log o' g id) := by
  obtain ⟨hpool, -⟩ := begin_spec h.reached.sound.coherent n members payload wait
  obtain ⟨g, hledger, hg⟩ := hminutes.exists_ledger h hnew
  exact ⟨g, hg, fun _ _ _ _ hgoes => hledger.not_failing hgoes, hledger.returns hpool.health⟩

/-! ## A success that does not last -/

/-- The delivery at a place goes one step on, where no connection is ever opened. -/
def stumble (o : Office) (n place : Nat) : Office :=
  match o.mailing? n with
  | none => o
  | some g =>
    match g.moveAt o.pool place with
    | .steps phase pool => o.withPhase g place phase pool
    | .asks q next => o.withPhase g place (next (offline q)) o.pool
    | .waits | .isOver => o

/-- The delivery at a place goes so many steps on. -/
def stumbles (o : Office) (n place : Nat) : (steps : Nat) → Office
  | 0 => o
  | steps + 1 => (o.stumble n place).stumbles n place steps

theorem stumble_cases (o : Office) (n place : Nat) : o.stumble n place = o ∨
    ∃ g phase pool, o.mailing? n = some g ∧ g.Goes o.pool place phase pool ∧
      o.stumble n place = o.withPhase g place phase pool := by
  rw [stumble]
  cases hg : o.mailing? n with
  | none => exact .inl rfl
  | some g =>
    dsimp only
    cases hmove : g.moveAt o.pool place with
    | steps phase pool => exact .inr ⟨g, phase, pool, rfl, .steps hmove, rfl⟩
    | asks q next => exact .inr ⟨g, _, _, rfl, .asks (offline q) hmove, rfl⟩
    | waits | isOver => exact .inl rfl

theorem Remembered.stumbles (h : o.Remembered) (n place steps : Nat) :
    (o.stumbles n place steps).Remembered := by
  induction steps generalizing o with
  | zero => exact h
  | succ steps ih =>
    refine ih ?_
    rcases stumble_cases o n place with hsame | ⟨g, phase, pool, hg, hgoes, hnext⟩
    · exact hsame.symm ▸ h
    · exact hnext ▸ h.goes hg hgoes

theorem Minutes.stumbles (h : Minutes n begun log o) (place steps : Nat) :
    ∃ log', Minutes n begun log' (o.stumbles n place steps) := by
  induction steps generalizing o log with
  | zero => exact ⟨log, h⟩
  | succ steps ih =>
    rcases stumble_cases o n place with hsame | ⟨g, phase, pool, hg, hgoes, hnext⟩
    · exact ih (hsame.symm ▸ h)
    · obtain ⟨log', hminutes⟩ := h.goes hg hgoes
      exact ih (hnext.symm ▸ hminutes)

/-- A member to whom nothing has been delivered yet. -/
def stranger : Member :=
  Delivery.novice.destination

/-- An office whose couriers make one attempt only. -/
def novice : Office where
  pool := { settings := { maxRetryAttempts := 0 }, self := Delivery.novice.self }

/-- A first mailing, for which no connection is opened. -/
def missed : Office :=
  (novice.begins 0 [stranger] "first".toUTF8 true).stumbles 0 0 7

/-- The mailing when it is over. -/
def miss : Mailing :=
  ⟨0, "first".toUTF8, true, .sequential,
    [⟨stranger, false, .over (.error (.connectTimeout stranger.address 3000))⟩]⟩

/-- The office when the first mailing has been reported. -/
def doubting : Office :=
  missed.put 0 none (miss.report missed.pool).2

/-- A second mailing to the same member, who is listed twice. The first delivery has failed, and the
second one is about to be served. -/
def retrying : Office :=
  ((doubting.begins 1 [stranger, stranger] "second".toUTF8 true).stumbles 1 0 7).stumbles 1 1 3

/-- The courier of the second delivery. -/
def retrier : Courier :=
  { Delivery.novice with settings := { maxRetryAttempts := 0 } }

theorem remembered_doubting : doubting.Remembered := by
  have hnovice : novice.Remembered := ⟨_, _, _, .refl⟩
  have hmissed := (hnovice.begins (n := 0) rfl [stranger] "first".toUTF8 true).stumbles 0 0 7
  exact hmissed.reports (g := miss) rfl rfl

/-- The second delivery may be verified after the first has failed. -/
theorem exists_overridden : ∃ log o' g,
    Minutes 1 (doubting.begins 1 [stranger, stranger] "second".toUTF8 true) log o' ∧
    o'.mailing? 1 = some g ∧ g.isOver = true ∧ g.blames stranger.id = true ∧
    HasLastWord log 1 stranger.id ∧
    IsVerified "second".toUTF8 true (exchanged (saidAt 1 log)) := by
  have hstarts : Minutes 1 (doubting.begins 1 [stranger, stranger] "second".toUTF8 true) []
      (doubting.begins 1 [stranger, stranger] "second".toUTF8 true) := .starts
  obtain ⟨log₁, hstumbled⟩ := hstarts.stumbles 0 7
  obtain ⟨log₂, hretrying⟩ := hstumbled.stumbles 1 3
  let failed : Mailing.Delivery :=
    ⟨stranger, true, .over (.error (.connectTimeout stranger.address 3000))⟩
  let served : Mailing.Delivery := ⟨stranger, true, .served ⟨0⟩ (retrier.send "second".toUTF8 true)⟩
  let g : Mailing := ⟨1, "second".toUTF8, true, .sequential, [failed, served]⟩
  have hg : retrying.mailing? 1 = some g := rfl
  have hd : g.deliveries[1]? = some served := rfl
  have hdesk : retrying.pool.desk? ⟨0⟩ = some ⟨retrier, [⟨1, 1⟩], 1⟩ := rfl
  -- The listener accepts the message.
  have hsize : Frame.headerSize + "second".toUTF8.size ≤ Frame.maxSize := by decide +kernel
  obtain ⟨w', c', hresponds⟩ := Delivery.send_may_be_answered (c := retrier) (w := {}) true hsize
    Delivery.fits_greeting_novice rfl rfl rfl rfl
  obtain ⟨ts, hrun⟩ := hresponds.written []
  rw [if_pos rfl] at hrun
  obtain ⟨-, before, rfl, -, hverified⟩ :=
    (Courier.send_written hrun).resolve_right fun hopen => nomatch hopen.2 rfl
  obtain ⟨o', g', said, hsaid, hminutes, hg', hdeliveries⟩ :=
    hretrying.serves hg rfl hd rfl rfl hdesk hrun
  obtain rfl : before ++ [⟨.mark .ready, ()⟩] = said := hsaid
  have hended : g'.deliveries = [failed, ⟨stranger, true, .over (.ok ())⟩] := by
    refine List.ext_getElem? fun i => ?_
    rw [hdeliveries]
    match i with
    | 0 | 1 | _ + 2 => rfl
  refine ⟨_, o', g', hminutes, hg', ?_, ?_, ?_, ?_⟩
  · rw [isOver, hended]
    rfl
  · rw [blames, hended]
    rfl
  · refine ⟨log₂ ++ before.map (.asks 1 stranger.id), ⟨.mark .ready, ()⟩, [], ?_,
      List.forall_mem_nil _⟩
    rw [List.map_append, List.append_assoc]
    rfl
  · rw [saidAt_append, saidAt_asks, ← List.append_assoc, exchanged_concat_of_not _ rfl,
      exchanged_append]
    exact hverified.prepend _

/-- The attempt that was made last has been verified, and the member is ready. Then the first delivery
is reported, and the member is failing. -/
theorem report_overrides_success : ∃ log o' g,
    Minutes 1 (doubting.begins 1 [stranger, stranger] "second".toUTF8 true) log o' ∧
    o'.mailing? 1 = some g ∧ g.isOver = true ∧ HasLastWord log 1 stranger.id ∧
    IsVerified "second".toUTF8 true (exchanged (saidAt 1 log)) ∧
    o'.pool.board.healthOf stranger.id = .ready ∧
    (g.report o'.pool).2.board.healthOf stranger.id = .failing := by
  obtain ⟨log, o', g, hminutes, hg, hover, hblamed, hlast, hverified⟩ := exists_overridden
  obtain ⟨g', hledger, hg'⟩ := hminutes.exists_ledger remembered_doubting rfl
  obtain rfl := Option.some.inj (hg.symm.trans hg')
  obtain ⟨-, hpayload, hwait, -⟩ := Mailing.mk.inj hledger.atStart
  obtain ⟨hready, -⟩ := hledger.ready_of_lastWord hover hlast (hpayload ▸ hwait ▸ hverified)
  refine ⟨log, o', g, hminutes, hg, hover, hlast, hverified, hready, ?_⟩
  rw [healthOf_report hledger.sound.coherent, if_pos hblamed]

/-- What becomes of the member of this mailing. -/
theorem health_follows_attempts_of_second_mailing : ∃ log o' g,
    Minutes 1 (doubting.begins 1 [stranger, stranger] "second".toUTF8 true) log o' ∧
    o'.mailing? 1 = some g ∧ g.isOver = true ∧
    Returns doubting [stranger, stranger] "second".toUTF8 true log o' g stranger.id := by
  obtain ⟨log, o', g, hminutes, hg, hover, -⟩ := exists_overridden
  obtain ⟨g', hg', -, hreturns⟩ := health_follows_attempts remembered_doubting rfl
    [stranger, stranger] "second".toUTF8 true hminutes
  obtain rfl := Option.some.inj (hg.symm.trans hg')
  exact ⟨log, o', g, hminutes, hg, hover, hreturns hover stranger.id⟩

end Office

end PeerCluster
