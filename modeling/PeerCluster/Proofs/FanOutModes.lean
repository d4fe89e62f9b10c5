import PeerCluster.Proofs.Errands
import PeerCluster.Proofs.FanOut

/-!
# One after the other, or all at once

**Theorem (`Errand.fan_outs_agree`).** Two errands with the same start that are over have come to the
same: the same report, the same board of healths, the same couriers but for when they have used their
connections, and the same questions to every peer in the same order. It does not matter whether the
deliveries are made one after the other or at once, nor how their steps are interleaved.

Interleavings are never reordered. The invariant `Course` says what each delivery has come to in terms
of the start alone, and `Visit.Stage.unique` that it can only come to one thing.

Every errand takes only so many steps (`Errand.wellFounded_walks`). It can be brought to its end if
nobody stands in line for its couriers when it begins (`Errand.Course.exists_over`).
-/

namespace PeerCluster

open Mailing

variable {peers : MemberId → Peer} {o : Office} {n : Nat} {members : List Member}

/-! ## Beginning -/

theorem Mailing.find?_snapshot_of_find {b : HealthBoard} {id : MemberId} {cell : HealthCell}
    (h : b.find? id = some cell) (members : List Member) :
    (snapshot b members).2.find? id = some cell := by
  induction members generalizing b with
  | nil => exact h
  | cons m rest ih => exact ih (HealthBoard.find?_findOrPost_of_find h m.id)

/-- Every member of a mailing that begins is on the board. -/
theorem Mailing.isSome_find?_snapshot {m : Member} {members : List Member} (hm : m ∈ members)
    (b : HealthBoard) : ((snapshot b members).2.find? m.id).isSome := by
  induction members generalizing b with
  | nil => cases hm
  | cons m' rest ih =>
    rcases List.mem_cons.1 hm with rfl | hm
    · have hfind := find?_snapshot_of_find (b.found_findOrPost m.id).find rest
      exact Option.isSome_iff_exists.2 ⟨_, hfind⟩
    · exact ih hm _

/-- The courier of a peer keeps the health of that peer. -/
theorem CourierPool.KeptBy.owner_reception {owner : HealthCell → MemberId} {p : CourierPool}
    (h : p.KeptBy owner) {m : Member} (hposted : (p.board.find? m.id).isSome) :
    owner (reception (p.newcomer m) m (p.deskOf? m.id)).1.courier.cell = m.id := by
  obtain ⟨cell, hcell⟩ := Option.isSome_iff_exists.1 hposted
  have hnewcomer : owner (p.newcomer m).cell = m.id := by
    rw [newcomer, HealthBoard.findOrPost, hcell]
    exact h.board.owned _ _ hcell
  cases hc : p.current.get? m.id with
  | none =>
    rw [deskOf?_of_not_current hc]
    exact hnewcomer
  | some c =>
    obtain ⟨cell', hcontact⟩ := h.current m.id c hc
    obtain ⟨d, hd, hdesk⟩ := exists_desk hcontact
    rw [deskOf?_of_current hc, hd, reception]
    split
    · have hcell' := congrArg Contact.cell hdesk
      exact (congrArg owner hcell').trans (h.hired c _ hcontact).2
    · exact hnewcomer

namespace Errand

/-- The office with a pool in which no connection is still to be closed. -/
def office (o : Office) (fanOut : Settings.FanOut) : Office :=
  { o with pool := { o.pool.closed with fanOut } }

theorem sound_office (h : o.Sound) (fanOut : Settings.FanOut) : (office o fanOut).Sound := by
  have hsame : o.pool.Rearranges { o.pool.closed with fanOut } :=
    CourierPool.rearranges_of_desks h.coherent rfl rfl fun _ _ hc => hc
  exact h.keeps hsame.toKeeps

/-- A mailing goes to its members only. -/
theorem mem_of_begin (h : o.Sound) {fanOut : Settings.FanOut} {payload : ByteArray} {wait : Bool}
    {seen : MemberId → List Ask} {d : Delivery}
    (hd : d ∈ (begin o.pool fanOut n members payload wait seen).mailing.deliveries) :
    d.member ∈ members := by
  obtain ⟨-, hmailing⟩ := begin_spec (sound_office h fanOut).coherent n members payload wait
  rw [show (begin o.pool fanOut n members payload wait seen).mailing = _ from hmailing] at hd
  obtain ⟨m, hm, rfl⟩ := List.mem_map.1 hd
  exact (Office.suspectsLast_perm _ members).mem_iff.1 hm

theorem begun_begin (h : o.Sound) (hnew : o.mailing? n = none)
    (hdistinct : (members.map Member.id).Nodup) (peers : MemberId → Peer)
    (fanOut : Settings.FanOut) (payload : ByteArray) (wait : Bool) (seen : MemberId → List Ask) :
    (begin o.pool fanOut n members payload wait seen).Begun peers := by
  have hcoherent := (sound_office h fanOut).coherent
  obtain ⟨hpool, hmailing⟩ := begin_spec hcoherent n members payload wait
  obtain ⟨owner, hkept⟩ := hpool.coherent
  have hmailing' : (begin o.pool fanOut n members payload wait seen).mailing = _ := hmailing
  have hposted : ∀ d ∈ (begin o.pool fanOut n members payload wait seen).mailing.deliveries,
      ((begin o.pool fanOut n members payload wait seen).pool.board.find? d.member.id).isSome :=
    fun d hd => isSome_find?_snapshot (mem_of_begin h hd) _
  refine ⟨?_, ?_, rfl, hposted, ?_, owner, ?_⟩
  · rw [hmailing', Mailing.atStart, List.map_map]
    rfl
  · rw [hmailing', List.map_map]
    exact ((Office.suspectsLast_perm _ members).map _).nodup_iff.2 hdistinct
  · intro c t ht heq
    rw [hmailing'] at heq
    have hline : (begin o.pool fanOut n members payload wait seen).pool.line c =
        (office o fanOut).pool.line c := hpool.lines c
    rw [hline] at ht
    obtain ⟨d, hd, -⟩ := (sound_office h fanOut).lines.known c t ht
    obtain ⟨g, hg, -⟩ := Option.bind_eq_some_iff.1 hd
    have hg : o.mailing? t.mailing = some g := hg
    rw [show t.mailing = n from heq, hnew] at hg
    cases hg
  · intro i d hd
    exact hkept.owner_reception (hposted d (List.mem_of_getElem? hd))

theorem sound_begin (h : o.Sound) (hnew : o.mailing? n = none) (fanOut : Settings.FanOut)
    (members : List Member) (payload : ByteArray) (wait : Bool) (seen : MemberId → List Ask) :
    let s₀ := begin o.pool fanOut n members payload wait seen
    (o.put s₀.mailing.number (some s₀.mailing) s₀.pool).Sound :=
  (sound_office h fanOut).begins hnew members payload wait

/-! ## Coming to an end -/

theorem Walks.left {s s' : Errand} (h : Walks peers s s') :
    Relation.CutExpand Follows s'.mailing.left s.mailing.left := by
  cases h with
  | steps _ hmove => exact cutExpand_left (.steps hmove)
  | asks _ hmove => exact cutExpand_left (.asks _ hmove)
  | reads now _ hmove => exact cutExpand_left (.asks now hmove)

theorem wellFounded_walks (peers : MemberId → Peer) :
    WellFounded fun s' s : Errand => Walks peers s s' :=
  Subrelation.wf (fun h => Walks.left h)
    (InvImage.wf (fun s : Errand => s.mailing.left) wellFounded_follows.cutExpand)

theorem exists_walks_of_canGo {s : Errand} {place : Nat} {d : Delivery}
    (hd : s.mailing.deliveries[place]? = some d) (h : s.mailing.CanGo s.pool place) :
    ∃ s', Walks peers s s' := by
  rcases h with ⟨phase, pool, hmove⟩ | ⟨q, next, hmove⟩
  · exact ⟨_, .steps hd hmove⟩
  · by_cases hq : q = .clock
    · subst hq
      exact ⟨_, .reads 0 hd hmove⟩
    · exact ⟨_, .asks hd hmove hq⟩

/-- A mailing that is not over goes on if nobody else stands in line for its couriers. -/
theorem Course.exists_walks {s₀ s : Errand} (h : Course o peers s₀ s)
    (hfree : ∀ i d, s₀.mailing.deliveries[i]? = some d → (s₀.visit peers i d.member).desk.line = [])
    (hover : s.mailing.isOver = false) : ∃ s', Walks peers s s' := by
  obtain ⟨place, d, hd, hmay, hnot⟩ := Office.exists_mayStep hover
  have hdelivery : (o.put s.mailing.number (some s.mailing) s.pool).delivery?
      ⟨s.mailing.number, place⟩ = some d :=
    (Office.delivery?_eq (Office.mailing?_put_self ..) place).trans hd
  refine exists_walks_of_canGo hd
    (Office.canGo_of_mayStep hd hmay hnot (h.sound.fits _ d hdelivery) fun c hphase => ?_)
  have hstage := h.stages place d hd
  rw [hphase] at hstage
  generalize hview : s.pool.view s.seen _ _ = view at hstage
  obtain ⟨d₀, hd₀, hmember⟩ := h.began hd
  have hline := hfree place d₀ hd₀
  rw [hmember] at hline
  cases hstage with
  | queued =>
    obtain ⟨-, hdesk, -, -⟩ := desk_of_view hview
    show (s.pool.line c).head? = _
    rw [CourierPool.line_of_desk hdesk, hline, h.number]
    rfl

theorem Course.exists_over {s₀ s : Errand} (h : Course o peers s₀ s) (hbegun : s₀.Begun peers)
    (hfree : ∀ i d, s₀.mailing.deliveries[i]? = some d →
      (s₀.visit peers i d.member).desk.line = []) :
    ∃ s', Relation.ReflTransGen (Walks peers) s s' ∧ s'.mailing.isOver = true := by
  induction s using (wellFounded_walks peers).induction with
  | _ s ih =>
    cases hover : s.mailing.isOver with
    | true => exact ⟨s, .refl, hover⟩
    | false =>
      obtain ⟨s₁, hwalks⟩ := h.exists_walks hfree hover
      obtain ⟨s', hrun, hover'⟩ := ih s₁ hwalks (h.walks hbegun hwalks)
      exact ⟨s', .head hwalks hrun, hover'⟩

end Errand

/-! ## Agreeing -/

/-- Two desks whose couriers are twins. -/
def CourierPool.Desk.Twins (d d' : CourierPool.Desk) : Prop :=
  d.courier.Twins d'.courier ∧ d'.line = d.line ∧ d'.holders = d.holders

theorem CourierPool.Desk.Twins.refl (d : CourierPool.Desk) : d.Twins d :=
  ⟨.refl _, rfl, rfl⟩

/-- Two courses of one delivery come to the same. -/
theorem Visit.Stage.unique {v : Visit} {d d' : Delivery} {view view' : View}
    (h : v.Stage d.phase view) (h' : v.Stage d'.phase view') (hover : d.isOver = true)
    (hover' : d'.isOver = true) :
    d'.phase = d.phase ∧ view'.state = view.state ∧
      Option.Rel CourierPool.Desk.Twins view.desk view'.desk := by
  rw [Delivery.isOver] at hover hover'
  generalize d.phase = phase at h hover ⊢
  generalize d'.phase = phase' at h' hover' ⊢
  cases h with
  | «over» hruns =>
    cases h' with
    | «over» hruns' =>
      obtain ⟨⟨hresult, htwins⟩, hstate⟩ :=
        Peer.runs_agree (Courier.agrees_send (.refl _) _ _) hruns hruns'
      dsimp only at hresult htwins
      rw [hresult, hstate]
      exact ⟨rfl, rfl, .some ⟨htwins, rfl, rfl⟩⟩
    | pending | assigned | queued | served => cases hover'
  | pending | assigned | queued | served => cases hover

theorem HealthBoard.ext_read {b b' : HealthBoard} (hposted : b.posted = b'.posted)
    (hsize : b.cells.size = b'.cells.size) (hread : ∀ cell, b.read cell = b'.read cell) : b = b' := by
  obtain ⟨cells, posted⟩ := b
  obtain ⟨cells', posted'⟩ := b'
  obtain rfl : posted = posted' := hposted
  congr 1
  refine Array.ext hsize fun i hi hi' => ?_
  have h := hread ⟨i⟩
  simpa [read, hi, hi'] using h

namespace Errand

/-- Two mailings that differ at most in how the deliveries are made. -/
structure SameStart (peers : MemberId → Peer) (s₀ s₀' : Errand) : Prop where
  deliveries : s₀'.mailing.deliveries = s₀.mailing.deliveries
  visits : ∀ i m, s₀'.visit peers i m = s₀.visit peers i m
  board : s₀'.pool.board = s₀.pool.board
  desks : ∀ id, s₀'.pool.deskOf? id = s₀.pool.deskOf? id
  seen : s₀'.seen = s₀.seen

/-- What a mailing has come to, as far as the clock has no say in it. -/
structure Agrees (s s' : Errand) : Prop where
  deliveries : s'.mailing.deliveries = s.mailing.deliveries
  board : s'.pool.board = s.pool.board
  couriers : ∀ id, Option.Rel CourierPool.Desk.Twins (s.pool.deskOf? id) (s'.pool.deskOf? id)
  seen : s'.seen = s.seen

/-- Two mailings with the same start that are over have come to the same with every peer. -/
theorem same_of_over {o' : Office} {s₀ s₀' s s' : Errand} {i : Nat} {d : Delivery}
    (hstart : SameStart peers s₀ s₀') (h : Course o peers s₀ s) (h' : Course o' peers s₀' s')
    (hover : s.mailing.isOver = true) (hover' : s'.mailing.isOver = true)
    (hd : s₀.mailing.deliveries[i]? = some d) :
    s'.mailing.deliveries[i]? = s.mailing.deliveries[i]? ∧
      s'.pool.board.read (s₀.visit peers i d.member).cell =
        s.pool.board.read (s₀.visit peers i d.member).cell ∧
      s'.seen d.member.id = s.seen d.member.id ∧
      Option.Rel CourierPool.Desk.Twins (s.pool.deskOf? d.member.id)
        (s'.pool.deskOf? d.member.id) := by
  obtain ⟨phase, hplace⟩ := h.further hd
  rw [← hstart.deliveries] at hd
  obtain ⟨phase', hplace'⟩ := h'.further hd
  have hstage := h.stages i _ hplace
  have hstage' := h'.stages i _ hplace'
  rw [hstart.visits] at hstage'
  obtain ⟨hphase, hstate, hdesks⟩ := hstage.unique hstage'
    (List.all_eq_true.1 hover _ (List.mem_of_getElem? hplace))
    (List.all_eq_true.1 hover' _ (List.mem_of_getElem? hplace'))
  obtain ⟨hseen, hhealth⟩ := Peer.State.mk.inj hstate
  obtain rfl : phase' = phase := hphase
  exact ⟨hplace'.trans hplace.symm, hhealth, hseen, hdesks⟩

/-- Two mailings with the same start that are over have come to the same. -/
theorem agrees_of_over {o' : Office} {s₀ s₀' s s' : Errand} (hstart : SameStart peers s₀ s₀')
    (h : Course o peers s₀ s) (h' : Course o' peers s₀' s') (hover : s.mailing.isOver = true)
    (hover' : s'.mailing.isOver = true) : s.Agrees s' where
  deliveries := by
    refine List.ext_getElem? fun i => ?_
    cases hd : s₀.mailing.deliveries[i]? with
    | some d => exact (same_of_over hstart h h' hover hover' hd).1
    | none =>
      have hnone : s.mailing.deliveries[i]? = none := by
        rw [← h.atStart, Mailing.atStart, List.getElem?_map, Option.map_eq_none_iff] at hd
        exact hd
      have hnone' : s'.mailing.deliveries[i]? = none := by
        rw [← hstart.deliveries, ← h'.atStart, Mailing.atStart, List.getElem?_map,
          Option.map_eq_none_iff] at hd
        exact hd
      rw [hnone, hnone']
  board := by
    refine HealthBoard.ext_read ?_ ?_ fun cell => ?_
    · rw [h.posted, h'.posted, hstart.board]
    · rw [h.size, h'.size, hstart.board]
    · by_cases hvisited : ∃ i d, s₀.mailing.deliveries[i]? = some d ∧
          (s₀.visit peers i d.member).cell = cell
      · obtain ⟨i, d, hd, rfl⟩ := hvisited
        exact (same_of_over hstart h h' hover hover' hd).2.1
      · push Not at hvisited
        rw [h.cells cell hvisited, h'.cells cell, hstart.board]
        intro i d hd
        rw [hstart.deliveries] at hd
        rw [hstart.visits]
        exact hvisited i d hd
  couriers id := by
    by_cases hvisited : ∃ d ∈ s₀.mailing.deliveries, d.member.id = id
    · obtain ⟨d, hd, rfl⟩ := hvisited
      obtain ⟨i, hi⟩ := List.mem_iff_getElem?.1 hd
      exact (same_of_over hstart h h' hover hover' hi).2.2.2
    · push Not at hvisited
      rw [(h.others id hvisited).1, (h'.others id (hstart.deliveries ▸ hvisited)).1, hstart.desks]
      cases s₀.pool.deskOf? id with
      | none => exact .none
      | some desk => exact .some (.refl desk)
  seen := by
    funext id
    by_cases hvisited : ∃ d ∈ s₀.mailing.deliveries, d.member.id = id
    · obtain ⟨d, hd, rfl⟩ := hvisited
      obtain ⟨i, hi⟩ := List.mem_iff_getElem?.1 hd
      exact (same_of_over hstart h h' hover hover' hi).2.2.1
    · push Not at hvisited
      rw [(h.others id hvisited).2, (h'.others id (hstart.deliveries ▸ hvisited)).2, hstart.seen]

/-- How the deliveries are to be made does not show in how they begin. -/
theorem sameStart_begin (peers : MemberId → Peer) (pool : CourierPool)
    (fanOut fanOut' : Settings.FanOut) (n : Nat) (members : List Member) (payload : ByteArray)
    (wait : Bool) (seen : MemberId → List Ask) :
    SameStart peers (begin pool fanOut n members payload wait seen)
      (begin pool fanOut' n members payload wait seen) :=
  ⟨rfl, fun _ _ => rfl, rfl, fun _ => rfl, rfl⟩

theorem Agrees.report {s s' : Errand} (h : s.Agrees s') :
    (s'.mailing.report s'.pool).1 = (s.mailing.report s.pool).1 ∧
      (s'.mailing.report s'.pool).2.board = (s.mailing.report s.pool).2.board := by
  rw [Mailing.report, Mailing.report, h.deliveries, h.board]
  exact ⟨rfl, rfl⟩

/-- Nobody stands in line for the couriers of a mailing if they were free before. -/
theorem line_visit_begin {fanOut : Settings.FanOut} {payload : ByteArray}
    {wait : Bool} {seen : MemberId → List Ask} {i : Nat} {m : Member}
    (hfree : ∀ c, o.pool.current.get? m.id = some c → o.pool.isFree c = true) :
    ((begin o.pool fanOut n members payload wait seen).visit peers i m).desk.line = [] := by
  refine List.eq_nil_iff_forall_not_mem.2 fun t ht => ?_
  obtain ⟨desk, hdesk, ht⟩ := CourierPool.exists_of_mem_reception ht
  obtain ⟨c, hc, hd⟩ := Option.bind_eq_some_iff.1 hdesk
  have hfree := hfree c hc
  rw [CourierPool.isFree, show o.pool.desk? c = some desk from hd] at hfree
  rw [List.isEmpty_iff.1 hfree] at ht
  cases ht

/-- **One after the other or all at once.** Every peer answers by what has been asked of it alone.
However the steps of the deliveries are interleaved, a mailing that is over has come to the same with
every peer as when its deliveries are made one after the other: the same report, the same health of
everyone, the same couriers, and the same questions in the same order, frames among them. It takes only
so many steps, and it can be brought to its end if nobody else stands in line for its couriers. -/
theorem fan_outs_agree (h : o.Reached) (hnew : o.mailing? n = none)
    (hdistinct : (members.map Member.id).Nodup) (payload : ByteArray) (wait : Bool)
    (peers : MemberId → Peer) (seen : MemberId → List Ask) :
    let start fanOut := begin o.pool fanOut n members payload wait seen
    (∀ fanOut fanOut' s s', Relation.ReflTransGen (Walks peers) (start fanOut) s →
      Relation.ReflTransGen (Walks peers) (start fanOut') s' →
      s.mailing.isOver = true → s'.mailing.isOver = true →
      s.Agrees s' ∧ (s'.mailing.report s'.pool).1 = (s.mailing.report s.pool).1 ∧
        (s'.mailing.report s'.pool).2.board = (s.mailing.report s.pool).2.board) ∧
    (∀ f : Nat → Errand, ∃ k, ¬Walks peers (f k) (f (k + 1))) ∧
    ((∀ m ∈ members, ∀ c, o.pool.current.get? m.id = some c → o.pool.isFree c = true) →
      ∀ fanOut s, Relation.ReflTransGen (Walks peers) (start fanOut) s →
        ∃ s', Relation.ReflTransGen (Walks peers) s s' ∧ s'.mailing.isOver = true) := by
  intro start
  have hbegun (fanOut : Settings.FanOut) : (start fanOut).Begun peers :=
    begun_begin h.sound hnew hdistinct peers fanOut payload wait seen
  have hcourse {fanOut : Settings.FanOut} {s : Errand}
      (hrun : Relation.ReflTransGen (Walks peers) (start fanOut) s) :
      Course o peers (start fanOut) s :=
    (Course.start (hbegun fanOut)
      (sound_begin h.sound hnew fanOut members payload wait seen)).run (hbegun fanOut) hrun
  refine ⟨fun fanOut fanOut' s s' hrun hrun' hover hover' => ?_, fun f => ?_,
    fun hfree fanOut s hrun => ?_⟩
  · have hagrees := agrees_of_over
      (sameStart_begin peers o.pool fanOut fanOut' n members payload wait seen)
      (hcourse hrun) (hcourse hrun') hover hover'
    exact ⟨hagrees, hagrees.report⟩
  · have := IsWellFounded.mk (wellFounded_walks peers)
    exact WellFounded.not_rel_apply_succ (r := fun s' s => Walks peers s s') f
  · refine (hcourse hrun).exists_over (hbegun fanOut) fun i d hd => ?_
    exact line_visit_begin (hfree _ (mem_of_begin h.sound (List.mem_of_getElem? hd)))

/-- A mailing to two members of which one cannot be reached. -/
theorem fan_outs_agree_of_two_members :
    let reached : Member := { id := ⟨1⟩, host := "first", port := 7000 }
    let lost : Member := { id := ⟨2⟩, host := "second", port := 7000 }
    let o : Office := { pool := { settings := {}, self := .of ⟨3⟩ "third" 7000 } }
    let peers : MemberId → Peer := fun id _ q => match q with
      | .dial .. => if id = reached.id then .connected ⟨0⟩ else .timedOut
      | .write .. => .ok ()
      | .read .. => .timedOut
      | .close _ | .mark _ => ()
      | .clock => (0 : Nat)
    let start fanOut := begin o.pool fanOut 0 [lost, reached] "hello".toUTF8 false fun _ => []
    ∃ s s', Relation.ReflTransGen (Walks peers) (start .sequential) s ∧
      Relation.ReflTransGen (Walks peers) (start .parallel) s' ∧ s.mailing.isOver = true ∧
      s'.mailing.isOver = true ∧ s.Agrees s' := by
  intro reached lost o peers start
  have hreached : o.Reached := ⟨_, _, _, .refl⟩
  have hdistinct : ([lost, reached].map Member.id).Nodup := by decide
  obtain ⟨hagree, -, hends⟩ := fan_outs_agree (n := 0) hreached rfl hdistinct "hello".toUTF8 false
    peers fun _ => []
  have hfree : ∀ m ∈ [lost, reached], ∀ c, o.pool.current.get? m.id = some c →
      o.pool.isFree c = true := nofun
  obtain ⟨s, hrun, hover⟩ := hends hfree .sequential _ .refl
  obtain ⟨s', hrun', hover'⟩ := hends hfree .parallel _ .refl
  exact ⟨s, s', hrun, hrun', hover, hover', (hagree _ _ s s' hrun hrun' hover hover').1⟩

end Errand

end PeerCluster
