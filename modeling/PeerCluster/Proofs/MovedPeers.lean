import PeerCluster.Proofs.DeliveryAddresses
import PeerCluster.Proofs.PeerAddresses

/-!
# Peers that have moved

A peer may advertise another host or another port from one heartbeat to the next. When it is looked up, the
pool compares the address that its courier goes to with the new one, and all that it compares is the texts
of the two addresses.

**Looking up** (`CourierPool.courierFor_eq_self_iff`, `CourierPool.replaces_courierFor`). A courier that is
busy is kept and nothing is compared. Any other one is kept if it goes to the address of the member, and a
new one replaces it if it does not (`CourierPool.Replaces`).

**Theorem (`Premises.moved_peers_get_new_couriers`).** Equal texts mean equal addresses, so no change of a
host or a port escapes the pool. A change that comes while the courier is busy is not lost either: whatever
happens in the meantime, the first look-up that finds the courier free replaces it, because a courier goes
to one address as long as it works (`Premises.Reached.destination?_of_moves`).
-/

namespace PeerCluster

open Relation (ReflTransGen)

/-! ## Looking up a peer -/

namespace CourierPool

variable {p : CourierPool} {c : CourierId} {d : Desk} {m target : Member}

/-- A new courier, which goes to the member and holds no connection, has taken the place of the courier
that the pool had for the peer. -/
structure Replaces (p : CourierPool) (c : CourierId) (m : Member) (r : CourierId × CourierPool) :
    Prop where
  new : p.desk? r.1 = none
  hired : r.2.desk? r.1 = some { courier := p.newcomer m }
  current : ∀ id, r.2.current.get? id = if id = m.id then some r.1 else p.current.get? id
  /-- The old courier lets go of its connection, unless somebody is still going to come to it. -/
  retired : ∃ d, p.desk? c = some d ∧
    r.2.desk? c = some (if d.holders = 0 then { d with courier := d.courier.dropped } else d) ∧
    r.2.released = (if d.holders = 0 then d.courier.link.toList else []) ++ p.released
  others : ∀ c', c' ≠ c → c' ≠ r.1 → r.2.desk? c' = p.desk? c'

theorem Replaces.ne {r : CourierId × CourierPool} (h : p.Replaces c m r) : r.1 ≠ c := by
  intro heq
  obtain ⟨d, hd, -⟩ := h.retired
  rw [← heq, h.new] at hd
  cases hd

theorem desk?_retire (hd : p.desk? c = some d) (c' : CourierId) :
    (p.retire c).desk? c' =
      if c' = c then some (if d.holders = 0 then { d with courier := d.courier.dropped } else d)
      else p.desk? c' := by
  by_cases hholders : d.holders = 0
  · have hretire : p.retire c = p.letGo c := by simp [retire, hd, hholders]
    rw [hretire, desk?_letGo, hd, if_pos hholders]
    rfl
  · have hretire : p.retire c = p := by simp [retire, hd, hholders]
    rw [hretire, if_neg hholders]
    split
    next heq => rw [heq, hd]
    next => rfl

theorem released_retire (hd : p.desk? c = some d) :
    (p.retire c).released =
      (if d.holders = 0 then d.courier.link.toList else []) ++ p.released := by
  by_cases hholders : d.holders = 0
  · simp [retire, hd, hholders, released_letGo, held?_of_desk hd]
  · simp [retire, hd, hholders]

theorem newcomer_retire (p : CourierPool) (c : CourierId) (m : Member) :
    (p.retire c).newcomer m = p.newcomer m := by
  rcases p.retire_cases c with h | h
  · rw [h, letGo]
    split <;> rfl
  · rw [h]

/-- Hiring a courier after another one has been retired. -/
theorem replaces_hire (hd : p.desk? c = some d) (m : Member) :
    p.Replaces c m ((p.retire c).hire m) := by
  let r := (p.retire c).hire m
  have hnew : (p.retire c).desk? r.1 = none := desk?_hired ..
  have hne : r.1 ≠ c := by
    intro heq
    rw [heq, desk?_retire hd, if_pos rfl] at hnew
    cases hnew
  have hbefore : ∀ c', c' ≠ r.1 → r.2.desk? c' = (p.retire c).desk? c' := by
    intro c' hc'
    exact (desk?_hire ..).trans (if_neg hc')
  constructor
  · rwa [desk?_retire hd, if_neg hne] at hnew
  · rw [← newcomer_retire p c]
    exact (desk?_hire ..).trans (if_pos rfl)
  · intro id
    have hcurrent : r.2.current = (p.retire c).current.insert m.id r.1 := rfl
    rw [hcurrent, MemberMap.get?_insert, (posted_retire p c).2]
  · refine ⟨d, hd, ?_, released_retire hd⟩
    rw [hbefore c hne.symm, desk?_retire hd, if_pos rfl]
  · intro c' hc hc'
    rw [hbefore c' hc', desk?_retire hd, if_neg hc]

/-- Comparing the texts of addresses is comparing the addresses. -/
theorem goesTo_iff_sameAddress (htarget : p.destination? c = some target) :
    p.goesTo c m.address = true ↔ target.SameAddress m := by
  obtain ⟨d, hd, rfl⟩ := exists_desk_of_destination htarget
  simp [goesTo_iff, hd, Member.address_eq_iff]

/-- A courier that is free and goes elsewhere is replaced. -/
theorem replaces_courierFor (hc : p.current.get? m.id = some c)
    (htarget : p.destination? c = some target) (hfree : p.isFree c = true)
    (haway : ¬ target.SameAddress m) : p.Replaces c m (p.courierFor m) := by
  obtain ⟨d, hd, -⟩ := exists_desk_of_destination htarget
  rw [← goesTo_iff_sameAddress htarget] at haway
  have hfound : p.courierFor m = (p.retire c).hire m := by simp [courierFor, hc, hfree, haway]
  rw [hfound]
  exact replaces_hire hd m

/-- A courier is kept exactly if it is busy or goes to the address of the member. -/
theorem courierFor_eq_self_iff (hc : p.current.get? m.id = some c)
    (htarget : p.destination? c = some target) :
    p.courierFor m = (c, p) ↔ p.isFree c = false ∨ target.SameAddress m := by
  constructor
  · intro hkept
    by_contra hnot
    simp only [not_or, Bool.not_eq_false] at hnot
    have hreplaces := replaces_courierFor hc htarget hnot.1 hnot.2
    rw [hkept] at hreplaces
    exact hreplaces.ne rfl
  · intro hwhy
    rw [← goesTo_iff_sameAddress htarget] at hwhy
    simp [courierFor, hc, hwhy]

end CourierPool

/-! ## Where couriers go in the meantime -/

namespace Premises

open Mailing

variable {f f' : Premises} {c : CourierId} {m : Member}

/-- Whatever happens, no courier is sent elsewhere. -/
theorem destination?_of_move (hmove : Moves f f') (h : f.Directed)
    (hm : f.office.pool.destination? c = some m) : f'.office.pool.destination? c = some m := by
  cases hmove with
  | happens hworks hrest _ =>
    exact (keepsCourse_of_works hworks hrest h.numbers).1.destinations c m hm
  | @steps n g place d phase pool hg hd hmove =>
    obtain ⟨d', hd', -, hmove⟩ := exists_move hmove nofun nofun
    obtain rfl := Option.some.inj (hd.symm.trans hd')
    have hbefore := h.deliveries _ d ((Office.delivery?_eq hg place).trans hd)
    suffices hdestinations : ∀ c m, f.office.pool.destination? c = some m →
        pool.destination? c = some m from hdestinations c m hm
    by_cases hphase : d.phase = .pending
    · have hpending : d.phase.Directed f.opened f.office.pool
          (f.office.pool.isBusy d.member.id) d.member := by
        rw [hphase]
        trivial
      exact (directed_of_steps hmove h.pool hpending fun _ => rfl).2.1
    · exact (directed_of_steps hmove h.pool hbefore fun hpending => absurd hpending hphase).2.1
  | asks | returns => exact hm
  | setsOut => exact (Sweeper.keepsCourse_setOut _).destinations c m hm
  | @sweeps n s now => exact (s.keepsCourse_goOn now ⟨n, 0⟩ _).destinations c m hm

theorem Reached.destination?_of_moves (h : f.Reached) (hmoves : ReflTransGen Moves f f')
    (hm : f.office.pool.destination? c = some m) : f'.office.pool.destination? c = some m := by
  induction hmoves with
  | refl => exact hm
  | tail hbefore hmove ih => exact destination?_of_move hmove (h.moves hbefore).directed ih

/-- **Theorem.** Two members show the same address exactly if their ports are equal, and their hosts are
equal or one of them is the other one in brackets, which has a colon and does not begin with a bracket.
When a peer is looked up, the courier that the pool has for it is kept exactly if it is busy or goes to
the address of the member. Otherwise a new courier replaces it, for every change of the host or the port.
A change that finds the courier busy is made up for: whatever happens in the meantime, the courier is
replaced when it is found free. -/
theorem moved_peers_get_new_couriers :
    (∀ m m' : Member, m.address = m'.address ↔
      m.port = m'.port ∧
        (m.host = m'.host ∨ Member.Brackets m.host m'.host ∨ Member.Brackets m'.host m.host)) ∧
    (∀ (p : CourierPool) (c : CourierId) (target m : Member),
      p.current.get? m.id = some c → p.destination? c = some target →
        (p.goesTo c m.address = true ↔ target.SameAddress m) ∧
        (p.courierFor m = (c, p) ↔ p.isFree c = false ∨ target.SameAddress m) ∧
        (p.isFree c = true → ¬ target.SameAddress m → p.Replaces c m (p.courierFor m))) ∧
    ∀ (f f' : Premises) (c : CourierId) (target m : Member),
      f.Reached → f.office.pool.destination? c = some target → ReflTransGen Moves f f' →
        f'.office.pool.current.get? m.id = some c → f'.office.pool.isFree c = true →
          ¬ target.SameAddress m →
            f'.office.pool.Replaces c m (f'.office.pool.courierFor m) := by
  refine ⟨fun _ _ => Member.address_eq_iff, ?_, ?_⟩
  · intro p c target m hc htarget
    exact ⟨CourierPool.goesTo_iff_sameAddress htarget, CourierPool.courierFor_eq_self_iff hc htarget,
      CourierPool.replaces_courierFor hc htarget⟩
  · intro f f' c target m hreached htarget hmoves hc hfree haway
    exact CourierPool.replaces_courierFor hc (hreached.destination?_of_moves hmoves htarget) hfree haway

/-- A peer whose host is a link-local address. -/
def linkLocal : Member :=
  { id := ⟨2⟩, host := "fe80::7", port := 4000 }

/-- A message to the peer is on its way. -/
def underWay : Premises :=
  let start : Premises :=
    { office := Office.begins
        { pool := { settings := { maxRetryAttempts := 0 }, self := Delivery.novice.self } }
        0 [linkLocal] "hello".toUTF8 false }
  start.stumbles 0 0 3

theorem reached_underWay : underWay.Reached :=
  (Reached.begins (f := { office := { pool := _ } }) ⟨_, _, _, .refl⟩ rfl (fun _ => rfl) ..).stumbles ..

/-- The peer moves while the message is on its way. Its courier is kept until the message is given up, and
for the same host in brackets also then, but not for the new address. -/
theorem moved_peers_get_new_couriers_of_link_local :
    let bracketed : Member := { linkLocal with host := "[fe80::7]" }
    let moved : Member := { linkLocal with host := "fe80::7:40", port := 0 }
    linkLocal.address = bracketed.address ∧ linkLocal.address ≠ moved.address ∧
    ∃ (f : Premises) (c : CourierId), ReflTransGen Moves underWay f ∧
      underWay.office.pool.isFree c = false ∧
      underWay.office.pool.courierFor moved = (c, underWay.office.pool) ∧
      f.office.pool.courierFor bracketed = (c, f.office.pool) ∧
      f.office.pool.Replaces c moved (f.office.pool.courierFor moved) := by
  intro bracketed moved
  have hsame : linkLocal.SameAddress bracketed := by decide
  have haway : ¬ linkLocal.SameAddress moved := by decide
  obtain ⟨haddress, hlooksUp, hlater⟩ := moved_peers_get_new_couriers
  have hmoves := moves_stumbles underWay 0 0 4
  have hhome : underWay.office.pool.destination? ⟨0⟩ = some linkLocal := rfl
  have hlast := reached_underWay.destination?_of_moves hmoves hhome
  have hbusy : underWay.office.pool.isFree ⟨0⟩ = false := rfl
  have hfree : (underWay.stumbles 0 0 4).office.pool.isFree ⟨0⟩ = true := rfl
  obtain ⟨-, hkept, -⟩ := hlooksUp _ ⟨0⟩ linkLocal moved rfl hhome
  obtain ⟨-, hkept', -⟩ := hlooksUp _ ⟨0⟩ linkLocal bracketed rfl hlast
  exact ⟨(haddress _ _).2 hsame, fun heq => haway ((haddress _ _).1 heq), _, ⟨0⟩, hmoves, hbusy,
    hkept.2 (.inl hbusy), hkept'.2 (.inr hsame),
    hlater _ _ ⟨0⟩ linkLocal moved reached_underWay hhome hmoves rfl hfree haway⟩

end Premises

end PeerCluster
