import PeerCluster.Mailing
import Mathlib.Logic.Function.Basic

/-!
# Standing in line

**The invariant** (`InLine`). The line for a courier is made up of exactly the deliveries that stand
in it, and the one that is being served is in front.

**Changes.** A delivery may change in place (`InLine.stays`), join the end of a line
(`InLine.joins`), and leave it from the front (`InLine.leaves`).
-/

namespace PeerCluster

/-- Whether a delivery stands in line for a courier, or is being served by it. -/
def Mailing.Phase.StandsAt : Mailing.Phase → CourierId → Prop
  | .queued c, c' => c = c'
  | .served c _, c' => c = c'
  | _, _ => False

section Lines

variable {delivery? delivery?' : Ticket → Option Mailing.Delivery} {line : CourierId → List Ticket}
  {t : Ticket} {d d' : Mailing.Delivery} {c : CourierId}

/-- The lines are made up of the deliveries that stand in them, and the one that is being served is
in front. -/
structure InLine (delivery? : Ticket → Option Mailing.Delivery) (line : CourierId → List Ticket) :
    Prop where
  nodup : ∀ c, (line c).Nodup
  known : ∀ c, ∀ t ∈ line c, ∃ d, delivery? t = some d ∧ d.phase.StandsAt c
  stands : ∀ t d c, delivery? t = some d → d.phase.StandsAt c → t ∈ line c
  served : ∀ t d c rest, delivery? t = some d → d.phase = .served c rest →
    (line c).head? = some t

/-- Only the deliveries that stand in line matter. -/
theorem InLine.of_standing (h : InLine delivery? line)
    (hstays : ∀ t d c, delivery? t = some d → d.phase.StandsAt c → delivery?' t = some d)
    (hstood : ∀ t d c, delivery?' t = some d → d.phase.StandsAt c → delivery? t = some d) :
    InLine delivery?' line where
  nodup := h.nodup
  known c t ht := by
    obtain ⟨d, hd, hstands⟩ := h.known c t ht
    exact ⟨d, hstays t d c hd hstands, hstands⟩
  stands t d c hd hstands := h.stands t d c (hstood t d c hd hstands) hstands
  served t d c rest hd hphase :=
    h.served t d c rest (hstood t d c hd (by rw [hphase]; rfl)) hphase

/-- A delivery changes in place. -/
theorem InLine.stays (h : InLine delivery? line) (hd : delivery? t = some d)
    (hsame : ∀ c, d'.phase.StandsAt c ↔ d.phase.StandsAt c)
    (hserved : ∀ c rest, d'.phase = .served c rest → (line c).head? = some t) :
    InLine (Function.update delivery? t (some d')) line where
  nodup := h.nodup
  known c t' ht' := by
    obtain ⟨d₁, hd₁, hstands⟩ := h.known c t' ht'
    by_cases heq : t' = t
    · subst heq
      obtain rfl := Option.some.inj (hd.symm.trans hd₁)
      exact ⟨d', Function.update_self .., (hsame c).2 hstands⟩
    · exact ⟨d₁, (Function.update_of_ne heq ..).trans hd₁, hstands⟩
  stands t' d₁ c hd₁ hstands := by
    by_cases heq : t' = t
    · subst heq
      rw [Function.update_self] at hd₁
      obtain rfl := Option.some.inj hd₁
      exact h.stands t' d c hd ((hsame c).1 hstands)
    · rw [Function.update_of_ne heq] at hd₁
      exact h.stands t' d₁ c hd₁ hstands
  served t' d₁ c rest hd₁ hphase := by
    by_cases heq : t' = t
    · subst heq
      rw [Function.update_self] at hd₁
      obtain rfl := Option.some.inj hd₁
      exact hserved c rest hphase
    · rw [Function.update_of_ne heq] at hd₁
      exact h.served t' d₁ c rest hd₁ hphase

/-- A delivery joins the end of a line. -/
theorem InLine.joins (h : InLine delivery? line) (hd : delivery? t = some d)
    (hnot : ∀ c, ¬d.phase.StandsAt c) (hphase : d'.phase = .queued c) :
    InLine (Function.update delivery? t (some d')) (Function.update line c (line c ++ [t])) where
  nodup c' := by
    by_cases heq : c' = c
    · subst heq
      rw [Function.update_self]
      refine List.nodup_append.2 ⟨h.nodup c', List.pairwise_singleton _ t, fun t' ht' u hu htu => ?_⟩
      rw [List.mem_singleton.1 hu] at htu
      obtain ⟨d₁, hd₁, hstands⟩ := h.known c' t' ht'
      rw [htu, hd] at hd₁
      exact hnot c' (Option.some.inj hd₁ ▸ hstands)
    · rw [Function.update_of_ne heq]
      exact h.nodup c'
  known c' t' ht' := by
    have hmem : t' ∈ line c' ∨ c' = c ∧ t' = t := by
      by_cases heq : c' = c
      · subst heq
        rw [Function.update_self, List.mem_append, List.mem_singleton] at ht'
        exact ht'.imp_right fun h => ⟨rfl, h⟩
      · rw [Function.update_of_ne heq] at ht'
        exact .inl ht'
    rcases hmem with hmem | ⟨rfl, rfl⟩
    · obtain ⟨d₁, hd₁, hstands⟩ := h.known c' t' hmem
      have hne : t' ≠ t := by
        rintro rfl
        rw [hd] at hd₁
        exact hnot c' (Option.some.inj hd₁ ▸ hstands)
      exact ⟨d₁, (Function.update_of_ne hne ..).trans hd₁, hstands⟩
    · refine ⟨d', Function.update_self .., ?_⟩
      rw [hphase]
      rfl
  stands t' d₁ c' hd₁ hstands := by
    by_cases heq : t' = t
    · subst heq
      rw [Function.update_self] at hd₁
      obtain rfl := Option.some.inj hd₁
      rw [hphase] at hstands
      obtain rfl : c = c' := hstands
      rw [Function.update_self]
      exact List.mem_append_right _ (List.mem_singleton_self t')
    · rw [Function.update_of_ne heq] at hd₁
      have hmem := h.stands t' d₁ c' hd₁ hstands
      by_cases hc : c' = c
      · subst hc
        rw [Function.update_self]
        exact List.mem_append_left _ hmem
      · rwa [Function.update_of_ne hc]
  served t' d₁ c' rest hd₁ hphase' := by
    by_cases heq : t' = t
    · subst heq
      rw [Function.update_self] at hd₁
      obtain rfl := Option.some.inj hd₁
      rw [hphase] at hphase'
      cases hphase'
    · rw [Function.update_of_ne heq] at hd₁
      have hhead := h.served t' d₁ c' rest hd₁ hphase'
      by_cases hc : c' = c
      · subst hc
        rw [Function.update_self, List.head?_append, hhead]
        rfl
      · rwa [Function.update_of_ne hc]

/-- The delivery in front of a line leaves it. -/
theorem InLine.leaves {rest : Exchange (Except DeliveryError Unit × Courier)}
    (h : InLine delivery? line) (hd : delivery? t = some d) (hphase : d.phase = .served c rest)
    (hnot : ∀ c, ¬d'.phase.StandsAt c) :
    InLine (Function.update delivery? t (some d')) (Function.update line c (line c).tail) := by
  obtain ⟨behind, hline⟩ := List.head?_eq_some_iff.1 (h.served t d c rest hd hphase)
  have hnodup := h.nodup c
  rw [hline] at hnodup ⊢
  obtain ⟨hfront, hbehind⟩ := List.nodup_cons.1 hnodup
  -- Nobody else has gone.
  have hothers : ∀ c' t', t' ∈ Function.update line c behind c' ↔ t' ∈ line c' ∧ t' ≠ t := by
    intro c' t'
    by_cases hc : c' = c
    · subst hc
      rw [Function.update_self, hline, List.mem_cons]
      constructor
      · exact fun hmem => ⟨.inr hmem, fun heq => hfront (heq ▸ hmem)⟩
      · exact fun hmem => hmem.1.resolve_left hmem.2
    · rw [Function.update_of_ne hc]
      refine ⟨fun hmem => ⟨hmem, ?_⟩, And.left⟩
      rintro rfl
      obtain ⟨d₁, hd₁, hstands⟩ := h.known c' t' hmem
      obtain rfl := Option.some.inj (hd.symm.trans hd₁)
      rw [hphase] at hstands
      exact hc hstands.symm
  rw [List.tail_cons]
  refine ⟨fun c' => ?_, fun c' t' ht' => ?_, fun t' d₁ c' hd₁ hstands => ?_,
    fun t' d₁ c' rest' hd₁ hphase' => ?_⟩
  · by_cases hc : c' = c
    · subst hc
      rwa [Function.update_self]
    · rw [Function.update_of_ne hc]
      exact h.nodup c'
  · obtain ⟨hmem, hne⟩ := (hothers c' t').1 ht'
    obtain ⟨d₁, hd₁, hstands⟩ := h.known c' t' hmem
    exact ⟨d₁, (Function.update_of_ne hne ..).trans hd₁, hstands⟩
  · by_cases heq : t' = t
    · subst heq
      rw [Function.update_self] at hd₁
      exact absurd (Option.some.inj hd₁ ▸ hstands) (hnot c')
    · rw [Function.update_of_ne heq] at hd₁
      exact (hothers c' t').2 ⟨h.stands t' d₁ c' hd₁ hstands, heq⟩
  · by_cases heq : t' = t
    · subst heq
      rw [Function.update_self] at hd₁
      refine absurd ?_ (hnot c')
      rw [Option.some.inj hd₁, hphase']
      rfl
    · rw [Function.update_of_ne heq] at hd₁
      have hhead := h.served t' d₁ c' rest' hd₁ hphase'
      by_cases hc : c' = c
      · subst hc
        rw [hline] at hhead
        exact absurd (Option.some.inj hhead).symm heq
      · rwa [Function.update_of_ne hc]

end Lines

end PeerCluster
