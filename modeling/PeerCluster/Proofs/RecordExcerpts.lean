import Mathlib.Data.List.Basic
import Mathlib.Data.List.Perm.Basic
import PeerCluster.Json.Record
import PeerCluster.Settings.Excerpt

/-!
# Reading a record from an excerpt

A record is read field by field, and a field that is left out has its default.

**Theorem (`Gives.withDefault`).** From an object that gives the kept ones of some fields, in any order and
among other keys, each field is read as what its value says if it is kept, and as its default otherwise.

The known fields of the object are the kept ones in some order (`exists_gives`), and in a list without
repeated keys the order is nothing to what is found under a key (`lookup_eq_of_perm`).
-/

namespace PeerCluster.Json

/-! ## Looking up -/

theorem lookup_eq_some_iff_mem {l : List (String × Json)} (h : (l.map Prod.fst).Nodup) {key : String}
    {v : Json} : l.lookup key = some v ↔ (key, v) ∈ l := by
  induction l with
  | nil => exact iff_of_false nofun nofun
  | cons f l ih =>
    obtain ⟨key', v'⟩ := f
    rw [List.map_cons, List.nodup_cons] at h
    rw [List.lookup_cons, List.mem_cons, Prod.mk.injEq]
    by_cases hkey : key = key'
    · subst hkey
      have hnot : (key, v) ∉ l := fun hmem => h.1 (List.mem_map.2 ⟨(key, v), hmem, rfl⟩)
      rw [beq_self_eq_true]
      simp only [Option.some.injEq, hnot, or_false, true_and, eq_comm]
    · rw [beq_false_of_ne hkey]
      simp only [ih h.2, hkey, false_and, false_or]

/-- Without repeated keys the order is nothing to what is found under a key. -/
theorem lookup_eq_of_perm {l l' : List (String × Json)} (hperm : l.Perm l')
    (h : (l'.map Prod.fst).Nodup) (key : String) : l.lookup key = l'.lookup key := by
  have h' : (l.map Prod.fst).Nodup := (hperm.map Prod.fst).nodup_iff.2 h
  ext v
  rw [lookup_eq_some_iff_mem h, lookup_eq_some_iff_mem h']
  exact hperm.mem_iff

/-! ## The known fields of an object -/

theorem knownFields?_record {keys : List String} {given entries : List (String × Json)}
    (h : ((given.reverse ++ entries.filter fun f => f.1 ∈ keys).map Prod.fst).Nodup) :
    knownFields? keys given (entries.map fun f => (some f.1, f.2)) =
      some (given.reverse ++ entries.filter fun f => f.1 ∈ keys) := by
  induction entries generalizing given with
  | nil =>
    rw [List.map_nil, knownFields?, List.filter_nil, List.append_nil]
  | cons f entries ih =>
    rw [List.map_cons, knownFields?]
    split
    next hknown =>
      have hfilter : (f :: entries).filter (fun f => f.1 ∈ keys) =
          f :: entries.filter fun f => f.1 ∈ keys := List.filter_cons_of_pos (decide_eq_true hknown)
      have hmove : given.reverse ++ (f :: entries).filter (fun f => f.1 ∈ keys) =
          (f :: given).reverse ++ entries.filter fun f => f.1 ∈ keys := by
        rw [hfilter, List.reverse_cons, List.append_assoc, List.singleton_append]
      have hnew : (given.any fun g => g.1 == f.1) = false := by
        rw [hfilter, List.map_append, List.nodup_append] at h
        rw [List.any_eq_false]
        intro g hg
        rw [beq_iff_eq]
        exact h.2.2 g.1 (List.mem_map_of_mem (List.mem_reverse.2 hg)) f.1 List.mem_cons_self
      rw [hnew, hmove]
      exact ih (hmove ▸ h)
    next hunknown =>
      have hfilter : (f :: entries).filter (fun f => f.1 ∈ keys) =
          entries.filter fun f => f.1 ∈ keys := List.filter_cons_of_neg (by simpa using hunknown)
      rw [hfilter] at h ⊢
      exact ih h

/-- What is given of some fields: the kept ones, in some order. -/
structure Gives (g : Given) (fields : List (String × Json)) (keep : String → Bool) : Prop where
  perm : g.Perm (fields.filter fun f => keep f.1)
  nodup : (fields.map Prod.fst).Nodup

/-- An excerpt gives the kept fields. -/
theorem exists_gives {fields : List (String × Json)} {keep : String → Bool} {v : Json}
    (h : Excerpt fields keep v) (hnodup : (fields.map Prod.fst).Nodup) :
    ∃ g, given? (fields.map Prod.fst) v = some g ∧ Gives g fields keep := by
  obtain ⟨entries, others, rfl, hperm, hothers⟩ := h
  have hkept : ∀ f ∈ fields.filter (fun f => keep f.1), f.1 ∈ fields.map Prod.fst := fun f hf =>
    List.mem_map_of_mem (List.mem_of_mem_filter hf)
  have hknown : (entries.filter fun f => f.1 ∈ fields.map Prod.fst).Perm
      (fields.filter fun f => keep f.1) := by
    have hall : (fields.filter fun f => keep f.1).filter (fun f => f.1 ∈ fields.map Prod.fst) =
        fields.filter fun f => keep f.1 :=
      List.filter_eq_self.2 fun f hf => decide_eq_true (hkept f hf)
    have hnone : others.filter (fun f => f.1 ∈ fields.map Prod.fst) = [] :=
      List.filter_eq_nil_iff.2 fun f hf => by rw [decide_eq_true_eq]; exact hothers f hf
    have hfilter := hperm.filter fun f => f.1 ∈ fields.map Prod.fst
    rw [List.filter_append, hall, hnone, List.append_nil] at hfilter
    exact hfilter
  have hsub : ((fields.filter fun f => keep f.1).map Prod.fst).Nodup :=
    hnodup.sublist (List.filter_sublist.map _)
  refine ⟨_, knownFields?_record ?_, ?_, hnodup⟩
  · rw [List.reverse_nil, List.nil_append]
    exact (hknown.map Prod.fst).nodup_iff.2 hsub
  · exact hknown

/-- A field is read as what its value says if it is kept, and as its default otherwise. -/
theorem Gives.withDefault {α : Type} {g : Given} {fields : List (String × Json)} {keep : String → Bool}
    (h : Gives g fields keep) (key : String) {v : Json} {read : Json → Option α} {a : α}
    (hread : read v = some a) (hmem : (key, v) ∈ fields) (d : α) :
    g.withDefault key read d = some (if keep key then a else d) := by
  have hsub : ((fields.filter fun f => keep f.1).map Prod.fst).Nodup :=
    h.nodup.sublist (List.filter_sublist.map _)
  rw [Given.withDefault, lookup_eq_of_perm h.perm hsub]
  split
  next v' hlookup =>
    obtain ⟨hmem', hkeep⟩ := List.mem_filter.1 ((lookup_eq_some_iff_mem hsub).1 hlookup)
    have hv : v' = v := by
      have hfirst := (lookup_eq_some_iff_mem h.nodup).2 hmem
      rw [(lookup_eq_some_iff_mem h.nodup).2 hmem'] at hfirst
      exact Option.some.inj hfirst
    rw [if_pos hkeep, hv, hread]
  next hlookup =>
    cases hkeep : keep key with
    | false => rw [if_neg nofun]
    | true =>
      have hfound := (lookup_eq_some_iff_mem hsub).2 (List.mem_filter.2 ⟨hmem, hkeep⟩)
      rw [hlookup] at hfound
      cases hfound

/-- A whole record is an excerpt of itself. -/
theorem excerpt_record (fields : List (String × Json)) : Excerpt fields (fun _ => true) (record fields) := by
  refine ⟨fields, [], rfl, ?_, nofun⟩
  rw [List.append_nil, List.filter_true]

/-! ## Reading fields -/

theorem bool?_bool (b : Bool) : bool? (.bool b) = some b :=
  rfl

theorem text?_text (s : String) : text? (.text s) = some s :=
  rfl

theorem below?_natural {bound n : Nat} (h : n < bound) : below? bound (.natural n) = some n :=
  if_pos h

theorem word16?_natural (n : UInt16) : word16? (.natural n.toNat) = some n := by
  rw [word16?, below?_natural n.toNat_lt]
  simp

theorem word32?_natural (n : UInt32) : word32? (.natural n.toNat) = some n := by
  rw [word32?, below?_natural n.toNat_lt]
  simp

theorem word64?_natural (n : UInt64) : word64? (.natural n.toNat) = some n := by
  rw [word64?, below?_natural n.toNat_lt]
  simp

/-- What may be absent is read back, if it is never written as `null` when it is there. -/
theorem nullable?_optional {α : Type} {read : Json → Option α} {write : α → Json}
    (hread : ∀ a, read (write a) = some a) (hnull : read .null = none) (o : Option α) :
    nullable? read (.optional write o) = some o := by
  cases o with
  | none => rfl
  | some a =>
    have hwrite : write a ≠ .null := fun h => by
      have ha := hread a
      rw [h, hnull] at ha
      cases ha
    rw [optional, nullable?.eq_2 _ _ hwrite, hread]
    rfl

theorem named?_text {α : Type} {read : String → Option α} {text : String} {a : α}
    (h : read text = some a) : named? read (.text text) = some a :=
  h

end PeerCluster.Json
