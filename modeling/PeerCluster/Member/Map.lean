import PeerCluster.Member.Id

/-!
# Tables keyed by member ids

A table holds at most one entry for an id and keeps its entries in the order of their ids, so two
tables that answer every look-up alike are equal.
-/

namespace PeerCluster

/-- A table with at most one entry for each id. -/
structure MemberMap (α : Type) where
  entries : List (MemberId × α)
  sorted : entries.Pairwise fun a b => a.1 < b.1 := by exact .nil

namespace MemberMap

variable {α : Type}

instance : Inhabited (MemberMap α) := ⟨⟨[], .nil⟩⟩

instance : EmptyCollection (MemberMap α) := ⟨⟨[], .nil⟩⟩

/-- Puts an entry in its place, in the place of an older one for the same id. -/
def insertEntry (id : MemberId) (a : α) : List (MemberId × α) → List (MemberId × α)
  | [] => [(id, a)]
  | (k, b) :: rest =>
    if id < k then (id, a) :: (k, b) :: rest
    else if k < id then (k, b) :: insertEntry id a rest
    else (id, a) :: rest

theorem fst_mem_insertEntry {id : MemberId} {a : α} {es : List (MemberId × α)} {e : MemberId × α}
    (h : e ∈ insertEntry id a es) : e.1 = id ∨ e ∈ es := by
  induction es with
  | nil => simp_all [insertEntry]
  | cons head rest ih =>
    obtain ⟨k, b⟩ := head
    simp only [insertEntry] at h
    split at h
    · rcases List.mem_cons.1 h with rfl | h
      · exact .inl rfl
      · exact .inr h
    · split at h
      · rcases List.mem_cons.1 h with rfl | h
        · exact .inr (by simp)
        · exact (ih h).imp_right fun h => List.mem_cons_of_mem _ h
      · rcases List.mem_cons.1 h with rfl | h
        · exact .inl rfl
        · exact .inr (List.mem_cons_of_mem _ h)

theorem sorted_insertEntry (id : MemberId) (a : α) {es : List (MemberId × α)}
    (h : es.Pairwise fun a b => a.1 < b.1) :
    (insertEntry id a es).Pairwise fun a b => a.1 < b.1 := by
  induction es with
  | nil => simp [insertEntry]
  | cons head rest ih =>
    obtain ⟨k, b⟩ := head
    obtain ⟨hk, hrest⟩ := List.pairwise_cons.1 h
    simp only [insertEntry]
    split
    · rename_i hlt
      refine List.pairwise_cons.2 ⟨fun e he => ?_, h⟩
      rcases List.mem_cons.1 he with rfl | he
      · exact hlt
      · exact MemberId.lt_trans hlt (hk e he)
    · rename_i hnot
      split
      · rename_i hlt
        refine List.pairwise_cons.2 ⟨fun e he => ?_, ih hrest⟩
        rcases fst_mem_insertEntry he with heq | he
        · exact heq ▸ hlt
        · exact hk e he
      · rename_i hnot'
        have heq : k = id := MemberId.eq_of_not_lt hnot' hnot
        subst heq
        exact List.pairwise_cons.2 ⟨hk, hrest⟩

/-- Adds an entry, in the place of an older one for the same id. -/
def insert (m : MemberMap α) (id : MemberId) (a : α) : MemberMap α :=
  ⟨insertEntry id a m.entries, sorted_insertEntry id a m.sorted⟩

/-- The entry for an id. -/
def get? (m : MemberMap α) (id : MemberId) : Option α :=
  m.entries.lookup id

/-- Whether there is an entry for an id. -/
def contains (m : MemberMap α) (id : MemberId) : Bool :=
  (m.get? id).isSome

/-- Keeps the entries that satisfy a test. -/
def filter (m : MemberMap α) (keep : MemberId → α → Bool) : MemberMap α :=
  ⟨m.entries.filter fun e => keep e.1 e.2, m.sorted.filter _⟩

/-- Takes the entry for an id out. -/
def erase (m : MemberMap α) (id : MemberId) : MemberMap α :=
  m.filter fun k _ => k != id

/-- How many entries there are. -/
def size (m : MemberMap α) : Nat :=
  m.entries.length

/-- Whether there is no entry. -/
def isEmpty (m : MemberMap α) : Bool :=
  m.entries.isEmpty

/-- The ids that have an entry, in order. -/
def keys (m : MemberMap α) : List MemberId :=
  m.entries.map Prod.fst

/-- What the entries hold, in the order of their ids. -/
def values (m : MemberMap α) : List α :=
  m.entries.map Prod.snd

/-! ## Looking up after a change -/

theorem lookup_cons (k l : MemberId) (b : α) (es : List (MemberId × α)) :
    List.lookup k ((l, b) :: es) = if k = l then some b else es.lookup k := by
  by_cases h : k = l
  · simp [h]
  · have hbeq : (k == l) = false := by simpa using h
    simp [List.lookup_cons, hbeq, h]

theorem lookup_insertEntry (id k : MemberId) (a : α) (es : List (MemberId × α)) :
    (insertEntry id a es).lookup k = if k = id then some a else es.lookup k := by
  induction es with
  | nil => rw [insertEntry, lookup_cons]
  | cons head rest ih =>
    obtain ⟨l, b⟩ := head
    simp only [insertEntry]
    split
    · rw [lookup_cons]
    · rename_i hnot
      split
      · rename_i hlt
        have hne : id ≠ l := fun h => MemberId.lt_irrefl id (h ▸ hlt)
        rw [lookup_cons, lookup_cons, ih]
        by_cases hk : k = l
        · simp [hk, hne.symm]
        · simp [hk]
      · rename_i hnot'
        obtain rfl : l = id := MemberId.eq_of_not_lt hnot' hnot
        rw [lookup_cons, lookup_cons]
        by_cases hk : k = l <;> simp [hk]

theorem lookup_eq_none {es : List (MemberId × α)} {k : MemberId} (h : ∀ e ∈ es, k < e.1) :
    es.lookup k = none := by
  rw [List.lookup_eq_none_iff]
  intro e he
  have hne : k ≠ e.1 := fun heq => MemberId.lt_irrefl k (heq ▸ h e he)
  simpa using hne

theorem lookup_filter (keep : MemberId → α → Bool) {es : List (MemberId × α)} (k : MemberId)
    (h : es.Pairwise fun a b => a.1 < b.1) :
    (es.filter fun e => keep e.1 e.2).lookup k = (es.lookup k).filter (keep k) := by
  induction es with
  | nil => rfl
  | cons head rest ih =>
    obtain ⟨l, b⟩ := head
    obtain ⟨hl, hrest⟩ := List.pairwise_cons.1 h
    rw [lookup_cons, List.filter_cons]
    by_cases hk : k = l
    · subst hk
      by_cases hkeep : keep k b
      · simp [hkeep, Option.filter]
      · simp [hkeep, ih hrest, lookup_eq_none hl, Option.filter]
    · by_cases hkeep : keep l b
      · simp [hkeep, lookup_cons, hk, ih hrest]
      · simp [hkeep, hk, ih hrest]

@[simp] theorem get?_empty (k : MemberId) : (∅ : MemberMap α).get? k = none := rfl

theorem get?_insert (m : MemberMap α) (id k : MemberId) (a : α) :
    (m.insert id a).get? k = if k = id then some a else m.get? k :=
  lookup_insertEntry id k a m.entries

theorem get?_filter (m : MemberMap α) (keep : MemberId → α → Bool) (k : MemberId) :
    (m.filter keep).get? k = (m.get? k).filter (keep k) :=
  lookup_filter keep k m.sorted

theorem get?_erase (m : MemberMap α) (id k : MemberId) :
    (m.erase id).get? k = if k = id then none else m.get? k := by
  rw [erase, get?_filter]
  by_cases h : k = id
  · cases m.get? k <;> simp [h, Option.filter]
  · cases m.get? k <;> simp [h, Option.filter]

/-- The entries are exactly what look-ups find. -/
theorem mem_entries {m : MemberMap α} {k : MemberId} {a : α} :
    (k, a) ∈ m.entries ↔ m.get? k = some a := by
  obtain ⟨es, hsorted⟩ := m
  show (k, a) ∈ es ↔ es.lookup k = some a
  induction es with
  | nil => simp
  | cons head rest ih =>
    obtain ⟨l, b⟩ := head
    obtain ⟨hl, hrest⟩ := List.pairwise_cons.1 hsorted
    rw [lookup_cons, List.mem_cons]
    by_cases hk : k = l
    · subst hk
      have hnot : (k, a) ∉ rest := fun h => MemberId.lt_irrefl k (hl _ h)
      simp [hnot, eq_comm]
    · simp [hk, ih hrest]

theorem map_snd_filter {es : List (MemberId × α)} (id : MemberId)
    (h : es.Pairwise fun a b => a.1 < b.1) :
    (es.filter fun e => e.1 = id).map Prod.snd = (es.lookup id).toList := by
  induction es with
  | nil => rfl
  | cons head rest ih =>
    obtain ⟨l, b⟩ := head
    obtain ⟨hl, hrest⟩ := List.pairwise_cons.1 h
    rw [lookup_cons, List.filter_cons]
    by_cases hid : id = l
    · subst hid
      have hnone := ih hrest
      rw [lookup_eq_none hl] at hnone
      simp [hnone]
    · simp [hid, Ne.symm hid, ih hrest]

/-- When every entry tells its own id, the entries that tell a given id are what the look-up of that
id finds. -/
theorem filter_values {m : MemberMap α} {key : α → MemberId}
    (h : ∀ k a, m.get? k = some a → key a = k) (id : MemberId) :
    m.values.filter (fun a => key a = id) = (m.get? id).toList := by
  have hentries : m.values.filter (fun a => key a = id) =
      (m.entries.filter fun e => e.1 = id).map Prod.snd := by
    rw [values, List.filter_map]
    refine congrArg _ (List.filter_congr fun e he => ?_)
    have hkey := h e.1 e.2 (mem_entries.1 he)
    simp [hkey]
  rw [hentries]
  exact map_snd_filter id m.sorted

end MemberMap

end PeerCluster
