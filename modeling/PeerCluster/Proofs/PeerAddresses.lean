import PeerCluster.Member

/-!
# The addresses of peers and their texts

The text of an address is the host, a colon and the digits of the port. Any text may be a host, also one
with colons, digits and brackets of its own. A host with a colon is shown in brackets, unless it begins
with one.

**Theorem (`Member.address_eq_iff`).** Two members show the same address exactly if they have the same one
(`Member.SameAddress`): their ports are equal, and their hosts are equal or one of them is the other one
in its brackets.

* *The port* (`append_cons_inj_of_not_mem`): no digit is a colon, so whatever the host holds, the last colon
  of the text is the one before the port.
* *The host* (`Member.shownHost_eq_iff`): what begins with a bracket is shown as it is. So a host is shown
  like another one only if it is what that one looks like in brackets.
-/

namespace PeerCluster

section

variable {α : Type} {a : α} {front front' back back' : List α}

/-- A longer front would end with a piece of the back that holds the element. -/
theorem length_front_le (hback : a ∉ back) (h : front ++ a :: back = front' ++ a :: back') :
    front'.length ≤ front.length := by
  rcases List.append_eq_append_iff.1 h with ⟨more, rfl, hrest⟩ | ⟨more, rfl, -⟩
  · cases more with
    | nil => simp
    | cons b more =>
      simp only [List.cons_append, List.cons.injEq] at hrest
      exact absurd (by simp [hrest.2]) hback
  · simp

/-- Lists that are cut at the last place of an element. -/
theorem append_cons_inj_of_not_mem (hback : a ∉ back) (hback' : a ∉ back') :
    front ++ a :: back = front' ++ a :: back' ↔ front = front' ∧ back = back' := by
  constructor
  · intro h
    have hlength := Nat.le_antisymm (length_front_le hback' h.symm) (length_front_le hback h)
    obtain ⟨hfront, hrest⟩ := List.append_inj h hlength
    exact ⟨hfront, List.tail_eq_of_cons_eq hrest⟩
  · rintro ⟨rfl, rfl⟩
    rfl

end

theorem toDigits_ten_inj {n n' : Nat} : Nat.toDigits 10 n = Nat.toDigits 10 n' ↔ n = n' := by
  constructor
  · intro h
    have hread := congrArg (fun digits => Nat.ofDigitChars 10 digits 0) h
    simpa using hread
  · rintro rfl
    rfl

theorem colon_not_mem_toDigits (n : Nat) : ':' ∉ Nat.toDigits 10 n := by
  intro h
  have hdigit := Nat.isDigit_of_mem_toDigits (by decide) (by decide) h
  simp at hdigit

namespace Member

/-! ## The same address -/

/-- One host is another one in brackets, which the other one needs in front of a port. -/
def Brackets (host bracketed : String) : Prop :=
  ':' ∈ host.toList ∧ host.toList.head? ≠ some '[' ∧ bracketed = "[" ++ host ++ "]"

instance (host bracketed : String) : Decidable (Brackets host bracketed) :=
  inferInstanceAs (Decidable (_ ∧ _))

/-- Two members have the same address: the same port, and hosts that differ in brackets at most. -/
def SameAddress (m m' : Member) : Prop :=
  m.port = m'.port ∧
    (m.host = m'.host ∨ Brackets m.host m'.host ∨ Brackets m'.host m.host)

instance (m m' : Member) : Decidable (m.SameAddress m') :=
  inferInstanceAs (Decidable (_ ∧ _))

/-! ## Hosts -/

/-- A host as it is shown in an address. -/
def shownHost (host : String) : String :=
  if needsBrackets host then "[" ++ host ++ "]" else host

theorem needsBrackets_iff {host : String} :
    needsBrackets host = true ↔ ':' ∈ host.toList ∧ host.toList.head? ≠ some '[' := by
  simp [needsBrackets]

/-- What stands in brackets already needs no more of them. -/
theorem needsBrackets_bracketed (host : String) : needsBrackets ("[" ++ host ++ "]") = false := by
  simp [needsBrackets]

theorem ne_bracketed {host : String} (hneeds : needsBrackets host = true) (other : String) :
    host ≠ "[" ++ other ++ "]" := by
  rintro rfl
  simp [needsBrackets_bracketed] at hneeds

theorem brackets_iff {host host' : String} :
    Brackets host host' ↔ needsBrackets host = true ∧ host' = "[" ++ host ++ "]" := by
  rw [Brackets, needsBrackets_iff, and_assoc]

theorem shownHost_eq_iff {host host' : String} :
    shownHost host = shownHost host' ↔
      host = host' ∨ Brackets host host' ∨ Brackets host' host := by
  rw [brackets_iff, brackets_iff, shownHost, shownHost]
  -- Of two hosts that are shown alike only one can need brackets, unless they are the same.
  by_cases hneeds : needsBrackets host = true <;> by_cases hneeds' : needsBrackets host' = true
  · simp [hneeds, hneeds', ne_bracketed hneeds, ne_bracketed hneeds']
  · have hne : host ≠ host' := by
      rintro rfl
      exact hneeds' hneeds
    simp [hneeds, hneeds', hne, eq_comm]
  · have hne : host ≠ host' := by
      rintro rfl
      exact hneeds hneeds'
    simp [hneeds, hneeds', hne]
  · simp [hneeds, hneeds']

/-! ## Addresses -/

theorem toList_address (m : Member) :
    m.address.toList = (shownHost m.host).toList ++ ':' :: Nat.toDigits 10 m.port.toNat := by
  simp [address, shownHost, Nat.toList_repr]

/-- Members show the same address exactly if they have the same one. -/
theorem address_eq_iff {m m' : Member} : m.address = m'.address ↔ m.SameAddress m' := by
  calc m.address = m'.address
      ↔ (shownHost m.host).toList ++ ':' :: Nat.toDigits 10 m.port.toNat =
          (shownHost m'.host).toList ++ ':' :: Nat.toDigits 10 m'.port.toNat := by
        rw [← String.toList_inj, toList_address, toList_address]
    _ ↔ shownHost m.host = shownHost m'.host ∧ m.port = m'.port := by
        rw [append_cons_inj_of_not_mem (colon_not_mem_toDigits _) (colon_not_mem_toDigits _),
          String.toList_inj, toDigits_ten_inj, UInt16.toNat_inj]
    _ ↔ m.SameAddress m' := by
        rw [shownHost_eq_iff, SameAddress, and_comm]

/-- A host may be advertised with its brackets or without them. -/
example : ({ id := ⟨1⟩, host := "::1", port := 4000 } : Member).SameAddress
    { id := ⟨1⟩, host := "[::1]", port := 4000 } := by decide

end Member

end PeerCluster
