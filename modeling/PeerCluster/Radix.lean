/-!
# Digits of fixed width

A number written with a fixed count of digits in some base, most significant digit first. Words on
the wire are digits in base 256 and member ids are shown as digits in base 16, so both formats rest
on the two functions here.

* `digits` writes the last `width` digits of a number, and `value` reads digits back.
* `value_digits`: a number below `base ^ width` reads back as itself.
* `digits_value`: digits below the base are written back as themselves.
-/

namespace PeerCluster.Radix

/-- The last `width` digits of `n` in base `base`, most significant first. -/
def digits (base : Nat) : (width : Nat) → (n : Nat) → List Nat
  | 0, _ => []
  | width + 1, n => digits base width (n / base) ++ [n % base]

/-- The number that a list of digits denotes, most significant first. -/
def value (base : Nat) (ds : List Nat) : Nat :=
  ds.foldl (fun n d => n * base + d) 0

@[simp] theorem length_digits (base width n : Nat) : (digits base width n).length = width := by
  induction width generalizing n with
  | zero => rfl
  | succ w ih => simp [digits, ih]

theorem value_append_singleton (base : Nat) (ds : List Nat) (d : Nat) :
    value base (ds ++ [d]) = value base ds * base + d := by
  simp [value]

/-- A number that fits the width reads back as itself. -/
theorem value_digits {base width n : Nat} (h : n < Nat.pow base width) :
    value base (digits base width n) = n := by
  induction width generalizing n with
  | zero => simp [digits, value, Nat.lt_one_iff.1 h]
  | succ w ih =>
    have hdiv : n / base < Nat.pow base w :=
      Nat.div_lt_of_lt_mul (Nat.mul_comm .. ▸ h)
    rw [digits, value_append_singleton, ih hdiv, Nat.mul_comm]
    exact Nat.div_add_mod n base

theorem lt_of_mem_digits {base width n d : Nat} (hb : 0 < base) (h : d ∈ digits base width n) :
    d < base := by
  induction width generalizing n with
  | zero => simp [digits] at h
  | succ w ih =>
    rcases List.mem_append.1 h with h | h
    · exact ih h
    · rw [List.mem_singleton.1 h]; exact Nat.mod_lt _ hb

theorem value_lt {base : Nat} {ds : List Nat} (h : ∀ d ∈ ds, d < base) :
    value base ds < Nat.pow base ds.length := by
  induction hn : ds.length generalizing ds with
  | zero => simp [List.eq_nil_of_length_eq_zero hn, value]
  | succ n ih =>
    rcases List.eq_nil_or_concat ds with rfl | ⟨front, d, rfl⟩
    · simp at hn
    · rw [List.concat_eq_append] at h hn ⊢
      have hfront := ih (fun d hd => h d (List.mem_append_left _ hd)) (by simpa using hn)
      have hd : d < base := h d (by simp)
      rw [value_append_singleton]
      calc value base front * base + d < value base front * base + base := by omega
        _ = (value base front + 1) * base := by rw [Nat.succ_mul]
        _ ≤ Nat.pow base n * base := Nat.mul_le_mul_right _ hfront

/-- Digits below the base are written back as themselves. -/
theorem digits_value {base : Nat} {ds : List Nat} (h : ∀ d ∈ ds, d < base) :
    digits base ds.length (value base ds) = ds := by
  induction hn : ds.length generalizing ds with
  | zero => simp [List.eq_nil_of_length_eq_zero hn, digits]
  | succ n ih =>
    rcases List.eq_nil_or_concat ds with rfl | ⟨front, d, rfl⟩
    · simp at hn
    · rw [List.concat_eq_append] at h hn ⊢
      have hd : d < base := h d (by simp)
      have hpos : 0 < base := by omega
      have hfront := ih (fun d hd => h d (List.mem_append_left _ hd)) (by simpa using hn)
      rw [value_append_singleton, digits, Nat.mul_comm, Nat.mul_add_div hpos,
        Nat.div_eq_of_lt hd, Nat.mul_add_mod, Nat.mod_eq_of_lt hd, Nat.add_zero, hfront]

end PeerCluster.Radix
