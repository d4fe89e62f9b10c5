import PeerCluster.Radix

/-!
# Hexadecimal digits

The sixteen digits are shown in lower case and read in either case.
-/

namespace PeerCluster.Hex

/-- The lower-case digit for a value below sixteen. -/
def digit (n : Nat) : Char :=
  if n < 10 then Char.ofNat ('0'.toNat + n) else Char.ofNat ('a'.toNat + (n - 10))

/-- The value of a digit in either case. -/
def value? (c : Char) : Option Nat :=
  if '0' ≤ c ∧ c ≤ '9' then some (c.toNat - '0'.toNat)
  else if 'a' ≤ c ∧ c ≤ 'f' then some (c.toNat - 'a'.toNat + 10)
  else if 'A' ≤ c ∧ c ≤ 'F' then some (c.toNat - 'A'.toNat + 10)
  else none

/-- The last `width` hexadecimal digits of a number. -/
def ofNat (width n : Nat) : String :=
  String.ofList ((Radix.digits 16 width n).map digit)

/-- The number that a list of hexadecimal digits denotes, unless one of them is no digit. -/
def toNat? (cs : List Char) : Option Nat :=
  (cs.mapM value?).map (Radix.value 16)

/-- A number in hexadecimal without leading zeros. -/
def shortest (n : Nat) : String :=
  String.ofList (Nat.toDigits 16 n)

/-! ## Reading back -/

theorem value?_digit : ∀ n < 16, value? (digit n) = some n := by
  decide

theorem utf8Size_digit : ∀ n < 16, (digit n).utf8Size = 1 := by
  decide

/-- Digits are read back as their number. -/
theorem toNat?_map_digit {ds : List Nat} (h : ∀ d ∈ ds, d < 16) :
    toNat? (ds.map digit) = some (Radix.value 16 ds) := by
  have hdigits : (ds.map digit).mapM value? = some ds := by
    induction ds with
    | nil => rfl
    | cons d ds ih =>
      have hd := value?_digit d (h d (List.mem_cons_self ..))
      have hds := ih fun d' hd' => h d' (List.mem_cons_of_mem _ hd')
      rw [List.map_cons, List.mapM_cons, hd, hds]
      rfl
  rw [toNat?, hdigits]
  rfl

theorem toList_ofNat (width n : Nat) :
    (ofNat width n).toList = (Radix.digits 16 width n).map digit :=
  String.toList_ofList

/-- A text of characters of one byte has as many bytes as characters. -/
theorem utf8ByteSize_ofList {cs : List Char} (h : ∀ c ∈ cs, c.utf8Size = 1) :
    (String.ofList cs).utf8ByteSize = cs.length := by
  induction cs with
  | nil => rfl
  | cons c cs ih =>
    have hc := h c (List.mem_cons_self ..)
    have hcs := ih fun c' hc' => h c' (List.mem_cons_of_mem _ hc')
    rw [String.ofList_cons, String.utf8ByteSize_append, String.utf8ByteSize_singleton, hc, hcs,
      List.length_cons, Nat.add_comm]

/-- A text of so many digits has so many bytes. -/
theorem utf8ByteSize_ofNat (width n : Nat) : (ofNat width n).utf8ByteSize = width := by
  have hone : ∀ c ∈ (Radix.digits 16 width n).map digit, c.utf8Size = 1 := by
    intro c hc
    obtain ⟨d, hd, rfl⟩ := List.mem_map.1 hc
    exact utf8Size_digit d (Radix.lt_of_mem_digits (by decide) hd)
  rw [ofNat, utf8ByteSize_ofList hone, List.length_map, Radix.length_digits]

end PeerCluster.Hex
