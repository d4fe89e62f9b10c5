import PeerCluster.Radix

/-!
# Big-endian words

A word of `width` bytes, most significant byte first, as it stands on the wire.
-/

namespace PeerCluster.BigEndian

/-- The last `width` bytes of a number, most significant first. -/
def bytes (width n : Nat) : List UInt8 :=
  (Radix.digits 256 width n).map Nat.toUInt8

/-- The number that a list of bytes denotes, most significant first. -/
def value (bs : List UInt8) : Nat :=
  Radix.value 256 (bs.map UInt8.toNat)

@[simp] theorem length_bytes (width n : Nat) : (bytes width n).length = width := by
  simp [bytes]

/-- A number that fits the width reads back as itself. -/
theorem value_bytes {width n : Nat} (h : n < Nat.pow 256 width) :
    value (bytes width n) = n := by
  have hmap : (Radix.digits 256 width n).map (UInt8.toNat ∘ Nat.toUInt8) =
      (Radix.digits 256 width n).map id := by
    refine List.map_congr_left fun d hd => ?_
    have hlt : d < 256 := Radix.lt_of_mem_digits (by decide) hd
    simp [Nat.mod_eq_of_lt hlt]
  rw [value, bytes, List.map_map, hmap, List.map_id, Radix.value_digits h]

theorem lt_of_mem_map_toNat (bs : List UInt8) {d : Nat} (h : d ∈ bs.map UInt8.toNat) :
    d < 256 := by
  obtain ⟨b, -, rfl⟩ := List.mem_map.1 h
  exact b.toNat_lt

theorem value_lt (bs : List UInt8) : value bs < Nat.pow 256 bs.length := by
  have h := Radix.value_lt fun d => lt_of_mem_map_toNat bs
  rwa [List.length_map] at h

/-- Bytes are written back as themselves. -/
theorem bytes_value (bs : List UInt8) : bytes bs.length (value bs) = bs := by
  have h := Radix.digits_value fun d => lt_of_mem_map_toNat bs
  rw [List.length_map] at h
  rw [bytes, value, h, List.map_map]
  exact List.map_id'' (fun b => by simp) bs

/-- Bytes denote a number of their width exactly if they are its bytes. -/
theorem value_eq_iff {width n : Nat} {bs : List UInt8} (h : bs.length = width) :
    value bs = n ↔ n < Nat.pow 256 width ∧ bs = bytes width n := by
  subst h
  constructor
  · intro heq
    subst heq
    exact ⟨value_lt bs, (bytes_value bs).symm⟩
  · intro hall
    rcases hall with ⟨hn, hbs⟩
    rw [hbs]
    exact value_bytes hn

end PeerCluster.BigEndian
