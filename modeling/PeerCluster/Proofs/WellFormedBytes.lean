import PeerCluster.Text.Utf8

/-!
# The bytes of a text are well formed

**Theorem (`fault_encode`).** No fault is found in the bytes of a text.

A character has one to four bytes, and in each case the first of them is in the range for that many
(`front_two`, `front_three`, `front_four`). The range for the second byte leaves out what no character
has: bytes that are longer than need be, halves of surrogate pairs, and code points that are too large
(`isSecond_ofNat`).
-/

namespace PeerCluster.Utf8

theorem isTail_ofNat (n : Nat) : isTail (UInt8.ofNat (n % 64 + 128)) := by
  rw [isTail, Bool.and_eq_true, decide_eq_true_eq, decide_eq_true_eq, UInt8.le_iff_toNat_le,
    UInt8.le_iff_toNat_le, UInt8.toNat_ofNat']
  show 128 ≤ _ ∧ _ ≤ 191
  omega

/-- The second byte of a character is in the range that its first byte sets. -/
theorem isSecond_ofNat (lead n : Nat) (hlead : lead < 256) (hE0 : lead = 224 → 32 ≤ n % 64)
    (hED : lead = 237 → n % 64 < 32) (hF0 : lead = 240 → 16 ≤ n % 64)
    (hF4 : lead = 244 → n % 64 < 16) :
    isSecond (UInt8.ofNat lead) (UInt8.ofNat (n % 64 + 128)) := by
  have heq : ∀ k : UInt8, UInt8.ofNat lead = k ↔ lead = k.toNat := by
    intro k
    rw [← UInt8.toNat_inj, UInt8.toNat_ofNat', Nat.mod_eq_of_lt hlead]
  have hrange : ∀ low high : UInt8, low.toNat ≤ n % 64 + 128 → n % 64 + 128 ≤ high.toNat →
      (low ≤ UInt8.ofNat (n % 64 + 128) && UInt8.ofNat (n % 64 + 128) ≤ high) = true := by
    intro low high hlow hhigh
    have hlt := high.toNat_lt
    rw [Bool.and_eq_true, decide_eq_true_eq, decide_eq_true_eq, UInt8.le_iff_toNat_le,
      UInt8.le_iff_toNat_le, UInt8.toNat_ofNat', Nat.mod_eq_of_lt (by omega)]
    exact ⟨hlow, hhigh⟩
  have hmod : n % 64 < 64 := Nat.mod_lt n (by decide)
  rw [isSecond, secondRange]
  split
  next h =>
    have h' := hE0 ((heq _).1 h)
    exact hrange _ _ (show 160 ≤ _ by omega) (show _ ≤ 191 by omega)
  split
  next h =>
    have h' := hED ((heq _).1 h)
    exact hrange _ _ (show 128 ≤ _ by omega) (show _ ≤ 159 by omega)
  split
  next h =>
    have h' := hF0 ((heq _).1 h)
    exact hrange _ _ (show 144 ≤ _ by omega) (show _ ≤ 191 by omega)
  split
  next h =>
    have h' := hF4 ((heq _).1 h)
    exact hrange _ _ (show 128 ≤ _ by omega) (show _ ≤ 143 by omega)
  next => exact hrange _ _ (show 128 ≤ _ by omega) (show _ ≤ 191 by omega)

/-- How the leading byte of a number below 256 compares with the bounds of the ranges. -/
theorem ofNat_bounds {n : Nat} (hn : n < 256) (k : UInt8) :
    (UInt8.ofNat n < k ↔ n < k.toNat) ∧ (k ≤ UInt8.ofNat n ↔ k.toNat ≤ n) ∧
      (UInt8.ofNat n ≤ k ↔ n ≤ k.toNat) := by
  rw [UInt8.lt_iff_toNat_lt, UInt8.le_iff_toNat_le, UInt8.le_iff_toNat_le, UInt8.toNat_ofNat',
    Nat.mod_eq_of_lt hn]
  exact ⟨.rfl, .rfl, .rfl⟩

theorem front_two {n : Nat} {b : UInt8} (bs : List UInt8) (hlow : 194 ≤ n) (hhigh : n ≤ 223)
    (hb : isTail b) : front (UInt8.ofNat n) (b :: bs) = .character 2 := by
  have hbounds := ofNat_bounds (n := n) (by omega)
  have hone : ¬ UInt8.ofNat n < 0x80 := (not_congr (hbounds 0x80).1).2 (show ¬ n < 128 by omega)
  rw [front.eq_def, if_neg hone, if_pos ⟨(hbounds 0xC2).2.1.2 hlow, (hbounds 0xDF).2.2.2 hhigh⟩]
  exact if_pos hb

theorem front_three {n : Nat} {b c : UInt8} (bs : List UInt8) (hlow : 224 ≤ n) (hhigh : n ≤ 239)
    (hb : isSecond (UInt8.ofNat n) b) (hc : isTail c) :
    front (UInt8.ofNat n) (b :: c :: bs) = .character 3 := by
  have hbounds := ofNat_bounds (n := n) (by omega)
  have hone : ¬ UInt8.ofNat n < 0x80 := (not_congr (hbounds 0x80).1).2 (show ¬ n < 128 by omega)
  have htwo : ¬ UInt8.ofNat n ≤ 0xDF := (not_congr (hbounds 0xDF).2.2).2 (show ¬ n ≤ 223 by omega)
  rw [front.eq_def, if_neg hone, if_neg fun h => htwo h.2,
    if_pos ⟨(hbounds 0xE0).2.1.2 hlow, (hbounds 0xEF).2.2.2 hhigh⟩]
  exact (if_pos hb).trans (if_pos hc)

theorem front_four {n : Nat} {b c d : UInt8} (bs : List UInt8) (hlow : 240 ≤ n) (hhigh : n ≤ 244)
    (hb : isSecond (UInt8.ofNat n) b) (hc : isTail c) (hd : isTail d) :
    front (UInt8.ofNat n) (b :: c :: d :: bs) = .character 4 := by
  have hbounds := ofNat_bounds (n := n) (by omega)
  have hone : ¬ UInt8.ofNat n < 0x80 := (not_congr (hbounds 0x80).1).2 (show ¬ n < 128 by omega)
  have htwo : ¬ UInt8.ofNat n ≤ 0xDF := (not_congr (hbounds 0xDF).2.2).2 (show ¬ n ≤ 223 by omega)
  have hthree : ¬ UInt8.ofNat n ≤ 0xEF := (not_congr (hbounds 0xEF).2.2).2 (show ¬ n ≤ 239 by omega)
  rw [front.eq_def, if_neg hone, if_neg fun h => htwo h.2, if_neg fun h => hthree h.2,
    if_pos ⟨(hbounds 0xF0).2.1.2 hlow, (hbounds 0xF4).2.2.2 hhigh⟩]
  exact (if_pos hb).trans ((if_pos hc).trans (if_pos hd))

/-- The bytes of a character are one whole character, whatever follows them. -/
theorem front_utf8EncodeChar (c : Char) (bs : List UInt8) :
    ∃ lead rest length, String.utf8EncodeChar c ++ bs = lead :: rest ∧
      front lead rest = .character length ∧ rest.drop (length - 1) = bs := by
  have hvalid := c.valid
  rw [UInt32.isValidChar, Nat.isValidChar] at hvalid
  rw [String.utf8EncodeChar]
  generalize c.val.toNat = v at hvalid
  split
  next hone =>
    have hlt : UInt8.ofNat v < 0x80 := (ofNat_bounds (by omega) 0x80).1.2 (show v < 128 by omega)
    exact ⟨_, _, 1, rfl, if_pos hlt, rfl⟩
  split
  next htwo => exact ⟨_, _, 2, rfl, front_two bs (by omega) (by omega) (isTail_ofNat v), rfl⟩
  split
  next hthree =>
    have hsecond := isSecond_ofNat (v / 4096 % 16 + 224) (v / 64) (by omega) (by omega)
      (by omega) (by omega) (by omega)
    exact ⟨_, _, 3, rfl, front_three bs (by omega) (by omega) hsecond (isTail_ofNat v), rfl⟩
  next hfour =>
    have hsecond := isSecond_ofNat (v / 262144 % 8 + 240) (v / 4096) (by omega) (by omega)
      (by omega) (by omega) (by omega)
    exact ⟨_, _, 4, rfl,
      front_four bs (by omega) (by omega) hsecond (isTail_ofNat (v / 64)) (isTail_ofNat v), rfl⟩

theorem faultFrom_flatMap (before : Nat) (cs : List Char) :
    faultFrom before (cs.flatMap String.utf8EncodeChar) = none := by
  induction cs generalizing before with
  | nil => rw [List.flatMap_nil, faultFrom]
  | cons c cs ih =>
    obtain ⟨lead, rest, length, heq, hfront, hdrop⟩ :=
      front_utf8EncodeChar c (cs.flatMap String.utf8EncodeChar)
    rw [List.flatMap_cons, heq, faultFrom, hfront]
    dsimp only
    rw [hdrop]
    exact ih _

/-- The bytes of a text have no fault. -/
theorem fault_encode (text : String) : fault (encode text) = none := by
  rw [fault, encode_eq_flatMap]
  exact faultFrom_flatMap 0 text.toList

end PeerCluster.Utf8
