import PeerCluster.BigEndian
import PeerCluster.Text.Hex

/-!
# Member ids

A member process is identified by 128 bits. An id is shown as 32 hexadecimal digits in lower case
and read in either case. Ids are ordered as numbers, which is also the order of their texts.
-/

namespace PeerCluster

/-- The identity of one member process. -/
structure MemberId where
  bits : BitVec 128
  deriving DecidableEq, Repr, Inhabited

namespace MemberId

instance : LT MemberId := ⟨fun a b => a.bits < b.bits⟩

instance : LE MemberId := ⟨fun a b => a.bits ≤ b.bits⟩

instance (a b : MemberId) : Decidable (a < b) :=
  inferInstanceAs (Decidable (a.bits < b.bits))

instance (a b : MemberId) : Decidable (a ≤ b) :=
  inferInstanceAs (Decidable (a.bits ≤ b.bits))

theorem lt_iff_toNat {a b : MemberId} : a < b ↔ a.bits.toNat < b.bits.toNat :=
  Iff.rfl

theorem lt_irrefl (a : MemberId) : ¬ a < a := by
  simp [lt_iff_toNat]

theorem lt_trans {a b c : MemberId} (h : a < b) (h' : b < c) : a < c :=
  Nat.lt_trans h h'

theorem eq_of_not_lt {a b : MemberId} (h : ¬ a < b) (h' : ¬ b < a) : a = b := by
  rw [lt_iff_toNat] at h h'
  cases a; cases b
  simp only [mk.injEq]
  exact BitVec.eq_of_toNat_eq (by simp_all; omega)

/-! ## Bytes -/

/-- The sixteen bytes of an id, most significant first. -/
def bytes (id : MemberId) : List UInt8 :=
  BigEndian.bytes 16 id.bits.toNat

/-- The id that sixteen bytes hold. -/
def ofBytes (bs : List UInt8) : MemberId :=
  ⟨BitVec.ofNat 128 (BigEndian.value bs)⟩

@[simp] theorem length_bytes (id : MemberId) : id.bytes.length = 16 := by
  simp [bytes]

@[simp] theorem ofBytes_bytes (id : MemberId) : ofBytes id.bytes = id := by
  have h : id.bits.toNat < 256 ^ 16 := id.bits.isLt
  cases id
  simp only [ofBytes, bytes, mk.injEq] at *
  rw [BigEndian.value_bytes h]
  exact BitVec.ofNat_toNat _ _ ▸ BitVec.setWidth_eq _

theorem bytes_ofBytes {bs : List UInt8} (h : bs.length = 16) : (ofBytes bs).bytes = bs := by
  have hlt : BigEndian.value bs < 2 ^ 128 := by
    have hvalue := BigEndian.value_lt bs
    rw [h] at hvalue
    exact hvalue
  rw [bytes, ofBytes, BitVec.toNat_ofNat, Nat.mod_eq_of_lt hlt, ← h, BigEndian.bytes_value]

/-! ## Text -/

/-- Why a text is no id. -/
inductive TextError where
  /-- The text is not 32 hexadecimal digits. -/
  | wrongForm
  /-- The digits name no number. -/
  | noNumber
  deriving DecidableEq, Repr

/-- How an error is described to a reader. -/
def TextError.message : TextError → String
  | .wrongForm => "Invalid member ID format: expected 32 hex chars"
  | .noNumber => "Invalid hex: invalid digit found in string"

/-- The 32 digits of an id. -/
def render (id : MemberId) : String :=
  Hex.ofNat 32 id.bits.toNat

/-- The id that a text names. -/
def ofText (text : String) : Except TextError MemberId :=
  let cs := text.toList
  if text.utf8ByteSize = 32 ∧ cs.all fun c => (Hex.value? c).isSome then
    match Hex.toNat? cs with
    | some n => .ok ⟨BitVec.ofNat 128 n⟩
    | none => .error .noNumber
  else .error .wrongForm

/-- The id that a text names, if it names one. -/
def ofText? (text : String) : Option MemberId :=
  (ofText text).toOption

/-- The digits of an id name it. -/
theorem ofText_render (id : MemberId) : ofText id.render = .ok id := by
  have hdigits : ∀ d ∈ Radix.digits 16 32 id.bits.toNat, d < 16 :=
    fun d => Radix.lt_of_mem_digits (by decide)
  have hall : (id.render.toList.all fun c => (Hex.value? c).isSome) = true := by
    rw [render, Hex.toList_ofNat, List.all_map, List.all_eq_true]
    intro d hd
    show (Hex.value? (Hex.digit d)).isSome = true
    rw [Hex.value?_digit d (hdigits d hd)]
    rfl
  have hlt : id.bits.toNat < Nat.pow 16 32 := id.bits.isLt
  have hvalue : Hex.toNat? id.render.toList = some id.bits.toNat := by
    rw [render, Hex.toList_ofNat, Hex.toNat?_map_digit hdigits, Radix.value_digits hlt]
  rw [ofText, if_pos ⟨Hex.utf8ByteSize_ofNat 32 _, hall⟩, hvalue]
  simp

end MemberId

end PeerCluster
