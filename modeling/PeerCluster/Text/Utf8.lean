/-!
# Where bytes stop being UTF-8

A sequence of bytes is cut into characters as RFC 3629 derives them. `fault` reports the first place
where no character starts: how many bytes before it are well formed, and how many bytes there can be
ruled out at once. A character that is only cut short by the end of the bytes is told apart from one
that a wrong byte spoils.
-/

namespace PeerCluster.Utf8

/-- The first place at which bytes are not UTF-8. -/
structure Fault where
  /-- How many bytes before the fault are well formed. -/
  validUpTo : Nat
  /-- How many bytes are spoilt; `none` when the bytes end inside a character. -/
  spoilt : Option Nat
  deriving DecidableEq, Repr

/-- What the bytes at the front of a list are. -/
inductive Front where
  /-- A whole character of so many bytes. -/
  | character (length : Nat)
  /-- So many bytes that start no character. -/
  | spoilt (length : Nat)
  /-- The start of a character that the end of the list cuts short. -/
  | cutShort

/-- Whether a byte continues a character. -/
def isTail (b : UInt8) : Bool :=
  0x80 ≤ b && b ≤ 0xBF

/-- The bytes that may follow a leading byte of a character of three or four bytes. -/
def secondRange (lead : UInt8) : UInt8 × UInt8 :=
  if lead = 0xE0 then (0xA0, 0xBF)
  else if lead = 0xED then (0x80, 0x9F)
  else if lead = 0xF0 then (0x90, 0xBF)
  else if lead = 0xF4 then (0x80, 0x8F)
  else (0x80, 0xBF)

/-- Whether a byte may follow the leading byte of a character of three or four bytes. -/
def isSecond (lead b : UInt8) : Bool :=
  (secondRange lead).1 ≤ b && b ≤ (secondRange lead).2

/-- Reads the front of a list that starts with the byte `lead`. -/
def front (lead : UInt8) (rest : List UInt8) : Front :=
  if lead < 0x80 then .character 1
  else if 0xC2 ≤ lead ∧ lead ≤ 0xDF then
    match rest with
    | [] => .cutShort
    | b :: _ => if isTail b then .character 2 else .spoilt 1
  else if 0xE0 ≤ lead ∧ lead ≤ 0xEF then
    match rest with
    | [] => .cutShort
    | b :: rest =>
      if isSecond lead b then
        match rest with
        | [] => .cutShort
        | c :: _ => if isTail c then .character 3 else .spoilt 2
      else .spoilt 1
  else if 0xF0 ≤ lead ∧ lead ≤ 0xF4 then
    match rest with
    | [] => .cutShort
    | b :: rest =>
      if isSecond lead b then
        match rest with
        | [] => .cutShort
        | c :: rest =>
          if isTail c then
            match rest with
            | [] => .cutShort
            | d :: _ => if isTail d then .character 4 else .spoilt 3
          else .spoilt 2
      else .spoilt 1
  else .spoilt 1

/-- The first fault in bytes of which `before` have been found well formed. -/
def faultFrom (before : Nat) : List UInt8 → Option Fault
  | [] => none
  | lead :: rest =>
    match front lead rest with
    | .character length => faultFrom (before + length) (rest.drop (length - 1))
    | .spoilt length => some ⟨before, some length⟩
    | .cutShort => some ⟨before, none⟩
termination_by bs => bs.length

/-- The first place at which the bytes are not UTF-8, if there is one. -/
def fault (bs : List UInt8) : Option Fault :=
  faultFrom 0 bs

/-- How a fault is described to a reader. -/
def Fault.message (f : Fault) : String :=
  match f.spoilt with
  | some length => s!"invalid utf-8 sequence of {length} bytes from index {f.validUpTo}"
  | none => s!"incomplete utf-8 byte sequence from index {f.validUpTo}"

/-- The text that bytes encode, or where they stop encoding one. -/
def decode (bs : List UInt8) : Except Fault String :=
  match String.fromUTF8? bs.toByteArray with
  | some text => .ok text
  | none => .error ((fault bs).getD ⟨0, none⟩)

/-- The text that bytes encode, behind a text that has been decoded. Every fault is shown as one
replacement character. -/
def displayOnto (shown : String) : List UInt8 → String
  | [] => shown
  | lead :: rest =>
    match front lead rest with
    | .character length =>
      let character := (lead :: rest.take (length - 1)).toByteArray
      displayOnto (shown ++ (String.fromUTF8? character).getD "\uFFFD") (rest.drop (length - 1))
    | .spoilt length => displayOnto (shown ++ "\uFFFD") (rest.drop (length - 1))
    | .cutShort => shown ++ "\uFFFD"
termination_by bs => bs.length

/-- The text that bytes encode, with one replacement character for every fault. -/
def display (bs : List UInt8) : String :=
  displayOnto "" bs

/-- The bytes of a text. -/
def encode (text : String) : List UInt8 :=
  text.toUTF8.toList

/-! ## Reading back -/

theorem toList_loop (bs : ByteArray) (i : Nat) (r : List UInt8) :
    ByteArray.toList.loop bs i r = r.reverse ++ bs.data.toList.drop i := by
  fun_induction ByteArray.toList.loop bs i r with
  | case1 i r h ih =>
    have hi : i < bs.data.toList.length := by simpa using h
    have hget : bs.get! i = bs.data.toList[i] := by
      show bs.data[i]! = _
      rw [getElem!_pos bs.data i hi]
      simp
    rw [ih, hget, List.reverse_cons, List.append_assoc, List.singleton_append,
      List.getElem_cons_drop]
  | case2 i r h =>
    rw [List.drop_eq_nil_of_le (by simpa using h), List.append_nil]

theorem toList_eq (bs : ByteArray) : bs.toList = bs.data.toList :=
  toList_loop bs 0 []

/-- The bytes of a text, as an array, are the text itself. -/
@[simp] theorem toByteArray_encode (text : String) :
    (encode text).toByteArray = text.toByteArray := by
  ext1
  simp [encode, toList_eq]

/-- The bytes of a text are those of its characters. -/
theorem encode_eq_flatMap (text : String) :
    encode text = text.toList.flatMap String.utf8EncodeChar := by
  rw [encode, toList_eq, String.toUTF8_eq_toByteArray, ← String.utf8Encode_toList, List.utf8Encode,
    List.toList_data_toByteArray]

@[simp] theorem encode_empty : encode "" = [] :=
  encode_eq_flatMap ""

theorem encode_append (front rest : String) :
    encode (front ++ rest) = encode front ++ encode rest := by
  rw [encode_eq_flatMap, encode_eq_flatMap, encode_eq_flatMap, String.toList_append,
    List.flatMap_append]

theorem encode_push (front : String) (c : Char) :
    encode (front.push c) = encode front ++ String.utf8EncodeChar c := by
  rw [encode_eq_flatMap, encode_eq_flatMap, String.toList_push, List.flatMap_append]
  simp

/-- A character below 128 is one byte, and the bytes of any other are 128 or more. -/
theorem utf8EncodeChar_cases (c : Char) :
    (c.toNat < 128 ∧ String.utf8EncodeChar c = [c.toNat.toUInt8]) ∨
      ∀ b ∈ String.utf8EncodeChar c, 128 ≤ b.toNat := by
  show (c.val.toNat < 128 ∧ String.utf8EncodeChar c = [UInt8.ofNat c.val.toNat]) ∨ _
  rw [String.utf8EncodeChar]
  by_cases hone : c.val.toNat ≤ 127
  · exact .inl ⟨by omega, if_pos hone⟩
  · refine .inr fun b hb => ?_
    simp only [if_neg hone] at hb
    split at hb <;> try split at hb
    all_goals
      simp only [List.mem_cons, List.not_mem_nil, or_false] at hb
      rcases hb with rfl | rfl | rfl | rfl <;> rw [UInt8.toNat_ofNat'] <;> omega

theorem fromUTF8?_eq_some_iff {bs : List UInt8} {text : String} :
    String.fromUTF8? bs.toByteArray = some text ↔ bs = encode text := by
  constructor
  · intro h
    rw [String.fromUTF8?] at h
    split at h
    · obtain rfl := Option.some.inj h
      rw [← List.toByteArray_inj, toByteArray_encode]
      rfl
    · cases h
  · intro heq
    subst heq
    rw [String.fromUTF8?, toByteArray_encode, dif_pos text.isValidUTF8]
    rfl

/-- Bytes are decoded to a text exactly if they are the bytes of the text. -/
theorem decode_eq_ok_iff {bs : List UInt8} {text : String} :
    decode bs = .ok text ↔ bs = encode text := by
  rw [← fromUTF8?_eq_some_iff, decode]
  split <;> simp_all

end PeerCluster.Utf8
