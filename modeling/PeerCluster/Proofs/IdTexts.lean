import Mathlib.Tactic.SplitIfs
import PeerCluster.Member.Id

/-!
# Member ids and their texts

An id is shown as the hexadecimal digits of its number, padded with zeros to 32. Reading a digit undoes
writing it up to the case of its letter (`value?_eq_some_iff`), so reading a text undoes writing an id
up to the case of its letters (`ofText_eq_ok_iff`).

Numbers with the same count of digits are ordered as their digits are, the first difference deciding
(`digits_lt_digits`), and as whatever shows the digits, if that is ordered like them
(`shown_digits_lt_iff`). This holds in every base, and therefore of the bytes of an id as it does of its
text, where one digit is shown after another exactly if it is the larger one (`digit_lt_digit`).

**Theorem (`text_corresponds`).** A text names an id exactly if it consists of 32 hexadecimal digits, it
then is the text of the id but for the case of its letters, and no text is refused for another reason.
The text of an id has 32 digits in lower case, and ids, their bytes and their texts are ordered alike.
-/

namespace PeerCluster

/-! ## Digits in order -/

namespace Radix

theorem append_lt_append_of_lt {α : Type} [LT α] {l₁ l₂ : List α} (h : l₁ < l₂)
    (hlen : l₁.length = l₂.length) (r₁ r₂ : List α) : l₁ ++ r₁ < l₂ ++ r₂ := by
  change List.Lex (· < ·) l₁ l₂ at h
  change List.Lex (· < ·) (l₁ ++ r₁) (l₂ ++ r₂)
  induction h with
  | nil => simp at hlen
  | rel hlt => exact .rel hlt
  | cons _ ih => exact .cons (ih (Nat.succ.inj hlen))

theorem append_lt_append_left {α : Type} [LT α] {r₁ r₂ : List α} (h : r₁ < r₂) (l : List α) :
    l ++ r₁ < l ++ r₂ := by
  induction l with
  | nil => exact h
  | cons a l ih => exact List.Lex.cons ih

/-- Of two numbers the larger one has the larger digit where their digits differ first. -/
theorem digits_lt_digits {base width m n : Nat} (hn : n < Nat.pow base width) (h : m < n) :
    digits base width m < digits base width n := by
  induction width generalizing m n with
  | zero =>
    have hzero : n = 0 := Nat.lt_one_iff.1 hn
    omega
  | succ w ih =>
    have hdiv : n / base < Nat.pow base w :=
      Nat.div_lt_of_lt_mul (Nat.mul_comm .. ▸ hn)
    rw [digits, digits]
    by_cases hfront : m / base < n / base
    · exact append_lt_append_of_lt (ih hdiv hfront) (by rw [length_digits, length_digits]) _ _
    · have hsame : m / base = n / base :=
        Nat.le_antisymm (Nat.div_le_div_right (Nat.le_of_lt h)) (Nat.le_of_not_lt hfront)
      rw [hsame]
      refine append_lt_append_left (List.Lex.rel ?_) _
      have hm := Nat.div_add_mod m base
      have hn := Nat.div_add_mod n base
      rw [hsame] at hm
      omega

variable {α : Type} [LT α]

theorem map_lt_map {base : Nat} {shown : Nat → α} (hshown : ∀ d e, d < e → e < base → shown d < shown e)
    {ds es : List Nat} (hes : ∀ e ∈ es, e < base) (h : ds < es) : ds.map shown < es.map shown := by
  change List.Lex (· < ·) ds es at h
  change List.Lex (· < ·) (ds.map shown) (es.map shown)
  induction h with
  | nil => exact .nil
  | rel hlt => exact .rel (hshown _ _ hlt (hes _ List.mem_cons_self))
  | cons _ ih => exact .cons (ih fun e he => hes e (List.mem_cons_of_mem _ he))

/-- Where a larger digit is shown as something larger, what is shown is ordered as the numbers are. -/
theorem shown_digits_lt_iff [@Std.Asymm α (· < ·)] {base width m n : Nat} {shown : Nat → α}
    (hbase : 0 < base) (hshown : ∀ d e, d < e → e < base → shown d < shown e)
    (hm : m < Nat.pow base width) (hn : n < Nat.pow base width) :
    (digits base width m).map shown < (digits base width n).map shown ↔ m < n := by
  have hlt {a b : Nat} (hb : b < Nat.pow base width) (h : a < b) :
      (digits base width a).map shown < (digits base width b).map shown :=
    map_lt_map hshown (fun _ => lt_of_mem_digits hbase) (digits_lt_digits hb h)
  constructor
  · intro h
    rcases Nat.lt_trichotomy m n with hless | rfl | hmore
    · exact hless
    · exact absurd h (List.lt_irrefl _)
    · exact absurd h (List.lt_asymm (hlt hm hmore))
  · exact hlt hn

end Radix

/-! ## Digits in either case -/

namespace Hex

/-- A digit as it is shown. -/
def IsLower (c : Char) : Prop :=
  '0' ≤ c ∧ c ≤ '9' ∨ 'a' ≤ c ∧ c ≤ 'f'

/-- A digit in either case. -/
def IsDigit (c : Char) : Prop :=
  IsLower c ∨ 'A' ≤ c ∧ c ≤ 'F'

/-- The digits A to F in lower case; any other character is left alone. -/
def lower (c : Char) : Char :=
  if 'A' ≤ c ∧ c ≤ 'F' then c.toLower else c

theorem between_iff {a b c : Char} : a ≤ c ∧ c ≤ b ↔ a.toNat ≤ c.toNat ∧ c.toNat ≤ b.toNat := by
  rw [Char.le_def, Char.le_def, UInt32.le_iff_toNat_le, UInt32.le_iff_toNat_le]
  rfl

theorem isLower_iff {c : Char} :
    IsLower c ↔ 48 ≤ c.toNat ∧ c.toNat ≤ 57 ∨ 97 ≤ c.toNat ∧ c.toNat ≤ 102 := by
  rw [IsLower, between_iff, between_iff]
  rfl

theorem isDigit_iff {c : Char} : IsDigit c ↔ (48 ≤ c.toNat ∧ c.toNat ≤ 57 ∨
    97 ≤ c.toNat ∧ c.toNat ≤ 102) ∨ 65 ≤ c.toNat ∧ c.toNat ≤ 70 := by
  rw [IsDigit, isLower_iff, between_iff]
  rfl

theorem toNat_lower (c : Char) :
    (lower c).toNat = if 65 ≤ c.toNat ∧ c.toNat ≤ 70 then c.toNat + 32 else c.toNat := by
  simp only [lower, between_iff, Char.reduceToNat]
  split
  · rename_i hupper
    have hletter : c.val ≥ 'A'.val ∧ c.val ≤ 'Z'.val := by
      rw [ge_iff_le, UInt32.le_iff_toNat_le, UInt32.le_iff_toNat_le]
      exact ⟨hupper.1, Nat.le_trans hupper.2 (by decide)⟩
    have hshift : c.toLower.val = c.val + 32 := congrArg Char.val (dif_pos hletter)
    change c.toLower.val.toNat = c.val.toNat + 32
    rw [hshift, UInt32.toNat_add]
    exact Nat.mod_eq_of_lt (Nat.lt_of_le_of_lt (Nat.add_le_add_right hupper.2 32) (by decide))
  · rfl

theorem value?_eq (c : Char) : value? c =
    if 48 ≤ c.toNat ∧ c.toNat ≤ 57 then some (c.toNat - 48)
    else if 97 ≤ c.toNat ∧ c.toNat ≤ 102 then some (c.toNat - 97 + 10)
    else if 65 ≤ c.toNat ∧ c.toNat ≤ 70 then some (c.toNat - 65 + 10)
    else none := by
  simp only [value?, between_iff, Char.reduceToNat]

theorem toNat_digit : ∀ n < 16, (digit n).toNat = if n < 10 then 48 + n else 87 + n := by
  decide

theorem isLower_digit {n : Nat} (h : n < 16) : IsLower (digit n) := by
  rw [isLower_iff, toNat_digit n h]
  split <;> omega

theorem digit_lt_digit {m n : Nat} (h : m < n) (hn : n < 16) : digit m < digit n := by
  rw [Char.lt_def, UInt32.lt_iff_toNat_lt]
  change (digit m).toNat < (digit n).toNat
  rw [toNat_digit m (by omega), toNat_digit n hn]
  split <;> split <;> omega

/-- A digit has the value of the digit that it is in lower case. -/
theorem value?_eq_some_iff {c : Char} {n : Nat} :
    value? c = some n ↔ n < 16 ∧ lower c = digit n := by
  have hshown (h : n < 16) :
      lower c = digit n ↔ (lower c).toNat = if n < 10 then 48 + n else 87 + n := by
    rw [← toNat_digit n h, Char.toNat_inj]
  rw [and_congr_right_iff.2 hshown, toNat_lower, value?_eq]
  split_ifs <;> simp only [Option.some.injEq, false_iff] <;> omega

theorem isSome_value?_iff {c : Char} : (value? c).isSome ↔ IsDigit c := by
  rw [value?_eq, isDigit_iff]
  split_ifs <;> simp <;> omega

theorem utf8Size_of_isDigit {c : Char} (h : IsDigit c) : c.utf8Size = 1 := by
  rw [Char.utf8Size_eq_one_iff, UInt32.le_iff_toNat_le]
  rw [isDigit_iff] at h
  change c.toNat ≤ 127
  omega

/-- Digits are read as numbers exactly if they are the digits of these numbers in lower case. -/
theorem mapM_value?_eq_some_iff {cs : List Char} {ds : List Nat} :
    cs.mapM value? = some ds ↔ (∀ d ∈ ds, d < 16) ∧ cs.map lower = ds.map digit := by
  induction cs generalizing ds with
  | nil => cases ds <;> simp
  | cons c cs ih =>
    simp only [List.mapM_cons, Option.bind_eq_bind, Option.bind_eq_some_iff, Option.pure_def,
      Option.some.injEq, value?_eq_some_iff, ih, List.map_cons]
    constructor
    · intro hall
      rcases hall with ⟨d, ⟨hd, hc⟩, ds', ⟨hds, hcs⟩, rfl⟩
      exact ⟨List.forall_mem_cons.2 ⟨hd, hds⟩, by rw [hc, hcs, List.map_cons]⟩
    · intro hall
      rcases hall with ⟨hds, heq⟩
      cases ds with
      | nil => cases heq
      | cons d ds =>
        obtain ⟨hc, hcs⟩ := List.cons.inj heq
        obtain ⟨hd, hds⟩ := List.forall_mem_cons.1 hds
        exact ⟨d, ⟨hd, hc⟩, ds, ⟨hds, hcs⟩, rfl⟩

/-- Digits have values. -/
theorem exists_mapM_value? {cs : List Char} (h : ∀ c ∈ cs, IsDigit c) :
    ∃ ds, cs.mapM value? = some ds := by
  induction cs with
  | nil => exact ⟨[], rfl⟩
  | cons c cs ih =>
    obtain ⟨hc, hcs⟩ := List.forall_mem_cons.1 h
    obtain ⟨d, hd⟩ := Option.isSome_iff_exists.1 (isSome_value?_iff.2 hc)
    obtain ⟨ds, hds⟩ := ih hcs
    exact ⟨d :: ds, by rw [List.mapM_cons, hd, hds]; rfl⟩

end Hex

/-! ## Ids -/

namespace MemberId

/-- What a text has to be to name an id. -/
def IsText (text : String) : Prop :=
  text.length = 32 ∧ ∀ c ∈ text.toList, Hex.IsDigit c

theorem isText_iff {text : String} : IsText text ↔
    text.utf8ByteSize = 32 ∧ (text.toList.all fun c => (Hex.value? c).isSome) = true := by
  have hdigits : (text.toList.all fun c => (Hex.value? c).isSome) = true ↔
      ∀ c ∈ text.toList, Hex.IsDigit c := by
    simp only [List.all_eq_true, Hex.isSome_value?_iff]
  rw [IsText, hdigits, and_congr_left_iff]
  intro hall
  have hsize := Hex.utf8ByteSize_ofList fun c hc => Hex.utf8Size_of_isDigit (hall c hc)
  rw [String.ofList_toList, String.length_toList] at hsize
  rw [hsize]

/-- A text that names no id is refused for its form. -/
theorem ofText_of_not_isText {text : String} (h : ¬IsText text) :
    ofText text = .error .wrongForm := by
  rw [ofText, if_neg fun hform => h (isText_iff.2 hform)]

/-- A text of 32 digits names the id of its number, whose text it is but for the case of letters. -/
theorem ofText_of_isText {text : String} (h : IsText text) :
    ∃ id, ofText text = .ok id ∧ text.map Hex.lower = id.render := by
  obtain ⟨ds, hds⟩ := Hex.exists_mapM_value? h.2
  obtain ⟨hlt, hlower⟩ := Hex.mapM_value?_eq_some_iff.1 hds
  have hlen : ds.length = 32 := by
    have hlengths := congrArg List.length hlower
    rw [List.length_map, List.length_map, String.length_toList, h.1] at hlengths
    exact hlengths.symm
  have hvalue : Radix.value 16 ds < 2 ^ 128 := by
    have hbound := Radix.value_lt hlt
    rw [hlen] at hbound
    exact hbound
  refine ⟨⟨BitVec.ofNat 128 (Radix.value 16 ds)⟩, ?_, ?_⟩
  · rw [ofText, if_pos (isText_iff.1 h), Hex.toNat?, hds]
    rfl
  · have hdigits := Radix.digits_value hlt
    rw [hlen] at hdigits
    rw [← String.toList_inj, String.toList_map, hlower, render, Hex.toList_ofNat,
      BitVec.toNat_ofNat, Nat.mod_eq_of_lt hvalue, hdigits]

theorem render_inj {a b : MemberId} : a.render = b.render ↔ a = b := by
  constructor
  · intro h
    have hread := ofText_render a
    rw [h, ofText_render b] at hread
    exact (Except.ok.inj hread).symm
  · intro h
    rw [h]

/-- A text that is the text of an id but for the case of its letters has its form. -/
theorem isText_of_lower {text : String} {id : MemberId} (h : text.map Hex.lower = id.render) :
    IsText text := by
  have hlist := congrArg String.toList h
  rw [String.toList_map, render, Hex.toList_ofNat] at hlist
  have hdigits := Hex.mapM_value?_eq_some_iff.2
    ⟨fun d => Radix.lt_of_mem_digits (by decide : 0 < 16), hlist⟩
  constructor
  · have hlengths := congrArg List.length hlist
    rwa [List.length_map, List.length_map, Radix.length_digits, String.length_toList] at hlengths
  · intro c hc
    have hlower : Hex.lower c ∈ (Radix.digits 16 32 id.bits.toNat).map Hex.digit :=
      hlist ▸ List.mem_map_of_mem hc
    obtain ⟨d, hd, heq⟩ := List.mem_map.1 hlower
    have hvalue := Hex.value?_eq_some_iff.2 ⟨Radix.lt_of_mem_digits (by decide) hd, heq.symm⟩
    exact Hex.isSome_value?_iff.1 (Option.isSome_of_eq_some hvalue)

/-- A text names an id exactly if it is the text of the id but for the case of its letters. -/
theorem ofText_eq_ok_iff {text : String} {id : MemberId} :
    ofText text = .ok id ↔ text.map Hex.lower = id.render := by
  constructor
  · intro h
    by_cases htext : IsText text
    · obtain ⟨id', hread, hlower⟩ := ofText_of_isText htext
      obtain rfl := Except.ok.inj (hread.symm.trans h)
      exact hlower
    · rw [ofText_of_not_isText htext] at h
      cases h
  · intro h
    obtain ⟨id', hread, hlower⟩ := ofText_of_isText (isText_of_lower h)
    rw [hread, render_inj.1 (hlower.symm.trans h)]

/-! ## The order of ids -/

theorem bytes_lt_bytes_iff {a b : MemberId} : a.bytes < b.bytes ↔ a < b := by
  have ha : a.bits.toNat < Nat.pow 256 16 := a.bits.isLt
  have hb : b.bits.toNat < Nat.pow 256 16 := b.bits.isLt
  rw [bytes, bytes, BigEndian.bytes, BigEndian.bytes]
  refine Radix.shown_digits_lt_iff (by decide) (fun d e hlt he => ?_) ha hb
  rw [UInt8.lt_iff_toNat_lt, Nat.toUInt8_eq, Nat.toUInt8_eq, UInt8.toNat_ofNat_of_lt' he,
    UInt8.toNat_ofNat_of_lt' (Nat.lt_trans hlt he)]
  exact hlt

theorem render_lt_render_iff {a b : MemberId} : a.render < b.render ↔ a < b := by
  have ha : a.bits.toNat < Nat.pow 16 32 := a.bits.isLt
  have hb : b.bits.toNat < Nat.pow 16 32 := b.bits.isLt
  rw [String.lt_iff, render, render, Hex.toList_ofNat, Hex.toList_ofNat]
  exact Radix.shown_digits_lt_iff (by decide) (fun _ _ => Hex.digit_lt_digit) ha hb

/-- **Ids and their texts.** A text names an id exactly if it consists of 32 hexadecimal digits, and
then it is the text of the id but for the case of its letters; any other text is refused for its form.
The text of an id has 32 digits in lower case, and ids are ordered as their bytes and as their texts
are. -/
theorem text_corresponds :
    (∀ text, (∃ id, ofText text = .ok id) ↔
      text.length = 32 ∧ ∀ c ∈ text.toList, Hex.IsDigit c) ∧
    (∀ text e, ofText text = .error e → e = .wrongForm) ∧
    (∀ text id, ofText text = .ok id ↔ text.map Hex.lower = id.render) ∧
    (∀ id : MemberId, id.render.length = 32 ∧ ∀ c ∈ id.render.toList, Hex.IsLower c) ∧
    ∀ a b : MemberId, (a < b ↔ a.bytes < b.bytes) ∧ (a < b ↔ a.render < b.render) := by
  refine ⟨fun text => ⟨?_, ?_⟩, fun text e he => ?_, fun _ _ => ofText_eq_ok_iff, fun id => ⟨?_, ?_⟩,
    fun a b => ⟨bytes_lt_bytes_iff.symm, render_lt_render_iff.symm⟩⟩
  · intro hnames
    obtain ⟨id, hid⟩ := hnames
    exact isText_of_lower (ofText_eq_ok_iff.1 hid)
  · intro htext
    obtain ⟨id, hid, -⟩ := ofText_of_isText htext
    exact ⟨id, hid⟩
  · by_cases htext : IsText text
    · obtain ⟨id, hid, -⟩ := ofText_of_isText htext
      rw [hid] at he
      cases he
    · rw [ofText_of_not_isText htext] at he
      exact (Except.error.inj he).symm
  · rw [render, ← String.length_toList, Hex.toList_ofNat, List.length_map, Radix.length_digits]
  · intro c hc
    rw [render, Hex.toList_ofNat] at hc
    obtain ⟨d, hd, rfl⟩ := List.mem_map.1 hc
    exact Hex.isLower_digit (Radix.lt_of_mem_digits (by decide) hd)

end MemberId

end PeerCluster
