/-!
# JSON values

A value as its text gives it: the fields of an object stand in the order of the text, and a key that
is written twice stands twice. Records of this library are made of naturals, truth values, texts and
each other, so every other numeral is kept without its value. A string that names no text (its
escapes leave half a surrogate pair, or its bytes are not UTF-8) is kept as `garbled`: it may be
skipped, but nothing can be read from it.
-/

namespace PeerCluster

/-- A JSON value. -/
inductive Json where
  | null
  | bool (b : Bool)
  /-- A numeral of digits alone. -/
  | natural (n : Nat)
  /-- A numeral with a sign, a fraction or an exponent. -/
  | numeral
  | text (s : String)
  /-- A string that names no text. -/
  | garbled
  | array (items : List Json)
  /-- An object; the key of a field is `none` when it is garbled. -/
  | object (fields : List (Option String × Json))
  deriving Inhabited

namespace Json

/-- The object with the given fields. -/
def record (fields : List (String × Json)) : Json :=
  .object (fields.map fun f => (some f.1, f.2))

/-- The array of the given bytes, each as a natural. -/
def bytes (bs : List UInt8) : Json :=
  .array (bs.map fun b => .natural b.toNat)

/-- A value that may be absent, written as `null` when it is. -/
def optional {α : Type} (write : α → Json) : Option α → Json
  | none => .null
  | some a => write a

end Json

end PeerCluster
