import PeerCluster.Json.Value

/-!
# Records in JSON

A record of known fields is given as an object, by key and in any order, or as an array, by
position. An object may hold further keys, which are skipped, but may not name a known field twice;
an array may stop early but may not hold more than the known fields.
-/

namespace PeerCluster.Json

/-- The known fields that a value gives, with their values. -/
abbrev Given := List (String × Json)

/-- The fields of an object that have one of the given keys; `none` when a key is garbled or a known
one is repeated. -/
def knownFields? (keys : List String) :
    (given : Given) → List (Option String × Json) → Option Given
  | given, [] => some given.reverse
  | _, (none, _) :: _ => none
  | given, (some key, v) :: rest =>
    if key ∈ keys then
      if given.any fun g => g.1 == key then none
      else knownFields? keys ((key, v) :: given) rest
    else knownFields? keys given rest

/-- The known fields that a value gives for a record with the given keys. -/
def given? (keys : List String) : Json → Option Given
  | .object fields => knownFields? keys [] fields
  | .array items => if items.length ≤ keys.length then some (keys.zip items) else none
  | _ => none

namespace Given

/-- The value of a field that has to be given. -/
def required {α : Type} (g : Given) (key : String) (read : Json → Option α) : Option α := do
  read (← g.lookup key)

/-- The value of a field, or its default when it is left out. -/
def withDefault {α : Type} (g : Given) (key : String) (read : Json → Option α) (default : α) :
    Option α :=
  match g.lookup key with
  | some v => read v
  | none => some default

end Given

/-! ## Reading fields -/

/-- A truth value. -/
def bool? : Json → Option Bool
  | .bool b => some b
  | _ => none

/-- A text. -/
def text? : Json → Option String
  | .text s => some s
  | _ => none

/-- A natural below a bound. -/
def below? (bound : Nat) : Json → Option Nat
  | .natural n => if n < bound then some n else none
  | _ => none

/-- A word of 16 bits. -/
def word16? (v : Json) : Option UInt16 :=
  (below? UInt16.size v).map Nat.toUInt16

/-- A word of 32 bits. -/
def word32? (v : Json) : Option UInt32 :=
  (below? UInt32.size v).map Nat.toUInt32

/-- A word of 64 bits. -/
def word64? (v : Json) : Option UInt64 :=
  (below? UInt64.size v).map Nat.toUInt64

/-- A value that may be `null`. -/
def nullable? {α : Type} (read : Json → Option α) : Json → Option (Option α)
  | .null => some none
  | v => (read v).map some

/-- A value that a text names. -/
def named? {α : Type} (read : String → Option α) (v : Json) : Option α := do
  read (← text? v)

end PeerCluster.Json
