import PeerCluster.Json.Token

/-!
# Reading JSON

Tokens are read one at a time by a machine that keeps the containers still open on a stack, so the
depth of a text costs nothing but memory. The machine accepts RFC 8259: no comma before a closing
bracket, keys are strings, nothing but white space after the value.
-/

namespace PeerCluster.Json

/-- A container that is still open, with what it holds so far, last first. -/
inductive Layer where
  | array (items : List Json)
  /-- An object, and the key whose value comes next or came last. -/
  | object (fields : List (Option String × Json)) (key : Option String)

/-- What may come next. -/
inductive Due where
  | value
  /-- A value or the end of the array just opened. -/
  | firstItem
  /-- A key or the end of the object just opened. -/
  | firstKey
  | key
  | colon
  /-- A comma or the end of the innermost container. -/
  | separator
  /-- Nothing: the text is the given value. -/
  | done (v : Json)

/-- The state of the reader between two tokens. -/
structure Reader where
  stack : List Layer
  due : Due

namespace Reader

/-- Before the first token. -/
def start : Reader :=
  ⟨[], .value⟩

/-- A value is complete inside the given containers. -/
def give (v : Json) : List Layer → Reader
  | [] => ⟨[], .done v⟩
  | .array items :: stack => ⟨.array (v :: items) :: stack, .separator⟩
  | .object fields key :: stack => ⟨.object ((key, v) :: fields) key :: stack, .separator⟩

/-- Reads a token where a value is due. -/
def readValue (stack : List Layer) : Token → Option Reader
  | .scalar v => some (give v stack)
  | .string (some s) => some (give (.text s) stack)
  | .string none => some (give .garbled stack)
  | .openBracket => some ⟨.array [] :: stack, .firstItem⟩
  | .openBrace => some ⟨.object [] none :: stack, .firstKey⟩
  | _ => none

/-- Closes the innermost container, if the bracket fits. -/
def close : List Layer → Token → Option Reader
  | .array items :: stack, .closeBracket => some (give (.array items.reverse) stack)
  | .object fields _ :: stack, .closeBrace => some (give (.object fields.reverse) stack)
  | _, _ => none

/-- Reads a token where a key is due. -/
def readKey : List Layer → Token → Option Reader
  | .object fields _ :: stack, .string key => some ⟨.object fields key :: stack, .colon⟩
  | _, _ => none

/-- Reads one token. -/
def step (r : Reader) (t : Token) : Option Reader :=
  match r.due, t with
  | .value, t => readValue r.stack t
  | .firstItem, .closeBracket => close r.stack .closeBracket
  | .firstItem, t => readValue r.stack t
  | .firstKey, .closeBrace => close r.stack .closeBrace
  | .firstKey, t => readKey r.stack t
  | .key, t => readKey r.stack t
  | .colon, .colon => some ⟨r.stack, .value⟩
  | .separator, .comma =>
    match r.stack with
    | .array _ :: _ => some ⟨r.stack, .value⟩
    | .object _ _ :: _ => some ⟨r.stack, .key⟩
    | [] => none
  | .separator, t => close r.stack t
  | _, _ => none

/-- The value that has been read, if the text may end here. -/
def result? (r : Reader) : Option Json :=
  match r.due with
  | .done v => some v
  | _ => none

end Reader

/-- The value that bytes write, if they write one. -/
def parse? (bs : List UInt8) : Option Json := do
  let r ← (← tokens? bs).foldlM Reader.step Reader.start
  r.result?

end PeerCluster.Json
