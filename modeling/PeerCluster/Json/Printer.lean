import PeerCluster.Json.Value
import PeerCluster.Text.Hex

/-!
# Writing JSON

Values are written without white space. In a string only the quote, the backslash and the control
characters are escaped, with the short escape where there is one.
-/

namespace PeerCluster.Json

/-- How one character stands inside a string. -/
def escapeChar (c : Char) : String :=
  if c = '"' then "\\\""
  else if c = '\\' then "\\\\"
  else if c = '\n' then "\\n"
  else if c = '\r' then "\\r"
  else if c = '\t' then "\\t"
  else if c.toNat = 8 then "\\b"
  else if c.toNat = 12 then "\\f"
  else if c.toNat < 32 then "\\u" ++ Hex.ofNat 4 c.toNat
  else String.singleton c

/-- A string with its quotes. -/
def quote (s : String) : String :=
  s.foldl (fun out c => out ++ escapeChar c) "\"" ++ "\""

mutual

/-- Writes a value behind the text so far. -/
def renderOnto (out : String) : Json → String
  | .null => out ++ "null"
  | .bool true => out ++ "true"
  | .bool false => out ++ "false"
  | .natural n => out ++ Nat.repr n
  | .numeral => out ++ "0.0"
  | .text s => out ++ quote s
  | .garbled => out ++ "\"\\ud800\""
  | .array items => (renderItems (out.push '[') "" items).push ']'
  | .object fields => (renderFields (out.push '\x7b') "" fields).push '\x7d'

/-- Writes the items of an array, each behind a separator that is a comma from the second on. -/
def renderItems (out separator : String) : List Json → String
  | [] => out
  | item :: rest => renderItems (renderOnto (out ++ separator) item) "," rest

/-- Writes the fields of an object, each behind a separator that is a comma from the second on. -/
def renderFields (out separator : String) : List (Option String × Json) → String
  | [] => out
  | (key, value) :: rest =>
    let keyText := match key with
      | some k => quote k
      | none => "\"\\ud800\""
    renderFields (renderOnto (out ++ separator ++ keyText ++ ":") value) "," rest

end

/-- The text of a value. -/
def render (v : Json) : String :=
  renderOnto "" v

end PeerCluster.Json
