import PeerCluster.Json.Value
import PeerCluster.Text.Ascii
import PeerCluster.Text.Utf8
import PeerCluster.Text.Hex

/-!
# JSON tokens

The words of a JSON text. A string is cut into pieces first and only then turned into text, because
a string in a place that is skipped has to be well cut but need not name any text.
-/

namespace PeerCluster.Json

/-- A word of a JSON text. -/
inductive Token where
  | openBracket
  | closeBracket
  | openBrace
  | closeBrace
  | comma
  | colon
  /-- `null`, a truth value or a numeral. -/
  | scalar (v : Json)
  /-- A string, `none` when it is garbled. -/
  | string (s : Option String)

/-! ## Strings -/

/-- A piece of a string. -/
inductive Piece where
  /-- A byte that stands for itself, or the one that a short escape names. -/
  | byte (b : UInt8)
  /-- A sixteen-bit unit given by four hexadecimal digits. -/
  | unit (u : Nat)

/-- The byte that a short escape names. -/
def shortEscape? : UInt8 → Option UInt8
  | Ascii.quote => some Ascii.quote
  | Ascii.backslash => some Ascii.backslash
  | Ascii.slash => some Ascii.slash
  | Ascii.lowerB => some 0x08
  | Ascii.lowerF => some 0x0C
  | Ascii.lowerN => some Ascii.lineFeed
  | Ascii.lowerR => some Ascii.carriageReturn
  | Ascii.lowerT => some Ascii.tab
  | _ => none

/-- The unit that four hexadecimal digits name. -/
def unit? (ds : List UInt8) : Option Nat :=
  Hex.toNat? (ds.map fun d => Char.ofNat d.toNat)

/-- Cuts what follows an opening quote into pieces, and gives what follows the closing one. -/
def pieces? (done : List Piece) : List UInt8 → Option (List Piece × List UInt8)
  | [] => none
  | Ascii.quote :: rest => some (done.reverse, rest)
  | Ascii.backslash :: Ascii.lowerU :: a :: b :: c :: d :: rest =>
    match unit? [a, b, c, d] with
    | some u => pieces? (.unit u :: done) rest
    | none => none
  | Ascii.backslash :: e :: rest =>
    match shortEscape? e with
    | some b => pieces? (.byte b :: done) rest
    | none => none
  | b :: rest => if b < Ascii.space then none else pieces? (.byte b :: done) rest

/-- Whether a unit is the first half of a surrogate pair. -/
def isLeadSurrogate (u : Nat) : Bool :=
  0xD800 ≤ u && u ≤ 0xDBFF

/-- Whether a unit is the second half of a surrogate pair. -/
def isTrailSurrogate (u : Nat) : Bool :=
  0xDC00 ≤ u && u ≤ 0xDFFF

/-- The bytes of the character with the given code point. -/
def charBytes (code : Nat) : List UInt8 :=
  String.utf8EncodeChar (Char.ofNat code)

/-- The bytes that pieces name, onto those found so far (last first); `none` when half a surrogate
pair stands alone. -/
def pieceBytes? (done : List UInt8) : List Piece → Option (List UInt8)
  | [] => some done.reverse
  | .byte b :: rest => pieceBytes? (b :: done) rest
  | .unit u :: rest =>
    if isLeadSurrogate u then
      match rest with
      | .unit v :: rest =>
        if isTrailSurrogate v then
          pieceBytes? ((charBytes (0x10000 + (u - 0xD800) * 0x400 + (v - 0xDC00))).reverse ++ done)
            rest
        else none
      | _ => none
    else if isTrailSurrogate u then none
    else pieceBytes? ((charBytes u).reverse ++ done) rest

/-- The text that pieces name, if they name one. -/
def pieceText? (ps : List Piece) : Option String := do
  let bs ← pieceBytes? [] ps
  String.fromUTF8? bs.toByteArray

/-! ## Numerals -/

/-- Takes the digits at the front. -/
def takeDigits (bs : List UInt8) : List UInt8 × List UInt8 :=
  bs.span Ascii.isDigit

/-- Drops a fraction, and says whether there was one; `none` when its digits are missing. -/
def skipFraction? : List UInt8 → Option (Bool × List UInt8)
  | Ascii.dot :: rest =>
    let (ds, rest) := takeDigits rest
    if ds.isEmpty then none else some (true, rest)
  | rest => some (false, rest)

/-- Drops a sign. -/
def skipSign : List UInt8 → List UInt8
  | Ascii.plus :: rest => rest
  | Ascii.minus :: rest => rest
  | rest => rest

/-- Drops an exponent, and says whether there was one; `none` when its digits are missing. -/
def skipExponent? : List UInt8 → Option (Bool × List UInt8)
  | Ascii.lowerE :: rest => digitsAfter (skipSign rest)
  | Ascii.upperE :: rest => digitsAfter (skipSign rest)
  | rest => some (false, rest)
where
  /-- Drops the digits of an exponent. -/
  digitsAfter (rest : List UInt8) : Option (Bool × List UInt8) :=
    let (ds, rest) := takeDigits rest
    if ds.isEmpty then none else some (true, rest)

/-- The natural that decimal digits denote. -/
def decimal (ds : List UInt8) : Nat :=
  Radix.value 10 (ds.map fun d => d.toNat - Ascii.zero.toNat)

/-- Whether digits are written without a needless zero in front. -/
def isPlain : List UInt8 → Bool
  | [] => false
  | [_] => true
  | d :: _ => d != Ascii.zero

/-- The numeral at the front. -/
def numeral? (bs : List UInt8) : Option (Json × List UInt8) := do
  let (negative, bs) := match bs with
    | Ascii.minus :: rest => (true, rest)
    | bs => (false, bs)
  let (ds, rest) := takeDigits bs
  guard (isPlain ds)
  let (fraction, rest) ← skipFraction? rest
  let (exponent, rest) ← skipExponent? rest
  return (if negative || fraction || exponent then .numeral else .natural (decimal ds), rest)

/-! ## All tokens -/

/-- Whether a byte is white space between tokens. -/
def isBlank (b : UInt8) : Bool :=
  b == Ascii.space || b == Ascii.lineFeed || b == Ascii.carriageReturn || b == Ascii.tab

/-- The scalar written as the given word, if the bytes start with it. -/
def keyword? (word : String) (v : Json) (bs : List UInt8) : Option (Token × List UInt8) :=
  let w := Ascii.word word
  if w.isPrefixOf bs then some (.scalar v, bs.drop w.length) else none

/-- The token at the front of bytes that start with the byte `b`, which is no white space. -/
def token? (b : UInt8) (rest : List UInt8) : Option (Token × List UInt8) :=
  match b with
  | Ascii.openBracket => some (.openBracket, rest)
  | Ascii.closeBracket => some (.closeBracket, rest)
  | Ascii.openBrace => some (.openBrace, rest)
  | Ascii.closeBrace => some (.closeBrace, rest)
  | Ascii.comma => some (.comma, rest)
  | Ascii.colon => some (.colon, rest)
  | Ascii.quote => (pieces? [] rest).map fun (ps, rest) => (.string (pieceText? ps), rest)
  | Ascii.lowerN => keyword? "null" .null (b :: rest)
  | Ascii.lowerT => keyword? "true" (.bool true) (b :: rest)
  | Ascii.lowerF => keyword? "false" (.bool false) (b :: rest)
  | _ => (numeral? (b :: rest)).map fun (v, rest) => (.scalar v, rest)

/-- The tokens of some bytes behind those found so far (last first), with a bound on the bytes left
to read. -/
def tokensFrom? (done : List Token) : (bound : Nat) → List UInt8 → Option (List Token)
  | _, [] => some done.reverse
  | 0, _ :: _ => none
  | bound + 1, b :: rest =>
    if isBlank b then tokensFrom? done bound rest
    else match token? b rest with
      | some (t, rest) => tokensFrom? (t :: done) bound rest
      | none => none

/-- The tokens of some bytes. Every token takes at least one byte, so the length bounds them. -/
def tokens? (bs : List UInt8) : Option (List Token) :=
  tokensFrom? [] bs.length bs

end PeerCluster.Json
