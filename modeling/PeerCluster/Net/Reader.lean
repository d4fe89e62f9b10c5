import PeerCluster.Net.Address
import PeerCluster.Text.Hex

/-!
# Reading an address

Each reader takes an address from the front of some text and gives what follows it; an address is
read from a text that holds nothing else.

* A number of version 4 has at most three digits, none of them a needless zero in front.
* A group of version 6 has at most four digits. Two colons stand for one or more zero groups, once,
  and the last two groups may be written as an address of version 4.
-/

namespace PeerCluster.Net

/-- How a number is written. -/
structure Numeral where
  base : Nat
  /-- The most digits, if there is a limit. -/
  widest : Option Nat
  /-- Whether zeros may stand in front. -/
  leadingZeros : Bool

/-- A number between dots. -/
def Numeral.octet : Numeral := ⟨10, some 3, false⟩

/-- A number between colons. -/
def Numeral.group : Numeral := ⟨16, some 4, true⟩

/-- A port or a scope. -/
def Numeral.plain : Numeral := ⟨10, none, true⟩

/-- The value of a digit in a base up to sixteen. -/
def digitValue? (base : Nat) (c : Char) : Option Nat :=
  (Hex.value? c).filter (· < base)

/-- Takes the digits at the front. -/
def takeDigits (base : Nat) : List Char → List Nat × List Char
  | [] => ([], [])
  | c :: rest =>
    match digitValue? base c with
    | some d =>
      let (ds, rest) := takeDigits base rest
      (d :: ds, rest)
    | none => ([], c :: rest)

/-- The number below a bound at the front. -/
def number? (form : Numeral) (bound : Nat) (cs : List Char) : Option (Nat × List Char) :=
  let (ds, rest) := takeDigits form.base cs
  let n := Radix.value form.base ds
  if ds.isEmpty || form.widest.any (· < ds.length) then none
  else if !form.leadingZeros && ds.head? == some 0 && 1 < ds.length then none
  else if bound ≤ n then none
  else some (n, rest)

/-- Drops the given character from the front. -/
def after? (c : Char) : List Char → Option (List Char)
  | [] => none
  | d :: rest => if d = c then some rest else none

/-- The number between dots at the front. -/
def octet? (cs : List Char) : Option (UInt8 × List Char) := do
  let (n, rest) ← number? .octet UInt8.size cs
  return (n.toUInt8, rest)

/-- The address of version 4 at the front. -/
def ipv4? (cs : List Char) : Option (IPv4 × List Char) := do
  let (a, cs) ← octet? cs
  let (b, cs) ← octet? (← after? '.' cs)
  let (c, cs) ← octet? (← after? '.' cs)
  let (d, cs) ← octet? (← after? '.' cs)
  return (.ofOctets a b c d, cs)

/-- Groups of version 6 found at the front of a text. -/
structure Groups where
  found : List UInt16
  /-- Whether the last two were written as an address of version 4. -/
  dotted : Bool
  rest : List Char

/-- Takes at most `room` groups from the front, where every one but the first has a colon before
it. -/
def takeGroups (first : Bool) : (room : Nat) → List Char → Groups
  | 0, cs => ⟨[], false, cs⟩
  | room + 1, cs =>
    match if first then some cs else after? ':' cs with
    | none => ⟨[], false, cs⟩
    | some start =>
      match if room = 0 then none else ipv4? start with
      | some (ip, rest) => ⟨ip.words, true, rest⟩
      | none =>
        match number? .group UInt16.size start with
        | none => ⟨[], false, cs⟩
        | some (g, rest) =>
          let more := takeGroups false room rest
          { more with found := g.toUInt16 :: more.found }

/-- The address with the given groups. -/
def ofGroups? (gs : List UInt16) : Option IPv6 :=
  if h : gs.length = 8 then some ⟨⟨gs.toArray, by simpa using h⟩⟩ else none

/-- The address of version 6 at the front. -/
def ipv6? (cs : List Char) : Option (IPv6 × List Char) := do
  let head := takeGroups true 8 cs
  if head.found.length = 8 then
    return (← ofGroups? head.found, head.rest)
  else
    guard !head.dotted
    let cs ← after? ':' (← after? ':' head.rest)
    let tail := takeGroups true (7 - head.found.length) cs
    let zeros := 8 - head.found.length - tail.found.length
    return (← ofGroups? (head.found ++ List.replicate zeros 0 ++ tail.found), tail.rest)

/-- The address at the front. -/
def ipAddress? (cs : List Char) : Option (IPAddress × List Char) :=
  match ipv4? cs with
  | some (ip, rest) => some (.v4 ip, rest)
  | none => (ipv6? cs).map fun (ip, rest) => (.v6 ip, rest)

/-- The port at the front, behind its colon. -/
def port? (cs : List Char) : Option (UInt16 × List Char) := do
  let (n, rest) ← number? .plain UInt16.size (← after? ':' cs)
  return (n.toUInt16, rest)

/-- The scope at the front, behind its percent sign; zero when there is none. -/
def scope (cs : List Char) : UInt32 × List Char :=
  match after? '%' cs >>= number? .plain UInt32.size with
  | some (n, rest) => (n.toUInt32, rest)
  | none => (0, cs)

/-- The address with a port at the front. -/
def socketAddress? (cs : List Char) : Option (SocketAddress × List Char) :=
  match ipv4WithPort? cs with
  | some found => some found
  | none => ipv6WithPort? cs
where
  /-- An address of version 4 with a port. -/
  ipv4WithPort? (cs : List Char) : Option (SocketAddress × List Char) := do
    let (ip, cs) ← ipv4? cs
    let (port, cs) ← port? cs
    return (.v4 ip port, cs)
  /-- An address of version 6 in brackets with a port. -/
  ipv6WithPort? (cs : List Char) : Option (SocketAddress × List Char) := do
    let (ip, cs) ← ipv6? (← after? '[' cs)
    let (scope, cs) := scope cs
    let (port, cs) ← port? (← after? ']' cs)
    return (.v6 ip scope port, cs)

/-- What a reader finds in a text that holds nothing else. -/
def whole? {α : Type} (read : List Char → Option (α × List Char)) (text : String) : Option α := do
  let (a, rest) ← read text.toList
  guard rest.isEmpty
  return a

end PeerCluster.Net

namespace PeerCluster

/-- The address that a text writes. -/
def IPAddress.ofText? (text : String) : Option IPAddress :=
  Net.whole? Net.ipAddress? text

/-- The address with a port that a text writes. -/
def SocketAddress.ofText? (text : String) : Option SocketAddress :=
  Net.whole? Net.socketAddress? text

end PeerCluster
