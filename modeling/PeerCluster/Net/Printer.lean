import PeerCluster.Net.Address
import PeerCluster.Text.Hex

/-!
# The text of an address

An address of version 4 is four decimal numbers with dots between. An address of version 6 is its
groups in hexadecimal with colons between, where the first longest run of two or more zero groups is
left out, and the part that stands for an address of version 4 is written as one.
-/

namespace PeerCluster

/-- The text of an address of version 4. -/
def IPv4.render (ip : IPv4) : String :=
  ".".intercalate (ip.octets.toList.map fun o => Nat.repr o.toNat)

namespace IPv6

/-- A run of groups, by where it starts and how long it is. -/
structure Run where
  start : Nat
  length : Nat

/-- The first longest run of zero groups, given the run that ends before the next group and the
longest run so far. -/
def longestRun (current longest : Run) (place : Nat) : List UInt16 → Run
  | [] => longest
  | g :: rest =>
    if g = 0 then
      let current : Run :=
        if current.length = 0 then ⟨place, 1⟩ else ⟨current.start, current.length + 1⟩
      longestRun current (if longest.length < current.length then current else longest) (place + 1)
        rest
    else longestRun ⟨0, 0⟩ longest (place + 1) rest

/-- Groups in hexadecimal with colons between. -/
def renderGroups (gs : List UInt16) : String :=
  ":".intercalate (gs.map fun g => Hex.shortest g.toNat)

/-- The text of an address of version 6. -/
def render (ip : IPv6) : String :=
  match ip.mapped? with
  | some four => "::ffff:" ++ four.render
  | none =>
    let gs := ip.groups.toList
    let run := longestRun ⟨0, 0⟩ ⟨0, 0⟩ 0 gs
    if 1 < run.length then
      renderGroups (gs.take run.start) ++ "::" ++ renderGroups (gs.drop (run.start + run.length))
    else renderGroups gs

end IPv6

/-- The text of an address. -/
def IPAddress.render : IPAddress → String
  | .v4 ip => ip.render
  | .v6 ip => ip.render

/-- The text of an address with a port, where an address of version 6 stands in brackets. -/
def SocketAddress.render : SocketAddress → String
  | .v4 ip port => ip.render ++ ":" ++ Nat.repr port.toNat
  | .v6 ip scope port =>
    let scopeText := if scope = 0 then "" else "%" ++ Nat.repr scope.toNat
    "[" ++ ip.render ++ scopeText ++ "]:" ++ Nat.repr port.toNat

end PeerCluster
