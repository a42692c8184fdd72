import NodeFleet.Net.IpAddress
import NodeFleet.Net.Port

set_option autoImplicit false
namespace NodeFleet

structure SocketAddress where
  ip : IpAddress
  scope : Nat
  port : Port
deriving DecidableEq, Repr

namespace SocketAddress

def readDecimal? (max : Nat) (cs : List Char) : Option (Nat × List Char) :=
  let digits := cs.takeWhile Char.isDigit
  if digits.isEmpty then none
  else if digitsValue digits ≤ max then some (digitsValue digits, cs.drop digits.length)
  else none

def readPort? (cs : List Char) : Option (Port × List Char) := do
  let (n, r) ← readDecimal? maxU16 (← IpAddress.expect? ':' cs)
  pure (← Port.ofNat? n, r)

def readScope (cs : List Char) : Nat × List Char :=
  match (IpAddress.expect? '%' cs).bind (readDecimal? maxU32) with
  | some p => p
  | none => (0, cs)

def readShort? (cs : List Char) : Option (SocketAddress × List Char) := do
  let (os, r) ← IpAddress.readV4? cs
  let (port, r) ← readPort? r
  return (⟨.v4 os, 0, port⟩, r)

def readLong? (cs : List Char) : Option (SocketAddress × List Char) := do
  let (gs, r) ← IpAddress.readV6? (← IpAddress.expect? '[' cs)
  let (scope, r) := readScope r
  let (port, r) ← readPort? (← IpAddress.expect? ']' r)
  return (⟨.v6 gs, scope, port⟩, r)

def read? (s : String) : Option SocketAddress :=
  match (readShort? s.toList).orElse fun _ => readLong? s.toList with
  | some (a, []) => some a
  | _ => none

def render (a : SocketAddress) : String :=
  match a.ip with
  | .v4 _ => a.ip.render ++ ":" ++ a.port.text
  | .v6 _ =>
    let scope := if a.scope = 0 then "" else "%" ++ toString a.scope
    "[" ++ a.ip.render ++ scope ++ "]:" ++ a.port.text

end SocketAddress
end NodeFleet
