import NodeFleet.Net.Host
import NodeFleet.Net.Port

set_option autoImplicit false
namespace NodeFleet

structure Url where
  scheme : String
  port : Option Port
deriving DecidableEq, Repr

namespace Url

def schemePort? (scheme : String) : Option Port :=
  if scheme = "http" ∨ scheme = "ws" then some ⟨80, by decide⟩
  else if scheme = "https" ∨ scheme = "wss" then some ⟨443, by decide⟩
  else if scheme = "ftp" then some ⟨21, by decide⟩
  else none

def effectivePort? (u : Url) : Option Port := u.port.orElse fun _ => schemePort? u.scheme

def isSchemeChar (c : Char) : Bool := c.isAlphanum || c = '+' || c = '-' || c = '.'

/-- Controls and spaces at both ends do not count, nor do tabs and line ends anywhere. -/
def significant (s : String) : List Char :=
  let edge := fun (c : Char) => c.toNat ≤ 0x20
  let inner := ((s.toList.dropWhile edge).reverse.dropWhile edge).reverse
  inner.filter fun c => c ≠ '\t' && c ≠ '\n' && c ≠ '\r'

def readScheme? (cs : List Char) : Option (String × List Char) :=
  let name := cs.takeWhile isSchemeChar
  match name, cs.drop name.length with
  | c :: _, ':' :: r =>
    if c.isAlpha then some (String.ofList (name.map Char.toLower), r) else none
  | _, _ => none

def isSlash (backslash : Bool) (c : Char) : Bool := c = '/' || (backslash && c = '\\')

def authority (known : Bool) (cs : List Char) : List Char :=
  cs.takeWhile fun c => !(isSlash known c || c = '?' || c = '#')

def splitUser (cs : List Char) : Option (List Char) × List Char :=
  match cutAt '@' cs.reverse with
  | (host, some user) => (some user.reverse, host.reverse)
  | _ => (none, cs)

def splitPort : Bool → List Char → List Char × Option (List Char)
  | _, [] => ([], none)
  | inside, c :: r =>
    if c = ':' ∧ !inside then ([], some r)
    else
      let inside := if c = '[' then true else if c = ']' then false else inside
      (c :: (splitPort inside r).1, (splitPort inside r).2)

/-- The port that digits name; the scheme's own port counts as not given. -/
def portOfDigits? (scheme : String) (digits : List Char) : Option (Option Port) :=
  if digits.isEmpty then some none
  else (Port.ofNat? (digitsValue digits)).map fun p =>
    if schemePort? scheme = some p then none else some p

def readPort? (scheme : String) (cs : List Char) : Option (Option Port) :=
  let digits := cs.takeWhile Char.isDigit
  match cs.drop digits.length with
  | [] => portOfDigits? scheme digits
  | c :: _ => if c = '\\' then portOfDigits? scheme digits else none

def readAuthority? (scheme : String) (known : Bool) (cs : List Char) : Option Url :=
  let (user, rest) := splitUser (authority known cs)
  let (host, port) := splitPort false rest
  let named := user.any fun u => !u.isEmpty && u ≠ [':']
  if host.isEmpty ∧ (known ∨ port.isSome ∨ named) then none
  else if host.isEmpty ∧ user = some [] ∧ (cs.drop (authority known cs).length) ≠ [] then none
  else if (if known then Host.isDomain host else Host.isPlain host) then
    match port with
    | none => some ⟨scheme, none⟩
    | some p => (readPort? scheme p).map fun n => ⟨scheme, n⟩
  else none

def readFile? (cs : List Char) : Option Url :=
  match cs with
  | a :: b :: r =>
    if isSlash true a && isSlash true b then
      let host := authority true r
      let isDrive := match host with
        | [l, d] => l.isAlpha && (d = ':' || d = '|')
        | _ => false
      if host.isEmpty || isDrive || Host.isDomain host then some ⟨"file", none⟩ else none
    else some ⟨"file", none⟩
  | _ => some ⟨"file", none⟩

def read? (s : String) : Option Url :=
  match readScheme? (significant s) with
  | none => none
  | some (scheme, r) =>
    if scheme = "file" then readFile? r
    else if (schemePort? scheme).isSome then
      readAuthority? scheme true (r.dropWhile (isSlash true))
    else
      match r with
      | '/' :: '/' :: q => readAuthority? scheme false q
      | _ => some ⟨scheme, none⟩

end Url
end NodeFleet
