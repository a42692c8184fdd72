import NodeFleet.Text.Cut

set_option autoImplicit false
namespace NodeFleet
namespace SettingsFile

def isSpace (c : Char) : Bool := c = ' ' || c = '\t'

def skipSpace (cs : List Char) : List Char := cs.dropWhile isSpace

def trimSpace (cs : List Char) : List Char := (cs.reverse.dropWhile isSpace).reverse

def isRest (cs : List Char) : Bool :=
  match skipSpace cs with
  | [] => true
  | c :: _ => c = '#'

def lines (s : String) : List (List Char) :=
  (piecesAt '\n' s.toList).map fun l => if l.getLast? = some '\r' then l.dropLast else l

end SettingsFile
end NodeFleet
