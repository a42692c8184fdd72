import NodeFleet.Json.Basic

set_option autoImplicit false
namespace NodeFleet
namespace Json

def hexDigit (n : Nat) : Char := (Nat.toDigits 16 n).headD '0'

def escape (c : Char) : String :=
  if c = '"' then "\\\""
  else if c = '\\' then "\\\\"
  else if c = '\x08' then "\\b"
  else if c = '\x0c' then "\\f"
  else if c = '\n' then "\\n"
  else if c = '\r' then "\\r"
  else if c = '\t' then "\\t"
  else if c.toNat < 0x20 then
    "\\u00" ++ String.ofList [hexDigit (c.toNat / 16), hexDigit (c.toNat % 16)]
  else String.singleton c

def renderText (s : String) : String := "\"" ++ String.join (s.toList.map escape) ++ "\""

mutual
def render : Json → String
  | .null => "null"
  | .bool b => if b then "true" else "false"
  | .integer n => toString n
  | .float x => x.jsonText
  | .text s => renderText s
  | .list items => "[" ++ String.intercalate "," (renderItems items) ++ "]"
  | .object fields => "\x7b" ++ String.intercalate "," (renderFields fields) ++ "\x7d"
def renderItems : List Json → List String
  | [] => []
  | v :: r => v.render :: renderItems r
def renderFields : List (String × Json) → List String
  | [] => []
  | (k, v) :: r => (renderText k ++ ":" ++ v.render) :: renderFields r
end

end Json
end NodeFleet
