import NodeFleet.Json.Record
import NodeFleet.Text.Cut

set_option autoImplicit false
namespace NodeFleet

structure ProxyVariables where
  entries : List String
deriving DecidableEq, Repr, Inhabited

namespace ProxyVariables

def empty : ProxyVariables := ⟨[]⟩

def isEmpty (p : ProxyVariables) : Bool := p.entries.isEmpty

def insert (p : ProxyVariables) (entry : String) : ProxyVariables :=
  if p.entries.contains entry then p else ⟨p.entries ++ [entry]⟩

def insertAll (p : ProxyVariables) (entries : List String) : ProxyVariables :=
  entries.foldl insert p

def ownPrefix : String := "dockgrid_"

def variableNames : List String := ["http_proxy", "https_proxy", "no_proxy"]

/-- The entry under which nodes see a variable of the parent; a missing value is empty. -/
def nodeEntry? (entry : String) : Option String :=
  let (key, value) := cutAt '=' entry.toList
  if ownPrefix.toList.isPrefixOf key then
    let name := String.ofList (key.drop ownPrefix.toList.length)
    if variableNames.contains name then
      some (name ++ "=" ++ String.ofList (value.getD []))
    else none
  else none

def ofParent (env : List String) : ProxyVariables := empty.insertAll (env.filterMap nodeEntry?)

def fieldNames : List String := ["entries"]

def ofJson? (v : Json) : Option ProxyVariables :=
  match v.record? fieldNames with
  | some [some entries] => entries.asTexts?.map .mk
  | _ => none

def toJson (p : ProxyVariables) : Json := .object [("entries", Json.ofTexts p.entries)]

theorem insert_of_mem {p : ProxyVariables} {e : String} (h : e ∈ p.entries) : p.insert e = p := by
  simp [insert, h]

theorem insert_entries_of_not_mem {p : ProxyVariables} {e : String} (h : e ∉ p.entries) :
    (p.insert e).entries = p.entries ++ [e] := by
  simp [insert, h]

theorem nodup_insert {p : ProxyVariables} (e : String) (h : p.entries.Nodup) :
    (p.insert e).entries.Nodup := by
  by_cases he : e ∈ p.entries
  · rwa [insert_of_mem he]
  · rw [insert_entries_of_not_mem he, List.nodup_append]
    exact ⟨h, by simp, by rintro a ha b hb rfl; exact he (by simpa [List.mem_singleton.mp hb] using ha)⟩

end ProxyVariables
end NodeFleet
