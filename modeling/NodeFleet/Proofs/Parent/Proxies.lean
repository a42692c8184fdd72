import Mathlib
import NodeFleet.Parent.Proxy

set_option autoImplicit false
namespace NodeFleet
namespace ProxyVariables

def keyOf (entry : String) : String := String.ofList (entry.toList.takeWhile (· ≠ '='))

def valueOf (entry : String) : String :=
  String.ofList ((entry.toList.dropWhile (· ≠ '=')).drop 1)

def nodeNames : Table String :=
  [("dockgrid_http_proxy", "http_proxy"), ("dockgrid_https_proxy", "https_proxy"),
    ("dockgrid_no_proxy", "no_proxy")]

/-- What an entry under one of the keys is handed on as. -/
def handedOn? (entry : String) : Option String :=
  (nodeNames.get? (keyOf entry)).map fun name => name ++ "=" ++ valueOf entry

theorem nodeNames_eq : nodeNames = variableNames.map fun name => (ownPrefix ++ name, name) := by
  decide

theorem get?_withPrefix (names : List String) (name : String) :
    Table.get? (names.map fun n => (ownPrefix ++ n, n)) (ownPrefix ++ name) =
      if names.contains name then some name else none := by
  induction names with
  | nil => rfl
  | cons n r ih =>
    rw [List.map_cons, Table.get?, ih, List.contains_cons]
    by_cases own : n = name
    · simp [own]
    · have other : ownPrefix ++ n ≠ ownPrefix ++ name := fun same => own (by simpa using same)
      simp [other, Ne.symm own]

theorem get?_withoutPrefix (names : List String) {key : String}
    (other : ¬ ownPrefix.toList <+: key.toList) :
    Table.get? (names.map fun n => (ownPrefix ++ n, n)) key = none := by
  induction names with
  | nil => rfl
  | cons n r ih =>
    have ne : ownPrefix ++ n ≠ key := by
      rintro rfl
      exact other (by simp)
    rw [List.map_cons, Table.get?, if_neg ne, ih]

theorem nodeEntry?_eq_handedOn? (entry : String) : nodeEntry? entry = handedOn? entry := by
  have key : (entry.toList.takeWhile (· ≠ '=')) = (keyOf entry).toList := by simp [keyOf]
  simp only [cutAt_fst, nodeEntry?, cutAt_snd, handedOn?, nodeNames_eq, key,
    List.isPrefixOf_iff_prefix]
  by_cases own : ownPrefix.toList <+: (keyOf entry).toList
  · obtain ⟨rest, split⟩ := own
    have named : keyOf entry = ownPrefix ++ String.ofList rest := by
      rw [← String.toList_inj, ← split]
      simp
    have left : (keyOf entry).toList.drop ownPrefix.toList.length = rest := by
      rw [← split, List.drop_left]
    rw [if_pos ⟨rest, split⟩, left, named, get?_withPrefix]
    split <;> rfl
  · rw [if_neg own, get?_withoutPrefix variableNames own]
    rfl

theorem insertAll_concat (p : ProxyVariables) (entries : List String) (last : String) :
    p.insertAll (entries ++ [last]) = (p.insertAll entries).insert last := by
  simp [insertAll]

theorem entries_insertAll (entries : List String) :
    (empty.insertAll entries).entries = entries.eraseDups := by
  induction entries using List.reverseRecOn with
  | nil => rfl
  | append_singleton entries last ih =>
    rw [insertAll_concat, List.eraseDups_append]
    by_cases known : last ∈ entries
    · rw [insert_of_mem (by rwa [ih, List.mem_eraseDups]), ih]
      simp [List.removeAll, known]
    · rw [insert_entries_of_not_mem (by rwa [ih, List.mem_eraseDups]), ih]
      simp [List.removeAll, known, List.eraseDups_cons]

theorem entries_ofParent (env : List String) :
    (ofParent env).entries = (env.filterMap handedOn?).eraseDups := by
  rw [ofParent, entries_insertAll, funext nodeEntry?_eq_handedOn?]

theorem nodup_insertAll {p : ProxyVariables} (h : p.entries.Nodup) (entries : List String) :
    (p.insertAll entries).entries.Nodup := by
  induction entries generalizing p with
  | nil => exact h
  | cons e r ih => exact ih (nodup_insert e h)

/-- The proxy variables for nodes are the entries of the parent under its three keys, in their order,
each under the name for nodes and with its value as it stands, and of equal ones the first. So no two
are the same, more entries of the parent only add to them, and entries given again add nothing. -/
theorem proxies_are_handed_on_once (xs ys : List String) :
    (ofParent xs).entries = (xs.filterMap handedOn?).eraseDups ∧ (ofParent xs).entries.Nodup ∧
      (ofParent xs).entries <+: (ofParent (xs ++ ys)).entries ∧
      ofParent (xs ++ xs) = ofParent xs := by
  have whole (zs : List String) : (ofParent (xs ++ zs)).entries = (ofParent xs).entries ++
      ((zs.filterMap handedOn?).removeAll (xs.filterMap handedOn?)).eraseDups := by
    rw [entries_ofParent, List.filterMap_append, List.eraseDups_append, ← entries_ofParent]
  refine ⟨entries_ofParent xs, nodup_insertAll List.nodup_nil _, ?_, ?_⟩
  · rw [whole]
    exact List.prefix_append _ _
  · have nothing : (xs.filterMap handedOn?).removeAll (xs.filterMap handedOn?) = [] :=
      List.filter_eq_nil_iff.mpr fun e mem => by simpa using mem
    have twice : (ofParent (xs ++ xs)).entries = (ofParent xs).entries := by
      rw [whole, nothing, List.eraseDups_nil, List.append_nil]
    exact congrArg mk twice

example : (ofParent ["dockgrid_no_proxy", "PATH=/bin", "dockgrid_http_proxy=a=b",
    "dockgrid_no_proxy=", "dockgrid_dockgrid_no_proxy=c"]).entries =
      ["no_proxy=", "http_proxy=a=b"] := by decide

end ProxyVariables
end NodeFleet
