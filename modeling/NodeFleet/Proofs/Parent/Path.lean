import NodeFleet.Text.Ascii
import NodeFleet.Text.Cut

set_option autoImplicit false
namespace NodeFleet.Path

/-- The directory one segment further. The root is the directory above itself. -/
def enter (directory : List (List Char)) (segment : List Char) : List (List Char) :=
  if segment = [] ∨ segment = ['.'] then directory
  else if segment = ['.', '.'] then directory.dropLast
  else directory ++ [segment]

def names (path : String) : List (List Char) := (piecesAt '/' path.toList).foldl enter []

def ofNames : List (List Char) → String
  | [] => "/"
  | names => String.ofList (names.flatMap ('/' :: ·))

def normal (path : String) : String := ofNames (names path)

/-- Spelled without repeated or trailing slashes, `.` and `..`. -/
def Plain (path : String) : Prop := normal path = path

instance (path : String) : Decidable (Plain path) := inferInstanceAs (Decidable (_ = _))

structure IsName (segment : List Char) : Prop where
  ne_nil : segment ≠ []
  ne_here : segment ≠ ['.']
  ne_above : segment ≠ ['.', '.']
  one : '/' ∉ segment

instance (segment : List Char) : Decidable (IsName segment) :=
  decidable_of_iff
    (segment ≠ [] ∧ segment ≠ ['.'] ∧ segment ≠ ['.', '.'] ∧ '/' ∉ segment)
    ⟨fun ⟨ne, here, above, one⟩ => ⟨ne, here, above, one⟩,
      fun h => ⟨h.ne_nil, h.ne_here, h.ne_above, h.one⟩⟩

variable {path : String} {segments directory : List (List Char)}

theorem foldl_enter (h : ∀ s ∈ segments, IsName s) :
    segments.foldl enter directory = directory ++ segments := by
  induction segments generalizing directory with
  | nil => exact (List.append_nil directory).symm
  | cons s rest ih =>
    obtain ⟨first, others⟩ := List.forall_mem_cons.mp h
    have step : enter directory s = directory ++ [s] := by
      simp [enter, first.ne_nil, first.ne_here, first.ne_above]
    rw [List.foldl_cons, step, ih others, List.append_assoc]
    rfl

theorem isName_of_mem_enter {s t : List Char} (free : '/' ∉ s) (h : ∀ t ∈ directory, IsName t)
    (mem : t ∈ enter directory s) : IsName t := by
  unfold enter at mem
  split at mem
  · exact h t mem
  · rename_i stays
    split at mem
    · exact h t ((List.dropLast_sublist directory).mem mem)
    · rename_i above
      rcases List.mem_append.mp mem with old | new
      · exact h t old
      · obtain rfl := List.mem_singleton.mp new
        obtain ⟨ne, here⟩ := not_or.mp stays
        exact ⟨ne, here, above, free⟩

theorem isName_of_mem_names {s : List Char} (mem : s ∈ names path) : IsName s := by
  have walked (segments directory : List (List Char)) (free : ∀ s ∈ segments, '/' ∉ s)
      (h : ∀ s ∈ directory, IsName s) : ∀ s ∈ segments.foldl enter directory, IsName s := by
    induction segments generalizing directory with
    | nil => exact h
    | cons s rest ih =>
      obtain ⟨first, others⟩ := List.forall_mem_cons.mp free
      exact ih (enter directory s) others fun t mem => isName_of_mem_enter first h mem
  exact walked _ [] (fun s mem => not_mem_of_mem_piecesAt mem) (by simp) s mem

theorem toList_ofNames (ne : segments ≠ []) :
    (ofNames segments).toList = segments.flatMap ('/' :: ·) := by
  cases segments with
  | nil => exact absurd rfl ne
  | cons s rest => exact String.toList_ofList

theorem names_ofNames (h : ∀ s ∈ segments, IsName s) : names (ofNames segments) = segments := by
  by_cases ne : segments = []
  · subst ne
    decide
  · rw [names, toList_ofNames ne, piecesAt_flatMap fun s mem => (h s mem).one, List.foldl_cons]
    exact foldl_enter h

theorem plain_iff : Plain path ↔ ∃ segments, (∀ s ∈ segments, IsName s) ∧ path = ofNames segments := by
  constructor
  · intro plain
    exact ⟨names path, fun s mem => isName_of_mem_names mem, plain.symm⟩
  · rintro ⟨segments, h, rfl⟩
    exact congrArg ofNames (names_ofNames h)

theorem plain_cons {r : List Char} (h : ∀ s ∈ piecesAt '/' r, IsName s) :
    Plain (String.ofList ('/' :: r)) := by
  refine plain_iff.mpr ⟨piecesAt '/' r, h, String.toList_injective ?_⟩
  rw [toList_ofNames (piecesAt_ne_nil '/' r), flatMap_piecesAt, String.toList_ofList]

theorem isName_of_plain_cons {r : List Char} (plain : Plain (String.ofList ('/' :: r)))
    (ne : r ≠ []) : ∀ s ∈ piecesAt '/' r, IsName s := by
  obtain ⟨segments, h, same⟩ := plain_iff.mp plain
  have some : segments ≠ [] := by
    rintro rfl
    have lists := congrArg String.toList same
    rw [String.toList_ofList] at lists
    exact ne (List.cons.inj lists).2
  have lists := congrArg String.toList same
  rw [String.toList_ofList, toList_ofNames some] at lists
  have pieces := congrArg (piecesAt '/') lists
  rw [piecesAt_flatMap fun s mem => (h s mem).one, piecesAt, if_pos rfl] at pieces
  rwa [(List.cons.inj pieces).2]

theorem toLower_eq_slash {c : Char} (h : c.toLower = '/') : c = '/' := by
  unfold Char.toLower at h
  split at h
  · rename_i upper
    have least : 65 ≤ c.val.toNat := UInt32.le_iff_toNat_le.mp upper.1
    have greatest : c.val.toNat ≤ 90 := UInt32.le_iff_toNat_le.mp upper.2
    have value := congrArg (fun d : Char => d.val.toNat) h
    simp only [UInt32.toNat_add] at value
    change (c.val.toNat + 32) % 4294967296 = 47 at value
    omega
  · exact h

theorem IsName.of_lower {s : List Char} (h : IsName (s.map Char.toLower)) : IsName s where
  ne_nil := by
    rintro rfl
    exact h.ne_nil rfl
  ne_here := by
    rintro rfl
    exact h.ne_here rfl
  ne_above := by
    rintro rfl
    exact h.ne_above rfl
  one mem := h.one (List.mem_map.mpr ⟨'/', mem, rfl⟩)

theorem piecesAt_map_toLower (cs : List Char) :
    piecesAt '/' (cs.map Char.toLower) = (piecesAt '/' cs).map (List.map Char.toLower) := by
  induction cs with
  | nil => rfl
  | cons x xs ih =>
    by_cases slash : x = '/'
    · subst slash
      simp [piecesAt, ih]
    · have other : x.toLower ≠ '/' := fun same => slash (toLower_eq_slash same)
      rw [List.map_cons, piecesAt, if_neg other, piecesAt, if_neg slash, ih]
      cases piecesAt '/' xs <;> rfl

theorem plain_of_lower {r : List Char} (low : path.toList.map Char.toLower = '/' :: r)
    (h : ∀ s ∈ piecesAt '/' r, IsName s) : Plain path := by
  obtain ⟨c, t, text, slash, rfl⟩ := List.map_eq_cons_iff.mp low
  obtain rfl := toLower_eq_slash slash
  have all : ∀ s ∈ piecesAt '/' t, IsName s := by
    intro s mem
    refine IsName.of_lower (h _ ?_)
    rw [piecesAt_map_toLower]
    exact List.mem_map_of_mem mem
  have spelled := plain_cons all
  rwa [← text, String.ofList_toList] at spelled

end NodeFleet.Path
