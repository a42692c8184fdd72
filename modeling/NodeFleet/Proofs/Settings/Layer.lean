import Mathlib
import NodeFleet.Settings.Load
/-!
Sources laid over each other. An entry of a source can be spelled out as tables one inside another,
and laying the source over a root puts these tables there one by one. Below one key only what was
given for that key counts. An empty table changes nothing; apart from such tables the value that was
given last decides, because nothing is read from a table.
-/

set_option autoImplicit false
namespace NodeFleet

/-! ### Lower case -/

theorem toLower_ne_kelvin {c : Char} (h : c ≠ '\u212a') : c.toLower ≠ '\u212a' := by
  by_cases upper : c.isUpper
  · intro same
    have lower : c.toLower.isLower = true := by simp [Char.isAlpha, upper]
    rw [same] at lower
    exact absurd lower (by decide)
  · rwa [Char.toLower_eq_of_not_isUpper upper]

theorem lowerLetter_lowerLetter (c : Char) : lowerLetter (lowerLetter c) = lowerLetter c := by
  by_cases kelvin : c = '\u212a'
  · subst kelvin
    rfl
  · rw [lowerLetter, lowerLetter, if_neg kelvin, if_neg (toLower_ne_kelvin kelvin),
      Char.toLower_toLower_eq_toLower]

theorem lowerKey_lowerKey (s : String) : lowerKey (lowerKey s) = lowerKey s := by
  simp [lowerKey, Function.comp_def, lowerLetter_lowerLetter]

namespace SettingValue

def isTable : SettingValue → Bool
  | .table _ => true
  | _ => false

def isEmptyTable : SettingValue → Bool
  | .table [] => true
  | _ => false

/-- A value at the end of a path as tables one inside another, down to the first list. -/
def nest : List Step → SettingValue → SettingValue
  | [], v => v
  | .name key :: r, v => .table [(key, nest r v)]
  | .position _ :: _, _ => .list []

mutual
/-- A value without the items of its lists. -/
def outline : SettingValue → SettingValue
  | .list _ => .list []
  | .table entries => .table (outlineAll entries)
  | v => v
def outlineAll : List (String × SettingValue) → List (String × SettingValue)
  | [] => []
  | (key, v) :: r => (key, outline v) :: outlineAll r
end

def spelled (source : List (String × SettingValue)) : List (String × SettingValue) :=
  source.flatMap fun e => entriesOf (nest (pathOf (lowerKey e.1)) e.2)

def overlay (old : Option SettingValue) : SettingValue → Option SettingValue
  | .table entries => some (putAll (old.getD (.table [])) entries)
  | v => some v

def given (key : String) (entries : List (String × SettingValue)) : List SettingValue :=
  (entries.filter fun e => lowerKey e.1 = key).map (·.2)

def givenAt : List String → List (String × SettingValue) → List SettingValue
  | [], _ => []
  | [key], entries => given key entries
  | key :: r, entries => givenAt r ((given key entries).flatMap entriesOf)

def at? : List String → SettingValue → Option SettingValue
  | [], v => some v
  | key :: r, v => ((entriesOf v).get? key).bind (at? r)

theorem exists_of_isTable {v : SettingValue} (h : v.isTable) : ∃ entries, v = .table entries := by
  cases v with
  | table entries => exact ⟨entries, rfl⟩
  | _ => cases h

theorem put_of_not_isTable {v : SettingValue} (h : v.isTable = false) (root : SettingValue)
    (key : String) : put root key v = .table ((entriesOf root).insert key v) := by
  cases v with
  | table => cases h
  | _ => rw [put]; simp

theorem overlay_of_not_isTable {v : SettingValue} (h : v.isTable = false)
    (old : Option SettingValue) : overlay old v = some v := by
  cases v with
  | table => cases h
  | _ => rfl

theorem spelled_cons (e : String × SettingValue) (rest : List (String × SettingValue)) :
    spelled (e :: rest) = entriesOf (nest (pathOf (lowerKey e.1)) e.2) ++ spelled rest :=
  List.flatMap_cons

theorem given_cons (key k : String) (v : SettingValue) (rest : List (String × SettingValue)) :
    given key ((k, v) :: rest) =
      if lowerKey k = key then v :: given key rest else given key rest := by
  unfold given
  split
  · rename_i same
    rw [List.filter_cons_of_pos (by simpa using same)]
    rfl
  · rename_i different
    rw [List.filter_cons_of_neg (by simpa using different)]

theorem givenAt_cons (key next : String) (r : List String)
    (entries : List (String × SettingValue)) : givenAt (key :: next :: r) entries =
      givenAt (next :: r) ((given key entries).flatMap entriesOf) := rfl

/-! ### Values without the items of their lists -/

theorem outlineAll_eq_map (entries : List (String × SettingValue)) :
    outlineAll entries = entries.map fun e => (e.1, outline e.2) := by
  induction entries with
  | nil => rw [outlineAll, List.map_nil]
  | cons e r ih => rw [outlineAll, ih, List.map_cons]

theorem outlineAll_append (entries more : List (String × SettingValue)) :
    outlineAll (entries ++ more) = outlineAll entries ++ outlineAll more := by
  simp only [outlineAll_eq_map, List.map_append]

theorem entriesOf_outline (v : SettingValue) : entriesOf (outline v) = outlineAll (entriesOf v) := by
  cases v <;> simp [outline, entriesOf, outlineAll]

theorem isTable_outline (v : SettingValue) : (outline v).isTable = v.isTable := by
  cases v <;> simp [outline, isTable]

theorem isEmptyTable_outline (v : SettingValue) : (outline v).isEmptyTable = v.isEmptyTable := by
  cases v with
  | table entries => cases entries <;> simp [outline, outlineAll, isEmptyTable]
  | _ => simp [outline, isEmptyTable]

theorem get?_outlineAll (entries : Table SettingValue) (key : String) :
    Table.get? (outlineAll entries) key = (entries.get? key).map outline := by
  induction entries with
  | nil => rw [outlineAll]; rfl
  | cons e r ih =>
    rw [outlineAll, Table.get?, Table.get?, ih]
    split <;> rfl

theorem outlineAll_insert (entries : Table SettingValue) (key : String) (v : SettingValue) :
    outlineAll (entries.insert key v) = Table.insert (outlineAll entries) key (outline v) := by
  induction entries with
  | nil => simp [Table.insert, outlineAll]
  | cons e r ih =>
    rw [Table.insert, outlineAll, Table.insert]
    split
    · simp [outlineAll]
    · split <;> simp [outlineAll, ih]

theorem outline_getD_get? (v : SettingValue) (key : String) {default : SettingValue}
    (bare : outline default = default) : outline (((entriesOf v).get? key).getD default) =
      ((entriesOf (outline v)).get? key).getD default := by
  rw [entriesOf_outline, get?_outlineAll]
  cases (entriesOf v).get? key with
  | none => exact bare
  | some _ => rfl

mutual
theorem outline_put (root : SettingValue) (key : String) (v : SettingValue) :
    outline (put root key v) = put (outline root) key (outline v) := by
  cases v with
  | table entries =>
    have old : outline (((entriesOf root).get? key).getD (.table [])) =
        ((entriesOf (outline root)).get? key).getD (.table []) :=
      outline_getD_get? root key (by simp [outline, outlineAll])
    rw [put, outline, outlineAll_insert, outline_putAll, old, ← entriesOf_outline, outline, put]
  | _ => simp [put, outline, outlineAll_insert, entriesOf_outline]
theorem outline_putAll (root : SettingValue) (entries : List (String × SettingValue)) :
    outline (putAll root entries) = putAll (outline root) (outlineAll entries) := by
  cases entries with
  | nil => rw [putAll, outlineAll, putAll]
  | cons e r => rw [putAll, outline_putAll, outline_put, outlineAll, putAll]
end

theorem outline_nest (path : List Step) (v : SettingValue) :
    outline (nest path v) = nest path (outline v) := by
  induction path with
  | nil => rfl
  | cons step r ih =>
    cases step with
    | name key => simp [nest, outline, outlineAll, ih]
    | position i => simp [nest, outline]

/-! ### Paths -/

def Step.Low : Step → Prop
  | .name key => lowerKey key = key
  | .position _ => True

theorem exists_of_mem_mapM {α β : Type} {f : α → Option β} {xs : List α} {ys : List β}
    (made : xs.mapM f = some ys) {y : β} (mem : y ∈ ys) : ∃ x ∈ xs, f x = some y := by
  induction xs generalizing ys with
  | nil =>
    obtain rfl : [] = ys := Option.some.inj made
    cases mem
  | cons x r ih =>
    rw [List.mapM_cons] at made
    obtain ⟨z, first, rest⟩ := Option.bind_eq_some_iff.mp made
    obtain ⟨zs, others, same⟩ := Option.bind_eq_some_iff.mp rest
    obtain rfl : z :: zs = ys := Option.some.inj same
    rcases List.mem_cons.mp mem with rfl | mem
    · exact ⟨x, List.mem_cons_self, first⟩
    · obtain ⟨w, w_mem, found⟩ := ih others mem
      exact ⟨w, List.mem_cons_of_mem x w_mem, found⟩

theorem exists_of_steps? {cs : List Char} {steps : List Step} (read : steps? cs = some steps) :
    ∃ positions, steps = .name (String.ofList (cs.takeWhile isPathChar)) :: positions ∧
      ∀ step ∈ positions, ∃ i, step = .position i := by
  rw [steps?] at read
  split at read
  · split at read
    · cases read
    · obtain ⟨positions, made, rfl⟩ := Option.map_eq_some_iff.mp read
      refine ⟨positions, rfl, fun step mem => ?_⟩
      obtain ⟨piece, -, found⟩ := exists_of_mem_mapM made mem
      rw [subscript?] at found
      split at found
      · obtain ⟨i, -, rfl⟩ := Option.map_eq_some_iff.mp found
        exact ⟨i, rfl⟩
      · cases found
  · cases read

theorem exists_pathOf_eq_cons (key : String) : ∃ first r, pathOf key = .name first :: r := by
  rw [pathOf]
  split
  · rename_i pieces read
    cases cut : piecesAt '.' key.toList with
    | nil => exact absurd cut (piecesAt_ne_nil '.' key.toList)
    | cons piece more =>
      rw [cut, List.mapM_cons] at read
      obtain ⟨steps, first, rest⟩ := Option.bind_eq_some_iff.mp read
      obtain ⟨others, -, same⟩ := Option.bind_eq_some_iff.mp rest
      obtain rfl : steps :: others = pieces := Option.some.inj same
      obtain ⟨positions, rfl, -⟩ := exists_of_steps? first
      exact ⟨_, _, rfl⟩
  · exact ⟨key, [], rfl⟩

theorem low_of_mem_pathOf {key : String} {step : Step} (mem : step ∈ pathOf (lowerKey key)) :
    step.Low := by
  rw [pathOf] at mem
  split at mem
  · rename_i pieces read
    obtain ⟨steps, steps_mem, mem⟩ := List.mem_flatten.mp mem
    obtain ⟨piece, piece_mem, first⟩ := exists_of_mem_mapM read steps_mem
    obtain ⟨positions, rfl, all⟩ := exists_of_steps? first
    rcases List.mem_cons.mp mem with rfl | mem
    · have low : ∀ c ∈ piece.takeWhile isPathChar, lowerLetter c = c := by
        intro c c_mem
        have c_mem := mem_of_mem_piecesAt piece_mem (List.takeWhile_sublist _ |>.subset c_mem)
        rw [lowerKey, String.toList_ofList] at c_mem
        obtain ⟨d, -, rfl⟩ := List.mem_map.mp c_mem
        exact lowerLetter_lowerLetter d
      rw [Step.Low, lowerKey, String.toList_ofList, List.map_congr_left low, List.map_id']
    · obtain ⟨i, rfl⟩ := all step mem
      exact trivial
  · rw [List.mem_singleton.mp mem, Step.Low, lowerKey_lowerKey]

theorem outline_putAt {key : String} {r : List Step} (low : ∀ step ∈ r, step.Low)
    (root v : SettingValue) :
    outline (putAt root (.name key :: r) v) = put (outline root) key (nest r (outline v)) := by
  induction r generalizing root key with
  | nil => exact outline_put root key v
  | cons step r ih =>
    cases step with
    | position i => simp [putAt, outline, outlineAll_insert, entriesOf_outline, nest, put]
    | name next =>
      have same : ∀ old : Option SettingValue, put (old.getD .absent) next (nest r (outline v)) =
          put (old.getD (.table [])) next (nest r (outline v)) := by
        intro old
        cases old with
        | some _ => rfl
        | none => cases nest r (outline v) <;> simp [put, entriesOf]
      have below : lowerKey next = next := low _ List.mem_cons_self
      rw [putAt, outline, outlineAll_insert, ih fun step mem => low step (List.mem_cons_of_mem _ mem),
        outline_getD_get? root key rfl, ← entriesOf_outline, nest, put, putAll, putAll, below, same]
      simp

theorem putAll_append (root : SettingValue) (entries more : List (String × SettingValue)) :
    putAll root (entries ++ more) = putAll (putAll root entries) more := by
  induction entries generalizing root with
  | nil => rw [List.nil_append, putAll]
  | cons e r ih => rw [List.cons_append, putAll, putAll, ih]

/-- Laying a source over a root is putting its entries there, spelled out, as far as no items of
lists are concerned. -/
theorem outline_layer (root : SettingValue) (source : List (String × SettingValue)) :
    outline (layer root source) = putAll (outline root) (outlineAll (spelled source)) := by
  induction source generalizing root with
  | nil => rw [spelled, List.flatMap_nil, outlineAll, putAll]; rfl
  | cons e rest ih =>
    have low : ∀ step ∈ pathOf (lowerKey e.1), step.Low := fun step mem => low_of_mem_pathOf mem
    have step : outline (putAt root (pathOf (lowerKey e.1)) e.2) =
        putAll (outline root) (outlineAll (entriesOf (nest (pathOf (lowerKey e.1)) e.2))) := by
      obtain ⟨key, r, path⟩ := exists_pathOf_eq_cons (lowerKey e.1)
      rw [path] at low ⊢
      have first : lowerKey key = key := low _ List.mem_cons_self
      rw [outline_putAt (fun step mem => low step (List.mem_cons_of_mem _ mem)), ← entriesOf_outline,
        outline_nest, nest, entriesOf, putAll, putAll, first]
    rw [layer, List.foldl_cons, ← layer, ih, step, spelled_cons, outlineAll_append, putAll_append]

/-! ### What is at a key -/

theorem get?_put (root : SettingValue) (key other : String) (v : SettingValue) :
    (entriesOf (put root key v)).get? other =
      if key = other then overlay ((entriesOf root).get? other) v
      else (entriesOf root).get? other := by
  have at_key (u : SettingValue) : ((entriesOf root).insert key u).get? other =
      if key = other then some u else (entriesOf root).get? other := by
    split
    · rename_i same
      rw [← same, Table.get?_insert_self]
    · rename_i different
      exact Table.get?_insert_of_ne _ _ (Ne.symm different)
  cases table : v.isTable with
  | true =>
    obtain ⟨entries, rfl⟩ := exists_of_isTable table
    rw [put, entriesOf, at_key]
    split
    · rename_i same
      rw [overlay, same]
    · rfl
  | false => rw [put_of_not_isTable table, entriesOf, at_key, overlay_of_not_isTable table]

theorem get?_putAll (root : SettingValue) (entries : List (String × SettingValue)) (key : String) :
    (entriesOf (putAll root entries)).get? key =
      (given key entries).foldl overlay ((entriesOf root).get? key) := by
  induction entries generalizing root with
  | nil => rw [putAll]; rfl
  | cons e r ih =>
    obtain ⟨k, v⟩ := e
    rw [putAll, ih, get?_put, given_cons]
    split <;> rfl

theorem foldl_overlay_tables {tables : List SettingValue} (all : ∀ v ∈ tables, v.isTable)
    (old : SettingValue) :
    tables.foldl overlay (some old) = some (putAll old (tables.flatMap entriesOf)) := by
  induction tables generalizing old with
  | nil => rw [List.flatMap_nil, putAll]; rfl
  | cons v r ih =>
    obtain ⟨entries, rfl⟩ := exists_of_isTable (all v List.mem_cons_self)
    rw [List.foldl_cons, overlay, Option.getD_some, List.flatMap_cons, putAll_append,
      ih fun v mem => all v (List.mem_cons_of_mem _ mem)]
    rfl

theorem at?_key (v : SettingValue) (key : String) : at? [key] v = (entriesOf v).get? key := by
  rw [at?]
  cases (entriesOf v).get? key <;> rfl

theorem at?_cons (key : String) (r : List String) (v : SettingValue) :
    at? (key :: r) v = (at? [key] v).bind (at? r) := by
  rw [at?_key, at?]

theorem at?_key_putAll (root : SettingValue) (entries : List (String × SettingValue))
    (key : String) : at? [key] (putAll root entries) =
      (givenAt [key] entries).foldl overlay (at? [key] root) := by
  rw [at?_key, at?_key, get?_putAll, givenAt]

theorem at?_section_putAll {root old : SettingValue} {entries : List (String × SettingValue)}
    {name : String} (key : String) (there : at? [name] root = some old)
    (tables : ∀ v ∈ given name entries, v.isTable) :
    at? [name, key] (putAll root entries) =
      (givenAt [name, key] entries).foldl overlay (at? [name, key] root) := by
  rw [at?_cons, at?_cons name [key] root, at?_key_putAll, givenAt, there,
    foldl_overlay_tables tables, Option.bind_some, Option.bind_some, at?_key_putAll]
  rfl

theorem at?_outline (path : List String) (v : SettingValue) :
    at? path (outline v) = (at? path v).map outline := by
  induction path generalizing v with
  | nil => rfl
  | cons key r ih =>
    rw [at?, at?, entriesOf_outline, get?_outlineAll]
    cases (entriesOf v).get? key with
    | none => rfl
    | some inner => exact ih inner

theorem given_outlineAll (key : String) (entries : List (String × SettingValue)) :
    given key (outlineAll entries) = (given key entries).map outline := by
  rw [given, outlineAll_eq_map, List.filter_map, List.map_map, given, List.map_map]
  rfl

theorem flatMap_entriesOf_outline (values : List SettingValue) :
    (values.map outline).flatMap entriesOf = outlineAll (values.flatMap entriesOf) := by
  induction values with
  | nil => rw [List.flatMap_nil, outlineAll]; rfl
  | cons v r ih =>
    rw [List.map_cons, List.flatMap_cons, List.flatMap_cons, ih, entriesOf_outline,
      outlineAll_append]

theorem givenAt_outlineAll (path : List String) (entries : List (String × SettingValue)) :
    givenAt path (outlineAll entries) = (givenAt path entries).map outline := by
  induction path generalizing entries with
  | nil => rfl
  | cons key r ih =>
    cases r with
    | nil => exact given_outlineAll key entries
    | cons next r =>
      rw [givenAt_cons, givenAt_cons, given_outlineAll, flatMap_entriesOf_outline, ih]

theorem isTable_of_mem_map_outline {values : List SettingValue}
    (all : ∀ v ∈ values, v.isTable = true) : ∀ v ∈ values.map outline, v.isTable = true := by
  intro v mem
  obtain ⟨w, w_mem, rfl⟩ := List.mem_map.mp mem
  exact (isTable_outline w).trans (all w w_mem)

/-! ### What is read -/

/-- The first value that is not an empty table. -/
def decisive (values : List SettingValue) : Option SettingValue :=
  values.find? fun v => !v.isEmptyTable

def Once (values : List SettingValue) : Prop :=
  values.Pairwise fun v w => v.isTable = true ∧ w.isTable = true

instance : DecidablePred Once := fun values =>
  inferInstanceAs (Decidable (values.Pairwise fun v w => v.isTable = true ∧ w.isTable = true))

theorem decisive_map_outline (values : List SettingValue) :
    decisive (values.map outline) = (decisive values).map outline := by
  rw [decisive, List.find?_map, decisive]
  refine congrArg (Option.map outline) (List.find?_congr fun v _ => ?_)
  simp [isEmptyTable_outline]

theorem Once.map_outline {values : List SettingValue} (once : Once values) :
    Once (values.map outline) :=
  List.pairwise_map.mpr (once.imp fun tables =>
    ⟨(isTable_outline _).trans tables.1, (isTable_outline _).trans tables.2⟩)

section
variable {α : Type} {read : SettingValue → Option α}

theorem isTable_putAll {old : SettingValue} {entries : List (String × SettingValue)}
    (some : old.isTable = true ∨ entries ≠ []) : (putAll old entries).isTable = true := by
  induction entries generalizing old with
  | nil =>
    rw [putAll]
    exact some.resolve_right fun h => h rfl
  | cons e r ih =>
    rw [putAll]
    refine ih (.inl ?_)
    cases table : e.2.isTable with
    | true =>
      obtain ⟨entries, same⟩ := exists_of_isTable table
      rw [same, put]
      rfl
    | false =>
      rw [put_of_not_isTable table]
      rfl

theorem foldl_overlay_read (refuses : ∀ v : SettingValue, v.isTable = true → read v = none)
    (d : SettingValue) (values : List SettingValue) : ∃ v, values.foldl overlay (some d) = some v ∧
      read v = read ((decisive values.reverse).getD d) := by
  induction values using List.reverseRecOn with
  | nil => exact ⟨d, rfl, rfl⟩
  | append_singleton values last ih =>
    obtain ⟨v, found, same⟩ := ih
    rw [List.foldl_append, found, List.reverse_concat, decisive, List.find?_cons]
    cases table : last.isTable with
    | false =>
      have counts : last.isEmptyTable = false := by
        cases last with
        | table => cases table
        | _ => rfl
      exact ⟨last, overlay_of_not_isTable table (some v), by simp [counts]⟩
    | true =>
      obtain ⟨entries, rfl⟩ := exists_of_isTable table
      refine ⟨putAll v entries, rfl, ?_⟩
      cases entries with
      | nil =>
        rw [putAll]
        exact same
      | cons e r =>
        rw [refuses _ (isTable_putAll (.inr (List.cons_ne_nil e r)))]
        exact (refuses _ rfl).symm

theorem Once.read_eq {values : List SettingValue} (once : Once values)
    (refuses : ∀ v : SettingValue, v.isTable = true → read v = none) {v w : SettingValue}
    (hv : v ∈ values) (hw : w ∈ values) : read v = read w := by
  have agree : values.Pairwise fun v w => read v = read w :=
    once.imp fun tables => (refuses _ tables.1).trans (refuses _ tables.2).symm
  exact List.Pairwise.forall_of_forall_of_flip (R := fun v w => read v = read w)
    (fun _ _ => rfl) agree (agree.imp Eq.symm) hv hw

theorem Once.eq_singleton {values : List SettingValue} (once : Once values) {v : SettingValue}
    (mem : v ∈ values) (plain : v.isTable = false) : values = [v] := by
  obtain ⟨before, after, rfl⟩ := List.append_of_mem mem
  obtain ⟨-, later, earlier⟩ := List.pairwise_append.mp once
  have first : before = [] := List.eq_nil_iff_forall_not_mem.mpr fun w w_mem =>
    Bool.false_ne_true (plain.symm.trans (earlier w w_mem v List.mem_cons_self).2)
  have last : after = [] := List.eq_nil_iff_forall_not_mem.mpr fun w w_mem =>
    Bool.false_ne_true (plain.symm.trans (List.rel_of_pairwise_cons later w_mem).1)
  rw [first, last]
  rfl

theorem Once.decisive_reverse {values : List SettingValue} (once : Once values)
    (refuses : ∀ v : SettingValue, v.isTable = true → read v = none) :
    (decisive values.reverse).map read = (decisive values).map read := by
  cases first : decisive values with
  | none =>
    have all := List.find?_eq_none.mp first
    have last : decisive values.reverse = none :=
      List.find?_eq_none.mpr fun v mem => all v (List.mem_reverse.mp mem)
    rw [last]
  | some v =>
    cases last : decisive values.reverse with
    | none =>
      have mem : v ∈ values.reverse := List.mem_reverse.mpr (List.mem_of_find?_eq_some first)
      have all := List.find?_eq_none.mp last v mem
      exact absurd (List.find?_some first) all
    | some w =>
      have mem : w ∈ values := List.mem_reverse.mp (List.mem_of_find?_eq_some last)
      exact congrArg some (once.read_eq refuses mem (List.mem_of_find?_eq_some first))

/-- Of two sources over a default the upper one decides if it gives anything, else the lower one. -/
theorem foldl_overlay_once (refuses : ∀ v : SettingValue, v.isTable = true → read v = none)
    (d : SettingValue) {lower upper : List SettingValue} (onceBelow : Once lower)
    (onceAbove : Once upper) : ∃ v, (lower ++ upper).foldl overlay (some d) = some v ∧
      read v = (((decisive upper).or (decisive lower)).map read).getD (read d) := by
  obtain ⟨v, found, same⟩ := foldl_overlay_read refuses d (lower ++ upper)
  refine ⟨v, found, ?_⟩
  have split : decisive (lower ++ upper).reverse =
      (decisive upper.reverse).or (decisive lower.reverse) := by
    rw [List.reverse_append, decisive, List.find?_append]
    rfl
  rw [same, ← Option.getD_map read, split, Option.map_or, Option.map_or,
    onceBelow.decisive_reverse refuses, onceAbove.decisive_reverse refuses]

end

end SettingValue
end NodeFleet
