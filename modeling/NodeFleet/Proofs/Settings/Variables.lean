import NodeFleet.Proofs.Settings.Layer

set_option autoImplicit false
namespace NodeFleet

namespace VariableFile

/-- The definitions before the first malformed line, in order. Known variables count only for the
references in the values. -/
def definitions (known : Table String) (cs : List Char) : List (String × String) :=
  if _h : cs = [] then []
  else
    match (nextLine [] .plain cs).1 with
    | none => []
    | some line =>
      match readLine? known line with
      | none => []
      | some none => definitions known (nextLine [] .plain cs).2
      | some (some (name, value)) =>
        (name, value) :: definitions (define known name value) (nextLine [] .plain cs).2
termination_by cs.length
decreasing_by all_goals exact nextLine_snd_lt _ _ _h

def unmarked (file : String) : List Char :=
  match file.toList with
  | '\ufeff' :: r => r
  | cs => cs

end VariableFile

namespace Table
variable {α : Type}

theorem get?_eq_none {t : Table α} {key : String} :
    t.get? key = none ↔ ∀ e ∈ t, e.1 ≠ key := by
  induction t with
  | nil => simp [get?]
  | cons e r ih =>
    obtain ⟨k, v⟩ := e
    rw [get?, List.forall_mem_cons, ← ih]
    split <;> simp [*]

theorem mem_insert_of_none {t : Table α} {key : String} (none : t.get? key = none) (value : α)
    {e : String × α} : e ∈ t.insert key value ↔ e = (key, value) ∨ e ∈ t := by
  induction t with
  | nil => simp [insert]
  | cons first r ih =>
    obtain ⟨k, v⟩ := first
    rw [get?] at none
    split at none
    · cases none
    · rename_i different
      rw [insert]
      split
      · exact List.mem_cons
      · rw [if_neg (Ne.symm different), List.mem_cons, ih none, List.mem_cons]
        exact or_left_comm

end Table

namespace VariableFile

theorem mem_define {known : Table String} {name value : String} {e : String × String} :
    e ∈ define known name value ↔
      e ∈ known ∨ known.get? name = none ∧ e = (name, value) := by
  rw [define]
  cases found : known.get? name with
  | some _ => simp
  | none =>
    rw [Table.mem_insert_of_none found]
    simp [or_comm]

theorem get?_define (known : Table String) (name value key : String) :
    (define known name value).get? key =
      (known.get? key).or (if name = key then some value else none) := by
  rw [define]
  cases found : known.get? name with
  | some old =>
    by_cases same : name = key
    · simp [← same, found]
    · simp [same]
  | none =>
    by_cases same : name = key
    · subst same
      simp [found, Table.get?_insert_self]
    · simp [same, Table.get?_insert_of_ne _ _ (Ne.symm same)]

theorem mem_extend {known : Table String} {cs : List Char} {e : String × String} :
    e ∈ extend known cs ↔
      e ∈ known ∨ known.get? e.1 = none ∧ Table.get? (definitions known cs) e.1 = some e.2 := by
  fun_induction extend known cs with
  | case1 known =>
    rw [definitions, dif_pos rfl]
    simp [Table.get?]
  | case2 known cs some ended =>
    rw [definitions, dif_neg some, ended]
    simp [Table.get?]
  | case3 known cs some line read malformed =>
    rw [definitions, dif_neg some, read]
    simp [malformed, Table.get?]
  | case4 known cs some line read nothing ih =>
    rw [ih]
    conv => rhs; rw [definitions, dif_neg some, read]
    simp [nothing]
  | case5 known cs some line read name value defines ih =>
    conv => rhs; rw [definitions, dif_neg some, read]
    simp only [defines]
    rw [ih, mem_define, get?_define, Table.get?]
    obtain ⟨key, text⟩ := e
    by_cases same : name = key
    · subst same
      simp [eq_comm]
    · simp [same, Ne.symm same]

theorem load_eq_extend (known : Table String) (file : String) :
    load known file = extend known (unmarked file) := by
  rw [load, unmarked]
  cases file.toList with
  | nil => rfl
  | cons c r =>
    by_cases marked : c = '\ufeff'
    · subst marked
      rfl
    · simp [marked]

end VariableFile

namespace Settings

/-- The definitions of the nearest file of variables, if there is one. -/
def definitions (environment : Table String) (files : Files) : List (String × String) :=
  match files.nearest? variableFilePath with
  | none => []
  | some s => VariableFile.definitions environment (VariableFile.unmarked s)

theorem allVariables_split (environment : Table String) (files : Files) : ∃ added,
    allVariables environment files = environment ++ added ∧ ∀ e, e ∈ added ↔
      environment.get? e.1 = none ∧
        Table.get? (definitions environment files) e.1 = some e.2 := by
  rw [allVariables, definitions]
  cases files.nearest? variableFilePath with
  | none => exact ⟨[], (List.append_nil _).symm, fun e => by simp [Table.get?]⟩
  | some s =>
    refine ⟨_, rfl, fun e => ?_⟩
    rw [List.mem_filter, VariableFile.load_eq_extend, VariableFile.mem_extend,
      Option.isNone_iff_eq_none]
    constructor
    · rintro ⟨known | added, unset⟩
      · exact absurd rfl (Table.get?_eq_none.mp unset e known)
      · exact added
    · intro added
      exact ⟨.inr added, added.1⟩

/-- The first that defines a name, the process or the file, is what counts. -/
theorem mem_allVariables {environment : Table String} {files : Files} {name text : String}
    (first : Table.get? (environment ++ definitions environment files) name = some text) :
    (name, text) ∈ allVariables environment files := by
  obtain ⟨added, split, mem_added⟩ := allVariables_split environment files
  rw [Table.get?_append] at first
  rw [split, List.mem_append]
  cases known : environment.get? name with
  | some old =>
    rw [known] at first
    obtain rfl := Option.some.inj first
    exact .inl (Table.mem_of_get? known)
  | none =>
    rw [known] at first
    exact .inr ((mem_added _).mpr ⟨known, first⟩)

end Settings

namespace SettingValue

def below? : List String → List Step → SettingValue → Option SettingValue
  | [], steps, v => some (nest steps v)
  | key :: r, .name part :: steps, v => if part = key then below? r steps v else none
  | _, _, _ => none

/-- What a variable gives at the end of a path: its value, or a table or list that holds it further
down. -/
def givenBy? (path : List String) (e : String × String) : Option SettingValue :=
  (variableKey? e.1).bind fun key => below? path (pathOf (lowerKey key)) (ofVariable e.2)

theorem variableKey?_lowerKey (name : String) :
    variableKey? (lowerKey name) = variableKey? name := by
  rw [variableKey?, variableKey?, lowerKey_lowerKey]

theorem below?_self (path : List String) (v : SettingValue) :
    below? path (path.map .name) v = some v := by
  induction path with
  | nil => rfl
  | cons key r ih => rw [List.map_cons, below?, if_pos rfl, ih]

theorem isSome_below? (path : List String) (steps : List Step) (v w : SettingValue) :
    (below? path steps v).isSome = (below? path steps w).isSome := by
  induction path generalizing steps with
  | nil => rfl
  | cons key r ih =>
    rcases steps with _ | ⟨_ | _, rest⟩
    · rfl
    · rw [below?, below?]
      split
      · exact ih rest
      · rfl
    · rfl

theorem isSome_givenBy? (path : List String) (name text other : String) :
    (givenBy? path (name, text)).isSome = (givenBy? path (name, other)).isSome := by
  rw [givenBy?, givenBy?]
  cases variableKey? name with
  | none => rfl
  | some key => exact isSome_below? path _ _ _

theorem isTable_ofVariable (text : String) : (ofVariable text).isTable = false := by
  unfold ofVariable
  split
  · rfl
  · split
    · rfl
    · split
      · rfl
      · split <;> rfl

theorem isEmptyTable_below? {path : List String} {steps : List Step} {v w : SettingValue}
    (plain : v.isTable = false) (given : below? path steps v = some w) :
    w.isEmptyTable = false := by
  induction path generalizing steps with
  | nil =>
    obtain rfl := Option.some.inj given
    rcases steps with _ | ⟨_ | _, rest⟩
    · cases v <;> first | rfl | cases plain
    · rfl
    · rfl
  | cons key r ih =>
    rcases steps with _ | ⟨_ | _, rest⟩
    · cases given
    · rw [below?] at given
      split at given
      · exact ih given
      · cases given
    · cases given

theorem isEmptyTable_givenBy? {path : List String} {e : String × String} {v : SettingValue}
    (given : givenBy? path e = some v) : v.isEmptyTable = false := by
  obtain ⟨key, -, below⟩ := Option.bind_eq_some_iff.mp given
  exact isEmptyTable_below? (isTable_ofVariable _) below

theorem givenAt_nil (path : List String) : givenAt path [] = [] := by
  induction path with
  | nil => rfl
  | cons key r ih =>
    cases r with
    | nil => rfl
    | cons next r => exact ih

theorem given_append (key : String) (entries more : List (String × SettingValue)) :
    given key (entries ++ more) = given key entries ++ given key more := by
  rw [given, List.filter_append, List.map_append]
  rfl

theorem givenAt_append (path : List String) (entries more : List (String × SettingValue)) :
    givenAt path (entries ++ more) = givenAt path entries ++ givenAt path more := by
  induction path generalizing entries more with
  | nil => rfl
  | cons key r ih =>
    cases r with
    | nil => exact given_append key entries more
    | cons next r =>
      rw [givenAt_cons, givenAt_cons, givenAt_cons, given_append, List.flatMap_append, ih]

theorem givenAt_nest {key : String} (r : List String) {steps : List Step} {v : SettingValue}
    (low : ∀ step ∈ steps, step.Low) (plain : v.isTable = false) :
    givenAt (key :: r) (entriesOf (nest steps v)) = (below? (key :: r) steps v).toList := by
  have empty : entriesOf v = [] := by
    cases v with
    | table => cases plain
    | _ => rfl
  induction r generalizing key steps with
  | nil =>
    rcases steps with _ | ⟨part | _, rest⟩
    · rw [nest, empty]; rfl
    · have here : lowerKey part = part := low _ List.mem_cons_self
      rw [nest, entriesOf, givenAt, given_cons, here, below?]
      split <;> rfl
    · rfl
  | cons next r ih =>
    rcases steps with _ | ⟨part | _, rest⟩
    · rw [nest, empty, givenAt_nil]; rfl
    · have here : lowerKey part = part := low _ List.mem_cons_self
      rw [nest, entriesOf, givenAt_cons, given_cons, here, below?]
      split
      · have one : (nest rest v :: given key []).flatMap entriesOf = entriesOf (nest rest v) :=
          List.append_nil _
        rw [one]
        exact ih fun step mem => low step (List.mem_cons_of_mem _ mem)
      · exact givenAt_nil _
    · exact givenAt_nil _

theorem givenAt_variables (key : String) (r : List String) (all : List (String × String)) :
    givenAt (key :: r) (spelled (ofVariables all)) =
      all.filterMap (givenBy? (key :: r)) := by
  induction all with
  | nil => exact givenAt_nil _
  | cons e rest ih =>
    rw [ofVariables] at ih ⊢
    cases named : variableKey? e.1 with
    | none =>
      have nothing : givenBy? (key :: r) e = none := by rw [givenBy?, named]; rfl
      rw [List.filterMap_cons_none (by rw [named]; rfl), List.filterMap_cons_none nothing, ih]
    | some k =>
      have low : ∀ step ∈ pathOf (lowerKey k), step.Low := fun step mem => low_of_mem_pathOf mem
      have gives : givenBy? (key :: r) e =
          below? (key :: r) (pathOf (lowerKey k)) (ofVariable e.2) := by
        rw [givenBy?, named, Option.bind_some]
      rw [List.filterMap_cons_some (by rw [named]; rfl), spelled_cons, givenAt_append, ih,
        givenAt_nest r low (isTable_ofVariable _), ← gives, List.filterMap_cons]
      cases givenBy? (key :: r) e <;> rfl

theorem decisive_variables (path : List String) (all : List (String × String)) :
    decisive (all.filterMap (givenBy? path)) = all.findSome? (givenBy? path) := by
  rw [← List.head?_filterMap]
  cases values : all.filterMap (givenBy? path) with
  | nil => rfl
  | cons v rest =>
    have mem : v ∈ all.filterMap (givenBy? path) := by
      rw [values]
      exact List.mem_cons_self
    obtain ⟨e, -, given⟩ := List.mem_filterMap.mp mem
    exact List.find?_cons_of_pos (by rw [isEmptyTable_givenBy? given]; rfl)

section
variable {path : List String} {environment : Table String} {files : Files}

theorem mem_of_findSome? {v : SettingValue}
    (first : (environment ++ Settings.definitions environment files).findSome? (givenBy? path) =
      some v) : v ∈ (Settings.allVariables environment files).filterMap (givenBy? path) := by
  obtain ⟨added, split, mem_added⟩ := Settings.allVariables_split environment files
  rw [split, List.mem_filterMap]
  rw [List.findSome?_append] at first
  cases process : environment.findSome? (givenBy? path) with
  | some w =>
    obtain rfl : w = v := by simpa [process] using first
    obtain ⟨before, e, after, whole, gives, -⟩ := List.findSome?_eq_some_iff.mp process
    exact ⟨e, List.mem_append_left _ (by simp [whole]), gives⟩
  | none =>
    rw [process, Option.none_or] at first
    obtain ⟨before, e, after, whole, gives, earlier⟩ := List.findSome?_eq_some_iff.mp first
    refine ⟨e, List.mem_append_right _ ((mem_added e).mpr ⟨?_, ?_⟩), gives⟩
    · cases known : environment.get? e.1 with
      | none => rfl
      | some text =>
        have nothing := List.findSome?_eq_none_iff.mp process _ (Table.mem_of_get? known)
        have same := isSome_givenBy? path e.1 e.2 text
        rw [nothing, gives] at same
        cases same
    · -- a definition of the same name before it would have given something too
      have others : Table.get? before e.1 = none := by
        refine Table.get?_eq_none.mpr fun x mem named => ?_
        have same := isSome_givenBy? path x.1 x.2 e.2
        rw [earlier x mem, named, gives] at same
        cases same
      rw [whole, Table.get?_append, others, Option.none_or, Table.get?, if_pos rfl]

theorem filterMap_allVariables_eq_nil
    (nothing : (environment ++ Settings.definitions environment files).findSome? (givenBy? path) =
      none) : (Settings.allVariables environment files).filterMap (givenBy? path) = [] := by
  obtain ⟨added, split, mem_added⟩ := Settings.allVariables_split environment files
  rw [List.findSome?_eq_none_iff] at nothing
  rw [split, List.filterMap_eq_nil_iff]
  intro e mem
  refine nothing e (List.mem_append.mpr ((List.mem_append.mp mem).imp_right fun added => ?_))
  exact Table.mem_of_get? ((mem_added e).mp added).2

/-- In place of the variables that a file adds, its definitions may be looked through in order. -/
theorem findSome?_allVariables {α : Type} {read : SettingValue → Option α}
    (refuses : ∀ v : SettingValue, v.isTable = true → read v = none)
    (once : Once ((Settings.allVariables environment files).filterMap (givenBy? path))) :
    ((Settings.allVariables environment files).findSome? (givenBy? path)).map read =
      ((environment ++ Settings.definitions environment files).findSome? (givenBy? path)).map
        read := by
  rw [← List.head?_filterMap]
  cases first :
    (environment ++ Settings.definitions environment files).findSome? (givenBy? path) with
  | none => rw [filterMap_allVariables_eq_nil first]; rfl
  | some v =>
    have mem := mem_of_findSome? first
    cases values : (Settings.allVariables environment files).filterMap (givenBy? path) with
    | nil =>
      rw [values] at mem
      cases mem
    | cons w rest =>
      rw [values] at mem once
      exact congrArg some (once.read_eq refuses List.mem_cons_self mem)

end

end SettingValue
end NodeFleet
