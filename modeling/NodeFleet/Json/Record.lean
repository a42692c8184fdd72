import NodeFleet.Json.Basic

set_option autoImplicit false
namespace NodeFleet
namespace Json

def occurrences (name : String) (fields : List (String × Json)) : List Json :=
  (fields.filter (·.1 = name)).map (·.2)

/-- Values of the named fields; none if one of them is given twice. -/
def namedFields? (names : List String) (fields : List (String × Json)) :
    Option (List (Option Json)) :=
  names.mapM fun n =>
    match occurrences n fields with
    | [] => some none
    | [v] => some (some v)
    | _ => none

def record? (names : List String) : Json → Option (List (Option Json))
  | .object fields => namedFields? names fields
  | .list items => if items.length = names.length then some (items.map some) else none
  | _ => none

/-- The fields of a record in which all of them may be left out, from the end in the list form. -/
def looseRecord? (names : List String) : Json → Option (List (Option Json))
  | .object fields => namedFields? names fields
  | .list items =>
    if items.length ≤ names.length then
      some (items.map some ++ List.replicate (names.length - items.length) none)
    else none
  | _ => none

def asText? : Json → Option String
  | .text s => some s
  | _ => none

def asBool? : Json → Option Bool
  | .bool b => some b
  | _ => none

def asUnsigned? (max : Nat) : Json → Option Nat
  | .integer n => if 0 ≤ n ∧ n.toNat ≤ max then some n.toNat else none
  | _ => none

def asSigned? : Json → Option Int
  | .integer n => if fitsI64 n then some n else none
  | _ => none

def asList? {α : Type} (item : Json → Option α) : Json → Option (List α)
  | .list items => items.mapM item
  | _ => none

def asTexts? : Json → Option (List String) := asList? asText?

def asTable? {α : Type} (item : Json → Option α) : Json → Option (Table α)
  | .object fields => (fields.mapM fun f => (item f.2).map fun v => (f.1, v)).map Table.ofList
  | _ => none

def optional? {α : Type} (item : Json → Option α) : Option Json → Option (Option α)
  | none => some none
  | some .null => some none
  | some v => (item v).map some

theorem occurrences_append (name : String) (first second : List (String × Json)) :
    occurrences name (first ++ second) = occurrences name first ++ occurrences name second := by
  simp [occurrences]

theorem occurrences_of_not_mem {name : String} {fields : List (String × Json)}
    (h : name ∉ fields.map (·.1)) : occurrences name fields = [] := by
  rw [occurrences, List.map_eq_nil_iff, List.filter_eq_nil_iff]
  intro f mem own
  exact h (decide_eq_true_eq.mp own ▸ List.mem_map_of_mem mem)

theorem field?_object {name : String} {fields : List (String × Json)} :
    (object fields).field? name = (occurrences name fields).getLast? := by
  rw [field?, ← List.head?_filter, List.filter_reverse, List.head?_reverse, occurrences,
    List.getLast?_map]

theorem field?_of_namedFields? {names : List String} {fields : List (String × Json)}
    {values : List (Option Json)} (read : namedFields? names fields = some values) :
    names.map (object fields).field? = values := by
  induction names generalizing values with
  | nil => exact Option.some.inj read
  | cons n r ih =>
    rw [namedFields?, List.mapM_cons] at read
    obtain ⟨own, found, read⟩ := Option.bind_eq_some_iff.mp read
    obtain ⟨others, further, same⟩ := Option.bind_eq_some_iff.mp read
    obtain rfl := Option.some.inj same
    rw [List.map_cons, ih further, field?_object]
    congr 1
    split at found
    · rename_i none
      rw [none]
      exact Option.some.inj found
    · rename_i v once
      rw [once]
      exact Option.some.inj found
    · cases found

/-- A record gives its values by name, or it is the list of them. -/
theorem record?_eq_some {names : List String} {v : Json} {values : List (Option Json)}
    (read : v.record? names = some values) :
    names.map v.field? = values ∨ ∃ items, v = .list items ∧ items.map some = values := by
  cases v with
  | object fields => exact .inl (field?_of_namedFields? read)
  | list items =>
    obtain ⟨-, same⟩ := Option.ite_none_right_eq_some.mp read
    exact .inr ⟨items, rfl, Option.some.inj same⟩
  | _ => cases read

theorem namedFields?_cons {name : String} {names : List String} {fields : List (String × Json)}
    {v : Json} {values : List (Option Json)} (found : occurrences name fields = [v])
    (others : namedFields? names fields = some values) :
    namedFields? (name :: names) fields = some (some v :: values) := by
  rw [namedFields?] at others ⊢
  rw [List.mapM_cons, found, others]
  rfl

theorem namedFields?_zip {names : List String} {values : List Json} (nodup : names.Nodup)
    (len : names.length = values.length) :
    namedFields? names (names.zip values) = some (values.map some) := by
  have behind (before : List (String × Json)) (fresh : ∀ n ∈ names, n ∉ before.map (·.1)) :
      namedFields? names (before ++ names.zip values) = some (values.map some) := by
    induction names generalizing values before with
    | nil =>
      obtain rfl := List.length_eq_zero_iff.mp len.symm
      rfl
    | cons n r ih =>
      cases values with
      | nil => cases len
      | cons v vs =>
        obtain ⟨once, distinct⟩ := List.nodup_cons.mp nodup
        obtain ⟨own, others⟩ := List.forall_mem_cons.mp fresh
        have lens : r.length = vs.length := Nat.succ.inj len
        have later : occurrences n (r.zip vs) = [] := occurrences_of_not_mem <| by
          rwa [List.map_fst_zip (Nat.le_of_eq lens)]
        have split : before ++ (n :: r).zip (v :: vs) = before ++ [(n, v)] ++ r.zip vs := by
          rw [List.append_assoc]
          rfl
        have fresh : ∀ m ∈ r, m ∉ (before ++ [(n, v)]).map (·.1) := by
          intro m mem
          rw [List.map_append, List.mem_append, not_or]
          exact ⟨others m mem, fun same => once ((List.mem_singleton.mp same : m = n) ▸ mem)⟩
        rw [split]
        refine namedFields?_cons ?_ (ih distinct lens _ fresh)
        rw [occurrences_append, occurrences_append, occurrences_of_not_mem own, later]
        simp [occurrences]
  exact behind [] (by simp)

theorem record?_object {names : List String} (values : List Json) (nodup : names.Nodup)
    (len : names.length = values.length) :
    record? names (.object (names.zip values)) = some (values.map some) :=
  namedFields?_zip nodup len

theorem looseRecord?_object {names : List String} (values : List Json) (nodup : names.Nodup)
    (len : names.length = values.length) :
    looseRecord? names (.object (names.zip values)) = some (values.map some) :=
  namedFields?_zip nodup len

theorem asUnsigned?_natural {max n : Nat} (h : n ≤ max) :
    asUnsigned? max (natural n) = some n := by
  simp [asUnsigned?, natural, h]

theorem le_of_asUnsigned? {max n : Nat} {v : Json} (h : asUnsigned? max v = some n) :
    n ≤ max := by
  unfold asUnsigned? at h
  split at h
  · obtain ⟨bounds, h⟩ := Option.ite_none_right_eq_some.mp h
    exact Option.some.inj h ▸ bounds.2
  · cases h

theorem asTexts?_ofTexts (texts : List String) : asTexts? (ofTexts texts) = some texts := by
  change (texts.map Json.text).mapM asText? = some texts
  induction texts with
  | nil => rfl
  | cons s r ih => simp [List.mapM_cons, ih, asText?]

theorem asTexts?_eq_some_iff {v : Json} {texts : List String} :
    asTexts? v = some texts ↔ v = ofTexts texts := by
  refine ⟨fun read => ?_, fun same => same ▸ asTexts?_ofTexts texts⟩
  unfold asTexts? asList? at read
  split at read
  · rename_i items
    rw [ofTexts]
    congr 1
    induction items generalizing texts with
    | nil =>
      obtain rfl := Option.some.inj read
      rfl
    | cons v r ih =>
      rw [List.mapM_cons] at read
      obtain ⟨s, own, read⟩ := Option.bind_eq_some_iff.mp read
      obtain ⟨others, further, same⟩ := Option.bind_eq_some_iff.mp read
      obtain rfl := Option.some.inj same
      rw [List.map_cons, ih further]
      cases v <;> cases own
      rfl
  · cases read

theorem ofTexts_injective {texts others : List String} (same : ofTexts texts = ofTexts others) :
    texts = others :=
  Option.some.inj ((asTexts?_ofTexts texts).symm.trans (same ▸ asTexts?_ofTexts others))

theorem asText?_eq_some {v : Json} {s : String} (read : v.asText? = some s) : v = .text s := by
  unfold asText? at read
  split at read
  · rw [Option.some.inj read]
  · cases read

theorem asBool?_eq_some {v : Json} {b : Bool} (read : v.asBool? = some b) : v = .bool b := by
  unfold asBool? at read
  split at read
  · rw [Option.some.inj read]
  · cases read

theorem asSigned?_eq_some {v : Json} {n : Int} (read : v.asSigned? = some n) : v = .integer n := by
  unfold asSigned? at read
  split at read
  · obtain ⟨-, same⟩ := Option.ite_none_right_eq_some.mp read
    rw [Option.some.inj same]
  · cases read

theorem ofOption_injective {text other : Option String} (same : ofOption text = ofOption other) :
    text = other := by
  rcases text with _ | s <;> rcases other with _ | t
  · rfl
  · cases same
  · cases same
  · exact congrArg some (text.inj same)

theorem ofOption_of_optional? {given : Option Json} {read : Option String}
    (h : optional? asText? given = some read) : given.getD .null = .ofOption read := by
  unfold optional? at h
  split at h
  · rw [← Option.some.inj h]
    rfl
  · rw [← Option.some.inj h]
    rfl
  · obtain ⟨s, own, rfl⟩ := Option.map_eq_some_iff.mp h
    exact asText?_eq_some own

theorem optional?_ofOption (text : Option String) :
    optional? asText? (some (ofOption text)) = some text := by
  cases text <;> rfl

theorem asTable?_object {t : Table Json} (h : t.Increasing) :
    asTable? some (.object t) = some t := by
  have entries (fields : List (String × Json)) :
      (fields.mapM fun f => (some f.2).map fun v => (f.1, v)) = some fields := by
    induction fields with
    | nil => rfl
    | cons f r ih =>
      rw [List.mapM_cons, ih]
      rfl
  rw [asTable?, entries, Option.map_some, Table.ofList_of_increasing h]

theorem increasing_of_asTable? {α : Type} {item : Json → Option α} {v : Json} {t : Table α}
    (h : asTable? item v = some t) : t.Increasing := by
  unfold asTable? at h
  split at h
  · obtain ⟨entries, _, rfl⟩ := Option.map_eq_some_iff.mp h
    exact Table.increasing_ofList entries
  · cases h

theorem occurrences_insert (name key : String) (before after : List (String × Json)) (v : Json) :
    occurrences name (before ++ (key, v) :: after) =
      occurrences name before ++ (if key = name then [v] else []) ++ occurrences name after := by
  by_cases same : key = name <;> simp [occurrences, same]

section
variable {α : Type} {item : Json → Option α} {fields others : List (String × Json)} {t : Table α}

def keyed? (item : Json → Option α) (f : String × Json) : Option (String × α) :=
  (item f.2).map fun v => (f.1, v)

theorem mapM_eq_some_iff {β γ : Type} {f : β → Option γ} {xs : List β} {ys : List γ} :
    xs.mapM f = some ys ↔ (∀ x ∈ xs, f x ≠ none) ∧ ys = xs.filterMap f := by
  induction xs generalizing ys with
  | nil => simp [eq_comm]
  | cons x r ih =>
    rw [List.mapM_cons, List.forall_mem_cons, List.filterMap_cons]
    cases own : f x with
    | none => simp
    | some y =>
      change ((r.mapM f).bind fun ys => some (y :: ys)) = some ys ↔ _
      rw [Option.bind_eq_some_iff]
      simp only [ih, Option.some.injEq, ne_eq, reduceCtorEq, not_false_eq_true, true_and]
      constructor
      · rintro ⟨_, ⟨all, rfl⟩, rfl⟩
        exact ⟨all, rfl⟩
      · rintro ⟨all, rfl⟩
        exact ⟨_, ⟨all, rfl⟩, rfl⟩

theorem asTable?_eq_some_iff : asTable? item (.object fields) = some t ↔
    (∀ f ∈ fields, item f.2 ≠ none) ∧ t = Table.ofList (fields.filterMap (keyed? item)) := by
  change (fields.mapM (keyed? item)).map Table.ofList = some t ↔ _
  rw [Option.map_eq_some_iff]
  simp only [mapM_eq_some_iff, keyed?, ne_eq, Option.map_eq_none_iff]
  constructor
  · rintro ⟨_, ⟨all, rfl⟩, rfl⟩
    exact ⟨all, rfl⟩
  · rintro ⟨all, rfl⟩
    exact ⟨_, ⟨all, rfl⟩, rfl⟩

theorem nodup_entries (distinct : (fields.map (·.1)).Nodup) :
    ((fields.filterMap (keyed? item)).map (·.1)).Nodup := by
  refine distinct.sublist ?_
  clear distinct
  induction fields with
  | nil => exact .slnil
  | cons f r ih =>
    rw [List.filterMap_cons, keyed?]
    cases item f.2 with
    | none => exact ih.cons _
    | some v => exact ih.cons_cons _

theorem asTable?_perm (distinct : (fields.map (·.1)).Nodup) (h : fields.Perm others) :
    asTable? item (.object fields) = asTable? item (.object others) := by
  refine Option.ext fun t => ?_
  rw [asTable?_eq_some_iff, asTable?_eq_some_iff,
    Table.ofList_perm (nodup_entries distinct) (h.filterMap _)]
  simp only [h.mem_iff]

theorem mem_of_asTable? (distinct : (fields.map (·.1)).Nodup)
    (read : asTable? item (.object fields) = some t) {name : String} {a : α} :
    (name, a) ∈ t ↔ ∃ v, (name, v) ∈ fields ∧ item v = some a := by
  obtain ⟨-, rfl⟩ := asTable?_eq_some_iff.mp read
  rw [(Table.perm_ofList (nodup_entries distinct)).mem_iff, List.mem_filterMap]
  constructor
  · rintro ⟨⟨key, v⟩, mem, same⟩
    obtain ⟨b, found, same⟩ := Option.map_eq_some_iff.mp same
    obtain ⟨rfl, rfl⟩ := Prod.mk.inj same
    exact ⟨v, mem, found⟩
  · rintro ⟨v, mem, found⟩
    exact ⟨(name, v), mem, by rw [keyed?, found]; rfl⟩

end

end Json
end NodeFleet
