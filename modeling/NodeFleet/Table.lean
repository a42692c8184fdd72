set_option autoImplicit false
namespace NodeFleet

abbrev Table (α : Type) := List (String × α)

namespace Table
variable {α : Type}

def get? (t : Table α) (key : String) : Option α :=
  match t with
  | [] => none
  | (k, v) :: r => if k = key then some v else get? r key

def insert (t : Table α) (key : String) (value : α) : Table α :=
  match t with
  | [] => [(key, value)]
  | (k, v) :: r =>
    if key < k then (key, value) :: (k, v) :: r
    else if key = k then (key, value) :: r
    else (k, v) :: insert r key value

/-- Later entries replace earlier ones with the same key. -/
def ofList (entries : List (String × α)) : Table α :=
  entries.foldl (fun t e => t.insert e.1 e.2) []

def keys (t : Table α) : List String := t.map (·.1)

theorem get?_insert_self (t : Table α) (key : String) (value : α) :
    (t.insert key value).get? key = some value := by
  induction t with
  | nil => simp [insert, get?]
  | cons e r ih =>
    obtain ⟨k, v⟩ := e
    simp only [insert]
    split
    · simp [get?]
    · split
      · simp [get?]
      · rename_i h
        simp [get?, ih, Ne.symm h]

theorem get?_insert_of_ne (t : Table α) {key other : String} (value : α) (h : other ≠ key) :
    (t.insert key value).get? other = t.get? other := by
  induction t with
  | nil => simp [insert, get?, h.symm]
  | cons e r ih =>
    obtain ⟨k, v⟩ := e
    simp only [insert]
    split
    · simp [get?, h.symm]
    · split
      · rename_i hk
        subst hk
        simp [get?, h.symm]
      · by_cases hk : k = other
        · simp [get?, hk]
        · simp [get?, hk, ih]

theorem get?_insert (t : Table α) (key other : String) (value : α) :
    (t.insert key value).get? other = if other = key then some value else t.get? other := by
  split
  · rename_i same
    rw [same, get?_insert_self]
  · rename_i ne
    exact get?_insert_of_ne t value ne

theorem mem_of_get? {t : Table α} {key : String} {value : α} (h : t.get? key = some value) :
    (key, value) ∈ t := by
  induction t with
  | nil => cases h
  | cons e r ih =>
    obtain ⟨k, v⟩ := e
    rw [get?] at h
    split at h
    · rename_i same
      obtain rfl := Option.some.inj h
      rw [same]
      exact List.mem_cons_self
    · exact List.mem_cons_of_mem _ (ih h)

theorem get?_append (t more : Table α) (key : String) :
    get? (t ++ more) key = (t.get? key).or (more.get? key) := by
  induction t with
  | nil => rfl
  | cons e r ih =>
    obtain ⟨k, v⟩ := e
    rw [List.cons_append, get?, get?, ih]
    split <;> rfl

/-- Of several entries for a key the last is found. -/
theorem get?_ofList (entries : List (String × α)) (key : String) :
    (ofList entries).get? key = get? entries.reverse key := by
  have found (t : Table α) : get? (entries.foldl (fun t e => t.insert e.1 e.2) t) key =
      (get? entries.reverse key).or (t.get? key) := by
    induction entries generalizing t with
    | nil => rfl
    | cons e r ih =>
      obtain ⟨k, v⟩ := e
      have own : (get? [(k, v)] key).or (t.get? key) = (t.insert k v).get? key := by
        rw [get?_insert, get?]
        by_cases same : k = key
        · rw [if_pos same, if_pos same.symm, Option.some_or]
        · rw [if_neg same, if_neg (Ne.symm same), get?, Option.none_or]
      rw [List.foldl_cons, ih, List.reverse_cons, get?_append, Option.or_assoc, own]
  exact (found []).trans (Option.or_none)

theorem get?_map_pair (names : List String) (value : α) (key : String) :
    get? (names.map fun n => (n, value)) key = if key ∈ names then some value else none := by
  induction names with
  | nil => rfl
  | cons n r ih =>
    rw [List.map_cons, get?, ih]
    by_cases own : n = key
    · rw [if_pos own, if_pos (own ▸ List.mem_cons_self)]
    · have others : key ∈ n :: r ↔ key ∈ r := by
        rw [List.mem_cons, or_iff_right (Ne.symm own)]
      simp only [if_neg own, others]

theorem insert_insert_self (t : Table α) (key : String) (old value : α) :
    (t.insert key old).insert key value = t.insert key value := by
  induction t with
  | nil => simp [insert]
  | cons e r ih =>
    obtain ⟨k, v⟩ := e
    by_cases before : key < k
    · simp [insert, before]
    · by_cases same : key = k
      · simp [insert, same]
      · simp [insert, before, same, ih]

theorem insert_comm_of_lt (t : Table α) {key other : String} (h : key < other) (value mark : α) :
    (t.insert key value).insert other mark = (t.insert other mark).insert key value := by
  have ne : other ≠ key := fun same => String.lt_irrefl key (same ▸ h)
  have after : ¬ other < key := String.lt_asymm h
  induction t with
  | nil => simp [insert, h, after, ne]
  | cons e r ih =>
    obtain ⟨k, v⟩ := e
    by_cases same : other = k
    · subst same
      simp [insert, h, after, ne]
    by_cases last : other < k
    · have first : key < k := String.lt_trans h last
      simp [insert, h, after, ne, first, last]
    · by_cases first : key < k
      · simp [insert, after, ne, first, last, same]
      · by_cases own : key = k
        · simp [insert, own, last, same]
        · simp [insert, first, own, last, same, ih]

theorem lt_or_lt_of_ne {key other : String} (h : key ≠ other) : key < other ∨ other < key := by
  by_cases before : key < other
  · exact .inl before
  · refine .inr (String.not_le.mp fun le => h ?_)
    exact String.le_antisymm le (String.not_lt.mp before)

theorem insert_comm (t : Table α) {key other : String} (h : key ≠ other) (value mark : α) :
    (t.insert key value).insert other mark = (t.insert other mark).insert key value := by
  rcases lt_or_lt_of_ne h with before | after
  · exact insert_comm_of_lt t before value mark
  · exact (insert_comm_of_lt t after mark value).symm

theorem foldl_insert_of_mem (entries : List (String × α)) (t : Table α) {key : String}
    (mem : key ∈ entries.map (·.1)) (value : α) :
    entries.foldl (fun t e => t.insert e.1 e.2) (t.insert key value) =
      entries.foldl (fun t e => t.insert e.1 e.2) t := by
  induction entries generalizing t with
  | nil => cases mem
  | cons e r ih =>
    rw [List.foldl_cons, List.foldl_cons]
    by_cases own : key = e.1
    · rw [own, insert_insert_self]
    · have later : key ∈ r.map (·.1) := (List.mem_cons.mp mem).resolve_left own
      rw [insert_comm t own, ih (t.insert e.1 e.2) later]

theorem foldl_insert_twice (entries : List (String × α)) (t : Table α) :
    entries.foldl (fun t e => t.insert e.1 e.2)
        (entries.foldl (fun t e => t.insert e.1 e.2) t) =
      entries.foldl (fun t e => t.insert e.1 e.2) t := by
  have absorbed (done : List (String × α)) (mem : ∀ e ∈ done, e.1 ∈ entries.map (·.1)) :
      entries.foldl (fun t e => t.insert e.1 e.2)
          (done.foldl (fun t e => t.insert e.1 e.2) t) =
        entries.foldl (fun t e => t.insert e.1 e.2) t := by
    induction done generalizing t with
    | nil => rfl
    | cons e r ih =>
      obtain ⟨first, rest⟩ := List.forall_mem_cons.mp mem
      rw [List.foldl_cons, ih (t.insert e.1 e.2) rest, foldl_insert_of_mem entries t first]
  exact absorbed entries fun e mem => List.mem_map_of_mem mem

def Increasing (t : Table α) : Prop := t.keys.Pairwise (· < ·)

theorem mem_of_mem_keys_insert {t : Table α} {key other : String} {value : α}
    (h : other ∈ (t.insert key value).keys) : other = key ∨ other ∈ t.keys := by
  induction t with
  | nil => exact .inl (by simpa [insert, keys] using h)
  | cons e r ih =>
    obtain ⟨k, v⟩ := e
    simp only [insert] at h
    split at h
    · simpa [keys] using h
    · split at h
      · rcases List.mem_cons.mp h with own | rest
        · exact .inl own
        · exact .inr (List.mem_cons_of_mem _ rest)
      · rcases List.mem_cons.mp h with first | rest
        · exact .inr (first ▸ List.mem_cons_self)
        · exact (ih rest).imp_right (List.mem_cons_of_mem _)

theorem Increasing.insert {t : Table α} (h : t.Increasing) (key : String) (value : α) :
    (t.insert key value).Increasing := by
  induction t with
  | nil => exact List.pairwise_singleton _ _
  | cons e r ih =>
    obtain ⟨k, v⟩ := e
    obtain ⟨least, rest⟩ := List.pairwise_cons.mp h
    simp only [Table.insert]
    split
    · rename_i before
      refine List.pairwise_cons.mpr ⟨fun other mem => ?_, h⟩
      rcases List.mem_cons.mp mem with first | mem
      · exact first ▸ before
      · exact String.lt_trans before (least other mem)
    · split
      · rename_i same
        exact List.pairwise_cons.mpr ⟨fun other mem => same ▸ least other mem, rest⟩
      · rename_i notBefore ne
        have after : k < key := (lt_or_lt_of_ne ne).resolve_left notBefore
        refine List.pairwise_cons.mpr ⟨fun other mem => ?_, ih rest⟩
        rcases mem_of_mem_keys_insert mem with own | mem
        · exact own ▸ after
        · exact least other mem

theorem Increasing.nodup {t : Table α} (h : t.Increasing) : t.keys.Nodup := by
  refine List.Pairwise.imp ?_ h
  rintro key other before rfl
  exact String.lt_irrefl key before

theorem get?_of_mem {entries : List (String × α)} (nodup : (entries.map (·.1)).Nodup) {key : String}
    {value : α} (mem : (key, value) ∈ entries) : get? entries key = some value := by
  induction entries with
  | nil => cases mem
  | cons e r ih =>
    obtain ⟨k, v⟩ := e
    obtain ⟨fresh, rest⟩ := List.nodup_cons.mp nodup
    rw [get?]
    rcases List.mem_cons.mp mem with own | mem
    · obtain ⟨rfl, rfl⟩ := Prod.mk.inj own
      exact if_pos rfl
    · have ne : k ≠ key := by
        rintro rfl
        exact fresh (List.mem_map_of_mem (f := (·.1)) mem)
      rw [if_neg ne]
      exact ih rest mem

theorem filter_of_mem {entries : List (String × α)} (nodup : (entries.map (·.1)).Nodup)
    {key : String} {value : α} (mem : (key, value) ∈ entries) :
    entries.filter (·.1 = key) = [(key, value)] := by
  induction entries with
  | nil => cases mem
  | cons e r ih =>
    obtain ⟨k, v⟩ := e
    obtain ⟨fresh, rest⟩ := List.nodup_cons.mp nodup
    rcases List.mem_cons.mp mem with own | mem
    · obtain ⟨rfl, rfl⟩ := Prod.mk.inj own
      have others : r.filter (·.1 = key) = [] := by
        refine List.filter_eq_nil_iff.mpr fun f listed same => fresh ?_
        have own : f.1 = key := of_decide_eq_true same
        exact own ▸ List.mem_map_of_mem (f := (·.1)) listed
      rw [List.filter_cons, if_pos (decide_eq_true rfl), others]
    · have ne : k ≠ key := by
        rintro rfl
        exact fresh (List.mem_map_of_mem (f := (·.1)) mem)
      rw [List.filter_cons, if_neg (by simpa using ne), ih rest mem]

theorem Increasing.get?_of_mem {t : Table α} (h : t.Increasing) {key : String} {value : α}
    (mem : (key, value) ∈ t) : t.get? key = some value :=
  Table.get?_of_mem h.nodup mem

theorem increasing_ofList (entries : List (String × α)) : (ofList entries).Increasing := by
  have kept (t : Table α) (h : t.Increasing) :
      (entries.foldl (fun t e => t.insert e.1 e.2) t).Increasing := by
    induction entries generalizing t with
    | nil => exact h
    | cons e r ih => exact ih _ (h.insert e.1 e.2)
  exact kept [] List.Pairwise.nil

theorem perm_insert {t : Table α} {key : String} (fresh : key ∉ t.keys) (value : α) :
    (t.insert key value).Perm ((key, value) :: t) := by
  induction t with
  | nil => exact .refl _
  | cons e r ih =>
    obtain ⟨k, v⟩ := e
    have ne : key ≠ k := fun same => fresh (same ▸ List.mem_cons_self)
    have rest : key ∉ keys r := fun mem => fresh (List.mem_cons_of_mem _ mem)
    rw [insert, if_neg ne]
    split
    · exact .refl _
    · exact ((ih rest).cons _).trans (.swap _ _ _)

theorem perm_foldl_insert {entries : List (String × α)} {t : Table α}
    (nodup : ((t ++ entries).map (·.1)).Nodup) :
    (entries.foldl (fun t e => t.insert e.1 e.2) t).Perm (t ++ entries) := by
  induction entries generalizing t with
  | nil => exact .of_eq (List.append_nil t).symm
  | cons e r ih =>
    have front : (t ++ e :: r).Perm (e :: (t ++ r)) := List.perm_middle
    have distinct := (front.map (·.1)).nodup_iff.mp nodup
    have fresh : e.1 ∉ t.keys := fun mem => (List.nodup_cons.mp distinct).1 <| by
      rw [List.map_append]
      exact List.mem_append_left _ mem
    have grown : (t.insert e.1 e.2 ++ r).Perm (e :: (t ++ r)) :=
      (perm_insert fresh e.2).append_right r
    have later := ih ((grown.map (·.1)).nodup_iff.mpr distinct)
    exact (later.trans grown).trans front.symm

theorem perm_ofList {entries : List (String × α)} (nodup : (entries.map (·.1)).Nodup) :
    (ofList entries).Perm entries :=
  perm_foldl_insert (t := []) nodup

theorem Increasing.eq_of_perm {s t : Table α} (h : s.Increasing) (h' : t.Increasing)
    (perm : s.Perm t) : s = t :=
  have sorted {t : Table α} (h : t.Increasing) : t.Pairwise (·.1 < ·.1) := List.pairwise_map.mp h
  perm.eq_of_pairwise (fun _ _ _ _ before after => absurd after (String.lt_asymm before))
    (sorted h) (sorted h')

theorem Increasing.ext {s t : Table α} (h : s.Increasing) (h' : t.Increasing)
    (same : ∀ key, s.get? key = t.get? key) : s = t := by
  have nodup {t : Table α} (h : t.Increasing) : t.Nodup := by
    refine (List.pairwise_map.mp h).imp ?_
    rintro e _ before rfl
    exact String.lt_irrefl _ before
  refine h.eq_of_perm h' ((List.perm_ext_iff_of_nodup (nodup h) (nodup h')).mpr ?_)
  rintro ⟨key, value⟩
  constructor
  · exact fun mem => mem_of_get? ((same key).symm.trans (h.get?_of_mem mem))
  · exact fun mem => mem_of_get? ((same key).trans (h'.get?_of_mem mem))

/-- The order of entries with keys of their own does not matter. -/
theorem ofList_perm {entries others : List (String × α)} (nodup : (entries.map (·.1)).Nodup)
    (h : entries.Perm others) : ofList entries = ofList others := by
  have first := perm_ofList nodup
  have second := perm_ofList ((h.map (·.1)).nodup_iff.mp nodup)
  exact (increasing_ofList entries).eq_of_perm (increasing_ofList others)
    ((first.trans h).trans second.symm)

theorem insert_of_last {t : Table α} {key : String} (last : ∀ other ∈ t.keys, other < key)
    (value : α) : t.insert key value = t ++ [(key, value)] := by
  induction t with
  | nil => rfl
  | cons e r ih =>
    obtain ⟨k, v⟩ := e
    obtain ⟨before, rest⟩ := List.forall_mem_cons.mp last
    have ne : key ≠ k := fun same => String.lt_irrefl k (same ▸ before)
    rw [insert, if_neg (String.lt_asymm before), if_neg ne, ih rest]
    rfl

theorem ofList_of_increasing {t : Table α} (h : t.Increasing) : ofList t = t := by
  have built (done rest : Table α) (h : (done ++ rest).Increasing) :
      rest.foldl (fun t e => t.insert e.1 e.2) done = done ++ rest := by
    induction rest generalizing done with
    | nil => exact (List.append_nil done).symm
    | cons e r ih =>
      have last : ∀ other ∈ done.keys, other < e.1 := by
        rw [Increasing, keys, List.map_append, List.pairwise_append] at h
        exact fun other mem => h.2.2 other mem e.1 List.mem_cons_self
      rw [List.append_cons] at h
      rw [List.foldl_cons, insert_of_last last, ih _ h, List.append_assoc]
      rfl
  exact built [] t h

end Table
end NodeFleet
