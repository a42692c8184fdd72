import Mathlib
import NodeFleet.Proofs.Records

set_option autoImplicit false
namespace NodeFleet
namespace Json

def fieldsBeside (base : Json) (fields : List (String × Json)) : List (String × Json) :=
  match base with
  | .object below => below.filter fun f => f.1 ∉ fields.map (·.1)
  | _ => []

mutual
/-- A value over a base. Objects merge field by field, anything else takes the base's place. -/
def overlay (base : Json) : Json → Json
  | .object fields => .object (overlayFields base fields ++ base.fieldsBeside fields)
  | v => v
def overlayFields (base : Json) : List (String × Json) → List (String × Json)
  | [] => []
  | (name, v) :: r =>
    (name, match base.field? name with
      | some b => b.overlay v
      | none => v) :: overlayFields base r
end

def overlayField (base : Json) : Option Json → Json
  | none => base
  | some v => base.overlay v

theorem overlay_of_no_fields {base : Json} (none : ∀ fields, base ≠ .object fields) (v : Json) :
    base.overlay v = v := by
  cases v with
  | object fields =>
    have same (fields : List (String × Json)) : overlayFields base fields = fields := by
      induction fields with
      | nil => rw [overlayFields]
      | cons f r ih =>
        obtain ⟨name, v⟩ := f
        rw [overlayFields, ih]
        cases base with
        | object below => exact absurd rfl (none below)
        | _ => rfl
    have beside : base.fieldsBeside fields = [] := by
      cases base with
      | object below => exact absurd rfl (none below)
      | _ => rfl
    rw [overlay, same, beside, List.append_nil]
  | _ => rw [overlay]; simp

theorem overlay_object (base : Json) (fields : List (String × Json)) :
    base.overlay (.object fields) =
      .object (overlayFields base fields ++ base.fieldsBeside fields) := by
  rw [overlay]

section
variable {below fields : List (String × Json)} {name : String} {b : Json}

theorem occurrences_cons (k : String) (v : Json) : occurrences name ((k, v) :: fields) =
    if k = name then v :: occurrences name fields else occurrences name fields := by
  by_cases same : k = name <;> simp [occurrences, same]

theorem occurrences_overlayFields {base : Json} (own : base.field? name = some b) :
    occurrences name (overlayFields base fields) = (occurrences name fields).map b.overlay := by
  induction fields with
  | nil => rw [overlayFields]; rfl
  | cons f r ih =>
    obtain ⟨k, v⟩ := f
    rw [overlayFields, occurrences_cons, occurrences_cons, ih]
    by_cases same : k = name
    · subst same
      simp [own]
    · simp [same]

theorem occurrences_eq_nil_iff : occurrences name fields = [] ↔ name ∉ fields.map (·.1) := by
  refine ⟨fun none mem => ?_, occurrences_of_not_mem⟩
  obtain ⟨f, listed, own⟩ := List.mem_map.mp mem
  have all := List.filter_eq_nil_iff.mp (List.map_eq_nil_iff.mp none) f listed
  exact all (decide_eq_true own)

theorem occurrences_fieldsBeside :
    occurrences name ((Json.object below).fieldsBeside fields) =
      if occurrences name fields = [] then occurrences name below else [] := by
  rw [fieldsBeside, occurrences, List.filter_filter]
  split
  · rename_i none
    have fresh := occurrences_eq_nil_iff.mp none
    rw [occurrences]
    congr 1
    refine List.filter_congr fun f _ => ?_
    by_cases own : f.1 = name
    · simpa [own] using fresh
    · simp [own]
  · rename_i some
    have given : name ∈ fields.map (·.1) := by
      by_contra fresh
      exact some (occurrences_eq_nil_iff.mpr fresh)
    rw [List.map_eq_nil_iff, List.filter_eq_nil_iff]
    rintro f - both
    obtain ⟨own, fresh⟩ := Bool.and_eq_true_iff.mp both
    exact of_decide_eq_true fresh (of_decide_eq_true own ▸ given)

theorem occurrences_overlay (once : occurrences name below = [b]) :
    occurrences name (overlayFields (.object below) fields ++
        (Json.object below).fieldsBeside fields) =
      if occurrences name fields = [] then [b] else (occurrences name fields).map b.overlay := by
  have own : (Json.object below).field? name = some b := by
    rw [field?_object, once]
    rfl
  rw [occurrences_append, occurrences_overlayFields own, occurrences_fieldsBeside, once]
  split
  · rename_i none
    rw [none]
    rfl
  · exact List.append_nil _

end

theorem namedFields?_eq_bind (name : String) (names : List String) (fields : List (String × Json)) :
    namedFields? (name :: names) fields = Option.bind
      (match occurrences name fields with
        | [] => some none
        | [v] => some (some v)
        | _ => none) fun v => (namedFields? names fields).bind fun values => some (v :: values) := by
  rw [namedFields?, List.mapM_cons]
  rfl

theorem length_namedFields? {names : List String} {fields : List (String × Json)}
    {values : List (Option Json)} (h : namedFields? names fields = some values) :
    values.length = names.length := by
  induction names generalizing values with
  | nil =>
    obtain rfl := Option.some.inj h
    rfl
  | cons n r ih =>
    rw [namedFields?_eq_bind] at h
    obtain ⟨_, _, h⟩ := Option.bind_eq_some_iff.mp h
    obtain ⟨others, read, h⟩ := Option.bind_eq_some_iff.mp h
    obtain rfl := Option.some.inj h
    rw [List.length_cons, List.length_cons, ih read]

theorem occurrences_zip {names : List String} {values : List Json} (nodup : names.Nodup)
    (len : names.length = values.length) :
    List.Forall₂ (fun n v => occurrences n (names.zip values) = [v]) names values := by
  refine List.forall₂_iff_zip.mpr ⟨len, fun mem => ?_⟩
  have distinct : ((names.zip values).map (·.1)).Nodup := by
    rwa [List.map_fst_zip (Nat.le_of_eq len)]
  rw [occurrences, Table.filter_of_mem distinct mem]
  rfl

theorem namedFields?_overlay {names : List String} {bases : List Json}
    {below : List (String × Json)}
    (given : List.Forall₂ (fun n b => occurrences n below = [b]) names bases)
    (fields : List (String × Json)) :
    namedFields? names (overlayFields (.object below) fields ++
        (Json.object below).fieldsBeside fields) =
      (namedFields? names fields).map fun values =>
        List.zipWith (fun b v => some (b.overlayField v)) bases values := by
  induction given with
  | nil => rfl
  | @cons n b names bases once _ ih =>
    rw [namedFields?_eq_bind, namedFields?_eq_bind, ih, occurrences_overlay once]
    cases occurrences n fields with
    | nil => cases namedFields? names fields <;> rfl
    | cons v more =>
      cases more with
      | nil => cases namedFields? names fields <;> rfl
      | cons w more => rfl

end Json

/-- Reading for which it makes no difference to lay what is read over the written default. -/
structure FallsBack {α : Type} (read : Json → Option α) (default : α) (written : Json) : Prop where
  base : read written = some default
  laid : ∀ v, read (written.overlay v) = read v

namespace FallsBack
variable {α : Type} {read : Json → Option α} {default : α} {written : Json}

theorem of_no_fields (base : read written = some default)
    (none : ∀ fields, written ≠ .object fields) : FallsBack read default written :=
  ⟨base, fun v => by rw [Json.overlay_of_no_fields none]⟩

theorem field? (h : FallsBack read default written) (given : Option Json) :
    Understanding.field? default read (some (written.overlayField given)) =
      Understanding.field? default read given := by
  cases given with
  | none => exact h.base
  | some v => exact h.laid v

/-- A record falls back if it is read field by field from fields that do. -/
theorem of_record (names : List String) (bases : List Json) (nodup : names.Nodup)
    (len : names.length = bases.length) (base : read (.object (names.zip bases)) = some default)
    (without : ∀ v, Json.understanding.record? names v = none → read v = none)
    (fields : ∀ v w values, values.length = names.length →
      Json.understanding.record? names v = some values →
      Json.understanding.record? names w =
        some (List.zipWith (fun b v => some (b.overlayField v)) bases values) → read w = read v) :
    FallsBack read default (.object (names.zip bases)) where
  base := base
  laid v := by
    cases v with
    | object given =>
      have record : Json.understanding.record? names
          ((Json.object (names.zip bases)).overlay (.object given)) =
            (Json.understanding.record? names (.object given)).map
              (List.zipWith (fun b v => some (b.overlayField v)) bases) := by
        rw [Json.overlay_object]
        exact Json.namedFields?_overlay (Json.occurrences_zip nodup len) given
      cases found : Json.understanding.record? names (.object given) with
      | none =>
        rw [found] at record
        rw [without _ found, without _ record]
      | some values =>
        rw [found] at record
        exact fields _ _ values (Json.length_namedFields? found) found record
    | _ => rw [Json.overlay]; simp

theorem text (s : String) : FallsBack Json.understanding.text? s (.text s) :=
  .of_no_fields rfl nofun

theorem optionalText (s : Option String) :
    FallsBack Json.understanding.optionalText? s (.ofOption s) :=
  .of_no_fields (Json.optional?_ofOption s) (by cases s <;> nofun)

theorem unsigned {n : Nat} (h : n ≤ maxU64) :
    FallsBack Json.understanding.unsigned? n (.natural n) :=
  .of_no_fields (Json.asUnsigned?_natural h) nofun

theorem flag (b : Bool) : FallsBack Json.understanding.flag? b (.bool b) :=
  .of_no_fields rfl nofun

end FallsBack

theorem EngineSettings.fallsBack :
    FallsBack (read? Json.understanding) default default.toJson := by
  have socket := FallsBack.optionalText default.socket
  have timeout := FallsBack.unsigned (n := default.timeoutSecs) (by decide)
  refine .of_record fieldNames [.ofOption default.socket, .natural default.timeoutSecs]
    (by decide) rfl (read?_toJson (by decide)) (fun v nothing => by rw [read?, nothing]) ?_
  intro v w values len given laid
  obtain ⟨first, second, rfl⟩ := List.length_eq_two.mp len
  rw [read?, read?, given, laid]
  simp only [List.zipWith, socket.field?, timeout.field?]

theorem ReclaimerSettings.fallsBack :
    FallsBack (read? Json.understanding) default default.toJson := by
  have threshold := FallsBack.unsigned (n := default.idleThresholdSecs) (by decide)
  have interval := FallsBack.unsigned (n := default.pollIntervalMs) (by decide)
  refine .of_record fieldNames
    [.natural default.idleThresholdSecs, .natural default.pollIntervalMs] (by decide) rfl
    (read?_toJson (by decide) (by decide)) (fun v nothing => by rw [read?, nothing]) ?_
  intro v w values len given laid
  obtain ⟨first, second, rfl⟩ := List.length_eq_two.mp len
  rw [read?, read?, given, laid]
  simp only [List.zipWith, threshold.field?, interval.field?]

theorem MetricsSettings.fallsBack :
    FallsBack (read? Json.understanding) default default.toJson := by
  have enabled := FallsBack.flag default.enabled
  have listen := FallsBack.optionalText default.listenAddr
  refine .of_record fieldNames [.bool default.enabled, .ofOption default.listenAddr]
    (by decide) rfl (read?_toJson default) (fun v nothing => by rw [read?, nothing]) ?_
  intro v w values len given laid
  obtain ⟨first, second, rfl⟩ := List.length_eq_two.mp len
  rw [read?, read?, given, laid]
  simp only [List.zipWith, enabled.field?, listen.field?]

namespace Settings

theorem fallsBack : FallsBack ofJson? default default.toJson := by
  have logLevel := FallsBack.text default.logLevel
  have parent := FallsBack.text default.parentContainer
  have image := FallsBack.text default.nodeImage
  have monitor := FallsBack.unsigned (n := default.monitorIntervalSecs) (by decide)
  have engine := EngineSettings.fallsBack
  have reclaimer := ReclaimerSettings.fallsBack
  have metrics := MetricsSettings.fallsBack
  refine .of_record fieldNames
    [.text default.logLevel, .text default.parentContainer, .text default.nodeImage,
      .natural default.monitorIntervalSecs, EngineSettings.default.toJson,
      ReclaimerSettings.default.toJson, MetricsSettings.default.toJson] (by decide) rfl
    (ofJson?_toJson ⟨by decide, by decide, by decide, by decide⟩)
    (fun v nothing => by rw [ofJson?, read?, nothing]) ?_
  intro v w values len given laid
  obtain ⟨first, behind, rfl, six⟩ := List.length_eq_succ_iff.mp len
  obtain ⟨second, behind, rfl, five⟩ := List.length_eq_succ_iff.mp six
  obtain ⟨third, behind, rfl, four⟩ := List.length_eq_succ_iff.mp five
  obtain ⟨fourth, behind, rfl, three⟩ := List.length_eq_succ_iff.mp four
  obtain ⟨fifth, sixth, seventh, rfl⟩ := List.length_eq_three.mp three
  rw [ofJson?, ofJson?, read?, read?, given, laid]
  simp only [List.zipWith, logLevel.field?, parent.field?, image.field?, monitor.field?]
  simp only [default, engine.field?, reclaimer.field?, metrics.field?]

/-- An object reads as the same settings, or as none, as the object over the written defaults. -/
theorem reading_fills_in_defaults (fields : List (String × Json)) :
    ofJson? (.object fields) = ofJson? (default.toJson.overlay (.object fields)) :=
  (fallsBack.laid (.object fields)).symm

example : EngineSettings.default.toJson.overlay
    (.object [("timeout_secs", .natural 5), ("tls", .object [])]) =
      .object [("timeout_secs", .natural 5), ("tls", .object []), ("socket", .null)] := by rfl

end Settings

end NodeFleet
