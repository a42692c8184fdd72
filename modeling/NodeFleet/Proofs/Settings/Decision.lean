import NodeFleet.Proofs.Settings.Files
import NodeFleet.Proofs.Settings.Variables
/-!
Each setting by itself. Its value is the one of the first source that gives one: a variable of the
process, a definition in the file of variables, the settings file, the default. This value alone
decides, whatever other sources and other settings hold; if it does not fit, loading fails.
-/

set_option autoImplicit false
namespace NodeFleet

inductive Setting
  | logLevel
  | parentContainer
  | nodeImage
  | monitorInterval
  | socket
  | timeout
  | idleThreshold
  | pollInterval
  | metricsEnabled
  | listenAddress
deriving DecidableEq, Repr

namespace Setting
open SettingValue

def path : Setting → List String
  | .logLevel => ["log_level"]
  | .parentContainer => ["parent_container"]
  | .nodeImage => ["node_image"]
  | .monitorInterval => ["monitor_interval_secs"]
  | .socket => ["docker", "socket"]
  | .timeout => ["docker", "timeout_secs"]
  | .idleThreshold => ["reclaimer", "idle_threshold_secs"]
  | .pollInterval => ["reclaimer", "poll_interval_ms"]
  | .metricsEnabled => ["metrics", "enabled"]
  | .listenAddress => ["metrics", "listen_addr"]

/-- The name, in lower case, of the variable for this setting. -/
def variableName (x : Setting) : String := "dockgrid__" ++ "__".intercalate x.path

@[reducible] def Value : Setting → Type
  | .logLevel | .parentContainer | .nodeImage => String
  | .socket | .listenAddress => Option String
  | .metricsEnabled => Bool
  | .monitorInterval | .timeout | .idleThreshold | .pollInterval => Nat

instance : (x : Setting) → DecidableEq x.Value
  | .logLevel | .parentContainer | .nodeImage => inferInstanceAs (DecidableEq String)
  | .socket | .listenAddress => inferInstanceAs (DecidableEq (Option String))
  | .metricsEnabled => inferInstanceAs (DecidableEq Bool)
  | .monitorInterval | .timeout | .idleThreshold | .pollInterval =>
    inferInstanceAs (DecidableEq Nat)

def all : List Setting :=
  [.logLevel, .parentContainer, .nodeImage, .monitorInterval, .socket, .timeout, .idleThreshold,
    .pollInterval, .metricsEnabled, .listenAddress]

theorem mem_all (x : Setting) : x ∈ all := by cases x <;> decide

instance (p : Setting → Prop) [DecidablePred p] : Decidable (∀ x, p x) :=
  decidable_of_iff (∀ x ∈ all, p x) ⟨fun each x => each x (mem_all x), fun each x _ => each x⟩

def of (s : Settings) : (x : Setting) → x.Value
  | .logLevel => s.logLevel
  | .parentContainer => s.parentContainer
  | .nodeImage => s.nodeImage
  | .monitorInterval => s.monitorIntervalSecs
  | .socket => s.engine.socket
  | .timeout => s.engine.timeoutSecs
  | .idleThreshold => s.reclaimer.idleThresholdSecs
  | .pollInterval => s.reclaimer.pollIntervalMs
  | .metricsEnabled => s.metrics.enabled
  | .listenAddress => s.metrics.listenAddr

def read? : (x : Setting) → SettingValue → Option x.Value
  | .logLevel | .parentContainer | .nodeImage => asText?
  | .socket | .listenAddress => asOptionalText?
  | .metricsEnabled => asFlag?
  | .monitorInterval | .timeout | .idleThreshold | .pollInterval => asUnsigned?

def decode? (x : Setting) (v : Option SettingValue) : Option x.Value :=
  Understanding.field? (of .default x) x.read? v

/-- The value of the first source that gives one. -/
def winner (x : Setting) (environment : Table String) (files : Files)
    (file : Table SettingValue) : Option SettingValue :=
  ((environment ++ Settings.definitions environment files).findSome? (givenBy? x.path)).or
    (decisive (givenAt x.path (spelled file)))

theorem read?_of_isTable (x : Setting) (v : SettingValue) (table : v.isTable = true) :
    x.read? v = none := by
  obtain ⟨entries, rfl⟩ := exists_of_isTable table
  cases x <;> rfl

theorem read?_outline (x : Setting) (v : SettingValue) : x.read? (outline v) = x.read? v := by
  cases v with
  | list | table => cases x <;> rw [outline] <;> rfl
  | _ => rw [outline] <;> simp

theorem map_read?_outline (x : Setting) (v : Option SettingValue) :
    (v.map outline).map x.read? = v.map x.read? := by
  rw [Option.map_map]
  exact congrArg (Option.map · v) (funext x.read?_outline)

theorem decode?_eq_getD (x : Setting) (v : Option SettingValue) :
    x.decode? v = (v.map x.read?).getD (some (of .default x)) := by
  cases v <;> rfl

theorem decode?_outline (x : Setting) (v : Option SettingValue) :
    x.decode? (v.map outline) = x.decode? v := by
  rw [decode?_eq_getD, decode?_eq_getD, map_read?_outline]

theorem pathOf_variableKey? (x : Setting) {name : String} (named : lowerKey name = x.variableName) :
    ∃ key, variableKey? name = some key ∧ pathOf (lowerKey key) = x.path.map .name := by
  have key : (variableKey? x.variableName).map (fun k => pathOf (lowerKey k)) =
      some (x.path.map .name) := by
    cases x <;> cbv
  rw [← variableKey?_lowerKey, named]
  exact Option.map_eq_some_iff.mp key

theorem givenBy?_variableName (x : Setting) {name : String} (named : lowerKey name = x.variableName)
    (text : String) : givenBy? x.path (name, text) = some (ofVariable text) := by
  obtain ⟨k, found, path⟩ := x.pathOf_variableKey? named
  rw [givenBy?, found, Option.bind_some, path, below?_self]

end Setting

namespace Settings
open SettingValue

def sections : List String := ["docker", "reclaimer", "metrics"]

def collect? (f : (x : Setting) → Option x.Value) : Option Settings := do
  pure {
    logLevel := ← f .logLevel
    parentContainer := ← f .parentContainer
    nodeImage := ← f .nodeImage
    monitorIntervalSecs := ← f .monitorInterval
    engine := ⟨← f .socket, ← f .timeout⟩
    reclaimer := ⟨← f .idleThreshold, ← f .pollInterval⟩
    metrics := ⟨← f .metricsEnabled, ← f .listenAddress⟩ }

theorem collect?_eq_some {f : (x : Setting) → Option x.Value} {s : Settings} :
    collect? f = some s ↔ ∀ x, f x = some (x.of s) := by
  constructor
  · intro whole
    simp only [collect?, Option.bind_eq_bind, Option.bind_eq_some_iff, Option.pure_def,
      Option.some.injEq] at whole
    obtain ⟨_, h₁, _, h₂, _, h₃, _, h₄, _, h₅, _, h₆, _, h₇, _, h₈, _, h₉, _, h₁₀, rfl⟩ := whole
    intro x
    cases x <;> assumption
  · intro each
    simp [collect?, each, Setting.of]

theorem collect?_eq_none {f : (x : Setting) → Option x.Value} :
    collect? f = none ↔ ∃ x, f x = none := by
  constructor
  · intro nothing
    by_contra all
    have value (x : Setting) : f x = some ((f x).get (Option.isSome_iff_ne_none.mpr
        fun none => all ⟨x, none⟩)) := (Option.some_get _).symm
    rw [collect?] at nothing
    rw [value .logLevel, value .parentContainer, value .nodeImage, value .monitorInterval,
      value .socket, value .timeout, value .idleThreshold, value .pollInterval,
      value .metricsEnabled, value .listenAddress] at nothing
    cases nothing
  · rintro ⟨x, none⟩
    cases whole : collect? f with
    | none => rfl
    | some s =>
      rw [collect?_eq_some.mp whole x] at none
      cases none

/-- Reading settings is reading each by itself, as long as sections are tables. -/
theorem decode?_eq_collect? {root : SettingValue} (table : root.isTable = true)
    (sections : ∀ name ∈ sections, ∃ entries, at? [name] root = some (.table entries)) :
    decode? root = collect? fun x => x.decode? (at? x.path root) := by
  obtain ⟨entries, rfl⟩ := exists_of_isTable table
  have top (key : String) : Table.get? entries key = at? [key] (.table entries) :=
    (at?_key (.table entries) key).symm
  have below {name : String} {inner : Table SettingValue}
      (there : at? [name] (.table entries) = some (.table inner)) (key : String) :
      at? [name, key] (.table entries) = Table.get? inner key := by
    rw [at?_cons, there, Option.bind_some, at?_key, entriesOf]
  obtain ⟨docker, hd⟩ := sections "docker" (by decide)
  obtain ⟨reclaimer, hr⟩ := sections "reclaimer" (by decide)
  obtain ⟨metrics, hm⟩ := sections "metrics" (by decide)
  simp only [decode?, Settings.read?, understanding, asRecord?, fieldNames, List.map_cons,
    List.map_nil, top, hd, hr, hm, Understanding.field?, EngineSettings.read?,
    EngineSettings.fieldNames, ReclaimerSettings.read?, ReclaimerSettings.fieldNames,
    MetricsSettings.read?, MetricsSettings.fieldNames, bind_assoc, pure_bind]
  simp only [collect?, Setting.decode?, Setting.path, below hd, below hr, below hm]
  rfl

theorem root_eq : root =
  .table [
    ("docker", .table [("socket", .absent), ("timeout_secs", .whole 120)]),
    ("log_level", .text "info"),
    ("metrics", .table [("enabled", .flag true), ("listen_addr", .absent)]),
    ("monitor_interval_secs", .whole 5),
    ("node_image", .text "elgalu/selenium"),
    ("parent_container", .text "dockgrid"),
    ("reclaimer",
      .table [("idle_threshold_secs", .whole 90), ("poll_interval_ms", .whole 500)])] := by
  cbv

theorem isTable_root : root.isTable = true := by rw [root_eq]; rfl

/-- Sections are tables wherever they are given, and neither the settings file nor the variables
give a setting twice, unless all that they give are tables. -/
structure Orderly (environment : Table String) (files : Files) (file : Table SettingValue) :
    Prop where
  sections : ∀ name ∈ sections, ∀ v ∈ given name (spelled file ++
    spelled (ofVariables (allVariables environment files))), v.isTable = true
  file : ∀ x : Setting, Once (givenAt x.path (spelled file))
  named : ∀ x : Setting, Once ((allVariables environment files).filterMap (givenBy? x.path))

theorem outline_root : outline root = root := by
  rw [root_eq]
  simp [outline, outlineAll]

/-- Merging puts the entries of the files and then those of the variables over the defaults. -/
theorem outline_merged {library : SettingsFile.Library} {environment : Table String} {files : Files}
    {own system : List (String × SettingValue)}
    (readOwn : library.layer? files SettingsFile.ownName = some own)
    (readSystem : library.layer? files SettingsFile.systemName = some system) :
    ∃ merged, merged? library environment files = some merged ∧
      outline merged = putAll root (outlineAll (spelled own ++ (spelled system ++
        spelled (ofVariables (allVariables environment files))))) := by
  refine ⟨_, by rw [merged?, readOwn, readSystem]; rfl, ?_⟩
  rw [List.foldl_cons, List.foldl_cons, List.foldl_cons, List.foldl_nil, outline_layer,
    outline_layer, outline_layer, outline_root, ← putAll_append, ← putAll_append,
    ← outlineAll_append, ← outlineAll_append]

theorem at?_root (x : Setting) :
    ∃ d, at? x.path root = some d ∧ x.read? d = some (x.of .default) := by
  rw [root_eq]
  cases x <;> exact ⟨_, rfl, rfl⟩

theorem section_root {name : String} (mem : name ∈ sections) :
    ∃ entries, at? [name] root = some (.table entries) := by
  rw [root_eq]
  simp only [sections, List.mem_cons, List.not_mem_nil, or_false] at mem
  rcases mem with rfl | rfl | rfl <;> exact ⟨_, rfl⟩

section
variable {environment : Table String} {files : Files} {file : Table SettingValue}

theorem at?_putAll_root {entries : List (String × SettingValue)}
    (tables : ∀ name ∈ sections, ∀ v ∈ given name entries, v.isTable = true) (x : Setting) :
    at? x.path (putAll root entries) =
      (givenAt x.path entries).foldl overlay (at? x.path root) := by
  have inside (name : String) (mem : name ∈ sections) (key : String) :
      at? [name, key] (putAll root entries) =
        (givenAt [name, key] entries).foldl overlay (at? [name, key] root) := by
    obtain ⟨old, there⟩ := section_root mem
    exact at?_section_putAll key there (tables name mem)
  cases x with
  | logLevel | parentContainer | nodeImage | monitorInterval => exact at?_key_putAll ..
  | socket | timeout => exact inside "docker" (by decide) _
  | idleThreshold | pollInterval => exact inside "reclaimer" (by decide) _
  | metricsEnabled | listenAddress => exact inside "metrics" (by decide) _

theorem Orderly.decode?_at (orderly : Orderly environment files file) {merged : SettingValue}
    (same : outline merged = putAll root (outlineAll (spelled file ++
      spelled (ofVariables (allVariables environment files))))) (x : Setting) :
    x.decode? (at? x.path merged) = x.decode? (x.winner environment files file) := by
  obtain ⟨d, base, default⟩ := at?_root x
  obtain ⟨key, r, path⟩ : ∃ key r, x.path = key :: r := by cases x <;> exact ⟨_, _, rfl⟩
  have named : givenAt x.path (spelled (ofVariables (allVariables environment files))) =
      (allVariables environment files).filterMap (givenBy? x.path) := by
    rw [path, givenAt_variables]
  have tables : ∀ name ∈ Settings.sections, ∀ v ∈ given name (outlineAll (spelled file ++
      spelled (ofVariables (allVariables environment files)))), v.isTable = true := by
    intro name mem
    rw [given_outlineAll]
    exact isTable_of_mem_map_outline (orderly.sections name mem)
  obtain ⟨v, found, decided⟩ := foldl_overlay_once x.read?_of_isTable d
    (orderly.file x).map_outline (orderly.named x).map_outline
  rw [← x.decode?_outline, ← at?_outline, same, at?_putAll_root tables, base, givenAt_outlineAll,
    givenAt_append, List.map_append, named, found, x.decode?_eq_getD, x.decode?_eq_getD,
    Option.map_some, Option.getD_some, decided, default, decisive_map_outline, decisive_map_outline,
    Option.map_or, x.map_read?_outline, x.map_read?_outline, decisive_variables,
    findSome?_allVariables x.read?_of_isTable (orderly.named x), ← Option.map_or]
  rfl

theorem exists_table_of_outline {v : Option SettingValue} {entries : Table SettingValue}
    (h : v.map outline = some (.table entries)) : ∃ inner, v = some (.table inner) := by
  obtain ⟨w, rfl, same⟩ := Option.map_eq_some_iff.mp h
  have table : w.isTable = true := by rw [← isTable_outline, same]; rfl
  exact (exists_of_isTable table).imp fun inner whole => congrArg some whole

theorem Orderly.decode?_merged (orderly : Orderly environment files file) {merged : SettingValue}
    (same : outline merged = putAll root (outlineAll (spelled file ++
      spelled (ofVariables (allVariables environment files))))) :
    decode? merged = collect? fun x => x.decode? (x.winner environment files file) := by
  have table : merged.isTable = true := by
    rw [← isTable_outline, same]
    exact isTable_putAll (.inl isTable_root)
  rw [decode?_eq_collect? table fun name mem => ?_]
  · exact congrArg collect? (funext (orderly.decode?_at same))
  · obtain ⟨old, there⟩ := section_root mem
    have inner : (SettingValue.table old).isTable = true := rfl
    have tables := isTable_of_mem_map_outline (orderly.sections name mem)
    obtain ⟨entries, made⟩ := exists_of_isTable (isTable_putAll (.inl inner))
    have outlined : (at? [name] merged).map outline = some (.table entries) := by
      rw [← at?_outline, same, at?_key_putAll, there, givenAt, given_outlineAll,
        foldl_overlay_tables tables, made]
    exact exists_table_of_outline outlined

theorem Orderly.winner_eq (orderly : Orderly environment files file) {x : Setting}
    {name text : String} (named : lowerKey name = x.variableName)
    (first : Table.get? (environment ++ definitions environment files) name = some text) :
    x.winner environment files file = some (ofVariable text) := by
  have gives := x.givenBy?_variableName named text
  have only := (orderly.named x).eq_singleton
    (List.mem_filterMap.mpr ⟨_, mem_allVariables first, gives⟩) (isTable_ofVariable text)
  cases found : (environment ++ definitions environment files).findSome? (givenBy? x.path) with
  | none =>
    have nothing := List.findSome?_eq_none_iff.mp found _ (Table.mem_of_get? first)
    rw [gives] at nothing
    cases nothing
  | some v =>
    have mem := mem_of_findSome? found
    rw [only, List.mem_singleton] at mem
    rw [Setting.winner, found, mem]
    rfl

end

theorem invalid?_ne_unfitting (s : Settings) : s.invalid? ≠ some .unfitting := by
  have address (e : SettingsError) (wrong : s.metrics.address = .error e) : e ≠ .unfitting := by
    rw [MetricsSettings.address] at wrong
    split at wrong
    · cases wrong
    · split at wrong
      · cases wrong
      · obtain rfl := Except.error.inj wrong
        simp
  unfold invalid?
  iterate 6
    split
    · simp
  split
  · rename_i e wrong
    exact fun same => address e wrong (Option.some.inj same)
  · simp

def layeredEnvironment : Table String := [("DOCKGRID__DOCKER__TIMEOUT_SECS", "30")]

def layeredFiles : Files :=
  [(".env", "DOCKGRID__LOG_LEVEL=debug\nDOCKGRID__LOG_LEVEL=trace\n"),
    ("config/dockgrid.json",
      "\x7b\"docker\": \x7b\"timeout_secs\": \"soon\", \"socket\": \"/engine\"\x7d\x7d")]

def layeredFile : Table SettingValue :=
  [("docker", .table [("timeout_secs", .text "soon"), ("socket", .text "/engine")])]

def layeredSettings : Settings :=
  { default with logLevel := "debug", engine := ⟨some "/engine", 30⟩ }

def emptyTableFiles : Files := [("config/dockgrid.json", "\x7b\"log_level\": \x7b\x7d\x7d")]

end Settings
end NodeFleet
