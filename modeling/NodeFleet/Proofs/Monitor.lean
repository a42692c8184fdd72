import NodeFleet.Monitor
import NodeFleet.Proofs.Parent.Refusal

set_option autoImplicit false
namespace NodeFleet
variable {σ : Type}

/-- The image holds the text, and the container is not exited. -/
def Summary.IsNode (image : String) (s : Summary) : Prop :=
  image.toList <:+: s.image.toList ∧ lowerAscii s.state ≠ "exited"

instance Summary.decidableIsNode (image : String) (s : Summary) : Decidable (s.IsNode image) :=
  inferInstanceAs (Decidable (_ ∧ _))

def nodesIn (image : String) : Except Fault (List Summary) → Nat
  | .ok listing => listing.countP fun s => s.IsNode image
  | .error _ => 0

def listingEvents : Except Fault (List Summary) → List Event
  | .ok _ => [.called (.listContainers true)]
  | .error f => [.called (.listContainers true), .noted (.countFailed f)]

/-- What one tick leaves in the trace, given how its listing goes. -/
def tickEvents (image : String) (listed : Except Fault (List Summary)) : List Event :=
  listingEvents listed ++ [.counted (.running image (nodesIn image listed)),
    .noted (.fleetStatus image (nodesIn image listed))]

/-- How the listings of successive ticks go. -/
def listings (engine : Engine σ) : Nat → σ → List (Except Fault (List Summary))
  | 0, _ => []
  | ticks + 1, state =>
    (engine (.listContainers true) state).1 ::
      listings engine ticks (engine (.listContainers true) state).2

theorem listings_length (engine : Engine σ) (ticks : Nat) (state : σ) :
    (listings engine ticks state).length = ticks := by
  induction ticks generalizing state with
  | zero => rfl
  | succ ticks ih => rw [listings, List.length_cons, ih]

theorem Summary.isRunning_iff {image : String} {s : Summary} :
    s.isRunning image = true ↔ s.IsNode image := by
  have exited : sameIgnoringCase s.state "exited" = true ↔ lowerAscii s.state = "exited" :=
    sameIgnoringCase_iff
  rw [isRunning, Bool.and_eq_true, holdsText_iff, Bool.not_eq_true', ← Bool.not_eq_true, exited]
  rfl

theorem runningCount_eq (listing : List Summary) (image : String) :
    runningCount listing image = nodesIn image (.ok listing) := by
  rw [runningCount, ← List.countP_eq_length_filter, nodesIn]
  refine List.countP_congr fun s _ => ?_
  rw [Summary.isRunning_iff, decide_eq_true_iff]

namespace Action
variable (engine : Engine σ)

theorem runningContainers_run (image : String) (w : World σ) :
    let listed := (engine (.listContainers true) w.engine).1
    runningContainers engine image w = (nodesIn image listed, { w with
      engine := (engine (.listContainers true) w.engine).2
      trace := w.trace ++ listingEvents listed }) := by
  dsimp only
  rw [runningContainers, bind_apply, call_answer]
  cases (engine (.listContainers true) w.engine).1 with
  | ok listing =>
    rw [← runningCount_eq]
    rfl
  | error f =>
    have told : w.trace ++ [.called (.listContainers true)] ++ [.noted (.countFailed f)] =
        w.trace ++ listingEvents (.error f) := List.append_assoc _ _ _
    rw [← told]
    rfl

theorem report_run (image : String) (w : World σ) :
    (report engine image w).2 = { w with
      engine := (engine (.listContainers true) w.engine).2
      trace := w.trace ++ tickEvents image (engine (.listContainers true) w.engine).1 } := by
  let listed := (engine (.listContainers true) w.engine).1
  have told : w.trace ++ listingEvents listed ++ [.counted (.running image (nodesIn image listed))]
      ++ [.noted (.fleetStatus image (nodesIn image listed))] =
        w.trace ++ tickEvents image listed := by
    rw [List.append_assoc, List.append_assoc]
    rfl
  rw [report, bind_apply, runningContainers_run]
  exact congrArg (World.mk (engine (.listContainers true) w.engine).2 w.parent) told

theorem reports_trace (image : String) (ticks : Nat) (w : World σ) :
    (reports engine image ticks w).2.trace =
      w.trace ++ (listings engine ticks w.engine).flatMap (tickEvents image) := by
  induction ticks generalizing w with
  | zero => exact (List.append_nil _).symm
  | succ ticks ih =>
    rw [reports, bind_apply, ih, report_run, listings, List.flatMap_cons, List.append_assoc]

end Action

namespace Action
variable (engine : Engine σ)

theorem announce_passes (settings : Settings) (w : World σ) : ∃ events,
    World.Passes engine w (announce settings w).2 events ∧
      events.filterMap Event.call? = [] := by
  have first := note_passes engine .starting w
  rw [announce, bind_apply]
  cases settings.metrics.enabled with
  | false => exact ⟨_, first.trans (note_passes engine _ _), rfl⟩
  | true => exact ⟨_, (first.trans (note_passes engine _ _)).trans (note_passes engine _ _), rfl⟩

theorem selectImage_passes (image : String) (w : World σ) : ∃ events,
    World.Passes engine w (selectImage engine image w).2 events ∧
      events.filterMap Event.call? = [.listImages image] := by
  have asked := call_passes engine (.listImages image) w
  rw [selectImage, bind_apply, latestImage, bind_apply]
  cases (call engine (.listImages image) w).1 with
  | error f =>
    exact ⟨_, (asked.trans (note_passes engine (.imagesFailed f) _)).trans
      (note_passes engine _ _), rfl⟩
  | ok images =>
    dsimp only
    cases Image.latestTag? images with
    | some tag => exact ⟨_, asked.trans (note_passes engine (.imageSelected tag) _), rfl⟩
    | none =>
      exact ⟨_, (asked.trans (note_passes engine (.imageNotFound image) _)).trans
        (note_passes engine _ _), rfl⟩

theorem preflight_answer (parent : String) (w : World σ) :
    (preflight engine parent w).1 = (mountBindings engine parent w).1.map fun _ => () := by
  rw [preflight, bind_apply]
  cases (mountBindings engine parent w).1 with
  | error e => rfl
  | ok mounts => rfl

def start (settings : Settings) : Action σ (Except ConfigurationError Unit) := do
  announce settings
  selectImage engine settings.nodeImage
  preflight engine settings.parentContainer

theorem start_explores (settings : Settings) :
    Emits engine Event.Explores (start engine settings) := by
  refine .bind ?_ fun _ => .bind ?_ fun _ => ?_
  · refine .bind (.note trivial) fun _ => ?_
    split
    · exact .bind (.note trivial) fun _ => .note trivial
    · exact .bind (.pure _) fun _ => .note trivial
  · refine .bind ?_ fun _ => .note trivial
    refine .bind (.call trivial) fun answer => ?_
    cases answer with
    | error f => exact .bind (.note trivial) fun _ => .pure _
    | ok images =>
      dsimp only
      split
      · exact .pure _
      · exact .bind (.note trivial) fun _ => .pure _
  · refine .bind (mountBindings_explores engine _) fun mounts => ?_
    cases mounts with
    | error e => exact .pure _
    | ok bindings =>
      exact .bind (network_explores engine _) fun _ => .bind (proxyVariables_explores engine _)
        fun _ => .bind (.note trivial) fun _ => .pure _

/-- Of all that the start asks, only the inspection of the parent can end it. -/
theorem start_eq_error (settings : Settings) (state : σ) (e : ConfigurationError) :
    (start engine settings (World.begin state)).1 = .error e ↔
      Forbids engine settings.parentContainer
        (engine (.listImages settings.nodeImage) state).2 e := by
  obtain ⟨said, announced, none⟩ := announce_passes engine settings (World.begin state)
  let told := (announce settings (World.begin state)).2
  obtain ⟨looked, selected, asked⟩ := selectImage_passes engine settings.nodeImage told
  let ready := (selectImage engine settings.nodeImage told).2
  have unknown : Fact.mounts.known? ready.parent = Option.none := by
    rw [selected.parent, announced.parent]
    rfl
  have left : ready.engine = (engine (.listImages settings.nodeImage) state).2 := by
    rw [selected.engine, asked, announced.engine, none]
    rfl
  have found : (mountBindings engine settings.parentContainer ready).1 =
      (findMounts engine settings.parentContainer ready).1 := by
    have got : Fact.mounts.get engine settings.parentContainer ready = _ :=
      Fact.get_of_unknown unknown
    exact (congrArg Prod.fst got :)
  change (preflight engine settings.parentContainer ready).1 = .error e ↔ _
  rw [preflight_answer, found, ← left, ← findMounts_eq_error]
  cases (findMounts engine settings.parentContainer ready).1 with
  | error other => simp [Except.map]
  | ok mounts => simp [Except.map]

theorem monitor_run (settings : Settings) (ticks : Nat) (w : World σ) :
    monitor engine settings ticks w =
      match start engine settings w with
      | (.error e, w') => (.error (.parent settings.parentContainer e), w')
      | (.ok (), w') =>
        (.ok (), (note .stopped (note .shutdownReceived
          (reports engine settings.nodeImage ticks w').2).2).2) := by
  let ready := (selectImage engine settings.nodeImage (announce settings w).2).2
  have begun : start engine settings w = preflight engine settings.parentContainer ready := rfl
  rw [begun, monitor, bind_apply, bind_apply, bind_apply]
  generalize preflight engine settings.parentContainer ready = ended
  obtain ⟨answer, w'⟩ := ended
  cases answer with
  | error e => rfl
  | ok _ => rfl

/-- Under any engine the start leaves one trace, whatever the number of ticks after it. -/
theorem monitor_course (settings : Settings) (state : σ) :
    ∃ begun : List Event, (∀ e ∈ begun, e.Explores) ∧ ∀ ticks,
      let run := monitor engine settings ticks (World.begin state)
      let ready := Engine.after engine state (begun.filterMap Event.call?)
      let reported := (listings engine ticks ready).flatMap (tickEvents settings.nodeImage)
      (∃ e, run.1 = .error (.parent settings.parentContainer e) ∧ run.2.trace = begun ∧
        Forbids engine settings.parentContainer
          (engine (.listImages settings.nodeImage) state).2 e) ∨
      (run.1 = .ok () ∧
        run.2.trace = begun ++ reported ++ [.noted .shutdownReceived, .noted .stopped] ∧
        ∀ e, ¬ Forbids engine settings.parentContainer
          (engine (.listImages settings.nodeImage) state).2 e) := by
  obtain ⟨begun, leads, explores⟩ := start_explores engine settings (World.begin state)
  refine ⟨begun, explores, fun ticks => ?_⟩
  have forbidden := start_eq_error engine settings state
  rw [monitor_run]
  generalize start engine settings (World.begin state) = outcome at leads forbidden
  obtain ⟨answer, w⟩ := outcome
  have trace : w.trace = begun := leads.trace
  have left : w.engine = Engine.after engine state (begun.filterMap Event.call?) := leads.engine
  cases answer with
  | error e => exact .inl ⟨e, rfl, trace, (forbidden e).mp rfl⟩
  | ok _ =>
    refine .inr ⟨rfl, ?_, fun e forbids => ?_⟩
    · change (reports engine settings.nodeImage ticks w).2.trace ++ [_] ++ [_] = _
      rw [reports_trace, trace, left, List.append_assoc]
      rfl
    · cases (forbidden e).mpr forbids

end Action

namespace Run
variable {τ : Type} {transport : Transport τ} {wire : τ} {library : SettingsFile.Library}
  {environment : Table String} {files : Files} {settings : Settings} {ticks : Nat}

theorem failure_eq (load : Settings.loadWith library environment files = .ok settings) :
    (ofProgramWith library environment files transport wire ticks).failure =
      match (Action.monitor (Gateway.engine transport) settings ticks
        (World.begin (Link.begin wire))).1 with
      | .error f => some f
      | .ok () => none := by
  rw [ofProgramWith, load]
  rfl

end Run

/-- What the daemon answers can end the program in one way only: the parent is found and inspected,
and its mounts are an error. Then nothing is reported; otherwise each tick until the shutdown counts
and logs one report, with the number of nodes in the listing of that tick. -/
theorem program_ends_only_if_forbidden {τ : Type} (transport : Transport τ) (wire : τ)
    (library : SettingsFile.Library) (environment : Table String) (files : Files)
    (settings : Settings) (load : Settings.loadWith library environment files = .ok settings) :
    let engine := Gateway.engine transport
    let state := Link.begin wire
    let forbidden := Forbids engine settings.parentContainer
      (engine (.listImages settings.nodeImage) state).2
    ∃ begun : List Event, (∀ e ∈ begun, e.Explores) ∧ ∀ ticks,
      let program := Run.ofProgramWith library environment files transport wire ticks
      let world := (Action.monitor engine settings ticks (World.begin state)).2
      let listed := listings engine ticks (Engine.after engine state (begun.filterMap Event.call?))
      let filter := Run.logFilter (Settings.allVariables environment files) settings
      (program.exitCode = 1 ↔ ∃ e, forbidden e) ∧
      (∀ f, program.failure = some f ↔
        ∃ e, f = .parent settings.parentContainer e ∧ forbidden e) ∧
      program.notes = world.notes.filter (fun n => filter.shows n.target n.level) ∧
      ((∃ e, forbidden e) → world.trace = begun) ∧
      ((∀ e, ¬ forbidden e) → listed.length = ticks ∧
        world.trace = begun ++ listed.flatMap (tickEvents settings.nodeImage) ++
          [.noted .shutdownReceived, .noted .stopped]) := by
  intro engine state forbidden
  obtain ⟨begun, explores, course⟩ := Action.monitor_course engine settings state
  refine ⟨begun, explores, fun ticks => ?_⟩
  intro program world listed filter
  have notes : program.notes = world.notes.filter fun n => filter.shows n.target n.level := by
    change (Run.ofProgramWith library environment files transport wire ticks).notes = _
    rw [Run.ofProgramWith, load]
    rfl
  have length : listed.length = ticks := listings_length engine ticks _
  rw [Run.exitCode]
  obtain ⟨e, ended, trace, forbids⟩ | ⟨ended, trace, allowed⟩ := course ticks
  · have failure : program.failure = some (.parent settings.parentContainer e) := by
      rw [Run.failure_eq load, ended]
    rw [failure]
    refine ⟨iff_of_true rfl ⟨e, forbids⟩, fun f => ?_, notes, fun _ => trace,
      fun allowed => absurd forbids (allowed e)⟩
    constructor
    · intro same
      exact ⟨e, (Option.some.inj same).symm, forbids⟩
    · rintro ⟨other, rfl, forbids'⟩
      rw [forbids.unique forbids']
  · have failure : program.failure = none := by rw [Run.failure_eq load, ended]
    have none : ¬ ∃ e, forbidden e := not_exists.mpr allowed
    rw [failure]
    refine ⟨iff_of_false (by decide) none, fun f => iff_of_false ?_ ?_, notes,
      fun forbids => absurd forbids none, fun _ => ⟨length, trace⟩⟩
    · rintro ⟨⟩
    · rintro ⟨e, -, forbids⟩
      exact allowed e forbids

def unreachable : Transport Unit := fun _ wire => (.unreachable, wire)

theorem program_ends_only_if_forbidden_unreachable :
    Settings.load [] [] = .ok .default ∧ (Run.ofProgram [] [] unreachable () 2).failure = none ∧
      ∃ begun : List Event, (∀ e ∈ begun, e.Explores) ∧
        (Action.monitor (Gateway.engine unreachable) .default 2
          (World.begin (Link.begin ()))).2.trace =
          begun ++ (List.replicate 2 (tickEvents "elgalu/selenium" (.error Response.broken))).flatten
            ++ [.noted .shutdownReceived, .noted .stopped] := by
  have load : Settings.load [] [] = .ok .default := by
    have given : (Settings.load [] []).toOption = some .default := by decide +kernel
    cases loaded : Settings.load [] [] with
    | error e =>
      rw [loaded] at given
      cases given
    | ok settings =>
      rw [loaded] at given
      rw [Option.some.inj given]
  obtain ⟨begun, explores, course⟩ :=
    program_ends_only_if_forbidden unreachable () .plain [] [] .default load
  obtain ⟨-, failure, -, -, reports⟩ := course 2
  have allowed (e : ConfigurationError) : ¬ Forbids (Gateway.engine unreachable) "dockgrid"
      (Gateway.engine unreachable (.listImages "elgalu/selenium") (Link.begin ())).2 e := by
    rintro ⟨detail, ⟨listing, id, listed, -⟩, -⟩
    cases listed
  refine ⟨load, Option.eq_none_iff_forall_ne_some.mpr fun f failed => ?_, begun, explores,
    (reports allowed).2⟩
  obtain ⟨e, -, forbids⟩ := (failure f).mp failed
  exact allowed e forbids

end NodeFleet
