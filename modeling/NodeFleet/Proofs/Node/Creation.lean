import NodeFleet.Node.Creation
import NodeFleet.Proofs.Parent.Resolution

set_option autoImplicit false
namespace NodeFleet

/-- The text is no port, or it leaves no room for a preview port and the variables name none. -/
def NoPorts (env : Table String) (portText : String) : Prop :=
  match Port.ofText? portText with
  | none => True
  | some port =>
    NodeSpec.requestedPreview? env = none ∧ maxU16 < port.number + Port.previewGap

abbrev Outcome := Except ConfigurationError CreationStatus

variable {σ : Type}

inductive Submission (engine : Engine σ) (spec : Spec) (portText : String) (state : σ) :
    List Call → Outcome → Sample → Prop
  | uncreated (f : Fault) (create : (engine (.create spec) state).1 = .error f) :
      Submission engine spec portText state [.create spec] (.ok (.failed spec.name))
        (.failed spec.image)
  | unstarted (id : String) (f : Fault) (create : (engine (.create spec) state).1 = .ok id)
      (start : (engine (.start id) (engine (.create spec) state).2).1 = .error f) :
      Submission engine spec portText state [.create spec, .start id, .remove id]
        (.ok (.failed spec.name)) (.failed spec.image)
  | created (id : String) (create : (engine (.create spec) state).1 = .ok id)
      (start : (engine (.start id) (engine (.create spec) state).2).1 = .ok ()) :
      Submission engine spec portText state [.create spec, .start id]
        (.ok (.created spec.name portText)) (.created spec.image)

/-- The calls, the outcome and the counter of a creation. Each way of going excludes the others. -/
inductive Course (engine : Engine σ) (parent image : String) (env : Table String)
    (portText : String) (w : World σ) : List Call → Outcome → Sample → Prop
  | refused (ports : NoPorts env portText) :
      Course engine parent image env portText w [] (.ok (.failed (nodeName parent portText)))
        (.failed image)
  | forbidden (asked : List Call) (e : ConfigurationError) (ports : ¬ NoPorts env portText)
      (mounts : (Action.mountBindings engine parent w).1 = .error e)
      (queries : ∀ c ∈ asked, c.IsQuery) :
      Course engine parent image env portText w asked (.error e) (.failed image)
  | submitted (asked : List Call) (bindings : List MountBinding) (spec : Spec)
      (ports : ¬ NoPorts env portText)
      (mounts : (Action.mountBindings engine parent w).1 = .ok bindings)
      (queries : ∀ c ∈ asked, c.IsQuery) (name : spec.name = nodeName parent portText)
      (sameImage : spec.image = image) (calls : List Call) (outcome : Outcome) (sample : Sample)
      (rest : Submission engine spec portText (Engine.after engine w.engine asked) calls outcome
        sample) :
      Course engine parent image env portText w (asked ++ calls) outcome sample

/-- A creation from a world took one of these courses, made no other call and counted nothing else;
mounts that forbade it are remembered. -/
def Completes (engine : Engine σ) (parent image : String) (env : Table String) (portText : String)
    (w : World σ) (r : Creation × World σ) : Prop :=
  ∃ events sample, r.2.trace = w.trace ++ events ∧
    r.2.engine = Engine.after engine w.engine (events.filterMap Event.call?) ∧
    events.filterMap Event.sample? = [sample] ∧
    Course engine parent image env portText w (events.filterMap Event.call?) r.1.outcome sample ∧
    ∀ e, r.1.outcome = .error e → r.2.parent.mounts = some (.error e)

theorem Submission.outcome_ne_error {engine : Engine σ} {spec : Spec} {portText : String}
    {state : σ} {calls : List Call} {outcome : Outcome} {sample : Sample}
    (h : Submission engine spec portText state calls outcome sample) (e : ConfigurationError) :
    outcome ≠ .error e := by
  cases h with
  | uncreated f create => simp
  | unstarted id f create start => simp
  | created id create start => simp

namespace Action
variable (engine : Engine σ)

@[simp] theorem failCreation_outcome (image : String) (env : Table String) (outcome : Outcome)
    (w : World σ) : (failCreation image env outcome w).1.outcome = outcome := rfl

@[simp] theorem failCreation_parent (image : String) (env : Table String) (outcome : Outcome)
    (w : World σ) : (failCreation image env outcome w).2.parent = w.parent := rfl

theorem failCreation_leads (image : String) (env : Table String) (outcome : Outcome)
    (w : World σ) : World.Leads engine w (failCreation image env outcome w).2
      [.counted (.failed image)] :=
  count_leads engine (.failed image) w

theorem launch_of_started {spec : Spec} {portText : String} {preview : Port}
    {env : Table String} {id : String} {w : World σ}
    (start : (engine (.start id) w.engine).1 = .ok ()) : ∃ events,
      World.Leads engine w (launch engine spec portText preview env id w).2 events ∧
      events.filterMap Event.sample? = [.created spec.image] ∧
      events.filterMap Event.call? = [.start id] ∧
      (launch engine spec portText preview env id w).1.outcome =
        .ok (.created spec.name portText) := by
  let w' := (note (.nodeStarted id spec.name preview.number) (call engine (.start id) w).2).2
  have run : launch engine spec portText preview env id w =
      (⟨.ok (.created spec.name portText), env⟩, (count (.created spec.image) w').2) := by
    simp only [launch, bind_apply, call_answer, start]
    rfl
  rw [run]
  exact ⟨_, ((call_leads engine _ _).trans (note_leads engine _ _)).trans (count_leads engine _ _),
    rfl, rfl, rfl⟩

theorem launch_of_unstarted {spec : Spec} {portText : String} {preview : Port}
    {env : Table String} {id : String} {w : World σ} {f : Fault}
    (start : (engine (.start id) w.engine).1 = .error f) : ∃ events,
      World.Leads engine w (launch engine spec portText preview env id w).2 events ∧
      events.filterMap Event.sample? = [.failed spec.image] ∧
      events.filterMap Event.call? = [.start id, .remove id] ∧
      (launch engine spec portText preview env id w).1.outcome = .ok (.failed spec.name) := by
  let w' := (note (.startFailed spec.name f) (call engine (.start id) w).2).2
  have began := ((call_leads engine (.start id) w).trans (note_leads engine
    (.startFailed spec.name f) _)).trans (call_leads engine (.remove id) w')
  cases remove : (engine (.remove id) w'.engine).1 with
  | error g =>
    have run : launch engine spec portText preview env id w =
        failCreation spec.image env (.ok (.failed spec.name))
          (note (.removalFailed g) (call engine (.remove id) w').2).2 := by
      simp only [launch, bind_apply, call_answer, start, remove, w']
    rw [run]
    exact ⟨_, (began.trans (note_leads engine _ _)).trans (failCreation_leads engine _ _ _ _),
      rfl, rfl, rfl⟩
  | ok _ =>
    have run : launch engine spec portText preview env id w =
        failCreation spec.image env (.ok (.failed spec.name)) (call engine (.remove id) w').2 := by
      simp only [launch, bind_apply, call_answer, start, remove, w']
    rw [run]
    exact ⟨_, began.trans (failCreation_leads engine _ _ _ _), rfl, rfl, rfl⟩

theorem submit_course (spec : Spec) (portText : String) (preview : Port) (env : Table String)
    (w : World σ) : ∃ events sample,
      World.Leads engine w (submit engine spec portText preview env w).2 events ∧
      events.filterMap Event.sample? = [sample] ∧
      Submission engine spec portText w.engine (events.filterMap Event.call?)
        (submit engine spec portText preview env w).1.outcome sample := by
  let w' := (call engine (.create spec) (note (.creating spec.name) w).2).2
  have began := (note_leads engine (.creating spec.name) w).trans
    (call_leads engine (.create spec) _)
  cases create : (engine (.create spec) w.engine).1 with
  | error f =>
    have run : submit engine spec portText preview env w =
        failCreation spec.image env (.ok (.failed spec.name))
          (note (.creationFailed spec.name f) w').2 := by
      simp only [submit, bind_apply, call_answer, note_engine, create, w']
    rw [run]
    exact ⟨_, _, (began.trans (note_leads engine _ _)).trans (failCreation_leads engine _ _ _ _),
      rfl, .uncreated f create⟩
  | ok id =>
    have run : submit engine spec portText preview env w =
        launch engine spec portText preview env id w' := by
      simp only [submit, bind_apply, call_answer, note_engine, create, w']
    rw [run]
    cases start : (engine (.start id) w'.engine).1 with
    | error f =>
      obtain ⟨events, leads, samples, calls, outcome⟩ := launch_of_unstarted engine start
      rw [outcome]
      refine ⟨_, .failed spec.image, began.trans leads, ?_, ?_⟩
      · rw [List.filterMap_append, samples]
        rfl
      · rw [List.filterMap_append, calls]
        exact .unstarted id f create start
    | ok _ =>
      obtain ⟨events, leads, samples, calls, outcome⟩ := launch_of_started engine start
      rw [outcome]
      refine ⟨_, .created spec.image, began.trans leads, ?_, ?_⟩
      · rw [List.filterMap_append, samples]
        rfl
      · rw [List.filterMap_append, calls]
        exact .created id create start

theorem createOn_of_forbidden {parent image : String} {env : Table String} {portText : String}
    (port preview : Port) (ports : ¬ NoPorts env portText) {w : World σ} {e : ConfigurationError}
    (mounts : (mountBindings engine parent w).1 = .error e) :
    Completes engine parent image env portText w
      (createOn engine parent image env portText port preview w) := by
  obtain ⟨events, leads, asks⟩ := mountBindings_asks engine parent w
  rw [createOn, bind_apply, mounts]
  have all := leads.trans (failCreation_leads engine image env (.error e)
    (mountBindings engine parent w).2)
  refine ⟨_, .failed image, all.trace, all.engine, ?_, ?_, ?_⟩
  · rw [List.filterMap_append, filterMap_sample_asks asks]
    rfl
  · rw [List.filterMap_append]
    change Course engine parent image env portText w (_ ++ []) _ _
    rw [List.append_nil]
    exact .forbidden _ e ports mounts (filterMap_call_asks asks)
  · intro e' same
    rw [failCreation_outcome] at same
    obtain rfl := Except.error.inj same
    rw [failCreation_parent, mountBindings_known, mounts]

theorem settings_asked (parent : String) (w : World σ) : ∃ events,
    World.Leads engine w (proxyVariables engine parent
      (network engine parent (mountBindings engine parent w).2).2).2 events ∧
    ∀ e ∈ events, e.Asks := by
  obtain ⟨first, leads, asks⟩ := mountBindings_asks engine parent w
  obtain ⟨second, leads', asks'⟩ := network_asks engine parent (mountBindings engine parent w).2
  obtain ⟨third, leads'', asks''⟩ := proxyVariables_asks engine parent
    (network engine parent (mountBindings engine parent w).2).2
  refine ⟨first ++ second ++ third, (leads.trans leads').trans leads'', ?_⟩
  simp only [List.mem_append]
  rintro e ((mem | mem) | mem)
  · exact asks e mem
  · exact asks' e mem
  · exact asks'' e mem

theorem createOn_of_allowed {parent image : String} {env : Table String} {portText : String}
    (port preview : Port) (ports : ¬ NoPorts env portText) {w : World σ}
    {bindings : List MountBinding} (mounts : (mountBindings engine parent w).1 = .ok bindings) :
    Completes engine parent image env portText w
      (createOn engine parent image env portText port preview w) := by
  obtain ⟨asked, leads, asks⟩ := settings_asked engine parent w
  rw [createOn, bind_apply, mounts]
  dsimp only
  rw [bind_apply, bind_apply]
  generalize network engine parent (mountBindings engine parent w).2 = resolved at leads ⊢
  generalize proxyVariables engine parent resolved.2 = proxy at leads ⊢
  let env' := NodeSpec.withMode (NodeSpec.withPreview env preview) resolved.1.mode
  let spec := NodeSpec.build (nodeName parent portText) image env' port preview bindings resolved.1
    proxy.1
  obtain ⟨events, sample, rest, samples, submission⟩ :=
    submit_course engine spec portText preview env' proxy.2
  rw [leads.engine] at submission
  have all := leads.trans rest
  refine ⟨_, sample, all.trace, all.engine, ?_, ?_, ?_⟩
  · rw [List.filterMap_append, filterMap_sample_asks asks, samples]
    rfl
  · rw [List.filterMap_append]
    have queries := filterMap_call_asks asks
    exact .submitted _ bindings spec ports mounts queries rfl rfl _ _ _ submission
  · intro e error
    exact absurd error (submission.outcome_ne_error e)

theorem previewFor?_eq_none {env : Table String} {port : Port} :
    NodeSpec.previewFor? env port = none ↔
      NodeSpec.requestedPreview? env = none ∧ maxU16 < port.number + Port.previewGap := by
  rw [← Port.preview?_eq_none, NodeSpec.previewFor?]
  cases NodeSpec.requestedPreview? env <;> simp

theorem refusal_completes {parent image : String} {env : Table String} {portText : String}
    (ports : NoPorts env portText) (n : Note) (w : World σ) :
    Completes engine parent image env portText w
      (failCreation image env (.ok (.failed (nodeName parent portText))) (note n w).2) := by
  have all := (note_leads engine n w).trans (failCreation_leads engine image env
    (.ok (.failed (nodeName parent portText))) (note n w).2)
  refine ⟨_, .failed image, all.trace, all.engine, rfl, .refused ports, ?_⟩
  intro e error
  rw [failCreation_outcome] at error
  cases error

/-- Whatever the engine answers, whatever is known of the parent. -/
theorem createContainer_completes (parent image : String) (env : Table String) (portText : String)
    (w : World σ) : Completes engine parent image env portText w
      (createContainer engine parent image env portText w) := by
  unfold createContainer
  cases number : Port.ofText? portText with
  | none => exact refusal_completes engine (by simp [NoPorts, number]) _ w
  | some port =>
    dsimp only
    cases preview : NodeSpec.previewFor? env port with
    | none =>
      have ports : NoPorts env portText := by
        simpa [NoPorts, number] using previewFor?_eq_none.mp preview
      exact refusal_completes engine ports _ w
    | some p =>
      have ports : ¬ NoPorts env portText := by
        intro none
        simp only [NoPorts, number] at none
        rw [previewFor?_eq_none.mpr none] at preview
        cases preview
      cases mounts : (mountBindings engine parent w).1 with
      | error e => exact createOn_of_forbidden engine port p ports mounts
      | ok bindings => exact createOn_of_allowed engine port p ports mounts

end Action
end NodeFleet
