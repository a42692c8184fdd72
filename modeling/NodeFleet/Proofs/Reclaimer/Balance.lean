import NodeFleet.Proofs.Reclaimer.Pass
import NodeFleet.Proofs.Reclaimer.Phase
import NodeFleet.Proofs.Reclaimer.Terminal

set_option autoImplicit false
namespace NodeFleet
namespace Reclaimer

namespace Occurrence

def names? : Occurrence → Option String
  | .noted (.releasing _ _ id) => some id
  | .noted (.sessionCompleted _ id) => some id
  | _ => none

def sampled (who : Option String) : Occurrence → List (Option String × Sample)
  | .counted x => [(who, x)]
  | _ => []

def closes (how : SessionEnd) (id : String) : Occurrence → Bool
  | .released _ slot _ _ _ => how = .reclaimed && slot.sessionId = id
  | .completed sessionId => how = .completed && sessionId = id
  | _ => false

def captures (id : String) (completed : Bool) : Occurrence → Bool
  | .captured _ sessionId c => sessionId = id && c = completed
  | _ => false

def releasedBy (pass : Nat) : Occurrence → Bool
  | .released p _ _ _ _ => p = pass
  | _ => false

end Occurrence

def Counts (how : SessionEnd) : Sample → Bool
  | .ended _ h => h = how
  | _ => false

/-- Measures how long a session with this end lasted. -/
def Times (how : SessionEnd) : Sample → Bool
  | .lasted _ h _ => h = how
  | _ => false

/-- The samples, each with the session named last before it. -/
def samplesFor : Option String → List Occurrence → List (Option String × Sample)
  | _, [] => []
  | who, e :: r => e.sampled who ++ samplesFor (e.names?.or who) r

def lastNamed (who : Option String) (history : List Occurrence) : Option String :=
  history.foldl (fun who e => e.names?.or who) who

def taken (kind : Sample → Bool) (id : String) (samples : List (Option String × Sample)) : Nat :=
  samples.countP fun x => x.1 = some id && kind x.2

theorem samplesFor_append (who : Option String) (history new : List Occurrence) :
    samplesFor who (history ++ new) =
      samplesFor who history ++ samplesFor (lastNamed who history) new := by
  induction history generalizing who with
  | nil => rfl
  | cons e r ih =>
    rw [List.cons_append, samplesFor, samplesFor, ih, List.append_assoc]
    rfl

theorem taken_append (kind : Sample → Bool) (id : String)
    (samples more : List (Option String × Sample)) :
    taken kind id (samples ++ more) = taken kind id samples + taken kind id more :=
  List.countP_append

/-- Every end of a session on record is counted once and timed once, whoever was named before, and
every completion has its capture. -/
structure Balanced (history : List Occurrence) : Prop where
  counted : ∀ who how id,
    taken (Counts how) id (samplesFor who history) = history.countP (·.closes how id)
  timed : ∀ who how id,
    taken (Times how) id (samplesFor who history) = history.countP (·.closes how id)
  captured : ∀ id, history.countP (·.captures id true) = history.countP (·.closes .completed id)

namespace Balanced
variable {history new : List Occurrence}

theorem append (h : Balanced history) (h' : Balanced new) : Balanced (history ++ new) := by
  constructor
  · intro who how id
    rw [samplesFor_append, taken_append, h.counted, h'.counted, List.countP_append]
  · intro who how id
    rw [samplesFor_append, taken_append, h.timed, h'.timed, List.countP_append]
  · intro id
    rw [List.countP_append, List.countP_append, h.captured, h'.captured]

theorem nil : Balanced [] := ⟨fun _ _ _ => rfl, fun _ _ _ => rfl, fun _ => rfl⟩

theorem single {e : Occurrence} (sampled : ∀ who, e.sampled who = [])
    (closes : ∀ how id, e.closes how id = false) (captures : ∀ id, e.captures id true = false) :
    Balanced [e] := by
  constructor <;> intros <;> simp [samplesFor, taken, *]

theorem noted (notes : List Note) : Balanced (notes.map .noted) := by
  induction notes with
  | nil => exact nil
  | cons n r ih => exact (single (fun _ => rfl) (fun _ _ => rfl) fun _ => rfl).append ih

end Balanced

namespace Machine
variable {s : Setup} {m m' : Machine} {o : Owner} {f : Frame} {rest : List Frame}

theorem balanced_release (pass : Nat) (slot : SlotSession) (phase : Phase)
    (occupied : List SlotSession) :
    Balanced (.noted (.releasing s.proxy slot.slotId slot.sessionId) ::
      measured s .reclaimed slot ++ [.released pass slot .orphan phase occupied]) := by
  constructor
  · intro who how id
    cases how <;> simp [measured, samplesFor, taken, Occurrence.sampled, Occurrence.names?, Counts,
      Occurrence.closes, List.countP_cons]
  · intro who how id
    cases how <;> simp [measured, samplesFor, taken, Occurrence.sampled, Occurrence.names?, Times,
      Occurrence.closes, List.countP_cons]
  · intro id
    simp [measured, Occurrence.captures, Occurrence.closes]

theorem balanced_completion (slot : SlotSession) :
    Balanced (.completed slot.sessionId ::
      .noted (.sessionCompleted s.proxy slot.sessionId) :: measured s .completed slot ++
        [.captured none slot.sessionId true]) := by
  constructor
  · intro who how id
    cases how <;> simp [measured, samplesFor, taken, Occurrence.sampled, Occurrence.names?, Counts,
      Occurrence.closes, List.countP_cons]
  · intro who how id
    cases how <;> simp [measured, samplesFor, taken, Occurrence.sampled, Occurrence.names?, Times,
      Occurrence.closes, List.countP_cons]
  · intro id
    simp [measured, Occurrence.captures, Occurrence.closes, List.countP_cons]

theorem balanced_recorded (s : Setup) (m : Machine) (o : Owner) (f : Frame) :
    Balanced (m.recorded s o f) := by
  have polled : Balanced [.polled m.passes o m.clock m.slots (m.claimable s)] :=
    .single (fun _ => rfl) (fun _ _ => rfl) fun _ => rfl
  have ended (pass count : Nat) : Balanced [.passEnded pass count] :=
    .single (fun _ => rfl) (fun _ _ => rfl) fun _ => rfl
  have records := records s m o f
  generalize m.recorded s o f = made at records
  cases records with
  | completes slot => exact balanced_completion slot
  | notes n => exact .noted [_]
  | claims => exact polled
  | idles => exact polled.append (ended m.passes 0)
  | ends pass previous count => exact ended pass count
  | releases pass slot => exact balanced_release pass slot m.phase m.slots
  | captures pass id =>
    exact .single (fun _ => rfl) (fun _ _ => rfl) fun _ => by simp [Occurrence.captures]
  | hookEnds => exact .single (fun _ => rfl) (fun _ _ => rfl) fun _ => rfl
  | nothing => exact .nil

end Machine

theorem Balanced.reached {s : Setup} {past : List Machine} {m : Machine} (run : Run s past m) :
    Balanced m.history := by
  induction run with
  | new slots hooks => exact nil
  | issue operation _ _ _ ih => exact ih
  | step run hs ih =>
    obtain ⟨new, history, ⟨o, f, rest, -, -, -, -, rfl⟩ | ⟨-, notes, rfl⟩⟩ :=
      Machine.step_history (Machine.Tidy.reached run) hs
    · rw [history]
      exact ih.append (Machine.balanced_recorded _ _ o f)
    · rw [history]
      exact ih.append (noted notes)

section
variable {pass : Nat} {done : List SlotSession} {served : List Occurrence}

theorem Serves.countP_eq (h : Serves pass done served) {p : Occurrence → Bool}
    {q : SlotSession → Bool} (each : ∀ slot phase occupied,
      [Occurrence.released pass slot .orphan phase occupied,
        .captured (some pass) slot.sessionId false].countP p = [slot].countP q) :
    served.countP p = done.countP q := by
  induction h with
  | none => rfl
  | more slot phase occupied _ ih =>
    rw [List.countP_append, List.countP_append, ih, each]

theorem Serves.countP_closes (h : Serves pass done served) (id : String) :
    served.countP (·.closes .reclaimed id) = done.countP (·.sessionId = id) :=
  h.countP_eq fun slot phase occupied => by simp [List.countP_cons, Occurrence.closes]

theorem Serves.countP_captures (h : Serves pass done served) (id : String) :
    served.countP (·.captures id false) = done.countP (·.sessionId = id) :=
  h.countP_eq fun slot phase occupied => by simp [List.countP_cons, Occurrence.captures]

end

namespace Machine
variable {s : Setup} {m : Machine} {o : Owner} {f : Frame}

theorem inProgress_of_mem {pass : Nat} {left : List SlotSession} {previous : Phase} {count : Nat}
    (h : .releases pass left previous count ∈ (m.fiber o).frames) : m.InProgress := by
  refine inProgress_iff.mpr ⟨o, List.ne_nil_of_mem (a := previous) ?_⟩
  exact List.mem_filterMap.mpr ⟨_, h, rfl⟩

theorem captured_of_mem_recorded {pass : Option Nat} {id : String}
    (h : .captured pass id false ∈ m.recorded s o f) : ∃ p, pass = some p := by
  have records := records s m o f
  generalize m.recorded s o f = made at h records
  cases records with
  | captures p sessionId => exact ⟨p, (Occurrence.captured.inj (List.mem_singleton.mp h)).1⟩
  | _ => simp [measured] at h

end Machine

theorem countP_own {p : Occurrence → Bool} {e : Occurrence} (h : p e = false)
    (served last : List Occurrence) :
    (e :: served ++ last).countP p = served.countP p + last.countP p := by
  rw [List.cons_append, List.countP_cons_of_neg (by simp [h]), List.countP_append]

namespace Stage
variable {m : Machine} {pass : Nat}

theorem captures_le (h : Stage m pass) (id : String) :
    (eventsOf pass m.history).countP (·.captures id false) ≤
      (eventsOf pass m.history).countP (·.closes .reclaimed id) := by
  cases h with
  | unborn fresh frames events =>
    rw [events]
    exact Nat.le_refl _
  | releasing old owner time listed done left previous served serves frames events =>
    rw [events, List.countP_cons, List.countP_cons, serves.countP_captures, serves.countP_closes]
    exact Nat.le_refl _
  | capturing old owner time listed done left slot previous phase occupied served serves frames
      events =>
    rw [events, countP_own rfl, countP_own rfl, serves.countP_captures, serves.countP_closes]
    exact Nat.le_add_right _ _
  | ended old owner time listed done served serves frames events =>
    rw [events, countP_own rfl, countP_own rfl, serves.countP_captures, serves.countP_closes]
    exact Nat.le_refl _

theorem closes_le (h : Stage m pass) (idle : ¬ m.InProgress) (id : String) :
    (eventsOf pass m.history).countP (·.closes .reclaimed id) ≤
      (eventsOf pass m.history).countP (·.captures id false) := by
  cases h with
  | unborn fresh frames events =>
    rw [events]
    exact Nat.le_refl _
  -- before its end a pass has its releases on a stack, and is in progress
  | releasing old owner time listed done left previous served serves frames events =>
    have mem : .releases pass left previous (done ++ left).length ∈
        framesOf pass (m.fiber owner).frames := by
      rw [frames, if_pos rfl]
      exact List.mem_singleton_self _
    exact absurd (Machine.inProgress_of_mem (List.mem_filter.mp mem).1) idle
  | capturing old owner time listed done left slot previous phase occupied served serves frames =>
    have mem : .releases pass left previous (done ++ slot :: left).length ∈
        framesOf pass (m.fiber owner).frames := by
      rw [frames, if_pos rfl]
      exact List.mem_cons_of_mem _ (List.mem_singleton_self _)
    exact absurd (Machine.inProgress_of_mem (List.mem_filter.mp mem).1) idle
  | ended old owner time listed done served serves frames events =>
    rw [events, countP_own rfl, countP_own rfl, serves.countP_captures, serves.countP_closes]
    exact Nat.le_refl _

end Stage

section
variable {s : Setup} {past : List Machine} {m : Machine}

theorem pass?_of_captures (run : Run s past m) (id : String) :
    ∀ e ∈ m.history, e.captures id false = true → ∃ pass, e.pass? = some pass := by
  intro e mem captures
  obtain ⟨before, after, split⟩ := List.append_of_mem mem
  obtain ⟨n, rfl⟩ | ⟨older, x, o, f, rest, first, last, -, -, -, made, -⟩ :=
    run.recorded_split split
  · cases captures
  cases e with
  | captured pass sessionId completed =>
    obtain ⟨rfl, rfl⟩ : sessionId = id ∧ completed = false := by
      simpa [Occurrence.captures] using captures
    have recorded : .captured pass sessionId false ∈ x.recorded s o f := by
      rw [made]
      exact List.mem_append_right _ List.mem_cons_self
    exact Machine.captured_of_mem_recorded recorded
  | _ => cases captures

theorem pass?_of_closes (id : String) (e : Occurrence) (h : e.closes .reclaimed id = true) :
    ∃ pass, e.pass? = some pass := by
  cases e with
  | released pass slot reason phase occupied => exact ⟨pass, rfl⟩
  | _ => simp [Occurrence.closes] at h

theorem captures_le_closes (run : Run s past m) (id : String) :
    m.history.countP (·.captures id false) ≤ m.history.countP (·.closes .reclaimed id) :=
  countP_le_of_passes (pass?_of_captures run id) fun pass => (Stage.reached run pass).captures_le id

theorem captures_eq_closes (run : Run s past m) (idle : ¬ m.InProgress) (id : String) :
    m.history.countP (·.captures id false) = m.history.countP (·.closes .reclaimed id) := by
  refine Nat.le_antisymm (captures_le_closes run id) ?_
  exact countP_le_of_passes (fun e _ => pass?_of_closes id e)
    fun pass => (Stage.reached run pass).closes_le idle id

end

section
variable {pass : Nat} {done : List SlotSession} {served : List Occurrence}

theorem Serves.countP_releasedBy (h : Serves pass done served) :
    served.countP (·.releasedBy pass) = done.length := by
  rw [← List.countP_true]
  exact h.countP_eq fun slot phase occupied => by simp [Occurrence.releasedBy]

theorem Serves.mem (h : Serves pass done served) {e : Occurrence} (mem : e ∈ served) :
    ∃ slot ∈ done, (∃ phase occupied, e = .released pass slot .orphan phase occupied) ∨
      e = .captured (some pass) slot.sessionId false := by
  induction h with
  | none => cases mem
  | more slot phase occupied _ ih =>
    rcases List.mem_append.mp mem with old | new
    · obtain ⟨y, hy, what⟩ := ih old
      exact ⟨y, List.mem_append_left _ hy, what⟩
    · refine ⟨slot, List.mem_append_right _ (List.mem_singleton_self slot), ?_⟩
      rcases List.mem_cons.mp new with rfl | new
      · exact .inl ⟨phase, occupied, rfl⟩
      · exact .inr (List.mem_singleton.mp new)

theorem Serves.not_ended (h : Serves pass done served) {count : Nat} :
    .passEnded pass count ∉ served := by
  intro mem
  obtain ⟨slot, -, ⟨phase, occupied, same⟩ | same⟩ := h.mem mem
  · cases same
  · cases same

theorem countP_releasedBy (pass : Nat) (history : List Occurrence) :
    history.countP (·.releasedBy pass) = (eventsOf pass history).countP (·.releasedBy pass) := by
  rw [eventsOf, List.countP_filter]
  refine List.countP_congr fun e _ => ?_
  cases e <;> simp [Occurrence.releasedBy, Occurrence.pass?]

end

theorem Stage.count_of_ended {m : Machine} {pass count : Nat} (h : Stage m pass)
    (mem : .passEnded pass count ∈ m.history) :
    count = m.history.countP (·.releasedBy pass) := by
  have own : .passEnded pass count ∈ eventsOf pass m.history := mem_eventsOf.mpr ⟨mem, rfl⟩
  cases h with
  | unborn fresh frames events =>
    rw [events] at own
    cases own
  | releasing old owner time listed done left previous served serves frames events =>
    rw [events, List.mem_cons] at own
    rcases own with same | own
    · cases same
    · exact absurd own serves.not_ended
  | capturing old owner time listed done left slot previous phase occupied served serves frames
      events =>
    rw [events, List.mem_append, List.mem_cons, List.mem_singleton] at own
    rcases own with (same | own) | same
    · cases same
    · exact absurd own serves.not_ended
    · cases same
  | ended old owner time listed done served serves frames events =>
    rw [countP_releasedBy, events, List.countP_append, List.countP_cons, serves.countP_releasedBy]
    rw [events, List.mem_append, List.mem_cons, List.mem_singleton] at own
    rcases own with (same | own) | same
    · cases same
    · exact absurd own serves.not_ended
    · obtain ⟨-, rfl⟩ := Occurrence.passEnded.inj same
      rfl

namespace Machine
variable {s : Setup} {m m' : Machine} {o : Owner} {f : Frame} {rest : List Frame}
  {pass count : Nat}

theorem passEnded_of_mem_recorded (h : .passEnded pass count ∈ m.recorded s o f) :
    (f = .poll ∧ (m.claimable s).isEmpty = true ∧ count = 0) ∨
      ∃ previous, f = .releases pass [] previous count := by
  have records := records s m o f
  generalize m.recorded s o f = made at h records
  cases records with
  | idles none =>
    rcases List.mem_cons.mp h with same | last
    · cases same
    · exact .inl ⟨rfl, none, (Occurrence.passEnded.inj (List.mem_singleton.mp last)).2⟩
  | ends p previous c =>
    obtain ⟨rfl, rfl⟩ := Occurrence.passEnded.inj (List.mem_singleton.mp h)
    exact .inr ⟨previous, rfl⟩
  | _ => simp [measured] at h

theorem finish_reply (reply : Reply) (busy : (m.fiber o).frames ≠ []) :
    ((m.finish o reply rest).fiber o).reply = reply := by
  rw [finish, fiber_setFiber_self _ busy]

theorem reply_of_passEnded (frames : (m.fiber o).frames = f :: rest)
    (h : .passEnded pass count ∈ m.recorded s o f) :
    ((execute s m o rest f).fiber o).reply = .released count := by
  have busy (x : Machine) (same : x.fiber o = m.fiber o) : (x.fiber o).frames ≠ [] := by
    rw [same, frames]
    exact List.cons_ne_nil f rest
  rcases passEnded_of_mem_recorded h with ⟨rfl, none, rfl⟩ | ⟨previous, rfl⟩
  · rw [claimable] at none
    simp only [execute, pollSlots, none, if_true]
    exact finish_reply _ (busy _ (by cases o <;> rfl))
  · simp only [execute, endPass]
    refine finish_reply _ (busy _ ?_)
    split <;> cases o <;> rfl

/-- The end of the session is announced, counted and timed right before its slot is released. -/
theorem prefaced {first last : List Occurrence} {slot : SlotSession} {reason : Reason}
    {phase : Phase} {occupied : List SlotSession}
    (h : m.recorded s o f = first ++ .released pass slot reason phase occupied :: last) :
    first = .noted (.releasing s.proxy slot.slotId slot.sessionId) ::
      measured s .reclaimed slot := by
  have mem : .released pass slot reason phase occupied ∈ m.recorded s o f := by
    rw [h]
    exact List.mem_append_right _ List.mem_cons_self
  obtain ⟨left, previous, count, rfl, rfl, rfl, rfl⟩ := released_of_mem_recorded mem
  obtain ⟨same, -⟩ | ⟨earlier, -, before⟩ := split_concat (h := h)
  · exact same
  · have early : .released pass slot .orphan m.phase m.slots ∈
        .noted (.releasing s.proxy slot.slotId slot.sessionId) :: measured s .reclaimed slot := by
      rw [before]
      exact List.mem_append_right _ List.mem_cons_self
    simp [measured] at early

end Machine

theorem Run.claimed_nodup {s : Setup} {past : List Machine} {m : Machine} (run : Run s past m)
    {pass time : Nat} {owner : Owner} {listed claimed : List SlotSession} {more : List Occurrence}
    (events : eventsOf pass m.history = .polled pass owner time listed claimed :: more) :
    (claimed.map (·.sessionId)).Nodup := by
  have first : .polled pass owner time listed claimed ∈ eventsOf pass m.history := by
    rw [events]
    exact List.mem_cons_self
  obtain ⟨terminal, same⟩ := run.polled (mem_eventsOf.mp first).1
  rw [same]
  exact claim_nodup

theorem not_captured_yet {s : Setup} {past : List Machine} {m : Machine} (run : Run s past m)
    {o : Owner} {pass count : Nat} {slot : SlotSession} {left : List SlotSession}
    {previous : Phase} {rest : List Frame}
    (frames : (m.fiber o).frames = .releases pass (slot :: left) previous count :: rest)
    (completed : Bool) : .captured (some pass) slot.sessionId completed ∉ m.history := by
  intro mem
  have own : .captured (some pass) slot.sessionId completed ∈ eventsOf pass m.history :=
    mem_eventsOf.mpr ⟨mem, rfl⟩
  have mine : framesOf pass (m.fiber o).frames =
      .releases pass (slot :: left) previous count :: framesOf pass rest := by
    rw [frames, framesOf_cons_of_eq rfl]
  cases Stage.reached run pass with
  | unborn fresh none events =>
    rw [none] at mine
    cases mine
  | ended old owner time listed done served serves none events =>
    rw [none] at mine
    cases mine
  | capturing old owner time listed done left slot' previous phase occupied served serves frames =>
    rw [frames] at mine
    split at mine <;> cases mine
  | releasing old owner time listed done left' previous' served serves frames events =>
    rw [frames] at mine
    split at mine
    · obtain ⟨-, rfl, -, -⟩ := Frame.releases.inj (List.cons.inj mine).1
      have unique := run.claimed_nodup events
      rw [events, List.mem_cons] at own
      rcases own with same | own
      · cases same
      obtain ⟨y, hy, ⟨phase, occupied, same⟩ | same⟩ := serves.mem own
      · cases same
      obtain ⟨-, session, -⟩ := Occurrence.captured.inj same
      -- what was captured was claimed with this slot, and no session is claimed twice at once
      rw [List.map_append, List.map_cons, List.nodup_append] at unique
      exact unique.2.2 _ (List.mem_map_of_mem hy) _ List.mem_cons_self session.symm
    · cases mine

/-- Every pass answers how many slots it released. Whenever none is in progress, every session was
counted, timed and captured as often as it was released, and likewise as often as it was completed;
and each release comes right after its samples and before its capture. -/
theorem ends_of_sessions_balance {s : Setup} {m : Machine} (h : Reachable s m) :
    (∀ pass count, .passEnded pass count ∈ m.history →
      count = m.history.countP (·.releasedBy pass)) ∧
    (∀ m' new pass count, m.step s = some m' → m'.history = m.history ++ new →
      .passEnded pass count ∈ new →
        ∃ o, m.running = some o ∧ (m'.fiber o).reply = .released count) ∧
    (¬ m.InProgress → ∀ id,
      let samples := samplesFor none m.history
      let released := m.history.countP (·.closes .reclaimed id)
      let completed := m.history.countP (·.closes .completed id)
      taken (Counts .reclaimed) id samples = released ∧
      taken (Times .reclaimed) id samples = released ∧
      m.history.countP (·.captures id false) = released ∧
      taken (Counts .completed) id samples = completed ∧
      taken (Times .completed) id samples = completed ∧
      m.history.countP (·.captures id true) = completed) ∧
    ∀ before pass slot reason phase occupied after,
      m.history = before ++ .released pass slot reason phase occupied :: after →
        reason = .orphan ∧
        (∃ earlier, before = earlier ++ .noted (.releasing s.proxy slot.slotId slot.sessionId) ::
          Machine.measured s .reclaimed slot) ∧
        ∀ completed, .captured (some pass) slot.sessionId completed ∉ before := by
  obtain ⟨past, run⟩ := h
  have balanced := Balanced.reached run
  refine ⟨fun pass count ended => (Stage.reached run pass).count_of_ended ended, ?_, ?_, ?_⟩
  · intro m' new pass count hs history ended
    obtain ⟨made, same, ⟨o, f, rest, running, frames, -, rfl, rfl⟩ | ⟨-, notes, rfl⟩⟩ :=
      Machine.step_history (Machine.Tidy.reached run) hs
    · obtain rfl := List.append_cancel_left (same.symm.trans history)
      exact ⟨o, running, Machine.reply_of_passEnded frames ended⟩
    · obtain rfl := List.append_cancel_left (same.symm.trans history)
      obtain ⟨n, -, none⟩ := List.mem_map.mp ended
      cases none
  · intro idle id samples released completed
    exact ⟨balanced.counted _ _ id, balanced.timed _ _ id, captures_eq_closes run idle id,
      balanced.counted _ _ id, balanced.timed _ _ id, balanced.captured id⟩
  · intro before pass slot reason phase occupied after split
    obtain ⟨n, noted⟩ |
      ⟨older, x, o, f, rest, first, last, earlier, -, rfl, recorded, -, frames⟩ :=
      run.recorded_split split
    · cases noted
    have mem : .released pass slot reason phase occupied ∈ x.recorded s o f := by
      rw [recorded]
      exact List.mem_append_right _ List.mem_cons_self
    have preface := Machine.prefaced recorded
    obtain ⟨left, previous, count, rfl, rfl, -, -⟩ := Machine.released_of_mem_recorded mem
    refine ⟨rfl, ⟨x.history, by rw [preface]⟩, fun completed captured => ?_⟩
    rcases List.mem_append.mp captured with early | late
    · exact not_captured_yet earlier frames completed early
    · rw [preface] at late
      simp [Machine.measured] at late

theorem ends_of_sessions_balance_nested :
    Reachable .plain nestedPass ∧ ¬ nestedPass.InProgress ∧
      taken (Counts .reclaimed) "a" (samplesFor none nestedPass.history) = 1 ∧
      nestedPass.history.countP (·.captures "a" false) = 1 := by
  have reached : Reachable .plain nestedPass := (Reachable.new _ _).operate .reclaim rfl rfl
  have idle : ¬ nestedPass.InProgress := by decide +kernel
  have released : nestedPass.history.countP (·.closes .reclaimed "a") = 1 := by decide +kernel
  obtain ⟨-, -, balance, -⟩ := ends_of_sessions_balance reached
  obtain ⟨counted, -, captured, -⟩ := balance idle "a"
  exact ⟨reached, idle, counted.trans released, captured.trans released⟩

end Reclaimer
end NodeFleet
