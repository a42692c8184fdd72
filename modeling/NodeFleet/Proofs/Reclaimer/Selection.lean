import NodeFleet.Proofs.Reclaimer.Nested
/-!
What a pass does with the sessions it finds idle. It claims the first slot of each and releases these
in the order of the list, whatever hooks do meanwhile. It comes to its end as soon as the time has
passed that hooks let pass, unless a poll task is stuck with starting or stopping inside a release;
a pass of that task releases nothing more.
-/

set_option autoImplicit false
namespace NodeFleet
namespace Reclaimer

variable {s : Setup} {past newer : List Machine} {m m' x x' : Machine} {pass time count id : Nat}
  {owner : Owner} {listed claimed : List SlotSession}

/-- What one poll makes of the slots that it finds. -/
structure ClaimsFrom (s : Setup) (x x' : Machine) (listed claimed : List SlotSession) : Prop where
  found : x.slots = listed
  picks : ∃ positions, Picks s.threshold x.terminal listed claimed positions
  terminal : ∀ id, id ∈ x'.terminal ↔ id ∈ x.terminal ∧ id ∈ listed.map (·.sessionId) ∨
    ∃ slot ∈ listed, slot.isIdle s.threshold = true ∧ slot.sessionId = id

theorem Run.claims_from (run : Run s past m)
    (polled : .polled pass owner time listed claimed ∈ m.history) :
    ∃ newer x older x', past = newer ++ x :: older ∧ x.step s = some x' ∧
      ClaimsFrom s x x' listed claimed := by
  obtain ⟨newer, x, older, o, f, rest, rfl, -, running, frames, waits, recorded, -⟩ :=
    run.recorded_by polled (by simp)
  obtain ⟨rfl, -, -, -, rfl, rfl⟩ := Machine.polled_of_mem_recorded recorded
  refine ⟨newer, x, older, _, rfl, Machine.step_of_ready running frames waits, rfl, ?_, fun id => ?_⟩
  · exact poll_picks s.threshold x.terminal x.slots
  · rw [Machine.execute_terminal]
    exact mem_poll_terminal_iff

namespace Stage

theorem events_of_polled (h : Stage m pass)
    (polled : .polled pass owner time listed claimed ∈ m.history) :
    ∃ more, eventsOf pass m.history = .polled pass owner time listed claimed :: more := by
  have own : .polled pass owner time listed claimed ∈ eventsOf pass m.history :=
    mem_eventsOf.mpr ⟨polled, rfl⟩
  cases h with
  | unborn fresh frames events =>
    rw [events] at own
    cases own
  | releasing old owner' time' listed' done left previous served serves frames events =>
    rw [events, List.mem_cons] at own
    exact ⟨_, own.resolve_right serves.not_polled ▸ events⟩
  | capturing old owner' time' listed' done left slot previous phase occupied served serves frames
      events =>
    rw [events, List.mem_append, List.mem_cons, List.mem_singleton] at own
    exact ⟨_, (own.resolve_right (by simp)).resolve_right serves.not_polled ▸ events⟩
  | ended old owner' time' listed' done served serves frames events =>
    rw [events, List.mem_append, List.mem_cons, List.mem_singleton] at own
    exact ⟨_, (own.resolve_right (by simp)).resolve_right serves.not_polled ▸ events⟩

theorem releasedSlots_le (h : Stage m pass)
    (polled : .polled pass owner time listed claimed ∈ m.history) :
    releasedSlots pass m.history <+: claimed := by
  obtain ⟨more, first⟩ := h.events_of_polled polled
  rw [← releasedSlots_eventsOf]
  cases h with
  | unborn fresh frames events =>
    rw [events] at first
    cases first
  | releasing old owner' time' listed' done left previous served serves frames events =>
    rw [events] at first
    obtain ⟨-, -, -, -, rfl⟩ := Occurrence.polled.inj (List.cons.inj first).1
    rw [events, releasedSlots, List.filterMap_cons_none rfl, ← releasedSlots, serves.releasedSlots]
    exact List.prefix_append done left
  | capturing old owner' time' listed' done left slot previous phase occupied served serves frames
      events =>
    rw [events] at first
    obtain ⟨-, -, -, -, rfl⟩ := Occurrence.polled.inj (List.cons.inj first).1
    rw [events, releasedSlots, List.filterMap_append, List.filterMap_cons_none rfl,
      ← releasedSlots, serves.releasedSlots]
    exact ⟨left, by simp [Occurrence.releasedSlot?]⟩
  | ended old owner' time' listed' done served serves frames events =>
    rw [events] at first
    obtain ⟨-, -, -, -, rfl⟩ := Occurrence.polled.inj (List.cons.inj first).1
    rw [events, releasedSlots, List.filterMap_append, List.filterMap_cons_none rfl,
      ← releasedSlots, serves.releasedSlots]
    exact ⟨[], by simp [Occurrence.releasedSlot?]⟩

end Stage

/-- A pass that has ended answered what it had claimed to whoever polled, and all of it was released
by then. -/
structure Answers (s : Setup) (y y' : Machine) (pass : Nat) (owner : Owner)
    (claimed : List SlotSession) : Prop where
  made : y.step s = some y'
  earlier : .passEnded pass claimed.length ∉ y.history
  ended : .passEnded pass claimed.length ∈ y'.history
  released : releasedSlots pass y'.history = claimed
  reply : (y'.fiber owner).reply = .released claimed.length

namespace Machine
variable {o : Owner} {f : Frame} {rest : List Frame}

inductive PolledBefore (s : Setup) (m : Machine) (o : Owner) (pass : Nat) (f : Frame) : Prop
  | now (new : pass = m.passes)
      (polled : .polled pass o m.clock m.slots (m.claimable s) ∈ m.recorded s o f)
  | earlier (time : Nat) (listed claimed : List SlotSession)
      (polled : .polled pass o time listed claimed ∈ m.history)
      (frames : framesOf pass (m.fiber o).frames ≠ [])

theorem polledBefore_of_frames (run : Run s past m) (mine : framesOf pass (m.fiber o).frames ≠ []) :
    PolledBefore s m o pass f := by
  have polled {owner : Owner} {time : Nat} {listed claimed : List SlotSession}
      {more : List Occurrence} {all : List Frame}
      (own : ∀ o, framesOf pass (m.fiber o).frames = if o = owner then all else [])
      (events : eventsOf pass m.history = .polled pass owner time listed claimed :: more) :
      PolledBefore s m o pass f := by
    obtain rfl : o = owner := by
      refine Classical.byContradiction fun other => mine ?_
      rw [own, if_neg other]
    have first : .polled pass o time listed claimed ∈ eventsOf pass m.history := by
      rw [events]
      exact List.mem_cons_self
    exact .earlier time listed claimed (mem_eventsOf.mp first).1 mine
  cases Stage.reached run pass with
  | unborn fresh none events => exact absurd (none o) mine
  | releasing old owner time listed done left previous served serves own events =>
    exact polled own events
  | capturing old owner time listed done left slot previous phase occupied served serves own
      events =>
    exact polled own events
  | ended old owner time listed done served serves none events => exact absurd (none o) mine

theorem polledBefore_of_ends (run : Run s past m) (frames : (m.fiber o).frames = f :: rest)
    (ends : .passEnded pass count ∈ m.recorded s o f) : PolledBefore s m o pass f := by
  rcases passEnded_of_mem_recorded ends with ⟨rfl, none, rfl⟩ | ⟨previous, rfl⟩
  · have recorded : m.recorded s o .poll =
        [.polled m.passes o m.clock m.slots (m.claimable s), .passEnded m.passes 0] := by
      rw [Machine.recorded, if_pos none]
    rw [recorded] at ends
    obtain rfl : pass = m.passes := by simpa using ends
    exact .now rfl (by rw [recorded]; exact List.mem_cons_self)
  · refine polledBefore_of_frames run ?_
    rw [frames, framesOf_cons_of_eq rfl]
    exact List.cons_ne_nil _ _

theorem PolledBefore.not_ended (h : PolledBefore s m o pass f) (run : Run s past m) (n : Nat) :
    .passEnded pass n ∉ m.history := by
  cases h with
  | now new polled =>
    subst new
    intro mem
    have own : .passEnded m.passes n ∈ eventsOf m.passes m.history := mem_eventsOf.mpr ⟨mem, rfl⟩
    rw [(Stage.reached run m.passes).of_new.2] at own
    cases own
  | earlier time listed claimed polled frames =>
    cases (Stage.reached run pass).of_polled polled with
    | stacked frames running => exact running n
    | ended none ended released => exact absurd (none o) frames

end Machine

theorem Run.answers (run : Run s past m)
    (polled : .polled pass owner time listed claimed ∈ m.history)
    (ended : .passEnded pass count ∈ m.history) : count = claimed.length ∧
      releasedSlots pass m.history = claimed ∧
      ∃ newer y older y', past = newer ++ y :: older ∧ Answers s y y' pass owner claimed := by
  have stage := Stage.reached run pass
  cases stage.of_polled polled with
  | stacked frames running => exact absurd ended (running count)
  | ended frames all released =>
    obtain rfl : count = claimed.length :=
      (stage.count_of_ended ended).trans (stage.count_of_ended all).symm
    obtain ⟨newer, y, older, o, f, rest, rfl, earlier, running, frames, waits, recorded, le⟩ :=
      run.recorded_by ended (by simp)
    have before := Machine.polledBefore_of_ends earlier frames recorded
    have made : y.step s = some (y.execute s o rest f) :=
      Machine.step_of_ready running frames waits
    have history : (y.execute s o rest f).history = y.history ++ y.recorded s o f :=
      Machine.execute_history
    -- the pass has one poll on record, so it is the one of whoever ends it
    obtain ⟨time', listed', claimed', own⟩ : ∃ time listed claimed,
        .polled pass o time listed claimed ∈ y.history ++ y.recorded s o f := by
      cases before with
      | now new polled => exact ⟨_, _, _, List.mem_append_right _ polled⟩
      | earlier time listed claimed polled frames =>
        exact ⟨time, listed, claimed, List.mem_append_left _ polled⟩
    obtain ⟨more, first⟩ := stage.events_of_polled polled
    obtain ⟨more', first'⟩ := stage.events_of_polled (le.subset own)
    rw [first] at first'
    obtain ⟨-, rfl, -, -, rfl⟩ := Occurrence.polled.inj (List.cons.inj first').1
    have last : .passEnded pass claimed.length ∈ (y.execute s owner rest f).history := by
      rw [history]
      exact List.mem_append_right _ recorded
    refine ⟨rfl, released, newer, y, older, _, rfl, made, before.not_ended earlier _, last, ?_,
      Machine.reply_of_passEnded frames recorded⟩
    cases (Stage.reached (earlier.step made) pass).of_polled (history ▸ own) with
    | stacked frames running => exact absurd last (running _)
    | ended frames ended released => exact released

namespace Machine
variable {o : Owner} {f : Frame} {rest : List Frame} {w : Frame → Nat}

/-- When what a poll task has begun is over at the latest, with all hooks that are left. -/
def deadline (m : Machine) (id : Nat) : Nat :=
  m.clock + total (Frame.timeLeft m.clock) (m.fiber (.task id)).frames +
    hookLoad (Frame.timeLeft m.clock) m.hooks

theorem deadline_le_ending (m : Machine) (id : Nat) : m.deadline id ≤ m.horizon.ending := by
  have own : total (Frame.timeLeft m.clock) (m.fiber (.task id)).frames ≤
      (m.tasks.map fun t => total (Frame.timeLeft m.clock) t.fiber.frames).sum := by
    cases found : m.tasks[id]? with
    | none => simp [fiber_of_no_task found, Fiber.idle]
    | some t =>
      rw [fiber_task id found]
      exact List.le_sum_of_mem (List.mem_map_of_mem (List.mem_of_getElem? found))
  simp only [deadline, horizon, load, hookLoad, sumOf_eq]
  omega

theorem deadline_execute (frames : (m.fiber o).frames = f :: rest) :
    (execute s m o rest f).deadline id ≤ m.deadline id := by
  rw [deadline, deadline, execute_clock, execute_hooks]
  by_cases own : o = .task id
  · subst own
    have takes := hookLoad_after (s := s) (m := m) (f := f) (w := Frame.timeLeft m.clock)
    have leads := timeLeft_spawned s m f
    rw [execute_frames frames, frames, total_append, total_cons]
    omega
  · have less := hookLoad_after_le (m := m) (f := f) (w := Frame.timeLeft m.clock)
    rw [execute_fiber_of_ne (Ne.symm own)]
    omega

theorem total_timeLeft_le {clock clock' : Nat} (later : clock ≤ clock') (frames : List Frame) :
    total (Frame.timeLeft clock') frames ≤ total (Frame.timeLeft clock) frames :=
  List.sum_le_sum fun f _ => timeLeft_le later f

theorem Tidy.busy_of_frames (tidy : m.Tidy) (frames : (m.fiber (.task id)).frames = f :: rest) :
    ∃ t, m.tasks[id]? = some t ∧ t.life = .busy ∧ t.fiber.frames = f :: rest := by
  cases found : m.tasks[id]? with
  | none =>
    rw [fiber_of_no_task found] at frames
    cases frames
  | some t =>
    rw [fiber_task id found] at frames
    refine ⟨t, rfl, Classical.byContradiction fun other => ?_, frames⟩
    rw [tidy.frames id t found other] at frames
    cases frames

theorem waits_of_idle (run : Run s past m) (idle : m.running = none) (queue : m.queue = [])
    (frames : (m.fiber (.task id)).frames = f :: rest) : m.waits f = true := by
  obtain ⟨t, found, busy, own⟩ := (Tidy.reached run).busy_of_frames frames
  rcases Attended.reached run id t found with queued | runs | asleep
  · rw [queue] at queued
    cases queued
  · rw [idle] at runs
    cases runs
  cases asleep with
  | dead ended =>
    rw [busy] at ended
    cases ended
  | waiting life =>
    rw [busy] at life
    cases life
  | held life g more frames' waits =>
    obtain ⟨rfl, rfl⟩ := List.cons.inj (frames'.symm.trans own)
    exact waits

theorem deadline_passTime (run : Run s past m) (idle : m.running = none) (queue : m.queue = [])
    (frames : (m.fiber (.task id)).frames = f :: rest) (passes : m.passTime = some m') :
    m'.deadline id ≤ m.deadline id ∨ ∃ f rest, m.Stuck (.task id) f rest id := by
  have waits := waits_of_idle run idle queue frames
  by_cases sleeps : ∃ wake, f = .sleep wake
  · obtain ⟨wake, rfl⟩ := sleeps
    obtain ⟨time, mem, least, rfl⟩ := passTime_eq passes
    obtain ⟨t, found, busy, own⟩ := (Tidy.reached run).busy_of_frames frames
    have wakes : t.wake? = some wake := by
      rw [PollTask.wake?, busy]
      exact wake?_eq_some.mpr ⟨rest, own⟩
    have later : m.clock < wake := lt_of_waits_sleep waits
    have inside : time ≤ wake := least wake (mem_wakeTimes.mpr (.inr ⟨id, t, found, wakes⟩))
    have left := total_timeLeft_le (Nat.le_max_left m.clock time) rest
    have hooks : hookLoad (Frame.timeLeft (max m.clock time)) m.hooks ≤
        hookLoad (Frame.timeLeft m.clock) m.hooks :=
      List.sum_le_sum fun h _ => total_timeLeft_le (Nat.le_max_left m.clock time) _
    refine .inl ?_
    change max m.clock time + total (Frame.timeLeft (max m.clock time))
      (m.fiber (.task id)).frames + hookLoad (Frame.timeLeft (max m.clock time)) m.hooks ≤ _
    rw [deadline, frames, total_cons, total_cons]
    simp only [Frame.timeLeft]
    omega
  · exact .inr ⟨f, rest, stuck_of_waits run frames waits fun wake same => sleeps ⟨wake, same⟩⟩

theorem deadline_tended (tended : Tended s m m') (clock : m'.clock = m.clock)
    (busy : (m.fiber (.task id)).frames ≠ []) : m'.deadline id = m.deadline id := by
  have frames := (tended.frames (.task id)).resolve_right fun empty => busy empty.1
  rw [deadline, deadline, clock, frames, tended.hooks]

theorem runJob_clock (s : Setup) (m : Machine) (j : Job) : (runJob s m j).clock = m.clock := by
  cases j with
  | task id => exact (runTask_only s m id).1
  | capture number sessionId completed => exact (runCapture_only s m number sessionId completed 0).1

theorem deadline_follows (run : Run s past m) (follows : Follows s m m')
    (busy : (m.fiber (.task id)).frames ≠ []) :
    m'.deadline id ≤ m.deadline id ∨ ∃ f rest, m.Stuck (.task id) f rest id := by
  cases follows with
  | issue operation idle settled => exact .inl (Nat.le_refl _)
  | step made =>
    have tidy := Tidy.reached run
    cases step_move made with
    | execute running frames waits => exact .inl (deadline_execute frames)
    | pause running waits left => exact .inl (Nat.le_refl _)
    | @tick k t running found empty =>
      have live : t.life.isLive = true := by rw [tidy.busy running found]; rfl
      exact .inl (Nat.le_of_eq (deadline_tended (nextTick_tended found live empty)
        (nextTick_only s m k t).1 busy))
    | job idle queue =>
      exact .inl (Nat.le_of_eq (deadline_tended (runJob_tended tidy idle _ _)
        (runJob_clock s _ _) busy))
    | resume idle queue frames waits => exact .inl (Nat.le_refl _)
    | passTime idle queue frames waits passes =>
      cases own : (m.fiber (.task id)).frames with
      | nil => exact absurd own busy
      | cons f rest => exact deadline_passTime run idle queue own passes

inductive OnTime (pass id bound : Nat) (claimed : List SlotSession) (m : Machine) : Prop
  | ended (ended : .passEnded pass claimed.length ∈ m.history)
  | stuck (f : Frame) (rest : List Frame) (stuck : m.Stuck (.task id) f rest id)
  | under (under : m.deadline id ≤ bound)

theorem onTime_reached (run : Run s (newer ++ m :: past) m')
    (polled : .polled pass (.task id) time listed claimed ∈ m.history) :
    OnTime pass id m.horizon.ending claimed m' := by
  suffices .polled pass (.task id) time listed claimed ∈ m'.history ∧
      OnTime pass id m.horizon.ending claimed m' from this.2
  refine run.carry (P := fun y => .polled pass (.task id) time listed claimed ∈ y.history ∧
      OnTime pass id m.horizon.ending claimed y)
    (fun _ => ⟨polled, .under (deadline_le_ending m id)⟩) fun older y y' run _ follows h => ?_
  obtain ⟨known, onTime⟩ := h
  have grows : y.history <+: y'.history := (follows.run run).history_le List.mem_cons_self
  refine ⟨grows.subset known, ?_⟩
  cases onTime with
  | ended ended => exact .ended (grows.subset ended)
  | stuck f rest stuck => exact .stuck f rest (stuck.follows run follows)
  | under under =>
    cases (Stage.reached run pass).of_polled known with
    | ended frames ended released => exact .ended (grows.subset ended)
    | stacked frames running =>
      have busy : (y.fiber (.task id)).frames ≠ [] := by
        intro none
        rw [none] at frames
        exact frames rfl
      rcases deadline_follows run follows busy with less | ⟨f, rest, stuck⟩
      · exact .under (Nat.le_trans less under)
      · exact .stuck f rest (stuck.follows run follows)

/-- Where nothing is ready and the time has passed that could be let pass, a pass has ended, or a poll
task is stuck, and it is the one of the pass if that is not the caller's. -/
theorem ended_or_stuck (run : Run s (newer ++ m :: past) m')
    (polled : .polled pass owner time listed claimed ∈ m.history) (settled : m'.step s = none)
    (late : m.horizon.ending ≤ m'.clock) :
    .passEnded pass claimed.length ∈ m'.history ∨ ∃ id g more,
      (owner = .caller ∨ owner = .task id) ∧ m'.Stuck (.task id) g (.hookEnd :: more) id := by
  have known : .polled pass owner time listed claimed ∈ m'.history :=
    (run.history_le (by simp)).subset polled
  have stuck_in {id : Nat} {g : Frame} {rest : List Frame}
      (whose : owner = .caller ∨ owner = .task id) (stuck : m'.Stuck (.task id) g rest id) :
      ∃ id g more, (owner = .caller ∨ owner = .task id) ∧
        m'.Stuck (.task id) g (.hookEnd :: more) id := by
    obtain ⟨more, rfl⟩ := stuck.inside run
    exact ⟨id, g, more, whose, stuck⟩
  cases (Stage.reached run pass).of_polled known with
  | ended frames ended released => exact .inl ended
  | stacked frames running =>
    obtain ⟨f, rest, busy⟩ : ∃ f rest, (m'.fiber owner).frames = f :: rest := by
      cases own : (m'.fiber owner).frames with
      | nil =>
        rw [own] at frames
        exact absurd rfl frames
      | cons f rest => exact ⟨f, rest, rfl⟩
    cases owner with
    | caller =>
      obtain ⟨id, g, more, stuck⟩ := stuck_of_settled run settled busy
      exact .inr (stuck_in (.inl rfl) stuck)
    | task id =>
      obtain ⟨idle, queue, -⟩ := rests_of_settled settled
      have waits := waits_of_idle run idle queue busy
      cases onTime_reached run polled with
      | ended ended => exact .inl ended
      | stuck g more stuck => exact .inr (stuck_in (.inr rfl) stuck)
      | under under =>
        refine .inr (stuck_in (.inr rfl) (stuck_of_waits run busy waits ?_))
        -- whoever sleeps on would be beyond the deadline
        rintro wake rfl
        have later : m'.clock < wake := lt_of_waits_sleep waits
        rw [deadline, busy, total_cons] at under
        simp only [Frame.timeLeft] at under
        omega

end Machine

/-- A pass claims the first idle slot of each session that is not terminal, of those it finds, and
leaves terminal what was and is still listed, and all that is idle. It releases what it claimed, each
slot once and in that order, and answers how many these are. It has ended once nothing is ready and
the time has passed that could be let pass, unless a poll task is stuck with starting or stopping
inside a release. -/
theorem pass_releases_its_selection (run : Run s past m)
    (polled : .polled pass owner time listed claimed ∈ m.history) :
    (∃ newer x older x', past = newer ++ x :: older ∧ x.step s = some x' ∧
      ClaimsFrom s x x' listed claimed) ∧
    releasedSlots pass m.history <+: claimed ∧
    (∀ count, .passEnded pass count ∈ m.history → count = claimed.length ∧
      releasedSlots pass m.history = claimed ∧
      ∃ newer y older y', past = newer ++ y :: older ∧ Answers s y y' pass owner claimed) ∧
    ∀ newer m', Run s (newer ++ m :: past) m' → m'.step s = none →
      m.horizon.ending ≤ m'.clock →
        .passEnded pass claimed.length ∈ m'.history ∨ ∃ id g more,
          (owner = .caller ∨ owner = .task id) ∧ m'.Stuck (.task id) g (.hookEnd :: more) id :=
  ⟨run.claims_from polled, (Stage.reached run pass).releasedSlots_le polled,
    fun _ ended => run.answers polled ended,
    fun _ _ later settled late => Machine.ended_or_stuck later polled settled late⟩

def repeatedSession : List Machine × Machine :=
  andThen .plain ([], .new [⟨"first", "a", .ofSecs 100, ⟨0, 0⟩, []⟩, plainSlot "b" 100,
    ⟨"second", "a", .ofSecs 200, ⟨0, 0⟩, []⟩, plainSlot "c" 10] [⟨"b", .setSlots []⟩]) .reclaim

def stopBetween : List Machine × Machine :=
  andThen .plain ([], .new [plainSlot "a" 100, plainSlot "b" 100] [⟨"a", .stop⟩]) .start

def stopBetweenLater : List Machine × Machine := andThen .plain stopBetween (.advance 20000)

theorem pass_releases_its_selection_repeated :
    Run .plain repeatedSession.1 repeatedSession.2 ∧
      (∃ listed claimed, .polled 0 .caller 0 listed claimed ∈ repeatedSession.2.history ∧
        claimed.map (·.slotId) = ["first", "b"] ∧
        releasedSlots 0 repeatedSession.2.history = claimed) ∧
      Run .plain stopBetweenLater.1 stopBetweenLater.2 ∧
      ∃ listed claimed, .polled 0 (.task 0) 0 listed claimed ∈ stopBetween.2.history ∧
        claimed.map (·.slotId) = ["a", "b"] ∧
        (releasedSlots 0 stopBetweenLater.2.history).map (·.slotId) = ["a"] ∧
        stopBetweenLater.2.step .plain = none ∧
        stopBetween.2.horizon.ending ≤ stopBetweenLater.2.clock ∧
        ∃ id g more, stopBetweenLater.2.Stuck (.task id) g (.hookEnd :: more) id := by
  have once : Run .plain repeatedSession.1 repeatedSession.2 :=
    (Run.new _ _).andThen (r := ([], _)) .reclaim rfl rfl
  have first : Run .plain stopBetween.1 stopBetween.2 :=
    (Run.new _ _).andThen (r := ([], _)) .start rfl rfl
  have later : Run .plain stopBetweenLater.1 stopBetweenLater.2 :=
    first.andThen (.advance 20000) (by decide +kernel) (by decide +kernel)
  have between : stopBetweenLater.1 =
      stopBetweenLater.1.take 5 ++ stopBetween.2 :: stopBetween.1 := rfl
  have settled : stopBetweenLater.2.step .plain = none :=
    Option.isNone_iff_eq_none.mp (by decide +kernel)
  have late : stopBetween.2.horizon.ending ≤ stopBetweenLater.2.clock := by decide +kernel
  obtain ⟨listed, claimed, polled, names⟩ : ∃ listed claimed,
      .polled 0 .caller 0 listed claimed ∈ repeatedSession.2.history ∧
        claimed.map (·.slotId) = ["first", "b"] :=
    ⟨_, _, List.mem_of_getElem? (i := 0) rfl, by decide +kernel⟩
  obtain ⟨listed', claimed', polled', names'⟩ : ∃ listed claimed,
      .polled 0 (.task 0) 0 listed claimed ∈ stopBetween.2.history ∧
        claimed.map (·.slotId) = ["a", "b"] :=
    ⟨_, _, List.mem_of_getElem? (i := 1) rfl, by decide +kernel⟩
  have ended : .passEnded 0 claimed.length ∈ repeatedSession.2.history := by
    rw [← List.length_map (f := (·.slotId)), names]
    exact List.mem_of_getElem? (i := 12) rfl
  have released : (releasedSlots 0 stopBetweenLater.2.history).map (·.slotId) = ["a"] := by
    decide +kernel
  obtain ⟨-, -, all, -⟩ := pass_releases_its_selection once polled
  obtain ⟨-, -, -, ends⟩ := pass_releases_its_selection first polled'
  obtain ⟨-, -, all', -⟩ := pass_releases_its_selection later
    ((later.history_le (by rw [between]; simp)).subset polled')
  refine ⟨once, ⟨listed, claimed, polled, names, (all _ ended).2.1⟩, later, listed', claimed',
    polled', names', released, settled, late, ?_⟩
  obtain ended | ⟨id, g, more, -, stuck⟩ := ends _ _ (between ▸ later) settled late
  · have same := (all' _ ended).2.1
    rw [same, names'] at released
    cases released
  · exact ⟨id, g, more, stuck⟩

end Reclaimer
end NodeFleet
