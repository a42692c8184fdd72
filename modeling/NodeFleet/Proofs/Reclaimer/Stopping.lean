import NodeFleet.Proofs.Reclaimer.Agreement
import NodeFleet.Proofs.Reclaimer.Progress
/-!
Starting and stopping. There is at most one live poll task. To start while it lives does nothing, or
waits for ever; once stopping has returned there is none, all that the background claimed has been
released, and nothing happens in the background until the next start.
-/

set_option autoImplicit false
namespace NodeFleet
namespace Reclaimer

namespace Occurrence

/-- A poll of a poll task, or a release by a pass that a poll task began. -/
def InBackground (history : List Occurrence) : Occurrence → Prop
  | .polled _ owner _ _ _ => owner ≠ .caller
  | .released pass _ _ _ _ =>
    ∃ id time listed claimed, .polled pass (.task id) time listed claimed ∈ history
  | _ => False

theorem InBackground.mono {history longer : List Occurrence} {e : Occurrence}
    (h : e.InBackground history) (grown : history ⊆ longer) : e.InBackground longer := by
  cases e with
  | released pass slot reason phase occupied =>
    obtain ⟨id, time, listed, claimed, polled⟩ := h
    exact ⟨id, time, listed, claimed, grown polled⟩
  | _ => exact h

end Occurrence

def Frame.isStart : Frame → Bool
  | .perform .start => true
  | _ => false

def Frame.NeedsLock (f : Frame) : Prop := f = .perform .start ∨ f = .perform .stop

namespace Machine
variable {s : Setup} {m m' : Machine} {o : Owner} {f : Frame} {rest : List Frame} {id id' : Nat}
  {past newer older : List Machine} {x : Machine}

/-! ### One poll task -/

theorem exists_of_isLive (live : m.isLive id = true) :
    ∃ t, m.tasks[id]? = some t ∧ t.life.isLive = true := by
  cases found : m.tasks[id]? with
  | none => simp [isLive, found] at live
  | some t => exact ⟨t, rfl, by rwa [isLive_eq found] at live⟩

theorem Guarded.current_or_awaited (guard : m.Guarded) (live : m.isLive id = true) :
    m.current = some id ∨ ∃ o, m.Awaits o id := by
  obtain ⟨t, found, alive⟩ := exists_of_isLive live
  cases told : t.cancelled with
  | false => exact .inl (guard.free id t found alive told)
  | true => exact .inr (guard.told id t found alive told)

theorem Guarded.live_unique (guard : m.Guarded) (live : m.isLive id = true)
    (live' : m.isLive id' = true) : id = id' := by
  rcases guard.current_or_awaited live with current | ⟨o, awaits⟩
  · rcases guard.current_or_awaited live' with current' | ⟨o', awaits'⟩
    · exact Option.some.inj (current.symm.trans current')
    · rw [(guard.holder o' id' awaits').2] at current
      cases current
  · rcases guard.current_or_awaited live' with current' | ⟨o', awaits'⟩
    · rw [(guard.holder o id awaits).2] at current'
      cases current'
    · obtain rfl := guard.once o o' id id' awaits awaits'
      simpa [Awaits] using awaits.symm.trans awaits'

/-! ### Starting while a poll task lives -/

theorem Guarded.polls_of_live (guard : m.Guarded) (live : m.isLive id = true)
    (free : m.locked = false) : m.polls = true := by
  rcases guard.current_or_awaited live with current | ⟨o, awaits⟩
  · simp [polls, current, live]
  · rw [(guard.holder o id awaits).1] at free
    cases free

theorem execute_start (polls : m.polls = true) :
    execute s m o rest (.perform .start) = m.finish o .done rest := by
  have alive : (m.current.map m.isLive).getD false = true := polls
  simp [execute, perform, startPolling, alive]

/-- Whoever holds the lock awaits the end of a task. -/
def Held (m : Machine) : Prop := m.locked = true → ∃ o id, m.Awaits o id

theorem Held.execute (held : m.Held) (guard : m.Guarded) (frames : (m.fiber o).frames = f :: rest)
    (waits : m.waits f = false) : (execute s m o rest f).Held := by
  intro locked
  rw [execute_locked] at locked
  by_cases stop : f = .perform .stop
  · subst stop
    cases current : m.current with
    | none =>
      have free : m.locked = false := waits
      simp [lockedAfter, current, free] at locked
    | some id => exact ⟨o, id, (guard.awaits_execute frames).mpr (.inr ⟨rfl, rfl, current⟩)⟩
  · have awaited : ∀ id, f ≠ .awaitEnd id := by
      rintro id rfl
      cases locked
    rw [lock_kept stop awaited] at locked
    obtain ⟨o', id, awaits⟩ := held locked
    refine ⟨o', id, (guard.awaits_execute frames).mpr (.inl ⟨?_, awaits⟩)⟩
    rintro rfl
    rw [Awaits, frames] at awaits
    exact awaited id (Option.some.inj awaits)

theorem Held.reached (run : Run s past m) : m.Held := by
  induction run with
  | new slots hooks => exact fun locked => by cases locked
  | issue operation _ _ settled ih =>
    intro locked
    obtain ⟨o, id, awaits⟩ := ih locked
    exact ⟨o, id, (awaits_issue operation settled).mpr awaits⟩
  | step run made ih =>
    obtain ⟨o, f, rest, -, frames, waits, rfl⟩ | ⟨-, h⟩ := step_cases (Tidy.reached run) made
    · exact ih.execute (Guarded.reached run) frames waits
    · intro locked
      rw [h.locked] at locked
      obtain ⟨o, id, awaits⟩ := ih locked
      exact ⟨o, id, h.awaits.mpr awaits⟩

theorem Tidy.live_of_head (tidy : m.Tidy) (head : (m.fiber (.task id)).frames.head? = some f) :
    m.isLive id = true := by
  cases found : m.tasks[id]? with
  | none =>
    rw [fiber_of_no_task found] at head
    cases head
  | some t =>
    have busy : t.life = .busy := by
      refine Classical.byContradiction fun other => ?_
      rw [fiber_task id found, tidy.frames id t found other] at head
      cases head
    rw [isLive_eq found, busy]
    rfl

theorem waits_of_needsLock (needs : f.NeedsLock) : m.waits f = m.locked := by
  rcases needs with rfl | rfl <;> rfl

/-- A live task waits for its own end, or for the lock whose holder waits for its end. -/
structure Jammed (m : Machine) (id : Nat) : Prop where
  live : m.isLive id = true
  locked : m.locked = true
  awaited : ∃ o, m.Awaits o id
  blocked : ∃ f, (m.fiber (.task id)).frames.head? = some f ∧ (f.NeedsLock ∨ f = .awaitEnd id)

theorem jammed_of_awaits (tidy : m.Tidy) (guard : m.Guarded) (awaits : m.Awaits (.task id) id) :
    m.Jammed id :=
  ⟨tidy.live_of_head awaits, (guard.holder _ id awaits).1, ⟨_, awaits⟩, _, awaits, .inr rfl⟩

/-- While a task lives the lock is held only to wait for its end, and nobody but the caller and this
task can wait for the lock meanwhile. -/
theorem jammed_of_needsLock (run : Run s past m) (head : (m.fiber o).frames.head? = some f)
    (needs : f.NeedsLock) (live : m.isLive id = true) (locked : m.locked = true) :
    m.Jammed id := by
  have guard := Guarded.reached run
  have tidy := Tidy.reached run
  obtain ⟨h, k, awaits⟩ := Held.reached run locked
  have awaited : ∃ o, m.Awaits o id := by
    refine (guard.current_or_awaited live).resolve_left fun current => ?_
    rw [(guard.holder h k awaits).2] at current
    cases current
  obtain ⟨o', awaits'⟩ := awaited
  cases o' with
  | task j =>
    obtain rfl := guard.live_unique live (tidy.live_of_head awaits')
    exact jammed_of_awaits tidy guard awaits'
  | caller =>
    cases o with
    | task j =>
      obtain rfl := guard.live_unique live (tidy.live_of_head head)
      exact ⟨live, locked, ⟨_, awaits'⟩, f, head, .inl needs⟩
    | caller =>
      obtain rfl := Option.some.inj (head.symm.trans awaits')
      rcases needs with needs | needs <;> cases needs

namespace Jammed

theorem waits (jam : m.Jammed id) (blocks : f.NeedsLock ∨ f = .awaitEnd id) :
    m.waits f = true := by
  rcases blocks with needs | rfl
  · rw [waits_of_needsLock needs, jam.locked]
  · exact jam.live

theorem waits_head (jam : m.Jammed id) (head : (m.fiber (.task id)).frames.head? = some f) :
    m.waits f = true := by
  obtain ⟨g, head', blocks⟩ := jam.blocked
  obtain rfl := Option.some.inj (head.symm.trans head')
  exact jam.waits blocks

theorem execute (jam : m.Jammed id) (guard : m.Guarded) (frames : (m.fiber o).frames = f :: rest)
    (waits : m.waits f = false) : (execute s m o rest f).Jammed id := by
  obtain ⟨h, awaits⟩ := jam.awaited
  have head : (m.fiber o).frames.head? = some f := by rw [frames]; rfl
  have idle : ∀ k, f ≠ .awaitEnd k := by
    rintro k rfl
    obtain rfl := guard.once o h k id head awaits
    obtain rfl : k = id := by simpa [Awaits] using head.symm.trans awaits
    rw [Machine.waits, jam.live] at waits
    cases waits
  have stop : f ≠ .perform .stop := by
    rintro rfl
    rw [Machine.waits, jam.locked] at waits
    cases waits
  have other : o ≠ .task id := by
    rintro rfl
    rw [jam.waits_head head] at waits
    cases waits
  have fiber : (Machine.execute s m o rest f).fiber (.task id) = m.fiber (.task id) :=
    execute_fiber_of_ne (Ne.symm other)
  obtain ⟨t, found, alive⟩ := exists_of_isLive jam.live
  obtain ⟨t', found', life⟩ := execute_life s o f rest found
  refine ⟨?_, ?_, ⟨h, ?_⟩, ?_⟩
  · rw [isLive_eq found', life, alive]
  · rw [execute_locked, lock_kept stop idle, jam.locked]
  · refine (guard.awaits_execute frames).mpr (.inl ⟨?_, awaits⟩)
    rintro rfl
    exact idle id (Option.some.inj (head.symm.trans awaits))
  · rw [fiber]
    exact jam.blocked

theorem tended (jam : m.Jammed id) (h : Tended s m m') : m'.Jammed id := by
  have busy : (m.fiber (.task id)).frames ≠ [] := by
    intro none
    obtain ⟨f, head, -⟩ := jam.blocked
    rw [none] at head
    cases head
  have frames : (m'.fiber (.task id)).frames = (m.fiber (.task id)).frames :=
    (h.frames _).resolve_right fun idle => busy idle.1
  refine ⟨?_, h.locked.trans jam.locked, ?_, ?_⟩
  · rw [← jam.live]
    cases h.task with
    | none same samePhase running => rw [isLive, isLive, same]
    | one k t t' found live empty told others turn =>
      have ne : id ≠ k := by
        rintro rfl
        rw [fiber_task id found] at busy
        exact busy empty
      rw [isLive, isLive, others, if_neg ne]
  · obtain ⟨o, awaits⟩ := jam.awaited
    exact ⟨o, h.awaits.mpr awaits⟩
  · rw [frames]
    exact jam.blocked

end Jammed

/-- A frame has not been executed yet, and a jam keeps it from that. -/
structure Stuck (m : Machine) (o : Owner) (f : Frame) (rest : List Frame) (id : Nat) : Prop where
  frames : (m.fiber o).frames = f :: rest
  blocks : f.NeedsLock ∨ f = .awaitEnd id
  jam : m.Jammed id

theorem Jammed.follows (jam : m.Jammed id) (run : Run s past m) (follows : Follows s m m') :
    m'.Jammed id := by
  cases follows with
  | issue operation idle settled =>
    obtain ⟨h, awaits⟩ := jam.awaited
    exact ⟨jam.live, jam.locked, ⟨h, (awaits_issue operation settled).mpr awaits⟩, jam.blocked⟩
  | step made =>
    obtain ⟨o, f, rest, -, frames, waits, rfl⟩ | ⟨-, h⟩ := step_cases (Tidy.reached run) made
    · exact jam.execute (Guarded.reached run) frames waits
    · exact jam.tended h

theorem Stuck.follows (stuck : m.Stuck o f rest id) (run : Run s past m)
    (follows : Follows s m m') : m'.Stuck o f rest id := by
  obtain ⟨frames, blocks, jam⟩ := stuck
  refine ⟨?_, blocks, jam.follows run follows⟩
  cases follows with
  | issue operation idle settled =>
    have ne : o ≠ .caller := by
      rintro rfl
      rw [fiber, settled] at frames
      cases frames
    rw [issue_fiber_of_ne operation ne, frames]
  | step made =>
    obtain ⟨o', g, rest', -, frames', waits, rfl⟩ | ⟨-, h⟩ := step_cases (Tidy.reached run) made
    · rw [execute_fiber_of_ne, frames]
      rintro rfl
      obtain rfl := (List.cons.inj (frames.symm.trans frames')).1
      rw [jam.waits blocks] at waits
      cases waits
    · rw [(h.frames o).resolve_right (by simp [frames]), frames]

/-! ### After stopping -/

/-- The next step ends a stop. -/
def StopReturns (m : Machine) : Prop :=
  m.next? = some (.perform .stop) ∧ m.locked = false ∧ m.current = none ∨
    ∃ id, m.next? = some (.awaitEnd id) ∧ m.isLive id = false

theorem head_of_next? (next : m.next? = some f) :
    ∃ o, m.running = some o ∧ (m.fiber o).frames.head? = some f :=
  Option.bind_eq_some_iff.mp next

theorem StopReturns.noTask (stops : m.StopReturns) (guard : m.Guarded) : m.NoTask := by
  refine noTask_iff.mpr fun id => Bool.eq_false_iff.mpr fun live => ?_
  rcases stops with ⟨-, unlocked, none⟩ | ⟨k, next, dead⟩
  · rcases guard.current_or_awaited live with current | ⟨o, awaits⟩
    · rw [none] at current
      cases current
    · rw [(guard.holder o id awaits).1] at unlocked
      cases unlocked
  · obtain ⟨o, -, waiting⟩ := head_of_next? next
    rcases guard.current_or_awaited live with current | ⟨o', awaits⟩
    · rw [(guard.holder o k waiting).2] at current
      cases current
    · obtain rfl := guard.once o o' k id waiting awaits
      obtain rfl : k = id := by simpa [Awaits] using waiting.symm.trans awaits
      rw [dead] at live
      cases live

theorem executes_next (follows : Follows s m m') (tidy : m.Tidy) (next : m.next? = some f)
    (ready : m.waits f = false) : ∃ o rest, m.running = some o ∧
      (m.fiber o).frames = f :: rest ∧ m' = execute s m o rest f := by
  cases follows with
  | issue operation idle settled =>
    rw [next?, idle] at next
    cases next
  | step made =>
    obtain ⟨o, g, rest, running, frames, -, rfl⟩ | ⟨rests, -⟩ := step_cases tidy made
    · obtain rfl := Option.some.inj (next.symm.trans (next?_of_running running frames))
      exact ⟨o, rest, running, frames, rfl⟩
    · rw [rests f next] at ready
      cases ready

theorem StopReturns.phase (stops : m.StopReturns) (tidy : m.Tidy) (follows : Follows s m m') :
    m'.phase = .stopped := by
  obtain ⟨f, next, ready, after⟩ : ∃ f, m.next? = some f ∧ m.waits f = false ∧
      m.phaseAfter s f = .stopped := by
    rcases stops with ⟨next, unlocked, none⟩ | ⟨id, next, dead⟩
    · exact ⟨_, next, unlocked, by simp [phaseAfter, none]⟩
    · exact ⟨_, next, dead, rfl⟩
  obtain ⟨o, rest, -, -, rfl⟩ := executes_next follows tidy next ready
  rw [execute_phase, after]

theorem NoTask.follows (none : m.NoTask) (idles : ¬ m.Starts) (tidy : m.Tidy)
    (follows : Follows s m m') : m'.NoTask := by
  refine noTask_iff.mpr fun id => Bool.eq_false_iff.mpr fun live => ?_
  obtain ⟨t', found', alive⟩ := exists_of_isLive live
  obtain ⟨t, found, alive⟩ : ∃ t, m.tasks[id]? = some t ∧ t.life.isLive = true := by
    cases follows with
    | issue operation idle settled => exact ⟨t', found', alive⟩
    | step made =>
      obtain ⟨o, f, rest, running, frames, waits, rfl⟩ | ⟨-, h⟩ := step_cases tidy made
      · cases execute_kept found' with
        | old t found life fiber told => exact ⟨t, found, by rwa [← life]⟩
        | new starts dead last life told fiber =>
          subst starts
          exact absurd ⟨dead, waits, next?_of_running running frames⟩ idles
      · obtain ⟨t, found, live, -⟩ := h.live_task found' alive
        exact ⟨t, found, live⟩
  rw [none t (List.mem_of_getElem? found)] at alive
  cases alive

theorem NoTask.frames (none : m.NoTask) (tidy : m.Tidy) (id : Nat) :
    (m.fiber (.task id)).frames = [] := by
  cases frames : (m.fiber (.task id)).frames with
  | nil => rfl
  | cons f rest =>
    have live : m.isLive id = true := tidy.live_of_head (by rw [frames]; rfl)
    rw [noTask_iff.mp none id] at live
    cases live

theorem NoTask.ended (none : m.NoTask) (run : Run s past m) {pass time : Nat}
    {listed claimed : List SlotSession}
    (polled : .polled pass (.task id) time listed claimed ∈ m.history) :
    (∀ o, framesOf pass (m.fiber o).frames = []) ∧ .passEnded pass claimed.length ∈ m.history ∧
      releasedSlots pass m.history = claimed := by
  cases (Stage.reached run pass).of_polled polled with
  | stacked frames running =>
    rw [none.frames (Tidy.reached run)] at frames
    exact absurd rfl frames
  | ended frames ended released => exact ⟨frames, ended, released⟩

theorem NoTask.quiet (none : m.NoTask) (run : Run s past m) (follows : Follows s m m') :
    ∃ new, m'.history = m.history ++ new ∧ ∀ e ∈ new, ¬ e.InBackground m.history := by
  cases follows with
  | issue operation idle settled => exact ⟨[], (List.append_nil _).symm, by simp⟩
  | step made =>
    have tidy := Tidy.reached run
    obtain ⟨new, history, ⟨o, f, rest, running, frames, -, -, rfl⟩ | ⟨-, notes, rfl⟩⟩ :=
      step_history tidy made
    · refine ⟨_, history, fun e mem background => ?_⟩
      obtain rfl := none.caller tidy running
      cases e with
      | polled pass owner time listed claimed =>
        obtain ⟨-, -, rfl, -⟩ := polled_of_mem_recorded mem
        exact background rfl
      | released pass slot reason phase occupied =>
        obtain ⟨left, previous, count, rfl, -⟩ := released_of_mem_recorded mem
        obtain ⟨id, time, listed, claimed, polled⟩ := background
        -- the pass is on the stack of the caller, and all background passes have ended
        have off := (none.ended run polled).1 .caller
        rw [frames, framesOf_cons_of_eq rfl] at off
        cases off
      | _ => exact background
    · refine ⟨_, history, fun e mem background => ?_⟩
      obtain ⟨n, -, rfl⟩ := List.mem_map.mp mem
      exact background

structure Quiet (x m : Machine) : Prop where
  none : m.NoTask
  since : ∃ new, m.history = x.history ++ new ∧ ∀ e ∈ new, ¬ e.InBackground x.history

theorem Quiet.follows (quiet : Quiet x m) (run : Run s past m) (idles : ¬ m.Starts)
    (follows : Follows s m m') : Quiet x m' := by
  obtain ⟨none, new, history, since⟩ := quiet
  refine ⟨none.follows idles (Tidy.reached run) follows, ?_⟩
  obtain ⟨more, history', now⟩ := none.quiet run follows
  refine ⟨new ++ more, by rw [history', history, List.append_assoc], fun e mem background => ?_⟩
  rcases List.mem_append.mp mem with mem | mem
  · exact since e mem background
  · refine now e mem (background.mono ?_)
    rw [history]
    exact List.subset_append_left _ _

theorem StopReturns.idles (stops : x.StopReturns) : ¬ x.Starts := by
  rintro ⟨-, -, start⟩
  rcases stops with ⟨next, -⟩ | ⟨id, next, -⟩
  · cases start.symm.trans next
  · cases start.symm.trans next

theorem StopReturns.quiet (stops : x.StopReturns) (run : Run s (newer ++ x :: older) m)
    (idles : ∀ y ∈ newer, ¬ y.Starts) : Quiet x m := by
  refine run.carry (fun run => ?_) fun past y y' run mem follows quiet => ?_
  · exact ⟨stops.noTask (Guarded.reached run), [], (List.append_nil _).symm, by simp⟩
  · refine quiet.follows run ?_ follows
    rcases mem with rfl | mem
    · exact stops.idles
    · exact idles y mem

theorem Quiet.new (quiet : Quiet x m) :
    ∃ new, m.history = x.history ++ new ∧ ∀ e ∈ new, ¬ e.InBackground m.history := by
  obtain ⟨-, new, history, since⟩ := quiet
  refine ⟨new, history, fun e mem background => since e mem ?_⟩
  cases e with
  | released pass slot reason phase occupied =>
    obtain ⟨id, time, listed, claimed, polled⟩ := background
    rw [history] at polled
    rcases List.mem_append.mp polled with old | late
    · exact ⟨id, time, listed, claimed, old⟩
    · -- no poll task has polled since
      exact absurd (nofun : Owner.task id ≠ .caller) (since _ late)
  | _ => exact background

/-! ### The terminal sessions -/

/-- The next step polls or completes a session. -/
def EndsSessions (m : Machine) : Prop :=
  m.next? = some .poll ∨ ∃ slot, m.next? = some (.perform (.complete slot))

theorem terminal_follows (tidy : m.Tidy) (follows : Follows s m m') (kept : ¬ m.EndsSessions) :
    m'.terminal = m.terminal := by
  cases follows with
  | issue operation idle settled => rfl
  | step made =>
    obtain ⟨o, f, rest, running, frames, -, rfl⟩ | ⟨-, h⟩ := step_cases tidy made
    · have next := next?_of_running running frames
      rw [execute_terminal]
      unfold terminalAfter
      split
      · exact absurd (.inr ⟨_, next⟩) kept
      · exact absurd (.inl next) kept
      · rfl
    · exact h.terminal

/-- At most one poll task is alive. A start while one is changes nothing, unless a stop waits for
that task; then neither of them ever goes on. When a stop returns, the reclaimer is stopped, and
from then until the next start there is no poll task, all that background passes claimed has been
released, and nothing happens in the background. Terminal sessions stay through all of it. -/
theorem starting_and_stopping (run : Run s past m) :
    (∀ id id', m.isLive id = true → m.isLive id' = true → id = id') ∧
    (∀ o rest id, m.running = some o → (m.fiber o).frames = .perform .start :: rest →
      m.isLive id = true →
        (m.locked = false → m.step s = some (m.finish o .done rest)) ∧
        (m.locked = true → ∀ newer m', Run s (newer ++ m :: past) m' →
          (m'.fiber o).frames = .perform .start :: rest)) ∧
    (∀ newer x older, past = newer ++ x :: older → x.StopReturns → (∀ y ∈ newer, ¬ y.Starts) →
      (newer = [] → m.phase = .stopped) ∧ m.NoTask ∧
      (∀ pass id time listed claimed, .polled pass (.task id) time listed claimed ∈ m.history →
        .passEnded pass claimed.length ∈ m.history ∧ releasedSlots pass m.history = claimed) ∧
      ∃ new, m.history = x.history ++ new ∧ ∀ e ∈ new, ¬ e.InBackground m.history) ∧
    ∀ newer x older, past = newer ++ x :: older → (∀ y ∈ x :: newer, ¬ y.EndsSessions) →
      m.terminal = x.terminal := by
  have guard := Guarded.reached run
  refine ⟨fun id id' => guard.live_unique, ?_, ?_, ?_⟩
  · intro o rest id running frames live
    refine ⟨fun unlocked => ?_, fun locked newer m' later => ?_⟩
    · have polls := guard.polls_of_live live unlocked
      simp [step, running, stepOf, frames, Machine.waits, unlocked, execute_start polls]
    · have head : (m.fiber o).frames.head? = some (.perform .start) := by rw [frames]; rfl
      have stuck : m'.Stuck o (.perform .start) rest id :=
        later.carry (P := fun y => y.Stuck o (.perform .start) rest id)
        (fun run => ⟨frames, .inl (.inl rfl), jammed_of_needsLock run head (.inl rfl) live locked⟩)
        fun _ _ _ run _ follows stuck => stuck.follows run follows
      exact stuck.frames
  · rintro newer x older rfl stops idles
    have quiet := stops.quiet run idles
    refine ⟨?_, quiet.none, ?_, quiet.new⟩
    · rintro rfl
      obtain ⟨before, follows⟩ := run.follows
      exact stops.phase (Tidy.reached before) follows
    · intro pass id time listed claimed polled
      exact (quiet.none.ended run polled).2
  · rintro newer x older rfl kept
    refine run.carry (P := fun y => y.terminal = x.terminal) (fun _ => rfl)
      fun past y y' run mem follows same => ?_
    rw [terminal_follows (Tidy.reached run) follows (kept y (List.mem_cons.mpr mem)), same]

theorem next?_any_iff {p : Frame → Bool} (only : ∀ g, p g = true ↔ g = f) :
    m.next?.any p = true ↔ m.next? = some f := by
  simp [Option.any_eq_true, only]

theorem next?_start_iff : m.next?.any Frame.isStart = true ↔ m.next? = some (.perform .start) :=
  next?_any_iff fun g => by
    unfold Frame.isStart
    split
    · simp
    · rename_i other
      simpa using other

instance (m : Machine) : Decidable m.Starts :=
  decidable_of_iff (m.polls = false ∧ m.locked = false ∧ m.next?.any Frame.isStart = true)
    (and_congr_right fun _ => and_congr_right fun _ => next?_start_iff)

def nestedStart : List Machine × Machine :=
  let before := new [plainSlot "a" 100] [⟨"a", .start⟩]
  trail .plain 5 [before] (before.issue .start)

def longStopped : List Machine × Machine :=
  andThen .plain (andThen .plain (trail .plain 16 nestedStart.1 nestedStart.2) .stop)
    (.advance 20000)

theorem starting_and_stopping_nested :
    Run .plain nestedStart.1 nestedStart.2 ∧ Run .plain longStopped.1 longStopped.2 ∧
      (∃ rest, nestedStart.2.phase = .reclaiming ∧
        nestedStart.2.step .plain = some (nestedStart.2.finish (.task 0) .done rest)) ∧
      ∃ x ∈ longStopped.1, x.StopReturns ∧ ∃ new, longStopped.2.history = x.history ++ new ∧
        ∀ e ∈ new, ¬ e.InBackground longStopped.2.history := by
  have start : Run .plain nestedStart.1 nestedStart.2 :=
    ((Run.new [plainSlot "a" 100] [⟨"a", .start⟩]).issue .start rfl rfl).trail 5
  have stop : Run .plain longStopped.1 longStopped.2 :=
    ((start.trail 16).andThen .stop (by decide +kernel) (by decide +kernel)).andThen
      (.advance 20000) (by decide +kernel) (by decide +kernel)
  obtain ⟨-, again, -⟩ := starting_and_stopping start
  obtain ⟨-, -, stopping, -⟩ := starting_and_stopping stop
  have changes := (again (.task 0) _ 0 rfl rfl (by decide +kernel)).1 rfl
  obtain ⟨-, -, -, quiet⟩ := stopping (longStopped.1.take 7) _ (longStopped.1.drop 8) rfl
    (.inr ⟨0, rfl, by decide +kernel⟩) (by decide +kernel)
  exact ⟨start, stop, ⟨_, by decide +kernel, changes⟩, _, List.mem_of_getElem? (i := 7) rfl,
    .inr ⟨0, rfl, by decide +kernel⟩, quiet⟩

end Machine
end Reclaimer
end NodeFleet
