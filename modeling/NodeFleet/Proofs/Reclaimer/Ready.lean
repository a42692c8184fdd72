import NodeFleet.Proofs.Reclaimer.Stopping

set_option autoImplicit false
namespace NodeFleet
namespace Reclaimer

def PollTask.Unpaced (t : PollTask) : Prop := t.life ≠ .waiting ∧ t.life ≠ .busy

namespace Machine

inductive Asleep (m : Machine) (t : PollTask) : Prop
  | dead (life : t.life.isLive = false)
  | waiting (life : t.life = .waiting) (free : t.cancelled = false)
      (later : m.clock < wakeTime t.due)
  | held (life : t.life = .busy) (f : Frame) (rest : List Frame)
      (frames : t.fiber.frames = f :: rest) (waits : m.waits f = true)

/-- Every task that has something to do is ready or runs. -/
def Attended (m : Machine) : Prop :=
  ∀ (id : Nat) (t : PollTask), m.tasks[id]? = some t →
    .task id ∈ m.queue ∨ m.running = some (.task id) ∨ m.Asleep t

variable {s : Setup} {m m' : Machine} {o : Owner} {f : Frame} {rest : List Frame} {id k : Nat}
  {t t' : PollTask}

theorem waits_mono (waits : m.waits f = true) (sleeps : ∀ wake, f = .sleep wake → m'.clock < wake)
    (locked : m.locked = true → m'.locked = true)
    (live : ∀ k, f = .awaitEnd k → m.isLive k = true → m'.isLive k = true) :
    m'.waits f = true := by
  cases f with
  | sleep wake => simpa [Machine.waits] using sleeps wake rfl
  | awaitEnd k => exact live k rfl waits
  | perform operation =>
    cases operation with
    | start | stop => exact locked waits
    | setSlots | reclaim | complete | phase | advance => cases waits
  | poll | releases | hookEnd | capture => cases waits

theorem lt_of_waits_sleep {wake : Nat} (waits : m.waits (.sleep wake) = true) : m.clock < wake := by
  simpa [Machine.waits] using waits

theorem isLive_of_busy (found : m.tasks[id]? = some t) (life : t.life = .busy) :
    m.isLive id = true := by
  rw [isLive_eq found, life]
  rfl

/-! ### Frames -/

theorem isWaiting_eq (found : m.tasks[id]? = some t) (life : t.life = .waiting) :
    m.isWaiting id = true := by
  simp [isWaiting, found, life]

theorem Guarded.ends_none (guard : m.Guarded) (frames : (m.fiber o).frames = .awaitEnd k :: rest)
    (waits : m.waits (.awaitEnd k) = false) : m.isLive id = false := by
  refine Bool.eq_false_iff.mpr fun live => ?_
  have awaits : m.Awaits o k := by rw [Awaits, frames]; rfl
  rcases guard.current_or_awaited live with current | ⟨o', awaits'⟩
  · rw [(guard.holder o k awaits).2] at current
    cases current
  · obtain rfl := guard.once o o' k id awaits awaits'
    obtain rfl : k = id := by simpa [Awaits] using awaits.symm.trans awaits'
    rw [Machine.waits, live] at waits
    cases waits

theorem Attended.execute (attended : m.Attended) (guard : m.Guarded) (running : m.running = some o)
    (frames : (m.fiber o).frames = f :: rest) (waits : m.waits f = false) :
    (execute s m o rest f).Attended := by
  intro id t' found'
  rw [execute_queue, execute_running, List.mem_append]
  by_cases own : o = .task id
  · exact .inr (.inl (own ▸ running))
  cases execute_kept found' with
  | new starts dead last life told fiber =>
    subst starts last
    exact .inl (.inr (by simp [jobsMade, dead]))
  | old t found life fiber told due =>
    rcases attended id t found with queued | runs | asleep
    · exact .inl (.inl queued)
    · exact .inr (.inl runs)
    cases asleep with
    | dead ended => exact .inr (.inr (.dead (life ▸ ended)))
    | waiting waiting free later =>
      rcases told with ⟨-, told⟩ | ⟨rfl, current, -⟩
      · refine .inr (.inr (.waiting (life.trans waiting) (told.trans free) ?_))
        rwa [execute_clock, due]
      · by_cases queued : .task id ∈ m.queue
        · exact .inl (.inl queued)
        · exact .inl (.inr (by simp [jobsMade, current, isWaiting_eq found waiting, queued]))
    | held busy g more own' held =>
      refine .inr (.inr (.held (life.trans busy) g more (by rw [fiber own, own']) ?_))
      refine waits_mono held (fun wake sleeps => ?_) (fun locked => ?_) fun k awaited live => ?_
      · rw [execute_clock]
        exact lt_of_waits_sleep (sleeps ▸ held)
      · rw [execute_locked]
        unfold lockedAfter
        split
        · split <;> simp [locked]
        · -- the lock is freed only when no task is busy any more
          rw [← isLive_of_busy found busy]
          exact (guard.ends_none frames waits).symm
        · exact locked
      · obtain ⟨u, foundEnd, alive⟩ := exists_of_isLive live
        obtain ⟨u', foundEnd', life'⟩ := execute_life s o f rest foundEnd
        rw [isLive_eq foundEnd', life', alive]

/-! ### Other moves -/

theorem Asleep.still (asleep : m.Asleep t) (clock : m'.clock = m.clock)
    (locked : m'.locked = m.locked) (live : ∀ k, t.life = .busy →
      t.fiber.frames.head? = some (.awaitEnd k) → m.isLive k = true → m'.isLive k = true) :
    m'.Asleep t := by
  cases asleep with
  | dead ended => exact .dead ended
  | waiting life free later => exact .waiting life free (by rwa [clock])
  | held life f rest frames waits =>
    refine .held life f rest frames (waits_mono waits ?_ (fun held => locked.trans held) ?_)
    · rintro wake rfl
      rw [clock]
      exact lt_of_waits_sleep waits
    · rintro k rfl alive
      exact live k life (by rw [frames]; rfl) alive

theorem Asleep.tended (asleep : m.Asleep t) (h : Tended s m m') (guard : m.Guarded)
    (found : m.tasks[id]? = some t) (clock : m'.clock = m.clock) : m'.Asleep t := by
  refine asleep.still clock h.locked fun k life awaits live => ?_
  cases h.task with
  | none same samePhase running => rwa [isLive, same]
  | one j u u' foundOne liveOne empty told others turn =>
    by_cases same : k = j
    · subst same
      -- the one that changes has nothing left to do, and no other task is alive
      obtain rfl := guard.live_unique (isLive_of_busy found life) live
      obtain rfl := Option.some.inj (found.symm.trans foundOne)
      rw [empty] at awaits
      cases awaits
    · rwa [isLive, others, if_neg same]

theorem clockNanos_lt_iff (due : Nat) : m.clockNanos < due ↔ m.clock < wakeTime due := by
  rw [clockNanos, wakeTime]
  simp only [nanosPerMilli]
  omega

def OnlyTask (m m' : Machine) (id : Nat) : Prop :=
  m'.clock = m.clock ∧ m'.queue = m.queue ∧ ∀ j, j ≠ id → m'.tasks[j]? = m.tasks[j]?

theorem updateTask_get_of_ne (g : PollTask → PollTask) {j : Nat} (h : j ≠ id) :
    (m.updateTask id g).tasks[j]? = m.tasks[j]? := by
  rw [updateTask_get]
  simp [h.symm]

theorem nextTick_only (s : Setup) (m : Machine) (id : Nat) (t : PollTask) :
    OnlyTask m (nextTick s m id t) id := by
  unfold nextTick
  split
  · exact ⟨rfl, rfl, fun j => updateTask_get_of_ne _⟩
  · split <;> exact ⟨rfl, rfl, fun j => updateTask_get_of_ne _⟩

theorem beginTask_only (s : Setup) (m : Machine) (id : Nat) (t : PollTask) :
    OnlyTask m (beginTask s m id t) id := by
  unfold beginTask
  split
  · exact ⟨rfl, rfl, fun j => updateTask_get_of_ne _⟩
  · obtain ⟨clock, queue, others⟩ := nextTick_only s
      (m.updateTask id fun t => { t with due := m.clockNanos }) id { t with due := m.clockNanos }
    exact ⟨clock, queue, fun j ne => (others j ne).trans (updateTask_get_of_ne _ ne)⟩

theorem runTask_only (s : Setup) (m : Machine) (id : Nat) : OnlyTask m (runTask s m id) id := by
  have same : OnlyTask m m id := ⟨rfl, rfl, fun _ _ => rfl⟩
  unfold runTask
  split
  · exact same
  · split
    · exact beginTask_only s m id _
    · exact nextTick_only s m id _
    · exact same
    · exact same
    · exact same

theorem nextTick_of_told (found : m.tasks[id]? = some t) (told : t.cancelled = true) :
    (nextTick s m id t).tasks[id]? = some { t with life := .ended } := by
  rw [nextTick, if_pos told]
  exact updateTask_self _ found

theorem nextTick_of_due (found : m.tasks[id]? = some t) (free : t.cancelled = false)
    (due : t.due ≤ m.clockNanos) :
    (nextTick s m id t).running = some (.task id) ∧
      (nextTick s m id t).tasks[id]? = some { t with
        life := .busy
        due := nextDue s.intervalNanos t.due m.clockNanos
        fiber := ⟨[.poll], .done⟩ } := by
  rw [nextTick, if_neg (by simp [free]), if_pos due]
  exact ⟨rfl, updateTask_self _ found⟩

theorem nextTick_of_early (found : m.tasks[id]? = some t) (free : t.cancelled = false)
    (early : m.clockNanos < t.due) :
    (nextTick s m id t).tasks[id]? = some { t with life := .waiting } := by
  rw [nextTick, if_neg (by simp [free]), if_neg (Nat.not_le.mpr early)]
  exact updateTask_self _ found

theorem nextTick_own (found : m.tasks[id]? = some t)
    (found' : (nextTick s m id t).tasks[id]? = some t') :
    (nextTick s m id t).running = some (.task id) ∨ (nextTick s m id t).Asleep t' := by
  obtain ⟨clock, -⟩ := nextTick_only s m id t
  cases told : t.cancelled with
  | true =>
    obtain rfl := Option.some.inj ((nextTick_of_told found told).symm.trans found')
    exact .inr (.dead rfl)
  | false =>
    rcases Nat.lt_or_ge m.clockNanos t.due with early | due
    · obtain rfl := Option.some.inj ((nextTick_of_early found told early).symm.trans found')
      refine .inr (.waiting rfl told ?_)
      rw [clock]
      exact (clockNanos_lt_iff t.due).mp early
    · exact .inl (nextTick_of_due found told due).1

theorem beginTask_own (found : m.tasks[id]? = some t)
    (found' : (beginTask s m id t).tasks[id]? = some t') :
    (beginTask s m id t).running = some (.task id) ∨ (beginTask s m id t).Asleep t' := by
  unfold beginTask at found' ⊢
  split at found'
  · obtain rfl := Option.some.inj ((updateTask_self _ found).symm.trans found')
    exact .inr (.dead rfl)
  · rename_i interval
    rw [if_neg interval]
    exact nextTick_own (updateTask_self _ found) found'

theorem runTask_own (found' : (runTask s m id).tasks[id]? = some t') :
    (runTask s m id).running = some (.task id) ∨ (runTask s m id).Asleep t' := by
  unfold runTask at found' ⊢
  cases found : m.tasks[id]? with
  | none =>
    rw [found] at found'
    cases found.symm.trans found'
  | some t =>
  rw [found] at found'
  dsimp only at found' ⊢
  split at found'
  · exact beginTask_own found found'
  · exact nextTick_own found found'
  · exact .inl rfl
  · rename_i ended
    obtain rfl := Option.some.inj (found.symm.trans found')
    exact .inr (.dead (by rw [ended]; rfl))
  · rename_i failed
    obtain rfl := Option.some.inj (found.symm.trans found')
    exact .inr (.dead (by rw [failed]; rfl))

theorem runCapture_only (s : Setup) (m : Machine) (number : Nat) (sessionId : String)
    (completed : Bool) (id : Nat) : OnlyTask m (runCapture s m number sessionId completed) id := by
  unfold runCapture
  split <;> exact ⟨rfl, rfl, fun _ _ => rfl⟩

theorem Attended.job {j : Job} {r : List Job} (attended : m.Attended) (tidy : m.Tidy)
    (guard : m.Guarded) (idle : m.running = none) (queue : m.queue = j :: r) :
    (runJob s { m with queue := r } j).Attended := by
  have tended : Tended s m (runJob s { m with queue := r } j) := runJob_tended tidy idle j r
  intro id t' found'
  have still {k : Nat} (only : OnlyTask { m with queue := r } (runJob s { m with queue := r } j) k)
      (ne : id ≠ k) (other : j ≠ .task id) :
      .task id ∈ (runJob s { m with queue := r } j).queue ∨
        (runJob s { m with queue := r } j).running = some (.task id) ∨
        (runJob s { m with queue := r } j).Asleep t' := by
    obtain ⟨clock, left, others⟩ := only
    rw [others id ne] at found'
    rcases attended id t' found' with queued | runs | asleep
    · rw [queue] at queued
      rw [left]
      exact .inl ((List.mem_cons.mp queued).resolve_left (Ne.symm other))
    · rw [idle] at runs
      cases runs
    · exact .inr (.inr (asleep.tended tended guard found' clock))
  cases j with
  | capture number sessionId completed =>
    exact still (runCapture_only s _ number sessionId completed (id + 1)) (by omega) (by simp)
  | task k =>
    by_cases own : id = k
    · subst own
      exact .inr (runTask_own found')
    · exact still (runTask_only s _ k) own (by simpa using Ne.symm own)

/-! ### Time -/

theorem mem_wakeTimes {time : Nat} : time ∈ m.wakeTimes ↔ m.caller.wake? = some time ∨
    ∃ (id : Nat) (t : PollTask), m.tasks[id]? = some t ∧ t.wake? = some time := by
  rw [wakeTimes, List.mem_append, Option.mem_toList, List.mem_filterMap]
  refine or_congr Iff.rfl ?_
  constructor
  · rintro ⟨t, mem, wakes⟩
    obtain ⟨id, found⟩ := List.getElem?_of_mem mem
    exact ⟨id, t, found, wakes⟩
  · rintro ⟨id, t, found, wakes⟩
    exact ⟨t, List.mem_of_getElem? found, wakes⟩

theorem mem_wakingTasks {time : Nat} : .task id ∈ m.wakingTasks time ↔
    ∃ t wake, m.tasks[id]? = some t ∧ t.wake? = some wake ∧ wake ≤ time := by
  have inside : (∃ t, m.tasks[id]? = some t) ↔ id < m.tasks.length := by
    simp [List.getElem?_eq_some_iff]
  simp only [wakingTasks, List.mem_map, List.mem_filter, List.mem_range, Job.task.injEq,
    exists_eq_right]
  rw [← inside]
  cases found : m.tasks[id]? with
  | none => simp
  | some t => cases wakes : t.wake? <;> simp [wakes]

theorem wake?_eq_some {fb : Fiber} {time : Nat} :
    fb.wake? = some time ↔ ∃ rest, fb.frames = .sleep time :: rest := by
  unfold Fiber.wake?
  split
  · rename_i wake rest frames
    simp [frames]
  · rename_i other
    constructor
    · intro h
      cases h
    · rintro ⟨rest, frames⟩
      exact absurd frames (other time rest)

/-- The clock goes on to the first time at which somebody wakes, and all that wake are ready. -/
theorem passTime_eq (h : m.passTime = some m') : ∃ time ∈ m.wakeTimes,
    (∀ other ∈ m.wakeTimes, time ≤ other) ∧ m' = { m with
      clock := max m.clock time
      queue := m.queue ++ m.wakingTasks time
      running := if (m.caller.wake?.map (decide <| · ≤ time)).getD false then some .caller
        else m.running } := by
  unfold passTime at h
  obtain ⟨time, first, rfl⟩ := Option.map_eq_some_iff.mp h
  obtain ⟨mem, least⟩ := List.min?_eq_some_iff.mp first
  refine ⟨time, mem, least, ?_⟩
  dsimp only
  split <;> rfl

/-- What a task waits for lies ahead if it has no turn coming. -/
theorem Attended.wakes_later (attended : m.Attended) (idle : m.running = none)
    (queue : m.queue = []) {wake : Nat} (found : m.tasks[id]? = some t)
    (wakes : t.wake? = some wake) :
    m.clock < wake ∧ (t.life = .waiting ∧ t.cancelled = false ∨
      ∃ rest, (m.fiber (.task id)).frames = .sleep wake :: rest) := by
  rcases attended id t found with queued | runs | asleep
  · rw [queue] at queued
    cases queued
  · rw [idle] at runs
    cases runs
  cases asleep with
  | dead ended =>
    cases life : t.life <;> simp [life, Life.isLive, PollTask.wake?] at ended wakes
  | waiting life free later =>
    rw [PollTask.wake?, life] at wakes
    obtain rfl := Option.some.inj wakes
    exact ⟨later, .inl ⟨life, free⟩⟩
  | held life f rest frames waits =>
    rw [PollTask.wake?, life] at wakes
    obtain ⟨more, sleeps⟩ := wake?_eq_some.mp wakes
    obtain ⟨rfl, -⟩ := List.cons.inj (sleeps.symm.trans frames)
    exact ⟨lt_of_waits_sleep waits, .inr ⟨more, by rw [fiber_task id found, sleeps]⟩⟩

/-- What a frame can wait for: time, the lock, or the end of a poll task. -/
theorem waits_for (waits : m.waits f = true) :
    (∃ wake, f = .sleep wake) ∨ f.NeedsLock ∨ ∃ k, f = .awaitEnd k := by
  cases f with
  | sleep wake => exact .inl ⟨wake, rfl⟩
  | awaitEnd k => exact .inr (.inr ⟨k, rfl⟩)
  | perform operation =>
    cases operation with
    | start => exact .inr (.inl (.inl rfl))
    | stop => exact .inr (.inl (.inr rfl))
    | setSlots | reclaim | complete | phase | advance => cases waits
  | poll | releases | hookEnd | capture => cases waits

theorem current_of_waits (guard : m.Guarded) (held : m.Held)
    (frames : (m.fiber o).frames = f :: rest) (waits : m.waits f = true) :
    (∃ wake, f = .sleep wake) ∨ m.current = none := by
  rcases waits_for waits with sleeps | needs | ⟨k, rfl⟩
  · exact .inl sleeps
  · obtain ⟨o', k, awaits⟩ := held (waits_of_needsLock needs ▸ waits)
    exact .inr (guard.holder o' k awaits).2
  · have awaits : m.Awaits o k := by rw [Awaits, frames]; rfl
    exact .inr (guard.holder o k awaits).2

theorem passTime_sleeper (attended : m.Attended) (guard : m.Guarded) (held : m.Held)
    (idle : m.running = none) (queue : m.queue = []) (frames : m.caller.frames = f :: rest)
    (waits : m.waits f = true) (h : m.passTime = some m') :
    m.clock < m'.clock ∧ ∃ o wake more, (m.fiber o).frames = .sleep wake :: more ∧
      m'.clock ≤ wake := by
  obtain ⟨time, mem, least, rfl⟩ := passTime_eq h
  have later : m.clock < time := by
    rcases mem_wakeTimes.mp mem with wakes | ⟨id, t, found, wakes⟩
    · obtain ⟨more, sleeps⟩ := wake?_eq_some.mp wakes
      obtain ⟨rfl, -⟩ := List.cons.inj (frames.symm.trans sleeps)
      exact lt_of_waits_sleep waits
    · exact (attended.wakes_later idle queue found wakes).1
  have clock : max m.clock time = time := Nat.max_eq_right (Nat.le_of_lt later)
  refine ⟨by rwa [clock], ?_⟩
  simp only [clock]
  rcases current_of_waits (o := .caller) guard held frames waits with ⟨wake, rfl⟩ | none
  · have wakes : m.caller.wake? = some wake := wake?_eq_some.mpr ⟨rest, frames⟩
    exact ⟨.caller, wake, rest, frames, least wake (mem_wakeTimes.mpr (.inl wakes))⟩
  · rcases mem_wakeTimes.mp mem with wakes | ⟨id, t, found, wakes⟩
    · obtain ⟨more, sleeps⟩ := wake?_eq_some.mp wakes
      exact ⟨.caller, time, more, sleeps, Nat.le_refl _⟩
    · rcases (attended.wakes_later idle queue found wakes).2 with ⟨life, free⟩ | ⟨more, sleeps⟩
      · -- a task that waits for its tick would be the one that stopping ends
        rw [guard.free id t found (by rw [life]; rfl) free] at none
        cases none
      · exact ⟨.task id, time, more, sleeps, Nat.le_refl _⟩

theorem Attended.passTime (attended : m.Attended) (idle : m.running = none)
    (h : m.passTime = some m') : m'.Attended := by
  obtain ⟨time, -, -, rfl⟩ := passTime_eq h
  intro id t found
  by_cases wakes : .task id ∈ m.wakingTasks time
  · exact .inl (List.mem_append_right _ wakes)
  have later {wake : Nat} (wake? : t.wake? = some wake) : time < wake := by
    refine Nat.not_le.mp fun le => wakes (mem_wakingTasks.mpr ⟨t, wake, found, wake?, le⟩)
  rcases attended id t found with queued | runs | asleep
  · exact .inl (List.mem_append_left _ queued)
  · rw [idle] at runs
    cases runs
  refine .inr (.inr ?_)
  cases asleep with
  | dead ended => exact .dead ended
  | waiting life free ahead =>
    exact .waiting life free (Nat.max_lt.mpr ⟨ahead, later (by rw [PollTask.wake?, life])⟩)
  | held life f rest frames waits =>
    refine .held life f rest frames
      (waits_mono waits ?_ (fun locked => locked) fun _ _ live => live)
    rintro wake rfl
    have wake? : t.wake? = some wake := by
      rw [PollTask.wake?, life]
      exact wake?_eq_some.mpr ⟨rest, frames⟩
    exact Nat.max_lt.mpr ⟨lt_of_waits_sleep waits, later wake?⟩

/-! ### Runs -/

theorem Attended.turn (attended : m.Attended) (running : Option Owner)
    (own : ∀ id t, m.running = some (.task id) → m.tasks[id]? = some t →
      running = some (.task id) ∨ m.Asleep t) : Attended { m with running := running } := by
  intro id t found
  have still (asleep : m.Asleep t) : Asleep { m with running := running } t :=
    asleep.still rfl rfl fun _ _ _ live => live
  rcases attended id t found with queued | runs | asleep
  · exact .inl queued
  · exact .inr ((own id t runs found).imp_right still)
  · exact .inr (.inr (still asleep))

theorem Attended.pause (attended : m.Attended) (tidy : m.Tidy) (running : m.running = some o)
    (waits : ∀ f rest, (m.fiber o).frames = f :: rest → m.waits f = true)
    (left : ∀ id t, o = .task id → m.tasks[id]? = some t → t.fiber.frames ≠ []) :
    m.pause.Attended := by
  refine attended.turn none fun id t runs found => .inr ?_
  obtain rfl := Option.some.inj (running.symm.trans runs)
  cases frames : t.fiber.frames with
  | nil => exact absurd frames (left id t rfl found)
  | cons f rest =>
    exact .held (tidy.busy runs found) f rest frames (waits f rest (by rw [fiber_task id found, frames]))

theorem Attended.tick (attended : m.Attended) (guard : m.Guarded)
    (running : m.running = some (.task id)) (found : m.tasks[id]? = some t)
    (live : t.life.isLive = true) (empty : t.fiber.frames = []) : (nextTick s m id t).Attended := by
  have tended : Tended s m (nextTick s m id t) := nextTick_tended found live empty
  obtain ⟨clock, queue, others⟩ := nextTick_only s m id t
  intro j u' found'
  by_cases own : j = id
  · subst own
    exact .inr (nextTick_own found found')
  rw [others j own] at found'
  rcases attended j u' found' with queued | runs | asleep
  · exact .inl (queue ▸ queued)
  · rw [running] at runs
    exact absurd (Owner.task.inj (Option.some.inj runs)).symm own
  · exact .inr (.inr (asleep.tended tended guard found' clock))

theorem Attended.reached {past : List Machine} (run : Run s past m) : m.Attended := by
  induction run with
  | new slots hooks => simp [Attended, Machine.new]
  | @issue past m operation run idle _ ih =>
    intro id t found
    rcases ih id t found with queued | runs | asleep
    · exact .inl queued
    · rw [idle] at runs
      cases runs
    · exact .inr (.inr (asleep.still rfl rfl fun _ _ _ live => live))
  | step run made ih =>
    have tidy := Tidy.reached run
    have guard := Guarded.reached run
    cases step_move made with
    | execute running frames waits => exact ih.execute guard running frames waits
    | pause running waits left => exact ih.pause tidy running waits left
    | @tick id t running found empty =>
      exact ih.tick guard running found (by rw [tidy.busy running found]; rfl) empty
    | job idle queue => exact ih.job tidy guard idle queue
    | resume idle queue frames waits => exact ih.turn _ (by simp [idle])
    | passTime idle queue frames waits h => exact ih.passTime idle h

theorem unpaced_runTask (zero : s.intervalNanos = 0)
    (before : ∀ t, m.tasks[id]? = some t → t.Unpaced)
    (found' : (runTask s m id).tasks[id]? = some t') : t'.Unpaced := by
  unfold runTask at found'
  split at found'
  · exact before t' found'
  · rename_i t found
    split at found'
    · rw [beginTask, if_pos zero] at found'
      obtain rfl := Option.some.inj ((updateTask_self _ found).symm.trans found')
      exact ⟨by simp, by simp⟩
    · rename_i life
      exact absurd life (before t found).1
    · exact before t' found'
    · exact before t' found'
    · exact before t' found'

theorem unpaced_of_zero {past : List Machine} (zero : s.intervalNanos = 0) (run : Run s past m)
    (found : m.tasks[id]? = some t) : t.Unpaced := by
  induction run generalizing id t with
  | new slots hooks => simp [Machine.new] at found
  | issue operation run idle _ ih => exact ih found
  | @step past m m' run made ih =>
    cases step_move made with
    | execute running frames waits =>
      cases execute_kept found with
      | old u before life => exact ⟨life ▸ (ih before).1, life ▸ (ih before).2⟩
      | new starts dead last life => exact ⟨by simp [life], by simp [life]⟩
    | pause | resume => exact ih found
    | @tick k u running found' empty =>
      obtain ⟨v, again, busy⟩ := (Tidy.reached run).running k running
      exact absurd busy (ih again).2
    | @job j r idle queue =>
      cases j with
      | capture number sessionId completed =>
        obtain ⟨-, -, others⟩ :=
          runCapture_only s { m with queue := r } number sessionId completed (id + 1)
        rw [runJob, others id (by omega)] at found
        exact ih found
      | task k =>
        by_cases own : id = k
        · subst own
          exact unpaced_runTask (m := { m with queue := r }) zero (fun u => ih) found
        · obtain ⟨-, -, others⟩ := runTask_only s { m with queue := r } k
          rw [runJob, others id own] at found
          exact ih found
    | passTime idle queue frames waits h =>
      obtain ⟨time, -, -, rfl⟩ := passTime_eq h
      exact ih found

end Machine
end Reclaimer
end NodeFleet
