import NodeFleet.Proofs.Reclaimer.Lifecycle

set_option autoImplicit false
namespace NodeFleet
namespace Reclaimer
namespace Machine

def Awaits (m : Machine) (o : Owner) (id : Nat) : Prop :=
  (m.fiber o).frames.head? = some (.awaitEnd id)

structure Guarded (m : Machine) : Prop where
  first : ∀ o id, .awaitEnd id ∉ (m.fiber o).frames.tail
  once : ∀ o o' id id', m.Awaits o id → m.Awaits o' id' → o = o'
  holder : ∀ o id, m.Awaits o id → m.locked = true ∧ m.current = none
  told : ∀ (id : Nat) (t : PollTask), m.tasks[id]? = some t → t.life.isLive = true →
    t.cancelled = true → ∃ o, m.Awaits o id
  free : ∀ (id : Nat) (t : PollTask), m.tasks[id]? = some t → t.life.isLive = true →
    t.cancelled = false → m.current = some id

variable {s : Setup} {m m' : Machine} {o o' : Owner} {f : Frame} {rest : List Frame} {id : Nat}

theorem isLive_eq {t : PollTask} (h : m.tasks[id]? = some t) : m.isLive id = t.life.isLive := by
  simp [isLive, h]

theorem awaitEnd_mem_pushed : .awaitEnd id ∈ m.pushed s f ↔
    f = .perform .stop ∧ m.current = some id := by
  unfold pushed
  split
  · simp
  · split <;> simp_all [eq_comm]
  · split <;> simp
  · split <;> simp
  · split <;> simp
  · rename_i stop _ _ _
    simp only [List.not_mem_nil, false_iff]
    exact fun h => stop h.1

theorem Guarded.awaits_execute (guard : m.Guarded) (frames : (m.fiber o).frames = f :: rest) :
    (execute s m o rest f).Awaits o' id ↔
      o' ≠ o ∧ m.Awaits o' id ∨ o' = o ∧ f = .perform .stop ∧ m.current = some id := by
  unfold Awaits
  by_cases ho : o' = o
  · subst ho
    rw [execute_frames frames, ← awaitEnd_mem_pushed (s := s)]
    have old : .awaitEnd id ∉ rest := by
      have := guard.first o' id
      rwa [frames] at this
    constructor
    · intro h
      refine .inr ⟨rfl, ?_⟩
      rcases List.mem_append.mp (List.mem_of_mem_head? h) with h | h
      · exact h
      · exact absurd h old
    · rintro (⟨h, -⟩ | ⟨-, h⟩)
      · exact absurd rfl h
      · obtain ⟨rfl, current⟩ := awaitEnd_mem_pushed.mp h
        simp [pushed, current]
  · rw [execute_fiber_of_ne ho]
    simp [ho]

/-- A frame that stops or ends stopping has its effect on the lock; others leave it alone. -/
theorem lock_kept (stop : f ≠ .perform .stop) (awaited : ∀ id, f ≠ .awaitEnd id) :
    m.lockedAfter f = m.locked := by
  unfold lockedAfter
  split
  · exact absurd rfl stop
  · exact absurd rfl (awaited _)
  · rfl

theorem current_kept (start : f ≠ .perform .start) (stop : f ≠ .perform .stop) :
    m.currentAfter f = m.current := by
  unfold currentAfter
  split
  · exact absurd rfl start
  · exact absurd rfl stop
  · rfl

/-- Starting and stopping wait for the lock, so nobody awaits a task then. -/
theorem Guarded.unlocked (guard : m.Guarded) (waits : m.waits f = false)
    (h : f = .perform .start ∨ f = .perform .stop) : ¬ m.Awaits o' id := by
  intro awaits
  have locked := (guard.holder o' id awaits).1
  rcases h with rfl | rfl
  · simp [Machine.waits, locked] at waits
  · simp [Machine.waits, locked] at waits

theorem Guarded.first_execute (guard : m.Guarded) (frames : (m.fiber o).frames = f :: rest) :
    .awaitEnd id ∉ ((execute s m o rest f).fiber o').frames.tail := by
  intro h
  by_cases ho : o' = o
  · subst ho
    have old : .awaitEnd id ∉ rest := by
      have := guard.first o' id
      rwa [frames] at this
    rw [execute_frames frames] at h
    cases hp : m.pushed s f with
    | nil =>
      rw [hp] at h
      exact old (List.mem_of_mem_tail h)
    | cons g more =>
      rw [hp, List.cons_append, List.tail_cons] at h
      rcases List.mem_append.mp h with h | h
      · have mem : .awaitEnd id ∈ m.pushed s f := by
          rw [hp]
          exact List.mem_cons_of_mem g h
        obtain ⟨rfl, current⟩ := awaitEnd_mem_pushed.mp mem
        simp only [pushed, current, List.cons.injEq, List.nil_eq] at hp
        rw [hp.2] at h
        cases h
      · exact old h
  · rw [execute_fiber_of_ne ho] at h
    exact guard.first o' id h

theorem Guarded.once_execute (guard : m.Guarded) (frames : (m.fiber o).frames = f :: rest)
    (waits : m.waits f = false) {o₁ o₂ : Owner} {id₁ id₂ : Nat}
    (h₁ : (execute s m o rest f).Awaits o₁ id₁) (h₂ : (execute s m o rest f).Awaits o₂ id₂) :
    o₁ = o₂ := by
  rcases (guard.awaits_execute frames).mp h₁ with ⟨-, a₁⟩ | ⟨rfl, rfl, -⟩
  · rcases (guard.awaits_execute frames).mp h₂ with ⟨-, a₂⟩ | ⟨rfl, rfl, -⟩
    · exact guard.once o₁ o₂ id₁ id₂ a₁ a₂
    · exact absurd a₁ (guard.unlocked waits (.inr rfl))
  · rcases (guard.awaits_execute frames).mp h₂ with ⟨-, a₂⟩ | ⟨rfl, -, -⟩
    · exact absurd a₂ (guard.unlocked waits (.inr rfl))
    · rfl

theorem Guarded.holder_execute (guard : m.Guarded) (frames : (m.fiber o).frames = f :: rest)
    (waits : m.waits f = false) (h : (execute s m o rest f).Awaits o' id) :
    (execute s m o rest f).locked = true ∧ (execute s m o rest f).current = none := by
  rw [execute_locked, execute_current]
  rcases (guard.awaits_execute frames).mp h with ⟨ho, a⟩ | ⟨rfl, rfl, current⟩
  · have start : f ≠ .perform .start := fun hf => guard.unlocked waits (.inl hf) a
    have stop : f ≠ .perform .stop := fun hf => guard.unlocked waits (.inr hf) a
    have awaited : ∀ k, f ≠ .awaitEnd k := by
      rintro k rfl
      exact ho (guard.once o' o id k a (by simp [Awaits, frames]))
    rw [lock_kept stop awaited, current_kept start stop]
    exact guard.holder o' id a
  · simp [lockedAfter, currentAfter, current]

theorem Guarded.told_execute (guard : m.Guarded) (frames : (m.fiber o).frames = f :: rest)
    (waits : m.waits f = false) {t' : PollTask} (h : (execute s m o rest f).tasks[id]? = some t')
    (live : t'.life.isLive = true) (told : t'.cancelled = true) :
    ∃ o', (execute s m o rest f).Awaits o' id := by
  cases execute_kept h with
  | new starts dead last life fresh fiber =>
    rw [fresh] at told
    cases told
  | old t found life fiber kept =>
    rcases kept with ⟨-, same⟩ | ⟨rfl, current, -⟩
    · obtain ⟨o', a⟩ := guard.told id t found (by rwa [← life]) (by rwa [← same])
      refine ⟨o', (guard.awaits_execute frames).mpr (.inl ⟨?_, a⟩)⟩
      -- whoever awaits a live task does not go on
      rintro rfl
      obtain rfl : f = .awaitEnd id := by
        simpa [Awaits, frames] using a
      simp [Machine.waits, isLive_eq found, ← life, live] at waits
    · exact ⟨o, (guard.awaits_execute frames).mpr (.inr ⟨rfl, rfl, current⟩)⟩

theorem Guarded.free_execute (guard : m.Guarded) {t' : PollTask}
    (h : (execute s m o rest f).tasks[id]? = some t') (live : t'.life.isLive = true)
    (told : t'.cancelled = false) : (execute s m o rest f).current = some id := by
  rw [execute_current]
  cases execute_kept h with
  | new starts dead last life fresh fiber =>
    subst starts last
    simp [currentAfter, dead]
  | old t found life fiber kept =>
    rcases kept with ⟨kept, same⟩ | ⟨rfl, current, now⟩
    · have current := guard.free id t found (by rwa [← life]) (by rwa [← same])
      have stop : f ≠ .perform .stop := fun hf => kept ⟨hf, current⟩
      by_cases start : f = .perform .start
      · subst start
        have polls : m.polls = true := by
          simp [Machine.polls, current, isLive_eq found, ← life, live]
        simp [currentAfter, polls, current]
      · rwa [current_kept start stop]
    · rw [now] at told
      cases told

theorem Guarded.execute (guard : m.Guarded) (frames : (m.fiber o).frames = f :: rest)
    (waits : m.waits f = false) : (execute s m o rest f).Guarded where
  first _ _ := guard.first_execute frames
  once _ _ _ _ h h' := guard.once_execute frames waits h h'
  holder _ _ h := guard.holder_execute frames waits h
  told _ _ h live told := guard.told_execute frames waits h live told
  free _ _ h live told := guard.free_execute h live told

theorem Tended.awaits (h : Tended s m m') : m'.Awaits o id ↔ m.Awaits o id := by
  unfold Awaits
  rcases h.frames o with same | ⟨before, after⟩
  · rw [same]
  · simp [before, after]

theorem Guarded.tended (guard : m.Guarded) (h : Tended s m m') : m'.Guarded := by
  constructor
  · intro o id mem
    rcases h.frames o with same | ⟨before, after⟩
    · rw [same] at mem
      exact guard.first o id mem
    · simp [after] at mem
  · intro o o' id id' a a'
    exact guard.once o o' id id' (h.awaits.mp a) (h.awaits.mp a')
  · intro o id a
    rw [h.locked, h.current]
    exact guard.holder o id (h.awaits.mp a)
  · intro id t' found' live told
    obtain ⟨t, found, live, told⟩ := h.live_task found' live
    obtain ⟨o, a⟩ := guard.told id t found live (told.trans ‹_›)
    exact ⟨o, h.awaits.mpr a⟩
  · intro id t' found' live told
    rw [h.current]
    obtain ⟨t, found, live, same⟩ := h.live_task found' live
    exact guard.free id t found live (same.trans told)

theorem awaits_issue (operation : Operation) (settled : m.caller.frames = []) :
    (m.issue operation).Awaits o id ↔ m.Awaits o id := by
  by_cases ho : o = .caller
  · subst ho
    simp [Awaits, fiber, issue, settled]
  · rw [Awaits, issue_fiber_of_ne operation ho, Awaits]

theorem Guarded.issue (guard : m.Guarded) (operation : Operation)
    (settled : m.caller.frames = []) : (m.issue operation).Guarded := by
  constructor
  · intro o id mem
    by_cases ho : o = .caller
    · subst ho
      simp [fiber, Machine.issue] at mem
    · rw [issue_fiber_of_ne operation ho] at mem
      exact guard.first o id mem
  · intro o o' id id' a a'
    exact guard.once o o' id id' ((awaits_issue operation settled).mp a)
      ((awaits_issue operation settled).mp a')
  · intro o id a
    exact guard.holder o id ((awaits_issue operation settled).mp a)
  · intro id t found live told
    obtain ⟨o, a⟩ := guard.told id t found live told
    exact ⟨o, (awaits_issue operation settled).mpr a⟩
  · exact guard.free

theorem Guarded.reached {past : List Machine} (run : Run s past m) : m.Guarded := by
  induction run with
  | new slots hooks =>
    constructor
    · simp [new_frames]
    · simp [Awaits, new_frames]
    · simp [Awaits, new_frames]
    · simp [Machine.new]
    · simp [Machine.new]
  | issue operation _ _ settled ih => exact ih.issue operation settled
  | step run hs ih =>
    obtain ⟨o, f, rest, -, frames, waits, rfl⟩ | ⟨-, h⟩ := step_cases (Tidy.reached run) hs
    · exact ih.execute frames waits
    · exact ih.tended h

end Machine
end Reclaimer
end NodeFleet
