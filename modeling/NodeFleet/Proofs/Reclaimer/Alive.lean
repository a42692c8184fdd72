import NodeFleet.Proofs.Reclaimer.Guard

set_option autoImplicit false
namespace NodeFleet
namespace Reclaimer
namespace Machine

/-- No poll task has failed, and the current one goes on. -/
structure Lively (m : Machine) : Prop where
  unfailed : ∀ (id : Nat) (t : PollTask), m.tasks[id]? = some t → t.life ≠ .failed
  current : ∀ id, m.current = some id → ∃ t, m.tasks[id]? = some t ∧
    t.life.isLive = true ∧ t.cancelled = false

variable {s : Setup} {m m' : Machine} {o : Owner} {f : Frame} {rest : List Frame}

theorem currentAfter_eq_some {id : Nat} (h : m.currentAfter f = some id) :
    f = .perform .start ∧ m.polls = false ∧ id = m.tasks.length ∨
      f ≠ .perform .stop ∧ m.current = some id := by
  unfold currentAfter at h
  split at h
  · split at h
    · exact .inr ⟨by simp, h⟩
    · rename_i dead
      exact .inl ⟨rfl, by simpa using dead, (Option.some.inj h).symm⟩
  · cases h
  · rename_i stop
    exact .inr ⟨stop, h⟩

theorem Lively.execute (lively : m.Lively) : (execute s m o rest f).Lively := by
  constructor
  · intro id t' found
    cases execute_kept found with
    | old t before life => exact life ▸ lively.unfailed id t before
    | new starts dead last life =>
      rw [life]
      decide
  · intro id current
    rw [execute_current] at current
    rcases currentAfter_eq_some current with ⟨rfl, dead, rfl⟩ | ⟨goesOn, same⟩
    · obtain ⟨fiber, get⟩ := execute_get s m o rest (.perform .start) m.tasks.length
      have added : (m.tasksAfter (.perform .start))[m.tasks.length]? = some .new := by
        simp [tasksAfter, dead]
      rw [get, added]
      refine ⟨_, rfl, ?_⟩
      split <;> exact ⟨rfl, rfl⟩
    · obtain ⟨t, before, alive, free⟩ := lively.current id same
      obtain ⟨t', found, life⟩ := execute_life s o f rest before
      refine ⟨t', found, by rwa [life], ?_⟩
      cases execute_kept found with
      | new starts dead last life told => exact told
      | old u again life fiber told =>
        obtain rfl := Option.some.inj (before.symm.trans again)
        rcases told with ⟨-, told⟩ | ⟨stops, -⟩
        · exact told.trans free
        · exact absurd stops goesOn

theorem Lively.tended (interval : s.intervalNanos ≠ 0) (lively : m.Lively) (h : Tended s m m') :
    m'.Lively := by
  cases h.task with
  | none same samePhase running =>
    constructor
    · rw [same]
      exact lively.unfailed
    · rw [same, h.current]
      exact lively.current
  | one id t t' found live empty told others turn =>
    constructor
    · intro j u after
      rw [others] at after
      split at after
      · obtain rfl := Option.some.inj after
        cases turn with
        | ended told life frames => simp [life]
        | polls life frames => simp [life]
        | waits life frames => simp [life]
        | failed zero life frames => exact absurd zero interval
      · exact lively.unfailed j u after
    · intro j current
      rw [h.current] at current
      obtain ⟨u, before, alive, free⟩ := lively.current j current
      rw [others]
      split
      · rename_i same
        subst same
        obtain rfl := Option.some.inj (found.symm.trans before)
        refine ⟨t', rfl, ?_, told.trans free⟩
        cases turn with
        | ended told' life frames =>
          rw [told, free] at told'
          cases told'
        | polls life frames => rw [life]; rfl
        | waits life frames => rw [life]; rfl
        | failed zero life frames => exact absurd zero interval
      · exact ⟨u, before, alive, free⟩

theorem Lively.reached {past : List Machine} (interval : s.intervalNanos ≠ 0) (run : Run s past m) :
    m.Lively := by
  induction run with
  | new slots hooks => exact ⟨by simp [Machine.new], by simp [Machine.new]⟩
  | issue operation _ _ _ ih => exact ⟨ih.unfailed, ih.current⟩
  | step run made ih =>
    obtain ⟨o, f, rest, -, -, -, rfl⟩ | ⟨-, tended⟩ := step_cases (Tidy.reached run) made
    · exact ih.execute
    · exact ih.tended interval tended

theorem Lively.starts {past : List Machine} (interval : s.intervalNanos ≠ 0) (run : Run s past m)
    (running : m.running = some o) (frames : (m.fiber o).frames = .perform .start :: rest)
    (free : m.locked = false) :
    ∃ m' id, m.step s = some m' ∧ m'.current = some id ∧ m'.isLive id = true := by
  have lively : m.Lively := Lively.reached interval run
  have made : m.step s = some (Machine.execute s m o rest (.perform .start)) := by
    simp [step, running, stepOf, frames, waits, free]
  have polls : ∃ id, m.currentAfter (.perform .start) = some id := by
    rw [currentAfter]
    cases alive : m.polls with
    | false => exact ⟨m.tasks.length, rfl⟩
    | true =>
      cases current : m.current with
      | none => simp [Machine.polls, current] at alive
      | some id => exact ⟨id, rfl⟩
  obtain ⟨id, current⟩ := polls
  have after : (Machine.execute s m o rest (.perform .start)).current = some id :=
    execute_current.trans current
  obtain ⟨t, found, alive, -⟩ := lively.execute.current id after
  exact ⟨_, id, made, after, (isLive_eq found).trans alive⟩

end Machine
end Reclaimer
end NodeFleet
