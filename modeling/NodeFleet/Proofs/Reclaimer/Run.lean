import NodeFleet.Reclaimer.Session

set_option autoImplicit false
namespace NodeFleet
namespace Reclaimer

/-- A run has come to a machine by way of others, the latest of them first. -/
inductive Run (s : Setup) : List Machine → Machine → Prop
  | new (slots : List SlotSession) (hooks : List Hook) : Run s [] (.new slots hooks)
  | issue {past : List Machine} {m : Machine} (operation : Operation) : Run s past m →
      m.running = none → m.caller.frames = [] → Run s (m :: past) (m.issue operation)
  | step {past : List Machine} {m m' : Machine} : Run s past m → m.step s = some m' →
      Run s (m :: past) m'

def Reachable (s : Setup) (m : Machine) : Prop := ∃ past, Run s past m

namespace Reachable
variable {s : Setup} {m m' : Machine}

theorem new (slots : List SlotSession) (hooks : List Hook) : Reachable s (.new slots hooks) :=
  ⟨[], .new slots hooks⟩

theorem issue (operation : Operation) (h : Reachable s m) (idle : m.running = none)
    (settled : m.caller.frames = []) : Reachable s (m.issue operation) := by
  obtain ⟨past, run⟩ := h
  exact ⟨m :: past, run.issue operation idle settled⟩

theorem step (h : Reachable s m) (hs : m.step s = some m') : Reachable s m' := by
  obtain ⟨past, run⟩ := h
  exact ⟨m :: past, run.step hs⟩

theorem run (h : Reachable s m) (limit : Nat) : Reachable s (Machine.run s limit m) := by
  induction limit generalizing m with
  | zero => exact h
  | succ limit ih =>
    rw [Machine.run]
    split
    · exact h
    · rename_i m' hs
      exact ih (h.step hs)

theorem operate (operation : Operation) (h : Reachable s m) (idle : m.running = none)
    (settled : m.caller.frames = []) : Reachable s (m.operate s operation) :=
  (h.issue operation idle settled).run _

end Reachable

inductive Follows (s : Setup) (m : Machine) : Machine → Prop
  | issue (operation : Operation) (idle : m.running = none) (settled : m.caller.frames = []) :
      Follows s m (m.issue operation)
  | step {m' : Machine} (made : m.step s = some m') : Follows s m m'

theorem Run.follows {s : Setup} {past : List Machine} {y m : Machine} (run : Run s (y :: past) m) :
    Run s past y ∧ Follows s y m := by
  cases run with
  | issue operation run idle settled => exact ⟨run, .issue operation idle settled⟩
  | step run made => exact ⟨run, .step made⟩

theorem Follows.run {s : Setup} {past : List Machine} {y m : Machine} (follows : Follows s y m)
    (run : Run s past y) : Run s (y :: past) m := by
  cases follows with
  | issue operation idle settled => exact run.issue operation idle settled
  | step made => exact run.step made

/-- What holds at one point of a run and is kept from there on holds at its end. -/
theorem Run.carry {s : Setup} {newer older : List Machine} {x m : Machine} {P : Machine → Prop}
    (run : Run s (newer ++ x :: older) m) (first : Run s older x → P x)
    (kept : ∀ past y y', Run s past y → y = x ∨ y ∈ newer → Follows s y y' → P y → P y') :
    P m := by
  induction newer generalizing m with
  | nil =>
    obtain ⟨run, follows⟩ := run.follows
    exact kept older x m run (.inl rfl) follows (first run)
  | cons y newer ih =>
    obtain ⟨run, follows⟩ := run.follows
    have before : P y :=
      ih run fun past z z' run mem => kept past z z' run (mem.imp_right (.tail y))
    exact kept _ y m run (.inr List.mem_cons_self) follows before

theorem Run.earlier {s : Setup} {newer older : List Machine} {x m : Machine}
    (run : Run s (newer ++ x :: older) m) : Run s older x :=
  run.carry (P := fun _ => Run s older x) id fun _ _ _ _ _ _ earlier => earlier

def Setup.plain : Setup where
  proxy := "proxy"
  threshold := .ofSecs 90
  interval := .ofSecs 5
  removeOnRelease := false
  capture := fun _ => .succeeds
  now := ⟨0, 0⟩

def plainSlot (name : String) (idleSecs : Nat) : SlotSession :=
  ⟨name, name, .ofSecs idleSecs, ⟨0, 0⟩, []⟩

def trail (s : Setup) : Nat → List Machine → Machine → List Machine × Machine
  | 0, past, m => (past, m)
  | limit + 1, past, m =>
    match m.step s with
    | none => (past, m)
    | some m' => trail s limit (m :: past) m'

def andThen (s : Setup) (r : List Machine × Machine) (operation : Operation) :
    List Machine × Machine :=
  trail s 16 (r.2 :: r.1) (r.2.issue operation)

theorem Run.trail {s : Setup} {past : List Machine} {m : Machine} (run : Run s past m)
    (limit : Nat) : Run s (trail s limit past m).1 (trail s limit past m).2 := by
  induction limit generalizing past m with
  | zero => exact run
  | succ limit ih =>
    rw [Reclaimer.trail]
    split
    · exact run
    · rename_i m' hs
      exact ih (run.step hs)

theorem Run.andThen {s : Setup} {r : List Machine × Machine} (run : Run s r.1 r.2)
    (operation : Operation) (idle : r.2.running = none) (settled : r.2.isSettled = true) :
    Run s (andThen s r operation).1 (andThen s r operation).2 :=
  (run.issue operation idle (List.isEmpty_iff.mp settled)).trail 16

namespace Machine

/-- What a step does: something that runs goes on or waits, or the next to run is found. -/
inductive Move (s : Setup) (m : Machine) : Machine → Prop
  | execute {o : Owner} {f : Frame} {rest : List Frame} : m.running = some o →
      (m.fiber o).frames = f :: rest → m.waits f = false → Move s m (execute s m o rest f)
  | pause {o : Owner} : m.running = some o →
      (∀ f rest, (m.fiber o).frames = f :: rest → m.waits f = true) →
      (∀ id t, o = .task id → m.tasks[id]? = some t → t.fiber.frames ≠ []) → Move s m m.pause
  | tick {id : Nat} {t : PollTask} : m.running = some (.task id) → m.tasks[id]? = some t →
      t.fiber.frames = [] → Move s m (nextTick s m id t)
  | job {j : Job} {r : List Job} : m.running = none → m.queue = j :: r →
      Move s m (runJob s { m with queue := r } j)
  | resume {f : Frame} {rest : List Frame} : m.running = none → m.queue = [] →
      m.caller.frames = f :: rest → m.waits f = false → Move s m { m with running := some .caller }
  | passTime {f : Frame} {rest : List Frame} {m' : Machine} : m.running = none → m.queue = [] →
      m.caller.frames = f :: rest → m.waits f = true → m.passTime = some m' → Move s m m'

variable {s : Setup} {m m' : Machine}

theorem fiber_task (id : Nat) {t : PollTask} (h : m.tasks[id]? = some t) :
    m.fiber (.task id) = t.fiber := by
  simp [fiber, h]

theorem fiber_of_no_task {id : Nat} (h : m.tasks[id]? = none) : m.fiber (.task id) = .idle := by
  simp [fiber, h]

theorem new_frames (slots : List SlotSession) (hooks : List Hook) (o : Owner) :
    ((new slots hooks).fiber o).frames = [] := by
  cases o <;> rfl

theorem issue_fiber_of_ne (operation : Operation) {o : Owner} (h : o ≠ .caller) :
    (m.issue operation).fiber o = m.fiber o := by
  cases o with
  | caller => exact absurd rfl h
  | task id => rfl

theorem stepOf_move {o : Owner} (hr : m.running = some o) : Move s m (stepOf s m o) := by
  unfold stepOf
  cases hf : (m.fiber o).frames with
  | cons f rest =>
    dsimp only
    by_cases hw : m.waits f = true
    · rw [if_pos hw]
      refine .pause hr (fun g rest' hg => ?_) fun id t ho ht => ?_
      · rw [hf] at hg
        obtain ⟨rfl, rfl⟩ := List.cons.inj hg
        exact hw
      · subst ho
        rw [← fiber_task id ht, hf]
        exact List.cons_ne_nil f rest
    · rw [if_neg hw]
      exact .execute hr hf (by simpa using hw)
  | nil =>
    cases o with
    | caller => exact .pause hr (by simp [hf]) (by simp)
    | task id =>
      dsimp only
      cases ht : m.tasks[id]? with
      | none =>
        refine .pause hr (by simp [hf]) fun j t hj found => ?_
        obtain rfl := Owner.task.inj hj
        rw [ht] at found
        cases found
      | some t => exact .tick hr ht (by rw [← fiber_task id ht, hf])

theorem schedule_move (hr : m.running = none) (h : schedule s m = some m') : Move s m m' := by
  unfold schedule at h
  cases hq : m.queue with
  | cons j r =>
    rw [hq] at h
    obtain rfl := Option.some.inj h
    exact .job hr hq
  | nil =>
    rw [hq] at h
    dsimp only at h
    cases hf : m.caller.frames with
    | nil =>
      rw [hf] at h
      cases h
    | cons f rest =>
      rw [hf] at h
      dsimp only at h
      split at h
      · rename_i hw
        exact .passTime hr hq hf hw h
      · rename_i hw
        obtain rfl := Option.some.inj h
        have hm : Move s m { m with running := some .caller } :=
          .resume hr hq hf (Bool.eq_false_iff.mpr hw)
        rwa [hq] at hm

theorem step_move (h : m.step s = some m') : Move s m m' := by
  unfold step at h
  cases hr : m.running with
  | some o =>
    rw [hr] at h
    obtain rfl := Option.some.inj h
    exact stepOf_move hr
  | none =>
    rw [hr] at h
    exact schedule_move hr h

theorem step_of_ready {o : Owner} {f : Frame} {rest : List Frame} (running : m.running = some o)
    (frames : (m.fiber o).frames = f :: rest) (waits : m.waits f = false) :
    m.step s = some (execute s m o rest f) := by
  simp [step, running, stepOf, frames, waits]

end Machine
end Reclaimer
end NodeFleet
