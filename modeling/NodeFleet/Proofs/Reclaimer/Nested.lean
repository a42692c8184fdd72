import NodeFleet.Proofs.Reclaimer.Settling
/-!
Operations that are issued inside a release. They wait for nothing but time, except that starting
and stopping wait for the lock, and stopping for the poll task to end. In a pass of the caller these
waits come to an end unless the poll task is stuck itself. In a pass of the poll task they never do:
a stop there waits for the end of the task that waits for this stop to return.
-/

set_option autoImplicit false
namespace NodeFleet
namespace Reclaimer

def Frame.isOperation : Frame → Bool
  | .perform _ => true
  | .sleep _ => true
  | .awaitEnd _ => true
  | _ => false

/-- Operations come first, and inside a release. -/
structure Seated (frames : List Frame) : Prop where
  first : ∀ f ∈ frames.tail, f.isOperation = false
  inside : ∀ f rest, frames = f :: rest → f.isOperation = true → ∃ more, rest = .hookEnd :: more

theorem Seated.of_plain {frames : List Frame} (plain : ∀ f ∈ frames, f.isOperation = false) :
    Seated frames := by
  refine ⟨fun f mem => plain f (List.mem_of_mem_tail mem), ?_⟩
  rintro f rest rfl operation
  rw [plain f List.mem_cons_self] at operation
  cases operation

theorem Seated.of_operation {f : Frame} {more : List Frame}
    (plain : ∀ g ∈ more, g.isOperation = false) : Seated (f :: .hookEnd :: more) := by
  refine ⟨?_, ?_⟩
  · intro g mem
    rcases List.mem_cons.mp mem with rfl | mem
    · rfl
    · exact plain g mem
  · rintro g rest same -
    exact ⟨more, (List.cons.inj same).2.symm⟩

namespace Machine
variable {s : Setup} {m m' : Machine} {o : Owner} {f : Frame} {rest base top : List Frame}
  {id : Nat} {past newer : List Machine}

/-! ### Operations in releases -/

theorem seated_execute (seated : Seated (f :: rest)) : Seated (m.pushed s f ++ rest) := by
  have plain : ∀ g ∈ rest, g.isOperation = false := seated.first
  have under (operation : f.isOperation = true) (g : Frame) : Seated (g :: rest) := by
    obtain ⟨more, rfl⟩ := seated.inside f rest rfl operation
    exact .of_operation fun g mem => plain g (.tail _ mem)
  have above (more : List Frame) (others : ∀ g ∈ more, g.isOperation = false) :
      Seated (more ++ rest) :=
    .of_plain fun g mem => (List.mem_append.mp mem).elim (others g) (plain g)
  cases f with
  | perform operation =>
    cases operation with
    | stop =>
      simp only [pushed]
      split
      · exact above [] (by simp)
      · exact under rfl _
    | advance ms =>
      simp only [pushed]
      split
      · exact above [] (by simp)
      · exact under rfl _
    | setSlots | reclaim | complete | start | phase =>
      exact above _ (by simp [pushed, Frame.isOperation])
  | poll =>
    simp only [pushed]
    split
    · exact above [] (by simp)
    · exact above [_] (by simp [Frame.isOperation])
  | releases pass left previous count =>
    cases left with
    | nil => exact above [] (by simp)
    | cons slot left =>
      simp only [pushed]
      split
      · exact above [_, _] (by simp [Frame.isOperation])
      · refine .of_operation fun g mem => ?_
        simp only [List.append_eq, List.mem_cons, List.nil_append, List.cons_append] at mem
        rcases mem with rfl | rfl | mem
        · rfl
        · rfl
        · exact plain g mem
  | sleep | awaitEnd | hookEnd | capture => exact above [] (by simp)

theorem Seated.reached (run : Run s past m) (id : Nat) : Seated (m.fiber (.task id)).frames := by
  induction run with
  | new slots hooks =>
    rw [new_frames]
    exact .of_plain (by simp)
  | issue operation _ _ _ ih => exact ih
  | step run made ih =>
    obtain ⟨o, f, rest, -, frames, -, rfl⟩ | ⟨-, tended⟩ := step_cases (Tidy.reached run) made
    · by_cases own : o = .task id
      · subst own
        rw [execute_frames frames]
        rw [frames] at ih
        exact seated_execute ih
      · rw [execute_fiber_of_ne (Ne.symm own)]
        exact ih
    · rcases tended.frames (.task id) with same | ⟨-, polls⟩
      · rw [same]
        exact ih
      · rw [polls]
        exact .of_plain (by simp [Frame.isOperation])

theorem Stuck.inside (stuck : m.Stuck (.task id) f rest id) (run : Run s past m) :
    ∃ more, rest = .hookEnd :: more := by
  refine (Seated.reached run id).inside f rest stuck.frames ?_
  rcases stuck.blocks with (rfl | rfl) | rfl <;> rfl

/-! ### In the background -/

theorem stuck_of_waits (run : Run s past m) (frames : (m.fiber (.task id)).frames = f :: rest)
    (waits : m.waits f = true) (awake : ∀ wake, f ≠ .sleep wake) :
    m.Stuck (.task id) f rest id := by
  have guard := Guarded.reached run
  have tidy := Tidy.reached run
  have head : (m.fiber (.task id)).frames.head? = some f := by rw [frames]; rfl
  have live : m.isLive id = true := tidy.live_of_head head
  rcases waits_for waits with ⟨wake, sleeps⟩ | needs | ⟨k, rfl⟩
  · exact absurd sleeps (awake wake)
  · have locked : m.locked = true := waits_of_needsLock needs ▸ waits
    exact ⟨frames, .inl needs, jammed_of_needsLock run head needs live locked⟩
  · obtain rfl := guard.live_unique live waits
    exact ⟨frames, .inr rfl, jammed_of_awaits tidy guard head⟩

/-- A stop in a pass of the poll task, and what becomes of it. -/
inductive StopsItself (m : Machine) (id : Nat) (rest : List Frame) : Prop
  | issued (frames : (m.fiber (.task id)).frames = .perform .stop :: rest)
  | awaits (stuck : m.Stuck (.task id) (.awaitEnd id) rest id)

theorem StopsItself.follows (stops : m.StopsItself id rest) (run : Run s past m)
    (follows : Follows s m m') : m'.StopsItself id rest := by
  cases stops with
  | awaits stuck => exact .awaits (stuck.follows run follows)
  | issued frames =>
    cases follows with
    | issue operation idle settled => exact .issued frames
    | step made =>
      have guard := Guarded.reached run
      have tidy := Tidy.reached run
      obtain ⟨o, f, rest', -, frames', waits, rfl⟩ | ⟨-, tended⟩ := step_cases tidy made
      · by_cases own : o = .task id
        · subst own
          obtain ⟨rfl, rfl⟩ := List.cons.inj (frames'.symm.trans frames)
          -- with the lock free the task that stopping would end is this one
          have live : m.isLive id = true := tidy.live_of_head (by rw [frames]; rfl)
          have current : m.current = some id :=
            (guard.current_or_awaited live).resolve_right fun ⟨o, other⟩ => by
              rw [Machine.waits, (guard.holder o id other).1] at waits
              cases waits
          have after : ((execute s m (.task id) rest' (.perform .stop)).fiber (.task id)).frames =
              .awaitEnd id :: rest' := by
            rw [execute_frames frames, pushed, current]
            rfl
          have awaits : (execute s m (.task id) rest' (.perform .stop)).Awaits (.task id) id := by
            rw [Awaits, after]
            rfl
          exact .awaits ⟨after, .inr rfl,
            jammed_of_awaits (tidy.step made) (Guarded.reached (run.step made)) awaits⟩
        · exact .issued (by rw [execute_fiber_of_ne (Ne.symm own), frames])
      · exact .issued (by rw [(tended.frames _).resolve_right (by simp [frames]), frames])

theorem StopsItself.exists_frame (stops : m.StopsItself id rest) :
    ∃ g, (m.fiber (.task id)).frames = g :: rest := by
  cases stops with
  | issued frames => exact ⟨_, frames⟩
  | awaits stuck => exact ⟨_, stuck.frames⟩

/-! ### In the foreground -/

theorem stuck_of_live (run : Run s past m) (idle : m.running = none) (queue : m.queue = [])
    (asleep : m.wakeTimes = []) (live : m.isLive id = true) :
    ∃ g more, m.Stuck (.task id) g more id := by
  obtain ⟨t, found, alive⟩ := exists_of_isLive live
  have never {wake : Nat} (wakes : t.wake? = some wake) : False := by
    have mem : wake ∈ m.wakeTimes := mem_wakeTimes.mpr (.inr ⟨id, t, found, wakes⟩)
    rw [asleep] at mem
    cases mem
  rcases Attended.reached run id t found with queued | runs | sleeps
  · rw [queue] at queued
    cases queued
  · rw [idle] at runs
    cases runs
  cases sleeps with
  | dead ended =>
    rw [alive] at ended
    cases ended
  | waiting life free later => exact (never (by rw [PollTask.wake?, life])).elim
  | held life g more frames waits =>
    refine ⟨g, more, stuck_of_waits run (by rw [fiber_task id found, frames]) waits ?_⟩
    rintro wake rfl
    have wakes : t.wake? = some wake := by
      rw [PollTask.wake?, life]
      exact wake?_eq_some.mpr ⟨more, frames⟩
    exact never wakes

theorem stuck_of_settled (run : Run s past m) (settled : m.step s = none)
    (frames : m.caller.frames = f :: rest) : ∃ id g more, m.Stuck (.task id) g more id := by
  obtain ⟨idle, queue, left⟩ := rests_of_settled settled
  obtain ⟨waits, asleep⟩ := left f rest frames
  suffices ∃ id, m.isLive id = true by
    obtain ⟨id, live⟩ := this
    exact ⟨id, stuck_of_live run idle queue asleep live⟩
  rcases waits_for waits with ⟨wake, rfl⟩ | needs | ⟨k, rfl⟩
  · have mem : wake ∈ m.wakeTimes := mem_wakeTimes.mpr (.inl (wake?_eq_some.mpr ⟨rest, frames⟩))
    rw [asleep] at mem
    cases mem
  · obtain ⟨o, k, awaits⟩ := Held.reached run (waits_of_needsLock needs ▸ waits)
    cases o with
    | task id => exact ⟨id, (Tidy.reached run).live_of_head awaits⟩
    | caller =>
      rw [Awaits, fiber, frames] at awaits
      obtain rfl := Option.some.inj awaits
      rcases needs with needs | needs <;> cases needs
  · exact ⟨k, waits⟩

theorem run_comes_down (run : Run s past m) (frames : m.caller.frames = top ++ base)
    (limit : Nat) : (∃ limit', (Machine.run s limit' m).caller.frames = base) ∨
      ∃ top', (Machine.run s limit m).caller.frames = top' ++ base := by
  induction limit generalizing past m top with
  | zero => exact .inr ⟨top, frames⟩
  | succ limit ih =>
    cases made : m.step s with
    | none =>
      refine .inr ⟨top, ?_⟩
      rw [Machine.run, made]
      exact frames
    | some m' =>
      cases top with
      | nil => exact .inl ⟨0, frames⟩
      | cons f top =>
        have next : ∃ top', m'.caller.frames = top' ++ base := by
          obtain ⟨o, g, rest, -, frames', -, rfl⟩ | ⟨-, tended⟩ :=
            step_cases (Tidy.reached run) made
          · cases o with
            | task id =>
              have same : (execute s m (.task id) rest g).fiber .caller = m.fiber .caller :=
                execute_fiber_of_ne (by simp)
              exact ⟨f :: top, (congrArg Fiber.frames same).trans frames⟩
            | caller =>
              obtain ⟨rfl, rfl⟩ := List.cons.inj (frames'.symm.trans frames)
              exact ⟨m.pushed s g ++ top,
                (execute_frames frames').trans (List.append_assoc ..).symm⟩
          · exact ⟨f :: top, (congrArg Fiber.frames tended.caller).trans frames⟩
        obtain ⟨top', frames'⟩ := next
        rw [Machine.run, made]
        refine (ih (run.step made) frames').imp_left ?_
        rintro ⟨limit', comes⟩
        exact ⟨limit' + 1, by rw [Machine.run, made]; exact comes⟩

/-- An operation inside a release of the caller comes to its end, or the poll task is stuck inside
one of its own. -/
theorem returns_or_stuck (run : Run s past m)
    (inside : m.caller.frames = f :: .hookEnd :: rest) : ∃ limit,
      (Machine.run s limit m).caller.frames = .hookEnd :: rest ∨
        ∃ id g more, (Machine.run s limit m).Stuck (.task id) g (.hookEnd :: more) id := by
  have reached : Reachable s (Machine.run s m.stepLimit m) := Reachable.run ⟨past, run⟩ _
  have settled : (Machine.run s m.stepLimit m).step s = none :=
    run_settles run (within_horizon m) (Nat.le_refl _)
  have split : m.caller.frames = [f] ++ .hookEnd :: rest := inside
  rcases run_comes_down run split m.stepLimit with ⟨limit, comes⟩ | ⟨top, left⟩
  · exact ⟨limit, .inl comes⟩
  · obtain ⟨past', run'⟩ := reached
    obtain ⟨g, more, frames⟩ :
        ∃ g more, (Machine.run s m.stepLimit m).caller.frames = g :: more := by
      cases top with
      | nil => exact ⟨_, _, left⟩
      | cons g top => exact ⟨_, _, left⟩
    obtain ⟨id, g, more, stuck⟩ := stuck_of_settled run' settled frames
    obtain ⟨under, rfl⟩ := stuck.inside run'
    exact ⟨m.stepLimit, .inr ⟨id, g, under, stuck⟩⟩

/-- Operations that are issued inside a release. Of all that they lead to only starting, stopping and
sleeping ever wait. In a pass of the poll task a stop never returns, and neither does whatever waits
there for anything but time. In a pass of the caller every operation comes to its end, unless one
that was issued inside a release of the poll task is stuck there. -/
theorem operations_inside_releases (run : Run s past m)
    (inside : (m.fiber o).frames = f :: .hookEnd :: rest) :
    (m.waits f = true → (∃ wake, f = .sleep wake) ∨ f = .perform .start ∨ f = .perform .stop ∨
      ∃ id, f = .awaitEnd id) ∧
    (∀ id, o = .task id → f = .perform .stop ∨ m.waits f = true ∧ (∀ wake, f ≠ .sleep wake) →
      ∀ newer m', Run s (newer ++ m :: past) m' →
        ∃ g, (m'.fiber o).frames = g :: .hookEnd :: rest) ∧
    (o = .caller → ∃ limit, (Machine.run s limit m).caller.frames = .hookEnd :: rest ∨
      ∃ id g more, (Machine.run s limit m).Stuck (.task id) g (.hookEnd :: more) id) := by
  refine ⟨fun waits => ?_, ?_, ?_⟩
  · rcases waits_for waits with sleeps | (start | stop) | awaits
    · exact .inl sleeps
    · exact .inr (.inl start)
    · exact .inr (.inr (.inl stop))
    · exact .inr (.inr (.inr awaits))
  · rintro id rfl (rfl | ⟨waits, awake⟩) newer m' later
    · have stops : m'.StopsItself id (.hookEnd :: rest) :=
        later.carry (P := fun y => y.StopsItself id (.hookEnd :: rest)) (fun _ => .issued inside)
          fun _ _ _ run _ follows stops => stops.follows run follows
      exact stops.exists_frame
    · have stuck : m'.Stuck (.task id) f (.hookEnd :: rest) id :=
        later.carry (P := fun y => y.Stuck (.task id) f (.hookEnd :: rest) id)
          (fun run => stuck_of_waits run inside waits awake)
          fun _ _ _ run _ follows stuck => stuck.follows run follows
      exact ⟨f, stuck.frames⟩
  · rintro rfl
    exact returns_or_stuck run inside

def stopInBackground : List Machine × Machine :=
  let before := new [plainSlot "a" 100] [⟨"a", .stop⟩]
  trail .plain 5 [before] (before.issue .start)

def stoppingForever : List Machine × Machine :=
  andThen .plain (trail .plain 16 stopInBackground.1 stopInBackground.2) (.advance 20000)

def stopInForeground : List Machine × Machine :=
  let before := new [plainSlot "a" 100] [⟨"a", .advance 7000⟩, ⟨"b", .stop⟩]
  let started := trail .plain 16 [before] (before.issue .start)
  let listed := andThen .plain started (.setSlots [plainSlot "b" 100])
  trail .plain 4 (listed.2 :: listed.1) (listed.2.issue .reclaim)

theorem operations_inside_releases_stop :
    Run .plain stopInBackground.1 stopInBackground.2 ∧
      Run .plain stoppingForever.1 stoppingForever.2 ∧ stoppingForever.2.clock = 20000 ∧
      (∃ rest, (stopInBackground.2.fiber (.task 0)).frames = .perform .stop :: .hookEnd :: rest ∧
        ∃ g, (stoppingForever.2.fiber (.task 0)).frames = g :: .hookEnd :: rest) ∧
      Run .plain stopInForeground.1 stopInForeground.2 ∧
      ∃ rest limit, stopInForeground.2.caller.frames = .awaitEnd 0 :: .hookEnd :: rest ∧
        ((Machine.run .plain limit stopInForeground.2).caller.frames = .hookEnd :: rest ∨
          ∃ id g more, (Machine.run .plain limit stopInForeground.2).Stuck (.task id) g
            (.hookEnd :: more) id) := by
  have issued : Run .plain stopInBackground.1 stopInBackground.2 :=
    ((Run.new [plainSlot "a" 100] [⟨"a", .stop⟩]).issue .start rfl rfl).trail 5
  have later : Run .plain stoppingForever.1 stoppingForever.2 :=
    (issued.trail 16).andThen (.advance 20000) (by decide +kernel) (by decide +kernel)
  have between : stoppingForever.1 =
      stoppingForever.1.take 7 ++ stopInBackground.2 :: stopInBackground.1 := rfl
  have waits : Run .plain stopInForeground.1 stopInForeground.2 :=
    ((((Run.new [plainSlot "a" 100] [⟨"a", .advance 7000⟩, ⟨"b", .stop⟩]).issue .start rfl
      rfl).trail 16).andThen (.setSlots [plainSlot "b" 100]) (by decide +kernel)
      (by decide +kernel)).issue .reclaim rfl rfl |>.trail 4
  obtain ⟨-, never, -⟩ := operations_inside_releases (o := .task 0) issued rfl
  obtain ⟨-, -, returns⟩ := operations_inside_releases (o := .caller) waits rfl
  obtain ⟨limit, comes⟩ := returns rfl
  exact ⟨issued, later, by decide +kernel, ⟨_, rfl, never 0 rfl (.inl rfl) _ _ (between ▸ later)⟩,
    waits, _, limit, rfl, comes⟩

end Machine
end Reclaimer
end NodeFleet
