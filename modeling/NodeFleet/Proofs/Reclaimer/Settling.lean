import Mathlib.Algebra.Order.BigOperators.Group.List
import Mathlib.Algebra.Order.Ring.Nat
import NodeFleet.Proofs.Reclaimer.Ready
/-!
An operation settles. Every step lowers the cost of what is left to do: a frame costs more than all
that it leads to, a tick costs more than the pass that it begins, and the clock does not move beyond
what is asked for. So within its limit of steps an operation comes to where nothing can go on.
-/

set_option autoImplicit false
namespace NodeFleet
namespace Reclaimer

theorem sum_map_modify {α : Type} (g : α → α) (cost : α → Nat) {items : List α} {i : Nat} {a : α}
    (found : items[i]? = some a) :
    ((items.modify i g).map cost).sum + cost a = (items.map cost).sum + cost (g a) := by
  induction items generalizing i with
  | nil => cases found
  | cons x items ih =>
    cases i with
    | zero =>
      obtain rfl := Option.some.inj found
      simp only [List.modify_zero_cons, List.map_cons, List.sum_cons]
      omega
    | succ i =>
      have rest := ih found
      simp only [List.modify_succ_cons, List.map_cons, List.sum_cons]
      omega

theorem map_modify_of_same {α β : Type} (g : α → α) (view : α → β) (same : ∀ a, view (g a) = view a)
    (items : List α) (i : Nat) : (items.modify i g).map view = items.map view := by
  induction items generalizing i with
  | nil => simp
  | cons x items ih =>
    cases i with
    | zero => simp [same]
    | succ i => simp [ih]

theorem sum_map_countP {α : Type} {less more : α → Nat} {p : α → Bool} {price : Nat}
    {items : List α} (le : ∀ a ∈ items, less a + (if p a then price else 0) ≤ more a) :
    (items.map less).sum + price * items.countP p ≤ (items.map more).sum := by
  induction items with
  | nil => simp
  | cons x items ih =>
    have first := le x List.mem_cons_self
    have rest := ih fun a mem => le a (.tail x mem)
    simp only [List.map_cons, List.sum_cons, List.countP_cons]
    split at first <;> rename_i px
    · simp only [px, if_true, Nat.mul_add]
      omega
    · simp only [px, Bool.false_eq_true, if_false, Nat.add_zero]
      omega

theorem sum_map_slack {α : Type} {less more : α → Nat} {slack : Nat} {items : List α} {a : α}
    (le : ∀ b ∈ items, less b ≤ more b) (mem : a ∈ items) (own : less a + slack ≤ more a) :
    (items.map less).sum + slack ≤ (items.map more).sum := by
  induction items with
  | nil => cases mem
  | cons x items ih =>
    have first := le x List.mem_cons_self
    have others : (items.map less).sum ≤ (items.map more).sum :=
      List.sum_le_sum fun b mem => le b (.tail x mem)
    simp only [List.map_cons, List.sum_cons]
    rcases List.mem_cons.mp mem with rfl | mem
    · omega
    · have rest := ih (fun b mem => le b (.tail x mem)) mem
      omega

namespace Machine
variable {s : Setup} {m m' : Machine} {o : Owner} {f : Frame} {rest : List Frame} {id : Nat}
  {t : PollTask} {h : Horizon} {w : Frame → Nat}

/-! ### Loads -/

theorem sumOf_eq (numbers : List Nat) : sumOf numbers = numbers.sum := rfl

@[simp] theorem total_nil : total w [] = 0 := rfl

@[simp] theorem total_cons (f : Frame) (frames : List Frame) :
    total w (f :: frames) = w f + total w frames := by
  simp [total, sumOf_eq]

@[simp] theorem total_append (frames more : List Frame) :
    total w (frames ++ more) = total w frames + total w more := by
  simp [total, sumOf_eq]

def spawned (s : Setup) (m : Machine) : Frame → List Frame
  | .releases pass (slot :: left) previous count =>
    [.capture pass slot.sessionId, .releases pass left previous count]
  | f => m.pushed s f

theorem takeHook_perm {slotId : String} {hooks left : List Hook} {hook : Hook}
    (taken : takeHook slotId hooks = some (hook, left)) : hooks.Perm (hook :: left) := by
  induction hooks generalizing left with
  | nil => cases taken
  | cons x hooks ih =>
    rw [takeHook] at taken
    split at taken
    · obtain ⟨rfl, rfl⟩ := Prod.mk.inj (Option.some.inj taken)
      exact .refl _
    · obtain ⟨⟨y, more⟩, found, same⟩ := Option.map_eq_some_iff.mp taken
      obtain ⟨rfl, rfl⟩ := Prod.mk.inj same
      exact ((ih found).cons x).trans (.swap y x more)

theorem sum_takeHook (cost : Hook → Nat) (slotId : String) {hooks left : List Hook} {hook : Hook}
    (taken : takeHook slotId hooks = some (hook, left)) :
    (hooks.map cost).sum = cost hook + (left.map cost).sum :=
  ((takeHook_perm taken).map cost).sum_eq

theorem load_updateTask (g : PollTask → PollTask) (found : m.tasks[id]? = some t) :
    (m.updateTask id g).load w + total w t.fiber.frames =
      m.load w + total w (g t).fiber.frames := by
  have tasks := sum_map_modify g (fun t => total w t.fiber.frames) found
  simp only [load, sumOf_eq, updateTask]
  omega

theorem load_setFiber (fb : Fiber) (frames : (m.fiber o).frames ≠ []) :
    (m.setFiber o fb).load w + total w (m.fiber o).frames =
      m.load w + total w fb.frames := by
  cases o with
  | caller =>
    simp only [setFiber, fiber, load, sumOf_eq]
    omega
  | task id =>
    cases found : m.tasks[id]? with
    | none =>
      rw [fiber_of_no_task found] at frames
      exact absurd rfl frames
    | some t =>
      rw [fiber_task id found]
      exact load_updateTask _ found

theorem tasksAfter_frames : ((m.tasksAfter f).map fun t => total w t.fiber.frames).sum =
    (m.tasks.map fun t => total w t.fiber.frames).sum := by
  unfold tasksAfter
  split
  · split
    · rfl
    · simp [PollTask.new, Fiber.idle]
  · split
    · rfl
    · rw [map_modify_of_same]
      exact fun _ => rfl
  · rfl

def hookLoad (w : Frame → Nat) (hooks : List Hook) : Nat :=
  sumOf (hooks.map fun h => total w [.perform h.operation, .hookEnd])

theorem hookLoad_after : hookLoad w (m.hooksAfter f) + total w (m.pushed s f) =
    hookLoad w m.hooks + total w (m.spawned s f) := by
  simp only [hookLoad, sumOf_eq]
  unfold hooksAfter
  split
  · rename_i pass slot left previous count
    cases taken : takeHook slot.slotId m.hooks with
    | none => simp [pushed, spawned, taken]
    | some p =>
      have hooks := sum_takeHook (fun h => total w [.perform h.operation, .hookEnd])
        slot.slotId taken
      simp only [pushed, spawned, taken, Option.map_some, Option.getD_some, hooks]
      simp only [total_cons, total_nil]
      omega
  · rename_i other
    have same : m.spawned s f = m.pushed s f := by
      unfold spawned
      split
      · exact absurd rfl (other _ _ _ _ _)
      · rfl
    rw [same]

theorem hookLoad_after_le : hookLoad w (m.hooksAfter f) ≤ hookLoad w m.hooks := by
  simp only [hookLoad, sumOf_eq]
  unfold hooksAfter
  split
  · rename_i pass slot left previous count
    cases taken : takeHook slot.slotId m.hooks with
    | none => exact Nat.le_refl _
    | some p =>
      have hooks := sum_takeHook (fun h => total w [.perform h.operation, .hookEnd])
        slot.slotId taken
      simp only [Option.map_some, Option.getD_some, hooks]
      omega
  · exact Nat.le_refl _

theorem load_outcome (queue : List Job) :
    (m.outcome s o f queue).load w + total w (m.pushed s f) =
      m.load w + total w (m.spawned s f) := by
  have hooks := hookLoad_after (s := s) (m := m) (f := f) (w := w)
  simp only [hookLoad, sumOf_eq] at hooks
  simp only [load, sumOf_eq, outcome, tasksAfter_frames]
  omega

theorem load_execute (frames : (m.fiber o).frames = f :: rest) :
    (execute s m o rest f).load w + w f =
      m.load w + total w (m.spawned s f) := by
  obtain ⟨queue, reply, made⟩ := execute_eq s m o rest f
  have before := load_outcome (s := s) (m := m) (o := o) (f := f) (w := w) queue
  have own : ((m.outcome s o f queue).fiber o).frames = f :: rest := by rw [outcome_fiber, frames]
  have after := load_setFiber (w := w) (m := m.outcome s o f queue) (o := o)
    ⟨m.pushed s f ++ rest, reply⟩ (by rw [own]; exact List.cons_ne_nil f rest)
  rw [own] at after
  simp only [total_cons, total_append] at after
  rw [made]
  omega

/-! ### The horizon -/

/-- Neither the slots nor the time that is left go beyond the horizon. -/
structure Within (h : Horizon) (m : Machine) : Prop where
  slots : m.slots.length + m.load Frame.slotCount ≤ h.slots
  time : m.clock + m.load (Frame.timeLeft m.clock) ≤ h.ending

theorem within_horizon (m : Machine) : m.Within m.horizon := ⟨Nat.le_refl _, Nat.le_refl _⟩

theorem claimable_length_le : (m.claimable s).length ≤ m.slots.length := claim_sublist.length_le

theorem slotCount_spawned (s : Setup) (m : Machine) (f : Frame) :
    (m.slotsAfter s f).length + total Frame.slotCount (m.spawned s f) ≤
      m.slots.length + Frame.slotCount f := by
  cases f with
  | perform operation =>
    cases operation with
    | setSlots slots => simp [slotsAfter, spawned, pushed, Frame.slotCount, slotCount]
    | stop => cases h : m.current <;> simp [slotsAfter, spawned, pushed, h, Frame.slotCount]
    | advance ms =>
      by_cases h : ms = 0 <;> simp [slotsAfter, spawned, pushed, h, Frame.slotCount]
    | reclaim | complete | start | phase =>
      simp [slotsAfter, spawned, pushed, Frame.slotCount]
  | poll =>
    by_cases h : m.claimable s = [] <;> simp [slotsAfter, spawned, pushed, h, Frame.slotCount]
  | releases pass left previous count =>
    cases left with
    | nil => simp [slotsAfter, spawned, pushed, Frame.slotCount]
    | cons slot left =>
      simp only [slotsAfter, spawned, total_cons, total_nil, Frame.slotCount]
      split
      · exact List.length_filter_le ..
      · exact Nat.le_refl _
  | sleep | awaitEnd | hookEnd | capture => simp [slotsAfter, spawned, pushed, Frame.slotCount]

theorem timeLeft_spawned (s : Setup) (m : Machine) (f : Frame) :
    total (Frame.timeLeft m.clock) (m.spawned s f) ≤ Frame.timeLeft m.clock f := by
  cases f with
  | perform operation =>
    cases operation with
    | advance ms => by_cases h : ms = 0 <;> simp [spawned, pushed, h, Frame.timeLeft, duration]
    | stop => cases h : m.current <;> simp [spawned, pushed, h, Frame.timeLeft]
    | setSlots | reclaim | complete | start | phase => simp [spawned, pushed, Frame.timeLeft]
  | poll => by_cases h : m.claimable s = [] <;> simp [spawned, pushed, h, Frame.timeLeft]
  | releases pass left previous count => cases left <;> simp [spawned, pushed, Frame.timeLeft]
  | sleep | awaitEnd | hookEnd | capture => simp [spawned, pushed, Frame.timeLeft]

theorem Within.execute (within : m.Within h) (frames : (m.fiber o).frames = f :: rest) :
    (execute s m o rest f).Within h := by
  constructor
  · have load := load_execute (s := s) (w := Frame.slotCount) frames
    have spawned := slotCount_spawned s m f
    have before := within.slots
    rw [execute_slots]
    omega
  · have load := load_execute (s := s) (w := Frame.timeLeft m.clock) frames
    have spawned := timeLeft_spawned s m f
    have before := within.time
    rw [execute_clock]
    omega

/-! ### Costs -/

theorem pollingCost_le {clock clock' due due' : Nat} (later : clock ≤ clock') (next : due ≤ due') :
    h.pollingCost clock' due' ≤ h.pollingCost clock due :=
  Nat.add_le_add (Nat.mul_le_mul_left _ (by omega)) (Nat.mul_le_mul_left _ (by omega))

theorem pollingCost_tick (clock : Nat) {due due' : Nat} (passed : due ≤ h.ending * nanosPerMilli)
    (next : due < due') : h.pollingCost clock due' + h.passCost < h.pollingCost clock due := by
  have ticks : h.ending * nanosPerMilli + 1 - due' + 1 ≤ h.ending * nanosPerMilli + 1 - due := by
    omega
  have cost := Nat.mul_le_mul_left (h.passCost + 1) ticks
  rw [Nat.mul_succ] at cost
  simp only [Horizon.pollingCost]
  omega

/-- A frame's cost covers all that follows from it. -/
def Spends (h : Horizon) (s : Setup) (m : Machine) (f : Frame) : Prop :=
  total h.frameCost (m.spawned s f) + ((m.tasksAfter f).map (h.taskCost m.clock)).sum
      + Horizon.jobCost * (m.jobsMade f).length <
    (m.tasks.map (h.taskCost m.clock)).sum + h.frameCost f

theorem operation_spends (within : m.Within h) (s : Setup) (operation : Operation) :
    Spends h s m (.perform operation) := by
  have slots := within.slots
  unfold Spends
  cases operation with
  | complete slot =>
    by_cases known : slot.sessionId ∈ m.terminal <;>
      simp [spawned, pushed, tasksAfter, jobsMade, known, Horizon.frameCost]
  | start =>
    have fresh : h.pollingCost m.clock 0 ≤ h.pollingCost 0 0 :=
      pollingCost_le (Nat.zero_le _) (Nat.le_refl _)
    cases polls : m.polls with
    | true => simp [spawned, pushed, tasksAfter, jobsMade, polls, Horizon.frameCost]
    | false =>
      simp only [spawned, pushed, tasksAfter, jobsMade, polls, Horizon.frameCost,
        Horizon.taskCost, PollTask.new, total_nil, List.map_append, List.sum_append, List.map_cons,
        List.map_nil, List.sum_cons, List.sum_nil, List.length_cons, List.length_nil,
        Bool.false_eq_true, if_false]
      omega
  | stop =>
    cases current : m.current with
    | none => simp [spawned, pushed, tasksAfter, jobsMade, current, Horizon.frameCost]
    | some id =>
      have same : ((m.tasksAfter (.perform .stop)).map (h.taskCost m.clock)) =
          m.tasks.map (h.taskCost m.clock) := by
        simp only [tasksAfter, current]
        rw [map_modify_of_same]
        exact fun _ => rfl
      rw [same]
      by_cases wakes : m.isWaiting id = true ∧ .task id ∉ m.queue
      · simp [spawned, pushed, jobsMade, current, wakes, Horizon.frameCost, Horizon.jobCost]
        omega
      · simp [spawned, pushed, jobsMade, current, wakes, Horizon.frameCost, Horizon.jobCost]
        omega
  | advance ms =>
    by_cases zero : ms = 0
    · simp [spawned, pushed, tasksAfter, jobsMade, zero, Horizon.frameCost]
    · simp [spawned, pushed, tasksAfter, jobsMade, zero, Horizon.frameCost]
      omega
  | reclaim =>
    simp [spawned, pushed, tasksAfter, jobsMade, Horizon.frameCost]
    omega
  | setSlots | phase => simp [spawned, pushed, tasksAfter, jobsMade, Horizon.frameCost]

theorem frame_spends (within : m.Within h) (s : Setup) (f : Frame) : Spends h s m f := by
  have slots := within.slots
  cases f with
  | perform operation => exact operation_spends within s operation
  | poll =>
    have claimed := claimable_length_le (s := s) (m := m)
    by_cases none : m.claimable s = []
    · simp [Spends, spawned, pushed, tasksAfter, jobsMade, none, Horizon.frameCost,
        Horizon.passCost]
    · simp [Spends, spawned, pushed, tasksAfter, jobsMade, none, Horizon.frameCost,
        Horizon.passCost, Horizon.jobCost]
      omega
  | releases pass left previous count =>
    cases left with
    | nil => simp [Spends, spawned, pushed, tasksAfter, jobsMade, Horizon.frameCost]
    | cons slot left =>
      simp [Spends, spawned, tasksAfter, jobsMade, Horizon.frameCost, Horizon.jobCost]
      omega
  | sleep | awaitEnd | hookEnd | capture =>
    simp [Spends, spawned, pushed, tasksAfter, jobsMade, Horizon.frameCost]

theorem tasks_execute_cost : ((execute s m o rest f).tasks.map (h.taskCost m.clock)).sum =
    ((m.tasksAfter f).map (h.taskCost m.clock)).sum := by
  obtain ⟨queue, reply, made⟩ := execute_eq s m o rest f
  rw [made]
  cases o with
  | caller => rfl
  | task id =>
    simp only [setFiber, updateTask, outcome]
    rw [map_modify_of_same]
    exact fun _ => rfl

theorem turnCost_execute (running : m.running = some o) :
    (execute s m o rest f).turnCost = m.turnCost := by
  simp only [turnCost, execute_running, running]
  cases o <;> rfl

theorem cost_execute (within : m.Within h) (running : m.running = some o)
    (frames : (m.fiber o).frames = f :: rest) : (execute s m o rest f).cost h < m.cost h := by
  have load := load_execute (s := s) (w := h.frameCost) frames
  have spends := frame_spends within s f
  unfold Spends at spends
  simp only [cost, sumOf_eq, turnCost_execute running, execute_clock, execute_queue,
    tasks_execute_cost, List.length_append, Nat.mul_add]
  omega

/-! ### Poll tasks -/

theorem turnCost_le (m : Machine) : m.turnCost ≤ 3 := by
  unfold turnCost
  split
  · omega
  · omega
  · split <;> omega

theorem turnCost_idle (idle : m.running = none) : m.turnCost ≤ 2 := by
  rw [turnCost, idle]
  dsimp only
  split <;> omega

def workCost (h : Horizon) (m : Machine) : Nat :=
  m.load h.frameCost + (m.tasks.map (h.taskCost m.clock)).sum

theorem pollingCost_le_taskCost (clock : Nat) (live : t.life.isLive = true) :
    h.pollingCost clock t.due ≤ h.taskCost clock t := by
  unfold Horizon.taskCost
  split
  · exact pollingCost_le (Nat.le_refl _) (Nat.zero_le _)
  · exact Nat.le_refl _
  · exact Nat.le_refl _
  · rename_i life
    rw [life] at live
    cases live
  · rename_i life
    rw [life] at live
    cases live

theorem workCost_updateTask (g : PollTask → PollTask) (saved : Nat)
    (found : m.tasks[id]? = some t) (empty : t.fiber.frames = [])
    (saves : total h.frameCost (g t).fiber.frames + h.taskCost m.clock (g t) + saved ≤
      h.taskCost m.clock t) : (m.updateTask id g).workCost h + saved ≤ m.workCost h := by
  have load := load_updateTask (w := h.frameCost) g found
  have tasks := sum_map_modify g (h.taskCost m.clock) found
  rw [empty, total_nil] at load
  simp only [workCost]
  simp only [updateTask] at load tasks ⊢
  omega

theorem nextDue_later {interval due : Nat} (now : Nat) (positive : interval ≠ 0) :
    due < nextDue interval due now := by
  unfold nextDue
  split <;> omega

theorem nextTick_spends (positive : s.intervalNanos ≠ 0) (time : m.clock ≤ h.ending)
    (found : m.tasks[id]? = some t) (live : t.life.isLive = true) (empty : t.fiber.frames = []) :
    (nextTick s m id t).turnCost + (nextTick s m id t).workCost h ≤ m.workCost h + 2 := by
  have price := pollingCost_le_taskCost (h := h) m.clock live
  unfold nextTick
  split
  · have work := workCost_updateTask (h := h) (fun t => { t with life := .ended }) 0 found empty
      (by simp [empty, Horizon.taskCost])
    exact Nat.le_trans (Nat.add_le_add (turnCost_idle rfl) work) (by omega)
  · split
    · rename_i due
      have passed : t.due ≤ h.ending * nanosPerMilli :=
        Nat.le_trans due (Nat.mul_le_mul_right _ time)
      have pays := pollingCost_tick m.clock passed
        (nextDue_later m.clockNanos positive)
      have work := workCost_updateTask (h := h) (fun t => { t with
          life := .busy
          due := nextDue s.intervalNanos t.due m.clockNanos
          fiber := ⟨[.poll], .done⟩ }) 1 found empty
        (Nat.le_trans (by simp [Horizon.frameCost, Horizon.taskCost]; omega) price)
      exact Nat.le_of_succ_le_succ
        (Nat.le_trans (Nat.add_le_add (turnCost_le _) work) (by omega))
    · have work := workCost_updateTask (h := h) (fun t => { t with life := .waiting }) 0 found empty
        (by simpa [empty, Horizon.taskCost] using price)
      exact Nat.le_trans (Nat.add_le_add (turnCost_idle rfl) work) (by omega)

theorem beginTask_spends (time : m.clock ≤ h.ending) (found : m.tasks[id]? = some t)
    (fresh : t.life = .fresh) (empty : t.fiber.frames = []) :
    (beginTask s m id t).turnCost + (beginTask s m id t).workCost h ≤ m.workCost h + 2 := by
  unfold beginTask
  split
  · have work := workCost_updateTask (h := h) (fun t => { t with life := .failed }) 0 found empty
      (by simp [empty, Horizon.taskCost])
    exact Nat.le_trans (Nat.add_le_add (turnCost_idle rfl) work) (by omega)
  · rename_i positive
    have work :=
      workCost_updateTask (h := h) (fun t => { t with due := m.clockNanos }) 0 found empty
      (by simp [empty, Horizon.taskCost, fresh])
    have spends := nextTick_spends (h := h) (m := m.updateTask id fun t =>
      { t with due := m.clockNanos }) (t := { t with due := m.clockNanos }) positive time
      (updateTask_self _ found) (by rw [fresh]; rfl) empty
    exact Nat.le_trans spends (by omega)

theorem runTask_spends
    (paced : ∀ t, m.tasks[id]? = some t → s.intervalNanos = 0 → t.Unpaced) (tidy : m.Tidy)
    (time : m.clock ≤ h.ending) :
    (runTask s m id).turnCost + (runTask s m id).workCost h ≤ m.workCost h + 3 := by
  have same := turnCost_le m
  unfold runTask
  split
  · omega
  · rename_i t found
    split
    · rename_i life
      have spends := beginTask_spends (s := s) time found life
        (tidy.frames id t found (by simp [life]))
      omega
    · rename_i life
      have spends := nextTick_spends (fun zero => (paced t found zero).1 life) time found
        (by rw [life]; rfl) (tidy.frames id t found (by simp [life]))
      omega
    · exact Nat.le_trans (Nat.add_le_add (turnCost_le _) (Nat.le_refl (m.workCost h))) (by omega)
    · omega
    · omega

/-! ### Time -/

theorem timeLeft_le {clock clock' : Nat} (later : clock ≤ clock') (f : Frame) :
    Frame.timeLeft clock' f ≤ Frame.timeLeft clock f := by
  cases f with
  | sleep wake => exact Nat.sub_le_sub_left later wake
  | perform | awaitEnd | poll | releases | hookEnd | capture => exact Nat.le_refl _

theorem load_slack {less : Frame → Nat} {slack : Nat} (le : ∀ g, less g ≤ w g)
    (mem : f ∈ (m.fiber o).frames) (own : less f + slack ≤ w f) :
    m.load less + slack ≤ m.load w := by
  have frames (fb : Fiber) : total less fb.frames ≤ total w fb.frames :=
    List.sum_le_sum fun g _ => le g
  have hooks : (m.hooks.map fun h => total less [.perform h.operation, .hookEnd]).sum ≤
      (m.hooks.map fun h => total w [.perform h.operation, .hookEnd]).sum :=
    List.sum_le_sum fun h _ => List.sum_le_sum fun g _ => le g
  have tasks : (m.tasks.map fun t => total less t.fiber.frames).sum ≤
      (m.tasks.map fun t => total w t.fiber.frames).sum :=
    List.sum_le_sum fun t _ => frames t.fiber
  have here : total less (m.fiber o).frames + slack ≤ total w (m.fiber o).frames :=
    sum_map_slack (fun g _ => le g) mem own
  cases o with
  | caller =>
    simp only [fiber] at here
    simp only [load, sumOf_eq]
    omega
  | task id =>
    cases found : m.tasks[id]? with
    | none =>
      rw [fiber_of_no_task found] at mem
      cases mem
    | some t =>
      rw [fiber_task id found] at here
      have slacked : (m.tasks.map fun t => total less t.fiber.frames).sum + slack ≤
          (m.tasks.map fun t => total w t.fiber.frames).sum :=
        sum_map_slack (fun t _ => frames t.fiber) (List.mem_of_getElem? found) here
      have caller := frames m.caller
      simp only [load, sumOf_eq]
      omega

def wakesBy (time : Nat) (t : PollTask) : Bool := (t.wake?.map (decide <| · ≤ time)).getD false

theorem wakingTasks_length (time : Nat) :
    (m.wakingTasks time).length = m.tasks.countP (wakesBy time) := by
  have same : (List.range m.tasks.length).map (m.tasks[·]?) = m.tasks.map some := by
    refine List.ext_getElem? fun id => ?_
    by_cases inside : id < m.tasks.length <;> simp [inside]
  have all :=
    congrArg (List.countP fun t : Option PollTask => (t.map (wakesBy time)).getD false) same
  rw [List.countP_map, List.countP_map] at all
  rw [wakingTasks, List.length_map, ← List.countP_eq_length_filter]
  refine Eq.trans (List.countP_congr fun id _ => ?_) all
  cases found : m.tasks[id]? <;> simp [found, wakesBy]

theorem taskCost_passes {clock clock' : Nat} (later : clock < clock') (time : clock' ≤ h.ending)
    (t : PollTask) (first : Nat) :
    h.taskCost clock' t + (if wakesBy first t then Horizon.jobCost else 0) ≤
      h.taskCost clock t := by
  have wakes : (if wakesBy first t then Horizon.jobCost else 0) ≤ Horizon.jobCost := by
    split <;> simp
  have passes (next : Nat) : h.pollingCost clock' next + Horizon.jobCost ≤
      h.pollingCost clock next := by
    have jobs : Horizon.jobCost * (h.ending - clock' + 1) ≤ Horizon.jobCost * (h.ending - clock) :=
      Nat.mul_le_mul_left _ (by omega)
    rw [Nat.mul_succ] at jobs
    simp only [Horizon.pollingCost]
    omega
  unfold Horizon.taskCost
  split
  · exact Nat.le_trans (Nat.add_le_add_left wakes _) (passes 0)
  · exact Nat.le_trans (Nat.add_le_add_left wakes _) (passes t.due)
  · exact Nat.le_trans (Nat.add_le_add_left wakes _) (passes t.due)
  · rename_i life
    simp [wakesBy, PollTask.wake?, life]
  · rename_i life
    simp [wakesBy, PollTask.wake?, life]

theorem cost_passTime (attended : m.Attended) (guard : m.Guarded) (held : m.Held)
    (within : m.Within h) (idle : m.running = none) (queue : m.queue = [])
    (frames : m.caller.frames = f :: rest) (waits : m.waits f = true)
    (passes : m.passTime = some m') : m'.Within h ∧ m'.cost h < m.cost h := by
  obtain ⟨later, o, wake, more, sleeps, before⟩ :=
    passTime_sleeper attended guard held idle queue frames waits passes
  have left : m.load (Frame.timeLeft m'.clock) + (m'.clock - m.clock) ≤
      m.load (Frame.timeLeft m.clock) :=
    load_slack (f := .sleep wake) (timeLeft_le (Nat.le_of_lt later)) (by rw [sleeps]; simp)
      (by simp only [Frame.timeLeft]; omega)
  have time := within.time
  obtain ⟨first, -, -, rfl⟩ := passTime_eq passes
  have ending : max m.clock first ≤ h.ending := by
    simp only at left
    omega
  refine ⟨⟨within.slots, ?_⟩, ?_⟩
  · simp only [load, sumOf_eq] at left time ⊢
    omega
  · have wakes : (m.tasks.map (h.taskCost (max m.clock first))).sum +
        Horizon.jobCost * m.tasks.countP (wakesBy first) ≤ (m.tasks.map (h.taskCost m.clock)).sum :=
      sum_map_countP fun t _ => taskCost_passes later ending t first
    rw [← wakingTasks_length] at wakes
    have turn : turnCost { m with
        clock := max m.clock first
        queue := m.queue ++ m.wakingTasks first
        running := if (m.caller.wake?.map (decide <| · ≤ first)).getD false then some .caller
          else m.running } ≤ 2 := by
      split
      · simp [turnCost]
      · exact turnCost_idle idle
    simp only [cost, load, sumOf_eq, List.length_append, Nat.mul_add] at wakes turn ⊢
    simp only at later
    omega

/-! ### Runs -/

theorem load_tended (free : w .poll = 0) (tended : Tended s m m') :
    m'.load w = m.load w := by
  have tasks : m'.tasks.map (fun t => total w t.fiber.frames) =
      m.tasks.map fun t => total w t.fiber.frames := by
    cases tended.task with
    | none same samePhase running => rw [same]
    | one id t t' found live empty told others turn =>
      have polls : total w t'.fiber.frames = 0 := by
        cases turn with
        | polls life frames same running => simp [frames, free]
        | ended told life frames | waits life frames | failed interval life frames => simp [frames]
      refine List.ext_getElem? fun j => ?_
      rw [List.getElem?_map, List.getElem?_map, others]
      by_cases own : j = id
      · subst own
        simp [found, empty, polls]
      · rw [if_neg own]
  rw [load, load, tended.caller, tended.hooks, tasks]

theorem Within.tended (within : m.Within h) (tended : Tended s m m') (clock : m'.clock = m.clock) :
    m'.Within h := by
  refine ⟨?_, ?_⟩
  · rw [tended.slots, load_tended rfl tended]
    exact within.slots
  · rw [clock, load_tended rfl tended]
    exact within.time

theorem cost_eq (h : Horizon) (m : Machine) : m.cost h =
    m.turnCost + m.workCost h + Horizon.jobCost * m.queue.length + 3 * (h.ending - m.clock) := by
  simp only [cost, sumOf_eq, workCost, Nat.add_assoc]

theorem Within.clock_le (within : m.Within h) : m.clock ≤ h.ending :=
  Nat.le_trans (Nat.le_add_right _ _) within.time

theorem turnCost_pause (running : m.running = some o)
    (waits : ∀ f rest, (m.fiber o).frames = f :: rest → m.waits f = true) :
    m.pause.turnCost < m.turnCost := by
  cases o with
  | task id =>
    have after : m.pause.turnCost ≤ 2 := turnCost_idle rfl
    have before : m.turnCost = 3 := by rw [turnCost, running]
    omega
  | caller =>
    have before : m.turnCost = 1 := by rw [turnCost, running]
    have after : m.pause.turnCost = 0 := by
      cases frames : m.caller.frames with
      | nil => simp [turnCost, pause, frames]
      | cons f rest =>
        have held : m.pause.waits f = true := waits f rest frames
        have caller : m.pause.caller.frames = f :: rest := frames
        simp [turnCost, pause] at caller held ⊢
        simp [caller, held]
    omega

theorem cost_job {past : List Machine} {j : Job} {r : List Job} (run : Run s past m)
    (within : m.Within h) (idle : m.running = none) (queue : m.queue = j :: r) :
    (runJob s { m with queue := r } j).Within h ∧
      (runJob s { m with queue := r } j).cost h < m.cost h := by
  have tidy := Tidy.reached run
  have tended : Tended s m (runJob s { m with queue := r } j) := runJob_tended tidy idle j r
  have paid : Horizon.jobCost * m.queue.length = Horizon.jobCost * r.length + 4 := by
    rw [queue]
    rfl
  cases j with
  | capture number sessionId completed =>
    obtain ⟨clock, left, -⟩ := runCapture_only s { m with queue := r } number sessionId completed 0
    refine ⟨within.tended tended clock, ?_⟩
    have same : workCost h (runCapture s { m with queue := r } number sessionId completed) =
        m.workCost h := by
      unfold runCapture
      split <;> rfl
    have turn := turnCost_le (runCapture s { m with queue := r } number sessionId completed)
    rw [cost_eq, cost_eq, runJob, clock, left, same, paid]
    dsimp only
    omega
  | task id =>
    obtain ⟨clock, left, -⟩ := runTask_only s { m with queue := r } id
    refine ⟨within.tended tended clock, ?_⟩
    have spends : (runTask s { m with queue := r } id).turnCost +
        (runTask s { m with queue := r } id).workCost h ≤ m.workCost h + 3 :=
      runTask_spends (m := { m with queue := r })
        (fun _ found zero => unpaced_of_zero zero run found) ⟨tidy.frames, tidy.running⟩
        within.clock_le
    rw [cost_eq, cost_eq, runJob, clock, left, paid]
    dsimp only
    omega

/-- No step goes beyond the horizon, and each lowers the cost. -/
theorem cost_step {past : List Machine} (run : Run s past m) (within : m.Within h)
    (made : m.step s = some m') : m'.Within h ∧ m'.cost h < m.cost h := by
  cases step_move made with
  -- what a frame leads to is paid for by the frame, and the rest by a turn, a tick or time
  | execute running frames waits =>
    exact ⟨within.execute frames, cost_execute within running frames⟩
  | pause running waits left =>
    refine ⟨⟨within.slots, within.time⟩, ?_⟩
    have turn := turnCost_pause running waits
    rw [cost_eq, cost_eq]
    simp only [workCost, load, sumOf_eq, pause] at turn ⊢
    omega
  | @tick id t running found empty =>
    obtain ⟨u, again, busy⟩ := (Tidy.reached run).running id running
    obtain rfl := Option.some.inj (again.symm.trans found)
    have live : u.life.isLive = true := by rw [busy]; rfl
    obtain ⟨clock, queue, -⟩ := nextTick_only s m id u
    refine ⟨within.tended (nextTick_tended found live empty) clock, ?_⟩
    have spends := nextTick_spends (fun zero => (unpaced_of_zero zero run found).2 busy)
      within.clock_le found live empty
    have turn : m.turnCost = 3 := by rw [turnCost, running]
    rw [cost_eq, cost_eq, clock, queue]
    omega
  | job idle queue => exact cost_job run within idle queue
  | @resume f rest idle queue frames waits =>
    refine ⟨⟨within.slots, within.time⟩, ?_⟩
    have turn : m.turnCost = 2 := by simp [turnCost, idle, frames, waits]
    rw [cost_eq, cost_eq, turn]
    simp only [workCost, load, sumOf_eq, turnCost]
    omega
  | passTime idle queue frames waits passes =>
    exact cost_passTime (Attended.reached run) (Guarded.reached run) (Held.reached run) within idle
      queue frames waits passes

/-- With its cost for a limit a run ends where nothing can go on. -/
theorem run_settles {past : List Machine} (reached : Run s past m) (within : m.Within h)
    {limit : Nat} (enough : m.cost h ≤ limit) : (run s limit m).step s = none := by
  induction limit generalizing past m with
  | zero =>
    refine Option.eq_none_iff_forall_ne_some.mpr fun m' made => ?_
    have cost := (cost_step reached within made).2
    omega
  | succ limit ih =>
    rw [run]
    split
    · assumption
    · rename_i m' made
      obtain ⟨within', cost⟩ := cost_step reached within made
      exact ih (reached.step made) within' (by omega)

/-- Nothing is ready, and if the caller has something left to do nobody ever wakes. -/
theorem rests_of_settled (settled : m.step s = none) : m.running = none ∧ m.queue = [] ∧
    ∀ f rest, m.caller.frames = f :: rest → m.waits f = true ∧ m.wakeTimes = [] := by
  cases running : m.running with
  | some o =>
    rw [step, running] at settled
    cases settled
  | none =>
    simp only [step, running, schedule] at settled
    cases queue : m.queue with
    | cons j r =>
      rw [queue] at settled
      cases settled
    | nil =>
      refine ⟨rfl, rfl, fun f rest frames => ?_⟩
      rw [queue, frames] at settled
      dsimp only at settled
      split at settled
      · rename_i waits
        rw [passTime, Option.map_eq_none_iff, List.min?_eq_none_iff] at settled
        exact ⟨waits, settled⟩
      · cases settled

theorem step_operate (reached : Reachable s m) (idle : m.running = none)
    (settled : m.caller.frames = []) (operation : Operation) :
    (m.operate s operation).step s = none := by
  obtain ⟨past, run⟩ := reached.issue operation idle settled
  exact run_settles run (within_horizon _) (Nat.le_refl _)

end Machine
end Reclaimer
end NodeFleet
