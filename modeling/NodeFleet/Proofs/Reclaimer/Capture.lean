import NodeFleet.Proofs.Reclaimer.History

set_option autoImplicit false
namespace NodeFleet
namespace Reclaimer

def Occurrence.isWarning : Occurrence → Bool
  | .noted (.captureFailed ..) => true
  | _ => false

def unwarned (history : List Occurrence) : List Occurrence := history.filter (! ·.isWarning)

theorem unwarned_append (history new : List Occurrence) :
    unwarned (history ++ new) = unwarned history ++ unwarned new :=
  List.filter_append history new

def Setup.withCapture (s : Setup) (capture : Nat → CaptureOutcome) : Setup :=
  { s with capture := capture }

def Report.unwarned (r : Report) : Report :=
  { r with occurrences := Reclaimer.unwarned r.occurrences }

namespace Machine

def unwarned (m : Machine) : Machine := { m with history := Reclaimer.unwarned m.history }

/-- The same machine but for warnings. -/
def Alike (m m' : Machine) : Prop :=
  ∃ history, m' = { m with history := history } ∧
    Reclaimer.unwarned history = Reclaimer.unwarned m.history

variable {s : Setup} {m m' : Machine} {c : Nat → CaptureOutcome}

theorem alike_iff : Alike m m' ↔ m'.unwarned = m.unwarned := by
  constructor
  · rintro ⟨history, rfl, same⟩
    rw [unwarned, unwarned, same]
  · intro same
    have all (h : List Occurrence) := congrArg (fun x : Machine => { x with history := h }) same
    exact ⟨m'.history, all m'.history, congrArg Machine.history same⟩

namespace Alike

theorem refl (m : Machine) : Alike m m := ⟨m.history, rfl, rfl⟩

theorem execute (alike : Alike m m') (o : Owner) (rest : List Frame) (f : Frame) :
    Alike (execute s m o rest f) (execute (s.withCapture c) m' o rest f) := by
  obtain ⟨history, rfl, same⟩ := alike
  refine ⟨history ++ m.recorded s o f, ?_, ?_⟩
  · rw [execute_exact, execute_exact]
    cases o <;> rfl
  · rw [execute_history, unwarned_append, unwarned_append, same]

theorem nextTick (alike : Alike m m') (id : Nat) (t : PollTask) :
    Alike (nextTick s m id t) (nextTick (s.withCapture c) m' id t) := by
  obtain ⟨history, rfl, same⟩ := alike
  have clock : clockNanos { m with history := history } = m.clockNanos := rfl
  simp only [Machine.nextTick, clock]
  split
  · refine ⟨history ++ [.noted (.reclaimerStopped s.proxy)], rfl, ?_⟩
    rw [unwarned_append, same]
    exact (unwarned_append m.history _).symm
  · split <;> exact ⟨history, rfl, same⟩

theorem beginTask (alike : Alike m m') (id : Nat) (t : PollTask) :
    Alike (beginTask s m id t) (beginTask (s.withCapture c) m' id t) := by
  obtain ⟨history, rfl, same⟩ := alike
  have interval : (s.withCapture c).intervalNanos = s.intervalNanos := rfl
  simp only [Machine.beginTask, interval]
  split
  · exact ⟨history, rfl, same⟩
  · exact nextTick (m := m.updateTask id fun t => { t with due := m.clockNanos })
      ⟨history, rfl, same⟩ id _

theorem runTask (alike : Alike m m') (id : Nat) :
    Alike (runTask s m id) (runTask (s.withCapture c) m' id) := by
  obtain ⟨history, rfl, same⟩ := alike
  simp only [Machine.runTask]
  split
  · exact ⟨history, rfl, same⟩
  · split
    · exact beginTask ⟨history, rfl, same⟩ id _
    · exact nextTick ⟨history, rfl, same⟩ id _
    · exact ⟨history, rfl, same⟩
    · exact ⟨history, rfl, same⟩
    · exact ⟨history, rfl, same⟩

theorem runCapture (alike : Alike m m') (number : Nat) (sessionId : String) (completed : Bool) :
    Alike (runCapture s m number sessionId completed)
      (runCapture (s.withCapture c) m' number sessionId completed) := by
  have warns (x : Machine) (s : Setup) :
      (Machine.runCapture s x number sessionId completed).unwarned = x.unwarned := by
    unfold Machine.runCapture
    split
    · have nothing : Reclaimer.unwarned [.noted (.captureFailed sessionId completed)] = [] := rfl
      rw [unwarned, note, record, unwarned_append, nothing, List.append_nil]
      rfl
    · rfl
  rw [alike_iff] at alike ⊢
  rw [warns, warns, alike]

theorem runJob (alike : Alike m m') (j : Job) :
    Alike (runJob s m j) (runJob (s.withCapture c) m' j) := by
  cases j with
  | task id => exact alike.runTask id
  | capture number sessionId completed => exact alike.runCapture number sessionId completed

theorem stepOf (alike : Alike m m') (o : Owner) :
    Alike (stepOf s m o) (stepOf (s.withCapture c) m' o) := by
  obtain ⟨history, rfl, same⟩ := alike
  have fiber : fiber { m with history := history } o = m.fiber o := rfl
  simp only [Machine.stepOf, fiber]
  split
  · rename_i f rest _
    have waits : waits { m with history := history } f = m.waits f := rfl
    rw [waits]
    split
    · exact ⟨history, rfl, same⟩
    · exact execute ⟨history, rfl, same⟩ o rest f
  · split
    · exact ⟨history, rfl, same⟩
    · split
      · exact ⟨history, rfl, same⟩
      · exact nextTick ⟨history, rfl, same⟩ _ _

theorem passTime (alike : Alike m m') : Option.Rel Alike m.passTime m'.passTime := by
  obtain ⟨history, rfl, same⟩ := alike
  have wakeTimes : wakeTimes { m with history := history } = m.wakeTimes := rfl
  simp only [Machine.passTime, wakeTimes]
  cases m.wakeTimes.min? with
  | none => exact .none
  | some time =>
    refine .some ?_
    dsimp only
    split <;> exact ⟨history, rfl, same⟩

theorem schedule (alike : Alike m m') :
    Option.Rel Alike (schedule s m) (schedule (s.withCapture c) m') := by
  obtain ⟨history, rfl, same⟩ := alike
  simp only [Machine.schedule]
  split
  · rename_i j r _
    exact .some (runJob (m := { m with queue := r }) ⟨history, rfl, same⟩ j)
  · split
    · exact .none
    · rename_i f _ _
      have waits : waits { m with history := history } f = m.waits f := rfl
      rw [waits]
      split
      · exact passTime ⟨history, rfl, same⟩
      · exact .some ⟨history, rfl, same⟩

theorem step (alike : Alike m m') :
    Option.Rel Alike (m.step s) (m'.step (s.withCapture c)) := by
  have running : m'.running = m.running := by
    obtain ⟨history, rfl, -⟩ := alike
    rfl
  rw [Machine.step, Machine.step, running]
  split
  · exact .some (alike.stepOf _)
  · exact alike.schedule

theorem run (alike : Alike m m') (limit : Nat) :
    Alike (run s limit m) (run (s.withCapture c) limit m') := by
  induction limit generalizing m m' with
  | zero => exact alike
  | succ limit ih =>
    have next := alike.step (s := s) (c := c)
    rw [Machine.run, Machine.run]
    generalize m.step s = a, m'.step (s.withCapture c) = b at next ⊢
    cases next with
    | none => exact alike
    | some alike' => exact ih alike'

theorem issue (alike : Alike m m') (operation : Operation) :
    Alike (m.issue operation) (m'.issue operation) := by
  obtain ⟨history, rfl, same⟩ := alike
  exact ⟨history, rfl, same⟩

theorem operate (alike : Alike m m') (operation : Operation) :
    Alike (m.operate s operation) (m'.operate (s.withCapture c) operation) := by
  have limit : (m'.issue operation).stepLimit = (m.issue operation).stepLimit := by
    obtain ⟨history, rfl, -⟩ := alike
    rfl
  rw [Machine.operate, Machine.operate, limit]
  exact (alike.issue operation).run _

end Alike

theorem unwarned_report {after after' : Machine} (before : Alike m m') (alike : Alike after after')
    (grown : m.history <+: after.history) (grown' : m'.history <+: after'.history) :
    (report m' after').unwarned = (report m after).unwarned := by
  obtain ⟨new, all⟩ := grown
  obtain ⟨new', all'⟩ := grown'
  obtain ⟨h, rfl, same⟩ := before
  obtain ⟨h', rfl, same'⟩ := alike
  dsimp only at all'
  have cut : Reclaimer.unwarned new' = Reclaimer.unwarned new := by
    rw [← all, ← all', unwarned_append, unwarned_append, same] at same'
    exact List.append_cancel_left same'
  simp only [report, Report.unwarned]
  rw [← all, ← all', List.drop_left, List.drop_left, cut]
  rfl

theorem unwarned_session (alike : Alike m m') (tidy : m.Tidy) (tidy' : m'.Tidy)
    (operations : List Operation) :
    (session (s.withCapture c) m' operations).map Report.unwarned =
      (session s m operations).map Report.unwarned := by
  induction operations generalizing m m' with
  | nil => rfl
  | cons operation r ih =>
    obtain ⟨grown, onward⟩ := operate_history (s := s) tidy operation
    obtain ⟨grown', onward'⟩ := operate_history (s := s.withCapture c) tidy' operation
    have after := alike.operate (s := s) (c := c) operation
    simp only [session, List.map_cons]
    rw [unwarned_report alike after grown grown', ih after onward onward']

theorem alike_run {past : List Machine} (run : Run s past m) : ∃ past' m',
    Run (s.withCapture c) past' m' ∧ past'.map unwarned = past.map unwarned ∧
      Alike m m' := by
  induction run with
  | new slots hooks => exact ⟨[], _, .new slots hooks, rfl, .refl _⟩
  | issue operation run idle settled ih =>
    obtain ⟨past', m', run', pasts, alike⟩ := ih
    have whole := alike_iff.mp alike
    refine ⟨m' :: past', m'.issue operation, run'.issue operation ?_ ?_, ?_, alike.issue operation⟩
    · exact (congrArg Machine.running whole).trans idle
    · exact (congrArg (fun x : Machine => x.caller.frames) whole).trans settled
    · rw [List.map_cons, List.map_cons, pasts, whole]
  | step run made ih =>
    obtain ⟨past', m', run', pasts, alike⟩ := ih
    have next := alike.step (s := s) (c := c)
    rw [made] at next
    cases made' : m'.step (s.withCapture c) with
    | none =>
      rw [made'] at next
      cases next
    | some after =>
      rw [made'] at next
      cases next with
      | some alike' =>
        refine ⟨m' :: past', after, run'.step made', ?_, alike'⟩
        rw [List.map_cons, List.map_cons, pasts, alike_iff.mp alike]

/-- Captures do not interfere. However their outcomes differ, each operation of a session has the
same reply and the same phase after it, and all that happens is the same in the same order except
for warnings of captures that failed; and every run has one beside it that goes through the same
machines except for those warnings. -/
theorem captures_do_not_interfere (s : Setup) (capture : Nat → CaptureOutcome) :
    (∀ slots hooks operations,
      (session (s.withCapture capture) (new slots hooks) operations).map Report.unwarned =
        (session s (new slots hooks) operations).map Report.unwarned) ∧
    ∀ past m, Run s past m → ∃ past' m', Run (s.withCapture capture) past' m' ∧
      past'.map unwarned = past.map unwarned ∧ m'.unwarned = m.unwarned := by
  constructor
  · intro slots hooks operations
    have tidy : (new slots hooks).Tidy := Tidy.reached (Run.new (s := s) slots hooks)
    exact unwarned_session (.refl _) tidy tidy operations
  · intro past m run
    obtain ⟨past', m', run', pasts, alike⟩ := alike_run run
    exact ⟨past', m', run', pasts, alike_iff.mp alike⟩

def passWithinRelease : List Machine × Machine :=
  let before := new [plainSlot "a" 100, plainSlot "b" 100]
    [⟨"a", .setSlots [plainSlot "c" 100]⟩, ⟨"b", .reclaim⟩]
  trail .plain 32 [before] (before.issue .reclaim)

theorem captures_do_not_interfere_failing :
    Run .plain passWithinRelease.1 passWithinRelease.2 ∧ passWithinRelease.2.captures = 3 ∧
      passWithinRelease.2.history.countP (·.isWarning) = 0 ∧
      let failing := Setup.plain.withCapture fun _ => .fails
      (∃ past m, Run failing past m ∧ m.unwarned = passWithinRelease.2.unwarned) ∧
        ∃ r ∈ session failing (new [plainSlot "a" 100] []) [.reclaim],
          r.occurrences.countP (·.isWarning) = 1 := by
  have run : Run .plain passWithinRelease.1 passWithinRelease.2 :=
    ((Run.new [plainSlot "a" 100, plainSlot "b" 100]
      [⟨"a", .setSlots [plainSlot "c" 100]⟩, ⟨"b", .reclaim⟩]).issue .reclaim rfl rfl).trail 32
  obtain ⟨past, m, failed, -, same⟩ :=
    (captures_do_not_interfere .plain fun _ => .fails).2 _ _ run
  exact ⟨run, by decide +kernel, by decide +kernel, ⟨past, m, failed, same⟩, _,
    List.mem_cons_self, by decide +kernel⟩

end Machine
end Reclaimer
end NodeFleet
