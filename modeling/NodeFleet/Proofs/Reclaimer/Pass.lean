import Mathlib.Data.List.Perm.Subperm
import NodeFleet.Proofs.Reclaimer.History

set_option autoImplicit false
namespace NodeFleet
namespace Reclaimer

def Frame.pass? : Frame → Option Nat
  | .releases pass .. => some pass
  | .capture pass _ => some pass
  | _ => none

def Occurrence.pass? : Occurrence → Option Nat
  | .polled pass .. => some pass
  | .released pass .. => some pass
  | .captured pass _ _ => pass
  | .passEnded pass _ => some pass
  | _ => none

def framesOf (pass : Nat) (frames : List Frame) : List Frame :=
  frames.filter fun f => f.pass? = some pass

def eventsOf (pass : Nat) (history : List Occurrence) : List Occurrence :=
  history.filter fun e => e.pass? = some pass

section
variable {pass : Nat}

theorem framesOf_append (frames more : List Frame) :
    framesOf pass (frames ++ more) = framesOf pass frames ++ framesOf pass more :=
  List.filter_append ..

theorem eventsOf_append (history new : List Occurrence) :
    eventsOf pass (history ++ new) = eventsOf pass history ++ eventsOf pass new :=
  List.filter_append ..

theorem framesOf_cons_of_eq {f : Frame} (h : f.pass? = some pass) (rest : List Frame) :
    framesOf pass (f :: rest) = f :: framesOf pass rest :=
  List.filter_cons_of_pos (by simpa using h)

theorem framesOf_cons_of_ne {f : Frame} (h : f.pass? ≠ some pass) (rest : List Frame) :
    framesOf pass (f :: rest) = framesOf pass rest :=
  List.filter_cons_of_neg (by simpa using h)

theorem eventsOf_notes (notes : List Note) : eventsOf pass (notes.map .noted) = [] := by
  rw [eventsOf, List.filter_eq_nil_iff]
  intro e mem
  obtain ⟨n, -, rfl⟩ := List.mem_map.mp mem
  simp [Occurrence.pass?]

theorem mem_eventsOf {history : List Occurrence} {e : Occurrence} :
    e ∈ eventsOf pass history ↔ e ∈ history ∧ e.pass? = some pass := by
  simp [eventsOf]

theorem count_pass (p : Occurrence → Bool) (history : List Occurrence) :
    ((history.filter p).map Occurrence.pass?).count (some pass) =
      (eventsOf pass history).countP p := by
  rw [List.count, List.countP_map, List.countP_filter, eventsOf, List.countP_filter]
  refine List.countP_congr fun e _ => ?_
  simp [and_comm]

theorem countP_le_of_passes {p q : Occurrence → Bool} {history : List Occurrence}
    (own : ∀ e ∈ history, p e = true → ∃ pass, e.pass? = some pass)
    (each : ∀ pass, (eventsOf pass history).countP p ≤ (eventsOf pass history).countP q) :
    history.countP p ≤ history.countP q := by
  -- the passes of the events, each as often as it has some, count the events
  have passes : ((history.filter p).map Occurrence.pass?).Subperm
      ((history.filter q).map Occurrence.pass?) := by
    rw [List.subperm_ext_iff]
    intro key mem
    obtain ⟨e, found, rfl⟩ := List.mem_map.mp mem
    obtain ⟨pass, some⟩ := own e (List.mem_filter.mp found).1 (List.mem_filter.mp found).2
    rw [some, count_pass, count_pass]
    exact each pass
  have lengths := passes.length_le
  rwa [List.length_map, List.length_map, ← List.countP_eq_length_filter,
    ← List.countP_eq_length_filter] at lengths

end

inductive Serves (pass : Nat) : List SlotSession → List Occurrence → Prop
  | none : Serves pass [] []
  | more {done : List SlotSession} {events : List Occurrence} (slot : SlotSession) (phase : Phase)
      (occupied : List SlotSession) : Serves pass done events →
      Serves pass (done ++ [slot]) (events ++
        [.released pass slot .orphan phase occupied, .captured (some pass) slot.sessionId false])

/-- How far a pass has come: what it still has to do, and all that it has done. -/
inductive Stage (m : Machine) (pass : Nat) : Prop
  | unborn (fresh : m.passes ≤ pass) (frames : ∀ o, framesOf pass (m.fiber o).frames = [])
      (events : eventsOf pass m.history = [])
  | releasing (old : pass < m.passes) (owner : Owner) (time : Nat) (listed : List SlotSession)
      (done left : List SlotSession) (previous : Phase) (served : List Occurrence)
      (serves : Serves pass done served)
      (frames : ∀ o, framesOf pass (m.fiber o).frames =
        if o = owner then [.releases pass left previous (done ++ left).length] else [])
      (events : eventsOf pass m.history = .polled pass owner time listed (done ++ left) :: served)
  | capturing (old : pass < m.passes) (owner : Owner) (time : Nat) (listed : List SlotSession)
      (done left : List SlotSession) (slot : SlotSession) (previous phase : Phase)
      (occupied : List SlotSession) (served : List Occurrence) (serves : Serves pass done served)
      (frames : ∀ o, framesOf pass (m.fiber o).frames =
        if o = owner then [.capture pass slot.sessionId,
          .releases pass left previous (done ++ slot :: left).length] else [])
      (events : eventsOf pass m.history =
        .polled pass owner time listed (done ++ slot :: left) :: served ++
          [.released pass slot .orphan phase occupied])
  | ended (old : pass < m.passes) (owner : Owner) (time : Nat) (listed : List SlotSession)
      (done : List SlotSession) (served : List Occurrence) (serves : Serves pass done served)
      (frames : ∀ o, framesOf pass (m.fiber o).frames = [])
      (events : eventsOf pass m.history =
        .polled pass owner time listed done :: served ++ [.passEnded pass done.length])

/-- What a frame does for a pass: the frames of the pass that come in its place, and what it records
of the pass. -/
inductive PassChange (s : Setup) (m : Machine) (o : Owner) (pass : Nat) (f : Frame) :
    List Frame → List Occurrence → Prop
  | idles (poll : f = .poll) (new : pass = m.passes) (none : m.claimable s = []) :
      PassChange s m o pass f [] [.polled pass o m.clock m.slots [], .passEnded pass 0]
  | begins (poll : f = .poll) (new : pass = m.passes) :
      PassChange s m o pass f
        [.releases pass (m.claimable s) m.phase (m.claimable s).length]
        [.polled pass o m.clock m.slots (m.claimable s)]
  | releases (slot : SlotSession) (left : List SlotSession) (previous : Phase) (count : Nat)
      (due : f = .releases pass (slot :: left) previous count) :
      PassChange s m o pass f
        [.capture pass slot.sessionId, .releases pass left previous count]
        [.released pass slot .orphan m.phase m.slots]
  | ends (previous : Phase) (count : Nat) (last : f = .releases pass [] previous count) :
      PassChange s m o pass f [] [.passEnded pass count]
  | captures (id : String) (due : f = .capture pass id) :
      PassChange s m o pass f [] [.captured (some pass) id false]
  | aside (frame : f.pass? ≠ some pass) (poll : f = .poll → pass ≠ m.passes) :
      PassChange s m o pass f [] []

namespace Machine
variable {s : Setup} {m m' : Machine} {o : Owner} {f : Frame} {rest : List Frame} {pass : Nat}

theorem passChange_aside (frame : f.pass? ≠ some pass) (poll : f = .poll → pass ≠ m.passes)
    (frames : framesOf pass (m.pushed s f) = []) (events : eventsOf pass (m.recorded s o f) = []) :
    PassChange s m o pass f (framesOf pass (m.pushed s f))
      (eventsOf pass (m.recorded s o f)) := by
  rw [frames, events]
  exact .aside frame poll

theorem passChange_poll : PassChange s m o pass .poll (framesOf pass (m.pushed s .poll))
    (eventsOf pass (m.recorded s o .poll)) := by
  by_cases new : pass = m.passes
  · subst new
    by_cases none : m.claimable s = []
    · have frames : framesOf m.passes (m.pushed s .poll) = [] := by
        simp [pushed, none, framesOf]
      have events : eventsOf m.passes (m.recorded s o .poll) =
          [.polled m.passes o m.clock m.slots [], .passEnded m.passes 0] := by
        simp [recorded, none, eventsOf, Occurrence.pass?]
      rw [frames, events]
      exact .idles rfl rfl none
    · have frames : framesOf m.passes (m.pushed s .poll) =
          [.releases m.passes (m.claimable s) m.phase (m.claimable s).length] := by
        simp [pushed, none, framesOf, Frame.pass?]
      have events : eventsOf m.passes (m.recorded s o .poll) =
          [.polled m.passes o m.clock m.slots (m.claimable s)] := by
        simp [recorded, none, eventsOf, Occurrence.pass?]
      rw [frames, events]
      exact .begins rfl rfl
  · refine passChange_aside (by simp [Frame.pass?]) (fun _ => new) ?_ ?_
    · by_cases none : m.claimable s = [] <;>
        simp [pushed, none, framesOf, Frame.pass?, Ne.symm new]
    · by_cases none : m.claimable s = [] <;>
        simp [recorded, none, eventsOf, Occurrence.pass?, Ne.symm new]

theorem passChange_releases (q : Nat) (left : List SlotSession) (previous : Phase) (count : Nat) :
    PassChange s m o pass (.releases q left previous count)
      (framesOf pass (m.pushed s (.releases q left previous count)))
      (eventsOf pass (m.recorded s o (.releases q left previous count))) := by
  by_cases same : q = pass
  · subst same
    cases left with
    | nil =>
      have events : eventsOf q (m.recorded s o (.releases q [] previous count)) =
          [.passEnded q count] := by
        simp [recorded, eventsOf, Occurrence.pass?]
      rw [events]
      exact .ends previous count rfl
    | cons slot left =>
      have frames : framesOf q (m.pushed s (.releases q (slot :: left) previous count)) =
          [.capture q slot.sessionId, .releases q left previous count] := by
        cases h : takeHook slot.slotId m.hooks <;> simp [pushed, h, framesOf, Frame.pass?]
      have events : eventsOf q (m.recorded s o (.releases q (slot :: left) previous count)) =
          [.released q slot .orphan m.phase m.slots] := by
        simp [recorded, measured, eventsOf, Occurrence.pass?]
      rw [frames, events]
      exact .releases slot left previous count rfl
  · refine passChange_aside (by simpa [Frame.pass?] using same) (by simp) ?_ ?_
    · cases left with
      | nil => rfl
      | cons slot left =>
        cases h : takeHook slot.slotId m.hooks <;> simp [pushed, h, framesOf, Frame.pass?, same]
    · cases left <;> simp [recorded, measured, eventsOf, Occurrence.pass?, same]

theorem passChange (s : Setup) (m : Machine) (o : Owner) (f : Frame) (pass : Nat) :
    PassChange s m o pass f (framesOf pass (m.pushed s f)) (eventsOf pass (m.recorded s o f)) := by
  cases f with
  | poll => exact passChange_poll
  | releases q left previous count => exact passChange_releases q left previous count
  | capture q id =>
    by_cases same : q = pass
    · subst same
      have events : eventsOf q (m.recorded s o (.capture q id)) =
          [.captured (some q) id false] := by
        simp [recorded, eventsOf, Occurrence.pass?]
      rw [events]
      exact .captures id rfl
    · exact passChange_aside (by simpa [Frame.pass?] using same) (by simp) rfl
        (by simp [recorded, eventsOf, Occurrence.pass?, same])
  | perform operation =>
    refine passChange_aside (by simp [Frame.pass?]) (by simp) ?_ ?_
    · cases operation with
      | stop => cases h : m.current <;> simp [pushed, h, framesOf, Frame.pass?]
      | advance ms => by_cases h : ms = 0 <;> simp [pushed, h, framesOf, Frame.pass?]
      | reclaim => simp [pushed, framesOf, Frame.pass?]
      | setSlots | complete | start | phase => rfl
    · cases operation with
      | complete slot =>
        by_cases h : slot.sessionId ∈ m.terminal <;>
          simp [recorded, h, measured, eventsOf, Occurrence.pass?]
      | start => cases h : m.polls <;> simp [recorded, h, eventsOf, Occurrence.pass?]
      | setSlots | reclaim | stop | phase | advance => rfl
  | sleep wake => exact passChange_aside (by simp [Frame.pass?]) (by simp) rfl rfl
  | awaitEnd id =>
    refine passChange_aside (by simp [Frame.pass?]) (by simp) rfl ?_
    cases h : m.hasFailed id <;> simp [recorded, h, eventsOf, Occurrence.pass?]
  | hookEnd =>
    exact passChange_aside (by simp [Frame.pass?]) (by simp) rfl
      (by simp [recorded, eventsOf, Occurrence.pass?])

theorem execute_passes : (execute s m o rest f).passes = m.passesAfter f := by
  obtain ⟨queue, reply, h⟩ := execute_eq s m o rest f
  simp [h, outcome]

theorem passes_le_passesAfter : m.passes ≤ m.passesAfter f := by
  unfold passesAfter
  split
  · exact Nat.le_succ m.passes
  · exact Nat.le_refl m.passes

end Machine

namespace Stage
variable {s : Setup} {m m' : Machine} {o : Owner} {f : Frame} {rest : List Frame} {pass : Nat}

theorem kept (h : Stage m pass)
    (frames : ∀ o, framesOf pass (m'.fiber o).frames = framesOf pass (m.fiber o).frames)
    (events : eventsOf pass m'.history = eventsOf pass m.history) (older : m.passes ≤ m'.passes)
    (fresh : m.passes ≤ pass → m'.passes ≤ pass) : Stage m' pass := by
  cases h with
  | unborn unborn none nothing =>
    exact .unborn (fresh unborn) (fun o => (frames o).trans (none o)) (events.trans nothing)
  | releasing old owner time listed done left previous served serves own log =>
    exact .releasing (Nat.lt_of_lt_of_le old older) owner time listed done left previous served
      serves (fun o => (frames o).trans (own o)) (events.trans log)
  | capturing old owner time listed done left slot previous phase occupied served serves own log =>
    exact .capturing (Nat.lt_of_lt_of_le old older) owner time listed done left slot previous phase
      occupied served serves (fun o => (frames o).trans (own o)) (events.trans log)
  | ended old owner time listed done served serves own log =>
    exact .ended (Nat.lt_of_lt_of_le old older) owner time listed done served serves
      (fun o => (frames o).trans (own o)) (events.trans log)

theorem of_new (h : Stage m m.passes) :
    (∀ o, framesOf m.passes (m.fiber o).frames = []) ∧ eventsOf m.passes m.history = [] := by
  cases h with
  | unborn fresh frames events => exact ⟨frames, events⟩
  | releasing old | capturing old | ended old => exact absurd old (Nat.lt_irrefl _)

structure Acts (m m' : Machine) (o : Owner) (pass : Nat) (before now rest : List Frame)
    (new : List Occurrence) : Prop where
  mine : framesOf pass (m.fiber o).frames = before ++ rest
  own : framesOf pass (m'.fiber o).frames = now ++ rest
  others : ∀ o', o' ≠ o → framesOf pass (m'.fiber o').frames = framesOf pass (m.fiber o').frames
  events : eventsOf pass m'.history = eventsOf pass m.history ++ new
  older : m.passes ≤ m'.passes

variable {before now more : List Frame} {new : List Occurrence}

theorem Acts.frames {owner : Owner} {all after : List Frame}
    (acts : Acts m m' o pass before now more new)
    (own : ∀ o, framesOf pass (m.fiber o).frames = if o = owner then all else [])
    (here : o = owner) (left : now ++ more = after) (o' : Owner) :
    framesOf pass (m'.fiber o').frames = if o' = owner then after else [] := by
  subst here
  by_cases ho : o' = o
  · subst ho
    rw [acts.own, if_pos rfl, left]
  · rw [acts.others o' ho, own, if_neg ho, if_neg ho]

theorem Acts.here {owner : Owner} {all : List Frame}
    (acts : Acts m m' o pass [f] now more new)
    (own : ∀ o, framesOf pass (m.fiber o).frames = if o = owner then all else []) :
    o = owner ∧ all = f :: more := by
  have mine := acts.mine
  rw [own] at mine
  split at mine
  · rename_i here
    exact ⟨here, mine⟩
  · cases mine

theorem Acts.busy (acts : Acts m m' o pass [f] now more new)
    (free : ∀ o, framesOf pass (m.fiber o).frames = []) : False := by
  have mine := acts.mine
  rw [free] at mine
  cases mine

theorem of_releases {slot : SlotSession} {left : List SlotSession} {previous : Phase} {count : Nat}
    (h : Stage m pass)
    (acts : Acts m m' o pass [.releases pass (slot :: left) previous count]
      [.capture pass slot.sessionId, .releases pass left previous count] more
      [.released pass slot .orphan m.phase m.slots]) : Stage m' pass := by
  cases h with
  | unborn fresh none nothing =>
    exact (acts.busy none).elim
  | releasing old owner time listed done left' previous' served serves own log =>
    obtain ⟨here, all⟩ := acts.here own
    obtain ⟨same, rfl⟩ := List.cons.inj all
    obtain ⟨-, rfl, rfl, rfl⟩ := Frame.releases.inj same
    refine .capturing (Nat.lt_of_lt_of_le old acts.older) owner time listed done left slot previous'
      m.phase m.slots served serves (acts.frames own here rfl) ?_
    rw [acts.events, log]
  | capturing old owner time listed done left slot' previous' phase occupied served serves own =>
    obtain ⟨-, all⟩ := acts.here own
    cases all
  | ended old owner time listed done served serves none =>
    exact (acts.busy none).elim

theorem of_ends {previous : Phase} {count : Nat} (h : Stage m pass)
    (acts : Acts m m' o pass [.releases pass [] previous count] [] more [.passEnded pass count]) :
    Stage m' pass := by
  cases h with
  | unborn fresh none nothing =>
    exact (acts.busy none).elim
  | releasing old owner time listed done left' previous' served serves own log =>
    obtain ⟨here, all⟩ := acts.here own
    obtain ⟨same, rfl⟩ := List.cons.inj all
    obtain ⟨-, rfl, rfl, rfl⟩ := Frame.releases.inj same
    rw [List.append_nil] at log
    refine .ended (Nat.lt_of_lt_of_le old acts.older) owner time listed done served serves
      (fun o' => ?_) ?_
    · rw [acts.frames own here (List.append_nil [])]
      exact ite_self []
    · rw [acts.events, log, List.append_nil]
  | capturing old owner time listed done left slot' previous' phase occupied served serves own =>
    obtain ⟨-, all⟩ := acts.here own
    cases all
  | ended old owner time listed done served serves none =>
    exact (acts.busy none).elim

theorem of_captures {id : String} (h : Stage m pass)
    (acts : Acts m m' o pass [.capture pass id] [] more [.captured (some pass) id false]) :
    Stage m' pass := by
  cases h with
  | unborn fresh none nothing =>
    exact (acts.busy none).elim
  | releasing old owner time listed done left' previous' served serves own =>
    obtain ⟨-, all⟩ := acts.here own
    cases all
  | capturing old owner time listed done left slot previous phase occupied served serves own log =>
    obtain ⟨here, all⟩ := acts.here own
    obtain ⟨same, rfl⟩ := List.cons.inj all
    obtain ⟨-, rfl⟩ := Frame.capture.inj same
    have split : done ++ slot :: left = (done ++ [slot]) ++ left := List.append_cons done slot left
    refine .releasing (Nat.lt_of_lt_of_le old acts.older) owner time listed (done ++ [slot]) left
      previous _ (serves.more slot phase occupied) (acts.frames own here ?_) ?_
    · rw [split]
      rfl
    · rw [acts.events, log, split, List.cons_append, List.cons_append, List.append_assoc served]
      rfl
  | ended old owner time listed done served serves none =>
    exact (acts.busy none).elim

theorem execute (h : Stage m pass) (frames : (m.fiber o).frames = f :: rest) :
    Stage (m.execute s o rest f) pass := by
  let m' := m.execute s o rest f
  have own : framesOf pass (m'.fiber o).frames =
      framesOf pass (m.pushed s f) ++ framesOf pass rest := by
    rw [Machine.execute_frames frames, framesOf_append]
  have others : ∀ o', o' ≠ o →
      framesOf pass (m'.fiber o').frames = framesOf pass (m.fiber o').frames := by
    intro o' ho
    rw [Machine.execute_fiber_of_ne ho]
  have events : eventsOf pass m'.history =
      eventsOf pass m.history ++ eventsOf pass (m.recorded s o f) := by
    rw [Machine.execute_history, eventsOf_append]
  have passes : m'.passes = m.passesAfter f := Machine.execute_passes
  have older : m.passes ≤ m'.passes := by
    rw [passes]
    exact Machine.passes_le_passesAfter
  have mine (due : f.pass? = some pass) :
      framesOf pass (m.fiber o).frames = f :: framesOf pass rest := by
    rw [frames, framesOf_cons_of_eq due]
  have change := Machine.passChange s m o f pass
  generalize framesOf pass (m.pushed s f) = now at own change
  generalize eventsOf pass (m.recorded s o f) = new at events change
  cases change with
  | releases slot left previous count due =>
    subst due
    exact h.of_releases ⟨mine rfl, own, others, events, older⟩
  | ends previous count last =>
    subst last
    exact h.of_ends ⟨mine rfl, own, others, events, older⟩
  | captures id due =>
    subst due
    exact h.of_captures ⟨mine rfl, own, others, events, older⟩
  | idles poll new none =>
    subst poll new
    -- no frame and no event has the number of a pass that only now begins
    obtain ⟨free, nothing⟩ := h.of_new
    refine .ended ?_ o m.clock m.slots [] [] .none (fun o' => ?_) ?_
    · rw [passes]
      exact Nat.lt_succ_self m.passes
    · by_cases ho : o' = o
      · subst ho
        rw [own, ← framesOf_cons_of_ne (f := .poll) (by simp [Frame.pass?]), ← frames, free]
        rfl
      · rw [others o' ho, free]
    · rw [events, nothing]
      rfl
  | begins poll new =>
    subst poll new
    obtain ⟨free, nothing⟩ := h.of_new
    refine .releasing ?_ o m.clock m.slots [] (m.claimable s) m.phase [] .none (fun o' => ?_) ?_
    · rw [passes]
      exact Nat.lt_succ_self m.passes
    · by_cases ho : o' = o
      · subst ho
        rw [own, ← framesOf_cons_of_ne (f := .poll) (by simp [Frame.pass?]), ← frames, free,
          if_pos rfl]
        rfl
      · rw [others o' ho, free, if_neg ho]
    · rw [events, nothing]
      rfl
  | aside frame poll =>
    refine h.kept (fun o' => ?_) (events.trans (List.append_nil _)) older (fun fresh => ?_)
    · by_cases ho : o' = o
      · subst ho
        rw [own, frames, framesOf_cons_of_ne frame]
        rfl
      · exact others o' ho
    · rw [passes]
      unfold Machine.passesAfter
      split
      · exact Nat.lt_of_le_of_ne fresh (Ne.symm (poll rfl))
      · exact fresh

theorem tended (h : Stage m pass) (tended : Machine.Tended s m m') : Stage m' pass := by
  obtain ⟨notes, history⟩ := tended.history
  refine h.kept (fun o => ?_) ?_ (Nat.le_of_eq tended.passes.symm)
    (fun fresh => tended.passes ▸ fresh)
  · rcases tended.frames o with same | ⟨before, after⟩
    · rw [same]
    · rw [before, after]
      rfl
  · rw [history, eventsOf_append, eventsOf_notes, List.append_nil]

theorem issue (h : Stage m pass) (operation : Operation) (settled : m.caller.frames = []) :
    Stage (m.issue operation) pass := by
  refine h.kept (fun o => ?_) rfl (Nat.le_refl _) id
  by_cases ho : o = .caller
  · subst ho
    change framesOf pass [.perform operation] = framesOf pass m.caller.frames
    rw [settled]
    rfl
  · rw [Machine.issue_fiber_of_ne operation ho]

theorem reached {past : List Machine} (run : Run s past m) (pass : Nat) : Stage m pass := by
  induction run with
  | new slots hooks =>
    refine .unborn (Nat.zero_le pass) (fun o => ?_) rfl
    rw [Machine.new_frames]
    rfl
  | issue operation run idle settled ih => exact ih.issue operation settled
  | step run hs ih =>
    obtain ⟨o, f, rest, -, frames, -, rfl⟩ | ⟨-, tended⟩ :=
      Machine.step_cases (Machine.Tidy.reached run) hs
    · exact ih.execute frames
    · exact ih.tended tended

end Stage
end Reclaimer
end NodeFleet
