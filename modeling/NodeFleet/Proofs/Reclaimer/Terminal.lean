import NodeFleet.Proofs.Reclaimer.History

set_option autoImplicit false
namespace NodeFleet
namespace Reclaimer

namespace Occurrence

/-- A pass claims the session, or it is completed. -/
def Ends (id : String) : Occurrence → Prop
  | .polled _ _ _ _ claimed => id ∈ claimed.map (·.sessionId)
  | .completed sessionId => sessionId = id
  | _ => False

/-- A pass polls a list without the session. -/
def Unlists (id : String) : Occurrence → Prop
  | .polled _ _ _ listed _ => id ∉ listed.map (·.sessionId)
  | _ => False

def Quiet : Occurrence → Prop
  | .polled .. | .completed _ => False
  | _ => True

variable {id : String} {e : Occurrence}

theorem Quiet.not_ends (h : e.Quiet) : ¬ e.Ends id := by
  cases e <;> simp_all [Quiet, Ends]

theorem Quiet.not_unlists (h : e.Quiet) : ¬ e.Unlists id := by
  cases e <;> simp_all [Quiet, Unlists]

end Occurrence

/-- The session was ended, and no poll since has missed it. -/
def Ended (id : String) (history : List Occurrence) : Prop :=
  ∃ before e after, history = before ++ e :: after ∧ e.Ends id ∧ ∀ x ∈ after, ¬ x.Unlists id

/-- Whatever ends a session finds it not ended. -/
def EndsFresh (history : List Occurrence) : Prop :=
  ∀ id before e after, history = before ++ e :: after → e.Ends id → ¬ Ended id before

section
variable {id : String} {history new before after : List Occurrence} {e x : Occurrence}

theorem not_ended_nil : ¬ Ended id [] := by
  rintro ⟨before, e, after, h, -⟩
  simp at h

theorem ended_concat : Ended id (history ++ [e]) ↔
    e.Ends id ∨ Ended id history ∧ ¬ e.Unlists id := by
  constructor
  · rintro ⟨before, x, after, h, ends, listed⟩
    obtain ⟨-, rfl⟩ | ⟨rest, rfl, rfl⟩ := split_concat h
    · exact .inl ends
    · exact .inr ⟨⟨before, x, rest, rfl, ends, fun y hy => listed y (List.mem_append_left _ hy)⟩,
        listed e (List.mem_append_right _ (List.mem_singleton_self e))⟩
  · rintro (ends | ⟨⟨before, x, after, rfl, ends, listed⟩, kept⟩)
    · exact ⟨history, e, [], rfl, ends, by simp⟩
    · refine ⟨before, x, after ++ [e], by simp, ends, ?_⟩
      intro y hy
      rcases List.mem_append.mp hy with hy | hy
      · exact listed y hy
      · rwa [List.mem_singleton.mp hy]

theorem endsFresh_concat (h : EndsFresh history) (fresh : ∀ id, e.Ends id → ¬ Ended id history) :
    EndsFresh (history ++ [e]) := by
  intro id before x after split ends
  obtain ⟨rfl, rfl⟩ | ⟨rest, rfl, rfl⟩ := split_concat split
  · exact fresh id ends
  · exact h id before x rest rfl ends

theorem ended_append (quiet : ∀ x ∈ new, x.Quiet) :
    Ended id (history ++ new) ↔ Ended id history := by
  induction new generalizing history with
  | nil => rw [List.append_nil]
  | cons e new ih =>
    have first : e.Quiet := quiet e List.mem_cons_self
    rw [List.append_cons, ih fun x hx => quiet x (List.mem_cons_of_mem e hx), ended_concat]
    simp [first.not_ends, first.not_unlists]

theorem endsFresh_append (h : EndsFresh history) (quiet : ∀ x ∈ new, x.Quiet) :
    EndsFresh (history ++ new) := by
  induction new generalizing history with
  | nil => rwa [List.append_nil]
  | cons e new ih =>
    have first : e.Quiet := quiet e List.mem_cons_self
    rw [List.append_cons]
    exact ih (endsFresh_concat h fun id ends => absurd ends first.not_ends)
      fun x hx => quiet x (List.mem_cons_of_mem e hx)

end

namespace Machine
variable {s : Setup} {m m' : Machine} {past : List Machine}

/-- The terminal sessions are the ended ones, and none was ended twice in between. -/
structure Settles (m : Machine) : Prop where
  terminal : ∀ id, id ∈ m.terminal ↔ Ended id m.history
  fresh : EndsFresh m.history

theorem Settles.append (h : m.Settles) {new : List Occurrence} (terminal : m'.terminal = m.terminal)
    (history : m'.history = m.history ++ new) (quiet : ∀ x ∈ new, x.Quiet) : m'.Settles := by
  constructor
  · intro id
    rw [terminal, history, ended_append quiet]
    exact h.terminal id
  · rw [history]
    exact endsFresh_append h.fresh quiet

theorem Settles.cons (h : m.Settles) (e : Occurrence) {new : List Occurrence}
    (history : m'.history = m.history ++ e :: new) (quiet : ∀ x ∈ new, x.Quiet)
    (fresh : ∀ id, e.Ends id → id ∉ m.terminal)
    (terminal : ∀ id, id ∈ m'.terminal ↔ e.Ends id ∨ id ∈ m.terminal ∧ ¬ e.Unlists id) :
    m'.Settles := by
  constructor
  · intro id
    rw [terminal, history, List.append_cons, ended_append quiet, ended_concat, h.terminal]
  · rw [history, List.append_cons]
    refine endsFresh_append (endsFresh_concat h.fresh ?_) quiet
    intro id ends
    rw [← h.terminal]
    exact fresh id ends

theorem Settles.complete (h : m.Settles) (o : Owner) (rest : List Frame) (slot : SlotSession) :
    (execute s m o rest (.perform (.complete slot))).Settles := by
  let f : Frame := .perform (.complete slot)
  have history : (execute s m o rest f).history = m.history ++ m.recorded s o f := execute_history
  have terminal : (execute s m o rest f).terminal = m.terminalAfter s f := execute_terminal
  by_cases known : slot.sessionId ∈ m.terminal
  · simp only [f, recorded, terminalAfter, if_pos known] at history terminal
    exact h.append terminal history (by simp)
  · simp only [f, recorded, terminalAfter, if_neg known] at history terminal
    refine h.cons (.completed slot.sessionId) history ?_ ?_ ?_
    · simp [measured, Occurrence.Quiet]
    · rintro id rfl
      exact known
    · intro id
      rw [terminal]
      simp [Occurrence.Ends, Occurrence.Unlists, or_comm, eq_comm]

theorem Settles.poll (h : m.Settles) (o : Owner) (rest : List Frame) :
    (execute s m o rest .poll).Settles := by
  have history : (execute s m o rest .poll).history = m.history ++ m.recorded s o .poll :=
    execute_history
  have terminal : (execute s m o rest .poll).terminal = m.terminalAfter s .poll := execute_terminal
  simp only [recorded, terminalAfter] at history terminal
  refine h.cons (.polled m.passes o m.clock m.slots (m.claimable s)) history ?_ ?_ ?_
  · split <;> simp [Occurrence.Quiet]
  · intro id ends
    obtain ⟨slot, claimed, rfl⟩ := List.mem_map.mp ends
    exact (poll_claimed claimed).2.2
  · intro id
    rw [terminal, mem_poll_terminal]
    simp only [Occurrence.Ends, Occurrence.Unlists, claimable, Classical.not_not]
    exact or_comm

theorem recorded_quiet {o : Owner} {f : Frame} (complete : ∀ slot, f ≠ .perform (.complete slot))
    (poll : f ≠ .poll) : ∀ x ∈ m.recorded s o f, x.Quiet := by
  intro x hx
  have records := records s m o f
  generalize m.recorded s o f = made at hx records
  cases records with
  | completes slot => exact absurd rfl (complete slot)
  | claims => exact absurd rfl poll
  | idles => exact absurd rfl poll
  | releases =>
    simp only [measured, List.cons_append, List.nil_append, List.mem_cons, List.not_mem_nil,
      or_false] at hx
    rcases hx with rfl | rfl | rfl | rfl <;> trivial
  | nothing => cases hx
  | notes | ends | captures | hookEnds =>
    rw [List.mem_singleton.mp hx]
    trivial

theorem terminalAfter_of_quiet {f : Frame} (complete : ∀ slot, f ≠ .perform (.complete slot))
    (poll : f ≠ .poll) : m.terminalAfter s f = m.terminal := by
  unfold terminalAfter
  split
  · exact absurd rfl (complete _)
  · exact absurd rfl poll
  · rfl

theorem Settles.execute (h : m.Settles) (o : Owner) (rest : List Frame) (f : Frame) :
    (execute s m o rest f).Settles := by
  by_cases complete : ∃ slot, f = .perform (.complete slot)
  · obtain ⟨slot, rfl⟩ := complete
    exact h.complete o rest slot
  by_cases poll : f = .poll
  · subst poll
    exact h.poll o rest
  have other : ∀ slot, f ≠ .perform (.complete slot) := fun slot hf => complete ⟨slot, hf⟩
  exact h.append (execute_terminal.trans (terminalAfter_of_quiet other poll)) execute_history
    (recorded_quiet other poll)

theorem Settles.reached (run : Run s past m) : m.Settles := by
  induction run with
  | new slots hooks =>
    constructor
    · intro id
      simp [Machine.new, not_ended_nil]
    · intro id before e after split
      simp [Machine.new] at split
  | issue operation _ _ _ ih => exact ⟨ih.terminal, ih.fresh⟩
  | step run hs ih =>
    obtain ⟨o, f, rest, -, -, -, rfl⟩ | ⟨-, h⟩ := step_cases (Tidy.reached run) hs
    · exact ih.execute o rest f
    · obtain ⟨notes, history⟩ := h.history
      exact ih.append h.terminal history (by simp [Occurrence.Quiet])

end Machine

/-- The terminal sessions are exactly the ended ones. Between two ends of one session a pass polls
a list without it, no pass claims it twice, and until such a pass neither completing nor polling
touches it. -/
theorem terminal_sessions_are_ended {s : Setup} {m : Machine} (h : Reachable s m) :
    (∀ id, id ∈ m.terminal ↔ Ended id m.history) ∧
    (∀ id before first between second after,
      m.history = before ++ first :: between ++ second :: after → first.Ends id → second.Ends id →
        ∃ e ∈ between, e.Unlists id) ∧
    (∀ pass owner time listed claimed, .polled pass owner time listed claimed ∈ m.history →
      (claimed.map (·.sessionId)).Nodup) ∧
    ∀ id, Ended id m.history →
      (∀ slot, slot.sessionId = id → Machine.completeSession s m slot = m) ∧
        id ∉ (m.claimable s).map (·.sessionId) := by
  obtain ⟨past, run⟩ := h
  have settles := Machine.Settles.reached run
  refine ⟨settles.terminal, ?_, ?_, ?_⟩
  · intro id before first between second after split firstEnds secondEnds
    have fresh := settles.fresh id _ second after split secondEnds
    refine Classical.byContradiction fun listed => fresh ?_
    exact ⟨before, first, between, rfl, firstEnds, fun x hx unlists => listed ⟨x, hx, unlists⟩⟩
  · intro pass owner time listed claimed polled
    obtain ⟨terminal, rfl⟩ := run.polled polled
    exact claim_nodup
  · intro id ended
    have terminal := (settles.terminal id).mpr ended
    refine ⟨?_, ?_⟩
    · rintro slot rfl
      exact if_pos terminal
    · intro claimed
      obtain ⟨slot, mem, rfl⟩ := List.mem_map.mp claimed
      exact (poll_claimed mem).2.2 terminal

def nestedPass : Machine :=
  (Machine.new [plainSlot "a" 100, plainSlot "b" 10] [⟨"a", .reclaim⟩]).operate .plain .reclaim

theorem terminal_sessions_are_ended_nested :
    Reachable .plain nestedPass ∧ Ended "a" nestedPass.history ∧
      ¬ Ended "b" nestedPass.history := by
  have reached : Reachable .plain nestedPass := (Reachable.new _ _).operate .reclaim rfl rfl
  obtain ⟨terminal, -⟩ := terminal_sessions_are_ended reached
  refine ⟨reached, (terminal "a").mp ?_, mt (terminal "b").mpr ?_⟩
  · decide +kernel
  · decide +kernel

end Reclaimer
end NodeFleet
