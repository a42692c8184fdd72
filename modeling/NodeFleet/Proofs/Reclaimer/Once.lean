import NodeFleet.Proofs.Reclaimer.Balance
/-!
How often a session ends. A session that the proxy lists during one stretch is claimed at most once,
and not at all after it was completed. What the reclaimer remembers of it goes with the first poll
that misses it: only a completion that arrives after such a poll ends the session again.
-/

set_option autoImplicit false
namespace NodeFleet
namespace Reclaimer

namespace Machine

def Lists (m : Machine) (id : String) : Prop := id ∈ m.slots.map (·.sessionId)

instance (m : Machine) (id : String) : Decidable (m.Lists id) := inferInstanceAs (Decidable (_ ∈ _))

def completion? (m : Machine) : Option String :=
  match m.next? with
  | some (.perform (.complete slot)) => some slot.sessionId
  | _ => none

end Machine

/-- Some of the machines, and later one that no longer does, list the session; the latest machine
comes first. -/
def Dropped (id : String) : List Machine → Prop
  | [] => False
  | m :: past => (¬ m.Lists id ∧ ∃ x ∈ past, x.Lists id) ∨ Dropped id past

/-- Once the proxy has stopped listing the session, it never lists it again. -/
def OneStretch (id : String) : List Machine → Prop
  | [] => True
  | m :: past => (m.Lists id → ¬ Dropped id past) ∧ OneStretch id past

/-- The session is completed only when it has been listed before. -/
def CompletedOnceListed (id : String) : List Machine → Prop
  | [] => True
  | m :: past =>
    (m.completion? = some id → ∃ x ∈ m :: past, x.Lists id) ∧ CompletedOnceListed id past

instance decidableDropped (id : String) :
    (machines : List Machine) → Decidable (Dropped id machines)
  | [] => .isFalse not_false
  | _ :: past =>
    have := decidableDropped id past
    inferInstanceAs (Decidable (_ ∨ _))

instance decidableOneStretch (id : String) :
    (machines : List Machine) → Decidable (OneStretch id machines)
  | [] => .isTrue trivial
  | _ :: past =>
    have := decidableOneStretch id past
    inferInstanceAs (Decidable (_ ∧ _))

instance decidableCompletedOnceListed (id : String) :
    (machines : List Machine) → Decidable (CompletedOnceListed id machines)
  | [] => .isTrue trivial
  | _ :: past =>
    have := decidableCompletedOnceListed id past
    inferInstanceAs (Decidable (_ ∧ _))

/-- The session was ended, and a later poll has missed it. -/
def Gone (id : String) (history : List Occurrence) : Prop :=
  ∃ before e after, history = before ++ e :: after ∧ e.Ends id ∧ ∃ x ∈ after, x.Unlists id

/-- Each end of the session is the first, or a completion after a poll that missed the session. -/
def EndsOnce (id : String) (history : List Occurrence) : Prop :=
  ∀ before e after, history = before ++ e :: after → e.Ends id →
    (∀ x ∈ before, ¬ x.Ends id) ∨ e = .completed id ∧ Gone id before

section
variable {id : String} {history new : List Occurrence} {e : Occurrence}

theorem gone_concat :
    Gone id (history ++ [e]) ↔ Gone id history ∨ (∃ x ∈ history, x.Ends id) ∧ e.Unlists id := by
  constructor
  · rintro ⟨before, x, after, split, ends, y, mem, unlists⟩
    obtain ⟨rfl, rfl⟩ | ⟨rest, rfl, rfl⟩ := split_concat split
    · obtain rfl : [] = after := (List.cons.inj (List.append_cancel_left split)).2
      cases mem
    · rcases List.mem_append.mp mem with early | last
      · exact .inl ⟨before, x, rest, rfl, ends, y, early, unlists⟩
      · rw [List.mem_singleton.mp last] at unlists
        exact .inr ⟨⟨x, by simp, ends⟩, unlists⟩
  · rintro (⟨before, x, after, rfl, ends, y, mem, unlists⟩ | ⟨⟨x, mem, ends⟩, unlists⟩)
    · exact ⟨before, x, after ++ [e], by simp, ends, y, List.mem_append_left _ mem, unlists⟩
    · obtain ⟨before, after, rfl⟩ := List.append_of_mem mem
      exact ⟨before, x, after ++ [e], by simp, ends, e, by simp, unlists⟩

theorem gone_append (quiet : ∀ x ∈ new, x.Quiet) : Gone id (history ++ new) ↔ Gone id history := by
  induction new generalizing history with
  | nil => rw [List.append_nil]
  | cons e new ih =>
    have first : e.Quiet := quiet e List.mem_cons_self
    rw [List.append_cons, ih fun x hx => quiet x (List.mem_cons_of_mem e hx), gone_concat]
    simp [first.not_unlists]

theorem gone_of_not_ended (ends : ∃ x ∈ history, x.Ends id) (unended : ¬ Ended id history) :
    Gone id history := by
  obtain ⟨e, mem, ends⟩ := ends
  obtain ⟨before, after, rfl⟩ := List.append_of_mem mem
  refine ⟨before, e, after, rfl, ends, Classical.byContradiction fun listed => unended ?_⟩
  exact ⟨before, e, after, rfl, ends, fun x hx unlists => listed ⟨x, hx, unlists⟩⟩

theorem endsOnce_concat (h : EndsOnce id history)
    (once : e.Ends id → (∀ x ∈ history, ¬ x.Ends id) ∨ e = .completed id ∧ Gone id history) :
    EndsOnce id (history ++ [e]) := by
  intro before x after split ends
  obtain ⟨rfl, rfl⟩ | ⟨rest, rfl, rfl⟩ := split_concat split
  · exact once ends
  · exact h before x rest rfl ends

theorem endsOnce_append (h : EndsOnce id history) (quiet : ∀ x ∈ new, x.Quiet) :
    EndsOnce id (history ++ new) := by
  induction new generalizing history with
  | nil => rwa [List.append_nil]
  | cons e new ih =>
    have first : e.Quiet := quiet e List.mem_cons_self
    rw [List.append_cons]
    exact ih (endsOnce_concat h fun ends => absurd ends first.not_ends)
      fun x hx => quiet x (List.mem_cons_of_mem e hx)

end

/-- What is known of a session that is listed during one stretch: it was listed before it ended, and
no longer is once a poll has missed it. -/
structure Tracked (id : String) (past : List Machine) (m : Machine) : Prop where
  listed : (∃ e ∈ m.history, e.Ends id) → ∃ x ∈ m :: past, x.Lists id
  dropped : Gone id m.history → Dropped id (m :: past)
  once : EndsOnce id m.history

namespace Tracked
variable {s : Setup} {id : String} {past : List Machine} {m m' : Machine}

theorem quiet (h : Tracked id past m) {new : List Occurrence}
    (history : m'.history = m.history ++ new) (quiet : ∀ x ∈ new, x.Quiet) :
    Tracked id (m :: past) m' := by
  constructor
  · rw [history]
    rintro ⟨e, mem, ends⟩
    rcases List.mem_append.mp mem with old | made
    · obtain ⟨x, hx, lists⟩ := h.listed ⟨e, old, ends⟩
      exact ⟨x, List.mem_cons_of_mem m' hx, lists⟩
    · exact absurd ends (quiet e made).not_ends
  · rw [history, gone_append quiet]
    exact fun gone => .inr (h.dropped gone)
  · rw [history]
    exact endsOnce_append h.once quiet

theorem not_dropped (stretch : OneStretch id (m :: past)) (lists : m.Lists id) :
    ¬ Dropped id (m :: past) := by
  rintro (⟨unlisted, -⟩ | earlier)
  · exact unlisted lists
  · exact stretch.1 lists earlier

theorem cons (h : Tracked id past m) (stretch : OneStretch id (m :: past)) (e : Occurrence)
    {new : List Occurrence} (history : m'.history = m.history ++ e :: new)
    (quiet : ∀ x ∈ new, x.Quiet) (listed : e.Ends id → ∃ x ∈ m :: past, x.Lists id)
    (unlisted : e.Unlists id → ¬ m.Lists id) (fresh : e.Ends id → ¬ Ended id m.history)
    (claimed : e.Ends id → e = .completed id ∨ m.Lists id) : Tracked id (m :: past) m' := by
  constructor
  · rw [history, List.append_cons]
    rintro ⟨x, mem, ends⟩
    have found : ∃ y ∈ m :: past, y.Lists id := by
      rcases List.mem_append.mp mem with mem | made
      · rcases List.mem_append.mp mem with old | now
        · exact h.listed ⟨x, old, ends⟩
        · rw [List.mem_singleton.mp now] at ends
          exact listed ends
      · exact absurd ends (quiet x made).not_ends
    obtain ⟨y, hy, lists⟩ := found
    exact ⟨y, List.mem_cons_of_mem m' hy, lists⟩
  · rw [history, List.append_cons, gone_append quiet, gone_concat]
    rintro (gone | ⟨ends, unlists⟩)
    · exact .inr (h.dropped gone)
    · have absent := unlisted unlists
      obtain ⟨x, hx, lists⟩ := h.listed ends
      rcases List.mem_cons.mp hx with rfl | hx
      · exact absurd lists absent
      · exact .inr (.inl ⟨absent, x, hx, lists⟩)
  · rw [history, List.append_cons]
    refine endsOnce_append (endsOnce_concat h.once fun ends => ?_) quiet
    by_cases before : ∃ x ∈ m.history, x.Ends id
    -- it has ended and is terminal no more: a poll has missed it, so it is listed no more either
    · have gone := gone_of_not_ended before (fresh ends)
      rcases claimed ends with completed | lists
      · exact .inr ⟨completed, gone⟩
      · exact absurd (h.dropped gone) (not_dropped stretch lists)
    · exact .inl fun x hx ends => before ⟨x, hx, ends⟩

theorem complete (h : Tracked id past m) (run : Run s past m) (stretch : OneStretch id (m :: past))
    (onceListed : CompletedOnceListed id (m :: past)) {o : Owner} {rest : List Frame}
    {slot : SlotSession} (running : m.running = some o)
    (frames : (m.fiber o).frames = .perform (.complete slot) :: rest) :
    Tracked id (m :: past) (m.execute s o rest (.perform (.complete slot))) := by
  let f : Frame := .perform (.complete slot)
  have history : (m.execute s o rest f).history = m.history ++ m.recorded s o f :=
    Machine.execute_history
  by_cases known : slot.sessionId ∈ m.terminal
  · simp only [f, Machine.recorded, if_pos known] at history
    exact h.quiet history (by simp)
  · simp only [f, Machine.recorded, if_neg known] at history
    have next := Machine.next?_of_running running frames
    refine h.cons stretch (.completed slot.sessionId) history ?_ ?_ ?_ ?_ ?_
    · simp [Machine.measured, Occurrence.Quiet]
    · rintro rfl
      exact onceListed.1 (by simp [Machine.completion?, next])
    · exact fun unlists => unlists.elim
    · rintro rfl
      exact mt ((Machine.Settles.reached run).terminal slot.sessionId).mpr known
    · rintro rfl
      exact .inl rfl

theorem poll (h : Tracked id past m) (run : Run s past m) (stretch : OneStretch id (m :: past))
    (o : Owner) (rest : List Frame) : Tracked id (m :: past) (m.execute s o rest .poll) := by
  have history : (m.execute s o rest .poll).history = m.history ++ m.recorded s o .poll :=
    Machine.execute_history
  simp only [Machine.recorded] at history
  let e : Occurrence := .polled m.passes o m.clock m.slots (m.claimable s)
  have lists : e.Ends id → m.Lists id := by
    intro ends
    obtain ⟨slot, claimed, rfl⟩ := List.mem_map.mp ends
    exact List.mem_map_of_mem (poll_claimed claimed).1
  refine h.cons stretch e history ?_ ?_ ?_ ?_ ?_
  · split <;> simp [Occurrence.Quiet]
  · exact fun ends => ⟨m, List.mem_cons_self, lists ends⟩
  · exact fun unlists => unlists
  · intro ends
    obtain ⟨slot, claimed, rfl⟩ := List.mem_map.mp ends
    exact mt ((Machine.Settles.reached run).terminal slot.sessionId).mpr (poll_claimed claimed).2.2
  · exact fun ends => .inr (lists ends)

theorem reached (run : Run s past m) (stretch : OneStretch id (m :: past))
    (onceListed : CompletedOnceListed id (m :: past)) : Tracked id past m := by
  induction run with
  | new slots hooks =>
    constructor
    · rintro ⟨e, mem, -⟩
      cases mem
    · rintro ⟨before, e, after, split, -⟩
      simp [Machine.new] at split
    · intro before e after split
      simp [Machine.new] at split
  | issue operation _ _ _ ih =>
    have h := ih stretch.2 onceListed.2
    exact h.quiet (List.append_nil _).symm (by simp)
  | step run hs ih =>
    have h := ih stretch.2 onceListed.2
    obtain ⟨o, f, rest, running, frames, -, rfl⟩ | ⟨-, tended⟩ :=
      Machine.step_cases (Machine.Tidy.reached run) hs
    -- only completions and polls end a session, and only polls miss one
    · by_cases complete : ∃ slot, f = .perform (.complete slot)
      · obtain ⟨slot, rfl⟩ := complete
        exact h.complete run stretch.2 onceListed.2 running frames
      by_cases poll : f = .poll
      · subst poll
        exact h.poll run stretch.2 o rest
      · exact h.quiet Machine.execute_history
          (Machine.recorded_quiet (fun slot hf => complete ⟨slot, hf⟩) poll)
    · obtain ⟨notes, history⟩ := tended.history
      exact h.quiet history (by simp [Occurrence.Quiet])

end Tracked

namespace Occurrence

def claims (id : String) : Occurrence → Bool
  | .polled _ _ _ _ claimed => id ∈ claimed.map (·.sessionId)
  | _ => false

theorem ends_iff {id : String} {e : Occurrence} :
    e.Ends id ↔ (e.claims id || e.closes .completed id) = true := by
  cases e <;> simp [Ends, claims, closes]

theorem ends_of_claims {id : String} {e : Occurrence} (claims : e.claims id = true) : e.Ends id :=
  ends_iff.mpr (by rw [claims]; rfl)

theorem not_closes_of_claims {id : String} (e : Occurrence) (h : e.claims id = true) :
    e.closes .completed id = false := by
  cases e with
  | polled pass owner time listed claimed => rfl
  | _ => cases h

end Occurrence

section
variable {id : String} {history : List Occurrence}

theorem countP_le_one {p : Occurrence → Bool}
    (h : ∀ before e after, history = before ++ e :: after → p e = true →
      ∀ x ∈ before, p x = false) : history.countP p ≤ 1 := by
  induction history with
  | nil => exact Nat.zero_le 1
  | cons e r ih =>
    cases first : p e with
    | false =>
      rw [List.countP_cons_of_neg (by simp [first])]
      refine ih fun before x after split hx y hy => ?_
      exact h (e :: before) x after (by rw [split]; rfl) hx y (List.mem_cons_of_mem e hy)
    | true =>
      have none : r.countP p = 0 := by
        rw [List.countP_eq_zero]
        intro x mem hx
        obtain ⟨before, after, split⟩ := List.append_of_mem mem
        have absent := h (e :: before) x after (by rw [split]; rfl) hx e List.mem_cons_self
        rw [first] at absent
        cases absent
      rw [List.countP_cons_of_pos first]
      omega

theorem EndsOnce.claim_first {before after : List Occurrence} {e : Occurrence}
    (h : EndsOnce id history) (split : history = before ++ e :: after)
    (claims : e.claims id = true) : ∀ x ∈ before, ¬ x.Ends id := by
  rcases h before e after split (Occurrence.ends_of_claims claims) with first | ⟨rfl, -⟩
  · exact first
  · cases claims

theorem EndsOnce.claims_le (h : EndsOnce id history) : history.countP (·.claims id) ≤ 1 := by
  refine countP_le_one fun before e after split claims x mem => eq_false_of_ne_true fun again => ?_
  exact h.claim_first split claims x mem (Occurrence.ends_of_claims again)

theorem EndsOnce.ends_le (h : EndsOnce id history) (here : ¬ Gone id history) :
    history.countP (fun e => e.claims id || e.closes .completed id) ≤ 1 := by
  refine countP_le_one fun before e after split ends x mem => ?_
  rcases h before e after split (Occurrence.ends_iff.mpr ends) with first | ⟨-, gone⟩
  · simpa using mt Occurrence.ends_iff.mpr (first x mem)
  · obtain ⟨early, y, late, rfl, ends, z, mem, unlists⟩ := gone
    refine absurd ⟨early, y, late ++ e :: after, ?_, ends, z, List.mem_append_left _ mem, unlists⟩
      here
    rw [split, List.append_assoc]
    rfl

end

section
variable {s : Setup} {past : List Machine} {m : Machine} {id : String}

theorem head_le_countP (p : Occurrence → Bool) (e : Occurrence) (rest : List Occurrence) :
    (if p e then 1 else 0) ≤ (e :: rest).countP p := by
  rw [List.countP_cons]
  exact Nat.le_add_left _ _

theorem countP_le_claims (id : String) {claimed done : List SlotSession}
    (unique : (claimed.map (·.sessionId)).Nodup) (within : done.Sublist claimed)
    (pass time : Nat) (owner : Owner) (listed : List SlotSession) :
    done.countP (·.sessionId = id) ≤
      if (Occurrence.polled pass owner time listed claimed).claims id then 1 else 0 := by
  have all : claimed.countP (·.sessionId = id) = (claimed.map (·.sessionId)).count id := by
    rw [List.count, List.countP_map]
    exact List.countP_congr fun slot _ => by simp
  have once := unique.count (a := id)
  have most := within.countP_le (p := (·.sessionId = id))
  simp only [Occurrence.claims, decide_eq_true_eq]
  omega

theorem Stage.closes_le_claims {pass : Nat} (h : Stage m pass) (run : Run s past m) (id : String) :
    (eventsOf pass m.history).countP (·.closes .reclaimed id) ≤
      (eventsOf pass m.history).countP (·.claims id) := by
  cases h with
  | unborn fresh frames events =>
    rw [events]
    exact Nat.le_refl _
  | releasing old owner time listed done left previous served serves frames events =>
    have most := countP_le_claims id (run.claimed_nodup events) (List.sublist_append_left done left)
      pass time owner listed
    rw [events, List.countP_cons_of_neg (by simp [Occurrence.closes]), serves.countP_closes]
    exact Nat.le_trans most (head_le_countP _ _ _)
  | capturing old owner time listed done left slot previous phase occupied served serves frames
      events =>
    have within : (done ++ [slot]).Sublist (done ++ slot :: left) := by
      rw [List.append_cons done slot left]
      exact List.sublist_append_left _ left
    have most := countP_le_claims id (run.claimed_nodup events) within pass time owner listed
    have made : [Occurrence.released pass slot .orphan phase occupied].countP
        (·.closes .reclaimed id) = [slot].countP (·.sessionId = id) := by
      simp [List.countP_cons, Occurrence.closes]
    rw [events, countP_own rfl, serves.countP_closes, made, ← List.countP_append]
    exact Nat.le_trans most (head_le_countP _ _ _)
  | ended old owner time listed done served serves frames events =>
    have most := countP_le_claims id (run.claimed_nodup events) (List.Sublist.refl done)
      pass time owner listed
    rw [events, countP_own rfl, serves.countP_closes]
    exact Nat.le_trans most (head_le_countP _ _ _)

theorem closes_le_claims (run : Run s past m) (id : String) :
    m.history.countP (·.closes .reclaimed id) ≤ m.history.countP (·.claims id) :=
  countP_le_of_passes (fun e _ => pass?_of_closes id e)
    fun pass => (Stage.reached run pass).closes_le_claims run id

end

/-- Of the session no more than so many releases, samples of a reclaim and incomplete captures. -/
structure ServedAtMost (id : String) (n : Nat) (who : Option String) (history : List Occurrence) :
    Prop where
  released : history.countP (·.closes .reclaimed id) ≤ n
  counted : taken (Counts .reclaimed) id (samplesFor who history) ≤ n
  timed : taken (Times .reclaimed) id (samplesFor who history) ≤ n
  captured : history.countP (·.captures id false) ≤ n

namespace ServedAtMost
variable {id : String} {n : Nat} {who : Option String} {history before after : List Occurrence}

theorem of_append (h : ServedAtMost id n who (before ++ after)) :
    ServedAtMost id n (lastNamed who before) after := by
  obtain ⟨released, counted, timed, captured⟩ := h
  rw [samplesFor_append, taken_append] at counted timed
  rw [List.countP_append] at released captured
  constructor <;> omega

theorem reached {s : Setup} {past : List Machine} {m : Machine} (run : Run s past m) (id : String) :
    ServedAtMost id (m.history.countP (·.claims id)) none m.history := by
  have balanced := Balanced.reached run
  have released := closes_le_claims run id
  constructor
  · exact released
  · rw [balanced.counted]
    exact released
  · rw [balanced.timed]
    exact released
  · exact Nat.le_trans (captures_le_closes run id) released

end ServedAtMost

theorem Run.claimed_at {s : Setup} {past : List Machine} {m : Machine} (run : Run s past m)
    {id : String} {before after : List Occurrence} {e : Occurrence}
    (split : m.history = before ++ e :: after) (claims : e.claims id = true) :
    ∃ older x, Run s older x ∧ x.history = before := by
  cases e with
  | polled pass owner time listed claimed =>
    obtain ⟨n, noted⟩ | ⟨older, x, o, f, rest, first, last, earlier, -, rfl, recorded, -⟩ :=
      run.recorded_split split
    · cases noted
    have mem : .polled pass owner time listed claimed ∈ x.recorded s o f := by
      rw [recorded]
      exact List.mem_append_right _ List.mem_cons_self
    obtain ⟨rfl, -⟩ := Machine.polled_of_mem_recorded mem
    cases first with
    | nil => exact ⟨older, x, earlier, (List.append_nil _).symm⟩
    | cons y first =>
      have later : .polled pass owner time listed claimed ∈ (x.recorded s o .poll).tail := by
        rw [recorded]
        exact List.mem_append_right _ List.mem_cons_self
      rw [Machine.recorded] at later
      split at later <;> simp at later
  | _ => cases claims

section
variable {id : String} {history before after : List Occurrence}

theorem EndsOnce.not_claimed (h : EndsOnce id history)
    (split : history = before ++ .completed id :: after) : ∀ x ∈ after, x.claims id = false := by
  intro x mem
  obtain ⟨between, rest, rfl⟩ := List.append_of_mem mem
  refine eq_false_of_ne_true fun claims => ?_
  have later : history = (before ++ .completed id :: between) ++ x :: rest := by
    rw [split, List.append_assoc]
    rfl
  exact h.claim_first later claims (.completed id) (List.mem_append_right _ List.mem_cons_self) rfl

theorem countP_claims_eq_zero (fresh : ∀ x ∈ history, ¬ x.Ends id) :
    history.countP (·.claims id) = 0 := by
  exact List.countP_eq_zero.mpr fun x mem claims => fresh x mem (Occurrence.ends_of_claims claims)

end

theorem countP_add_le {p q : Occurrence → Bool} (apart : ∀ e, p e = true → q e = false)
    (history : List Occurrence) :
    history.countP p + history.countP q ≤ history.countP fun e => p e || q e := by
  induction history with
  | nil => exact Nat.le_refl 0
  | cons e r ih =>
    rw [List.countP_cons, List.countP_cons, List.countP_cons]
    cases hp : p e with
    | true =>
      rw [apart e hp]
      simp only [Bool.true_or, if_true, Bool.false_eq_true, if_false]
      omega
    | false =>
      simp only [Bool.false_or, Bool.false_eq_true, if_false]
      omega

/-- A session that is listed during one stretch, and completed only once it was listed, is claimed
at most once and never after a completion. There is at most one release of it, with one sample of each
kind and one capture as incomplete, all after that claim; what of this follows a completion belongs
to a claim made before it. Until a poll has missed the session after its end it is counted, timed
and captured at most once in all, and completing it once more does nothing; only a completion after
such a poll ends it again. -/
theorem ended_once_in_one_stretch {s : Setup} {past : List Machine} {m : Machine} {id : String}
    (run : Run s past m) (stretch : OneStretch id (m :: past))
    (onceListed : CompletedOnceListed id (m :: past)) :
    let samples := samplesFor none m.history
    EndsOnce id m.history ∧
    m.history.countP (·.claims id) ≤ 1 ∧
    ServedAtMost id (m.history.countP (·.claims id)) none m.history ∧
    (∀ before e after, m.history = before ++ e :: after → e.claims id = true →
      (∀ x ∈ before, ¬ x.Ends id) ∧ ServedAtMost id 0 none before) ∧
    (∀ before after, m.history = before ++ .completed id :: after →
      (∀ x ∈ after, x.claims id = false) ∧
      ServedAtMost id (before.countP (·.claims id)) (lastNamed none before) after) ∧
    (¬ Gone id m.history →
      taken (Counts .reclaimed) id samples + taken (Counts .completed) id samples ≤ 1 ∧
      taken (Times .reclaimed) id samples + taken (Times .completed) id samples ≤ 1 ∧
      m.history.countP (·.captures id false) + m.history.countP (·.captures id true) ≤ 1) ∧
    (Ended id m.history →
      ∀ slot, slot.sessionId = id → Machine.completeSession s m slot = m) := by
  intro samples
  have once := (Tracked.reached run stretch onceListed).once
  have served := ServedAtMost.reached run id
  refine ⟨once, once.claims_le, served, ?_, ?_, fun here => ?_, ?_⟩
  · intro before e after split claims
    have fresh := once.claim_first split claims
    obtain ⟨older, x, earlier, rfl⟩ := run.claimed_at split claims
    refine ⟨fresh, ?_⟩
    rw [← countP_claims_eq_zero fresh]
    exact ServedAtMost.reached earlier id
  · intro before after split
    have unclaimed := once.not_claimed split
    have later : after.countP (·.claims id) = 0 :=
      List.countP_eq_zero.mpr fun x mem claims => by simp [unclaimed x mem] at claims
    have all : m.history.countP (·.claims id) = before.countP (·.claims id) := by
      rw [split, List.countP_append, List.countP_cons_of_neg (by simp [Occurrence.claims]), later]
      rfl
    rw [all, split, List.append_cons] at served
    have rest := served.of_append
    rw [lastNamed, List.foldl_append] at rest
    exact ⟨unclaimed, rest⟩
  · have balanced := Balanced.reached run
    have ends := once.ends_le here
    have apart := countP_add_le (p := (·.claims id)) (q := (·.closes .completed id))
      Occurrence.not_closes_of_claims m.history
    have released := served.released
    have captured := served.captured
    simp only [samples, balanced.counted, balanced.timed, balanced.captured]
    omega
  · rintro ended slot rfl
    exact if_pos (((Machine.Settles.reached run).terminal _).mpr ended)

def reclaimedOnce : List Machine × Machine :=
  andThen .plain ([], .new [plainSlot "a" 100] []) .reclaim

def promptCompletion : List Machine × Machine :=
  andThen .plain reclaimedOnce (.complete (plainSlot "a" 100))

theorem reclaimedOnce_run : Run .plain reclaimedOnce.1 reclaimedOnce.2 :=
  (Run.new [plainSlot "a" 100] []).andThen .reclaim rfl rfl

theorem ended_once_in_one_stretch_prompt :
    Run .plain promptCompletion.1 promptCompletion.2 ∧
      OneStretch "a" (promptCompletion.2 :: promptCompletion.1) ∧
      CompletedOnceListed "a" (promptCompletion.2 :: promptCompletion.1) ∧
      promptCompletion.2.history.countP (·.closes .reclaimed "a") = 1 ∧
      taken (Counts .reclaimed) "a" (samplesFor none promptCompletion.2.history) ≤ 1 ∧
      Machine.completeSession .plain promptCompletion.2 (plainSlot "a" 100) =
        promptCompletion.2 := by
  have run : Run .plain promptCompletion.1 promptCompletion.2 :=
    reclaimedOnce_run.andThen _ (by decide +kernel) (by decide +kernel)
  have stretch : OneStretch "a" (promptCompletion.2 :: promptCompletion.1) := by decide +kernel
  have listed : CompletedOnceListed "a" (promptCompletion.2 :: promptCompletion.1) := by
    decide +kernel
  have ended : Ended "a" promptCompletion.2.history :=
    ((Machine.Settles.reached run).terminal "a").mp (by decide +kernel)
  obtain ⟨-, once, served, -, -, -, still⟩ := ended_once_in_one_stretch run stretch listed
  have counted := Nat.le_trans served.counted once
  exact ⟨run, stretch, listed, by decide +kernel, counted, still ended _ rfl⟩

def missedOnce : List Machine × Machine :=
  andThen .plain (andThen .plain reclaimedOnce (.setSlots [])) .reclaim

def lateCompletion : List Machine × Machine :=
  andThen .plain missedOnce (.complete (plainSlot "a" 100))

theorem oneStretch_of_unlisted {id : String} {machines : List Machine}
    (h : ∀ x ∈ machines, ¬ x.Lists id) : OneStretch id machines := by
  induction machines with
  | nil => trivial
  | cons m past ih =>
    exact ⟨fun lists => absurd lists (h m List.mem_cons_self),
      ih fun x hx => h x (List.mem_cons_of_mem m hx)⟩

theorem completedOnceListed_of_ne {id : String} {machines : List Machine}
    (h : ∀ x ∈ machines, x.completion? ≠ some id) : CompletedOnceListed id machines := by
  induction machines with
  | nil => trivial
  | cons m past ih =>
    exact ⟨fun completes => absurd completes (h m List.mem_cons_self),
      ih fun x hx => h x (List.mem_cons_of_mem m hx)⟩

theorem not_every_session_ends_once :
    Run .plain lateCompletion.1 lateCompletion.2 ∧
      (∀ id, OneStretch id (lateCompletion.2 :: lateCompletion.1) ∧
        CompletedOnceListed id (lateCompletion.2 :: lateCompletion.1)) ∧
      lateCompletion.2.history.countP (·.captures "a" false) = 1 ∧
      lateCompletion.2.history.countP (·.captures "a" true) = 1 ∧
      taken (Counts .reclaimed) "a" (samplesFor none lateCompletion.2.history) = 1 ∧
      taken (Counts .completed) "a" (samplesFor none lateCompletion.2.history) = 1 := by
  have unlisted := reclaimedOnce_run.andThen (.setSlots []) (by decide +kernel) (by decide +kernel)
  have missed : Run .plain missedOnce.1 missedOnce.2 :=
    unlisted.andThen .reclaim (by decide +kernel) (by decide +kernel)
  have run : Run .plain lateCompletion.1 lateCompletion.2 :=
    missed.andThen _ (by decide +kernel) (by decide +kernel)
  have only : ∀ x ∈ lateCompletion.2 :: lateCompletion.1,
      (∀ slot ∈ x.slots, slot.sessionId = "a") ∧
        (x.completion? = none ∨ x.completion? = some "a") := by
    decide +kernel
  refine ⟨run, fun id => ?_, by decide +kernel, by decide +kernel, by decide +kernel,
    by decide +kernel⟩
  by_cases here : id = "a"
  · subst here
    exact ⟨by decide +kernel, by decide +kernel⟩
  · refine ⟨oneStretch_of_unlisted fun x hx lists => ?_,
      completedOnceListed_of_ne fun x hx completes => ?_⟩
    · obtain ⟨slot, mem, same⟩ := List.mem_map.mp lists
      exact here (same.symm.trans ((only x hx).1 slot mem))
    · rcases (only x hx).2 with none | a
      · rw [none] at completes
        cases completes
      · rw [a] at completes
        exact here (Option.some.inj completes).symm

end Reclaimer
end NodeFleet
