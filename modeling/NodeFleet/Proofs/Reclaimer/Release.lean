import NodeFleet.Proofs.Reclaimer.History

set_option autoImplicit false
namespace NodeFleet
namespace Reclaimer

/-- A slot still holds its session, and that is idle. -/
def StillHeld (s : Setup) (slot : SlotSession) (slots : List SlotSession) : Prop :=
  ∃ y ∈ slots, y.slotId = slot.slotId ∧ y.sessionId = slot.sessionId ∧
    y.isIdle s.threshold = true

instance (s : Setup) (slot : SlotSession) (slots : List SlotSession) :
    Decidable (StillHeld s slot slots) := inferInstanceAs (Decidable (∃ y ∈ slots, _))

def Occurrence.HitsHeld (s : Setup) : Occurrence → Prop
  | .released _ slot _ _ occupied => StillHeld s slot occupied
  | _ => True

instance (s : Setup) : DecidablePred (Occurrence.HitsHeld s)
  | .released _ slot _ _ occupied => inferInstanceAs (Decidable (StillHeld s slot occupied))
  | .polled .. | .noted _ | .counted _ | .hooked _ | .captured .. | .completed _ | .passEnded .. =>
    .isTrue trivial

/-- The next step takes a slot from its session. -/
inductive Takes (s : Setup) (slot : SlotSession) (x : Machine) : Prop
  | given (slots : List SlotSession) (next : x.next? = some (.perform (.setSlots slots)))
      (gone : ¬ StillHeld s slot slots)
  | freed (pass : Nat) (y : SlotSession) (left : List SlotSession) (previous : Phase) (count : Nat)
      (next : x.next? = some (.releases pass (y :: left) previous count))
      (frees : s.removeOnRelease = true) (same : y.slotId = slot.slotId)

/-- Of the slots that a pass claimed of a list, it still has some to release. Those that were not
taken since are still held, and until the first is released the list is up to date. -/
inductive Owes (s : Setup) (past : List Machine) (m : Machine) (pass : Nat)
    (left : List SlotSession) (count : Nat) : Prop
  | intro (owner : Owner) (time : Nat) (listed done : List SlotSession)
      (polled : .polled pass owner time listed (done ++ left) ∈ m.history)
      (all : done.length + left.length = count)
      (held : ∀ slot ∈ left, StillHeld s slot m.slots ∨
        ∃ x ∈ past, Takes s slot x ∧ .polled pass owner time listed (done ++ left) ∈ x.history)
      (first : done = [] → m.slots = listed)

structure Owing (s : Setup) (past : List Machine) (m : Machine) : Prop where
  owes : ∀ o pass left previous count,
    .releases pass left previous count ∈ (m.fiber o).frames → Owes s past m pass left count
  begun : ∀ o pass left previous count,
    .releases pass left previous count ∈ (m.fiber o).frames.tail → left.length < count
  next : ∀ o pass left previous count,
    (m.fiber o).frames.head? = some (.releases pass left previous count) →
      left.length < count ∨ m.running = some o

namespace Machine
variable {s : Setup} {past : List Machine} {m m' : Machine} {o : Owner} {f : Frame}
  {rest : List Frame} {pass count : Nat} {left : List SlotSession} {previous : Phase}
  {slot : SlotSession}

theorem releases_mem_pushed (h : .releases pass left previous count ∈ m.pushed s f) :
    (f = .poll ∧ pass = m.passes ∧ left = m.claimable s ∧ count = left.length ∧
      m.pushed s f = [.releases pass left previous count]) ∨
      ∃ slot, f = .releases pass (slot :: left) previous count := by
  unfold pushed at h
  split at h
  · simp at h
  · split at h <;> simp at h
  · split at h <;> simp at h
  · split at h
    · cases h
    · rename_i some
      rw [List.mem_singleton] at h
      obtain ⟨rfl, rfl, rfl, rfl⟩ := Frame.releases.inj h
      exact .inl ⟨rfl, rfl, rfl, rfl, by rw [pushed, if_neg some]⟩
  · rename_i q slot left' p c
    have after : Frame.releases pass left previous count = .releases q left' p c := by
      split at h <;> simpa using h
    obtain ⟨rfl, rfl, rfl, rfl⟩ := Frame.releases.inj after
    exact .inr ⟨slot, rfl⟩
  · cases h

theorem held_or_taken (running : m.running = some o) (frames : (m.fiber o).frames = f :: rest)
    (held : StillHeld s slot m.slots) : StillHeld s slot (m.slotsAfter s f) ∨ Takes s slot m := by
  have next := next?_of_running running frames
  unfold slotsAfter
  split
  · rename_i slots
    by_cases kept : StillHeld s slot slots
    · exact .inl kept
    · exact .inr (.given slots next kept)
  · rename_i pass y left previous count
    split
    · rename_i frees
      by_cases same : y.slotId = slot.slotId
      · exact .inr (.freed pass y left previous count next frees same)
      · obtain ⟨z, mem, hz, session, idle⟩ := held
        refine .inl ⟨z, List.mem_filter.mpr ⟨mem, ?_⟩, hz, session, idle⟩
        simpa [hz] using Ne.symm same
    · exact .inl held
  · exact .inl held

end Machine

variable {s : Setup} {past : List Machine} {m m' : Machine} {o o' : Owner} {f : Frame}
  {rest : List Frame} {pass count : Nat} {now left : List SlotSession} {previous : Phase}

theorem Owes.later (h : Owes s past m pass (now ++ left) count) (begun : left.length < count)
    (history : m.history <+: m'.history)
    (kept : ∀ slot, StillHeld s slot m.slots → StillHeld s slot m'.slots ∨ Takes s slot m) :
    Owes s (m :: past) m' pass left count := by
  obtain ⟨owner, time, listed, done, polled, all, held, first⟩ := h
  rw [← List.append_assoc] at polled held
  refine ⟨owner, time, listed, done ++ now, history.subset polled, ?_, ?_, ?_⟩
  · rw [List.length_append] at all ⊢
    omega
  · intro slot mem
    rcases held slot (List.mem_append_right now mem) with held | ⟨x, hx, takes, before⟩
    · rcases kept slot held with held | takes
      · exact .inl held
      · exact .inr ⟨m, List.mem_cons_self, takes, polled⟩
    · exact .inr ⟨x, List.mem_cons_of_mem m hx, takes, before⟩
  · intro none
    rw [List.append_eq_nil_iff] at none
    rw [none.1, none.2, List.length_nil, List.nil_append] at all
    omega

theorem Owes.length_le (h : Owes s past m pass left count) : left.length ≤ count := by
  obtain ⟨owner, time, listed, done, polled, all, held, first⟩ := h
  omega

namespace Machine

theorem owes_poll : Owes s past (execute s m o rest .poll) m.passes (m.claimable s)
    (m.claimable s).length := by
  refine ⟨o, m.clock, m.slots, [], ?_, by simp, ?_, ?_⟩
  · rw [execute_history, List.mem_append, recorded]
    exact .inr List.mem_cons_self
  · intro slot claimed
    obtain ⟨mem, idle, -⟩ := poll_claimed claimed
    rw [execute_slots]
    exact .inl ⟨slot, mem, rfl, rfl, idle⟩
  · intro _
    rw [execute_slots]
    rfl

end Machine

theorem Owing.begun_or_next (h : Owing s past m)
    (mem : .releases pass left previous count ∈ (m.fiber o).frames) : left.length < count ∨
      m.running = some o ∧ m.next? = some (.releases pass left previous count) := by
  cases frames : (m.fiber o).frames with
  | nil =>
    rw [frames] at mem
    cases mem
  | cons g more =>
    rw [frames] at mem
    rcases List.mem_cons.mp mem with rfl | mem
    · rcases h.next o pass left previous count (by rw [frames]; rfl) with begun | running
      · exact .inl begun
      · exact .inr ⟨running, Machine.next?_of_running running frames⟩
    · exact .inl (h.begun o pass left previous count (by rwa [frames]))

theorem Owing.begun_of_ne (h : Owing s past m) (running : m.running = some o) (ho : o' ≠ o)
    (mem : .releases pass left previous count ∈ (m.fiber o').frames) : left.length < count := by
  rcases h.begun_or_next mem with begun | ⟨here, -⟩
  · exact begun
  · rw [running] at here
    exact absurd (Option.some.inj here).symm ho

theorem Owing.begun_of_rests (h : Owing s past m) (rests : m.Rests)
    (mem : .releases pass left previous count ∈ (m.fiber o).frames) : left.length < count := by
  rcases h.begun_or_next mem with begun | ⟨-, next⟩
  · exact begun
  · have waits := rests _ next
    cases waits

theorem Owing.after (h : Owing s past m) (frames : (m.fiber o).frames = f :: rest)
    (mem : .releases pass left previous count ∈ m.pushed s f ++ rest) :
    (f = .poll ∧ pass = m.passes ∧ left = m.claimable s ∧ count = left.length ∧
      m.pushed s f = [.releases pass left previous count]) ∨
      left.length < count ∧ ∃ now, Owes s past m pass (now ++ left) count := by
  rcases List.mem_append.mp mem with mem | mem
  · rcases Machine.releases_mem_pushed mem with poll | ⟨slot, rfl⟩
    · exact .inl poll
    · have owes := h.owes o pass (slot :: left) previous count (by rw [frames]; exact .head _)
      exact .inr ⟨owes.length_le, [slot], owes⟩
  · refine .inr ⟨h.begun o pass left previous count (by rwa [frames]), [], ?_⟩
    exact h.owes o pass left previous count (by rw [frames]; exact .tail _ mem)

theorem Owing.execute (h : Owing s past m) (running : m.running = some o)
    (frames : (m.fiber o).frames = f :: rest) : Owing s (m :: past) (m.execute s o rest f) := by
  have history : m.history <+: (m.execute s o rest f).history := by
    rw [Machine.execute_history]
    exact List.prefix_append _ _
  have kept : ∀ slot, StillHeld s slot m.slots →
      StillHeld s slot (m.execute s o rest f).slots ∨ Takes s slot m := by
    intro slot held
    rw [Machine.execute_slots]
    exact Machine.held_or_taken running frames held
  constructor
  · intro o' pass left previous count mem
    by_cases ho : o' = o
    · subst ho
      rw [Machine.execute_frames frames] at mem
      rcases h.after frames mem with ⟨rfl, rfl, rfl, rfl, -⟩ | ⟨begun, now, owes⟩
      · exact Machine.owes_poll
      · exact owes.later begun history kept
    · rw [Machine.execute_fiber_of_ne ho] at mem
      have owes : Owes s past m pass ([] ++ left) count := h.owes o' pass left previous count mem
      exact owes.later (h.begun_of_ne running ho mem) history kept
  · intro o' pass left previous count mem
    by_cases ho : o' = o
    · subst ho
      rw [Machine.execute_frames frames] at mem
      rcases h.after frames (List.mem_of_mem_tail mem) with ⟨-, -, -, -, alone⟩ | ⟨begun, -⟩
      · rw [alone] at mem
        exact h.begun o' pass left previous count (by rwa [frames])
      · exact begun
    · rw [Machine.execute_fiber_of_ne ho] at mem
      exact h.begun o' pass left previous count mem
  · intro o' pass left previous count head
    rw [Machine.execute_running]
    by_cases ho : o' = o
    · exact .inr (ho ▸ running)
    · rw [Machine.execute_fiber_of_ne ho] at head
      exact h.next o' pass left previous count head

theorem Owing.rests (h : Owing s past m) (rests : m.Rests) (slots : m'.slots = m.slots)
    (history : m.history <+: m'.history)
    (frames : ∀ o, (m'.fiber o).frames = (m.fiber o).frames ∨
      ∃ g, (m'.fiber o).frames = [g] ∧ ∀ pass left previous count,
        .releases pass left previous count ≠ g) : Owing s (m :: past) m' := by
  have old : ∀ o pass left previous count,
      .releases pass left previous count ∈ (m'.fiber o).frames →
      .releases pass left previous count ∈ (m.fiber o).frames := by
    intro o pass left previous count mem
    rcases frames o with same | ⟨g, alone, other⟩
    · rwa [same] at mem
    · rw [alone, List.mem_singleton] at mem
      exact absurd mem (other pass left previous count)
  constructor
  · intro o pass left previous count mem
    have owes : Owes s past m pass ([] ++ left) count :=
      h.owes o pass left previous count (old o pass left previous count mem)
    refine owes.later (h.begun_of_rests rests (old o pass left previous count mem)) history ?_
    intro slot held
    rw [slots]
    exact .inl held
  · intro o pass left previous count mem
    exact h.begun_of_rests rests (old o pass left previous count (List.mem_of_mem_tail mem))
  · intro o pass left previous count head
    have mem := old o pass left previous count (List.mem_of_mem_head? head)
    exact .inl (h.begun_of_rests rests mem)

theorem Owing.reached (run : Run s past m) : Owing s past m := by
  induction run with
  | new slots hooks => constructor <;> simp [Machine.new_frames]
  | issue operation run idle settled ih =>
    refine ih.rests (Machine.rests_of_idle idle) rfl List.prefix_rfl fun o => ?_
    by_cases ho : o = .caller
    · subst ho
      exact .inr ⟨.perform operation, rfl, by simp⟩
    · exact .inl (by rw [Machine.issue_fiber_of_ne operation ho])
  | step run hs ih =>
    obtain ⟨o, f, rest, running, frames, -, rfl⟩ | ⟨rests, h⟩ :=
      Machine.step_cases (Machine.Tidy.reached run) hs
    · exact ih.execute running frames
    · obtain ⟨notes, history⟩ := h.history
      refine ih.rests rests h.slots (by rw [history]; exact List.prefix_append _ _) fun o => ?_
      rcases h.frames o with same | ⟨-, alone⟩
      · exact .inl same
      · exact .inr ⟨.poll, alone, by simp⟩

variable {before after : List Occurrence} {slot : SlotSession} {reason : Reason} {phase : Phase}
  {occupied : List SlotSession}

/-- A release hits a session that its pass found idle and claimed, and the first release of a pass
what the proxy lists. The slot still holds that session unless since the poll an operation has
given it away, or another release has freed it. -/
theorem released_slot_is_held_unless_taken (run : Run s past m)
    (split : m.history = before ++ .released pass slot reason phase occupied :: after) :
    reason = .orphan ∧ ∃ owner time listed claimed,
      .polled pass owner time listed claimed ∈ before ∧ slot ∈ claimed ∧ slot ∈ listed ∧
      slot.isIdle s.threshold = true ∧ (claimed.head? = some slot → occupied = listed) ∧
      (StillHeld s slot occupied ∨ ∃ x ∈ past, Takes s slot x ∧
        .polled pass owner time listed claimed ∈ x.history ∧ x.history <+: before) := by
  obtain ⟨n, noted⟩ | ⟨older, x, o, f, rest, earlier, known, early, running, frames, recorded⟩ :=
    run.recorded_at split
  · cases noted
  obtain ⟨left, previous, count, rfl, rfl, -, rfl⟩ := Machine.released_of_mem_recorded recorded
  have due : .releases pass (slot :: left) previous count ∈ (x.fiber o).frames := by
    rw [frames]
    exact List.mem_cons_self
  obtain ⟨owner, time, listed, done, polled, -, held, first⟩ :=
    (Owing.reached earlier).owes o pass (slot :: left) previous count due
  have mem : slot ∈ done ++ slot :: left := List.mem_append_right done List.mem_cons_self
  obtain ⟨terminal, claimed⟩ := earlier.polled polled
  have unique : ((done ++ slot :: left).map (·.sessionId)).Nodup := by
    rw [claimed]
    exact claim_nodup
  have found := mem
  rw [claimed] at found
  obtain ⟨listed', idle, -⟩ := poll_claimed found
  refine ⟨rfl, owner, time, listed, done ++ slot :: left, early.subset polled, mem, listed', idle,
    ?_, ?_⟩
  · intro head
    refine first ?_
    cases done with
    | nil => rfl
    | cons y done =>
      obtain rfl := Option.some.inj head
      simp at unique
  · rcases held slot List.mem_cons_self with held | ⟨y, hy, takes, before⟩
    · exact .inl held
    · exact .inr ⟨y, known hy, takes, before, (earlier.history_le hy).trans early⟩

def reusedSlot : Machine :=
  (Machine.new [plainSlot "a" 100, plainSlot "b" 100]
    [⟨"a", .setSlots [⟨"b", "c", .zero, ⟨0, 0⟩, []⟩]⟩]).operate .plain .reclaim

theorem not_all_releases_hit_held :
    ¬ ∀ s m, Reachable s m → ∀ e ∈ m.history, e.HitsHeld s := by
  intro h
  have reached : Reachable .plain reusedSlot := (Reachable.new _ _).operate .reclaim rfl rfl
  have hits : ∀ e ∈ reusedSlot.history, e.HitsHeld .plain := h .plain reusedSlot reached
  revert hits
  decide +kernel

theorem released_slot_is_held_unless_taken_reused :
    ∃ past, Run .plain past reusedSlot ∧ ∃ slot, ∃ x ∈ past, Takes .plain slot x := by
  have reached : Reachable .plain reusedSlot := (Reachable.new _ _).operate .reclaim rfl rfl
  obtain ⟨past, run⟩ := reached
  have missed : ∃ e ∈ reusedSlot.history, ¬ e.HitsHeld .plain := by decide +kernel
  obtain ⟨e, mem, misses⟩ := missed
  obtain ⟨before, after, split⟩ := List.append_of_mem mem
  cases e with
  | released pass slot reason phase occupied =>
    obtain ⟨-, owner, time, listed, claimed, -, -, -, -, -, held⟩ :=
      released_slot_is_held_unless_taken run split
    obtain ⟨x, hx, takes, -⟩ := held.resolve_left misses
    exact ⟨past, run, slot, x, hx, takes⟩
  | _ => exact absurd trivial misses

end Reclaimer
end NodeFleet
