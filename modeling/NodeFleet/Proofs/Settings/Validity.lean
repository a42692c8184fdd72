import NodeFleet.Proofs.Reclaimer.Alive
import NodeFleet.Settings.Load

set_option autoImplicit false
namespace NodeFleet

inductive Condition
  | parentNamed
  | imageNamed
  | monitorInterval
  | timeout
  | idleThreshold
  | pollInterval
  | listenAddress
deriving DecidableEq

namespace Condition

/-- In the order in which they are checked. -/
def all : List Condition :=
  [.parentNamed, .imageNamed, .monitorInterval, .timeout, .idleThreshold, .pollInterval,
    .listenAddress]

def Holds (s : Settings) : Condition → Prop
  | .parentNamed => ∃ c ∈ s.parentContainer.toList, isBlankChar c = false
  | .imageNamed => ∃ c ∈ s.nodeImage.toList, isBlankChar c = false
  | .monitorInterval => s.monitorIntervalSecs ≠ 0
  | .timeout => s.engine.timeoutSecs ≠ 0
  | .idleThreshold => s.reclaimer.idleThresholdSecs ≠ 0
  | .pollInterval => 10 ≤ s.reclaimer.pollIntervalMs
  | .listenAddress => ∀ text ∈ s.metrics.listenAddr, (SocketAddress.read? text).isSome = true

instance decidableHolds (s : Settings) : (c : Condition) → Decidable (c.Holds s)
  | .parentNamed => decidable_of_iff (¬ isBlank s.parentContainer) not_isBlank_iff
  | .imageNamed => decidable_of_iff (¬ isBlank s.nodeImage) not_isBlank_iff
  | .monitorInterval => inferInstanceAs (Decidable (_ ≠ 0))
  | .timeout => inferInstanceAs (Decidable (_ ≠ 0))
  | .idleThreshold => inferInstanceAs (Decidable (_ ≠ 0))
  | .pollInterval => inferInstanceAs (Decidable (10 ≤ _))
  | .listenAddress =>
    match given : s.metrics.listenAddr with
    | none => .isTrue (by simp [Holds, given])
    | some text =>
      decidable_of_iff ((SocketAddress.read? text).isSome = true) (by simp [Holds, given])

def error (s : Settings) : Condition → SettingsError
  | .parentNamed => .blankParent
  | .imageNamed => .blankImage
  | .monitorInterval => .zeroMonitorInterval
  | .timeout => .zeroTimeout
  | .idleThreshold => .zeroIdleThreshold
  | .pollInterval => .shortPollInterval
  | .listenAddress => .badListenAddress (s.metrics.listenAddr.getD "")

theorem mem_all (c : Condition) : c ∈ all := by cases c <;> decide

def firstError (s : Settings) : List Condition → Option SettingsError
  | [] => none
  | c :: rest => if c.Holds s then firstError s rest else some (c.error s)

theorem firstError_eq_none {s : Settings} {conditions : List Condition} :
    firstError s conditions = none ↔ ∀ c ∈ conditions, c.Holds s := by
  induction conditions with
  | nil => simp [firstError]
  | cons c rest ih =>
    rw [firstError, List.forall_mem_cons, ← ih]
    by_cases holds : c.Holds s
    · simp [holds]
    · simp [holds]

theorem firstError_eq_some {s : Settings} {conditions : List Condition} {e : SettingsError} :
    firstError s conditions = some e ↔ ∃ before c after, conditions = before ++ c :: after ∧
      (∀ b ∈ before, b.Holds s) ∧ ¬ c.Holds s ∧ e = c.error s := by
  induction conditions with
  | nil => simp [firstError]
  | cons c rest ih =>
    rw [firstError]
    by_cases holds : c.Holds s
    · rw [if_pos holds, ih]
      constructor
      · rintro ⟨before, d, after, rfl, all, fails, error⟩
        exact ⟨c :: before, d, after, rfl, List.forall_mem_cons.mpr ⟨holds, all⟩, fails, error⟩
      · rintro ⟨before, d, after, split, all, fails, error⟩
        cases before with
        | nil =>
          obtain ⟨rfl, -⟩ := List.cons.inj split
          exact absurd holds fails
        | cons b before =>
          obtain ⟨-, rfl⟩ := List.cons.inj split
          exact ⟨before, d, after, rfl, (List.forall_mem_cons.mp all).2, fails, error⟩
    · rw [if_neg holds]
      constructor
      · rintro ⟨⟩
        exact ⟨[], c, rest, rfl, by simp, holds, rfl⟩
      · rintro ⟨before, d, after, split, all, fails, error⟩
        cases before with
        | nil =>
          obtain ⟨rfl, -⟩ := List.cons.inj split
          rw [error]
        | cons b before =>
          obtain ⟨rfl, -⟩ := List.cons.inj split
          exact absurd (all c List.mem_cons_self) holds

end Condition

namespace Settings
open Condition

theorem address_eq (s : Settings) :
    (match s.metrics.address with
      | .error e => some e
      | .ok _ => none) = firstError s [.listenAddress] := by
  rw [firstError, MetricsSettings.address]
  cases given : s.metrics.listenAddr with
  | none => simp [Holds, firstError, given]
  | some text =>
    cases read : SocketAddress.read? text with
    | none => simp [Holds, given, read, Condition.error]
    | some address => simp [Holds, given, read, firstError]

theorem invalid?_eq_firstError (s : Settings) : s.invalid? = firstError s Condition.all := by
  have check {p : Prop} [Decidable p] (c : Condition) (fails : p ↔ ¬ c.Holds s)
      {more : Option SettingsError} {rest : List Condition} (later : more = firstError s rest) :
      (if p then some (c.error s) else more) = firstError s (c :: rest) := by
    by_cases holds : c.Holds s
    · rw [if_neg fun wrong => fails.mp wrong holds, later, firstError, if_pos holds]
    · rw [if_pos (fails.mpr holds), firstError, if_neg holds]
  have blank {text : String} :
      isBlank text ↔ ¬ ∃ c ∈ text.toList, isBlankChar c = false := by
    rw [← not_isBlank_iff, Classical.not_not]
  refine check .parentNamed blank (check .imageNamed blank ?_)
  refine check .monitorInterval (by simp [Holds]) (check .timeout (by simp [Holds]) ?_)
  refine check .idleThreshold (by simp [Holds]) (check .pollInterval ?_ s.address_eq)
  exact Nat.not_le.symm

section
variable {library : SettingsFile.Library} {environment : Table String} {files : Files}
  {merged : SettingValue} {s : Settings}

theorem loadWith_of_decoded (found : merged? library environment files = some merged)
    (decoded : decode? merged = some s) :
    loadWith library environment files = match firstError s Condition.all with
      | some e => .error e
      | none => .ok s := by
  cases checked : firstError s Condition.all with
  | none => simp only [loadWith, found, decoded, invalid?_eq_firstError, checked]
  | some e => simp only [loadWith, found, decoded, invalid?_eq_firstError, checked]

theorem loadWith_eq_ok :
    loadWith library environment files = .ok s ↔
      (∃ merged, merged? library environment files = some merged ∧ decode? merged = some s) ∧
        ∀ c ∈ Condition.all, c.Holds s := by
  constructor
  · intro loaded
    cases found : merged? library environment files with
    | none => simp [loadWith, found] at loaded
    | some merged =>
      cases decoded : decode? merged with
      | none => simp [loadWith, found, decoded] at loaded
      | some decoded' =>
        rw [loadWith_of_decoded found decoded] at loaded
        cases checked : firstError decoded' Condition.all with
        | some e =>
          rw [checked] at loaded
          cases loaded
        | none =>
          rw [checked] at loaded
          obtain rfl := Except.ok.inj loaded
          exact ⟨⟨merged, rfl, decoded⟩, firstError_eq_none.mp checked⟩
  · rintro ⟨⟨merged, found, decoded⟩, holds⟩
    rw [loadWith_of_decoded found decoded, firstError_eq_none.mpr holds]

theorem loadWith_eq_error_of_decoded (found : merged? library environment files = some merged)
    (decoded : decode? merged = some s) (e : SettingsError) :
    loadWith library environment files = .error e ↔ ∃ before c after,
      Condition.all = before ++ c :: after ∧ (∀ b ∈ before, b.Holds s) ∧ ¬ c.Holds s ∧
        e = c.error s := by
  rw [loadWith_of_decoded found decoded, ← firstError_eq_some]
  cases firstError s Condition.all with
  | none => simp
  | some e' => simp

end

theorem exists_address {s : Settings} (h : Condition.listenAddress.Holds s) :
    ∃ address, s.metrics.address = .ok address := by
  rw [MetricsSettings.address]
  cases given : s.metrics.listenAddr with
  | none => exact ⟨none, rfl⟩
  | some text =>
    obtain ⟨address, read⟩ := Option.isSome_iff_exists.mp (h text given)
    dsimp only
    rw [read]
    exact ⟨some address, rfl⟩

theorem toNanos_monitorInterval {s : Settings} (h : Condition.monitorInterval.Holds s) :
    (Span.ofSecs s.monitorIntervalSecs).toNanos ≠ 0 := by
  have secs : s.monitorIntervalSecs ≠ 0 := h
  change s.monitorIntervalSecs * 1000000000 + 0 ≠ 0
  omega

theorem toNanos_pollInterval {s : Settings} (h : Condition.pollInterval.Holds s) :
    s.reclaimer.pollInterval.toNanos ≠ 0 := by
  have millis : 10 ≤ s.reclaimer.pollIntervalMs := h
  rw [ReclaimerSettings.pollInterval, Span.ofMillis, Span.toNanos_ofNanos]
  omega

def zeroEnvironment : Table String :=
  [("DOCKGRID__DOCKER__TIMEOUT_SECS", "0"), ("DOCKGRID__MONITOR_INTERVAL_SECS", "0")]

def zeroSettings : Settings := { default with monitorIntervalSecs := 0, engine := ⟨none, 0⟩ }

theorem decoded_default : (merged? .plain [] []).bind decode? = some .default := by decide +kernel

theorem decoded_zero : (merged? .plain zeroEnvironment []).bind decode? = some zeroSettings := by
  decide +kernel

def defaultSetup : Reclaimer.Setup :=
  .ofSettings "proxy" false (fun _ => .succeeds) ⟨0, 0⟩ Settings.default.reclaimer

def started : List Reclaimer.Machine × Reclaimer.Machine :=
  Reclaimer.andThen defaultSetup ([], .new [] []) .start

example :
    (merged? .plain []
      [("config/dockgrid.json", "\x7b\"node_image\": \"grid\"\x7d"),
        ("/etc/dockgrid/config.json", "\x7b\"node_image\": \"\"\x7d")]).bind decode? =
      some { default with nodeImage := "" } := by
  decide +kernel

end Settings
end NodeFleet
