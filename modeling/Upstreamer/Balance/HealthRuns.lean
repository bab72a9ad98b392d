import Upstreamer.Balance.OriginState

/-!
# Unbroken runs of outcomes

The healthy flag is meant to follow the lengths of unbroken runs of outcomes, and the code keeps
these lengths in counters of 32 bits that wrap. A history is the list of the recorded outcomes,
latest first, each with the threshold of its caller. By the time a counter has wrapped its run is so
long that it has met every threshold once, so the flag already says what the run says
(`Tracks`), and comparing with the wrapped counter decides as comparing with the length of the run
would (`Tracks.healthy_success`, `Tracks.healthy_failure`). So the flag is the one of the reference,
for every sequence of calls (`healthy_eq_referenceHealthy`).
-/

set_option autoImplicit false

namespace Upstreamer

/-- A recorded outcome with the threshold of its caller. -/
inductive HealthCall where
  | success (threshold : UInt32)
  | failure (threshold : UInt32)
  deriving DecidableEq

namespace HealthCall

def isSuccess : HealthCall → Bool
  | success _ => true
  | failure _ => false

def isFailure : HealthCall → Bool
  | success _ => false
  | failure _ => true

end HealthCall

open HealthCall

def OriginState.record (st : OriginState) : HealthCall → OriginState
  | .success threshold => st.recordSuccessWithThreshold threshold
  | .failure threshold => st.recordFailureWithThreshold threshold

/-- The length of the unbroken run that the history ends with; the history has the latest outcome
first. -/
def runLength (p : HealthCall → Bool) (history : List HealthCall) : Nat :=
  (history.takeWhile p).length

/-- The flag that the outcomes are meant to give: it starts true and is set by the `k`-th outcome of
an unbroken run, `k` not bounded, exactly if `k` has reached the threshold of the call. -/
def referenceHealthy : List HealthCall → Bool
  | [] => true
  | .success threshold :: history =>
      if runLength isSuccess history + 1 ≥ threshold.toNat then true else referenceHealthy history
  | .failure threshold :: history =>
      if runLength isFailure history + 1 ≥ threshold.toNat then false else referenceHealthy history

/-! ## Run lengths -/

section RunLength

variable (threshold : UInt32) (history : List HealthCall)

@[simp]
theorem runLength_nil (p : HealthCall → Bool) : runLength p [] = 0 := rfl

@[simp]
theorem runLength_success_isSuccess :
    runLength isSuccess (.success threshold :: history) = runLength isSuccess history + 1 := rfl

@[simp]
theorem runLength_failure_isSuccess :
    runLength isSuccess (.failure threshold :: history) = 0 := rfl

@[simp]
theorem runLength_success_isFailure :
    runLength isFailure (.success threshold :: history) = 0 := rfl

@[simp]
theorem runLength_failure_isFailure :
    runLength isFailure (.failure threshold :: history) = runLength isFailure history + 1 := rfl

end RunLength

/-! ## Wrapped counters -/

/-- A counter that follows a length modulo `2 ^ 32` compares as the length does, until it wraps. -/
theorem toNat_counter_succ {counter : UInt32} {k : Nat} (hcounter : counter = UInt32.ofNat k)
    (hk : k < 2 ^ 32 - 1) : (counter + 1).toNat = k + 1 := by
  subst hcounter
  rw [UInt32.toNat_add, UInt32.toNat_one, UInt32.toNat_ofNat']
  omega

theorem counter_succ {counter : UInt32} {k : Nat} (hcounter : counter = UInt32.ofNat k) :
    counter + 1 = UInt32.ofNat (k + 1) := by
  rw [hcounter, UInt32.ofNat_add]
  rfl

/-- What a state keeps of a history: the lengths of the runs modulo `2 ^ 32`, and the verdict of a
run that is as long as any threshold. -/
structure Tracks (st : OriginState) (history : List HealthCall) : Prop where
  successes : st.consecutiveSuccesses = UInt32.ofNat (runLength isSuccess history)
  failures : st.consecutiveFailures = UInt32.ofNat (runLength isFailure history)
  healthy_of_long : 2 ^ 32 - 1 ≤ runLength isSuccess history → st.healthy = true
  unhealthy_of_long : 2 ^ 32 - 1 ≤ runLength isFailure history → st.healthy = false

namespace Tracks

variable {st : OriginState} {history : List HealthCall}

theorem new : Tracks OriginState.new [] where
  successes := rfl
  failures := rfl
  healthy_of_long := fun _ => rfl
  unhealthy_of_long := fun h => absurd h (by decide)

/-- **A success decides by the length of its run.** -/
theorem healthy_success (h : Tracks st history) (threshold : UInt32) :
    (st.recordSuccessWithThreshold threshold).healthy =
      if runLength isSuccess history + 1 ≥ threshold.toNat then true else st.healthy := by
  rw [OriginState.healthy_recordSuccess]
  by_cases hlong : 2 ^ 32 - 1 ≤ runLength isSuccess history
  · -- the counter may have wrapped, but the flag is already set
    rw [h.healthy_of_long hlong, ite_self, ite_self]
  · have hcount := toNat_counter_succ h.successes (not_le.1 hlong)
    simp only [ge_iff_le, UInt32.le_iff_toNat_le, hcount]

/-- **A failure decides by the length of its run.** -/
theorem healthy_failure (h : Tracks st history) (threshold : UInt32) :
    (st.recordFailureWithThreshold threshold).healthy =
      if runLength isFailure history + 1 ≥ threshold.toNat then false else st.healthy := by
  rw [OriginState.healthy_recordFailure]
  by_cases hlong : 2 ^ 32 - 1 ≤ runLength isFailure history
  · rw [h.unhealthy_of_long hlong, ite_self, ite_self]
  · have hcount := toNat_counter_succ h.failures (not_le.1 hlong)
    simp only [ge_iff_le, UInt32.le_iff_toNat_le, hcount]

/-- A run of `2 ^ 32 - 1` outcomes is as long as any threshold. -/
theorem threshold_le_of_long {k : Nat} (hk : 2 ^ 32 - 1 ≤ k) (threshold : UInt32) :
    k ≥ threshold.toNat := by
  have hlt := threshold.toNat_lt
  omega

/-- **The invariant step.** -/
theorem record (h : Tracks st history) (call : HealthCall) :
    Tracks (st.record call) (call :: history) := by
  cases call with
  | success threshold =>
    refine ⟨counter_succ h.successes, rfl, fun hlong => ?_, fun hlong => absurd hlong (by simp)⟩
    exact (h.healthy_success threshold).trans (if_pos (threshold_le_of_long hlong threshold))
  | failure threshold =>
    refine ⟨rfl, counter_succ h.failures, fun hlong => absurd hlong (by simp), fun hlong => ?_⟩
    exact (h.healthy_failure threshold).trans (if_pos (threshold_le_of_long hlong threshold))

end Tracks

/-! ## Whole sequences -/

/-- The invariant of every sequence of calls on a fresh history. -/
theorem tracks_record_calls (calls : List HealthCall) :
    Tracks (calls.foldl OriginState.record .new) calls.reverse := by
  induction calls using List.reverseRecOn with
  | nil => exact Tracks.new
  | append_singleton calls call ih =>
    rw [List.foldl_append, List.reverse_concat']
    exact ih.record call

/-- **The healthy flag follows the unbroken runs**, whatever their lengths and the thresholds of the
calls. -/
theorem healthy_eq_referenceHealthy (calls : List HealthCall) :
    (calls.foldl OriginState.record .new).healthy = referenceHealthy calls.reverse := by
  induction calls using List.reverseRecOn with
  | nil => rfl
  | append_singleton calls call ih =>
    rw [List.foldl_append, List.reverse_concat']
    cases call with
    | success threshold =>
      show ((calls.foldl OriginState.record .new).recordSuccessWithThreshold threshold).healthy = _
      rw [(tracks_record_calls calls).healthy_success, ih]
      rfl
    | failure threshold =>
      show ((calls.foldl OriginState.record .new).recordFailureWithThreshold threshold).healthy = _
      rw [(tracks_record_calls calls).healthy_failure, ih]
      rfl

end Upstreamer
