import Upstreamer.Balance.OriginState
import Upstreamer.Foundations.Cyclic

/-!
# Round-robin selection

The balancer's state is a shared counter that each selection increments. The loop starts at the
counter's residue and takes the first candidate in cyclic order that has a history whose flag is
healthy; a candidate without a history is passed over (`selectOrigin_isSome_iff`).
-/

set_option autoImplicit false

namespace Upstreamer

open Foundations

/-- The test of the selection loop: a history is present and its flag is healthy. -/
def OriginStates.isHealthy (states : OriginStates) (key : String) : Bool :=
  match states.lookup key with
  | some st => st.healthy
  | none => false

namespace RoundRobinBalancer

/-- The body of the loop at offset `i` from the start index. -/
def candidateAt (candidates : List OriginEndpoint) (states : OriginStates) (startIdx i : Nat) :
    Option OriginEndpoint :=
  (candidates[(startIdx + i) % candidates.length]?).filter fun origin =>
    OriginStates.isHealthy states origin.urlKey

/-- `RoundRobinBalancer::select_origin`, with the counter after the call. -/
def selectOrigin (counter : UInt64) (candidates : List OriginEndpoint) (states : OriginStates) :
    Option OriginEndpoint × UInt64 :=
  if candidates = [] then
    (none, counter)
  else
    let startIdx := counter.toNat % candidates.length
    ((List.range candidates.length).findSome? (candidateAt candidates states startIdx), counter + 1)

variable {counter : UInt64} {candidates : List OriginEndpoint} {states : OriginStates}

/-- A selected origin is a candidate with a healthy history. -/
theorem of_selectOrigin_eq_some {origin : OriginEndpoint}
    (h : (selectOrigin counter candidates states).1 = some origin) :
    origin ∈ candidates ∧ OriginStates.isHealthy states origin.urlKey = true := by
  unfold selectOrigin at h
  split at h
  · simp at h
  · obtain ⟨i, -, hi⟩ := List.exists_of_findSome?_eq_some h
    obtain ⟨hget, hhealthy⟩ := Option.filter_eq_some_iff.1 hi
    exact ⟨List.mem_of_getElem? hget, hhealthy⟩

/-- **Some origin is selected exactly when some candidate has a healthy history.** -/
theorem selectOrigin_isSome_iff :
    (selectOrigin counter candidates states).1.isSome ↔
      ∃ origin ∈ candidates, OriginStates.isHealthy states origin.urlKey = true := by
  constructor
  · intro h
    obtain ⟨origin, ho⟩ := Option.isSome_iff_exists.1 h
    exact ⟨origin, of_selectOrigin_eq_some ho⟩
  · rintro ⟨origin, hmem, hhealthy⟩
    obtain ⟨k, hk, hget⟩ := List.getElem_of_mem hmem
    have hne : candidates ≠ [] := List.ne_nil_of_mem hmem
    -- the candidate's own position is among the offsets, so the loop stops there at the latest
    obtain ⟨i, hi, hmod⟩ :=
      Cyclic.exists_offset (counter.toNat % candidates.length) hk
    rw [selectOrigin, if_neg hne, List.findSome?_isSome_iff]
    refine ⟨i, List.mem_range.2 hi, ?_⟩
    rw [candidateAt, hmod, List.getElem?_eq_getElem hk, hget]
    simp [hhealthy]

end RoundRobinBalancer

end Upstreamer
