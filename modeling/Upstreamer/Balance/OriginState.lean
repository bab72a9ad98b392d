import Upstreamer.Config.Parser
import Upstreamer.Foundations.Dict
import Mathlib.Tactic.Common

/-!
# Origins and their recorded history

`OriginEndpoint` is a candidate of a route and `OriginState` the history of an origin. The recorded
counters are fixed-width and wrap. Each recording operation is one function here, the effect of a
call that no other call on the same origin overlaps.
-/

set_option autoImplicit false

namespace Upstreamer

open Foundations

/-- A candidate of a route. The key under which its history is kept and the base of outgoing URIs
are derived from the URL when the candidate is built. -/
structure OriginEndpoint where
  url : Url
  urlKey : String
  urlBase : String
  weight : Option UInt32
  healthCheckPath : Option String
  urlKey_eq : urlKey = url.asStr
  urlBase_eq : urlBase = trimEndMatches '/' url.asStr
  deriving DecidableEq

structure OriginState where
  ewmaLatencyNs : UInt64
  consecutiveSuccesses : UInt32
  consecutiveFailures : UInt32
  totalRequests : UInt64
  totalFailures : UInt64
  healthy : Bool
  deriving DecidableEq

/-- The shared map from URL keys to histories. -/
abbrev OriginStates := Dict String OriginState

/-- The endpoint that the router builders make of a URL. -/
def OriginEndpoint.ofUrl (url : Url) (weight : Option UInt32) (healthCheckPath : Option String) :
    OriginEndpoint where
  url := url
  urlKey := url.asStr
  urlBase := trimEndMatches '/' url.asStr
  weight := weight
  healthCheckPath := healthCheckPath
  urlKey_eq := rfl
  urlBase_eq := rfl

namespace OriginState

/-- `OriginState::new` and `OriginState::default`. -/
def new : OriginState where
  ewmaLatencyNs := 0
  consecutiveSuccesses := 0
  consecutiveFailures := 0
  totalRequests := 0
  totalFailures := 0
  healthy := true

def recordLatency (st : OriginState) (latency : Duration) : OriginState :=
  { st with ewmaLatencyNs := (UInt64.ofNat latency + 9 * st.ewmaLatencyNs) / 10 }

def recordSuccessWithThreshold (st : OriginState) (threshold : UInt32) : OriginState :=
  -- `fetch_add` wraps, and the comparison is with the incremented value
  let successes := st.consecutiveSuccesses + 1
  { st with
    consecutiveSuccesses := successes
    consecutiveFailures := 0
    healthy := if successes ≥ threshold then true else st.healthy }

def recordFailureWithThreshold (st : OriginState) (threshold : UInt32) : OriginState :=
  let failures := st.consecutiveFailures + 1
  { st with
    consecutiveFailures := failures
    consecutiveSuccesses := 0
    totalFailures := st.totalFailures + 1
    healthy := if failures ≥ threshold then false else st.healthy }

def recordSuccess (st : OriginState) : OriginState := st.recordSuccessWithThreshold 2

def recordFailure (st : OriginState) : OriginState := st.recordFailureWithThreshold 5

def incrementRequests (st : OriginState) : OriginState :=
  { st with totalRequests := st.totalRequests + 1 }

/-- What the health verdict of an origin rests on: its flag and the two counters of consecutive
outcomes. -/
def health (st : OriginState) : Bool × UInt32 × UInt32 :=
  (st.healthy, st.consecutiveSuccesses, st.consecutiveFailures)

/-! ## Effects -/

section Effects

variable (st : OriginState)

@[simp]
theorem healthy_new : new.healthy = true := rfl

@[simp]
theorem consecutiveSuccesses_recordSuccess (threshold : UInt32) :
    (st.recordSuccessWithThreshold threshold).consecutiveSuccesses =
      st.consecutiveSuccesses + 1 := rfl

@[simp]
theorem consecutiveSuccesses_recordFailure (threshold : UInt32) :
    (st.recordFailureWithThreshold threshold).consecutiveSuccesses = 0 := rfl

theorem healthy_recordSuccess (threshold : UInt32) :
    (st.recordSuccessWithThreshold threshold).healthy =
      if st.consecutiveSuccesses + 1 ≥ threshold then true else st.healthy := rfl

theorem healthy_recordFailure (threshold : UInt32) :
    (st.recordFailureWithThreshold threshold).healthy =
      if st.consecutiveFailures + 1 ≥ threshold then false else st.healthy := rfl

theorem succ_ne_self (n : UInt32) : n + 1 ≠ n := by
  intro h
  have h' := congrArg UInt32.toNat h
  have hlt := n.toNat_lt
  rw [UInt32.toNat_add, UInt32.toNat_one] at h'
  omega

/-- A recorded success is visible in the counters. -/
theorem health_recordSuccess_ne (threshold : UInt32) :
    (st.recordSuccessWithThreshold threshold).health ≠ st.health := by
  intro h
  exact succ_ne_self st.consecutiveSuccesses (congrArg (fun p => p.2.1) h)

/-- A recorded failure is visible in the counters. -/
theorem health_recordFailure_ne (threshold : UInt32) :
    (st.recordFailureWithThreshold threshold).health ≠ st.health := by
  intro h
  exact succ_ne_self st.consecutiveFailures (congrArg (fun p => p.2.2) h)

end Effects

end OriginState

end Upstreamer
