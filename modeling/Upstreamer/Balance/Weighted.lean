import Upstreamer.Balance.RoundRobin
import Mathlib.Data.Rat.Cast.Order
import Mathlib.Algebra.Order.Ring.Rat
import Mathlib.Tactic.Positivity
import Mathlib.Tactic.NormNum

/-!
# Weighted selection

The two weighted balancers draw a candidate with a probability proportional to its weight, by the
cumulative loop of `weightedRandomSelect`. Weights are exact rationals in place of floating-point
numbers, and a random draw is a value of `Draw`. Both balancers give an origin marked unhealthy the
weight zero and check the weight of the drawn candidate once more, so neither of them returns such
an origin (`not_unhealthy_of_selectOrigin`).
-/

set_option autoImplicit false

namespace Upstreamer

open Foundations

/-- What the random generator supplies to one selection: a fraction for `random::<f64>`, and an
index that `random_range(0..len)` reduces to its range. -/
structure Draw where
  fraction : ℚ
  index : Nat
  zero_le_fraction : 0 ≤ fraction
  fraction_lt_one : fraction < 1

/-- The draw of a generator that yields zero. -/
def Draw.zero : Draw := ⟨0, 0, by norm_num, by norm_num⟩

/-- An origin whose history says that it is unhealthy; one without a history is not. -/
def OriginStates.isUnhealthy (states : OriginStates) (key : String) : Bool :=
  match states.lookup key with
  | some st => !st.healthy
  | none => false

/-- The loop over the weights, from the index `i` with the weights before it summed up. -/
def firstAbove (random : ℚ) : Nat → ℚ → List ℚ → Option Nat
  | _, _, [] => none
  | i, cumulative, w :: ws =>
      if cumulative + w > random then some i else firstAbove random (i + 1) (cumulative + w) ws

def weightedRandomSelect (draw : Draw) (weights : List ℚ) : Nat :=
  if weights.sum ≤ 0 then
    draw.index % weights.length
  else
    -- the loop falls through to the last index when rounding leaves no sum above the draw
    (firstAbove (draw.fraction * weights.sum) 0 0 weights).getD (weights.length - 1)

/-- The weight of a candidate whose base weight is `base`. -/
def userWeighted (origin : OriginEndpoint) (base : ℚ) : ℚ :=
  match origin.weight with
  | some w => base * w.toNat
  | none => base

/-- The final step of both balancers: draw an index and check the weight found there. -/
def selectWeighted (draw : Draw) (candidates : List OriginEndpoint) (weights : List ℚ) :
    Option OriginEndpoint :=
  let idx := weightedRandomSelect draw weights
  match weights[idx]? with
  | some w => if w > 0 then candidates[idx]? else none
  | none => none

namespace WeightedLatencyBalancer

def weight (states : OriginStates) (origin : OriginEndpoint) : ℚ :=
  match states.lookup origin.url.asStr with
  | some st =>
      if !st.healthy then 0
      else userWeighted origin
        (if st.ewmaLatencyNs = 0 then 1 else 1 / ((st.ewmaLatencyNs.toNat : ℚ) + 1))
  -- an origin without a history gets the weight of a new one
  | none => userWeighted origin 1

/-- `WeightedLatencyBalancer::select_origin`. -/
def selectOrigin (draw : Draw) (candidates : List OriginEndpoint) (states : OriginStates) :
    Option OriginEndpoint :=
  if candidates = [] then none
  else selectWeighted draw candidates (candidates.map (weight states))

end WeightedLatencyBalancer

namespace WeightedMetricsBalancer

/-- The pressure stub of the first version. -/
def defaultPressure : ℚ := 0

def weight (states : OriginStates) (origin : OriginEndpoint) : ℚ :=
  match states.lookup origin.url.asStr with
  | some st =>
      if !st.healthy then 0
      else
        -- with the stub this is always 1000, and the latency is not looked at
        let metricsWeight := max (1000 - defaultPressure) 0
        userWeighted origin <|
          if metricsWeight < 100 then
            if st.ewmaLatencyNs > 0 then metricsWeight * (1 / ((st.ewmaLatencyNs.toNat : ℚ) + 1))
            else metricsWeight
          else metricsWeight
  | none => userWeighted origin 1000

/-- `WeightedMetricsBalancer::select_origin`. -/
def selectOrigin (draw : Draw) (candidates : List OriginEndpoint) (states : OriginStates) :
    Option OriginEndpoint :=
  if candidates = [] then none
  else selectWeighted draw candidates (candidates.map (weight states))

end WeightedMetricsBalancer

/-- A drawn candidate has positive weight. -/
theorem of_selectWeighted_eq_some {draw : Draw} {candidates : List OriginEndpoint}
    {weight : OriginEndpoint → ℚ} {origin : OriginEndpoint}
    (h : selectWeighted draw candidates (candidates.map weight) = some origin) :
    origin ∈ candidates ∧ 0 < weight origin := by
  simp only [selectWeighted, List.getElem?_map] at h
  cases hc : candidates[weightedRandomSelect draw (candidates.map weight)]? with
  | none => simp [hc] at h
  | some c =>
    simp only [hc, Option.map_some] at h
    split at h
    · next hw =>
      obtain rfl : c = origin := Option.some.inj h
      exact ⟨List.mem_of_getElem? hc, hw⟩
    · simp at h

/-- A weight that is zero for a history marked unhealthy is positive for other origins only. -/
theorem OriginStates.not_unhealthy_of_pos {states : OriginStates} {key : String} {weight : ℚ}
    (hzero : ∀ st, states.lookup key = some st → st.healthy = false → weight = 0)
    (h : 0 < weight) : states.isUnhealthy key = false := by
  unfold isUnhealthy
  cases hl : states.lookup key with
  | none => rfl
  | some st =>
    cases hst : st.healthy with
    | true => simp [hst]
    | false => exact absurd (hzero st hl hst) (ne_of_gt h)

theorem WeightedLatencyBalancer.not_unhealthy_of_weight_pos {states : OriginStates}
    {origin : OriginEndpoint} (h : 0 < weight states origin) :
    OriginStates.isUnhealthy states origin.url.asStr = false := by
  refine OriginStates.not_unhealthy_of_pos (fun st hl hst => ?_) h
  simp [weight, hl, hst]

theorem WeightedMetricsBalancer.not_unhealthy_of_weight_pos {states : OriginStates}
    {origin : OriginEndpoint} (h : 0 < weight states origin) :
    OriginStates.isUnhealthy states origin.url.asStr = false := by
  refine OriginStates.not_unhealthy_of_pos (fun st hl hst => ?_) h
  simp [weight, hl, hst]

/-! ## The three balancers -/

/-- `LoadBalancer::select_origin` of the balancer that an algorithm names. The counter is the state
of the round-robin balancer; the weighted balancers have none. -/
def LbAlgorithm.selectOrigin (algorithm : LbAlgorithm) (counter : UInt64) (draw : Draw)
    (candidates : List OriginEndpoint) (states : OriginStates) : Option OriginEndpoint × UInt64 :=
  match algorithm with
  | .roundRobin => RoundRobinBalancer.selectOrigin counter candidates states
  | .weightedLatency => (WeightedLatencyBalancer.selectOrigin draw candidates states, counter)
  | .weightedMetrics => (WeightedMetricsBalancer.selectOrigin draw candidates states, counter)

/-- **No balancer selects an origin that is marked unhealthy.** -/
theorem not_unhealthy_of_selectOrigin {algorithm : LbAlgorithm} {counter : UInt64} {draw : Draw}
    {candidates : List OriginEndpoint} {states : OriginStates} {origin : OriginEndpoint}
    (h : (algorithm.selectOrigin counter draw candidates states).1 = some origin) :
    origin ∈ candidates ∧ OriginStates.isUnhealthy states origin.urlKey = false := by
  cases algorithm with
  | roundRobin =>
    obtain ⟨hmem, hhealthy⟩ := RoundRobinBalancer.of_selectOrigin_eq_some h
    refine ⟨hmem, ?_⟩
    unfold OriginStates.isHealthy at hhealthy
    unfold OriginStates.isUnhealthy
    cases hl : states.lookup origin.urlKey with
    | none => rfl
    | some st => simpa [hl] using hhealthy
  | weightedLatency =>
    simp only [LbAlgorithm.selectOrigin, WeightedLatencyBalancer.selectOrigin] at h
    split at h
    · simp at h
    · obtain ⟨hmem, hw⟩ := of_selectWeighted_eq_some h
      exact ⟨hmem, origin.urlKey_eq ▸ WeightedLatencyBalancer.not_unhealthy_of_weight_pos hw⟩
  | weightedMetrics =>
    simp only [LbAlgorithm.selectOrigin, WeightedMetricsBalancer.selectOrigin] at h
    split at h
    · simp at h
    · obtain ⟨hmem, hw⟩ := of_selectWeighted_eq_some h
      exact ⟨hmem, origin.urlKey_eq ▸ WeightedMetricsBalancer.not_unhealthy_of_weight_pos hw⟩

/-! ## What selection reads -/

/-- The part of a history that selection reads. -/
def OriginState.selectable (st : OriginState) : Bool × UInt64 := (st.healthy, st.ewmaLatencyNs)

section Congruence

variable {states states' : OriginStates}

theorem lookup_of_selectable_eq
    (h : ∀ key, (states'.lookup key).map OriginState.selectable =
      (states.lookup key).map OriginState.selectable) (key : String) :
    (states.lookup key = none ∧ states'.lookup key = none) ∨
      ∃ st st', states.lookup key = some st ∧ states'.lookup key = some st' ∧
        st'.healthy = st.healthy ∧ st'.ewmaLatencyNs = st.ewmaLatencyNs := by
  have hkey := h key
  cases hs : states.lookup key with
  | none =>
    rw [hs, Option.map_none, Option.map_eq_none_iff] at hkey
    exact Or.inl ⟨rfl, hkey⟩
  | some st =>
    rw [hs, Option.map_some, Option.map_eq_some_iff] at hkey
    obtain ⟨st', hs', hst⟩ := hkey
    obtain ⟨hhealthy, hlatency⟩ := Prod.mk.inj hst
    exact Or.inr ⟨st, st', rfl, hs', hhealthy, hlatency⟩

/-- **Selection depends on the flags and latencies only.** -/
theorem selectOrigin_congr
    (h : ∀ key, (states'.lookup key).map OriginState.selectable =
      (states.lookup key).map OriginState.selectable) (algorithm : LbAlgorithm) (counter : UInt64)
    (draw : Draw) (candidates : List OriginEndpoint) :
    algorithm.selectOrigin counter draw candidates states' =
      algorithm.selectOrigin counter draw candidates states := by
  cases algorithm with
  | roundRobin =>
    have hhealthy : OriginStates.isHealthy states' = OriginStates.isHealthy states := by
      funext key
      unfold OriginStates.isHealthy
      rcases lookup_of_selectable_eq h key with ⟨hs, hs'⟩ | ⟨st, st', hs, hs', hst, -⟩
      · rw [hs, hs']
      · simp only [hs, hs', hst]
    have hcandidate : RoundRobinBalancer.candidateAt candidates states' =
        RoundRobinBalancer.candidateAt candidates states := by
      funext startIdx i
      simp only [RoundRobinBalancer.candidateAt, hhealthy]
    simp only [LbAlgorithm.selectOrigin, RoundRobinBalancer.selectOrigin, hcandidate]
  | weightedLatency =>
    have hweight : WeightedLatencyBalancer.weight states' =
        WeightedLatencyBalancer.weight states := by
      funext origin
      unfold WeightedLatencyBalancer.weight
      rcases lookup_of_selectable_eq h origin.url.asStr with
        ⟨hs, hs'⟩ | ⟨st, st', hs, hs', hst, hlatency⟩
      · rw [hs, hs']
      · simp only [hs, hs', hst, hlatency]
    simp only [LbAlgorithm.selectOrigin, WeightedLatencyBalancer.selectOrigin, hweight]
  | weightedMetrics =>
    have hweight : WeightedMetricsBalancer.weight states' =
        WeightedMetricsBalancer.weight states := by
      funext origin
      unfold WeightedMetricsBalancer.weight
      rcases lookup_of_selectable_eq h origin.url.asStr with
        ⟨hs, hs'⟩ | ⟨st, st', hs, hs', hst, hlatency⟩
      · rw [hs, hs']
      · simp only [hs, hs', hst, hlatency]
    simp only [LbAlgorithm.selectOrigin, WeightedMetricsBalancer.selectOrigin, hweight]

end Congruence

end Upstreamer
