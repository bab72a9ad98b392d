import Upstreamer.Balance.WeightedShares
import Upstreamer.Foundations.Lottery

/-!
# The fallback of the metrics balancer

Without pressure data `WeightedMetricsBalancer` is meant to fall back to latencies. With the stub
for the pressure its weights are never below the bound under which it would look at a latency, so
each origin that is not marked unhealthy has a thousand times its user weight
(`WeightedMetricsBalancer.weight_eq`).

Two lists of weights with the same support make the same selections exactly when they agree up to
one factor (`selectWeighted_eq_iff`), and the weights of the two balancers do exactly when all
candidates that count have the same recorded latency (`metrics_eq_latency_iff`).
-/

set_option autoImplicit false

namespace Upstreamer

open Foundations

/-! ## Selection as a lottery -/

section Selection

variable {weight weight' : OriginEndpoint → ℚ} {candidates : List OriginEndpoint}

/-- The candidate at the position where the loop stops. -/
theorem firstAbove_bind_eq_pick (weight : OriginEndpoint → ℚ) (candidates : List OriginEndpoint)
    (random cum : ℚ) (start : Nat) :
    ((firstAbove random start cum (candidates.map weight)).bind fun k => candidates[k - start]?) =
      pick weight random cum candidates := by
  induction candidates generalizing cum start with
  | nil => rfl
  | cons origin rest ih =>
    rw [List.map_cons, firstAbove]
    by_cases habove : cum + weight origin > random
    · rw [if_pos habove, pick_cons_of_lt habove, Option.bind_some, Nat.sub_self]
      rfl
    · rw [if_neg habove, pick_cons_of_le (not_lt.1 habove), ← ih _ (start + 1)]
      cases hfirst : firstAbove random (start + 1) (cum + weight origin) (rest.map weight) with
      | none => rfl
      | some k =>
        have hlt : start < k := le_of_firstAbove hfirst
        have hindex : k - start = k - (start + 1) + 1 := by omega
        rw [Option.bind_some, Option.bind_some, hindex, List.getElem?_cons_succ]

theorem nonneg_of_mem_map (hweight : ∀ origin, 0 ≤ weight origin) :
    ∀ w ∈ candidates.map weight, 0 ≤ w := by
  intro w hw
  obtain ⟨origin, -, rfl⟩ := List.mem_map.1 hw
  exact hweight origin

/-- With a positive weight among them, the candidates are drawn as in a lottery. -/
theorem selectWeighted_eq_pick (hweight : ∀ origin, 0 ≤ weight origin)
    (hsum : 0 < (candidates.map weight).sum) (draw : Draw) :
    selectWeighted draw candidates (candidates.map weight) =
      pick weight (draw.fraction * (candidates.map weight).sum) 0 candidates := by
  obtain ⟨k, -, hfirst, hposition⟩ :=
    exists_weightedPosition (nonneg_of_mem_map hweight) hsum draw
  rw [selectWeighted_eq, hposition, ← firstAbove_bind_eq_pick weight candidates _ 0 0, hfirst]
  rfl

/-- Divided by their sum, the weights are drawn with the fraction itself. -/
theorem selectWeighted_eq_pick_shares (hweight : ∀ origin, 0 ≤ weight origin)
    (hsum : 0 < (candidates.map weight).sum) (draw : Draw) :
    selectWeighted draw candidates (candidates.map weight) =
      pick (fun origin => (candidates.map weight).sum⁻¹ * weight origin) draw.fraction 0
        candidates := by
  have hscale := pick_mul (inv_pos.2 hsum) weight
    (draw.fraction * (candidates.map weight).sum) 0 candidates
  rw [mul_zero, mul_comm draw.fraction, inv_mul_cancel_left₀ hsum.ne'] at hscale
  rw [selectWeighted_eq_pick hweight hsum, mul_comm draw.fraction, hscale]

theorem selectWeighted_of_sum_eq_zero (hweight : ∀ origin, 0 ≤ weight origin)
    (hsum : (candidates.map weight).sum = 0) (draw : Draw) :
    selectWeighted draw candidates (candidates.map weight) = none := by
  rw [selectWeighted_eq, weightedPosition_of_sum_eq_zero (nonneg_of_mem_map hweight) hsum,
    Option.bind_none]

theorem sum_map_eq_zero_iff (hweight : ∀ origin, 0 ≤ weight origin) :
    (candidates.map weight).sum = 0 ↔ ∀ origin ∈ candidates, weight origin = 0 := by
  constructor
  · intro hsum origin horigin
    exact List.all_zero_of_le_zero_le_of_sum_eq_zero (nonneg_of_mem_map hweight) hsum
      (List.mem_map_of_mem horigin)
  · intro hzero
    refine List.sum_eq_zero fun w hw => ?_
    obtain ⟨origin, horigin, rfl⟩ := List.mem_map.1 hw
    exact hzero origin horigin

theorem sum_map_pos (hweight : ∀ origin, 0 ≤ weight origin)
    (hsum : (candidates.map weight).sum ≠ 0) : 0 < (candidates.map weight).sum :=
  lt_of_le_of_ne (List.sum_nonneg (nonneg_of_mem_map hweight)) hsum.symm

/-- One factor on all weights changes no selection. -/
theorem selectWeighted_mul (hweight : ∀ origin, 0 ≤ weight origin) {c : ℚ} (hc : 0 < c)
    (draw : Draw) :
    selectWeighted draw candidates (candidates.map fun origin => c * weight origin) =
      selectWeighted draw candidates (candidates.map weight) := by
  have hweight' : ∀ origin, 0 ≤ c * weight origin := fun origin =>
    mul_nonneg hc.le (hweight origin)
  have hsum' : (candidates.map fun origin => c * weight origin).sum =
      c * (candidates.map weight).sum := List.sum_map_mul_left candidates weight c
  by_cases hsum : (candidates.map weight).sum = 0
  · rw [selectWeighted_of_sum_eq_zero hweight hsum,
      selectWeighted_of_sum_eq_zero hweight' (by rw [hsum', hsum, mul_zero])]
  · have hpos := sum_map_pos hweight hsum
    have hscale := pick_mul hc weight (draw.fraction * (candidates.map weight).sum) 0 candidates
    rw [mul_zero] at hscale
    rw [selectWeighted_eq_pick hweight hpos,
      selectWeighted_eq_pick hweight' (by rw [hsum']; exact mul_pos hc hpos), hsum',
      mul_left_comm, hscale]

/-- **The selections determine the weights up to one factor.** -/
theorem selectWeighted_eq_iff (hweight : ∀ origin, 0 ≤ weight origin)
    (hweight' : ∀ origin, 0 ≤ weight' origin)
    (hsupport : ∀ origin ∈ candidates, weight origin = 0 ↔ weight' origin = 0) :
    (∀ draw, selectWeighted draw candidates (candidates.map weight') =
        selectWeighted draw candidates (candidates.map weight)) ↔
      ∃ c > 0, ∀ origin ∈ candidates, weight' origin = c * weight origin := by
  constructor
  · intro h
    by_cases hsum : (candidates.map weight).sum = 0
    · -- nothing has a weight
      have hzero := (sum_map_eq_zero_iff hweight).1 hsum
      refine ⟨1, one_pos, fun origin horigin => ?_⟩
      rw [(hsupport origin horigin).1 (hzero origin horigin), hzero origin horigin, mul_zero]
    have hpos := sum_map_pos hweight hsum
    have hsum' : (candidates.map weight').sum ≠ 0 := by
      intro hzero
      refine hsum ((sum_map_eq_zero_iff hweight).2 fun origin horigin => ?_)
      exact (hsupport origin horigin).2 ((sum_map_eq_zero_iff hweight').1 hzero origin horigin)
    have hpos' := sum_map_pos hweight' hsum'
    -- divided by their sums, both lists of weights are lotteries over the fraction of the draw
    have hone : ∀ {f : OriginEndpoint → ℚ}, (candidates.map f).sum ≠ 0 →
        (candidates.map fun origin => (candidates.map f).sum⁻¹ * f origin).sum = 1 := by
      intro f hf
      rw [List.sum_map_mul_left, inv_mul_cancel₀ hf]
    have hshares := weights_eq_of_pick_eq (l := candidates) (c := 0)
      (f := fun origin => (candidates.map weight).sum⁻¹ * weight origin)
      (g := fun origin => (candidates.map weight').sum⁻¹ * weight' origin)
      (fun origin => mul_nonneg (inv_pos.2 hpos).le (hweight origin))
      (fun origin => mul_nonneg (inv_pos.2 hpos').le (hweight' origin))
      (fun origin horigin => by simp [hsum, hsum', hsupport origin horigin])
      ((hone hsum).trans (hone hsum').symm)
      (fun r hlow hhigh => by
        rw [hone hsum, zero_add] at hhigh
        have hdraw := h ⟨r, 0, hlow, hhigh⟩
        rw [selectWeighted_eq_pick_shares hweight hpos,
          selectWeighted_eq_pick_shares hweight' hpos'] at hdraw
        exact hdraw.symm)
    refine ⟨(candidates.map weight').sum * (candidates.map weight).sum⁻¹,
      mul_pos hpos' (inv_pos.2 hpos), fun origin horigin => ?_⟩
    rw [mul_assoc, hshares origin horigin, mul_inv_cancel_left₀ hsum']
  · rintro ⟨c, hc, hproportional⟩ draw
    rw [List.map_congr_left hproportional]
    exact selectWeighted_mul hweight hc draw

end Selection

/-! ## The two balancers -/

/-- The latency that the balancers see: zero without a history. -/
def OriginStates.latencyOf (states : OriginStates) (origin : OriginEndpoint) : Nat :=
  ((states.lookup origin.url.asStr).map fun st => st.ewmaLatencyNs.toNat).getD 0

/-- The candidate is not marked unhealthy, and its user weight is not zero. -/
def OriginStates.Counts (states : OriginStates) (origin : OriginEndpoint) : Prop :=
  states.isUnhealthy origin.url.asStr = false ∧ origin.weight ≠ some 0

/-- All candidates that count have the same recorded latency. -/
def SameLatency (candidates : List OriginEndpoint) (states : OriginStates) : Prop :=
  ∀ a ∈ candidates, ∀ b ∈ candidates, states.Counts a → states.Counts b →
    states.latencyOf a = states.latencyOf b

section Balancers

variable {states : OriginStates} {origin : OriginEndpoint}

/-- **The latency is not looked at.** -/
theorem WeightedMetricsBalancer.weight_eq (states : OriginStates) (origin : OriginEndpoint) :
    weight states origin =
      if states.isUnhealthy origin.url.asStr then 0
      else 1000 * (((origin.weight.map UInt32.toNat).getD 1 : Nat) : ℚ) := by
  have hstub : max (1000 - defaultPressure) 0 = 1000 := by norm_num [defaultPressure]
  have hbound : ¬ (1000 : ℚ) < 100 := by norm_num
  unfold weight OriginStates.isUnhealthy
  cases hlookup : states.lookup origin.url.asStr with
  | none => simp [userWeighted_eq]
  | some st =>
    cases hhealthy : st.healthy with
    | false => simp [hhealthy]
    | true =>
      simp only [hhealthy, hstub, if_neg hbound, userWeighted_eq, Bool.not_true,
        Bool.false_eq_true, if_false]

theorem WeightedLatencyBalancer.weight_eq_div (states : OriginStates) (origin : OriginEndpoint) :
    weight states origin =
      if states.isUnhealthy origin.url.asStr then 0
      else (((origin.weight.map UInt32.toNat).getD 1 : Nat) : ℚ) /
        ((states.latencyOf origin : ℚ) + 1) :=
  weight_eq states origin

theorem WeightedMetricsBalancer.weight_eq_mul (states : OriginStates) (origin : OriginEndpoint) :
    weight states origin =
      1000 * ((states.latencyOf origin : ℚ) + 1) *
        WeightedLatencyBalancer.weight states origin := by
  rw [weight_eq, WeightedLatencyBalancer.weight_eq_div]
  split
  · rw [mul_zero]
  · have hpos : (0 : ℚ) < (states.latencyOf origin : ℚ) + 1 := by positivity
    rw [mul_assoc]
    congr 1
    exact (mul_div_cancel₀ _ hpos.ne').symm

theorem WeightedLatencyBalancer.weight_ne_zero_iff :
    weight states origin ≠ 0 ↔ states.Counts origin := by
  have huser : ((origin.weight.map UInt32.toNat).getD 1 : Nat) = 0 ↔ origin.weight = some 0 := by
    cases origin.weight with
    | none => simp
    | some w => simp [← UInt32.toNat_inj]
  have hpos : ((states.latencyOf origin : ℚ) + 1) ≠ 0 := by positivity
  rw [weight_eq_div, OriginStates.Counts]
  cases hunhealthy : states.isUnhealthy origin.url.asStr with
  | true => simp
  | false =>
    rw [if_neg Bool.false_ne_true, ne_eq, div_eq_zero_iff, or_iff_left hpos, Nat.cast_eq_zero,
      huser]
    simp

theorem WeightedMetricsBalancer.weight_nonneg (states : OriginStates) (origin : OriginEndpoint) :
    0 ≤ weight states origin := by
  rw [weight_eq]
  split
  · exact le_rfl
  · positivity

theorem WeightedLatencyBalancer.weight_nonneg (states : OriginStates) (origin : OriginEndpoint) :
    0 ≤ weight states origin := by
  rw [weight_eq]
  exact shareWeight_nonneg states origin

/-- The check for candidates that both selections begin with changes nothing. -/
theorem ite_nil_selectWeighted (draw : Draw) (candidates : List OriginEndpoint)
    (weight : OriginEndpoint → ℚ) :
    (if candidates = [] then none
      else selectWeighted draw candidates (candidates.map weight)) =
      selectWeighted draw candidates (candidates.map weight) := by
  cases candidates with
  | nil => rfl
  | cons origin rest => exact if_neg (List.cons_ne_nil origin rest)

theorem WeightedLatencyBalancer.selectOrigin_eq_selectWeighted (draw : Draw)
    (candidates : List OriginEndpoint) (states : OriginStates) :
    selectOrigin draw candidates states =
      selectWeighted draw candidates (candidates.map (weight states)) :=
  ite_nil_selectWeighted draw candidates (weight states)

theorem WeightedMetricsBalancer.selectOrigin_eq_selectWeighted (draw : Draw)
    (candidates : List OriginEndpoint) (states : OriginStates) :
    selectOrigin draw candidates states =
      selectWeighted draw candidates (candidates.map (weight states)) :=
  ite_nil_selectWeighted draw candidates (weight states)

end Balancers

/-- The weights agree up to one factor exactly when all latencies that count are the same. -/
theorem proportional_iff_sameLatency (candidates : List OriginEndpoint) (states : OriginStates) :
    (∃ c > 0, ∀ origin ∈ candidates, WeightedMetricsBalancer.weight states origin =
        c * WeightedLatencyBalancer.weight states origin) ↔ SameLatency candidates states := by
  constructor
  · rintro ⟨c, -, hc⟩ a ha b hb hcounts hcounts'
    -- the factor of a candidate with a weight is a thousand times its latency plus one
    have hfactor : ∀ origin ∈ candidates, states.Counts origin →
        1000 * ((states.latencyOf origin : ℚ) + 1) = c := by
      intro origin horigin hcounts
      have heq := hc origin horigin
      rw [WeightedMetricsBalancer.weight_eq_mul] at heq
      exact mul_right_cancel₀ (WeightedLatencyBalancer.weight_ne_zero_iff.2 hcounts) heq
    have heq := (hfactor a ha hcounts).trans (hfactor b hb hcounts').symm
    have hcast : (states.latencyOf a : ℚ) = states.latencyOf b := by linarith
    exact_mod_cast hcast
  · intro hsame
    by_cases hany : ∃ a ∈ candidates, states.Counts a
    · obtain ⟨a, ha, hcounts⟩ := hany
      refine ⟨1000 * ((states.latencyOf a : ℚ) + 1), by positivity, fun origin horigin => ?_⟩
      rw [WeightedMetricsBalancer.weight_eq_mul]
      by_cases hzero : WeightedLatencyBalancer.weight states origin = 0
      · rw [hzero, mul_zero, mul_zero]
      · rw [hsame origin horigin a ha (WeightedLatencyBalancer.weight_ne_zero_iff.1 hzero) hcounts]
    · refine ⟨1, one_pos, fun origin horigin => ?_⟩
      have hzero : WeightedLatencyBalancer.weight states origin = 0 := by
        by_contra hne
        exact hany ⟨origin, horigin, WeightedLatencyBalancer.weight_ne_zero_iff.1 hne⟩
      rw [WeightedMetricsBalancer.weight_eq_mul, hzero, mul_zero, mul_zero]

/-- **When the metrics balancer selects as the latency balancer does.** Both for the selections and
for the weights, this is so exactly when all candidates that count have the same recorded
latency. -/
theorem metrics_eq_latency_iff (candidates : List OriginEndpoint) (states : OriginStates) :
    ((∀ draw, WeightedMetricsBalancer.selectOrigin draw candidates states =
        WeightedLatencyBalancer.selectOrigin draw candidates states) ↔
      SameLatency candidates states) ∧
    ((∃ c > 0, ∀ origin ∈ candidates, WeightedMetricsBalancer.weight states origin =
        c * WeightedLatencyBalancer.weight states origin) ↔ SameLatency candidates states) := by
  have hweights := proportional_iff_sameLatency candidates states
  refine ⟨?_, hweights⟩
  rw [← hweights, ← selectWeighted_eq_iff (WeightedLatencyBalancer.weight_nonneg states)
    (WeightedMetricsBalancer.weight_nonneg states)]
  · simp only [WeightedMetricsBalancer.selectOrigin_eq_selectWeighted,
      WeightedLatencyBalancer.selectOrigin_eq_selectWeighted]
  · intro origin _
    have hfactor : (1000 * ((states.latencyOf origin : ℚ) + 1)) ≠ 0 := by positivity
    rw [WeightedMetricsBalancer.weight_eq_mul, mul_eq_zero, or_iff_right hfactor]

/-- Two healthy origins, of which the second one has a recorded latency. -/
def slowSecond : List OriginEndpoint :=
  [.ofUrl (.httpRoot "10.0.0.1" none) none none, .ofUrl (.httpRoot "10.0.0.2" none) none none]

def slowStates : OriginStates :=
  (∅ : OriginStates).insert (Url.httpRoot "10.0.0.2" none).asStr
    { OriginState.new with ewmaLatencyNs := 9 }

/-- **The metrics balancer ignores latencies.** At one half the latency balancer draws the first
origin, with ten of eleven parts, and the metrics balancer the second one. -/
theorem metrics_ne_latency :
    ¬ ∀ (candidates : List OriginEndpoint) (states : OriginStates) (draw : Draw),
      WeightedMetricsBalancer.selectOrigin draw candidates states =
        WeightedLatencyBalancer.selectOrigin draw candidates states := by
  intro h
  have hdraw := h slowSecond slowStates ⟨1 / 2, 0, by norm_num, by norm_num⟩
  revert hdraw
  decide +kernel

end Upstreamer
