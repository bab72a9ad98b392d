import Upstreamer.Balance.Weighted
import Mathlib.Tactic.Linarith
import Mathlib.Tactic.FieldSimp

/-!
# Shares of weighted selection

The weights laid end to end divide the interval from zero to their sum, and a draw selects the
candidate into whose part its fraction of the sum falls (`firstAbove_eq_some_iff`). A part is closed
on the left and open on the right, so candidates of weight zero have an empty one and the parts
leave nothing for the fallback of the loop. `exactShares` states this for the weights of the latency
balancer, in which each candidate counts with its user weight over its recorded latency plus one.
-/

set_option autoImplicit false

namespace Upstreamer

open Foundations

/-! ## Lists of weights -/

/-- The weights before the one at a position, summed up. -/
def cumulative (weights : List ℚ) (i : Nat) : ℚ := (weights.take i).sum

section Cumulative

variable {weights : List ℚ}

@[simp]
theorem cumulative_zero (weights : List ℚ) : cumulative weights 0 = 0 := by simp [cumulative]

theorem cumulative_cons_succ (w : ℚ) (ws : List ℚ) (i : Nat) :
    cumulative (w :: ws) (i + 1) = w + cumulative ws i := by
  rw [cumulative, List.take_succ_cons, List.sum_cons, cumulative]

theorem cumulative_succ {i : Nat} (hi : i < weights.length) :
    cumulative weights (i + 1) = cumulative weights i + weights[i] := by
  rw [cumulative, cumulative, List.take_succ_eq_append_getElem hi, List.sum_append,
    List.sum_singleton]

theorem cumulative_nonneg (hnonneg : ∀ w ∈ weights, 0 ≤ w) (i : Nat) : 0 ≤ cumulative weights i :=
  List.sum_nonneg fun w hw => hnonneg w (List.mem_of_mem_take hw)

theorem cumulative_le_sum (hnonneg : ∀ w ∈ weights, 0 ≤ w) (i : Nat) :
    cumulative weights i ≤ weights.sum := by
  have hsplit : weights.sum = cumulative weights i + (weights.drop i).sum := by
    rw [cumulative, ← List.sum_append, List.take_append_drop]
  have hdrop : 0 ≤ (weights.drop i).sum :=
    List.sum_nonneg fun w hw => hnonneg w (List.mem_of_mem_drop hw)
  linarith

theorem le_of_firstAbove {random cum : ℚ} {start k : Nat}
    (h : firstAbove random start cum weights = some k) : start ≤ k := by
  induction weights generalizing start cum with
  | nil => cases h
  | cons w ws ih =>
    rw [firstAbove] at h
    split at h
    · exact (Option.some.inj h).le
    · exact (Nat.le_succ start).trans (ih h)

/-- **The part of a position.** The loop stops at the position into whose part of the sum the random
value falls. -/
theorem firstAbove_eq_some_iff (hnonneg : ∀ w ∈ weights, 0 ≤ w) {random cum : ℚ}
    (hrandom : cum ≤ random) (start i : Nat) :
    firstAbove random start cum weights = some (start + i) ↔
      i < weights.length ∧ cum + cumulative weights i ≤ random ∧
        random < cum + cumulative weights (i + 1) := by
  induction weights generalizing start cum i with
  | nil => simp [firstAbove]
  | cons w ws ih =>
    obtain ⟨-, hws⟩ := List.forall_mem_cons.1 hnonneg
    rw [firstAbove]
    by_cases habove : cum + w > random
    · rw [if_pos habove]
      cases i with
      | zero => simpa [cumulative_cons_succ, hrandom] using habove
      | succ i =>
        -- the parts further on begin above the random value
        refine iff_of_false (by simp) ?_
        rintro ⟨-, hle, -⟩
        rw [cumulative_cons_succ] at hle
        have hi := cumulative_nonneg hws i
        linarith
    · rw [if_neg habove]
      cases i with
      | zero =>
        refine iff_of_false (fun h => ?_) ?_
        · have hlt := le_of_firstAbove h
          omega
        · rintro ⟨-, -, hlt⟩
          rw [cumulative_cons_succ, cumulative_zero, add_zero] at hlt
          exact habove hlt
      | succ i =>
        have hstart : start + (i + 1) = start + 1 + i := by omega
        rw [hstart, ih hws (not_lt.1 habove), cumulative_cons_succ, cumulative_cons_succ,
          List.length_cons, Nat.add_lt_add_iff_right, ← add_assoc, ← add_assoc]

/-- The loop stops when the random value is below the sum. -/
theorem exists_firstAbove {random cum : ℚ} (hrandom : random < cum + weights.sum)
    (hcum : cum ≤ random) (start : Nat) :
    ∃ i < weights.length, firstAbove random start cum weights = some (start + i) := by
  induction weights generalizing start cum with
  | nil =>
    rw [List.sum_nil, add_zero] at hrandom
    exact absurd hcum (not_le.2 hrandom)
  | cons w ws ih =>
    rw [firstAbove]
    split
    · exact ⟨0, Nat.succ_pos _, rfl⟩
    · next habove =>
      rw [List.sum_cons, ← add_assoc] at hrandom
      obtain ⟨i, hi, hfirst⟩ := ih hrandom (not_lt.1 habove) (start + 1)
      refine ⟨i + 1, Nat.succ_lt_succ hi, ?_⟩
      rw [hfirst, Nat.add_assoc, Nat.add_comm 1 i]

end Cumulative

/-- The position that both weighted balancers select: the drawn one when its weight is positive. -/
def weightedPosition (draw : Draw) (weights : List ℚ) : Option Nat :=
  (weights[weightedRandomSelect draw weights]?).bind fun w =>
    if w > 0 then some (weightedRandomSelect draw weights) else none

/-- The selected origin is the candidate at the selected position. -/
theorem selectWeighted_eq (draw : Draw) (candidates : List OriginEndpoint) (weights : List ℚ) :
    selectWeighted draw candidates weights =
      (weightedPosition draw weights).bind (candidates[·]?) := by
  simp only [selectWeighted, weightedPosition]
  cases weights[weightedRandomSelect draw weights]? with
  | none => rfl
  | some w =>
    simp only [Option.bind_some]
    split <;> rfl

section Shares

variable {weights : List ℚ} {draw : Draw}

/-- The loop does not fall through to the last index, and the weight at its position is positive. -/
theorem exists_weightedPosition (hnonneg : ∀ w ∈ weights, 0 ≤ w) (hsum : 0 < weights.sum)
    (draw : Draw) :
    ∃ k < weights.length, firstAbove (draw.fraction * weights.sum) 0 0 weights = some k ∧
      weightedPosition draw weights = some k := by
  have hlow : 0 ≤ draw.fraction * weights.sum := mul_nonneg draw.zero_le_fraction hsum.le
  have hhigh : draw.fraction * weights.sum < 0 + weights.sum := by
    rw [zero_add]
    exact mul_lt_of_lt_one_left hsum draw.fraction_lt_one
  obtain ⟨k, hk, hfirst⟩ := exists_firstAbove hhigh hlow 0
  -- the part of the position is not empty, since the draw falls into it
  have hpos : 0 < weights[k] := by
    obtain ⟨-, hle, hlt⟩ := (firstAbove_eq_some_iff hnonneg hlow 0 k).1 hfirst
    rw [cumulative_succ hk] at hlt
    linarith
  rw [Nat.zero_add] at hfirst
  have hselect : weightedRandomSelect draw weights = k := by
    rw [weightedRandomSelect, if_neg (not_le.2 hsum), hfirst, Option.getD_some]
  refine ⟨k, hk, hfirst, ?_⟩
  rw [weightedPosition, hselect, List.getElem?_eq_getElem hk, Option.bind_some, if_pos hpos]

/-- **A position is selected exactly when the draw falls into its part.** -/
theorem weightedPosition_eq_some_iff (hnonneg : ∀ w ∈ weights, 0 ≤ w) (hsum : 0 < weights.sum)
    {i : Nat} (hi : i < weights.length) :
    weightedPosition draw weights = some i ↔
      cumulative weights i ≤ draw.fraction * weights.sum ∧
        draw.fraction * weights.sum < cumulative weights (i + 1) := by
  obtain ⟨k, -, hfirst, hposition⟩ := exists_weightedPosition hnonneg hsum draw
  have hpart := firstAbove_eq_some_iff hnonneg (mul_nonneg draw.zero_le_fraction hsum.le) 0 i
  simp only [zero_add] at hpart
  rw [hfirst] at hpart
  rw [hposition, hpart]
  exact ⟨fun h => h.2, fun h => ⟨hi, h⟩⟩

/-- Without a positive weight nothing is selected. -/
theorem weightedPosition_of_sum_eq_zero (hnonneg : ∀ w ∈ weights, 0 ≤ w) (hsum : weights.sum = 0) :
    weightedPosition draw weights = none := by
  rw [weightedPosition]
  cases hget : weights[weightedRandomSelect draw weights]? with
  | none => rfl
  | some w =>
    obtain ⟨hk, hw⟩ := List.getElem?_eq_some_iff.1 hget
    have hnot : ¬ w > 0 := by
      have hle := cumulative_le_sum hnonneg (weightedRandomSelect draw weights + 1)
      rw [cumulative_succ hk, hw, hsum] at hle
      have hbefore := cumulative_nonneg hnonneg (weightedRandomSelect draw weights)
      linarith
    rw [Option.bind_some, if_neg hnot]

/-- **The share of a position is its weight over the sum**: the draws that select it are those of a
half-open interval of this length. -/
theorem exists_share (hnonneg : ∀ w ∈ weights, 0 ≤ w) (hsum : 0 < weights.sum) {i : Nat}
    (hi : i < weights.length) :
    ∃ a b : ℚ, 0 ≤ a ∧ a ≤ b ∧ b ≤ 1 ∧ b - a = weights[i] / weights.sum ∧
      ∀ draw, weightedPosition draw weights = some i ↔ a ≤ draw.fraction ∧ draw.fraction < b := by
  have hw := hnonneg _ (List.getElem_mem hi)
  refine ⟨cumulative weights i / weights.sum, cumulative weights (i + 1) / weights.sum,
    div_nonneg (cumulative_nonneg hnonneg i) hsum.le, ?_, ?_, ?_, fun draw => ?_⟩
  · rw [cumulative_succ hi]
    gcongr
    linarith
  · exact (div_le_one hsum).2 (cumulative_le_sum hnonneg (i + 1))
  · rw [cumulative_succ hi]
    ring
  · rw [weightedPosition_eq_some_iff hnonneg hsum hi, div_le_iff₀ hsum, lt_div_iff₀ hsum]

end Shares

/-- Without a user weight the factor is one. -/
theorem userWeighted_eq (origin : OriginEndpoint) (base : ℚ) :
    userWeighted origin base = base * ((origin.weight.map UInt32.toNat).getD 1 : Nat) := by
  unfold userWeighted
  cases origin.weight with
  | none => simp
  | some w => rfl

/-! ## The latency balancer -/

namespace WeightedLatencyBalancer

/-- The user weight over the recorded latency plus one; zero for an origin marked unhealthy. -/
def shareWeight (states : OriginStates) (origin : OriginEndpoint) : ℚ :=
  if states.isUnhealthy origin.url.asStr then 0
  else ((origin.weight.map UInt32.toNat).getD 1 : Nat) /
    ((((states.lookup origin.url.asStr).map fun st => st.ewmaLatencyNs.toNat).getD 0 : Nat) + 1)

/-- The position of the candidate that `select_origin` returns. -/
def selectPosition (draw : Draw) (candidates : List OriginEndpoint) (states : OriginStates) :
    Option Nat :=
  if candidates = [] then none else weightedPosition draw (candidates.map (weight states))

theorem selectOrigin_eq (draw : Draw) (candidates : List OriginEndpoint) (states : OriginStates) :
    selectOrigin draw candidates states =
      (selectPosition draw candidates states).bind (candidates[·]?) := by
  unfold selectOrigin selectPosition
  split
  · rfl
  · exact selectWeighted_eq draw candidates _

/-- The weight of the code is the one that the shares are stated with. -/
theorem weight_eq (states : OriginStates) (origin : OriginEndpoint) :
    weight states origin = shareWeight states origin := by
  unfold weight shareWeight OriginStates.isUnhealthy
  cases hlookup : states.lookup origin.url.asStr with
  | none => simp [userWeighted_eq]
  | some st =>
    cases hhealthy : st.healthy with
    | false => simp [hhealthy]
    | true =>
      -- a latency of zero has the base weight of the other branch as well
      have hbase : (if st.ewmaLatencyNs = 0 then (1 : ℚ)
            else 1 / ((st.ewmaLatencyNs.toNat : ℚ) + 1)) =
          1 / ((st.ewmaLatencyNs.toNat : ℚ) + 1) := by
        split
        · next hzero => simp [hzero]
        · rfl
      simp only [hhealthy, Bool.not_true, Bool.false_eq_true, if_false, userWeighted_eq, hbase,
        Option.map_some, Option.getD_some]
      rw [one_div, inv_mul_eq_div]

theorem shareWeight_nonneg (states : OriginStates) (origin : OriginEndpoint) :
    0 ≤ shareWeight states origin := by
  unfold shareWeight
  split
  · exact le_rfl
  · positivity

/-- What the latency balancer makes of candidates with a positive weight among them. -/
structure ExactShares (candidates : List OriginEndpoint) (states : OriginStates) : Prop where
  /-- A candidate is selected exactly when the draw falls into its part of the sum. -/
  part : ∀ draw i, i < candidates.length →
    (selectPosition draw candidates states = some i ↔
      cumulative (candidates.map (shareWeight states)) i ≤
          draw.fraction * (candidates.map (shareWeight states)).sum ∧
        draw.fraction * (candidates.map (shareWeight states)).sum <
          cumulative (candidates.map (shareWeight states)) (i + 1))
  /-- The draws that select a candidate fill an interval whose length is the candidate's share. -/
  share : ∀ i (hi : i < candidates.length), ∃ a b : ℚ, 0 ≤ a ∧ a ≤ b ∧ b ≤ 1 ∧
    b - a = shareWeight states candidates[i] / (candidates.map (shareWeight states)).sum ∧
    ∀ draw, selectPosition draw candidates states = some i ↔
      a ≤ draw.fraction ∧ draw.fraction < b
  /-- No candidate of weight zero is returned. -/
  weight_pos : ∀ draw origin, selectOrigin draw candidates states = some origin →
    0 < shareWeight states origin
  /-- Some candidate is returned. -/
  selected : ∀ draw, (selectOrigin draw candidates states).isSome
  /-- The loop does not fall through to the last index. -/
  no_fallback : ∀ draw : Draw,
    (firstAbove (draw.fraction * (candidates.map (weight states)).sum) 0 0
      (candidates.map (weight states))).isSome

/-- **Exact weighted shares.** When some weight is positive, each candidate gets the draws of an
interval as long as its share of the sum, and when none is, nothing is selected. -/
theorem exactShares (candidates : List OriginEndpoint) (hne : candidates ≠ [])
    (states : OriginStates) :
    (∀ draw, selectOrigin draw candidates states =
        (selectPosition draw candidates states).bind (candidates[·]?)) ∧
      (0 < (candidates.map (shareWeight states)).sum → ExactShares candidates states) ∧
      ((candidates.map (shareWeight states)).sum = 0 →
        ∀ draw, selectOrigin draw candidates states = none) := by
  have hweights : candidates.map (weight states) = candidates.map (shareWeight states) :=
    List.map_congr_left fun origin _ => weight_eq states origin
  have hnonneg : ∀ w ∈ candidates.map (shareWeight states), 0 ≤ w := by
    intro w hw
    obtain ⟨origin, -, rfl⟩ := List.mem_map.1 hw
    exact shareWeight_nonneg states origin
  have hposition : ∀ draw, selectPosition draw candidates states =
      weightedPosition draw (candidates.map (shareWeight states)) := by
    intro draw
    rw [selectPosition, if_neg hne, hweights]
  refine ⟨fun draw => selectOrigin_eq draw candidates states, fun hsum => ?_, fun hsum draw => ?_⟩
  · refine ⟨fun draw i hi => ?_, fun i hi => ?_, fun draw origin h => ?_, fun draw => ?_,
      fun draw => ?_⟩
    · rw [hposition]
      exact weightedPosition_eq_some_iff hnonneg hsum (by rwa [List.length_map])
    · simp only [hposition]
      obtain ⟨a, b, ha, hab, hb, hlength, hiff⟩ :=
        exists_share (i := i) hnonneg hsum (by rwa [List.length_map])
      rw [List.getElem_map] at hlength
      exact ⟨a, b, ha, hab, hb, hlength, hiff⟩
    · rw [selectOrigin, if_neg hne] at h
      rw [← weight_eq]
      exact (of_selectWeighted_eq_some h).2
    · obtain ⟨k, hk, -, hk'⟩ := exists_weightedPosition hnonneg hsum draw
      rw [List.length_map] at hk
      rw [selectOrigin_eq, hposition, hk', Option.bind_some, List.getElem?_eq_getElem hk]
      rfl
    · obtain ⟨k, -, hfirst, -⟩ := exists_weightedPosition hnonneg hsum draw
      rw [hweights, hfirst]
      rfl
  · rw [selectOrigin_eq, hposition, weightedPosition_of_sum_eq_zero hnonneg hsum, Option.bind_none]

/-- Two origins without a history, one of them with three times the weight of the other. -/
theorem exactShares_pair :
    ExactShares [.ofUrl .backend (some 3) none, .ofUrl .backend none none] ∅ ∧
      ∃ a b : ℚ, b - a = 3 / 4 ∧
        ∀ draw, selectPosition draw
            [.ofUrl .backend (some 3) none, .ofUrl .backend none none] ∅ = some 0 ↔
          a ≤ draw.fraction ∧ draw.fraction < b := by
  have h := (exactShares [.ofUrl .backend (some 3) none, .ofUrl .backend none none] (by decide)
    ∅).2.1 (by decide +kernel)
  refine ⟨h, ?_⟩
  obtain ⟨a, b, -, -, -, hlength, hiff⟩ := h.share 0 (by decide)
  refine ⟨a, b, ?_, hiff⟩
  rw [hlength]
  decide +kernel

end WeightedLatencyBalancer

end Upstreamer
