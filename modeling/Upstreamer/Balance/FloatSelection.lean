import Upstreamer.Balance.WeightedShares
import Upstreamer.Foundations.Binary

/-!
# Weighted selection in double precision

The weighted balancers compute in double precision: the weights, their sum, the drawn value and the
sums that are compared with it are rounded, the same sum in the same order each time. Here they are
modelled with these roundings.

Rounding never makes the loop fall through, so its fallback to the last index is not reached
(`selection_stops`). And what it does to the choice is what a slightly different draw would do:
the selected candidate is the one that the exact balancer selects for a draw that is no further away
than the errors of the operations add up to (`selectOrigin_backward`). In particular the two agree
on whether anything is selected, and an origin that is marked unhealthy is not.
-/

set_option autoImplicit false

namespace Upstreamer

open Foundations Foundations.Binary

/-- What the random generator supplies: 53 random bits for `random::<f64>`, and an index that
`random_range(0..len)` reduces to its range. -/
structure FloatDraw where
  bits : Nat
  index : Nat
  bits_lt : bits < 2 ^ 53

namespace FloatDraw

/-- The value of `random::<f64>`. -/
def fraction (draw : FloatDraw) : ℚ := draw.bits / 2 ^ 53

theorem zero_le_fraction (draw : FloatDraw) : 0 ≤ draw.fraction := by
  rw [fraction]
  positivity

/-- The value stays below one by a unit of the last bit. -/
theorem fraction_le (draw : FloatDraw) : draw.fraction ≤ 1 - 2 ^ (-53 : ℤ) := by
  have hbits : (draw.bits : ℚ) + 1 ≤ 2 ^ 53 := by exact_mod_cast draw.bits_lt
  have hunit : (2 : ℚ) ^ (-53 : ℤ) * 2 ^ 53 = 1 := by norm_num
  rw [fraction, div_le_iff₀ (by positivity)]
  linarith

theorem fraction_lt_one (draw : FloatDraw) : draw.fraction < 1 :=
  draw.fraction_le.trans_lt (sub_lt_self _ (zpow_pos two_pos _))

/-- The draw of the exact balancers with the same value. -/
def toDraw (draw : FloatDraw) : Draw :=
  ⟨draw.fraction, draw.index, draw.zero_le_fraction, draw.fraction_lt_one⟩

end FloatDraw

namespace F64

/-- The loop over the weights, from the index `i` with the weights before it summed up. -/
def firstAbove (random : ℚ) : Nat → ℚ → List ℚ → Option Nat
  | _, _, [] => none
  | i, cumulative, w :: ws =>
      if f64 (cumulative + w) > random then some i
      else firstAbove random (i + 1) (f64 (cumulative + w)) ws

/-- The value that the sums are compared with. -/
def drawn (draw : FloatDraw) (weights : List ℚ) : ℚ :=
  f64 (draw.fraction * roundedSum f64 0 weights)

def weightedRandomSelect (draw : FloatDraw) (weights : List ℚ) : Nat :=
  if roundedSum f64 0 weights ≤ 0 then
    draw.index % weights.length
  else
    (firstAbove (drawn draw weights) 0 0 weights).getD (weights.length - 1)

/-- The weight of a candidate whose base weight is `base`. -/
def userWeighted (origin : OriginEndpoint) (base : ℚ) : ℚ :=
  match origin.weight with
  | some w => f64 (base * f64 w.toNat)
  | none => base

/-- The final step of both balancers: draw an index and check the weight found there. -/
def selectWeighted (draw : FloatDraw) (candidates : List OriginEndpoint) (weights : List ℚ) :
    Option OriginEndpoint :=
  let idx := weightedRandomSelect draw weights
  match weights[idx]? with
  | some w => if w > 0 then candidates[idx]? else none
  | none => none

namespace WeightedLatencyBalancer

def weight (states : OriginStates) (origin : OriginEndpoint) : ℚ :=
  match states.lookup origin.url.asStr with
  | some st =>
      if !st.healthy then 0
      else userWeighted origin
        (if st.ewmaLatencyNs = 0 then 1
          else f64 (1 / f64 (f64 st.ewmaLatencyNs.toNat + 1)))
  | none => userWeighted origin 1

/-- `WeightedLatencyBalancer::select_origin`. -/
def selectOrigin (draw : FloatDraw) (candidates : List OriginEndpoint) (states : OriginStates) :
    Option OriginEndpoint :=
  if candidates = [] then none
  else selectWeighted draw candidates (candidates.map (weight states))

end WeightedLatencyBalancer

namespace WeightedMetricsBalancer

def weight (states : OriginStates) (origin : OriginEndpoint) : ℚ :=
  match states.lookup origin.url.asStr with
  | some st =>
      if !st.healthy then 0
      else
        let metricsWeight := max (f64 (1000 - Upstreamer.WeightedMetricsBalancer.defaultPressure)) 0
        userWeighted origin <|
          if metricsWeight < 100 then
            if st.ewmaLatencyNs > 0 then
              f64 (metricsWeight * f64 (1 / f64 (f64 st.ewmaLatencyNs.toNat + 1)))
            else metricsWeight
          else metricsWeight
  | none => userWeighted origin 1000

/-- `WeightedMetricsBalancer::select_origin`. -/
def selectOrigin (draw : FloatDraw) (candidates : List OriginEndpoint) (states : OriginStates) :
    Option OriginEndpoint :=
  if candidates = [] then none
  else selectWeighted draw candidates (candidates.map (weight states))

end WeightedMetricsBalancer

/-! ## The loop -/

section Loop

variable {weights : List ℚ} {random c : ℚ}

/-- Where the loop stops the sums pass the random value. -/
theorem of_firstAbove (hc : c ≤ random) {start k : Nat}
    (h : firstAbove random start c weights = some k) :
    ∃ i < weights.length, k = start + i ∧ roundedSum f64 c (weights.take i) ≤ random ∧
      random < roundedSum f64 c (weights.take (i + 1)) := by
  induction weights generalizing start c with
  | nil => cases h
  | cons w ws ih =>
    rw [firstAbove] at h
    split at h
    · next habove => exact ⟨0, Nat.succ_pos _, (Option.some.inj h).symm, hc, habove⟩
    · next hbelow =>
      obtain ⟨i, hi, rfl, hle, hlt⟩ := ih (not_lt.1 hbelow) h
      exact ⟨i + 1, Nat.succ_lt_succ hi, by omega, hle, hlt⟩

/-- The loop stops when the random value is below the last sum. -/
theorem exists_firstAbove (hc : c ≤ random) (hrandom : random < roundedSum f64 c weights)
    (start : Nat) : ∃ k, firstAbove random start c weights = some k := by
  induction weights generalizing start c with
  | nil => exact absurd hc (not_le.2 hrandom)
  | cons w ws ih =>
    rw [firstAbove]
    split
    · exact ⟨start, rfl⟩
    · next hbelow => exact ih (not_lt.1 hbelow) hrandom (start + 1)

theorem roundedSum_take_succ {i : Nat} (hi : i < weights.length) :
    roundedSum f64 c (weights.take (i + 1)) =
      f64 (roundedSum f64 c (weights.take i) + weights[i]) := by
  rw [List.take_succ_eq_append_getElem hi, roundedSum, List.foldl_append]
  rfl

/-- The product with a value of the generator is zero or normal. -/
theorem atLeast_fraction_mul (draw : FloatDraw) {total : ℚ} (htotal : AtLeast low total) :
    AtLeast (2 ^ (-1022 : ℤ)) (draw.fraction * total) := by
  rcases htotal with rfl | htotal
  · exact Or.inl (mul_zero _)
  · rcases Nat.eq_zero_or_pos draw.bits with hzero | hpos
    · left
      rw [FloatDraw.fraction, hzero, Nat.cast_zero, zero_div, zero_mul]
    · right
      have hone : (1 : ℚ) ≤ draw.bits := by exact_mod_cast hpos
      have hfraction : (2 : ℚ) ^ (-53 : ℤ) ≤ draw.fraction := by
        rw [FloatDraw.fraction, le_div_iff₀ (by positivity)]
        exact (show (2 : ℚ) ^ (-53 : ℤ) * 2 ^ 53 = 1 by norm_num).trans_le hone
      calc (2 : ℚ) ^ (-1022 : ℤ) ≤ 2 ^ (-53 + -65 : ℤ) :=
            zpow_le_zpow_right₀ one_le_two (by decide)
        _ = 2 ^ (-53 : ℤ) * low := zpow_add₀ two_ne_zero _ _
        _ ≤ draw.fraction * total :=
            mul_le_mul hfraction htotal low_pos.le draw.zero_le_fraction

variable (hweights : ∀ w ∈ weights, AtLeast low w)

include hweights

theorem atLeast_roundedSum : AtLeast low (roundedSum f64 0 weights) :=
  AtLeast.roundedSum isRounding_f64 low_pos isF64_low hweights (Or.inl rfl)

/-- **The drawn value stays below the sum**, however it is rounded. -/
theorem drawn_lt (hsum : 0 < roundedSum f64 0 weights) (draw : FloatDraw) :
    drawn draw weights < roundedSum f64 0 weights :=
  isRounding_f64.rnd_lt (atLeast_fraction_mul draw (atLeast_roundedSum hweights))
    (mul_nonneg draw.zero_le_fraction hsum.le) hsum
    (mul_le_mul_of_nonneg_right draw.fraction_le hsum.le)

theorem zero_le_drawn (draw : FloatDraw) : 0 ≤ drawn draw weights :=
  isRounding_f64.rnd_nonneg (mul_nonneg draw.zero_le_fraction
    ((atLeast_roundedSum hweights).nonneg low_pos))

/-- **The loop stops**, at a position whose weight is not zero. -/
theorem exists_firstAbove_drawn (hsum : 0 < roundedSum f64 0 weights) (draw : FloatDraw) :
    ∃ (i : Nat) (hi : i < weights.length), firstAbove (drawn draw weights) 0 0 weights = some i ∧
      0 < weights[i] ∧ roundedSum f64 0 (weights.take i) ≤ drawn draw weights ∧
        drawn draw weights < roundedSum f64 0 (weights.take (i + 1)) := by
  have hzero := zero_le_drawn hweights draw
  obtain ⟨k, hk⟩ := exists_firstAbove hzero (drawn_lt hweights hsum draw) 0
  obtain ⟨i, hi, rfl, hle, hlt⟩ := of_firstAbove hzero hk
  rw [Nat.zero_add] at hk
  refine ⟨i, hi, hk, ?_, hle, hlt⟩
  -- adding a weight of zero would change nothing
  refine lt_of_le_of_ne ((hweights _ (List.getElem_mem hi)).nonneg low_pos) fun hnone => ?_
  have hrep : IsF64 (roundedSum f64 0 (weights.take i)) :=
    rep_roundedSum isRounding_f64 isRounding_f64.rep_zero _
  rw [roundedSum_take_succ hi, ← hnone, add_zero, isRounding_f64.exact _ hrep] at hlt
  exact absurd hle (not_le.2 hlt)

end Loop

/-! ## The exact choice for a draw nearby -/

/-- A value whose part of the interval from zero to one is reached up to a factor has a value of the
part near to it. -/
theorem exists_near {a b r ratio : ℚ} (hratio : 1 ≤ ratio) (hab : a < b)
    (hr : 0 ≤ r) (hr1 : r < 1) (hle : a ≤ ratio * r) (hlt : r < ratio * b) :
    ∃ r', a ≤ r' ∧ r' < b ∧ |r' - r| ≤ ratio - 1 := by
  have hpos : 0 < ratio := zero_lt_one.trans_le hratio
  have hslack : (ratio - 1) * r ≤ ratio - 1 :=
    mul_le_of_le_one_right (sub_nonneg.2 hratio) hr1.le
  by_cases hrb : r < b
  · refine ⟨max r a, le_max_right _ _, max_lt hrb hab, ?_⟩
    rw [abs_of_nonneg (sub_nonneg.2 (le_max_left _ _)), sub_le_iff_le_add]
    exact max_le (by linarith) (by linarith)
  · rw [not_lt] at hrb
    have hdiv : r / ratio < b := (div_lt_iff₀ hpos).2 (by linarith)
    have hless : r / ratio ≤ r := div_le_self hr hratio
    have hback : r ≤ r / ratio + (ratio - 1) := by
      have hone : r / ratio ≤ 1 := hless.trans hr1.le
      have hsplit : r = r / ratio + r / ratio * (ratio - 1) := by
        field_simp
        ring
      have := mul_le_of_le_one_left (sub_nonneg.2 hratio) hone
      linarith
    refine ⟨max (r / ratio) a, le_max_right _ _, max_lt hdiv hab, ?_⟩
    rw [abs_of_nonpos (sub_nonpos.2 (max_le hless (by linarith)))]
    have := le_max_left (r / ratio) a
    linarith

section Backward

variable {weights exact : List ℚ} {m : Nat}

/-- The weights are those of the exact balancer up to `m` errors each. -/
def CloseWeights (m : Nat) (weights exact : List ℚ) : Prop :=
  List.Forall₂ (fun w w' => AtLeast low w ∧ 0 ≤ w' ∧ Close f64Factor m w w') weights exact

theorem CloseWeights.atLeast (h : CloseWeights m weights exact) :
    ∀ w ∈ weights, AtLeast low w := by
  induction h with
  | nil => exact fun _ hw => absurd hw List.not_mem_nil
  | cons hw _ ih => exact List.forall_mem_cons.2 ⟨hw.1, ih⟩

theorem CloseWeights.nonneg (h : CloseWeights m weights exact) : ∀ w ∈ exact, 0 ≤ w := by
  induction h with
  | nil => exact fun _ hw => absurd hw List.not_mem_nil
  | cons hw _ ih => exact List.forall_mem_cons.2 ⟨hw.2.1, ih⟩

/-- The sums that the loop compares are those of the exact weights, up to an error for each
addition. -/
theorem CloseWeights.cumulative (h : CloseWeights m weights exact) (i : Nat) :
    Close f64Factor (m + weights.length) (roundedSum f64 0 (weights.take i))
      (Upstreamer.cumulative exact i) := by
  have htake : CloseWeights m (weights.take i) (exact.take i) := List.forall₂_take i h
  have hzero : Close f64Factor m 0 0 := by simp [Close]
  have hclose := close_roundedSum isRounding_f64 low_pos isF64_low tiny_le_low htake (Or.inl rfl)
    le_rfl hzero
  rw [zero_add] at hclose
  refine hclose.mono one_le_f64Factor ?_ ?_ (cumulative_nonneg h.nonneg i)
  · rw [List.length_take]
    omega
  · exact (atLeast_roundedSum htake.atLeast).nonneg low_pos

theorem CloseWeights.sum (h : CloseWeights m weights exact) :
    Close f64Factor (m + weights.length) (roundedSum f64 0 weights) exact.sum := by
  have hlast := h.cumulative weights.length
  have hlength := h.length_eq
  rwa [Upstreamer.cumulative, List.take_of_length_le le_rfl,
    List.take_of_length_le hlength.ge] at hlast

theorem CloseWeights.eq_zero (h : CloseWeights m weights exact) (hsum : exact.sum = 0) :
    ∀ w ∈ weights, w = 0 := by
  induction h with
  | nil => exact fun _ hw => absurd hw List.not_mem_nil
  | @cons w w' ws ws' hw hrest ih =>
    have hnonneg := List.sum_nonneg (CloseWeights.nonneg hrest)
    rw [List.sum_cons] at hsum
    obtain ⟨hatLeast, hw', hclose⟩ := hw
    obtain rfl : w' = 0 := by linarith
    refine List.forall_mem_cons.2 ⟨?_, ih (by linarith)⟩
    have hle := hclose.1
    rw [mul_zero] at hle
    exact le_antisymm hle (hatLeast.nonneg low_pos)

/-- The drawn value is the exact one, up to the errors of the sum and one more. -/
theorem CloseWeights.drawn (h : CloseWeights m weights exact) (draw : FloatDraw) :
    Close f64Factor (m + weights.length + 1) (drawn draw weights)
      (draw.fraction * exact.sum) := by
  have hg := one_le_f64Factor
  have htotal := (atLeast_roundedSum h.atLeast).nonneg low_pos
  have hround : Close f64Factor 1 (F64.drawn draw weights)
      (draw.fraction * roundedSum f64 0 weights) :=
    isRounding_f64.close (atLeast_fraction_mul draw (atLeast_roundedSum h.atLeast))
      (mul_nonneg draw.zero_le_fraction htotal)
  have hmul := Close.mul hg draw.zero_le_fraction draw.zero_le_fraction htotal
    (List.sum_nonneg h.nonneg) (Close.refl f64Factor draw.fraction) h.sum
  have hboth := hround.trans hg hmul
  rwa [Nat.zero_add, Nat.add_comm 1] at hboth

/-- **The loop stops where the exact one does for a draw nearby.** -/
theorem exists_draw (h : CloseWeights m weights exact) (hsum : 0 < roundedSum f64 0 weights)
    (draw : FloatDraw) :
    ∃ draw' : Draw,
      |draw'.fraction - draw.fraction| ≤ f64Factor ^ (2 * (m + weights.length) + 1) - 1 ∧
        weightedPosition draw' exact = firstAbove (F64.drawn draw weights) 0 0 weights := by
  have hg := one_le_f64Factor
  have hg0 : 0 < f64Factor := zero_lt_one.trans_le hg
  obtain ⟨i, hi, hfirst, hpos, hle, hlt⟩ := exists_firstAbove_drawn h.atLeast hsum draw
  have hlength : weights.length = exact.length := h.length_eq
  have hi' : i < exact.length := hlength ▸ hi
  have hexact : 0 < exact.sum := h.sum.symm.pos hg0 hsum
  have hweight : 0 < exact[i] :=
    ((List.forall₂_iff_get.1 h).2 i hi hi').2.2.symm.pos hg0 hpos
  have hpart := cumulative_succ hi'
  have hdrawn := h.drawn draw
  have hpow : 0 < f64Factor ^ (m + weights.length) := pow_pos hg0 _
  have hpow' : 0 < f64Factor ^ (m + weights.length + 1) := pow_pos hg0 _
  -- the part of the position, stretched by the errors on both sides, contains the draw
  have hlow : Upstreamer.cumulative exact i ≤
      f64Factor ^ (2 * (m + weights.length) + 1) * (draw.fraction * exact.sum) :=
    calc Upstreamer.cumulative exact i
        ≤ f64Factor ^ (m + weights.length) * roundedSum f64 0 (weights.take i) :=
          (h.cumulative i).2
      _ ≤ f64Factor ^ (m + weights.length) * F64.drawn draw weights :=
          mul_le_mul_of_nonneg_left hle hpow.le
      _ ≤ f64Factor ^ (m + weights.length) *
          (f64Factor ^ (m + weights.length + 1) * (draw.fraction * exact.sum)) :=
          mul_le_mul_of_nonneg_left hdrawn.1 hpow.le
      _ = f64Factor ^ (2 * (m + weights.length) + 1) * (draw.fraction * exact.sum) := by ring
  have hhigh : draw.fraction * exact.sum <
      f64Factor ^ (2 * (m + weights.length) + 1) * Upstreamer.cumulative exact (i + 1) :=
    calc draw.fraction * exact.sum
        ≤ f64Factor ^ (m + weights.length + 1) * F64.drawn draw weights := hdrawn.2
      _ < f64Factor ^ (m + weights.length + 1) * roundedSum f64 0 (weights.take (i + 1)) :=
          mul_lt_mul_of_pos_left hlt hpow'
      _ ≤ f64Factor ^ (m + weights.length + 1) *
          (f64Factor ^ (m + weights.length) * Upstreamer.cumulative exact (i + 1)) :=
          mul_le_mul_of_nonneg_left (h.cumulative (i + 1)).1 hpow'.le
      _ = f64Factor ^ (2 * (m + weights.length) + 1) * Upstreamer.cumulative exact (i + 1) := by
          ring
  obtain ⟨r, hlr, hrh, hnear⟩ := exists_near (one_le_pow₀ hg)
    (a := Upstreamer.cumulative exact i / exact.sum)
    (b := Upstreamer.cumulative exact (i + 1) / exact.sum)
    ((div_lt_div_iff_of_pos_right hexact).2 (by linarith)) draw.zero_le_fraction
    draw.fraction_lt_one
    (by rw [div_le_iff₀ hexact, mul_assoc]; exact hlow)
    (by rw [← mul_div_assoc, lt_div_iff₀ hexact]; exact hhigh)
  have hr0 : 0 ≤ r :=
    (div_nonneg (cumulative_nonneg h.nonneg i) hexact.le).trans hlr
  have hr1 : r < 1 :=
    hrh.trans_le ((div_le_one hexact).2 (cumulative_le_sum h.nonneg (i + 1)))
  refine ⟨⟨r, draw.index, hr0, hr1⟩, hnear, ?_⟩
  rw [hfirst, weightedPosition_eq_some_iff h.nonneg hexact hi']
  exact ⟨(div_le_iff₀ hexact).1 hlr, (lt_div_iff₀ hexact).1 hrh⟩

/-- The final step selects what the exact one selects for a draw nearby. -/
theorem selectWeighted_backward (h : CloseWeights m weights exact) (draw : FloatDraw)
    (candidates : List OriginEndpoint) :
    ∃ draw' : Draw,
      |draw'.fraction - draw.fraction| ≤ f64Factor ^ (2 * (m + weights.length) + 1) - 1 ∧
        Upstreamer.selectWeighted draw' candidates exact =
          selectWeighted draw candidates weights := by
  have hg := one_le_f64Factor
  have hg0 : 0 < f64Factor := zero_lt_one.trans_le hg
  rcases ((atLeast_roundedSum h.atLeast).nonneg low_pos).eq_or_lt with hzero | hsum
  · -- without a weight nothing is selected, whatever the draw
    have hexact : exact.sum = 0 := by
      have hle := h.sum.2
      rw [← hzero, mul_zero] at hle
      exact le_antisymm hle (List.sum_nonneg h.nonneg)
    refine ⟨draw.toDraw, ?_, ?_⟩
    · show |draw.fraction - draw.fraction| ≤ _
      rw [sub_self, abs_zero]
      exact sub_nonneg.2 (one_le_pow₀ hg)
    · rw [selectWeighted_eq, weightedPosition_of_sum_eq_zero h.nonneg hexact, Option.bind_none]
      simp only [selectWeighted]
      split
      · next w hw =>
        rw [h.eq_zero hexact w (List.mem_of_getElem? hw), if_neg (lt_irrefl 0)]
      · rfl
  · obtain ⟨draw', hnear, hposition⟩ := exists_draw h hsum draw
    obtain ⟨i, hi, hfirst, hpos, -, -⟩ := exists_firstAbove_drawn h.atLeast hsum draw
    refine ⟨draw', hnear, ?_⟩
    have hidx : weightedRandomSelect draw weights = i := by
      rw [weightedRandomSelect, if_neg (not_le.2 hsum), hfirst, Option.getD_some]
    rw [selectWeighted_eq, hposition, hfirst, Option.bind_some]
    simp only [selectWeighted, hidx, List.getElem?_eq_getElem hi, if_pos hpos]

end Backward

/-! ## The balancers -/

section Weights

theorem close_userWeighted {m : Nat} {base exact : ℚ} (hbase : AtLeast low base)
    (hexact : 0 ≤ exact) (hclose : Close f64Factor m base exact) (origin : OriginEndpoint) :
    AtLeast low (userWeighted origin base) ∧ 0 ≤ Upstreamer.userWeighted origin exact ∧
      Close f64Factor (m + 1) (userWeighted origin base)
        (Upstreamer.userWeighted origin exact) := by
  have hg := one_le_f64Factor
  have hbase0 := hbase.nonneg low_pos
  unfold userWeighted Upstreamer.userWeighted
  cases origin.weight with
  | none => exact ⟨hbase, hexact, hclose.mono hg (Nat.le_succ m) hbase0 hexact⟩
  | some w =>
    have hw : f64 w.toNat = w.toNat := f64_natCast (by have := w.toNat_lt; omega)
    have hnat : (0 : ℚ) ≤ w.toNat := Nat.cast_nonneg _
    have hproduct : AtLeast low (base * w.toNat) := hbase.mul_natCast low_pos w.toNat
    have hround := isRounding_f64.close (hproduct.mono tiny_le_low) (mul_nonneg hbase0 hnat)
    have hmul := hclose.mul hg hbase0 hexact hnat hnat (Close.refl f64Factor (w.toNat : ℚ))
    have hboth := hround.trans hg hmul
    simp only [hw]
    refine ⟨atLeast_f64 hproduct, mul_nonneg hexact hnat, ?_⟩
    rwa [Nat.add_zero, Nat.add_comm 1] at hboth

/-- The base weight of a recorded latency has three errors. -/
theorem close_latency (latency : UInt64) :
    AtLeast low (f64 (1 / f64 (f64 latency.toNat + 1))) ∧
      Close f64Factor 3 (f64 (1 / f64 (f64 latency.toNat + 1)))
        (1 / ((latency.toNat : ℚ) + 1)) := by
  have hg := one_le_f64Factor
  generalize hlatency : (latency.toNat : ℚ) = x
  have hx0 : 0 ≤ x := hlatency ▸ Nat.cast_nonneg _
  have hxlt : x ≤ 2 ^ (64 : ℤ) := by
    have hlt : latency.toNat ≤ 2 ^ 64 := latency.toNat_lt.le
    rw [← hlatency]
    exact_mod_cast hlt
  have hx : AtLeast low x := hlatency ▸ atLeast_natCast latency.toNat
  -- the conversion, the addition and the division are rounded
  have hconvert := isRounding_f64.close (hx.mono tiny_le_low) hx0
  have hconverted := isRounding_f64.rnd_nonneg hx0
  have hsum : Close f64Factor 1 (f64 x + 1) (x + 1) :=
    hconvert.add ((Close.refl f64Factor 1).mono hg (Nat.zero_le 1) zero_le_one zero_le_one)
  have hsum1 : 1 ≤ f64 x + 1 := by linarith
  have hadd := isRounding_f64.close (Or.inr ((tiny_le_low.trans low_le_one).trans hsum1))
    (zero_le_one.trans hsum1)
  have hden := hadd.trans hg hsum
  have hden1 : 1 ≤ f64 (f64 x + 1) := isRounding_f64.le_rnd isF64_one hsum1
  have hden0 : 0 < f64 (f64 x + 1) := zero_lt_one.trans_le hden1
  have hinv := hden.inv hden0 (by linarith)
  have hbig : f64 (f64 x + 1) ≤ 2 ^ (65 : ℤ) := by
    have hconv : f64 x ≤ 2 ^ (64 : ℤ) :=
      isRounding_f64.rnd_le (representable_zpow (by decide)) hxlt
    refine isRounding_f64.rnd_le (representable_zpow (by decide)) ?_
    norm_num at hconv ⊢
    linarith
  have hlow : AtLeast low (f64 (f64 x + 1))⁻¹ := by
    right
    rw [low, zpow_neg]
    exact inv_anti₀ hden0 hbig
  have hround := isRounding_f64.close (hlow.mono tiny_le_low) (inv_nonneg.2 hden0.le)
  have hboth := hround.trans hg hinv
  rw [one_div, one_div]
  exact ⟨atLeast_f64 hlow, hboth⟩

/-- **A weight of the latency balancer has four errors.** -/
theorem close_latencyWeight (states : OriginStates) (origin : OriginEndpoint) :
    AtLeast low (WeightedLatencyBalancer.weight states origin) ∧
      0 ≤ Upstreamer.WeightedLatencyBalancer.weight states origin ∧
      Close f64Factor 4 (WeightedLatencyBalancer.weight states origin)
        (Upstreamer.WeightedLatencyBalancer.weight states origin) := by
  have hg := one_le_f64Factor
  have hone : Close f64Factor 3 1 1 :=
    (Close.refl f64Factor 1).mono hg (Nat.zero_le 3) zero_le_one zero_le_one
  unfold WeightedLatencyBalancer.weight Upstreamer.WeightedLatencyBalancer.weight
  cases states.lookup origin.url.asStr with
  | none => exact close_userWeighted (Or.inr low_le_one) zero_le_one hone origin
  | some st =>
    dsimp only
    split
    · exact ⟨Or.inl rfl, le_rfl, by simp [Close]⟩
    · split
      · exact close_userWeighted (Or.inr low_le_one) zero_le_one hone origin
      · obtain ⟨hlow, hclose⟩ := close_latency st.ewmaLatencyNs
        exact close_userWeighted hlow (by positivity) hclose origin

/-- **A weight of the metrics balancer has one error.** -/
theorem close_metricsWeight (states : OriginStates) (origin : OriginEndpoint) :
    AtLeast low (WeightedMetricsBalancer.weight states origin) ∧
      0 ≤ Upstreamer.WeightedMetricsBalancer.weight states origin ∧
      Close f64Factor 1 (WeightedMetricsBalancer.weight states origin)
        (Upstreamer.WeightedMetricsBalancer.weight states origin) := by
  have hthousand : f64 1000 = 1000 := by
    have h : f64 (1000 : Nat) = (1000 : Nat) := f64_natCast (by decide)
    exact_mod_cast h
  have hlow : AtLeast low 1000 := Or.inr (low_le_one.trans (by norm_num))
  have hbase := close_userWeighted hlow (by norm_num) (Close.refl f64Factor 1000) origin
  unfold WeightedMetricsBalancer.weight Upstreamer.WeightedMetricsBalancer.weight
  cases states.lookup origin.url.asStr with
  | none => exact hbase
  | some st =>
    have hmax : max (1000 : ℚ) 0 = 1000 := max_eq_left (by norm_num)
    have hpressure : (1000 : ℚ) - Upstreamer.WeightedMetricsBalancer.defaultPressure = 1000 :=
      sub_zero _
    have hnot : ¬ (1000 : ℚ) < 100 := by norm_num
    simp only [hpressure, hthousand, hmax, if_neg hnot]
    split
    · exact ⟨Or.inl rfl, le_rfl, by simp [Close]⟩
    · exact hbase

theorem closeWeights_map {m : Nat} {weight exact : OriginEndpoint → ℚ}
    (h : ∀ origin, AtLeast low (weight origin) ∧ 0 ≤ exact origin ∧
      Close f64Factor m (weight origin) (exact origin)) (candidates : List OriginEndpoint) :
    CloseWeights m (candidates.map weight) (candidates.map exact) := by
  induction candidates with
  | nil => exact List.Forall₂.nil
  | cons origin candidates ih => exact List.Forall₂.cons (h origin) ih

end Weights

/-- There is no weight to draw from, or the loop stops at a candidate whose weight is positive. -/
def Stops (draw : FloatDraw) (candidates : List OriginEndpoint) (weight : OriginEndpoint → ℚ) :
    Prop :=
  roundedSum f64 0 (candidates.map weight) ≤ 0 ∨
    ∃ i origin, firstAbove (drawn draw (candidates.map weight)) 0 0 (candidates.map weight) =
      some i ∧ candidates[i]? = some origin ∧ 0 < weight origin

theorem stops_of_atLeast {weight : OriginEndpoint → ℚ} {candidates : List OriginEndpoint}
    (h : ∀ w ∈ candidates.map weight, AtLeast low w) (draw : FloatDraw) :
    Stops draw candidates weight := by
  rcases le_or_gt (roundedSum f64 0 (candidates.map weight)) 0 with hzero | hsum
  · exact Or.inl hzero
  · obtain ⟨i, hi, hfirst, hpos, -, -⟩ := exists_firstAbove_drawn h hsum draw
    rw [List.length_map] at hi
    rw [List.getElem_map] at hpos
    exact Or.inr ⟨i, candidates[i], hfirst, List.getElem?_eq_getElem hi, hpos⟩

/-- **The fallback of the loop is not reached.** For every draw, all candidates and all histories
the loops of both weighted balancers stop at a candidate whose weight is positive, when there is
one. -/
theorem selection_stops (draw : FloatDraw) (candidates : List OriginEndpoint)
    (states : OriginStates) :
    Stops draw candidates (WeightedLatencyBalancer.weight states) ∧
      Stops draw candidates (WeightedMetricsBalancer.weight states) :=
  ⟨stops_of_atLeast (closeWeights_map (close_latencyWeight states) candidates).atLeast draw,
    stops_of_atLeast (closeWeights_map (close_metricsWeight states) candidates).atLeast draw⟩

/-- **Rounding is no more than a different draw.** What either weighted balancer selects in double
precision, the exact one selects for a draw that differs by no more than the errors of the
operations add up to: about `2 * n + 9` times `2 ^ -53` for the latency balancer and `2 * n + 3`
times for the metrics balancer, `n` being the number of candidates. -/
theorem selectOrigin_backward (draw : FloatDraw) (candidates : List OriginEndpoint)
    (states : OriginStates) :
    (∃ draw' : Draw,
      |draw'.fraction - draw.fraction| ≤ f64Factor ^ (2 * candidates.length + 9) - 1 ∧
        WeightedLatencyBalancer.selectOrigin draw candidates states =
          Upstreamer.WeightedLatencyBalancer.selectOrigin draw' candidates states) ∧
    ∃ draw' : Draw,
      |draw'.fraction - draw.fraction| ≤ f64Factor ^ (2 * candidates.length + 3) - 1 ∧
        WeightedMetricsBalancer.selectOrigin draw candidates states =
          Upstreamer.WeightedMetricsBalancer.selectOrigin draw' candidates states := by
  constructor
  · obtain ⟨draw', hnear, hselect⟩ := selectWeighted_backward
      (closeWeights_map (close_latencyWeight states) candidates) draw candidates
    rw [List.length_map, show 2 * (4 + candidates.length) + 1 = 2 * candidates.length + 9 by omega]
      at hnear
    refine ⟨draw', hnear, ?_⟩
    rw [WeightedLatencyBalancer.selectOrigin, Upstreamer.WeightedLatencyBalancer.selectOrigin,
      hselect]
  · obtain ⟨draw', hnear, hselect⟩ := selectWeighted_backward
      (closeWeights_map (close_metricsWeight states) candidates) draw candidates
    rw [List.length_map, show 2 * (1 + candidates.length) + 1 = 2 * candidates.length + 3 by omega]
      at hnear
    refine ⟨draw', hnear, ?_⟩
    rw [WeightedMetricsBalancer.selectOrigin, Upstreamer.WeightedMetricsBalancer.selectOrigin,
      hselect]

end F64

end Upstreamer
