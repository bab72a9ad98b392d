import Upstreamer.Balance.WeightedShares
import Upstreamer.Foundations.Average

/-!
# The latency average

`record_latency` keeps a truncated exponential average in which the average so far counts nine
times. Below a tenth of `2 ^ 64` its 64-bit arithmetic is exact (`toNat_recordLatency`), so the
facts of `averages` carry over: the average stays between the smallest and the largest value it has
met, and a repeated sample brings it to rest at most nine below the sample
(`recordLatency_bounded`).

The average of a fresh history starts at zero and approaches the samples from below. Until it has
come to rest, a history with fewer samples has the smaller average, so an origin with many samples
can have a smaller weight than a slower one with few (`preferred_samples_iff`).
-/

set_option autoImplicit false

namespace Upstreamer

open Foundations

namespace OriginState

/-- The samples recorded one after another. -/
def recordLatencies (st : OriginState) (samples : List Duration) : OriginState :=
  samples.foldl recordLatency st

theorem healthy_recordLatencies (st : OriginState) (samples : List Duration) :
    (st.recordLatencies samples).healthy = st.healthy := by
  induction samples generalizing st with
  | nil => rfl
  | cons x xs ih => exact ih (st.recordLatency x)

section Exact

variable {st : OriginState} {sample bound : Nat} {samples : List Duration}

/-- Below a tenth of the range the sum under the division does not wrap. -/
theorem sum_lt_of_le (hbound : 10 * bound < 2 ^ 64) (hst : st.ewmaLatencyNs.toNat ≤ bound)
    (hsample : sample ≤ bound) : sample + 9 * st.ewmaLatencyNs.toNat < 2 ^ 64 := by
  omega

theorem toNat_recordLatency (h : sample + 9 * st.ewmaLatencyNs.toNat < 2 ^ 64) :
    (st.recordLatency sample).ewmaLatencyNs.toNat = average 9 st.ewmaLatencyNs.toNat sample := by
  have hmul : (9 * st.ewmaLatencyNs).toNat = 9 * st.ewmaLatencyNs.toNat := by
    rw [UInt64.toNat_mul]
    exact Nat.mod_eq_of_lt (lt_of_le_of_lt (Nat.le_add_left _ sample) h)
  have hsample : (UInt64.ofNat sample).toNat = sample :=
    UInt64.toNat_ofNat_of_lt' (lt_of_le_of_lt (Nat.le_add_right sample _) h)
  show ((UInt64.ofNat sample + 9 * st.ewmaLatencyNs) / 10).toNat = _
  rw [UInt64.toNat_div, UInt64.toNat_add, hsample, hmul, Nat.mod_eq_of_lt h]
  rfl

theorem toNat_recordLatencies (hbound : 10 * bound < 2 ^ 64)
    (hst : st.ewmaLatencyNs.toNat ≤ bound) (hsamples : ∀ x ∈ samples, x ≤ bound) :
    (st.recordLatencies samples).ewmaLatencyNs.toNat =
      averages 9 st.ewmaLatencyNs.toNat samples := by
  induction samples generalizing st with
  | nil => rfl
  | cons x xs ih =>
    obtain ⟨hx, hxs⟩ := List.forall_mem_cons.1 hsamples
    have hstep := toNat_recordLatency (sum_lt_of_le hbound hst hx)
    have hnext : (st.recordLatency x).ewmaLatencyNs.toNat ≤ bound := by
      rw [hstep]
      exact average_le hst hx
    rw [averages_cons, ← hstep]
    exact ih hnext hxs

theorem toNat_recordLatencies_le (hbound : 10 * bound < 2 ^ 64)
    (hst : st.ewmaLatencyNs.toNat ≤ bound) (hsamples : ∀ x ∈ samples, x ≤ bound) :
    (st.recordLatencies samples).ewmaLatencyNs.toNat ≤ bound := by
  rw [toNat_recordLatencies hbound hst hsamples]
  exact averages_le hst hsamples

end Exact

/-! ## Bounds and rest -/

/-- The average of a fresh history after the samples. -/
def latencyAfter (samples : List Duration) : Nat :=
  (new.recordLatencies samples).ewmaLatencyNs.toNat

theorem latencyAfter_concat (samples : List Duration) (x : Duration) :
    latencyAfter (samples ++ [x]) =
      ((new.recordLatencies samples).recordLatency x).ewmaLatencyNs.toNat := by
  rw [latencyAfter, recordLatencies, List.foldl_append]
  rfl

/-- What one more sample does to the average of a fresh history. -/
structure BoundedStep (samples : List Duration) (sample : Duration) : Prop where
  no_overflow : sample + 9 * latencyAfter samples < 2 ^ 64
  exact_sum : latencyAfter (samples ++ [sample]) = (sample + 9 * latencyAfter samples) / 10
  /-- The average does not exceed the largest sample so far. -/
  le_max : ∃ largest, (samples ++ [sample]).max? = some largest ∧
    latencyAfter (samples ++ [sample]) ≤ largest
  /-- The average moves to a value between the one before and the sample. -/
  min_le : min (latencyAfter samples) sample ≤ latencyAfter (samples ++ [sample])
  le_max_step : latencyAfter (samples ++ [sample]) ≤ max (latencyAfter samples) sample

theorem boundedStep {bound : Nat} (hbound : 10 * bound < 2 ^ 64) {samples : List Duration}
    {sample : Duration} (hsamples : ∀ x ∈ samples, x ≤ bound) (hsample : sample ≤ bound) :
    BoundedStep samples sample := by
  have hle : latencyAfter samples ≤ bound :=
    toNat_recordLatencies_le hbound (Nat.zero_le bound) hsamples
  have hsum : sample + 9 * latencyAfter samples < 2 ^ 64 := sum_lt_of_le hbound hle hsample
  have hstep : latencyAfter (samples ++ [sample]) = average 9 (latencyAfter samples) sample := by
    rw [latencyAfter_concat]
    exact toNat_recordLatency hsum
  refine ⟨hsum, hstep, ?_, ?_, ?_⟩
  · cases hmax : (samples ++ [sample]).max? with
    | none => simp at hmax
    | some largest =>
      obtain ⟨hmem, hall⟩ := List.max?_eq_some_iff.1 hmax
      have hlargest : largest ≤ bound := by
        rcases List.mem_append.1 hmem with h | h
        · exact hsamples largest h
        · rw [List.mem_singleton.1 h]
          exact hsample
      -- the largest sample is itself a bound of all samples
      have hrange := (Nat.mul_le_mul_left 10 hlargest).trans_lt hbound
      exact ⟨largest, rfl, toNat_recordLatencies_le hrange (Nat.zero_le largest) hall⟩
  · rw [hstep]
    exact min_le_average 9 _ sample
  · rw [hstep]
    exact average_le_max 9 _ sample

/-- Repeating a sample brings the average to rest. -/
theorem exists_recordLatencies_resting {bound : Nat} (hbound : 10 * bound < 2 ^ 64)
    {st : OriginState} (hst : st.ewmaLatencyNs.toNat ≤ bound) {s : Nat} (hs : s ≤ bound) :
    ∃ n, ∀ m ≥ n,
      let repeated := fun i => (st.recordLatencies (List.replicate i s)).ewmaLatencyNs.toNat
      s - 9 ≤ repeated m ∧ repeated m ≤ s ∧ repeated m = repeated n := by
  have hrepeated : ∀ i, (st.recordLatencies (List.replicate i s)).ewmaLatencyNs.toNat =
      averages 9 st.ewmaLatencyNs.toNat (List.replicate i s) := by
    intro i
    refine toNat_recordLatencies hbound hst fun x hx => ?_
    rw [List.eq_of_mem_replicate hx]
    exact hs
  obtain ⟨n, hrest⟩ := exists_resting 9 st.ewmaLatencyNs.toNat s
  refine ⟨n, fun m hm => ?_⟩
  obtain ⟨d, rfl⟩ := Nat.exists_eq_add_of_le hm
  have hstays : averages 9 st.ewmaLatencyNs.toNat (List.replicate (n + d) s) =
      averages 9 st.ewmaLatencyNs.toNat (List.replicate n s) := by
    rw [List.replicate_add, averages_append]
    exact averages_replicate_of_resting (average_eq_self_iff.2 hrest) d
  simp only [hrepeated, hstays]
  exact ⟨Nat.sub_le_of_le_add hrest.2, hrest.1, trivial⟩

/-- **The average is bounded by the samples and converges.** -/
theorem recordLatency_bounded (bound : Nat) (hbound : 10 * bound < 2 ^ 64) :
    (∀ (samples : List Duration) (sample : Duration), (∀ x ∈ samples ++ [sample], x ≤ bound) →
        BoundedStep samples sample) ∧
      ∀ st : OriginState, st.ewmaLatencyNs.toNat ≤ bound → ∀ s ≤ bound, ∃ n, ∀ m ≥ n,
        let repeated := fun i => (st.recordLatencies (List.replicate i s)).ewmaLatencyNs.toNat
        s - 9 ≤ repeated m ∧ repeated m ≤ s ∧ repeated m = repeated n := by
  refine ⟨fun samples sample h => ?_, fun st hst s hs => ?_⟩
  · exact boundedStep hbound (fun x hx => h x (List.mem_append_left _ hx))
      (h sample (List.mem_append_right _ List.mem_cons_self))
  · exact exists_recordLatencies_resting hbound hst hs

/-- Samples of up to five milliseconds. -/
theorem recordLatency_bounded_milliseconds :
    BoundedStep [1000000, 5000000] 3000000 ∧ ∃ n, ∀ m ≥ n,
      let repeated := fun i => (new.recordLatencies (List.replicate i 3000000)).ewmaLatencyNs.toNat
      3000000 - 9 ≤ repeated m ∧ repeated m ≤ 3000000 ∧ repeated m = repeated n := by
  obtain ⟨hstep, hrest⟩ := recordLatency_bounded 5000000 (by decide)
  exact ⟨hstep _ _ (by decide), hrest new (by decide) 3000000 (by decide)⟩

end OriginState

/-! ## Weights of faster and slower origins -/

namespace WeightedLatencyBalancer

open OriginState

section Weights

variable {fast slow : OriginEndpoint} {states : OriginStates} {st st' : OriginState}

theorem shareWeight_of_healthy {origin : OriginEndpoint}
    (h : states.lookup origin.url.asStr = some st) (hhealthy : st.healthy = true) :
    shareWeight states origin =
      ((origin.weight.map UInt32.toNat).getD 1 : Nat) / ((st.ewmaLatencyNs.toNat : ℚ) + 1) := by
  have hnot : states.isUnhealthy origin.url.asStr = false := by
    rw [OriginStates.isUnhealthy, h]
    exact congrArg not hhealthy
  rw [shareWeight, hnot, h]
  rfl

/-- Between origins with one user weight the smaller average has the larger weight. -/
theorem weight_le_weight_iff (hfast : states.lookup fast.url.asStr = some st)
    (hslow : states.lookup slow.url.asStr = some st') (hst : st.healthy = true)
    (hst' : st'.healthy = true) (huser : fast.weight = slow.weight) :
    weight states slow ≤ weight states fast ↔
      fast.weight = some 0 ∨ st.ewmaLatencyNs.toNat ≤ st'.ewmaLatencyNs.toNat := by
  rw [weight_eq, weight_eq, shareWeight_of_healthy hfast hst, shareWeight_of_healthy hslow hst',
    ← huser]
  by_cases hzero : fast.weight = some 0
  · rw [hzero]
    simp
  · have hpos : (0 : ℚ) < ((fast.weight.map UInt32.toNat).getD 1 : Nat) := by
      rw [Nat.cast_pos, Nat.pos_iff_ne_zero]
      cases hw : fast.weight with
      | none => exact Nat.one_ne_zero
      | some w =>
        intro h
        exact hzero (hw.trans (congrArg some (UInt32.toNat_inj.1 h)))
    rw [div_le_div_iff_of_pos_left hpos (by positivity) (by positivity), add_le_add_iff_right,
      Nat.cast_le]
    simp [hzero]

end Weights

/-- The first origin, with the samples `xs`, has at least the weight of the second one, with the
samples `ys`, while both are healthy. -/
def Preferred (fast slow : OriginEndpoint) (xs ys : List Duration) : Prop :=
  ∀ (states : OriginStates) (st st' : OriginState),
    states.lookup fast.url.asStr = some st → states.lookup slow.url.asStr = some st' →
    st.healthy = true → st'.healthy = true →
    st.ewmaLatencyNs = (new.recordLatencies xs).ewmaLatencyNs →
    st'.ewmaLatencyNs = (new.recordLatencies ys).ewmaLatencyNs →
    weight states slow ≤ weight states fast

/-- Two fresh histories after their samples. -/
def sampled (fast slow : OriginEndpoint) (xs ys : List Duration) : OriginStates :=
  ((∅ : OriginStates).insert fast.url.asStr (new.recordLatencies xs)).insert slow.url.asStr
    (new.recordLatencies ys)

section Preferred

variable {fast slow : OriginEndpoint} {xs ys : List Duration}

theorem lookup_sampled_fast (hkeys : fast.url.asStr ≠ slow.url.asStr) :
    (sampled fast slow xs ys).lookup fast.url.asStr = some (new.recordLatencies xs) := by
  rw [sampled, Finmap.lookup_insert_of_ne _ hkeys, Finmap.lookup_insert]

theorem lookup_sampled_slow :
    (sampled fast slow xs ys).lookup slow.url.asStr = some (new.recordLatencies ys) :=
  Finmap.lookup_insert _

theorem preferred_iff (hkeys : fast.url.asStr ≠ slow.url.asStr)
    (huser : fast.weight = slow.weight) :
    Preferred fast slow xs ys ↔ fast.weight = some 0 ∨ latencyAfter xs ≤ latencyAfter ys := by
  constructor
  · intro h
    have hfast := healthy_recordLatencies new xs
    have hslow := healthy_recordLatencies new ys
    have hweights := h (sampled fast slow xs ys) _ _ (lookup_sampled_fast hkeys)
      lookup_sampled_slow hfast hslow rfl rfl
    exact (weight_le_weight_iff (lookup_sampled_fast hkeys) lookup_sampled_slow hfast hslow
      huser).1 hweights
  · intro h states st st' hfast hslow hst hst' hlatency hlatency'
    rw [weight_le_weight_iff hfast hslow hst hst' huser, hlatency, hlatency']
    exact h

end Preferred

/-- **When faster origins are preferred.** Take two origins with one user weight, numbers `m` and
`n` of samples, and a latency `s` that separates the samples. The first origin has at least the
weight of the second one for all such samples exactly if the user weight is zero, or it has no more
samples, or the second average has come to rest: the distance `s` from the start, reduced `n` times
by a tenth, is at most nine. Weights are exact rationals here, and not `f64` values. -/
theorem preferred_samples_iff {fast slow : OriginEndpoint}
    (hkeys : fast.url.asStr ≠ slow.url.asStr) (huser : fast.weight = slow.weight) {s : Nat}
    (hs : 10 * s < 2 ^ 64) (m n : Nat) :
    (∀ xs ys : List Duration, xs.length = m → ys.length = n → (∀ x ∈ xs, x ≤ s) →
        (∀ y ∈ ys, s ≤ y ∧ 10 * y < 2 ^ 64) → Preferred fast slow xs ys) ↔
      fast.weight = some 0 ∨ m ≤ n ∨ (shrink 9)^[n] s ≤ 9 := by
  have hrepeated : ∀ i, latencyAfter (List.replicate i s) = averages 9 0 (List.replicate i s) :=
    fun i => toNat_recordLatencies hs (Nat.zero_le s) fun x hx => (List.eq_of_mem_replicate hx).le
  constructor
  · intro h
    by_contra hnot
    rw [not_or, not_or, not_le, not_le] at hnot
    obtain ⟨hweight, hlen, hmoves⟩ := hnot
    -- equal samples, of which the first origin has more
    have hpreferred := h (List.replicate m s) (List.replicate n s) List.length_replicate
      List.length_replicate (fun x hx => (List.eq_of_mem_replicate hx).le)
      (fun y hy => by rw [List.eq_of_mem_replicate hy]; exact ⟨le_rfl, hs⟩)
    have hlt := averages_replicate_lt hlen hmoves
    rw [← hrepeated, ← hrepeated] at hlt
    rcases (preferred_iff hkeys huser).1 hpreferred with hzero | hle
    · exact hweight hzero
    · exact Nat.not_le_of_lt hlt hle
  · rintro h xs ys rfl rfl hxs hys
    refine (preferred_iff hkeys huser).2 (h.imp_right fun h => ?_)
    have hfast : latencyAfter xs = averages 9 0 xs :=
      toNat_recordLatencies hs (Nat.zero_le s) hxs
    have hslow : latencyAfter ys = averages 9 0 ys :=
      toNat_recordLatencies (by decide : 10 * ((2 ^ 64 - 1) / 10) < 2 ^ 64) (Nat.zero_le _)
        fun y hy => (Nat.le_div_iff_mul_le (by decide)).2
          (Nat.le_sub_one_of_lt ((Nat.mul_comm y 10).trans_lt (hys y hy).2))
    rw [hfast, hslow]
    exact averages_le_averages hxs (fun y hy => (hys y hy).1) h

/-- Two origins without user weights. -/
def originAt (host : String) : OriginEndpoint := .ofUrl (.httpRoot host none) none none

/-- Samples separated by a latency of one millisecond, two of each origin. -/
theorem preferred_samples_two :
    Preferred (originAt "10.0.0.1") (originAt "10.0.0.2") [1000000, 400000] [1000000, 5000000] := by
  have hkeys : (originAt "10.0.0.1").url.asStr ≠ (originAt "10.0.0.2").url.asStr := by decide
  have hbound : 10 * 1000000 < 2 ^ 64 := by decide
  exact (preferred_samples_iff hkeys rfl hbound 2 2).2 (Or.inr (Or.inl le_rfl)) _ _ rfl rfl
    (by decide) (by decide)

/-- **A slower origin is preferred.** After eight samples of one millisecond the first origin has a
smaller weight than the second one after a single sample of five milliseconds. -/
theorem slower_preferred :
    ¬ ∀ (fast slow : OriginEndpoint) (xs ys : List Duration), fast.url.asStr ≠ slow.url.asStr →
      fast.weight = slow.weight → xs ≠ [] → ys ≠ [] → (∀ x ∈ xs, 10 * x < 2 ^ 64) →
      (∀ y ∈ ys, 10 * y < 2 ^ 64) → (∀ x ∈ xs, ∀ y ∈ ys, x ≤ y) → Preferred fast slow xs ys := by
  intro h
  have hkeys : (originAt "10.0.0.1").url.asStr ≠ (originAt "10.0.0.2").url.asStr := by decide
  have hpreferred := h (originAt "10.0.0.1") (originAt "10.0.0.2") (List.replicate 8 1000000)
    [5000000] hkeys rfl (by decide) (by decide) (by decide) (by decide) (by decide)
  rcases (preferred_iff hkeys rfl).1 hpreferred with hzero | hle
  · exact absurd hzero (by decide)
  · exact absurd hle (by decide)

end WeightedLatencyBalancer

end Upstreamer
