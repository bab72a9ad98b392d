import Upstreamer.Middleware.RateLimit

/-!
# The envelope of a rate limiter

The verdicts of a limiter on one client, for calls at any non-decreasing instants: a call is allowed
exactly when, for every earlier call, the calls allowed since then leave room for one more in
`burst + rate * time`. The bound on every window and the promise to clients that stay inside it
follow.
-/

set_option autoImplicit false

namespace Upstreamer

open Foundations

namespace RateLimiter

/-- The number of allowed calls whose instant lies in the window from `s` to `t`. -/
def allowedIn (limiter : RateLimiter) (ip : IpAddr) (ts : List Instant) (s t : Instant) : Nat :=
  (ts.zip (limiter.checks ip ts)).countP fun p => decide (s ≤ p.1) && decide (p.1 ≤ t) && p.2

/-- A client unknown to the limiter starts with a full bucket, made at its first call. -/
theorem checks_eq_verdicts_of_notMem {limiter : RateLimiter} {ip : IpAddr}
    (hfresh : ip ∉ limiter.buckets) {t : Instant} {ts : List Instant}
    (hsorted : (t :: ts).Pairwise (· ≤ ·)) :
    limiter.checks ip (t :: ts) =
      Regulator.verdicts (limiter.burst.toNat : ℚ) limiter.rate.toNat
        ⟨limiter.burst.toNat, t⟩ (t :: ts) := by
  have hnew := TokenBucket.new_of limiter.rate limiter.burst t
  refine checks_eq_verdicts (b := TokenBucket.new limiter.rate limiter.burst t) hsorted ?_ ?_
  · rintro u ⟨⟩
    rw [bucketFor, Finmap.lookup_eq_none.2 hfresh, Option.getD_none]
  · intro u hu
    rcases List.mem_cons.1 hu with rfl | hu
    · exact hnew
    · exact hnew.mono ((List.pairwise_cons.1 hsorted).1 u hu)

/-- **The verdicts are those of the envelope**: which calls are allowed, how many of them a window
holds, and that a client inside the envelope is never refused. -/
theorem checks_envelope (limiter : RateLimiter) (ip : IpAddr) (hfresh : ip ∉ limiter.buckets)
    (ts : List Instant) (hsorted : ts.Pairwise (· ≤ ·)) :
    (∀ i (hi : i < ts.length),
      (limiter.checks ip ts)[i]? = some true ↔
        ∀ j (hj : j ≤ i), ((((limiter.checks ip ts).take i).drop j).count true : ℚ) + 1 ≤
          limiter.burst.toNat + limiter.rate.toNat * (ts[i] - ts[j])) ∧
    (∀ s t, s ≤ t → (limiter.allowedIn ip ts s t : ℚ) ≤
      limiter.burst.toNat + limiter.rate.toNat * (t - s)) ∧
    ((∀ i j (_ : j ≤ i) (_ : i < ts.length), ((i - j : Nat) : ℚ) + 1 ≤
        limiter.burst.toNat + limiter.rate.toNat * (ts[i] - ts[j])) →
      ∀ i, i < ts.length → (limiter.checks ip ts)[i]? = some true) := by
  have hburst : (0 : ℚ) ≤ limiter.burst.toNat := Nat.cast_nonneg _
  have hrate : (0 : ℚ) ≤ limiter.rate.toNat := Nat.cast_nonneg _
  cases ts with
  -- no call: the window is empty, and its bound is not negative
  | nil =>
    refine ⟨fun i hi => absurd hi (Nat.not_lt_zero i), fun s t hst => ?_,
      fun _ i hi => absurd hi (Nat.not_lt_zero i)⟩
    have h : (limiter.allowedIn ip [] s t : ℚ) = 0 := by simp [allowedIn]
    rw [h]
    exact add_nonneg hburst (mul_nonneg hrate (sub_nonneg.2 hst))
  | cons t₀ ts =>
    -- each part is the regulator's, with the burst as cap and the bucket full at the first call
    have hchecks := checks_eq_verdicts_of_notMem hfresh hsorted
    refine ⟨fun i hi => ?_, fun s t hst => ?_, fun hconf i hi => ?_⟩
    · simp only [hchecks, mul_comm (limiter.rate.toNat : ℚ)]
      exact Regulator.verdicts_getElem_iff_of_full rfl (by rintro t ⟨⟩; rfl) i hi
    · rw [allowedIn, hchecks, mul_comm]
      refine Regulator.servedIn_le_envelope hburst hrate hst hsorted hburst fun u hu => ?_
      rcases List.mem_cons.1 hu with rfl | hu
      · exact le_rfl
      · exact (List.pairwise_cons.1 hsorted).1 u hu
    · rw [hchecks]
      refine Regulator.verdicts_eq_true_of_conforming rfl (by rintro t ⟨⟩; rfl) ?_ i hi
      intro i j hj hi
      rw [mul_comm]
      exact hconf i j hj hi

/-- A limiter of rate 2 and burst 3, called four times at the instant 0, then at 1 and 5. The fourth
call is refused. -/
theorem checks_envelope_two_three :
    (RateLimiter.new 2 3).checks (.v4 0) [0, 0, 0, 0, 1, 5] =
        [true, true, true, false, true, true] ∧
      ∀ s t : ℚ, s ≤ t → ((RateLimiter.new 2 3).allowedIn (.v4 0) [0, 0, 0, 0, 1, 5] s t : ℚ) ≤
        3 + 2 * (t - s) :=
  ⟨by decide +kernel,
    (checks_envelope (RateLimiter.new 2 3) (.v4 0) Finmap.notMem_empty [0, 0, 0, 0, 1, 5]
      (by decide +kernel)).2.1⟩

end RateLimiter

end Upstreamer
