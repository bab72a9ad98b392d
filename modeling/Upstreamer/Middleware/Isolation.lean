import Upstreamer.Foundations.Regulated
import Upstreamer.Middleware.Eviction

/-!
# Isolation of clients

A limiter keeps one bucket for each client, made at the first call of the client, and a sweep drops
each bucket by what it holds itself. So what a call does depends on the bucket of its client alone,
which only the calls of this client and the sweeps change (`SameFor.check_self`,
`SameFor.check_other`, `SameFor.cleanupStale`). The verdicts of a client are therefore those of the
run without the calls of all others (`verdicts_isolated`).
-/

set_option autoImplicit false

namespace Upstreamer

open Foundations

/-- A call of `check` or of `cleanup_stale`, at an instant. -/
inductive LimiterCall where
  | check (ip : IpAddr) (now : Instant)
  | cleanupStale (maxIdle : ℚ) (now : Instant)

/-- The calls that a client makes itself, and the sweeps. -/
def LimiterCall.concerns (ip : IpAddr) : LimiterCall → Bool
  | check other _ => decide (other = ip)
  | cleanupStale _ _ => true

namespace RateLimiter

def step (limiter : RateLimiter) : LimiterCall → Option RateLimiter
  | .check ip now => some (limiter.check ip now).2
  | .cleanupStale maxIdle now => some (limiter.cleanupStale maxIdle now)

/-- The verdict that a client receives in a step. -/
def verdictFor (ip : IpAddr) (limiter : RateLimiter) : LimiterCall → Option Bool
  | .check other now => if other = ip then some (limiter.check ip now).1 else none
  | .cleanupStale _ _ => none

/-- The limiters agree on everything that a client depends on. -/
structure SameFor (ip : IpAddr) (limiter limiter' : RateLimiter) : Prop where
  rate : limiter'.rate = limiter.rate
  burst : limiter'.burst = limiter.burst
  bucket : limiter'.buckets.lookup ip = limiter.buckets.lookup ip

namespace SameFor

variable {ip : IpAddr} {limiter limiter' : RateLimiter}

theorem refl (ip : IpAddr) (limiter : RateLimiter) : SameFor ip limiter limiter := ⟨rfl, rfl, rfl⟩

theorem bucketFor_eq (h : SameFor ip limiter limiter') (now : Instant) :
    limiter'.bucketFor ip now = limiter.bucketFor ip now := by
  rw [bucketFor, bucketFor, h.bucket, h.rate, h.burst]

/-- A call of the client has the same verdict and leaves the same bucket. -/
theorem check_self (h : SameFor ip limiter limiter') (now : Instant) :
    (limiter'.check ip now).1 = (limiter.check ip now).1 ∧
      SameFor ip (limiter.check ip now).2 (limiter'.check ip now).2 := by
  constructor
  · rw [check_eq, check_eq, h.bucketFor_eq]
  · refine ⟨?_, ?_, ?_⟩
    · rw [rate_check, rate_check, h.rate]
    · rw [burst_check, burst_check, h.burst]
    · rw [lookup_check_self, lookup_check_self, h.bucketFor_eq]

/-- A call of another client changes nothing that the client depends on. -/
theorem check_other (h : SameFor ip limiter limiter') {other : IpAddr} (hother : other ≠ ip)
    (now : Instant) : SameFor ip (limiter.check other now).2 limiter' where
  rate := h.rate.trans (rate_check limiter other now).symm
  burst := h.burst.trans (burst_check limiter other now).symm
  bucket := h.bucket.trans (lookup_check_ne limiter hother.symm now).symm

/-- A sweep looks at each bucket alone. -/
theorem cleanupStale (h : SameFor ip limiter limiter') (maxIdle : ℚ) (now : Instant) :
    SameFor ip (limiter.cleanupStale maxIdle now) (limiter'.cleanupStale maxIdle now) where
  rate := h.rate
  burst := h.burst
  bucket := by rw [lookup_cleanupStale, lookup_cleanupStale, h.bucket]

end SameFor

theorem exists_run (limiter : RateLimiter) (calls : List LimiterCall) :
    ∃ limiter', run step limiter calls = some limiter' := by
  induction calls generalizing limiter with
  | nil => exact ⟨limiter, rfl⟩
  | cons call calls ih => cases call <;> exact ih _

/-- **Clients are isolated.** The verdicts of a client are the same in the run of its own calls and
the sweeps, at the same instants. -/
theorem verdicts_isolated (limiter : RateLimiter) (ip : IpAddr) (calls : List LimiterCall) :
    reports step (verdictFor ip) limiter calls =
      reports step (verdictFor ip) limiter (calls.filter (LimiterCall.concerns ip)) := by
  obtain ⟨last, hrun⟩ := exists_run limiter calls
  refine (reports_filter (fun s s' e t h hvisible hstep => ?_) (fun s s' e t h hhidden hstep => ?_)
    (SameFor.refl ip limiter) hrun).symm
  · cases e with
    | check other now =>
      obtain rfl : other = ip := of_decide_eq_true hvisible
      cases hstep
      obtain ⟨hverdict, hsame⟩ := h.check_self now
      refine ⟨_, rfl, ?_, hsame⟩
      rw [verdictFor, verdictFor, if_pos rfl, if_pos rfl, hverdict]
    | cleanupStale maxIdle now =>
      cases hstep
      exact ⟨_, rfl, rfl, h.cleanupStale maxIdle now⟩
  · cases e with
    | check other now =>
      have hother : other ≠ ip := of_decide_eq_false hhidden
      cases hstep
      exact ⟨if_neg hother, h.check_other hother now⟩
    | cleanupStale maxIdle now => cases hhidden

end RateLimiter

end Upstreamer
