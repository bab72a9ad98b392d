import Upstreamer.Config.Parser
import Upstreamer.Middleware.RateLimit
import Mathlib.Tactic.FieldSimp

/-!
# Eviction of idle buckets

The cleanup task of `main` sweeps a limiter every 60 seconds and drops the buckets that have been
idle for more than 300. A run is a list of calls and sweeps; leaving the sweeps out of it gives the
run of a limiter that never forgets a bucket.

A dropped bucket is replaced by a full one, so eviction is invisible as long as an idle bucket is
full by the time it is dropped. The simulation `EvictedOnlyFull` relates the two limiters by exactly
that, and it holds when 300 seconds refill the whole burst. When they do not, a client that empties
its bucket and comes back after the sweep is allowed calls that the other run refuses. The two
directions give the exact condition `burst ≤ 300 * rate` (`eviction_invisible_iff`).
-/

set_option autoImplicit false

namespace Upstreamer

open Foundations

inductive LimiterEvent where
  | check (ip : IpAddr) (now : Instant)
  | sweep (now : Instant)
  deriving DecidableEq

namespace LimiterEvent

def time : LimiterEvent → Instant
  | check _ now => now
  | sweep now => now

def isCheck : LimiterEvent → Bool
  | check _ _ => true
  | sweep _ => false

def sweepTime : LimiterEvent → Option Instant
  | check _ _ => none
  | sweep now => some now

end LimiterEvent

/-- The idle time in seconds after which `main` has a bucket removed. -/
def cleanupMaxIdle : ℚ := 300

/-- The number of seconds between two sweeps of `main`. -/
def cleanupPeriod : ℚ := 60

/-- Runs as `main` drives them: in the order of time, with a sweep at each tick of the interval,
whose first tick is at once. -/
structure MainSchedule (events : List LimiterEvent) : Prop where
  ordered : (events.map LimiterEvent.time).Pairwise (· ≤ ·)
  ticks : ∃ n, events.filterMap LimiterEvent.sweepTime =
    (List.range n).map fun k => cleanupPeriod * (k : ℚ)

namespace RateLimiter

/-- The verdicts on the calls of a run. -/
def verdicts (limiter : RateLimiter) : List LimiterEvent → List Bool
  | [] => []
  | .check ip now :: events => (limiter.check ip now).1 :: verdicts (limiter.check ip now).2 events
  | .sweep now :: events => verdicts (limiter.cleanupStale cleanupMaxIdle now) events

/-- The events without the sweeps. -/
def withoutSweeps (events : List LimiterEvent) : List LimiterEvent :=
  events.filter LimiterEvent.isCheck

end RateLimiter

/-! ## Full buckets are as good as fresh ones -/

namespace TokenBucket

/-- The bucket has refilled to the burst by the instant `now`. -/
def FullBy (rate burst : UInt32) (now : Instant) (b : TokenBucket) : Prop :=
  (burst.toNat : ℚ) ≤ b.tokens + (now - b.lastRefill) * rate.toNat

theorem FullBy.mono {rate burst : UInt32} {b : TokenBucket} {now later : Instant}
    (hb : b.FullBy rate burst now) (h : now ≤ later) : b.FullBy rate burst later := by
  have hle : (now - b.lastRefill) * rate.toNat ≤ (later - b.lastRefill) * (rate.toNat : ℚ) :=
    mul_le_mul_of_nonneg_right (by linarith) (Nat.cast_nonneg _)
  exact le_trans hb (by linarith)

/-- A call on a full bucket has the effect of a call on a fresh one. -/
theorem tryConsume_eq_of_fullBy {rate burst : UInt32} {b : TokenBucket} {now : Instant}
    (hb : b.Of rate burst now) (hfull : b.FullBy rate burst now) :
    b.tryConsume now = (new rate burst now).tryConsume now := by
  have htokens : min (b.tokens + (now - b.lastRefill) * rate.toNat) (burst.toNat : ℚ) =
      burst.toNat := min_eq_right hfull
  have hfresh : min ((burst.toNat : ℚ) + (now - now) * rate.toNat) burst.toNat = burst.toNat := by
    rw [sub_self, zero_mul, add_zero, min_self]
  simp only [tryConsume, new, durationSince_of_le hb.lastRefill_le, durationSince_of_le le_rfl,
    hb.maxTokens_eq, hb.refillRate_eq, htokens, hfresh]

/-- A bucket idle for more than the allowed time is full, when that time refills the burst. -/
theorem fullBy_of_isStale {rate burst : UInt32} {b : TokenBucket} {now : Instant}
    (hb : b.Of rate burst now) (hrate : (burst.toNat : ℚ) ≤ cleanupMaxIdle * rate.toNat)
    (hstale : b.isStale cleanupMaxIdle now = true) : b.FullBy rate burst now := by
  have hidle : cleanupMaxIdle < now - b.lastRefill := by
    have h := of_decide_eq_true hstale
    rwa [hb.lastUsed_eq, durationSince_of_le hb.lastRefill_le] at h
  have hle : cleanupMaxIdle * (rate.toNat : ℚ) ≤ (now - b.lastRefill) * rate.toNat :=
    mul_le_mul_of_nonneg_right hidle.le (Nat.cast_nonneg _)
  have hpos := hb.zero_le_tokens
  unfold FullBy
  linarith

end TokenBucket

/-! ## The simulation -/

namespace RateLimiter

/-- The limiter on the left has forgotten some buckets of the one on the right, all of them full by
the instant `now`, and agrees with it otherwise. -/
structure EvictedOnlyFull (rate burst : UInt32) (now : Instant) (evicting keeping : RateLimiter) :
    Prop where
  rate_evicting : evicting.rate = rate
  burst_evicting : evicting.burst = burst
  rate_keeping : keeping.rate = rate
  burst_keeping : keeping.burst = burst
  of_keeping : ∀ ip b, keeping.buckets.lookup ip = some b → b.Of rate burst now
  agree : ∀ ip, evicting.buckets.lookup ip = keeping.buckets.lookup ip ∨
    (evicting.buckets.lookup ip = none ∧
      ∃ b, keeping.buckets.lookup ip = some b ∧ b.FullBy rate burst now)

variable {rate burst : UInt32} {now : Instant} {evicting keeping : RateLimiter}

theorem EvictedOnlyFull.mono (h : EvictedOnlyFull rate burst now evicting keeping)
    {later : Instant} (hle : now ≤ later) : EvictedOnlyFull rate burst later evicting keeping where
  rate_evicting := h.rate_evicting
  burst_evicting := h.burst_evicting
  rate_keeping := h.rate_keeping
  burst_keeping := h.burst_keeping
  of_keeping := fun ip b hb => (h.of_keeping ip b hb).mono hle
  agree := fun ip => (h.agree ip).imp_right fun ⟨hnone, b, hb, hfull⟩ =>
    ⟨hnone, b, hb, hfull.mono hle⟩

/-- Related limiters draw from buckets on which a call has the same effect. -/
theorem EvictedOnlyFull.tryConsume_eq (h : EvictedOnlyFull rate burst now evicting keeping)
    (ip : IpAddr) :
    (evicting.bucketFor ip now).tryConsume now = (keeping.bucketFor ip now).tryConsume now := by
  unfold bucketFor
  rw [h.rate_evicting, h.burst_evicting, h.rate_keeping, h.burst_keeping]
  rcases h.agree ip with heq | ⟨hnone, b, hb, hfull⟩
  · rw [heq]
  · rw [hnone, hb, Option.getD_none, Option.getD_some,
      TokenBucket.tryConsume_eq_of_fullBy (h.of_keeping ip b hb) hfull]

theorem EvictedOnlyFull.bucketFor_of (h : EvictedOnlyFull rate burst now evicting keeping)
    (ip : IpAddr) : (keeping.bucketFor ip now).Of rate burst now := by
  unfold bucketFor
  rw [h.rate_keeping, h.burst_keeping]
  cases hl : keeping.buckets.lookup ip with
  | none => exact TokenBucket.new_of rate burst now
  | some b => exact h.of_keeping ip b hl

/-- A call preserves the relation. -/
theorem EvictedOnlyFull.check (h : EvictedOnlyFull rate burst now evicting keeping) (ip : IpAddr) :
    EvictedOnlyFull rate burst now (evicting.check ip now).2 (keeping.check ip now).2 := by
  refine ⟨by rw [rate_check, h.rate_evicting], by rw [burst_check, h.burst_evicting],
    by rw [rate_check, h.rate_keeping], by rw [burst_check, h.burst_keeping], ?_, ?_⟩
  · intro other b hb
    by_cases hip : other = ip
    · subst hip
      rw [lookup_check_self, Option.some.injEq] at hb
      subst hb
      exact TokenBucket.tryConsume_of (h.bucketFor_of other)
    · rw [lookup_check_ne _ hip] at hb
      exact h.of_keeping other b hb
  · intro other
    by_cases hip : other = ip
    · subst hip
      rw [lookup_check_self, lookup_check_self, h.tryConsume_eq]
      exact Or.inl rfl
    · rw [lookup_check_ne _ hip, lookup_check_ne _ hip]
      exact h.agree other

theorem lookup_cleanupStale (limiter : RateLimiter) (maxIdle : ℚ) (t : Instant) (ip : IpAddr) :
    (limiter.cleanupStale maxIdle t).buckets.lookup ip =
      (limiter.buckets.lookup ip).filter fun b => !b.isStale maxIdle t :=
  Dict.lookup_retain _ _ _

/-- A sweep of the limiter on the left preserves the relation, when the allowed idle time refills
the burst. -/
theorem EvictedOnlyFull.sweep (h : EvictedOnlyFull rate burst now evicting keeping)
    (hrate : (burst.toNat : ℚ) ≤ cleanupMaxIdle * rate.toNat) :
    EvictedOnlyFull rate burst now (evicting.cleanupStale cleanupMaxIdle now) keeping := by
  refine { h with agree := fun ip => ?_ }
  rw [lookup_cleanupStale]
  rcases h.agree ip with heq | ⟨hnone, b, hb, hfull⟩
  · cases hl : keeping.buckets.lookup ip with
    | none => exact Or.inl (by rw [heq, hl]; rfl)
    | some b =>
      cases hstale : b.isStale cleanupMaxIdle now with
      | false => exact Or.inl (by simp [heq, hl, hstale])
      | true =>
        -- dropped now: it has been idle long enough to be full
        have hfull := TokenBucket.fullBy_of_isStale (h.of_keeping ip b hl) hrate hstale
        exact Or.inr ⟨by simp [heq, hl, hstale], b, rfl, hfull⟩
  · exact Or.inr ⟨by rw [hnone]; rfl, b, hb, hfull⟩

/-- Related limiters decide a call alike. -/
theorem EvictedOnlyFull.fst_check_eq (h : EvictedOnlyFull rate burst now evicting keeping)
    (ip : IpAddr) : (evicting.check ip now).1 = (keeping.check ip now).1 := by
  rw [check_eq, check_eq, h.tryConsume_eq]

/-- **Related limiters give the same verdicts**, the one with the sweeps of the run and the other
without them. -/
theorem EvictedOnlyFull.verdicts_eq (h : EvictedOnlyFull rate burst now evicting keeping)
    (hrate : (burst.toNat : ℚ) ≤ cleanupMaxIdle * rate.toNat) {events : List LimiterEvent}
    (hsorted : (events.map LimiterEvent.time).Pairwise (· ≤ ·))
    (hnow : ∀ e ∈ events, now ≤ e.time) :
    evicting.verdicts events = keeping.verdicts (withoutSweeps events) := by
  induction events generalizing now evicting keeping with
  | nil => rfl
  | cons e events ih =>
    obtain ⟨hhead, htail⟩ := List.pairwise_cons.1 hsorted
    have hlater : ∀ f ∈ events, e.time ≤ f.time := fun f hf =>
      hhead f.time (List.mem_map_of_mem hf)
    cases e with
    | check ip t =>
      have h' : EvictedOnlyFull rate burst t evicting keeping := h.mono (hnow _ List.mem_cons_self)
      show (evicting.check ip t).1 :: (evicting.check ip t).2.verdicts events =
        (keeping.check ip t).1 :: (keeping.check ip t).2.verdicts (withoutSweeps events)
      rw [h'.fst_check_eq, ih (h'.check ip) htail hlater]
    | sweep t =>
      have h' : EvictedOnlyFull rate burst t evicting keeping := h.mono (hnow _ List.mem_cons_self)
      -- only the limiter on the left makes this step
      exact ih (h'.sweep hrate) htail hlater

/-- A new limiter is related to itself at any instant. -/
theorem evictedOnlyFull_new (rate burst : UInt32) (now : Instant) :
    EvictedOnlyFull rate burst now (new rate burst) (new rate burst) where
  rate_evicting := rfl
  burst_evicting := rfl
  rate_keeping := rfl
  burst_keeping := rfl
  of_keeping := fun ip b hb => by simp [new] at hb
  agree := fun _ => Or.inl rfl

/-- Sweeps at any instants of a run are invisible when the allowed idle time refills the burst. -/
theorem verdicts_eq_withoutSweeps (hrate : (burst.toNat : ℚ) ≤ cleanupMaxIdle * rate.toNat)
    {events : List LimiterEvent}
    (hsorted : (events.map LimiterEvent.time).Pairwise (· ≤ ·)) :
    (new rate burst).verdicts events = (new rate burst).verdicts (withoutSweeps events) := by
  cases events with
  | nil => rfl
  | cons e events =>
    refine (evictedOnlyFull_new rate burst e.time).verdicts_eq hrate hsorted fun f hf => ?_
    rcases List.mem_cons.1 hf with rfl | hf
    · exact le_rfl
    · exact (List.pairwise_cons.1 hsorted).1 f.time (List.mem_map_of_mem hf)

/-! ## Draining a bucket -/

/-- The bucket that a call for `ip` at the instant `t` draws from holds `tokens` at that instant. -/
structure HoldsAt (limiter : RateLimiter) (ip : IpAddr) (t : Instant) (tokens : ℚ) : Prop where
  of : (limiter.bucketFor ip t).Of limiter.rate limiter.burst t
  refilled : Regulator.refilled (limiter.burst.toNat : ℚ) limiter.rate.toNat
    (limiter.bucketFor ip t).toRegulator t = tokens

theorem holdsAt_of_notMem (limiter : RateLimiter) {ip : IpAddr} (h : ip ∉ limiter.buckets)
    (t : Instant) : HoldsAt limiter ip t limiter.burst.toNat := by
  have hfor : limiter.bucketFor ip t = TokenBucket.new limiter.rate limiter.burst t := by
    rw [bucketFor, Finmap.lookup_eq_none.2 h, Option.getD_none]
  refine ⟨hfor ▸ TokenBucket.new_of _ _ _, ?_⟩
  rw [hfor]
  exact Regulator.refilled_eq_cap (by simp [TokenBucket.toRegulator, TokenBucket.new])

/-- Time refills the bucket. -/
theorem HoldsAt.later {limiter : RateLimiter} {ip : IpAddr} {s t : Instant} {tokens : ℚ}
    (h : HoldsAt limiter ip s tokens) (hst : s ≤ t) :
    HoldsAt limiter ip t (min (tokens + (t - s) * limiter.rate.toNat) limiter.burst.toNat) := by
  cases hl : limiter.buckets.lookup ip with
  | none =>
    have hmem := Finmap.lookup_eq_none.1 hl
    have htokens : tokens = limiter.burst.toNat :=
      h.refilled.symm.trans (holdsAt_of_notMem limiter hmem s).refilled
    have hgrow : (0 : ℚ) ≤ (t - s) * limiter.rate.toNat :=
      mul_nonneg (sub_nonneg.2 hst) (Nat.cast_nonneg _)
    rw [htokens, min_eq_right (le_add_of_nonneg_right hgrow)]
    exact holdsAt_of_notMem limiter hmem t
  | some b =>
    have hof := h.of
    have hrefilled := h.refilled
    rw [bucketFor_eq_of_lookup hl] at hof hrefilled
    refine ⟨?_, ?_⟩
    · rw [bucketFor_eq_of_lookup hl]
      exact hof.mono hst
    · rw [bucketFor_eq_of_lookup hl, Regulator.refilled_later (Nat.cast_nonneg _) hst, hrefilled]

/-- A call that finds a token is allowed and costs it. -/
theorem HoldsAt.check {limiter : RateLimiter} {ip : IpAddr} {t : Instant} {tokens : ℚ}
    (h : HoldsAt limiter ip t tokens) (htokens : 1 ≤ tokens) :
    (limiter.check ip t).1 = true ∧ HoldsAt (limiter.check ip t).2 ip t (tokens - 1) := by
  obtain ⟨hserves, hnext⟩ := TokenBucket.tryConsume_eq_regulator h.of
  have hserve : Regulator.serves (limiter.burst.toNat : ℚ) limiter.rate.toNat
      (limiter.bucketFor ip t).toRegulator t = true := by
    rw [Regulator.serves, h.refilled]
    exact decide_eq_true htokens
  have hfor : (limiter.check ip t).2.bucketFor ip t = ((limiter.bucketFor ip t).tryConsume t).2 :=
    bucketFor_eq_of_lookup (lookup_check_self limiter ip t) t
  have hcap : tokens ≤ limiter.burst.toNat := h.refilled ▸ Regulator.refilled_le_cap _ _
  refine ⟨by rw [check_eq, hserves, hserve], ?_, ?_⟩
  · rw [hfor, rate_check, burst_check]
    exact TokenBucket.tryConsume_of h.of
  · rw [hfor, rate_check, burst_check, hnext, Regulator.refilled, Regulator.amount_next,
      Regulator.last_next, hserve, h.refilled, sub_self, zero_mul, add_zero, Bool.toNat_true,
      Nat.cast_one]
    exact min_eq_left (by linarith)

/-- Calls at one instant that find tokens are all allowed, and each costs a token. -/
theorem HoldsAt.verdicts_replicate {limiter : RateLimiter} {ip : IpAddr} {t : Instant} {tokens : ℚ}
    (h : HoldsAt limiter ip t tokens) (n : Nat) (hn : (n : ℚ) ≤ tokens) :
    ∃ limiter' : RateLimiter, limiter'.rate = limiter.rate ∧ limiter'.burst = limiter.burst ∧
      HoldsAt limiter' ip t (tokens - n) ∧
      ∀ events, limiter.verdicts (List.replicate n (.check ip t) ++ events) =
        List.replicate n true ++ limiter'.verdicts events := by
  induction n generalizing limiter tokens with
  | zero => exact ⟨limiter, rfl, rfl, by simpa using h, fun _ => rfl⟩
  | succ n ih =>
    have hn' : (n : ℚ) + 1 ≤ tokens := by exact_mod_cast hn
    obtain ⟨hallowed, hrest⟩ := h.check (by linarith [Nat.cast_nonneg (α := ℚ) n])
    obtain ⟨limiter', hrate, hburst, hholds, hverdicts⟩ := ih hrest (by linarith)
    refine ⟨limiter', by rw [hrate, rate_check], by rw [hburst, burst_check], ?_, fun events => ?_⟩
    · have hsub : tokens - 1 - (n : ℚ) = tokens - ((n + 1 : Nat) : ℚ) := by
        push_cast
        ring
      rwa [hsub] at hholds
    · show (limiter.check ip t).1 ::
        (limiter.check ip t).2.verdicts (List.replicate n (.check ip t) ++ events) = _
      rw [hallowed, hverdicts]
      rfl

/-- A call that finds no token is refused. -/
theorem HoldsAt.refused {limiter : RateLimiter} {ip : IpAddr} {t : Instant} {tokens : ℚ}
    (h : HoldsAt limiter ip t tokens) (htokens : tokens < 1) : (limiter.check ip t).1 = false := by
  rw [check_eq, (TokenBucket.tryConsume_eq_regulator h.of).1, Regulator.serves, h.refilled]
  exact decide_eq_false (not_le.2 htokens)

/-! ## A visible eviction -/

/-- The client has made no call after the instant `s`. -/
def AwaySince (limiter : RateLimiter) (ip : IpAddr) (s : Instant) : Prop :=
  ∀ b, limiter.buckets.lookup ip = some b → b.lastUsed ≤ s

theorem HoldsAt.awaySince {limiter : RateLimiter} {ip : IpAddr} {s : Instant} {tokens : ℚ}
    (h : HoldsAt limiter ip s tokens) : AwaySince limiter ip s := by
  intro b hb
  have hof := h.of
  rw [bucketFor_eq_of_lookup hb] at hof
  exact hof.lastUsed_eq ▸ hof.lastRefill_le

theorem AwaySince.cleanupStale {limiter : RateLimiter} {ip : IpAddr} {s : Instant}
    (h : AwaySince limiter ip s) (t : Instant) :
    AwaySince (limiter.cleanupStale cleanupMaxIdle t) ip s := by
  intro b hb
  rw [lookup_cleanupStale, Option.filter_eq_some_iff] at hb
  exact h b hb.1

/-- A sweep drops the bucket of a client that has been away for long enough. -/
theorem AwaySince.notMem_cleanupStale {limiter : RateLimiter} {ip : IpAddr} {s t : Instant}
    (h : AwaySince limiter ip s) (hidle : cleanupMaxIdle < t - s) :
    ip ∉ (limiter.cleanupStale cleanupMaxIdle t).buckets := by
  rw [← Finmap.lookup_eq_none, lookup_cleanupStale]
  cases hl : limiter.buckets.lookup ip with
  | none => rfl
  | some b =>
    have hstale : b.isStale cleanupMaxIdle t = true :=
      decide_eq_true (lt_of_lt_of_le (by linarith [h b hl]) (le_max_left _ _))
    simp [hstale]

/-- The instant, shortly before the first full minute, at which the run below empties a bucket. -/
def drainInstant (rate : UInt32) : Instant := 60 - 1 / (2 * ((rate.toNat : ℚ) + 1))

/-- The sweeps between that instant and the return of the client. -/
def ticksWhileAway : List Instant := [60, 120, 180, 240, 300, 360]

/-- A client empties its bucket, stays away until the sweep at 360 seconds drops it, and then makes
one call more than the bucket has refilled to. -/
def drainAndReturn (rate burst : UInt32) (ip : IpAddr) : List LimiterEvent :=
  LimiterEvent.sweep 0 :: (List.replicate burst.toNat (LimiterEvent.check ip (drainInstant rate)) ++
    (ticksWhileAway.map LimiterEvent.sweep ++
      List.replicate (300 * rate.toNat + 1) (LimiterEvent.check ip 360)))

theorem drainInstant_bounds (rate : UInt32) :
    0 ≤ drainInstant rate ∧ drainInstant rate < 60 ∧
      (360 - drainInstant rate) * (rate.toNat : ℚ) < 300 * rate.toNat + 1 ∧
      300 * (rate.toNat : ℚ) ≤ (360 - drainInstant rate) * (rate.toNat : ℚ) := by
  have hr : (0 : ℚ) ≤ rate.toNat := Nat.cast_nonneg _
  have hpos : (0 : ℚ) < 2 * ((rate.toNat : ℚ) + 1) := by linarith
  have hinv : 0 < 1 / (2 * ((rate.toNat : ℚ) + 1)) := by positivity
  have hle : 1 / (2 * ((rate.toNat : ℚ) + 1)) ≤ 1 := by
    rw [div_le_one hpos]
    linarith
  have hmul : 1 / (2 * ((rate.toNat : ℚ) + 1)) * rate.toNat < 1 := by
    rw [div_mul_eq_mul_div, one_mul, div_lt_one hpos]
    linarith
  have hmul' : 0 ≤ 1 / (2 * ((rate.toNat : ℚ) + 1)) * rate.toNat := mul_nonneg hinv.le hr
  unfold drainInstant
  refine ⟨by linarith, by linarith, by linarith, by linarith⟩

theorem drainAndReturn_mainSchedule (rate burst : UInt32) (ip : IpAddr) :
    MainSchedule (drainAndReturn rate burst ip) := by
  obtain ⟨h0, h60, -, -⟩ := drainInstant_bounds rate
  have hsweeps : ticksWhileAway.Pairwise (· ≤ ·) := by decide +kernel
  constructor
  · simp only [drainAndReturn, List.map_cons, List.map_append, List.map_replicate, List.map_map,
      LimiterEvent.time, Function.comp_def, List.map_id', List.pairwise_cons,
      List.pairwise_append, List.mem_append, List.mem_replicate]
    refine ⟨?_, List.pairwise_replicate.2 (Or.inr le_rfl), ⟨hsweeps, ?_, ?_⟩, ?_⟩
    · rintro t (⟨-, rfl⟩ | ht | ⟨-, rfl⟩)
      · exact h0
      · revert t
        decide +kernel
      · norm_num
    · exact List.pairwise_replicate.2 (Or.inr le_rfl)
    · rintro a ha b ⟨-, rfl⟩
      revert a
      decide +kernel
    · rintro a ⟨-, rfl⟩ b hb
      have h60b : (60 : ℚ) ≤ b := by
        rcases hb with hb | ⟨-, rfl⟩
        · revert b
          decide +kernel
        · norm_num
      exact h60.le.trans h60b
  · refine ⟨7, ?_⟩
    -- the seven sweeps are the first seven ticks; calls are no ticks
    have hnone : ∀ (n : Nat) (t : Instant), (List.replicate n (LimiterEvent.check ip t)).filterMap
        LimiterEvent.sweepTime = [] := by
      intro n t
      rw [List.filterMap_eq_nil_iff]
      intro e he
      rw [List.eq_of_mem_replicate he]
      rfl
    simp only [drainAndReturn, List.filterMap_cons, List.filterMap_append, hnone,
      LimiterEvent.sweepTime, List.nil_append, List.append_nil]
    decide +kernel

/-- With the sweeps the bucket is emptied, dropped, and full again when the client returns. -/
theorem verdicts_drainAndReturn {rate burst : UInt32} (h : 300 * rate.toNat < burst.toNat)
    (ip : IpAddr) :
    (new rate burst).verdicts (drainAndReturn rate burst ip) =
      List.replicate burst.toNat true ++ List.replicate (300 * rate.toNat + 1) true := by
  obtain ⟨-, h60, -, -⟩ := drainInstant_bounds rate
  obtain ⟨drained, -, hburst, hdrained, hverdicts⟩ :=
    (holdsAt_of_notMem ((new rate burst).cleanupStale cleanupMaxIdle 0)
      (Finmap.notMem_empty : ip ∉ _) (drainInstant rate)).verdicts_replicate burst.toNat le_rfl
  -- the client's last call is less than 300 seconds before the sweep at 300, so it is the sweep
  -- at 360 that drops the bucket
  let evicted := ticksWhileAway.foldl (fun l t => l.cleanupStale cleanupMaxIdle t) drained
  have hgone : ip ∉ evicted.buckets :=
    (((((hdrained.awaySince.cleanupStale 60).cleanupStale 120).cleanupStale 180).cleanupStale
      240).cleanupStale 300).notMem_cleanupStale (by rw [cleanupMaxIdle]; linarith)
  have hevicted : evicted.burst = burst := hburst
  obtain ⟨full, -, -, -, hfull⟩ := (holdsAt_of_notMem evicted hgone 360).verdicts_replicate
    (300 * rate.toNat + 1) (by rw [hevicted]; exact_mod_cast h)
  have hrun := hverdicts (ticksWhileAway.map LimiterEvent.sweep ++
    List.replicate (300 * rate.toNat + 1) (LimiterEvent.check ip 360))
  have hsweeps : drained.verdicts (ticksWhileAway.map LimiterEvent.sweep ++
      List.replicate (300 * rate.toNat + 1) (LimiterEvent.check ip 360)) =
      evicted.verdicts
        (List.replicate (300 * rate.toNat + 1) (LimiterEvent.check ip 360) ++ []) := by
    rw [List.append_nil]
    rfl
  rw [hsweeps, hfull, verdicts, List.append_nil] at hrun
  exact hrun

theorem withoutSweeps_drainAndReturn (rate burst : UInt32) (ip : IpAddr) :
    withoutSweeps (drainAndReturn rate burst ip) =
      List.replicate burst.toNat (LimiterEvent.check ip (drainInstant rate)) ++
        (List.replicate (300 * rate.toNat) (LimiterEvent.check ip 360) ++
          [LimiterEvent.check ip 360]) := by
  have hchecks : ∀ (n : Nat) (t : Instant), (List.replicate n (LimiterEvent.check ip t)).filter
      LimiterEvent.isCheck = List.replicate n (.check ip t) := fun n t =>
    List.filter_replicate_of_pos rfl
  have hsweeps : (ticksWhileAway.map LimiterEvent.sweep).filter LimiterEvent.isCheck = [] := by
    decide +kernel
  rw [withoutSweeps, drainAndReturn, List.filter_cons_of_neg (by decide), List.filter_append,
    List.filter_append, hchecks, hchecks, hsweeps, List.nil_append, List.replicate_succ']

/-- Without the sweeps the bucket has refilled to less than one token above `300 * rate` when the
client returns. -/
theorem verdicts_withoutSweeps_drainAndReturn {rate burst : UInt32}
    (h : 300 * rate.toNat < burst.toNat) (ip : IpAddr) :
    (new rate burst).verdicts (withoutSweeps (drainAndReturn rate burst ip)) =
      List.replicate burst.toNat true ++ (List.replicate (300 * rate.toNat) true ++ [false]) := by
  obtain ⟨-, h60, hlt, hge⟩ := drainInstant_bounds rate
  have hburst : (300 : ℚ) * rate.toNat + 1 ≤ burst.toNat := by exact_mod_cast h
  obtain ⟨emptied, hrate, hburst', hemptied, hverdicts⟩ :=
    (holdsAt_of_notMem (new rate burst) (Finmap.notMem_empty : ip ∉ _)
      (drainInstant rate)).verdicts_replicate burst.toNat le_rfl
  -- the bucket is on record with no token left, and refills until the client returns
  have hback := hemptied.later (t := 360) (by linarith)
  have hamount : min (((new rate burst).burst.toNat : ℚ) - burst.toNat +
      (360 - drainInstant rate) * emptied.rate.toNat) emptied.burst.toNat =
        (360 - drainInstant rate) * rate.toNat := by
    rw [hrate, hburst']
    show min ((burst.toNat : ℚ) - burst.toNat + (360 - drainInstant rate) * rate.toNat)
      burst.toNat = _
    rw [sub_self, zero_add]
    exact min_eq_left (by linarith)
  rw [hamount] at hback
  obtain ⟨last, -, -, hlast, hverdicts'⟩ := hback.verdicts_replicate (300 * rate.toNat)
    (by push_cast; exact hge)
  rw [withoutSweeps_drainAndReturn, hverdicts, hverdicts']
  show _ ++ (_ ++ [(last.check ip 360).1]) = _
  rw [hlast.refused (by push_cast; linarith)]

/-- **The returning client is allowed a call that the limiter without sweeps refuses.** -/
theorem verdicts_drainAndReturn_ne {rate burst : UInt32} (h : 300 * rate.toNat < burst.toNat)
    (ip : IpAddr) :
    (new rate burst).verdicts (drainAndReturn rate burst ip) ≠
      (new rate burst).verdicts (withoutSweeps (drainAndReturn rate burst ip)) := by
  rw [verdicts_drainAndReturn h, verdicts_withoutSweeps_drainAndReturn h, List.replicate_succ']
  simp

/-- **Eviction is invisible exactly when the allowed idle time refills the burst.** -/
theorem eviction_invisible_iff (rate burst : UInt32) :
    (∀ events, MainSchedule events →
      (new rate burst).verdicts events = (new rate burst).verdicts (withoutSweeps events)) ↔
      burst.toNat ≤ 300 * rate.toNat := by
  constructor
  · intro h
    by_contra hlt
    exact verdicts_drainAndReturn_ne (not_le.1 hlt) (.v4 0)
      (h _ (drainAndReturn_mainSchedule rate burst (.v4 0)))
  · intro h events hschedule
    refine verdicts_eq_withoutSweeps ?_ hschedule.ordered
    rw [cleanupMaxIdle]
    exact_mod_cast h

/-- A limiter of one token per second and a burst of a thousand, which validation admits. -/
theorem eviction_visible_one_thousand :
    validateRateLimit (some ⟨1, 1000⟩) = .ok () ∧ MainSchedule (drainAndReturn 1 1000 (.v4 0)) ∧
      (new 1 1000).verdicts (drainAndReturn 1 1000 (.v4 0)) ≠
        (new 1 1000).verdicts (withoutSweeps (drainAndReturn 1 1000 (.v4 0))) :=
  ⟨by decide, drainAndReturn_mainSchedule 1 1000 (.v4 0),
    verdicts_drainAndReturn_ne (by decide) (.v4 0)⟩

end RateLimiter

end Upstreamer
