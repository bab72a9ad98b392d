import Upstreamer.Foundations.Dict
import Upstreamer.Foundations.Regulator
import Mathlib.Algebra.Order.Ring.Rat
import Mathlib.Data.Rat.Cast.Order

/-!
# Token buckets

The per-client rate limiter. Tokens are exact rationals in place of floating-point numbers, and an
instant is a rational number of seconds on the monotonic clock, which every operation takes as an
argument. `TokenBucket.tryConsume` is one arrival at a rate regulator
(`tryConsume_eq_regulator`), so the successive verdicts of a limiter on one client are the verdicts
of a regulator with the burst as its cap (`checks_eq_verdicts`).
-/

set_option autoImplicit false

namespace Upstreamer

open Foundations

inductive IpAddr where
  | v4 (bits : BitVec 32)
  | v6 (bits : BitVec 128)
  deriving DecidableEq

/-- Seconds on the monotonic clock. -/
abbrev Instant := ℚ

/-- `Instant::duration_since`, which is zero when the other instant is later. -/
def durationSince (now earlier : Instant) : ℚ := max (now - earlier) 0

structure TokenBucket where
  tokens : ℚ
  maxTokens : ℚ
  refillRate : ℚ
  lastRefill : Instant
  lastUsed : Instant

namespace TokenBucket

def new (rate burst : UInt32) (now : Instant) : TokenBucket where
  tokens := burst.toNat
  maxTokens := burst.toNat
  refillRate := rate.toNat
  lastRefill := now
  lastUsed := now

/-- `TokenBucket::try_consume` at the instant `now`. -/
def tryConsume (b : TokenBucket) (now : Instant) : Bool × TokenBucket :=
  let elapsed := durationSince now b.lastRefill
  let tokensToAdd := elapsed * b.refillRate
  let tokens := min (b.tokens + tokensToAdd) b.maxTokens
  -- both instants are set whether or not the call is allowed
  let b := { b with lastRefill := now, lastUsed := now }
  if tokens ≥ 1 then
    (true, { b with tokens := tokens - 1 })
  else
    (false, { b with tokens := tokens })

/-- `TokenBucket::is_stale` at the instant `now`. -/
def isStale (b : TokenBucket) (maxIdle : ℚ) (now : Instant) : Bool :=
  decide (durationSince now b.lastUsed > maxIdle)

/-- What a regulator keeps of a bucket. -/
def toRegulator (b : TokenBucket) : Regulator ℚ := ⟨b.tokens, b.lastRefill⟩

/-- A bucket of a limiter with the given rate and burst, last used by the instant `now`. -/
structure Of (rate burst : UInt32) (now : Instant) (b : TokenBucket) : Prop where
  maxTokens_eq : b.maxTokens = burst.toNat
  refillRate_eq : b.refillRate = rate.toNat
  lastUsed_eq : b.lastUsed = b.lastRefill
  lastRefill_le : b.lastRefill ≤ now
  zero_le_tokens : 0 ≤ b.tokens

end TokenBucket

structure RateLimiter where
  buckets : Dict IpAddr TokenBucket
  rate : UInt32
  burst : UInt32

namespace RateLimiter

def new (rate burst : UInt32) : RateLimiter := ⟨∅, rate, burst⟩

/-- `RateLimiter::check` at the instant `now`. -/
def check (limiter : RateLimiter) (ip : IpAddr) (now : Instant) : Bool × RateLimiter :=
  match limiter.buckets.lookup ip with
  | some bucket =>
      let (allowed, bucket) := bucket.tryConsume now
      (allowed, { limiter with buckets := limiter.buckets.insert ip bucket })
  | none =>
      let bucket := TokenBucket.new limiter.rate limiter.burst now
      let (allowed, bucket) := bucket.tryConsume now
      (allowed, { limiter with buckets := limiter.buckets.insert ip bucket })

/-- `RateLimiter::cleanup_stale` at the instant `now`. -/
def cleanupStale (limiter : RateLimiter) (maxIdle : ℚ) (now : Instant) : RateLimiter :=
  { limiter with
    buckets := Dict.retain (fun _ bucket => !bucket.isStale maxIdle now) limiter.buckets }

/-- The verdicts on successive calls for one client. -/
def checks (limiter : RateLimiter) (ip : IpAddr) : List Instant → List Bool
  | [] => []
  | now :: later =>
      (limiter.check ip now).1 :: checks (limiter.check ip now).2 ip later

end RateLimiter

/-! ## Buckets as regulators -/

namespace TokenBucket

theorem durationSince_of_le {now earlier : Instant} (h : earlier ≤ now) :
    durationSince now earlier = now - earlier :=
  max_eq_left (sub_nonneg.2 h)

/-- A call is one arrival at the regulator. -/
theorem tryConsume_eq_regulator {rate burst : UInt32} {b : TokenBucket} {now : Instant}
    (hb : b.Of rate burst now) :
    (b.tryConsume now).1 = Regulator.serves (burst.toNat : ℚ) rate.toNat b.toRegulator now ∧
      (b.tryConsume now).2.toRegulator =
        Regulator.next (burst.toNat : ℚ) rate.toNat b.toRegulator now := by
  simp only [tryConsume, durationSince_of_le hb.lastRefill_le, hb.maxTokens_eq, hb.refillRate_eq,
    Regulator.next, Regulator.serves, Regulator.refilled, toRegulator, ge_iff_le]
  split
  · next h => simp [h]
  · next h => simp [h]

theorem new_of (rate burst : UInt32) (now : Instant) : (new rate burst now).Of rate burst now where
  maxTokens_eq := rfl
  refillRate_eq := rfl
  lastUsed_eq := rfl
  lastRefill_le := le_rfl
  zero_le_tokens := Nat.cast_nonneg _

theorem Of.mono {rate burst : UInt32} {b : TokenBucket} {now later : Instant}
    (hb : b.Of rate burst now) (h : now ≤ later) : b.Of rate burst later :=
  { hb with lastRefill_le := hb.lastRefill_le.trans h }

@[simp]
theorem lastRefill_tryConsume (b : TokenBucket) (now : Instant) :
    (b.tryConsume now).2.lastRefill = now := by
  simp only [tryConsume]
  split <;> rfl

/-- A call leaves a bucket of the limiter, used now. -/
theorem tryConsume_of {rate burst : UInt32} {b : TokenBucket} {now : Instant}
    (hb : b.Of rate burst now) : (b.tryConsume now).2.Of rate burst now := by
  have hamount : (b.tryConsume now).2.tokens =
      (Regulator.next (burst.toNat : ℚ) rate.toNat b.toRegulator now).amount :=
    congrArg Regulator.amount (tryConsume_eq_regulator hb).2
  have htokens : 0 ≤ (b.tryConsume now).2.tokens := by
    rw [hamount]
    exact Regulator.zero_le_amount_next (Nat.cast_nonneg _) (Nat.cast_nonneg _) hb.zero_le_tokens
      hb.lastRefill_le
  refine ⟨?_, ?_, ?_, (lastRefill_tryConsume b now).le, htokens⟩
  · simp only [tryConsume]
    split <;> exact hb.maxTokens_eq
  · simp only [tryConsume]
    split <;> exact hb.refillRate_eq
  · simp only [tryConsume]
    split <;> rfl

end TokenBucket

/-! ## Calls of a limiter -/

namespace RateLimiter

/-- The bucket that a call for `ip` draws from: the one on record, or a fresh one. -/
def bucketFor (limiter : RateLimiter) (ip : IpAddr) (now : Instant) : TokenBucket :=
  (limiter.buckets.lookup ip).getD (TokenBucket.new limiter.rate limiter.burst now)

theorem check_eq (limiter : RateLimiter) (ip : IpAddr) (now : Instant) :
    limiter.check ip now =
      (((limiter.bucketFor ip now).tryConsume now).1,
        { limiter with
          buckets :=
            limiter.buckets.insert ip ((limiter.bucketFor ip now).tryConsume now).2 }) := by
  unfold check bucketFor
  cases limiter.buckets.lookup ip <;> rfl

@[simp]
theorem rate_check (limiter : RateLimiter) (ip : IpAddr) (now : Instant) :
    (limiter.check ip now).2.rate = limiter.rate := by
  rw [check_eq]

@[simp]
theorem burst_check (limiter : RateLimiter) (ip : IpAddr) (now : Instant) :
    (limiter.check ip now).2.burst = limiter.burst := by
  rw [check_eq]

theorem lookup_check_self (limiter : RateLimiter) (ip : IpAddr) (now : Instant) :
    (limiter.check ip now).2.buckets.lookup ip =
      some ((limiter.bucketFor ip now).tryConsume now).2 := by
  rw [check_eq]
  exact Finmap.lookup_insert _

theorem lookup_check_ne (limiter : RateLimiter) {ip other : IpAddr} (h : other ≠ ip)
    (now : Instant) :
    (limiter.check ip now).2.buckets.lookup other = limiter.buckets.lookup other := by
  rw [check_eq]
  exact Finmap.lookup_insert_of_ne _ h

theorem bucketFor_eq_of_lookup {limiter : RateLimiter} {ip : IpAddr} {b : TokenBucket}
    (h : limiter.buckets.lookup ip = some b) (now : Instant) : limiter.bucketFor ip now = b := by
  rw [bucketFor, h, Option.getD_some]

/-- **The verdicts on one client are those of a regulator.** -/
theorem checks_eq_verdicts {limiter : RateLimiter} {ip : IpAddr} {ts : List Instant}
    (hsorted : ts.Pairwise (· ≤ ·)) {b : TokenBucket}
    (hfor : ∀ t ∈ ts.head?, limiter.bucketFor ip t = b)
    (hb : ∀ t ∈ ts, b.Of limiter.rate limiter.burst t) :
    limiter.checks ip ts =
      Regulator.verdicts (limiter.burst.toNat : ℚ) limiter.rate.toNat b.toRegulator ts := by
  induction ts generalizing limiter b with
  | nil => rfl
  -- the bucket after the call is on record, so the later calls draw from it whenever they come
  | cons t ts ih =>
    obtain ⟨hhead, htail⟩ := List.pairwise_cons.1 hsorted
    have hbt := hb t List.mem_cons_self
    have hfor' : limiter.bucketFor ip t = b := hfor t rfl
    obtain ⟨hverdict, hnext⟩ := TokenBucket.tryConsume_eq_regulator hbt
    have hof := TokenBucket.tryConsume_of hbt
    have hlookup : (limiter.check ip t).2.buckets.lookup ip = some (b.tryConsume t).2 := by
      rw [lookup_check_self, hfor']
    have hrest : (limiter.check ip t).2.checks ip ts =
        Regulator.verdicts (limiter.burst.toNat : ℚ) limiter.rate.toNat
          (b.tryConsume t).2.toRegulator ts := by
      have h := ih htail (fun u _ => bucketFor_eq_of_lookup hlookup u) (fun u hu => by
        rw [rate_check, burst_check]
        exact hof.mono (hhead u hu))
      rwa [rate_check, burst_check] at h
    rw [checks, hrest, Regulator.verdicts_cons, hnext, check_eq, hfor', hverdict]

end RateLimiter

end Upstreamer
