import Upstreamer.Config.Parser
import Upstreamer.Foundations.Binary
import Upstreamer.Foundations.Past
import Upstreamer.Middleware.RateLimit
import Mathlib.Data.Nat.Prime.Basic

/-!
# Token buckets in double precision

Buckets count their tokens in double precision: the time since the last call is converted to
seconds, multiplied by the rate and added with a rounding each time, and only the subtraction of a
token is exact. Here the limiter is modelled with these roundings, on a clock of whole nanoseconds.

A bucket never holds less than nothing or more than its burst. Since a sum can be rounded up at
every call, whether it is allowed or not, a client can gain a little from calling often; so the
envelope of a window is that of the exact limiter with the rate increased by three errors and one
error of the burst added for each call (`allowed_envelope`). The other way round the roundings take
nothing from a client that keeps to the rate: when its calls are `1 / rate` seconds apart or more,
none of them is refused (`spaced_allowed`).
-/

set_option autoImplicit false

namespace Upstreamer

open Foundations Foundations.Binary

namespace F64

/-- `Duration::as_secs_f64`. -/
def asSecsF64 (d : Duration) : ℚ :=
  f64 (f64 (d / 1000000000 : Nat) + f64 (f64 (d % 1000000000 : Nat) / 1000000000))

/-- A bucket whose instants are nanoseconds on the monotonic clock. -/
structure TokenBucket where
  tokens : ℚ
  maxTokens : ℚ
  refillRate : ℚ
  lastRefill : Nat
  lastUsed : Nat

namespace TokenBucket

def new (rate burst : UInt32) (now : Nat) : TokenBucket where
  tokens := f64 burst.toNat
  maxTokens := f64 burst.toNat
  refillRate := f64 rate.toNat
  lastRefill := now
  lastUsed := now

/-- The tokens at the instant `now`, before one is taken. -/
def refilled (b : TokenBucket) (now : Nat) : ℚ :=
  let elapsed := asSecsF64 (now - b.lastRefill)
  let tokensToAdd := f64 (elapsed * b.refillRate)
  min (f64 (b.tokens + tokensToAdd)) b.maxTokens

/-- `TokenBucket::try_consume` at the instant `now`. -/
def tryConsume (b : TokenBucket) (now : Nat) : Bool × TokenBucket :=
  let tokens := b.refilled now
  let b := { b with lastRefill := now, lastUsed := now }
  if tokens ≥ 1 then
    (true, { b with tokens := f64 (tokens - 1) })
  else
    (false, { b with tokens := tokens })

end TokenBucket

structure RateLimiter where
  buckets : Dict IpAddr TokenBucket
  rate : UInt32
  burst : UInt32

namespace RateLimiter

def new (rate burst : UInt32) : RateLimiter := ⟨∅, rate, burst⟩

/-- `RateLimiter::check` at the instant `now`. -/
def check (limiter : RateLimiter) (ip : IpAddr) (now : Nat) : Bool × RateLimiter :=
  match limiter.buckets.lookup ip with
  | some bucket =>
      let (allowed, bucket) := bucket.tryConsume now
      (allowed, { limiter with buckets := limiter.buckets.insert ip bucket })
  | none =>
      let bucket := TokenBucket.new limiter.rate limiter.burst now
      let (allowed, bucket) := bucket.tryConsume now
      (allowed, { limiter with buckets := limiter.buckets.insert ip bucket })

/-- A call of `check` by a client at an instant. -/
def step (limiter : RateLimiter) (call : IpAddr × Nat) : Option RateLimiter :=
  some (limiter.check call.1 call.2).2

/-- The verdict that a call by the client returns. -/
def verdictOn (ip : IpAddr) (limiter : RateLimiter) (call : IpAddr × Nat) : Option Bool :=
  if call.1 = ip then some (limiter.check call.1 call.2).1 else none

/-- The verdict that a call by the client returns in the window from `s` to `t`. -/
def verdictIn (ip : IpAddr) (s t : Nat) (limiter : RateLimiter) (call : IpAddr × Nat) :
    Option Bool :=
  if s ≤ call.2 ∧ call.2 ≤ t then limiter.verdictOn ip call else none

end RateLimiter

/-! ## The elapsed time -/

/-- The elapsed time has two errors, and is zero or not too small. -/
theorem close_asSecsF64 (d : Duration) :
    AtLeast low (asSecsF64 d) ∧ Close f64Factor 2 (asSecsF64 d) ((d : ℚ) / 1000000000) := by
  have hg := one_le_f64Factor
  have hsecs := atLeast_natCast (d / 1000000000)
  have hnanos : f64 (d % 1000000000 : Nat) = (d % 1000000000 : Nat) :=
    f64_natCast ((Nat.mod_lt d (by decide)).le.trans (by decide))
  have hpart : AtLeast low (((d % 1000000000 : Nat) : ℚ) / 1000000000) := by
    rcases Nat.eq_zero_or_pos (d % 1000000000) with hzero | hpos
    · exact Or.inl (by rw [hzero, Nat.cast_zero, zero_div])
    · right
      have hone : (1 : ℚ) ≤ (d % 1000000000 : Nat) := by exact_mod_cast hpos
      have hlow : low ≤ 1 / 1000000000 := by
        rw [low]
        norm_num
      exact hlow.trans (by gcongr)
  have hsecs1 := isRounding_f64.close (hsecs.mono tiny_le_low) (hsecs.nonneg low_pos)
  have hpart1 := isRounding_f64.close (hpart.mono tiny_le_low) (hpart.nonneg low_pos)
  have hsum := (atLeast_f64 hsecs).add low_pos (atLeast_f64 hpart)
  have hround := isRounding_f64.close (hsum.mono tiny_le_low) (hsum.nonneg low_pos)
  have hboth := hround.trans hg (hsecs1.add hpart1)
  have hsplit : ((d / 1000000000 : Nat) : ℚ) + ((d % 1000000000 : Nat) : ℚ) / 1000000000 =
      (d : ℚ) / 1000000000 := by
    have hnat : (d : ℚ) = 1000000000 * ((d / 1000000000 : Nat) : ℚ) + (d % 1000000000 : Nat) := by
      exact_mod_cast (Nat.div_add_mod d 1000000000).symm
    rw [hnat]
    ring
  rw [hsplit] at hboth
  rw [asSecsF64, hnanos]
  exact ⟨atLeast_f64 hsum, hboth⟩

/-- Calls that are exactly a token's time apart: where the seconds are rounded down, the product is
rounded up. -/
theorem one_le_f64_of_divides {i j : Nat} (hi : i ≤ 9) (hj : j ≤ 9) :
    1 ≤ f64 (asSecsF64 (1000000000 / (2 ^ i * 5 ^ j)) * ((2 ^ i * 5 ^ j : Nat) : ℚ)) := by
  have hall : ∀ i ∈ List.range 10, ∀ j ∈ List.range 10,
      1 ≤ f64 (asSecsF64 (1000000000 / (2 ^ i * 5 ^ j)) * ((2 ^ i * 5 ^ j : Nat) : ℚ)) := by
    decide +kernel
  exact hall i (List.mem_range.2 (by omega)) j (List.mem_range.2 (by omega))

/-- **A token's time is enough for a token**, in double precision as well. -/
theorem one_le_f64_asSecsF64_mul {d : Duration} {rate : Nat} (h : 1000000000 ≤ d * rate) :
    1 ≤ f64 (asSecsF64 d * rate) := by
  rcases h.eq_or_lt with heq | hlt
  · -- the rate divides the nanoseconds of a second, which leaves a hundred rates
    have hdvd : rate ∣ 2 ^ 9 * 5 ^ 9 := ⟨d, by rw [Nat.mul_comm rate, ← heq]; norm_num⟩
    obtain ⟨twos, fives, htwos, hfives, rfl⟩ := (Nat.dvd_mul).1 hdvd
    obtain ⟨i, hi, rfl⟩ := (Nat.dvd_prime_pow Nat.prime_two).1 htwos
    obtain ⟨j, hj, rfl⟩ := (Nat.dvd_prime_pow Nat.prime_five).1 hfives
    have hd : d = 1000000000 / (2 ^ i * 5 ^ j) := by
      rw [heq, Nat.mul_div_cancel]
      positivity
    rw [hd]
    exact one_le_f64_of_divides hi hj
  · -- a nanosecond more outweighs the two errors
    have hg : f64Factor ^ 2 ≤ 1000000001 / 1000000000 := by
      rw [f64Factor, IsRounding.factor]
      norm_num
    have hcast : (1000000001 : ℚ) ≤ d * rate := by exact_mod_cast hlt
    have hpos : 0 < f64Factor ^ 2 := pow_pos (zero_lt_one.trans_le one_le_f64Factor) 2
    have hclose := (close_asSecsF64 d).2.2
    have hscaled : (d : ℚ) / 1000000000 * rate ≤ f64Factor ^ 2 * (asSecsF64 d * rate) := by
      rw [← mul_assoc]
      exact mul_le_mul_of_nonneg_right hclose (Nat.cast_nonneg _)
    have hone : f64Factor ^ 2 * 1 ≤ f64Factor ^ 2 * (asSecsF64 d * rate) := by
      linarith
    exact isRounding_f64.le_rnd isF64_one (le_of_mul_le_mul_left hone hpos)

/-! ## One call -/

/-- What an elapsed time can add to a bucket of the rate, roundings included. -/
def gain (rate : UInt32) (d : Duration) : ℚ := f64Factor ^ 3 * (rate.toNat * (d / 1000000000))

theorem gain_nonneg (rate : UInt32) (d : Duration) : 0 ≤ gain rate d := by
  have hg := zero_le_one.trans one_le_f64Factor
  rw [gain]
  positivity

theorem gain_add (rate : UInt32) (d d' : Duration) :
    gain rate (d + d' : Nat) = gain rate d + gain rate d' := by
  rw [gain, gain, gain]
  push_cast
  ring

theorem toNat_le_pow (n : UInt32) : n.toNat ≤ 2 ^ 53 := by
  have h : n.toNat < 2 ^ 32 := n.toNat_lt
  omega

namespace TokenBucket

/-- A bucket of a limiter with the given rate and burst. -/
structure Of (rate burst : UInt32) (b : TokenBucket) : Prop where
  maxTokens_eq : b.maxTokens = burst.toNat
  refillRate_eq : b.refillRate = rate.toNat
  isF64_tokens : IsF64 b.tokens
  atLeast_tokens : AtLeast low b.tokens
  tokens_le : b.tokens ≤ burst.toNat

variable {rate burst : UInt32} {b : TokenBucket} {now : Nat}

theorem new_of (rate burst : UInt32) (now : Nat) : (new rate burst now).Of rate burst where
  maxTokens_eq := f64_natCast (toNat_le_pow burst)
  refillRate_eq := f64_natCast (toNat_le_pow rate)
  isF64_tokens := isRounding_f64.rep_rnd _
  atLeast_tokens := atLeast_f64 (atLeast_natCast _)
  tokens_le := (f64_natCast (toNat_le_pow burst)).le

theorem Of.refilled_eq (h : b.Of rate burst) (now : Nat) :
    b.refilled now =
      min (f64 (b.tokens + f64 (asSecsF64 (now - b.lastRefill) * rate.toNat))) burst.toNat := by
  rw [refilled, h.maxTokens_eq, h.refillRate_eq]

theorem atLeast_added (rate : UInt32) (d : Duration) : AtLeast low (asSecsF64 d * rate.toNat) :=
  (close_asSecsF64 d).1.mul_natCast low_pos rate.toNat

theorem Of.atLeast_sum (h : b.Of rate burst) (d : Duration) :
    AtLeast low (b.tokens + f64 (asSecsF64 d * rate.toNat)) :=
  h.atLeast_tokens.add low_pos (atLeast_f64 (atLeast_added rate d))

theorem Of.refilled_le_burst (h : b.Of rate burst) (now : Nat) : b.refilled now ≤ burst.toNat := by
  rw [h.refilled_eq]
  exact min_le_right _ _

theorem Of.isF64_refilled (h : b.Of rate burst) (now : Nat) : IsF64 (b.refilled now) := by
  rw [h.refilled_eq]
  rcases min_choice (f64 (b.tokens + f64 (asSecsF64 (now - b.lastRefill) * rate.toNat)))
    (burst.toNat : ℚ) with hmin | hmin
  · rw [hmin]
    exact isRounding_f64.rep_rnd _
  · rw [hmin]
    exact isF64_natCast (toNat_le_pow burst)

theorem Of.atLeast_refilled (h : b.Of rate burst) (now : Nat) : AtLeast low (b.refilled now) := by
  rw [h.refilled_eq]
  rcases min_choice (f64 (b.tokens + f64 (asSecsF64 (now - b.lastRefill) * rate.toNat)))
    (burst.toNat : ℚ) with hmin | hmin
  · rw [hmin]
    exact atLeast_f64 (h.atLeast_sum _)
  · rw [hmin]
    exact atLeast_natCast _

/-- What the elapsed time adds has three errors. -/
theorem added_le (rate : UInt32) (d : Duration) : f64 (asSecsF64 d * rate.toNat) ≤ gain rate d := by
  have hg := one_le_f64Factor
  have hsecs := close_asSecsF64 d
  have hadded := atLeast_added rate d
  have hrate : (0 : ℚ) ≤ rate.toNat := Nat.cast_nonneg _
  have hdiv : (0 : ℚ) ≤ (d : ℚ) / 1000000000 := by positivity
  have hmul := hsecs.2.mul hg (hsecs.1.nonneg low_pos) hdiv hrate hrate
    (Close.refl f64Factor (rate.toNat : ℚ))
  have hround := isRounding_f64.close (hadded.mono tiny_le_low) (hadded.nonneg low_pos)
  have hboth := (hround.trans hg hmul).1
  rwa [mul_comm ((d : ℚ) / 1000000000)] at hboth

/-- **What a call can gain**: the elapsed time's tokens, and an error of the burst. -/
theorem Of.refilled_le (h : b.Of rate burst) (now : Nat) :
    b.refilled now ≤ b.tokens + gain rate (now - b.lastRefill) + 2 ^ (-53 : ℤ) * burst.toNat := by
  have hsum := h.atLeast_sum (now - b.lastRefill)
  have hadded := added_le rate (now - b.lastRefill)
  have hu : (0 : ℚ) < 2 ^ (-53 : ℤ) := zpow_pos two_pos _
  have hburst : (0 : ℚ) ≤ 2 ^ (-53 : ℤ) * burst.toNat := by positivity
  rw [h.refilled_eq]
  rcases le_total (burst.toNat : ℚ)
    (b.tokens + f64 (asSecsF64 (now - b.lastRefill) * rate.toNat)) with hge | hle
  · -- the bucket is full before the rounding
    have hmin := min_le_right (f64 (b.tokens +
      f64 (asSecsF64 (now - b.lastRefill) * rate.toNat))) (burst.toNat : ℚ)
    linarith
  · have hmin := min_le_left (f64 (b.tokens +
      f64 (asSecsF64 (now - b.lastRefill) * rate.toNat))) (burst.toNat : ℚ)
    have hround := isRounding_f64.rnd_le_add (hsum.mono tiny_le_low) (hsum.nonneg low_pos)
    have herror := mul_le_mul_of_nonneg_left hle hu.le
    linarith

/-- A bucket has a token once the exact sum of its tokens has. -/
theorem Of.one_le_refilled (h : b.Of rate burst) (hburst : 1 ≤ burst.toNat)
    (hsum : 1 ≤ b.tokens + f64 (asSecsF64 (now - b.lastRefill) * rate.toNat)) :
    1 ≤ b.refilled now := by
  rw [h.refilled_eq]
  exact le_min (isRounding_f64.le_rnd isF64_one hsum) (by exact_mod_cast hburst)

/-- A call that comes a token's time after the last one is allowed. -/
theorem Of.one_le_refilled_of_elapsed (h : b.Of rate burst) (hburst : 1 ≤ burst.toNat)
    (helapsed : 1000000000 ≤ (now - b.lastRefill) * rate.toNat) : 1 ≤ b.refilled now := by
  have hadded := one_le_f64_asSecsF64_mul helapsed
  have htokens := h.atLeast_tokens.nonneg low_pos
  exact h.one_le_refilled hburst (by linarith)

/-- The first call is allowed. -/
theorem one_le_refilled_new (rate : UInt32) (hburst : 1 ≤ burst.toNat) (now : Nat) :
    1 ≤ (new rate burst now).refilled now := by
  have htokens : (1 : ℚ) ≤ f64 burst.toNat :=
    isRounding_f64.le_rnd isF64_one (by exact_mod_cast hburst)
  have hadded := (atLeast_f64 (atLeast_added rate (now - now))).nonneg low_pos
  refine (new_of rate burst now).one_le_refilled hburst (htokens.trans ?_)
  exact le_add_of_nonneg_right hadded

@[simp]
theorem lastRefill_tryConsume (b : TokenBucket) (now : Nat) :
    (b.tryConsume now).2.lastRefill = now := by
  simp only [tryConsume]
  split <;> rfl

theorem tryConsume_fst_iff (b : TokenBucket) (now : Nat) :
    (b.tryConsume now).1 = true ↔ 1 ≤ b.refilled now := by
  simp only [tryConsume]
  split
  · next h => exact iff_of_true rfl h
  · next h => exact iff_of_false Bool.false_ne_true h

/-- An allowed call takes one token, without an error. -/
theorem Of.tokens_tryConsume (h : b.Of rate burst) (now : Nat) :
    (b.tryConsume now).2.tokens + ((b.tryConsume now).1.toNat : ℚ) = b.refilled now := by
  simp only [tryConsume]
  split
  · next hone =>
    have hle : b.refilled now ≤ 2 ^ 53 :=
      (h.refilled_le_burst now).trans (by exact_mod_cast toNat_le_pow burst)
    have hexact := isRounding_f64.exact _
      (representable_sub_one (by decide) (h.isF64_refilled now) hone hle)
    simp [hexact]
  · simp

/-- A call leaves a bucket of the limiter. -/
theorem Of.tryConsume (h : b.Of rate burst) (now : Nat) : (b.tryConsume now).2.Of rate burst := by
  have hfresh := new_of rate burst now
  have hburst := h.refilled_le_burst now
  simp only [TokenBucket.tryConsume]
  split
  · next hone =>
    have hsub : AtLeast low (b.refilled now - 1) :=
      (atLeast_sub_one (by decide) (h.isF64_refilled now) hone).imp_right fun hunit =>
        (zpow_le_zpow_right₀ one_le_two (by decide)).trans hunit
    refine ⟨h.maxTokens_eq, h.refillRate_eq, isRounding_f64.rep_rnd _,
      atLeast_f64 hsub, ?_⟩
    exact isRounding_f64.rnd_le (isF64_natCast (toNat_le_pow burst)) (by linarith)
  · exact ⟨h.maxTokens_eq, h.refillRate_eq, h.isF64_refilled now, h.atLeast_refilled now, hburst⟩

end TokenBucket

/-! ## The calls of a limiter -/

namespace RateLimiter

/-- The bucket that a call for `ip` draws from: the one on record, or a fresh one. -/
def bucketFor (limiter : RateLimiter) (ip : IpAddr) (now : Nat) : TokenBucket :=
  (limiter.buckets.lookup ip).getD (TokenBucket.new limiter.rate limiter.burst now)

theorem check_eq (limiter : RateLimiter) (ip : IpAddr) (now : Nat) :
    limiter.check ip now =
      (((limiter.bucketFor ip now).tryConsume now).1,
        { limiter with
          buckets :=
            limiter.buckets.insert ip ((limiter.bucketFor ip now).tryConsume now).2 }) := by
  unfold check bucketFor
  cases limiter.buckets.lookup ip <;> rfl

/-- The limiter has the rate and burst, and so has the bucket of the client, if there is one. -/
structure Of (rate burst : UInt32) (ip : IpAddr) (limiter : RateLimiter) : Prop where
  rate_eq : limiter.rate = rate
  burst_eq : limiter.burst = burst
  bucket_of : ∀ b, limiter.buckets.lookup ip = some b → b.Of rate burst

variable {rate burst : UInt32} {ip other : IpAddr} {limiter : RateLimiter} {now : Nat}

theorem new_of (rate burst : UInt32) (ip : IpAddr) : (new rate burst).Of rate burst ip :=
  ⟨rfl, rfl, fun _ hb => nomatch hb⟩

theorem Of.bucketFor_of (h : limiter.Of rate burst ip) (now : Nat) :
    (limiter.bucketFor ip now).Of rate burst := by
  rw [bucketFor]
  cases hlookup : limiter.buckets.lookup ip with
  | some b => exact h.bucket_of b hlookup
  | none =>
    rw [h.rate_eq, h.burst_eq]
    exact TokenBucket.new_of rate burst now

/-- A call of the client leaves its bucket on record. -/
theorem lookup_check_self (limiter : RateLimiter) (ip : IpAddr) (now : Nat) :
    (limiter.check ip now).2.buckets.lookup ip =
      some ((limiter.bucketFor ip now).tryConsume now).2 := by
  rw [check_eq]
  exact Finmap.lookup_insert _

/-- The calls of others leave the bucket alone. -/
theorem lookup_check_ne (limiter : RateLimiter) (h : other ≠ ip) (now : Nat) :
    (limiter.check other now).2.buckets.lookup ip = limiter.buckets.lookup ip := by
  rw [check_eq]
  exact Finmap.lookup_insert_of_ne _ h.symm

theorem Of.check (h : limiter.Of rate burst ip) (other : IpAddr) (now : Nat) :
    (limiter.check other now).2.Of rate burst ip := by
  refine ⟨by rw [check_eq]; exact h.rate_eq, by rw [check_eq]; exact h.burst_eq, fun b hb => ?_⟩
  by_cases hother : other = ip
  · subst hother
    rw [lookup_check_self] at hb
    exact Option.some.inj hb ▸ (h.bucketFor_of now).tryConsume now
  · rw [lookup_check_ne limiter hother] at hb
    exact h.bucket_of b hb

section Calls

variable {calls : List (IpAddr × Nat)} {s t : Nat}

theorem reports_cons_call (report : RateLimiter → IpAddr × Nat → Option Bool)
    (limiter : RateLimiter) (call : IpAddr × Nat) (calls : List (IpAddr × Nat)) :
    reports step report limiter (call :: calls) =
      (report limiter call).toList ++ reports step report (limiter.check call.1 call.2).2 calls :=
  reports_cons rfl calls

theorem verdictIn_of_ne (h : other ≠ ip) : limiter.verdictIn ip s t (other, now) = none := by
  rw [verdictIn, verdictOn, if_neg h, ite_self]

theorem verdictIn_of_mem (hs : s ≤ now) (ht : now ≤ t) :
    limiter.verdictIn ip s t (ip, now) = some ((limiter.bucketFor ip now).tryConsume now).1 := by
  rw [verdictIn, if_pos ⟨hs, ht⟩, verdictOn, if_pos rfl, check_eq]

theorem count_true_cons (verdict : Bool) (verdicts : List Bool) :
    ((verdict :: verdicts).count true : ℚ) = verdicts.count true + (verdict.toNat : ℚ) := by
  cases verdict <;> simp

/-- The calls after the window report nothing. -/
theorem verdictsIn_eq_nil (h : ∀ call ∈ calls, t < call.2) (limiter : RateLimiter) :
    reports step (verdictIn ip s t) limiter calls = [] := by
  induction calls generalizing limiter with
  | nil => rfl
  | cons call calls ih =>
    obtain ⟨hcall, hcalls⟩ := List.forall_mem_cons.1 h
    rw [reports_cons_call, ih hcalls, verdictIn, if_neg (by omega)]
    rfl

/-- What a bucket that was used in the window allows in the rest of it. -/
theorem allowed_le_of_lookup {b : TokenBucket} (h : limiter.Of rate burst ip)
    (hb : limiter.buckets.lookup ip = some b) (hs : s ≤ b.lastRefill) (ht : b.lastRefill ≤ t)
    (hlast : ∀ call ∈ calls, b.lastRefill ≤ call.2)
    (hsorted : calls.Pairwise fun call later => call.2 ≤ later.2) :
    ((reports step (verdictIn ip s t) limiter calls).count true : ℚ) ≤
      b.tokens + gain rate (t - b.lastRefill) +
        2 ^ (-53 : ℤ) * burst.toNat * (reports step (verdictIn ip s t) limiter calls).length := by
  induction calls generalizing limiter b with
  | nil =>
    have htokens := (h.bucket_of b hb).atLeast_tokens.nonneg low_pos
    have hgain := gain_nonneg rate (t - b.lastRefill)
    simp only [reports, List.count_nil, List.length_nil, Nat.cast_zero, mul_zero, add_zero]
    linarith
  | cons call calls ih =>
    obtain ⟨other, now⟩ := call
    obtain ⟨hnow, hlast⟩ := List.forall_mem_cons.1 hlast
    obtain ⟨hlater, hsorted⟩ := List.pairwise_cons.1 hsorted
    by_cases hother : other = ip
    · subst hother
      rcases le_or_gt now t with hin | hout
      · -- the call has used what it gained and the token it took
        have hfor : limiter.bucketFor other now = b := by rw [bucketFor, hb, Option.getD_some]
        have hused := TokenBucket.lastRefill_tryConsume (limiter.bucketFor other now) now
        have hrest := ih (h.check other now) (lookup_check_self limiter other now)
          ((hs.trans hnow).trans_eq hused.symm) (hused.trans_le hin) (by rwa [hused]) hsorted
        have htaken := (h.bucket_of b hb).tokens_tryConsume now
        have hgained := (h.bucket_of b hb).refilled_le now
        have hsplit : gain rate (t - b.lastRefill) =
            gain rate (now - b.lastRefill) + gain rate (t - now) := by
          have hnanos : t - b.lastRefill = (now - b.lastRefill) + (t - now) := by omega
          rw [hnanos, gain_add]
        rw [hused, hfor] at hrest
        rw [reports_cons_call, verdictIn_of_mem (hs.trans hnow) hin, hfor, Option.toList_some,
          List.singleton_append, List.length_cons, count_true_cons]
        push_cast
        linarith
      · have hnone : reports step (verdictIn other s t) limiter ((other, now) :: calls) = [] :=
          verdictsIn_eq_nil (List.forall_mem_cons.2
            ⟨hout, fun later hmem => hout.trans_le (hlater later hmem)⟩) limiter
        have htokens := (h.bucket_of b hb).atLeast_tokens.nonneg low_pos
        have hgain := gain_nonneg rate (t - b.lastRefill)
        rw [hnone]
        simp only [List.count_nil, List.length_nil, Nat.cast_zero, mul_zero, add_zero]
        linarith
    · rw [reports_cons_call, verdictIn_of_ne hother, Option.toList_none, List.nil_append]
      exact ih (h.check other now) (by rwa [lookup_check_ne limiter hother]) hs ht hlast hsorted

/-- What a client that has not called in the window yet is allowed in it. -/
theorem allowed_le (h : limiter.Of rate burst ip) (hst : s ≤ t)
    (hsorted : calls.Pairwise fun call later => call.2 ≤ later.2) :
    ((reports step (verdictIn ip s t) limiter calls).count true : ℚ) ≤
      burst.toNat + gain rate (t - s) +
        2 ^ (-53 : ℤ) * burst.toNat * (reports step (verdictIn ip s t) limiter calls).length := by
  induction calls generalizing limiter with
  | nil =>
    have hgain := gain_nonneg rate (t - s)
    simp only [reports, List.count_nil, List.length_nil, Nat.cast_zero, mul_zero, add_zero]
    positivity
  | cons call calls ih =>
    obtain ⟨other, now⟩ := call
    obtain ⟨hlater, hsorted⟩ := List.pairwise_cons.1 hsorted
    have hrest := ih (h.check other now) hsorted
    by_cases hreported : other = ip ∧ s ≤ now ∧ now ≤ t
    · -- the first call in the window draws from a bucket that holds at most the burst
      obtain ⟨rfl, hs, ht⟩ := hreported
      have hlast := TokenBucket.lastRefill_tryConsume (limiter.bucketFor other now) now
      have hfirst := allowed_le_of_lookup (h.check other now) (lookup_check_self limiter other now)
        (hs.trans_eq hlast.symm) (hlast.trans_le ht) (by rwa [hlast]) hsorted
      have hof := h.bucketFor_of now
      have htaken := hof.tokens_tryConsume now
      have hfull := hof.refilled_le_burst now
      have hsplit : gain rate (t - s) = gain rate (now - s) + gain rate (t - now) := by
        have hnanos : t - s = (now - s) + (t - now) := by omega
        rw [hnanos, gain_add]
      have hgain := gain_nonneg rate (now - s)
      have herror : (0 : ℚ) ≤ 2 ^ (-53 : ℤ) * burst.toNat := by positivity
      rw [hlast] at hfirst
      rw [reports_cons_call, verdictIn_of_mem hs ht, Option.toList_some, List.singleton_append,
        List.length_cons, count_true_cons]
      push_cast
      linarith
    · have hnone : limiter.verdictIn ip s t (other, now) = none := by
        rw [verdictIn, verdictOn]
        split
        · next hwindow => exact if_neg fun hother => hreported ⟨hother, hwindow⟩
        · rfl
      rwa [reports_cons_call, hnone]

/-- **The envelope of a window in double precision**, for a limiter between two sweeps. -/
theorem allowed_envelope (rate burst : UInt32) (ip : IpAddr) (calls : List (IpAddr × Nat))
    (hsorted : calls.Pairwise fun call later => call.2 ≤ later.2) {s t : Nat} (hst : s ≤ t) :
    ((reports step (verdictIn ip s t) (new rate burst) calls).count true : ℚ) ≤
      burst.toNat + f64Factor ^ 3 * (rate.toNat * (((t - s : Nat) : ℚ) / 1000000000)) +
        2 ^ (-53 : ℤ) * burst.toNat *
          (reports step (verdictIn ip s t) (new rate burst) calls).length :=
  allowed_le (new_of rate burst ip) hst hsorted

/-- Two clients of a limiter with a token a second, one of them calling more often than that. -/
theorem allowed_envelope_two_clients :
    ((reports step (verdictIn (.v4 0) 0 2000000000) (new 1 2)
        [(.v4 0, 0), (.v4 1, 0), (.v4 0, 0), (.v4 0, 500000000), (.v4 0, 1500000000)]).count true
          : ℚ) ≤
      2 + f64Factor ^ 3 * (1 * (((2000000000 - 0 : Nat) : ℚ) / 1000000000)) +
        2 ^ (-53 : ℤ) * 2 * 4 :=
  allowed_envelope 1 2 (.v4 0)
    [(.v4 0, 0), (.v4 1, 0), (.v4 0, 0), (.v4 0, 500000000), (.v4 0, 1500000000)]
    (by decide) (Nat.zero_le 2000000000)

/-- The instants of the client's calls. -/
def instants (ip : IpAddr) (calls : List (IpAddr × Nat)) : List Nat :=
  (calls.filter fun call => call.1 = ip).map Prod.snd

/-- The instants are a token's time apart, or more. -/
def Spaced (rate : UInt32) (ts : List Nat) : Prop :=
  ts.IsChain fun t later => 1000000000 ≤ (later - t) * rate.toNat

theorem instants_cons_self (ip : IpAddr) (now : Nat) (calls : List (IpAddr × Nat)) :
    instants ip ((ip, now) :: calls) = now :: instants ip calls := by
  simp [instants]

theorem instants_cons_ne (h : other ≠ ip) (now : Nat) (calls : List (IpAddr × Nat)) :
    instants ip ((other, now) :: calls) = instants ip calls := by
  simp [instants, h]

/-- A client that keeps the distance from its last call on is allowed all its calls. -/
theorem allowed_of_spaced (h : limiter.Of rate burst ip) (hburst : 1 ≤ burst.toNat)
    (hspaced : Spaced rate
      (((limiter.buckets.lookup ip).map TokenBucket.lastRefill).toList ++ instants ip calls)) :
    ∀ verdict ∈ reports step (verdictOn ip) limiter calls, verdict = true := by
  induction calls generalizing limiter with
  | nil => exact fun _ hverdict => absurd hverdict List.not_mem_nil
  | cons call calls ih =>
    obtain ⟨other, now⟩ := call
    have hrest := ih (h.check other now)
    rw [reports_cons_call]
    by_cases hother : other = ip
    · subst hother
      -- the bucket has been left alone for a token's time, or is made for the call
      have hone : 1 ≤ (limiter.bucketFor other now).refilled now := by
        rw [bucketFor]
        cases hlookup : limiter.buckets.lookup other with
        | none =>
          rw [h.rate_eq, h.burst_eq]
          exact TokenBucket.one_le_refilled_new rate hburst now
        | some b =>
          rw [hlookup, instants_cons_self] at hspaced
          exact (h.bucket_of b hlookup).one_le_refilled_of_elapsed hburst
            (List.isChain_cons_cons.1 hspaced).1
      have hafter : Spaced rate (now :: instants other calls) := by
        rw [instants_cons_self] at hspaced
        exact List.IsChain.right_of_append hspaced
      rw [lookup_check_self, Option.map_some, TokenBucket.lastRefill_tryConsume] at hrest
      have hallowed : limiter.verdictOn other (other, now) = some true := by
        rw [verdictOn, if_pos rfl, check_eq]
        exact congrArg some ((TokenBucket.tryConsume_fst_iff _ _).2 hone)
      rw [hallowed]
      exact List.forall_mem_cons.2 ⟨rfl, hrest hafter⟩
    · rw [lookup_check_ne limiter hother] at hrest
      rw [verdictOn, if_neg hother, Option.toList_none, List.nil_append]
      rw [instants_cons_ne hother] at hspaced
      exact hrest hspaced

/-- **A client that keeps to the rate is never refused**, however the times are rounded and whatever
the other clients do. -/
theorem spaced_allowed (rate burst : UInt32) (hburst : 1 ≤ burst.toNat) (ip : IpAddr)
    (calls : List (IpAddr × Nat)) (hspaced : Spaced rate (instants ip calls)) :
    ∀ verdict ∈ reports step (verdictOn ip) (new rate burst) calls, verdict = true :=
  allowed_of_spaced (new_of rate burst ip) hburst hspaced

/-- A limiter of three requests a second, called every third of a second, rounded up. -/
theorem spaced_allowed_thirds :
    Spaced 3 [0, 333333334, 666666668] ∧
      ∀ verdict ∈ reports step (verdictOn (.v4 0)) (new 3 1)
        [(.v4 0, 0), (.v4 1, 0), (.v4 0, 333333334), (.v4 1, 0), (.v4 0, 666666668)],
        verdict = true := by
  have hspaced : Spaced 3 [0, 333333334, 666666668] := by simp [Spaced]
  exact ⟨hspaced, spaced_allowed 3 1 (by decide) (.v4 0)
    [(.v4 0, 0), (.v4 1, 0), (.v4 0, 333333334), (.v4 1, 0), (.v4 0, 666666668)] hspaced⟩

end Calls

end RateLimiter

end F64

end Upstreamer
