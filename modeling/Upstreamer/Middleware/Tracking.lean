import Upstreamer.Foundations.Regulated
import Upstreamer.Middleware.Eviction

/-!
# Tracking a client through a limiter that is replaced

A task may replace a limiter by a new one, or drop a bucket, while a client draws from it. `Touches`
lists what one step can do to a limiter, seen by one client. As long as the bucket of the client is
full whenever it is lost, the calls of the client are decided as by one regulator that starts full
and is never reset (`Tracks.touches`): a full bucket is as good as a fresh one. In any machine that
treats a limiter in these ways, the allowed calls of the client stay in the envelope
(`regulates_of_touches`, with `positive_le_envelope`).
-/

set_option autoImplicit false

namespace Upstreamer

open Foundations

universe u v

namespace RateLimiter

/-- The bucket on record for the client, if there is one, has refilled to the burst. -/
def FullFor (ip : IpAddr) (now : Instant) (limiter : RateLimiter) : Prop :=
  ∀ b, limiter.buckets.lookup ip = some b → b.FullBy limiter.rate limiter.burst now

/-- What a step at the instant `now` can do to a limiter, with the verdict of the call that it makes
for the client, if it makes one. -/
inductive Touches (rate burst : UInt32) (ip : IpAddr) (now : Instant) :
    Option RateLimiter → Option Bool → Option RateLimiter → Prop
  | kept (slot : Option RateLimiter) : Touches rate burst ip now slot none slot
  | called (limiter : RateLimiter) :
      Touches rate burst ip now (some limiter) (some (limiter.check ip now).1)
        (some (limiter.check ip now).2)
  | calledBy (other : IpAddr) (hother : other ≠ ip) (limiter : RateLimiter) :
      Touches rate burst ip now (some limiter) none (some (limiter.check other now).2)
  | cleared (slot : Option RateLimiter) (hfull : ∀ limiter ∈ slot, limiter.FullFor ip now) :
      Touches rate burst ip now slot none none
  | replaced (slot : Option RateLimiter) (hfull : ∀ limiter ∈ slot, limiter.FullFor ip now) :
      Touches rate burst ip now slot none (some (RateLimiter.new rate burst))
  | swept (slot : Option RateLimiter) (hfull : ∀ limiter ∈ slot, ∀ b,
        limiter.buckets.lookup ip = some b → b.isStale cleanupMaxIdle now = true →
          b.FullBy limiter.rate limiter.burst now) :
      Touches rate burst ip now slot none
        (slot.map fun limiter => limiter.cleanupStale cleanupMaxIdle now)

/-- The regulator is the bucket of the client, or it is full by now and there is no such bucket. -/
structure Tracks (rate burst : UInt32) (ip : IpAddr) (now : Instant) (slot : Option RateLimiter)
    (v : Regulator ℚ) : Prop where
  rate_eq : ∀ limiter ∈ slot, limiter.rate = rate
  burst_eq : ∀ limiter ∈ slot, limiter.burst = burst
  last_le : v.last ≤ now
  zero_le_amount : 0 ≤ v.amount
  bucket : (∃ limiter b, slot = some limiter ∧ limiter.buckets.lookup ip = some b ∧
      b.Of rate burst now ∧ b.toRegulator = v) ∨
    ((∀ limiter ∈ slot, limiter.buckets.lookup ip = none) ∧
      (burst.toNat : ℚ) ≤ v.amount + (now - v.last) * rate.toNat)

section Tracks

variable {rate burst : UInt32} {ip : IpAddr} {now : Instant} {slot slot' : Option RateLimiter}
  {v : Regulator ℚ} {limiter : RateLimiter}

theorem tracks_fresh (hslot : ∀ limiter ∈ slot, limiter = RateLimiter.new rate burst)
    (now : Instant) : Tracks rate burst ip now slot ⟨burst.toNat, now⟩ where
  rate_eq := fun limiter hlimiter => by rw [hslot limiter hlimiter]; rfl
  burst_eq := fun limiter hlimiter => by rw [hslot limiter hlimiter]; rfl
  last_le := le_rfl
  zero_le_amount := Nat.cast_nonneg _
  bucket := by
    refine Or.inr ⟨fun limiter hlimiter => ?_, ?_⟩
    · rw [hslot limiter hlimiter]
      exact Finmap.lookup_empty ip
    · show (burst.toNat : ℚ) ≤ burst.toNat + (now - now) * rate.toNat
      rw [sub_self, zero_mul, add_zero]

/-- Time passes. -/
theorem Tracks.later (h : Tracks rate burst ip now slot v) {later : Instant} (hle : now ≤ later) :
    Tracks rate burst ip later slot v := by
  refine ⟨h.rate_eq, h.burst_eq, h.last_le.trans hle, h.zero_le_amount, ?_⟩
  rcases h.bucket with ⟨limiter, b, hslot, hlookup, hof, hv⟩ | ⟨hnone, hfull⟩
  · exact Or.inl ⟨limiter, b, hslot, hlookup, hof.mono hle, hv⟩
  · have hgrow : (now - v.last) * (rate.toNat : ℚ) ≤ (later - v.last) * rate.toNat :=
      mul_le_mul_of_nonneg_right (by linarith) (Nat.cast_nonneg _)
    exact Or.inr ⟨hnone, by linarith⟩

/-- A limiter without the bucket of the client can take over when that bucket is full. -/
theorem Tracks.forget (h : Tracks rate burst ip now slot v)
    (hfull : ∀ limiter ∈ slot, limiter.FullFor ip now)
    (hrate : ∀ limiter ∈ slot', limiter.rate = rate)
    (hburst : ∀ limiter ∈ slot', limiter.burst = burst)
    (hnone : ∀ limiter ∈ slot', limiter.buckets.lookup ip = none) :
    Tracks rate burst ip now slot' v := by
  refine ⟨hrate, hburst, h.last_le, h.zero_le_amount, Or.inr ⟨hnone, ?_⟩⟩
  rcases h.bucket with ⟨limiter, b, hslot, hlookup, -, rfl⟩ | ⟨-, hregulator⟩
  · have hb := hfull limiter hslot b hlookup
    rwa [h.rate_eq limiter hslot, h.burst_eq limiter hslot] at hb
  · exact hregulator

/-- A limiter with the same bucket for the client can take over at any time. -/
theorem Tracks.same_bucket (h : Tracks rate burst ip now (some limiter) v) {limiter' : RateLimiter}
    (hrate : limiter'.rate = limiter.rate) (hburst : limiter'.burst = limiter.burst)
    (hlookup : limiter'.buckets.lookup ip = limiter.buckets.lookup ip) :
    Tracks rate burst ip now (some limiter') v := by
  refine ⟨?_, ?_, h.last_le, h.zero_le_amount, ?_⟩
  · rintro _ ⟨⟩
    rw [hrate, h.rate_eq limiter rfl]
  · rintro _ ⟨⟩
    rw [hburst, h.burst_eq limiter rfl]
  · rcases h.bucket with ⟨_, b, ⟨⟩, hb, hof, hv⟩ | ⟨hnone, hfull⟩
    · exact Or.inl ⟨limiter', b, rfl, hlookup.trans hb, hof, hv⟩
    · refine Or.inr ⟨?_, hfull⟩
      rintro _ ⟨⟩
      rw [hlookup, hnone limiter rfl]

/-- The bucket that a call draws from decides as the regulator does. -/
theorem Tracks.bucketFor (h : Tracks rate burst ip now (some limiter) v) :
    (limiter.bucketFor ip now).Of rate burst now ∧
      Regulator.refilled (burst.toNat : ℚ) rate.toNat (limiter.bucketFor ip now).toRegulator now =
        Regulator.refilled (burst.toNat : ℚ) rate.toNat v now := by
  rcases h.bucket with ⟨_, b, ⟨⟩, hlookup, hof, rfl⟩ | ⟨hnone, hfull⟩
  · rw [bucketFor_eq_of_lookup hlookup]
    exact ⟨hof, rfl⟩
  · -- the fresh bucket and the regulator are both full
    rw [RateLimiter.bucketFor, hnone limiter rfl, Option.getD_none, h.rate_eq limiter rfl,
      h.burst_eq limiter rfl, Regulator.refilled_eq_cap hfull]
    refine ⟨TokenBucket.new_of rate burst now, Regulator.refilled_eq_cap ?_⟩
    show (burst.toNat : ℚ) ≤ burst.toNat + (now - now) * rate.toNat
    rw [sub_self, zero_mul, add_zero]

/-- **A call is one arrival at the regulator.** -/
theorem Tracks.check (h : Tracks rate burst ip now (some limiter) v) :
    (limiter.check ip now).1 = Regulator.serves (burst.toNat : ℚ) rate.toNat v now ∧
      Tracks rate burst ip now (some (limiter.check ip now).2)
        (Regulator.next (burst.toNat : ℚ) rate.toNat v now) := by
  obtain ⟨hof, hrefilled⟩ := h.bucketFor
  obtain ⟨hserves, hnext⟩ := TokenBucket.tryConsume_eq_regulator hof
  rw [Regulator.serves_congr hrefilled] at hserves
  rw [Regulator.next_congr hrefilled] at hnext
  refine ⟨by rw [check_eq]; exact hserves, ?_, ?_, le_rfl, ?_, Or.inl ?_⟩
  · rintro _ ⟨⟩
    rw [rate_check, h.rate_eq limiter rfl]
  · rintro _ ⟨⟩
    rw [burst_check, h.burst_eq limiter rfl]
  · exact Regulator.zero_le_amount_next (Nat.cast_nonneg _) (Nat.cast_nonneg _) h.zero_le_amount
      h.last_le
  · exact ⟨_, _, rfl, lookup_check_self limiter ip now, TokenBucket.tryConsume_of hof, hnext⟩

/-- A sweep keeps the bucket of the client or drops it full. -/
theorem Tracks.sweep (h : Tracks rate burst ip now slot v)
    (hfull : ∀ limiter ∈ slot, ∀ b, limiter.buckets.lookup ip = some b →
      b.isStale cleanupMaxIdle now = true → b.FullBy limiter.rate limiter.burst now) :
    Tracks rate burst ip now (slot.map fun limiter => limiter.cleanupStale cleanupMaxIdle now)
      v := by
  cases slot with
  | none => exact h
  | some limiter =>
    have hlookup := limiter.lookup_cleanupStale cleanupMaxIdle now ip
    cases hb : limiter.buckets.lookup ip with
    | none => exact h.same_bucket rfl rfl (by rw [hlookup, hb]; rfl)
    | some b =>
      cases hstale : b.isStale cleanupMaxIdle now with
      | false => exact h.same_bucket rfl rfl (by rw [hlookup, hb]; simp [hstale])
      | true =>
        refine h.forget ?_ ?_ ?_ ?_
        · rintro _ ⟨⟩ b' hb'
          exact hfull limiter rfl b' hb' (by rw [← hstale, Option.some.inj (hb.symm.trans hb')])
        · rintro _ ⟨⟩
          exact h.rate_eq limiter rfl
        · rintro _ ⟨⟩
          exact h.burst_eq limiter rfl
        · rintro _ ⟨⟩
          rw [hlookup, hb]
          simp [hstale]

/-- **A step is tracked.** The verdict, if there is one, is that of the regulator. -/
theorem Tracks.touches {verdict : Option Bool} (h : Tracks rate burst ip now slot v)
    (htouches : Touches rate burst ip now slot verdict slot') :
    (verdict = none → Tracks rate burst ip now slot' v) ∧
      ∀ ok, verdict = some ok → ok = Regulator.serves (burst.toNat : ℚ) rate.toNat v now ∧
        Tracks rate burst ip now slot' (Regulator.next (burst.toNat : ℚ) rate.toNat v now) := by
  cases htouches with
  | kept => exact ⟨fun _ => h, by rintro _ ⟨⟩⟩
  | called limiter =>
    refine ⟨by rintro ⟨⟩, ?_⟩
    rintro _ ⟨⟩
    exact h.check
  | calledBy other hother limiter =>
    refine ⟨fun _ => ?_, by rintro _ ⟨⟩⟩
    exact h.same_bucket (rate_check _ _ _) (burst_check _ _ _)
      (lookup_check_ne _ (Ne.symm hother) _)
  | cleared _ hfull =>
    refine ⟨fun _ => h.forget hfull ?_ ?_ ?_, by rintro _ ⟨⟩⟩
    all_goals rintro _ ⟨⟩
  | replaced _ hfull =>
    refine ⟨fun _ => h.forget hfull ?_ ?_ ?_, by rintro _ ⟨⟩⟩
    all_goals rintro _ ⟨⟩
    · rfl
    · rfl
    · exact Finmap.lookup_empty ip
  | swept _ hfull => exact ⟨fun _ => h.sweep hfull, by rintro _ ⟨⟩⟩

end Tracks

/-- **Machines with a limiter.** When every guarded step does to the limiter in a slot of the state
one of the things that are tracked, the reports are regulated. -/
theorem regulates_of_touches {σ : Type u} {ε : Type v} {step : σ → ε → Option σ}
    {report : σ → ε → Option (Instant × Bool)} {guard : σ → ε → Prop} {clock : σ → Instant}
    {slot : σ → Option RateLimiter} {I : σ → Prop} {rate burst : UInt32} {ip : IpAddr}
    (hI : ∀ s e t, I s → guard s e → step s e = some t → I t)
    (hclock : ∀ s e t, step s e = some t → clock s ≤ clock t)
    (hinstant : ∀ s e t now ok, step s e = some t → report s e = some (now, ok) → now = clock t)
    (htouches : ∀ s e t, I s → guard s e → step s e = some t →
      Touches rate burst ip (clock t) (slot s) ((report s e).map Prod.snd) (slot t)) :
    Regulates step report guard clock (burst.toNat : ℚ) rate.toNat
      fun s v => I s ∧ Tracks rate burst ip (clock s) (slot s) v where
  zero_le_amount := fun _ _ h => h.2.zero_le_amount
  last_le := fun _ _ h => h.2.last_le
  clock_le := hclock
  instant := hinstant
  silent := fun s e t v h hguard hstep hreport => by
    have hlater := h.2.later (hclock s e t hstep)
    refine ⟨hI s e t h.1 hguard hstep, (hlater.touches (htouches s e t h.1 hguard hstep)).1 ?_⟩
    rw [hreport]
    rfl
  verdict := fun s e t v now ok h hguard hstep hreport => by
    have hlater := h.2.later (hclock s e t hstep)
    obtain rfl := hinstant s e t now ok hstep hreport
    obtain ⟨hserves, hnext⟩ :=
      (hlater.touches (htouches s e t h.1 hguard hstep)).2 ok (by rw [hreport]; rfl)
    exact ⟨hserves, hI s e t h.1 hguard hstep, hnext⟩

end RateLimiter

end Upstreamer
