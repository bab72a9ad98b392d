import Upstreamer.Middleware.Eviction
import Mathlib.Data.List.Induction
import Mathlib.Data.Rat.Floor

/-!
# The buckets that a limiter holds

A limiter makes a bucket for each client that calls and only the sweeps of `main` take buckets away,
so the sweeps are what bounds its memory. With a sweep at each tick, the clients that have a bucket
are at least those that called in the last 300 seconds and at most those that called in the last 360
(`held_bounds`): how many other clients there have been before does not matter.

A bucket shows when its client called last, and no sweep since then has come more than 300 seconds
later (`lastUsed_of_lookup`).
-/

set_option autoImplicit false

namespace Upstreamer

open Foundations

/-- A call or a sweep. -/
def RateLimiter.handle (limiter : RateLimiter) : LimiterEvent → RateLimiter
  | .check ip now => (limiter.check ip now).2
  | .sweep now => limiter.cleanupStale cleanupMaxIdle now

/-- The limiter after the events of a run. -/
def RateLimiter.after (limiter : RateLimiter) (events : List LimiterEvent) : RateLimiter :=
  events.foldl RateLimiter.handle limiter

namespace LimiterEvent

/-- The client of a call at the instant `t` or later. -/
def callerSince (t : Instant) : LimiterEvent → Option IpAddr
  | check ip now => if t ≤ now then some ip else none
  | sweep _ => none

end LimiterEvent

/-- The clients that have called at the instant `t` or later. -/
def callersSince (t : Instant) (events : List LimiterEvent) : List IpAddr :=
  events.filterMap (LimiterEvent.callerSince t)

/-- At the instant `now` the events are past, and the ticks before it have been taken. -/
structure UpToDate (events : List LimiterEvent) (now : Instant) : Prop where
  past : ∀ e ∈ events, e.time ≤ now
  swept : ∀ k : Nat, cleanupPeriod * k < now → .sweep (cleanupPeriod * k) ∈ events

/-- The events come in the order of time. -/
def Ordered (events : List LimiterEvent) : Prop :=
  (events.map LimiterEvent.time).Pairwise (· ≤ ·)

theorem mem_callersSince {t : Instant} {events : List LimiterEvent} {ip : IpAddr} :
    ip ∈ callersSince t events ↔ ∃ u, t ≤ u ∧ .check ip u ∈ events := by
  rw [callersSince, List.mem_filterMap]
  constructor
  · rintro ⟨e, he, hcaller⟩
    cases e with
    | check other u =>
      obtain ⟨hu, heq⟩ := Option.ite_none_right_eq_some.1 hcaller
      exact ⟨u, hu, Option.some.inj heq ▸ he⟩
    | sweep u => exact nomatch hcaller
  · rintro ⟨u, hu, he⟩
    exact ⟨_, he, if_pos hu⟩

theorem ordered_concat {events : List LimiterEvent} {e : LimiterEvent} :
    Ordered (events ++ [e]) ↔ Ordered events ∧ ∀ e' ∈ events, e'.time ≤ e.time := by
  simp [Ordered, List.pairwise_append]

namespace RateLimiter

variable (rate burst : UInt32) {events : List LimiterEvent} {ip : IpAddr} {b : TokenBucket}

theorem after_concat (limiter : RateLimiter) (events : List LimiterEvent) (e : LimiterEvent) :
    limiter.after (events ++ [e]) = (limiter.after events).handle e := by
  rw [after, List.foldl_append]
  rfl

@[simp]
theorem lastUsed_tryConsume (b : TokenBucket) (now : Instant) :
    (b.tryConsume now).2.lastUsed = now := by
  simp only [TokenBucket.tryConsume]
  split <;> rfl

/-- A call leaves a bucket that was used now. -/
theorem lookup_handle_check (limiter : RateLimiter) (ip : IpAddr) (now : Instant) :
    ∃ b, (limiter.handle (.check ip now)).buckets.lookup ip = some b ∧ b.lastUsed = now :=
  ⟨_, lookup_check_self limiter ip now, lastUsed_tryConsume _ now⟩

/-- A sweep leaves the buckets that are not stale. -/
theorem lookup_handle_sweep {limiter : RateLimiter} {now : Instant} :
    (limiter.handle (.sweep now)).buckets.lookup ip = some b ↔
      limiter.buckets.lookup ip = some b ∧ now - b.lastUsed ≤ cleanupMaxIdle := by
  have hidle : (0 : ℚ) ≤ cleanupMaxIdle := by
    rw [cleanupMaxIdle]
    norm_num
  rw [handle, lookup_cleanupStale, Option.filter_eq_some_iff]
  refine and_congr_right fun _ => ?_
  simp [TokenBucket.isStale, durationSince, hidle]

/-- **What a bucket shows**: the last call of its client, which no sweep has found stale. -/
theorem lastUsed_of_lookup (hordered : Ordered events)
    (hb : ((new rate burst).after events).buckets.lookup ip = some b) :
    .check ip b.lastUsed ∈ events ∧
      ∀ t, .sweep t ∈ events → b.lastUsed < t → t - b.lastUsed ≤ cleanupMaxIdle := by
  induction events using List.reverseRecOn generalizing b with
  | nil => exact nomatch hb
  | append_singleton events e ih =>
    rw [ordered_concat] at hordered
    obtain ⟨hordered, hlast⟩ := hordered
    rw [after_concat] at hb
    cases e with
    | check other now =>
      by_cases hother : other = ip
      · subst hother
        obtain ⟨b', hb', hused⟩ := lookup_handle_check ((new rate burst).after events) other now
        obtain rfl : b' = b := Option.some.inj (hb'.symm.trans hb)
        rw [hused]
        refine ⟨List.mem_append_right _ List.mem_cons_self, fun t ht hlt => ?_⟩
        rcases List.mem_append.1 ht with ht | ht
        · exact absurd (hlast _ ht) (not_le.2 hlt)
        · exact nomatch List.mem_singleton.1 ht
      · rw [handle, lookup_check_ne _ (Ne.symm hother)] at hb
        obtain ⟨hmem, hswept⟩ := ih hordered hb
        refine ⟨List.mem_append_left _ hmem, fun t ht hlt => ?_⟩
        rcases List.mem_append.1 ht with ht | ht
        · exact hswept t ht hlt
        · exact nomatch List.mem_singleton.1 ht
    | sweep now =>
      obtain ⟨hb, hkept⟩ := lookup_handle_sweep.1 hb
      obtain ⟨hmem, hswept⟩ := ih hordered hb
      refine ⟨List.mem_append_left _ hmem, fun t ht hlt => ?_⟩
      rcases List.mem_append.1 ht with ht | ht
      · exact hswept t ht hlt
      · cases List.mem_singleton.1 ht
        exact hkept

/-- A client that has called not long ago has a bucket. -/
theorem lookup_of_check {now u : Instant} (hordered : Ordered events)
    (hpast : ∀ e ∈ events, e.time ≤ now) (hcall : .check ip u ∈ events)
    (hrecent : now - u ≤ cleanupMaxIdle) :
    ∃ b, ((new rate burst).after events).buckets.lookup ip = some b ∧ u ≤ b.lastUsed := by
  induction events using List.reverseRecOn with
  | nil => exact absurd hcall List.not_mem_nil
  | append_singleton events e ih =>
    rw [ordered_concat] at hordered
    obtain ⟨hordered, hlast⟩ := hordered
    have hbefore := ih hordered fun e' he' => hpast e' (List.mem_append_left _ he')
    rw [after_concat]
    cases e with
    | check other t =>
      by_cases hother : other = ip
      · subst hother
        obtain ⟨b, hb, hused⟩ := lookup_handle_check ((new rate burst).after events) other t
        refine ⟨b, hb, hused ▸ ?_⟩
        rcases List.mem_append.1 hcall with hcall | hcall
        · exact hlast _ hcall
        · cases List.mem_singleton.1 hcall
          exact le_rfl
      · have hearlier : .check ip u ∈ events := by
          rcases List.mem_append.1 hcall with hcall | hcall
          · exact hcall
          · cases List.mem_singleton.1 hcall
            exact absurd rfl hother
        rw [handle, lookup_check_ne _ (Ne.symm hother)]
        exact hbefore hearlier
    | sweep t =>
      have hearlier : .check ip u ∈ events := by
        rcases List.mem_append.1 hcall with hcall | hcall
        · exact hcall
        · exact nomatch List.mem_singleton.1 hcall
      obtain ⟨b, hb, hused⟩ := hbefore hearlier
      have ht : t ≤ now := hpast _ (List.mem_append_right _ List.mem_cons_self)
      exact ⟨b, lookup_handle_sweep.2 ⟨hb, by linarith⟩, hused⟩

/-- There is a tick in every minute. -/
theorem exists_tick {now : Instant} (hnow : 0 < now) :
    ∃ k : Nat, cleanupPeriod * k < now ∧ now ≤ cleanupPeriod * k + cleanupPeriod := by
  have hceil : 0 < ⌈now / 60⌉₊ := Nat.ceil_pos.2 (by positivity)
  have hlt := Nat.ceil_lt_add_one (show 0 ≤ now / 60 by positivity)
  have hle := Nat.le_ceil (now / 60)
  have hcast : ((⌈now / 60⌉₊ - 1 : Nat) : ℚ) = (⌈now / 60⌉₊ : ℚ) - 1 := by
    rw [Nat.cast_sub hceil, Nat.cast_one]
  refine ⟨⌈now / 60⌉₊ - 1, ?_, ?_⟩
  · rw [cleanupPeriod, hcast]
    linarith
  · rw [cleanupPeriod, hcast]
    linarith

/-- **The buckets are those of the clients of the last minutes**, so there are no more of them than
calls in the last 360 seconds. -/
theorem held_bounds {now : Instant} (hnow : 0 < now) (hschedule : MainSchedule events)
    (hdue : UpToDate events now) :
    (∀ ip ∈ callersSince (now - 300) events, ip ∈ ((new rate burst).after events).buckets) ∧
    (∀ ip ∈ ((new rate burst).after events).buckets, ip ∈ callersSince (now - 360) events) ∧
    ((new rate burst).after events).buckets.keys.card ≤
      (callersSince (now - 360) events).length := by
  have hupper : ∀ ip ∈ ((new rate burst).after events).buckets,
      ip ∈ callersSince (now - 360) events := by
    intro ip hip
    obtain ⟨b, hb⟩ := Finmap.mem_iff.1 hip
    obtain ⟨hcall, hswept⟩ := lastUsed_of_lookup rate burst hschedule.ordered hb
    refine mem_callersSince.2 ⟨b.lastUsed, ?_, hcall⟩
    -- the last tick would have found the bucket stale
    by_contra hlate
    obtain ⟨k, hk, hnext⟩ := exists_tick hnow
    have hstale := hswept _ (hdue.swept k hk)
    rw [cleanupPeriod, cleanupMaxIdle] at *
    have := hstale (by linarith)
    linarith
  refine ⟨fun ip hip => ?_, hupper, ?_⟩
  · obtain ⟨u, hu, hcall⟩ := mem_callersSince.1 hip
    obtain ⟨b, hb, -⟩ := lookup_of_check rate burst hschedule.ordered hdue.past
      hcall (by rw [cleanupMaxIdle]; linarith)
    exact Finmap.mem_iff.2 ⟨b, hb⟩
  · have hsub : ((new rate burst).after events).buckets.keys ⊆
        (callersSince (now - 360) events).toFinset := by
      intro ip hip
      exact List.mem_toFinset.2 (hupper ip (Finmap.mem_keys.1 hip))
    exact (Finset.card_le_card hsub).trans (List.toFinset_card_le _)

/-- Two clients in the first two minutes. -/
def twoClients : List LimiterEvent :=
  [.sweep 0, .check (.v4 0) 10, .sweep 60, .check (.v4 1) 100]

theorem upToDate_twoClients : UpToDate twoClients 110 := by
  refine ⟨by decide +kernel, fun k hk => ?_⟩
  have hlt : k < 2 := by
    by_contra hge
    have hcast : (2 : ℚ) ≤ k := by exact_mod_cast not_lt.1 hge
    rw [cleanupPeriod] at hk
    linarith
  match k, hlt with
  | 0, _ => decide +kernel
  | 1, _ => decide +kernel

theorem held_bounds_two_clients :
    (∀ ip ∈ callersSince (110 - 300) twoClients, ip ∈ ((new 1 5).after twoClients).buckets) ∧
    (∀ ip ∈ ((new 1 5).after twoClients).buckets, ip ∈ callersSince (110 - 360) twoClients) ∧
    ((new 1 5).after twoClients).buckets.keys.card ≤
      (callersSince (110 - 360) twoClients).length :=
  held_bounds 1 5 (by norm_num) ⟨by decide +kernel, 2, by decide +kernel⟩ upToDate_twoClients

end RateLimiter

end Upstreamer
