import Upstreamer.System.Clock
import Upstreamer.System.LimiterGap

/-!
# Bursts and reloads

A reload builds the limiters of all routes anew, also those whose limit it does not change, and a
client finds a full bucket in a new limiter. When all configurations of a run give a route the same
limit, the requests that its limiter allows a client stay in the envelope of that limit as long as
the limiter is only replaced while the bucket of the client is full (`bursts_across_reloads`).
A reload at any other time hands out a second burst (`second_burst`).
-/

set_option autoImplicit false

namespace Upstreamer

open Foundations

/-- The configuration gives no other limit than this to routes with the key. -/
def ProxyConfig.GrantsOnly (config : ProxyConfig) (key : String) (limit : UInt32 × UInt32) : Prop :=
  ∀ other, config.Grants key other → other = limit

/-- The write throws away the buckets under the key. -/
def Write.Wipes (key : String) : Write → Prop
  | .clearRouteRatelimiters => True
  | .insertRouteRatelimiter other _ => other = key
  | _ => False

section GrantsOnly

variable {config : ProxyConfig} {key : String} {rate burst : UInt32} {limiter : RateLimiter}

theorem eq_new_of_mem_limiterEntries (h : config.GrantsOnly key (rate, burst))
    (hmem : (key, limiter) ∈ AppState.limiterEntries config) :
    limiter = RateLimiter.new rate burst := by
  have hlimit := h _ (grants_of_mem_limiterEntries hmem)
  obtain ⟨route, -, rl, -, -, rfl⟩ := mem_limiterEntries.1 hmem
  obtain ⟨rfl, rfl⟩ := Prod.mk.inj hlimit
  rfl

end GrantsOnly

namespace World

/-- The verdict on a request of the client, when the limiter under the key gives it. -/
def routeVerdict (key : String) (ip : IpAddr) (c : Clocked) (e : Instant × Event) :
    Option (Instant × Bool) :=
  verdictOn ip
    (fun app entry => decide (entry.key = key) && (app.routeRatelimiters.lookup key).isSome) c e

/-- The limiter under the key is replaced, and the bucket of the client dropped from it, only while
that bucket is full. -/
structure Spares (key : String) (ip : IpAddr) (c : Clocked) (e : Instant × Event) : Prop where
  wiped_full : ∀ write, c.world.nextWrite e.2 = some write → write.Wipes key →
    ∀ limiter ∈ c.world.app.routeRatelimiters.lookup key, limiter.FullFor ip e.1
  dropped_full : ∀ now, e.2 = .sweep now →
    ∀ limiter ∈ c.world.app.routeRatelimiters.lookup key, ∀ b, limiter.buckets.lookup ip = some b →
      b.isStale cleanupMaxIdle now = true → b.FullBy limiter.rate limiter.burst now

/-- All limiters that are still to be inserted under the key are new ones with the limit. -/
structure Supplies (key : String) (rate burst : UInt32) (w : World) : Prop where
  progress : w.Progress
  pending : ∀ limiter, .insertRouteRatelimiter key limiter ∈ w.reload.todo →
    limiter = RateLimiter.new rate burst

/-- A step that makes no such write and does not sweep. -/
theorem spares_of_quiet {key : String} {ip : IpAddr} {c : Clocked} {e : Instant × Event}
    (hwrite : ∀ write, c.world.nextWrite e.2 = some write → ¬ write.Wipes key)
    (hsweep : ∀ now, e.2 ≠ .sweep now) : Spares key ip c e where
  wiped_full := fun write h hwipes => absurd hwipes (hwrite write h)
  dropped_full := fun now he => absurd he (hsweep now)

section Steps

variable {env : Externals} {key : String} {rate burst : UInt32} {w w' : World} {e : Event}

theorem Supplies.step (hs : w.Supplies key rate burst)
    (hsame : ∀ config, e = .reloadStart config → config.GrantsOnly key (rate, burst))
    (h : World.step env w e = some w') : w'.Supplies key rate burst := by
  refine ⟨progress_step hs.progress h, ?_⟩
  cases moves_of_step h with
  | @reloadStart config _ _ =>
    intro limiter hmem
    exact eq_new_of_mem_limiterEntries (hsame config rfl) (insert_mem_reloadWrites_iff.1 hmem)
  | reloadStep hphase =>
    intro limiter hmem
    refine hs.pending limiter ?_
    rw [hphase]
    exact List.mem_cons_of_mem _ (by simpa using hmem)
  | _ => exact hs.pending

theorem Supplies.eq_new_of_nextWrite (hs : w.Supplies key rate burst) {limiter : RateLimiter}
    (hwrite : w.nextWrite e = some (.insertRouteRatelimiter key limiter)) :
    limiter = RateLimiter.new rate burst := by
  rcases mem_todo_of_nextWrite hwrite with hmem | hmem
  · exact hs.pending limiter hmem
  · exact (hs.progress.rebuild_kind _ hmem).elim

end Steps

/-- **Each step treats the limiter under the key in one of the tracked ways.** -/
theorem route_touches {env : Externals} {key : String} {ip : IpAddr} {rate burst : UInt32}
    {c c' : Clocked} {e : Instant × Event} (hs : c.world.Supplies key rate burst)
    (hguard : Spares key ip c e) (h : tick env c e = some c') :
    RateLimiter.Touches rate burst ip c'.clock (c.world.app.routeRatelimiters.lookup key)
      ((routeVerdict key ip c e).map Prod.snd) (c'.world.app.routeRatelimiters.lookup key) := by
  rw [(tick_eq_some h).2.2.2]
  cases limiterStep_of_tick h with
  | wrote write hwrite hasked happ =>
    have hfull := hguard.wiped_full write hwrite
    rw [routeVerdict, verdictOn_of_asked_none hasked, happ]
    cases write with
    | clearRouteRatelimiters => exact .cleared _ (hfull trivial)
    | insertRouteRatelimiter other limiter =>
      by_cases hother : other = key
      · subst hother
        obtain rfl := hs.eq_new_of_nextWrite hwrite
        rw [AppState.apply, Finmap.lookup_insert]
        exact .replaced _ (hfull rfl)
      · rw [AppState.apply, Finmap.lookup_insert_of_ne _ (Ne.symm hother)]
        exact .kept _
    | _ => exact .kept _
  | checked entry asker hasked happ =>
    rw [routeVerdict, verdictOn_of_asked hasked, happ]
    cases hroute : c.world.app.routeRatelimiters.lookup entry.key with
    | none =>
      -- not counted, and no limiter changes
      rw [AppState.routeRatelimiters_checkLimits_of_none hroute, if_neg]
      · exact .kept _
      · rintro ⟨-, hcounts⟩
        obtain ⟨hkey, hsome⟩ := Bool.and_eq_true_iff.1 hcounts
        rw [← of_decide_eq_true hkey, hroute] at hsome
        cases hsome
    | some limiter =>
      rw [AppState.checkLimits_of_route hroute]
      by_cases hkey : entry.key = key
      · subst hkey
        rw [hroute, Finmap.lookup_insert]
        by_cases hip : asker = ip
        · subst hip
          rw [if_pos ⟨rfl, by simp⟩]
          exact .called limiter
        · rw [if_neg fun h => hip h.1]
          exact .calledBy asker hip limiter
      · rw [Finmap.lookup_insert_of_ne _ (Ne.symm hkey), if_neg]
        · exact .kept _
        · rintro ⟨-, hcounts⟩
          exact hkey (of_decide_eq_true (Bool.and_eq_true_iff.1 hcounts).1)
  | swept he hasked happ =>
    rw [routeVerdict, verdictOn_of_asked_none hasked, happ, AppState.sweep, Dict.lookup_mapValues]
    exact .swept _ (hguard.dropped_full e.1 he)
  | kept hasked _ hroutes =>
    rw [routeVerdict, verdictOn_of_asked_none hasked, hroutes]
    exact .kept _

/-- Reloads only bring configurations that give no other limit to routes with the key. -/
def SameLimit (key : String) (limit : UInt32 × UInt32) (e : Instant × Event) : Prop :=
  ∀ config, e.2 = .reloadStart config → config.GrantsOnly key limit

/-- The verdicts of the limiter under the key on one client are those of a regulator. -/
theorem route_regulates (env : Externals) (key : String) (ip : IpAddr) (rate burst : UInt32) :
    Regulates (tick env) (routeVerdict key ip)
      (fun c e => SameLimit key (rate, burst) e ∧ Spares key ip c e) Clocked.clock
      (burst.toNat : ℚ) rate.toNat fun c v => c.world.Supplies key rate burst ∧
        RateLimiter.Tracks rate burst ip c.clock (c.world.app.routeRatelimiters.lookup key) v := by
  apply RateLimiter.regulates_of_touches
  · intro c e c' hs hguard h
    exact hs.step hguard.1 (tick_eq_some h).2.2.1
  · intro c e c' h
    exact clock_le_of_tick h
  · intro c e c' now ok h hreport
    exact instant_of_verdictOn h hreport
  · intro c e c' hs hguard h
    exact route_touches hs hguard.2 h

/-- **Where every configuration of a run gives a route the same limit and its limiter is replaced
only while the bucket of a client is full, the requests of the client that the limiter allows stay
in the envelope of the limit.** -/
theorem bursts_across_reloads (env : Externals) (config : ProxyConfig) (key : String)
    (rate burst : UInt32) (hconfig : config.GrantsOnly key (rate, burst)) (ip : IpAddr)
    (start : Instant) (events : List (Instant × Event))
    (hsame : ∀ e ∈ events, SameLimit key (rate, burst) e)
    (hspares : Along (tick env) (Spares key ip) ⟨init env config, start⟩ events)
    {s t : Instant} (hst : s ≤ t) :
    (positiveIn (reports (tick env) (routeVerdict key ip) ⟨init env config, start⟩ events)
      s t : ℚ) ≤ burst.toNat + rate.toNat * (t - s) := by
  have hstart : RateLimiter.Tracks rate burst ip start
      ((init env config).app.routeRatelimiters.lookup key) ⟨burst.toNat, start⟩ := by
    refine RateLimiter.tracks_fresh (fun limiter hlimiter => ?_) start
    exact eq_new_of_mem_limiterEntries hconfig (mem_limiterEntries_of_lookup hlimiter)
  have hsupplies : (init env config).Supplies key rate burst :=
    ⟨progress_init env config, by rintro _ ⟨⟩⟩
  rw [mul_comm]
  exact positive_le_envelope (route_regulates env key ip rate burst) (Nat.cast_nonneg _)
    (Nat.cast_nonneg _) ⟨hsupplies, hstart⟩ ((along_of_forall hsame).and hspares) hst

/-- A request for `/` at the instant zero, and later a reload of the same configuration and another
request. -/
def reloadedChecks (later : Instant) : List (Instant × Event) :=
  [((0 : Instant), Event.arrive "" "/" (.v4 0)), ((0 : Instant), Event.limit 0 0)] ++
    (reloadEvents limitedConfig).map (fun e => (later, e)) ++
    [(later, Event.arrive "" "/" (.v4 0)), (later, Event.limit 1 later)]

theorem grantsOnly_limitedConfig : limitedConfig.GrantsOnly "*:/" (1, 1) := by
  rintro _ ⟨route, hroute, rl, hrl, -, rfl⟩
  obtain rfl := List.mem_singleton.1 hroute
  cases hrl
  rfl

theorem sameLimit_reloadedChecks (later : Instant) :
    ∀ e ∈ reloadedChecks later, SameLimit "*:/" (1, 1) e := by
  rintro ⟨now, e⟩ he config rfl
  simp only [reloadedChecks, reloadEvents, List.map_cons, List.map_replicate, List.mem_append,
    List.mem_cons, List.mem_replicate, List.not_mem_nil, Prod.mk.injEq, reduceCtorEq, and_false,
    or_false, false_or, Event.reloadStart.injEq] at he
  obtain ⟨-, rfl⟩ := he
  exact grantsOnly_limitedConfig

/-- One second refills the bucket that a request has emptied. -/
theorem fullFor_after_one_second : ((RateLimiter.new 1 1).check (.v4 0) 0).2.FullFor (.v4 0) 1 := by
  intro b hb
  rw [RateLimiter.lookup_check_self] at hb
  obtain rfl := Option.some.inj hb
  show ((_ : Nat) : ℚ) ≤ _
  decide +kernel

theorem spares_reloadedChecks :
    Along (tick .none) (Spares "*:/" (.v4 0)) ⟨init .none limitedConfig, 0⟩ (reloadedChecks 1) := by
  refine ⟨spares_of_quiet (by rintro _ ⟨⟩) (by rintro _ ⟨⟩), ?_⟩
  rintro _ ⟨⟩
  refine ⟨spares_of_quiet (by rintro _ ⟨⟩) (by rintro _ ⟨⟩), ?_⟩
  rintro ⟨w, clock⟩ hc
  obtain ⟨-, -, hstep, hclock⟩ := tick_eq_some hc
  obtain rfl : clock = 0 := hclock
  -- whatever the verdict, the limiter is left with the bucket of the request
  have hw : ∃ inFlight, w = { init .none limitedConfig with
      app := { (init .none limitedConfig).app with
        routeRatelimiters := (init .none limitedConfig).app.routeRatelimiters.insert "*:/"
          ((RateLimiter.new 1 1).check (.v4 0) 0).2 }
      inFlight := inFlight } := by
    cases moves_of_step hstep with
    | limited hi _ =>
      cases hi
      exact ⟨_, rfl⟩
    | admitted hi _ =>
      cases hi
      exact ⟨_, rfl⟩
  obtain ⟨inFlight, rfl⟩ := hw
  refine ⟨spares_of_quiet (by rintro _ ⟨⟩) (by rintro _ ⟨⟩), ?_⟩
  rintro _ ⟨⟩
  refine ⟨spares_of_quiet (by rintro _ ⟨⟩; exact id) (by rintro _ ⟨⟩), ?_⟩
  rintro _ ⟨⟩
  -- the clearing comes when the bucket is full again
  refine ⟨⟨?_, by rintro _ ⟨⟩⟩, ?_⟩
  · intro _ _ _ limiter hlimiter
    obtain rfl := Option.some.inj ((Finmap.lookup_insert _).symm.trans hlimiter)
    exact fullFor_after_one_second
  rintro _ ⟨⟩
  -- the insertion finds the map empty, and the other five writes are not about limiters
  refine ⟨⟨by rintro _ ⟨⟩ _ _ ⟨⟩, by rintro _ ⟨⟩⟩, ?_⟩
  rintro _ ⟨⟩
  iterate 5
    refine ⟨spares_of_quiet (by rintro _ ⟨⟩; exact id) (by rintro _ ⟨⟩), ?_⟩
    rintro _ ⟨⟩
  refine ⟨spares_of_quiet (by rintro _ ⟨⟩) (by rintro _ ⟨⟩), ?_⟩
  rintro _ ⟨⟩
  exact ⟨spares_of_quiet (by rintro _ ⟨⟩) (by rintro _ ⟨⟩), fun _ _ => trivial⟩

/-- With a second between the requests the reload in between does no harm. -/
theorem bursts_across_reloads_one_second :
    reports (tick .none) (routeVerdict "*:/" (.v4 0)) ⟨init .none limitedConfig, 0⟩
        (reloadedChecks 1) = [(0, true), (1, true)] ∧
      (positiveIn (reports (tick .none) (routeVerdict "*:/" (.v4 0)) ⟨init .none limitedConfig, 0⟩
        (reloadedChecks 1)) 0 1 : ℚ) ≤ (1 : UInt32).toNat + (1 : UInt32).toNat * (1 - 0) :=
  ⟨by decide +kernel, bursts_across_reloads .none limitedConfig "*:/" 1 1 grantsOnly_limitedConfig
    (.v4 0) 0 (reloadedChecks 1) (sameLimit_reloadedChecks 1) spares_reloadedChecks zero_le_one⟩

/-- **A reload that changes nothing hands out a second burst.** -/
theorem second_burst :
    limitedConfig.validate .empty = .ok () ∧ limitedConfig.GrantsOnly "*:/" (1, 1) ∧
      (∀ e ∈ reloadedChecks 0, SameLimit "*:/" (1, 1) e) ∧
      (run (tick .none) ⟨init .none limitedConfig, 0⟩ (reloadedChecks 0)).isSome ∧
      ¬ (positiveIn (reports (tick .none) (routeVerdict "*:/" (.v4 0))
        ⟨init .none limitedConfig, 0⟩ (reloadedChecks 0)) 0 0 : ℚ) ≤
          (1 : UInt32).toNat + (1 : UInt32).toNat * (0 - 0) := by
  have hreports : positiveIn (reports (tick .none) (routeVerdict "*:/" (.v4 0))
      ⟨init .none limitedConfig, 0⟩ (reloadedChecks 0)) 0 0 = 2 := by decide +kernel
  refine ⟨by decide, grantsOnly_limitedConfig, sameLimit_reloadedChecks 0, by decide +kernel, ?_⟩
  rw [hreports]
  norm_num [show (1 : UInt32).toNat = 1 from rfl]

end World

end Upstreamer
