import Upstreamer.Foundations.Past
import Upstreamer.System.Clock

/-!
# The global limit

The global limiter counts a request only when no limiter is stored under the key of its route. The
requests that it decides on stay in its envelope (`global_share_bounded`), and so all requests of a
client that get past the limits do when it decides on each of them (`globally_bounded`). A request
whose route has a limiter is not counted at all (`not_globally_bounded`).
-/

set_option autoImplicit false

namespace Upstreamer

open Foundations

namespace World

/-- The verdict on any request of the client. -/
def anyVerdict (ip : IpAddr) (c : Clocked) (e : Instant × Event) : Option (Instant × Bool) :=
  verdictOn ip (fun _ _ => true) c e

/-- The verdict on a request of the client that the global limiter decides on. -/
def globalVerdict (ip : IpAddr) (c : Clocked) (e : Instant × Event) : Option (Instant × Bool) :=
  verdictOn ip (fun app entry => (app.routeRatelimiters.lookup entry.key).isNone) c e

/-- No limiter is stored under the key of the route when a request of the client is checked. -/
def GlobalDecides (ip : IpAddr) (c : Clocked) (e : Instant × Event) : Prop :=
  ∀ entry, c.world.asked e.2 = some (entry, ip) →
    c.world.app.routeRatelimiters.lookup entry.key = none

instance (ip : IpAddr) (c : Clocked) (e : Instant × Event) : Decidable (GlobalDecides ip c e) :=
  decidable_of_iff (∀ r ∈ c.world.asked e.2, r.2 = ip →
    c.world.app.routeRatelimiters.lookup r.1.key = none)
    ⟨fun h entry hasked => h (entry, ip) hasked rfl, fun h r hasked hip => h r.1 (hip ▸ hasked)⟩

/-- A sweep drops the bucket of the client from the global limiter only when it is full. -/
def SweepsFull (ip : IpAddr) (c : Clocked) (e : Instant × Event) : Prop :=
  ∀ now, e.2 = .sweep now → ∀ limiter ∈ c.world.app.ratelimiter, ∀ b,
    limiter.buckets.lookup ip = some b → b.isStale cleanupMaxIdle now = true →
      b.FullBy limiter.rate limiter.burst now

/-- Where the global limiter decides on each request of the client, its verdicts are all there
are. -/
theorem anyVerdict_eq_globalVerdict {ip : IpAddr} {c : Clocked} {e : Instant × Event}
    (h : GlobalDecides ip c e) : anyVerdict ip c e = globalVerdict ip c e := by
  cases hasked : c.world.asked e.2 with
  | none => rw [anyVerdict, globalVerdict, verdictOn_of_asked_none hasked,
      verdictOn_of_asked_none hasked]
  | some r =>
    obtain ⟨entry, asker⟩ := r
    rw [anyVerdict, globalVerdict, verdictOn_of_asked hasked, verdictOn_of_asked hasked]
    by_cases hip : asker = ip
    · subst hip
      rw [h entry hasked, Option.isNone_none]
    · rw [if_neg fun h => hip h.1, if_neg fun h => hip h.1]

theorem ratelimiter_apply (app : AppState) (write : Write) :
    (app.apply write).ratelimiter = app.ratelimiter := by
  cases write <;> rfl

section Steps

variable {env : Externals} {ip : IpAddr} {c c' : Clocked} {e : Instant × Event}

/-- No step removes the global limiter. -/
theorem isSome_ratelimiter_tick (hs : c.world.app.ratelimiter.isSome)
    (h : tick env c e = some c') : c'.world.app.ratelimiter.isSome := by
  cases limiterStep_of_tick h with
  | wrote write _ _ happ => rwa [happ, ratelimiter_apply]
  | checked entry asker _ happ =>
    rw [happ]
    cases hroute : c.world.app.routeRatelimiters.lookup entry.key with
    | some limiter => rwa [AppState.checkLimits_of_route hroute]
    | none =>
      obtain ⟨limiter, hglobal⟩ := Option.isSome_iff_exists.1 hs
      rw [AppState.checkLimits_of_global hroute hglobal]
      rfl
  | swept _ _ happ =>
    rw [happ, AppState.sweep, Option.isSome_map]
    exact hs
  | kept _ hglobal _ => rwa [hglobal]

/-- **Each step treats the global limiter in one of the tracked ways.** -/
theorem global_touches (hs : c.world.app.ratelimiter.isSome) (hguard : SweepsFull ip c e)
    (h : tick env c e = some c') (rate burst : UInt32) :
    RateLimiter.Touches rate burst ip c'.clock c.world.app.ratelimiter
      ((globalVerdict ip c e).map Prod.snd) c'.world.app.ratelimiter := by
  obtain ⟨limiter, hglobal⟩ := Option.isSome_iff_exists.1 hs
  rw [(tick_eq_some h).2.2.2]
  cases limiterStep_of_tick h with
  | wrote write _ hasked happ =>
    rw [globalVerdict, verdictOn_of_asked_none hasked, happ, ratelimiter_apply]
    exact .kept _
  | checked entry asker hasked happ =>
    rw [globalVerdict, verdictOn_of_asked hasked, happ]
    cases hroute : c.world.app.routeRatelimiters.lookup entry.key with
    | some routeLimiter =>
      -- the limiter of the route decides, and the global one is not asked
      rw [AppState.checkLimits_of_route hroute, if_neg fun h => Bool.false_ne_true h.2]
      exact .kept _
    | none =>
      rw [AppState.checkLimits_of_global hroute hglobal, hglobal]
      by_cases hip : asker = ip
      · subst hip
        rw [if_pos ⟨rfl, rfl⟩]
        exact .called limiter
      · rw [if_neg fun h => hip h.1]
        exact .calledBy asker hip limiter
  | swept he hasked happ =>
    rw [globalVerdict, verdictOn_of_asked_none hasked, happ]
    exact .swept _ (hguard e.1 he)
  | kept hasked hkept _ =>
    rw [globalVerdict, verdictOn_of_asked_none hasked, hkept]
    exact .kept _

end Steps

/-- The verdicts of the global limiter on one client are those of a regulator. -/
theorem global_regulates (env : Externals) (ip : IpAddr) (rate burst : UInt32) :
    Regulates (tick env) (globalVerdict ip) (SweepsFull ip) Clocked.clock (burst.toNat : ℚ)
      rate.toNat fun c v => c.world.app.ratelimiter.isSome ∧
        RateLimiter.Tracks rate burst ip c.clock c.world.app.ratelimiter v := by
  apply RateLimiter.regulates_of_touches
  · intro c e c' hs _ h
    exact isSome_ratelimiter_tick hs h
  · intro c e c' h
    exact clock_le_of_tick h
  · intro c e c' now ok h hreport
    exact instant_of_verdictOn h hreport
  · intro c e c' hs hguard h
    exact global_touches hs hguard h rate burst

section Bounds

variable {env : Externals} {config : ProxyConfig} (rl : RateLimitConfig) {ip : IpAddr}
  {start : Instant} {events : List (Instant × Event)} {s t : Instant}

/-- **The requests that the global limiter decides on stay in its envelope**, whatever the routes of
the other requests. -/
theorem global_share_bounded (hconfig : config.ratelimit = some rl)
    (hswept : Along (tick env) (SweepsFull ip) ⟨init env config, start⟩ events) (hst : s ≤ t) :
    (positiveIn (reports (tick env) (globalVerdict ip) ⟨init env config, start⟩ events) s t : ℚ) ≤
      rl.burst.toNat + rl.rate.toNat * (t - s) := by
  have hglobal : (init env config).app.ratelimiter = some (RateLimiter.new rl.rate rl.burst) := by
    show config.ratelimit.map (fun rl => RateLimiter.new rl.rate rl.burst) = _
    rw [hconfig, Option.map_some]
  have hstart : RateLimiter.Tracks rl.rate rl.burst ip start (init env config).app.ratelimiter
      ⟨rl.burst.toNat, start⟩ := by
    refine RateLimiter.tracks_fresh (fun limiter hlimiter => ?_) start
    exact Option.some.inj (hlimiter.symm.trans hglobal)
  have hsome : (init env config).app.ratelimiter.isSome := by
    rw [hglobal]
    rfl
  rw [mul_comm]
  exact positive_le_envelope (global_regulates env ip rl.rate rl.burst) (Nat.cast_nonneg _)
    (Nat.cast_nonneg _) ⟨hsome, hstart⟩ hswept hst

/-- **Where the global limiter decides on every request of a client, the requests of the client that
get past the limits stay in its envelope.** Tokens are exact rationals here, and not `f64`
values. -/
theorem globally_bounded (hconfig : config.ratelimit = some rl)
    (hdecides : Along (tick env) (GlobalDecides ip) ⟨init env config, start⟩ events)
    (hswept : Along (tick env) (SweepsFull ip) ⟨init env config, start⟩ events) (hst : s ≤ t) :
    (positiveIn (reports (tick env) (anyVerdict ip) ⟨init env config, start⟩ events) s t : ℚ) ≤
      rl.burst.toNat + rl.rate.toNat * (t - s) := by
  rw [reports_congr (hdecides.imp fun _ _ => anyVerdict_eq_globalVerdict)]
  exact global_share_bounded rl hconfig hswept hst

end Bounds

/-- A global limit of one request per second. -/
def globalConfig : ProxyConfig :=
  { ProxyConfig.ofRoutes [RouteConfig.minimal [Url.backend]] with ratelimit := some ⟨1, 1⟩ }

/-- The same limit over two routes. -/
def twoRoutesConfig : ProxyConfig :=
  { globalConfig with
    routes := [{ RouteConfig.minimal [Url.backend] with matchPath := some "/api" },
      RouteConfig.minimal [Url.backend]] }

/-- Requests of one client to both routes, two of them at once and one a second later. -/
def bothRoutes : List (Instant × Event) :=
  [((0 : Instant), Event.arrive "" "/api" (.v4 0)), ((0 : Instant), Event.arrive "" "/" (.v4 0)),
    ((0 : Instant), Event.limit 0 0), ((0 : Instant), Event.limit 1 0),
    ((1 : Instant), Event.arrive "" "/" (.v4 0)), ((1 : Instant), Event.limit 1 1)]

theorem globally_bounded_bothRoutes :
    reports (tick .none) (anyVerdict (.v4 0)) ⟨init .none twoRoutesConfig, 0⟩ bothRoutes =
      [(0, true), (0, false), (1, true)] ∧
    (positiveIn (reports (tick .none) (anyVerdict (.v4 0)) ⟨init .none twoRoutesConfig, 0⟩
      bothRoutes) 0 1 : ℚ) ≤ (1 : UInt32).toNat + (1 : UInt32).toNat * (1 - 0) := by
  refine ⟨by decide +kernel, globally_bounded ⟨1, 1⟩ rfl (by decide +kernel) ?_ zero_le_one⟩
  have hnone : ∀ e ∈ bothRoutes, ∀ now, e.2 ≠ .sweep now := by simp [bothRoutes]
  exact (along_of_forall hnone).imp fun _ _ hne now hsweep => absurd hsweep (hne now)

/-- The route has a limit of its own, above the global one. -/
def exemptConfig : ProxyConfig :=
  { globalConfig with
    routes := [{ RouteConfig.minimal [Url.backend] with ratelimit := some ⟨2, 2⟩ }] }

/-- Two requests for `/` that arrive and are put to the limiters, all at the instant zero. -/
def twoChecks : List (Instant × Event) :=
  [((0 : Instant), Event.arrive "" "/" (.v4 0)), ((0 : Instant), Event.arrive "" "/" (.v4 0)),
    ((0 : Instant), Event.limit 0 0), ((0 : Instant), Event.limit 1 0)]

/-- **Two requests of one client pass at one instant on a route with a limit of its own**, where the
global limit is one. -/
theorem not_globally_bounded :
    exemptConfig.validate .empty = .ok () ∧ exemptConfig.ratelimit = some ⟨1, 1⟩ ∧
      (run (tick .none) ⟨init .none exemptConfig, 0⟩ twoChecks).isSome ∧
      ¬ (positiveIn (reports (tick .none) (anyVerdict (.v4 0)) ⟨init .none exemptConfig, 0⟩
        twoChecks) 0 0 : ℚ) ≤ (1 : UInt32).toNat + (1 : UInt32).toNat * (0 - 0) := by
  have hreports : positiveIn (reports (tick .none) (anyVerdict (.v4 0))
      ⟨init .none exemptConfig, 0⟩ twoChecks) 0 0 = 2 := by decide +kernel
  refine ⟨by decide, rfl, by decide +kernel, ?_⟩
  rw [hreports]
  norm_num [show (1 : UInt32).toNat = 1 from rfl]

end World

end Upstreamer
