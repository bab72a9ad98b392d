import Upstreamer.Config.Reload

/-!
# The limiters of the routes

Validation compares the pairs of optional patterns of the routes, but limiters are stored under a
text that writes `*` for an absent pattern and joins the two with a colon. Two routes that pass
validation can therefore share a key, and then a limiter. `ownLimiters_iff` says for which
configurations this does not happen, after a start and after every reload.
-/

set_option autoImplicit false

namespace Upstreamer

open Foundations

/-- The limiter that a request on the route consults before the global one. -/
def AppState.routeLimiter (app : AppState) (entry : RouteEntry) : Option RateLimiter :=
  app.routeRatelimiters.lookup entry.key

/-- Each route of the configuration has its own limiter: the one built from its rate limit, or none,
under a key that no other route has. -/
structure OwnLimiters (config : ProxyConfig) (app : AppState) : Prop where
  built_from_own : List.Forall₂
    (fun route entry => app.routeLimiter entry =
      route.ratelimit.map fun rl => RateLimiter.new rl.rate rl.burst)
    config.routes app.router.routes
  not_shared : app.router.routes.Pairwise fun entry other =>
    (app.routeLimiter entry).isSome → (app.routeLimiter other).isSome → entry.key ≠ other.key
  keys_nodup : (app.router.routes.map RouteEntry.key).Nodup

/-- The host pattern of a route, `*` when it has none. -/
def RouteConfig.hostText (route : RouteConfig) : String := route.matchHost.getD "*"

/-- The path pattern of a route, `*` when it has none. -/
def RouteConfig.pathText (route : RouteConfig) : String := route.matchPath.getD "*"

/-- The host of `route` reaches into the path of `other`: it is the host of `other` continued by a
colon and a text with which the path of `other` begins, before a colon and the path of `route`. -/
def RouteConfig.Overlaps (route other : RouteConfig) : Prop :=
  ∃ middle, route.hostText = other.hostText ++ ":" ++ middle ∧
    other.pathText = middle ++ ":" ++ route.pathText

/-- Two routes whose patterns differ neither by more than a `*` written out nor by the place of a
colon. -/
def RouteConfig.Confused (route other : RouteConfig) : Prop :=
  (route.hostText = other.hostText ∧ route.pathText = other.pathText) ∨
    other.Overlaps route ∨ route.Overlaps other

theorem routeKey_eq_iff (route other : RouteConfig) :
    routeKey route.matchHost route.matchPath = routeKey other.matchHost other.matchPath ↔
      route.Confused other :=
  joined_eq_iff ':' _ _ _ _

/-! ## Looking a limiter up -/

section Lookup

variable {config : ProxyConfig}

/-- The key of a route, as the limiters are stored. -/
def RouteConfig.limiterKey (route : RouteConfig) : String :=
  AppState.routeKey route.matchHost route.matchPath

theorem mem_limiterEntries {key : String} {limiter : RateLimiter} :
    (key, limiter) ∈ AppState.limiterEntries config ↔
      ∃ route ∈ config.routes, ∃ rl, route.ratelimit = some rl ∧ route.limiterKey = key ∧
        RateLimiter.new rl.rate rl.burst = limiter := by
  simp only [AppState.limiterEntries, List.mem_filterMap, Option.map_eq_some_iff, Prod.mk.injEq,
    RouteConfig.limiterKey]

/-- When keys are distinct, the key of a route leads to its own limiter. -/
theorem lookup_limiterKey (hnodup : (config.routes.map RouteConfig.limiterKey).Nodup)
    {route : RouteConfig} (hroute : route ∈ config.routes) :
    (Dict.insertAll (AppState.limiterEntries config) ∅).lookup route.limiterKey =
      route.ratelimit.map fun rl => RateLimiter.new rl.rate rl.burst := by
  have hown : ∀ limiter, (route.limiterKey, limiter) ∈ AppState.limiterEntries config →
      route.ratelimit.map (fun rl => RateLimiter.new rl.rate rl.burst) = some limiter := by
    intro limiter hmem
    obtain ⟨other, hother, rl, hrl, hkey, hlimiter⟩ := mem_limiterEntries.1 hmem
    obtain rfl : other = route := List.inj_on_of_nodup_map hnodup hother hroute hkey
    rw [hrl, Option.map_some, hlimiter]
  -- either the key is stored, with the limiter of a route that must be this one, or the route has
  -- no rate limit
  by_cases hkey : route.limiterKey ∈ (AppState.limiterEntries config).map Prod.fst
  · obtain ⟨limiter, hmem, hlookup⟩ := Dict.lookup_insertAll_of_mem hkey
    rw [hlookup, hown limiter hmem]
  · rw [Dict.lookup_insertAll_of_notMem hkey, Finmap.lookup_empty]
    cases hrl : route.ratelimit with
    | none => rfl
    | some rl =>
      have hmem : (route.limiterKey, RateLimiter.new rl.rate rl.burst) ∈
          AppState.limiterEntries config :=
        mem_limiterEntries.2 ⟨route, hroute, rl, hrl, rfl, rfl⟩
      exact absurd (List.mem_map_of_mem hmem) hkey

theorem limiterKey_nodup_iff :
    (config.routes.map RouteConfig.limiterKey).Nodup ↔
      config.routes.Pairwise fun route other => ¬ route.Confused other := by
  rw [List.Nodup, List.pairwise_map]
  exact List.Pairwise.iff (S := fun route other => ¬ route.Confused other)
    fun route other => not_congr (routeKey_eq_iff route other)

/-- A state whose router and limiters were built from the configuration gives each route its own
limiter exactly when the keys are distinct. -/
theorem ownLimiters_iff_nodup {app : AppState} (hrouter : app.router = Router.fromConfig config)
    (hlimiters : app.routeRatelimiters = Dict.insertAll (AppState.limiterEntries config) ∅) :
    OwnLimiters config app ↔ (config.routes.map RouteConfig.limiterKey).Nodup := by
  have hkeys : app.router.routes.map RouteEntry.key = config.routes.map RouteConfig.limiterKey := by
    rw [hrouter, Router.fromConfig, List.map_map]
    rfl
  constructor
  · intro h
    rw [← hkeys]
    exact h.keys_nodup
  · intro hnodup
    refine ⟨?_, ?_, hkeys ▸ hnodup⟩
    · rw [hrouter, Router.fromConfig, List.forall₂_map_right_iff, List.forall₂_same]
      intro route hroute
      rw [AppState.routeLimiter, hlimiters]
      exact lookup_limiterKey hnodup hroute
    · rw [← hkeys, List.Nodup, List.pairwise_map] at hnodup
      exact hnodup.imp fun hne _ _ => hne

end Lookup

/-- **Every route has its own limiter, after a start and after every completed reload, exactly when
no two routes of the configuration have confusable patterns.** -/
theorem ownLimiters_iff (fs : FileSystem) (config : ProxyConfig) :
    (OwnLimiters config (AppState.new fs config) ∧
        ∀ app : AppState, OwnLimiters config (app.reload config)) ↔
      config.routes.Pairwise fun route other => ¬ route.Confused other := by
  have hnew : OwnLimiters config (AppState.new fs config) ↔
      (config.routes.map RouteConfig.limiterKey).Nodup := ownLimiters_iff_nodup rfl rfl
  have hreload : ∀ app : AppState, OwnLimiters config (app.reload config) ↔
      (config.routes.map RouteConfig.limiterKey).Nodup := fun app => by
    rw [AppState.reload_eq]
    exact ownLimiters_iff_nodup rfl rfl
  rw [← limiterKey_nodup_iff]
  constructor
  · intro h
    exact hnew.1 h.1
  · intro h
    exact ⟨hnew.2 h, fun app => (hreload app).2 h⟩

/-- A route without a host pattern and one for every host, with different rate limits. -/
def wildcardConfig : ProxyConfig :=
  .ofRoutes
    [{ RouteConfig.minimal [Url.backend] with ratelimit := some ⟨1, 1⟩ },
      { RouteConfig.minimal [Url.backend] with
        matchHost := some "*"
        ratelimit := some ⟨1000, 1000⟩ }]

/-- **Both routes pass validation and share the limiter of the second one.** -/
theorem routeLimiter_wildcard_shared :
    wildcardConfig.validate .empty = .ok () ∧
      (AppState.new .empty wildcardConfig).router.routes.map
          (fun entry => ((AppState.new .empty wildcardConfig).routeLimiter entry).map
            fun limiter => (limiter.rate, limiter.burst)) =
        [some (1000, 1000), some (1000, 1000)] ∧
      ¬ OwnLimiters wildcardConfig (AppState.new .empty wildcardConfig) ∧
      ¬ OwnLimiters wildcardConfig
        ((AppState.new .empty wildcardConfig).reload wildcardConfig) := by
  refine ⟨by decide, by decide, fun h => ?_, fun h => ?_⟩
  · exact absurd h.keys_nodup (by decide)
  · exact absurd h.keys_nodup (by decide)

end Upstreamer
