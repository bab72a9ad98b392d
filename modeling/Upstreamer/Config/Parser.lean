import Upstreamer.Config.Url

/-!
# Configuration and its validation

The configuration record of the proxy and `ProxyConfig.validate`, with the errors it reports in the
order in which it looks for them. Socket addresses, the observation window and the poll interval
are read by no modelled function and are left out. A duration is a number of nanoseconds.

`validate_eq_ok_iff` says what is accepted: no two routes have the same pair of host and path
pattern, every route has a pool and every pool an origin, origins are `http` URLs, rate limits have
positive rate and burst, and the directory of error pages exists.
-/

set_option autoImplicit false

namespace Upstreamer

open Foundations

/-- A duration in nanoseconds. -/
abbrev Duration := Nat

/-- `Duration::from_secs`. -/
def Duration.fromSecs (secs : UInt64) : Duration := secs.toNat * 1000000000

/-- What the proxy reads from the file system. -/
structure FileSystem where
  pathExists : String → Bool
  read : String → Option (List UInt8)

/-- A file system without files. -/
def FileSystem.empty : FileSystem := ⟨fun _ => false, fun _ => none⟩

inductive ConfigError where
  | routeHasNoPools (route : String)
  | poolHasNoOrigins (route pool : String)
  | invalidOriginUrl (route pool origin reason : String)
  | httpsNotSupported (route pool origin : String)
  | invalidRateLimit
  | duplicateRouteMatch (host path : Option String)
  | errorPagesDirectoryNotFound (path : String)
  deriving DecidableEq

/-- The text of an error. -/
def ConfigError.message : ConfigError → String
  | .routeHasNoPools route => "route '" ++ route ++ "' has no pools configured"
  | .poolHasNoOrigins route pool => "route '" ++ route ++ "' pool '" ++ pool ++ "' has no origins"
  | .invalidOriginUrl route pool origin reason =>
      "route '" ++ route ++ "' pool '" ++ pool ++ "' origin '" ++ origin ++
        "' has invalid URL: " ++ reason
  | .httpsNotSupported route pool origin =>
      "route '" ++ route ++ "' pool '" ++ pool ++ "' origin '" ++ origin ++
        "' uses HTTPS scheme (not supported in v1)"
  | .invalidRateLimit => "rate limit must have rate > 0 and burst > 0"
  | .duplicateRouteMatch host path =>
      "duplicate route match: host '" ++ host.getD "*" ++ "' path '" ++ path.getD "*" ++ "'"
  | .errorPagesDirectoryNotFound path => "error pages directory '" ++ path ++ "' does not exist"

inductive LbAlgorithm where
  | roundRobin
  | weightedLatency
  | weightedMetrics
  deriving DecidableEq

structure OriginConfig where
  url : Url
  weight : Option UInt32
  healthCheckPath : Option String
  deriving DecidableEq

structure PoolRef where
  name : String
  origins : List OriginConfig
  deriving DecidableEq

structure RateLimitConfig where
  rate : UInt32
  burst : UInt32
  deriving DecidableEq

structure RouteConfig where
  matchHost : Option String
  matchPath : Option String
  pools : List PoolRef
  lbAlgorithm : LbAlgorithm
  ratelimit : Option RateLimitConfig
  deriving DecidableEq

structure ActiveHealthConfig where
  enabled : Bool
  interval : Duration
  timeout : Duration
  healthyThreshold : UInt32
  unhealthyThreshold : UInt32
  deriving DecidableEq

structure PassiveHealthConfig where
  enabled : Bool
  failureThreshold : UInt32
  successThreshold : UInt32
  deriving DecidableEq

/-- `ActiveHealthConfig::default`. -/
def ActiveHealthConfig.default : ActiveHealthConfig where
  enabled := true
  interval := Duration.fromSecs 10
  timeout := Duration.fromSecs 5
  healthyThreshold := 2
  unhealthyThreshold := 3

/-- `PassiveHealthConfig::default`. -/
def PassiveHealthConfig.default : PassiveHealthConfig where
  enabled := true
  failureThreshold := 5
  successThreshold := 2

structure HealthConfig where
  active : ActiveHealthConfig
  passive : PassiveHealthConfig
  deriving DecidableEq

/-- `HealthConfig::default`. -/
def HealthConfig.default : HealthConfig := ⟨ActiveHealthConfig.default, PassiveHealthConfig.default⟩

structure KubernetesConfig where
  «namespace» : Option String
  labelSelector : Option String
  deriving DecidableEq

structure ErrorPage where
  code : UInt16
  file : String
  deriving DecidableEq

structure ErrorPagesConfig where
  directory : String
  pages : List ErrorPage
  deriving DecidableEq

structure ProxyConfig where
  routes : List RouteConfig
  ratelimit : Option RateLimitConfig
  health : HealthConfig
  kubernetes : Option KubernetesConfig
  errorPages : Option ErrorPagesConfig
  deriving DecidableEq

/-- The origins of a route, pool by pool. -/
def RouteConfig.origins (route : RouteConfig) : List OriginConfig :=
  route.pools.flatMap PoolRef.origins

/-- The origins of a configuration, route by route. -/
def ProxyConfig.origins (config : ProxyConfig) : List OriginConfig :=
  config.routes.flatMap RouteConfig.origins

/-- The configuration with the given routes and the default for every other section. -/
def ProxyConfig.ofRoutes (routes : List RouteConfig) : ProxyConfig where
  routes := routes
  ratelimit := none
  health := HealthConfig.default
  kubernetes := none
  errorPages := none

/-- A pool with the given origins, without weights and health check paths. -/
def PoolRef.ofUrls (name : String) (urls : List Url) : PoolRef :=
  ⟨name, urls.map fun url => ⟨url, none, none⟩⟩

/-- The route of the minimal configuration in the documentation, for any origins. -/
def RouteConfig.minimal (urls : List Url) : RouteConfig where
  matchHost := none
  matchPath := some "/"
  pools := [PoolRef.ofUrls "backend" urls]
  lbAlgorithm := .roundRobin
  ratelimit := none

/-- `http://127.0.0.1:3000`, as the crate parses it. -/
def Url.backend : Url := Url.httpRoot "127.0.0.1" (some 3000)

/-- The minimal configuration of the documentation. -/
def ProxyConfig.minimal : ProxyConfig := .ofRoutes [RouteConfig.minimal [Url.backend]]

/-- The minimal configuration with its origin moved to another port. -/
def ProxyConfig.moved : ProxyConfig :=
  .ofRoutes [RouteConfig.minimal [Url.httpRoot "127.0.0.1" (some 4000)]]

/-! ## Validation -/

/-- The name under which an error reports a route. -/
def routeName (idx : Nat) (route : RouteConfig) : String :=
  (route.matchHost <|> route.matchPath).getD ("index-" ++ toString idx)

def validateOrigin (route pool : String) (origin : OriginConfig) : Except ConfigError Unit :=
  if origin.url.scheme ≠ "http" then
    if origin.url.scheme = "https" then
      .error (.httpsNotSupported route pool origin.url.asStr)
    else
      .error (.invalidOriginUrl route pool origin.url.asStr
        ("invalid scheme '" ++ origin.url.scheme ++ "'"))
  else
    .ok ()

def validatePool (route : String) (pool : PoolRef) : Except ConfigError Unit :=
  if pool.origins = [] then
    .error (.poolHasNoOrigins route pool.name)
  else
    forM pool.origins (validateOrigin route pool.name)

def validateRateLimit (ratelimit : Option RateLimitConfig) : Except ConfigError Unit :=
  match ratelimit with
  | some rl => if rl.rate = 0 ∨ rl.burst = 0 then .error .invalidRateLimit else .ok ()
  | none => .ok ()

/-- The checks of one route that do not look at other routes. -/
def validateRoute (route : String) (config : RouteConfig) : Except ConfigError Unit :=
  if config.pools = [] then
    .error (.routeHasNoPools route)
  else do
    forM config.pools (validatePool route)
    validateRateLimit config.ratelimit

/-- The loop over the routes, with the index of the next one and the matches seen so far. -/
def validateRoutes (idx : Nat) (seenMatches : List (Option String × Option String)) :
    List RouteConfig → Except ConfigError Unit
  | [] => .ok ()
  | route :: rest =>
    -- the pair is compared as it stands, without the `*` that the error message shows
    if (route.matchHost, route.matchPath) ∈ seenMatches then
      .error (.duplicateRouteMatch route.matchHost route.matchPath)
    else do
      validateRoute (routeName idx route) route
      validateRoutes (idx + 1) (seenMatches ++ [(route.matchHost, route.matchPath)]) rest

def validateErrorPages (fs : FileSystem) (pages : Option ErrorPagesConfig) :
    Except ConfigError Unit :=
  match pages with
  | some p =>
      if fs.pathExists p.directory then .ok ()
      else .error (.errorPagesDirectoryNotFound p.directory)
  | none => .ok ()

/-- `ProxyConfig::validate`. -/
def ProxyConfig.validate (fs : FileSystem) (config : ProxyConfig) : Except ConfigError Unit := do
  validateRoutes 0 [] config.routes
  validateRateLimit config.ratelimit
  validateErrorPages fs config.errorPages

/-! ## What is accepted -/

/-- A rate limit with positive rate and burst. -/
def RateLimitConfig.Positive (rl : RateLimitConfig) : Prop := rl.rate ≠ 0 ∧ rl.burst ≠ 0

/-- A route whose own checks pass. -/
structure RouteConfig.WellFormed (route : RouteConfig) : Prop where
  pools_ne_nil : route.pools ≠ []
  origins_ne_nil : ∀ pool ∈ route.pools, pool.origins ≠ []
  scheme_http : ∀ pool ∈ route.pools, ∀ origin ∈ pool.origins, origin.url.scheme = "http"
  ratelimit_positive : ∀ rl ∈ route.ratelimit, rl.Positive

/-- The pair that validation compares to find duplicate routes. -/
def RouteConfig.matchKey (route : RouteConfig) : Option String × Option String :=
  (route.matchHost, route.matchPath)

/-- What `validate` accepts. -/
structure ProxyConfig.Accepted (fs : FileSystem) (config : ProxyConfig) : Prop where
  matches_nodup : (config.routes.map RouteConfig.matchKey).Nodup
  routes_wellFormed : ∀ route ∈ config.routes, route.WellFormed
  ratelimit_positive : ∀ rl ∈ config.ratelimit, rl.Positive
  errorPages_exist : ∀ pages ∈ config.errorPages, fs.pathExists pages.directory = true

section Spec

/-- Two checks in sequence pass when both do. -/
theorem bind_eq_ok {ε β : Type} {x : Except ε Unit} {f : Unit → Except ε β} {b : β} :
    (x >>= f) = .ok b ↔ x = .ok () ∧ f () = .ok b := by
  cases x <;> simp [bind, Except.bind]

theorem forM_eq_ok {ε α : Type} {f : α → Except ε Unit} {l : List α} :
    forM l f = .ok () ↔ ∀ a ∈ l, f a = .ok () := by
  induction l with
  | nil => simp [pure, Except.pure]
  | cons a l ih => rw [List.forM_cons, bind_eq_ok, List.forall_mem_cons, ih]

theorem validateOrigin_eq_ok {route pool : String} {origin : OriginConfig} :
    validateOrigin route pool origin = .ok () ↔ origin.url.scheme = "http" := by
  unfold validateOrigin
  split
  · next h =>
    split <;> simp [h]
  · next h => simp [not_not.1 h]

theorem validatePool_eq_ok {route : String} {pool : PoolRef} :
    validatePool route pool = .ok () ↔
      pool.origins ≠ [] ∧ ∀ origin ∈ pool.origins, origin.url.scheme = "http" := by
  unfold validatePool
  split
  · next h => simp [h]
  · next h => simp [h, forM_eq_ok, validateOrigin_eq_ok]

theorem validateRateLimit_eq_ok {ratelimit : Option RateLimitConfig} :
    validateRateLimit ratelimit = .ok () ↔ ∀ rl ∈ ratelimit, rl.Positive := by
  cases ratelimit with
  | none => simp [validateRateLimit]
  | some rl =>
    simp only [validateRateLimit, Option.mem_def, Option.some.injEq, forall_eq',
      RateLimitConfig.Positive, ← not_or]
    split
    · next h => simp [h]
    · next h => simp [h]

theorem validateRoute_eq_ok {name : String} {route : RouteConfig} :
    validateRoute name route = .ok () ↔ route.WellFormed := by
  unfold validateRoute
  by_cases hpools : route.pools = []
  · rw [if_pos hpools]
    exact iff_of_false (by simp) fun h => h.pools_ne_nil hpools
  · rw [if_neg hpools]
    simp only [bind_eq_ok, forM_eq_ok, validatePool_eq_ok, validateRateLimit_eq_ok]
    constructor
    · rintro ⟨hp, hrl⟩
      exact ⟨hpools, fun p h => (hp p h).1, fun p h => (hp p h).2, hrl⟩
    · rintro ⟨-, hne, hhttp, hrl⟩
      exact ⟨fun p h => ⟨hne p h, hhttp p h⟩, hrl⟩

theorem validateRoutes_eq_ok {idx : Nat} {seen : List (Option String × Option String)}
    {routes : List RouteConfig} :
    validateRoutes idx seen routes = .ok () ↔
      (∀ route ∈ routes, route.matchKey ∉ seen) ∧ (routes.map RouteConfig.matchKey).Nodup ∧
        ∀ route ∈ routes, route.WellFormed := by
  induction routes generalizing idx seen with
  | nil => simp [validateRoutes]
  | cons route rest ih =>
    unfold validateRoutes
    -- the first component generalises over the matches seen so far, to which each route is added
    by_cases hseen : (route.matchHost, route.matchPath) ∈ seen
    · rw [if_pos hseen]
      exact iff_of_false (by simp) fun h => h.1 route List.mem_cons_self hseen
    · rw [if_neg hseen]
      simp only [bind_eq_ok, validateRoute_eq_ok, ih, List.map_cons, List.nodup_cons,
        List.forall_mem_cons, List.mem_append, List.mem_singleton, not_or, List.mem_map,
        not_exists, not_and]
      constructor
      · rintro ⟨hwf, hnot, hnodup, hrest⟩
        exact ⟨⟨hseen, fun r h => (hnot r h).1⟩, ⟨fun r h => (hnot r h).2, hnodup⟩, hwf, hrest⟩
      · rintro ⟨⟨-, hrest⟩, ⟨hne, hnodup⟩, hwf, hwfs⟩
        exact ⟨hwf, fun r h => ⟨hrest r h, hne r h⟩, hnodup, hwfs⟩

theorem validateErrorPages_eq_ok {fs : FileSystem} {pages : Option ErrorPagesConfig} :
    validateErrorPages fs pages = .ok () ↔ ∀ p ∈ pages, fs.pathExists p.directory = true := by
  cases pages with
  | none => simp [validateErrorPages]
  | some p =>
    cases h : fs.pathExists p.directory <;> simp [validateErrorPages, h]

/-- **Validation accepts exactly the well-formed configurations.** -/
theorem validate_eq_ok_iff {fs : FileSystem} {config : ProxyConfig} :
    config.validate fs = .ok () ↔ config.Accepted fs := by
  simp only [ProxyConfig.validate, bind_eq_ok, validateRoutes_eq_ok, validateRateLimit_eq_ok,
    validateErrorPages_eq_ok]
  constructor
  · rintro ⟨⟨-, hnodup, hwf⟩, hrl, hpages⟩
    exact ⟨hnodup, hwf, hrl, hpages⟩
  · rintro ⟨hnodup, hwf, hrl, hpages⟩
    exact ⟨⟨by simp, hnodup, hwf⟩, hrl, hpages⟩

end Spec

/-- The origins of an accepted configuration are `http` URLs. -/
theorem ProxyConfig.Accepted.scheme_http {fs : FileSystem} {config : ProxyConfig}
    (h : config.Accepted fs) {origin : OriginConfig} (ho : origin ∈ config.origins) :
    origin.url.scheme = "http" := by
  obtain ⟨route, hroute, horigin⟩ := List.mem_flatMap.1 ho
  obtain ⟨pool, hpool, horigin⟩ := List.mem_flatMap.1 horigin
  exact (h.routes_wellFormed route hroute).scheme_http pool hpool origin horigin

end Upstreamer
