import Upstreamer.Balance.OriginState

/-!
# Routes

The router is the list of routes that a configuration is compiled to. Its two builders differ only
in the discovered origins that the second one inserts after the static origins of each pool, so the
first is the second on an empty discovery map (`fromConfigWithK8s_empty`), and the two agree exactly
when discovery holds nothing for the pools of the configuration (`fromConfig_eq_iff`).
-/

set_option autoImplicit false

namespace Upstreamer

open Foundations

/-- The origins that discovery holds for each pool name. -/
abbrev K8sOrigins := Dict String (List Url)

/-- A compiled route. The balancer is named by its algorithm; the counter of a round-robin balancer
is state of the application. -/
structure RouteEntry where
  matchHost : Option String
  matchPath : Option String
  key : String
  config : RouteConfig
  loadBalancer : LbAlgorithm
  candidates : List OriginEndpoint
  deriving DecidableEq

structure Router where
  routes : List RouteEntry
  deriving DecidableEq

/-- The text `host:path` with `*` for an absent part. -/
def routeKey (matchHost matchPath : Option String) : String :=
  matchHost.getD "*" ++ ":" ++ matchPath.getD "*"

/-- The candidate of a static origin. -/
def staticEndpoint (origin : OriginConfig) : OriginEndpoint :=
  OriginEndpoint.ofUrl origin.url origin.weight origin.healthCheckPath

/-- The candidate of a discovered origin. -/
def k8sEndpoint (url : Url) : OriginEndpoint := OriginEndpoint.ofUrl url none none

/-- The candidates of the static origins of a pool. -/
def staticCandidates (pool : PoolRef) : List OriginEndpoint := pool.origins.map staticEndpoint

/-- The candidates of the origins that discovery holds under the name of a pool. -/
def k8sCandidates (k8sOrigins : K8sOrigins) (pool : PoolRef) : List OriginEndpoint :=
  match k8sOrigins.lookup pool.name with
  | some k8sUrls => k8sUrls.map k8sEndpoint
  | none => []

/-- The entry that both builders make of a route, given the candidates of each pool. -/
def RouteEntry.build (poolCandidates : PoolRef → List OriginEndpoint) (route : RouteConfig) :
    RouteEntry where
  matchHost := route.matchHost
  matchPath := route.matchPath
  key := routeKey route.matchHost route.matchPath
  config := route
  loadBalancer := route.lbAlgorithm
  candidates := route.pools.flatMap poolCandidates

namespace Router

/-- `Router::from_config`. -/
def fromConfig (config : ProxyConfig) : Router :=
  ⟨config.routes.map (RouteEntry.build staticCandidates)⟩

/-- `Router::from_config_with_k8s`. -/
def fromConfigWithK8s (config : ProxyConfig) (k8sOrigins : K8sOrigins) : Router :=
  ⟨config.routes.map (RouteEntry.build fun pool =>
    staticCandidates pool ++ k8sCandidates k8sOrigins pool)⟩

/-- `Router::match_glob`. -/
def matchGlob (value pattern : String) : Bool :=
  if pattern = "*" then true
  else
    -- a pattern with one star; with more of them the text is compared literally
    match pattern.toList.splitOn '*' with
    | [before, after] =>
        startsWith value (String.ofList before) && endsWith value (String.ofList after)
    | _ => value == pattern

end Router

/-- Whether the route accepts the host and the path of a request. -/
def RouteEntry.accepts (route : RouteEntry) (host path : String) : Bool :=
  (match route.matchHost with
    | some pattern => Router.matchGlob host pattern
    | none => true) &&
  (match route.matchPath with
    | some before => startsWith path before
    | none => true)

/-- The position of the route that `Router::match_route` returns. -/
def Router.matchIndex (router : Router) (host path : String) : Option Nat :=
  router.routes.findIdx? fun route => route.accepts host path

/-- `Router::match_route`. -/
def Router.matchRoute (router : Router) (host path : String) : Option RouteEntry :=
  router.routes.find? fun route => route.accepts host path

/-- The matched route is the one at the matched position. -/
theorem Router.matchRoute_eq (router : Router) (host path : String) :
    router.matchRoute host path = (router.matchIndex host path).bind (router.routes[·]?) :=
  List.find?_eq_bind_findIdx?_getElem?

/-! ## What the two builders have in common -/

section Builders

variable {config : ProxyConfig} {k8sOrigins : K8sOrigins}

theorem mem_k8sCandidates {pool : PoolRef} {endpoint : OriginEndpoint} :
    endpoint ∈ k8sCandidates k8sOrigins pool ↔
      ∃ urls, k8sOrigins.lookup pool.name = some urls ∧
        ∃ url ∈ urls, k8sEndpoint url = endpoint := by
  unfold k8sCandidates
  cases k8sOrigins.lookup pool.name with
  | none => simp
  | some urls => simp

/-- A pool gets no candidate exactly when discovery holds no URL for its name. -/
theorem k8sCandidates_eq_nil {pool : PoolRef} :
    k8sCandidates k8sOrigins pool = [] ↔
      ∀ urls, k8sOrigins.lookup pool.name = some urls → urls = [] := by
  rw [k8sCandidates]
  cases k8sOrigins.lookup pool.name with
  | none => simp
  | some urls => simp

theorem k8sCandidates_empty (pool : PoolRef) : k8sCandidates ∅ pool = [] := by
  simp [k8sCandidates]

/-- **The static builder is the other one on an empty discovery map.** -/
theorem fromConfigWithK8s_empty (config : ProxyConfig) :
    Router.fromConfigWithK8s config ∅ = Router.fromConfig config := by
  simp only [Router.fromConfigWithK8s, Router.fromConfig, k8sCandidates_empty, List.append_nil]

theorem length_flatMap_append {α β : Type} (l : List α) (f g : α → List β) :
    (l.flatMap fun a => f a ++ g a).length = (l.flatMap f).length + (l.flatMap g).length := by
  induction l with
  | nil => rfl
  | cons a l ih =>
    simp only [List.flatMap_cons, List.length_append, ih]
    omega

/-- What a second source adds shows in the flattened list exactly when it adds something. -/
theorem flatMap_append_eq_iff {α β : Type} (l : List α) (f g : α → List β) :
    (l.flatMap fun a => f a ++ g a) = l.flatMap f ↔ ∀ a ∈ l, g a = [] := by
  constructor
  · intro h
    -- an addition anywhere makes the flattened list longer
    have hlength := congrArg List.length h
    rw [length_flatMap_append] at hlength
    exact List.flatMap_eq_nil_iff.1 (List.length_eq_zero_iff.1 (by omega))
  · intro h
    induction l with
    | nil => rfl
    | cons a l ih =>
      rw [List.forall_mem_cons] at h
      rw [List.flatMap_cons, List.flatMap_cons, h.1, List.append_nil, ih h.2]

theorem build_eq_iff {c c' : PoolRef → List OriginEndpoint} {route : RouteConfig} :
    RouteEntry.build c route = RouteEntry.build c' route ↔
      route.pools.flatMap c = route.pools.flatMap c' := by
  simp [RouteEntry.build]

/-- **The two builders agree exactly when discovery holds nothing for the pools of the
configuration.** -/
theorem fromConfig_eq_iff :
    Router.fromConfig config = Router.fromConfigWithK8s config k8sOrigins ↔
      ∀ route ∈ config.routes, ∀ pool ∈ route.pools, k8sCandidates k8sOrigins pool = [] := by
  rw [Router.fromConfig, Router.fromConfigWithK8s, Router.mk.injEq, List.map_inj_left]
  refine forall₂_congr fun route _ => ?_
  rw [build_eq_iff, eq_comm]
  exact flatMap_append_eq_iff _ _ _

end Builders

end Upstreamer
