import Upstreamer.Route
import Upstreamer.Foundations.Blocks

/-!
# The two router builders

`Router::from_config` and `Router::from_config_with_k8s` are two copies of one nested loop over
routes, pools and origins. Here both are written out with their loops, which build the routers of
`Router.fromConfig` and `Router.fromConfigWithK8s` (`fromConfigLoops_eq`,
`fromConfigWithK8sLoops_eq`). The entries of a route differ in their candidates alone, and those
differ by the candidates of the discovered URLs, inserted after the static origins of each pool
(`builders_agree`).
-/

set_option autoImplicit false

namespace Upstreamer

open Foundations

namespace Router

/-! ## The builders with their loops -/

/-- The candidates of a route in `from_config`. -/
def collectCandidates (route : RouteConfig) : List OriginEndpoint := Id.run do
  let mut candidates := []
  for pool in route.pools do
    for origin in pool.origins do
      candidates := candidates ++ [.ofUrl origin.url origin.weight origin.healthCheckPath]
  return candidates

/-- The candidates of a route in `from_config_with_k8s`. -/
def collectCandidatesWithK8s (k8sOrigins : K8sOrigins) (route : RouteConfig) :
    List OriginEndpoint := Id.run do
  let mut candidates := []
  for pool in route.pools do
    -- static origins
    for origin in pool.origins do
      candidates := candidates ++ [.ofUrl origin.url origin.weight origin.healthCheckPath]
    -- discovered origins of the pool name
    if let some k8sUrls := k8sOrigins.lookup pool.name then
      for url in k8sUrls do
        candidates := candidates ++ [.ofUrl url none none]
  return candidates

/-- `Router::from_config`, loop by loop. -/
def fromConfigLoops (config : ProxyConfig) : Router where
  routes := config.routes.map fun route =>
    { matchHost := route.matchHost
      matchPath := route.matchPath
      key := route.matchHost.getD "*" ++ ":" ++ route.matchPath.getD "*"
      config := route
      loadBalancer := route.lbAlgorithm
      candidates := collectCandidates route }

/-- `Router::from_config_with_k8s`, loop by loop. -/
def fromConfigWithK8sLoops (config : ProxyConfig) (k8sOrigins : K8sOrigins) : Router where
  routes := config.routes.map fun route =>
    { matchHost := route.matchHost
      matchPath := route.matchPath
      key := route.matchHost.getD "*" ++ ":" ++ route.matchPath.getD "*"
      config := route
      loadBalancer := route.lbAlgorithm
      candidates := collectCandidatesWithK8s k8sOrigins route }

theorem collectCandidates_eq (route : RouteConfig) :
    collectCandidates route = route.pools.flatMap staticCandidates := by
  refine forIn_append (fun pool candidates => ?_) route.pools []
  exact congrArg ForInStep.yield
    (forIn_push (g := staticEndpoint) (fun _ _ => rfl) pool.origins candidates)

theorem collectCandidatesWithK8s_eq (k8sOrigins : K8sOrigins) (route : RouteConfig) :
    collectCandidatesWithK8s k8sOrigins route =
      route.pools.flatMap fun pool => staticCandidates pool ++ k8sCandidates k8sOrigins pool := by
  refine forIn_append (fun pool candidates => ?_) route.pools []
  have hstatic := forIn_push (g := staticEndpoint) (fun _ _ => rfl) pool.origins candidates
  cases hlookup : k8sOrigins.lookup pool.name with
  | none =>
    simp only [k8sCandidates, hlookup, List.append_nil]
    exact congrArg ForInStep.yield hstatic
  | some k8sUrls =>
    -- the second loop goes on with the list that the first one leaves
    have hk8s := forIn_push (g := k8sEndpoint) (fun _ _ => rfl) k8sUrls
    simp only [k8sCandidates, hlookup, ← List.append_assoc]
    exact congrArg ForInStep.yield
      ((hk8s _).trans (congrArg (· ++ k8sUrls.map k8sEndpoint) hstatic))

/-- **Both loops build the routers of the model.** -/
theorem fromConfigLoops_eq (config : ProxyConfig) : fromConfigLoops config = fromConfig config := by
  rw [fromConfigLoops, fromConfig, mk.injEq]
  refine List.map_congr_left fun route _ => ?_
  rw [collectCandidates_eq]
  rfl

theorem fromConfigWithK8sLoops_eq (config : ProxyConfig) (k8sOrigins : K8sOrigins) :
    fromConfigWithK8sLoops config k8sOrigins = fromConfigWithK8s config k8sOrigins := by
  rw [fromConfigWithK8sLoops, fromConfigWithK8s, mk.injEq]
  refine List.map_congr_left fun route _ => ?_
  rw [collectCandidatesWithK8s_eq]
  rfl

end Router

/-! ## What the second builder adds -/

/-- The entry of the first builder for a route, with the candidates of the discovered URLs after the
static origins of each pool. -/
structure RouteEntry.ExtendedBy (k8sOrigins : K8sOrigins) (route : RouteConfig)
    (entry entry' : RouteEntry) : Prop where
  matchHost_eq : entry'.matchHost = entry.matchHost
  matchPath_eq : entry'.matchPath = entry.matchPath
  key_eq : entry'.key = entry.key
  loadBalancer_eq : entry'.loadBalancer = entry.loadBalancer
  static : entry.candidates = route.pools.flatMap staticCandidates
  extended : entry'.candidates =
    insertAfter (route.pools.map fun pool => pool.origins.length)
      (route.pools.map (k8sCandidates k8sOrigins)) entry.candidates

/-- Discovery holds no URL for any pool of the configuration. -/
def K8sOrigins.HoldsNone (k8sOrigins : K8sOrigins) (config : ProxyConfig) : Prop :=
  ∀ route ∈ config.routes, ∀ pool ∈ route.pools, ∀ urls,
    k8sOrigins.lookup pool.name = some urls → urls = []

theorem extendedBy_build (k8sOrigins : K8sOrigins) (route : RouteConfig) :
    RouteEntry.ExtendedBy k8sOrigins route (RouteEntry.build staticCandidates route)
      (RouteEntry.build (fun pool => staticCandidates pool ++ k8sCandidates k8sOrigins pool)
        route) where
  matchHost_eq := rfl
  matchPath_eq := rfl
  key_eq := rfl
  loadBalancer_eq := rfl
  static := rfl
  extended := by
    have hinsert := insertAfter_flatMap staticCandidates (k8sCandidates k8sOrigins) route.pools
    simp only [staticCandidates, List.length_map] at hinsert
    exact hinsert.symm

/-- What a builder adds to the candidates does not change which route is matched. -/
theorem matchIndex_build (c c' : PoolRef → List OriginEndpoint) (routes : List RouteConfig)
    (host path : String) :
    (Router.mk (routes.map (RouteEntry.build c))).matchIndex host path =
      (Router.mk (routes.map (RouteEntry.build c'))).matchIndex host path := by
  rw [Router.matchIndex, Router.matchIndex, List.findIdx?_map, List.findIdx?_map]
  rfl

namespace Router

/-- **The two builders agree** but for the candidates of the discovered URLs. They make one entry of
each route, in the order of the routes, and match the same position for every host and path. Where
discovery holds no URL for a pool of the configuration, they make the same router. -/
theorem builders_agree (config : ProxyConfig) (k8sOrigins : K8sOrigins) :
    (fromConfigLoops config).routes.length = config.routes.length ∧
    (fromConfigWithK8sLoops config k8sOrigins).routes.length = config.routes.length ∧
    (∀ (i : Nat) (route : RouteConfig), config.routes[i]? = some route → ∃ entry entry',
      (fromConfigLoops config).routes[i]? = some entry ∧
        (fromConfigWithK8sLoops config k8sOrigins).routes[i]? = some entry' ∧
        RouteEntry.ExtendedBy k8sOrigins route entry entry') ∧
    (∀ host path, (fromConfigWithK8sLoops config k8sOrigins).matchIndex host path =
      (fromConfigLoops config).matchIndex host path) ∧
    (k8sOrigins.HoldsNone config →
      fromConfigWithK8sLoops config k8sOrigins = fromConfigLoops config ∧
        ∀ host path, (fromConfigWithK8sLoops config k8sOrigins).matchRoute host path =
          (fromConfigLoops config).matchRoute host path) := by
  rw [fromConfigLoops_eq, fromConfigWithK8sLoops_eq]
  refine ⟨List.length_map _, List.length_map _, fun i route hroute => ?_,
    matchIndex_build _ _ config.routes, fun hnone => ?_⟩
  · refine ⟨_, _, ?_, ?_, extendedBy_build k8sOrigins route⟩
    · rw [fromConfig, List.getElem?_map, hroute, Option.map_some]
    · rw [fromConfigWithK8s, List.getElem?_map, hroute, Option.map_some]
  · have hsame : fromConfigWithK8s config k8sOrigins = fromConfig config :=
      (fromConfig_eq_iff.2 fun route hroute pool hpool =>
        k8sCandidates_eq_nil.2 (hnone route hroute pool hpool)).symm
    exact ⟨hsame, fun host path => by rw [hsame]⟩

/-- Two pools of one name, the second one without static origins. -/
example :
    (fromConfigWithK8sLoops
      (.ofRoutes [{ RouteConfig.minimal [] with
        pools := [PoolRef.ofUrls "backend" [Url.backend], PoolRef.ofUrls "backend" []] }])
      ((∅ : K8sOrigins).insert "backend" [Url.httpRoot "10.0.0.7" none])).routes.map
        (fun entry => entry.candidates.map fun endpoint => endpoint.url.host) =
      [[some "127.0.0.1", some "10.0.0.7", some "10.0.0.7"]] := by
  decide

end Router

end Upstreamer
