import Upstreamer.Foundations.Past
import Upstreamer.System

/-!
# The visible router and the configuration in force

A reload swaps the router first and the configuration last; a rebuild loads the configuration,
builds a router from it and swaps that in. When both are done, the visible router should be one
built from the configuration in force, with or without the discovered origins. `router_current`
proves this for every interleaving in which no rebuild swaps in a router whose routes are not those
that the configuration will have; `stale_router_stays` is a run in which one does.
-/

set_option autoImplicit false

namespace Upstreamer

open Foundations

/-- What requests see of a route. -/
structure RouteView where
  matchHost : Option String
  matchPath : Option String
  key : String
  loadBalancer : LbAlgorithm
  candidates : List OriginEndpoint
  deriving DecidableEq

def RouteEntry.view (entry : RouteEntry) : RouteView :=
  ⟨entry.matchHost, entry.matchPath, entry.key, entry.loadBalancer, entry.candidates⟩

def Router.view (router : Router) : List RouteView := router.routes.map RouteEntry.view

/-- What a router takes from a route of the configuration. -/
structure RouteSource where
  matchHost : Option String
  matchPath : Option String
  pools : List PoolRef
  lbAlgorithm : LbAlgorithm
  deriving DecidableEq

def RouteConfig.source (route : RouteConfig) : RouteSource :=
  ⟨route.matchHost, route.matchPath, route.pools, route.lbAlgorithm⟩

/-- The configurations have the same routes, rate limits aside. -/
def ProxyConfig.SameRoutes (config config' : ProxyConfig) : Prop :=
  config.routes.map RouteConfig.source = config'.routes.map RouteConfig.source

/-- Configurations with the same routes give routers that requests cannot tell apart. -/
theorem ProxyConfig.SameRoutes.view_eq {config config' : ProxyConfig}
    (h : config.SameRoutes config') (k8sOrigins : K8sOrigins) :
    (Router.fromConfigWithK8s config k8sOrigins).view =
      (Router.fromConfigWithK8s config' k8sOrigins).view := by
  have hview : ∀ c : ProxyConfig, (Router.fromConfigWithK8s c k8sOrigins).view =
      (c.routes.map RouteConfig.source).map fun source =>
        ⟨source.matchHost, source.matchPath, routeKey source.matchHost source.matchPath,
          source.lbAlgorithm, source.pools.flatMap fun pool =>
            staticCandidates pool ++ k8sCandidates k8sOrigins pool⟩ := fun c => by
    rw [Router.view, Router.fromConfigWithK8s, List.map_map, List.map_map]
    rfl
  rw [hview, hview, h]

/-- Whether the write swaps the router. -/
def Write.isSwap : Write → Bool
  | .swapRouter _ => true
  | _ => false

theorem router_apply_of_not_swap {app : AppState} {write : Write} (h : write.isSwap = false) :
    (app.apply write).router = app.router := by
  cases write with
  | swapRouter router => cases h
  | _ => rfl

/-- Whether the next of the writes swaps the router. -/
def swapNext (todo : List Write) : Bool := todo.head?.any Write.isSwap

/-- A reload swaps the router once, with its first write. -/
theorem isSwap_of_mem_reloadRest {config : ProxyConfig} {write : Write}
    (h : write ∈ reloadRest config) : write.isSwap = false := by
  cases AppState.mem_reloadRest_iff.1 h with
  | _ => rfl

theorem getLast?_reloadWrites (config : ProxyConfig) :
    (reloadWrites config).getLast? = some (.swapConfig config) := by
  rw [reloadWrites, reloadRest, ← List.cons_append, List.getLast?_concat]

namespace World

/-- The configuration in force once the reload in progress is completed. -/
def target (w : World) : ProxyConfig :=
  match w.reload with
  | .applying config _ => config
  | .idle => w.app.config

/-- When neither a reload nor a rebuild is in progress, requests see the routes of the configuration
in force, with its static origins and either no discovered origins or those that discovery holds. -/
def Current (w : World) : Prop :=
  w.reload = .idle → w.rebuild = .idle →
    w.app.router.view = (Router.fromConfig w.app.config).view ∨
      w.app.router.view = (Router.fromConfigWithK8s w.app.config w.k8sOrigins).view

/-- A step by which a rebuild swaps the router, unless a reload is about to swap it again, swaps in
a router of the routes that the configuration has, or will have once the reload is completed. -/
def FreshSwap (w : World) : Event → Prop
  | .rebuildStep => ∀ loaded router todo,
      w.rebuild = .applying loaded (.swapRouter router :: todo) →
      swapNext w.reload.todo = false → loaded.SameRoutes w.target
  | _ => True

instance (w : World) : DecidablePred w.FreshSwap
  | .rebuildStep =>
      match h : w.rebuild with
      | .applying loaded (.swapRouter router :: todo) =>
          decidable_of_iff (swapNext w.reload.todo = false →
              loaded.routes.map RouteConfig.source = w.target.routes.map RouteConfig.source)
            ⟨fun hfresh loaded' router' todo' h' => by
              cases h.symm.trans h'
              exact hfresh, fun hfresh => hfresh loaded router todo h⟩
      | .applying _ (.clearRouteRatelimiters :: _) | .applying _ (.insertRouteRatelimiter _ _ :: _)
      | .applying _ (.addOriginState _ :: _) | .applying _ (.storePassiveEnabled _ :: _)
      | .applying _ (.storePassiveFailureThreshold _ :: _)
      | .applying _ (.storePassiveSuccessThreshold _ :: _) | .applying _ (.swapConfig _ :: _)
      | .applying _ [] | .idle | .discovered => isTrue fun _ _ _ h' => by cases h.symm.trans h'
  | .reloadStart _ | .reloadStep | .discover _ | .rebuildLoad _ | .arrive _ _ _ | .limit _ _
  | .select _ _ | .finish _ _ _ | .drop _ | .probe _ _ | .sweep _ => isTrue trivial

/-! ## The invariant -/

/-- The rebuild has swapped the router, if there is one at all. -/
def RebuildSettled (w : World) : Prop :=
  w.rebuild ≠ .discovered ∧ swapNext w.rebuild.todo = false

/-- Reload and rebuild make their writes in order, and unless a reload is about to swap it, the
visible router is one of the configuration that will be in force. -/
structure Ordered (w : World) : Prop where
  reload_writes : ∀ config write todo, w.reload = .applying config (write :: todo) →
    (write :: todo).getLast? = some (.swapConfig config) ∧
      (write.isSwap = true → write = .swapRouter (Router.fromConfig config)) ∧
      ∀ x ∈ todo, x.isSwap = false
  rebuild_writes : ∀ loaded write todo, w.rebuild = .applying loaded (write :: todo) →
    (write = .swapRouter (Router.fromConfigWithK8s loaded w.k8sOrigins) ∨
        ∃ key, write = .addOriginState key) ∧
      ∀ x ∈ todo, ∃ key, x = .addOriginState key
  router_view : swapNext w.reload.todo = false → ∃ k8sOrigins : K8sOrigins,
    (k8sOrigins = ∅ ∨ (w.RebuildSettled → k8sOrigins = w.k8sOrigins)) ∧
      w.app.router.view = (Router.fromConfigWithK8s w.target k8sOrigins).view

theorem Ordered.current {w : World} (h : w.Ordered) : w.Current := by
  intro hreload hrebuild
  obtain ⟨k8sOrigins, hk8s, hview⟩ := h.router_view (by rw [hreload]; rfl)
  have htarget : w.target = w.app.config := by rw [target, hreload]
  rw [htarget] at hview
  rcases hk8s with rfl | hk8s
  · left
    rwa [fromConfigWithK8s_empty] at hview
  · right
    have hsettled : w.RebuildSettled := by
      rw [RebuildSettled, hrebuild]
      exact ⟨by simp, rfl⟩
    rwa [hk8s hsettled] at hview

theorem ordered_init (env : Externals) (config : ProxyConfig) : (init env config).Ordered where
  reload_writes := by
    rintro _ _ _ ⟨⟩
  rebuild_writes := by
    rintro _ _ _ ⟨⟩
  router_view := fun _ => ⟨∅, Or.inl rfl, by rw [fromConfigWithK8s_empty]; rfl⟩

section Steps

variable {env : Externals} {w w' : World} {e : Event}

theorem Ordered.reload_writes_step (hs : w.Ordered) (h : step env w e = some w') :
    ∀ config write todo, w'.reload = .applying config (write :: todo) →
      (write :: todo).getLast? = some (.swapConfig config) ∧
        (write.isSwap = true → write = .swapRouter (Router.fromConfig config)) ∧
        ∀ x ∈ todo, x.isSwap = false := by
  cases moves_of_step h with
  | @reloadStart config _ _ =>
    rintro _ _ _ ⟨⟩
    exact ⟨getLast?_reloadWrites config, fun _ => rfl, fun x hx => isSwap_of_mem_reloadRest hx⟩
  | @reloadStep config write todo hphase =>
    obtain ⟨hlast, -, hrest⟩ := hs.reload_writes config write todo hphase
    intro config' write' todo' hafter
    cases todo with
    | nil => cases hafter
    | cons next todo =>
      cases hafter
      refine ⟨by rwa [List.getLast?_cons_cons] at hlast, fun hswap => ?_,
        fun x hx => hrest x (List.mem_cons_of_mem _ hx)⟩
      rw [hrest _ List.mem_cons_self] at hswap
      cases hswap
  | _ => exact hs.reload_writes

theorem Ordered.rebuild_writes_step (hs : w.Ordered) (h : step env w e = some w') :
    ∀ loaded write todo, w'.rebuild = .applying loaded (write :: todo) →
      (write = .swapRouter (Router.fromConfigWithK8s loaded w'.k8sOrigins) ∨
          ∃ key, write = .addOriginState key) ∧
        ∀ x ∈ todo, ∃ key, x = .addOriginState key := by
  cases moves_of_step h with
  | discovered _ _ _ =>
    rintro _ _ _ ⟨⟩
  | rebuildLoad _ _ =>
    rintro _ _ _ ⟨⟩
    refine ⟨Or.inl rfl, fun x hx => ?_⟩
    obtain ⟨url, _, rfl⟩ := List.mem_map.1 hx
    exact ⟨_, rfl⟩
  | @rebuildStep loaded write todo hphase =>
    obtain ⟨-, hrest⟩ := hs.rebuild_writes loaded write todo hphase
    intro loaded' write' todo' hafter
    cases todo with
    | nil => cases hafter
    | cons next todo =>
      cases hafter
      exact ⟨Or.inr (hrest _ List.mem_cons_self), fun x hx => hrest x (List.mem_cons_of_mem _ hx)⟩
  | _ => exact hs.rebuild_writes

/-- The last write of a reload puts its target in force. -/
theorem Ordered.target_reloadStep (hs : w.Ordered) {config : ProxyConfig} {write : Write}
    {todo : List Write} (hphase : w.reload = .applying config (write :: todo)) :
    target { w with app := w.app.apply write, reload := .after config todo } = config := by
  obtain ⟨hlast, -, -⟩ := hs.reload_writes config write todo hphase
  cases todo with
  | nil =>
    obtain rfl : write = .swapConfig config := Option.some.inj hlast
    rfl
  | cons next todo => rfl

/-- A fresh step keeps the visible router one of the configuration that will be in force. -/
theorem Ordered.router_view_step (hs : w.Ordered) (hfresh : w.FreshSwap e)
    (h : step env w e = some w') (hnext : swapNext w'.reload.todo = false) :
    ∃ k8sOrigins : K8sOrigins, (k8sOrigins = ∅ ∨ (w'.RebuildSettled → k8sOrigins = w'.k8sOrigins)) ∧
      w'.app.router.view = (Router.fromConfigWithK8s w'.target k8sOrigins).view := by
  have hsame := sameSettings_of_nextWrite h
  cases moves_of_step h with
  -- the reload is now about to swap the router, and nothing is claimed until it has
  | reloadStart _ _ => cases hnext
  | @reloadStep config write todo hphase =>
    obtain ⟨-, hswap, -⟩ := hs.reload_writes config write todo hphase
    rw [hs.target_reloadStep hphase]
    cases hw : write.isSwap with
    | true =>
      -- the router of the new configuration, without discovered origins
      obtain rfl := hswap hw
      exact ⟨∅, Or.inl rfl, by rw [fromConfigWithK8s_empty]; rfl⟩
    | false =>
      obtain ⟨k8sOrigins, hk8s, hview⟩ := hs.router_view (by rw [hphase]; exact hw)
      refine ⟨k8sOrigins, hk8s, ?_⟩
      show (w.app.apply write).router.view = _
      rw [router_apply_of_not_swap hw, hview, target, hphase]
  | discovered _ _ _ =>
    obtain ⟨k8sOrigins, -, hview⟩ := hs.router_view hnext
    -- the map has grown and the rebuild has not swapped yet, so the view may use the old one
    exact ⟨k8sOrigins, Or.inr fun hsettled => absurd rfl hsettled.1, hview⟩
  | rebuildLoad _ _ =>
    obtain ⟨k8sOrigins, -, hview⟩ := hs.router_view hnext
    exact ⟨k8sOrigins, Or.inr fun hsettled => absurd hsettled.2 (by simp [RebuildPhase.todo,
      rebuildWrites, swapNext, Write.isSwap]), hview⟩
  | @rebuildStep loaded write todo hphase =>
    obtain ⟨hwrite, -⟩ := hs.rebuild_writes loaded write todo hphase
    rcases hwrite with rfl | ⟨key, rfl⟩
    -- the guard says that the loaded configuration still has the routes of the target
    · have hroutes : loaded.SameRoutes w.target := hfresh loaded _ todo hphase hnext
      exact ⟨w.k8sOrigins, Or.inr fun _ => rfl, hroutes.view_eq w.k8sOrigins⟩
    · obtain ⟨k8sOrigins, hk8s, hview⟩ := hs.router_view hnext
      refine ⟨k8sOrigins, hk8s.imp_right fun hk8s _ => hk8s ?_, hview⟩
      rw [RebuildSettled, hphase]
      exact ⟨by simp, rfl⟩
  | ignored _ _ _ => exact hs.router_view hnext
  | unmatched _ => exact hs.router_view hnext
  | matched _ _ => exact hs.router_view hnext
  | limited _ _ =>
    obtain ⟨k8sOrigins, hk8s, hview⟩ := hs.router_view hnext
    refine ⟨k8sOrigins, hk8s, ?_⟩
    rw [(hsame rfl).router_eq, hview, target, target, (hsame rfl).config_eq]
  | admitted _ _ =>
    obtain ⟨k8sOrigins, hk8s, hview⟩ := hs.router_view hnext
    refine ⟨k8sOrigins, hk8s, ?_⟩
    rw [(hsame rfl).router_eq, hview, target, target, (hsame rfl).config_eq]
  | refused _ _ => exact hs.router_view hnext
  | dropped _ => exact hs.router_view hnext
  | selected _ _ => exact hs.router_view hnext
  | finished _ => exact hs.router_view hnext
  | probed _ _ => exact hs.router_view hnext
  | swept => exact hs.router_view hnext

theorem Ordered.step (hs : w.Ordered) (hfresh : w.FreshSwap e) (h : World.step env w e = some w') :
    w'.Ordered :=
  ⟨hs.reload_writes_step h, hs.rebuild_writes_step h, hs.router_view_step hfresh h⟩

end Steps

/-- **In every run in which each router that a rebuild swaps in has the routes that will be in
force, the visible router is current whenever neither a reload nor a rebuild is in progress.** -/
theorem router_current (env : Externals) (config : ProxyConfig) (events : List Event)
    (hfresh : Along (step env) FreshSwap (init env config) events) :
    Throughout (step env) Current (init env config) events :=
  (throughout_of_along (fun _ _ _ hs hg h => hs.step hg h) (ordered_init env config) hfresh).mono
    fun _ hs => hs.current

/-- The externals of a cluster in which the URL of one service parses. -/
def clusterExternals : Externals := ⟨.empty, parseClusterBackend⟩

/-- The service that the watcher reports. -/
def backendService : Service := .plain "backend" "10.0.0.7" 8080

/-- A rebuild swaps the router before a reload to a moved origin does, and goes on after it. -/
def overtakingRebuild : List Event :=
  [Event.discover backendService, Event.reloadStart ProxyConfig.moved,
    Event.rebuildLoad ["backend"], Event.rebuildStep] ++
    List.replicate 7 Event.reloadStep ++ [Event.rebuildStep]

/-- The reload swaps in the router of the configuration that it brings, and that one stays. -/
theorem router_current_overtakingRebuild :
    (run (step clusterExternals) (init clusterExternals clusterConfig) overtakingRebuild).isSome ∧
      Throughout (step clusterExternals) Current (init clusterExternals clusterConfig)
        overtakingRebuild :=
  ⟨by decide +kernel, router_current clusterExternals clusterConfig overtakingRebuild
    (by decide +kernel)⟩

/-- A rebuild loads the configuration, a reload to a moved origin runs from start to end, and the
rebuild goes on. -/
def overtakenRebuild : List Event :=
  [Event.discover backendService, Event.rebuildLoad ["backend"],
    Event.reloadStart ProxyConfig.moved] ++
    List.replicate 7 Event.reloadStep ++ [Event.rebuildStep, Event.rebuildStep]

/-- **An overtaken rebuild leaves a stale router behind.** Neither a reload nor a rebuild is in
progress, the moved origin is in force, and requests still go to the old one: the visible router is
not one of the configuration in force, whatever origins are discovered. -/
theorem stale_router_stays :
    clusterConfig.validate .empty = .ok () ∧ ProxyConfig.moved.validate .empty = .ok () ∧
      ∃ w, run (step clusterExternals) (init clusterExternals clusterConfig) overtakenRebuild =
          some w ∧
        w.reload = .idle ∧ w.rebuild = .idle ∧ w.app.config = ProxyConfig.moved ∧
        w.app.router = Router.fromConfigWithK8s clusterConfig w.k8sOrigins ∧ ¬ w.Current ∧
        ∀ k8sOrigins, w.app.router.view ≠
          (Router.fromConfigWithK8s w.app.config k8sOrigins).view := by
  refine ⟨by decide, by decide, _, rfl, rfl, rfl, rfl, rfl, fun h => ?_, fun k8sOrigins h => ?_⟩
  · rcases h rfl rfl with hview | hview
    · exact absurd hview (by decide)
    · exact absurd hview (by decide)
  · -- the first candidate of the only route is a static origin
    have hfirst : ((Router.fromConfigWithK8s ProxyConfig.moved k8sOrigins).view.map fun route =>
        route.candidates.head?.map OriginEndpoint.urlKey) = [some "http://127.0.0.1:4000/"] := rfl
    exact absurd ((congrArg (fun view : List RouteView => view.map fun route =>
      route.candidates.head?.map OriginEndpoint.urlKey) h).trans hfirst) (by decide)

end World

end Upstreamer
