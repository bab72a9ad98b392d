import Upstreamer.System.Journeys

/-!
# Where requests can go

A candidate carries the URL that a request is sent to, and it is copied from place to place: from a
configuration or a service into the discovery map, from there into a router that is still to be
swapped in, into the visible router, and into the requests that hold one of its routes. A property
of URLs that all configurations and services of a run have is carried along (`within_step`). So no
request ever goes to an address that neither a configuration nor a service of the run has named
(`forwarded_address`).
-/

set_option autoImplicit false

namespace Upstreamer

open Foundations

section Within

/- The URLs that are allowed. -/
variable (K : Url → Prop)

def ProxyConfig.Within (config : ProxyConfig) : Prop := ∀ origin ∈ config.origins, K origin.url

def RouteEntry.Within (entry : RouteEntry) : Prop :=
  ∀ candidate ∈ entry.candidates, K candidate.url

def Router.Within (router : Router) : Prop := ∀ entry ∈ router.routes, entry.Within K

def K8sOrigins.Within (k8sOrigins : K8sOrigins) : Prop :=
  ∀ pool urls, k8sOrigins.lookup pool = some urls → ∀ url ∈ urls, K url

/-- What the write installs holds allowed URLs only. -/
def Write.Within : Write → Prop
  | .swapRouter router => router.Within K
  | .swapConfig config => config.Within K
  | _ => True

def InFlight.Within : InFlight → Prop
  | .matched _ _ entry _ => entry.Within K
  | .admitted _ _ entry => entry.Within K
  | .forwarding origin => K origin.url

/-- The event brings allowed URLs only. -/
def Event.Within (env : Externals) : Event → Prop
  | .reloadStart config => config.Within K
  | .discover svc => ∀ pool url, serviceToOrigin env.parseUrl svc = some (pool, url) → K url
  | _ => True

/-- All URLs are allowed, those that are visible and those that are still on their way. -/
structure World.Within (w : World) : Prop where
  config : w.app.config.Within K
  router : w.app.router.Within K
  reload : ∀ write ∈ w.reload.todo, write.Within K
  rebuild : ∀ write ∈ w.rebuild.todo, write.Within K
  k8sOrigins : w.k8sOrigins.Within K
  inFlight : ∀ req ∈ w.inFlight, req.Within K

variable {K} {config : ProxyConfig} {k8sOrigins : K8sOrigins}

/-! ## Routers and writes -/

theorem ProxyConfig.Within.staticCandidates (h : config.Within K) {route : RouteConfig}
    (hroute : route ∈ config.routes) {pool : PoolRef} (hpool : pool ∈ route.pools)
    {endpoint : OriginEndpoint} (hendpoint : endpoint ∈ Upstreamer.staticCandidates pool) :
    K endpoint.url := by
  obtain ⟨origin, horigin, rfl⟩ := List.mem_map.1 hendpoint
  exact h origin (List.mem_flatMap.2 ⟨route, hroute, List.mem_flatMap.2 ⟨pool, hpool, horigin⟩⟩)

theorem ProxyConfig.Within.fromConfig (h : config.Within K) :
    (Router.fromConfig config).Within K := by
  intro entry hentry candidate hcandidate
  obtain ⟨route, hroute, rfl⟩ := List.mem_map.1 hentry
  obtain ⟨pool, hpool, hmem⟩ := List.mem_flatMap.1 hcandidate
  exact h.staticCandidates hroute hpool hmem

theorem ProxyConfig.Within.fromConfigWithK8s (h : config.Within K)
    (hk8s : k8sOrigins.Within K) : (Router.fromConfigWithK8s config k8sOrigins).Within K := by
  intro entry hentry candidate hcandidate
  obtain ⟨route, hroute, rfl⟩ := List.mem_map.1 hentry
  obtain ⟨pool, hpool, hmem⟩ := List.mem_flatMap.1 hcandidate
  rcases List.mem_append.1 hmem with hmem | hmem
  · exact h.staticCandidates hroute hpool hmem
  · obtain ⟨urls, hurls, url, hurl, rfl⟩ := mem_k8sCandidates.1 hmem
    exact hk8s pool.name urls hurls url hurl

theorem within_of_mem_reloadWrites (h : config.Within K) {write : Write}
    (hwrite : write ∈ reloadWrites config) : write.Within K := by
  rcases List.mem_cons.1 hwrite with rfl | hwrite
  · exact h.fromConfig
  · cases AppState.mem_reloadRest_iff.1 hwrite with
    | configured => exact h
    | _ => trivial

theorem within_of_mem_rebuildWrites (h : config.Within K) (hk8s : k8sOrigins.Within K)
    {order : List String} {write : Write} (hwrite : write ∈ rebuildWrites config k8sOrigins order) :
    write.Within K := by
  rcases List.mem_cons.1 hwrite with rfl | hwrite
  · exact h.fromConfigWithK8s hk8s
  · obtain ⟨url, -, rfl⟩ := List.mem_map.1 hwrite
    trivial

theorem K8sOrigins.Within.push (h : k8sOrigins.Within K) (pool : String) {url : Url}
    (hurl : K url) : (k8sOrigins.push pool url).Within K := by
  intro other urls hlookup url' hurl'
  by_cases hother : other = pool
  · subst hother
    obtain rfl := Option.some.inj ((Finmap.lookup_insert _).symm.trans hlookup)
    rwa [List.mem_singleton.1 hurl']
  · exact h other urls ((Finmap.lookup_insert_of_ne _ hother).symm.trans hlookup) url' hurl'

end Within

namespace World

section Steps

variable {K : Url → Prop} {env : Externals} {w w' : World} {e : Event}

theorem within_init {config : ProxyConfig} (h : config.Within K) :
    (init env config).Within K where
  config := h
  router := h.fromConfig
  reload := by
    rintro _ ⟨⟩
  rebuild := by
    rintro _ ⟨⟩
  k8sOrigins := by
    intro pool urls hlookup
    cases (Finmap.lookup_empty pool).symm.trans hlookup
  inFlight := by
    rintro _ ⟨⟩

/-- The configuration and the router are what they were, or what a pending write installs. -/
theorem settings_within_step (hw : w.Within K) (h : step env w e = some w') :
    w'.app.config.Within K ∧ w'.app.router.Within K := by
  cases hwrite : w.nextWrite e with
  | none =>
    have hsame := sameSettings_of_nextWrite h hwrite
    rw [hsame.config_eq, hsame.router_eq]
    exact ⟨hw.config, hw.router⟩
  | some write =>
    have hpending : write.Within K := by
      rcases mem_todo_of_nextWrite hwrite with hmem | hmem
      · exact hw.reload write hmem
      · exact hw.rebuild write hmem
    rw [app_of_nextWrite h hwrite]
    cases write with
    | swapRouter router => exact ⟨hw.config, hpending⟩
    | swapConfig config => exact ⟨hpending, hw.router⟩
    | _ => exact ⟨hw.config, hw.router⟩

/-- Only a service extends the discovery map. -/
theorem k8sOrigins_within_step (hw : w.Within K) (he : e.Within K env)
    (h : step env w e = some w') : w'.k8sOrigins.Within K := by
  cases moves_of_step h with
  | discovered _ _ hsome => exact hw.k8sOrigins.push _ (he _ _ hsome)
  | _ => exact hw.k8sOrigins

/-- A reload writes what its configuration holds. -/
theorem reload_within_step (hw : w.Within K) (he : e.Within K env) (h : step env w e = some w') :
    ∀ write ∈ w'.reload.todo, write.Within K := by
  intro write hwrite
  cases moves_of_step h with
  | reloadStart _ _ => exact within_of_mem_reloadWrites he hwrite
  | reloadStep hphase =>
    rw [ReloadPhase.todo_after] at hwrite
    refine hw.reload write ?_
    rw [hphase]
    exact List.mem_cons_of_mem _ hwrite
  | _ => exact hw.reload write hwrite

/-- A request takes up a route of the visible router, and an origin of the route that it holds. -/
theorem inFlight_within_step (hw : w.Within K) (h : step env w e = some w') :
    ∀ req ∈ w'.inFlight, req.Within K := by
  intro req hreq
  rcases inFlight_step h hreq with hold | ⟨_, index, entry, _, rfl, host, path, -, -, -, hentry⟩ |
    ⟨_, _, entry, ip, rfl, i, now, -, hi, -⟩ | ⟨_, _, entry, origin, rfl, i, draw, -, hi, hsome⟩
  · exact hw.inFlight req hold
  · exact hw.router entry (List.mem_of_getElem? hentry)
  · have hentry : InFlight.Within K (.matched _ _ entry ip) :=
      hw.inFlight _ (List.mem_of_getElem? hi)
    exact hentry
  · have hentry : InFlight.Within K (.admitted _ _ entry) :=
      hw.inFlight _ (List.mem_of_getElem? hi)
    exact hentry origin (not_unhealthy_of_selectOrigin hsome).1

/-- **Events that bring allowed URLs keep all URLs allowed.** -/
theorem within_step (hw : w.Within K) (he : e.Within K env) (h : step env w e = some w') :
    w'.Within K := by
  obtain ⟨hconfig, hrouter⟩ := settings_within_step hw h
  refine ⟨hconfig, hrouter, reload_within_step hw he h, fun write hwrite => ?_,
    k8sOrigins_within_step hw he h, inFlight_within_step hw h⟩
  rcases (mem_todo_step h).2 hwrite with hmem | ⟨order, hmem⟩
  · exact hw.rebuild write hmem
  · exact within_of_mem_rebuildWrites hw.config hw.k8sOrigins hmem

end Steps

/-- The URL is that of an origin of the configuration at start or of one that the run reloads, or
the one that a service of the run is given. -/
def Named (env : Externals) (config : ProxyConfig) (events : List Event) (url : Url) : Prop :=
  (∃ origin ∈ config.origins, origin.url = url) ∨
    (∃ reloaded, .reloadStart reloaded ∈ events ∧ ∃ origin ∈ reloaded.origins, origin.url = url) ∨
    ∃ svc pool, .discover svc ∈ events ∧ serviceToOrigin env.parseUrl svc = some (pool, url)

/-- **Requests go to named addresses only.** In every run, a request is forwarded to the URL of an
origin that a configuration or a service of the run has named before. -/
theorem forwarded_address (env : Externals) (config : ProxyConfig) (events : List Event)
    (last : World) (hrun : run (step env) (init env config) events = some last)
    (origin : OriginEndpoint) (horigin : .forwarding origin ∈ last.inFlight) :
    Named env config events origin.url := by
  have hreaches : Reaches (step env) (· ∈ events) (init env config) last :=
    ⟨events, fun _ he => he, hrun⟩
  have hevent : ∀ e ∈ events, e.Within (Named env config events) env := by
    intro e he
    cases e with
    | reloadStart reloaded =>
      exact fun origin horigin => Or.inr (Or.inl ⟨reloaded, he, origin, horigin, rfl⟩)
    | discover svc => exact fun pool url hsome => Or.inr (Or.inr ⟨svc, pool, he, hsome⟩)
    | _ => trivial
  have hwithin : last.Within (Named env config events) :=
    hreaches.invariant (fun w e w' hw he h => within_step hw (hevent e he) h)
      (within_init fun origin horigin => Or.inl ⟨origin, horigin, rfl⟩)
  exact hwithin.inFlight _ horigin

/-- The address of the only request to the minimal configuration. -/
theorem forwarded_address_minimal :
    Named .none .minimal [.arrive "" "/" (.v4 0), .limit 0 0, .select 0 .zero] Url.backend := by
  refine forwarded_address .none .minimal _ _ rfl (.ofUrl Url.backend none none) ?_
  exact List.mem_singleton.2 rfl

end World

end Upstreamer
