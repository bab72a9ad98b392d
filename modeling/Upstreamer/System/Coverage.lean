import Upstreamer.System

/-!
# Histories of the visible candidates

The round-robin balancer passes over a candidate without a history. A router is therefore safe to
serve from when each of its candidates has one. Histories are never removed, so a run keeps this
exactly when each write that swaps the router installs one whose candidates already have histories
(`served_iff`); a reload and a rebuild both swap the router first and add histories afterwards.
-/

set_option autoImplicit false

namespace Upstreamer

open Foundations

/-- Every candidate of the route has a history. -/
def RouteEntry.Covered (entry : RouteEntry) (states : OriginStates) : Prop :=
  ∀ candidate ∈ entry.candidates, candidate.urlKey ∈ states

/-- Every candidate of every route has a history. -/
def Router.Covered (router : Router) (states : OriginStates) : Prop :=
  ∀ entry ∈ router.routes, entry.Covered states

theorem RouteEntry.Covered.mono {entry : RouteEntry} {states states' : OriginStates}
    (h : entry.Covered states) (hsub : ∀ key ∈ states, key ∈ states') : entry.Covered states' :=
  fun candidate hc => hsub _ (h candidate hc)

theorem Router.Covered.mono {router : Router} {states states' : OriginStates}
    (h : router.Covered states) (hsub : ∀ key ∈ states, key ∈ states') : router.Covered states' :=
  fun entry hentry => (h entry hentry).mono hsub

/-- The route that a request holds until its origin is selected. -/
def InFlight.entry? : InFlight → Option RouteEntry
  | .matched _ _ entry _ => some entry
  | .admitted _ _ entry => some entry
  | .forwarding _ => none

namespace World

/-- No request that is up for selection on a round-robin route is answered that there is no healthy
origin unless some candidate of the route is marked unhealthy. -/
def NoSpuriousRefusal (w : World) : Prop :=
  ∀ (i generation index : Nat) (entry : RouteEntry) (draw : Draw),
    w.inFlight[i]? = some (.admitted generation index entry) → entry.loadBalancer = .roundRobin →
    (∀ candidate ∈ entry.candidates,
      OriginStates.isUnhealthy w.app.originStates candidate.urlKey = false) →
    (w.app.selectOrigin generation index entry draw).1 ≠ none

/-- The visible router is safe to serve from. -/
structure Served (w : World) : Prop where
  covered : w.app.router.Covered w.app.originStates
  no_spurious_refusal : w.NoSpuriousRefusal

/-- A step that swaps the router installs one whose candidates have histories. -/
def SwapReady (w : World) (e : Event) : Prop :=
  ∀ router, w.nextWrite e = some (.swapRouter router) → router.Covered w.app.originStates

end World

/-! ## Routes have candidates -/

/-- Every route of the configuration has an origin. -/
def ProxyConfig.Stocked (config : ProxyConfig) : Prop :=
  ∀ route ∈ config.routes, route.origins ≠ []

/-- Every route of the router has a candidate. -/
def Router.Stocked (router : Router) : Prop :=
  ∀ entry ∈ router.routes, entry.candidates ≠ []

/-- What the write installs has candidates or origins for every route. -/
def Write.Stocked : Write → Prop
  | .swapRouter router => router.Stocked
  | .swapConfig config => config.Stocked
  | _ => True

theorem ProxyConfig.Accepted.stocked {fs : FileSystem} {config : ProxyConfig}
    (h : config.Accepted fs) : config.Stocked := by
  intro route hroute hnil
  have hwf := h.routes_wellFormed route hroute
  obtain ⟨pool, hpool⟩ := List.exists_mem_of_ne_nil _ hwf.pools_ne_nil
  exact hwf.origins_ne_nil pool hpool (List.flatMap_eq_nil_iff.1 hnil pool hpool)

/-- Both builders make at least one candidate of each origin. -/
theorem candidates_build_ne_nil {route : RouteConfig} (h : route.origins ≠ [])
    {poolCandidates : PoolRef → List OriginEndpoint}
    (hstatic : ∀ pool, ∀ endpoint ∈ staticCandidates pool, endpoint ∈ poolCandidates pool) :
    (RouteEntry.build poolCandidates route).candidates ≠ [] := by
  obtain ⟨origin, horigin⟩ := List.exists_mem_of_ne_nil _ h
  obtain ⟨pool, hpool, horigin⟩ := List.mem_flatMap.1 horigin
  refine List.ne_nil_of_mem (a := staticEndpoint origin) (List.mem_flatMap.2 ⟨pool, hpool, ?_⟩)
  exact hstatic pool _ (List.mem_map_of_mem horigin)

theorem ProxyConfig.Stocked.fromConfig {config : ProxyConfig} (h : config.Stocked) :
    (Router.fromConfig config).Stocked := by
  intro entry hentry
  obtain ⟨route, hroute, rfl⟩ := List.mem_map.1 hentry
  exact candidates_build_ne_nil (h route hroute) fun _ _ => id

theorem ProxyConfig.Stocked.fromConfigWithK8s {config : ProxyConfig} (h : config.Stocked)
    (k8sOrigins : K8sOrigins) : (Router.fromConfigWithK8s config k8sOrigins).Stocked := by
  intro entry hentry
  obtain ⟨route, hroute, rfl⟩ := List.mem_map.1 hentry
  exact candidates_build_ne_nil (h route hroute) fun _ _ => List.mem_append_left _

theorem stocked_of_mem_reloadWrites {config : ProxyConfig} (h : config.Stocked) {write : Write}
    (hwrite : write ∈ reloadWrites config) : write.Stocked := by
  rcases List.mem_cons.1 hwrite with rfl | hwrite
  · exact h.fromConfig
  · cases AppState.mem_reloadRest_iff.1 hwrite with
    | configured => exact h
    | _ => trivial

theorem stocked_of_mem_rebuildWrites {config : ProxyConfig} (h : config.Stocked)
    {k8sOrigins : K8sOrigins} {order : List String} {write : Write}
    (hwrite : write ∈ rebuildWrites config k8sOrigins order) : write.Stocked := by
  rcases List.mem_cons.1 hwrite with rfl | hwrite
  · exact h.fromConfigWithK8s k8sOrigins
  · obtain ⟨url, _, rfl⟩ := List.mem_map.1 hwrite
    trivial

namespace World

/-! ## The invariant -/

/-- Routes have candidates, now and after the pending writes, and the candidates of the routes that
requests hold have histories. -/
structure Sound (w : World) : Prop where
  config_stocked : w.app.config.Stocked
  router_stocked : w.app.router.Stocked
  reload_stocked : ∀ write ∈ w.reload.todo, write.Stocked
  rebuild_stocked : ∀ write ∈ w.rebuild.todo, write.Stocked
  inFlight_stocked : ∀ req ∈ w.inFlight, ∀ entry ∈ req.entry?,
    entry.candidates ≠ [] ∧ entry.Covered w.app.originStates

variable {env : Externals} {w w' : World} {e : Event}

theorem sound_init {config : ProxyConfig} (h : config.Accepted env.fs) :
    (init env config).Sound where
  config_stocked := h.stocked
  router_stocked := h.stocked.fromConfig
  reload_stocked := by
    rintro _ ⟨⟩
  rebuild_stocked := by
    rintro _ ⟨⟩
  inFlight_stocked := by
    rintro _ ⟨⟩

theorem mem_todo_of_nextWrite {write : Write} (h : w.nextWrite e = some write) :
    write ∈ w.reload.todo ∨ write ∈ w.rebuild.todo := by
  cases e with
  | reloadStep => exact Or.inl (List.mem_of_head? h)
  | rebuildStep => exact Or.inr (List.mem_of_head? h)
  | _ => cases h

/-- A route that a request holds after a step was held before, or is a route of the visible
router. -/
theorem entry_step {req : InFlight} {entry : RouteEntry} (h : step env w e = some w')
    (hreq : req ∈ w'.inFlight) (hentry : entry ∈ req.entry?) :
    (∃ held ∈ w.inFlight, entry ∈ held.entry?) ∨ entry ∈ w.app.router.routes := by
  have hold : req ∈ w.inFlight → (∃ held ∈ w.inFlight, entry ∈ held.entry?) ∨
      entry ∈ w.app.router.routes := fun hmem => Or.inl ⟨req, hmem, hentry⟩
  cases moves_of_step h with
  -- only here does a request take a route up, from the visible router
  | matched _ hindex =>
    rcases List.mem_append.1 hreq with hreq | hreq
    · exact hold hreq
    · obtain rfl := List.mem_singleton.1 hreq
      obtain rfl := Option.some.inj hentry
      exact Or.inr (List.mem_of_getElem? hindex)
  | limited hi _ => exact hold (List.mem_of_mem_eraseIdx hreq)
  | admitted hi _ =>
    rcases List.mem_or_eq_of_mem_set hreq with hreq | rfl
    · exact hold hreq
    · obtain rfl := Option.some.inj hentry
      exact Or.inl ⟨_, List.mem_of_getElem? hi, rfl⟩
  | refused hi _ => exact hold (List.mem_of_mem_eraseIdx hreq)
  | selected hi _ =>
    rcases List.mem_or_eq_of_mem_set hreq with hreq | rfl
    · exact hold hreq
    · cases hentry
  | finished hi => exact hold (List.mem_of_mem_eraseIdx hreq)
  | dropped hi => exact hold (List.mem_of_mem_eraseIdx hreq)
  | _ => exact hold hreq

/-- As long as the visible router is covered, the invariant is kept. -/
theorem sound_step (hs : w.Sound) (hcovered : w.app.router.Covered w.app.originStates)
    (h : step env w e = some w') : w'.Sound := by
  -- a write that is made now was pending before
  have hpending : ∀ write, w.nextWrite e = some write → write.Stocked := fun write hwrite => by
    rcases mem_todo_of_nextWrite hwrite with hmem | hmem
    · exact hs.reload_stocked write hmem
    · exact hs.rebuild_stocked write hmem
  have hsettings : w'.app.config.Stocked ∧ w'.app.router.Stocked := by
    cases hwrite : w.nextWrite e with
    | none =>
      have hsame := sameSettings_of_nextWrite h hwrite
      rw [hsame.config_eq, hsame.router_eq]
      exact ⟨hs.config_stocked, hs.router_stocked⟩
    | some write =>
      rw [app_of_nextWrite h hwrite]
      cases write with
      | swapRouter router => exact ⟨hs.config_stocked, hpending _ hwrite⟩
      | swapConfig config => exact ⟨hpending _ hwrite, hs.router_stocked⟩
      | _ => exact ⟨hs.config_stocked, hs.router_stocked⟩
  refine ⟨hsettings.1, hsettings.2, fun write hw => ?_, fun write hw => ?_,
    fun req hreq entry hentry => ?_⟩
  · rcases (mem_todo_step h).1 hw with hmem | ⟨config, hvalid, hmem⟩
    · exact hs.reload_stocked write hmem
    · exact stocked_of_mem_reloadWrites (validate_eq_ok_iff.1 hvalid).stocked hmem
  · rcases (mem_todo_step h).2 hw with hmem | ⟨order, hmem⟩
    · exact hs.rebuild_stocked write hmem
    · exact stocked_of_mem_rebuildWrites hs.config_stocked hmem
  · have hsub : ∀ key ∈ w.app.originStates, key ∈ w'.app.originStates :=
      fun key hkey => mem_originStates_step hkey h
    rcases entry_step h hreq hentry with ⟨held, hheld, hentry⟩ | hroute
    · obtain ⟨hne, hcov⟩ := hs.inFlight_stocked held hheld entry hentry
      exact ⟨hne, hcov.mono hsub⟩
    · exact ⟨hs.router_stocked entry hroute, (hcovered entry hroute).mono hsub⟩

/-- On a covered route some candidate is selectable unless one is marked unhealthy. -/
theorem Sound.no_spurious_refusal (hs : w.Sound) : w.NoSpuriousRefusal := by
  intro i generation index entry draw hi hroundRobin hhealthy
  obtain ⟨hne, hcovered⟩ := hs.inFlight_stocked _ (List.mem_of_getElem? hi) entry rfl
  obtain ⟨candidate, hcandidate⟩ := List.exists_mem_of_ne_nil _ hne
  -- a history that is not marked unhealthy is marked healthy; coverage says there is one
  have hselectable : OriginStates.isHealthy w.app.originStates candidate.urlKey = true := by
    obtain ⟨st, hst⟩ := Finmap.mem_iff.1 (hcovered candidate hcandidate)
    have hflag := hhealthy candidate hcandidate
    simp only [OriginStates.isUnhealthy, hst, Bool.not_eq_false'] at hflag
    simp only [OriginStates.isHealthy, hst, hflag]
  have hsome : (RoundRobinBalancer.selectOrigin (w.app.counters (generation, index))
      entry.candidates w.app.originStates).1.isSome :=
    RoundRobinBalancer.selectOrigin_isSome_iff.2 ⟨candidate, hcandidate, hselectable⟩
  intro hnone
  simp only [AppState.selectOrigin, hroundRobin, LbAlgorithm.selectOrigin] at hnone
  rw [hnone] at hsome
  cases hsome

/-- The visible router stays covered exactly when the step is ready to swap. -/
theorem swapReady_iff_covered (hcovered : w.app.router.Covered w.app.originStates)
    (h : step env w e = some w') :
    w.SwapReady e ↔ w'.app.router.Covered w'.app.originStates := by
  have hsub : ∀ key ∈ w.app.originStates, key ∈ w'.app.originStates :=
    fun key hkey => mem_originStates_step hkey h
  cases hwrite : w.nextWrite e with
  | none =>
    refine iff_of_true (fun router hrouter => ?_) ?_
    · rw [hwrite] at hrouter
      cases hrouter
    · rw [(sameSettings_of_nextWrite h hwrite).router_eq]
      exact hcovered.mono hsub
  | some write =>
    have happ := app_of_nextWrite h hwrite
    cases write with
    -- the histories stay as they are in this step, so the condition is coverage itself
    | swapRouter router =>
      rw [happ, SwapReady, hwrite]
      simp [AppState.apply]
    | _ =>
      refine iff_of_true (fun router hrouter => ?_) ?_
      · rw [hwrite] at hrouter
        cases hrouter
      · rw [happ] at hsub ⊢
        exact hcovered.mono hsub

theorem covered_init (env : Externals) (config : ProxyConfig) :
    (init env config).app.router.Covered (init env config).app.originStates := by
  intro entry hentry candidate hcandidate
  obtain ⟨route, hroute, rfl⟩ := List.mem_map.1 hentry
  obtain ⟨pool, hpool, hcandidate⟩ := List.mem_flatMap.1 hcandidate
  obtain ⟨origin, horigin, rfl⟩ := List.mem_map.1 hcandidate
  refine AppState.mem_originStates_new.2 (asStr_mem_originKeys ?_)
  exact List.mem_flatMap.2 ⟨route, hroute, List.mem_flatMap.2 ⟨pool, hpool, horigin⟩⟩

/-- **Requests are served from a covered router throughout a run exactly when each swap of the
router installs candidates that already have histories.** -/
theorem served_iff (env : Externals) (config : ProxyConfig)
    (hvalid : config.validate env.fs = .ok ()) (events : List Event) (last : World)
    (hrun : run (step env) (init env config) events = some last) :
    Throughout (step env) Served (init env config) events ↔
      Along (step env) SwapReady (init env config) events := by
  have hsound := sound_init (validate_eq_ok_iff.1 hvalid)
  refine (along_iff_throughout (J := Sound) (fun w e w' hs hP h => sound_step hs hP.covered h)
    (fun w e w' hs hP h => ?_) hsound ⟨covered_init env config, hsound.no_spurious_refusal⟩
    hrun).symm
  rw [swapReady_iff_covered hP.covered h]
  exact ⟨fun hcovered => ⟨hcovered, (sound_step hs hP.covered h).no_spurious_refusal⟩,
    Served.covered⟩

/-- The events up to the selection of a request that arrives right after the first write of a
reload. -/
def swapWindow (config : ProxyConfig) : List Event :=
  [.reloadStart config, .reloadStep, .arrive "" "/" (.v4 0), .limit 0 0]

/-- A reload of the configuration in force opens no window. -/
theorem served_swapWindow_minimal :
    Throughout (step .none) Served (init .none ProxyConfig.minimal)
      (swapWindow ProxyConfig.minimal) := by
  refine (served_iff .none ProxyConfig.minimal (by decide) (swapWindow ProxyConfig.minimal) _
    rfl).2 ⟨?_, fun w hw => ?_⟩
  · rintro _ ⟨⟩
  obtain rfl := Option.some.inj hw
  refine ⟨?_, fun w hw => ?_⟩
  · intro router hrouter
    cases hrouter
    exact covered_init .none ProxyConfig.minimal
  obtain rfl := Option.some.inj hw
  refine ⟨?_, fun w hw => ?_⟩
  · rintro _ ⟨⟩
  obtain rfl := Option.some.inj hw
  refine ⟨?_, fun _ _ => trivial⟩
  rintro _ ⟨⟩

/-- **A reload that moves the origin opens a window in which the round-robin route has a candidate
without a history, and a request is refused although no origin is unhealthy.** -/
theorem refused_in_swapWindow_moved :
    ProxyConfig.minimal.validate .empty = .ok () ∧ ProxyConfig.moved.validate .empty = .ok () ∧
      ∃ w, run (step .none) (init .none ProxyConfig.minimal) (swapWindow ProxyConfig.moved) =
          some w ∧
        ¬ w.app.router.Covered w.app.originStates ∧ ¬ w.NoSpuriousRefusal := by
  refine ⟨by decide, by decide, _, rfl, fun h => ?_, fun h => ?_⟩
  · have hmem := h _ (List.mem_singleton.2 rfl) _ (List.mem_singleton.2 rfl)
    exact absurd hmem (by decide)
  · exact h 0 1 0 _ .zero rfl rfl (by decide) (by decide)

end World

end Upstreamer
