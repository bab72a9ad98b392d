import Upstreamer.Health.Discovery
import Upstreamer.System.Histories

/-!
# What the origin gauges count

The metrics thread reports the number of histories as the number of origins, and the number of
histories marked healthy. A reload and a rebuild replace the router but only ever add histories. So
the gauges count the origins that are configured or discovered exactly as long as no update takes an
origin out of the router and discovery holds nothing for a pool that the configuration does not have
(`originsExact_iff`).
-/

set_option autoImplicit false

namespace Upstreamer

open Foundations

namespace AppState

/-- The gauge `upstreamer_total_origins` of `collect`. -/
def totalOrigins (app : AppState) : Nat := app.originStates.keys.card

/-- The gauge `upstreamer_healthy_origins` of `collect`. -/
def healthyOrigins (app : AppState) : Nat :=
  (app.originStates.keys.filter fun key => app.originStates.isHealthy key = true).card

/-- The histories are those of the candidates of the router, and the gauges count these. -/
structure OriginsExact (app : AppState) : Prop where
  keys : ∀ key, key ∈ app.originStates ↔ key ∈ app.router.candidateKeys
  total : app.totalOrigins = app.router.candidateKeys.toFinset.card
  healthy : app.healthyOrigins = (app.router.candidateKeys.toFinset.filter fun key =>
    app.originStates.isHealthy key = true).card

/-- The gauges follow from the keys. -/
theorem originsExact_iff_keys {app : AppState} :
    app.OriginsExact ↔ ∀ key, key ∈ app.originStates ↔ key ∈ app.router.candidateKeys := by
  refine ⟨OriginsExact.keys, fun h => ?_⟩
  have hkeys : app.originStates.keys = app.router.candidateKeys.toFinset := by
    ext key
    rw [Finmap.mem_keys, List.mem_toFinset, h key]
  refine ⟨h, ?_, ?_⟩
  · rw [totalOrigins, hkeys]
  · rw [healthyOrigins, hkeys]

end AppState

section Keys

variable {config : ProxyConfig} {k8sOrigins : K8sOrigins} {key : String}

/-- A rebuild adds a history for each URL that discovery holds. -/
theorem mem_originStates_rebuildRouter {app : AppState} {order : List String}
    (horder : k8sOrigins.IterationOrder order) :
    key ∈ (app.rebuildRouter k8sOrigins order).originStates ↔
      k8sOrigins.Holds key ∨ key ∈ app.originStates := by
  rw [rebuildRouter_eq]
  show key ∈ Dict.orInsertAll _ _ _ ↔ _
  rw [Dict.mem_orInsertAll]
  exact or_congr_left (mem_flatMap_iff_holds horder)

end Keys

namespace Discovered

variable {fs : FileSystem} {parseUrl : String → Option Url}

/-- The update takes no candidate out of the router, and after it discovery holds URLs only for
pools of the configuration. -/
def NoOriginLeaves (fs : FileSystem) (parseUrl : String → Option Url) (s : Discovered) :
    Update → Prop
  | .service svc _ => ∀ pool url, serviceToOrigin parseUrl svc = some (pool, url) →
      (∀ key ∈ s.app.router.candidateKeys,
          InForce s.app.config (s.k8sOrigins.push pool url) key) ∧
        ∀ key, (s.k8sOrigins.push pool url).Holds key →
          InForce s.app.config (s.k8sOrigins.push pool url) key
  | .reload loaded => ∀ config ∈ loaded, config.Accepted fs →
      ∀ key ∈ s.app.router.candidateKeys, key ∈ config.originKeys

/-- The origins of the configuration in force have histories. -/
def ConfigStored (s : Discovered) : Prop :=
  ∀ key ∈ s.app.config.originKeys, key ∈ s.app.originStates

/-- What a step does: nothing, a rebuild for a service, or a reload that is accepted. -/
theorem step_cases {s t : Discovered} {u : Update} (h : step fs parseUrl s u = some t) :
    (t = s ∧ NoOriginLeaves fs parseUrl s u) ∨
      (∃ svc order pool url, u = .service svc order ∧
        serviceToOrigin parseUrl svc = some (pool, url) ∧
        (s.k8sOrigins.push pool url).IterationOrder order ∧
        t = ⟨s.app.rebuildRouter (s.k8sOrigins.push pool url) order,
          s.k8sOrigins.push pool url⟩) ∨
      ∃ config, u = .reload (some config) ∧ config.Accepted fs ∧
        t = { s with app := s.app.reload config } := by
  cases u with
  | service svc order =>
    simp only [step] at h
    split at h
    · next hnone =>
      obtain rfl := Option.some.inj h
      refine Or.inl ⟨rfl, fun pool url hsome => ?_⟩
      rw [hnone] at hsome
      cases hsome
    · next pool url hsome =>
      split at h
      · next horder =>
        obtain rfl := Option.some.inj h
        exact Or.inr (Or.inl ⟨svc, order, pool, url, rfl, hsome, horder, rfl⟩)
      · cases h
  | reload loaded =>
    obtain rfl := Option.some.inj h
    by_cases hacc : ∃ config ∈ loaded, config.Accepted fs
    · obtain ⟨config, rfl, hconfig⟩ := hacc
      refine Or.inr (Or.inr ⟨config, rfl, hconfig, ?_⟩)
      rw [AppState.watchConfig_of_accepted hconfig]
    · refine Or.inl ⟨?_, fun config hc hconfig => absurd ⟨config, hc, hconfig⟩ hacc⟩
      rw [AppState.watchConfig_of_refused fun config hc hconfig => hacc ⟨config, hc, hconfig⟩]

theorem configStored_step {s t : Discovered} {u : Update} (hs : s.ConfigStored)
    (h : step fs parseUrl s u = some t) : t.ConfigStored := by
  rcases step_cases h with ⟨rfl, -⟩ | ⟨_, _, pool, url, -, -, horder, rfl⟩ | ⟨config, -, -, rfl⟩
  · exact hs
  · intro key hkey
    have hkey : key ∈ s.app.config.originKeys := by
      rw [rebuildRouter_eq] at hkey
      exact hkey
    exact (mem_originStates_rebuildRouter horder).2 (Or.inr (hs key hkey))
  · intro key hkey
    rw [AppState.reload_eq] at hkey ⊢
    exact Dict.mem_orInsertAll.2 (Or.inl hkey)

/-- A step keeps the gauges exact exactly when no origin leaves. -/
theorem noOriginLeaves_iff {s t : Discovered} {u : Update} (hs : s.ConfigStored)
    (hexact : s.app.OriginsExact) (h : step fs parseUrl s u = some t) :
    NoOriginLeaves fs parseUrl s u ↔ t.app.OriginsExact := by
  rcases step_cases h with ⟨rfl, hnone⟩ | ⟨svc, order, pool, url, rfl, hsome, horder, rfl⟩ |
    ⟨config, rfl, hconfig, rfl⟩
  · exact iff_of_true hnone hexact
  · have hrouter : ∀ key,
        key ∈ (s.app.rebuildRouter (s.k8sOrigins.push pool url) order).router.candidateKeys ↔
          InForce s.app.config (s.k8sOrigins.push pool url) key := by
      intro key
      rw [rebuildRouter_eq]
      exact mem_candidateKeys_fromConfigWithK8s
    rw [AppState.originsExact_iff_keys]
    simp only [hrouter, mem_originStates_rebuildRouter horder, hexact.keys]
    constructor
    · intro hleaves key
      obtain ⟨hstay, hheld⟩ := hleaves pool url hsome
      constructor
      · rintro (hkey | hkey)
        · exact hheld key hkey
        · exact hstay key hkey
      · rintro (hkey | ⟨_, -, pool', -, urls, hurls, url', hurl', rfl⟩)
        · exact Or.inr ((hexact.keys key).1 (hs key hkey))
        · exact Or.inl ⟨pool'.name, urls, hurls, url', hurl', rfl⟩
    · intro hkeys pool' url' hsome'
      cases hsome.symm.trans hsome'
      exact ⟨fun key hkey => (hkeys key).1 (Or.inr hkey),
        fun key hkey => (hkeys key).1 (Or.inl hkey)⟩
  · rw [AppState.originsExact_iff_keys, AppState.reload_eq]
    show _ ↔ ∀ key, key ∈ Dict.orInsertAll _ _ _ ↔ key ∈ (Router.fromConfig config).candidateKeys
    simp only [Dict.mem_orInsertAll, mem_candidateKeys_fromConfig, hexact.keys]
    constructor
    · intro hleaves key
      refine ⟨fun hkey => ?_, Or.inl⟩
      rcases hkey with hkey | hkey
      · exact hkey
      · exact hleaves config rfl hconfig key hkey
    · intro hkeys config' hconfig' _ key hkey
      obtain rfl := Option.some.inj hconfig'
      exact (hkeys key).1 (Or.inr hkey)

end Discovered

/-- At start every origin of the configuration has a history and is a candidate. -/
theorem originsExact_new (fs : FileSystem) (config : ProxyConfig) :
    (AppState.new fs config).OriginsExact := by
  rw [AppState.originsExact_iff_keys]
  intro key
  rw [AppState.mem_originStates_new]
  exact mem_candidateKeys_fromConfig.symm

/-- **When the gauges are exact.** In a run of completed reloads and rebuilds the histories are
always those of the candidates of the router, and the gauges count these, exactly when no update of
the run takes a candidate out of the router and no rebuild leaves discovery with a URL for a pool
that the configuration does not have. -/
theorem originsExact_iff (fs : FileSystem) (parseUrl : String → Option Url) (config : ProxyConfig)
    (updates : List Update) (last : Discovered)
    (hrun : run (Discovered.step fs parseUrl) (Discovered.start fs config) updates = some last) :
    Throughout (Discovered.step fs parseUrl) (fun s => s.app.OriginsExact)
        (Discovered.start fs config) updates ↔
      Along (Discovered.step fs parseUrl) (Discovered.NoOriginLeaves fs parseUrl)
        (Discovered.start fs config) updates := by
  refine (along_iff_throughout (J := Discovered.ConfigStored)
    (fun s u t hs _ h => Discovered.configStored_step hs h)
    (fun s u t hs hexact h => Discovered.noOriginLeaves_iff hs hexact h) ?_
    (originsExact_new fs config) hrun).symm
  intro key hkey
  exact AppState.mem_originStates_new.2 hkey

/-- A service for a pool of the configuration only adds an origin. -/
theorem originsExact_clusterBackend :
    Throughout (Discovered.step .empty parseClusterBackend) (fun s => s.app.OriginsExact)
      (Discovered.start .empty clusterConfig)
      [.service (.plain "backend" "10.0.0.7" 8080) ["backend"]] := by
  refine (originsExact_iff .empty parseClusterBackend clusterConfig _ _ rfl).2
    ⟨fun pool url hsome => ?_, fun _ _ => trivial⟩
  have horigin : serviceToOrigin parseClusterBackend (.plain "backend" "10.0.0.7" 8080) =
      some ("backend", Url.clusterBackend) := by
    decide
  cases horigin.symm.trans hsome
  have horder : K8sOrigins.IterationOrder (K8sOrigins.push ∅ "backend" Url.clusterBackend)
      ["backend"] := by
    decide
  constructor
  · intro key hkey
    exact Or.inl (mem_candidateKeys_fromConfig.1 hkey)
  · intro key hholds
    have hkey := (mem_flatMap_iff_holds horder).2 hholds
    clear hholds hsome
    rw [← mem_candidateKeys_fromConfigWithK8s]
    revert key
    decide

/-- **An origin that is moved is still counted.** After a reload of the minimal configuration with
its origin on another port, two origins are reported and one is configured. -/
theorem not_originsExact_moved :
    ProxyConfig.moved.validate .empty = .ok () ∧
      ∃ last, run (Discovered.step .empty parseClusterBackend)
          (Discovered.start .empty .minimal) [.reload (some .moved)] = some last ∧
        ProxyConfig.moved.originKeys = ["http://127.0.0.1:4000/"] ∧
        "http://127.0.0.1:3000/" ∈ last.app.originStates ∧
        last.app.totalOrigins = 2 ∧ ¬ last.app.OriginsExact := by
  refine ⟨by decide, _, rfl, by decide, by decide, by decide, fun h => ?_⟩
  exact absurd ((h.keys "http://127.0.0.1:3000/").1 (by decide)) (by decide)

end Upstreamer
