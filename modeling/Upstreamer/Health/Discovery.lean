import Upstreamer.Config.Reload
import Upstreamer.Foundations.Machine

/-!
# Service discovery

Discovery keeps a map from pool names to the URLs of the services it has seen, and after each
service it rebuilds the router from the configuration in force and that map. A reload builds the
router without the map. Over runs of both, one after another, `discovered_kept_iff` says exactly
when the router keeps what discovery holds: when no reload brings a pool under whose name discovery
holds anything.

The API objects are reduced to the fields that are read, and parsing a URL is a parameter.
-/

set_option autoImplicit false

namespace Upstreamer

open Foundations

structure ServiceSpec where
  clusterIp : Option String
  ports : Option (List Int32)

/-- A service object. -/
structure Service where
  name : Option String
  annotations : Option (Dict String String)
  spec : Option ServiceSpec

def poolAnnotation : String := "upstreamer/pool"

def portAnnotation : String := "upstreamer/port"

/-- `str::parse::<u16>`: digits after an optional plus sign, in range. -/
def parseU16 (s : String) : Option UInt16 :=
  let digits : List Char := match s.toList with
    | '+' :: rest => rest
    | l => l
  let n : Nat := digits.foldl (fun n c => 10 * n + (c.toNat - '0'.toNat)) 0
  if digits ≠ [] ∧ digits.all Char.isDigit ∧ n < 65536 then some (UInt16.ofNat n) else none

/-- `service_to_origin`. -/
def serviceToOrigin (parseUrl : String → Option Url) (svc : Service) : Option (String × Url) := do
  let name ← svc.name
  let spec ← svc.spec
  let clusterIp ← spec.clusterIp
  let portStr ← (svc.annotations.bind fun a => a.lookup portAnnotation) <|>
    ((spec.ports.bind fun ports => ports.head?).map fun p => toString p.toInt)
  let port ← parseU16 portStr
  let url ← parseUrl ("http://" ++ clusterIp ++ ":" ++ toString port.toNat)
  -- a service without the annotation is held under its own name
  let pool := (svc.annotations.bind fun a => a.lookup poolAnnotation).getD name
  some (pool, url)

/-- The entry of a pool after a service: cleared, then the URL of the service. -/
def K8sOrigins.push (k8sOrigins : K8sOrigins) (pool : String) (url : Url) : K8sOrigins :=
  k8sOrigins.insert pool [url]

/-- The list names each key of the map once, in the order in which the map is traversed. -/
def K8sOrigins.IterationOrder (k8sOrigins : K8sOrigins) (order : List String) : Prop :=
  (order : Multiset String) = k8sOrigins.keys.val

instance (k8sOrigins : K8sOrigins) (order : List String) :
    Decidable (k8sOrigins.IterationOrder order) :=
  inferInstanceAs (Decidable ((order : Multiset String) = k8sOrigins.keys.val))

/-- The writes of `rebuild_router` once it has loaded the configuration. -/
def rebuildWrites (config : ProxyConfig) (k8sOrigins : K8sOrigins) (order : List String) :
    List Write :=
  .swapRouter (Router.fromConfigWithK8s config k8sOrigins) ::
    (order.flatMap fun pool => (k8sOrigins.lookup pool).getD []).map fun url =>
      .addOriginState url.asStr

/-- `rebuild_router`, undisturbed. -/
def AppState.rebuildRouter (app : AppState) (k8sOrigins : K8sOrigins) (order : List String) :
    AppState :=
  app.applyAll (rebuildWrites app.config k8sOrigins order)

theorem rebuildRouter_eq (app : AppState) (k8sOrigins : K8sOrigins) (order : List String) :
    app.rebuildRouter k8sOrigins order =
      { app with
        router := Router.fromConfigWithK8s app.config k8sOrigins
        generation := app.generation + 1
        originStates := Dict.orInsertAll
          ((order.flatMap fun pool => (k8sOrigins.lookup pool).getD []).map Url.asStr)
          OriginState.new app.originStates } := by
  have h := AppState.applyAll_addOriginStates
    (app.apply (.swapRouter (Router.fromConfigWithK8s app.config k8sOrigins)))
    ((order.flatMap fun pool => (k8sOrigins.lookup pool).getD []).map Url.asStr)
  rw [List.map_map] at h
  exact h

/-! ## Runs of services and reloads, one after another -/

/-- The shared state with the map that discovery owns. -/
structure Discovered where
  app : AppState
  k8sOrigins : K8sOrigins

/-- A service that the watcher reports, with the order in which its rebuild traverses the map, or a
change of the configuration file, with what loading it returns. -/
inductive Update where
  | service (svc : Service) (order : List String)
  | reload (loaded : Option ProxyConfig)

namespace Discovered

variable (fs : FileSystem) (parseUrl : String → Option Url)

def start (config : ProxyConfig) : Discovered := ⟨AppState.new fs config, ∅⟩

def step (s : Discovered) : Update → Option Discovered
  | .service svc order =>
      match serviceToOrigin parseUrl svc with
      | none => some s
      | some (pool, url) =>
          let k8sOrigins := s.k8sOrigins.push pool url
          if k8sOrigins.IterationOrder order then
            some ⟨s.app.rebuildRouter k8sOrigins order, k8sOrigins⟩
          else
            none
  | .reload loaded => some { s with app := AppState.watchConfig fs s.app loaded }

/-- What discovery holds is in force: the router is the one built from the configuration and the
map, and each URL held for the name of a pool is a candidate of each route with such a pool. -/
structure Kept (s : Discovered) : Prop where
  router_eq : s.app.router = Router.fromConfigWithK8s s.app.config s.k8sOrigins
  candidate : List.Forall₂
    (fun route entry => ∀ pool ∈ route.pools, ∀ urls, s.k8sOrigins.lookup pool.name = some urls →
      ∀ url ∈ urls, ∃ endpoint ∈ entry.candidates, endpoint.url = url)
    s.app.config.routes s.app.router.routes

/-- A reload that succeeds brings no pool under whose name discovery holds an entry. -/
def NoDiscoveredPool (s : Discovered) : Update → Prop
  | .service _ _ => True
  | .reload loaded => ∀ config ∈ loaded, config.Accepted fs →
      ∀ route ∈ config.routes, ∀ pool ∈ route.pools, pool.name ∉ s.k8sOrigins

variable {fs parseUrl}

/-- No entry of the map is empty. -/
def NoEmptyEntry (s : Discovered) : Prop :=
  ∀ pool urls, s.k8sOrigins.lookup pool = some urls → urls ≠ []

theorem noEmptyEntry_step {s t : Discovered} {u : Update} (hs : s.NoEmptyEntry)
    (h : step fs parseUrl s u = some t) : t.NoEmptyEntry := by
  cases u with
  | reload loaded =>
    obtain rfl := Option.some.inj h
    exact hs
  | service svc order =>
    simp only [step] at h
    split at h
    · obtain rfl := Option.some.inj h
      exact hs
    · next pool url _ =>
      split at h
      · obtain rfl := Option.some.inj h
        intro other urls hlookup
        by_cases hother : other = pool
        · subst hother
          have hlookup : (s.k8sOrigins.insert other [url]).lookup other = some urls := hlookup
          rw [Finmap.lookup_insert, Option.some.injEq] at hlookup
          exact hlookup ▸ List.cons_ne_nil _ _
        · have hlookup : (s.k8sOrigins.insert pool [url]).lookup other = some urls := hlookup
          rw [Finmap.lookup_insert_of_ne _ hother] at hlookup
          exact hs other urls hlookup
      · simp at h

/-- Without empty entries, a pool gets no candidate exactly when its name is no key. -/
theorem k8sCandidates_eq_nil_iff {s : Discovered} (hs : s.NoEmptyEntry) {pool : PoolRef} :
    k8sCandidates s.k8sOrigins pool = [] ↔ pool.name ∉ s.k8sOrigins := by
  rw [← Finmap.lookup_eq_none, k8sCandidates_eq_nil, Option.eq_none_iff_forall_ne_some]
  refine forall_congr' fun urls => ⟨fun hnil hlookup => ?_, fun hnone hlookup => ?_⟩
  · exact hs _ _ hlookup (hnil hlookup)
  · exact absurd hlookup hnone

/-- The candidates follow from the router. -/
theorem kept_iff {s : Discovered} :
    s.Kept ↔ s.app.router = Router.fromConfigWithK8s s.app.config s.k8sOrigins := by
  refine ⟨Kept.router_eq, fun h => ⟨h, ?_⟩⟩
  rw [h, Router.fromConfigWithK8s, List.forall₂_map_right_iff, List.forall₂_same]
  intro route _ pool hpool urls hurls url hurl
  refine ⟨k8sEndpoint url, List.mem_flatMap.2 ⟨pool, hpool, ?_⟩, rfl⟩
  exact List.mem_append_right _ (mem_k8sCandidates.2 ⟨urls, hurls, url, hurl, rfl⟩)

theorem kept_start (config : ProxyConfig) : (start fs config).Kept :=
  kept_iff.2 (fromConfigWithK8s_empty config).symm

/-- A service leaves the router with everything that discovery holds; a reload does so exactly when
it brings no pool that discovery knows. -/
theorem noDiscoveredPool_iff_kept {s t : Discovered} {u : Update} (hs : s.NoEmptyEntry)
    (hkept : s.Kept) (h : step fs parseUrl s u = some t) :
    NoDiscoveredPool fs s u ↔ t.Kept := by
  cases u with
  | service svc order =>
    refine iff_of_true trivial ?_
    simp only [step] at h
    split at h
    · obtain rfl := Option.some.inj h
      exact hkept
    · split at h
      · obtain rfl := Option.some.inj h
        rw [kept_iff, rebuildRouter_eq]
      · simp at h
  | reload loaded =>
    obtain rfl := Option.some.inj h
    -- a reload that is refused changes nothing; one that is accepted uses the static builder
    by_cases hacc : ∃ config ∈ loaded, config.Accepted fs
    · obtain ⟨config, rfl, hconfig⟩ := hacc
      rw [kept_iff, AppState.watchConfig_of_accepted hconfig, AppState.reload_eq]
      show _ ↔ Router.fromConfig config = Router.fromConfigWithK8s config s.k8sOrigins
      rw [fromConfig_eq_iff]
      simp only [k8sCandidates_eq_nil_iff hs, NoDiscoveredPool, Option.mem_def,
        Option.some.injEq, forall_eq', hconfig, true_imp_iff]
    · rw [AppState.watchConfig_of_refused fun config hc hacc' => hacc ⟨config, hc, hacc'⟩]
      refine iff_of_true ?_ hkept
      intro config hc hacc'
      exact absurd ⟨config, hc, hacc'⟩ hacc

end Discovered

/-- **Discovered origins survive every update of a run exactly when no reload of it brings a pool
under whose name discovery holds an origin.** -/
theorem discovered_kept_iff (fs : FileSystem) (parseUrl : String → Option Url)
    (config : ProxyConfig) (updates : List Update) (last : Discovered)
    (hrun : run (Discovered.step fs parseUrl) (Discovered.start fs config) updates = some last) :
    Throughout (Discovered.step fs parseUrl) Discovered.Kept (Discovered.start fs config)
        updates ↔
      Along (Discovered.step fs parseUrl) (Discovered.NoDiscoveredPool fs)
        (Discovered.start fs config) updates := by
  refine (along_iff_throughout (J := Discovered.NoEmptyEntry)
    (fun s u t hs _ h => Discovered.noEmptyEntry_step hs h)
    (fun s u t hs hkept h => Discovered.noDiscoveredPool_iff_kept hs hkept h) ?_
    (Discovered.kept_start config) hrun).symm
  intro pool urls h
  have h : (∅ : K8sOrigins).lookup pool = some urls := h
  simp at h

/-! ## A reload after a service -/

/-- The minimal configuration with discovery switched on. -/
def clusterConfig : ProxyConfig := { ProxyConfig.minimal with kubernetes := some ⟨none, none⟩ }

/-- A service with a cluster address and one port, without annotations. -/
def Service.plain (name clusterIp : String) (port : Int32) : Service where
  name := some name
  annotations := none
  spec := some ⟨some clusterIp, some [port]⟩

/-- `http://10.0.0.7:8080`, as the crate parses it. -/
def Url.clusterBackend : Url := Url.httpRoot "10.0.0.7" (some 8080)

/-- What the crate returns for the text of that URL. -/
def parseClusterBackend (text : String) : Option Url :=
  if text = "http://10.0.0.7:8080" then some Url.clusterBackend else none

/-- A service of another name leaves nothing that a reload could drop. -/
theorem discovered_kept_metrics :
    Throughout (Discovered.step .empty parseClusterBackend) Discovered.Kept
      (Discovered.start .empty clusterConfig)
      [.service (.plain "metrics" "10.0.0.7" 8080) ["metrics"], .reload (some clusterConfig)] := by
  refine (discovered_kept_iff .empty parseClusterBackend clusterConfig _ _ rfl).2
    ⟨trivial, fun t ht => ⟨?_, fun _ _ => trivial⟩⟩
  obtain rfl := Option.some.inj ht
  intro config hconfig _
  obtain rfl := Option.some.inj hconfig
  decide

/-- **A reload of the configuration in force drops a discovered origin.** The service is held for
the pool `backend` and was a candidate before the reload. -/
theorem reload_drops_discovered :
    clusterConfig.validate .empty = .ok () ∧
      ∃ discovered reloaded,
        run (Discovered.step .empty parseClusterBackend) (Discovered.start .empty clusterConfig)
          [.service (.plain "backend" "10.0.0.7" 8080) ["backend"]] = some discovered ∧
        discovered.step .empty parseClusterBackend (.reload (some clusterConfig)) =
          some reloaded ∧
        discovered.app.router.routes.map (fun entry => entry.candidates.map OriginEndpoint.url) =
          [[Url.backend, Url.clusterBackend]] ∧
        reloaded.k8sOrigins.lookup "backend" = some [Url.clusterBackend] ∧
        reloaded.app.router.routes.map (fun entry => entry.candidates.map OriginEndpoint.url) =
          [[Url.backend]] ∧
        ¬ reloaded.Kept := by
  refine ⟨by decide, _, _, rfl, rfl, by decide, by decide, by decide, fun h => ?_⟩
  exact absurd h.router_eq (by decide)

end Upstreamer
