import Upstreamer.Health.Discovery

/-!
# Services that share a pool

The map of discovery is keyed by pools, and the entry of a pool is replaced by each service that is
mapped to it. After any sequence of services that keep their pools and URLs, a pool that one of them
is mapped to holds one URL, that of the last of them (`lookup_of_run`). So nothing is missing, and
the order of the services does not matter, exactly when services with one pool have one URL
(`complete_iff`).
-/

set_option autoImplicit false

namespace Upstreamer

open Foundations

universe u

/-- The URLs held for a pool. -/
def K8sOrigins.urls (k8sOrigins : K8sOrigins) (pool : String) : List Url :=
  (k8sOrigins.lookup pool).getD []

/-- A service that is applied: which one it is, its data, and the order in which the rebuild after
it traverses the map. -/
structure ServiceEvent (ι : Type u) where
  id : ι
  svc : Service
  order : List String

def ServiceEvent.update {ι : Type u} (event : ServiceEvent ι) : Update :=
  .service event.svc event.order

namespace Discovered

variable {ι : Type u}

/-- The map holds, and the routes with their pools have as candidates, the URLs of all services. -/
structure Complete (assign : ι → Option (String × Url)) (ids : List ι) (s : Discovered) : Prop where
  held : ∀ i ∈ ids, ∀ pool url, assign i = some (pool, url) → url ∈ s.k8sOrigins.urls pool
  candidate : List.Forall₂
    (fun route entry => ∀ pool ∈ route.pools, ∀ i ∈ ids, ∀ url, assign i = some (pool.name, url) →
      ∃ endpoint ∈ entry.candidates, endpoint.url = url)
    s.app.config.routes s.app.router.routes

section Order

variable (fs : FileSystem) (parseUrl : String → Option Url) (config : ProxyConfig)

/-- However the events are ordered, the pools hold the same URLs after them. -/
def OrderFree (events : List (ServiceEvent ι)) (last : Discovered) : Prop :=
  ∀ (events' : List (ServiceEvent ι)) (last' : Discovered),
    List.Perm (events'.map fun e => (e.id, e.svc)) (events.map fun e => (e.id, e.svc)) →
    run (step fs parseUrl) (start fs config) (events'.map ServiceEvent.update) = some last' →
    ∀ pool url, url ∈ last'.k8sOrigins.urls pool ↔ url ∈ last.k8sOrigins.urls pool

end Order

/-- Services with one pool have one URL. -/
def OneUrlPerPool (assign : ι → Option (String × Url)) (ids : List ι) : Prop :=
  ∀ i ∈ ids, ∀ j ∈ ids, ∀ pool url url', assign i = some (pool, url) →
    assign j = some (pool, url') → url = url'

section Runs

variable {fs : FileSystem} {parseUrl : String → Option Url} {assign : ι → Option (String × Url)}
  {s t : Discovered}

/-- One service replaces the entry of its pool and leaves the others. -/
theorem lookup_of_step {svc : Service} {order : List String}
    (h : step fs parseUrl s (.service svc order) = some t) (pool : String) :
    (∃ url, serviceToOrigin parseUrl svc = some (pool, url) ∧
        t.k8sOrigins.lookup pool = some [url]) ∨
      ((∀ url, serviceToOrigin parseUrl svc ≠ some (pool, url)) ∧
        t.k8sOrigins.lookup pool = s.k8sOrigins.lookup pool) := by
  simp only [step] at h
  split at h
  · next hnone =>
    obtain rfl := Option.some.inj h
    exact Or.inr ⟨fun url => by simp [hnone], rfl⟩
  · next own url hsome =>
    split at h
    · obtain rfl := Option.some.inj h
      by_cases hpool : pool = own
      · subst hpool
        exact Or.inl ⟨url, hsome, Finmap.lookup_insert _⟩
      · refine Or.inr ⟨fun url' hsome' => hpool ?_, Finmap.lookup_insert_of_ne _ hpool⟩
        rw [hsome] at hsome'
        exact (Prod.mk.inj (Option.some.inj hsome')).1.symm
    · cases h

/-- **What a run of services leaves in the map.** A pool holds the URL of some service of the run
that is mapped to it; when there is none it holds what it held before. -/
theorem lookup_of_run {events : List (ServiceEvent ι)}
    (hassign : ∀ e ∈ events, serviceToOrigin parseUrl e.svc = assign e.id)
    (hrun : run (step fs parseUrl) s (events.map ServiceEvent.update) = some t) (pool : String) :
    (∃ e ∈ events, ∃ url, assign e.id = some (pool, url) ∧
        t.k8sOrigins.lookup pool = some [url]) ∨
      ((∀ e ∈ events, ∀ url, assign e.id ≠ some (pool, url)) ∧
        t.k8sOrigins.lookup pool = s.k8sOrigins.lookup pool) := by
  induction events generalizing s with
  | nil =>
    cases hrun
    exact Or.inr ⟨fun _ he => absurd he List.not_mem_nil, rfl⟩
  | cons e events ih =>
    obtain ⟨u, hu, hrun⟩ := run_cons_eq_some.1 hrun
    have hhead := hassign e List.mem_cons_self
    rcases ih (fun e he => hassign e (List.mem_cons_of_mem _ he)) hrun with
      ⟨e', he', url, hurl, hlookup⟩ | ⟨hnone, hlookup⟩
    · exact Or.inl ⟨e', List.mem_cons_of_mem _ he', url, hurl, hlookup⟩
    -- no later service has this pool, so it holds what the first one left
    · rcases lookup_of_step hu pool with ⟨url, hsome, hstep⟩ | ⟨hother, hstep⟩
      · rw [hhead] at hsome
        exact Or.inl ⟨e, List.mem_cons_self, url, hsome, hlookup.trans hstep⟩
      · rw [hhead] at hother
        refine Or.inr ⟨fun e' he' => ?_, hlookup.trans hstep⟩
        rcases List.mem_cons.1 he' with rfl | he'
        · exact hother
        · exact hnone e' he'

/-- After services alone the router is the one of the map. -/
theorem kept_of_run {events : List (ServiceEvent ι)} (hempty : s.NoEmptyEntry) (hkept : s.Kept)
    (hrun : run (step fs parseUrl) s (events.map ServiceEvent.update) = some t) : t.Kept := by
  induction events generalizing s with
  | nil =>
    cases hrun
    exact hkept
  | cons e events ih =>
    obtain ⟨u, hu, hrun⟩ := run_cons_eq_some.1 hrun
    exact ih (noEmptyEntry_step hempty hu) ((noDiscoveredPool_iff_kept hempty hkept hu).1 trivial)
      hrun

end Runs

section Start

variable {fs : FileSystem} {parseUrl : String → Option Url} {config : ProxyConfig}
  {assign : ι → Option (String × Url)} {events : List (ServiceEvent ι)} {last : Discovered}

theorem noEmptyEntry_start : (start fs config).NoEmptyEntry := by
  intro pool urls h
  have h : (∅ : K8sOrigins).lookup pool = some urls := h
  simp at h

/-- After a run from the start a pool holds at most one URL, that of a service mapped to it. -/
theorem urls_of_run (hassign : ∀ e ∈ events, serviceToOrigin parseUrl e.svc = assign e.id)
    (hrun : run (step fs parseUrl) (start fs config) (events.map ServiceEvent.update) = some last)
    (pool : String) :
    (∃ e ∈ events, ∃ url, assign e.id = some (pool, url) ∧ last.k8sOrigins.urls pool = [url]) ∨
      ((∀ e ∈ events, ∀ url, assign e.id ≠ some (pool, url)) ∧
        last.k8sOrigins.urls pool = []) := by
  rcases lookup_of_run hassign hrun pool with ⟨e, he, url, hurl, hlookup⟩ | ⟨hnone, hlookup⟩
  · refine Or.inl ⟨e, he, url, hurl, ?_⟩
    rw [K8sOrigins.urls, hlookup]
    rfl
  · refine Or.inr ⟨hnone, ?_⟩
    have hstart : (start fs config).k8sOrigins.lookup pool = none := Finmap.lookup_empty pool
    rw [K8sOrigins.urls, hlookup, hstart]
    rfl

/-- When services with one pool have one URL, what a pool holds can be read off the services. -/
theorem mem_urls_iff (hassign : ∀ e ∈ events, serviceToOrigin parseUrl e.svc = assign e.id)
    (hrun : run (step fs parseUrl) (start fs config) (events.map ServiceEvent.update) = some last)
    (hone : OneUrlPerPool assign (events.map ServiceEvent.id)) {pool : String} {url : Url} :
    url ∈ last.k8sOrigins.urls pool ↔
      ∃ i ∈ events.map ServiceEvent.id, assign i = some (pool, url) := by
  rcases urls_of_run hassign hrun pool with ⟨e, he, held, hheld, hurls⟩ | ⟨hnone, hurls⟩
  · have hid := List.mem_map_of_mem (f := ServiceEvent.id) he
    rw [hurls, List.mem_singleton]
    constructor
    · rintro rfl
      exact ⟨e.id, hid, hheld⟩
    · rintro ⟨i, hi, hassigned⟩
      exact hone i hi e.id hid pool url held hassigned hheld
  · rw [hurls]
    refine iff_of_false List.not_mem_nil ?_
    rintro ⟨i, hi, hassigned⟩
    obtain ⟨e, he, rfl⟩ := List.mem_map.1 hi
    exact hnone e he url hassigned

/-- Complete means that the map is: the routes follow it. -/
theorem complete_of_held
    (hrun : run (step fs parseUrl) (start fs config) (events.map ServiceEvent.update) = some last)
    {ids : List ι}
    (hheld : ∀ i ∈ ids, ∀ pool url, assign i = some (pool, url) →
      url ∈ last.k8sOrigins.urls pool) : Complete assign ids last := by
  refine ⟨hheld, ?_⟩
  refine (kept_of_run noEmptyEntry_start (kept_start config) hrun).candidate.imp
    fun route entry hcandidate pool hpool i hi url hassigned => ?_
  have hmem := hheld i hi pool.name url hassigned
  cases hlookup : last.k8sOrigins.lookup pool.name with
  | none =>
    rw [K8sOrigins.urls, hlookup] at hmem
    cases hmem
  | some urls =>
    rw [K8sOrigins.urls, hlookup] at hmem
    exact hcandidate pool hpool urls hlookup url hmem

end Start

end Discovered

/-- **After any services, each with a pool and a URL that it keeps, discovery holds the URLs of all
of them in any order exactly when services with one pool have one URL.** -/
theorem complete_iff (fs : FileSystem) (parseUrl : String → Option Url) (config : ProxyConfig)
    {ι : Type u} (assign : ι → Option (String × Url)) (events : List (ServiceEvent ι))
    (last : Discovered)
    (hassign : ∀ e ∈ events, serviceToOrigin parseUrl e.svc = assign e.id)
    (hrun : run (Discovered.step fs parseUrl) (Discovered.start fs config)
      (events.map ServiceEvent.update) = some last) :
    (Discovered.Complete assign (events.map ServiceEvent.id) last ∧
        Discovered.OrderFree fs parseUrl config events last) ↔
      Discovered.OneUrlPerPool assign (events.map ServiceEvent.id) := by
  constructor
  · rintro ⟨hcomplete, -⟩ i hi j hj pool url url' hurl hurl'
    have hmem := hcomplete.held i hi pool url hurl
    have hmem' := hcomplete.held j hj pool url' hurl'
    -- the pool holds one URL, so both are that one
    rcases Discovered.urls_of_run hassign hrun pool with ⟨_, _, held, _, hurls⟩ | ⟨_, hurls⟩
    · rw [hurls, List.mem_singleton] at hmem hmem'
      rw [hmem, hmem']
    · rw [hurls] at hmem
      cases hmem
  · intro hone
    refine ⟨Discovered.complete_of_held hrun fun i hi pool url hurl => ?_, ?_⟩
    · exact (Discovered.mem_urls_iff hassign hrun hone).2 ⟨i, hi, hurl⟩
    · intro events' last' hperm hrun' pool url
      -- a permutation has the same services with the same data
      have hids : ∀ i, i ∈ events'.map ServiceEvent.id ↔ i ∈ events.map ServiceEvent.id := by
        intro i
        have h := (hperm.map Prod.fst).mem_iff (a := i)
        rw [List.map_map, List.map_map] at h
        exact h
      have hassign' : ∀ e ∈ events', serviceToOrigin parseUrl e.svc = assign e.id := by
        intro e he
        have hmem := hperm.mem_iff.1 (List.mem_map_of_mem (f := fun e => (e.id, e.svc)) he)
        obtain ⟨e', he', heq⟩ := List.mem_map.1 hmem
        rw [← (Prod.mk.inj heq).1, ← (Prod.mk.inj heq).2]
        exact hassign e' he'
      have hone' : Discovered.OneUrlPerPool assign (events'.map ServiceEvent.id) :=
        fun i hi j hj => hone i ((hids i).1 hi) j ((hids j).1 hj)
      rw [Discovered.mem_urls_iff hassign' hrun' hone', Discovered.mem_urls_iff hassign hrun hone]
      simp only [hids]

/-! ## Two services of one pool -/

/-- A second backend of the cluster. -/
def Url.clusterBackendTwo : Url := Url.httpRoot "10.0.0.8" (some 8080)

/-- What the crate returns for the texts of both URLs. -/
def parseClusterBackends (text : String) : Option Url :=
  if text = "http://10.0.0.7:8080" then some Url.clusterBackend
  else if text = "http://10.0.0.8:8080" then some Url.clusterBackendTwo
  else none

/-- A service with a pool annotation. -/
def Service.inPool (name clusterIp pool : String) : Service where
  name := some name
  annotations := some ((∅ : Dict String String).insert poolAnnotation pool)
  spec := some ⟨some clusterIp, some [8080]⟩

/-- The services of the cluster: their pools and URLs. -/
def clusterAssign : String → Option (String × Url)
  | "blue" => some ("backend", Url.clusterBackend)
  | "green" => some ("backend", Url.clusterBackendTwo)
  | _ => none

/-- Services of two pools. -/
def clusterPools : String → Option (String × Url)
  | "blue" => some ("backend", Url.clusterBackend)
  | "green" => some ("cache", Url.clusterBackendTwo)
  | _ => none

/-- Both are applied, the first one twice. -/
def twoPools : List (ServiceEvent String) :=
  [⟨"blue", .inPool "blue" "10.0.0.7" "backend", ["backend"]⟩,
    ⟨"green", .inPool "green" "10.0.0.8" "cache", ["cache", "backend"]⟩,
    ⟨"blue", .inPool "blue" "10.0.0.7" "backend", ["backend", "cache"]⟩]

/-- Services that have their pools to themselves are found. -/
theorem complete_twoPools :
    ∃ last, run (Discovered.step .empty parseClusterBackends)
        (Discovered.start .empty clusterConfig) (twoPools.map ServiceEvent.update) = some last ∧
      Discovered.Complete clusterPools (twoPools.map ServiceEvent.id) last ∧
      Discovered.OrderFree .empty parseClusterBackends clusterConfig twoPools last := by
  refine ⟨_, rfl, (complete_iff .empty parseClusterBackends clusterConfig clusterPools twoPools _
    (by decide) rfl).2 ?_⟩
  have hids : ∀ i ∈ twoPools.map ServiceEvent.id, i = "blue" ∨ i = "green" := by decide
  intro i hi j hj pool url url' hurl hurl'
  rcases hids i hi with rfl | rfl
  · obtain ⟨rfl, rfl⟩ := Prod.mk.inj (Option.some.inj hurl)
    rcases hids j hj with rfl | rfl
    · exact (Prod.mk.inj (Option.some.inj hurl')).2
    · exact absurd (Prod.mk.inj (Option.some.inj hurl')).1 (by decide)
  · obtain ⟨rfl, rfl⟩ := Prod.mk.inj (Option.some.inj hurl)
    rcases hids j hj with rfl | rfl
    · exact absurd (Prod.mk.inj (Option.some.inj hurl')).1 (by decide)
    · exact (Prod.mk.inj (Option.some.inj hurl')).2

/-- **Of two services of one pool the second replaces the first.** -/
theorem second_replaces_first :
    clusterConfig.validate .empty = .ok () ∧
      (∀ svc ∈ [("blue", Service.inPool "blue" "10.0.0.7" "backend"),
          ("green", Service.inPool "green" "10.0.0.8" "backend")],
        serviceToOrigin parseClusterBackends svc.2 = clusterAssign svc.1) ∧
      ∃ last, run (Discovered.step .empty parseClusterBackends)
          (Discovered.start .empty clusterConfig)
          [.service (.inPool "blue" "10.0.0.7" "backend") ["backend"],
            .service (.inPool "green" "10.0.0.8" "backend") ["backend"]] = some last ∧
        last.k8sOrigins.urls "backend" = [Url.clusterBackendTwo] ∧
        ¬ Discovered.Complete clusterAssign ["blue", "green"] last := by
  refine ⟨by decide, by decide, _, rfl, by decide, fun h => ?_⟩
  have hmem := h.held "blue" (by simp) "backend" Url.clusterBackend rfl
  exact absurd hmem (by decide)

end Upstreamer
