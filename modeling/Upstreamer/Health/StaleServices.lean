import Upstreamer.Health.Pools

/-!
# Services that move or vanish

Discovery remembers no service, so what it holds for a pool is replaced only by the next service
with that pool. Beside its map the machine here keeps what exists: each service with the data of its
latest event. A step by which a service leaves a pool keeps the map free of stale URLs exactly when
another service stands behind the URL that is left (`releases_iff_noStale`), and so does a whole run
(`noStale_iff`).
-/

set_option autoImplicit false

namespace Upstreamer

open Foundations

universe u

/-- Discovery, with the services that exist and their latest data. -/
structure Watched (ι : Type u) where
  discovered : Discovered
  live : ι → Option Service

/-- An event of the watched API. The stream drops deletions. -/
inductive WatchedEvent (ι : Type u) where
  | applied (id : ι) (svc : Service) (order : List String)
  | deleted (id : ι)

namespace Watched

variable {ι : Type u} [DecidableEq ι]

def start (fs : FileSystem) (config : ProxyConfig) : Watched ι :=
  ⟨Discovered.start fs config, fun _ => none⟩

def step (fs : FileSystem) (parseUrl : String → Option Url) (s : Watched ι) :
    WatchedEvent ι → Option (Watched ι)
  | .applied id svc order =>
      (s.discovered.step fs parseUrl (.service svc order)).map fun discovered =>
        ⟨discovered, Function.update s.live id (some svc)⟩
  | .deleted id => some { s with live := Function.update s.live id none }

/-- The pool and the URL of a service that exists. -/
def mapped (parseUrl : String → Option Url) (s : Watched ι) (id : ι) : Option (String × Url) :=
  (s.live id).bind (serviceToOrigin parseUrl)

/-- Every URL held for a pool is the one that a service that exists has there. -/
def NoStale (parseUrl : String → Option Url) (s : Watched ι) : Prop :=
  ∀ pool, ∀ url ∈ s.discovered.k8sOrigins.urls pool, ∃ id, s.mapped parseUrl id = some (pool, url)

end Watched

/-- The service of the event. -/
def WatchedEvent.id {ι : Type u} : WatchedEvent ι → ι
  | .applied id _ _ => id
  | .deleted id => id

/-- The pool and the URL that the service of the event has after it. -/
def WatchedEvent.mapped {ι : Type u} (parseUrl : String → Option Url) :
    WatchedEvent ι → Option (String × Url)
  | .applied _ svc _ => serviceToOrigin parseUrl svc
  | .deleted _ => none

namespace Watched

variable {ι : Type u} [DecidableEq ι]

/-- A URL that the service of the event has had, and that is still held for its pool, is replaced by
the event or is that of another service too. -/
def Releases (parseUrl : String → Option Url) (s : Watched ι) (e : WatchedEvent ι) : Prop :=
  ∀ pool url, s.mapped parseUrl e.id = some (pool, url) →
    url ∈ s.discovered.k8sOrigins.urls pool →
    (∃ url', e.mapped parseUrl = some (pool, url')) ∨
      ∃ id ≠ e.id, s.mapped parseUrl id = some (pool, url)

section Steps

variable {fs : FileSystem} {parseUrl : String → Option Url} {s t : Watched ι} {e : WatchedEvent ι}

/-- After an event its service has what the event gives it, and the others have what they had. -/
theorem mapped_step (h : step fs parseUrl s e = some t) (id : ι) :
    t.mapped parseUrl id = if id = e.id then e.mapped parseUrl else s.mapped parseUrl id := by
  cases e with
  | applied own svc order =>
    obtain ⟨discovered, _, rfl⟩ := Option.map_eq_some_iff.1 h
    show ((Function.update s.live own (some svc)) id).bind _ = if id = own then _ else _
    rw [Function.update_apply]
    split
    · rfl
    · rfl
  | deleted own =>
    obtain rfl := Option.some.inj h
    show ((Function.update s.live own none) id).bind _ = if id = own then _ else _
    rw [Function.update_apply]
    split
    · rfl
    · rfl

/-- An event replaces the entry of the pool that it maps its service to, and no other. -/
theorem urls_step (h : step fs parseUrl s e = some t) (pool : String) :
    (∃ url, e.mapped parseUrl = some (pool, url) ∧ t.discovered.k8sOrigins.urls pool = [url]) ∨
      ((∀ url, e.mapped parseUrl ≠ some (pool, url)) ∧
        t.discovered.k8sOrigins.urls pool = s.discovered.k8sOrigins.urls pool) := by
  cases e with
  | applied own svc order =>
    obtain ⟨discovered, hstep, rfl⟩ := Option.map_eq_some_iff.1 h
    rcases Discovered.lookup_of_step hstep pool with ⟨url, hsome, hlookup⟩ | ⟨hnone, hlookup⟩
    · refine Or.inl ⟨url, hsome, ?_⟩
      rw [K8sOrigins.urls, hlookup]
      rfl
    · refine Or.inr ⟨hnone, ?_⟩
      rw [K8sOrigins.urls, K8sOrigins.urls, hlookup]
  | deleted own =>
    obtain rfl := Option.some.inj h
    exact Or.inr ⟨by rintro url ⟨⟩, rfl⟩

/-- **One event.** It leaves no stale URL exactly when it releases those of its service. -/
theorem releases_iff_noStale (hs : s.NoStale parseUrl) (h : step fs parseUrl s e = some t) :
    s.Releases parseUrl e ↔ t.NoStale parseUrl := by
  constructor
  · intro hreleases pool url hurl
    rcases urls_step h pool with ⟨url', hmapped, hurls⟩ | ⟨hother, hurls⟩
    · -- the entry is the one that the event has just written
      rw [hurls, List.mem_singleton] at hurl
      subst hurl
      exact ⟨e.id, by rw [mapped_step h, if_pos rfl, hmapped]⟩
    · rw [hurls] at hurl
      obtain ⟨id, hid⟩ := hs pool url hurl
      by_cases hown : id = e.id
      · subst hown
        rcases hreleases pool url hid hurl with ⟨url', hmapped⟩ | ⟨other, hne, hother'⟩
        · exact absurd hmapped (hother url')
        · exact ⟨other, by rw [mapped_step h, if_neg hne, hother']⟩
      · exact ⟨id, by rw [mapped_step h, if_neg hown, hid]⟩
  · intro ht pool url hmapped hurl
    rcases urls_step h pool with ⟨url', hmapped', -⟩ | ⟨hother, hurls⟩
    · exact Or.inl ⟨url', hmapped'⟩
    · -- the URL is still held, so some service stands behind it, and not the one of the event
      rw [← hurls] at hurl
      obtain ⟨id, hid⟩ := ht pool url hurl
      rw [mapped_step h] at hid
      split at hid
      · exact absurd hid (hother url)
      · next hne => exact Or.inr ⟨id, hne, hid⟩

end Steps

end Watched

/-- **No URL held for a pool is stale at any point of a run exactly when each event of it releases
the URLs of its service.** -/
theorem noStale_iff (fs : FileSystem) (parseUrl : String → Option Url) (config : ProxyConfig)
    {ι : Type u} [DecidableEq ι] (events : List (WatchedEvent ι)) (last : Watched ι)
    (hrun : run (Watched.step fs parseUrl) (Watched.start fs config) events = some last) :
    Throughout (Watched.step fs parseUrl) (Watched.NoStale parseUrl) (Watched.start fs config)
        events ↔
      Along (Watched.step fs parseUrl) (Watched.Releases parseUrl) (Watched.start fs config)
        events := by
  refine (along_iff_throughout (J := fun _ => True) (fun _ _ _ _ _ _ => trivial)
    (fun _ _ _ _ hs h => Watched.releases_iff_noStale hs h) trivial ?_ hrun).symm
  intro pool url hurl
  cases hurl

/-! ## A deleted service -/

/-- A service that changes its address leaves nothing behind. -/
theorem noStale_readdressed :
    Throughout (Watched.step .empty parseClusterBackends)
      (Watched.NoStale (ι := String) parseClusterBackends) (Watched.start .empty clusterConfig)
      [.applied "backend" (.plain "backend" "10.0.0.7" 8080) ["backend"],
        .applied "backend" (.plain "backend" "10.0.0.8" 8080) ["backend"]] := by
  refine (noStale_iff .empty parseClusterBackends clusterConfig _ _ rfl).2
    ⟨?_, fun s hs => ⟨?_, fun _ _ => trivial⟩⟩
  · rintro pool url ⟨⟩
  · obtain rfl := Option.some.inj hs
    rintro pool url ⟨⟩ _
    exact Or.inl ⟨Url.clusterBackendTwo, rfl⟩

/-- **The URL of a deleted service stays a candidate.** No service exists any more. -/
theorem deleted_service_stays :
    clusterConfig.validate .empty = .ok () ∧
      ∃ last, run (Watched.step .empty parseClusterBackends)
          (Watched.start .empty clusterConfig)
          [.applied "backend" (.plain "backend" "10.0.0.7" 8080) ["backend"],
            .deleted "backend"] = some last ∧
        last.live "backend" = none ∧
        last.discovered.k8sOrigins.urls "backend" = [Url.clusterBackend] ∧
        last.discovered.app.router.routes.map
          (fun entry => entry.candidates.map OriginEndpoint.url) =
          [[Url.backend, Url.clusterBackend]] ∧
        ¬ last.NoStale parseClusterBackends := by
  refine ⟨by decide, _, rfl, rfl, by decide, by decide, fun h => ?_⟩
  obtain ⟨id, hid⟩ := h "backend" Url.clusterBackend (by decide)
  by_cases hown : id = "backend"
  · subst hown
    cases hid
  · rw [Watched.mapped] at hid
    simp [Watched.start, hown] at hid

end Upstreamer
