import Upstreamer.System.Progress

/-!
# Histories and updates

Each writer that swaps the router adds a history for every new candidate afterwards. So in any run a
visible candidate without a history is one for which some writer has still to add it (`Stored`), and
when no update is in progress every visible candidate has one (`Stored.candidate`).
-/

set_option autoImplicit false

namespace Upstreamer

open Foundations

/-- The keys of the candidates of the routes. -/
def Router.candidateKeys (router : Router) : List String :=
  router.routes.flatMap fun entry => entry.candidates.map OriginEndpoint.urlKey

/-- Discovery holds a URL of this key, for any pool. -/
def K8sOrigins.Holds (k8sOrigins : K8sOrigins) (key : String) : Prop :=
  ∃ pool urls, k8sOrigins.lookup pool = some urls ∧ ∃ url ∈ urls, url.asStr = key

/-- The key is that of an origin of the configuration, or discovery holds it for one of its
pools. -/
def InForce (config : ProxyConfig) (k8sOrigins : K8sOrigins) (key : String) : Prop :=
  key ∈ config.originKeys ∨
    ∃ route ∈ config.routes, ∃ pool ∈ route.pools, ∃ urls,
      k8sOrigins.lookup pool.name = some urls ∧ ∃ url ∈ urls, url.asStr = key

/-- The key has a history, or one of the writes adds it. -/
def Due (states : OriginStates) (todo : List Write) (key : String) : Prop :=
  key ∈ states ∨ .addOriginState key ∈ todo

/-- The write brings only keys that are due. -/
def Write.Brings (states : OriginStates) (todo : List Write) : Write → Prop
  | .swapRouter router => ∀ key ∈ router.candidateKeys, Due states todo key
  | .swapConfig config => ∀ key ∈ config.originKeys, Due states todo key
  | _ => True

section Keys

variable {config : ProxyConfig} {k8sOrigins : K8sOrigins} {key : String}

/-- The candidates of the builder with discovery are what is in force. -/
theorem mem_candidateKeys_fromConfigWithK8s :
    key ∈ (Router.fromConfigWithK8s config k8sOrigins).candidateKeys ↔
      InForce config k8sOrigins key := by
  simp only [Router.candidateKeys, Router.fromConfigWithK8s, List.mem_flatMap, List.mem_map,
    InForce, ProxyConfig.originKeys, ProxyConfig.origins, RouteConfig.origins]
  constructor
  · rintro ⟨_, ⟨route, hroute, rfl⟩, candidate, hcandidate, rfl⟩
    obtain ⟨pool, hpool, hcandidate⟩ := List.mem_flatMap.1 hcandidate
    rcases List.mem_append.1 hcandidate with hstatic | hdiscovered
    · obtain ⟨origin, horigin, rfl⟩ := List.mem_map.1 hstatic
      exact Or.inl ⟨origin, ⟨route, hroute, pool, hpool, horigin⟩, rfl⟩
    · obtain ⟨urls, hurls, url, hurl, rfl⟩ := mem_k8sCandidates.1 hdiscovered
      exact Or.inr ⟨route, hroute, pool, hpool, urls, hurls, url, hurl, rfl⟩
  · rintro (⟨origin, ⟨route, hroute, pool, hpool, horigin⟩, rfl⟩ |
      ⟨route, hroute, pool, hpool, urls, hurls, url, hurl, rfl⟩)
    · refine ⟨_, ⟨route, hroute, rfl⟩, staticEndpoint origin, ?_, rfl⟩
      exact List.mem_flatMap.2 ⟨pool, hpool, List.mem_append_left _ (List.mem_map_of_mem horigin)⟩
    · refine ⟨_, ⟨route, hroute, rfl⟩, k8sEndpoint url, ?_, rfl⟩
      refine List.mem_flatMap.2 ⟨pool, hpool, List.mem_append_right _ ?_⟩
      exact mem_k8sCandidates.2 ⟨urls, hurls, url, hurl, rfl⟩

theorem mem_candidateKeys_fromConfig :
    key ∈ (Router.fromConfig config).candidateKeys ↔ key ∈ config.originKeys := by
  rw [← fromConfigWithK8s_empty, mem_candidateKeys_fromConfigWithK8s]
  refine ⟨fun h => ?_, Or.inl⟩
  rcases h with h | ⟨route, -, pool, -, urls, hurls, -⟩
  · exact h
  · simp at hurls

/-- The traversal of the map reaches every URL that it holds. -/
theorem mem_flatMap_iff_holds {order : List String} (horder : k8sOrigins.IterationOrder order) :
    key ∈ (order.flatMap fun pool => (k8sOrigins.lookup pool).getD []).map Url.asStr ↔
      k8sOrigins.Holds key := by
  simp only [List.mem_map, List.mem_flatMap, K8sOrigins.Holds]
  constructor
  · rintro ⟨url, ⟨pool, hpool, hurl⟩, rfl⟩
    cases hurls : k8sOrigins.lookup pool with
    | none => simp [hurls] at hurl
    | some urls =>
      rw [hurls] at hurl
      exact ⟨pool, urls, hurls, url, hurl, rfl⟩
  · rintro ⟨pool, urls, hurls, url, hurl, rfl⟩
    have hpool : pool ∈ order := by
      have hmem : pool ∈ k8sOrigins.keys := Finmap.mem_keys.2 (Finmap.mem_of_lookup_eq_some hurls)
      rwa [← Finset.mem_val, ← horder, Multiset.mem_coe] at hmem
    exact ⟨url, ⟨pool, hpool, by rw [hurls]; exact hurl⟩, rfl⟩

/-- A reload adds what it brings. -/
theorem brings_of_mem_reloadWrites (states : OriginStates) {write : Write}
    (h : write ∈ reloadWrites config) : write.Brings states (reloadWrites config) := by
  have hadd : ∀ key ∈ config.originKeys, .addOriginState key ∈ reloadWrites config := by
    intro key hkey
    exact List.mem_cons_of_mem _ (AppState.mem_reloadRest_iff.2 (.origin hkey))
  rcases List.mem_cons.1 h with rfl | h
  · exact fun key hkey => Or.inr (hadd key (mem_candidateKeys_fromConfig.1 hkey))
  · cases AppState.mem_reloadRest_iff.1 h with
    | configured => exact fun key hkey => Or.inr (hadd key hkey)
    | _ => trivial

/-- A rebuild adds what it brings, given that the origins of its configuration have histories. -/
theorem brings_of_mem_rebuildWrites {states : OriginStates} {order : List String} {write : Write}
    (hconfig : ∀ key ∈ config.originKeys, key ∈ states) (horder : k8sOrigins.IterationOrder order)
    (h : write ∈ rebuildWrites config k8sOrigins order) :
    write.Brings states (rebuildWrites config k8sOrigins order) := by
  rcases List.mem_cons.1 h with rfl | h
  · intro key hkey
    rcases mem_candidateKeys_fromConfigWithK8s.1 hkey with
      hkey | ⟨_, -, pool, -, urls, hurls, url, hurl, rfl⟩
    · exact Or.inl (hconfig key hkey)
    · -- every key of the map is traversed
      have hmem := (mem_flatMap_iff_holds horder).2 ⟨pool.name, urls, hurls, url, hurl, rfl⟩
      obtain ⟨url', hurl', heq⟩ := List.mem_map.1 hmem
      exact Or.inr (List.mem_cons_of_mem _ (List.mem_map.2 ⟨url', hurl', by rw [heq]⟩))
  · obtain ⟨url, _, rfl⟩ := List.mem_map.1 h
    trivial

end Keys

section Due

variable {states states' : OriginStates} {todo todo' : List Write} {key : String}

theorem Due.mono (hstates : ∀ key ∈ states, key ∈ states')
    (htodo : ∀ key, .addOriginState key ∈ todo → Due states' todo' key) (h : Due states todo key) :
    Due states' todo' key := by
  rcases h with h | h
  · exact Or.inl (hstates key h)
  · exact htodo key h

theorem Write.Brings.mono {write : Write}
    (hdue : ∀ key, Due states todo key → Due states' todo' key) (h : write.Brings states todo) :
    write.Brings states' todo' := by
  cases write with
  | swapRouter router => exact fun key hkey => hdue key (h key hkey)
  | swapConfig config => exact fun key hkey => hdue key (h key hkey)
  | _ => trivial

/-- Making the next write leaves everything due that was. -/
theorem due_apply {app : AppState} {write : Write}
    (h : Due app.originStates (write :: todo) key) :
    Due (app.apply write).originStates todo key := by
  rcases h with h | h
  · exact Or.inl (AppState.mem_originStates_apply h)
  · rcases List.mem_cons.1 h with rfl | h
    · exact Or.inl (Dict.mem_orInsert.2 (Or.inl rfl))
    · exact Or.inr h

end Due

namespace World

/-- Every visible candidate has a history or gets one from a writer in progress. -/
structure Stored (w : World) : Prop where
  progress : w.Progress
  config : ∀ key ∈ w.app.config.originKeys, key ∈ w.app.originStates
  reload : ∀ write ∈ w.reload.todo, write.Brings w.app.originStates w.reload.todo
  rebuild : ∀ write ∈ w.rebuild.todo, write.Brings w.app.originStates w.rebuild.todo
  router : ∀ key ∈ w.app.router.candidateKeys,
    Due w.app.originStates w.reload.todo key ∨ Due w.app.originStates w.rebuild.todo key

theorem stored_init (env : Externals) (config : ProxyConfig) : (init env config).Stored where
  progress := progress_init env config
  config := fun _ hkey => AppState.mem_originStates_new.2 hkey
  reload := by
    rintro _ ⟨⟩
  rebuild := by
    rintro _ ⟨⟩
  router := fun _ hkey =>
    Or.inl (Or.inl (AppState.mem_originStates_new.2 (mem_candidateKeys_fromConfig.1 hkey)))

/-- Without an update in progress every candidate of the visible router has a history. -/
theorem Stored.candidate {w : World} (hs : w.Stored) (hreload : w.reload = .idle)
    (hrebuild : w.rebuild = .idle) : ∀ key ∈ w.app.router.candidateKeys,
    key ∈ w.app.originStates := by
  intro key hkey
  have hdue := hs.router key hkey
  rw [hreload, hrebuild] at hdue
  rcases hdue with (h | h) | (h | h)
  · exact h
  · cases h
  · exact h
  · cases h

section Steps

variable {env : Externals} {w w' : World} {e : Event}

/-- What a write makes of the visible router and the configuration in force, when what it brings is
due among the writes that its writer has still to make. -/
theorem due_of_write {app : AppState} {write : Write} {todo other : List Write}
    (hbrings : write.Brings app.originStates (write :: todo))
    (hrouter : ∀ key ∈ app.router.candidateKeys,
      Due app.originStates (write :: todo) key ∨ Due app.originStates other key) :
    ∀ key ∈ (app.apply write).router.candidateKeys,
      Due (app.apply write).originStates todo key ∨
        Due (app.apply write).originStates other key := by
  have hkept : ∀ key ∈ app.router.candidateKeys,
      Due (app.apply write).originStates todo key ∨
        Due (app.apply write).originStates other key := fun key hkey =>
    (hrouter key hkey).imp due_apply
      (Due.mono (fun _ h => AppState.mem_originStates_apply h) fun _ h => Or.inr h)
  cases write with
  | swapRouter router => exact fun key hkey => Or.inl (due_apply (hbrings key hkey))
  | _ => exact hkept

/-- The writes that follow one bring what is due once it is made. -/
theorem brings_of_write {app : AppState} {write : Write} {todo : List Write}
    (h : ∀ other ∈ write :: todo, other.Brings app.originStates (write :: todo)) :
    ∀ other ∈ todo, other.Brings (app.apply write).originStates todo := fun other hother =>
  (h other (List.mem_cons_of_mem _ hother)).mono fun _ => due_apply

/-- The origins of the configuration in force keep having histories. -/
theorem Stored.config_step (hs : w.Stored) (h : World.step env w e = some w') :
    ∀ key ∈ w'.app.config.originKeys, key ∈ w'.app.originStates := by
  have hkept : w'.app.config = w.app.config →
      ∀ key ∈ w'.app.config.originKeys, key ∈ w'.app.originStates := by
    intro heq key hkey
    rw [heq] at hkey
    exact mem_originStates_step (hs.config key hkey) h
  cases moves_of_step h with
  | @reloadStep config write todo hphase =>
    cases write with
    | swapConfig other =>
      -- the configuration is swapped last, so nothing is to be added any more
      obtain ⟨-, done, hdone⟩ := hs.progress.reload_suffix config _ hphase
      obtain ⟨rfl, rfl⟩ := eq_nil_of_swapConfig hdone.symm
      have hreload := hs.reload
      rw [hphase] at hreload
      intro key hkey
      rcases hreload _ List.mem_cons_self key hkey with hmem | hmem
      · exact hmem
      · cases List.mem_singleton.1 hmem
    | _ => exact hkept rfl
  | @rebuildStep loaded write todo hphase =>
    have hkind := hs.progress.rebuild_kind
    rw [hphase] at hkind
    cases write with
    | swapConfig other => exact (hkind _ List.mem_cons_self).elim
    | _ => exact hkept rfl
  | _ => exact hkept (sameSettings_of_nextWrite h rfl).config_eq

theorem Stored.step (hs : w.Stored) (h : World.step env w e = some w') : w'.Stored := by
  have hprogress := progress_step hs.progress h
  have hconfig := hs.config_step h
  -- a list of writes that the step leaves alone is due as before
  have hdue : ∀ todo key, Due w.app.originStates todo key → Due w'.app.originStates todo key :=
    fun todo key => Due.mono (fun _ hmem => mem_originStates_step hmem h) fun _ hmem => Or.inr hmem
  have hbrings : ∀ todo : List Write, (∀ write ∈ todo, write.Brings w.app.originStates todo) →
      ∀ write ∈ todo, write.Brings w'.app.originStates todo :=
    fun todo htodo write hwrite => (htodo write hwrite).mono fun key => hdue todo key
  have hquiet : w.nextWrite e = none → ∀ key ∈ w'.app.router.candidateKeys,
      Due w'.app.originStates w.reload.todo key ∨ Due w'.app.originStates w.rebuild.todo key := by
    intro hwrite key hkey
    rw [(sameSettings_of_nextWrite h hwrite).router_eq] at hkey
    exact (hs.router key hkey).imp (hdue _ key) (hdue _ key)
  cases moves_of_step h with
  | @reloadStart config hidle _ =>
    refine ⟨hprogress, hconfig, fun write hwrite => brings_of_mem_reloadWrites _ hwrite,
      hs.rebuild, fun key hkey => ?_⟩
    rw [hidle] at hquiet
    refine (hquiet rfl key hkey).imp_left fun hdue => ?_
    exact Or.inl (hdue.resolve_right List.not_mem_nil)
  | @rebuildLoad order hphase horder =>
    refine ⟨hprogress, hconfig, hs.reload,
      fun write hwrite => brings_of_mem_rebuildWrites hs.config horder hwrite, fun key hkey => ?_⟩
    rw [hphase] at hquiet
    refine (hquiet rfl key hkey).imp_right fun hdue => ?_
    exact Or.inl (hdue.resolve_right List.not_mem_nil)
  | discovered hidle _ _ =>
    rw [hidle] at hquiet
    exact ⟨hprogress, hconfig, hs.reload, by rintro _ ⟨⟩, hquiet rfl⟩
  | @reloadStep config write todo hphase =>
    have hreload := hs.reload
    have hrouter := hs.router
    rw [hphase] at hreload hrouter
    refine ⟨hprogress, hconfig, ?_, hbrings _ hs.rebuild, ?_⟩
    · rw [ReloadPhase.todo_after]
      exact brings_of_write hreload
    · rw [ReloadPhase.todo_after]
      exact due_of_write (hreload write List.mem_cons_self) hrouter
  | @rebuildStep loaded write todo hphase =>
    have hrebuild := hs.rebuild
    have hrouter := hs.router
    rw [hphase] at hrebuild hrouter
    refine ⟨hprogress, hconfig, hbrings _ hs.reload, ?_, ?_⟩
    · rw [RebuildPhase.todo_after]
      exact brings_of_write hrebuild
    · rw [RebuildPhase.todo_after]
      intro key hkey
      exact (due_of_write (hrebuild write List.mem_cons_self)
        (fun key hkey => (hrouter key hkey).symm) key hkey).symm
  | _ => exact ⟨hprogress, hconfig, hbrings _ hs.reload, hbrings _ hs.rebuild, hquiet rfl⟩

end Steps

theorem stored_throughout (env : Externals) (config : ProxyConfig) (events : List Event) :
    Throughout (World.step env) Stored (init env config) events :=
  throughout_of_along (fun _ _ _ hs _ h => hs.step h) (stored_init env config) (along_true _ events)

end World

end Upstreamer
