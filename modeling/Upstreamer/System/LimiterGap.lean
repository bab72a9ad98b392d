import Upstreamer.Middleware.RouteLimits
import Upstreamer.System.Progress
import Upstreamer.System.Settings

/-!
# The gap of a reload

A reload empties the map of the route limiters and fills it again, entry by entry, while requests
look their limiters up in it. Which limits the map holds is a function of the configuration in force
and of the writes already made (`Limits`), so a request whose route is limited both before and after
the reload finds a limiter exactly when it does not look between the two writes (`checked_iff`).
-/

set_option autoImplicit false

namespace Upstreamer

open Foundations

/-- The limit that a start with the configuration puts under a key. -/
def ProxyConfig.limits (config : ProxyConfig) (key : String) : Option (UInt32 × UInt32) :=
  ((Dict.insertAll (AppState.limiterEntries config) ∅).lookup key).map RateLimiter.limit

/-- The configuration gives the limit to a route with that key. -/
def ProxyConfig.Grants (config : ProxyConfig) (key : String) (limit : UInt32 × UInt32) : Prop :=
  ∃ route ∈ config.routes, ∃ rl, route.ratelimit = some rl ∧ route.limiterKey = key ∧
    limit = (rl.rate, rl.burst)

section Grants

variable {config : ProxyConfig} {key : String} {limit : UInt32 × UInt32}

theorem grants_of_mem_limiterEntries {limiter : RateLimiter}
    (h : (key, limiter) ∈ AppState.limiterEntries config) : config.Grants key limiter.limit := by
  obtain ⟨route, hroute, rl, hrl, hkey, rfl⟩ := mem_limiterEntries.1 h
  exact ⟨route, hroute, rl, hrl, hkey, rfl⟩

/-- What a start stores under a key it has built for a route with that key. -/
theorem mem_limiterEntries_of_lookup {limiter : RateLimiter}
    (h : (Dict.insertAll (AppState.limiterEntries config) ∅).lookup key = some limiter) :
    (key, limiter) ∈ AppState.limiterEntries config := by
  by_cases hkey : key ∈ (AppState.limiterEntries config).map Prod.fst
  · obtain ⟨found, hmem, hfound⟩ := Dict.lookup_insertAll_of_mem (m := ∅) hkey
    obtain rfl : found = limiter := Option.some.inj (hfound.symm.trans h)
    exact hmem
  · rw [Dict.lookup_insertAll_of_notMem hkey, Finmap.lookup_empty] at h
    cases h

theorem grants_of_limits (h : config.limits key = some limit) : config.Grants key limit := by
  obtain ⟨limiter, hlookup, rfl⟩ := Option.map_eq_some_iff.1 h
  exact grants_of_mem_limiterEntries (mem_limiterEntries_of_lookup hlookup)

theorem limits_ne_none (h : config.Grants key limit) : config.limits key ≠ none := by
  obtain ⟨route, hroute, rl, hrl, hkey, -⟩ := h
  have hmem := mem_limiterEntries.2 ⟨route, hroute, rl, hrl, hkey, rfl⟩
  obtain ⟨limiter, -, hlookup⟩ :=
    Dict.lookup_insertAll_of_mem (m := ∅) (List.mem_map_of_mem (f := Prod.fst) hmem)
  rw [ProxyConfig.limits, hlookup]
  exact Option.some_ne_none _

/-- A reload inserts what a start with its configuration builds. -/
theorem insert_mem_reloadWrites_iff {limiter : RateLimiter} :
    .insertRouteRatelimiter key limiter ∈ reloadWrites config ↔
      (key, limiter) ∈ AppState.limiterEntries config := by
  constructor
  · intro h
    rcases List.mem_cons.1 h with h | h
    · cases h
    · cases AppState.mem_reloadRest_iff.1 h with
      | limiter hmem => exact hmem
  · exact fun hmem => List.mem_cons_of_mem _ (AppState.mem_reloadRest_iff.2 (.limiter hmem))

/-- A reload inserts, under each key, the limits that its configuration grants. -/
theorem grants_of_mem_reloadWrites {limiter : RateLimiter}
    (h : .insertRouteRatelimiter key limiter ∈ reloadWrites config) :
    config.Grants key limiter.limit :=
  grants_of_mem_limiterEntries (insert_mem_reloadWrites_iff.1 h)

end Grants

/-! ## Limits and writes -/

/-- What a write does to the limits. -/
def Write.applyLimits (limits : String → Option (UInt32 × UInt32)) :
    Write → String → Option (UInt32 × UInt32)
  | .clearRouteRatelimiters => fun _ => none
  | .insertRouteRatelimiter key limiter => Function.update limits key (some limiter.limit)
  | _ => limits

theorem limits_apply (app : AppState) (write : Write) :
    (app.apply write).limits = write.applyLimits app.limits := by
  have h := congrArg Settings.limits (app.settings_apply write)
  cases write <;> exact h

theorem limits_applyAll (app : AppState) (writes : List Write) :
    (app.applyAll writes).limits = writes.foldl Write.applyLimits app.limits := by
  induction writes generalizing app with
  | nil => rfl
  | cons write writes ih =>
    show ((app.apply write).applyAll writes).limits = _
    rw [ih, limits_apply]
    rfl

/-- All writes of a reload leave the limits of its configuration, whatever the limits were that a
start with another one gave. -/
theorem foldl_reloadWrites (old config : ProxyConfig) :
    (reloadWrites config).foldl Write.applyLimits old.limits = config.limits := by
  have h := limits_applyAll (AppState.new .empty old) (reloadWrites config)
  have hreload : ((AppState.new .empty old).reload config).limits = config.limits := by
    rw [AppState.reload_eq]
    rfl
  exact h.symm.trans hreload

/-- Without a clearing, the limit under a key is replaced by one that is inserted, or left. -/
theorem foldl_of_no_clear {writes : List Write} (hclear : Write.clearRouteRatelimiters ∉ writes)
    (limits : String → Option (UInt32 × UInt32)) (key : String) :
    ((∀ limiter, .insertRouteRatelimiter key limiter ∉ writes) ∧
        writes.foldl Write.applyLimits limits key = limits key) ∨
      ∃ limiter, .insertRouteRatelimiter key limiter ∈ writes ∧
        writes.foldl Write.applyLimits limits key = some limiter.limit := by
  induction writes generalizing limits with
  | nil => exact Or.inl ⟨fun _ => List.not_mem_nil, rfl⟩
  | cons write writes ih =>
    rw [List.mem_cons, not_or] at hclear
    rcases ih hclear.2 (write.applyLimits limits) with ⟨hnone, hfold⟩ | ⟨limiter, hmem, hfold⟩
    · -- no later write is under the key, so this one decides
      have hwrite : (∃ limiter, write = .insertRouteRatelimiter key limiter ∧
            write.applyLimits limits key = some limiter.limit) ∨
          ((∀ limiter, write ≠ .insertRouteRatelimiter key limiter) ∧
            write.applyLimits limits key = limits key) := by
        cases write with
        | clearRouteRatelimiters => exact absurd rfl hclear.1
        | insertRouteRatelimiter other limiter =>
          by_cases hother : other = key
          · subst hother
            exact Or.inl ⟨limiter, rfl, Function.update_self _ _ _⟩
          · refine Or.inr ⟨fun limiter' heq => ?_, Function.update_of_ne (Ne.symm hother) _ _⟩
            exact hother (Write.insertRouteRatelimiter.inj heq).1
        | _ => exact Or.inr ⟨by simp, rfl⟩
      rcases hwrite with ⟨limiter, rfl, heq⟩ | ⟨hne, heq⟩
      · exact Or.inr ⟨limiter, List.mem_cons_self, hfold.trans heq⟩
      · refine Or.inl ⟨fun limiter hmem => ?_, hfold.trans heq⟩
        rcases List.mem_cons.1 hmem with rfl | hmem
        · exact hne limiter rfl
        · exact hnone limiter hmem
    · exact Or.inr ⟨limiter, List.mem_cons_of_mem _ hmem, hfold⟩

/-- A reload clears the limiters with its second write and never again. -/
theorem clear_notMem_tail (config : ProxyConfig) :
    Write.clearRouteRatelimiters ∉ (reloadWrites config).tail.tail := by
  intro h
  simp only [reloadWrites, reloadRest, List.tail_cons, List.cons_append, List.nil_append,
    List.mem_append, List.mem_cons, List.not_mem_nil, or_false, List.mem_filterMap, List.mem_map,
    Option.map_eq_some_iff, reduceCtorEq, and_false, exists_false] at h

/-- **The limits in the middle of a reload.** Before the clearing they are the old ones; after it
there is a limit under a key once one has been inserted. -/
theorem foldl_done {config : ProxyConfig} {done : List Write} (h : done <+: reloadWrites config)
    (limits : String → Option (UInt32 × UInt32)) (key : String) :
    (Write.clearRouteRatelimiters ∉ done ∧ done.foldl Write.applyLimits limits key = limits key) ∨
      (Write.clearRouteRatelimiters ∈ done ∧
        (((∀ limiter, .insertRouteRatelimiter key limiter ∉ done) ∧
            done.foldl Write.applyLimits limits key = none) ∨
          ∃ limiter, .insertRouteRatelimiter key limiter ∈ done ∧
            done.foldl Write.applyLimits limits key = some limiter.limit)) := by
  have hclear := clear_notMem_tail config
  rw [reloadWrites, reloadRest] at h hclear
  simp only [List.append_assoc, List.cons_append, List.nil_append, List.tail_cons] at h hclear
  rcases List.prefix_cons_iff.1 h with rfl | ⟨done₁, rfl, h₁⟩
  · exact Or.inl ⟨List.not_mem_nil, rfl⟩
  rcases List.prefix_cons_iff.1 h₁ with rfl | ⟨done₂, rfl, h₂⟩
  · exact Or.inl ⟨by simp, rfl⟩
  refine Or.inr ⟨by simp, ?_⟩
  rcases foldl_of_no_clear (fun hmem => hclear (h₂.subset hmem)) (fun _ => none) key with
    ⟨hnone, hfold⟩ | ⟨limiter, hmem, hfold⟩
  · refine Or.inl ⟨fun limiter hmem => ?_, hfold⟩
    simp only [List.mem_cons, reduceCtorEq, false_or] at hmem
    exact hnone limiter hmem
  · exact Or.inr ⟨limiter, List.mem_cons_of_mem _ (List.mem_cons_of_mem _ hmem), hfold⟩

/-- The configuration gives the limit to a route with the patterns of the entry. -/
def ProxyConfig.LimitsRoute (config : ProxyConfig) (entry : RouteEntry)
    (limit : UInt32 × UInt32) : Prop :=
  ∃ route ∈ config.routes, ∃ rl, route.ratelimit = some rl ∧ route.matchHost = entry.matchHost ∧
    route.matchPath = entry.matchPath ∧ limit = (rl.rate, rl.burst)

namespace World

/-- A request to a route that is limited both before and after the reload in progress, if there is
one, is up for its check. -/
def Asks (w : World) (e : Event) (entry : RouteEntry) : Prop :=
  (∃ i now generation index ip, e = .limit i now ∧
    w.inFlight[i]? = some (.matched generation index entry ip)) ∧
  (∃ limit, w.app.config.LimitsRoute entry limit) ∧ ∃ limit, w.target.LimitsRoute entry limit

/-- Such a request finds a limiter. -/
def Checked (w : World) (e : Event) : Prop :=
  ∀ entry, w.Asks e entry → ∃ limiter, w.app.routeRatelimiters.lookup entry.key = some limiter

/-- Such a request finds a limiter with a limit of its route, from before or after the reload. -/
def CheckedByOwn (w : World) (e : Event) : Prop :=
  ∀ entry, w.Asks e entry → ∃ limiter, w.app.routeRatelimiters.lookup entry.key = some limiter ∧
    (w.app.config.LimitsRoute entry limiter.limit ∨ w.target.LimitsRoute entry limiter.limit)

/-- A reload has emptied the map and not yet inserted a limiter under the key. -/
def Gap (w : World) (key : String) : Prop :=
  ∃ config todo done, w.reload = .applying config todo ∧ reloadWrites config = done ++ todo ∧
    Write.clearRouteRatelimiters ∈ done ∧ ∀ limiter, .insertRouteRatelimiter key limiter ∉ done

/-- Such a request is not checked in the gap of a reload. -/
def OutsideGap (w : World) (e : Event) : Prop := ∀ entry, w.Asks e entry → ¬ w.Gap entry.key

/-- No limited route with other patterns has the key of such a request. -/
def OwnKey (w : World) (e : Event) : Prop :=
  ∀ entry, w.Asks e entry → ∀ config, config = w.app.config ∨ config = w.target →
    ∀ route ∈ config.routes, route.ratelimit ≠ none → route.limiterKey = entry.key →
      route.matchHost = entry.matchHost ∧ route.matchPath = entry.matchPath

/-! ## The invariant -/

/-- The limits are those of the configuration in force, as far as no reload has changed them. -/
structure Limits (w : World) : Prop where
  progress : w.Progress
  keyed : w.Routed fun entry => entry.key = routeKey entry.matchHost entry.matchPath
  idle : w.reload = .idle → w.app.limits = w.app.config.limits
  applying : ∀ config todo, w.reload = .applying config todo → ∃ done,
    reloadWrites config = done ++ todo ∧
      w.app.limits = done.foldl Write.applyLimits w.app.config.limits

theorem builtInto_keyed :
    BuiltInto fun entry => entry.key = routeKey entry.matchHost entry.matchPath where
  fromConfig := fun config entry hentry => by
    obtain ⟨route, _, rfl⟩ := List.mem_map.1 hentry
    rfl
  fromConfigWithK8s := fun config k8sOrigins entry hentry => by
    obtain ⟨route, _, rfl⟩ := List.mem_map.1 hentry
    rfl

theorem limits_init (env : Externals) (config : ProxyConfig) : (init env config).Limits where
  progress := progress_init env config
  keyed := routed_init builtInto_keyed env config
  idle := fun _ => rfl
  applying := by
    rintro _ _ ⟨⟩

section Steps

variable {env : Externals} {w w' : World} {e : Event}

/-- Unless the step is one of the reload, it leaves the limits and the configuration. -/
theorem limits_of_reload_eq (hs : w.Progress) (h : step env w e = some w')
    (hreload : w'.reload.todo = w.reload.todo) :
    w'.app.limits = w.app.limits ∧ w'.app.config = w.app.config := by
  cases hwrite : w.nextWrite e with
  | none =>
    obtain ⟨hsettings, hconfig⟩ := settings_of_nextWrite h hwrite
    exact ⟨congrArg Settings.limits hsettings, hconfig⟩
  | some write =>
    have hkind : write.OfRebuild := by
      cases e with
      | rebuildStep => exact hs.rebuild_kind write (List.mem_of_head? hwrite)
      | reloadStep =>
        cases moves_of_step h with
        | reloadStep hphase =>
          rw [hphase, ReloadPhase.todo_after] at hreload
          exact absurd hreload (List.cons_ne_self _ _).symm
      | _ => cases hwrite
    rw [app_of_nextWrite h hwrite, limits_apply]
    cases write with
    | swapRouter router => exact ⟨rfl, rfl⟩
    | addOriginState key => exact ⟨rfl, rfl⟩
    | _ => exact hkind.elim

theorem Limits.step (hs : w.Limits) (h : World.step env w e = some w') : w'.Limits := by
  have hprogress := progress_step hs.progress h
  have hkeyed := routed_step builtInto_keyed hs.keyed h
  have hkept : w'.reload = w.reload → w'.Limits := fun hreload => by
    obtain ⟨hlimits, hconfig⟩ := limits_of_reload_eq hs.progress h (congrArg _ hreload)
    refine ⟨hprogress, hkeyed, ?_, ?_⟩
    · rw [hreload, hlimits, hconfig]
      exact hs.idle
    · rw [hreload, hlimits, hconfig]
      exact hs.applying
  cases moves_of_step h with
  | @reloadStart config hidle hvalid =>
    refine ⟨hprogress, hkeyed, by rintro ⟨⟩, ?_⟩
    rintro _ _ ⟨⟩
    exact ⟨[], rfl, hs.idle hidle⟩
  | @reloadStep config write todo hphase =>
    obtain ⟨done, hdone, hlimits⟩ := hs.applying config _ hphase
    have hlimits' : (w.app.apply write).limits =
        (done ++ [write]).foldl Write.applyLimits w.app.config.limits := by
      rw [limits_apply, hlimits, List.foldl_append]
      rfl
    have hdone' : reloadWrites config = (done ++ [write]) ++ todo := by
      rw [hdone, List.append_assoc]
      rfl
    cases todo with
    | nil =>
      -- the last write puts the configuration in force to which the limits now belong
      have hlast := getLast?_reloadWrites config
      rw [hdone, List.getLast?_concat, Option.some.injEq] at hlast
      subst hlast
      refine ⟨hprogress, hkeyed, fun _ => ?_, by rintro _ _ ⟨⟩⟩
      show (w.app.apply (.swapConfig config)).limits = config.limits
      rw [hlimits', ← hdone, foldl_reloadWrites]
    | cons next todo =>
      have hconfig : (w.app.apply write).config = w.app.config := by
        cases write with
        | swapConfig other => exact absurd (eq_nil_of_swapConfig hdone).1 (List.cons_ne_nil _ _)
        | _ => rfl
      refine ⟨hprogress, hkeyed, by rintro ⟨⟩, ?_⟩
      rintro _ _ ⟨⟩
      refine ⟨done ++ [write], hdone', ?_⟩
      rw [hconfig]
      exact hlimits'
  | _ => exact hkept rfl

theorem limits_throughout (env : Externals) (config : ProxyConfig) (events : List Event) :
    Throughout (World.step env) Limits (init env config) events :=
  throughout_of_along (fun _ _ _ hs _ h => hs.step h) (limits_init env config)
    (along_true _ events)

end Steps

/-! ## Lookups -/

section Lookups

variable {w : World} {e : Event} {entry : RouteEntry}

theorem Limits.key_eq (hs : w.Limits) (hasks : w.Asks e entry) :
    entry.key = routeKey entry.matchHost entry.matchPath := by
  obtain ⟨⟨i, now, generation, index, ip, -, hi⟩, -⟩ := hasks
  exact hs.keyed.inFlight _ (List.mem_of_getElem? hi) entry rfl

/-- What a configuration gives to a route it gives to the key of the route. -/
theorem grants_of_limitsRoute {config : ProxyConfig} {limit : UInt32 × UInt32}
    (hkey : entry.key = routeKey entry.matchHost entry.matchPath)
    (h : config.LimitsRoute entry limit) : config.Grants entry.key limit := by
  obtain ⟨route, hroute, rl, hrl, hhost, hpath, hlimit⟩ := h
  refine ⟨route, hroute, rl, hrl, ?_, hlimit⟩
  rw [hkey, ← hhost, ← hpath]
  rfl

/-- A limit in the map is one of the configuration in force or of the one being loaded. -/
theorem Limits.grants (hs : w.Limits) {key : String} {limit : UInt32 × UInt32}
    (h : w.app.limits key = some limit) :
    w.app.config.Grants key limit ∨ w.target.Grants key limit := by
  cases hreload : w.reload with
  | idle =>
    rw [hs.idle hreload] at h
    exact Or.inl (grants_of_limits h)
  | applying config todo =>
    obtain ⟨done, hdone, hlimits⟩ := hs.applying config todo hreload
    rw [hlimits] at h
    rcases foldl_done ⟨todo, hdone.symm⟩ w.app.config.limits key with
      ⟨-, hfold⟩ | ⟨-, ⟨-, hfold⟩ | ⟨limiter, hmem, hfold⟩⟩
    · rw [hfold] at h
      exact Or.inl (grants_of_limits h)
    · rw [hfold] at h
      cases h
    · rw [hfold] at h
      obtain rfl := Option.some.inj h
      rw [target, hreload]
      refine Or.inr (grants_of_mem_reloadWrites ?_)
      rw [hdone]
      exact List.mem_append_left _ hmem

/-- **A request to a limited route finds a limiter exactly outside the gap.** -/
theorem Limits.lookup_iff (hs : w.Limits) (hasks : w.Asks e entry) :
    (∃ limiter, w.app.routeRatelimiters.lookup entry.key = some limiter) ↔ ¬ w.Gap entry.key := by
  have hkey := hs.key_eq hasks
  obtain ⟨-, ⟨limit, hlimit⟩, -⟩ := hasks
  have hold := limits_ne_none (grants_of_limitsRoute hkey hlimit)
  have hsome : (∃ limiter, w.app.routeRatelimiters.lookup entry.key = some limiter) ↔
      w.app.limits entry.key ≠ none := by
    rw [AppState.limits, Ne, Option.map_eq_none_iff, ← Ne, Option.ne_none_iff_exists']
  rw [hsome]
  cases hreload : w.reload with
  | idle =>
    refine iff_of_true (hs.idle hreload ▸ hold) ?_
    rintro ⟨config, todo, done, hphase, -⟩
    rw [hreload] at hphase
    cases hphase
  | applying config todo =>
    obtain ⟨done, hdone, hlimits⟩ := hs.applying config todo hreload
    -- the writes made so far are determined by those to come
    have hgap : w.Gap entry.key ↔ Write.clearRouteRatelimiters ∈ done ∧
        ∀ limiter, .insertRouteRatelimiter entry.key limiter ∉ done := by
      constructor
      · rintro ⟨config', todo', done', hphase, hdone', h⟩
        rw [hreload] at hphase
        cases hphase
        obtain rfl : done' = done := List.append_cancel_right (hdone'.symm.trans hdone)
        exact h
      · exact fun h => ⟨config, todo, done, hreload, hdone, h⟩
    rw [hgap, hlimits]
    rcases foldl_done ⟨todo, hdone.symm⟩ w.app.config.limits entry.key with
      ⟨hclear, hfold⟩ | ⟨hclear, ⟨hnone, hfold⟩ | ⟨limiter, hmem, hfold⟩⟩
    · exact iff_of_true (hfold ▸ hold) fun h => hclear h.1
    · exact iff_of_false (not_not_intro hfold) (not_not_intro ⟨hclear, hnone⟩)
    · refine iff_of_true (hfold ▸ Option.some_ne_none _) fun h => h.2 limiter hmem

/-- A limit under a key of its own is a limit of the route. -/
theorem limitsRoute_of_grants {config : ProxyConfig} {limit : UInt32 × UInt32}
    (hown : ∀ route ∈ config.routes, route.ratelimit ≠ none → route.limiterKey = entry.key →
      route.matchHost = entry.matchHost ∧ route.matchPath = entry.matchPath)
    (h : config.Grants entry.key limit) : config.LimitsRoute entry limit := by
  obtain ⟨route, hroute, rl, hrl, hkey, hlimit⟩ := h
  obtain ⟨hhost, hpath⟩ := hown route hroute (by rw [hrl]; exact Option.some_ne_none rl) hkey
  exact ⟨route, hroute, rl, hrl, hhost, hpath, hlimit⟩

theorem Limits.checkedByOwn_iff (hs : w.Limits) (hown : w.OwnKey e) :
    w.CheckedByOwn e ↔ w.OutsideGap e := by
  constructor
  · intro h entry hasks
    obtain ⟨limiter, hlookup, -⟩ := h entry hasks
    exact (hs.lookup_iff hasks).1 ⟨limiter, hlookup⟩
  · intro h entry hasks
    obtain ⟨limiter, hlookup⟩ := (hs.lookup_iff hasks).2 (h entry hasks)
    have hlimit : w.app.limits entry.key = some limiter.limit := by
      rw [AppState.limits, hlookup]
      rfl
    refine ⟨limiter, hlookup, (hs.grants hlimit).imp (fun hgrants => ?_) fun hgrants => ?_⟩
    · exact limitsRoute_of_grants (hown entry hasks _ (Or.inl rfl)) hgrants
    · exact limitsRoute_of_grants (hown entry hasks _ (Or.inr rfl)) hgrants

end Lookups

/-- **In every run, the requests to routes that stay limited all find a limiter exactly when none of
them is checked in the gap of a reload; and where the key of the route is its own, that limiter has
a limit of the route.** -/
theorem checked_iff (env : Externals) (config : ProxyConfig) (events : List Event) :
    (Along (step env) Checked (init env config) events ↔
        Along (step env) OutsideGap (init env config) events) ∧
      (Along (step env) (fun w e => w.OwnKey e → w.CheckedByOwn e) (init env config) events ↔
        Along (step env) (fun w e => w.OwnKey e → w.OutsideGap e) (init env config) events) := by
  have hlimits := limits_throughout env config events
  refine ⟨along_congr (fun w e hs => ?_) hlimits, along_congr (fun w e hs => ?_) hlimits⟩
  · exact forall₂_congr fun entry hasks => hs.lookup_iff hasks
  · exact forall_congr' fun hown => hs.checkedByOwn_iff hown

/-- The minimal configuration with a limit of one request per second on its route. -/
def limitedConfig : ProxyConfig :=
  .ofRoutes [{ RouteConfig.minimal [Url.backend] with ratelimit := some ⟨1, 1⟩ }]

/-- A request that arrives, and the first two writes of a reload of the same configuration. -/
def gapEvents : List Event :=
  [Event.arrive "" "/" (.v4 0), Event.reloadStart limitedConfig, Event.reloadStep, Event.reloadStep]

/-- **A request that is checked in the gap passes unlimited.** -/
theorem unchecked_in_gap :
    limitedConfig.validate .empty = .ok () ∧
      ∃ w, run (step .none) (init .none limitedConfig) gapEvents = some w ∧
        w.app.config = limitedConfig ∧ w.target = limitedConfig ∧
        (∃ entry, w.Asks (.limit 0 0) entry ∧ w.app.routeRatelimiters.lookup entry.key = none ∧
          (w.app.checkLimits entry (.v4 0) 0).1 = true) ∧
        ¬ Along (step .none) Checked (init .none limitedConfig) (gapEvents ++ [.limit 0 0]) := by
  have hlimited : ∀ entry : RouteEntry, entry.matchHost = none → entry.matchPath = some "/" →
      ∃ limit, limitedConfig.LimitsRoute entry limit := fun entry hhost hpath =>
    ⟨(1, 1), _, List.mem_cons_self, ⟨1, 1⟩, rfl, hhost.symm, hpath.symm, rfl⟩
  have hasks : ∃ w, run (step .none) (init .none limitedConfig) gapEvents = some w ∧
      w.app.config = limitedConfig ∧ w.target = limitedConfig ∧
      ∃ entry, w.Asks (.limit 0 0) entry ∧ w.app.routeRatelimiters.lookup entry.key = none ∧
        (w.app.checkLimits entry (.v4 0) 0).1 = true := by
    refine ⟨_, rfl, ?_⟩
    refine ⟨rfl, rfl, _, ⟨⟨0, 0, 0, 0, .v4 0, rfl, rfl⟩, ?_, ?_⟩, ?_, ?_⟩
    · exact hlimited _ rfl rfl
    · exact hlimited _ rfl rfl
    · rfl
    · rfl
  obtain ⟨w, hrun, hconfig, htarget, entry, hentry, hlookup, hpasses⟩ := hasks
  refine ⟨by decide, w, hrun, hconfig, htarget, ⟨entry, hentry, hlookup, hpasses⟩, fun h => ?_⟩
  obtain ⟨limiter, hfound⟩ := h.of_run hrun entry hentry
  rw [hlookup] at hfound
  cases hfound

end World

end Upstreamer
