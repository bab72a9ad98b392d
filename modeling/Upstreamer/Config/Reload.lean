import Upstreamer.State

/-!
# Configuration reload

A reload that loads and validates makes a fixed list of writes, the router first and the
configuration last; any other reload makes none. After all of them the static part of the state is
what a start with the new configuration would have built (`reload_eq`).
-/

set_option autoImplicit false

namespace Upstreamer

open Foundations

/-- The writes of a reload after the router swap, in order. The key of a limiter is the third copy
of the format. -/
def reloadRest (config : ProxyConfig) : List Write :=
  [Write.clearRouteRatelimiters] ++
  (config.routes.filterMap fun route =>
    route.ratelimit.map fun rl =>
      Write.insertRouteRatelimiter (routeKey route.matchHost route.matchPath)
        (RateLimiter.new rl.rate rl.burst)) ++
  config.originKeys.map Write.addOriginState ++
  [Write.storePassiveEnabled config.health.passive.enabled,
    Write.storePassiveFailureThreshold config.health.passive.failureThreshold,
    Write.storePassiveSuccessThreshold config.health.passive.successThreshold] ++
  [Write.swapConfig config]

/-- The writes of `watch_config` for a configuration that passed validation, in order. -/
def reloadWrites (config : ProxyConfig) : List Write :=
  .swapRouter (Router.fromConfig config) :: reloadRest config

/-- The writes of `reloadRest`, one constructor for each kind. -/
inductive InReloadRest (config : ProxyConfig) : Write → Prop
  | cleared : InReloadRest config .clearRouteRatelimiters
  | limiter {key : String} {limiter : RateLimiter}
      (hmem : (key, limiter) ∈ AppState.limiterEntries config) :
      InReloadRest config (.insertRouteRatelimiter key limiter)
  | origin {key : String} (hmem : key ∈ config.originKeys) :
      InReloadRest config (.addOriginState key)
  | enabled : InReloadRest config (.storePassiveEnabled config.health.passive.enabled)
  | failures :
      InReloadRest config (.storePassiveFailureThreshold config.health.passive.failureThreshold)
  | successes :
      InReloadRest config (.storePassiveSuccessThreshold config.health.passive.successThreshold)
  | configured : InReloadRest config (.swapConfig config)

namespace AppState

/-- A reload from start to end, undisturbed. -/
def reload (app : AppState) (config : ProxyConfig) : AppState := app.applyAll (reloadWrites config)

/-- The body of the loop of `watch_config`, given what loading the file returned. -/
def watchConfig (fs : FileSystem) (app : AppState) (loaded : Option ProxyConfig) : AppState :=
  match loaded with
  | some config =>
      match config.validate fs with
      | .ok () => app.reload config
      | .error _ => app
  | none => app

theorem insertWrites_eq (config : ProxyConfig) :
    (config.routes.filterMap fun route => route.ratelimit.map fun rl =>
      Write.insertRouteRatelimiter (Upstreamer.routeKey route.matchHost route.matchPath)
        (RateLimiter.new rl.rate rl.burst)) =
      (limiterEntries config).map fun e => .insertRouteRatelimiter e.1 e.2 := by
  rw [limiterEntries, List.map_filterMap]
  congr 1
  funext route
  cases route.ratelimit <;> rfl

theorem mem_reloadRest_iff {config : ProxyConfig} {write : Write} :
    write ∈ reloadRest config ↔ InReloadRest config write := by
  rw [reloadRest, insertWrites_eq]
  simp only [List.mem_append, List.mem_cons, List.not_mem_nil, or_false, List.mem_map]
  constructor
  · rintro ((((rfl | ⟨entry, hmem, rfl⟩) | ⟨key, hmem, rfl⟩) | (rfl | rfl | rfl)) | rfl)
    · exact .cleared
    · exact .limiter hmem
    · exact .origin hmem
    · exact .enabled
    · exact .failures
    · exact .successes
    · exact .configured
  · intro h
    cases h with
    | limiter hmem => exact Or.inl (Or.inl (Or.inl (Or.inr ⟨_, hmem, rfl⟩)))
    | origin hmem => exact Or.inl (Or.inl (Or.inr ⟨_, hmem, rfl⟩))
    | _ => simp

/-- **What a completed reload leaves behind.** -/
theorem reload_eq (app : AppState) (config : ProxyConfig) :
    app.reload config =
      { app with
        config := config
        router := Router.fromConfig config
        generation := app.generation + 1
        originStates := Dict.orInsertAll config.originKeys OriginState.new app.originStates
        routeRatelimiters := Dict.insertAll (limiterEntries config) ∅
        passiveEnabled := config.health.passive.enabled
        passiveFailureThreshold := config.health.passive.failureThreshold
        passiveSuccessThreshold := config.health.passive.successThreshold } := by
  have hrest : ∀ app : AppState, app.applyAll (reloadRest config) =
      { app with
        config := config
        originStates := Dict.orInsertAll config.originKeys OriginState.new app.originStates
        routeRatelimiters := Dict.insertAll (limiterEntries config) ∅
        passiveEnabled := config.health.passive.enabled
        passiveFailureThreshold := config.health.passive.failureThreshold
        passiveSuccessThreshold := config.health.passive.successThreshold } := fun app => by
    rw [reloadRest, insertWrites_eq, applyAll_append, applyAll_append, applyAll_append,
      applyAll_append, applyAll_insertRouteRatelimiters, applyAll_addOriginStates]
    rfl
  -- the router swap does not touch what the other writes build on
  show (app.apply (.swapRouter (Router.fromConfig config))).applyAll (reloadRest config) = _
  rw [hrest]
  rfl

/-- A configuration that cannot be loaded or is refused changes nothing. -/
theorem watchConfig_of_refused {fs : FileSystem} {app : AppState} {loaded : Option ProxyConfig}
    (h : ∀ config ∈ loaded, ¬ config.Accepted fs) : watchConfig fs app loaded = app := by
  cases loaded with
  | none => rfl
  | some config =>
    have hne : config.validate fs ≠ .ok () := fun hok => h config rfl (validate_eq_ok_iff.1 hok)
    cases hv : config.validate fs with
    | ok u => exact absurd hv hne
    | error e => simp only [watchConfig, hv]

theorem watchConfig_of_accepted {fs : FileSystem} {app : AppState} {config : ProxyConfig}
    (h : config.Accepted fs) : watchConfig fs app (some config) = app.reload config := by
  simp only [watchConfig, validate_eq_ok_iff.2 h]

end AppState

end Upstreamer
