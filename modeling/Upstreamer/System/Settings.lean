import Upstreamer.System

/-!
# Settings

The part of the shared state that decides how requests are handled, without what requests leave in
it: the router, the rates and bursts of the route limiters, the error pages and the passive
settings. A write changes the settings as a function of the settings (`settings_applyAll`);
requests, probes and sweeps leave them as they are (`settings_of_nextWrite`).
-/

set_option autoImplicit false

namespace Upstreamer

open Foundations

@[ext]
structure Settings where
  router : Router
  limits : String → Option (UInt32 × UInt32)
  errorPage : UInt16 → Option (List UInt8)
  passiveEnabled : Bool
  passiveFailureThreshold : UInt32
  passiveSuccessThreshold : UInt32

/-- The rate and the burst of a limiter. -/
def RateLimiter.limit (limiter : RateLimiter) : UInt32 × UInt32 := (limiter.rate, limiter.burst)

namespace AppState

/-- The limit under a key of the route limiters. -/
def limits (app : AppState) (key : String) : Option (UInt32 × UInt32) :=
  (app.routeRatelimiters.lookup key).map RateLimiter.limit

/-- The page on record for a status. -/
def errorPage (app : AppState) (status : UInt16) : Option (List UInt8) :=
  app.errorPages.bind fun pages => pages.lookup status

def settings (app : AppState) : Settings where
  router := app.router
  limits := app.limits
  errorPage := app.errorPage
  passiveEnabled := app.passiveEnabled
  passiveFailureThreshold := app.passiveFailureThreshold
  passiveSuccessThreshold := app.passiveSuccessThreshold

end AppState

/-- What a write does to the settings. -/
def Settings.apply (settings : Settings) : Write → Settings
  | .swapRouter router => { settings with router := router }
  | .clearRouteRatelimiters => { settings with limits := fun _ => none }
  | .insertRouteRatelimiter key limiter =>
      { settings with limits := Function.update settings.limits key (some limiter.limit) }
  | .addOriginState _ => settings
  | .storePassiveEnabled enabled => { settings with passiveEnabled := enabled }
  | .storePassiveFailureThreshold threshold =>
      { settings with passiveFailureThreshold := threshold }
  | .storePassiveSuccessThreshold threshold =>
      { settings with passiveSuccessThreshold := threshold }
  | .swapConfig _ => settings

namespace AppState

theorem limits_insert (app : AppState) (key : String) (limiter : RateLimiter) :
    limits { app with routeRatelimiters := app.routeRatelimiters.insert key limiter } =
      Function.update app.limits key (some limiter.limit) := by
  funext other
  rw [limits, Function.update_apply]
  by_cases hother : other = key
  · rw [if_pos hother, hother, Finmap.lookup_insert]
    rfl
  · rw [if_neg hother, Finmap.lookup_insert_of_ne _ hother]
    rfl

theorem settings_apply (app : AppState) (write : Write) :
    (app.apply write).settings = app.settings.apply write := by
  cases write with
  | insertRouteRatelimiter key limiter =>
    have h := app.limits_insert key limiter
    exact congrArg (fun limits => { app.settings with limits := limits }) h
  | clearRouteRatelimiters => rfl
  | _ => rfl

theorem settings_applyAll (app : AppState) (writes : List Write) :
    (app.applyAll writes).settings = writes.foldl Settings.apply app.settings := by
  induction writes generalizing app with
  | nil => rfl
  | cons write writes ih =>
    show ((app.apply write).applyAll writes).settings = _
    rw [ih, settings_apply]
    rfl

/-! ## What leaves the settings alone -/

/-- A check replaces a limiter by one with the same limit. -/
theorem settings_checkLimits (app : AppState) (entry : RouteEntry) (ip : IpAddr) (now : Instant) :
    (app.checkLimits entry ip now).2.settings = app.settings := by
  rw [checkLimits]
  cases hlookup : app.routeRatelimiters.lookup entry.key with
  | some limiter =>
    have hlimit : (limiter.check ip now).2.limit = limiter.limit := by
      rw [RateLimiter.limit, RateLimiter.rate_check, RateLimiter.burst_check]
      rfl
    have h := app.limits_insert entry.key (limiter.check ip now).2
    rw [hlimit, Function.update_eq_self_iff.2 (by rw [limits, hlookup]; rfl)] at h
    exact congrArg (fun limits => { app.settings with limits := limits }) h
  | none =>
    cases hglobal : app.ratelimiter with
    | some limiter => rfl
    | none => rfl

theorem settings_sweep (app : AppState) (now : Instant) :
    (app.sweep now).settings = app.settings := by
  have h : (app.sweep now).limits = app.limits := by
    funext key
    rw [limits, limits, sweep, Dict.lookup_mapValues, Option.map_map]
    rfl
  exact congrArg (fun limits => { app.settings with limits := limits }) h

end AppState

namespace World

variable {env : Externals} {w w' : World} {e : Event}

/-- **Only writes change the settings and the configuration.** -/
theorem settings_of_nextWrite (h : step env w e = some w') (hwrite : w.nextWrite e = none) :
    w'.app.settings = w.app.settings ∧ w'.app.config = w.app.config := by
  refine ⟨?_, (sameSettings_of_nextWrite h hwrite).config_eq⟩
  cases moves_of_step h with
  | reloadStep hphase => simp [nextWrite, hphase, ReloadPhase.todo] at hwrite
  | rebuildStep hphase => simp [nextWrite, hphase, RebuildPhase.todo] at hwrite
  | limited _ _ => exact AppState.settings_checkLimits _ _ _ _
  | admitted _ _ => exact AppState.settings_checkLimits _ _ _ _
  | swept => exact AppState.settings_sweep _ _
  | _ => rfl

end World

end Upstreamer
