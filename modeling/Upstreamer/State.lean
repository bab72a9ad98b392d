import Upstreamer.Route
import Upstreamer.Middleware.RateLimit
import Upstreamer.Middleware.Errors

/-!
# The shared state

`AppState` is what all tasks of the proxy share: two cells that are swapped whole, the router and
the configuration, two concurrent maps, the passive health settings and what is fixed at start. A
`Write` is one access that changes one of them; the tasks of the proxy are lists of writes, and what
a list of them does to a single field is the iteration of one dictionary update
(`applyAll_addOriginStates`, `applyAll_insertRouteRatelimiters`).
-/

set_option autoImplicit false

namespace Upstreamer

open Foundations

/-- The shared state. The counters of the round-robin balancers belong to the routes of a router;
a router is identified by the number of swaps before it, a route by its position. -/
structure AppState where
  config : ProxyConfig
  router : Router
  generation : Nat
  counters : Nat × Nat → UInt64
  originStates : OriginStates
  ratelimiter : Option RateLimiter
  routeRatelimiters : Dict String RateLimiter
  errorPages : Option ErrorPageStore
  passiveEnabled : Bool
  passiveFailureThreshold : UInt32
  passiveSuccessThreshold : UInt32

/-- The keys under which the origins of a configuration are stored. -/
def ProxyConfig.originKeys (config : ProxyConfig) : List String :=
  config.origins.map fun origin => origin.url.asStr

namespace AppState

/-- `AppState::route_key`, the second of three copies of the format. -/
def routeKey (matchHost matchPath : Option String) : String :=
  Upstreamer.routeKey matchHost matchPath

/-- The limiters of the routes that have one, in the order of the routes. -/
def limiterEntries (config : ProxyConfig) : List (String × RateLimiter) :=
  config.routes.filterMap fun route =>
    route.ratelimit.map fun rl =>
      (routeKey route.matchHost route.matchPath, RateLimiter.new rl.rate rl.burst)

/-- `AppState::new`. -/
def new (fs : FileSystem) (config : ProxyConfig) : AppState where
  config := config
  router := Router.fromConfig config
  generation := 0
  counters := fun _ => 0
  originStates := Dict.orInsertAll config.originKeys OriginState.new ∅
  ratelimiter := config.ratelimit.map fun rl => RateLimiter.new rl.rate rl.burst
  -- two routes with one key leave the limiter of the later one
  routeRatelimiters := Dict.insertAll (limiterEntries config) ∅
  errorPages := config.errorPages.map (ErrorPageStore.fromConfig fs)
  passiveEnabled := config.health.passive.enabled
  passiveFailureThreshold := config.health.passive.failureThreshold
  passiveSuccessThreshold := config.health.passive.successThreshold

end AppState

/-- One write of a background task to the shared state. -/
inductive Write where
  | swapRouter (router : Router)
  | clearRouteRatelimiters
  | insertRouteRatelimiter (key : String) (limiter : RateLimiter)
  | addOriginState (key : String)
  | storePassiveEnabled (enabled : Bool)
  | storePassiveFailureThreshold (threshold : UInt32)
  | storePassiveSuccessThreshold (threshold : UInt32)
  | swapConfig (config : ProxyConfig)

namespace AppState

def apply (app : AppState) : Write → AppState
  | .swapRouter router => { app with router := router, generation := app.generation + 1 }
  | .clearRouteRatelimiters => { app with routeRatelimiters := ∅ }
  | .insertRouteRatelimiter key limiter =>
      { app with routeRatelimiters := app.routeRatelimiters.insert key limiter }
  | .addOriginState key =>
      { app with originStates := Dict.orInsert key OriginState.new app.originStates }
  | .storePassiveEnabled enabled => { app with passiveEnabled := enabled }
  | .storePassiveFailureThreshold threshold => { app with passiveFailureThreshold := threshold }
  | .storePassiveSuccessThreshold threshold => { app with passiveSuccessThreshold := threshold }
  | .swapConfig config => { app with config := config }

/-- The writes of the list, one after another. -/
def applyAll (app : AppState) (writes : List Write) : AppState := writes.foldl apply app

/-- Change the history of one origin; nothing changes when it has none. -/
def updateOrigin (app : AppState) (key : String) (f : OriginState → OriginState) : AppState :=
  { app with originStates := Dict.modify key f app.originStates }

/-! ## What the writes do -/

section Writes

variable (app : AppState)

theorem applyAll_append (ws₁ ws₂ : List Write) :
    app.applyAll (ws₁ ++ ws₂) = (app.applyAll ws₁).applyAll ws₂ :=
  List.foldl_append

theorem applyAll_addOriginStates (keys : List String) :
    app.applyAll (keys.map Write.addOriginState) =
      { app with originStates := Dict.orInsertAll keys OriginState.new app.originStates } := by
  induction keys generalizing app with
  | nil => rfl
  | cons key keys ih =>
    show (app.apply (.addOriginState key)).applyAll (keys.map Write.addOriginState) = _
    rw [ih]
    rfl

theorem applyAll_insertRouteRatelimiters (entries : List (String × RateLimiter)) :
    app.applyAll (entries.map fun e => .insertRouteRatelimiter e.1 e.2) =
      { app with routeRatelimiters := Dict.insertAll entries app.routeRatelimiters } := by
  induction entries generalizing app with
  | nil => rfl
  | cons e entries ih =>
    show (app.apply (.insertRouteRatelimiter e.1 e.2)).applyAll
      (entries.map fun e => .insertRouteRatelimiter e.1 e.2) = _
    rw [ih]
    rfl

/-- A write to the histories adds an entry at most. -/
theorem mem_originStates_apply {app : AppState} {w : Write} {key : String}
    (h : key ∈ app.originStates) : key ∈ (app.apply w).originStates := by
  cases w with
  | addOriginState added => exact Dict.mem_orInsert.2 (Or.inr h)
  | _ => exact h

end Writes

/-- Every origin of the configuration has an entry at start, and nothing else has. -/
theorem mem_originStates_new {fs : FileSystem} {config : ProxyConfig} {key : String} :
    key ∈ (new fs config).originStates ↔ key ∈ config.originKeys := by
  rw [new, Dict.mem_orInsertAll]
  simp [Finmap.notMem_empty]

/-- At start no origin has a history. -/
theorem eq_new_of_lookup_new {fs : FileSystem} {config : ProxyConfig} {key : String}
    {st : OriginState} (h : (new fs config).originStates.lookup key = some st) :
    st = OriginState.new := by
  rcases Dict.eq_of_lookup_orInsertAll h with h | h
  · simp at h
  · exact h

@[simp]
theorem mem_originStates_updateOrigin {app : AppState} {key other : String}
    {f : OriginState → OriginState} :
    other ∈ (app.updateOrigin key f).originStates ↔ other ∈ app.originStates :=
  Dict.mem_modify

end AppState

end Upstreamer
