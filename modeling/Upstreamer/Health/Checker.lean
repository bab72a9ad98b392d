import Upstreamer.Config.Reload
import Upstreamer.Balance.Weighted

/-!
# Active health checks

The checker probes the origins of the configuration it was started with. It looks a probed origin up
under the text of its URL without trailing slashes, while every other component uses the text as it
stands, so the outcome of a probe reaches the history of the origin exactly when that text does not
end in a slash (`probeReaches_iff`). A URL written without a path has the path `/`, and its probes
are lost.
-/

set_option autoImplicit false

namespace Upstreamer

open Foundations

/-- A probed origin: the key and start of its URL, and the path that is requested. -/
structure ProbeTarget where
  base : String
  path : String
  deriving DecidableEq

/-- How a probe ends. -/
inductive ProbeOutcome where
  | response (resp : Response)
  | failed
  | timedOut
  deriving DecidableEq

/-- What `run_active_checks` keeps of the configuration it loads once. -/
structure CheckerTask where
  targets : List ProbeTarget
  healthyThreshold : UInt32
  unhealthyThreshold : UInt32
  deriving DecidableEq

def ProbeTarget.ofOrigin (origin : OriginConfig) : ProbeTarget where
  base := trimEndMatches '/' origin.url.asStr
  path := origin.healthCheckPath.getD "/"

/-- The URL that is requested. -/
def ProbeTarget.url (target : ProbeTarget) : String := target.base ++ target.path

/-- The thresholds and targets of a configuration, whether or not checking is enabled. -/
def CheckerTask.ofConfig (config : ProxyConfig) : CheckerTask where
  targets := config.origins.map ProbeTarget.ofOrigin
  healthyThreshold := config.health.active.healthyThreshold
  unhealthyThreshold := config.health.active.unhealthyThreshold

/-- `run_active_checks` up to its loop: the task, when checking is enabled. -/
def CheckerTask.start (config : ProxyConfig) : Option CheckerTask :=
  if config.health.active.enabled then some (ofConfig config) else none

/-- The record that a finished probe makes. -/
def OriginState.recordProbe (st : OriginState) (task : CheckerTask) (outcome : ProbeOutcome) :
    OriginState :=
  match outcome with
  | .response resp =>
      if resp.isSuccess then st.recordSuccessWithThreshold task.healthyThreshold
      else st.recordFailureWithThreshold task.unhealthyThreshold
  | .failed => st.recordFailureWithThreshold task.unhealthyThreshold
  | .timedOut => st.recordFailureWithThreshold task.unhealthyThreshold

/-- The body of the loop of `run_active_checks` once the probe is finished. -/
def AppState.finishProbe (app : AppState) (task : CheckerTask) (target : ProbeTarget)
    (outcome : ProbeOutcome) : AppState :=
  app.updateOrigin target.base fun st => st.recordProbe task outcome

/-- A recorded probe always shows in the health of its origin. -/
theorem OriginState.health_recordProbe_ne (st : OriginState) (task : CheckerTask)
    (outcome : ProbeOutcome) : (st.recordProbe task outcome).health ≠ st.health := by
  cases outcome with
  | response resp =>
    simp only [recordProbe]
    split
    · exact health_recordSuccess_ne st _
    · exact health_recordFailure_ne st _
  | failed => exact health_recordFailure_ne st _
  | timedOut => exact health_recordFailure_ne st _

/-! ## Where the outcome of a probe goes -/

/-- The checker, the shared state and the balancers use one key for the origin, and the outcome of
each probe is recorded in the history that the balancers read. -/
structure ProbeReaches (fs : FileSystem) (config : ProxyConfig) (origin : OriginConfig) :
    Prop where
  stored_at_start : (ProbeTarget.ofOrigin origin).base = origin.url.asStr ∧
    (ProbeTarget.ofOrigin origin).base ∈ (AppState.new fs config).originStates
  stored_by_reload : ∀ app : AppState,
    (ProbeTarget.ofOrigin origin).base ∈ (app.reload config).originStates
  read_by_roundRobin : (ProbeTarget.ofOrigin origin).base = (staticEndpoint origin).urlKey
  read_by_weighted : (ProbeTarget.ofOrigin origin).base = (staticEndpoint origin).url.asStr
  recorded : ∀ app : AppState, (staticEndpoint origin).urlKey ∈ app.originStates →
    ∀ outcome, (app.finishProbe (CheckerTask.ofConfig config) (ProbeTarget.ofOrigin origin)
        outcome).originStates.lookup (staticEndpoint origin).urlKey =
      (app.originStates.lookup (staticEndpoint origin).urlKey).map fun st =>
        st.recordProbe (CheckerTask.ofConfig config) outcome

theorem asStr_mem_originKeys {config : ProxyConfig} {origin : OriginConfig}
    (h : origin ∈ config.origins) : origin.url.asStr ∈ config.originKeys :=
  List.mem_map_of_mem h

/-- **The outcomes of the probes of an origin reach its history exactly when the text of its URL
does not end in a slash.** -/
theorem probeReaches_iff (fs : FileSystem) (config : ProxyConfig) :
    ∀ origin ∈ config.origins,
      (ProbeReaches fs config origin ↔ endsWithChar '/' origin.url.asStr = false) := by
  intro origin horigin
  have hmem := asStr_mem_originKeys horigin
  rw [← trimEndMatches_eq_self_iff]
  constructor
  · intro h
    -- the base is the trimmed text and the key of the weighted balancers the text itself
    exact h.read_by_weighted
  · intro h
    -- without a trailing slash, trimming changes nothing and all keys are one text
    have hbase : (ProbeTarget.ofOrigin origin).base = origin.url.asStr := h
    refine ⟨⟨hbase, ?_⟩, fun app => ?_, hbase, hbase, fun app _ outcome => ?_⟩
    · rw [hbase]
      exact AppState.mem_originStates_new.2 hmem
    · rw [hbase, AppState.reload_eq]
      exact Dict.mem_orInsertAll.2 (Or.inl hmem)
    · rw [AppState.finishProbe, AppState.updateOrigin, hbase]
      exact Dict.lookup_modify_self _ _ _

/-- An origin with a path is probed under its own key. -/
theorem probeReaches_api :
    ProbeReaches .empty (.ofRoutes [RouteConfig.minimal [Url.http "127.0.0.1" (some 3000) "/api"]])
      ⟨Url.http "127.0.0.1" (some 3000) "/api", none, none⟩ :=
  (probeReaches_iff .empty _ _ (by decide)).2 (by decide)

/-- A probe whose key has no history changes nothing. -/
theorem finishProbe_of_notMem {app : AppState} {task : CheckerTask} {target : ProbeTarget}
    (h : target.base ∉ app.originStates) (outcome : ProbeOutcome) :
    app.finishProbe task target outcome = app := by
  rw [AppState.finishProbe, AppState.updateOrigin, Dict.modify_of_notMem h]

/-- The outcomes of the probes of an origin whose URL has the path `/`, and neither query nor
fragment, do not reach its history: this is how a URL without a path is serialised. -/
theorem not_probeReaches_of_root {fs : FileSystem} {config : ProxyConfig}
    (haccepted : config.Accepted fs) {origin : OriginConfig} (horigin : origin ∈ config.origins)
    (hpath : origin.url.path = "/") (hquery : origin.url.query = none)
    (hfragment : origin.url.fragment = none) : ¬ ProbeReaches fs config origin := by
  rw [probeReaches_iff fs config origin horigin,
    Url.endsWithChar_asStr (haccepted.scheme_http horigin) hquery hfragment, hpath]
  decide

/-- **No probe of the minimal configuration is recorded.** It is accepted, checking is enabled in
it, and its only origin is stored under a key that differs from the one the checker uses. -/
theorem minimal_probe_lost :
    ProxyConfig.minimal.validate .empty = .ok () ∧
      CheckerTask.start ProxyConfig.minimal = some ⟨[⟨"http://127.0.0.1:3000", "/"⟩], 2, 3⟩ ∧
      ProxyConfig.minimal.originKeys = ["http://127.0.0.1:3000/"] ∧
      ¬ ProbeReaches .empty ProxyConfig.minimal ⟨Url.backend, none, none⟩ ∧
      ∀ outcome, (AppState.new .empty ProxyConfig.minimal).finishProbe
        (CheckerTask.ofConfig ProxyConfig.minimal) ⟨"http://127.0.0.1:3000", "/"⟩ outcome =
          AppState.new .empty ProxyConfig.minimal := by
  refine ⟨by decide, by decide, by decide, fun h => ?_, fun outcome => ?_⟩
  · exact absurd h.read_by_weighted (by decide)
  · exact finishProbe_of_notMem (fun h => absurd (AppState.mem_originStates_new.1 h) (by decide)) _

end Upstreamer
