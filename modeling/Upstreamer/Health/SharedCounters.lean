import Upstreamer.Balance.HealthRuns
import Upstreamer.Foundations.Machine
import Upstreamer.Health.Checker
import Upstreamer.Server

/-!
# Requests and probes on one pair of counters

The outcomes of requests and the outcomes of active probes are recorded in the same two counters,
each with its own thresholds. So the number that decides is the one of the failures of both streams
since the last success of either, and it is neither the number of failed requests in a row nor the
one of failed probes in a row: a successful probe makes the failed requests before it count for
nothing, and a failed request counts as a failed probe.

The verdict of an outcome depends on its own stream alone exactly if at its threshold the two
numbers decide alike, or the origin is marked unhealthy already (`along_verdictSound_iff`).
-/

set_option autoImplicit false

namespace Upstreamer

open Foundations HealthCall

/-- The outcome of a request to the origin, or of a probe of it. -/
inductive OutcomeEvent where
  | request (result : Except ProxyError Response) (latency : Duration)
  | probe (outcome : ProbeOutcome)

def ProbeOutcome.fails : ProbeOutcome → Bool
  | .response resp => !resp.isSuccess
  | .failed | .timedOut => true

namespace OutcomeEvent

def failed : OutcomeEvent → Bool
  | request result _ => Upstreamer.failed result
  | probe outcome => outcome.fails

def isRequest : OutcomeEvent → Bool
  | request _ _ => true
  | probe _ => false

def isProbe : OutcomeEvent → Bool
  | request _ _ => false
  | probe _ => true

end OutcomeEvent

/-- The failures that a stream of outcomes ends with, latest first. -/
def failuresInRow (history : List OutcomeEvent) : Nat :=
  (history.takeWhile OutcomeEvent.failed).length

/-- Failed requests in a row, with no successful request between them. -/
def failedRequests (history : List OutcomeEvent) : Nat :=
  failuresInRow (history.filter OutcomeEvent.isRequest)

def failedProbes (history : List OutcomeEvent) : Nat :=
  failuresInRow (history.filter OutcomeEvent.isProbe)

/-- An origin with the outcomes recorded in it, latest first. -/
structure RecordedOrigin where
  origin : OriginState
  history : List OutcomeEvent

def RecordedOrigin.fresh : RecordedOrigin := ⟨.new, []⟩

section Thresholds

/- The passive thresholds in force, with passive tracking enabled, and the checker. -/
variable (ft threshold : UInt32) (task : CheckerTask)

/-- The record of an outcome. -/
def OriginState.recordEvent (st : OriginState) : OutcomeEvent → OriginState
  | .request result latency => st.recordOutcome true ft threshold result latency
  | .probe outcome => st.recordProbe task outcome

/-- The outcome with the threshold that it is recorded with. -/
def OutcomeEvent.call : OutcomeEvent → HealthCall
  | .request result _ => if Upstreamer.failed result then .failure ft else .success threshold
  | .probe outcome =>
      if outcome.fails then .failure task.unhealthyThreshold else .success task.healthyThreshold

def RecordedOrigin.step (s : RecordedOrigin) (e : OutcomeEvent) : Option RecordedOrigin :=
  some ⟨s.origin.recordEvent ft threshold task e, e :: s.history⟩

/-- The verdict of an outcome is the one of its own stream. A request that is the last of as many
failed requests in a row as the passive threshold leaves the origin unhealthy, and a probe marks it
unhealthy only as the last of as many failed probes in a row as the active threshold. -/
def RecordedOrigin.VerdictSound (s : RecordedOrigin) (e : OutcomeEvent) : Prop :=
  match e with
  | .request result _ =>
      Upstreamer.failed result = true → failedRequests (e :: s.history) ≥ ft.toNat →
        (s.origin.recordEvent ft threshold task e).healthy = false
  | .probe _ =>
      s.origin.healthy = true → (s.origin.recordEvent ft threshold task e).healthy = false →
        failedProbes (e :: s.history) ≥ task.unhealthyThreshold.toNat

/-- At its threshold an outcome finds the failures of both streams on the same side as those of its
own stream, or the origin marked unhealthy already. -/
def RecordedOrigin.StreamsAgree (s : RecordedOrigin) (e : OutcomeEvent) : Prop :=
  match e with
  | .request result _ =>
      Upstreamer.failed result = true → failedRequests (e :: s.history) ≥ ft.toNat →
        s.origin.healthy = false ∨ failuresInRow (e :: s.history) ≥ ft.toNat
  | .probe outcome =>
      outcome.fails = true → failedProbes (e :: s.history) < task.unhealthyThreshold.toNat →
        s.origin.healthy = false ∨
          failuresInRow (e :: s.history) < task.unhealthyThreshold.toNat

variable {ft threshold : UInt32} {task : CheckerTask}

/-! ## The counters follow both streams -/

variable (ft threshold task) in
theorem isFailure_call (e : OutcomeEvent) :
    isFailure (e.call ft threshold task) = e.failed := by
  cases e with
  | request result latency =>
    cases h : failed result <;> simp [OutcomeEvent.call, OutcomeEvent.failed, h, isFailure]
  | probe outcome =>
    cases h : outcome.fails <;> simp [OutcomeEvent.call, OutcomeEvent.failed, h, isFailure]

theorem runLength_isFailure_map (history : List OutcomeEvent) :
    runLength isFailure (history.map (OutcomeEvent.call ft threshold task)) =
      failuresInRow history := by
  have hcall : isFailure ∘ OutcomeEvent.call ft threshold task = OutcomeEvent.failed :=
    funext (isFailure_call ft threshold task)
  rw [runLength, List.takeWhile_map, List.length_map, hcall]
  rfl

theorem failuresInRow_cons {e : OutcomeEvent} (he : e.failed = true)
    (history : List OutcomeEvent) : failuresInRow (e :: history) = failuresInRow history + 1 := by
  rw [failuresInRow, List.takeWhile_cons_of_pos he]
  rfl

variable (ft threshold task) in
/-- The record of an outcome is that of its call, on a history with other counts and latency. -/
theorem recordEvent_eq (st : OriginState) (e : OutcomeEvent) :
    ∃ st' : OriginState, st'.health = st.health ∧
      st.recordEvent ft threshold task e = st'.record (e.call ft threshold task) := by
  cases e with
  | request result latency =>
    refine ⟨st.incrementRequests.recordLatency latency, rfl, ?_⟩
    show st.recordOutcome true ft threshold result latency = _
    cases h : failed result with
    | true =>
      rw [OutcomeEvent.call, h, if_pos rfl, recordOutcome_of_failed h]
      rfl
    | false =>
      rw [OutcomeEvent.call, h, if_neg Bool.false_ne_true, recordOutcome_of_not_failed h]
      rfl
  | probe outcome =>
    refine ⟨st, rfl, ?_⟩
    cases outcome with
    | response resp =>
      cases h : resp.isSuccess <;>
        simp [OriginState.recordEvent, OriginState.recordProbe, OutcomeEvent.call,
          ProbeOutcome.fails, h, OriginState.record]
    | failed => rfl
    | timedOut => rfl

theorem tracks_of_health_eq {st st' : OriginState} {history : List HealthCall}
    (h : Tracks st history) (heq : st'.health = st.health) : Tracks st' history := by
  obtain ⟨hhealthy, hcounters⟩ := Prod.mk.inj heq
  obtain ⟨hsuccesses, hfailures⟩ := Prod.mk.inj hcounters
  exact ⟨hsuccesses.trans h.successes, hfailures.trans h.failures,
    fun hlong => hhealthy.trans (h.healthy_of_long hlong),
    fun hlong => hhealthy.trans (h.unhealthy_of_long hlong)⟩

namespace RecordedOrigin

variable {s t : RecordedOrigin} {e : OutcomeEvent}

/-- The counters follow the outcomes of both streams. -/
def Follows (ft threshold : UInt32) (task : CheckerTask) (s : RecordedOrigin) : Prop :=
  Tracks s.origin (s.history.map (OutcomeEvent.call ft threshold task))

theorem follows_step (h : s.Follows ft threshold task)
    (hstep : s.step ft threshold task e = some t) : t.Follows ft threshold task := by
  cases hstep
  obtain ⟨st', hhealth, hrecord⟩ := recordEvent_eq ft threshold task s.origin e
  show Tracks (s.origin.recordEvent ft threshold task e) _
  rw [hrecord]
  exact (tracks_of_health_eq h hhealth).record _

/-- **A failure decides by the failures of both streams.** -/
theorem healthy_recordEvent_of_failed (h : s.Follows ft threshold task) (he : e.failed = true)
    {limit : UInt32} (hcall : e.call ft threshold task = .failure limit) :
    (s.origin.recordEvent ft threshold task e).healthy =
      if failuresInRow (e :: s.history) ≥ limit.toNat then false else s.origin.healthy := by
  obtain ⟨st', hhealth, hrecord⟩ := recordEvent_eq ft threshold task s.origin e
  obtain ⟨hhealthy, -⟩ := Prod.mk.inj hhealth
  have hdecides := (tracks_of_health_eq h hhealth).healthy_failure limit
  rw [runLength_isFailure_map, ← failuresInRow_cons he, hhealthy] at hdecides
  rw [hrecord, hcall]
  exact hdecides

/-- A successful outcome does not mark the origin unhealthy. -/
theorem healthy_recordEvent_of_not_failed (hs : s.origin.healthy = true) (he : e.failed = false) :
    (s.origin.recordEvent ft threshold task e).healthy = true := by
  obtain ⟨st', hhealth, hrecord⟩ := recordEvent_eq ft threshold task s.origin e
  obtain ⟨hhealthy, -⟩ := Prod.mk.inj hhealth
  have hcall := isFailure_call ft threshold task e
  rw [hrecord]
  cases hc : e.call ft threshold task with
  | success limit =>
    show (st'.recordSuccessWithThreshold limit).healthy = true
    rw [OriginState.healthy_recordSuccess, hhealthy, hs, ite_self]
  | failure limit =>
    rw [hc, he] at hcall
    cases hcall

theorem verdictSound_iff (h : s.Follows ft threshold task) :
    s.VerdictSound ft threshold task e ↔ s.StreamsAgree ft task e := by
  cases e with
  | request result latency =>
    refine forall_congr' fun hfailed => forall_congr' fun hrow => ?_
    have he : (OutcomeEvent.request result latency).failed = true := hfailed
    rw [healthy_recordEvent_of_failed h he (if_pos hfailed)]
    split
    · next hall => exact iff_of_true rfl (Or.inr hall)
    · next hall => exact ⟨Or.inl, fun hagree => hagree.resolve_right hall⟩
  | probe outcome =>
    cases hfails : outcome.fails with
    | false =>
      refine iff_of_true (fun hs hunhealthy => ?_) (fun hfailed => ?_)
      · rw [healthy_recordEvent_of_not_failed (e := .probe outcome) hs hfails] at hunhealthy
        cases hunhealthy
      · rw [hfails] at hfailed
        cases hfailed
    | true =>
      have hdecides :=
        healthy_recordEvent_of_failed (e := .probe outcome) h hfails (if_pos hfails)
      show (_ → _ → _) ↔ (_ → _ → _)
      rw [hdecides]
      cases hs : s.origin.healthy with
      | false => exact iff_of_true nofun fun _ _ => Or.inl rfl
      | true =>
        constructor
        · intro hsound _ hrow
          refine Or.inr (not_le.1 fun hall => ?_)
          exact absurd (hsound rfl (if_pos hall)) (not_le.2 hrow)
        · intro hagree _ hunhealthy
          by_contra hrow
          rcases hagree hfails (not_le.1 hrow) with hfalse | hall
          · cases hfalse
          · rw [if_neg (not_le.2 hall)] at hunhealthy
            cases hunhealthy

/-- **When the verdict of an outcome depends on its own stream alone.** -/
theorem along_verdictSound_iff (ft threshold : UInt32) (task : CheckerTask)
    (events : List OutcomeEvent) :
    Along (step ft threshold task) (VerdictSound ft threshold task) fresh events ↔
      Along (step ft threshold task) (StreamsAgree ft task) fresh events := by
  have hfollows : Throughout (step ft threshold task) (Follows ft threshold task) fresh events :=
    throughout_of_along (fun s e t h _ hstep => follows_step h hstep) Tracks.new
      (along_true fresh events)
  exact along_congr (I := Follows ft threshold task) (fun s e h => verdictSound_iff h) hfollows

end RecordedOrigin

/-! ## In the shared state -/

/-- What the handler and the checker do with an outcome of the origin. -/
def AppState.recordEvent (config : ProxyConfig) (origin : OriginConfig) (app : AppState) :
    OutcomeEvent → AppState
  | .request result latency => app.recordOutcome (staticEndpoint origin) result latency
  | .probe outcome =>
      app.finishProbe (CheckerTask.ofConfig config) (ProbeTarget.ofOrigin origin) outcome

section SharedState

variable {fs : FileSystem} {config : ProxyConfig} {origin : OriginConfig} {app : AppState}

theorem AppState.lookup_recordEvent (hreaches : ProbeReaches fs config origin)
    (hpassive : app.passiveEnabled = true)
    (hmem : (staticEndpoint origin).urlKey ∈ app.originStates) (e : OutcomeEvent) :
    (app.recordEvent config origin e).originStates.lookup (staticEndpoint origin).urlKey =
      (app.originStates.lookup (staticEndpoint origin).urlKey).map fun st =>
        st.recordEvent app.passiveFailureThreshold app.passiveSuccessThreshold
          (CheckerTask.ofConfig config) e := by
  cases e with
  | request result latency =>
    show (Dict.modify _ _ _).lookup _ = _
    rw [Dict.lookup_modify_self, hpassive]
    rfl
  | probe outcome => exact hreaches.recorded app hmem outcome

/-- **Both streams of an origin whose probes are recorded end up in one history.** -/
theorem AppState.lookup_recordEvents (hreaches : ProbeReaches fs config origin)
    (hpassive : app.passiveEnabled = true)
    (hmem : (staticEndpoint origin).urlKey ∈ app.originStates) (events : List OutcomeEvent) :
    (events.foldl (AppState.recordEvent config origin) app).originStates.lookup
        (staticEndpoint origin).urlKey =
      (app.originStates.lookup (staticEndpoint origin).urlKey).map fun st =>
        events.foldl (OriginState.recordEvent app.passiveFailureThreshold
          app.passiveSuccessThreshold (CheckerTask.ofConfig config)) st := by
  induction events generalizing app with
  | nil => simp
  | cons e events ih =>
    have hlookup := lookup_recordEvent hreaches hpassive hmem e
    -- a record changes histories only
    have hframe : ∃ states,
        app.recordEvent config origin e = { app with originStates := states } := by
      cases e <;> exact ⟨_, rfl⟩
    obtain ⟨states, hstates⟩ := hframe
    have hmem' : (staticEndpoint origin).urlKey ∈
        (app.recordEvent config origin e).originStates := by
      obtain ⟨st, hst⟩ := Finmap.mem_iff.1 hmem
      rw [hst] at hlookup
      exact Finmap.mem_iff.2 ⟨_, hlookup⟩
    have hpassive' : (app.recordEvent config origin e).passiveEnabled = true := by
      rw [hstates]
      exact hpassive
    have hrest := ih hpassive' hmem'
    rw [hlookup, Option.map_map] at hrest
    rw [List.foldl_cons, hrest, hstates]
    rfl

end SharedState

end Thresholds

/-! ## Verdicts that depend on the other stream -/

namespace RecordedOrigin

def failedRequest : OutcomeEvent := .request (.error .build) 0

def passedProbe : OutcomeEvent := .probe (.response ⟨200, [], []⟩)

def failedProbe : OutcomeEvent := .probe .timedOut

/-- **The verdicts of the two streams depend on each other.** With the default thresholds the fifth
failed request in a row leaves the origin healthy when a probe has passed before it, and a single
failed probe marks the origin unhealthy after two failed requests. -/
theorem not_along_verdictSound :
    ¬ Along (step 5 2 ⟨[], 2, 3⟩) (VerdictSound 5 2 ⟨[], 2, 3⟩) fresh
        ([failedRequest, failedRequest, failedRequest, failedRequest, passedProbe] ++
          [failedRequest]) ∧
      ¬ Along (step 5 2 ⟨[], 2, 3⟩) (VerdictSound 5 2 ⟨[], 2, 3⟩) fresh
        ([failedRequest, failedRequest] ++ [failedProbe]) := by
  constructor
  · intro h
    have hlast := h.of_run rfl
    exact absurd (hlast rfl (by decide)) (by decide)
  · intro h
    have hlast := h.of_run rfl
    exact absurd (hlast (by decide) (by decide)) (by decide)

end RecordedOrigin

end Upstreamer
