import Upstreamer.Foundations.Past
import Upstreamer.System

/-!
# Passive tracking switched off

With passive tracking switched off, outcomes are still recorded, under fixed thresholds. Without
probes, the flags of all origins keep their initial value exactly as long as no failing outcome is
recorded for an origin whose last four outcomes failed (`flags_kept_iff`). As long as this is so,
the outcomes do not show in the selection of origins.
-/

set_option autoImplicit false

namespace Upstreamer

open Foundations

/-- Every origin that has a history is marked healthy, as it was when the history began. -/
def OriginStates.AllHealthy (states : OriginStates) : Prop :=
  ∀ key st, states.lookup key = some st → st.healthy = true

namespace OriginStates

variable {states : OriginStates}

theorem AllHealthy.orInsert (h : states.AllHealthy) (key : String) :
    AllHealthy (Dict.orInsert key OriginState.new states) :=
  Dict.forall_lookup_orInsert h key OriginState.healthy_new

/-- A change of one history keeps all flags exactly when it keeps the flag of that history. -/
theorem AllHealthy.modify_iff (h : states.AllHealthy) (key : String)
    (f : OriginState → OriginState) :
    AllHealthy (Dict.modify key f states) ↔
      ∀ st, states.lookup key = some st → (f st).healthy = true := by
  constructor
  · intro hmodify st hst
    exact hmodify key (f st) (by rw [Dict.lookup_modify_self, hst, Option.map_some])
  · exact Dict.forall_lookup_modify h

end OriginStates

/-- With passive tracking off, an outcome marks a healthy origin unhealthy exactly when it is a
failure after at least four in a row. -/
theorem healthy_recordOutcome_off {st : OriginState} (hst : st.healthy = true)
    (ft threshold : UInt32) (result : Except ProxyError Response) (latency : Duration) :
    (st.recordOutcome false ft threshold result latency).healthy = true ↔
      (failed result = true → st.consecutiveFailures + 1 < 5) := by
  cases hresult : failed result with
  | true =>
    rw [recordOutcome_of_failed hresult, OriginState.healthy_recordFailure]
    show (if st.consecutiveFailures + 1 ≥ 5 then false else st.healthy) = true ↔ _
    rw [hst]
    split
    · next hge => simpa using UInt32.not_lt.2 hge
    · next hlt => simpa using UInt32.not_le.1 hlt
  | false =>
    rw [recordOutcome_of_not_failed hresult, OriginState.healthy_recordSuccess]
    refine iff_of_true ?_ (by simp)
    show (if st.consecutiveSuccesses + 1 ≥ 2 then true else st.healthy) = true
    rw [hst, ite_self]

/-- The shared state with other histories. -/
def AppState.withStates (app : AppState) (states : OriginStates) : AppState :=
  { app with originStates := states }

namespace World

/-- Passive tracking is off and the step is not the end of a probe. -/
def PassiveOff (w : World) : Event → Prop
  | .probe _ _ => False
  | _ => w.app.passiveEnabled = false

/-- A failing outcome is not recorded for an origin whose last four recorded outcomes, or more,
failed. -/
def NotFifthFailure (w : World) : Event → Prop
  | .finish i result _ => failed result = true → ∀ origin st,
      w.inFlight[i]? = some (.forwarding origin) →
      w.app.originStates.lookup origin.urlKey = some st → st.consecutiveFailures + 1 < 5
  | _ => True

instance (w : World) : DecidablePred w.PassiveOff
  | .probe _ _ => inferInstanceAs (Decidable False)
  | .reloadStart _ | .reloadStep | .discover _ | .rebuildLoad _ | .rebuildStep | .arrive _ _ _
  | .limit _ _ | .select _ _ | .finish _ _ _ | .drop _ | .sweep _ =>
      inferInstanceAs (Decidable (w.app.passiveEnabled = false))

instance (w : World) : DecidablePred w.NotFifthFailure
  | .finish i result _ =>
      match h : w.inFlight[i]? with
      | some (.forwarding origin) =>
          decidable_of_iff (failed result = true →
              ∀ st ∈ w.app.originStates.lookup origin.urlKey, st.consecutiveFailures + 1 < 5)
            ⟨fun hfew hfailed origin' st hi hst => by
              cases h.symm.trans hi
              exact hfew hfailed st hst, fun hfew hfailed st hst => hfew hfailed origin st h hst⟩
      | some (.matched _ _ _ _) | some (.admitted _ _ _) | none =>
          isTrue fun _ _ _ hi => by cases h.symm.trans hi
  | .probe _ _ | .reloadStart _ | .reloadStep | .discover _ | .rebuildLoad _ | .rebuildStep
  | .arrive _ _ _ | .limit _ _ | .select _ _ | .drop _ | .sweep _ => isTrue trivial

/-- All flags have their initial value. -/
def FlagsKept (w : World) : Prop := w.app.originStates.AllHealthy

section Flags

variable {env : Externals} {w w' : World} {e : Event}

theorem flagsKept_init (env : Externals) (config : ProxyConfig) : (init env config).FlagsKept := by
  intro key st hst
  rw [AppState.eq_new_of_lookup_new hst, OriginState.healthy_new]

theorem flagsKept_apply {app : AppState} (h : app.originStates.AllHealthy) (write : Write) :
    (app.apply write).originStates.AllHealthy := by
  cases write with
  | addOriginState key => exact h.orInsert key
  | _ => exact h

theorem notFifthFailure_iff_flagsKept (hs : w.FlagsKept) (hoff : w.PassiveOff e)
    (h : step env w e = some w') : w.NotFifthFailure e ↔ w'.FlagsKept := by
  cases moves_of_step h with
  | reloadStep _ => exact iff_of_true trivial (flagsKept_apply hs _)
  | rebuildStep _ => exact iff_of_true trivial (flagsKept_apply hs _)
  | @limited i now generation index entry ip hi _ =>
    rw [FlagsKept, AppState.originStates_checkLimits]
    exact iff_of_true trivial hs
  | @admitted i now generation index entry ip hi _ =>
    rw [FlagsKept, AppState.originStates_checkLimits]
    exact iff_of_true trivial hs
  | @finished i result latency origin hi =>
    have hpassive : w.app.passiveEnabled = false := hoff
    have hmodify := OriginStates.AllHealthy.modify_iff hs origin.urlKey fun st =>
      st.recordOutcome w.app.passiveEnabled w.app.passiveFailureThreshold
        w.app.passiveSuccessThreshold result latency
    show _ ↔ OriginStates.AllHealthy (Dict.modify origin.urlKey _ w.app.originStates)
    rw [hmodify, hpassive]
    constructor
    · intro hnot st hst
      rw [healthy_recordOutcome_off (hs _ st hst)]
      exact fun hresult => hnot hresult origin st hi hst
    · intro hkept hresult origin' st hi' hst
      obtain rfl : origin = origin' := by simpa [hi] using hi'
      exact (healthy_recordOutcome_off (hs _ st hst) _ _ _ _).1 (hkept st hst) hresult
  -- probes are excluded by the assumption on the run
  | probed _ _ => exact absurd hoff not_false
  | _ => exact iff_of_true trivial hs

end Flags

/-! ## Outcomes do not show in the selection -/

/-- Events that differ at most in the result of a request. -/
inductive SameUpToResult : Event → Event → Prop
  | same (e : Event) : SameUpToResult e e
  | result (i : Nat) (result result' : Except ProxyError Response) (latency : Duration) :
      SameUpToResult (.finish i result latency) (.finish i result' latency)

/-- The world with other histories. -/
def withStates (w : World) (states : OriginStates) : World :=
  { w with app := w.app.withStates states }

/-- Two maps of histories from which selection reads the same. -/
def SelectableEq (states states' : OriginStates) : Prop :=
  ∀ key, (states'.lookup key).map OriginState.selectable =
    (states.lookup key).map OriginState.selectable

/-- Two worlds that differ in histories only, with the same flags and latencies. -/
structure Alike (w v : World) : Prop where
  eq_withStates : v = w.withStates v.app.originStates
  selectable : SelectableEq w.app.originStates v.app.originStates
  kept : w.FlagsKept

section Alike

variable {env : Externals} {w w' v : World} {e d : Event} {states states' : OriginStates}

theorem SelectableEq.orInsert (h : SelectableEq states states') (key : String) :
    SelectableEq (Dict.orInsert key OriginState.new states)
      (Dict.orInsert key OriginState.new states') := by
  intro other
  by_cases hother : other = key
  · subst hother
    rw [Dict.lookup_orInsert_self, Dict.lookup_orInsert_self]
    rcases lookup_of_selectable_eq h other with ⟨hs, hs'⟩ | ⟨st, st', hs, hs', hhealthy, hlatency⟩
    · rw [hs, hs']
    · simp [hs, hs', OriginState.selectable, hhealthy, hlatency]
  · rw [Dict.lookup_orInsert_ne hother, Dict.lookup_orInsert_ne hother]
    exact h other

theorem SelectableEq.modify (h : SelectableEq states states') (key : String)
    {f f' : OriginState → OriginState}
    (hf : ∀ st st', states.lookup key = some st → states'.lookup key = some st' →
      st'.healthy = st.healthy → st'.ewmaLatencyNs = st.ewmaLatencyNs →
      (f' st').selectable = (f st).selectable) :
    SelectableEq (Dict.modify key f states) (Dict.modify key f' states') := by
  intro other
  by_cases hother : other = key
  · subst hother
    rw [Dict.lookup_modify_self, Dict.lookup_modify_self]
    rcases lookup_of_selectable_eq h other with ⟨hs, hs'⟩ | ⟨st, st', hs, hs', hhealthy, hlatency⟩
    · rw [hs, hs']
      rfl
    · simp only [hs, hs', Option.map_some, hf st st' hs hs' hhealthy hlatency]
  · rw [Dict.lookup_modify_ne hother, Dict.lookup_modify_ne hother]
    exact h other

theorem ewmaLatencyNs_recordOutcome (st : OriginState) (passiveEnabled : Bool)
    (ft threshold : UInt32) (result : Except ProxyError Response) (latency : Duration) :
    (st.recordOutcome passiveEnabled ft threshold result latency).ewmaLatencyNs =
      (st.recordLatency latency).ewmaLatencyNs := by
  cases hresult : failed result with
  | true => rw [recordOutcome_of_failed hresult]; rfl
  | false => rw [recordOutcome_of_not_failed hresult]; rfl

theorem checkLimits_withStates (app : AppState) (states : OriginStates) (entry : RouteEntry)
    (ip : IpAddr) (now : Instant) :
    (app.withStates states).checkLimits entry ip now =
      ((app.checkLimits entry ip now).1, (app.checkLimits entry ip now).2.withStates states) := by
  cases hroute : app.routeRatelimiters.lookup entry.key with
  | some limiter => simp only [AppState.checkLimits, AppState.withStates, hroute]
  | none =>
    cases hglobal : app.ratelimiter with
    | some limiter => simp only [AppState.checkLimits, AppState.withStates, hroute, hglobal]
    | none => simp only [AppState.checkLimits, AppState.withStates, hroute, hglobal]

theorem selectOrigin_withStates {app : AppState}
    (h : SelectableEq app.originStates states) (generation index : Nat) (entry : RouteEntry)
    (draw : Draw) :
    (app.withStates states).selectOrigin generation index entry draw =
      ((app.selectOrigin generation index entry draw).1,
        (app.selectOrigin generation index entry draw).2.withStates states) := by
  simp only [AppState.selectOrigin, AppState.withStates, selectOrigin_congr h]

/-- The limiters do not touch histories. -/
theorem SelectableEq.checkLimits {app : AppState} (h : SelectableEq app.originStates states)
    (entry : RouteEntry) (ip : IpAddr) (now : Instant) :
    SelectableEq (app.checkLimits entry ip now).2.originStates states := by
  rwa [AppState.originStates_checkLimits]

/-- A result recorded in both worlds leaves them alike, even if it is not the same one. -/
theorem Alike.finish (h : Alike w (w.withStates states)) {i : Nat}
    {result result' : Except ProxyError Response} {latency : Duration} {origin : OriginEndpoint}
    (hi : w.inFlight[i]? = some (.forwarding origin)) (hoff : w.app.passiveEnabled = false)
    (hw : w.NotFifthFailure (.finish i result latency))
    (hv : (w.withStates states).NotFifthFailure (.finish i result' latency))
    (hkept : FlagsKept { w with
      app := w.app.recordOutcome origin result latency, inFlight := w.inFlight.eraseIdx i }) :
    ∃ v', step env (w.withStates states) (.finish i result' latency) = some v' ∧
      Alike { w with
        app := w.app.recordOutcome origin result latency
        inFlight := w.inFlight.eraseIdx i } v' := by
  refine ⟨_, step_of_moves (.finished hi), rfl, ?_, hkept⟩
  refine h.selectable.modify origin.urlKey fun st st' hst hst' hhealthy hlatency => ?_
  -- both records keep the flag, each for its own counter, and set the same latency
  have htrue : st.healthy = true := h.kept _ st hst
  refine Prod.ext ?_ ?_
  · have hst_kept : (st.recordOutcome false w.app.passiveFailureThreshold
        w.app.passiveSuccessThreshold result latency).healthy = true :=
      (healthy_recordOutcome_off htrue _ _ _ _).2 fun hresult => hw hresult origin st hi hst
    have hst'_kept : (st'.recordOutcome false w.app.passiveFailureThreshold
        w.app.passiveSuccessThreshold result' latency).healthy = true :=
      (healthy_recordOutcome_off (hhealthy.trans htrue) _ _ _ _).2
        fun hresult => hv hresult origin st' hi hst'
    simp only [OriginState.selectable, withStates, AppState.withStates, hoff, hst_kept, hst'_kept]
  · simp only [OriginState.selectable, ewmaLatencyNs_recordOutcome, OriginState.recordLatency,
      hlatency]

/-- As long as no failure is the fifth in a row, alike worlds stay alike. -/
theorem Alike.step (h : Alike w v) (hed : SameUpToResult e d)
    (hw : w.PassiveOff e ∧ w.NotFifthFailure e) (hv : v.NotFifthFailure d)
    (hstep : World.step env w e = some w') :
    ∃ v', World.step env v d = some v' ∧ Alike w' v' := by
  have hkept : w'.FlagsKept := (notFifthFailure_iff_flagsKept h.kept hw.1 hstep).1 hw.2
  obtain ⟨states, rfl⟩ : ∃ states, v = w.withStates states := ⟨_, h.eq_withStates⟩
  have hsel : SelectableEq w.app.originStates states := h.selectable
  cases hed with
  -- the results differ: the second world takes the same step with its own result
  | result i result result' latency =>
    cases moves_of_step hstep with
    | finished hi => exact h.finish hi hw.1 hw.2 hv hkept
  | same e =>
    cases moves_of_step hstep with
    | reloadStart hidle hvalid =>
      exact ⟨_, step_of_moves (.reloadStart hidle hvalid), rfl, hsel, hkept⟩
    | @reloadStep config write todo hphase =>
      cases write with
      | addOriginState key =>
        exact ⟨_, step_of_moves (.reloadStep hphase), rfl, hsel.orInsert key, hkept⟩
      | _ => exact ⟨_, step_of_moves (.reloadStep hphase), rfl, hsel, hkept⟩
    | ignored hidle hactive hnone =>
      exact ⟨_, step_of_moves (.ignored hidle hactive hnone), rfl, hsel, hkept⟩
    | discovered hidle hactive hsome =>
      exact ⟨_, step_of_moves (.discovered hidle hactive hsome), rfl, hsel, hkept⟩
    | rebuildLoad hphase horder =>
      exact ⟨_, step_of_moves (.rebuildLoad hphase horder), rfl, hsel, hkept⟩
    | @rebuildStep loaded write todo hphase =>
      cases write with
      | addOriginState key =>
        exact ⟨_, step_of_moves (.rebuildStep hphase), rfl, hsel.orInsert key, hkept⟩
      | _ => exact ⟨_, step_of_moves (.rebuildStep hphase), rfl, hsel, hkept⟩
    | unmatched hnone => exact ⟨_, step_of_moves (.unmatched hnone), rfl, hsel, hkept⟩
    | matched hindex hentry =>
      exact ⟨_, step_of_moves (.matched hindex hentry), rfl, hsel, hkept⟩
    | @limited i now generation index entry ip hi hrefused =>
      -- limiters do not look at histories
      have hlimits : (w.withStates states).app.checkLimits entry ip now = _ :=
        checkLimits_withStates w.app states entry ip now
      have hmove : Moves env (w.withStates states) (.limit i now) _ :=
        .limited hi ((congrArg Prod.fst hlimits).trans hrefused)
      rw [hlimits] at hmove
      exact ⟨_, step_of_moves hmove, rfl, hsel.checkLimits entry ip now, hkept⟩
    | @admitted i now generation index entry ip hi hallowed =>
      have hlimits : (w.withStates states).app.checkLimits entry ip now = _ :=
        checkLimits_withStates w.app states entry ip now
      have hmove : Moves env (w.withStates states) (.limit i now) _ :=
        .admitted hi ((congrArg Prod.fst hlimits).trans hallowed)
      rw [hlimits] at hmove
      exact ⟨_, step_of_moves hmove, rfl, hsel.checkLimits entry ip now, hkept⟩
    | @refused i draw generation index entry hi hnone =>
      -- selection reads flags and latencies, which agree
      have hselect : (w.withStates states).app.selectOrigin generation index entry draw = _ :=
        selectOrigin_withStates hsel generation index entry draw
      have hmove : Moves env (w.withStates states) (.select i draw) _ :=
        .refused hi ((congrArg Prod.fst hselect).trans hnone)
      rw [hselect] at hmove
      exact ⟨_, step_of_moves hmove, rfl, hsel, hkept⟩
    | @selected i draw generation index entry origin hi hsome =>
      have hselect : (w.withStates states).app.selectOrigin generation index entry draw = _ :=
        selectOrigin_withStates hsel generation index entry draw
      have hmove : Moves env (w.withStates states) (.select i draw) _ :=
        .selected hi ((congrArg Prod.fst hselect).trans hsome)
      rw [hselect] at hmove
      exact ⟨_, step_of_moves hmove, rfl, hsel, hkept⟩
    | finished hi => exact h.finish hi hw.1 hw.2 hv hkept
    | dropped hi => exact ⟨_, step_of_moves (.dropped hi), rfl, hsel, hkept⟩
    | probed _ _ => exact absurd hw.1 not_false
    | swept => exact ⟨_, step_of_moves .swept, rfl, hsel, hkept⟩

end Alike

/-- **With passive tracking off, all flags keep their value throughout a run exactly when no failing
outcome is the fifth in a row for its origin.** As long as this is so, a run with other results has
the same requests forwarded to the same origins: it ends in the same world but for the histories. -/
theorem flags_kept_iff (env : Externals) (config : ProxyConfig) (events : List Event)
    (last : World) (hrun : run (step env) (init env config) events = some last)
    (hoff : Along (step env) PassiveOff (init env config) events) :
    (Throughout (step env) FlagsKept (init env config) events ↔
        Along (step env) NotFifthFailure (init env config) events) ∧
      (Along (step env) NotFifthFailure (init env config) events →
        ∀ events', List.Forall₂ SameUpToResult events events' →
          Along (step env) NotFifthFailure (init env config) events' →
          ∃ last', run (step env) (init env config) events' = some last' ∧
            last' = last.withStates last'.app.originStates) := by
  have hinit := flagsKept_init env config
  constructor
  · exact (along_iff_throughout_of_along (J := fun _ => True) (fun _ _ _ _ _ _ _ => trivial)
      (fun w e w' _ hs hoff h => notFifthFailure_iff_flagsKept hs hoff h) trivial hinit hoff
      hrun).symm
  · intro hfifth events' hsame hfifth'
    have halike : Alike (init env config) (init env config) := ⟨rfl, fun _ => rfl, hinit⟩
    obtain ⟨last', hlast', h⟩ := run_related
      (fun w v e d w' h hed hw hv hstep => h.step hed hw hv hstep) halike hsame
      (hoff.and hfifth) hfifth' hrun
    exact ⟨last', hlast', h.eq_withStates⟩

/-- The minimal configuration with passive tracking switched off. -/
def passiveOffConfig : ProxyConfig :=
  { ProxyConfig.minimal with
    health := ⟨ActiveHealthConfig.default, { PassiveHealthConfig.default with enabled := false }⟩ }

/-- Four failing requests, one that is answered, and four failing ones again. -/
def failuresInRows : List Event :=
  (List.replicate 4 (requestWith (.error (.client "refused")))).flatten ++
    requestWith (.ok ⟨200, [], []⟩) ++
    (List.replicate 4 (requestWith (.error (.client "refused")))).flatten

/-- Four failures in a row leave the flag of their origin alone, also a second time. -/
theorem flags_kept_failuresInRows :
    (run (step .none) (init .none passiveOffConfig) failuresInRows).isSome ∧
      Throughout (step .none) FlagsKept (init .none passiveOffConfig) failuresInRows := by
  have hruns : (run (step .none) (init .none passiveOffConfig) failuresInRows).isSome = true := by
    decide +kernel
  obtain ⟨last, hlast⟩ := Option.isSome_iff_exists.1 hruns
  exact ⟨hruns, ((flags_kept_iff .none passiveOffConfig failuresInRows last hlast
    (by decide +kernel)).1).2 (by decide +kernel)⟩

/-- **Five failing requests mark an origin unhealthy although passive tracking is off.** With
results that are not failures the same requests leave it healthy. -/
theorem five_failures_passive_off :
    passiveOffConfig.validate .empty = .ok () ∧
      (∃ w, run (step .none) (init .none passiveOffConfig)
          fiveFailures = some w ∧
        w.app.passiveEnabled = false ∧ ¬ w.FlagsKept) ∧
      ∃ w, run (step .none) (init .none passiveOffConfig)
          ((List.replicate 5 (requestWith (.ok ⟨200, [], []⟩))).flatten) = some w ∧
        (w.app.originStates.lookup "http://127.0.0.1:3000/").map OriginState.healthy =
          some true := by
  have hfailing : (run (step .none) (init .none passiveOffConfig) fiveFailures).map
        (fun w => (w.app.passiveEnabled,
          (w.app.originStates.lookup "http://127.0.0.1:3000/").map OriginState.healthy)) =
      some (false, some false) := by decide +kernel
  have hserving : (run (step .none) (init .none passiveOffConfig)
      ((List.replicate 5 (requestWith (.ok ⟨200, [], []⟩))).flatten)).map
        (fun w => (w.app.originStates.lookup "http://127.0.0.1:3000/").map OriginState.healthy) =
      some (some true) := by decide +kernel
  obtain ⟨w, hw, heq⟩ := Option.map_eq_some_iff.1 hfailing
  obtain ⟨hoff, hflag⟩ := Prod.mk.inj heq
  obtain ⟨st, hst, hunhealthy⟩ := Option.map_eq_some_iff.1 hflag
  refine ⟨by decide, ⟨w, hw, hoff, fun hkept => ?_⟩, Option.map_eq_some_iff.1 hserving⟩
  have hhealthy : st.healthy = true := hkept _ st hst
  rw [hunhealthy] at hhealthy
  cases hhealthy

end World

end Upstreamer
