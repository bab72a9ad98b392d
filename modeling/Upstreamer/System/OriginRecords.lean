import Upstreamer.Balance.LatencyAverage
import Upstreamer.Foundations.Past
import Upstreamer.Health.SharedCounters
import Upstreamer.System

/-!
# Histories as records of outcomes

The history of an origin is one entry of a shared map that requests and probes change, that
reloads and rebuilds extend, and that every balancer reads. A record is what one finished request or
probe contributes to it: its outcome, and the thresholds that its recorder reads at that moment. In
every run of the machine, which makes a record in one event, the history of an origin is the one
that its own records make of a fresh history, one after another (`lookup_eq_records`). So its
counters count its outcomes, its flag is the reference flag of their unbroken runs and its latency
the average of their samples (`ledger_records`), whatever other origins do and however often the
configuration is reloaded.
-/

set_option autoImplicit false

namespace Upstreamer

open Foundations HealthCall

/-- What a finished request or probe records, with the settings that its recorder reads. -/
inductive OriginRecord where
  | request (passiveEnabled : Bool) (ft threshold : UInt32) (result : Except ProxyError Response)
      (latency : Duration)
  | probe (task : CheckerTask) (outcome : ProbeOutcome)

namespace OriginRecord

def failed : OriginRecord → Bool
  | request _ _ _ result _ => Upstreamer.failed result
  | probe _ outcome => outcome.fails

def isRequest : OriginRecord → Bool
  | request _ _ _ _ _ => true
  | probe _ _ => false

/-- The latency sample of a request. Probes are not timed. -/
def latency? : OriginRecord → Option Duration
  | request _ _ _ _ latency => some latency
  | probe _ _ => none

/-- The outcome with the threshold that decides about the flag. -/
def call : OriginRecord → HealthCall
  | request passiveEnabled ft threshold result _ =>
      if Upstreamer.failed result then .failure (if passiveEnabled then ft else 5)
      else .success (if passiveEnabled then threshold else 2)
  | probe task outcome =>
      if outcome.fails then .failure task.unhealthyThreshold else .success task.healthyThreshold

end OriginRecord

namespace OriginState

def recordAs (st : OriginState) : OriginRecord → OriginState
  | .request passiveEnabled ft threshold result latency =>
      st.recordOutcome passiveEnabled ft threshold result latency
  | .probe task outcome => st.recordProbe task outcome

/-- The part of a record that does not depend on the outcome. -/
def counted (st : OriginState) : OriginRecord → OriginState
  | .request _ _ _ _ latency => st.incrementRequests.recordLatency latency
  | .probe _ _ => st

end OriginState

/-- What a history says about its records. The counters are fixed-width and wrap. -/
structure Ledger (records : List OriginRecord) (st : OriginState) : Prop where
  totalRequests_eq : st.totalRequests = UInt64.ofNat (records.countP OriginRecord.isRequest)
  totalFailures_eq : st.totalFailures = UInt64.ofNat (records.countP OriginRecord.failed)
  latency_eq : st.ewmaLatencyNs =
    (OriginState.new.recordLatencies (records.filterMap OriginRecord.latency?)).ewmaLatencyNs
  healthy_eq : st.healthy = referenceHealthy (records.map OriginRecord.call).reverse
  successes_eq : st.consecutiveSuccesses =
    UInt32.ofNat (runLength isSuccess (records.map OriginRecord.call).reverse)
  failures_eq : st.consecutiveFailures =
    UInt32.ofNat (runLength isFailure (records.map OriginRecord.call).reverse)

/-! ## Records of one origin -/

section Records

variable (st : OriginState) (r : OriginRecord)

/-- A record counts the request, and then records the outcome with its threshold. -/
theorem recordAs_eq : st.recordAs r = (st.counted r).record r.call := by
  cases r with
  | request passiveEnabled ft threshold result latency =>
    show st.recordOutcome passiveEnabled ft threshold result latency = _
    cases h : failed result with
    | true =>
      rw [OriginRecord.call, h, if_pos rfl, recordOutcome_of_failed h]
      rfl
    | false =>
      rw [OriginRecord.call, h, if_neg Bool.false_ne_true, recordOutcome_of_not_failed h]
      rfl
  | probe task outcome =>
    cases outcome with
    | response resp =>
      cases h : resp.isSuccess <;>
        simp [OriginState.recordAs, OriginState.recordProbe, OriginState.counted,
          OriginRecord.call, ProbeOutcome.fails, h, OriginState.record]
    | failed => rfl
    | timedOut => rfl

theorem health_counted : (st.counted r).health = st.health := by
  cases r with
  | request _ _ _ _ _ => rfl
  | probe _ _ => rfl

theorem isFailure_recordCall : isFailure r.call = r.failed := by
  cases r with
  | request passiveEnabled ft threshold result latency =>
    cases h : failed result <;> simp [OriginRecord.call, OriginRecord.failed, h, isFailure]
  | probe task outcome =>
    cases h : outcome.fails <;> simp [OriginRecord.call, OriginRecord.failed, h, isFailure]

/-- What an outcome does to the health depends on the health alone. -/
theorem health_record_congr {st st' : OriginState} (h : st.health = st'.health)
    (c : HealthCall) : (st.record c).health = (st'.record c).health := by
  obtain ⟨hhealthy, hcounters⟩ := Prod.mk.inj h
  obtain ⟨hsuccesses, hfailures⟩ := Prod.mk.inj hcounters
  cases c with
  | success threshold =>
    simp only [OriginState.record, OriginState.recordSuccessWithThreshold, OriginState.health,
      hhealthy, hsuccesses]
  | failure threshold =>
    simp only [OriginState.record, OriginState.recordFailureWithThreshold, OriginState.health,
      hhealthy, hfailures]

theorem totalRequests_recordAs :
    (st.recordAs r).totalRequests = st.totalRequests + if r.isRequest then 1 else 0 := by
  rw [recordAs_eq]
  cases r with
  | request passiveEnabled ft threshold result latency =>
    cases h : failed result <;>
      simp only [OriginRecord.call, h, if_true, if_false, Bool.false_eq_true] <;> rfl
  | probe task outcome =>
    cases h : outcome.fails <;>
      simp only [OriginRecord.call, h, if_true, if_false, Bool.false_eq_true] <;>
        exact (UInt64.add_zero _).symm

theorem totalFailures_record (c : HealthCall) :
    (st.record c).totalFailures = st.totalFailures + if isFailure c then 1 else 0 := by
  cases c with
  | success threshold => exact (UInt64.add_zero _).symm
  | failure threshold => rfl

theorem totalFailures_recordAs :
    (st.recordAs r).totalFailures = st.totalFailures + if r.failed then 1 else 0 := by
  have hcounted : (st.counted r).totalFailures = st.totalFailures := by cases r <;> rfl
  rw [recordAs_eq, totalFailures_record, hcounted, isFailure_recordCall]

theorem ewmaLatencyNs_record (c : HealthCall) :
    (st.record c).ewmaLatencyNs = st.ewmaLatencyNs := by
  cases c with
  | success threshold => rfl
  | failure threshold => rfl

/-- The average moves by the sample of a request and stays where it is after a probe. -/
theorem ewmaLatencyNs_recordAs :
    (st.recordAs r).ewmaLatencyNs = (st.recordLatencies r.latency?.toList).ewmaLatencyNs := by
  rw [recordAs_eq, ewmaLatencyNs_record]
  cases r with
  | request _ _ _ _ _ => rfl
  | probe _ _ => rfl

end Records

/-- The health that the records leave is that of their calls. -/
theorem health_foldl_recordAs (records : List OriginRecord) (st : OriginState) :
    (records.foldl OriginState.recordAs st).health =
      ((records.map OriginRecord.call).foldl OriginState.record st).health := by
  induction records using List.reverseRecOn with
  | nil => rfl
  | append_singleton records r ih =>
    rw [List.foldl_append, List.map_append, List.foldl_append]
    show ((records.foldl OriginState.recordAs st).recordAs r).health =
      (((records.map OriginRecord.call).foldl OriginState.record st).record r.call).health
    rw [recordAs_eq]
    exact health_record_congr ((health_counted _ r).trans ih) r.call

/-- A counter that the records of one kind increment counts them. -/
theorem counter_foldl_recordAs {counter : OriginState → UInt64} {p : OriginRecord → Bool}
    (hnew : counter .new = 0)
    (hstep : ∀ st r, counter (st.recordAs r) = counter st + if p r then 1 else 0)
    (records : List OriginRecord) :
    counter (records.foldl OriginState.recordAs .new) = UInt64.ofNat (records.countP p) := by
  induction records using List.reverseRecOn with
  | nil => exact hnew
  | append_singleton records r ih =>
    have hlast : counter ((records ++ [r]).foldl OriginState.recordAs .new) =
        UInt64.ofNat (records.countP p) + if p r then 1 else 0 := by
      rw [List.foldl_append, ← ih]
      exact hstep _ r
    rw [hlast, List.countP_append, List.countP_singleton, UInt64.ofNat_add]
    cases p r with
    | true => rfl
    | false => rfl

theorem latency_foldl_recordAs (records : List OriginRecord) :
    (records.foldl OriginState.recordAs .new).ewmaLatencyNs =
      (OriginState.new.recordLatencies
        (records.filterMap OriginRecord.latency?)).ewmaLatencyNs := by
  induction records using List.reverseRecOn with
  | nil => rfl
  | append_singleton records r ih =>
    rw [List.foldl_append, List.filterMap_append, OriginState.recordLatencies, List.foldl_append]
    show ((records.foldl OriginState.recordAs .new).recordAs r).ewmaLatencyNs = _
    rw [ewmaLatencyNs_recordAs]
    cases r with
    | request passiveEnabled ft threshold result latency =>
      show (UInt64.ofNat latency + 9 * (records.foldl _ OriginState.new).ewmaLatencyNs) / 10 = _
      rw [ih]
      rfl
    | probe task outcome => exact ih

/-- **The ledger of a history.** -/
theorem ledger_records (records : List OriginRecord) :
    Ledger records (records.foldl OriginState.recordAs .new) := by
  have hhealth := health_foldl_recordAs records .new
  obtain ⟨hhealthy, hcounters⟩ := Prod.mk.inj hhealth
  obtain ⟨hsuccesses, hfailures⟩ := Prod.mk.inj hcounters
  have htracks := tracks_record_calls (records.map OriginRecord.call)
  exact ⟨counter_foldl_recordAs rfl totalRequests_recordAs records,
    counter_foldl_recordAs rfl totalFailures_recordAs records, latency_foldl_recordAs records,
    hhealthy.trans (healthy_eq_referenceHealthy _), hsuccesses.trans htracks.successes,
    hfailures.trans htracks.failures⟩

/-! ## Streaks -/

/-- The outcome speaks for the flag, and a run of `k` outcomes of its kind is enough for its
threshold. -/
def HealthCall.Decides (healthy : Bool) (k : Nat) : HealthCall → Prop
  | .success threshold => healthy = true ∧ threshold.toNat ≤ k
  | .failure threshold => healthy = false ∧ threshold.toNat ≤ k

instance (healthy : Bool) (k : Nat) : DecidablePred (HealthCall.Decides healthy k)
  | .success threshold => inferInstanceAs (Decidable (healthy = true ∧ threshold.toNat ≤ k))
  | .failure threshold => inferInstanceAs (Decidable (healthy = false ∧ threshold.toNat ≤ k))

theorem length_le_runLength {p : HealthCall → Bool} {recent : List HealthCall}
    (h : ∀ c ∈ recent, p c = true) (history : List HealthCall) :
    recent.length ≤ runLength p (recent ++ history) := by
  rw [runLength, List.takeWhile_append_of_pos h, List.length_append]
  exact Nat.le_add_right _ _

/-- As many outcomes of one kind as their thresholds ask for decide the flag, whatever was
before. -/
theorem referenceHealthy_of_streak {healthy : Bool} {k : Nat} {recent : List HealthCall}
    (hrecent : ∀ c ∈ recent, c.Decides healthy k) (hpos : 1 ≤ k) (hlen : k ≤ recent.length)
    (history : List HealthCall) : referenceHealthy (recent ++ history) = healthy := by
  cases recent with
  | nil => exact absurd (hpos.trans hlen) (by decide)
  | cons c recent =>
    obtain ⟨hc, hrest⟩ := List.forall_mem_cons.1 hrecent
    have hlen : k ≤ recent.length + 1 := hlen
    cases c with
    | success threshold =>
      obtain ⟨rfl, hthreshold⟩ := hc
      have hkind : ∀ c ∈ recent, isSuccess c = true := by
        intro c hc
        cases c with
        | success _ => rfl
        | failure _ => cases (hrest _ hc).1
      have hrun := length_le_runLength hkind history
      have hmet : runLength isSuccess (recent ++ history) + 1 ≥ threshold.toNat := by omega
      exact if_pos hmet
    | failure threshold =>
      obtain ⟨rfl, hthreshold⟩ := hc
      have hkind : ∀ c ∈ recent, isFailure c = true := by
        intro c hc
        cases c with
        | success _ => cases (hrest _ hc).1
        | failure _ => rfl
      have hrun := length_le_runLength hkind history
      have hmet : runLength isFailure (recent ++ history) + 1 ≥ threshold.toNat := by omega
      exact if_pos hmet

/-! ## Records of the machine -/

namespace AppState

variable {app : AppState} {key : String} {st : OriginState}

/-- No write changes a history. -/
theorem lookup_apply {write : Write}
    (hst : app.originStates.lookup key = some st) :
    (app.apply write).originStates.lookup key = some st := by
  cases write with
  | addOriginState added =>
    show (Dict.orInsert added OriginState.new app.originStates).lookup key = some st
    by_cases h : key = added
    · rw [← h, Dict.lookup_orInsert_self, hst, Option.getD_some]
    · rw [Dict.lookup_orInsert_ne h, hst]
  | _ => exact hst

theorem lookup_updateOrigin {other : String} {f : OriginState → OriginState}
    (hst : app.originStates.lookup key = some st) :
    (app.updateOrigin other f).originStates.lookup key =
      some (if other = key then f st else st) := by
  show (Dict.modify other f app.originStates).lookup key = _
  by_cases h : other = key
  · rw [if_pos h, h, Dict.lookup_modify_self, hst, Option.map_some]
  · rw [if_neg h, Dict.lookup_modify_ne (Ne.symm h), hst]

end AppState

namespace World

/-- What the event records for the key, whether or not a history is stored under it. -/
def outcomeFor (key : String) (w : World) : Event → Option OriginRecord
  | .finish i result latency =>
      match w.inFlight[i]? with
      | some (.forwarding origin) =>
          if origin.urlKey = key then
            some (.request w.app.passiveEnabled w.app.passiveFailureThreshold
              w.app.passiveSuccessThreshold result latency)
          else none
      | _ => none
  | .probe i outcome =>
      match w.checker with
      | none => none
      | some task =>
          match task.targets[i]? with
          | none => none
          | some target => if target.base = key then some (.probe task outcome) else none
  | _ => none

/-- The record that the event makes under the key. -/
def recordFor (key : String) (w : World) (e : Event) : Option OriginRecord :=
  if key ∈ w.app.originStates then w.outcomeFor key e else none

section Records

variable {env : Externals} {config : ProxyConfig} {w w' : World} {e : Event} {key : String}

/-- The records made so far are those of the history, and none are made before there is one. -/
def RecordedAs (key : String) (w : World) (rs : List OriginRecord) : Prop :=
  (w.app.originStates.lookup key = none → rs = []) ∧
    ∀ st, w.app.originStates.lookup key = some st → st = rs.foldl OriginState.recordAs .new

/-- **A step changes a history by its own record.** -/
theorem lookup_step_of_some {st : OriginState} (h : step env w e = some w')
    (hst : w.app.originStates.lookup key = some st) :
    w'.app.originStates.lookup key =
      some ((w.outcomeFor key e).toList.foldl OriginState.recordAs st) := by
  cases moves_of_step h with
  | reloadStep _ => exact AppState.lookup_apply hst
  | rebuildStep _ => exact AppState.lookup_apply hst
  | @limited i now generation index entry ip hi _ =>
    rwa [AppState.originStates_checkLimits]
  | @admitted i now generation index entry ip hi _ =>
    rwa [AppState.originStates_checkLimits]
  | @finished i result latency origin hi =>
    refine (AppState.lookup_updateOrigin hst).trans (congrArg some ?_)
    simp only [outcomeFor, hi]
    split <;> rfl
  | @probed i outcome task target htask htarget =>
    refine (AppState.lookup_updateOrigin hst).trans (congrArg some ?_)
    simp only [outcomeFor, htask, htarget]
    split <;> rfl
  | _ => exact hst

/-- A history begins fresh. -/
theorem lookup_step_of_none {st : OriginState} (h : step env w e = some w')
    (hnone : w.app.originStates.lookup key = none)
    (hst : w'.app.originStates.lookup key = some st) : st = .new := by
  have hkeep : w.app.originStates.lookup key = some st → st = .new := fun hsome => by
    rw [hnone] at hsome
    cases hsome
  have hwrite : ∀ write, (w.app.apply write).originStates.lookup key = some st → st = .new := by
    intro write hwrite
    cases write with
    | addOriginState added => exact (Dict.eq_of_lookup_orInsert hwrite).elim hkeep id
    | _ => exact hkeep hwrite
  have hmodify : ∀ other f, (w.app.updateOrigin other f).originStates.lookup key = some st →
      st = .new := by
    intro other f hsome
    have hmem := Finmap.mem_of_lookup_eq_some hsome
    rw [AppState.mem_originStates_updateOrigin, ← Finmap.lookup_isSome, hnone] at hmem
    cases hmem
  cases moves_of_step h with
  | reloadStep _ => exact hwrite _ hst
  | rebuildStep _ => exact hwrite _ hst
  | @limited i now generation index entry ip hi _ =>
    rw [AppState.originStates_checkLimits] at hst
    exact hkeep hst
  | @admitted i now generation index entry ip hi _ =>
    rw [AppState.originStates_checkLimits] at hst
    exact hkeep hst
  | finished _ => exact hmodify _ _ hst
  | probed _ _ => exact hmodify _ _ hst
  | _ => exact hkeep hst

theorem recordedAs_step {rs : List OriginRecord} (hI : RecordedAs key w rs)
    (h : step env w e = some w') : RecordedAs key w' (rs ++ (w.recordFor key e).toList) := by
  obtain ⟨hnone, hsome⟩ := hI
  rw [RecordedAs]
  cases hw : w.app.originStates.lookup key with
  | none =>
    have hrecord : w.recordFor key e = none := if_neg (Finmap.lookup_eq_none.1 hw)
    rw [hrecord, Option.toList_none, List.append_nil, hnone hw]
    exact ⟨fun _ => rfl, fun st hst => lookup_step_of_none h hw hst⟩
  | some st =>
    have hnext := lookup_step_of_some h hw
    have hrecord : w.recordFor key e = w.outcomeFor key e :=
      if_pos (Finmap.mem_of_lookup_eq_some hw)
    rw [hrecord, hnext]
    refine ⟨fun hn => absurd hn (by simp), fun st' hst' => ?_⟩
    rw [← Option.some.inj hst', List.foldl_append, ← hsome st hw]

/-- **A history is the one that its own records make of a fresh one.** -/
theorem lookup_eq_records {events : List Event} {last : World} {st : OriginState}
    (hrun : run (step env) (init env config) events = some last)
    (hst : last.app.originStates.lookup key = some st) :
    st = (reports (step env) (recordFor key) (init env config) events).foldl
      OriginState.recordAs .new := by
  have hinit : RecordedAs key (init env config) [] :=
    ⟨fun _ => rfl, fun st hst => AppState.eq_new_of_lookup_new hst⟩
  exact (reports_invariant (fun w e w' rs hI h => recordedAs_step hI h) hinit hrun).2 st hst

/-- While a history is stored, all outcomes of its origin are recorded in it. -/
theorem reports_outcomeFor (hkey : key ∈ w.app.originStates) (events : List Event) :
    reports (step env) (outcomeFor key) w events = reports (step env) (recordFor key) w events := by
  have hstored : Throughout (step env) (fun w => key ∈ w.app.originStates) w events :=
    throughout_of_along (fun w e w' hw (_ : True) h => mem_originStates_step hw h) hkey
      (along_true w events)
  refine reports_congr ?_
  refine (along_congr (fun w e hw => ?_) hstored).1 (along_true w events)
  exact iff_of_true trivial (if_pos hw).symm

/-- In this step the origin gets no outcome but one that speaks for the flag, with a threshold of at
most `k`. -/
def DecidesAt (key : String) (healthy : Bool) (k : Nat) (w : World) (e : Event) : Prop :=
  ∀ r ∈ w.outcomeFor key e, r.call.Decides healthy k

instance (key : String) (healthy : Bool) (k : Nat) (w : World) (e : Event) :
    Decidable (DecidesAt key healthy k w e) :=
  inferInstanceAs (Decidable (∀ r ∈ w.outcomeFor key e, r.call.Decides healthy k))

/-- **Streaks decide.** After as many outcomes of one kind as their thresholds ask for the flag of
an origin that has a history is theirs. -/
theorem healthy_eq_of_streak {before es : List Event} {t : World} {healthy : Bool} {k : Nat}
    (hbefore : run (step env) (init env config) before = some w) (hkey : key ∈ w.app.originStates)
    (hpos : 1 ≤ k) (hes : run (step env) w es = some t)
    (hdecides : ∀ r ∈ reports (step env) (outcomeFor key) w es, r.call.Decides healthy k)
    (hmany : k ≤ (reports (step env) (outcomeFor key) w es).length) :
    ∃ st, t.app.originStates.lookup key = some st ∧ st.healthy = healthy := by
  have hmem : key ∈ t.app.originStates :=
    (throughout_of_along (fun w e w' hw (_ : True) h => mem_originStates_step hw h) hkey
      (along_true w es)).last hes
  obtain ⟨st, hst⟩ := Finmap.mem_iff.1 hmem
  have hall : run (step env) (init env config) (before ++ es) = some t := by
    rw [run_append, hbefore, Option.bind_some, hes]
  refine ⟨st, hst, ?_⟩
  rw [lookup_eq_records hall hst, (ledger_records _).healthy_eq, reports_append hbefore,
    ← reports_outcomeFor hkey, List.map_append, List.reverse_append]
  refine referenceHealthy_of_streak ?_ hpos ?_ _
  · intro c hc
    obtain ⟨r, hr, rfl⟩ := List.mem_map.1 (List.mem_reverse.1 hc)
    exact hdecides r hr
  · rwa [List.length_reverse, List.length_map]

end Records

end World

end Upstreamer
