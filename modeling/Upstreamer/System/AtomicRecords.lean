import Upstreamer.Balance.HealthRaces
import Upstreamer.System.OriginRecords
import Upstreamer.System.PassiveOff

/-!
# Histories as records of atomic steps

In the machine of the proxy a finished request or probe is recorded in one event. In the program a
record is a row of relaxed atomic operations on the history: the request is counted, the latency is
exchanged, the passive settings are loaded, and the outcome is counted and judged. Here each of them
is an event of its own, and records of any origins overlap each other and everything else.

A record that nothing overlaps comes to what the one event says, so every run of the proxy is one of
these runs (`reaches_of_step`). And in every run in which the records of an origin do not overlap
each other, its history is the ledger of its records whenever none of them is in progress
(`histories_exact`).
-/

set_option autoImplicit false

namespace Upstreamer

open Foundations

/-! ## The steps of a record -/

/-- A record in progress, by the atomic operation that comes next. -/
inductive RecordStage where
  | requests (result : Except ProxyError Response) (latency : Duration)
  | latency (result : Except ProxyError Response) (latency : Duration)
  | exchange (result : Except ProxyError Response) (latency : Duration) (old : UInt64)
  | passiveEnabled (result : Except ProxyError Response) (latency : Duration)
  | failureThreshold (result : Except ProxyError Response) (latency : Duration)
  | successThreshold (result : Except ProxyError Response) (latency : Duration) (ft : UInt32)
  | outcome (call : HealthCall)
  | health (call : PendingCall)

/-- What the steps that are left of a call come to when nothing overlaps them. -/
def PendingCall.finish (st : OriginState) : PendingCall → OriginState
  | .successCounted threshold count =>
      effect (effect st (.successCounted threshold count)) (.successCleared threshold count)
  | .successCleared threshold count => effect st (.successCleared threshold count)
  | .failureCounted threshold count =>
      effect (effect (effect st (.failureCounted threshold count))
        (.failureCleared threshold count)) (.failureTotalled threshold count)
  | .failureCleared threshold count =>
      effect (effect st (.failureCleared threshold count)) (.failureTotalled threshold count)
  | .failureTotalled threshold count => effect st (.failureTotalled threshold count)

namespace RecordStage

/-- The next atomic operation, on the history and the settings that it finds, and what comes after
it. An exchange may be made to fail. -/
def advance (app : AppState) (st : OriginState) (spurious : Bool) :
    RecordStage → OriginState × Option RecordStage
  | requests result sample => (st.incrementRequests, some (.latency result sample))
  | latency result sample => (st, some (.exchange result sample st.ewmaLatencyNs))
  | exchange result sample old =>
      if st.ewmaLatencyNs = old ∧ spurious = false then
        ({ st with ewmaLatencyNs := (UInt64.ofNat sample + 9 * old) / 10 },
          some (.passiveEnabled result sample))
      else (st, some (.exchange result sample st.ewmaLatencyNs))
  | passiveEnabled result sample =>
      (st, some (if app.passiveEnabled then .failureThreshold result sample
        else .outcome (OriginRecord.request false 0 0 result sample).call))
  | failureThreshold result sample =>
      (st, some (.successThreshold result sample app.passiveFailureThreshold))
  | successThreshold result sample ft =>
      (st, some (.outcome
        (OriginRecord.request true ft app.passiveSuccessThreshold result sample).call))
  | outcome call =>
      let begun := HealthRace.begin ⟨st, []⟩ call
      (begun.origin, begun.calls.head?.map .health)
  | health call => (call.effect st, call.next.map .health)

/-- The record that is settled by this operation: the last one that loads a setting. Thresholds are
loaded only when passive tracking is on. -/
def settles (app : AppState) : RecordStage → Option OriginRecord
  | passiveEnabled result sample =>
      if app.passiveEnabled then none else some (.request false 0 0 result sample)
  | successThreshold result sample ft =>
      some (.request true ft app.passiveSuccessThreshold result sample)
  | _ => none

/-- The record that is still to be settled when the settings do not change. -/
def ahead (app : AppState) : RecordStage → Option OriginRecord
  | requests result sample | latency result sample | exchange result sample _
  | passiveEnabled result sample =>
      some (if app.passiveEnabled then
          .request true app.passiveFailureThreshold app.passiveSuccessThreshold result sample
        else .request false 0 0 result sample)
  | failureThreshold result sample =>
      some (.request true app.passiveFailureThreshold app.passiveSuccessThreshold result sample)
  | successThreshold result sample ft =>
      some (.request true ft app.passiveSuccessThreshold result sample)
  | outcome _ | health _ => none

/-- How many operations are left when nothing overlaps them. -/
def remaining (st : OriginState) : RecordStage → Nat
  | requests _ _ => 11
  | latency _ _ => 10
  | exchange _ _ old => if st.ewmaLatencyNs = old then 8 else 9
  | passiveEnabled _ _ => 7
  | failureThreshold _ _ => 6
  | successThreshold _ _ _ => 5
  | outcome _ => 4
  | health call => call.remaining

/-- The record has not loaded all its settings. -/
def isOpen : RecordStage → Bool
  | outcome _ | health _ => false
  | _ => true

/-- The history at this stage, where `base` is the one of the records settled so far. -/
def Follows (base st : OriginState) : RecordStage → Prop
  | requests _ _ => st = base
  | latency _ _ | exchange _ _ _ => st = base.incrementRequests
  | passiveEnabled _ sample | failureThreshold _ sample | successThreshold _ sample _ =>
      st = base.incrementRequests.recordLatency sample
  | outcome call => st.record call = base
  | health call => call.finish st = base

end RecordStage

section Stages

variable {base st : OriginState} {stage : RecordStage}

/-- The first step of a call, and the rest of it, are the call. -/
theorem finish_begin (st : OriginState) (call : HealthCall) :
    ∃ rest, (HealthRace.begin ⟨st, []⟩ call).calls = [rest] ∧
      rest.finish (HealthRace.begin ⟨st, []⟩ call).origin = st.record call := by
  cases call with
  | success threshold =>
    refine ⟨_, rfl, ?_⟩
    simp only [HealthRace.begin, PendingCall.finish, PendingCall.effect, OriginState.record,
      OriginState.recordSuccessWithThreshold]
    split <;> rfl
  | failure threshold =>
    refine ⟨_, rfl, ?_⟩
    simp only [HealthRace.begin, PendingCall.finish, PendingCall.effect, OriginState.record,
      OriginState.recordFailureWithThreshold]
    split <;> rfl

theorem finish_effect (st : OriginState) {call call' : PendingCall} (h : call.next = some call') :
    call'.finish (call.effect st) = call.finish st := by
  cases call with
  | successCounted => cases h; rfl
  | failureCounted => cases h; rfl
  | failureCleared => cases h; rfl
  | successCleared => cases h
  | failureTotalled => cases h

theorem effect_of_last (st : OriginState) {call : PendingCall} (h : call.next = none) :
    call.effect st = call.finish st := by
  cases call with
  | successCleared => rfl
  | failureTotalled => rfl
  | successCounted => cases h
  | failureCounted => cases h
  | failureCleared => cases h

/-- A request whose latency is recorded is left with its outcome. -/
theorem recordAs_request (base : OriginState) (passiveEnabled : Bool) (ft threshold : UInt32)
    (result : Except ProxyError Response) (latency : Duration) :
    base.recordAs (.request passiveEnabled ft threshold result latency) =
      (base.incrementRequests.recordLatency latency).record
        (OriginRecord.request passiveEnabled ft threshold result latency).call :=
  recordAs_eq base _

/-- **Each operation leads a record on its way**, and its last one leaves the history of the records
settled by then. -/
theorem follows_advance (app : AppState) (spurious : Bool) (h : stage.Follows base st) :
    (∀ stage', (stage.advance app st spurious).2 = some stage' →
      stage'.Follows ((stage.settles app).toList.foldl OriginState.recordAs base)
        (stage.advance app st spurious).1) ∧
    ((stage.advance app st spurious).2 = none →
      (stage.advance app st spurious).1 =
        (stage.settles app).toList.foldl OriginState.recordAs base) := by
  cases stage with
  | requests result latency =>
    obtain rfl : st = base := h
    exact ⟨by rintro _ ⟨⟩; rfl, nofun⟩
  | latency result sample =>
    exact ⟨by rintro _ ⟨⟩; exact h, nofun⟩
  | exchange result sample old =>
    simp only [RecordStage.advance]
    split
    · next hwins =>
      refine ⟨?_, nofun⟩
      rintro _ ⟨⟩
      obtain ⟨rfl, -⟩ := hwins
      obtain rfl : st = base.incrementRequests := h
      rfl
    · exact ⟨by rintro _ ⟨⟩; exact h, nofun⟩
  | passiveEnabled result latency =>
    simp only [RecordStage.advance, RecordStage.settles]
    split
    · exact ⟨by rintro _ ⟨⟩; exact h, nofun⟩
    · refine ⟨?_, nofun⟩
      rintro _ ⟨⟩
      obtain rfl : st = base.incrementRequests.recordLatency latency := h
      exact (recordAs_request base false 0 0 result latency).symm
  | failureThreshold result latency =>
    exact ⟨by rintro _ ⟨⟩; exact h, nofun⟩
  | successThreshold result latency ft =>
    refine ⟨?_, nofun⟩
    rintro _ ⟨⟩
    obtain rfl : st = base.incrementRequests.recordLatency latency := h
    exact (recordAs_request base true ft app.passiveSuccessThreshold result latency).symm
  | outcome call =>
    obtain ⟨rest, hcalls, hfinish⟩ := finish_begin st call
    simp only [RecordStage.advance, RecordStage.settles, hcalls, List.head?_cons, Option.map_some]
    refine ⟨?_, nofun⟩
    rintro _ ⟨⟩
    exact hfinish.trans h
  | health call =>
    simp only [RecordStage.advance, RecordStage.settles]
    cases hnext : call.next with
    | none => exact ⟨nofun, fun _ => (effect_of_last st hnext).trans h⟩
    | some call' =>
      refine ⟨?_, nofun⟩
      rintro _ ⟨⟩
      exact (finish_effect st hnext).trans h

/-- What an operation settles, and what is left to settle after it. -/
theorem settles_append_ahead (app : AppState) (st : OriginState) (spurious : Bool)
    (stage : RecordStage) :
    (stage.settles app).toList ++
        ((stage.advance app st spurious).2.bind (RecordStage.ahead app)).toList =
      (stage.ahead app).toList := by
  cases stage with
  | exchange result sample old =>
    simp only [RecordStage.advance]
    split <;> rfl
  | passiveEnabled result sample =>
    cases h : app.passiveEnabled <;>
      simp [RecordStage.settles, RecordStage.advance, RecordStage.ahead, h]
  | outcome call =>
    obtain ⟨rest, hcalls, -⟩ := finish_begin st call
    simp [RecordStage.settles, RecordStage.advance, RecordStage.ahead, hcalls]
  | health call =>
    cases h : call.next <;> simp [RecordStage.settles, RecordStage.advance, RecordStage.ahead, h]
  | _ => rfl

/-- An operation that is not made to fail comes closer to the end. -/
theorem remaining_advance (app : AppState) {next : RecordStage}
    (h : (stage.advance app st false).2 = some next) :
    next.remaining (stage.advance app st false).1 < stage.remaining st := by
  cases stage with
  | requests result sample => cases h; exact Nat.lt_succ_self _
  | latency result sample =>
    cases h
    simp [RecordStage.remaining, RecordStage.advance]
  | exchange result sample old =>
    simp only [RecordStage.advance] at h ⊢
    split at h
    · next hwins =>
      cases h
      simp [RecordStage.remaining, hwins.1]
    · next hfails =>
      cases h
      have hne : st.ewmaLatencyNs ≠ old := fun heq => hfails ⟨heq, trivial⟩
      simp [RecordStage.remaining, hne]
  | passiveEnabled result sample =>
    cases h
    cases happ : app.passiveEnabled <;> simp [RecordStage.remaining]
  | failureThreshold result sample => cases h; exact Nat.lt_succ_self _
  | successThreshold result sample ft => cases h; exact Nat.lt_succ_self _
  | outcome call =>
    cases call with
    | success threshold => cases h; simp [RecordStage.remaining, PendingCall.remaining]
    | failure threshold => cases h; simp [RecordStage.remaining, PendingCall.remaining]
  | health call =>
    obtain ⟨next', hnext, rfl⟩ := Option.map_eq_some_iff.1 h
    have hless := PendingCall.remaining_next call
    rw [hnext] at hless
    simpa [RecordStage.remaining] using hless

/-- A record is open until it is settled. -/
theorem isOpen_advance (app : AppState) (st : OriginState) (spurious : Bool)
    (stage : RecordStage) :
    ((stage.advance app st spurious).2.toList.countP RecordStage.isOpen) +
        (stage.settles app).isSome.toNat = stage.isOpen.toNat := by
  cases stage with
  | exchange result sample old =>
    simp only [RecordStage.advance]
    split <;> rfl
  | passiveEnabled result sample =>
    cases h : app.passiveEnabled <;>
      simp [RecordStage.settles, RecordStage.advance, RecordStage.isOpen, h]
  | outcome call =>
    obtain ⟨rest, hcalls, -⟩ := finish_begin st call
    simp [RecordStage.settles, RecordStage.advance, RecordStage.isOpen, hcalls]
  | health call =>
    cases h : call.next <;> simp [RecordStage.settles, RecordStage.advance, RecordStage.isOpen, h]
  | _ => rfl

end Stages

/-! ## The machine -/

/-- The proxy, and the records in progress with the keys of their origins. -/
structure AtomicWorld where
  world : World
  records : List (String × RecordStage)

/-- Something happens as in the proxy, but that an outcome is not recorded yet, or a record makes
its next atomic operation. -/
inductive AtomicEvent where
  | world (e : Event)
  | record (i : Nat) (spurious : Bool)

namespace World

/-- The record that the event begins, whether or not a history is stored under its key. -/
def opens (w : World) : Event → Option (String × RecordStage)
  | .finish i result latency =>
      match w.inFlight[i]? with
      | some (.forwarding origin) => some (origin.urlKey, .requests result latency)
      | _ => none
  | .probe i outcome =>
      match w.checker with
      | none => none
      | some task => (task.targets[i]?).map fun target =>
          (target.base, .outcome (OriginRecord.probe task outcome).call)
  | _ => none

end World

namespace AtomicWorld

def start (env : Externals) (config : ProxyConfig) : AtomicWorld := ⟨World.init env config, []⟩

def step (env : Externals) (c : AtomicWorld) : AtomicEvent → Option AtomicWorld
  | .world e =>
      (World.step env c.world e).map fun world =>
        match c.world.opens e with
        | none => ⟨world, c.records⟩
        | some record => ⟨world.withStates c.world.app.originStates,
            -- an outcome is dropped when no history is stored
            if record.1 ∈ c.world.app.originStates then record :: c.records else c.records⟩
  | .record i spurious =>
      match c.records[i]? with
      | none => none
      | some (key, stage) => (c.world.app.originStates.lookup key).map fun st =>
          let after := stage.advance c.world.app st spurious
          ⟨c.world.withStates (c.world.app.originStates.insert key after.1),
            after.2.toList.map (Prod.mk key) ++ c.records.eraseIdx i⟩

/-- The records of one origin in progress. -/
def inProgress (key : String) (c : AtomicWorld) : List RecordStage :=
  c.records.filterMap fun record => if record.1 = key then some record.2 else none

/-- The record of the origin that the event settles. -/
def recordFor (key : String) (c : AtomicWorld) : AtomicEvent → Option OriginRecord
  | .world e => if e.probed.isSome then c.world.recordFor key e else none
  | .record i _ =>
      match c.records[i]? with
      | none => none
      | some record => if record.1 = key then record.2.settles c.world.app else none

/-- The event begins no record of the origin while another one is in progress. -/
def Apart (key : String) (c : AtomicWorld) : AtomicEvent → Prop
  | .world e => ∀ record ∈ c.world.opens e, record.1 = key → c.inProgress key = []
  | .record _ _ => True

/-- The history is that of the records settled so far, but for the one in progress. -/
def Settled (key : String) (c : AtomicWorld) (rs : List OriginRecord) : Prop :=
  (c.world.app.originStates.lookup key = none → rs = [] ∧ c.inProgress key = []) ∧
    ∀ st, c.world.app.originStates.lookup key = some st →
      (c.inProgress key = [] ∧ st = rs.foldl OriginState.recordAs .new) ∨
        ∃ stage, c.inProgress key = [stage] ∧
          stage.Follows (rs.foldl OriginState.recordAs .new) st

section Steps

variable {env : Externals} {config : ProxyConfig} {c c' : AtomicWorld} {d : AtomicEvent}
  {key : String} {rs : List OriginRecord}

/-- An event that begins no record has none to make. -/
theorem outcomeFor_of_opens_none {w : World} {e : Event} (h : w.opens e = none) (key : String) :
    w.outcomeFor key e = none := by
  cases e with
  | finish i result latency =>
    simp only [World.opens] at h
    split at h
    · cases h
    · simp only [World.outcomeFor]
  | probe i outcome =>
    simp only [World.opens] at h
    split at h
    · next hnone => simp only [World.outcomeFor, hnone]
    · next task htask => simp only [World.outcomeFor, htask, Option.map_eq_none_iff.1 h]
  | _ => rfl

/-- The records that begin are those of requests, whose settings are loaded later, and those of
probes. -/
theorem cases_of_opens {w : World} {e : Event} {record : String × RecordStage}
    (h : w.opens e = some record) :
    (e.probed = none ∧ ∃ result latency, record.2 = .requests result latency) ∨
      (e.probed.isSome ∧ ∃ task outcome,
        record.2 = .outcome (OriginRecord.probe task outcome).call ∧
        ∀ key, w.outcomeFor key e =
          if record.1 = key then some (.probe task outcome) else none) := by
  cases e with
  | finish i result latency =>
    simp only [World.opens] at h
    split at h
    · cases h
      exact Or.inl ⟨rfl, _, _, rfl⟩
    · cases h
  | probe i outcome =>
    simp only [World.opens] at h
    split at h
    · cases h
    · next task htask =>
      obtain ⟨target, htarget, rfl⟩ := Option.map_eq_some_iff.1 h
      exact Or.inr ⟨rfl, task, outcome, rfl, fun key => by
        simp only [World.outcomeFor, htask, htarget]⟩
  | _ => cases h

/-- The records of an origin in progress, when one of them or another origin's is picked. -/
theorem inProgress_perm {i : Nat} {record : String × RecordStage}
    (hi : c.records[i]? = some record) (key : String) :
    (c.inProgress key).Perm ((if record.1 = key then [record.2] else []) ++
      (c.records.eraseIdx i).filterMap fun record =>
        if record.1 = key then some record.2 else none) := by
  obtain ⟨hlt, rfl⟩ := List.getElem?_eq_some_iff.1 hi
  have hperm := (List.getElem_cons_eraseIdx_perm hlt).symm.filterMap fun record =>
    if record.1 = key then some record.2 else none
  rw [List.filterMap_cons] at hperm
  refine hperm.trans (List.Perm.of_eq ?_)
  split
  · next hnone =>
    rw [if_neg fun heq => by simp [heq] at hnone]
    rfl
  · next stage hsome =>
    have heq : c.records[i].1 = key := by
      by_contra hne
      simp [hne] at hsome
    rw [if_pos heq] at hsome ⊢
    rw [← Option.some.inj hsome]
    rfl

theorem inProgress_mk (world : World) (k : String) (next : Option RecordStage)
    (records : List (String × RecordStage)) (key : String) :
    inProgress key ⟨world, next.toList.map (Prod.mk k) ++ records⟩ =
      (if k = key then next.toList else []) ++
        records.filterMap fun record => if record.1 = key then some record.2 else none := by
  rw [inProgress, List.filterMap_append]
  refine congrArg (· ++ _) ?_
  cases next with
  | none => split <;> rfl
  | some stage =>
    by_cases hkey : k = key
    · simp [hkey]
    · simp [hkey]

/-- An event that begins no record of the origin settles none. -/
theorem recordFor_of_opens {e : Event} {record : String × RecordStage}
    (hopens : c.world.opens e = some record)
    (hown : ¬(record.1 = key ∧ key ∈ c.world.app.originStates)) :
    c.recordFor key (.world e) = none := by
  simp only [recordFor, World.recordFor]
  rcases cases_of_opens hopens with ⟨hprobed, -⟩ | ⟨hprobed, task, outcome, -, houtcome⟩
  · rw [hprobed]
    rfl
  · rw [if_pos hprobed, houtcome]
    by_cases hstored : key ∈ c.world.app.originStates
    · rw [if_pos hstored, if_neg fun hkey => hown ⟨hkey, hstored⟩]
    · rw [if_neg hstored]

theorem inProgress_of_opens {record : String × RecordStage} (world : World)
    (hown : ¬(record.1 = key ∧ key ∈ c.world.app.originStates)) :
    inProgress key ⟨world.withStates c.world.app.originStates,
      if record.1 ∈ c.world.app.originStates then record :: c.records else c.records⟩ =
        c.inProgress key := by
  by_cases hstored : record.1 ∈ c.world.app.originStates
  · rw [if_pos hstored, inProgress, List.filterMap_cons,
      if_neg fun hkey => hown ⟨hkey, hkey ▸ hstored⟩]
    rfl
  · rw [if_neg hstored]
    rfl

/-- What an event other than an atomic operation does to what is settled. -/
theorem settled_world {e : Event} (hs : Settled key c rs) (hapart : Apart key c (.world e))
    (h : step env c (.world e) = some c') :
    Settled key c' (rs ++ (c.recordFor key (.world e)).toList) := by
  obtain ⟨hnone, hsome⟩ := hs
  obtain ⟨world, hworld, rfl⟩ := Option.map_eq_some_iff.1 h
  cases hopens : c.world.opens e with
  | none =>
    have houtcome := outcomeFor_of_opens_none hopens key
    have hrecord : c.recordFor key (.world e) = none := by
      simp only [recordFor, World.recordFor, houtcome, ite_self]
    rw [hrecord, Option.toList_none, List.append_nil]
    refine ⟨fun hlookup => ?_, fun st hst => ?_⟩
    · refine hnone (by_contra fun hne => ?_)
      obtain ⟨st, hst⟩ := Option.ne_none_iff_exists'.1 hne
      rw [World.lookup_step_of_some hworld hst] at hlookup
      cases hlookup
    · cases hbefore : c.world.app.originStates.lookup key with
      | none =>
        obtain ⟨rfl, hprogress⟩ := hnone hbefore
        exact Or.inl ⟨hprogress, World.lookup_step_of_none hworld hbefore hst⟩
      | some st' =>
        have hafter := World.lookup_step_of_some hworld hbefore
        rw [houtcome, hst] at hafter
        cases hafter
        exact hsome _ hbefore
  | some record =>
    -- the histories stay, and at most a record is begun
    by_cases hown : record.1 = key ∧ key ∈ c.world.app.originStates
    · obtain ⟨hkey, hstored⟩ := hown
      obtain ⟨st, hst⟩ := Finmap.mem_iff.1 hstored
      have hidle : c.inProgress key = [] := hapart record hopens hkey
      have hbase : st = rs.foldl OriginState.recordAs .new := by
        rcases hsome st hst with ⟨-, hst⟩ | ⟨stage, hstage, -⟩
        · exact hst
        · rw [hidle] at hstage
          cases hstage
      have hprogress : inProgress key ⟨world.withStates c.world.app.originStates,
          record :: c.records⟩ = [record.2] := by
        rw [inProgress, List.filterMap_cons, if_pos hkey]
        exact congrArg _ hidle
      refine ⟨fun hlookup => ?_, fun st' hst' => ?_⟩
      · exact absurd (hst.symm.trans hlookup) (by simp)
      · have hsame : st' = st := Option.some.inj (hst'.symm.trans hst)
        rw [hsame]
        refine Or.inr ⟨record.2, ?_, ?_⟩
        · simp only [if_pos (show record.1 ∈ c.world.app.originStates from hkey ▸ hstored)]
          exact hprogress
        · rcases cases_of_opens hopens with ⟨hprobed, result, latency, hstage⟩ |
            ⟨hprobed, task, outcome, hstage, houtcome⟩
          · have hrecord : c.recordFor key (.world e) = none := by
              simp only [recordFor, hprobed, Option.isSome_none, Bool.false_eq_true, if_false]
            rw [hrecord, hstage, Option.toList_none, List.append_nil]
            exact hbase
          · have hrecord : c.recordFor key (.world e) = some (.probe task outcome) := by
              simp only [recordFor, hprobed, if_true, World.recordFor, if_pos hstored, houtcome,
                if_pos hkey]
            rw [hrecord, hstage, Option.toList_some, List.foldl_append, ← hbase]
            exact (recordAs_eq st (.probe task outcome)).symm
    · rw [recordFor_of_opens hopens hown, Option.toList_none, List.append_nil, Settled]
      simp only [inProgress_of_opens world hown]
      exact ⟨hnone, hsome⟩

/-- What an atomic operation does to what is settled. -/
theorem settled_record {i : Nat} {spurious : Bool} (hs : Settled key c rs)
    (h : step env c (.record i spurious) = some c') :
    Settled key c' (rs ++ (c.recordFor key (.record i spurious)).toList) := by
  obtain ⟨hnone, hsome⟩ := hs
  simp only [step] at h
  split at h
  · cases h
  · next k stage hi =>
    obtain ⟨st, hst, rfl⟩ := Option.map_eq_some_iff.1 h
    have hperm := inProgress_perm hi key
    have hrecord : c.recordFor key (.record i spurious) =
        if k = key then stage.settles c.world.app else none := by
      simp only [recordFor, hi]
    by_cases hkey : k = key
    · subst hkey
      -- it is the only record of its origin in progress
      rw [if_pos rfl] at hperm hrecord
      rw [hrecord]
      rcases hsome st hst with ⟨hidle, -⟩ | ⟨stage', hstage', hfollows⟩
      · rw [hidle] at hperm
        exact absurd hperm.length_eq (by simp)
      · rw [hstage'] at hperm
        obtain ⟨rfl, hrest⟩ := List.cons.inj (List.singleton_perm.1 hperm)
        obtain ⟨hgo, hlast⟩ := follows_advance c.world.app spurious hfollows
        have hlookup : ∀ st', (c.world.app.originStates.insert k st').lookup k = some st' :=
          fun st' => Finmap.lookup_insert _
        refine ⟨fun hn => absurd ((hlookup _).symm.trans hn) (by simp), fun st' hst' => ?_⟩
        have hprogress : ∀ (world : World) (next : Option RecordStage), inProgress k ⟨world,
            next.toList.map (Prod.mk k) ++ c.records.eraseIdx i⟩ = next.toList :=
          fun world next => by
          rw [inProgress_mk, if_pos rfl]
          exact (congrArg (next.toList ++ ·) hrest.symm).trans (List.append_nil _)
        rw [← Option.some.inj ((hlookup _).symm.trans hst'), List.foldl_append, hprogress]
        cases hnext : (stage'.advance c.world.app st spurious).2 with
        | none => exact Or.inl ⟨rfl, hlast hnext⟩
        | some next => exact Or.inr ⟨next, rfl, hgo next hnext⟩
    · rw [if_neg hkey, List.nil_append] at hperm
      rw [hrecord, if_neg hkey, Option.toList_none, List.append_nil]
      have hlookup : ∀ st', (c.world.app.originStates.insert k st').lookup key =
          c.world.app.originStates.lookup key :=
        fun st' => Finmap.lookup_insert_of_ne _ (Ne.symm hkey)
      rw [Settled, inProgress_mk, if_neg hkey, List.nil_append]
      refine ⟨fun hn => ?_, fun st' hst' => ?_⟩
      · obtain ⟨hrs, hidle⟩ := hnone ((hlookup _).symm.trans hn)
        rw [hidle] at hperm
        exact ⟨hrs, List.nil_perm.1 hperm⟩
      · rcases hsome st' ((hlookup _).symm.trans hst') with ⟨hidle, hbase⟩ | ⟨stage', hstage', hf⟩
        · rw [hidle] at hperm
          exact Or.inl ⟨List.nil_perm.1 hperm, hbase⟩
        · rw [hstage'] at hperm
          exact Or.inr ⟨stage', (List.singleton_perm.1 hperm).symm, hf⟩

/-- **While the records of an origin do not overlap, its history is that of the records settled so
far**, but for the one in progress. -/
theorem settled_of_run {events : List AtomicEvent} {last : AtomicWorld}
    (hrun : run (step env) (start env config) events = some last)
    (hapart : Along (step env) (Apart key) (start env config) events) :
    Settled key last (reports (step env) (recordFor key) (start env config) events) := by
  have hstart : Settled key (start env config) [] :=
    ⟨fun _ => ⟨rfl, rfl⟩, fun st hst => Or.inl ⟨rfl, AppState.eq_new_of_lookup_new hst⟩⟩
  refine reports_invariant_along (I := fun c rs => Settled key c rs)
    (fun c d c' rs hs hguard h => ?_) hstart hapart hrun
  cases d with
  | world e => exact settled_world hs hguard h
  | record i spurious => exact settled_record hs h

theorem ledger_of_run {events : List AtomicEvent} {last : AtomicWorld} {st : OriginState}
    (hrun : run (step env) (start env config) events = some last)
    (hapart : Along (step env) (Apart key) (start env config) events)
    (hidle : last.inProgress key = [])
    (hst : last.world.app.originStates.lookup key = some st) :
    Ledger (reports (step env) (recordFor key) (start env config) events) st := by
  rcases (settled_of_run hrun hapart).2 st hst with ⟨-, hbase⟩ | ⟨stage, hstage, -⟩
  · rw [hbase]
    exact ledger_records _
  · rw [hidle] at hstage
    cases hstage

/-- The event is the end of a request or probe of the origin. -/
def begins (key : String) (c : AtomicWorld) : AtomicEvent → Bool
  | .world e => (c.world.opens e).any fun record => record.1 == key
  | .record _ _ => false

theorem mem_originStates_step (hkey : key ∈ c.world.app.originStates)
    (h : step env c d = some c') : key ∈ c'.world.app.originStates := by
  cases d with
  | world e =>
    obtain ⟨world, hworld, rfl⟩ := Option.map_eq_some_iff.1 h
    cases hopens : c.world.opens e with
    | none => exact World.mem_originStates_step hkey hworld
    | some record => exact hkey
  | record i spurious =>
    simp only [step] at h
    split at h
    · cases h
    · obtain ⟨st, -, rfl⟩ := Option.map_eq_some_iff.1 h
      exact Finmap.mem_insert.2 (Or.inr hkey)

/-- The end of a request or probe with a history opens a record or settles it, and an open record
is settled later. -/
theorem countP_isOpen_step (key : String) (h : step env c d = some c') :
    (c'.inProgress key).countP RecordStage.isOpen + ((c.recordFor key d).any fun _ => true).toNat =
      (c.inProgress key).countP RecordStage.isOpen +
        (begins key c d && decide (key ∈ c.world.app.originStates)).toNat := by
  cases d with
  | world e =>
    obtain ⟨world, hworld, rfl⟩ := Option.map_eq_some_iff.1 h
    cases hopens : c.world.opens e with
    | none =>
      have houtcome := outcomeFor_of_opens_none hopens key
      simp [recordFor, World.recordFor, houtcome, begins, hopens, inProgress]
    | some record =>
      by_cases hown : record.1 = key ∧ key ∈ c.world.app.originStates
      · obtain ⟨hrecord, hkey⟩ := hown
        rcases cases_of_opens hopens with ⟨hprobed, result, latency, hstage⟩ |
          ⟨hprobed, task, outcome, hstage, houtcome⟩
        · simp [recordFor, hprobed, begins, hopens, hrecord, hkey, inProgress, hstage,
            List.countP_cons, RecordStage.isOpen]
        · simp [recordFor, World.recordFor, hprobed, houtcome, begins, hopens, hrecord, hkey,
            inProgress, hstage, RecordStage.isOpen]
      · have hother : c.recordFor key (.world e) = none := recordFor_of_opens hopens hown
        have hprogress := inProgress_of_opens world hown
        have hnot : (begins key c (.world e) && decide (key ∈ c.world.app.originStates)) =
            false := by
          simp only [begins, hopens, Option.any_some, Bool.and_eq_false_iff, beq_eq_false_iff_ne,
            decide_eq_false_iff_not]
          exact not_and_or.1 hown
        simp only [hother, hnot, Option.any_none]
        rw [hprogress]
  | record i spurious =>
    simp only [step] at h
    split at h
    · cases h
    · next k stage hi =>
      obtain ⟨st, hst, rfl⟩ := Option.map_eq_some_iff.1 h
      have hperm := (inProgress_perm hi key).countP_eq RecordStage.isOpen
      have hopen := isOpen_advance c.world.app st spurious stage
      by_cases hk : k = key
      · rw [if_pos hk, List.countP_append] at hperm
        have hrecord : c.recordFor key (.record i spurious) = stage.settles c.world.app := by
          simp only [recordFor, hi, if_pos hk]
        have hany : (stage.settles c.world.app).any (fun _ => true) =
            (stage.settles c.world.app).isSome := by cases stage.settles c.world.app <;> rfl
        have hsingle : [stage].countP RecordStage.isOpen = stage.isOpen.toNat := by
          rw [List.countP_singleton]
          cases stage.isOpen <;> rfl
        rw [inProgress_mk, if_pos hk, List.countP_append, hrecord, hany, begins, Bool.false_and,
          Bool.toNat_false]
        simp only at hperm
        omega
      · rw [if_neg hk, List.nil_append] at hperm
        have hrecord : c.recordFor key (.record i spurious) = none := by
          simp only [recordFor, hi, if_neg hk]
        rw [inProgress_mk, if_neg hk, List.nil_append, hrecord, hperm]
        rfl

theorem throughout_stored (env : Externals) (hkey : key ∈ c.world.app.originStates)
    (events : List AtomicEvent) :
    Throughout (step env) (fun c => key ∈ c.world.app.originStates) c events :=
  throughout_of_along (fun _ _ _ hc (_ : True) h => mem_originStates_step hc h) hkey
    (along_true c events)

theorem mem_originStates_of_run {events : List AtomicEvent}
    (hkey : key ∈ c.world.app.originStates) (hrun : run (step env) c events = some c') :
    key ∈ c'.world.app.originStates :=
  (throughout_stored env hkey events).last hrun

/-- **No outcome is lost**: when no record of an origin is in progress there are as many records as
ends of its requests and probes, also when they have overlapped. -/
theorem length_reports {events : List AtomicEvent}
    (hkey : key ∈ (start env config).world.app.originStates) (hidle : c.inProgress key = [])
    (hrun : run (step env) (start env config) events = some c) :
    (reports (step env) (recordFor key) (start env config) events).length =
      tally (step env) (begins key) (start env config) events := by
  have hbalance : (c.inProgress key).countP RecordStage.isOpen +
      tally (step env) (fun c d => (c.recordFor key d).any fun _ => true) (start env config)
        events = ((start env config).inProgress key).countP RecordStage.isOpen +
      tally (step env) (fun c d => begins key c d && decide (key ∈ c.world.app.originStates))
        (start env config) events :=
    balance (m := fun c => (c.inProgress key).countP RecordStage.isOpen)
      (fun _ _ _ h => countP_isOpen_step key h) hrun
  have hstart : ((start env config).inProgress key).countP RecordStage.isOpen = 0 := rfl
  rw [hidle, hstart, List.countP_nil, Nat.zero_add, Nat.zero_add,
    ← countP_reports, List.countP_true] at hbalance
  rw [hbalance]
  have hstored := throughout_stored env hkey events
  refine le_antisymm (tally_le ?_) (tally_le ?_)
  · exact (along_congr (fun c d hc => iff_of_true trivial fun h => (Bool.and_eq_true_iff.1 h).1)
      hstored).1 (along_true _ events)
  · exact (along_congr (fun c d hc => iff_of_true trivial fun h =>
      Bool.and_eq_true_iff.2 ⟨h, decide_eq_true hc⟩) hstored).1 (along_true _ events)

end Steps

/-! ## Records that nothing overlaps -/

section Alone

variable {env : Externals} {w w' : World} {e : Event} {key : String}

/-- **A record alone goes on to its end**, and comes to what is settled by then. -/
theorem reaches_completed (env : Externals) {m : Nat} {stage : RecordStage} {base st : OriginState}
    (hst : w.app.originStates.lookup key = some st) (hfollows : stage.Follows base st)
    (hm : stage.remaining st = m) :
    Reaches (step env) (fun _ => True) ⟨w, [(key, stage)]⟩
      ⟨w.withStates (w.app.originStates.insert key
        ((stage.ahead w.app).toList.foldl OriginState.recordAs base)), []⟩ := by
  -- on the number of operations that are left
  induction m using Nat.strong_induction_on generalizing w stage base st with
  | _ m ih =>
    obtain ⟨hgo, hlast⟩ := follows_advance w.app false hfollows
    have hahead := settles_append_ahead w.app st false stage
    have hstep : step env ⟨w, [(key, stage)]⟩ (.record 0 false) =
        some ⟨w.withStates (w.app.originStates.insert key (stage.advance w.app st false).1),
          (stage.advance w.app st false).2.toList.map (Prod.mk key) ++ []⟩ := by
      simp only [step, List.getElem?_cons_zero, hst, Option.map_some, List.eraseIdx_cons_zero]
    have hreach : Reaches (step env) (fun _ => True) ⟨w, [(key, stage)]⟩ _ :=
      Reaches.single trivial hstep
    rw [← hahead, List.foldl_append]
    cases hnext : (stage.advance w.app st false).2 with
    | none =>
      rw [hnext] at hreach
      rw [Option.bind_none, Option.toList_none, List.foldl_nil, ← hlast hnext]
      exact hreach
    | some next =>
      rw [hnext] at hreach
      have hless := remaining_advance w.app hnext
      have hrest := ih _ (hm ▸ hless) (w := w.withStates (w.app.originStates.insert key
        (stage.advance w.app st false).1)) (Finmap.lookup_insert _) (hgo next hnext) rfl
      have hinsert : ∀ st', ((w.withStates (w.app.originStates.insert key
          (stage.advance w.app st false).1)).app.originStates.insert key st') =
            w.app.originStates.insert key st' := fun st' => Finmap.insert_insert _
      rw [hinsert] at hrest
      exact hreach.trans hrest

/-- What the proxy makes of a history in one event is what the record comes to. -/
theorem exists_states_of_opens {record : String × RecordStage} (h : World.step env w e = some w')
    (hopens : w.opens e = some record) :
    ∃ f, w'.app.originStates = Dict.modify record.1 f w.app.originStates ∧
      ∀ states st, ∃ base, record.2.Follows base st ∧
        (record.2.ahead (w'.withStates states).app).toList.foldl OriginState.recordAs base =
          f st := by
  cases World.moves_of_step h with
  | @finished i result latency origin hi =>
    simp only [World.opens, hi, Option.some.injEq] at hopens
    subst hopens
    refine ⟨_, rfl, fun states st => ⟨st, rfl, ?_⟩⟩
    have hsame : (World.withStates { w with
        app := w.app.recordOutcome origin result latency
        inFlight := w.inFlight.eraseIdx i } states).app.passiveEnabled = w.app.passiveEnabled := rfl
    cases hpassive : w.app.passiveEnabled <;>
      simp only [RecordStage.ahead, hsame, hpassive, if_true, Bool.false_eq_true, if_false] <;> rfl
  | @probed i outcome task target htask htarget =>
    simp only [World.opens, htask, htarget, Option.map_some, Option.some.injEq] at hopens
    subst hopens
    exact ⟨_, rfl, fun _ st => ⟨_, (recordAs_eq st (.probe task outcome)).symm, rfl⟩⟩
  | _ => cases hopens

/-- **A record in one event is a record that nothing overlaps**: every step of the proxy can be made
by the event and the operations of its record, one after another. -/
theorem reaches_of_step (h : World.step env w e = some w') :
    Reaches (step env) (fun _ => True) ⟨w, []⟩ ⟨w', []⟩ := by
  have hbegin : step env ⟨w, []⟩ (.world e) = some (match w.opens e with
      | none => ⟨w', []⟩
      | some record => ⟨w'.withStates w.app.originStates,
          if record.1 ∈ w.app.originStates then [record] else []⟩) := by
    simp only [step, h, Option.map_some]
  have hreach : Reaches (step env) (fun _ => True) ⟨w, []⟩ _ := Reaches.single trivial hbegin
  cases hopens : w.opens e with
  | none =>
    rw [hopens] at hreach
    exact hreach
  | some record =>
    rw [hopens] at hreach
    obtain ⟨f, hstates, hcompletes⟩ := exists_states_of_opens h hopens
    cases hlookup : w.app.originStates.lookup record.1 with
    | none =>
      have hnot : record.1 ∉ w.app.originStates := Finmap.lookup_eq_none.1 hlookup
      rw [Dict.modify_of_notMem hnot] at hstates
      have hsame : w'.withStates w.app.originStates = w' := congrArg w'.withStates hstates.symm
      simpa only [if_neg hnot, hsame] using hreach
    | some st =>
      have hstored : record.1 ∈ w.app.originStates := Finmap.mem_of_lookup_eq_some hlookup
      have hst : (w'.withStates w.app.originStates).app.originStates.lookup record.1 = some st :=
        hlookup
      obtain ⟨base, hfollows, hcomplete⟩ := hcompletes w.app.originStates st
      have hrest := reaches_completed env hst hfollows rfl
      have hinsert : w.app.originStates.insert record.1 (f st) = w'.app.originStates := by
        rw [hstates, Dict.modify, hlookup]
      rw [hcomplete] at hrest
      have hlast : (w'.withStates w.app.originStates).withStates
          (w.app.originStates.insert record.1 (f st)) = w' :=
        congrArg w'.withStates hinsert
      simp only [if_pos hstored] at hreach
      exact hreach.trans (hlast ▸ hrest)

end Alone

/-! ## Histories -/

instance (key : String) (c : AtomicWorld) : DecidablePred (Apart key c)
  | .world e => inferInstanceAs (Decidable
      (∀ record ∈ c.world.opens e, record.1 = key → c.inProgress key = []))
  | .record _ _ => isTrue trivial

/-- **Histories are exact where records do not overlap.** Suppose that in a run no record of an
origin begins while another one of it is in progress, whatever the records of other origins do. When
none of them is in progress the history of the origin is the ledger of its records. An origin of the
configuration at start has a history, and as many records as requests and probes of it have
ended. -/
theorem histories_exact (env : Externals) (config : ProxyConfig) (events : List AtomicEvent)
    (last : AtomicWorld) (hrun : run (step env) (start env config) events = some last)
    (key : String) (hapart : Along (step env) (Apart key) (start env config) events)
    (hidle : last.inProgress key = []) :
    (∀ st, last.world.app.originStates.lookup key = some st →
      Ledger (reports (step env) (recordFor key) (start env config) events) st) ∧
    (key ∈ config.originKeys → key ∈ last.world.app.originStates ∧
      (reports (step env) (recordFor key) (start env config) events).length =
        tally (step env) (begins key) (start env config) events) := by
  refine ⟨fun st hst => ledger_of_run hrun hapart hidle hst, fun hkey => ?_⟩
  have hstart : key ∈ (start env config).world.app.originStates :=
    AppState.mem_originStates_new.2 hkey
  exact ⟨mem_originStates_of_run hstart hrun, length_reports hstart hidle hrun⟩

/-- Two requests of which the second is handled while the first one is recorded, up to its end. One
exchange fails for no reason. -/
def twoRecords : List AtomicEvent :=
  [.world (.arrive "" "/" (.v4 0)), .world (.limit 0 0), .world (.select 0 .zero),
    .world (.arrive "" "/" (.v4 1)), .world (.finish 0 (.error (.client "refused")) 7),
    .record 0 false, .record 0 false, .world (.limit 0 0), .record 0 true] ++
    List.replicate 4 (.record 0 false) ++ [.world (.select 0 .zero)] ++
    List.replicate 4 (.record 0 false) ++ [.world (.finish 0 (.ok ⟨200, [], []⟩) 9)] ++
    List.replicate 9 (.record 0 false)

theorem exists_run_twoRecords :
    ∃ last, run (step .none) (start .none .minimal) twoRecords = some last ∧
      last.inProgress "http://127.0.0.1:3000/" = [] := by
  have hends : (run (step .none) (start .none .minimal) twoRecords).map
      (fun c => (c.inProgress "http://127.0.0.1:3000/").isEmpty) = some true := by decide +kernel
  obtain ⟨last, hlast, hidle⟩ := Option.map_eq_some_iff.1 hends
  exact ⟨last, hlast, List.isEmpty_iff.1 hidle⟩

theorem apart_twoRecords : Along (step .none) (Apart "http://127.0.0.1:3000/")
    (start .none .minimal) twoRecords := by
  decide +kernel

theorem ledger_twoRecords {st : OriginState}
    (h : Ledger (reports (step .none) (recordFor "http://127.0.0.1:3000/")
      (start .none .minimal) twoRecords) st) :
    st.totalRequests = 2 ∧ st.totalFailures = 1 ∧ st.healthy = true := by
  have hcalls : (reports (step .none) (recordFor "http://127.0.0.1:3000/")
      (start .none .minimal) twoRecords).map (fun r => (r.isRequest, r.failed, r.call)) =
        [(true, true, .failure 5), (true, false, .success 2)] := by decide +kernel
  obtain ⟨r, hr⟩ : ∃ r, r = reports (step .none) (recordFor "http://127.0.0.1:3000/")
      (start .none .minimal) twoRecords := ⟨_, rfl⟩
  rw [← hr] at h hcalls
  obtain ⟨r₁, r₂, rfl⟩ : ∃ r₁ r₂, r = [r₁, r₂] :=
    List.length_eq_two.1 ((List.length_map _).symm.trans (congrArg List.length hcalls))
  simp only [List.map_cons, List.map_nil, List.cons.injEq, Prod.mk.injEq, and_true] at hcalls
  obtain ⟨⟨hrequest₁, hfailed₁, hcall₁⟩, hrequest₂, hfailed₂, hcall₂⟩ := hcalls
  refine ⟨h.totalRequests_eq.trans ?_, h.totalFailures_eq.trans ?_, h.healthy_eq.trans ?_⟩
  · simp [hrequest₁, hrequest₂]
  · simp [hfailed₁, hfailed₂]
  · rw [List.map_cons, List.map_cons, hcall₁, hcall₂]
    decide

/-- Both requests are in the history. -/
theorem histories_exact_twoRecords :
    ∃ last st, run (step .none) (start .none .minimal) twoRecords = some last ∧
      last.world.app.originStates.lookup "http://127.0.0.1:3000/" = some st ∧
      st.totalRequests = 2 ∧ st.totalFailures = 1 ∧ st.healthy = true := by
  obtain ⟨last, hlast, hidle⟩ := exists_run_twoRecords
  obtain ⟨hledger, hstored⟩ := histories_exact .none .minimal twoRecords last hlast
    "http://127.0.0.1:3000/" apart_twoRecords hidle
  obtain ⟨st, hst⟩ := Finmap.mem_iff.1 (hstored (by decide)).1
  exact ⟨last, st, hlast, hst, ledger_twoRecords (hledger st hst)⟩

end AtomicWorld

end Upstreamer
