import Upstreamer.Balance.LatencyAverage
import Upstreamer.Foundations.Regulated

/-!
# Overlapping latency records

`record_latency` loads the average and then tries to exchange the value it has loaded for the next
average, with the value that it finds there if it fails. Here any number of such calls on one origin
overlap; an exchange fails when the average has changed, and may also fail for no reason.

An exchange that succeeds compares with the current average, so it records the sample as a call
alone would, also when the average has changed and changed back in between (`moves_of_step`). A call
returns with its successful exchange, so when all calls have returned each sample has been recorded
exactly once, in the order of the exchanges (`recordLatencies_of_returned`).
-/

set_option autoImplicit false

namespace Upstreamer

open Foundations

/-- How far a call with this sample has come. -/
inductive LatencyCall where
  | started (sample : Duration)
  | loaded (sample : Duration) (old : UInt64)
  | returned (sample : Duration)
  deriving DecidableEq

namespace LatencyCall

def sample : LatencyCall → Duration
  | started sample => sample
  | loaded sample _ => sample
  | returned sample => sample

def isReturned : LatencyCall → Bool
  | returned _ => true
  | started _ | loaded _ _ => false

end LatencyCall

/-- An origin and the calls on it, in the order in which they have begun. -/
structure LatencyRace where
  origin : OriginState
  calls : List LatencyCall
  deriving DecidableEq

inductive LatencyEvent where
  | begin (sample : Duration)
  | load (i : Nat)
  /-- `compare_exchange_weak` of the call at a position, which may be made to fail. -/
  | exchange (i : Nat) (spurious : Bool)
  deriving DecidableEq

/-- The sample of the call that begins. -/
def LatencyEvent.begun : LatencyEvent → Option Duration
  | .begin sample => some sample
  | .load _ | .exchange _ _ => none

namespace LatencyRace

def step (s : LatencyRace) : LatencyEvent → Option LatencyRace
  | .begin sample => some { s with calls := s.calls ++ [.started sample] }
  | .load i =>
      match s.calls[i]? with
      | some (.started sample) =>
          some { s with calls := s.calls.set i (.loaded sample s.origin.ewmaLatencyNs) }
      | _ => none
  | .exchange i spurious =>
      match s.calls[i]? with
      | some (.loaded sample old) =>
          if s.origin.ewmaLatencyNs = old ∧ spurious = false then
            some
              { origin :=
                  { s.origin with ewmaLatencyNs := (UInt64.ofNat sample + 9 * old) / 10 }
                calls := s.calls.set i (.returned sample) }
          else
            -- the value found is the one to compare with next
            some { s with calls := s.calls.set i (.loaded sample s.origin.ewmaLatencyNs) }
      | _ => none

/-- The sample and the position of the call whose exchange succeeds. -/
def exchanged (s : LatencyRace) : LatencyEvent → Option (Duration × Nat)
  | .begin _ | .load _ => none
  | .exchange i spurious =>
      match s.calls[i]? with
      | some (.loaded sample old) =>
          if s.origin.ewmaLatencyNs = old ∧ spurious = false then some (sample, i) else none
      | _ => none

/-- What a step does. -/
inductive Moves (s : LatencyRace) : LatencyEvent → LatencyRace → Prop where
  | begun (sample : Duration) :
      Moves s (.begin sample) { s with calls := s.calls ++ [.started sample] }
  /-- A load, or an exchange that fails. -/
  | loaded {e : LatencyEvent} {i : Nat} {call : LatencyCall} (hcall : s.calls[i]? = some call)
      (hrunning : call.isReturned = false) (hbegun : e.begun = none)
      (hnone : s.exchanged e = none) :
      Moves s e
        { s with calls := s.calls.set i (.loaded call.sample s.origin.ewmaLatencyNs) }
  /-- An exchange that succeeds records the sample. -/
  | exchanged {i : Nat} {sample : Duration}
      (hcall : s.calls[i]? = some (.loaded sample s.origin.ewmaLatencyNs))
      (hsome : s.exchanged (.exchange i false) = some (sample, i)) :
      Moves s (.exchange i false)
        { origin := s.origin.recordLatency sample, calls := s.calls.set i (.returned sample) }

theorem moves_of_step {s t : LatencyRace} {e : LatencyEvent} (h : step s e = some t) :
    Moves s e t := by
  cases e with
  | begin sample =>
    cases h
    exact .begun sample
  | load i =>
    rw [step] at h
    split at h
    · next sample hcall =>
      cases h
      exact .loaded hcall rfl rfl rfl
    · cases h
  | exchange i spurious =>
    rw [step] at h
    split at h
    · next sample old hcall =>
      split at h
      · next hwins =>
        cases h
        obtain ⟨rfl, rfl⟩ := hwins
        refine .exchanged hcall ?_
        simp only [LatencyRace.exchanged, hcall, and_self, if_true]
      · next hfails =>
        cases h
        refine .loaded hcall rfl rfl ?_
        simp only [LatencyRace.exchanged, hcall, if_neg hfails]
    · cases h

/-! ## The invariant -/

/-- What the state says about the exchanges made so far: they are the calls that have returned, each
of them once, and the average is the one of their samples. -/
structure Recorded (st : OriginState) (s : LatencyRace) (order : List (Duration × Nat)) : Prop where
  origin : s.origin = st.recordLatencies (order.map Prod.fst)
  nodup : order.Nodup
  mem_iff : ∀ sample i, (sample, i) ∈ order ↔ s.calls[i]? = some (.returned sample)

section Positions

variable {calls : List LatencyCall} {call : LatencyCall} {sample : Duration} {i j : Nat}

theorem getElem?_append_started (new : Duration) :
    (calls ++ [.started new])[j]? = some (.returned sample) ↔
      calls[j]? = some (.returned sample) := by
  by_cases hj : j < calls.length
  · rw [List.getElem?_append_left hj]
  · rw [List.getElem?_append_right (not_lt.1 hj), List.getElem?_eq_none (not_lt.1 hj)]
    cases j - calls.length with
    | zero => simp
    | succ k => simp

theorem getElem?_set_loaded (hcall : calls[i]? = some call) (hrunning : call.isReturned = false)
    (new : Duration) (old : UInt64) :
    (calls.set i (.loaded new old))[j]? = some (.returned sample) ↔
      calls[j]? = some (.returned sample) := by
  by_cases hj : i = j
  · subst hj
    obtain ⟨hlen, -⟩ := List.getElem?_eq_some_iff.1 hcall
    rw [List.getElem?_set_self hlen, hcall]
    refine iff_of_false (by simp) fun h => ?_
    rw [Option.some.inj h] at hrunning
    cases hrunning
  · rw [List.getElem?_set_ne hj]

theorem getElem?_set_returned {new : Duration} (hlen : i < calls.length) :
    (calls.set i (.returned new))[j]? = some (.returned sample) ↔
      (j = i ∧ sample = new) ∨ (j ≠ i ∧ calls[j]? = some (.returned sample)) := by
  by_cases hj : i = j
  · subst hj
    rw [List.getElem?_set_self hlen]
    simp [eq_comm]
  · rw [List.getElem?_set_ne hj]
    simp [Ne.symm hj]

end Positions

theorem recorded_step (st : OriginState) (s : LatencyRace) (e : LatencyEvent) (t : LatencyRace)
    (order : List (Duration × Nat)) (h : Recorded st s order) (hstep : step s e = some t) :
    Recorded st t (order ++ (s.exchanged e).toList) := by
  cases moves_of_step hstep with
  | begun sample =>
    rw [LatencyRace.exchanged, Option.toList_none, List.append_nil]
    exact ⟨h.origin, h.nodup, fun x j =>
      (h.mem_iff x j).trans (getElem?_append_started sample).symm⟩
  | loaded hcall hrunning hbegun hnone =>
    rw [hnone, Option.toList_none, List.append_nil]
    exact ⟨h.origin, h.nodup, fun x j =>
      (h.mem_iff x j).trans (getElem?_set_loaded hcall hrunning _ _).symm⟩
  | @exchanged i sample hcall hsome =>
    rw [hsome, Option.toList_some]
    obtain ⟨hlen, -⟩ := List.getElem?_eq_some_iff.1 hcall
    -- the call has not returned before, so its position is new in the order
    have hrunning : ∀ x, (x, i) ∉ order := by
      intro x hx
      rw [h.mem_iff, hcall] at hx
      cases hx
    refine ⟨?_, ?_, fun x j => ?_⟩
    · rw [List.map_append, OriginState.recordLatencies, List.foldl_append, h.origin]
      rfl
    · exact List.nodup_append.2 ⟨h.nodup, List.nodup_singleton _, fun p hp q hq => by
        rw [List.mem_singleton.1 hq]
        rintro rfl
        exact hrunning sample hp⟩
    · rw [List.mem_append, List.mem_singleton, getElem?_set_returned hlen, ← h.mem_iff,
        Prod.mk.injEq]
      constructor
      · rintro (hx | ⟨rfl, rfl⟩)
        · refine Or.inr ⟨?_, hx⟩
          rintro rfl
          exact hrunning x hx
        · exact Or.inl ⟨rfl, rfl⟩
      · rintro (⟨rfl, rfl⟩ | ⟨-, hx⟩)
        · exact Or.inr ⟨rfl, rfl⟩
        · exact Or.inl hx

theorem map_sample_set {calls : List LatencyCall} {call new : LatencyCall} {i : Nat}
    (hcall : calls[i]? = some call) (hnew : new.sample = call.sample) :
    (calls.set i new).map LatencyCall.sample = calls.map LatencyCall.sample := by
  obtain ⟨hlen, rfl⟩ := List.getElem?_eq_some_iff.1 hcall
  rw [List.map_set, hnew, ← List.getElem_map LatencyCall.sample (h := by rwa [List.length_map])]
  exact List.set_getElem_self _

/-- A step keeps the samples of the calls and adds the one that begins. -/
theorem map_sample_of_step {s t : LatencyRace} {e : LatencyEvent} (h : step s e = some t) :
    t.calls.map LatencyCall.sample = s.calls.map LatencyCall.sample ++ e.begun.toList := by
  cases moves_of_step h with
  | begun sample => exact List.map_append
  | loaded hcall hrunning hbegun hnone =>
    rw [hbegun, Option.toList_none, List.append_nil]
    exact map_sample_set hcall rfl
  | exchanged hcall hsome =>
    rw [LatencyEvent.begun, Option.toList_none, List.append_nil]
    exact map_sample_set hcall rfl

theorem map_sample_of_run {s t : LatencyRace} {es : List LatencyEvent}
    (hrun : run step s es = some t) :
    t.calls.map LatencyCall.sample =
      s.calls.map LatencyCall.sample ++ es.filterMap LatencyEvent.begun := by
  induction es generalizing s with
  | nil =>
    cases hrun
    exact (List.append_nil _).symm
  | cons e es ih =>
    obtain ⟨u, hu, hrun⟩ := run_cons_eq_some.1 hrun
    rw [ih hrun, map_sample_of_step hu, List.append_assoc]
    cases hbegun : e.begun with
    | none => rw [List.filterMap_cons_none hbegun]; rfl
    | some sample => rw [List.filterMap_cons_some hbegun]; rfl

/-- **Each sample is recorded exactly once.** When all calls have returned, the successful exchanges
are a rearrangement of the calls, and the origin is as after recording their samples one after
another, in the order of the exchanges. -/
theorem recordLatencies_of_returned (st : OriginState) (es : List LatencyEvent) (s : LatencyRace)
    (hrun : run step ⟨st, []⟩ es = some s) (hreturned : ∀ c ∈ s.calls, c.isReturned = true) :
    (reports step exchanged ⟨st, []⟩ es).Perm (es.filterMap LatencyEvent.begun).zipIdx ∧
      s.origin = st.recordLatencies ((reports step exchanged ⟨st, []⟩ es).map Prod.fst) := by
  have hstart : Recorded st ⟨st, []⟩ [] := ⟨rfl, List.nodup_nil, fun x j => by simp⟩
  have hrecorded := reports_invariant (recorded_step st) hstart hrun
  rw [List.nil_append] at hrecorded
  refine ⟨?_, hrecorded.origin⟩
  have hsamples : s.calls.map LatencyCall.sample = es.filterMap LatencyEvent.begun :=
    map_sample_of_run hrun
  have hnodup : (es.filterMap LatencyEvent.begun).zipIdx.Nodup := by
    refine List.Nodup.of_map Prod.snd ?_
    rw [List.zipIdx_map_snd]
    exact List.nodup_range'
  rw [List.perm_ext_iff_of_nodup hrecorded.nodup hnodup]
  rintro ⟨x, j⟩
  rw [hrecorded.mem_iff, List.mem_zipIdx_iff_getElem?, ← hsamples, List.getElem?_map,
    Option.map_eq_some_iff]
  constructor
  · intro hcall
    exact ⟨_, hcall, rfl⟩
  · rintro ⟨call, hcall, rfl⟩
    -- every call has returned, so a call with this sample is this returned call
    have hdone := hreturned call (List.mem_of_getElem? hcall)
    cases call with
    | started sample => cases hdone
    | loaded sample old => cases hdone
    | returned sample => exact hcall

/-- Two calls on a fresh history. The second one fails once because the average has changed, and
once for no reason. -/
def twoRecords : List LatencyEvent :=
  [.begin 100, .begin 2000, .load 0, .load 1, .exchange 0 false, .exchange 1 false,
    .exchange 1 true, .exchange 1 false]

theorem recordLatencies_of_twoRecords :
    (reports step exchanged ⟨.new, []⟩ twoRecords).Perm
        (twoRecords.filterMap LatencyEvent.begun).zipIdx ∧
      ({ OriginState.new with ewmaLatencyNs := 209 } : OriginState) =
        OriginState.new.recordLatencies
          ((reports step exchanged ⟨.new, []⟩ twoRecords).map Prod.fst) :=
  recordLatencies_of_returned .new twoRecords ⟨_, [.returned 100, .returned 2000]⟩ (by decide)
    (by decide)

end LatencyRace

end Upstreamer
