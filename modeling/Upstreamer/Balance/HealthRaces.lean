import Upstreamer.Balance.HealthRuns
import Upstreamer.Foundations.Past
import Mathlib.Algebra.Ring.Nat

/-!
# Overlapping outcomes

`record_success_with_threshold` and `record_failure_with_threshold` are several atomic steps each:
count the outcome, clear the other counter, and store the verdict of the count. Here any number of
such calls on one origin overlap. A call begins with its first atomic step, and a run is a list of
atomic steps in their global order.

Both counters are positive only while some call has counted and not yet cleared
(`clearedOrOwed_step`). The flag is another matter: a call decides on the count of its first step
and stores the flag in its last, so its verdict may overrule a later one. As long as no verdict is
stored that the counters and the calls in progress contradict, flag and counters agree whenever no
call is in progress, and each verdict that they do contradict leads to a state in which they do not
(`flagAgrees_of_along`).
-/

set_option autoImplicit false

namespace Upstreamer

open Foundations

/-! ## The atomic steps -/

/-- A call in progress, after the atomic step of its name: the threshold of its caller and the count
it has read. -/
inductive PendingCall where
  | successCounted (threshold count : UInt32)
  | successCleared (threshold count : UInt32)
  | failureCounted (threshold count : UInt32)
  | failureCleared (threshold count : UInt32)
  | failureTotalled (threshold count : UInt32)
  deriving DecidableEq

namespace PendingCall

/-- The next atomic step of a call. The last one of each call compares and stores the flag. -/
def effect (st : OriginState) : PendingCall → OriginState
  | successCounted _ _ => { st with consecutiveFailures := 0 }
  | successCleared threshold count =>
      if count ≥ threshold then { st with healthy := true } else st
  | failureCounted _ _ => { st with consecutiveSuccesses := 0 }
  | failureCleared _ _ => { st with totalFailures := st.totalFailures + 1 }
  | failureTotalled threshold count =>
      if count ≥ threshold then { st with healthy := false } else st

/-- The call after this step, unless it returns. -/
def next : PendingCall → Option PendingCall
  | successCounted threshold count => some (successCleared threshold count)
  | successCleared _ _ => none
  | failureCounted threshold count => some (failureCleared threshold count)
  | failureCleared threshold count => some (failureTotalled threshold count)
  | failureTotalled _ _ => none

end PendingCall

/-- An origin and the calls in progress on it. Calls that have come equally far with the same
numbers are interchangeable. -/
structure HealthRace where
  origin : OriginState
  calls : List PendingCall
  deriving DecidableEq

inductive RaceEvent where
  | begin (call : HealthCall)
  | advance (call : PendingCall)
  deriving DecidableEq

/-- The event begins a call. -/
def RaceEvent.begins : RaceEvent → Bool
  | .begin _ => true
  | .advance _ => false

namespace HealthRace

/-- A fresh history on which no call is in progress. -/
def fresh : HealthRace := ⟨.new, []⟩

/-- The first atomic step of a call: `fetch_add` on the counter of its outcome. -/
def begin (s : HealthRace) : HealthCall → HealthRace
  | .success threshold =>
      let successes := s.origin.consecutiveSuccesses + 1
      { origin := { s.origin with consecutiveSuccesses := successes }
        calls := .successCounted threshold successes :: s.calls }
  | .failure threshold =>
      let failures := s.origin.consecutiveFailures + 1
      { origin := { s.origin with consecutiveFailures := failures }
        calls := .failureCounted threshold failures :: s.calls }

def advance (s : HealthRace) (call : PendingCall) : HealthRace where
  origin := call.effect s.origin
  calls := call.next.toList ++ s.calls.erase call

def step (s : HealthRace) : RaceEvent → Option HealthRace
  | .begin call => some (s.begin call)
  | .advance call => if call ∈ s.calls then some (s.advance call) else none

theorem step_advance_eq_some {s t : HealthRace} {call : PendingCall} :
    step s (.advance call) = some t ↔ call ∈ s.calls ∧ s.advance call = t := by
  rw [step, Option.ite_none_right_eq_some, Option.some_inj]

/-- A call that no other one overlaps does what the sequential model says. -/
theorem run_alone (st : OriginState) (call : HealthCall) :
    ∃ es, run step ⟨st, []⟩ (.begin call :: es) = some ⟨st.record call, []⟩ := by
  cases call with
  | success threshold =>
    refine ⟨[.advance (.successCounted threshold (st.consecutiveSuccesses + 1)),
      .advance (.successCleared threshold (st.consecutiveSuccesses + 1))], ?_⟩
    simp only [run, step, begin, advance, PendingCall.effect, PendingCall.next, List.mem_singleton,
      if_true, Option.bind_some, Option.toList, List.erase_cons_head, List.append_nil,
      List.nil_append, OriginState.record, OriginState.recordSuccessWithThreshold]
    split <;> rfl
  | failure threshold =>
    refine ⟨[.advance (.failureCounted threshold (st.consecutiveFailures + 1)),
      .advance (.failureCleared threshold (st.consecutiveFailures + 1)),
      .advance (.failureTotalled threshold (st.consecutiveFailures + 1))], ?_⟩
    simp only [run, step, begin, advance, PendingCall.effect, PendingCall.next, List.mem_singleton,
      if_true, Option.bind_some, Option.toList, List.erase_cons_head, List.append_nil,
      List.nil_append, OriginState.record, OriginState.recordFailureWithThreshold]
    split <;> rfl

/-! ## Calls that still owe a step -/

section Owed

variable {s : HealthRace} {call : PendingCall} {p : PendingCall → Prop}

/-- What a call in progress still owes, it owes after the step of another call, and after its own
step if the rest of it does. -/
theorem exists_advance (h : ∃ c ∈ s.calls, p c) (hown : p call → ∃ c, call.next = some c ∧ p c) :
    ∃ c ∈ (s.advance call).calls, p c := by
  obtain ⟨c, hc, hp⟩ := h
  by_cases hcall : c = call
  · subst hcall
    obtain ⟨c', hnext, hp'⟩ := hown hp
    exact ⟨c', List.mem_append_left _ (by rw [hnext]; exact List.mem_singleton_self c'), hp'⟩
  · exact ⟨c, List.mem_append_right _ ((List.mem_erase_of_ne hcall).2 hc), hp⟩

/-- What some call owes after a step, the rest of the call or another call owed before. -/
theorem exists_of_exists_advance (h : ∃ c ∈ (s.advance call).calls, p c) :
    (∃ c, call.next = some c ∧ p c) ∨ ∃ c ∈ s.calls, p c := by
  obtain ⟨c, hc, hp⟩ := h
  rcases List.mem_append.1 hc with hc | hc
  · exact Or.inl ⟨c, Option.mem_toList.1 hc, hp⟩
  · exact Or.inr ⟨c, List.mem_of_mem_erase hc, hp⟩

end Owed

end HealthRace

/-! ## What a call owes

The outcomes are told apart by the flag that they speak for: `true` for successes, `false` for
failures. -/

/-- The counter of an outcome. -/
def OriginState.countOf (st : OriginState) : Bool → UInt32
  | true => st.consecutiveSuccesses
  | false => st.consecutiveFailures

namespace PendingCall

/-- The counter that a call has yet to clear. -/
def clears : PendingCall → Option Bool
  | successCounted _ _ => some false
  | failureCounted _ _ => some true
  | successCleared _ _ | failureCleared _ _ | failureTotalled _ _ => none

/-- The flag that a call will store, in this step or a later one. -/
def verdict : PendingCall → Option Bool
  | successCounted threshold count | successCleared threshold count =>
      if count ≥ threshold then some true else none
  | failureCounted threshold count | failureCleared threshold count
  | failureTotalled threshold count => if count ≥ threshold then some false else none

/-- The flag that a call stores in its next step. -/
def stores (call : PendingCall) : Option Bool :=
  match call.next with
  | some _ => none
  | none => call.verdict

variable {call call' : PendingCall}

theorem countOf_effect (st : OriginState) (call : PendingCall) (flag : Bool) :
    (call.effect st).countOf flag = if call.clears = some flag then 0 else st.countOf flag := by
  cases call with
  | successCounted => cases flag <;> rfl
  | failureCounted => cases flag <;> rfl
  | failureCleared => cases flag <;> rfl
  | successCleared threshold count =>
    rw [effect]
    split <;> cases flag <;> rfl
  | failureTotalled threshold count =>
    rw [effect]
    split <;> cases flag <;> rfl

theorem healthy_effect (st : OriginState) (call : PendingCall) :
    (call.effect st).healthy = call.stores.getD st.healthy := by
  cases call with
  | successCounted => rfl
  | failureCounted => rfl
  | failureCleared => rfl
  | successCleared threshold count =>
    simp only [effect, stores, next, verdict]
    split <;> rfl
  | failureTotalled threshold count =>
    simp only [effect, stores, next, verdict]
    split <;> rfl

/-- After its first step a call keeps its verdict, and has nothing left to clear. -/
theorem verdict_clears_of_next (h : call.next = some call') :
    call'.verdict = call.verdict ∧ call'.clears = none := by
  cases call with
  | successCounted => cases h; exact ⟨rfl, rfl⟩
  | failureCounted => cases h; exact ⟨rfl, rfl⟩
  | failureCleared => cases h; exact ⟨rfl, rfl⟩
  | successCleared => cases h
  | failureTotalled => cases h

theorem verdict_of_stores {flag : Bool} (h : call.stores = some flag) :
    call.verdict = some flag := by
  rw [stores] at h
  split at h
  · cases h
  · exact h

theorem clears_of_stores {flag : Bool} (h : call.stores = some flag) : call.clears = none := by
  cases call with
  | successCounted => cases h
  | failureCounted => cases h
  | successCleared => rfl
  | failureCleared => rfl
  | failureTotalled => rfl

theorem stores_of_verdict {flag : Bool} (h : call.verdict = some flag) :
    call.stores = some flag ∨ ∃ call', call.next = some call' ∧ call'.verdict = some flag := by
  cases hnext : call.next with
  | none =>
    rw [stores, hnext]
    exact Or.inl h
  | some call' => exact Or.inr ⟨call', rfl, (verdict_clears_of_next hnext).1.trans h⟩

/-- How many steps are left of a call. -/
def remaining : PendingCall → Nat
  | successCounted _ _ | failureCleared _ _ => 2
  | failureCounted _ _ => 3
  | successCleared _ _ | failureTotalled _ _ => 1

theorem remaining_next (call : PendingCall) :
    (call.next.toList.map remaining).sum < call.remaining := by
  cases call <;> exact Nat.lt_succ_self _

end PendingCall

namespace HealthRace

/-! ## Cleared counters -/

/-- Both counters are positive only while some call owes a clearing store. -/
def ClearedOrOwed (s : HealthRace) : Prop :=
  s.origin.consecutiveSuccesses = 0 ∨ s.origin.consecutiveFailures = 0 ∨
    ∃ c ∈ s.calls, c.clears.isSome

theorem clearedOrOwed_step {s t : HealthRace} {e : RaceEvent} (h : s.ClearedOrOwed)
    (hstep : step s e = some t) : t.ClearedOrOwed := by
  cases e with
  | begin call =>
    -- the new call itself owes a store
    cases hstep
    refine Or.inr (Or.inr ?_)
    cases call with
    | success threshold => exact ⟨_, List.mem_cons_self, rfl⟩
    | failure threshold => exact ⟨_, List.mem_cons_self, rfl⟩
  | advance call =>
    obtain ⟨-, rfl⟩ := step_advance_eq_some.1 hstep
    have hcount := PendingCall.countOf_effect s.origin call
    cases hclears : call.clears with
    | some flag =>
      have hzero : (call.effect s.origin).countOf flag = 0 := by rw [hcount, hclears, if_pos rfl]
      cases flag with
      | true => exact Or.inl hzero
      | false => exact Or.inr (Or.inl hzero)
    | none =>
      -- neither counter changes, and the store is owed by another call
      simp only [hclears, reduceCtorEq, if_false] at hcount
      refine h.imp (fun h => (hcount true).trans h) (Or.imp (fun h => (hcount false).trans h) ?_)
      intro howed
      exact exists_advance howed fun hown => by simp [hclears] at hown

/-- **One of the counters is zero whenever no call is in progress.** -/
theorem counter_zero_of_quiescent (es : List RaceEvent) (s : HealthRace)
    (hrun : run step fresh es = some s) (hquiescent : s.calls = []) :
    s.origin.consecutiveSuccesses = 0 ∨ s.origin.consecutiveFailures = 0 := by
  have hreaches : Reaches step (fun _ => True) fresh s := ⟨es, fun _ _ => trivial, hrun⟩
  have hinv : s.ClearedOrOwed :=
    hreaches.invariant (fun s e t h _ => clearedOrOwed_step h) (Or.inl rfl)
  rcases hinv with h | h | ⟨c, hc, -⟩
  · exact Or.inl h
  · exact Or.inr h
  · rw [hquiescent] at hc
    cases hc

/-- A success that has counted and cleared stores its verdict only after a whole failure. -/
def lateVerdict : List RaceEvent :=
  [.begin (.success 1), .advance (.successCounted 1 1), .begin (.failure 1),
    .advance (.failureCounted 1 1), .advance (.failureCleared 1 1),
    .advance (.failureTotalled 1 1), .advance (.successCleared 1 1)]

theorem run_lateVerdict :
    run step fresh lateVerdict =
      some ⟨{ OriginState.new with consecutiveFailures := 1, totalFailures := 1 }, []⟩ := by
  decide

theorem counter_zero_of_lateVerdict :
    ({ OriginState.new with consecutiveFailures := 1, totalFailures := 1 } :
        OriginState).consecutiveSuccesses = 0 ∨
      ({ OriginState.new with consecutiveFailures := 1, totalFailures := 1 } :
        OriginState).consecutiveFailures = 0 :=
  counter_zero_of_quiescent lateVerdict _ run_lateVerdict rfl

/-! ## Verdicts and counters -/

/-- Of a fresh origin's thresholds: the one for successes and the one for failures. -/
def thresholdOf (st ft : UInt32) : Bool → UInt32
  | true => st
  | false => ft

/-- The flag says what a counter at its threshold says. -/
def FlagAgrees (st ft : UInt32) (origin : OriginState) : Prop :=
  (origin.consecutiveSuccesses ≥ st → origin.healthy = true) ∧
    (origin.consecutiveFailures ≥ ft → origin.healthy = false)

/-- Some call in progress will still store this flag, or clear the counter that speaks for it. -/
def Owes (s : HealthRace) (flag : Bool) : Prop :=
  (∃ c ∈ s.calls, c.verdict = some flag) ∨ ∃ c ∈ s.calls, c.clears = some flag

/-- A counter at its threshold has its flag, or a call in progress still owes for it. -/
def Accounted (st ft : UInt32) (s : HealthRace) (flag : Bool) : Prop :=
  s.origin.countOf flag ≥ thresholdOf st ft flag → s.origin.healthy = flag ∨ s.Owes flag

/-- A verdict is in time: when it is stored the counter of the other outcome is below its threshold,
or a call in progress still owes for that one. -/
def InTime (st ft : UInt32) (s : HealthRace) : RaceEvent → Prop
  | .begin _ => True
  | .advance call => ∀ flag, call.stores = some (!flag) →
      s.origin.countOf flag ≥ thresholdOf st ft flag → s.Owes flag

instance (s : HealthRace) (flag : Bool) : Decidable (s.Owes flag) :=
  inferInstanceAs (Decidable
    ((∃ c ∈ s.calls, c.verdict = some flag) ∨ ∃ c ∈ s.calls, c.clears = some flag))

instance (st ft : UInt32) (s : HealthRace) : DecidablePred (InTime st ft s)
  | .begin _ => isTrue trivial
  | .advance call => inferInstanceAs (Decidable (∀ flag, call.stores = some (!flag) →
      s.origin.countOf flag ≥ thresholdOf st ft flag → s.Owes flag))

/-- The calls have the thresholds of their outcomes. -/
def Uniform (st ft : UInt32) : RaceEvent → Prop
  | .begin call => call = .success st ∨ call = .failure ft
  | .advance _ => True

instance (st ft : UInt32) : DecidablePred (Uniform st ft)
  | .begin call => inferInstanceAs (Decidable (call = .success st ∨ call = .failure ft))
  | .advance _ => inferInstanceAs (Decidable True)

section Verdicts

variable {st ft : UInt32} {s t : HealthRace} {call : PendingCall} {flag : Bool}

/-- What is owed after a step was owed before it. -/
theorem owes_of_owes_advance (hmem : call ∈ s.calls) (h : (s.advance call).Owes flag) :
    s.Owes flag := by
  rcases h with h | h
  · rcases exists_of_exists_advance h with ⟨c, hnext, hc⟩ | h
    · exact Or.inl ⟨call, hmem, (PendingCall.verdict_clears_of_next hnext).1.symm.trans hc⟩
    · exact Or.inl h
  · rcases exists_of_exists_advance h with ⟨c, hnext, hc⟩ | h
    · rw [(PendingCall.verdict_clears_of_next hnext).2] at hc
      cases hc
    · exact Or.inr h

/-- What is owed stays owed, or the step itself pays it. -/
theorem owes_advance (h : s.Owes flag) :
    (s.advance call).Owes flag ∨ call.stores = some flag ∨ call.clears = some flag := by
  by_cases hclears : call.clears = some flag
  · exact Or.inr (Or.inr hclears)
  by_cases hstores : call.stores = some flag
  · exact Or.inr (Or.inl hstores)
  refine Or.inl (h.imp (fun h => ?_) (fun h => ?_))
  · exact exists_advance h fun hown =>
      (PendingCall.stores_of_verdict hown).resolve_left hstores
  · exact exists_advance h fun hown => absurd hown hclears

/-- A counter at its threshold after a step was not cleared by it. -/
theorem reached_of_reached_advance (hst : 0 < st) (hft : 0 < ft)
    (h : (s.advance call).origin.countOf flag ≥ thresholdOf st ft flag) :
    call.clears ≠ some flag ∧ s.origin.countOf flag ≥ thresholdOf st ft flag := by
  have hcount : (s.advance call).origin.countOf flag =
    if call.clears = some flag then 0 else s.origin.countOf flag :=
      PendingCall.countOf_effect s.origin call flag
  have hpos : 0 < thresholdOf st ft flag := by
    cases flag with
    | true => exact hst
    | false => exact hft
  rw [hcount] at h
  by_cases hclears : call.clears = some flag
  · rw [if_pos hclears] at h
    exact absurd hpos (UInt32.not_lt.2 h)
  · rw [if_neg hclears] at h
    exact ⟨hclears, h⟩

theorem countOf_advance_of_ne (h : call.clears ≠ some flag) :
    (s.advance call).origin.countOf flag = s.origin.countOf flag :=
  (PendingCall.countOf_effect s.origin call flag).trans (if_neg h)

/-- **The invariant of a step.** A step keeps the counters accounted for exactly if it is in
time. -/
theorem accounted_advance_iff (hst : 0 < st) (hft : 0 < ft) (h : ∀ flag, s.Accounted st ft flag)
    (hmem : call ∈ s.calls) :
    InTime st ft s (.advance call) ↔ ∀ flag, (s.advance call).Accounted st ft flag := by
  have hhealthy : (s.advance call).origin.healthy = call.stores.getD s.origin.healthy :=
    PendingCall.healthy_effect s.origin call
  constructor
  · intro htime flag hreached
    obtain ⟨hclears, hbefore⟩ := reached_of_reached_advance hst hft hreached
    by_cases hstores : call.stores = some flag
    · rw [hstores] at hhealthy
      exact Or.inl hhealthy
    -- what is owed for the counter is not paid by this step
    have howes : s.Owes flag → (s.advance call).Owes flag := fun howes =>
      (owes_advance howes).resolve_right (not_or.2 ⟨hstores, hclears⟩)
    cases hother : call.stores with
    | some stored =>
      have hnot : stored = !flag := by
        rw [Bool.eq_not]
        intro heq
        exact hstores (hother.trans (congrArg some heq))
      exact Or.inr (howes (htime flag (hother.trans (congrArg some hnot)) hbefore))
    | none =>
      rw [hother] at hhealthy
      rcases h flag hbefore with hflag | howed
      · exact Or.inl (hhealthy.trans hflag)
      · exact Or.inr (howes howed)
  · intro hafter flag hstores hreached
    have hclears : call.clears ≠ some flag := by
      rw [PendingCall.clears_of_stores hstores]
      exact Option.some_ne_none flag |>.symm
    rw [hstores] at hhealthy
    -- the stored flag is the other one, so the counter must be owed for
    rcases hafter flag ((countOf_advance_of_ne hclears).symm ▸ hreached) with hflag | howed
    · exact absurd (hhealthy.symm.trans hflag) (Bool.not_ne_self flag)
    · exact owes_of_owes_advance hmem howed

/-- A counter that is not accounted for stays so until a new call begins. -/
theorem not_accounted_advance (hmem : call ∈ s.calls) (h : ¬ s.Accounted st ft flag) :
    ¬ (s.advance call).Accounted st ft flag := by
  have hhealthy : (s.advance call).origin.healthy = call.stores.getD s.origin.healthy :=
    PendingCall.healthy_effect s.origin call
  obtain ⟨hreached, hnot⟩ := Classical.not_imp.1 h
  obtain ⟨hflag, howed⟩ := not_or.1 hnot
  have hclears : call.clears ≠ some flag := fun hclears => howed (Or.inr ⟨call, hmem, hclears⟩)
  have hstores : call.stores ≠ some flag := fun hstores =>
    howed (Or.inl ⟨call, hmem, PendingCall.verdict_of_stores hstores⟩)
  intro hafter
  rcases hafter ((countOf_advance_of_ne hclears).symm ▸ hreached) with hflag' | howed'
  · rw [hhealthy] at hflag'
    cases hstored : call.stores with
    | some stored =>
      rw [hstored] at hflag'
      exact hstores (hstored.trans (congrArg some hflag'))
    | none =>
      rw [hstored] at hflag'
      exact hflag hflag'
  · exact howed (owes_of_owes_advance hmem howed')

/-- A call that begins owes for both counters. -/
theorem accounted_begin {new : HealthCall} (hnew : new = .success st ∨ new = .failure ft)
    (flag : Bool) : (s.begin new).Accounted st ft flag := by
  intro hreached
  rcases hnew with rfl | rfl
  · cases flag with
    | true => exact Or.inr (Or.inl ⟨_, List.mem_cons_self, if_pos hreached⟩)
    | false => exact Or.inr (Or.inr ⟨_, List.mem_cons_self, rfl⟩)
  · cases flag with
    | true => exact Or.inr (Or.inr ⟨_, List.mem_cons_self, rfl⟩)
    | false => exact Or.inr (Or.inl ⟨_, List.mem_cons_self, if_pos hreached⟩)

/-- When no call is in progress, the counters are accounted for exactly if the flag agrees. -/
theorem accounted_iff_of_quiescent (h : s.calls = []) :
    (∀ flag, s.Accounted st ft flag) ↔ FlagAgrees st ft s.origin := by
  have howes : ∀ flag, ¬ s.Owes flag := by
    intro flag
    simp [Owes, h]
  simp only [Accounted, howes, or_false, Bool.forall_bool]
  exact and_comm

end Verdicts

/-! ## Runs -/

/-- The calls in progress can return. -/
theorem exists_finish (s : HealthRace) :
    ∃ (finish : List PendingCall) (t : HealthRace),
      run step s (finish.map .advance) = some t ∧ t.calls = [] := by
  -- on the number of steps that are left
  induction hn : (s.calls.map PendingCall.remaining).sum using Nat.strong_induction_on
    generalizing s with
  | _ n ih =>
    cases hcalls : s.calls with
    | nil => exact ⟨[], s, rfl, hcalls⟩
    | cons call rest =>
      have hmem : call ∈ s.calls := by rw [hcalls]; exact List.mem_cons_self
      have hnext : (s.advance call).calls = call.next.toList ++ rest := by
        rw [advance, hcalls, List.erase_cons_head]
      have hless : ((s.advance call).calls.map PendingCall.remaining).sum < n := by
        have hcall := PendingCall.remaining_next call
        rw [hcalls, List.map_cons, List.sum_cons] at hn
        rw [hnext, List.map_append, List.sum_append]
        omega
      obtain ⟨finish, t, hrun, ht⟩ := ih _ hless (s.advance call) rfl
      exact ⟨call :: finish, t,
        run_cons_eq_some.2 ⟨_, step_advance_eq_some.2 ⟨hmem, rfl⟩, hrun⟩, ht⟩

theorem not_accounted_finish {st ft : UInt32} {flag : Bool} {s t : HealthRace}
    {finish : List PendingCall} (h : ¬ s.Accounted st ft flag)
    (hrun : run step s (finish.map .advance) = some t) : ¬ t.Accounted st ft flag := by
  induction finish generalizing s with
  | nil =>
    cases hrun
    exact h
  | cons call finish ih =>
    obtain ⟨u, hu, hrun⟩ := run_cons_eq_some.1 hrun
    obtain ⟨hmem, rfl⟩ := step_advance_eq_some.1 hu
    exact ih (not_accounted_advance hmem h) hrun

/-- The counters are accounted for all along a run exactly if its verdicts are in time. -/
theorem along_iff_throughout_accounted {st ft : UInt32} (hst : 0 < st) (hft : 0 < ft)
    {es : List RaceEvent} (hes : ∀ e ∈ es, Uniform st ft e) {s : HealthRace}
    (hrun : run step fresh es = some s) :
    Along step (InTime st ft) fresh es ↔
      Throughout step (fun s => ∀ flag, s.Accounted st ft flag) fresh es := by
  have hfresh : FlagAgrees st ft fresh.origin :=
    ⟨fun _ => rfl, fun hreached => absurd hft (UInt32.not_lt.2 hreached)⟩
  have hside : Along step (fun _ e => Uniform st ft e) fresh es := along_of_forall hes
  refine along_iff_throughout_of_along (J := fun _ => True) (fun _ _ _ _ _ _ _ => trivial) ?_
    trivial ((accounted_iff_of_quiescent rfl).2 hfresh) hside hrun
  intro s e t _ h huniform hstep
  cases e with
  | begin call =>
    cases hstep
    exact iff_of_true trivial (accounted_begin huniform)
  | advance call =>
    obtain ⟨hmem, rfl⟩ := step_advance_eq_some.1 hstep
    exact accounted_advance_iff hst hft h hmem

/-- **When the flag agrees with the counters.** In a run whose verdicts are all in time, flag and
counters agree whenever no call is in progress. A verdict that is not in time is the end of that:
the calls in progress can return, and in whichever order they do, flag and counters disagree. -/
theorem flagAgrees_of_along (st ft : UInt32) (hst : 1 ≤ st) (hft : 1 ≤ ft) (es : List RaceEvent)
    (hes : ∀ e ∈ es, Uniform st ft e) (s : HealthRace) (hrun : run step fresh es = some s) :
    (Along step (InTime st ft) fresh es → s.calls = [] → FlagAgrees st ft s.origin) ∧
      (Along step (InTime st ft) fresh es → ∀ call ∈ s.calls, ¬ InTime st ft s (.advance call) →
        (∃ (finish : List PendingCall) (t : HealthRace),
          run step (s.advance call) (finish.map .advance) = some t ∧ t.calls = []) ∧
        ∀ (finish : List PendingCall) (t : HealthRace),
          run step (s.advance call) (finish.map .advance) = some t → t.calls = [] →
          ¬ FlagAgrees st ft t.origin) := by
  have hpos : ∀ {threshold : UInt32}, 1 ≤ threshold → 0 < threshold := fun h =>
    UInt32.lt_of_lt_of_le (by decide) h
  have haccounted : Along step (InTime st ft) fresh es → ∀ flag, s.Accounted st ft flag := by
    intro htime
    exact ((along_iff_throughout_accounted (hpos hst) (hpos hft) hes hrun).1 htime).last hrun
  refine ⟨fun htime hcalls => ?_, fun htime call hmem hlate => ⟨exists_finish _, ?_⟩⟩
  · exact (accounted_iff_of_quiescent hcalls).1 (haccounted htime)
  · intro finish t hfinish hcalls hagrees
    have hnot : ¬ ∀ flag, (s.advance call).Accounted st ft flag := fun h =>
      hlate ((accounted_advance_iff (hpos hst) (hpos hft) (haccounted htime) hmem).2 h)
    obtain ⟨flag, hflag⟩ := not_forall.1 hnot
    exact not_accounted_finish hflag hfinish ((accounted_iff_of_quiescent hcalls).2 hagrees flag)

/-- A success that has counted and cleared stores its verdict while a failure is in progress, which
overrules it. -/
def overruledVerdict : List RaceEvent :=
  [.begin (.success 1), .advance (.successCounted 1 1), .begin (.failure 1),
    .advance (.successCleared 1 1), .advance (.failureCounted 1 1),
    .advance (.failureCleared 1 1), .advance (.failureTotalled 1 1)]

theorem flagAgrees_of_overruledVerdict :
    FlagAgrees 1 1
      { OriginState.new with
        consecutiveFailures := 1
        totalFailures := 1
        healthy := false } :=
  (flagAgrees_of_along 1 1 (by decide) (by decide) overruledVerdict (by decide) ⟨_, []⟩
    (by decide)).1 (by decide) rfl

/-- **A late verdict is kept.** -/
theorem not_flagAgrees_of_lateVerdict :
    ¬ ∀ (st ft : UInt32), 1 ≤ st → 1 ≤ ft → ∀ es : List RaceEvent,
      (∀ e ∈ es, Uniform st ft e) → es.countP RaceEvent.begins < 2 ^ 32 →
      ∀ s, run step fresh es = some s → s.calls = [] → FlagAgrees st ft s.origin := by
  intro h
  have hagrees := h 1 1 (by decide) (by decide) lateVerdict (by decide) (by decide) _
    run_lateVerdict rfl
  exact absurd (hagrees.2 (by decide)) (by decide)

end HealthRace

end Upstreamer
