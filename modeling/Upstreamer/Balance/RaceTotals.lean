import Upstreamer.Balance.HealthRaces
import Upstreamer.Foundations.Past

/-!
# Totals under overlapping outcomes

When calls overlap, the flag of an origin may be that of an outcome which was overruled, and a
counter of consecutive outcomes may be cleared by a call that began long before. The total of
failures is different: each failing call adds one to it, with a step that cannot be interrupted,
wherever its steps fall among those of others. So the total and the failing calls that have yet to
add to it make up the failing calls that have begun (`totals_exact`).
-/

set_option autoImplicit false

namespace Upstreamer

open Foundations

/-- The call has yet to add to the total of failures. -/
def PendingCall.owesTotal : PendingCall → Bool
  | failureCounted _ _ | failureCleared _ _ => true
  | successCounted _ _ | successCleared _ _ | failureTotalled _ _ => false

/-- The event begins a call that records a failure. -/
def RaceEvent.beginsFailure : RaceEvent → Bool
  | .begin (.failure _) => true
  | .begin (.success _) | .advance _ => false

namespace PendingCall

/-- **A call pays what it owes once**: with its next step, or with a later one. -/
theorem totalFailures_effect (st : OriginState) (call : PendingCall) :
    ((call.effect st).totalFailures.toNat + call.next.toList.countP owesTotal) % 2 ^ 64 =
      (st.totalFailures.toNat + call.owesTotal.toNat) % 2 ^ 64 := by
  cases call with
  | successCounted threshold count => rfl
  | failureCounted threshold count => rfl
  | failureCleared threshold count =>
    simp [effect, next, owesTotal, UInt64.toNat_add]
  | successCleared threshold count =>
    rw [effect]
    split <;> rfl
  | failureTotalled threshold count =>
    rw [effect]
    split <;> rfl

end PendingCall

namespace HealthRace

variable {s t : HealthRace} {e : RaceEvent}

/-- The total and what is owed to it. -/
def settled (s : HealthRace) : Nat :=
  s.origin.totalFailures.toNat + s.calls.countP PendingCall.owesTotal

/-- What a step does to the total, it does to the debt as well. -/
theorem settled_step (hstep : step s e = some t) :
    t.settled % 2 ^ 64 = (s.settled + e.beginsFailure.toNat) % 2 ^ 64 := by
  cases e with
  | begin call =>
    cases hstep
    cases call with
    | success threshold => rfl
    | failure threshold =>
      simp only [settled, begin, RaceEvent.beginsFailure, List.countP_cons, PendingCall.owesTotal,
        if_true, Bool.toNat_true, Nat.add_assoc]
  | advance call =>
    obtain ⟨hmem, rfl⟩ := step_advance_eq_some.1 hstep
    have hcalls : s.calls.countP PendingCall.owesTotal =
        call.owesTotal.toNat + (s.calls.erase call).countP PendingCall.owesTotal := by
      rw [(List.perm_cons_erase hmem).countP_eq, List.countP_cons, Nat.add_comm]
      cases call.owesTotal <;> rfl
    have heffect := PendingCall.totalFailures_effect s.origin call
    simp only [settled, advance, RaceEvent.beginsFailure, List.countP_append, hcalls,
      Bool.toNat_false]
    omega

/-- **No failure is lost from the total and none is counted twice**, in whatever order the steps of
overlapping calls come. -/
theorem totals_exact (es : List RaceEvent) (s : HealthRace) (hrun : run step fresh es = some s) :
    (s.origin.totalFailures.toNat + s.calls.countP PendingCall.owesTotal) % 2 ^ 64 =
        tally step (fun _ e => e.beginsFailure) fresh es % 2 ^ 64 ∧
      (s.calls = [] → tally step (fun _ e => e.beginsFailure) fresh es < 2 ^ 64 →
        s.origin.totalFailures.toNat = tally step (fun _ e => e.beginsFailure) fresh es) := by
  have hsettled : s.settled % 2 ^ 64 =
      tally step (fun _ e => e.beginsFailure) fresh es % 2 ^ 64 := by
    induction es using List.reverseRecOn generalizing s with
    | nil =>
      cases hrun
      rfl
    | append_singleton es e ih =>
      rw [run_append] at hrun
      obtain ⟨u, hu, hrun⟩ := Option.bind_eq_some_iff.1 hrun
      obtain ⟨v, hv, hvs⟩ := run_cons_eq_some.1 hrun
      cases hvs
      have hstep := settled_step hv
      have hbefore := ih u hu
      rw [tally_concat hu hv]
      omega
  refine ⟨hsettled, fun hquiescent hlt => ?_⟩
  have hbound := s.origin.totalFailures.toNat_lt
  rw [settled, hquiescent, List.countP_nil, Nat.add_zero, Nat.mod_eq_of_lt hbound,
    Nat.mod_eq_of_lt hlt] at hsettled
  exact hsettled

theorem totals_exact_lateVerdict :
    ((1 : UInt64).toNat + ([] : List PendingCall).countP PendingCall.owesTotal) % 2 ^ 64 =
        tally step (fun _ e => e.beginsFailure) fresh lateVerdict % 2 ^ 64 ∧
      (([] : List PendingCall) = [] →
        tally step (fun _ e => e.beginsFailure) fresh lateVerdict < 2 ^ 64 →
        (1 : UInt64).toNat = tally step (fun _ e => e.beginsFailure) fresh lateVerdict) :=
  totals_exact lateVerdict _ run_lateVerdict

end HealthRace

end Upstreamer
