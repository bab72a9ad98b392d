import Mathlib.Algebra.Order.Field.Basic
import Mathlib.Tactic.Linarith
import Mathlib.Tactic.Ring
import Upstreamer.Foundations.Past

/-!
# Periodic rounds

A task waits for the tick of a timer, does its `n` jobs one after another, and waits again. The
timer catches up on ticks that it has missed: each tick is due one period after the one before it
was due, not after it was taken. A job ends within a limit, and the task is woken within a slack of
the instant at which the timer is due or the job ends, so time cannot pass a tick or the end of a
job by more than that (`Rounds.urgent`).

However slow the jobs are, no more rounds begin than periods have passed since the start
(`tally_begins_le`). And however late the rounds have become, each job is done once in every
`pace`: the longer one of the period and the time that a whole round can take (`now_le_of_run`). The
measure is the instant by which the round begins in which the job is done next (`Rounds.horizon`):
only this job moves it, and by one pace at most.
-/

set_option autoImplicit false

namespace Upstreamer.Foundations

universe u

variable {K : Type u}

/-- The state of the task: the instant, the beginning of the last round, when the next tick is due,
and in a round the job it is at and since when. -/
structure Rounds (K : Type u) where
  now : K
  began : K
  due : K
  busy : Option (Nat × K)

/-- Time passes, the tick is taken, or the current job ends. -/
inductive RoundEvent (K : Type u) where
  | advance (t : K)
  | tick
  | done

/-- How many jobs a round has, the period of the timer, the longest time of a job and the longest
delay of the task. -/
structure Schedule (K : Type u) where
  jobs : Nat
  period : K
  limit : K
  slack : K

variable [Field K] [LinearOrder K]

namespace Rounds

/-- A timer started at the instant is due at once. -/
def start (t : K) : Rounds K := ⟨t, t, t, none⟩

/-- The instant that time cannot pass before the task has moved. -/
def urgent (sched : Schedule K) (s : Rounds K) : K :=
  match s.busy with
  | none => max s.now (s.due + sched.slack)
  | some (_, since) => since + (sched.limit + sched.slack)

def step (sched : Schedule K) (s : Rounds K) : RoundEvent K → Option (Rounds K)
  | .advance t => if s.now ≤ t ∧ t ≤ s.urgent sched then some { s with now := t } else none
  | .tick =>
      match s.busy with
      | none =>
          if s.due ≤ s.now then
            some { s with
              began := s.now
              due := s.due + sched.period
              busy := if 0 < sched.jobs then some (0, s.now) else none }
          else none
      | some _ => none
  | .done =>
      match s.busy with
      | none => none
      | some (i, _) =>
          some { s with busy := if i + 1 < sched.jobs then some (i + 1, s.now) else none }

/-- The event is the end of the job. -/
def ends (j : Nat) (s : Rounds K) : RoundEvent K → Bool
  | .done => s.busy.any fun job => job.1 == j
  | _ => false

/-- The event begins a round. -/
def begins (_ : Rounds K) : RoundEvent K → Bool
  | .tick => true
  | _ => false

/-- The steps of the task, one constructor for each way it can go. -/
inductive Moves (sched : Schedule K) (s : Rounds K) : RoundEvent K → Rounds K → Prop
  | advance {t : K} (hle : s.now ≤ t) (hurgent : t ≤ s.urgent sched) :
      Moves sched s (.advance t) { s with now := t }
  | tick (hbusy : s.busy = none) (hdue : s.due ≤ s.now) :
      Moves sched s .tick { s with
        began := s.now
        due := s.due + sched.period
        busy := if 0 < sched.jobs then some (0, s.now) else none }
  | done {i : Nat} {since : K} (hbusy : s.busy = some (i, since)) :
      Moves sched s .done
        { s with busy := if i + 1 < sched.jobs then some (i + 1, s.now) else none }

theorem moves_of_step {sched : Schedule K} {s t : Rounds K} {e : RoundEvent K}
    (h : step sched s e = some t) : Moves sched s e t := by
  cases e with
  | advance t =>
    simp only [step] at h
    split at h
    · next hnow =>
      obtain rfl := Option.some.inj h
      exact .advance hnow.1 hnow.2
    · cases h
  | tick =>
    simp only [step] at h
    split at h
    · next hbusy =>
      split at h
      · next hdue =>
        obtain rfl := Option.some.inj h
        exact .tick hbusy hdue
      · cases h
    · cases h
  | done =>
    simp only [step] at h
    split at h
    · cases h
    · next hbusy =>
      obtain rfl := Option.some.inj h
      exact .done hbusy

end Rounds

/-! ## The invariant -/

namespace Schedule

/-- The longest time of a job, with the delay after it. -/
def turn (sched : Schedule K) : K := sched.limit + sched.slack

/-- The longest time of a round. -/
def span (sched : Schedule K) : K := sched.jobs * sched.turn

/-- What the rounds take at the most, each of them. -/
def pace (sched : Schedule K) : K := max sched.span (sched.period + sched.slack)

/-- Nothing takes negative time. -/
structure Valid (sched : Schedule K) : Prop where
  zero_le_period : 0 ≤ sched.period
  zero_le_limit : 0 ≤ sched.limit
  zero_le_slack : 0 ≤ sched.slack

end Schedule

namespace Rounds

/-- The next tick is due within a period of the last one that was taken, and the jobs of the round
so far have taken no more than their turns. -/
structure OnTime (sched : Schedule K) (s : Rounds K) : Prop where
  began_le : s.began ≤ s.now
  due_le : s.due ≤ s.began + sched.period
  busy_le : ∀ i since, s.busy = some (i, since) → i < sched.jobs ∧
    since ≤ s.began + i * sched.turn ∧ s.now ≤ since + sched.turn

/-- The instant by which the round has begun in which the job is done next. -/
def horizon (sched : Schedule K) (j : Nat) (s : Rounds K) : K :=
  match s.busy with
  | none => max s.now (s.due + sched.slack)
  | some (i, _) =>
      if i ≤ j then s.began else max (s.began + sched.span) (s.due + sched.slack)

section Horizon

variable {sched : Schedule K} {s : Rounds K}

theorem horizon_of_idle {j : Nat} (hbusy : s.busy = none) :
    s.horizon sched j = max s.now (s.due + sched.slack) := by
  rw [horizon, hbusy]

theorem horizon_of_le {i j : Nat} {since : K} (hbusy : s.busy = some (i, since)) (hij : i ≤ j) :
    s.horizon sched j = s.began := by
  simp only [horizon, hbusy, if_pos hij]

theorem horizon_of_lt {i j : Nat} {since : K} (hbusy : s.busy = some (i, since)) (hij : j < i) :
    s.horizon sched j = max (s.began + sched.span) (s.due + sched.slack) := by
  simp only [horizon, hbusy, if_neg (Nat.not_le_of_lt hij)]

end Horizon

section OnTime

variable [IsStrictOrderedRing K] {sched : Schedule K} {s t : Rounds K} {e : RoundEvent K}

theorem onTime_start (hsched : sched.Valid) (t : K) : OnTime sched (start t) where
  began_le := le_rfl
  due_le := le_add_of_nonneg_right hsched.zero_le_period
  busy_le := fun _ _ h => by cases h

/-- The jobs up to the one with the number have taken no more than their turns. -/
theorem OnTime.now_le (hs : OnTime sched s) {i : Nat} {since : K}
    (hbusy : s.busy = some (i, since)) : s.now ≤ s.began + (i + 1) * sched.turn := by
  obtain ⟨-, hsince, hnow⟩ := hs.busy_le i since hbusy
  linarith

theorem onTime_step (hsched : sched.Valid) (hs : OnTime sched s) (h : step sched s e = some t) :
    OnTime sched t := by
  have hturn : 0 ≤ sched.turn := add_nonneg hsched.zero_le_limit hsched.zero_le_slack
  cases moves_of_step h with
  | advance hle hurgent =>
    refine ⟨hs.began_le.trans hle, hs.due_le, fun i since hbusy => ?_⟩
    obtain ⟨hi, hsince, -⟩ := hs.busy_le i since hbusy
    have hbusy : s.busy = some (i, since) := hbusy
    rw [urgent, hbusy] at hurgent
    exact ⟨hi, hsince, hurgent⟩
  | tick _ hdue =>
    refine ⟨le_rfl, add_le_add_left hdue _, fun i since hbusy => ?_⟩
    dsimp only at hbusy
    split at hbusy
    · next hjobs =>
      cases hbusy
      exact ⟨hjobs, by simp, le_add_of_nonneg_right hturn⟩
    · cases hbusy
  | @done i since hbusy =>
    refine ⟨hs.began_le, hs.due_le, fun j since' hnext => ?_⟩
    have hnow := hs.now_le hbusy
    dsimp only at hnext
    split at hnext
    · next hjobs =>
      cases hnext
      exact ⟨hjobs, by push_cast; exact hnow, le_add_of_nonneg_right hturn⟩
    · cases hnext

/-! ## How often a job is done -/

theorem OnTime.due_add_slack_le (hs : OnTime sched s) :
    s.due + sched.slack ≤ s.began + sched.pace := by
  have hdue := hs.due_le
  have hpace : sched.period + sched.slack ≤ sched.pace := le_max_right _ _
  linarith

theorem OnTime.now_le_span (hsched : sched.Valid) (hs : OnTime sched s) {i : Nat} {since : K}
    (hbusy : s.busy = some (i, since)) : s.now ≤ s.began + sched.span := by
  have hturn : 0 ≤ sched.turn := add_nonneg hsched.zero_le_limit hsched.zero_le_slack
  have hi : ((i + 1 : Nat) : K) ≤ sched.jobs := Nat.cast_le.2 (hs.busy_le i since hbusy).1
  have hspan : ((i + 1 : Nat) : K) * sched.turn ≤ sched.span :=
    mul_le_mul_of_nonneg_right hi hturn
  have hnow := hs.now_le hbusy
  push_cast at hspan
  linarith

theorem Schedule.zero_le_span (hsched : sched.Valid) : 0 ≤ sched.span :=
  mul_nonneg (Nat.cast_nonneg _) (add_nonneg hsched.zero_le_limit hsched.zero_le_slack)

theorem Schedule.zero_le_pace (hsched : sched.Valid) : 0 ≤ sched.pace :=
  (Schedule.zero_le_span hsched).trans (le_max_left _ _)

/-- The next round with the job begins within a pace of now. -/
theorem OnTime.horizon_le (hsched : sched.Valid) (hs : OnTime sched s) (j : Nat) :
    s.horizon sched j ≤ s.now + sched.pace := by
  have hbegan := hs.began_le
  have hdue := hs.due_add_slack_le
  have hspan : sched.span ≤ sched.pace := le_max_left _ _
  have hpace := Schedule.zero_le_pace hsched
  unfold horizon
  split
  · exact max_le (by linarith) (by linarith)
  · split
    · linarith
    · exact max_le (by linarith) (by linarith)

/-- What is left of the round with the job takes a span at most. -/
theorem OnTime.now_le_horizon (hsched : sched.Valid) (hs : OnTime sched s) (j : Nat) :
    s.now ≤ s.horizon sched j + sched.span := by
  have hspan := Schedule.zero_le_span hsched
  unfold horizon
  split
  · have := le_max_left s.now (s.due + sched.slack)
    linarith
  · next i since hbusy =>
    have hnow := hs.now_le_span hsched hbusy
    split
    · exact hnow
    · have := le_max_left (s.began + sched.span) (s.due + sched.slack)
      linarith

/-- **Only the job itself moves its horizon**, and by one pace at most. -/
theorem horizon_step (hsched : sched.Valid) {j : Nat} (hj : j < sched.jobs) (hs : OnTime sched s)
    (h : step sched s e = some t) :
    t.horizon sched j ≤ s.horizon sched j + if s.ends j e then sched.pace else 0 := by
  have hdue := hs.due_add_slack_le
  have hspan : sched.span ≤ sched.pace := le_max_left _ _
  cases moves_of_step h with
  | @advance t hle hurgent =>
    have hends : s.ends j (.advance t) = false := rfl
    rw [hends, if_neg Bool.false_ne_true, add_zero]
    by_cases hbusy : s.busy = none
    · have hnext : horizon sched j { s with now := t } = max t (s.due + sched.slack) :=
        horizon_of_idle hbusy
      rw [urgent, hbusy] at hurgent
      rw [hnext, horizon_of_idle hbusy]
      exact max_le hurgent (le_max_right _ _)
    · obtain ⟨job, hbusy⟩ := Option.ne_none_iff_exists'.1 hbusy
      simp only [horizon, hbusy, le_refl]
  | tick hbusy hdue =>
    have hends : s.ends j .tick = false := rfl
    rw [hends, if_neg Bool.false_ne_true, add_zero, horizon_of_idle hbusy,
      horizon_of_le (if_pos (Nat.zero_lt_of_lt hj)) (Nat.zero_le j)]
    exact le_max_left _ _
  | @done i since hbusy =>
    have hnow := hs.now_le_span hsched hbusy
    have hends : s.ends j .done = decide (i = j) := by
      rw [ends, hbusy, Option.any_some]
      rfl
    rw [hends]
    by_cases hlast : i + 1 < sched.jobs
    · have hnext : (if i + 1 < sched.jobs then some (i + 1, s.now) else none) =
          some (i + 1, s.now) := if_pos hlast
      rcases lt_trichotomy i j with hij | rfl | hij
      -- the job is still to come in this round
      · rw [horizon_of_le hnext hij, horizon_of_le hbusy hij.le]
        simp [hij.ne]
      -- it is this one, and comes again in the next round
      · rw [horizon_of_lt hnext (Nat.lt_succ_self i), horizon_of_le hbusy le_rfl]
        simp only [decide_true, if_true]
        exact max_le (by linarith) hdue
      -- it was done before in this round
      · rw [horizon_of_lt hnext (Nat.lt_succ_of_lt hij), horizon_of_lt hbusy hij]
        simp [hij.ne']
    · have hidle : (if i + 1 < sched.jobs then some (i + 1, s.now) else none) = none :=
        if_neg hlast
      rw [horizon_of_idle hidle]
      rcases (show j ≤ i by omega).eq_or_lt with rfl | hij
      · rw [horizon_of_le hbusy le_rfl]
        simp only [decide_true, if_true]
        exact max_le (by linarith) hdue
      · rw [horizon_of_lt hbusy hij]
        simp only [hij.ne', decide_false, Bool.false_eq_true, if_false, add_zero]
        exact max_le (hnow.trans (le_max_left _ _)) (le_max_right _ _)

/-- **Each job is done once in every pace.** The time that a run takes is at most one pace for each
time that the job is done in it, one for the beginning and the rest of a round. -/
theorem now_le_of_run (hsched : sched.Valid) {j : Nat} (hj : j < sched.jobs) (hs : OnTime sched s)
    {es : List (RoundEvent K)} (hrun : run (step sched) s es = some t) :
    t.now ≤ s.now + (tally (step sched) (ends j) s es + 1) * sched.pace + sched.span := by
  have hmoved : ∀ (s t : Rounds K) (es : List (RoundEvent K)), OnTime sched s →
      run (step sched) s es = some t → OnTime sched t ∧ t.horizon sched j ≤
        s.horizon sched j + tally (step sched) (ends j) s es * sched.pace := by
    intro s t es
    induction es generalizing s with
    | nil =>
      intro hs hrun
      cases hrun
      exact ⟨hs, by simp [tally]⟩
    | cons e es ih =>
      intro hs hrun
      obtain ⟨u, hu, hrun⟩ := run_cons_eq_some.1 hrun
      obtain ⟨ht, hrest⟩ := ih u (onTime_step hsched hs hu) hrun
      have hfirst := horizon_step hsched hj hs hu
      refine ⟨ht, ?_⟩
      rw [tally_cons hu]
      cases hends : s.ends j e with
      | false =>
        rw [hends, if_neg Bool.false_ne_true] at hfirst
        rw [Bool.toNat_false, Nat.zero_add]
        linarith
      | true =>
        rw [hends, if_pos rfl] at hfirst
        rw [Bool.toNat_true]
        push_cast
        linarith
  obtain ⟨ht, hhorizon⟩ := hmoved s t es hs hrun
  have hnow := ht.now_le_horizon hsched j
  have hstart := hs.horizon_le hsched j
  linarith

/-! ## How often a round begins -/

/-- **No more rounds begin than periods have passed.** -/
theorem tally_begins_le (hsched : sched.Valid) {es : List (RoundEvent K)} {t₀ : K}
    (hrun : run (step sched) (start t₀) es = some t) :
    tally (step sched) begins (start t₀) es * sched.period ≤ t.now - t₀ + sched.period := by
  have hdue : ∀ (s t : Rounds K) (es : List (RoundEvent K)),
      run (step sched) s es = some t →
        t.due = s.due + tally (step sched) begins s es * sched.period := by
    intro s t es
    induction es generalizing s with
    | nil =>
      intro hrun
      cases hrun
      simp [tally]
    | cons e es ih =>
      intro hrun
      obtain ⟨u, hu, hrun⟩ := run_cons_eq_some.1 hrun
      rw [ih u hrun, tally_cons hu]
      cases moves_of_step hu with
      | advance _ _ => simp [begins]
      | tick _ _ =>
        simp only [begins, Bool.toNat_true]
        push_cast
        ring
      | done _ => simp [begins]
  have hontime : OnTime sched t := by
    have hreaches : Reaches (step sched) (fun _ => True) (start t₀) t :=
      ⟨es, fun _ _ => trivial, hrun⟩
    exact hreaches.invariant (fun s e t hs _ h => onTime_step hsched hs h) (onTime_start hsched t₀)
  have hlast := hdue _ t es hrun
  have hle := hontime.due_le
  have hbegan := hontime.began_le
  have hstart : (start t₀).due = t₀ := rfl
  rw [hstart] at hlast
  linarith

end OnTime

/-- Whether the job is still to be done in the round. -/
def ahead (j : Nat) (s : Rounds K) : Bool := s.busy.any fun job => decide (job.1 ≤ j)

/-- A job that ends was ahead, and only the beginning of a round puts it there. -/
theorem ahead_step {sched : Schedule K} {s t : Rounds K} {e : RoundEvent K} (j : Nat)
    (h : step sched s e = some t) :
    (s.ends j e).toNat + (t.ahead j).toNat ≤ (s.begins e).toNat + (s.ahead j).toNat := by
  cases moves_of_step h with
  | advance _ _ => exact le_rfl
  | tick hbusy _ =>
    show 0 + Bool.toNat _ ≤ 1 + Bool.toNat _
    have := Bool.toNat_le (ahead j { s with
      began := s.now
      due := s.due + sched.period
      busy := if 0 < sched.jobs then some (0, s.now) else none })
    omega
  | @done i since hbusy =>
    have hi : (i == j).toNat + (decide (i + 1 ≤ j)).toNat ≤ (decide (i ≤ j)).toNat := by
      rcases lt_trichotomy i j with hij | rfl | hij
      · simp [hij.ne, hij.le, Nat.succ_le_of_lt hij]
      · simp
      · simp [hij.ne', hij.not_ge, (Nat.lt_succ_of_lt hij).not_ge]
    show (s.busy.any fun job => job.1 == j).toNat + _ ≤ 0 + (s.busy.any _).toNat
    rw [hbusy, Option.any_some, Option.any_some, ahead, Nat.zero_add]
    split
    · exact hi
    · exact (Nat.le_add_right _ _).trans hi

/-- **No job is done more often than periods have passed**, however slow the rounds were. -/
theorem tally_ends_le [IsStrictOrderedRing K] {sched : Schedule K} (hsched : sched.Valid)
    {t₀ : K} {t : Rounds K} {es : List (RoundEvent K)} (j : Nat)
    (hrun : run (step sched) (start t₀) es = some t) :
    tally (step sched) (ends j) (start t₀) es * sched.period ≤ t.now - t₀ + sched.period := by
  have hends : ∀ (s t : Rounds K) (es : List (RoundEvent K)), run (step sched) s es = some t →
      tally (step sched) (ends j) s es + (t.ahead j).toNat ≤
        tally (step sched) begins s es + (s.ahead j).toNat := by
    intro s t es
    induction es generalizing s with
    | nil =>
      intro hrun
      cases hrun
      exact le_rfl
    | cons e es ih =>
      intro hrun
      obtain ⟨u, hu, hrun⟩ := run_cons_eq_some.1 hrun
      have hfirst := ahead_step j hu
      have hrest := ih u hrun
      rw [tally_cons hu, tally_cons hu]
      omega
  have hle : tally (step sched) (ends j) (start t₀) es ≤
      tally (step sched) begins (start t₀) es := by
    have hstart : ((start t₀).ahead j).toNat = 0 := rfl
    have := hends _ t es hrun
    omega
  have hcast := mul_le_mul_of_nonneg_right (Nat.cast_le (α := K).2 hle) hsched.zero_le_period
  exact hcast.trans (tally_begins_le hsched hrun)

end Rounds

end Upstreamer.Foundations
