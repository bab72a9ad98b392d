import Upstreamer.Foundations.Rounds
import Upstreamer.System.OriginRecords
import Upstreamer.System.ProbeRounds
import Upstreamer.System.Recovery

/-!
# How fast probes decide

The checker probes its targets one after another, each for no longer than its timeout, and begins a
round at each tick of an interval that catches up on missed ticks. Here the proxy and the loop of
its checker run with a timer, in which time cannot pass a tick or the end of a probe by more than
some slack, as long as the checker lives. The checks are then the periodic rounds of the library
(`projects_rounds`), and the proxy with its checker is the machine as before (`projects_checked`).

So the time in which an origin that goes down or comes back is noticed is bounded
when the checks are live
(`verdict_in_time`): as many paces as its threshold asks for probes, and a round. A pace is the
interval, or the time of a round in which every target runs into its timeout when that is longer. On
the other side no target is probed more often than the interval asks for, however long the probes
have taken (`probes_paced`).
-/

set_option autoImplicit false

namespace Upstreamer

open Foundations

/-- The rounds of `run_active_checks`, in nanoseconds, with a delay of the task of at most
`slack`. -/
def ProxyConfig.probeSchedule (config : ProxyConfig) (slack : ℚ) : Schedule ℚ where
  jobs := (CheckerTask.ofConfig config).targets.length
  period := config.health.active.interval
  limit := config.health.active.timeout
  slack := slack

theorem ProxyConfig.valid_probeSchedule (config : ProxyConfig) {slack : ℚ} (hslack : 0 ≤ slack) :
    (config.probeSchedule slack).Valid where
  zero_le_period := Nat.cast_nonneg _
  zero_le_limit := Nat.cast_nonneg _
  zero_le_slack := hslack

/-- The proxy, the time, and the timer of its checker. -/
structure TimedWorld where
  checked : CheckedWorld
  now : ℚ
  rounds : Rounds ℚ

/-- Time passes, the interval ticks, the checker comes to its next target and its probe ends, or
something else happens. -/
inductive TimedEvent where
  | advance (t : ℚ)
  | tick
  | probe (outcome : ProbeOutcome)
  | other (e : Event)

namespace TimedWorld

def start (env : Externals) (config : ProxyConfig) (t : ℚ) : TimedWorld :=
  ⟨CheckedWorld.start env config, t, Rounds.start t⟩

def step (env : Externals) (uris : UriParser) (sched : Schedule ℚ) (c : TimedWorld) :
    TimedEvent → Option TimedWorld
  | .advance t =>
      match c.checked.checks with
      | some (.ok _) => (c.rounds.step sched (.advance t)).map fun rounds => ⟨c.checked, t, rounds⟩
      -- time waits for no checker that is disabled or dead
      | _ => if c.now ≤ t then some { c with now := t } else none
  | .tick =>
      (CheckedWorld.step env uris c.checked .tick).bind fun checked =>
        (c.rounds.step sched .tick).map fun rounds => ⟨checked, c.now, rounds⟩
  | .probe outcome =>
      (CheckedWorld.step env uris c.checked (.probe outcome)).bind fun checked =>
        match checked.checks with
        | some (.ok _) => (c.rounds.step sched .done).map fun rounds => ⟨checked, c.now, rounds⟩
        | _ => some { c with checked := checked }
  | .other e =>
      (CheckedWorld.step env uris c.checked (.other e)).map fun checked =>
        { c with checked := checked }

/-- What the events do, one constructor for each way a step can go. -/
inductive Moves (env : Externals) (uris : UriParser) (sched : Schedule ℚ) (c : TimedWorld) :
    TimedEvent → TimedWorld → Prop
  | advance {t : ℚ} {n : Nat} {rounds : Rounds ℚ} (hchecks : c.checked.checks = some (.ok n))
      (hrounds : c.rounds.step sched (.advance t) = some rounds) :
      Moves env uris sched c (.advance t) ⟨c.checked, t, rounds⟩
  | unwatched {t : ℚ} (hchecks : ∀ n, c.checked.checks ≠ some (.ok n)) (hle : c.now ≤ t) :
      Moves env uris sched c (.advance t) { c with now := t }
  | tick {task : CheckerTask} {rounds : Rounds ℚ} (htask : c.checked.world.checker = some task)
      (hchecks : c.checked.checks = some (.ok task.targets.length))
      (hrounds : c.rounds.step sched .tick = some rounds) :
      Moves env uris sched c .tick ⟨{ c.checked with checks := some (.ok 0) }, c.now, rounds⟩
  | panicked {task : CheckerTask} {n : Nat} {target : ProbeTarget} {panic : ChecksPanic}
      {outcome : ProbeOutcome} (htask : c.checked.world.checker = some task)
      (hchecks : c.checked.checks = some (.ok n)) (htarget : task.targets[n]? = some target)
      (hrequest : probeRequest uris target = .error panic) :
      Moves env uris sched c (.probe outcome)
        { c with checked := { c.checked with checks := some (.error panic) } }
  | probed {task : CheckerTask} {n : Nat} {target : ProbeTarget} {uri : Uri}
      {outcome : ProbeOutcome} {rounds : Rounds ℚ} (htask : c.checked.world.checker = some task)
      (hchecks : c.checked.checks = some (.ok n)) (htarget : task.targets[n]? = some target)
      (hrequest : probeRequest uris target = .ok uri)
      (hrounds : c.rounds.step sched .done = some rounds) :
      Moves env uris sched c (.probe outcome)
        ⟨⟨{ c.checked.world with app := c.checked.world.app.finishProbe task target outcome },
          some (.ok (n + 1))⟩, c.now, rounds⟩
  | other {e : Event} {checked : CheckedWorld}
      (hstep : CheckedWorld.step env uris c.checked (.other e) = some checked) :
      Moves env uris sched c (.other e) { c with checked := checked }

theorem moves_of_step {env : Externals} {uris : UriParser} {sched : Schedule ℚ}
    {c c' : TimedWorld} {d : TimedEvent} (h : step env uris sched c d = some c') :
    Moves env uris sched c d c' := by
  cases d with
  | advance t =>
    simp only [step] at h
    split at h
    · next n hchecks =>
      obtain ⟨rounds, hrounds, rfl⟩ := Option.map_eq_some_iff.1 h
      exact .advance hchecks hrounds
    · next hchecks =>
      split at h
      · next hle =>
        obtain rfl := Option.some.inj h
        exact .unwatched hchecks hle
      · cases h
  | tick =>
    obtain ⟨checked, hchecked, h⟩ := Option.bind_eq_some_iff.1 h
    obtain ⟨rounds, hrounds, rfl⟩ := Option.map_eq_some_iff.1 h
    cases CheckedWorld.moves_of_step hchecked with
    | tick htask hchecks => exact .tick htask hchecks hrounds
  | probe outcome =>
    obtain ⟨checked, hchecked, h⟩ := Option.bind_eq_some_iff.1 h
    cases CheckedWorld.moves_of_step hchecked with
    | panicked htask hchecks htarget hrequest =>
      obtain rfl := Option.some.inj h
      exact .panicked htask hchecks htarget hrequest
    | probed htask hchecks htarget hrequest =>
      obtain ⟨rounds, hrounds, rfl⟩ := Option.map_eq_some_iff.1 h
      exact .probed htask hchecks htarget hrequest hrounds
  | other e =>
    obtain ⟨checked, hchecked, rfl⟩ := Option.map_eq_some_iff.1 h
    exact .other hchecked

/-- The event of the proxy and its checker that the timed event is. -/
def checkedEvent (_ : TimedWorld) : TimedEvent → Option CheckedEvent
  | .advance _ => none
  | .tick => some .tick
  | .probe outcome => some (.probe outcome)
  | .other e => some (.other e)

/-- The event of the proxy that the timed event is. -/
def worldEvent (uris : UriParser) (c : TimedWorld) (d : TimedEvent) : Option Event :=
  (c.checkedEvent d).bind (c.checked.worldEvent uris)

/-- The event of the rounds that the timed event is. -/
def roundEvent (uris : UriParser) (c : TimedWorld) : TimedEvent → Option (RoundEvent ℚ)
  | .advance t =>
      match c.checked.checks with
      | some (.ok _) => some (.advance t)
      | _ => none
  | .tick => some .tick
  | .probe outcome => (c.checked.worldEvent uris (.probe outcome)).map fun _ => .done
  | .other _ => none

section Projections

variable (env : Externals) (uris : UriParser) (sched : Schedule ℚ)

/-- **The proxy beside the time is the proxy with its checker.** -/
theorem projects_checked :
    Projects (CheckedWorld.step env uris) (step env uris sched) TimedWorld.checked
      checkedEvent := by
  intro c d c' h
  cases moves_of_step h with
  | advance _ _ => rfl
  | unwatched _ _ => rfl
  | tick htask hchecks _ => exact run_single (CheckedWorld.step_of_moves (.tick htask hchecks))
  | panicked htask hchecks htarget hrequest =>
    exact run_single (CheckedWorld.step_of_moves (.panicked htask hchecks htarget hrequest))
  | probed htask hchecks htarget hrequest _ =>
    exact run_single (CheckedWorld.step_of_moves (.probed htask hchecks htarget hrequest))
  | other hstep => exact run_single hstep

theorem projects_world :
    Projects (World.step env) (step env uris sched) (fun c => c.checked.world)
      (worldEvent uris) :=
  (CheckedWorld.projects_world env uris).comp (projects_checked env uris sched)

/-- **The checks are the periodic rounds.** -/
theorem projects_rounds :
    Projects (Rounds.step sched) (step env uris sched) TimedWorld.rounds (roundEvent uris) := by
  intro c d c' h
  cases moves_of_step h with
  | advance hchecks hrounds =>
    rw [roundEvent, hchecks]
    exact run_single hrounds
  | @unwatched t hchecks _ =>
    have hevent : roundEvent uris c (.advance t) = none := by
      simp only [roundEvent]
    rw [hevent]
    rfl
  | tick _ _ hrounds => exact run_single hrounds
  | panicked htask hchecks htarget hrequest =>
    rw [roundEvent, CheckedWorld.worldEvent_panicked htask hchecks htarget hrequest,
      Option.map_none]
    rfl
  | probed htask hchecks htarget hrequest hrounds =>
    rw [roundEvent, CheckedWorld.worldEvent_probed htask hchecks htarget hrequest]
    exact run_single hrounds
  | other _ => rfl

end Projections

/-- The event is the end of a probe of the target at the position. -/
def probesTarget (uris : UriParser) (j : Nat) (c : TimedWorld) : TimedEvent → Bool
  | .probe outcome => (c.checked.worldEvent uris (.probe outcome)).any fun e => e.probed == some j
  | _ => false

/-- What the event records for the key. -/
def outcomeFor (uris : UriParser) (key : String) (c : TimedWorld) (d : TimedEvent) :
    Option OriginRecord :=
  (c.worldEvent uris d).bind (c.checked.world.outcomeFor key)

/-- The event gives the origin no outcome but one that speaks for the flag, with a threshold of at
most `k`. -/
def DecidesAt (uris : UriParser) (key : String) (healthy : Bool) (k : Nat) (c : TimedWorld)
    (d : TimedEvent) : Prop :=
  ∀ r ∈ outcomeFor uris key c d, r.call.Decides healthy k

instance (uris : UriParser) (key : String) (healthy : Bool) (k : Nat) (c : TimedWorld)
    (d : TimedEvent) : Decidable (DecidesAt uris key healthy k c d) :=
  inferInstanceAs (Decidable (∀ r ∈ outcomeFor uris key c d, r.call.Decides healthy k))

section Timing

variable {env : Externals} {uris : UriParser} {config : ProxyConfig} {slack t₀ : ℚ}
  {c c' last : TimedWorld} {d : TimedEvent} {before events : List TimedEvent} {j : Nat}
  {key : String}

/-! ## The timer and the loop -/

/-- The timer is at the job that is the target the loop is at, and it has the time as long as the
checker lives. -/
structure InTime (config : ProxyConfig) (c : TimedWorld) : Prop where
  loop : CheckedWorld.InLoop config c.checked
  le_now : c.rounds.now ≤ c.now
  now_eq : ∀ n, c.checked.checks = some (.ok n) → c.rounds.now = c.now
  busy_eq : ∀ n, c.checked.checks = some (.ok n) → c.rounds.busy.map Prod.fst =
    if n < (CheckerTask.ofConfig config).targets.length then some n else none

theorem inTime_start (env : Externals) (config : ProxyConfig) (t : ℚ) :
    InTime config (start env config t) where
  loop := CheckedWorld.inLoop_start env config
  le_now := le_rfl
  now_eq := fun _ _ => rfl
  busy_eq := fun n hn => by
    -- the loop begins between two rounds
    have hlength : n = (CheckerTask.ofConfig config).targets.length := by
      rw [start, CheckedWorld.start, CheckerTask.start] at hn
      split at hn
      · rw [Option.map_some, tokioInterval] at hn
        split at hn
        · cases hn
        · cases hn
          rfl
      · cases hn
    rw [hlength, if_neg (lt_irrefl _)]
    rfl

theorem inTime_step (hc : InTime config c)
    (h : step env uris (config.probeSchedule slack) c d = some c') : InTime config c' := by
  have hloop : CheckedWorld.InLoop config c'.checked :=
    (projects_checked env uris _).invariant (I := CheckedWorld.InLoop config)
      (fun _ _ _ hI h => CheckedWorld.inLoop_step hI h) hc.loop h
  cases moves_of_step h with
  | advance hchecks hrounds =>
    cases Rounds.moves_of_step hrounds with
    | advance _ _ => exact ⟨hloop, le_rfl, fun _ _ => rfl, hc.busy_eq⟩
  | unwatched hchecks hle =>
    exact ⟨hloop, hc.le_now.trans hle, fun n hn => absurd hn (hchecks n), hc.busy_eq⟩
  | tick htask hchecks hrounds =>
    cases Rounds.moves_of_step hrounds with
    | tick hbusy hdue =>
      refine ⟨hloop, hc.le_now, fun _ _ => hc.now_eq _ hchecks, fun n hn => ?_⟩
      cases hn
      exact apply_ite (Option.map Prod.fst) _ _ _
  | panicked _ _ _ _ =>
    exact ⟨hloop, hc.le_now, fun n hn => (by cases hn), fun n hn => (by cases hn)⟩
  | @probed task n target uri outcome rounds htask hchecks htarget hrequest hrounds =>
    cases Rounds.moves_of_step hrounds with
    | @done i since hbusy =>
      refine ⟨hloop, hc.le_now, fun _ _ => hc.now_eq _ hchecks, fun m hm => ?_⟩
      cases hm
      -- both are at the same target before the step
      have hsame := hc.busy_eq n hchecks
      rw [hbusy, if_pos ((hc.loop.eq_ofConfig htask).1 ▸
        (List.getElem?_eq_some_iff.1 htarget).1)] at hsame
      obtain rfl : i = n := Option.some.inj hsame
      exact apply_ite (Option.map Prod.fst) _ _ _
  | other hstep =>
    cases CheckedWorld.moves_of_step hstep with
    | other _ _ => exact ⟨hloop, hc.le_now, hc.now_eq, hc.busy_eq⟩

theorem inTime_along (hc : InTime config c) (events : List TimedEvent) :
    Throughout (step env uris (config.probeSchedule slack)) (InTime config) c events :=
  throughout_of_along (fun _ _ _ hI (_ : True) h => inTime_step hI h) hc (along_true c events)

theorem inTime_of_run
    (hrun : run (step env uris (config.probeSchedule slack)) (start env config t₀) before =
      some c) : InTime config c :=
  (inTime_along (inTime_start env config t₀) before).last hrun

/-- The target that is probed is the one of the current job. -/
theorem InTime.busy_of_probed (hc : InTime config c) {outcome : ProbeOutcome} {e : Event}
    (he : c.checked.worldEvent uris (.probe outcome) = some e) :
    c.rounds.busy.map Prod.fst = e.probed := by
  obtain ⟨task, n, target, htask, hchecks, htarget, rfl⟩ :=
    CheckedWorld.exists_of_worldEvent_probe he
  rw [hc.busy_eq _ hchecks, if_pos ((hc.loop.eq_ofConfig htask).1 ▸
    (List.getElem?_eq_some_iff.1 htarget).1)]
  rfl

/-- The jobs of the rounds are the probes of the targets. -/
theorem tally_ends_eq (hc : InTime config c) (env : Externals) (uris : UriParser) (slack : ℚ)
    (j : Nat) (events : List TimedEvent) :
    tally (Rounds.step (config.probeSchedule slack)) (Rounds.ends j) c.rounds
        (reports (step env uris (config.probeSchedule slack)) (roundEvent uris) c events) =
      tally (step env uris (config.probeSchedule slack)) (probesTarget uris j) c events := by
  rw [(projects_rounds env uris _).tally c events]
  have hsame : ∀ c d, InTime config c →
      ((roundEvent uris c d).any (Rounds.ends j c.rounds) = true ↔
        probesTarget uris j c d = true) := by
    intro c d hc
    cases d with
    | advance t =>
      simp only [roundEvent, probesTarget]
      split <;> simp [Rounds.ends]
    | tick => simp [roundEvent, probesTarget, Rounds.ends]
    | other e => simp [roundEvent, probesTarget]
    | probe outcome =>
      cases he : c.checked.worldEvent uris (.probe outcome) with
      | none => simp [roundEvent, probesTarget, he]
      | some e =>
        have hbusy := hc.busy_of_probed he
        rw [roundEvent, probesTarget, he, Option.map_some, Option.any_some, Option.any_some,
          Rounds.ends, ← hbusy]
        cases c.rounds.busy with
        | none => simp
        | some job => simp
  exact le_antisymm
    (tally_le ((along_congr (fun c d hc => iff_of_true trivial (hsame c d hc).1)
      (inTime_along hc events)).1 (along_true c events)))
    (tally_le ((along_congr (fun c d hc => iff_of_true trivial (hsame c d hc).2)
      (inTime_along hc events)).1 (along_true c events)))

/-- Every probe of a target is an outcome of the origin under its key. -/
theorem tally_probes_le (hc : InTime config c) (env : Externals) (uris : UriParser) (slack : ℚ)
    {target : ProbeTarget} (htarget : (CheckerTask.ofConfig config).targets[j]? = some target)
    (events : List TimedEvent) :
    tally (step env uris (config.probeSchedule slack)) (probesTarget uris j) c events ≤
      (reports (step env uris (config.probeSchedule slack)) (outcomeFor uris target.base) c
        events).length := by
  have hrecorded : ∀ c d, InTime config c → probesTarget uris j c d = true →
      ((outcomeFor uris target.base c d).any fun _ => true) = true := by
    intro c d hc hprobes
    cases d with
    | probe outcome =>
      obtain ⟨e, he, hi⟩ := (Option.any_eq_true _ _).1 hprobes
      obtain ⟨task, n, target', htask, hchecks, htarget', rfl⟩ :=
        CheckedWorld.exists_of_worldEvent_probe he
      obtain rfl : n = j := Option.some.inj (eq_of_beq hi)
      obtain rfl := (hc.loop.eq_ofConfig htask).1
      simp only [outcomeFor, worldEvent, checkedEvent, Option.bind_some, he, World.outcomeFor,
        htask, htarget, if_true, Option.any_some]
    | _ => cases hprobes
  refine (tally_le ?_).trans ((countP_reports (outcomeFor uris target.base) (fun _ => true) c
    events).symm.trans_le List.countP_le_length)
  exact (along_congr (fun c d hc => iff_of_true trivial (hrecorded c d hc))
    (inTime_along hc events)).1 (along_true c events)

/-- The rounds are on time in every run from the start. -/
theorem onTime_of_run (hslack : 0 ≤ slack)
    (hrun : run (step env uris (config.probeSchedule slack)) (start env config t₀) before =
      some c) : Rounds.OnTime (config.probeSchedule slack) c.rounds := by
  have hvalid := config.valid_probeSchedule hslack
  have hreaches : Reaches (Rounds.step (config.probeSchedule slack)) (fun _ => True)
      (Rounds.start t₀) c.rounds := ⟨_, fun _ _ => trivial, (projects_rounds env uris _).run hrun⟩
  exact hreaches.invariant (fun s e t hs _ h => Rounds.onTime_step hvalid hs h)
    (Rounds.onTime_start hvalid t₀)

/-- The timer has the time when the checks are live. -/
theorem now_eq_of_run (henabled : config.health.active.enabled = true)
    (hlive : CheckedWorld.ChecksLive uris config)
    (hrun : run (step env uris (config.probeSchedule slack)) (start env config t₀) before =
      some c) : c.rounds.now = c.now := by
  obtain ⟨n, hn⟩ := hlive.alive henabled ((projects_checked env uris _).run hrun)
  exact (inTime_of_run hrun).now_eq n hn

/-- **Live checks come to each target in every pace**, but for one pace at the beginning and the
rest of a round. -/
theorem now_le_of_live (hslack : 0 ≤ slack) (henabled : config.health.active.enabled = true)
    (hlive : CheckedWorld.ChecksLive uris config)
    (hbefore : run (step env uris (config.probeSchedule slack)) (start env config t₀) before =
      some c)
    (hrun : run (step env uris (config.probeSchedule slack)) c events = some last)
    (hj : j < (CheckerTask.ofConfig config).targets.length) :
    last.now ≤ c.now +
      (tally (step env uris (config.probeSchedule slack)) (probesTarget uris j) c events + 1) *
        (config.probeSchedule slack).pace + (config.probeSchedule slack).span := by
  have hall : run (step env uris (config.probeSchedule slack)) (start env config t₀)
      (before ++ events) = some last := by
    rw [run_append, hbefore, Option.bind_some, hrun]
  have hpaced := Rounds.now_le_of_run (config.valid_probeSchedule hslack) hj
    (onTime_of_run hslack hbefore) ((projects_rounds env uris _).run hrun)
  rwa [tally_ends_eq (inTime_of_run hbefore), now_eq_of_run henabled hlive hbefore,
    now_eq_of_run henabled hlive hall] at hpaced

end Timing

/-- **Every target has its pace.** From the start on a target is probed no more often than intervals
have passed, however long the probes take. Between any two moments live checks probe it in every
pace, but for one at the beginning and the rest of a round. -/
theorem probes_paced (env : Externals) (uris : UriParser) (config : ProxyConfig) (slack t₀ : ℚ)
    (hslack : 0 ≤ slack) (before events : List TimedEvent) (c last : TimedWorld)
    (hbefore : run (step env uris (config.probeSchedule slack)) (start env config t₀) before =
      some c)
    (hrun : run (step env uris (config.probeSchedule slack)) c events = some last) (j : Nat)
    (hj : j < (CheckerTask.ofConfig config).targets.length) :
    tally (step env uris (config.probeSchedule slack)) (probesTarget uris j)
        (start env config t₀) (before ++ events) * (config.health.active.interval : ℚ) ≤
      last.now - t₀ + config.health.active.interval ∧
    (config.health.active.enabled = true → CheckedWorld.ChecksLive uris config →
      last.now ≤ c.now +
        (tally (step env uris (config.probeSchedule slack)) (probesTarget uris j) c events + 1) *
          (config.probeSchedule slack).pace + (config.probeSchedule slack).span) := by
  have hvalid := config.valid_probeSchedule hslack
  have hall : run (step env uris (config.probeSchedule slack)) (start env config t₀)
      (before ++ events) = some last := by
    rw [run_append, hbefore, Option.bind_some, hrun]
  refine ⟨?_, fun henabled hlive => now_le_of_live hslack henabled hlive hbefore hrun hj⟩
  have hfew := Rounds.tally_ends_le hvalid j ((projects_rounds env uris _).run hall)
  rw [← tally_ends_eq (inTime_start env config t₀) env uris slack]
  exact hfew.trans (add_le_add_left (sub_le_sub_right (inTime_of_run hall).le_now _) _)

/-- **A verdict is reached in time.** Suppose that the checks are live and the probes of an origin
are recorded in its history. If from some moment on each of its outcomes, of probes and of requests,
speaks for the same flag with a threshold of at most `k`, then the flag is that one as soon as `k`
paces and a round have passed: an origin that went down is marked unhealthy, one that came back is
marked healthy. -/
theorem verdict_in_time (env : Externals) (uris : UriParser) (config : ProxyConfig) (slack t₀ : ℚ)
    (hslack : 0 ≤ slack) (henabled : config.health.active.enabled = true)
    (hlive : CheckedWorld.ChecksLive uris config) (before events : List TimedEvent)
    (c last : TimedWorld) (key : String) (healthy : Bool) (k : Nat)
    (hbefore : run (step env uris (config.probeSchedule slack)) (start env config t₀) before =
      some c)
    (hkey : key ∈ c.checked.world.app.originStates) (hprobed : key ∈ config.probeKeys)
    (hpos : 1 ≤ k)
    (hrun : run (step env uris (config.probeSchedule slack)) c events = some last)
    (hdecides : Along (step env uris (config.probeSchedule slack))
      (DecidesAt uris key healthy k) c events)
    (hlong : c.now + k * (config.probeSchedule slack).pace + (config.probeSchedule slack).span <
      last.now) :
    ∃ st, last.checked.world.app.originStates.lookup key = some st ∧ st.healthy = healthy := by
  obtain ⟨target, hmem, rfl⟩ := List.mem_map.1 hprobed
  obtain ⟨j, htarget⟩ := List.getElem?_of_mem hmem
  have hj := (List.getElem?_eq_some_iff.1 htarget).1
  have hpaced := now_le_of_live hslack henabled hlive hbefore hrun hj
  have hrecorded := tally_probes_le (inTime_of_run hbefore) env uris slack htarget events
  -- the time that has passed needs more than `k` paces
  have hprobes : k ≤ tally (step env uris (config.probeSchedule slack)) (probesTarget uris j) c
      events := by
    by_contra hfew
    have hle : ((tally (step env uris (config.probeSchedule slack)) (probesTarget uris j) c events :
        ℚ) + 1) ≤ k := by
      exact_mod_cast Nat.succ_le_of_lt (not_le.1 hfew)
    have hpace := mul_le_mul_of_nonneg_right hle
      (Rounds.Schedule.zero_le_pace (config.valid_probeSchedule hslack))
    linarith
  have hreports : reports (World.step env) (World.outcomeFor target.base) c.checked.world
      (reports (step env uris (config.probeSchedule slack)) (worldEvent uris) c events) =
        reports (step env uris (config.probeSchedule slack)) (outcomeFor uris target.base) c
          events :=
    (projects_world env uris _).reports c events
  refine World.healthy_eq_of_streak ((projects_world env uris _).run hbefore) hkey hpos
    ((projects_world env uris _).run hrun) ?_ ?_
  · rw [hreports]
    exact forall_mem_reports hdecides
  · rw [hreports]
    exact hprobes.trans hrecorded

/-- Four rounds in which the probe of the only target fails, and six seconds more. -/
def fourFailedProbes : List TimedEvent :=
  [.tick, .probe .failed, .advance 10000000000, .tick, .probe .failed, .advance 20000000000,
    .tick, .probe .failed, .advance 30000000000, .tick, .probe .timedOut, .advance 36000000000]

theorem fourFailedProbes_now : (run (step .none .simple (World.pathConfig.probeSchedule 0))
    (start .none World.pathConfig 0) fourFailedProbes).map (fun c => c.now) =
      some 36000000000 := by
  decide +kernel

theorem checksLive_pathConfig : CheckedWorld.ChecksLive .simple World.pathConfig :=
  ⟨by decide, List.forall_mem_singleton.2 (by decide)⟩

/-- The pace of the origin with a path in these rounds. -/
theorem probes_paced_path :
    tally (step .none .simple (World.pathConfig.probeSchedule 0)) (probesTarget .simple 0)
        (start .none World.pathConfig 0) ([] ++ fourFailedProbes) * (10000000000 : ℚ) ≤
      36000000000 - 0 + 10000000000 ∧
    (36000000000 : ℚ) ≤ 0 + (tally (step .none .simple (World.pathConfig.probeSchedule 0))
      (probesTarget .simple 0) (start .none World.pathConfig 0) fourFailedProbes + 1) *
        (World.pathConfig.probeSchedule 0).pace + (World.pathConfig.probeSchedule 0).span := by
  obtain ⟨last, hlast, hnow⟩ := Option.map_eq_some_iff.1 fourFailedProbes_now
  obtain ⟨hfew, hmany⟩ := probes_paced .none .simple World.pathConfig 0 0 le_rfl []
    fourFailedProbes _ last rfl hlast 0 (by decide)
  have hmany := hmany rfl checksLive_pathConfig
  rw [hnow] at hfew hmany
  exact ⟨hfew, hmany⟩

/-- The failures of the probes are noticed within thirty-five seconds. -/
theorem verdict_in_time_path :
    ∃ last st, run (step .none .simple (World.pathConfig.probeSchedule 0))
        (start .none World.pathConfig 0) fourFailedProbes = some last ∧
      last.checked.world.app.originStates.lookup "http://127.0.0.1:3000/api" = some st ∧
        st.healthy = false := by
  obtain ⟨last, hlast, hnow⟩ := Option.map_eq_some_iff.1 fourFailedProbes_now
  obtain ⟨st, hst, hunhealthy⟩ := verdict_in_time .none .simple World.pathConfig 0 0 le_rfl rfl
    checksLive_pathConfig [] fourFailedProbes _ last "http://127.0.0.1:3000/api" false 3 rfl
    (by decide) (by decide) (by decide) hlast (by decide +kernel) (by rw [hnow]; decide +kernel)
  exact ⟨last, st, hlast, hst, hunhealthy⟩

end TimedWorld

end Upstreamer
