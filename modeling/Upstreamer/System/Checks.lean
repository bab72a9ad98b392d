import Upstreamer.Foundations.Past
import Upstreamer.Health.ProbeUrls
import Upstreamer.System

/-!
# The proxy with the loop of its checker

In the machine of the proxy a probe of any target may end at any time. Here the checker goes through
its loop: a round begins with a tick, its targets are probed in their order, and the task dies of a
zero interval before its first round, or of the first target whose request cannot be built. What it
does beside the other tasks is the loop of the active checks (`reaches_activeChecks`), and the proxy
beside the loop is the machine as before, with fewer runs (`projects_world`).
-/

set_option autoImplicit false

namespace Upstreamer

open Foundations

/-- The proxy, and the position of its checker in the current round or how the checker has died. The
position is behind the last target while the checker waits for a tick, and there is none when
checking is disabled. -/
structure CheckedWorld where
  world : World
  checks : Option (Except ChecksPanic Nat)

/-- The interval ticks, the checker comes to its next target, or something else happens. -/
inductive CheckedEvent where
  | tick
  | probe (outcome : ProbeOutcome)
  | other (e : Event)

namespace CheckedWorld

def start (env : Externals) (config : ProxyConfig) : CheckedWorld where
  world := World.init env config
  checks := (CheckerTask.start config).map fun task =>
    (tokioInterval config.health.active.interval).map fun _ => task.targets.length

def step (env : Externals) (uris : UriParser) (c : CheckedWorld) :
    CheckedEvent → Option CheckedWorld
  | .tick =>
      match c.world.checker, c.checks with
      | some task, some (.ok n) =>
          if n = task.targets.length then some { c with checks := some (.ok 0) } else none
      | _, _ => none
  | .probe outcome =>
      match c.world.checker, c.checks with
      | some task, some (.ok n) =>
          match task.targets[n]? with
          | none => none
          | some target =>
              match probeRequest uris target with
              -- the request is expected to be buildable
              | .error panic => some { c with checks := some (.error panic) }
              | .ok _ => (World.step env c.world (.probe n outcome)).map fun world =>
                  ⟨world, some (.ok (n + 1))⟩
      | _, _ => none
  | .other e =>
      -- the checker ends no probe but the one it is at
      if e.probed.isSome then none
      else (World.step env c.world e).map fun world => { c with world := world }

/-- What the events do, one constructor for each way a step can go. -/
inductive Moves (env : Externals) (uris : UriParser) (c : CheckedWorld) :
    CheckedEvent → CheckedWorld → Prop
  | tick {task : CheckerTask} (htask : c.world.checker = some task)
      (hchecks : c.checks = some (.ok task.targets.length)) :
      Moves env uris c .tick { c with checks := some (.ok 0) }
  | panicked {task : CheckerTask} {n : Nat} {target : ProbeTarget} {panic : ChecksPanic}
      {outcome : ProbeOutcome} (htask : c.world.checker = some task)
      (hchecks : c.checks = some (.ok n)) (htarget : task.targets[n]? = some target)
      (hrequest : probeRequest uris target = .error panic) :
      Moves env uris c (.probe outcome) { c with checks := some (.error panic) }
  | probed {task : CheckerTask} {n : Nat} {target : ProbeTarget} {uri : Uri}
      {outcome : ProbeOutcome} (htask : c.world.checker = some task)
      (hchecks : c.checks = some (.ok n)) (htarget : task.targets[n]? = some target)
      (hrequest : probeRequest uris target = .ok uri) :
      Moves env uris c (.probe outcome)
        ⟨{ c.world with app := c.world.app.finishProbe task target outcome }, some (.ok (n + 1))⟩
  | other {e : Event} {world : World} (hprobed : e.probed = none)
      (hstep : World.step env c.world e = some world) :
      Moves env uris c (.other e) { c with world := world }

section Steps

variable {env : Externals} {uris : UriParser} {c c' : CheckedWorld} {d : CheckedEvent}

theorem moves_of_step (h : step env uris c d = some c') : Moves env uris c d c' := by
  cases d with
  | tick =>
    simp only [step] at h
    split at h
    · next task n htask hchecks =>
      split at h
      · next hn =>
        obtain rfl := Option.some.inj h
        exact .tick htask (hn ▸ hchecks)
      · cases h
    · cases h
  | probe outcome =>
    simp only [step] at h
    split at h
    · next task n htask hchecks =>
      split at h
      · cases h
      · next target htarget =>
        split at h
        · next panic hrequest =>
          obtain rfl := Option.some.inj h
          exact .panicked htask hchecks htarget hrequest
        · next uri hrequest =>
          obtain ⟨world, hworld, rfl⟩ := Option.map_eq_some_iff.1 h
          rw [World.step_of_moves (.probed htask htarget)] at hworld
          obtain rfl := Option.some.inj hworld
          exact .probed htask hchecks htarget hrequest
    · cases h
  | other e =>
    simp only [step] at h
    split at h
    · cases h
    · next hprobed =>
      obtain ⟨world, hworld, rfl⟩ := Option.map_eq_some_iff.1 h
      exact .other (Option.not_isSome_iff_eq_none.1 hprobed) hworld

theorem step_of_moves (h : Moves env uris c d c') : step env uris c d = some c' := by
  cases h with
  | tick htask hchecks => simp only [step, htask, hchecks, if_true]
  | panicked htask hchecks htarget hrequest =>
    simp only [step, htask, hchecks, htarget, hrequest]
  | @probed task n target uri outcome htask hchecks htarget hrequest =>
    have hstep : step env uris c (.probe outcome) =
        (World.step env c.world (.probe n outcome)).map fun world =>
          ⟨world, some (.ok (n + 1))⟩ := by
      simp only [step, htask, hchecks, htarget, hrequest]
    rw [hstep, World.step_of_moves (.probed htask htarget)]
    rfl
  | other hprobed hstep =>
    simp only [step, hprobed, hstep, Option.isSome_none, Bool.false_eq_true, if_false]
    rfl

/-- The event of the proxy that the event is. -/
def worldEvent (uris : UriParser) (c : CheckedWorld) : CheckedEvent → Option Event
  | .tick => none
  | .probe outcome =>
      match c.world.checker, c.checks with
      | some task, some (.ok n) =>
          match task.targets[n]? with
          | none => none
          | some target =>
              match probeRequest uris target with
              | .error _ => none
              | .ok _ => some (.probe n outcome)
      | _, _ => none
  | .other e => some e

theorem worldEvent_panicked {task : CheckerTask} {n : Nat} {target : ProbeTarget}
    {panic : ChecksPanic} (htask : c.world.checker = some task) (hchecks : c.checks = some (.ok n))
    (htarget : task.targets[n]? = some target) (hrequest : probeRequest uris target = .error panic)
    (outcome : ProbeOutcome) : c.worldEvent uris (.probe outcome) = none := by
  simp only [worldEvent, htask, hchecks, htarget, hrequest]

theorem worldEvent_probed {task : CheckerTask} {n : Nat} {target : ProbeTarget} {uri : Uri}
    (htask : c.world.checker = some task) (hchecks : c.checks = some (.ok n))
    (htarget : task.targets[n]? = some target) (hrequest : probeRequest uris target = .ok uri)
    (outcome : ProbeOutcome) : c.worldEvent uris (.probe outcome) = some (.probe n outcome) := by
  simp only [worldEvent, htask, hchecks, htarget, hrequest]

/-- The probe of the proxy is one of the target that the loop is at. -/
theorem exists_of_worldEvent_probe {outcome : ProbeOutcome} {e : Event}
    (h : c.worldEvent uris (.probe outcome) = some e) :
    ∃ task n target, c.world.checker = some task ∧ c.checks = some (.ok n) ∧
      task.targets[n]? = some target ∧ e = .probe n outcome := by
  simp only [worldEvent] at h
  split at h
  · next task n htask hchecks =>
    split at h
    · cases h
    · next target htarget =>
      split at h
      · cases h
      · exact ⟨task, n, target, htask, hchecks, htarget, (Option.some.inj h).symm⟩
  · cases h

/-- **The proxy beside the loop of the checker is the proxy.** -/
theorem projects_world (env : Externals) (uris : UriParser) :
    Projects (World.step env) (step env uris) CheckedWorld.world (worldEvent uris) := by
  intro c d c' h
  cases moves_of_step h with
  | tick _ _ => rfl
  | panicked htask hchecks htarget hrequest =>
    rw [worldEvent_panicked htask hchecks htarget hrequest]
    rfl
  | probed htask hchecks htarget hrequest =>
    rw [worldEvent_probed htask hchecks htarget hrequest]
    exact run_single (World.step_of_moves (.probed htask htarget))
  | other _ hstep => exact run_single hstep

theorem checker_step (h : step env uris c d = some c') : c'.world.checker = c.world.checker :=
  (projects_world env uris).invariant (I := fun w => w.checker = c.world.checker)
    (fun _ _ _ hw h => (World.checker_step h).trans hw) rfl h

/-! ## The loop -/

/-- The checker as the loop of the active checks has it. -/
def activeChecks (task : CheckerTask) (c : CheckedWorld) :
    Option (Except ChecksPanic ActiveChecks) :=
  c.checks.map fun s => s.map fun n => ⟨task, task.targets.drop n, c.world.app⟩

/-- **The checker goes through the loop of the active checks**, while the other tasks change the
shared state. -/
theorem reaches_activeChecks {task : CheckerTask} {s s' : Except ChecksPanic ActiveChecks}
    (htask : c.world.checker = some task) (hs : c.activeChecks task = some s)
    (h : step env uris c d = some c') (hs' : c'.activeChecks task = some s') :
    Reaches (ActiveChecks.step uris) (fun _ => True) s s' := by
  cases moves_of_step h with
  | @tick task' htask' hchecks =>
    obtain rfl := Option.some.inj (htask.symm.trans htask')
    simp only [activeChecks, hchecks, Option.map_some, Option.some.injEq] at hs hs'
    subst hs hs'
    refine Reaches.single (e := .tick) trivial ?_
    simp only [Except.map, List.drop_length, ActiveChecks.step, ActiveChecks.react, List.drop_zero]
  | @panicked task' n target panic outcome htask' hchecks htarget hrequest =>
    obtain rfl := Option.some.inj (htask.symm.trans htask')
    obtain ⟨hlt, rfl⟩ := List.getElem?_eq_some_iff.1 htarget
    simp only [activeChecks, hchecks, Option.map_some, Option.some.injEq] at hs hs'
    subst hs hs'
    refine Reaches.single (e := .probe outcome) trivial ?_
    simp only [Except.map, List.drop_eq_getElem_cons hlt, ActiveChecks.step, ActiveChecks.react,
      hrequest]
  | @probed task' n target uri outcome htask' hchecks htarget hrequest =>
    obtain rfl := Option.some.inj (htask.symm.trans htask')
    obtain ⟨hlt, rfl⟩ := List.getElem?_eq_some_iff.1 htarget
    simp only [activeChecks, hchecks, Option.map_some, Option.some.injEq] at hs hs'
    subst hs hs'
    refine Reaches.single (e := .probe outcome) trivial ?_
    simp only [Except.map, List.drop_eq_getElem_cons hlt, ActiveChecks.step, ActiveChecks.react,
      hrequest]
  | @other e world _ _ =>
    cases hchecks : c.checks with
    | none =>
      simp only [activeChecks, hchecks, Option.map_none] at hs
      cases hs
    | some t =>
      simp only [activeChecks, hchecks, Option.map_some, Option.some.injEq] at hs hs'
      subst hs hs'
      cases t with
      | error panic => exact Reaches.refl _
      | ok n => exact Reaches.single (e := .otherTask world.app) trivial rfl

end Steps

/-! ## Whether the checker lives -/

section Life

variable {env : Externals} {uris : UriParser} {config : ProxyConfig} {c c' : CheckedWorld}
  {d : CheckedEvent} {ds : List CheckedEvent}

/-- The checker of the configuration is there exactly when it is enabled, and then it is at a
target, between two rounds, or dead. It passed its interval unless that is zero. -/
structure InLoop (config : ProxyConfig) (c : CheckedWorld) : Prop where
  checker_eq : c.world.checker = CheckerTask.start config
  isSome_iff : c.checks.isSome = config.health.active.enabled
  position : ∀ n, c.checks = some (.ok n) → n ≤ (CheckerTask.ofConfig config).targets.length ∧
    config.health.active.interval ≠ 0

theorem inLoop_start (env : Externals) (config : ProxyConfig) :
    InLoop config (start env config) := by
  refine ⟨rfl, ?_, fun n hn => ?_⟩
  · rw [start, CheckerTask.start]
    cases config.health.active.enabled <;> rfl
  · rw [start, CheckerTask.start] at hn
    by_cases henabled : config.health.active.enabled = true
    · rw [if_pos henabled, tokioInterval] at hn
      by_cases hinterval : config.health.active.interval = 0
      · rw [if_pos hinterval] at hn
        cases hn
      · rw [if_neg hinterval] at hn
        cases hn
        exact ⟨le_rfl, hinterval⟩
    · rw [if_neg henabled] at hn
      cases hn

theorem InLoop.eq_ofConfig (hc : InLoop config c) {task : CheckerTask}
    (htask : c.world.checker = some task) :
    task = CheckerTask.ofConfig config ∧ config.health.active.enabled = true := by
  have hstart := hc.checker_eq.symm.trans htask
  rw [CheckerTask.start] at hstart
  split at hstart
  · next henabled => exact ⟨(Option.some.inj hstart).symm, henabled⟩
  · cases hstart

theorem inLoop_step (hc : InLoop config c) (h : step env uris c d = some c') :
    InLoop config c' := by
  have hchecker := (checker_step h).trans hc.checker_eq
  cases moves_of_step h with
  | tick _ hchecks =>
    have hsome := hc.isSome_iff
    rw [hchecks] at hsome
    refine ⟨hchecker, hsome, fun n hn => ?_⟩
    cases hn
    exact ⟨Nat.zero_le _, (hc.position _ hchecks).2⟩
  | panicked _ hchecks _ _ =>
    have hsome := hc.isSome_iff
    rw [hchecks] at hsome
    exact ⟨hchecker, hsome, fun n hn => by cases hn⟩
  | probed htask hchecks htarget _ =>
    have hsome := hc.isSome_iff
    rw [hchecks] at hsome
    refine ⟨hchecker, hsome, fun n hn => ?_⟩
    cases hn
    obtain ⟨hlt, -⟩ := List.getElem?_eq_some_iff.1 htarget
    rw [(hc.eq_ofConfig htask).1] at hlt
    exact ⟨hlt, (hc.position _ hchecks).2⟩
  | other _ _ => exact ⟨hchecker, hc.isSome_iff, hc.position⟩

/-- The checks of the configuration do not die: the interval is positive and each request can be
built. -/
structure ChecksLive (uris : UriParser) (config : ProxyConfig) : Prop where
  interval_ne_zero : config.health.active.interval ≠ 0
  buildable : ∀ origin ∈ config.origins, (uris.parse (ProbeTarget.ofOrigin origin).url).isSome

theorem ChecksLive.neverPanics (hlive : ChecksLive uris config)
    (henabled : config.health.active.enabled = true) : ActiveChecks.NeverPanics uris config :=
  ActiveChecks.neverPanics_of_parse henabled hlive.interval_ne_zero hlive.buildable

/-- What the loop has come to is reached by the active checks from their start. -/
theorem reaches_of_run (henabled : config.health.active.enabled = true)
    (hrun : run (step env uris) (start env config) ds = some c) :
    ∃ s t, ActiveChecks.start config (World.init env config).app = some s ∧
      c.activeChecks (CheckerTask.ofConfig config) = some t ∧
        Reaches (ActiveChecks.step uris) (fun _ => True) s t := by
  have hstart : (start env config).activeChecks (CheckerTask.ofConfig config) =
      ActiveChecks.start config (World.init env config).app := by
    rw [ActiveChecks.start_eq henabled, activeChecks, start, CheckerTask.start, if_pos henabled]
    rw [Option.map_some, Option.map_some, tokioInterval]
    split
    · rfl
    · simp only [Except.map, List.drop_length]
  induction ds using List.reverseRecOn generalizing c with
  | nil =>
    cases hrun
    rw [hstart, ActiveChecks.start_eq henabled]
    exact ⟨_, _, rfl, rfl, Reaches.refl _⟩
  | append_singleton ds d ih =>
    rw [run_append] at hrun
    obtain ⟨u, hu, hrun⟩ := Option.bind_eq_some_iff.1 hrun
    obtain ⟨v, hv, hvc⟩ := run_cons_eq_some.1 hrun
    cases hvc
    obtain ⟨s, t, hs, ht, hreaches⟩ := ih hu
    have hloop : InLoop config u := (throughout_of_along (I := InLoop config)
      (fun _ _ _ hI (_ : True) h => inLoop_step hI h) (inLoop_start env config)
      (along_true _ ds)).last hu
    have htask : u.world.checker = some (CheckerTask.ofConfig config) := by
      rw [hloop.checker_eq, CheckerTask.start, if_pos henabled]
    obtain ⟨r, hr⟩ :=
      Option.isSome_iff_exists.1 ((inLoop_step hloop hv).isSome_iff.trans henabled)
    obtain ⟨t', ht'⟩ : ∃ t', c.activeChecks (CheckerTask.ofConfig config) = some t' := by
      rw [activeChecks, hr]
      exact ⟨_, rfl⟩
    exact ⟨s, t', hs, ht', hreaches.trans (reaches_activeChecks htask ht hv ht')⟩

/-- **Live checks are never found dead.** -/
theorem ChecksLive.alive (hlive : ChecksLive uris config)
    (henabled : config.health.active.enabled = true)
    (hrun : run (step env uris) (start env config) ds = some c) :
    ∃ n, c.checks = some (.ok n) := by
  obtain ⟨s, t, hs, ht, hreaches⟩ := reaches_of_run henabled hrun
  have hok := hlive.neverPanics henabled _ s t hs hreaches
  cases hchecks : c.checks with
  | none => simp [activeChecks, hchecks] at ht
  | some r =>
    cases r with
    | ok n => exact ⟨n, rfl⟩
    | error panic =>
      simp only [activeChecks, hchecks, Option.map_some, Option.some.injEq] at ht
      subst ht
      cases hok

end Life

end CheckedWorld

end Upstreamer
