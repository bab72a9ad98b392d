import Upstreamer.System.Histories
import Upstreamer.System.Sequential

/-!
# Rounds of probes

The targets of the checker are a list made from the configuration of the start. A full round probes
each entry of the list once, whatever the router has become: so it probes each origin among the
candidates of the current router exactly once, no other origin, and has one record made in the
history of each, exactly when that list names each key of a candidate once and nothing else
(`round_exact_iff`).
-/

set_option autoImplicit false

namespace Upstreamer

open Foundations

/-- The keys under which the checker of the configuration records its probes. -/
def ProxyConfig.probeKeys (config : ProxyConfig) : List String :=
  (CheckerTask.ofConfig config).targets.map ProbeTarget.base

/-- The event is one of a reload or of discovery. -/
def Event.IsUpdate : Event → Prop
  | .reloadStart _ => True
  | .reloadStep => True
  | .discover _ => True
  | .rebuildLoad _ => True
  | .rebuildStep => True
  | _ => False

/-- The event is the end of a forwarded request. -/
def Event.IsFinish : Event → Prop
  | .finish _ _ _ => True
  | _ => False

/-- The outcome of the probe that the event is, when it goes to the given base. -/
def Event.outcomeAt (task : CheckerTask) (base : String) : Event → Option ProbeOutcome
  | .probe i outcome =>
      if (task.targets[i]?).any (fun target => target.base == base) then some outcome else none
  | _ => none

/-- The outcomes of the probes of a round that go to the given base. -/
def outcomesAt (task : CheckerTask) (base : String) (round : List Event) : List ProbeOutcome :=
  round.filterMap (Event.outcomeAt task base)

/-- A full round: the targets are probed in their order while requests are served and no update
happens. -/
structure FullRound (task : CheckerTask) (round : List Event) : Prop where
  no_update : ∀ e ∈ round, ¬ e.IsUpdate
  in_order : round.filterMap Event.probed = List.range task.targets.length

/-- One more outcome has been recorded: one of the counters has advanced by one. -/
def OriginState.AdvancedByOne (st st' : OriginState) : Prop :=
  (st'.consecutiveSuccesses = st.consecutiveSuccesses + 1 ∧ st'.consecutiveFailures = 0) ∨
    (st'.consecutiveFailures = st.consecutiveFailures + 1 ∧ st'.consecutiveSuccesses = 0)

/-- The round probes each origin among the candidates of the router exactly once and no other
origin, and unless forwarded requests end meanwhile, the counters of each advance by one. -/
structure RoundExact (task : CheckerTask) (w w' : World) (round : List Event) : Prop where
  once : ∀ key ∈ w.app.router.candidateKeys,
    (outcomesAt task (trimEndMatches '/' key) round).length = 1
  no_other : ∀ e ∈ round, ∀ i ∈ e.probed, ∀ target ∈ task.targets[i]?,
    ∃ key ∈ w.app.router.candidateKeys, target.base = trimEndMatches '/' key
  advances : (∀ e ∈ round, ¬ e.IsFinish) → ∀ key ∈ w.app.router.candidateKeys, ∃ st st',
    w.app.originStates.lookup key = some st ∧ w'.app.originStates.lookup key = some st' ∧
      st.AdvancedByOne st'

/-! ## Counting probes -/

theorem countP_range_getElem? {α : Type} (l : List α) (p : α → Bool) :
    (List.range l.length).countP (fun i => (l[i]?).any p) = l.countP p := by
  induction l with
  | nil => rfl
  | cons a l ih =>
    rw [List.length_cons, List.range_succ_eq_map, List.countP_cons, List.countP_map,
      List.countP_cons]
    simp only [Function.comp_def, List.getElem?_cons_succ, List.getElem?_cons_zero, Option.any_some]
    rw [ih]

theorem length_outcomesAt (task : CheckerTask) (base : String) (round : List Event) :
    (outcomesAt task base round).length = (round.filterMap Event.probed).countP
      fun i => (task.targets[i]?).any fun target => target.base == base := by
  induction round with
  | nil => rfl
  | cons e round ih =>
    rw [outcomesAt] at ih ⊢
    cases e with
    | probe i outcome =>
      have hprobed : (Event.probe i outcome).probed = some i := rfl
      rw [List.filterMap_cons_some hprobed, List.countP_cons, ← ih]
      by_cases hbase : (task.targets[i]?).any (fun target => target.base == base) = true
      · have hsome : (Event.probe i outcome).outcomeAt task base = some outcome := if_pos hbase
        rw [List.filterMap_cons_some hsome, if_pos hbase, List.length_cons]
      · have hnone : (Event.probe i outcome).outcomeAt task base = none := if_neg hbase
        rw [List.filterMap_cons_none hnone, if_neg hbase, Nat.add_zero]
    | _ => exact ih

/-- A full round probes each base as often as the list of targets names it. -/
theorem FullRound.length_outcomesAt {task : CheckerTask} {round : List Event}
    (h : FullRound task round) (base : String) :
    (outcomesAt task base round).length = (task.targets.map ProbeTarget.base).count base := by
  rw [Upstreamer.length_outcomesAt, h.in_order, countP_range_getElem?, List.count_eq_countP,
    List.countP_map]
  rfl

/-- The keys of the probes end in no slash. -/
theorem trimEndMatches_of_mem_probeKeys {config : ProxyConfig} {key : String}
    (h : key ∈ config.probeKeys) : trimEndMatches '/' key = key := by
  obtain ⟨target, htarget, rfl⟩ := List.mem_map.1 h
  obtain ⟨origin, -, rfl⟩ := List.mem_map.1 htarget
  exact trimEndMatches_trimEndMatches '/' origin.url.asStr

/-! ## What a round leaves in the histories -/

/-- The records of the outcomes, one after another. -/
def OriginState.recordProbes (st : OriginState) (task : CheckerTask)
    (outcomes : List ProbeOutcome) : OriginState :=
  outcomes.foldl (fun st outcome => st.recordProbe task outcome) st

theorem OriginState.advancedByOne_recordProbe (st : OriginState) (task : CheckerTask)
    (outcome : ProbeOutcome) : st.AdvancedByOne (st.recordProbe task outcome) := by
  cases outcome with
  | response resp =>
    simp only [recordProbe]
    split
    · exact Or.inl ⟨rfl, rfl⟩
    · exact Or.inr ⟨rfl, rfl⟩
  | failed => exact Or.inr ⟨rfl, rfl⟩
  | timedOut => exact Or.inr ⟨rfl, rfl⟩

theorem OriginState.not_advancedByOne_self (st : OriginState) : ¬ st.AdvancedByOne st := by
  rintro (⟨h, -⟩ | ⟨h, -⟩)
  · exact succ_ne_self _ h.symm
  · exact succ_ne_self _ h.symm

namespace World

section Rounds

variable {env : Externals} {w w' : World} {e : Event} {task : CheckerTask}

/-- Without updates and ends of requests, only a probe of the key changes its history. -/
theorem lookup_step (hchecker : w.checker = some task) (hupdate : ¬ e.IsUpdate)
    (hfinish : ¬ e.IsFinish) (h : step env w e = some w') (key : String) :
    w'.app.originStates.lookup key =
      (w.app.originStates.lookup key).map fun st =>
        st.recordProbes task (e.outcomeAt task key).toList := by
  have hsame : ∀ o : Option OriginState, o = o.map fun st => st.recordProbes task [] :=
    fun _ => Option.map_id'.symm
  cases moves_of_step h with
  | reloadStart _ _ => exact absurd trivial hupdate
  | reloadStep _ => exact absurd trivial hupdate
  | ignored _ _ _ => exact absurd trivial hupdate
  | discovered _ _ _ => exact absurd trivial hupdate
  | rebuildLoad _ _ => exact absurd trivial hupdate
  | rebuildStep _ => exact absurd trivial hupdate
  | finished _ => exact absurd trivial hfinish
  | limited _ _ =>
    rw [AppState.originStates_checkLimits]
    exact hsame _
  | admitted _ _ =>
    rw [AppState.originStates_checkLimits]
    exact hsame _
  | @probed i outcome task' target htask htarget =>
    obtain rfl : task' = task := Option.some.inj (htask.symm.trans hchecker)
    by_cases hbase : target.base = key
    · have hsome : (Event.probe i outcome).outcomeAt task' key = some outcome :=
        if_pos (by rw [htarget, Option.any_some, hbase, beq_self_eq_true])
      rw [hsome, ← hbase]
      exact Dict.lookup_modify_self _ _ _
    · have hnone : (Event.probe i outcome).outcomeAt task' key = none :=
        if_neg (by rw [htarget, Option.any_some, beq_iff_eq]; exact hbase)
      rw [hnone]
      exact (Dict.lookup_modify_ne (Ne.symm hbase) _ _).trans (hsame _)
  | _ => exact hsame _

/-- The same for a whole round. -/
theorem lookup_run {round : List Event} (hchecker : w.checker = some task)
    (hupdate : ∀ e ∈ round, ¬ e.IsUpdate) (hfinish : ∀ e ∈ round, ¬ e.IsFinish)
    (hrun : run (step env) w round = some w') (key : String) :
    w'.app.originStates.lookup key =
      (w.app.originStates.lookup key).map fun st =>
        st.recordProbes task (outcomesAt task key round) := by
  induction round generalizing w with
  | nil =>
    cases hrun
    exact Option.map_id'.symm
  | cons e round ih =>
    obtain ⟨u, hu, hrest⟩ := run_cons_eq_some.1 hrun
    have hhead := lookup_step hchecker (hupdate e List.mem_cons_self)
      (hfinish e List.mem_cons_self) hu key
    rw [ih ((checker_step hu).trans hchecker)
      (fun e he => hupdate e (List.mem_cons_of_mem _ he))
      (fun e he => hfinish e (List.mem_cons_of_mem _ he)) hrest, hhead, Option.map_map]
    congr 1
    funext st
    show (st.recordProbes task (e.outcomeAt task key).toList).recordProbes task
      (outcomesAt task key round) = st.recordProbes task (outcomesAt task key (e :: round))
    cases houtcome : e.outcomeAt task key with
    | none =>
      rw [outcomesAt, outcomesAt, List.filterMap_cons_none houtcome]
      rfl
    | some outcome =>
      rw [outcomesAt, outcomesAt, List.filterMap_cons_some houtcome]
      rfl

/-- A round of nothing but probes, all of which fail. -/
def failingRound (task : CheckerTask) : List Event :=
  (List.range task.targets.length).map fun i => .probe i .failed

theorem fullRound_failingRound (task : CheckerTask) : FullRound task (failingRound task) where
  no_update := by
    intro e he
    obtain ⟨i, -, rfl⟩ := List.mem_map.1 he
    exact id
  in_order := by
    rw [failingRound, List.filterMap_map]
    exact List.filterMap_some

theorem exists_run_probes (hchecker : w.checker = some task) {indices : List Nat}
    (hindices : ∀ i ∈ indices, i < task.targets.length) :
    ∃ w', run (step env) w (indices.map fun i => .probe i .failed) = some w' := by
  induction indices generalizing w with
  | nil => exact ⟨w, rfl⟩
  | cons i indices ih =>
    have htarget := List.getElem?_eq_getElem (hindices i List.mem_cons_self)
    have hstep : step env w (.probe i .failed) = some _ := step_of_moves (.probed hchecker htarget)
    obtain ⟨w', hrun⟩ := ih ((checker_step hstep).trans hchecker)
      fun j hj => hindices j (List.mem_cons_of_mem _ hj)
    exact ⟨w', run_cons_eq_some.2 ⟨_, hstep, hrun⟩⟩

/-- The checker can make such a round in every state. -/
theorem exists_failingRound (env : Externals) (hchecker : w.checker = some task) :
    ∃ w', run (step env) w (failingRound task) = some w' :=
  exists_run_probes hchecker fun _ hi => List.mem_range.1 hi

end Rounds

/-- The targets name each key of a candidate once, and nothing else. -/
structure TargetsMatch (config : ProxyConfig) (w : World) : Prop where
  nodup : config.probeKeys.Nodup
  mem_iff : ∀ key, key ∈ config.probeKeys ↔ key ∈ w.app.router.candidateKeys

section Exact

variable {env : Externals} {config : ProxyConfig} {w w' : World} {round : List Event}

/-- With matching targets every full round is exact. -/
theorem TargetsMatch.roundExact (hmatch : TargetsMatch config w)
    (hchecker : w.checker = some (CheckerTask.ofConfig config))
    (hstored : ∀ key ∈ w.app.router.candidateKeys, key ∈ w.app.originStates)
    (hfull : FullRound (CheckerTask.ofConfig config) round)
    (hrun : run (step env) w round = some w') :
    RoundExact (CheckerTask.ofConfig config) w w' round := by
  have hcount : ∀ key ∈ w.app.router.candidateKeys,
      (outcomesAt (CheckerTask.ofConfig config) key round).length = 1 := fun key hkey => by
    rw [hfull.length_outcomesAt]
    exact List.count_eq_one_of_mem hmatch.nodup ((hmatch.mem_iff key).2 hkey)
  refine ⟨fun key hkey => ?_, fun e he i hi target htarget => ?_, fun hfinish key hkey => ?_⟩
  · rw [trimEndMatches_of_mem_probeKeys ((hmatch.mem_iff key).2 hkey)]
    exact hcount key hkey
  · have hbase : target.base ∈ config.probeKeys :=
      List.mem_map_of_mem (List.mem_of_getElem? htarget)
    exact ⟨target.base, (hmatch.mem_iff _).1 hbase, (trimEndMatches_of_mem_probeKeys hbase).symm⟩
  · obtain ⟨st, hst⟩ := Finmap.mem_iff.1 (hstored key hkey)
    obtain ⟨outcome, houtcome⟩ := List.length_eq_one_iff.1 (hcount key hkey)
    have hlookup := lookup_run hchecker hfull.no_update hfinish hrun key
    rw [houtcome, hst] at hlookup
    exact ⟨st, _, hst, hlookup, st.advancedByOne_recordProbe _ outcome⟩

/-- When the round of nothing but failing probes is exact, the targets match. -/
theorem targetsMatch_of_roundExact (hchecker : w.checker = some (CheckerTask.ofConfig config))
    (hrun : run (step env) w (failingRound (CheckerTask.ofConfig config)) = some w')
    (hexact : RoundExact (CheckerTask.ofConfig config) w w'
      (failingRound (CheckerTask.ofConfig config))) : TargetsMatch config w := by
  have hfull := fullRound_failingRound (CheckerTask.ofConfig config)
  have hfinish : ∀ e ∈ failingRound (CheckerTask.ofConfig config), ¬ e.IsFinish := fun e he => by
    obtain ⟨i, -, rfl⟩ := List.mem_map.1 he
    exact id
  -- a history that advances is one that some target is probed for
  have hprobed : ∀ key ∈ w.app.router.candidateKeys, key ∈ config.probeKeys := by
    intro key hkey
    obtain ⟨st, st', hst, hst', hadvanced⟩ := hexact.advances hfinish key hkey
    have hlookup := lookup_run hchecker hfull.no_update hfinish hrun key
    rw [hst, hst'] at hlookup
    by_contra hnot
    have hnone : outcomesAt (CheckerTask.ofConfig config) key
        (failingRound (CheckerTask.ofConfig config)) = [] :=
      List.length_eq_zero_iff.1
        ((hfull.length_outcomesAt key).trans (List.count_eq_zero_of_not_mem hnot))
    rw [hnone] at hlookup
    have heq : st' = st := Option.some.inj hlookup
    rw [heq] at hadvanced
    exact st.not_advancedByOne_self hadvanced
  have hcandidate : ∀ key ∈ config.probeKeys, key ∈ w.app.router.candidateKeys := by
    intro key hkey
    obtain ⟨target, htarget, rfl⟩ := List.mem_map.1 hkey
    obtain ⟨i, hi, heq⟩ := List.getElem_of_mem htarget
    have hevent : Event.probe i .failed ∈ failingRound (CheckerTask.ofConfig config) :=
      List.mem_map.2 ⟨i, List.mem_range.2 hi, rfl⟩
    obtain ⟨candidate, hmem, hbase⟩ := hexact.no_other _ hevent i rfl target
      (heq ▸ List.getElem?_eq_getElem hi)
    rw [hbase, trimEndMatches_of_mem_probeKeys (hprobed candidate hmem)]
    exact hmem
  refine ⟨List.nodup_iff_count_eq_one.2 fun key hkey => ?_,
    fun key => ⟨hcandidate key, hprobed key⟩⟩
  have honce := hexact.once key (hcandidate key hkey)
  rwa [trimEndMatches_of_mem_probeKeys hkey, hfull.length_outcomesAt] at honce

theorem checker_of_run {events : List Event}
    (hrun : run (step env) (init env config) events = some w) :
    w.checker = CheckerTask.start config :=
  (throughout_of_along (I := fun w => w.checker = CheckerTask.start config)
    (fun _ _ _ hs _ h => (checker_step h).trans hs) rfl (along_true _ events)).last hrun

end Exact

/-- **After any run with active checking, when no update is in progress, all full rounds of probes
are exact exactly when the targets of the start match the candidates of the current router.** -/
theorem round_exact_iff (env : Externals) (config : ProxyConfig) (events : List Event) (w : World)
    (henabled : config.health.active.enabled = true)
    (hrun : run (step env) (init env config) events = some w)
    (hreload : w.reload = .idle) (hrebuild : w.rebuild = .idle) :
    (∀ round w', FullRound (CheckerTask.ofConfig config) round →
        run (step env) w round = some w' →
        RoundExact (CheckerTask.ofConfig config) w w' round) ↔
      TargetsMatch config w := by
  have hchecker : w.checker = some (CheckerTask.ofConfig config) := by
    rw [checker_of_run hrun, CheckerTask.start, if_pos henabled]
  have hstored := ((stored_throughout env config events).last hrun).candidate hreload hrebuild
  constructor
  · intro h
    obtain ⟨w', hround⟩ := exists_failingRound env hchecker
    exact targetsMatch_of_roundExact hchecker hround
      (h _ w' (fullRound_failingRound _) hround)
  · intro hmatch round w' hfull hround
    exact hmatch.roundExact hchecker hstored hfull hround

/-- The minimal configuration with an origin that has a path, at the given port. -/
def apiConfig (port : UInt16) : ProxyConfig :=
  .ofRoutes [RouteConfig.minimal [Url.http "127.0.0.1" (some port) "/api/v1"]]

/-- Rounds after a reload that changes nothing are exact. -/
theorem round_exact_api :
    ∃ w, run (step .none) (init .none (apiConfig 3000)) (reloadEvents (apiConfig 3000)) = some w ∧
      ∀ round w', FullRound (CheckerTask.ofConfig (apiConfig 3000)) round →
        run (step .none) w round = some w' →
        RoundExact (CheckerTask.ofConfig (apiConfig 3000)) w w' round := by
  have hrun : run (step .none) (init .none (apiConfig 3000)) (reloadEvents (apiConfig 3000)) =
      some _ := run_reload rfl (by decide)
  refine ⟨_, hrun, (round_exact_iff .none (apiConfig 3000) _ _ rfl hrun rfl rfl).2
    ⟨by decide, fun key => ?_⟩⟩
  have hkeys : (apiConfig 3000).probeKeys = (Router.fromConfig (apiConfig 3000)).candidateKeys := by
    decide
  show _ ↔ key ∈ ((AppState.reload _ (apiConfig 3000)).router).candidateKeys
  rw [AppState.reload_eq, hkeys]

/-- **After a reload that moves the origin, rounds probe the old one and not the new one.** -/
theorem moved_origin_unprobed :
    (apiConfig 3000).validate .empty = .ok () ∧ (apiConfig 4000).validate .empty = .ok () ∧
      ∃ w, run (step .none) (init .none (apiConfig 3000)) (reloadEvents (apiConfig 4000)) =
          some w ∧
        w.reload = .idle ∧ w.rebuild = .idle ∧
        w.app.router.candidateKeys = ["http://127.0.0.1:4000/api/v1"] ∧
        ∃ round w', FullRound (CheckerTask.ofConfig (apiConfig 3000)) round ∧
          run (step .none) w round = some w' ∧
          outcomesAt (CheckerTask.ofConfig (apiConfig 3000)) "http://127.0.0.1:3000/api/v1" round =
            [.failed] ∧
          outcomesAt (CheckerTask.ofConfig (apiConfig 3000)) "http://127.0.0.1:4000/api/v1" round =
            [] ∧
          ¬ RoundExact (CheckerTask.ofConfig (apiConfig 3000)) w w' round := by
  have hrun : run (step .none) (init .none (apiConfig 3000)) (reloadEvents (apiConfig 4000)) =
      some _ := run_reload rfl (by decide)
  have hkeys : ((init .none (apiConfig 3000)).app.reload (apiConfig 4000)).router.candidateKeys =
      ["http://127.0.0.1:4000/api/v1"] := by
    rw [AppState.reload_eq]
    decide
  -- the checker still has the targets of the start
  have hchecker : World.checker { init .none (apiConfig 3000) with
      app := (init .none (apiConfig 3000)).app.reload (apiConfig 4000) } =
        some (CheckerTask.ofConfig (apiConfig 3000)) := rfl
  obtain ⟨w', hround⟩ := exists_failingRound .none hchecker
  refine ⟨by decide, by decide, _, hrun, rfl, rfl, hkeys, _, w', fullRound_failingRound _, hround,
    by decide, by decide, fun h => ?_⟩
  have honce := h.once "http://127.0.0.1:4000/api/v1" (hkeys ▸ List.mem_singleton.2 rfl)
  exact absurd honce (by decide)

end World

end Upstreamer
