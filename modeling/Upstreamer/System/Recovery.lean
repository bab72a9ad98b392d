import Upstreamer.System.Checks

/-!
# Recovery of unhealthy origins

No balancer selects an origin that is marked unhealthy, so such an origin gets no new requests: it
can be marked healthy again only by its probes, if their outcomes reach its history and the checker
lives to make them, or by the requests that were forwarded to it before. A checker that is to die of
a request that cannot be built makes the probes before that one. `recoverable_iff` says when all
these are enough, in every state that traffic and probes can reach.
-/

set_option autoImplicit false

namespace Upstreamer

open Foundations

/-! ## Counting list entries -/

theorem countP_eraseIdx_add_one {α : Type} {p : α → Bool} {l : List α} {i : Nat} {a : α}
    (hi : l[i]? = some a) (ha : p a = true) : (l.eraseIdx i).countP p + 1 = l.countP p := by
  induction l generalizing i with
  | nil => simp at hi
  | cons b l ih =>
    cases i with
    | zero =>
      obtain rfl : b = a := by simpa using hi
      rw [List.eraseIdx_cons_zero, List.countP_cons_of_pos ha]
    | succ i =>
      have hrest := ih (i := i) (by simpa using hi)
      rw [List.eraseIdx_cons_succ, List.countP_cons, List.countP_cons]
      omega

theorem countP_set_le {α : Type} {p : α → Bool} {l : List α} (i : Nat) {a : α} (ha : p a = false) :
    (l.set i a).countP p ≤ l.countP p := by
  induction l generalizing i with
  | nil => simp
  | cons b l ih =>
    cases i with
    | zero =>
      rw [List.set_cons_zero, List.countP_cons_of_neg (by simp [ha]), List.countP_cons]
      omega
    | succ i =>
      have hrest := ih i
      rw [List.set_cons_succ, List.countP_cons, List.countP_cons]
      omega

/-! ## Records and counters -/

/-- The counter of successes of an unhealthy origin has not wrapped, and the next success does not
wrap it. -/
def OriginState.CounterBounded (st : OriginState) : Prop :=
  st.healthy = false → st.consecutiveSuccesses.toNat + 1 < 2 ^ 32

namespace OriginState

variable {st : OriginState}

/-- A success below the threshold is counted; one that reaches it marks the origin healthy. -/
theorem recordSuccess_cases (st : OriginState) (h : st.healthy = false)
    (hbound : st.consecutiveSuccesses.toNat + 1 < 2 ^ 32) (threshold : UInt32) :
    (threshold.toNat ≤ st.consecutiveSuccesses.toNat + 1 →
        (st.recordSuccessWithThreshold threshold).healthy = true) ∧
      (st.consecutiveSuccesses.toNat + 1 < threshold.toNat →
        (st.recordSuccessWithThreshold threshold).healthy = false) ∧
      (st.recordSuccessWithThreshold threshold).consecutiveSuccesses.toNat =
        st.consecutiveSuccesses.toNat + 1 := by
  have hsucc : (st.consecutiveSuccesses + 1).toNat = st.consecutiveSuccesses.toNat + 1 := by
    rw [UInt32.toNat_add, UInt32.toNat_one, Nat.mod_eq_of_lt hbound]
  refine ⟨fun hle => ?_, fun hlt => ?_, hsucc⟩
  · rw [healthy_recordSuccess, if_pos]
    rwa [ge_iff_le, UInt32.le_iff_toNat_le, hsucc]
  · rw [healthy_recordSuccess, if_neg, h]
    rw [ge_iff_le, UInt32.le_iff_toNat_le, hsucc]
    exact Nat.not_le.2 hlt

theorem healthy_recordFailure_of_unhealthy (h : st.healthy = false) (threshold : UInt32) :
    (st.recordFailureWithThreshold threshold).healthy = false := by
  rw [healthy_recordFailure, h, ite_self]

theorem counterBounded_recordSuccess (st : OriginState) (threshold : UInt32) :
    (st.recordSuccessWithThreshold threshold).CounterBounded := by
  intro h
  rw [healthy_recordSuccess] at h
  split at h
  · cases h
  -- below the threshold, which itself is a 32-bit value
  · next hlt =>
    rw [ge_iff_le, UInt32.le_iff_toNat_le, Nat.not_le] at hlt
    have := threshold.toNat_lt
    rw [consecutiveSuccesses_recordSuccess]
    omega

theorem counterBounded_recordFailure (st : OriginState) (threshold : UInt32) :
    (st.recordFailureWithThreshold threshold).CounterBounded := by
  intro _
  rw [consecutiveSuccesses_recordFailure]
  decide

theorem counterBounded_new : OriginState.new.CounterBounded := by
  intro h
  cases h

theorem counterBounded_recordOutcome (st : OriginState) (passiveEnabled : Bool)
    (ft threshold : UInt32) (result : Except ProxyError Response) (latency : Duration) :
    (st.recordOutcome passiveEnabled ft threshold result latency).CounterBounded := by
  cases h : failed result with
  | true =>
    rw [recordOutcome_of_failed h]
    exact counterBounded_recordFailure _ _
  | false =>
    rw [recordOutcome_of_not_failed h]
    exact counterBounded_recordSuccess _ _

theorem counterBounded_recordProbe (st : OriginState) (task : CheckerTask)
    (outcome : ProbeOutcome) : (st.recordProbe task outcome).CounterBounded := by
  cases outcome with
  | response resp =>
    simp only [recordProbe]
    split
    · exact counterBounded_recordSuccess _ _
    · exact counterBounded_recordFailure _ _
  | failed => exact counterBounded_recordFailure _ _
  | timedOut => exact counterBounded_recordFailure _ _

end OriginState

/-- The request is on its way to the origin that is stored under the key. -/
def InFlight.isTo (key : String) : InFlight → Bool
  | .forwarding origin => origin.urlKey == key
  | _ => false

/-- The checker of the configuration probes under the key. -/
def ProxyConfig.Probes (config : ProxyConfig) (key : String) : Prop :=
  config.health.active.enabled = true ∧
    ∃ origin ∈ config.origins, (ProbeTarget.ofOrigin origin).base = key

namespace World

/-- How many requests are on their way to the origin. -/
def pendingTo (w : World) (key : String) : Nat := w.inFlight.countP (InFlight.isTo key)

/-- The stages of requests and the ends of probes. -/
def IsTraffic : Event → Prop
  | .arrive _ _ _ => True
  | .limit _ _ => True
  | .select _ _ => True
  | .finish _ _ _ => True
  | .drop _ => True
  | .probe _ _ => True
  | _ => False

/-- What holds in every state that traffic and probes reach from the start. -/
structure Serving (config : ProxyConfig) (w : World) : Prop where
  checker_eq : w.checker = CheckerTask.start config
  passive_on : w.app.passiveEnabled = true
  threshold_eq : w.app.passiveSuccessThreshold = config.health.passive.successThreshold
  bounded : ∀ key st, w.app.originStates.lookup key = some st → st.CounterBounded

section Serving

variable {env : Externals} {config : ProxyConfig} {w w' : World} {e : Event} {key : String}

theorem serving_init (h : config.health.passive.enabled = true) :
    Serving config (init env config) where
  checker_eq := rfl
  passive_on := h
  threshold_eq := rfl
  bounded := fun _ _ hst => AppState.eq_new_of_lookup_new hst ▸ OriginState.counterBounded_new

theorem nextWrite_of_isTraffic (he : IsTraffic e) : w.nextWrite e = none := by
  cases e with
  | reloadStep => exact he.elim
  | rebuildStep => exact he.elim
  | _ => rfl

theorem serving_step (hs : Serving config w) (he : IsTraffic e) (h : step env w e = some w') :
    Serving config w' := by
  have hsame := sameSettings_of_nextWrite h (nextWrite_of_isTraffic he)
  refine ⟨(checker_step h).trans hs.checker_eq, hsame.passiveEnabled_eq.trans hs.passive_on,
    hsame.successThreshold_eq.trans hs.threshold_eq, ?_⟩
  exact forall_states_step OriginState.counterBounded_new
    (fun st _ _ _ _ _ _ => OriginState.counterBounded_recordOutcome st _ _ _ _ _)
    (fun st task outcome _ => OriginState.counterBounded_recordProbe st task outcome) hs.bounded h

/-! ## Answered requests -/

/-- A response that is neither a server error nor an unsuccessful probe. -/
def okResponse : Response := ⟨200, [], []⟩

/-- An answered request is counted as a success, under the threshold of the configuration. -/
theorem Serving.lookup_finish_ok (hs : Serving config w) {origin : OriginEndpoint}
    {st : OriginState} (hst : w.app.originStates.lookup origin.urlKey = some st) :
    (w.app.recordOutcome origin (.ok okResponse) 0).originStates.lookup origin.urlKey =
      some ((st.incrementRequests.recordLatency 0).recordSuccessWithThreshold
        config.health.passive.successThreshold) := by
  rw [AppState.recordOutcome, AppState.updateOrigin, Dict.lookup_modify_self, hst, Option.map_some,
    recordOutcome_of_not_failed (by decide), hs.passive_on, if_pos rfl, hs.threshold_eq]

end Serving

theorem fiveFailures_traffic : ∀ e ∈ fiveFailures, IsTraffic e := by
  intro e he
  obtain ⟨events, hevents, he⟩ := List.mem_flatten.1 he
  obtain ⟨-, rfl⟩ := List.mem_replicate.1 hevents
  simp only [requestWith, List.mem_cons, List.not_mem_nil, or_false] at he
  rcases he with rfl | rfl | rfl | rfl
  all_goals trivial

/-- The minimal configuration with an origin whose URL has a path. -/
def pathConfig : ProxyConfig :=
  .ofRoutes [RouteConfig.minimal [Url.http "127.0.0.1" (some 3000) "/api"]]

end World

namespace CheckedWorld

/-- The stages of requests, and what the checker does. -/
def IsTraffic : CheckedEvent → Prop
  | .tick => True
  | .probe _ => True
  | .other e => World.IsTraffic e

theorem isTraffic_fiveFailures : ∀ d ∈ World.fiveFailures.map .other, IsTraffic d :=
  List.forall_mem_map.2 World.fiveFailures_traffic

/-- The origin is marked healthy in some state that traffic and probes can reach. -/
def Recoverable (env : Externals) (uris : UriParser) (c : CheckedWorld) (key : String) : Prop :=
  ∃ c', Reaches (step env uris) IsTraffic c c' ∧
    ∃ st, c'.world.app.originStates.lookup key = some st ∧ st.healthy = true

/-- The targets that the checker probes in the rest of its round and in `k` more, up to the first
whose request cannot be built. -/
def ahead (uris : UriParser) (k : Nat) (c : CheckedWorld) : List ProbeTarget :=
  match c.world.checker, c.checks with
  | some task, some (.ok n) =>
      (task.targets.drop n ++ (List.replicate k task.targets).flatten).takeWhile
        fun target => (uris.parse target.url).isSome
  | _, _ => []

/-- How many of them are the origin's. -/
def probesAhead (uris : UriParser) (key : String) (k : Nat) (c : CheckedWorld) : Nat :=
  (c.ahead uris k).countP fun target => target.base == key

/-- With `p` requests on their way and `q` probes to come, all of them successful, the last one of
either kind reaches its threshold. -/
def Enough (config : ProxyConfig) (successes p q : Nat) : Prop :=
  (1 ≤ p ∧ config.health.passive.successThreshold.toNat ≤ successes + p + q) ∨
    (1 ≤ q ∧ config.health.active.healthyThreshold.toNat ≤ successes + p + q)

theorem Enough.mono {config : ProxyConfig} {successes p q p' q' : Nat}
    (h : Enough config successes p q) (hp : p ≤ p') (hq : q ≤ q') :
    Enough config successes p' q' := by
  rcases h with h | h
  · exact Or.inl (by omega)
  · exact Or.inr (by omega)

/-- What holds in every state that traffic and probes reach from the start. -/
structure Serving (config : ProxyConfig) (c : CheckedWorld) : Prop where
  world : World.Serving config c.world
  loop : InLoop config c

section Serving

variable {env : Externals} {uris : UriParser} {config : ProxyConfig} {c c' : CheckedWorld}
  {d : CheckedEvent} {key : String} {st : OriginState}

theorem serving_start (h : config.health.passive.enabled = true) :
    Serving config (start env config) :=
  ⟨World.serving_init h, inLoop_start env config⟩

theorem serving_step (hs : Serving config c) (hd : IsTraffic d) (h : step env uris c d = some c') :
    Serving config c' := by
  refine ⟨?_, inLoop_step hs.loop h⟩
  cases moves_of_step h with
  | tick _ _ => exact hs.world
  | panicked _ _ _ _ => exact hs.world
  | @probed task n target uri outcome htask _ htarget _ =>
    have hstep : World.step env c.world (.probe n outcome) = some _ :=
      World.step_of_moves (.probed htask htarget)
    have htraffic : World.IsTraffic (.probe n outcome) := trivial
    exact World.serving_step hs.world htraffic hstep
  | other _ hstep => exact World.serving_step hs.world hd hstep

theorem Recoverable.of_reaches (hreach : Reaches (step env uris) IsTraffic c c')
    (hc' : Recoverable env uris c' key) : Recoverable env uris c key := by
  obtain ⟨last, hlast, hrecovered⟩ := hc'
  exact ⟨last, hreach.trans hlast, hrecovered⟩

/-! ## What is ahead -/

theorem ahead_mk {world : World} {task : CheckerTask} (htask : world.checker = some task)
    (n k : Nat) :
    ahead uris k ⟨world, some (.ok n)⟩ =
      (task.targets.drop n ++ (List.replicate k task.targets).flatten).takeWhile
        fun target => (uris.parse target.url).isSome := by
  simp only [ahead, htask]

theorem ahead_eq {task : CheckerTask} {n : Nat} (htask : c.world.checker = some task)
    (hchecks : c.checks = some (.ok n)) (k : Nat) :
    c.ahead uris k = (task.targets.drop n ++ (List.replicate k task.targets).flatten).takeWhile
      fun target => (uris.parse target.url).isSome := by
  simp only [ahead, htask, hchecks]

theorem ahead_of_error {panic : ChecksPanic} (hchecks : c.checks = some (.error panic)) (k : Nat) :
    c.ahead uris k = [] := by
  rw [ahead, hchecks]
  split
  · next h => cases h
  · rfl

/-- After the tick the same targets are ahead, in one round fewer. -/
theorem ahead_tick {task : CheckerTask} (htask : c.world.checker = some task)
    (hchecks : c.checks = some (.ok task.targets.length)) (k : Nat) :
    ahead uris k { c with checks := some (.ok 0) } = c.ahead uris (k + 1) := by
  rw [ahead_eq htask hchecks, ahead_mk htask, List.drop_length, List.drop_zero,
    List.replicate_succ, List.flatten_cons, List.nil_append]

/-- A target that is probed was the next one. -/
theorem ahead_probed {task : CheckerTask} {n : Nat} {target : ProbeTarget} {uri : Uri}
    (htask : c.world.checker = some task) (hchecks : c.checks = some (.ok n))
    (htarget : task.targets[n]? = some target) (hrequest : probeRequest uris target = .ok uri)
    (app : AppState) (k : Nat) :
    c.ahead uris k =
      target :: ahead uris k ⟨{ c.world with app := app }, some (.ok (n + 1))⟩ := by
  obtain ⟨hlt, rfl⟩ := List.getElem?_eq_some_iff.1 htarget
  have hbuilt : (uris.parse task.targets[n].url).isSome = true := by
    rw [probeRequest] at hrequest
    split at hrequest
    · next h => rw [h]; rfl
    · cases hrequest
  have htask' : ({ c.world with app := app } : World).checker = some task := htask
  rw [ahead_eq htask hchecks, ahead_mk htask', List.drop_eq_getElem_cons hlt, List.cons_append,
    List.takeWhile_cons, if_pos hbuilt]

/-- The target at the position can be probed when it is ahead. -/
theorem Serving.exists_probed_at (env : Externals) (hs : Serving config c) {n k : Nat}
    {target : ProbeTarget} {rest : List ProbeTarget}
    (htask : c.world.checker = some (CheckerTask.ofConfig config))
    (hchecks : c.checks = some (.ok n)) (hlt : n < (CheckerTask.ofConfig config).targets.length)
    (hahead : c.ahead uris k = target :: rest) :
    ∃ c', Reaches (step env uris) IsTraffic c c' ∧ Serving config c' ∧ c'.ahead uris k = rest ∧
      c'.world = { c.world with
        app := c.world.app.finishProbe (CheckerTask.ofConfig config) target
          (.response World.okResponse) } := by
  have htarget := List.getElem?_eq_getElem hlt
  have hnext := hahead
  rw [ahead_eq htask hchecks, List.drop_eq_getElem_cons hlt, List.cons_append,
    List.takeWhile_cons] at hnext
  split at hnext
  · next hbuilt =>
    obtain ⟨uri, huri⟩ := Option.isSome_iff_exists.1 hbuilt
    have hrequest : probeRequest uris (CheckerTask.ofConfig config).targets[n] = .ok uri := by
      rw [probeRequest, huri]
    obtain ⟨hfirst, -⟩ := List.cons.inj hnext
    have htraffic : IsTraffic (.probe (.response World.okResponse)) := trivial
    have hstep : step env uris c (.probe (.response World.okResponse)) = some _ :=
      step_of_moves (.probed htask hchecks htarget hrequest)
    rw [ahead_probed htask hchecks htarget hrequest _ k] at hahead
    refine ⟨_, Reaches.single htraffic hstep, serving_step hs htraffic hstep,
      (List.cons.inj hahead).2, ?_⟩
    rw [hfirst]
  · cases hnext

/-- The next target that is ahead can be probed, after a tick between two rounds. -/
theorem Serving.exists_probed (env : Externals) (hs : Serving config c) {k : Nat}
    {target : ProbeTarget} {rest : List ProbeTarget} (hahead : c.ahead uris k = target :: rest) :
    ∃ c' k', Reaches (step env uris) IsTraffic c c' ∧ Serving config c' ∧
      c'.ahead uris k' = rest ∧ c'.world = { c.world with
        app := c.world.app.finishProbe (CheckerTask.ofConfig config) target
          (.response World.okResponse) } := by
  cases htask : c.world.checker with
  | none => simp [ahead, htask] at hahead
  | some task =>
    obtain ⟨rfl, henabled⟩ := hs.loop.eq_ofConfig htask
    cases hchecks : c.checks with
    | none => simp [ahead, htask, hchecks] at hahead
    | some r =>
      cases r with
      | error panic => simp [ahead_of_error hchecks] at hahead
      | ok n =>
        rcases Nat.lt_or_ge n (CheckerTask.ofConfig config).targets.length with hlt | hge
        · obtain ⟨c', hreach, hc', hrest, hworld⟩ :=
            hs.exists_probed_at env htask hchecks hlt hahead
          exact ⟨c', k, hreach, hc', hrest, hworld⟩
        · obtain rfl : n = (CheckerTask.ofConfig config).targets.length :=
            le_antisymm (hs.loop.position n hchecks).1 hge
          cases k with
          | zero => simp [ahead_eq htask hchecks] at hahead
          | succ k =>
            have htraffic : IsTraffic .tick := trivial
            have hstep : step env uris c .tick = some _ := step_of_moves (.tick htask hchecks)
            have hticked : ahead uris k { c with checks := some (.ok 0) } = target :: rest :=
              (ahead_tick htask hchecks k).trans hahead
            have hpos : 0 < (CheckerTask.ofConfig config).targets.length := by
              by_contra hzero
              have hnil := List.length_eq_zero_iff.1 (Nat.eq_zero_of_not_pos hzero)
              rw [ahead_mk htask, hnil] at hticked
              simp at hticked
            obtain ⟨c', hreach, hc', hrest, hworld⟩ :=
              (serving_step hs htraffic hstep).exists_probed_at env htask rfl hpos hticked
            exact ⟨c', k, (Reaches.single htraffic hstep).trans hreach, hc', hrest, hworld⟩

/-! ## Ways to recover -/

/-- An answered request marks the origin healthy, or leaves one request fewer and one success
more. -/
theorem Serving.exists_finished (env : Externals) (uris : UriParser) (hs : Serving config c)
    (hst : c.world.app.originStates.lookup key = some st) (hunhealthy : st.healthy = false)
    (hpos : 1 ≤ c.world.pendingTo key) :
    ∃ c' st', Reaches (step env uris) IsTraffic c c' ∧ Serving config c' ∧
      c'.world.app.originStates.lookup key = some st' ∧
      c'.world.pendingTo key + 1 = c.world.pendingTo key ∧
      (∀ k, c'.ahead uris k = c.ahead uris k) ∧
      (config.health.passive.successThreshold.toNat ≤ st.consecutiveSuccesses.toNat + 1 →
        st'.healthy = true) ∧
      st'.consecutiveSuccesses.toNat = st.consecutiveSuccesses.toNat + 1 := by
  obtain ⟨req, hreq, hto⟩ := List.one_le_countP_iff.1 hpos
  obtain ⟨i, hi⟩ := List.getElem?_of_mem hreq
  cases req with
  | matched _ _ _ _ => cases hto
  | admitted _ _ _ => cases hto
  | forwarding origin =>
    obtain rfl : origin.urlKey = key := by simpa [InFlight.isTo] using hto
    have hworld : World.step env c.world (.finish i (.ok World.okResponse) 0) = some _ :=
      World.step_of_moves (.finished hi)
    have hstep : step env uris c (.other (.finish i (.ok World.okResponse) 0)) = some _ :=
      step_of_moves (.other rfl hworld)
    have htraffic : IsTraffic (.other (.finish i (.ok World.okResponse) 0)) := trivial
    have hst' := hs.world.lookup_finish_ok hst
    obtain ⟨hhealthy, -, hcount⟩ := OriginState.recordSuccess_cases
      (st.incrementRequests.recordLatency 0) hunhealthy (hs.world.bounded _ st hst hunhealthy)
      config.health.passive.successThreshold
    exact ⟨_, _, Reaches.single htraffic hstep, serving_step hs htraffic hstep, hst',
      countP_eraseIdx_add_one hi hto, fun _ => rfl, hhealthy, hcount⟩

/-- A successful probe of the origin marks it healthy, or leaves one success more. Other probes do
not touch its history. -/
theorem Serving.exists_recorded (env : Externals) (hs : Serving config c)
    (hst : c.world.app.originStates.lookup key = some st) (hunhealthy : st.healthy = false)
    {k : Nat} {target : ProbeTarget} {rest : List ProbeTarget}
    (hahead : c.ahead uris k = target :: rest) :
    ∃ c' st' k', Reaches (step env uris) IsTraffic c c' ∧ Serving config c' ∧
      c'.world.app.originStates.lookup key = some st' ∧
      c'.world.pendingTo key = c.world.pendingTo key ∧ c'.ahead uris k' = rest ∧
      (target.base = key →
        (config.health.active.healthyThreshold.toNat ≤ st.consecutiveSuccesses.toNat + 1 →
          st'.healthy = true) ∧
        st'.consecutiveSuccesses.toNat = st.consecutiveSuccesses.toNat + 1) ∧
      (target.base ≠ key → st' = st) := by
  obtain ⟨c', k', hreach, hc', hrest, hworld⟩ := hs.exists_probed env hahead
  have hpending : c'.world.pendingTo key = c.world.pendingTo key := by rw [hworld]; rfl
  by_cases hbase : target.base = key
  · have hst' : c'.world.app.originStates.lookup key =
        some (st.recordSuccessWithThreshold config.health.active.healthyThreshold) := by
      rw [hworld, ← hbase]
      refine (Dict.lookup_modify_self _ _ _).trans ?_
      rw [hbase, hst]
      rfl
    obtain ⟨hhealthy, -, hcount⟩ := OriginState.recordSuccess_cases st hunhealthy
      (hs.world.bounded _ st hst hunhealthy) config.health.active.healthyThreshold
    exact ⟨c', _, k', hreach, hc', hst', hpending, hrest, fun _ => ⟨hhealthy, hcount⟩,
      fun hne => absurd hbase hne⟩
  · have hst' : c'.world.app.originStates.lookup key = some st := by
      rw [hworld]
      exact (Dict.lookup_modify_ne (Ne.symm hbase) _ _).trans hst
    exact ⟨c', st, k', hreach, hc', hst', hpending, hrest, fun heq => absurd heq hbase,
      fun _ => rfl⟩

/-- **Enough requests and probes, all successful, mark the origin healthy.** -/
theorem recoverable_of_enough {m k : Nat} (hs : Serving config c)
    (hst : c.world.app.originStates.lookup key = some st) (hunhealthy : st.healthy = false)
    (hm : c.world.pendingTo key + (c.ahead uris k).length = m)
    (henough : Enough config st.consecutiveSuccesses.toNat (c.world.pendingTo key)
      (c.probesAhead uris key k)) : Recoverable env uris c key := by
  -- on what is left to end; the kind that reaches its threshold comes last
  induction m generalizing c st k with
  | zero =>
    have hnil : c.ahead uris k = [] := List.length_eq_zero_iff.1 (by omega)
    rw [probesAhead, hnil, List.countP_nil] at henough
    rcases henough with ⟨hpos, -⟩ | ⟨hpos, -⟩
    · omega
    · omega
  | succ m ih =>
    have hfinish : 1 ≤ c.world.pendingTo key →
        (∀ p, p + 1 = c.world.pendingTo key →
          config.health.passive.successThreshold.toNat ≤ st.consecutiveSuccesses.toNat + 1 ∨
          Enough config (st.consecutiveSuccesses.toNat + 1) p (c.probesAhead uris key k)) →
        Recoverable env uris c key := by
      intro hpos hnext
      obtain ⟨c', st', hreach, hc', hst', hpending, hahead, hhealthy, hcount⟩ :=
        hs.exists_finished env uris hst hunhealthy hpos
      rcases Bool.eq_false_or_eq_true st'.healthy with hst'healthy | hst'unhealthy
      · exact ⟨c', hreach, st', hst', hst'healthy⟩
      · rcases hnext _ hpending with hreached | hstill
        · rw [hhealthy hreached] at hst'unhealthy
          cases hst'unhealthy
        · have hrest : Recoverable env uris c' key := by
            refine ih (k := k) hc' hst' hst'unhealthy (by rw [hahead]; omega) ?_
            rw [hcount, probesAhead, hahead]
            exact hstill
          exact hrest.of_reaches hreach
    have hprobe : ∀ target rest, c.ahead uris k = target :: rest →
        (target.base = key → ∀ q, q + 1 = c.probesAhead uris key k →
          config.health.active.healthyThreshold.toNat ≤ st.consecutiveSuccesses.toNat + 1 ∨
          Enough config (st.consecutiveSuccesses.toNat + 1) (c.world.pendingTo key) q) →
        Recoverable env uris c key := by
      intro target rest hahead hnext
      obtain ⟨c', st', k', hreach, hc', hst', hpending, hrest, hown, hother⟩ :=
        hs.exists_recorded env hst hunhealthy hahead
      have hlength : (c.ahead uris k).length = rest.length + 1 := by rw [hahead]; rfl
      rcases Bool.eq_false_or_eq_true st'.healthy with hst'healthy | hst'unhealthy
      · exact ⟨c', hreach, st', hst', hst'healthy⟩
      · have hrecoverable : Recoverable env uris c' key := by
          refine ih (k := k') hc' hst' hst'unhealthy (by rw [hrest, hpending]; omega) ?_
          rw [probesAhead, hrest, hpending]
          by_cases hbase : target.base = key
          · have hprobes : rest.countP (fun target => target.base == key) + 1 =
                c.probesAhead uris key k := by
              rw [probesAhead, hahead, List.countP_cons_of_pos (by simp [hbase])]
            obtain ⟨hhealthy, hcount⟩ := hown hbase
            rcases hnext hbase _ hprobes with hreached | hstill
            · rw [hhealthy hreached] at hst'unhealthy
              cases hst'unhealthy
            · rw [hcount]
              exact hstill
          · rw [hother hbase]
            rwa [probesAhead, hahead, List.countP_cons_of_neg (by simp [hbase])] at henough
        exact hrecoverable.of_reaches hreach
    rcases henough with ⟨hpos, hthreshold⟩ | ⟨hpos, hthreshold⟩
    · -- the requests come last
      cases hahead : c.ahead uris k with
      | nil =>
        have hnone : c.probesAhead uris key k = 0 := by rw [probesAhead, hahead]; rfl
        refine hfinish hpos fun p hp => ?_
        by_cases hlast : p = 0
        · exact Or.inl (by omega)
        · exact Or.inr (Or.inl (by omega))
      | cons target rest =>
        exact hprobe target rest hahead fun _ q hq => Or.inr (Or.inl (by omega))
    · -- the probes come last
      by_cases hpending : 1 ≤ c.world.pendingTo key
      · exact hfinish hpending fun p hp => Or.inr (Or.inr (by omega))
      · cases hahead : c.ahead uris k with
        | nil =>
          rw [probesAhead, hahead, List.countP_nil] at hpos
          omega
        | cons target rest =>
          refine hprobe target rest hahead fun _ q hq => ?_
          by_cases hlast : q = 0
          · exact Or.inl (by omega)
          · exact Or.inr (Or.inr (by omega))

/-! ## Origins that cannot recover -/

/-- The origin is unhealthy, and what is on its way and ahead is not enough to change that. -/
def Stuck (uris : UriParser) (config : ProxyConfig) (key : String) (c : CheckedWorld) : Prop :=
  ∃ st, c.world.app.originStates.lookup key = some st ∧ st.healthy = false ∧
    ∀ k, ¬ Enough config st.consecutiveSuccesses.toNat (c.world.pendingTo key)
      (c.probesAhead uris key k)

/-- A step that leaves the history alone, sends no further request to the origin and makes no
further probe of it. -/
theorem Stuck.mono (hs : Stuck uris config key c)
    (hlookup : c'.world.app.originStates.lookup key = c.world.app.originStates.lookup key)
    (hpending : c'.world.pendingTo key ≤ c.world.pendingTo key)
    (hahead : ∀ k, ∃ k', c'.probesAhead uris key k ≤ c.probesAhead uris key k') :
    Stuck uris config key c' := by
  obtain ⟨st, hst, hunhealthy, hfew⟩ := hs
  refine ⟨st, hlookup.trans hst, hunhealthy, fun k henough => ?_⟩
  obtain ⟨k', hk'⟩ := hahead k
  exact hfew k' (henough.mono hpending hk')

/-- The result of a request to the origin does not help it. -/
theorem Stuck.finish (hserving : Serving config c) {i : Nat} {origin : OriginEndpoint}
    (hs : Stuck uris config origin.urlKey c)
    (hi : c.world.inFlight[i]? = some (.forwarding origin))
    (result : Except ProxyError Response) (latency : Duration) :
    Stuck uris config origin.urlKey { c with world := { c.world with
      app := c.world.app.recordOutcome origin result latency
      inFlight := c.world.inFlight.eraseIdx i } } := by
  obtain ⟨st, hst, hunhealthy, hfew⟩ := hs
  have hrest : (c.world.inFlight.eraseIdx i).countP (InFlight.isTo origin.urlKey) + 1 =
      c.world.pendingTo origin.urlKey := countP_eraseIdx_add_one hi (by simp [InFlight.isTo])
  have hst' : (c.world.app.recordOutcome origin result latency).originStates.lookup
      origin.urlKey = some (st.recordOutcome c.world.app.passiveEnabled
        c.world.app.passiveFailureThreshold c.world.app.passiveSuccessThreshold result
          latency) := by
    rw [AppState.recordOutcome, AppState.updateOrigin, Dict.lookup_modify_self, hst,
      Option.map_some]
  rw [hserving.world.passive_on, hserving.world.threshold_eq] at hst'
  cases hresult : failed result with
  | true =>
    rw [recordOutcome_of_failed hresult] at hst'
    refine ⟨_, hst', OriginState.healthy_recordFailure_of_unhealthy hunhealthy _,
      fun k henough => hfew k ?_⟩
    have hnext : Enough config 0
        ((c.world.inFlight.eraseIdx i).countP (InFlight.isTo origin.urlKey))
        (c.probesAhead uris origin.urlKey k) := henough
    rcases hnext with h | h
    · exact Or.inl (by omega)
    · exact Or.inr (by omega)
  | false =>
    rw [recordOutcome_of_not_failed hresult, if_pos rfl] at hst'
    -- a success that is not enough, with one request fewer on its way
    obtain ⟨-, hstill, hcount⟩ := OriginState.recordSuccess_cases
      (st.incrementRequests.recordLatency latency) hunhealthy
      (hserving.world.bounded _ st hst hunhealthy) config.health.passive.successThreshold
    have hcs : (st.incrementRequests.recordLatency latency).consecutiveSuccesses =
        st.consecutiveSuccesses := rfl
    rw [hcs] at hstill hcount
    have hlt : st.consecutiveSuccesses.toNat + 1 <
        config.health.passive.successThreshold.toNat := by
      by_contra hreached
      exact hfew 0 (Or.inl (by omega))
    refine ⟨_, hst', hstill hlt, fun k henough => hfew k ?_⟩
    rw [hcount] at henough
    have hnext : Enough config (st.consecutiveSuccesses.toNat + 1)
        ((c.world.inFlight.eraseIdx i).countP (InFlight.isTo origin.urlKey))
        (c.probesAhead uris origin.urlKey k) := henough
    rcases hnext with h | h
    · exact Or.inl (by omega)
    · exact Or.inr (by omega)

/-- Nor does the outcome of a probe. -/
theorem Stuck.probe (hserving : Serving config c) {n : Nat} {target : ProbeTarget} {uri : Uri}
    (hs : Stuck uris config target.base c)
    (htask : c.world.checker = some (CheckerTask.ofConfig config))
    (hchecks : c.checks = some (.ok n))
    (htarget : (CheckerTask.ofConfig config).targets[n]? = some target)
    (hrequest : probeRequest uris target = .ok uri) (outcome : ProbeOutcome) :
    Stuck uris config target.base ⟨{ c.world with
      app := c.world.app.finishProbe (CheckerTask.ofConfig config) target outcome },
      some (.ok (n + 1))⟩ := by
  obtain ⟨st, hst, hunhealthy, hfew⟩ := hs
  have hst' : (c.world.app.finishProbe (CheckerTask.ofConfig config) target
      outcome).originStates.lookup target.base =
        some (st.recordProbe (CheckerTask.ofConfig config) outcome) := by
    rw [AppState.finishProbe, AppState.updateOrigin, Dict.lookup_modify_self, hst,
      Option.map_some]
  have hprobes : ∀ k, c.probesAhead uris target.base k = probesAhead uris target.base k
      ⟨{ c.world with
        app := c.world.app.finishProbe (CheckerTask.ofConfig config) target outcome },
        some (.ok (n + 1))⟩ + 1 := by
    intro k
    rw [probesAhead, ahead_probed htask hchecks htarget hrequest
      (c.world.app.finishProbe (CheckerTask.ofConfig config) target outcome) k,
      List.countP_cons_of_pos (by simp)]
    rfl
  have hfailed : (st.recordFailureWithThreshold
        (CheckerTask.ofConfig config).unhealthyThreshold) =
      st.recordProbe (CheckerTask.ofConfig config) outcome →
      Stuck uris config target.base ⟨{ c.world with
        app := c.world.app.finishProbe (CheckerTask.ofConfig config) target outcome },
        some (.ok (n + 1))⟩ := by
    intro hrecord
    rw [← hrecord] at hst'
    refine ⟨_, hst', OriginState.healthy_recordFailure_of_unhealthy hunhealthy _,
      fun k henough => hfew k ?_⟩
    rw [hprobes k]
    have hnext : Enough config 0 (c.world.pendingTo target.base) (probesAhead uris target.base k
      ⟨{ c.world with
        app := c.world.app.finishProbe (CheckerTask.ofConfig config) target outcome },
        some (.ok (n + 1))⟩) := henough
    rcases hnext with h | h
    · exact Or.inl (by omega)
    · exact Or.inr (by omega)
  cases outcome with
  | response resp =>
    cases hresp : resp.isSuccess with
    | false => exact hfailed (by simp [OriginState.recordProbe, hresp])
    | true =>
      simp only [OriginState.recordProbe, hresp, if_true] at hst'
      obtain ⟨-, hstill, hcount⟩ := OriginState.recordSuccess_cases st hunhealthy
        (hserving.world.bounded _ st hst hunhealthy)
        (CheckerTask.ofConfig config).healthyThreshold
      have hlt : st.consecutiveSuccesses.toNat + 1 <
          (CheckerTask.ofConfig config).healthyThreshold.toNat := by
        by_contra hreached
        refine hfew 0 (Or.inr ?_)
        rw [hprobes 0]
        have hthreshold : (CheckerTask.ofConfig config).healthyThreshold =
          config.health.active.healthyThreshold := rfl
        rw [hthreshold] at hreached
        omega
      refine ⟨_, hst', hstill hlt, fun k henough => hfew k ?_⟩
      rw [hcount] at henough
      rw [hprobes k]
      have hnext : Enough config (st.consecutiveSuccesses.toNat + 1)
        (c.world.pendingTo target.base) (probesAhead uris target.base k ⟨{ c.world with
          app := c.world.app.finishProbe (CheckerTask.ofConfig config) target (.response resp) },
          some (.ok (n + 1))⟩) := henough
      rcases hnext with h | h
      · exact Or.inl (by omega)
      · exact Or.inr (by omega)
  | failed => exact hfailed rfl
  | timedOut => exact hfailed rfl

/-- **Traffic and probes do not help an origin that is stuck.** -/
theorem stuck_step (hserving : Serving config c) (hs : Stuck uris config key c) (hd : IsTraffic d)
    (h : step env uris c d = some c') : Stuck uris config key c' := by
  cases moves_of_step h with
  | tick htask hchecks =>
    refine hs.mono rfl le_rfl fun k => ⟨k + 1, ?_⟩
    rw [probesAhead, probesAhead, ahead_tick htask hchecks]
  | panicked _ _ _ _ =>
    refine hs.mono rfl le_rfl fun k => ⟨k, ?_⟩
    rw [probesAhead, ahead_of_error rfl]
    exact Nat.zero_le _
  | @probed task n target uri outcome htask hchecks htarget hrequest =>
    obtain ⟨rfl, -⟩ := hserving.loop.eq_ofConfig htask
    by_cases hbase : target.base = key
    · subst hbase
      exact hs.probe hserving htask hchecks htarget hrequest outcome
    · refine hs.mono (Dict.lookup_modify_ne (Ne.symm hbase) _ _) le_rfl fun k => ⟨k, ?_⟩
      rw [probesAhead, probesAhead, ahead_probed htask hchecks htarget hrequest _ k]
      exact (List.sublist_cons_self _ _).countP_le
  | @other e world hprobed hstep =>
    have hahead : ∀ k, ∃ k', probesAhead uris key k { c with world := world } ≤
        c.probesAhead uris key k' := fun k => by
      refine ⟨k, le_of_eq ?_⟩
      simp only [probesAhead, ahead, World.checker_step hstep]
    cases World.moves_of_step hstep with
    | reloadStart _ _ => exact hd.elim
    | reloadStep _ => exact hd.elim
    | ignored _ _ _ => exact hd.elim
    | discovered _ _ _ => exact hd.elim
    | rebuildLoad _ _ => exact hd.elim
    | rebuildStep _ => exact hd.elim
    | swept => exact hd.elim
    | probed _ _ => cases hprobed
    | unmatched _ => exact hs
    | matched _ _ =>
      refine hs.mono rfl ?_ hahead
      rw [World.pendingTo, List.countP_append]
      exact le_rfl
    | @limited i now generation index entry ip hi _ =>
      refine hs.mono ?_ (List.eraseIdx_sublist _ _).countP_le hahead
      rw [AppState.originStates_checkLimits]
    | @admitted i now generation index entry ip hi _ =>
      refine hs.mono ?_ (countP_set_le i rfl) hahead
      rw [AppState.originStates_checkLimits]
    | refused _ _ => exact hs.mono rfl (List.eraseIdx_sublist _ _).countP_le hahead
    | dropped _ => exact hs.mono rfl (List.eraseIdx_sublist _ _).countP_le hahead
    -- no balancer selects the origin, so the new request is on its way to another one
    | @selected i draw generation index entry origin hi hsome =>
      refine hs.mono rfl (countP_set_le i ?_) hahead
      obtain ⟨st, hst, hunhealthy, -⟩ := hs
      obtain ⟨-, hnot⟩ := not_unhealthy_of_selectOrigin hsome
      have hne : origin.urlKey ≠ key := by
        rintro rfl
        simp [OriginStates.isUnhealthy, hst, hunhealthy] at hnot
      simpa [InFlight.isTo] using hne
    | @finished i result latency origin hi =>
      by_cases hkey : origin.urlKey = key
      · subst hkey
        exact hs.finish hserving hi result latency
      · exact hs.mono (Dict.lookup_modify_ne (Ne.symm hkey) _ _)
          (List.eraseIdx_sublist _ _).countP_le hahead

/-- An origin that is stuck is unhealthy for ever. -/
theorem not_recoverable_of_stuck (hserving : Serving config c) (hs : Stuck uris config key c) :
    ¬ Recoverable env uris c key := by
  rintro ⟨last, hreach, st, hst, hhealthy⟩
  obtain ⟨-, st', hst', hunhealthy, -⟩ :=
    hreach.invariant (I := fun c => Serving config c ∧ Stuck uris config key c)
      (fun c d c' hI hd h => ⟨serving_step hI.1 hd h, stuck_step hI.1 hI.2 hd h⟩)
      ⟨hserving, hs⟩
  rw [hst] at hst'
  obtain rfl := Option.some.inj hst'
  rw [hhealthy] at hunhealthy
  cases hunhealthy

/-! ## How far the checker comes -/

/-- The targets of further rounds follow those of this one and the next. -/
theorem countP_takeWhile_append_le {α : Type} (p b : α → Bool) (l r : List α) :
    (l.takeWhile b).countP p ≤ ((l ++ r).takeWhile b).countP p := by
  rw [List.takeWhile_append]
  split
  · rw [List.countP_append]
    exact (List.takeWhile_sublist b).countP_le.trans (Nat.le_add_right _ _)
  · exact le_rfl

/-- A list does not go on behind an entry that ends it. -/
theorem takeWhile_append_of_exists_neg {α : Type} {b : α → Bool} {l : List α}
    (h : ∃ a ∈ l, b a = false) (r : List α) : (l ++ r).takeWhile b = l.takeWhile b := by
  obtain ⟨a, ha, hfalse⟩ := h
  rw [List.takeWhile_append, if_neg]
  intro hlength
  have hall : l.takeWhile b = l := (List.takeWhile_prefix b).eq_of_length hlength
  rw [← hall] at ha
  exact absurd (List.mem_takeWhile_imp ha) (by simp [hfalse])

/-- **A checker that is to die makes no probe after the next round.** -/
theorem probesAhead_le_of_not_live (hloop : InLoop config c) (hlive : ¬ ChecksLive uris config)
    (k : Nat) : c.probesAhead uris key k ≤ c.probesAhead uris key 1 := by
  cases htask : c.world.checker with
  | none => simp [probesAhead, ahead, htask]
  | some task =>
    obtain ⟨rfl, henabled⟩ := hloop.eq_ofConfig htask
    cases hchecks : c.checks with
    | none => simp [probesAhead, ahead, htask, hchecks]
    | some r =>
      cases r with
      | error panic => rw [probesAhead, ahead_of_error hchecks]; exact Nat.zero_le _
      | ok n =>
        -- it got past its interval, so some request of a round cannot be built
        have hunbuildable : ∃ target ∈ (CheckerTask.ofConfig config).targets.drop n ++
            (CheckerTask.ofConfig config).targets, (uris.parse target.url).isSome = false := by
          by_contra hall
          refine hlive ⟨(hloop.position n hchecks).2, fun origin horigin => ?_⟩
          by_contra hnone
          refine hall ⟨_, List.mem_append_right _ (List.mem_map_of_mem horigin), ?_⟩
          exact Bool.eq_false_iff.2 hnone
        rw [probesAhead, probesAhead, ahead_eq htask hchecks, ahead_eq htask hchecks,
          List.replicate_one, List.flatten_singleton]
        cases k with
        | zero =>
          rw [List.replicate_zero, List.flatten_nil, List.append_nil]
          exact countP_takeWhile_append_le _ _ _ _
        | succ k =>
          rw [List.replicate_succ, List.flatten_cons, ← List.append_assoc,
            takeWhile_append_of_exists_neg hunbuildable]

/-- Nor does any probe reach a history that none of the targets has. -/
theorem probesAhead_of_not_probes (hloop : InLoop config c) (hprobes : ¬ config.Probes key)
    (k : Nat) : c.probesAhead uris key k = 0 := by
  cases htask : c.world.checker with
  | none => simp [probesAhead, ahead, htask]
  | some task =>
    obtain ⟨rfl, henabled⟩ := hloop.eq_ofConfig htask
    refine List.countP_eq_zero.2 fun target htarget hbase => ?_
    have hmem : target ∈ (CheckerTask.ofConfig config).targets := by
      rw [ahead, htask] at htarget
      split at htarget
      · next task' n htask' _ =>
        obtain rfl := Option.some.inj htask'
        rcases List.mem_append.1 ((List.takeWhile_subset _) htarget) with hmem | hmem
        · exact List.mem_of_mem_drop hmem
        · obtain ⟨l, hl, hmem⟩ := List.mem_flatten.1 hmem
          rwa [List.eq_of_mem_replicate hl] at hmem
      · cases htarget
    obtain ⟨origin, horigin, rfl⟩ := List.mem_map.1 hmem
    exact hprobes ⟨henabled, origin, horigin, by simpa using hbase⟩

/-- Live checks probe each origin of the configuration in each round. -/
theorem le_probesAhead_of_live (hloop : InLoop config c) (hlive : ChecksLive uris config)
    (hprobes : config.Probes key) {n : Nat} (hchecks : c.checks = some (.ok n)) (k : Nat) :
    k ≤ c.probesAhead uris key k := by
  obtain ⟨henabled, origin, horigin, hbase⟩ := hprobes
  have htask : c.world.checker = some (CheckerTask.ofConfig config) := by
    rw [hloop.checker_eq, CheckerTask.start, if_pos henabled]
  have htargets : ∀ target ∈ (CheckerTask.ofConfig config).targets,
      (uris.parse target.url).isSome = true := by
    intro target htarget
    obtain ⟨origin, horigin, rfl⟩ := List.mem_map.1 htarget
    exact hlive.buildable origin horigin
  have hall : ∀ target ∈ (CheckerTask.ofConfig config).targets.drop n ++
      (List.replicate k (CheckerTask.ofConfig config).targets).flatten,
      (uris.parse target.url).isSome = true := by
    intro target htarget
    rcases List.mem_append.1 htarget with hmem | hmem
    · exact htargets target (List.mem_of_mem_drop hmem)
    · obtain ⟨l, hl, hmem⟩ := List.mem_flatten.1 hmem
      exact htargets target (List.eq_of_mem_replicate hl ▸ hmem)
  have hround : 1 ≤ (CheckerTask.ofConfig config).targets.countP
      fun target => target.base == key :=
    List.one_le_countP_iff.2 ⟨_, List.mem_map_of_mem horigin, by simp [hbase]⟩
  rw [probesAhead, ahead_eq htask hchecks, List.takeWhile_eq_self_iff.2 hall, List.countP_append,
    List.countP_flatten, List.map_replicate, List.sum_replicate_nat]
  calc k = k * 1 := (Nat.mul_one k).symm
    _ ≤ k * _ := Nat.mul_le_mul_left k hround
    _ ≤ _ := Nat.le_add_left _ _

/-- In some number of rounds there are enough probes exactly when the checks are live and reach the
history, or when this round and the next are enough. -/
theorem exists_enough_iff (hloop : InLoop config c)
    (halive : ChecksLive uris config → config.Probes key → ∃ n, c.checks = some (.ok n))
    (successes p : Nat) :
    (∃ k, Enough config successes p (c.probesAhead uris key k)) ↔
      (ChecksLive uris config ∧ config.Probes key) ∨
        Enough config successes p (c.probesAhead uris key 1) := by
  constructor
  · rintro ⟨k, henough⟩
    by_cases hlive : ChecksLive uris config
    · by_cases hprobes : config.Probes key
      · exact Or.inl ⟨hlive, hprobes⟩
      · rw [probesAhead_of_not_probes hloop hprobes] at henough ⊢
        exact Or.inr henough
    · exact Or.inr (henough.mono le_rfl (probesAhead_le_of_not_live hloop hlive k))
  · rintro (⟨hlive, hprobes⟩ | henough)
    · obtain ⟨n, hchecks⟩ := halive hlive hprobes
      have hle := le_probesAhead_of_live hloop hlive hprobes hchecks
        (config.health.active.healthyThreshold.toNat + 1)
      exact ⟨config.health.active.healthyThreshold.toNat + 1, Or.inr (by omega)⟩
    · exact ⟨1, henough⟩

end Serving

/-- **An unhealthy origin can recover exactly when the checks live and reach its history, or enough
requests and probes to it are still to end.** -/
theorem recoverable_iff (env : Externals) (uris : UriParser) (config : ProxyConfig)
    (hpassive : config.health.passive.enabled = true) (c : CheckedWorld)
    (hc : Reaches (step env uris) IsTraffic (start env config) c) (key : String)
    (st : OriginState) (hst : c.world.app.originStates.lookup key = some st)
    (hunhealthy : st.healthy = false) :
    Recoverable env uris c key ↔
      (ChecksLive uris config ∧ config.Probes key) ∨
        Enough config st.consecutiveSuccesses.toNat (c.world.pendingTo key)
          (c.probesAhead uris key 1) := by
  have hserving : Serving config c :=
    hc.invariant (fun c d c' hs hd h => serving_step hs hd h) (serving_start hpassive)
  obtain ⟨ds, -, hrun⟩ := hc
  have halive : ChecksLive uris config → config.Probes key → ∃ n, c.checks = some (.ok n) :=
    fun hlive hprobes => hlive.alive hprobes.1 hrun
  rw [← exists_enough_iff hserving.loop halive]
  constructor
  · intro hrecoverable
    by_contra hnot
    exact not_recoverable_of_stuck hserving ⟨st, hst, hunhealthy, not_exists.1 hnot⟩ hrecoverable
  · rintro ⟨k, henough⟩
    exact recoverable_of_enough hserving hst hunhealthy rfl henough

/-- After five failures the origin with a path is unhealthy, and its probes can bring it back. -/
theorem recoverable_path :
    ∃ c, run (step .none .simple) (start .none World.pathConfig) (World.fiveFailures.map .other) =
        some c ∧
      (c.world.app.originStates.lookup "http://127.0.0.1:3000/api").map OriginState.healthy =
        some false ∧
      Recoverable .none .simple c "http://127.0.0.1:3000/api" := by
  have hrun : (run (step .none .simple) (start .none World.pathConfig)
      (World.fiveFailures.map .other)).map (fun c =>
        (c.world.app.originStates.lookup "http://127.0.0.1:3000/api").map OriginState.healthy) =
        some (some false) := by decide +kernel
  obtain ⟨c, hc, hflag⟩ := Option.map_eq_some_iff.1 hrun
  obtain ⟨st, hst, hunhealthy⟩ := Option.map_eq_some_iff.1 hflag
  have hlive : ChecksLive .simple World.pathConfig :=
    ⟨by decide, List.forall_mem_singleton.2 (by decide)⟩
  have hprobes : World.pathConfig.Probes "http://127.0.0.1:3000/api" :=
    ⟨rfl, ⟨Url.http "127.0.0.1" (some 3000) "/api", none, none⟩, by decide, by decide⟩
  exact ⟨c, hc, hflag, (recoverable_iff .none .simple World.pathConfig rfl c
    ⟨_, isTraffic_fiveFailures, hc⟩ _ st hst hunhealthy).2 (Or.inl ⟨hlive, hprobes⟩)⟩

/-- **After five failures the origin of the minimal configuration is unhealthy for ever.** -/
theorem minimal_not_recoverable :
    ProxyConfig.minimal.validate .empty = .ok () ∧
      ∃ c, Reaches (step .none .simple) IsTraffic (start .none ProxyConfig.minimal) c ∧
        c.world.app.passiveEnabled = true ∧
        (c.world.app.originStates.lookup "http://127.0.0.1:3000/").map OriginState.healthy =
          some false ∧
        ¬ Recoverable .none .simple c "http://127.0.0.1:3000/" := by
  have hrun : (run (step .none .simple) (start .none ProxyConfig.minimal)
      (World.fiveFailures.map .other)).map (fun c =>
        ((c.world.app.originStates.lookup "http://127.0.0.1:3000/").map OriginState.healthy,
          c.world.pendingTo "http://127.0.0.1:3000/")) = some (some false, 0) := by decide +kernel
  obtain ⟨c, hc, heq⟩ := Option.map_eq_some_iff.1 hrun
  obtain ⟨hflag, hpending⟩ := Prod.mk.inj heq
  obtain ⟨st, hst, hunhealthy⟩ := Option.map_eq_some_iff.1 hflag
  have hreach : Reaches (step .none .simple) IsTraffic (start .none ProxyConfig.minimal) c :=
    ⟨_, isTraffic_fiveFailures, hc⟩
  have hserving : Serving ProxyConfig.minimal c :=
    hreach.invariant (fun c d c' hs hd h => serving_step hs hd h) (serving_start rfl)
  have hprobes : ¬ ProxyConfig.minimal.Probes "http://127.0.0.1:3000/" := by
    rintro ⟨-, origin, horigin, hbase⟩
    have hne : ∀ origin ∈ ProxyConfig.minimal.origins,
        (ProbeTarget.ofOrigin origin).base ≠ "http://127.0.0.1:3000/" := by decide
    exact hne origin horigin hbase
  refine ⟨by decide, c, hreach, hserving.world.passive_on, hflag,
    not_recoverable_of_stuck hserving ⟨st, hst, hunhealthy, fun k henough => ?_⟩⟩
  rw [probesAhead_of_not_probes hserving.loop hprobes, hpending] at henough
  rcases henough with ⟨hpos, -⟩ | ⟨hpos, -⟩
  all_goals exact absurd hpos (by decide)

end CheckedWorld

end Upstreamer
