import Upstreamer.Server
import Upstreamer.Health.Checker
import Upstreamer.Health.Discovery

/-!
# The proxy as a machine

All tasks of the proxy, as one machine whose events are the single accesses to the shared state: the
writes of a reload and of a discovery rebuild, the stages of the requests in flight, the records of
finished probes and the cleanup of limiters. A run is any sequence of events that can happen, so it
is any interleaving. One access to a limiter, a balancer or the history of an origin is one event.
The probes of the checker come in any order here, and never kill it.

`Moves` says once what each event can do (`moves_of_step`, `step_of_moves`); invariants are proved
by cases on it.
-/

set_option autoImplicit false

namespace Upstreamer

open Foundations

/-- The file system that `validate` asks and the parser of the `url` crate. -/
structure Externals where
  fs : FileSystem
  parseUrl : String → Option Url

/-- No file exists and no text is a URL. -/
def Externals.none : Externals := ⟨.empty, fun _ => Option.none⟩

/-- A reload: none in progress, or the writes it has still to make. -/
inductive ReloadPhase where
  | idle
  | applying (config : ProxyConfig) (todo : List Write)

/-- A discovery rebuild: none in progress, the map updated, or the configuration loaded and the
router built from it, with the writes still to make. -/
inductive RebuildPhase where
  | idle
  | discovered
  | applying (loaded : ProxyConfig) (todo : List Write)

/-- A request by the stage it has reached: it holds the route it was matched to, which stays alive
when the router is swapped, and later the origin it is forwarded to. -/
inductive InFlight where
  | matched (generation index : Nat) (entry : RouteEntry) (ip : IpAddr)
  | admitted (generation index : Nat) (entry : RouteEntry)
  | forwarding (origin : OriginEndpoint)

structure World where
  app : AppState
  reload : ReloadPhase
  rebuild : RebuildPhase
  k8sOrigins : K8sOrigins
  discovering : Bool
  checker : Option CheckerTask
  inFlight : List InFlight

/-- What can happen next. A request in flight is named by its position. -/
inductive Event where
  | reloadStart (config : ProxyConfig)
  | reloadStep
  | discover (svc : Service)
  | rebuildLoad (order : List String)
  | rebuildStep
  | arrive (host path : String) (ip : IpAddr)
  | limit (i : Nat) (now : Instant)
  | select (i : Nat) (draw : Draw)
  | finish (i : Nat) (result : Except ProxyError Response) (latency : Duration)
  | drop (i : Nat)
  | probe (i : Nat) (outcome : ProbeOutcome)
  | sweep (now : Instant)

/-- The target that the event probes. -/
def Event.probed : Event → Option Nat
  | .probe i _ => some i
  | _ => none

def ReloadPhase.after (config : ProxyConfig) : List Write → ReloadPhase
  | [] => .idle
  | write :: todo => .applying config (write :: todo)

def RebuildPhase.after (loaded : ProxyConfig) : List Write → RebuildPhase
  | [] => .idle
  | write :: todo => .applying loaded (write :: todo)

/-- The writes that a reload has still to make. -/
def ReloadPhase.todo : ReloadPhase → List Write
  | .idle => []
  | .applying _ todo => todo

/-- The writes that a rebuild has still to make. -/
def RebuildPhase.todo : RebuildPhase → List Write
  | .idle => []
  | .discovered => []
  | .applying _ todo => todo

@[simp]
theorem ReloadPhase.todo_after (config : ProxyConfig) (todo : List Write) :
    (ReloadPhase.after config todo).todo = todo := by
  cases todo <;> rfl

@[simp]
theorem RebuildPhase.todo_after (loaded : ProxyConfig) (todo : List Write) :
    (RebuildPhase.after loaded todo).todo = todo := by
  cases todo <;> rfl

/-- The cleanup task of `main`: buckets idle for more than 300 seconds are dropped. -/
def AppState.sweep (app : AppState) (now : Instant) : AppState :=
  { app with
    ratelimiter := app.ratelimiter.map fun limiter => limiter.cleanupStale 300 now
    routeRatelimiters :=
      Dict.mapValues (fun limiter => limiter.cleanupStale 300 now) app.routeRatelimiters }

namespace World

/-- The proxy as `main` starts it. -/
def init (env : Externals) (config : ProxyConfig) : World where
  app := AppState.new env.fs config
  reload := .idle
  rebuild := .idle
  k8sOrigins := ∅
  discovering := config.kubernetes.isSome
  checker := CheckerTask.start config
  inFlight := []

def step (env : Externals) (w : World) : Event → Option World
  | .reloadStart config =>
      -- one watcher task: the next reload starts when the last one is completed
      match w.reload, config.validate env.fs with
      | .idle, .ok () => some { w with reload := .applying config (reloadWrites config) }
      | _, _ => none
  | .reloadStep =>
      match w.reload with
      | .applying config (write :: todo) =>
          some { w with app := w.app.apply write, reload := .after config todo }
      | _ => none
  | .discover svc =>
      -- the watcher awaits each rebuild before it takes the next service
      match w.rebuild, w.discovering with
      | .idle, true =>
          match serviceToOrigin env.parseUrl svc with
          | some (pool, url) =>
              some { w with k8sOrigins := w.k8sOrigins.push pool url, rebuild := .discovered }
          | none => some w
      | _, _ => none
  | .rebuildLoad order =>
      match w.rebuild with
      | .discovered =>
          if w.k8sOrigins.IterationOrder order then
            some { w with
              rebuild :=
                -- the configuration is read once, before the router is built from it
                .applying w.app.config (rebuildWrites w.app.config w.k8sOrigins order) }
          else
            none
      | _ => none
  | .rebuildStep =>
      match w.rebuild with
      | .applying loaded (write :: todo) =>
          some { w with app := w.app.apply write, rebuild := .after loaded todo }
      | _ => none
  | .arrive host path ip =>
      match w.app.router.matchIndex host path with
      | none => some w
      | some index =>
          match w.app.router.routes[index]? with
          | none => some w
          | some entry =>
              some { w with
                -- the request keeps the route it was matched to when the router is swapped
                inFlight := w.inFlight ++ [.matched w.app.generation index entry ip] }
  | .limit i now =>
      match w.inFlight[i]? with
      | some (.matched generation index entry ip) =>
          let (allowed, app) := w.app.checkLimits entry ip now
          if !allowed then
            some { w with app := app, inFlight := w.inFlight.eraseIdx i }
          else
            some { w with
              app := app
              inFlight := w.inFlight.set i (.admitted generation index entry) }
      | _ => none
  | .select i draw =>
      match w.inFlight[i]? with
      | some (.admitted generation index entry) =>
          let (origin, app) := w.app.selectOrigin generation index entry draw
          match origin with
          | none => some { w with app := app, inFlight := w.inFlight.eraseIdx i }
          | some origin =>
              some { w with app := app, inFlight := w.inFlight.set i (.forwarding origin) }
      | _ => none
  | .finish i result latency =>
      match w.inFlight[i]? with
      | some (.forwarding origin) =>
          some { w with
            app := w.app.recordOutcome origin result latency
            inFlight := w.inFlight.eraseIdx i }
      | _ => none
  | .drop i =>
      match w.inFlight[i]? with
      -- the client is gone: the server drops the call while it waits for the body or the origin,
      -- and nothing is recorded
      | some (.forwarding _) => some { w with inFlight := w.inFlight.eraseIdx i }
      | _ => none
  | .probe i outcome =>
      match w.checker with
      | none => none
      | some task =>
          match task.targets[i]? with
          | none => none
          | some target => some { w with app := w.app.finishProbe task target outcome }
  | .sweep now => some { w with app := w.app.sweep now }

/-- What the events do, one constructor for each way a step can go. -/
inductive Moves (env : Externals) (w : World) : Event → World → Prop
  | reloadStart {config : ProxyConfig} (hidle : w.reload = .idle)
      (hvalid : config.validate env.fs = .ok ()) :
      Moves env w (.reloadStart config)
        { w with reload := .applying config (reloadWrites config) }
  | reloadStep {config : ProxyConfig} {write : Write} {todo : List Write}
      (hphase : w.reload = .applying config (write :: todo)) :
      Moves env w .reloadStep { w with app := w.app.apply write, reload := .after config todo }
  | ignored {svc : Service} (hidle : w.rebuild = .idle) (hactive : w.discovering = true)
      (hnone : serviceToOrigin env.parseUrl svc = none) : Moves env w (.discover svc) w
  | discovered {svc : Service} {pool : String} {url : Url} (hidle : w.rebuild = .idle)
      (hactive : w.discovering = true)
      (hsome : serviceToOrigin env.parseUrl svc = some (pool, url)) :
      Moves env w (.discover svc)
        { w with k8sOrigins := w.k8sOrigins.push pool url, rebuild := .discovered }
  | rebuildLoad {order : List String} (hphase : w.rebuild = .discovered)
      (horder : w.k8sOrigins.IterationOrder order) :
      Moves env w (.rebuildLoad order)
        { w with
          rebuild := .applying w.app.config (rebuildWrites w.app.config w.k8sOrigins order) }
  | rebuildStep {loaded : ProxyConfig} {write : Write} {todo : List Write}
      (hphase : w.rebuild = .applying loaded (write :: todo)) :
      Moves env w .rebuildStep { w with app := w.app.apply write, rebuild := .after loaded todo }
  | unmatched {host path : String} {ip : IpAddr}
      (hnone : w.app.router.matchRoute host path = none) :
      Moves env w (.arrive host path ip) w
  | matched {host path : String} {ip : IpAddr} {index : Nat} {entry : RouteEntry}
      (hindex : w.app.router.matchIndex host path = some index)
      (hentry : w.app.router.routes[index]? = some entry) :
      Moves env w (.arrive host path ip)
        { w with inFlight := w.inFlight ++ [.matched w.app.generation index entry ip] }
  | limited {i : Nat} {now : Instant} {generation index : Nat} {entry : RouteEntry} {ip : IpAddr}
      (hi : w.inFlight[i]? = some (.matched generation index entry ip))
      (hrefused : (w.app.checkLimits entry ip now).1 = false) :
      Moves env w (.limit i now)
        { w with app := (w.app.checkLimits entry ip now).2, inFlight := w.inFlight.eraseIdx i }
  | admitted {i : Nat} {now : Instant} {generation index : Nat} {entry : RouteEntry} {ip : IpAddr}
      (hi : w.inFlight[i]? = some (.matched generation index entry ip))
      (hallowed : (w.app.checkLimits entry ip now).1 = true) :
      Moves env w (.limit i now)
        { w with
          app := (w.app.checkLimits entry ip now).2
          inFlight := w.inFlight.set i (.admitted generation index entry) }
  | refused {i : Nat} {draw : Draw} {generation index : Nat} {entry : RouteEntry}
      (hi : w.inFlight[i]? = some (.admitted generation index entry))
      (hnone : (w.app.selectOrigin generation index entry draw).1 = none) :
      Moves env w (.select i draw)
        { w with
          app := (w.app.selectOrigin generation index entry draw).2
          inFlight := w.inFlight.eraseIdx i }
  | selected {i : Nat} {draw : Draw} {generation index : Nat} {entry : RouteEntry}
      {origin : OriginEndpoint} (hi : w.inFlight[i]? = some (.admitted generation index entry))
      (hsome : (w.app.selectOrigin generation index entry draw).1 = some origin) :
      Moves env w (.select i draw)
        { w with
          app := (w.app.selectOrigin generation index entry draw).2
          inFlight := w.inFlight.set i (.forwarding origin) }
  | finished {i : Nat} {result : Except ProxyError Response} {latency : Duration}
      {origin : OriginEndpoint} (hi : w.inFlight[i]? = some (.forwarding origin)) :
      Moves env w (.finish i result latency)
        { w with
          app := w.app.recordOutcome origin result latency
          inFlight := w.inFlight.eraseIdx i }
  | dropped {i : Nat} {origin : OriginEndpoint}
      (hi : w.inFlight[i]? = some (.forwarding origin)) :
      Moves env w (.drop i) { w with inFlight := w.inFlight.eraseIdx i }
  | probed {i : Nat} {outcome : ProbeOutcome} {task : CheckerTask} {target : ProbeTarget}
      (htask : w.checker = some task) (htarget : task.targets[i]? = some target) :
      Moves env w (.probe i outcome) { w with app := w.app.finishProbe task target outcome }
  | swept {now : Instant} : Moves env w (.sweep now) { w with app := w.app.sweep now }

/-- **Every step is a move.** -/
theorem moves_of_step {env : Externals} {w w' : World} {e : Event} (h : step env w e = some w') :
    Moves env w e w' := by
  cases e with
  | reloadStart config =>
    simp only [step] at h
    split at h
    · next hidle hvalid =>
      obtain rfl := Option.some.inj h
      exact .reloadStart hidle hvalid
    · simp at h
  | reloadStep =>
    simp only [step] at h
    split at h
    · next hphase =>
      obtain rfl := Option.some.inj h
      exact .reloadStep hphase
    · simp at h
  | discover svc =>
    simp only [step] at h
    split at h
    · next hidle hactive =>
      split at h
      · next hsome =>
        obtain rfl := Option.some.inj h
        exact .discovered hidle hactive hsome
      · next hnone =>
        obtain rfl := Option.some.inj h
        exact .ignored hidle hactive hnone
    · simp at h
  | rebuildLoad order =>
    simp only [step] at h
    split at h
    · next hphase =>
      split at h
      · next horder =>
        obtain rfl := Option.some.inj h
        exact .rebuildLoad hphase horder
      · simp at h
    · simp at h
  | rebuildStep =>
    simp only [step] at h
    split at h
    · next hphase =>
      obtain rfl := Option.some.inj h
      exact .rebuildStep hphase
    · simp at h
  | arrive host path ip =>
    simp only [step] at h
    split at h
    · next hindex =>
      obtain rfl := Option.some.inj h
      exact .unmatched (by rw [Router.matchRoute_eq, hindex, Option.bind_none])
    · next hindex =>
      split at h
      · next hentry =>
        obtain rfl := Option.some.inj h
        exact .unmatched (by rw [Router.matchRoute_eq, hindex, Option.bind_some, hentry])
      · next hentry =>
        obtain rfl := Option.some.inj h
        exact .matched hindex hentry
  | limit i now =>
    simp only [step] at h
    split at h
    · next hi =>
      split at h
      · next hrefused =>
        obtain rfl := Option.some.inj h
        exact .limited hi (by simpa using hrefused)
      · next hallowed =>
        obtain rfl := Option.some.inj h
        exact .admitted hi (by simpa using hallowed)
    · simp at h
  | select i draw =>
    simp only [step] at h
    split at h
    · next hi =>
      split at h
      · next hnone =>
        obtain rfl := Option.some.inj h
        exact .refused hi hnone
      · next hsome =>
        obtain rfl := Option.some.inj h
        exact .selected hi hsome
    · simp at h
  | finish i result latency =>
    simp only [step] at h
    split at h
    · next hi =>
      obtain rfl := Option.some.inj h
      exact .finished hi
    · simp at h
  | drop i =>
    simp only [step] at h
    split at h
    · next hi =>
      obtain rfl := Option.some.inj h
      exact .dropped hi
    · simp at h
  | probe i outcome =>
    simp only [step] at h
    split at h
    · simp at h
    · next htask =>
      split at h
      · simp at h
      · next htarget =>
        obtain rfl := Option.some.inj h
        exact .probed htask htarget
  | sweep now =>
    obtain rfl := Option.some.inj h
    exact .swept

/-- Every move is a step. -/
theorem step_of_moves {env : Externals} {w w' : World} {e : Event} (h : Moves env w e w') :
    step env w e = some w' := by
  cases h with
  | reloadStart hidle hvalid => simp only [step, hidle, hvalid]
  | reloadStep hphase => simp only [step, hphase]
  | ignored hidle hactive hnone => simp only [step, hidle, hactive, hnone]
  | discovered hidle hactive hsome => simp only [step, hidle, hactive, hsome]
  | rebuildLoad hphase horder => simp only [step, hphase, if_pos horder]
  | rebuildStep hphase => simp only [step, hphase]
  | @unmatched host path ip hnone =>
    simp only [step]
    cases hindex : w.app.router.matchIndex host path with
    | none => rfl
    | some index =>
      rw [Router.matchRoute_eq, hindex, Option.bind_some] at hnone
      simp only [hnone]
  | matched hindex hentry => simp only [step, hindex, hentry]
  | limited hi hrefused =>
    simp only [step, hi, hrefused]
    rfl
  | admitted hi hallowed =>
    simp only [step, hi, hallowed]
    rfl
  | refused hi hnone => simp only [step, hi, hnone]
  | selected hi hsome => simp only [step, hi, hsome]
  | finished hi => simp only [step, hi]
  | dropped hi => simp only [step, hi]
  | probed htask htarget => simp only [step, htask, htarget]
  | swept => rfl

/-! ## What the steps change -/

/-- The write that the event makes. -/
def nextWrite (w : World) : Event → Option Write
  | .reloadStep => w.reload.todo.head?
  | .rebuildStep => w.rebuild.todo.head?
  | _ => none

section Frames

variable {env : Externals} {w w' : World} {e : Event}

/-- A step of a writer makes its write. -/
theorem app_of_nextWrite {write : Write} (h : step env w e = some w')
    (hwrite : w.nextWrite e = some write) : w'.app = w.app.apply write := by
  cases moves_of_step h with
  | reloadStep hphase =>
    simp only [nextWrite, hphase, ReloadPhase.todo, List.head?_cons, Option.some.injEq] at hwrite
    rw [hwrite]
  | rebuildStep hphase =>
    simp only [nextWrite, hphase, RebuildPhase.todo, List.head?_cons, Option.some.injEq] at hwrite
    rw [hwrite]
  | _ => cases hwrite

/-- What only the writers change: router, configuration and passive settings. -/
structure SameSettings (app app' : AppState) : Prop where
  router_eq : app'.router = app.router
  config_eq : app'.config = app.config
  passiveEnabled_eq : app'.passiveEnabled = app.passiveEnabled
  failureThreshold_eq : app'.passiveFailureThreshold = app.passiveFailureThreshold
  successThreshold_eq : app'.passiveSuccessThreshold = app.passiveSuccessThreshold

theorem sameSettings_of_nextWrite (h : step env w e = some w') (hwrite : w.nextWrite e = none) :
    SameSettings w.app w'.app := by
  cases moves_of_step h with
  | reloadStep hphase => simp [nextWrite, hphase, ReloadPhase.todo] at hwrite
  | rebuildStep hphase => simp [nextWrite, hphase, RebuildPhase.todo] at hwrite
  | @limited i now generation index entry ip hi _ =>
    obtain ⟨global, routes, happ⟩ := w.app.checkLimits_frame entry ip now
    rw [happ]
    exact ⟨rfl, rfl, rfl, rfl, rfl⟩
  | @admitted i now generation index entry ip hi _ =>
    obtain ⟨global, routes, happ⟩ := w.app.checkLimits_frame entry ip now
    rw [happ]
    exact ⟨rfl, rfl, rfl, rfl, rfl⟩
  | _ => exact ⟨rfl, rfl, rfl, rfl, rfl⟩

/-- The writers are left with the writes they had, less the one they made, or start on a list. -/
theorem mem_todo_step {write : Write} (h : step env w e = some w') :
    (write ∈ w'.reload.todo → write ∈ w.reload.todo ∨
      ∃ config, config.validate env.fs = .ok () ∧ write ∈ reloadWrites config) ∧
    (write ∈ w'.rebuild.todo → write ∈ w.rebuild.todo ∨
      ∃ order, write ∈ rebuildWrites w.app.config w.k8sOrigins order) := by
  cases moves_of_step h with
  | reloadStart _ hvalid => exact ⟨fun hw => Or.inr ⟨_, hvalid, hw⟩, Or.inl⟩
  | reloadStep hphase =>
    refine ⟨fun hw => Or.inl ?_, Or.inl⟩
    rw [hphase]
    exact List.mem_cons_of_mem _ (by simpa using hw)
  | rebuildStep hphase =>
    refine ⟨Or.inl, fun hw => Or.inl ?_⟩
    rw [hphase]
    exact List.mem_cons_of_mem _ (by simpa using hw)
  | rebuildLoad _ _ => exact ⟨Or.inl, fun hw => Or.inr ⟨_, hw⟩⟩
  | discovered _ _ _ =>
    refine ⟨Or.inl, fun hw => ?_⟩
    cases hw
  | _ => exact ⟨Or.inl, Or.inl⟩

/-- An origin that has a history keeps one. -/
theorem mem_originStates_step {key : String} (hkey : key ∈ w.app.originStates)
    (h : step env w e = some w') : key ∈ w'.app.originStates := by
  cases moves_of_step h with
  | reloadStep _ => exact AppState.mem_originStates_apply hkey
  | rebuildStep _ => exact AppState.mem_originStates_apply hkey
  | @limited i now generation index entry ip hi _ =>
    rwa [AppState.originStates_checkLimits]
  | @admitted i now generation index entry ip hi _ =>
    rwa [AppState.originStates_checkLimits]
  | finished _ => exact AppState.mem_originStates_updateOrigin.2 hkey
  | probed _ _ => exact AppState.mem_originStates_updateOrigin.2 hkey
  | _ => exact hkey

theorem checker_step (h : step env w e = some w') : w'.checker = w.checker := by
  cases moves_of_step h <;> rfl

/-- **Invariant rule for histories.** What holds of a fresh history and is preserved by every record
holds of all histories after a step if it did before. -/
theorem forall_states_step {P : OriginState → Prop} (hnew : P OriginState.new)
    (houtcome : ∀ st passiveEnabled ft threshold result latency,
      P st → P (st.recordOutcome passiveEnabled ft threshold result latency))
    (hprobe : ∀ st task outcome, P st → P (st.recordProbe task outcome))
    (hs : ∀ key st, w.app.originStates.lookup key = some st → P st)
    (h : step env w e = some w') :
    ∀ key st, w'.app.originStates.lookup key = some st → P st := by
  -- of the writes, only the addition of a fresh history touches the map
  have hwrite : ∀ write key st, (w.app.apply write).originStates.lookup key = some st → P st := by
    intro write
    cases write with
    | addOriginState key => exact Dict.forall_lookup_orInsert hs key hnew
    | _ => exact hs
  cases moves_of_step h with
  | reloadStep _ => exact hwrite _
  | rebuildStep _ => exact hwrite _
  | @limited i now generation index entry ip hi _ =>
    rwa [AppState.originStates_checkLimits]
  | @admitted i now generation index entry ip hi _ =>
    rwa [AppState.originStates_checkLimits]
  | finished _ =>
    exact Dict.forall_lookup_modify hs fun st hst => houtcome _ _ _ _ _ _ (hs _ st hst)
  | probed _ _ => exact Dict.forall_lookup_modify hs fun st hst => hprobe _ _ _ (hs _ st hst)
  | _ => exact hs

end Frames

/-! ## Requests in a row, and a reload -/

/-- A request for `/` while no other is in flight, with its result. -/
def requestWith (result : Except ProxyError Response) : List Event :=
  [.arrive "" "/" (.v4 0), .limit 0 0, .select 0 .zero, .finish 0 result 0]

/-- Five requests in a row that the origin does not answer. -/
def fiveFailures : List Event :=
  (List.replicate 5 (requestWith (.error (.client "refused")))).flatten

/-- A reload to the configuration, from start to end. -/
def reloadEvents (config : ProxyConfig) : List Event :=
  .reloadStart config :: List.replicate (reloadWrites config).length .reloadStep

end World

end Upstreamer
