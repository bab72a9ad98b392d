import Upstreamer.System

/-!
# Requests and updates one after another

The functions that handle a request, reload a configuration or rebuild the router from start to end
are runs of the machine in which nothing else happens in between: `run_handleRequest`, `run_reload`
and `run_rebuild`. So every sequence of services and reloads, one after another, is a run of the
machine (`run_updates`), and what is proved about all its runs holds of such sequences.
-/

set_option autoImplicit false

namespace Upstreamer

open Foundations

namespace World

/-! ## A request handled undisturbed -/

section Sequential

variable (env : Externals) (w : World) (req : Request) (ip : IpAddr) (now : Instant) (draw : Draw)

/-- The events of a request that is handled while nothing else happens. -/
def requestEvents (result : Except ProxyError Response) (latency : Duration) : List Event :=
  [.arrive req.host req.path ip, .limit w.inFlight.length now, .select w.inFlight.length draw,
    .finish w.inFlight.length result latency]

/-- **A forwarded request is a run of the machine.** -/
theorem run_handleRequest (buildable : Buildable)
    (client : OutgoingRequest → Except String Response) (latency : Duration)
    {origin : OriginEndpoint} (h : (w.app.dispatch req ip now draw).1 = .ok origin) :
    run (step env) w
        (w.requestEvents req ip now draw (proxyRequest buildable client req origin) latency) =
      some { w with
        app := (w.app.handleRequest buildable client req ip now draw latency).2 } := by
  have hhandle : (w.app.handleRequest buildable client req ip now draw latency).2 =
      (w.app.dispatch req ip now draw).2.recordOutcome origin
        (proxyRequest buildable client req origin) latency := by
    rw [AppState.handleRequest, ← Prod.eta (w.app.dispatch req ip now draw), h]
  -- the two sides take the same four decisions; the request can only have gone all the way
  rw [hhandle]
  unfold AppState.dispatch at h ⊢
  cases hindex : w.app.router.matchIndex req.host req.path with
  | none => simp [hindex] at h
  | some index =>
    cases hentry : w.app.router.routes[index]? with
    | none => simp [hindex, hentry] at h
    | some entry =>
      cases hallowed : (w.app.checkLimits entry ip now).1 with
      | false => simp [hindex, hentry, hallowed] at h
      | true =>
        cases horigin : ((w.app.checkLimits entry ip now).2.selectOrigin w.app.generation index
            entry draw).1 with
        | none => simp [hindex, hentry, hallowed, horigin] at h
        | some chosen =>
          simp only [hindex, hentry, hallowed, horigin, Bool.not_true, Bool.false_eq_true,
            if_false, Except.ok.injEq] at h ⊢
          subst h
          simp [requestEvents, run_cons, step, hindex, hentry, hallowed, horigin,
            List.eraseIdx_append_of_length_le]

end Sequential

/-! ## An update undisturbed -/

section Updates

variable {env : Externals} {config : ProxyConfig}

/-- The writes that a reload has still to make, made in a row. -/
theorem run_reloadSteps {w : World} {todo : List Write} (hphase : w.reload = .after config todo) :
    run (step env) w (List.replicate todo.length .reloadStep) =
      some { w with app := w.app.applyAll todo, reload := .idle } := by
  induction todo generalizing w with
  | nil =>
    have hidle : w.reload = .idle := hphase
    rw [List.length_nil, List.replicate_zero, run_nil, ← hidle]
    rfl
  | cons write todo ih =>
    have hstep : step env w .reloadStep =
        some { w with app := w.app.apply write, reload := .after config todo } :=
      step_of_moves (.reloadStep hphase)
    rw [List.length_cons, List.replicate_succ, run_cons, hstep, Option.bind_some]
    exact ih rfl

/-- The writes that a rebuild has still to make, made in a row. -/
theorem run_rebuildSteps {w : World} {todo : List Write}
    (hphase : w.rebuild = .after config todo) :
    run (step env) w (List.replicate todo.length .rebuildStep) =
      some { w with app := w.app.applyAll todo, rebuild := .idle } := by
  induction todo generalizing w with
  | nil =>
    have hidle : w.rebuild = .idle := hphase
    rw [List.length_nil, List.replicate_zero, run_nil, ← hidle]
    rfl
  | cons write todo ih =>
    have hstep : step env w .rebuildStep =
        some { w with app := w.app.apply write, rebuild := .after config todo } :=
      step_of_moves (.rebuildStep hphase)
    rw [List.length_cons, List.replicate_succ, run_cons, hstep, Option.bind_some]
    exact ih rfl

/-- **A completed reload is a run of the machine.** -/
theorem run_reload {w : World} (hidle : w.reload = .idle)
    (hvalid : config.validate env.fs = .ok ()) :
    run (step env) w
        (.reloadStart config :: List.replicate (reloadWrites config).length .reloadStep) =
      some { w with app := w.app.reload config } := by
  have hphase : ReloadPhase.applying config (reloadWrites config) =
      .after config (reloadWrites config) := rfl
  rw [run_cons, step_of_moves (.reloadStart hidle hvalid), Option.bind_some,
    run_reloadSteps hphase, ← hidle]
  rfl

/-- **A service with the rebuild that it causes is a run of the machine.** -/
theorem run_rebuild {w : World} (hidle : w.rebuild = .idle) (hactive : w.discovering = true)
    {svc : Service} {pool : String} {url : Url} {order : List String}
    (hsome : serviceToOrigin env.parseUrl svc = some (pool, url))
    (horder : (w.k8sOrigins.push pool url).IterationOrder order) :
    run (step env) w (.discover svc :: .rebuildLoad order ::
        List.replicate (rebuildWrites w.app.config (w.k8sOrigins.push pool url) order).length
          .rebuildStep) =
      some { w with
        app := w.app.rebuildRouter (w.k8sOrigins.push pool url) order
        k8sOrigins := w.k8sOrigins.push pool url } := by
  have hphase : RebuildPhase.applying w.app.config
      (rebuildWrites w.app.config (w.k8sOrigins.push pool url) order) =
        .after w.app.config (rebuildWrites w.app.config (w.k8sOrigins.push pool url) order) := rfl
  rw [run_cons, step_of_moves (.discovered hidle hactive hsome), Option.bind_some, run_cons,
    step_of_moves (.rebuildLoad rfl horder), Option.bind_some, run_rebuildSteps hphase, ← hidle]
  rfl

/-- The machine between two updates, in the state that the updates before have led to. -/
structure Between (s : Discovered) (w : World) : Prop where
  app_eq : w.app = s.app
  k8sOrigins_eq : w.k8sOrigins = s.k8sOrigins
  reload_idle : w.reload = .idle
  rebuild_idle : w.rebuild = .idle
  discovering : w.discovering = true

theorem between_init (hkubernetes : config.kubernetes.isSome = true) :
    Between (Discovered.start env.fs config) (init env config) :=
  ⟨rfl, rfl, rfl, rfl, hkubernetes⟩

/-- One update is a run of the machine. -/
theorem Between.step {s t : Discovered} {w : World} {u : Update} (hb : Between s w)
    (h : Discovered.step env.fs env.parseUrl s u = some t) :
    ∃ events w', run (World.step env) w events = some w' ∧ Between t w' := by
  obtain ⟨happ, hk8s, hreload, hrebuild, hactive⟩ := hb
  cases u with
  | service svc order =>
    simp only [Discovered.step] at h
    split at h
    · next hnone =>
      obtain rfl := Option.some.inj h
      refine ⟨[.discover svc], w, ?_, happ, hk8s, hreload, hrebuild, hactive⟩
      rw [run_cons, step_of_moves (.ignored hrebuild hactive hnone), Option.bind_some, run_nil]
    · next pool url hsome =>
      split at h
      · next horder =>
        obtain rfl := Option.some.inj h
        rw [← hk8s] at horder
        refine ⟨_, _, run_rebuild hrebuild hactive hsome horder, ?_, ?_, hreload, hrebuild,
          hactive⟩
        · show w.app.rebuildRouter (w.k8sOrigins.push pool url) order = _
          rw [happ, hk8s]
        · show w.k8sOrigins.push pool url = _
          rw [hk8s]
      · cases h
  | reload loaded =>
    obtain rfl := Option.some.inj h
    by_cases haccepted : ∃ config ∈ loaded, config.Accepted env.fs
    · obtain ⟨config, rfl, hconfig⟩ := haccepted
      refine ⟨_, _, run_reload hreload (validate_eq_ok_iff.2 hconfig), ?_, hk8s, hreload, hrebuild,
        hactive⟩
      show w.app.reload config = AppState.watchConfig env.fs s.app (some config)
      rw [happ, AppState.watchConfig_of_accepted hconfig]
    · -- a file that does not load or is refused leaves everything as it is
      refine ⟨[], w, rfl, ?_, hk8s, hreload, hrebuild, hactive⟩
      show w.app = AppState.watchConfig env.fs s.app loaded
      rw [happ, AppState.watchConfig_of_refused]
      intro config hloaded hconfig
      exact haccepted ⟨config, hloaded, hconfig⟩

/-- **Updates one after another are a run of the machine.** -/
theorem run_updates (hkubernetes : config.kubernetes.isSome = true) {updates : List Update}
    {last : Discovered} (hrun : run (Discovered.step env.fs env.parseUrl)
      (Discovered.start env.fs config) updates = some last) :
    ∃ events w, run (World.step env) (init env config) events = some w ∧ w.app = last.app ∧
      w.k8sOrigins = last.k8sOrigins := by
  obtain ⟨events, w, hevents, hbetween⟩ :=
    run_simulated (fun s w u t hb h => Between.step hb h) (between_init hkubernetes) hrun
  exact ⟨events, w, hevents, hbetween.app_eq, hbetween.k8sOrigins_eq⟩

end Updates

end World

end Upstreamer
