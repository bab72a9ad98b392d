import Upstreamer.Config.Uri
import Upstreamer.Foundations.Machine
import Upstreamer.Health.Checker

/-!
# The requests of the active checks

The checker dies of a zero interval before its first round, and of a probe whose request cannot be
built whenever it comes to it. Validation looks at neither the interval nor the health check path.
The path is appended to the text of the origin's URL without trailing slashes: where nothing of the
URL is left behind its authority, a path that does not begin with `/`, `?` or `#` continues the
authority, and the probe goes to another host or port, or nowhere. `probesSound_iff` says exactly
when the checks never panic and every probe goes to its origin.
-/

set_option autoImplicit false

namespace Upstreamer

open Foundations

/-- How the task of the active checks dies. -/
inductive ChecksPanic where
  | zeroPeriod
  | requestBuilder
  deriving DecidableEq

/-- `tokio::time::interval`, which panics on a zero period. -/
def tokioInterval (period : Duration) : Except ChecksPanic Unit :=
  if period = 0 then .error .zeroPeriod else .ok ()

/-- The request of a probe, which is expected to be buildable. -/
def probeRequest (uris : UriParser) (target : ProbeTarget) : Except ChecksPanic Uri :=
  match uris.parse target.url with
  | some uri => .ok uri
  | none => .error .requestBuilder

/-- The task of the active checks in its loop: the targets of the current round that are left, and
the shared state. -/
structure ActiveChecks where
  task : CheckerTask
  pending : List ProbeTarget
  app : AppState

/-- The interval ticks, the probe of the next target ends, or another task changes the shared
state. -/
inductive ChecksEvent where
  | tick
  | probe (outcome : ProbeOutcome)
  | otherTask (app : AppState)

namespace ActiveChecks

/-- `run_active_checks` up to its loop, when checking is enabled. -/
def start (config : ProxyConfig) (app : AppState) : Option (Except ChecksPanic ActiveChecks) :=
  (CheckerTask.start config).map fun task =>
    (tokioInterval config.health.active.interval).map fun _ => ⟨task, [], app⟩

/-- The loop of `run_active_checks`. -/
def react (uris : UriParser) (checks : ActiveChecks) :
    ChecksEvent → Option (Except ChecksPanic ActiveChecks)
  | .tick =>
      match checks.pending with
      | [] => some (.ok { checks with pending := checks.task.targets })
      | _ :: _ => none
  | .probe outcome =>
      match checks.pending with
      | [] => none
      | target :: pending =>
          some ((probeRequest uris target).map fun _ =>
            { checks with
              pending := pending
              app := checks.app.finishProbe checks.task target outcome })
  | .otherTask app => some (.ok { checks with app := app })

/-- A task that has panicked does nothing any more. -/
def step (uris : UriParser) (s : Except ChecksPanic ActiveChecks) (e : ChecksEvent) :
    Option (Except ChecksPanic ActiveChecks) :=
  match s with
  | .ok checks => checks.react uris e
  | .error _ => none

/-- The checks of the configuration run for ever, whatever the probes return and whatever other
tasks do. -/
def NeverPanics (uris : UriParser) (config : ProxyConfig) : Prop :=
  ∀ app s t, start config app = some s → Reaches (step uris) (fun _ => True) s t → t.isOk = true

end ActiveChecks

/-- The probe of the origin can be built, and goes to scheme, host and port of the origin's URL. -/
def ProbesOrigin (uris : UriParser) (origin : OriginConfig) : Prop :=
  ∃ uri, uris.parse (ProbeTarget.ofOrigin origin).url = some uri ∧ uri.At origin.url

/-- The active checks never panic, and every origin is probed where its URL says. -/
structure ProbesSound (uris : UriParser) (config : ProxyConfig) : Prop where
  never_panics : ActiveChecks.NeverPanics uris config
  probes_origin : ∀ origin ∈ config.origins, ProbesOrigin uris origin

/-- The health check path is read as a continuation of the authority: nothing of the URL is left
behind the authority, and the path is not empty and does not begin with a character that ends it. -/
def OriginConfig.ContinuesAuthority (origin : OriginConfig) : Prop :=
  trimEndMatches '/' origin.url.rest = "" ∧
    ∃ c, (ProbeTarget.ofOrigin origin).path.toList.head? = some c ∧ endsAuthority c = false

/-- What the checker puts behind the authority of the origin's URL. -/
def OriginConfig.probeRest (origin : OriginConfig) : String :=
  trimEndMatches '/' origin.url.rest ++ (ProbeTarget.ofOrigin origin).path

/-- The crate accepts the authority of the origin, which the health check path does not change, and
the path that is requested, and the text is not too long. -/
structure OriginConfig.Probeable (uris : UriParser) (origin : OriginConfig) : Prop where
  authority : ¬ origin.ContinuesAuthority → (uris.authority origin.url.authority).isSome
  continued : origin.ContinuesAuthority → ∃ hp, uris.authority (origin.url.authority ++
      takeUntil endsAuthority (ProbeTarget.ofOrigin origin).path) = some hp ∧
    some hp.1 = origin.url.host ∧ hp.2.getD 80 = origin.url.port.getD 80
  path : uris.acceptsPath (beforeFragment (dropUntil endsAuthority origin.probeRest)) = true
  length : ("http://" ++ (origin.url.authority ++ origin.probeRest)).utf8ByteSize ≤ uris.maxLength

section Requests

variable {uris : UriParser} {origin : OriginConfig}

theorem OriginConfig.takeUntil_probeRest_of_not (hscheme : origin.url.scheme = "http")
    (h : ¬ origin.ContinuesAuthority) : takeUntil endsAuthority origin.probeRest = "" := by
  by_cases hrest : trimEndMatches '/' origin.url.rest = ""
  · -- the health check path ends the authority itself
    rw [probeRest, hrest, String.empty_append]
    cases hhead : (ProbeTarget.ofOrigin origin).path.toList.head? with
    | none =>
      have hempty : (ProbeTarget.ofOrigin origin).path = "" :=
        String.toList_inj.1 (List.head?_eq_none_iff.1 hhead)
      rw [hempty]
      rfl
    | some c =>
      have hends : endsAuthority c = true := by
        by_contra hnot
        exact h ⟨hrest, c, hhead, Bool.not_eq_true _ ▸ hnot⟩
      exact takeUntil_of_head hhead hends
  · -- what is left of the URL begins with a slash
    exact takeUntil_of_head (Url.head?_trimmed_append hscheme hrest _) (by decide)

theorem OriginConfig.takeUntil_probeRest (h : origin.ContinuesAuthority) :
    takeUntil endsAuthority origin.probeRest =
      takeUntil endsAuthority (ProbeTarget.ofOrigin origin).path := by
  rw [probeRest, h.1, String.empty_append]

/-- **Where a probe goes.** -/
theorem probesOrigin_iff (hscheme : origin.url.scheme = "http")
    (hserialised : origin.url.Serialised) (hauthority : uris.ReadsAuthority origin.url) :
    ProbesOrigin uris origin ↔ origin.Probeable uris := by
  have hurl : (ProbeTarget.ofOrigin origin).url =
      "http://" ++ (origin.url.authority ++ origin.probeRest) := by
    show trimEndMatches '/' origin.url.asStr ++ (ProbeTarget.ofOrigin origin).path = _
    rw [Url.base_eq hscheme hserialised, OriginConfig.probeRest, String.append_assoc,
      String.append_assoc]
  rw [ProbesOrigin, hurl]
  simp only [uris.parse_eq_some_iff hserialised.authority_free]
  constructor
  · rintro ⟨uri, ⟨hlength, hp, hread, hpath, huri⟩, -, hhost, hport⟩
    simp only [huri] at hhost hport
    refine ⟨fun hnot => ?_, fun hcontinues => ?_, hpath, hlength⟩
    · rw [OriginConfig.takeUntil_probeRest_of_not hscheme hnot, String.append_empty] at hread
      rw [hread]
      rfl
    · rw [OriginConfig.takeUntil_probeRest hcontinues] at hread
      exact ⟨hp, hread, hhost, hport⟩
  · intro h
    -- host and port are read from the authority, with what the path adds to it
    have hread : ∃ hp, uris.authority (origin.url.authority ++
        takeUntil endsAuthority origin.probeRest) = some hp ∧
        some hp.1 = origin.url.host ∧ hp.2.getD 80 = origin.url.port.getD 80 := by
      by_cases hcontinues : origin.ContinuesAuthority
      · rw [OriginConfig.takeUntil_probeRest hcontinues]
        exact h.continued hcontinues
      · obtain ⟨hp, hsome⟩ := Option.isSome_iff_exists.1 (h.authority hcontinues)
        obtain ⟨hhost, hport⟩ := hauthority hp hsome
        refine ⟨hp, ?_, hhost.symm, by rw [hport]⟩
        rw [OriginConfig.takeUntil_probeRest_of_not hscheme hcontinues, String.append_empty, hsome]
    obtain ⟨hp, hsome, hhost, hport⟩ := hread
    exact ⟨_, ⟨h.length, hp, hsome, h.path, rfl⟩, hscheme.symm, hhost, hport⟩

end Requests

/-! ## Panics -/

namespace ActiveChecks

variable {uris : UriParser} {config : ProxyConfig}

/-- The checks are in their loop, with targets all of whose requests can be built. -/
def Alive (uris : UriParser) (s : Except ChecksPanic ActiveChecks) : Prop :=
  ∃ checks, s = .ok checks ∧ (∀ target ∈ checks.task.targets, (uris.parse target.url).isSome) ∧
    ∀ target ∈ checks.pending, (uris.parse target.url).isSome

theorem alive_step {s t : Except ChecksPanic ActiveChecks} {e : ChecksEvent} (hs : Alive uris s)
    (h : step uris s e = some t) : Alive uris t := by
  obtain ⟨⟨task, pending, app⟩, rfl, htargets, hpending⟩ := hs
  cases e with
  | tick =>
    cases pending with
    | nil =>
      cases h
      exact ⟨_, rfl, htargets, htargets⟩
    | cons target pending => cases h
  | probe outcome =>
    cases pending with
    | nil => cases h
    | cons target pending =>
      obtain ⟨hbuilt, hleft⟩ := List.forall_mem_cons.1 hpending
      obtain ⟨uri, huri⟩ := Option.isSome_iff_exists.1 hbuilt
      have hrequest : probeRequest uris target = .ok uri := by rw [probeRequest, huri]
      -- the request is built, so the probe ends
      simp only [step, react, hrequest] at h
      cases h
      exact ⟨_, rfl, htargets, hleft⟩
  | otherTask app =>
    cases h
    exact ⟨_, rfl, htargets, hpending⟩

theorem start_eq (henabled : config.health.active.enabled = true) (app : AppState) :
    start config app = some ((tokioInterval config.health.active.interval).map fun _ =>
      ⟨CheckerTask.ofConfig config, [], app⟩) := by
  rw [start, CheckerTask.start, if_pos henabled]
  rfl

/-- The checks never panic when the interval is positive and each request can be built. -/
theorem neverPanics_of_parse (henabled : config.health.active.enabled = true)
    (hinterval : config.health.active.interval ≠ 0)
    (hparse : ∀ origin ∈ config.origins, (uris.parse (ProbeTarget.ofOrigin origin).url).isSome) :
    NeverPanics uris config := by
  intro app s t hs hrun
  rw [start_eq henabled, tokioInterval, if_neg hinterval] at hs
  have htargets : ∀ target ∈ (CheckerTask.ofConfig config).targets,
      (uris.parse target.url).isSome := by
    intro target htarget
    obtain ⟨origin, horigin, rfl⟩ := List.mem_map.1 htarget
    exact hparse origin horigin
  have halive : Alive uris s := by
    cases hs
    exact ⟨_, rfl, htargets, fun _ h => absurd h List.not_mem_nil⟩
  obtain ⟨checks, rfl, -⟩ := hrun.invariant (fun _ _ _ hu _ hstep => alive_step hu hstep) halive
  rfl

theorem interval_ne_zero_of_neverPanics (henabled : config.health.active.enabled = true)
    (app : AppState) (h : NeverPanics uris config) : config.health.active.interval ≠ 0 := by
  intro hzero
  have hdead := h app _ _ (start_eq henabled app) (Reaches.refl _)
  rw [tokioInterval, if_pos hzero] at hdead
  cases hdead

end ActiveChecks

/-- **When the active checks never panic and probe every origin where it is.** -/
theorem probesSound_iff (uris : UriParser) {fs : FileSystem} {config : ProxyConfig}
    (haccepted : config.Accepted fs) (henabled : config.health.active.enabled = true)
    (hserialised : ∀ origin ∈ config.origins, origin.url.Serialised)
    (hauthority : ∀ origin ∈ config.origins, uris.ReadsAuthority origin.url) :
    ProbesSound uris config ↔ config.health.active.interval ≠ 0 ∧
      ∀ origin ∈ config.origins, origin.Probeable uris := by
  have hprobe : ∀ origin ∈ config.origins,
      (ProbesOrigin uris origin ↔ origin.Probeable uris) := fun origin horigin =>
    probesOrigin_iff (haccepted.scheme_http horigin) (hserialised origin horigin)
      (hauthority origin horigin)
  constructor
  · rintro ⟨hnever, hprobes⟩
    refine ⟨ActiveChecks.interval_ne_zero_of_neverPanics henabled (AppState.new fs config) hnever,
      fun origin horigin => ?_⟩
    exact (hprobe origin horigin).1 (hprobes origin horigin)
  · rintro ⟨hinterval, hprobeable⟩
    have hprobes : ∀ origin ∈ config.origins, ProbesOrigin uris origin := fun origin horigin =>
      (hprobe origin horigin).2 (hprobeable origin horigin)
    refine ⟨ActiveChecks.neverPanics_of_parse henabled hinterval fun origin horigin => ?_, hprobes⟩
    obtain ⟨uri, huri, -⟩ := hprobes origin horigin
    rw [huri]
    rfl

/-- The minimal configuration with the given interval and health check path. -/
def ProxyConfig.probing (interval : Duration) (path : Option String) : ProxyConfig where
  routes := [{ RouteConfig.minimal [] with
    pools := [⟨"backend", [⟨Url.backend, none, path⟩]⟩] }]
  ratelimit := none
  health := ⟨{ ActiveHealthConfig.default with interval := interval }, PassiveHealthConfig.default⟩
  kubernetes := none
  errorPages := none

/-- Probes of a path that begins with a slash, every ten seconds. -/
theorem probesSound_ping :
    ProbesSound .simple (.probing (Duration.fromSecs 10) (some "/ping")) := by
  have haccepted :
      (ProxyConfig.probing (Duration.fromSecs 10) (some "/ping")).Accepted .empty :=
    validate_eq_ok_iff.1 (by decide)
  have hends : ¬ OriginConfig.ContinuesAuthority ⟨Url.backend, none, some "/ping"⟩ := by
    rintro ⟨-, c, hhead, hends⟩
    obtain rfl : '/' = c := Option.some.inj hhead
    exact absurd hends (by decide)
  refine (probesSound_iff .simple haccepted rfl ?_ ?_).2 ⟨by decide, ?_⟩
  · refine List.forall_mem_singleton.2 ?_
    exact ⟨by decide, by decide, by decide, fun _ h => nomatch h⟩
  · refine List.forall_mem_singleton.2 ?_
    intro hp h
    obtain rfl : ("127.0.0.1", some 3000) = hp := Option.some.inj h
    exact ⟨rfl, rfl⟩
  · refine List.forall_mem_singleton.2 ?_
    exact ⟨fun _ => by decide, fun h => absurd h hends, by decide, by decide⟩

/-- **Validation accepts what kills the checks, and what sends them elsewhere.** With a zero
interval they never start; a health check path with a blank makes the first probe panic; and one
that begins with `@` names the host that is probed. -/
theorem not_probesSound :
    ((ProxyConfig.probing 0 none).validate .empty = .ok () ∧
      ¬ ProbesSound .simple (.probing 0 none)) ∧
    ((ProxyConfig.probing 1 (some "/health check")).validate .empty = .ok () ∧
      ¬ ProbesSound .simple (.probing 1 (some "/health check"))) ∧
    ((ProxyConfig.probing 1 (some "@10.0.0.1/")).validate .empty = .ok () ∧
      UriParser.simple.parse
          (ProbeTarget.ofOrigin ⟨Url.backend, none, some "@10.0.0.1/"⟩).url =
        some ⟨"http", "10.0.0.1", none, "/", none⟩ ∧
      ¬ ProbesSound .simple (.probing 1 (some "@10.0.0.1/"))) := by
  refine ⟨⟨by decide, fun h => ?_⟩, ⟨by decide, fun h => ?_⟩, by decide, by decide, fun h => ?_⟩
  · -- the task panics before its loop
    have hdead := h.never_panics (AppState.new .empty (.probing 0 none)) _ _ rfl (Reaches.refl _)
    cases hdead
  · -- the first round panics at its first target
    have hfirst : Reaches (ActiveChecks.step .simple) (fun _ => True)
        (.ok ⟨CheckerTask.ofConfig (.probing 1 (some "/health check")), [], AppState.new .empty
          (.probing 1 (some "/health check"))⟩) (.error .requestBuilder) := by
      have hrequest : probeRequest .simple
          (ProbeTarget.ofOrigin ⟨Url.backend, none, some "/health check"⟩) =
            .error .requestBuilder := by decide
      refine ⟨[.tick, .probe .failed], fun _ _ => trivial, ?_⟩
      refine run_cons_eq_some.2 ⟨_, rfl, run_cons_eq_some.2 ⟨.error .requestBuilder, ?_, rfl⟩⟩
      show some ((probeRequest .simple
        (ProbeTarget.ofOrigin ⟨Url.backend, none, some "/health check"⟩)).map _) = _
      rw [hrequest]
      rfl
    have hdead := h.never_panics _ _ _ rfl hfirst
    cases hdead
  · obtain ⟨uri, huri, hat⟩ := h.probes_origin _ List.mem_cons_self
    have hparse : UriParser.simple.parse
        (ProbeTarget.ofOrigin ⟨Url.backend, none, some "@10.0.0.1/"⟩).url =
          some ⟨"http", "10.0.0.1", none, "/", none⟩ := by decide
    obtain rfl := Option.some.inj (hparse.symm.trans huri)
    exact absurd hat.host_eq (by decide)

end Upstreamer
