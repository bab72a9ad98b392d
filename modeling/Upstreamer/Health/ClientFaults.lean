import Upstreamer.Server
import Upstreamer.Foundations.Machine

/-!
# Faults of the client

A request whose body cannot be read, or that cannot be rebuilt for the origin, fails before the
client is called. The error it returns is recorded like an error of the origin, so such a request
leaves the health of all origins alone exactly when the origin selected for it has no history, and a
sequence of them does exactly when this holds at each (`health_unchanged_iff`).
-/

set_option autoImplicit false

namespace Upstreamer

open Foundations

/-- The healthy flag and the two counters of every history are the same in both states. -/
def SameHealth (app app' : AppState) : Prop :=
  ∀ key, (app'.originStates.lookup key).map OriginState.health =
    (app.originStates.lookup key).map OriginState.health

/-- The origin chosen for the call has no history. -/
def NoHistory (app : AppState) (call : Call) : Prop :=
  ∀ origin ∈ call.target app, origin.urlKey ∉ app.originStates

section Faults

variable (buildable : Buildable) (client : OutgoingRequest → Except String Response)

/-- One call whose forwarding fails before the client is called. -/
def faultStep (app : AppState) (call : Call) : Option AppState :=
  match call.target app with
  | none => none
  | some origin =>
      match outgoingRequest buildable call.req origin with
      | .ok _ => none
      | .error _ =>
          some (app.handleRequest buildable client call.req call.ip call.now call.draw
            call.latency).2

variable {buildable client}

/-- Such a call records its error for the chosen origin. -/
theorem of_faultStep_eq_some {app app' : AppState} {call : Call}
    (h : faultStep buildable client app call = some app') :
    ∃ origin e, call.target app = some origin ∧
      app' = (app.dispatch call.req call.ip call.now call.draw).2.recordOutcome origin (.error e)
        call.latency := by
  unfold faultStep at h
  split at h
  · simp at h
  · next origin htarget =>
    split at h
    · simp at h
    · next e he =>
      refine ⟨origin, e, htarget, ?_⟩
      rw [← Option.some.inj h, AppState.handleRequest]
      unfold Call.target at htarget
      split at htarget
      · next o hdispatch =>
        obtain rfl := Option.some.inj htarget
        rw [← Prod.eta (app.dispatch call.req call.ip call.now call.draw), hdispatch]
        simp only [proxyRequest_of_outgoing_error he client]
      · simp at htarget

theorem SameHealth.symm {app app' : AppState} (h : SameHealth app app') : SameHealth app' app :=
  fun key => (h key).symm

theorem SameHealth.trans {app app' app'' : AppState} (h : SameHealth app app')
    (h' : SameHealth app' app'') : SameHealth app app'' :=
  fun key => (h' key).trans (h key)

/-- One call leaves all health as it was exactly when the chosen origin has no history. -/
theorem noHistory_iff_sameHealth {app app' : AppState} {call : Call}
    (h : faultStep buildable client app call = some app') :
    NoHistory app call ↔ SameHealth app app' := by
  -- the only history the call can touch is that of the chosen origin, and recording always shows
  obtain ⟨origin, e, htarget, rfl⟩ := of_faultStep_eq_some h
  have hstates := app.originStates_dispatch call.req call.ip call.now call.draw
  rw [NoHistory, htarget]
  simp only [Option.mem_def, Option.some.injEq, forall_eq']
  constructor
  · intro hnot key
    rw [AppState.recordOutcome, AppState.updateOrigin, hstates]
    exact congrArg (fun m : OriginStates => (m.lookup key).map OriginState.health)
      (Dict.modify_of_notMem hnot _)
  · intro hsame hmem
    obtain ⟨st, hst⟩ := Finmap.mem_iff.1 hmem
    have hkey := hsame origin.urlKey
    rw [AppState.recordOutcome, AppState.updateOrigin, hstates] at hkey
    simp only [Dict.lookup_modify_self, hst, Option.map_some, Option.some.injEq] at hkey
    exact health_recordOutcome_ne hkey

/-- **A sequence of client faults leaves the health of every origin as it was exactly when, at each
of them, the origin chosen for the call has no history.** -/
theorem health_unchanged_iff (buildable : Buildable)
    (client : OutgoingRequest → Except String Response) (app last : AppState) (calls : List Call)
    (hrun : run (faultStep buildable client) app calls = some last) :
    Throughout (faultStep buildable client) (SameHealth app) app calls ↔
      Along (faultStep buildable client) NoHistory app calls := by
  refine (along_iff_throughout (J := fun _ => True) (fun _ _ _ _ _ _ => trivial)
    (fun s call t _ hs h => ?_) trivial (fun _ => rfl) hrun).symm
  rw [noHistory_iff_sameHealth h]
  exact ⟨hs.trans, hs.symm.trans⟩

end Faults

/-! ## Aborted uploads -/

/-- An upload that the client aborts before the first frame. -/
def abortedUpload : Call where
  req := ⟨.post, "/upload", some "/upload", [], [.error "connection reset"]⟩
  ip := .v4 0
  now := 0
  draw := .zero
  latency := 0

/-- The state between the first write of a reload, which brings a weighted route with a new origin,
and the write that adds a history for it. -/
def newOriginWindow : AppState :=
  (AppState.new .empty ProxyConfig.minimal).apply <| .swapRouter <| Router.fromConfig <|
    .ofRoutes [{ RouteConfig.minimal [Url.httpRoot "127.0.0.1" (some 4000)] with
      lbAlgorithm := .weightedLatency }]

/-- An aborted upload in that window harms nothing. -/
theorem health_unchanged_window :
    ∃ last, run (faultStep (fun _ _ _ => true) fun _ => .error "refused") newOriginWindow
        [abortedUpload] = some last ∧ SameHealth newOriginWindow last := by
  have hsome : (run (faultStep (fun _ _ _ => true) fun _ => .error "refused") newOriginWindow
      [abortedUpload]).isSome = true := by decide +kernel
  obtain ⟨last, hrun⟩ := Option.isSome_iff_exists.1 hsome
  refine ⟨last, hrun, ((health_unchanged_iff (fun _ _ _ => true) (fun _ => .error "refused")
    newOriginWindow last [abortedUpload] hrun).2 ⟨?_, fun _ _ => trivial⟩).last hrun⟩
  have hkey : ∀ origin ∈ abortedUpload.target newOriginWindow,
      origin.urlKey = "http://127.0.0.1:4000/" := by decide +kernel
  intro origin horigin
  rw [hkey origin horigin]
  decide

/-- **Five aborted uploads make the only origin of the minimal configuration unhealthy.** The client
is never called, and the next request is refused. -/
theorem five_aborted_uploads :
    ProxyConfig.minimal.validate .empty = .ok () ∧
      ∃ last, run (faultStep (fun _ _ _ => true) fun _ => .error "refused")
          (AppState.new .empty ProxyConfig.minimal) (List.replicate 5 abortedUpload) = some last ∧
        (last.originStates.lookup "http://127.0.0.1:3000/").map OriginState.health =
          some (false, 0, 5) ∧
        abortedUpload.target last = none ∧
        ¬ SameHealth (AppState.new .empty ProxyConfig.minimal) last := by
  have hrun : (run (faultStep (fun _ _ _ => true) fun _ => .error "refused")
      (AppState.new .empty ProxyConfig.minimal) (List.replicate 5 abortedUpload)).map
        (fun last => ((last.originStates.lookup "http://127.0.0.1:3000/").map OriginState.health,
          abortedUpload.target last)) = some (some (false, 0, 5), none) := by decide +kernel
  obtain ⟨last, hlast, heq⟩ := Option.map_eq_some_iff.1 hrun
  obtain ⟨hhealth, htarget⟩ := Prod.mk.inj heq
  refine ⟨by decide, last, hlast, hhealth, htarget, fun h => ?_⟩
  have hkey := h "http://127.0.0.1:3000/"
  rw [hhealth] at hkey
  exact absurd hkey (by decide)

end Upstreamer
