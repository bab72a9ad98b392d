import Upstreamer.State
import Upstreamer.Balance.Weighted

/-!
# Handling a request

`handleRequest` is the sequence of four stages: find the route, ask a limiter, select an origin,
forward and record the outcome. Each stage is a function of its own on the shared state, since other
tasks run between them. The `http` crate decides whether an outgoing request can be built and the
client returns the response of the origin; both are parameters.

An outcome is a failure or a success, whichever exit of `proxy_request` produced it, and it always
changes the health of the origin it is recorded for (`health_recordOutcome_ne`).
-/

set_option autoImplicit false

namespace Upstreamer

open Foundations

inductive Method where
  | get
  | head
  | post
  | put
  | delete
  | options
  | patch
  | trace
  | connect
  | extension (name : String)
  deriving DecidableEq

/-- A frame of a body. -/
inductive Frame where
  | data (bytes : List UInt8)
  | trailers (headers : List (String × HeaderValue))
  deriving DecidableEq

/-- An incoming request. The body is what reading it frame by frame yields: an error is what the
server's library reports for a connection that the client aborts or a body it malforms. -/
structure Request where
  method : Method
  path : String
  pathAndQuery : Option String
  headers : List (String × HeaderValue)
  body : List (Except String Frame)

/-- What the proxy hands to the HTTP client. -/
structure OutgoingRequest where
  method : Method
  uri : String
  headers : List (String × HeaderValue)
  body : List UInt8
  deriving DecidableEq

/-- The errors that `proxy_request` returns, by the exit that returns them. -/
inductive ProxyError where
  | body (reason : String)
  | build
  | client (reason : String)
  deriving DecidableEq

/-- Whether the builder of the `http` crate accepts a method, the text of a URI and headers. -/
abbrev Buildable := Method → String → List (String × HeaderValue) → Bool

/-- The host that a request names: its `Host` header, when it has one that is text. -/
def Request.host (req : Request) : String :=
  ((req.headers.find? fun header => header.1 == "host").bind fun header =>
    HeaderValue.toStr header.2).getD ""

/-- `collect_body`, with the bytes collected so far. -/
def collectBody (buf : List UInt8) : List (Except String Frame) → Except String (List UInt8)
  | [] => .ok buf
  | .error reason :: _ => .error reason
  | .ok (.data bytes) :: frames => collectBody (buf ++ bytes) frames
  | .ok (.trailers _) :: frames => collectBody buf frames

/-- The part of `proxy_request` before the client is called. -/
def outgoingRequest (buildable : Buildable) (req : Request) (origin : OriginEndpoint) :
    Except ProxyError OutgoingRequest := do
  let uri := origin.urlBase ++ req.pathAndQuery.getD ""
  let headers := req.headers.filter (fun header => header.1 != "host") ++
    [("host", bytesOf origin.url.authority)]
  let body ←
    -- these methods are forwarded without a body, and the body is not read
    if req.method = .get ∨ req.method = .head ∨ req.method = .delete then
      pure []
    else
      (collectBody [] req.body).mapError ProxyError.body
  if buildable req.method uri headers then
    pure ⟨req.method, uri, headers, body⟩
  else
    throw .build

/-- `proxy_request`. -/
def proxyRequest (buildable : Buildable) (client : OutgoingRequest → Except String Response)
    (req : Request) (origin : OriginEndpoint) : Except ProxyError Response := do
  let outgoing ← outgoingRequest buildable req origin
  (client outgoing).mapError ProxyError.client

/-- The records that `handle_request` makes in the history of the origin, under the passive settings
in force when the outcome is known. -/
def OriginState.recordOutcome (st : OriginState) (passiveEnabled : Bool) (ft threshold : UInt32)
    (result : Except ProxyError Response) (latency : Duration) : OriginState :=
  -- request count and latency are recorded for failures as well
  let st := st.incrementRequests.recordLatency latency
  if passiveEnabled then
    match result with
    | .ok resp =>
        if resp.isServerError then st.recordFailureWithThreshold ft
        else st.recordSuccessWithThreshold threshold
    | .error _ => st.recordFailureWithThreshold ft
  else
    match result with
    | .ok resp => if resp.isServerError then st.recordFailure else st.recordSuccess
    | .error _ => st.recordFailure

namespace AppState

def notFound (app : AppState) : Response := errorResponse app.errorPages 404 "Not Found"

def badGateway (app : AppState) (message : String) : Response :=
  errorResponse app.errorPages 502 message

def rateLimited (app : AppState) : Response :=
  errorResponse app.errorPages 429 "Too Many Requests"

/-- The rate limiting stage: the limiter of the route when it has one, the global one otherwise. -/
def checkLimits (app : AppState) (entry : RouteEntry) (ip : IpAddr) (now : Instant) :
    Bool × AppState :=
  match app.routeRatelimiters.lookup entry.key with
  | some limiter =>
      let (allowed, limiter) := limiter.check ip now
      (allowed, { app with routeRatelimiters := app.routeRatelimiters.insert entry.key limiter })
  | none =>
      -- the global limiter counts only for routes without one of their own
      match app.ratelimiter with
      | some limiter =>
          let (allowed, limiter) := limiter.check ip now
          (allowed, { app with ratelimiter := some limiter })
      | none => (true, app)

/-- The selection stage, for the route at position `index` of the router number `generation`. -/
def selectOrigin (app : AppState) (generation index : Nat) (entry : RouteEntry) (draw : Draw) :
    Option OriginEndpoint × AppState :=
  let (origin, counter) := entry.loadBalancer.selectOrigin (app.counters (generation, index)) draw
    entry.candidates app.originStates
  (origin, { app with counters := Function.update app.counters (generation, index) counter })

/-- The recording stage. -/
def recordOutcome (app : AppState) (origin : OriginEndpoint) (result : Except ProxyError Response)
    (latency : Duration) : AppState :=
  app.updateOrigin origin.urlKey fun st =>
    st.recordOutcome app.passiveEnabled app.passiveFailureThreshold app.passiveSuccessThreshold
      result latency

/-- The outcome of the first three stages: the response that ends the handling, or the origin to
forward to. -/
def dispatch (app : AppState) (req : Request) (ip : IpAddr) (now : Instant) (draw : Draw) :
    Except Response OriginEndpoint × AppState :=
  match app.router.matchIndex req.host req.path with
  | none => (.error app.notFound, app)
  | some index =>
      match app.router.routes[index]? with
      | none => (.error app.notFound, app)
      | some entry =>
          let generation := app.generation
          let (allowed, app) := app.checkLimits entry ip now
          if !allowed then
            (.error app.rateLimited, app)
          else
            let (origin, app) := app.selectOrigin generation index entry draw
            match origin with
            | none => (.error (app.badGateway "No healthy origins available"), app)
            | some origin => (.ok origin, app)

/-- `handle_request`, undisturbed by other tasks. -/
def handleRequest (buildable : Buildable) (client : OutgoingRequest → Except String Response)
    (app : AppState) (req : Request) (ip : IpAddr) (now : Instant) (draw : Draw)
    (latency : Duration) : Except ProxyError Response × AppState :=
  match app.dispatch req ip now draw with
  | (.error resp, app) => (.ok resp, app)
  | (.ok origin, app) =>
      let result := proxyRequest buildable client req origin
      (result, app.recordOutcome origin result latency)

end AppState

/-- A call of `handle_request`, with what the clock and the random generator supply. -/
structure Call where
  req : Request
  ip : IpAddr
  now : Instant
  draw : Draw
  latency : Duration

/-- The origin that the stages before forwarding choose. -/
def Call.target (call : Call) (app : AppState) : Option OriginEndpoint :=
  match (app.dispatch call.req call.ip call.now call.draw).1 with
  | .ok origin => some origin
  | .error _ => none

/-! ## What the stages change -/

/-- An outcome that is recorded as a failure. -/
def failed (result : Except ProxyError Response) : Bool :=
  match result with
  | .ok resp => resp.isServerError
  | .error _ => true

section Stages

variable {st : OriginState} {passiveEnabled : Bool} {ft threshold : UInt32}
  {result : Except ProxyError Response} {latency : Duration}

/-- With passive tracking switched off, outcomes are recorded under fixed thresholds. -/
theorem recordOutcome_of_failed (h : failed result = true) :
    st.recordOutcome passiveEnabled ft threshold result latency =
      (st.incrementRequests.recordLatency latency).recordFailureWithThreshold
        (if passiveEnabled then ft else 5) := by
  cases result with
  | error e => cases passiveEnabled <;> rfl
  | ok resp =>
    have hresp : resp.isServerError = true := h
    cases passiveEnabled <;> simp only [OriginState.recordOutcome, hresp] <;> rfl

theorem recordOutcome_of_not_failed (h : failed result = false) :
    st.recordOutcome passiveEnabled ft threshold result latency =
      (st.incrementRequests.recordLatency latency).recordSuccessWithThreshold
        (if passiveEnabled then threshold else 2) := by
  cases result with
  | error e => exact absurd h (by simp [failed])
  | ok resp =>
    have hresp : resp.isServerError = false := h
    cases passiveEnabled <;> simp only [OriginState.recordOutcome, hresp] <;> rfl

/-- **Every recorded outcome changes the health of its origin.** -/
theorem health_recordOutcome_ne :
    (st.recordOutcome passiveEnabled ft threshold result latency).health ≠ st.health := by
  cases h : failed result with
  | true =>
    rw [recordOutcome_of_failed h]
    exact OriginState.health_recordFailure_ne (st.incrementRequests.recordLatency latency) _
  | false =>
    rw [recordOutcome_of_not_failed h]
    exact OriginState.health_recordSuccess_ne (st.incrementRequests.recordLatency latency) _

namespace AppState

variable (app : AppState)

/-- The rate limiting stage changes limiters only. -/
theorem checkLimits_frame (entry : RouteEntry) (ip : IpAddr) (now : Instant) :
    ∃ global routes, (app.checkLimits entry ip now).2 =
      { app with ratelimiter := global, routeRatelimiters := routes } := by
  unfold checkLimits
  split
  · exact ⟨_, _, rfl⟩
  · split
    · exact ⟨_, _, rfl⟩
    · exact ⟨app.ratelimiter, app.routeRatelimiters, rfl⟩

theorem originStates_checkLimits (entry : RouteEntry) (ip : IpAddr) (now : Instant) :
    (app.checkLimits entry ip now).2.originStates = app.originStates := by
  obtain ⟨global, routes, h⟩ := app.checkLimits_frame entry ip now
  rw [h]

/-- The limiter of the route decides when there is one. -/
theorem checkLimits_of_route {app : AppState} {entry : RouteEntry} {limiter : RateLimiter}
    (h : app.routeRatelimiters.lookup entry.key = some limiter) (ip : IpAddr) (now : Instant) :
    app.checkLimits entry ip now =
      ((limiter.check ip now).1,
        { app with
          routeRatelimiters :=
            app.routeRatelimiters.insert entry.key (limiter.check ip now).2 }) := by
  simp only [checkLimits, h]

/-- Without one, the global limiter decides. -/
theorem checkLimits_of_global {app : AppState} {entry : RouteEntry} {limiter : RateLimiter}
    (h : app.routeRatelimiters.lookup entry.key = none) (hglobal : app.ratelimiter = some limiter)
    (ip : IpAddr) (now : Instant) :
    app.checkLimits entry ip now =
      ((limiter.check ip now).1, { app with ratelimiter := some (limiter.check ip now).2 }) := by
  simp only [checkLimits, h, hglobal]

theorem routeRatelimiters_checkLimits_of_none {app : AppState} {entry : RouteEntry}
    (h : app.routeRatelimiters.lookup entry.key = none) (ip : IpAddr) (now : Instant) :
    (app.checkLimits entry ip now).2.routeRatelimiters = app.routeRatelimiters := by
  cases hglobal : app.ratelimiter with
  | some limiter => rw [checkLimits_of_global h hglobal]
  | none => simp only [checkLimits, h, hglobal]

/-- The stages before forwarding change limiters and counters only. -/
theorem dispatch_frame (req : Request) (ip : IpAddr) (now : Instant) (draw : Draw) :
    ∃ global routes counters, (app.dispatch req ip now draw).2 =
      { app with
        ratelimiter := global
        routeRatelimiters := routes
        counters := counters } := by
  unfold dispatch
  split
  · exact ⟨app.ratelimiter, app.routeRatelimiters, app.counters, rfl⟩
  · split
    · exact ⟨app.ratelimiter, app.routeRatelimiters, app.counters, rfl⟩
    · next entry _ =>
      obtain ⟨global, routes, h⟩ := app.checkLimits_frame entry ip now
      simp only [h]
      split
      · exact ⟨global, routes, app.counters, rfl⟩
      · split <;> exact ⟨global, routes, _, rfl⟩

theorem originStates_dispatch (req : Request) (ip : IpAddr) (now : Instant) (draw : Draw) :
    (app.dispatch req ip now draw).2.originStates = app.originStates := by
  obtain ⟨global, routes, counters, h⟩ := app.dispatch_frame req ip now draw
  rw [h]

end AppState

/-- A request that cannot be made is an error whatever the client would answer. -/
theorem proxyRequest_of_outgoing_error {buildable : Buildable} {req : Request}
    {origin : OriginEndpoint} {e : ProxyError}
    (h : outgoingRequest buildable req origin = .error e)
    (client : OutgoingRequest → Except String Response) :
    proxyRequest buildable client req origin = .error e := by
  rw [proxyRequest, h]
  rfl

end Stages

end Upstreamer
