import Upstreamer.Server.Framing

/-!
# Answers

How the handling of a request can go, and with which status it is to be answered. The stages before
forwarding always answer; after them the result of `proxy_request` is passed on as it is, so a
request is answered exactly when the stages answer it or its origin responds to what the client is
given (`answered_iff`).
-/

set_option autoImplicit false

namespace Upstreamer

open Foundations

/-- The ways that the handling of a request can go. -/
inductive Handling where
  | noRoute
  | rateLimited
  | noOrigin
  | unreadable
  | unbuildable
  | unreachable
  | responded (resp : Response)
  deriving DecidableEq

/-- The status with which a request is to be answered. When its body cannot be read or the outgoing
request cannot be built, any answer will do. -/
def Handling.status : Handling → Option UInt16
  | .noRoute => some 404
  | .rateLimited => some 429
  | .noOrigin => some 502
  | .unreadable => none
  | .unbuildable => none
  | .unreachable => some 502
  | .responded resp => some resp.status

/-- The result is a response, with the required status if there is one. -/
def Handling.AnsweredBy (handling : Handling) (result : Except ProxyError Response) : Prop :=
  ∃ resp, result = .ok resp ∧ ∀ status ∈ handling.status, resp.status = status

instance (body : List (Except String Frame)) : Decidable (Readable body) :=
  decidable_of_iff (∀ frame ∈ body, frame.isOk = true)
    ⟨fun h _ hmem => Bool.false_ne_true (h _ hmem), fun h frame hmem => by
      cases frame with
      | error reason => exact absurd hmem (h reason)
      | ok frame => rfl⟩

section Answers

variable (buildable : Buildable) (client : OutgoingRequest → Except String Response)

/-- How forwarding to the origin goes. -/
def Request.forwarding (req : Request) (origin : OriginEndpoint) : Handling :=
  let out := req.forwardedTo origin
  if ¬ (req.method.Bodyless ∨ Readable req.body) then .unreadable
  else if buildable out.method out.uri out.headers = false then .unbuildable
  else
    match client out with
    | .error _ => .unreachable
    | .ok resp => .responded resp

/-- How the handling of the call goes. -/
def Call.handling (call : Call) (app : AppState) : Handling :=
  match app.router.matchIndex call.req.host call.req.path with
  | none => .noRoute
  | some index =>
      match app.router.routes[index]? with
      | none => .noRoute
      | some entry =>
          let (allowed, app') := app.checkLimits entry call.ip call.now
          if !allowed then .rateLimited
          else
            match (app'.selectOrigin app.generation index entry call.draw).1 with
            | none => .noOrigin
            | some origin => call.req.forwarding buildable client origin

/-- The request can be read and rebuilt, and the client gets a response to it. -/
structure Forwardable (req : Request) (origin : OriginEndpoint) : Prop where
  readable : req.method.Bodyless ∨ Readable req.body
  buildable : buildable (req.forwardedTo origin).method (req.forwardedTo origin).uri
    (req.forwardedTo origin).headers = true
  responds : ∃ resp, client (req.forwardedTo origin) = .ok resp

variable {buildable client}

theorem proxyRequest_eq_ok_iff {req : Request} {origin : OriginEndpoint} {resp : Response} :
    proxyRequest buildable client req origin = .ok resp ↔
      ∃ out, outgoingRequest buildable req origin = .ok out ∧ client out = .ok resp := by
  rw [proxyRequest]
  cases hout : outgoingRequest buildable req origin with
  | error e =>
    refine iff_of_false (by rintro ⟨⟩) ?_
    rintro ⟨out, ⟨⟩, -⟩
  | ok out =>
    show (client out).mapError ProxyError.client = .ok resp ↔ _
    cases hclient : client out with
    | error reason =>
      refine iff_of_false (by rintro ⟨⟩) ?_
      rintro ⟨_, ⟨⟩, h⟩
      rw [hclient] at h
      cases h
    | ok resp' =>
      constructor
      · rintro ⟨⟩
        exact ⟨out, rfl, hclient⟩
      · rintro ⟨_, ⟨⟩, h⟩
        rw [hclient] at h
        obtain rfl := Except.ok.inj h
        rfl

/-- **Forwarding.** It is answered as required exactly when the request is forwardable. -/
theorem forwarding_answered_iff {req : Request} {origin : OriginEndpoint} :
    (req.forwarding buildable client origin).AnsweredBy (proxyRequest buildable client req origin) ↔
      Forwardable buildable client req origin := by
  constructor
  · rintro ⟨resp, hresp, -⟩
    obtain ⟨out, hout, hclient⟩ := proxyRequest_eq_ok_iff.1 hresp
    obtain ⟨hread, hbuild, rfl⟩ := outgoingRequest_eq_ok_iff.1 hout
    exact ⟨hread, hbuild, resp, hclient⟩
  · rintro ⟨hread, hbuild, resp, hclient⟩
    have hout := outgoingRequest_eq_ok_iff.2 ⟨hread, hbuild, rfl⟩
    refine ⟨resp, proxyRequest_eq_ok_iff.2 ⟨_, hout, hclient⟩, ?_⟩
    have hforwarding : req.forwarding buildable client origin = .responded resp := by
      simp only [Request.forwarding, not_true_eq_false, hread, hbuild, hclient, if_false,
        Bool.true_eq_false]
    rw [hforwarding]
    rintro _ ⟨⟩
    rfl

theorem status_errorResponse (pages : Option ErrorPageStore) (status : UInt16) (text : String) :
    (errorResponse pages status text).status = status := by
  rw [errorResponse]
  split <;> rfl

/-- A page answers with the status it is for. -/
theorem Handling.answeredBy_errorResponse {handling : Handling} {status : UInt16}
    (h : handling.status = some status) (pages : Option ErrorPageStore) (text : String) :
    handling.AnsweredBy (.ok (errorResponse pages status text)) := by
  refine ⟨_, rfl, ?_⟩
  rw [h]
  rintro _ ⟨⟩
  exact status_errorResponse pages status text

/-- **Answers.** A request is answered as required exactly when no origin is selected for it or it
can be forwarded to the selected one. -/
theorem answered_iff (buildable : Buildable) (client : OutgoingRequest → Except String Response)
    (app : AppState) (call : Call) :
    (call.handling buildable client app).AnsweredBy
        (app.handleRequest buildable client call.req call.ip call.now call.draw call.latency).1 ↔
      ∀ origin ∈ call.target app, Forwardable buildable client call.req origin := by
  -- the stages before forwarding answer with a page of their own
  have hearly : ∀ {handling : Handling} {status : UInt16} {pages : Option ErrorPageStore}
      {text : String}, handling.status = some status →
      (handling.AnsweredBy (.ok (errorResponse pages status text)) ↔
        ∀ origin ∈ (none : Option OriginEndpoint),
          Forwardable buildable client call.req origin) := fun h =>
    iff_of_true (Handling.answeredBy_errorResponse h _ _) (by rintro _ ⟨⟩)
  rw [Call.handling, AppState.handleRequest, Call.target, AppState.dispatch]
  cases hindex : app.router.matchIndex call.req.host call.req.path with
  | none => exact hearly rfl
  | some index =>
    dsimp only
    cases hentry : app.router.routes[index]? with
    | none => exact hearly rfl
    | some entry =>
      dsimp only
      obtain ⟨allowed, app₁⟩ := app.checkLimits entry call.ip call.now
      cases allowed with
      | false => exact hearly rfl
      | true =>
        dsimp only
        obtain ⟨selected, app₂⟩ := app₁.selectOrigin app.generation index entry call.draw
        cases selected with
        | none => exact hearly rfl
        | some origin =>
          show (call.req.forwarding buildable client origin).AnsweredBy
            (proxyRequest buildable client call.req origin) ↔ _
          rw [forwarding_answered_iff]
          simp only [Bool.not_true, Bool.false_eq_true, if_false, Option.mem_def, Option.some.injEq,
            forall_eq']

end Answers

/-- A request for `/`. -/
def plainCall : Call where
  req := ⟨.get, "/", some "/", [("host", bytesOf "example.org")], []⟩
  ip := .v4 0
  now := 0
  draw := .zero
  latency := 0

/-- A client that cannot connect. -/
def refusing : OutgoingRequest → Except String Response := fun _ => .error "connection refused"

/-- **An origin that refuses the connection leaves the client without an answer.** -/
theorem unanswered_of_refused_connection :
    ProxyConfig.minimal.validate .empty = .ok () ∧
      plainCall.handling (fun _ _ _ => true) refusing (AppState.new .empty ProxyConfig.minimal) =
        .unreachable ∧
      ((AppState.new .empty ProxyConfig.minimal).handleRequest (fun _ _ _ => true) refusing
        plainCall.req plainCall.ip plainCall.now plainCall.draw plainCall.latency).1 =
        .error (.client "connection refused") ∧
      ¬ (plainCall.handling (fun _ _ _ => true) refusing
          (AppState.new .empty ProxyConfig.minimal)).AnsweredBy
        ((AppState.new .empty ProxyConfig.minimal).handleRequest (fun _ _ _ => true) refusing
          plainCall.req plainCall.ip plainCall.now plainCall.draw plainCall.latency).1 := by
  have hresult : ((AppState.new .empty ProxyConfig.minimal).handleRequest (fun _ _ _ => true)
      refusing plainCall.req plainCall.ip plainCall.now plainCall.draw plainCall.latency).1 =
      .error (.client "connection refused") := rfl
  refine ⟨by decide, by decide +kernel, hresult, ?_⟩
  rw [hresult]
  rintro ⟨resp, ⟨⟩, -⟩

end Upstreamer
