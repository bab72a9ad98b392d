import Upstreamer.Server

/-!
# Framing of the forwarded request

The headers of a request are copied whatever its method is, its body is not: for three methods the
request that is forwarded has an empty body. It is framed as the incoming one exactly when the
method is none of these or there was nothing to lose (`framed_iff`).

What is forwarded is a function of the request and the origin alone (`Request.forwardedTo`);
`outgoingRequest_eq_ok_iff` says when it is handed to the client.
-/

set_option autoImplicit false

namespace Upstreamer

open Foundations

/-- The bytes of the body that arrive: those of the data frames before the first error. -/
def bodyBytes : List (Except String Frame) → List UInt8
  | [] => []
  | .error _ :: _ => []
  | .ok (.data bytes) :: frames => bytes ++ bodyBytes frames
  | .ok (.trailers _) :: frames => bodyBytes frames

/-- The body can be read to its end. -/
def Readable (body : List (Except String Frame)) : Prop := ∀ reason, .error reason ∉ body

/-- The methods that `proxy_request` forwards with an empty body. -/
def Method.Bodyless (method : Method) : Prop :=
  method = .get ∨ method = .head ∨ method = .delete

instance (method : Method) : Decidable method.Bodyless :=
  inferInstanceAs (Decidable (_ ∨ _ ∨ _))

theorem collectBody_eq_ok_iff {buf bytes : List UInt8} {body : List (Except String Frame)} :
    collectBody buf body = .ok bytes ↔ Readable body ∧ bytes = buf ++ bodyBytes body := by
  induction body generalizing buf with
  | nil =>
    rw [collectBody, bodyBytes, List.append_nil, Except.ok.injEq, eq_comm]
    exact ⟨fun h => ⟨fun _ => List.not_mem_nil, h⟩, And.right⟩
  | cons frame frames ih =>
    have hcons : ∀ x, Readable (.ok x :: frames) ↔ Readable frames := fun x => by
      simp only [Readable, List.mem_cons, not_or, reduceCtorEq, not_false_eq_true, true_and]
    rcases frame with reason | ⟨chunk⟩ | ⟨headers⟩
    · refine iff_of_false (by simp [collectBody]) fun h => ?_
      exact h.1 reason List.mem_cons_self
    · rw [collectBody, ih, hcons, bodyBytes, List.append_assoc]
    · rw [collectBody, ih, hcons, bodyBytes]

/-- What `proxy_request` makes of the request, when nothing stops it. -/
def Request.forwardedTo (req : Request) (origin : OriginEndpoint) : OutgoingRequest where
  method := req.method
  uri := origin.urlBase ++ req.pathAndQuery.getD ""
  headers := req.headers.filter (fun header => header.1 != "host") ++
    [("host", bytesOf origin.url.authority)]
  body := if req.method.Bodyless then [] else bodyBytes req.body

/-- The last step of `proxy_request` before the client is called, for a body that was read. -/
def buildOutgoing (buildable : Buildable) (out : OutgoingRequest) :
    Except ProxyError OutgoingRequest :=
  if buildable out.method out.uri out.headers then pure out else throw .build

theorem buildOutgoing_eq_ok_iff {buildable : Buildable} {built out : OutgoingRequest} :
    buildOutgoing buildable built = .ok out ↔
      buildable out.method out.uri out.headers = true ∧ out = built := by
  by_cases hb : buildable built.method built.uri built.headers = true
  · rw [buildOutgoing, if_pos hb]
    refine ⟨fun h => ?_, fun ⟨_, h⟩ => congrArg Except.ok h.symm⟩
    obtain rfl := Except.ok.inj h
    exact ⟨hb, rfl⟩
  · rw [buildOutgoing, if_neg hb]
    refine iff_of_false (by rintro ⟨⟩) ?_
    rintro ⟨hb', rfl⟩
    exact hb hb'

/-- **When a request is handed to the client, and which.** -/
theorem outgoingRequest_eq_ok_iff {buildable : Buildable} {req : Request} {origin : OriginEndpoint}
    {out : OutgoingRequest} :
    outgoingRequest buildable req origin = .ok out ↔
      (req.method.Bodyless ∨ Readable req.body) ∧
      buildable out.method out.uri out.headers = true ∧ out = req.forwardedTo origin := by
  rw [← buildOutgoing_eq_ok_iff]
  by_cases hmethod : req.method.Bodyless
  · have hout : outgoingRequest buildable req origin =
        buildOutgoing buildable { req.forwardedTo origin with body := [] } := if_pos hmethod
    have hempty : (req.forwardedTo origin).body = [] := if_pos hmethod
    rw [hout, ← hempty]
    exact ⟨fun h => ⟨Or.inl hmethod, h⟩, And.right⟩
  · have hout : outgoingRequest buildable req origin =
        ((collectBody [] req.body).mapError ProxyError.body).bind fun body =>
          buildOutgoing buildable { req.forwardedTo origin with body := body } := if_neg hmethod
    have hbody : (req.forwardedTo origin).body = bodyBytes req.body := if_neg hmethod
    rw [hout]
    -- the body is read first, and only then the request is built
    cases hcollect : collectBody [] req.body with
    | error reason =>
      refine iff_of_false (by rintro ⟨⟩) ?_
      rintro ⟨hread, -⟩
      rw [collectBody_eq_ok_iff.2 ⟨hread.resolve_left hmethod, rfl⟩] at hcollect
      cases hcollect
    | ok bytes =>
      obtain ⟨hread, rfl⟩ := collectBody_eq_ok_iff.1 hcollect
      rw [List.nil_append, ← hbody]
      exact ⟨fun h => ⟨Or.inr hread, h⟩, And.right⟩

/-! ## Content lengths -/

/-- The number that the value of a `Content-Length` header declares. -/
def contentLength (value : HeaderValue) : Option Nat :=
  if value ≠ [] ∧ value.all (fun b => 48 ≤ b && b < 58) then
    some (value.foldl (fun n b => n * 10 + (b.toNat - 48)) 0)
  else
    none

/-- Every `Content-Length` header among the headers declares this length. -/
def Declares (headers : List (String × HeaderValue)) (length : Nat) : Prop :=
  ∀ value, ("content-length", value) ∈ headers → contentLength value = some length

instance (headers : List (String × HeaderValue)) (length : Nat) :
    Decidable (Declares headers length) :=
  decidable_of_iff
    (∀ header ∈ headers, header.1 = "content-length" → contentLength header.2 = some length)
    ⟨fun h _ hmem => h _ hmem rfl, fun h header hmem hname => h header.2 (hname ▸ hmem)⟩

/-- The server delivers as many bytes as the request declares, unless reading them fails. -/
def Request.Delivered (req : Request) : Prop :=
  Readable req.body → Declares req.headers (bodyBytes req.body).length

/-- The forwarded request has the body of the incoming one, and declares the length it has. -/
structure Framed (req : Request) (out : OutgoingRequest) : Prop where
  body_eq : out.body = bodyBytes req.body
  declares : Declares out.headers out.body.length

/-- Forwarding leaves the `Content-Length` headers as they are. -/
theorem declares_forwardedTo {req : Request} {origin : OriginEndpoint} {length : Nat} :
    Declares (req.forwardedTo origin).headers length ↔ Declares req.headers length := by
  refine forall_congr' fun value => imp_congr_left ?_
  rw [Request.forwardedTo, List.mem_append, List.mem_filter, List.mem_singleton]
  constructor
  · rintro (⟨hmem, -⟩ | heq)
    · exact hmem
    · exact absurd (Prod.mk.inj heq).1 (by decide)
  · exact fun hmem => Or.inl ⟨hmem, rfl⟩

/-- **Framing.** A request that is handed to the client is framed as the incoming one exactly when
its method is not one of those forwarded without a body, or no body arrived and none was
declared. -/
theorem framed_iff (buildable : Buildable) (req : Request) (origin : OriginEndpoint)
    (out : OutgoingRequest) (hdelivered : req.Delivered)
    (hout : outgoingRequest buildable req origin = .ok out) :
    Framed req out ↔
      ¬ req.method.Bodyless ∨ (bodyBytes req.body = [] ∧ Declares req.headers 0) := by
  obtain ⟨hread, -, rfl⟩ := outgoingRequest_eq_ok_iff.1 hout
  by_cases hmethod : req.method.Bodyless
  · have hbody : (req.forwardedTo origin).body = [] := if_pos hmethod
    rw [or_iff_right (not_not_intro hmethod)]
    constructor
    · rintro ⟨heq, hdeclares⟩
      rw [hbody] at heq hdeclares
      exact ⟨heq.symm, declares_forwardedTo.1 hdeclares⟩
    · rintro ⟨hempty, hdeclares⟩
      refine ⟨hbody.trans hempty.symm, ?_⟩
      rw [hbody]
      exact declares_forwardedTo.2 hdeclares
  · have hbody : (req.forwardedTo origin).body = bodyBytes req.body := if_neg hmethod
    refine iff_of_true ⟨hbody, ?_⟩ (Or.inl hmethod)
    -- the body was read to its end, so it has the declared length
    rw [hbody]
    exact declares_forwardedTo.2 (hdelivered (hread.resolve_left hmethod))

/-- A request that declares and carries the five bytes of `hello`. -/
def helloRequest (method : Method) : Request where
  method := method
  path := "/"
  pathAndQuery := some "/"
  headers := [("host", bytesOf "example.org"), ("content-length", bytesOf "5")]
  body := [.ok (.data (bytesOf "hello"))]

/-- The origin of the minimal configuration. -/
def localOrigin : OriginEndpoint := .ofUrl (Url.httpRoot "127.0.0.1" (some 3000)) none none

/-- A body that is posted arrives as it was sent. -/
theorem framed_post : Framed (helloRequest .post) ((helloRequest .post).forwardedTo localOrigin) :=
  (framed_iff (fun _ _ _ => true) (helloRequest .post) localOrigin _ (fun _ => by decide +kernel)
    (by rfl)).2 (Or.inl (by decide))

/-- **A body sent with a GET request is dropped and its length still declared.** -/
theorem not_framed_get :
    (helloRequest .get).Delivered ∧
      ∃ out, outgoingRequest (fun _ _ _ => true) (helloRequest .get) localOrigin = .ok out ∧
        out.body = [] ∧ ("content-length", bytesOf "5") ∈ out.headers ∧
        ¬ Framed (helloRequest .get) out := by
  refine ⟨fun _ => by decide +kernel, _, rfl, rfl, ?_, fun h => ?_⟩
  · refine List.mem_append_left _ (List.mem_filter.2 ⟨?_, rfl⟩)
    exact List.mem_cons_of_mem _ List.mem_cons_self
  · exact absurd h.body_eq (by decide +kernel)

end Upstreamer
