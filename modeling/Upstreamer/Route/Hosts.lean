import Upstreamer.Foundations.Glob
import Upstreamer.Server

/-!
# Host patterns

Routes name hosts by patterns with `*`. `Router.matchGlob` splits a pattern at the star and tests
the two parts independently when there are exactly two; other patterns are compared literally. It
decides the language of the pattern exactly when the pattern has no star, or one star whose two
sides cannot overlap (`matchGlob_exact_iff`).

The host of a request is its `Host` header as the client wrote it, with the port and in the client's
spelling. `same_route_iff` says exactly when neither of them changes the route: when the first route
that takes the request either way looks at a part of the host that they leave alone.
-/

set_option autoImplicit false

namespace Upstreamer

open Foundations

/-! ## Patterns -/

section Patterns

variable {value pattern : String}

/-- One star: the text before it is a prefix of the value and the text after it a suffix. -/
theorem matchGlob_of_oneStar {before after : List Char}
    (h : Glob.OneStar '*' pattern.toList before after) :
    Router.matchGlob value pattern = true ↔ before <+: value.toList ∧ after <:+ value.toList := by
  unfold Router.matchGlob
  split
  · next hstar =>
    -- the pattern `*` has empty sides
    subst hstar
    have hsplit := Glob.splitOn_eq_pair_iff.2 h
    have hempty : ("*".toList.splitOn '*') = [[], []] := by decide
    rw [hempty, List.cons.injEq, List.cons.injEq] at hsplit
    obtain ⟨rfl, rfl, -⟩ := hsplit
    exact iff_of_true rfl ⟨List.nil_prefix, List.nil_suffix⟩
  · rw [Glob.splitOn_eq_pair_iff.2 h]
    simp [startsWith, endsWith]

/-- No star or several of them: the value is the pattern. -/
theorem matchGlob_of_not_oneStar
    (h : ∀ before after, ¬ Glob.OneStar '*' pattern.toList before after) :
    Router.matchGlob value pattern = true ↔ value = pattern := by
  unfold Router.matchGlob
  split
  · next hstar =>
    subst hstar
    exact absurd ⟨rfl, by simp, by simp⟩ (h [] [])
  · split
    · next before after hsplit =>
      exact absurd (Glob.splitOn_eq_pair_iff.1 hsplit) (h before after)
    · simp

/-- **Matching one star.** Besides the texts that the pattern stands for, the values in which its
two sides overlap are accepted. -/
theorem matchGlob_iff_mem_or_overlap {before after : List Char}
    (h : Glob.OneStar '*' pattern.toList before after) :
    Router.matchGlob value pattern = true ↔
      value.toList ∈ Glob.language '*' pattern.toList ∨
        ∃ s m t, m ≠ [] ∧ before = s ++ m ∧ after = m ++ t ∧ s ++ (m ++ t) = value.toList := by
  rw [matchGlob_of_oneStar h, Glob.prefix_and_suffix_iff, h.mem_language]

/-- **Glob matching is exact for a pattern exactly when it has no star, or one star whose two sides
cannot overlap.** -/
theorem matchGlob_exact_iff (pattern : String) :
    (∀ value, Router.matchGlob value pattern = true ↔
        value.toList ∈ Glob.language '*' pattern.toList) ↔
      '*' ∉ pattern.toList ∨
        ∃ before after, Glob.OneStar '*' pattern.toList before after ∧
          ¬ Glob.Overlap before after := by
  by_cases hone : ∃ before after, Glob.OneStar '*' pattern.toList before after
  · obtain ⟨before, after, h⟩ := hone
    have hstar : '*' ∈ pattern.toList := by
      rw [h.eq]
      simp
    have hexact := Glob.prefix_and_suffix_exact_iff h
    constructor
    · intro hall
      refine Or.inr ⟨before, after, h, hexact.1 fun v => ?_⟩
      have hv := hall (String.ofList v)
      rwa [matchGlob_of_oneStar h, String.toList_ofList] at hv
    · rintro (hplain | ⟨before', after', h', hno⟩) value
      · exact absurd hstar hplain
      · rw [matchGlob_of_oneStar h']
        exact (Glob.prefix_and_suffix_exact_iff h').2 hno value.toList
  · have hnone : ∀ before after, ¬ Glob.OneStar '*' pattern.toList before after :=
      fun before after h => hone ⟨before, after, h⟩
    by_cases hstar : '*' ∈ pattern.toList
    · -- with several stars, a text that the stars leave out of the pattern is refused
      refine iff_of_false (fun hall => ?_) ?_
      · obtain ⟨v, hv, hne⟩ := Glob.exists_mem_language_ne hstar
        have hmatch := hall (String.ofList v)
        rw [matchGlob_of_not_oneStar hnone, String.toList_ofList] at hmatch
        exact hne (by rw [← hmatch.2 hv, String.toList_ofList])
      · rintro (hplain | ⟨before, after, h, -⟩)
        · exact hplain hstar
        · exact hnone before after h
    · refine iff_of_true (fun value => ?_) (Or.inl hstar)
      rw [matchGlob_of_not_oneStar hnone, Glob.mem_language_of_notMem hstar, String.toList_inj]

/-- **Overlapping sides and several stars.** The value `a` is too short for the pattern `a*a`, and
`api.v1.example.org` is one of the hosts that `api.*.example.*` stands for. -/
theorem matchGlob_not_exact :
    (Router.matchGlob "a" "a*a" = true ∧ "a".toList ∉ Glob.language '*' "a*a".toList) ∧
      Router.matchGlob "api.v1.example.org" "api.*.example.*" = false ∧
        "api.v1.example.org".toList ∈ Glob.language '*' "api.*.example.*".toList := by
  refine ⟨⟨by decide, ?_⟩, by decide, ?_⟩
  · have h : Glob.OneStar '*' "a*a".toList ['a'] ['a'] := ⟨rfl, by decide, by decide⟩
    rw [h.mem_language]
    rintro ⟨m, hm⟩
    have hlength := congrArg List.length hm
    simp only [List.length_append, List.length_cons] at hlength
    simp at hlength
  · show _ ∈ Glob.language '*' ("api.".toList ++ '*' :: (".example.".toList ++ ['*']))
    refine (Glob.mem_language_append (by decide)).2 ⟨"v1.example.org".toList, ?_, by decide⟩
    refine Glob.mem_language_star_cons.2 ⟨"v1".toList, ".example.org".toList, ?_, by decide⟩
    refine (Glob.mem_language_append (by decide)).2 ⟨"org".toList, ?_, by decide⟩
    exact Glob.mem_language_star_cons.2 ⟨"org".toList, [], Glob.mem_language_nil.2 rfl, by simp⟩

end Patterns

/-! ## Two host texts -/

/-- A condition on the host text and one on the path. -/
theorem RouteEntry.accepts_iff {route : RouteEntry} {host path : String} :
    route.accepts host path = true ↔
      (∀ pattern ∈ route.matchHost, Router.matchGlob host pattern = true) ∧
        ∀ before ∈ route.matchPath, startsWith path before = true := by
  unfold RouteEntry.accepts
  cases route.matchHost <;> cases route.matchPath <;> simp

/-- The first route that takes a request for the path under one of two host texts. -/
def Router.firstFor (router : Router) (path h h' : String) : Option RouteEntry :=
  router.routes.find? fun route => route.accepts h path || route.accepts h' path

/-- Two tests find the same position exactly when they agree on the first element that one of them
accepts. -/
theorem findIdx?_eq_findIdx?_iff {α : Type} {p q : α → Bool} {l : List α} :
    l.findIdx? p = l.findIdx? q ↔ ∀ a ∈ l.find? (fun a => p a || q a), p a = q a := by
  induction l with
  | nil => simp
  | cons a l ih =>
    rw [List.findIdx?_cons, List.findIdx?_cons, List.find?_cons]
    cases hp : p a <;> cases hq : q a
    · have hinj : Function.Injective (Option.map fun i : Nat => i + 1) :=
        Option.map_injective (add_left_injective 1)
      simpa [hinj.eq_iff] using ih
    · simp [hp, hq]
    · simp [hp, hq]
    · simp [hp, hq]

/-- **Two host texts select one route exactly when the first route that takes either takes
both.** -/
theorem matchIndex_eq_iff {router : Router} {path h h' : String} :
    router.matchIndex h' path = router.matchIndex h path ↔
      ∀ route ∈ router.firstFor path h h', route.accepts h path = route.accepts h' path := by
  rw [eq_comm]
  exact findIdx?_eq_findIdx?_iff

/-! ## The port and the spelling -/

/-- The characters of a host text that a pattern is compared with. -/
def comparedWith (pattern host : String) : List Char :=
  match pattern.toList.splitOn '*' with
  | [before, after] => host.toList.take before.length ++ host.toList.rtake after.length
  | _ => host.toList

/-- A host pattern without port and without upper-case letters. -/
def PlainHost (pattern : String) : Prop := ∀ c ∈ pattern.toList, c ≠ ':' ∧ c.isUpper = false

instance (pattern : String) : Decidable (PlainHost pattern) :=
  List.decidableBAll (fun c => c ≠ ':' ∧ c.isUpper = false) pattern.toList

/-- The texts differ in the case of ASCII letters only. -/
def EqIgnoreAsciiCase (s t : String) : Prop :=
  s.toList.map Char.toLower = t.toList.map Char.toLower

/-- The route has no host pattern, or one with one star whose text after the star is an end of the
host name and of the port. -/
def RouteEntry.IgnoresPort (route : RouteEntry) (host port : String) : Prop :=
  ∀ pattern ∈ route.matchHost, ∃ before after, Glob.OneStar '*' pattern.toList before after ∧
    after <:+ host.toList ∧ after <:+ port.toList

/-- The route has no host pattern, or one that is compared with no upper-case letter of the two
spellings. -/
def RouteEntry.IgnoresCase (route : RouteEntry) (host host' : String) : Prop :=
  ∀ pattern ∈ route.matchHost,
    ∀ c ∈ comparedWith pattern host ++ comparedWith pattern host', c.isUpper = false

instance (route : RouteEntry) (host host' : String) : Decidable (route.IgnoresCase host host') :=
  have (pattern : String) : Decidable
      (∀ c ∈ comparedWith pattern host ++ comparedWith pattern host', c.isUpper = false) :=
    List.decidableBAll (fun c : Char => c.isUpper = false) _
  inferInstanceAs (Decidable (∀ pattern ∈ route.matchHost,
    ∀ c ∈ comparedWith pattern host ++ comparedWith pattern host', c.isUpper = false))

section Spellings

variable {pattern host host' port : String}

/-- Texts without upper-case letters that differ in case only are equal. -/
theorem eq_of_map_toLower_eq {l l' : List Char} (h : l.map Char.toLower = l'.map Char.toLower)
    (hl : ∀ c ∈ l, c.isUpper = false) (hl' : ∀ c ∈ l', c.isUpper = false) : l = l' := by
  have hself : ∀ l : List Char, (∀ c ∈ l, c.isUpper = false) → l.map Char.toLower = l := by
    intro l hl
    calc l.map Char.toLower = l.map id := List.map_congr_left fun c hc =>
          dif_neg (of_decide_eq_false (hl c hc))
      _ = l := List.map_id l
  rw [← hself l hl, h, hself l' hl']

/-- With the port the text before the star is still tested on the name, and the text after it on
the port. -/
theorem matchGlob_port_of_oneStar (hplain : PlainHost pattern) {before after : List Char}
    (h : Glob.OneStar '*' pattern.toList before after) :
    Router.matchGlob (host ++ ":" ++ port) pattern = true ↔
      before <+: host.toList ∧ after <:+ port.toList := by
  have hcolon : ':' ∉ pattern.toList := fun hmem => (hplain ':' hmem).1 rfl
  rw [h.eq, List.mem_append, List.mem_cons, not_or, not_or] at hcolon
  have htext : (host ++ ":" ++ port).toList = host.toList ++ ':' :: port.toList := by simp
  rw [matchGlob_of_oneStar h, htext, prefix_append_cons_iff hcolon.1,
    suffix_append_cons_iff hcolon.2.2]

/-- A pattern without port and star takes no text with a port. -/
theorem matchGlob_port_of_not_oneStar (hplain : PlainHost pattern)
    (h : ∀ before after, ¬ Glob.OneStar '*' pattern.toList before after) :
    Router.matchGlob (host ++ ":" ++ port) pattern = false := by
  rw [Bool.eq_false_iff, Ne, matchGlob_of_not_oneStar h]
  rintro rfl
  exact (hplain ':' (by simp)).1 rfl

/-- The characters that an accepted value is compared with are characters of the pattern. -/
theorem not_isUpper_of_matchGlob (hplain : PlainHost pattern)
    (h : Router.matchGlob host pattern = true) :
    ∀ c ∈ comparedWith pattern host, c.isUpper = false := by
  intro c hc
  refine (hplain c ?_).2
  unfold comparedWith at hc
  split at hc
  · next before after hsplit =>
    have hone := Glob.splitOn_eq_pair_iff.1 hsplit
    obtain ⟨hbefore, hafter⟩ := (matchGlob_of_oneStar hone).1 h
    rw [← List.prefix_iff_eq_take.1 hbefore, List.rtake, ← List.suffix_iff_eq_drop.1 hafter] at hc
    rw [hone.eq]
    rcases List.mem_append.1 hc with hc | hc
    · exact List.mem_append_left _ hc
    · exact List.mem_append_right _ (List.mem_cons_of_mem _ hc)
  · next hsplit =>
    have hnone : ∀ before after, ¬ Glob.OneStar '*' pattern.toList before after :=
      fun before after hone => hsplit before after (Glob.splitOn_eq_pair_iff.2 hone)
    rwa [← (matchGlob_of_not_oneStar hnone).1 h]

/-- A spelling without upper-case letters where the pattern looks is accepted when another one
is. -/
theorem matchGlob_of_not_isUpper (hplain : PlainHost pattern) (hcase : EqIgnoreAsciiCase host host')
    (h : Router.matchGlob host pattern = true)
    (hupper : ∀ c ∈ comparedWith pattern host', c.isUpper = false) :
    Router.matchGlob host' pattern = true := by
  have hlength : host.toList.length = host'.toList.length := by
    simpa using congrArg List.length hcase
  have hboth := not_isUpper_of_matchGlob hplain h
  by_cases hone : ∃ before after, Glob.OneStar '*' pattern.toList before after
  · obtain ⟨before, after, hone⟩ := hone
    obtain ⟨hbefore, hafter⟩ := (matchGlob_of_oneStar hone).1 h
    simp only [comparedWith, Glob.splitOn_eq_pair_iff.2 hone, List.forall_mem_append]
      at hupper hboth
    rw [matchGlob_of_oneStar hone, List.prefix_iff_eq_take, List.suffix_iff_eq_drop]
    constructor
    · have htake : host.toList.take before.length = host'.toList.take before.length := by
        refine eq_of_map_toLower_eq ?_ hboth.1 hupper.1
        rw [List.map_take, List.map_take, hcase]
      rw [← htake]
      exact List.prefix_iff_eq_take.1 hbefore
    · have hdrop : host.toList.rtake after.length = host'.toList.rtake after.length := by
        refine eq_of_map_toLower_eq ?_ hboth.2 hupper.2
        rw [List.rtake, List.rtake, List.map_drop, List.map_drop, hcase, hlength]
      rw [List.rtake, List.rtake] at hdrop
      rw [← hdrop]
      exact List.suffix_iff_eq_drop.1 hafter
  · have hnone : ∀ before after, ¬ Glob.OneStar '*' pattern.toList before after :=
      fun before after h => hone ⟨before, after, h⟩
    have hcompared : ∀ value : String, comparedWith pattern value = value.toList := by
      intro value
      unfold comparedWith
      split
      · next before after hsplit =>
        exact absurd (Glob.splitOn_eq_pair_iff.1 hsplit) (hnone before after)
      · rfl
    rw [hcompared] at hupper hboth
    rw [matchGlob_of_not_oneStar hnone] at h ⊢
    rw [← h]
    exact String.toList_inj.1 (eq_of_map_toLower_eq hcase hboth hupper).symm

end Spellings

section Routes

variable {route : RouteEntry} {path host host' port : String}

/-- When the route takes one of two host texts, it is its host pattern that tells them apart. -/
theorem accepts_eq_accepts_iff
    (h : route.accepts host path = true ∨ route.accepts host' path = true) :
    route.accepts host path = route.accepts host' path ↔
      ∀ pattern ∈ route.matchHost,
        Router.matchGlob host pattern = true ∧ Router.matchGlob host' pattern = true := by
  have hpath : ∀ before ∈ route.matchPath, startsWith path before = true := by
    rcases h with h | h
    · exact (RouteEntry.accepts_iff.1 h).2
    · exact (RouteEntry.accepts_iff.1 h).2
  rw [Bool.eq_iff_iff]
  constructor
  · intro heq pattern hpattern
    have hboth : route.accepts host path = true ∧ route.accepts host' path = true := by
      rcases h with h | h
      · exact ⟨h, heq.1 h⟩
      · exact ⟨heq.2 h, h⟩
    exact ⟨(RouteEntry.accepts_iff.1 hboth.1).1 pattern hpattern,
      (RouteEntry.accepts_iff.1 hboth.2).1 pattern hpattern⟩
  · intro hmatch
    exact iff_of_true (RouteEntry.accepts_iff.2 ⟨fun pattern h => (hmatch pattern h).1, hpath⟩)
      (RouteEntry.accepts_iff.2 ⟨fun pattern h => (hmatch pattern h).2, hpath⟩)

/-- A route that takes a host name with or without the port takes it both ways exactly when it
ignores the port. -/
theorem accepts_port_iff (hplain : ∀ pattern ∈ route.matchHost, PlainHost pattern)
    (h : route.accepts host path = true ∨ route.accepts (host ++ ":" ++ port) path = true) :
    route.accepts host path = route.accepts (host ++ ":" ++ port) path ↔
      route.IgnoresPort host port := by
  rw [accepts_eq_accepts_iff h]
  refine forall₂_congr fun pattern hpattern => ?_
  have hplain := hplain pattern hpattern
  by_cases hone : ∃ before after, Glob.OneStar '*' pattern.toList before after
  · obtain ⟨before, after, hone⟩ := hone
    -- either way the text before the star is tested on the name
    have hbefore : before <+: host.toList := by
      rcases h with h | h
      · exact ((matchGlob_of_oneStar hone).1 ((RouteEntry.accepts_iff.1 h).1 pattern hpattern)).1
      · exact ((matchGlob_port_of_oneStar hplain hone).1
          ((RouteEntry.accepts_iff.1 h).1 pattern hpattern)).1
    rw [matchGlob_of_oneStar hone, matchGlob_port_of_oneStar hplain hone]
    constructor
    · rintro ⟨⟨-, hhost⟩, -, hport⟩
      exact ⟨before, after, hone, hhost, hport⟩
    · rintro ⟨before', after', hone', hhost, hport⟩
      obtain ⟨-, rfl⟩ := hone.unique hone'
      exact ⟨⟨hbefore, hhost⟩, hbefore, hport⟩
  · have hnone : ∀ before after, ¬ Glob.OneStar '*' pattern.toList before after :=
      fun before after h => hone ⟨before, after, h⟩
    rw [matchGlob_port_of_not_oneStar hplain hnone]
    refine iff_of_false (by simp) ?_
    rintro ⟨before, after, hone, -⟩
    exact hnone before after hone

/-- A route that takes one of two spellings takes both exactly when it looks at no upper-case
letter. -/
theorem accepts_case_iff (hplain : ∀ pattern ∈ route.matchHost, PlainHost pattern)
    (hcase : EqIgnoreAsciiCase host host')
    (h : route.accepts host path = true ∨ route.accepts host' path = true) :
    route.accepts host path = route.accepts host' path ↔ route.IgnoresCase host host' := by
  rw [accepts_eq_accepts_iff h]
  refine forall₂_congr fun pattern hpattern => ?_
  have hplain := hplain pattern hpattern
  constructor
  · rintro ⟨hhost, hhost'⟩ c hc
    rcases List.mem_append.1 hc with hc | hc
    · exact not_isUpper_of_matchGlob hplain hhost c hc
    · exact not_isUpper_of_matchGlob hplain hhost' c hc
  · intro hupper
    rw [List.forall_mem_append] at hupper
    rcases h with h | h
    · have hmatch := (RouteEntry.accepts_iff.1 h).1 pattern hpattern
      exact ⟨hmatch, matchGlob_of_not_isUpper hplain hcase hmatch hupper.2⟩
    · have hmatch := (RouteEntry.accepts_iff.1 h).1 pattern hpattern
      exact ⟨matchGlob_of_not_isUpper hplain hcase.symm hmatch hupper.1, hmatch⟩

end Routes

/-- No host pattern of the router has a port or an upper-case letter. -/
def Router.PlainHosts (router : Router) : Prop :=
  ∀ route ∈ router.routes, ∀ pattern ∈ route.matchHost, PlainHost pattern

/-- **When the route depends on the host name alone.** Neither a port nor another spelling of the
host name changes the route exactly when the first route that takes the request with or without the
port ignores it, and the first route that takes it in one of the two spellings looks at no
upper-case letter. -/
theorem same_route_iff {router : Router} (hplain : router.PlainHosts)
    (req reqPort reqCase : Request) (port : String)
    (hport : reqPort.host = req.host ++ ":" ++ port)
    (hcase : EqIgnoreAsciiCase req.host reqCase.host)
    (hpathPort : reqPort.path = req.path) (hpathCase : reqCase.path = req.path) :
    (router.matchIndex reqPort.host reqPort.path = router.matchIndex req.host req.path ∧
        router.matchIndex reqCase.host reqCase.path = router.matchIndex req.host req.path) ↔
      (∀ route ∈ router.firstFor req.path req.host reqPort.host, route.IgnoresPort req.host port) ∧
        ∀ route ∈ router.firstFor req.path req.host reqCase.host,
          route.IgnoresCase req.host reqCase.host := by
  -- the first route that takes either text is a route of the router
  have hfirst : ∀ h h' route, route ∈ router.firstFor req.path h h' →
      (∀ pattern ∈ route.matchHost, PlainHost pattern) ∧
        (route.accepts h req.path = true ∨ route.accepts h' req.path = true) := by
    intro h h' route hroute
    have haccepts := List.find?_some hroute
    rw [Bool.or_eq_true] at haccepts
    exact ⟨hplain route (List.mem_of_find?_eq_some hroute), haccepts⟩
  rw [hpathPort, hpathCase, matchIndex_eq_iff, matchIndex_eq_iff]
  refine and_congr (forall₂_congr fun route hroute => ?_) (forall₂_congr fun route hroute => ?_)
  · obtain ⟨hroutes, haccepts⟩ := hfirst _ _ route hroute
    rw [hport] at haccepts ⊢
    exact accepts_port_iff hroutes haccepts
  · obtain ⟨hroutes, haccepts⟩ := hfirst _ _ route hroute
    exact accepts_case_iff hroutes hcase haccepts

/-- A request for `/` whose `Host` header is the given text. -/
def Request.forHost (host : String) : Request where
  method := .get
  path := "/"
  pathAndQuery := some "/"
  headers := [("host", bytesOf host)]
  body := []

/-- The minimal configuration with a host pattern. -/
def hostConfig (pattern : String) : ProxyConfig :=
  .ofRoutes [{ RouteConfig.minimal [Url.backend] with matchHost := some pattern }]

/-- A pattern that ends in a star looks neither at the port nor at letters under the star. -/
theorem same_route_api :
    (Router.fromConfig (hostConfig "api.*")).matchIndex (Request.forHost "api.test:8080").host "/" =
        (Router.fromConfig (hostConfig "api.*")).matchIndex (Request.forHost "api.test").host "/" ∧
      (Router.fromConfig (hostConfig "api.*")).matchIndex (Request.forHost "api.TEST").host "/" =
        (Router.fromConfig (hostConfig "api.*")).matchIndex (Request.forHost "api.test").host
          "/" := by
  have hplain : (Router.fromConfig (hostConfig "api.*")).PlainHosts := by
    unfold Router.PlainHosts
    decide
  have hpattern : ∀ route ∈ (Router.fromConfig (hostConfig "api.*")).routes,
      route.matchHost = some "api.*" := by
    decide
  have hcase : EqIgnoreAsciiCase (Request.forHost "api.test").host
      (Request.forHost "api.TEST").host := by
    unfold EqIgnoreAsciiCase
    decide
  refine (same_route_iff hplain (.forHost "api.test") (.forHost "api.test:8080")
    (.forHost "api.TEST") "8080" (by decide) hcase rfl rfl).2 ⟨?_, ?_⟩
  · intro route hroute pattern hmem
    rw [hpattern route (List.mem_of_find?_eq_some hroute)] at hmem
    obtain rfl := Option.some.inj hmem
    exact ⟨"api.".toList, [], ⟨rfl, by decide, by decide⟩, List.nil_suffix, List.nil_suffix⟩
  · decide

/-- **A port or another spelling loses the route.** -/
theorem not_same_route :
    (hostConfig "example.org").validate .empty = .ok () ∧
      (Router.fromConfig (hostConfig "example.org")).PlainHosts ∧
      (Router.fromConfig (hostConfig "example.org")).matchIndex
        (Request.forHost "example.org").host "/" = some 0 ∧
      (Router.fromConfig (hostConfig "example.org")).matchIndex
        (Request.forHost "example.org:8080").host "/" = none ∧
      (Router.fromConfig (hostConfig "example.org")).matchIndex
        (Request.forHost "Example.org").host "/" = none := by
  refine ⟨by decide, ?_, by decide, by decide, by decide⟩
  unfold Router.PlainHosts
  decide

end Upstreamer
