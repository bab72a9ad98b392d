import Upstreamer.Route.Builders
import Upstreamer.Route.Repetitions

/-!
# Routes that are never matched

The first route that accepts a request is matched, so a route whose requests are all accepted by
routes before it is dead. Whether one route accepts all that another one accepts can be read off
their texts (`covers_iff`): the prefix of the path begins the other prefix, and either the two sides
of the host pattern end within those of the other pattern, or the other pattern is literal and one
of the hosts that are accepted.

For the dead routes of a configuration no more is needed: a route is matched for some request unless
a single route before it covers it (`matched_iff`). Several routes that accept its requests only
together do not occur, since there is a host made for the route, with a character that no pattern
has, which only a covering route accepts.
-/

set_option autoImplicit false

namespace Upstreamer

open Foundations

/-! ## Host patterns -/

/-- Whether a pattern accepts every host that the other pattern accepts, read off the texts. -/
def globCovers (pattern pattern' : String) : Bool :=
  match pattern.toList.splitOn '*', pattern'.toList.splitOn '*' with
  | [before, after], [before', after'] => before.isPrefixOf before' && after.isSuffixOf after'
  | _, [_, _] => false
  | _, _ => Router.matchGlob pattern' pattern

/-- A host made for a pattern: the character in the place of the star. -/
def sampleHost (c : Char) (pattern : String) : String :=
  match pattern.toList.splitOn '*' with
  | [before, after] => String.ofList (before ++ c :: after)
  | _ => pattern

section Patterns

variable {pattern pattern' : String} {before after before' after' : List Char} {c : Char}

theorem globCovers_of_oneStar (h : Glob.OneStar '*' pattern.toList before after)
    (h' : Glob.OneStar '*' pattern'.toList before' after') :
    globCovers pattern pattern' = true ↔ before <+: before' ∧ after <:+ after' := by
  simp [globCovers, Glob.splitOn_eq_pair_iff.2 h, Glob.splitOn_eq_pair_iff.2 h']

theorem not_globCovers_of_literal
    (h : ∀ before after, ¬ Glob.OneStar '*' pattern.toList before after)
    (h' : Glob.OneStar '*' pattern'.toList before' after') :
    globCovers pattern pattern' = false := by
  rw [globCovers, Glob.splitOn_eq_pair_iff.2 h']
  split
  · next before after _ _ hsplit _ => exact absurd (Glob.splitOn_eq_pair_iff.1 hsplit) (h _ _)
  · rfl
  · next hno _ => exact absurd rfl (hno before' after')

theorem globCovers_literal
    (h' : ∀ before after, ¬ Glob.OneStar '*' pattern'.toList before after) :
    globCovers pattern pattern' = Router.matchGlob pattern' pattern := by
  rw [globCovers]
  split
  · next hsplit => exact absurd (Glob.splitOn_eq_pair_iff.1 hsplit) (h' _ _)
  · next hsplit _ => exact absurd (Glob.splitOn_eq_pair_iff.1 hsplit) (h' _ _)
  · rfl

theorem sampleHost_of_oneStar (h : Glob.OneStar '*' pattern.toList before after) (c : Char) :
    sampleHost c pattern = String.ofList (before ++ c :: after) := by
  rw [sampleHost, Glob.splitOn_eq_pair_iff.2 h]

theorem sampleHost_literal
    (h : ∀ before after, ¬ Glob.OneStar '*' pattern.toList before after) (c : Char) :
    sampleHost c pattern = pattern := by
  rw [sampleHost]
  split
  · next hsplit => exact absurd (Glob.splitOn_eq_pair_iff.1 hsplit) (h _ _)
  · rfl

/-- The pattern accepts the host that is made for it. -/
theorem matchGlob_sampleHost (c : Char) (pattern : String) :
    Router.matchGlob (sampleHost c pattern) pattern = true := by
  by_cases hone : ∃ before after, Glob.OneStar '*' pattern.toList before after
  · obtain ⟨before, after, h⟩ := hone
    rw [sampleHost_of_oneStar h, matchGlob_of_oneStar h, String.toList_ofList]
    exact ⟨List.prefix_append before _,
      (List.suffix_cons c after).trans (List.suffix_append before _)⟩
  · have hnone : ∀ before after, ¬ Glob.OneStar '*' pattern.toList before after :=
      fun before after h => hone ⟨before, after, h⟩
    rw [sampleHost_literal hnone]
    exact (matchGlob_of_not_oneStar hnone).2 rfl

/-- A covering pattern accepts what the other one accepts. -/
theorem matchGlob_of_globCovers (h : globCovers pattern pattern' = true) {value : String}
    (hvalue : Router.matchGlob value pattern' = true) : Router.matchGlob value pattern = true := by
  by_cases hone' : ∃ before after, Glob.OneStar '*' pattern'.toList before after
  · obtain ⟨before', after', hs'⟩ := hone'
    by_cases hone : ∃ before after, Glob.OneStar '*' pattern.toList before after
    · obtain ⟨before, after, hs⟩ := hone
      obtain ⟨hbefore, hafter⟩ := (globCovers_of_oneStar hs hs').1 h
      rw [matchGlob_of_oneStar hs'] at hvalue
      exact (matchGlob_of_oneStar hs).2 ⟨hbefore.trans hvalue.1, hafter.trans hvalue.2⟩
    · rw [not_globCovers_of_literal (fun b a hs => hone ⟨b, a, hs⟩) hs'] at h
      exact absurd h Bool.false_ne_true
  · have hnone' : ∀ before after, ¬ Glob.OneStar '*' pattern'.toList before after :=
      fun before after hs' => hone' ⟨before, after, hs'⟩
    rw [matchGlob_of_not_oneStar hnone'] at hvalue
    rw [hvalue, ← globCovers_literal hnone']
    exact h

/-- **A character that the pattern does not have makes the sample decide.** -/
theorem globCovers_of_matchGlob_sampleHost (hc : c ∉ pattern.toList)
    (h : Router.matchGlob (sampleHost c pattern') pattern = true) :
    globCovers pattern pattern' = true := by
  by_cases hone' : ∃ before after, Glob.OneStar '*' pattern'.toList before after
  · obtain ⟨before', after', hs'⟩ := hone'
    rw [sampleHost_of_oneStar hs'] at h
    by_cases hone : ∃ before after, Glob.OneStar '*' pattern.toList before after
    · obtain ⟨before, after, hs⟩ := hone
      rw [matchGlob_of_oneStar hs, String.toList_ofList] at h
      rw [hs.eq, List.mem_append, List.mem_cons, not_or, not_or] at hc
      exact (globCovers_of_oneStar hs hs').2
        ⟨(prefix_append_cons_iff hc.1).1 h.1, (suffix_append_cons_iff hc.2.2).1 h.2⟩
    · rw [matchGlob_of_not_oneStar fun b a hs => hone ⟨b, a, hs⟩] at h
      rw [← h, String.toList_ofList] at hc
      exact absurd (List.mem_append_right before' List.mem_cons_self) hc
  · have hnone' : ∀ before after, ¬ Glob.OneStar '*' pattern'.toList before after :=
      fun before after hs' => hone' ⟨before, after, hs'⟩
    rwa [sampleHost_literal hnone', ← globCovers_literal hnone'] at h

/-- **The texts decide.** For two patterns, two samples that differ are enough. -/
theorem globCovers_iff : globCovers pattern pattern' = true ↔
    ∀ value, Router.matchGlob value pattern' = true → Router.matchGlob value pattern = true := by
  refine ⟨fun h value => matchGlob_of_globCovers h, fun h => ?_⟩
  have hx := h _ (matchGlob_sampleHost 'x' pattern')
  have hy := h _ (matchGlob_sampleHost 'y' pattern')
  by_cases hone' : ∃ before after, Glob.OneStar '*' pattern'.toList before after
  · obtain ⟨before', after', hs'⟩ := hone'
    rw [sampleHost_of_oneStar hs'] at hx hy
    by_cases hone : ∃ before after, Glob.OneStar '*' pattern.toList before after
    · obtain ⟨before, after, hs⟩ := hone
      rw [matchGlob_of_oneStar hs, String.toList_ofList] at hx hy
      have hne : 'x' ≠ 'y' := by decide
      exact (globCovers_of_oneStar hs hs').2
        ⟨Glob.prefix_of_prefix_append_cons hne hx.1 hy.1,
          Glob.suffix_of_suffix_append_cons hne hx.2 hy.2⟩
    · -- a literal pattern accepts one of the samples at most
      have hnone := fun b a hs => hone ⟨b, a, hs⟩
      rw [matchGlob_of_not_oneStar hnone] at hx hy
      have heq := String.ofList_inj.1 (hx.trans hy.symm)
      simp at heq
  · have hnone' : ∀ before after, ¬ Glob.OneStar '*' pattern'.toList before after :=
      fun before after hs' => hone' ⟨before, after, hs'⟩
    rwa [sampleHost_literal hnone', ← globCovers_literal hnone'] at hx

end Patterns

/-! ## Routes -/

namespace RouteConfig

/-- The texts of the route cover those of the other one. -/
def Covers (route route' : RouteConfig) : Prop :=
  globCovers route.matchTexts.1 route'.matchTexts.1 = true ∧
    startsWith route'.matchTexts.2 route.matchTexts.2 = true

instance (route route' : RouteConfig) : Decidable (route.Covers route') :=
  inferInstanceAs (Decidable (_ ∧ _))

variable {route route' : RouteConfig}

theorem accepts_of_covers (h : route.Covers route') {host path : String}
    (haccepts : route'.accepts host path = true) : route.accepts host path = true := by
  rw [accepts_iff_matchTexts] at haccepts ⊢
  refine ⟨matchGlob_of_globCovers h.1 haccepts.1, ?_⟩
  have hpath := haccepts.2
  rw [startsWith_eq_true_iff] at hpath ⊢
  exact (startsWith_eq_true_iff.1 h.2).trans hpath

/-- **A route accepts all that another one accepts exactly when its texts cover the other's.** -/
theorem covers_iff (route route' : RouteConfig) : route.Covers route' ↔
    ∀ host path, route'.accepts host path = true → route.accepts host path = true := by
  refine ⟨fun h host path => accepts_of_covers h, fun h => ⟨globCovers_iff.2 fun value hvalue => ?_,
    ?_⟩⟩
  · have haccepts := h value route'.matchTexts.2
      (accepts_iff_matchTexts.2 ⟨hvalue, startsWith_self _⟩)
    exact (accepts_iff_matchTexts.1 haccepts).1
  · have haccepts := h (sampleHost 'x' route'.matchTexts.1) route'.matchTexts.2
      (accepts_iff_matchTexts.2 ⟨matchGlob_sampleHost 'x' _, startsWith_self _⟩)
    exact (accepts_iff_matchTexts.1 haccepts).2

/-- The sample of a route is accepted by the routes that cover it, and by no others that lack its
character. -/
theorem covers_of_accepts_sample {c : Char} (hc : c ∉ route.matchTexts.1.toList)
    (h : route.accepts (sampleHost c route'.matchTexts.1) route'.matchTexts.2 = true) :
    route.Covers route' :=
  have haccepts := accepts_iff_matchTexts.1 h
  ⟨globCovers_of_matchGlob_sampleHost hc haccepts.1, haccepts.2⟩

end RouteConfig

/-! ## Dead routes -/

/-- The first of the routes that accepts the request, by position. -/
theorem matchIndex_fromConfigWithK8s_eq_some_iff {config : ProxyConfig} {k8sOrigins : K8sOrigins}
    {host path : String} {j : Nat} :
    (Router.fromConfigWithK8s config k8sOrigins).matchIndex host path = some j ↔
      (∃ route ∈ config.routes[j]?, route.accepts host path = true) ∧
        ∀ i < j, ∀ route ∈ config.routes[i]?, ¬ route.accepts host path = true := by
  rw [Router.fromConfigWithK8s, matchIndex_build _ staticCandidates, Router.matchIndex,
    List.findIdx?_map, List.findIdx?_eq_some_iff_getElem]
  constructor
  · rintro ⟨hj, haccepts, hbefore⟩
    refine ⟨⟨config.routes[j], List.getElem?_eq_getElem hj, haccepts⟩, fun i hi route hroute => ?_⟩
    obtain ⟨_, rfl⟩ := List.getElem?_eq_some_iff.1 hroute
    exact hbefore i hi
  · rintro ⟨⟨route, hroute, haccepts⟩, hbefore⟩
    obtain ⟨hj, rfl⟩ := List.getElem?_eq_some_iff.1 hroute
    exact ⟨hj, haccepts, fun i hi => hbefore i hi _ (List.getElem?_eq_getElem (hi.trans hj))⟩

/-- **A route is matched for some request exactly when no single route before it covers it**, given
a character that no host pattern contains. -/
theorem matched_iff (config : ProxyConfig) (k8sOrigins : K8sOrigins) (c : Char)
    (hc : ∀ route ∈ config.routes, c ∉ route.matchTexts.1.toList) {j : Nat} {route' : RouteConfig}
    (hj : config.routes[j]? = some route') :
    (∃ host path,
        (Router.fromConfigWithK8s config k8sOrigins).matchIndex host path = some j) ↔
      ∀ i < j, ∀ route ∈ config.routes[i]?, ¬ route.Covers route' := by
  constructor
  · rintro ⟨host, path, hmatch⟩ i hi route hroute hcovers
    obtain ⟨⟨route'', hroute'', haccepts⟩, hbefore⟩ :=
      matchIndex_fromConfigWithK8s_eq_some_iff.1 hmatch
    obtain rfl : route' = route'' := Option.some.inj (hj.symm.trans hroute'')
    exact hbefore i hi route hroute (RouteConfig.accepts_of_covers hcovers haccepts)
  · intro hnone
    -- the request made for the route
    refine ⟨sampleHost c route'.matchTexts.1, route'.matchTexts.2,
      matchIndex_fromConfigWithK8s_eq_some_iff.2
        ⟨⟨route', hj, ?_⟩, fun i hi route hroute haccepts => ?_⟩⟩
    · exact RouteConfig.accepts_iff_matchTexts.2 ⟨matchGlob_sampleHost c _, startsWith_self _⟩
    · exact hnone i hi route hroute (RouteConfig.covers_of_accepts_sample
        (hc route (List.mem_of_getElem? hroute)) haccepts)

/-- A route for the API of one host behind a route for all hosts under a domain. -/
def shadowedConfig : ProxyConfig :=
  .ofRoutes [{ RouteConfig.minimal [Url.backend] with matchHost := some "*.example.com" },
    { RouteConfig.minimal [Url.backend] with
      matchHost := some "www.example.com", matchPath := some "/api" }]

/-- The second route of a configuration with a route that covers it. -/
theorem matched_iff_shadowed :
    (∃ host path, (Router.fromConfigWithK8s shadowedConfig ∅).matchIndex host path = some 1) ↔
      ∀ i < 1, ∀ route ∈ shadowedConfig.routes[i]?,
        ¬ route.Covers { RouteConfig.minimal [Url.backend] with
          matchHost := some "www.example.com", matchPath := some "/api" } :=
  matched_iff shadowedConfig ∅ '#' (by decide) rfl

example : shadowedConfig.routes[0].Covers shadowedConfig.routes[1] := by decide

end Upstreamer
