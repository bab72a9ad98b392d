import Upstreamer.Route.Hosts

/-!
# Repeated routes

Validation compares the optional texts of two routes as they are written. What a route accepts
depends on them only up to two identifications: a route without a host accepts the hosts of the
pattern `*`, and a route without a path those of the empty prefix (`accepts_iff_matchTexts`). Up to
these, different texts accept different hosts or paths (`matchGlob_injective`,
`startsWith_injective`). So a configuration that validation accepts has no repeated route exactly
when its routes still differ once the absent texts are filled in (`pairwise_distinguished_iff`).
-/

set_option autoImplicit false

namespace Upstreamer

open Foundations

/-! ## Patterns and the values they accept -/

/-- Every pattern accepts some value. -/
theorem exists_matchGlob (pattern : String) : ∃ value, Router.matchGlob value pattern = true := by
  by_cases hone : ∃ before after, Glob.OneStar '*' pattern.toList before after
  · obtain ⟨before, after, h⟩ := hone
    refine ⟨String.ofList (before ++ after), (matchGlob_of_oneStar h).2 ?_⟩
    rw [String.toList_ofList]
    exact ⟨List.prefix_append before after, List.suffix_append before after⟩
  · exact ⟨pattern, (matchGlob_of_not_oneStar fun b a h => hone ⟨b, a, h⟩).2 rfl⟩

/-- A pattern with one star accepts values that a literal one does not. -/
theorem not_matchGlob_eq_of_oneStar {pattern pattern' : String} {before after : List Char}
    (h : Glob.OneStar '*' pattern.toList before after)
    (h' : ∀ before after, ¬ Glob.OneStar '*' pattern'.toList before after) :
    ∃ value, Router.matchGlob value pattern ≠ Router.matchGlob value pattern' := by
  by_contra hall
  simp only [not_exists, not_not] at hall
  have hliteral : ∀ v : List Char, before <+: v ∧ after <:+ v ↔ String.ofList v = pattern' := by
    intro v
    rw [← matchGlob_of_not_oneStar h', ← hall, matchGlob_of_oneStar h, String.toList_ofList]
  -- the values with nothing and with one character in the place of the star
  have hnone := (hliteral (before ++ after)).1
    ⟨List.prefix_append before after, List.suffix_append before after⟩
  have hone := (hliteral (before ++ 'x' :: after)).1
    ⟨List.prefix_append before _, (List.suffix_cons 'x' after).trans (List.suffix_append before _)⟩
  have heq := congrArg (fun s => s.toList.length) (hnone.trans hone.symm)
  simp at heq

/-- **Different patterns accept different values.** -/
theorem matchGlob_injective {pattern pattern' : String}
    (h : ∀ value, Router.matchGlob value pattern = Router.matchGlob value pattern') :
    pattern = pattern' := by
  by_cases hone : ∃ before after, Glob.OneStar '*' pattern.toList before after
  · obtain ⟨before, after, hs⟩ := hone
    by_cases hone' : ∃ before after, Glob.OneStar '*' pattern'.toList before after
    · obtain ⟨before', after', hs'⟩ := hone'
      have htests : ∀ v, before <+: v ∧ after <:+ v ↔ before' <+: v ∧ after' <:+ v := by
        intro v
        have hv := h (String.ofList v)
        rwa [Bool.eq_iff_iff, matchGlob_of_oneStar hs, matchGlob_of_oneStar hs',
          String.toList_ofList] at hv
      obtain ⟨rfl, rfl⟩ := Glob.sides_eq_of_tests_eq (by decide : 'x' ≠ 'y') htests
      rw [← String.toList_inj, hs.eq, hs'.eq]
    · obtain ⟨value, hvalue⟩ :=
        not_matchGlob_eq_of_oneStar hs fun b a hs' => hone' ⟨b, a, hs'⟩
      exact absurd (h value) hvalue
  · have hnone : ∀ before after, ¬ Glob.OneStar '*' pattern.toList before after :=
      fun b a hs => hone ⟨b, a, hs⟩
    by_cases hone' : ∃ before after, Glob.OneStar '*' pattern'.toList before after
    · obtain ⟨before', after', hs'⟩ := hone'
      obtain ⟨value, hvalue⟩ := not_matchGlob_eq_of_oneStar hs' hnone
      exact absurd (h value).symm hvalue
    · -- both are literal, so the first accepts itself
      have hself : Router.matchGlob pattern pattern = true :=
        (matchGlob_of_not_oneStar hnone).2 rfl
      rw [h pattern] at hself
      exact (matchGlob_of_not_oneStar fun b a hs' => hone' ⟨b, a, hs'⟩).1 hself

theorem startsWith_self (s : String) : startsWith s s = true := by
  rw [startsWith_eq_true_iff]

/-- **Different prefixes accept different paths.** -/
theorem startsWith_injective {p q : String} (h : ∀ path, startsWith path p = startsWith path q) :
    p = q := by
  have hp : p.toList <+: q.toList :=
    startsWith_eq_true_iff.1 ((h q).trans (startsWith_self q))
  have hq : q.toList <+: p.toList :=
    startsWith_eq_true_iff.1 ((h p).symm.trans (startsWith_self p))
  exact String.toList_inj.1 (hp.eq_of_length_le hq.length_le)

/-! ## Routes and what they accept -/

/-- The texts that a route is matched with, the absent ones filled in. -/
def RouteConfig.matchTexts (route : RouteConfig) : String × String :=
  (route.matchHost.getD "*", route.matchPath.getD "")

/-- Whether the entry of a route accepts the host and the path. -/
def RouteConfig.accepts (route : RouteConfig) (host path : String) : Bool :=
  (RouteEntry.build staticCandidates route).accepts host path

/-- Some host and path are accepted by one of the two routes and not by the other. -/
def RouteConfig.Distinguished (route route' : RouteConfig) : Prop :=
  ∃ host path, route.accepts host path ≠ route'.accepts host path

namespace RouteConfig

variable {route route' : RouteConfig}

theorem accepts_iff_matchTexts {host path : String} :
    route.accepts host path = true ↔
      Router.matchGlob host route.matchTexts.1 = true ∧
        startsWith path route.matchTexts.2 = true := by
  have hstar : Router.matchGlob host "*" = true := if_pos rfl
  have hempty : startsWith path "" = true := rfl
  unfold accepts
  rw [RouteEntry.accepts_iff, matchTexts, RouteEntry.build]
  cases route.matchHost <;> cases route.matchPath <;> simp [hstar, hempty]

/-- **Two routes are told apart exactly when their texts differ**, the absent ones filled in. -/
theorem distinguished_iff : route.Distinguished route' ↔ route.matchTexts ≠ route'.matchTexts := by
  constructor
  · rintro ⟨host, path, hne⟩ heq
    rw [ne_eq, Bool.eq_iff_iff, accepts_iff_matchTexts, accepts_iff_matchTexts, heq] at hne
    exact hne Iff.rfl
  · intro hne
    by_contra hnone
    simp only [Distinguished, not_exists, not_not] at hnone
    have hiff := fun host path => accepts_iff_matchTexts.symm.trans
      ((Bool.eq_iff_iff.1 (hnone host path)).trans accepts_iff_matchTexts)
    refine hne (Prod.ext (matchGlob_injective fun value => ?_)
      (startsWith_injective fun path => ?_))
    · -- with a path that the one accepts, it is the host that decides
      refine Bool.eq_iff_iff.2 ⟨fun h => ?_, fun h => ?_⟩
      · exact ((hiff value _).1 ⟨h, startsWith_self _⟩).1
      · exact ((hiff value _).2 ⟨h, startsWith_self _⟩).1
    · obtain ⟨host, hhost⟩ := exists_matchGlob route.matchTexts.1
      obtain ⟨host', hhost'⟩ := exists_matchGlob route'.matchTexts.1
      refine Bool.eq_iff_iff.2 ⟨fun h => ?_, fun h => ?_⟩
      · exact ((hiff host path).1 ⟨hhost, h⟩).2
      · exact ((hiff host' path).2 ⟨hhost', h⟩).2

end RouteConfig

/-- **When an accepted configuration has no repeated route**: no two of its routes have the same
texts once an absent host is read as `*` and an absent path as the empty prefix. -/
theorem pairwise_distinguished_iff (fs : FileSystem) (config : ProxyConfig) :
    (config.validate fs = .ok () → config.routes.Pairwise RouteConfig.Distinguished) ↔
      (config.validate fs = .ok () → (config.routes.map RouteConfig.matchTexts).Nodup) := by
  refine imp_congr_right fun _ => ?_
  rw [List.Nodup, List.pairwise_map]
  exact List.Pairwise.iff fun route route' => RouteConfig.distinguished_iff

/-- Two routes for all hosts, one of them with the pattern written out. -/
def repeatedConfig : ProxyConfig :=
  .ofRoutes [RouteConfig.minimal [Url.backend],
    { RouteConfig.minimal [Url.backend] with matchHost := some "*" }]

/-- **Validation accepts a repeated route.** -/
theorem not_pairwise_distinguished :
    repeatedConfig.validate .empty = .ok () ∧
      ¬ repeatedConfig.routes.Pairwise RouteConfig.Distinguished := by
  refine ⟨by decide, fun h => ?_⟩
  have hpair : RouteConfig.Distinguished (RouteConfig.minimal [Url.backend])
      { RouteConfig.minimal [Url.backend] with matchHost := some "*" } :=
    (List.pairwise_cons.1 h).1 _ List.mem_cons_self
  exact RouteConfig.distinguished_iff.1 hpair rfl

end Upstreamer
