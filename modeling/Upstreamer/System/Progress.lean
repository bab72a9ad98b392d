import Upstreamer.System.Coverage
import Upstreamer.System.Staleness

/-!
# Progress of the writers

What holds of the pending writes and of the routes in any run: a reload in progress has still to
make a nonempty end of its list of writes (`progress_step`), a rebuild only swaps the router and
adds histories, and a property that both router builders establish holds of every route that is
visible, pending or held by a request (`routed_step`).
-/

set_option autoImplicit false

namespace Upstreamer

open Foundations

/-- A write that a rebuild can make. -/
def Write.OfRebuild : Write → Prop
  | .swapRouter _ => True
  | .addOriginState _ => True
  | _ => False

theorem ofRebuild_of_mem {config : ProxyConfig} {k8sOrigins : K8sOrigins} {order : List String}
    {write : Write} (h : write ∈ rebuildWrites config k8sOrigins order) : write.OfRebuild := by
  rcases List.mem_cons.1 h with rfl | h
  · trivial
  · obtain ⟨url, _, rfl⟩ := List.mem_map.1 h
    trivial

/-- The configuration is swapped with the last write of a reload. -/
theorem eq_nil_of_swapConfig {config other : ProxyConfig} {done todo : List Write}
    (h : reloadWrites config = done ++ .swapConfig other :: todo) :
    todo = [] ∧ other = config := by
  have hinit : ∀ c, Write.swapConfig c ∉ (reloadWrites config).dropLast := by
    intro c hmem
    rw [reloadWrites, reloadRest, ← List.cons_append, List.dropLast_concat] at hmem
    simp only [List.mem_append, List.mem_cons, List.not_mem_nil, or_false, List.mem_filterMap,
      List.mem_map, Option.map_eq_some_iff, reduceCtorEq, and_false, exists_false] at hmem
  cases todo with
  | nil =>
    have hlast := getLast?_reloadWrites config
    rw [h, List.getLast?_concat, Option.some.injEq, Write.swapConfig.injEq] at hlast
    exact ⟨rfl, hlast⟩
  | cons next todo =>
    refine absurd ?_ (hinit other)
    rw [h, List.dropLast_append_of_ne_nil (List.cons_ne_nil _ _), List.dropLast_cons_cons]
    exact List.mem_append_right _ List.mem_cons_self

/-- The routes that a write brings have the property. -/
def Write.Routed (Q : RouteEntry → Prop) : Write → Prop
  | .swapRouter router => ∀ entry ∈ router.routes, Q entry
  | _ => True

/-- Both router builders establish the property for every route. -/
structure BuiltInto (Q : RouteEntry → Prop) : Prop where
  fromConfig : ∀ config, ∀ entry ∈ (Router.fromConfig config).routes, Q entry
  fromConfigWithK8s : ∀ config k8sOrigins,
    ∀ entry ∈ (Router.fromConfigWithK8s config k8sOrigins).routes, Q entry

section Routed

variable {Q : RouteEntry → Prop}

theorem BuiltInto.reloadWrites (hQ : BuiltInto Q) {config : ProxyConfig} {write : Write}
    (h : write ∈ reloadWrites config) : write.Routed Q := by
  rcases List.mem_cons.1 h with rfl | h
  · exact hQ.fromConfig config
  · cases AppState.mem_reloadRest_iff.1 h with
    | _ => trivial

theorem BuiltInto.rebuildWrites (hQ : BuiltInto Q) {config : ProxyConfig} {k8sOrigins : K8sOrigins}
    {order : List String} {write : Write} (h : write ∈ rebuildWrites config k8sOrigins order) :
    write.Routed Q := by
  rcases List.mem_cons.1 h with rfl | h
  · exact hQ.fromConfigWithK8s config k8sOrigins
  · obtain ⟨url, _, rfl⟩ := List.mem_map.1 h
    trivial

end Routed

namespace World

/-- How far the writers are. -/
structure Progress (w : World) : Prop where
  reload_suffix : ∀ config todo, w.reload = .applying config todo →
    todo ≠ [] ∧ todo <:+ reloadWrites config
  rebuild_kind : ∀ write ∈ w.rebuild.todo, write.OfRebuild

/-- Every route that is visible, pending or held by a request has the property. -/
structure Routed (Q : RouteEntry → Prop) (w : World) : Prop where
  router : ∀ entry ∈ w.app.router.routes, Q entry
  reload : ∀ write ∈ w.reload.todo, write.Routed Q
  rebuild : ∀ write ∈ w.rebuild.todo, write.Routed Q
  inFlight : ∀ req ∈ w.inFlight, ∀ entry ∈ req.entry?, Q entry

theorem progress_init (env : Externals) (config : ProxyConfig) : (init env config).Progress where
  reload_suffix := by
    rintro _ _ ⟨⟩
  rebuild_kind := by
    rintro _ ⟨⟩

theorem routed_init {Q : RouteEntry → Prop} (hQ : BuiltInto Q) (env : Externals)
    (config : ProxyConfig) : (init env config).Routed Q where
  router := hQ.fromConfig config
  reload := by
    rintro _ ⟨⟩
  rebuild := by
    rintro _ ⟨⟩
  inFlight := by
    rintro _ ⟨⟩

section Steps

variable {env : Externals} {w w' : World} {e : Event}

theorem progress_step (hs : w.Progress) (h : step env w e = some w') : w'.Progress := by
  refine ⟨?_, fun write hw => ?_⟩
  · cases moves_of_step h with
    | reloadStart _ _ =>
      rintro _ _ ⟨⟩
      exact ⟨List.cons_ne_nil _ _, List.suffix_refl _⟩
    | @reloadStep config write todo hphase =>
      obtain ⟨-, hsuffix⟩ := hs.reload_suffix config _ hphase
      intro config' todo' hafter
      cases todo with
      | nil => cases hafter
      | cons next todo =>
        cases hafter
        exact ⟨List.cons_ne_nil _ _, (List.suffix_cons _ _).trans hsuffix⟩
    | _ => exact hs.reload_suffix
  · rcases (mem_todo_step h).2 hw with hmem | ⟨order, hmem⟩
    · exact hs.rebuild_kind write hmem
    · exact ofRebuild_of_mem hmem

theorem routed_step {Q : RouteEntry → Prop} (hQ : BuiltInto Q) (hs : w.Routed Q)
    (h : step env w e = some w') : w'.Routed Q := by
  refine ⟨?_, fun write hw => ?_, fun write hw => ?_, fun req hreq entry hentry => ?_⟩
  · cases hwrite : w.nextWrite e with
    | none =>
      rw [(sameSettings_of_nextWrite h hwrite).router_eq]
      exact hs.router
    | some write =>
      have hrouted : write.Routed Q := by
        rcases mem_todo_of_nextWrite hwrite with hmem | hmem
        · exact hs.reload write hmem
        · exact hs.rebuild write hmem
      rw [app_of_nextWrite h hwrite]
      cases write with
      | swapRouter router => exact hrouted
      | _ => exact hs.router
  · rcases (mem_todo_step h).1 hw with hmem | ⟨config, _, hmem⟩
    · exact hs.reload write hmem
    · exact hQ.reloadWrites hmem
  · rcases (mem_todo_step h).2 hw with hmem | ⟨order, hmem⟩
    · exact hs.rebuild write hmem
    · exact hQ.rebuildWrites hmem
  · rcases entry_step h hreq hentry with ⟨held, hheld, hentry⟩ | hroute
    · exact hs.inFlight held hheld entry hentry
    · exact hs.router entry hroute

end Steps

end World

end Upstreamer
