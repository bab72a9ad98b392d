import Upstreamer.Config.Watcher

/-!
# Contents that are refused

A content of the configuration file is refused when it cannot be loaded or does not pass validation.
A turn of the loop of `watch_config` on such a content writes nothing (`watchWrites_eq_nil_iff`) and
the loop waits for the next event, so the state that a run of the watcher ends in is the one that
applying only the accepted contents, in their order, would have led to (`app_eq_foldl_accepted`),
and a run of the watcher on a file that only ever had these contents ends in it as well
(`refused_contents_change_nothing`).
-/

set_option autoImplicit false

namespace Upstreamer

open Foundations

universe u

/-- The writes of one turn of the loop of `watch_config`, given what loading the file returned. -/
def watchWrites (fs : FileSystem) (loaded : Option ProxyConfig) : List Write :=
  match loaded with
  | some config =>
      match config.validate fs with
      | .ok () => reloadWrites config
      | .error _ => []
  | none => []

/-- Loading the file and validation both succeed. -/
def loads (fs : FileSystem) (loaded : Option ProxyConfig) : Bool :=
  match loaded with
  | some config =>
      match config.validate fs with
      | .ok () => true
      | .error _ => false
  | none => false

theorem watchConfig_eq_applyAll (fs : FileSystem) (app : AppState) (loaded : Option ProxyConfig) :
    AppState.watchConfig fs app loaded = app.applyAll (watchWrites fs loaded) := by
  cases loaded with
  | none => rfl
  | some config =>
    cases hv : config.validate fs with
    | ok u =>
      simp only [AppState.watchConfig, watchWrites, hv]
      rfl
    | error e =>
      simp only [AppState.watchConfig, watchWrites, hv]
      rfl

/-- A turn of the loop writes nothing exactly when the content is refused. -/
theorem watchWrites_eq_nil_iff {fs : FileSystem} {loaded : Option ProxyConfig} :
    watchWrites fs loaded = [] ↔ loads fs loaded = false := by
  unfold watchWrites loads
  split
  · split
    · exact iff_of_false (List.cons_ne_nil _ _) (by simp)
    · exact iff_of_true rfl rfl
  · exact iff_of_true rfl rfl

theorem watchConfig_of_not_loads {fs : FileSystem} {app : AppState} {loaded : Option ProxyConfig}
    (h : loads fs loaded = false) : AppState.watchConfig fs app loaded = app := by
  rw [watchConfig_eq_applyAll, watchWrites_eq_nil_iff.2 h]
  rfl

namespace Watcher

variable {α : Type u} {parse : α → Option ProxyConfig}

/-- The content that an event applies, with the file system that validation looks at. -/
def appliedBy (w : Watcher α) : WatchEvent α → List (FileSystem × α)
  | .apply fs =>
      match w.phase with
      | .loaded content => [(fs, content)]
      | _ => []
  | _ => []

/-- The contents that a run applies, in order. -/
def applied (parse : α → Option ProxyConfig) :
    Watcher α → List (WatchEvent α) → List (FileSystem × α)
  | _, [] => []
  | w, e :: es =>
      match step parse w e with
      | some w' => w.appliedBy e ++ applied parse w' es
      | none => []

/-- The turn of the loop on a content. -/
def applyContent (parse : α → Option ProxyConfig) (app : AppState)
    (content : FileSystem × α) : AppState :=
  AppState.watchConfig content.1 app (parse content.2)

/-- The content is loaded and validated. -/
def accepts (parse : α → Option ProxyConfig) (content : FileSystem × α) : Bool :=
  loads content.1 (parse content.2)

/-- A step changes the shared state by what it applies only. -/
theorem app_step {w w' : Watcher α} {e : WatchEvent α} (h : step parse w e = some w') :
    w'.app = (w.appliedBy e).foldl (applyContent parse) w.app := by
  cases e with
  | change content =>
    obtain rfl := Option.some.inj h
    rfl
  | touch =>
    obtain rfl := Option.some.inj h
    rfl
  | send =>
    simp only [Watcher.step] at h
    split at h
    · obtain rfl := Option.some.inj h
      rfl
    · cases h
  | receive =>
    simp only [Watcher.step] at h
    split at h
    · obtain rfl := Option.some.inj h
      rfl
    · cases h
  | wake =>
    simp only [Watcher.step] at h
    split at h
    · obtain rfl := Option.some.inj h
      rfl
    · cases h
  | drain =>
    simp only [Watcher.step] at h
    split at h
    · obtain rfl := Option.some.inj h
      rfl
    · obtain rfl := Option.some.inj h
      rfl
    · cases h
  | load =>
    simp only [Watcher.step] at h
    split at h
    · obtain rfl := Option.some.inj h
      rfl
    · cases h
  | apply fs =>
    simp only [Watcher.step] at h
    split at h
    · next content hphase =>
      obtain rfl := Option.some.inj h
      simp only [appliedBy, hphase]
      rfl
    · cases h

/-- The shared state after a run is what the applied contents make of it, one after another. -/
theorem app_eq_foldl {w last : Watcher α} {events : List (WatchEvent α)}
    (hrun : run (step parse) w events = some last) :
    last.app = (applied parse w events).foldl (applyContent parse) w.app := by
  induction events generalizing w with
  | nil =>
    cases hrun
    rfl
  | cons e events ih =>
    obtain ⟨w', hstep, hrun⟩ := run_cons_eq_some.1 hrun
    simp only [applied, hstep]
    rw [List.foldl_append, ← app_step hstep]
    exact ih hrun

/-- **Only accepted contents count.** -/
theorem app_eq_foldl_accepted {w last : Watcher α} {events : List (WatchEvent α)}
    (hrun : run (step parse) w events = some last) :
    last.app =
      ((applied parse w events).filter (accepts parse)).foldl (applyContent parse) w.app := by
  rw [app_eq_foldl hrun, List.foldl_filter]
  congr 1
  funext app content
  split
  · rfl
  · next h => exact watchConfig_of_not_loads (Bool.eq_false_iff.2 h)

/-! ## A run on the accepted contents only -/

/-- One change of the file and the turn of the loop that applies it. -/
def turn (content : FileSystem × α) : List (WatchEvent α) :=
  [.change content.2, .send, .receive, .wake, .drain, .load, .apply content.1]

theorem run_turn (file lastRead : α) (changes : Nat) (app : AppState) (content : FileSystem × α) :
    run (step parse) ⟨file, lastRead, changes, 0, .empty, .receiving, app⟩ (turn content) =
      some ⟨content.2, content.2, changes + 1, 0, .empty, .receiving,
        applyContent parse app content⟩ := rfl

/-- Any contents can be applied one after another. -/
theorem exists_run_applying (parse : α → Option ProxyConfig)
    (contents : List (FileSystem × α)) (file lastRead : α) (changes : Nat)
    (app : AppState) :
    ∃ events last, run (step parse) ⟨file, lastRead, changes, 0, .empty, .receiving, app⟩ events =
        some last ∧
      applied parse ⟨file, lastRead, changes, 0, .empty, .receiving, app⟩ events = contents ∧
      last.phase = .receiving := by
  induction contents generalizing file lastRead changes app with
  | nil => exact ⟨[], _, rfl, rfl, rfl⟩
  | cons content contents ih =>
    obtain ⟨events, last, hrun, happlied, hphase⟩ :=
      ih content.2 content.2 (changes + 1) (applyContent parse app content)
    refine ⟨turn content ++ events, last, ?_, ?_, hphase⟩
    · rw [run_append, run_turn]
      exact hrun
    · rw [← happlied]
      rfl

/-- **Refused contents change nothing.** In every run of the watcher, a turn of the loop on a
content that cannot be loaded or does not validate leaves the shared state as it was and waits for
the next event. So the run ends in the state in which a run on the accepted contents alone, in the
same order, ends. -/
theorem refused_contents_change_nothing (parse : α → Option ProxyConfig) (file lastRead : α)
    (app : AppState) (events : List (WatchEvent α)) (last : Watcher α)
    (hrun : run (step parse) (registered file lastRead app) events = some last) :
    Along (step parse)
        (fun w e => ∀ fs content, e = .apply fs → w.phase = .loaded content →
          loads fs (parse content) = false →
            step parse w e = some { w with phase := .receiving })
        (registered file lastRead app) events ∧
      ∃ events' last',
        run (step parse) (registered file lastRead app) events' = some last' ∧
          applied parse (registered file lastRead app) events' =
            (applied parse (registered file lastRead app) events).filter (accepts parse) ∧
          last'.phase = .receiving ∧ last'.app = last.app := by
  constructor
  · refine (along_true _ events).imp fun w e _ fs content he hphase hrefused => ?_
    subst he
    simp only [step, hphase, watchConfig_of_not_loads hrefused]
  · obtain ⟨events', last', hrun', happlied, hphase⟩ := exists_run_applying parse
      ((applied parse (registered file lastRead app) events).filter (accepts parse))
      file lastRead 0 app
    refine ⟨events', last', hrun', happlied, hphase, ?_⟩
    rw [app_eq_foldl_accepted hrun, app_eq_foldl hrun']
    congr 1

/-- The minimal configuration with a route that has lost its pools. -/
def noPools : ProxyConfig := .ofRoutes [{ RouteConfig.minimal [] with pools := [] }]

/-- A file that cannot be loaded and a configuration that is refused, before one that is applied. -/
theorem refused_contents_before_moved :
    ∃ events' last',
      run (step id) (registered (some .minimal) (some .minimal) (.new .empty .minimal)) events' =
          some last' ∧
        applied id (registered (some .minimal) (some .minimal) (.new .empty .minimal)) events' =
          [(.empty, some .moved)] ∧
        last'.phase = .receiving ∧
        last'.app = (AppState.new .empty .minimal).reload .moved := by
  obtain ⟨events', last', hrun, happlied, hphase, happ⟩ :=
    (refused_contents_change_nothing id (some .minimal) (some .minimal) (.new .empty .minimal)
      (turn (.empty, none) ++ turn (.empty, some noPools) ++
        turn (.empty, some ProxyConfig.moved)) _ rfl).2
  exact ⟨events', last', hrun, happlied.trans rfl, hphase, happ.trans rfl⟩

end Watcher

end Upstreamer
