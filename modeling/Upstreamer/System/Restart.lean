import Upstreamer.System.Settings

/-!
# Reload and restart

In a run without discovery, the settings that a reload leaves behind are those that a start with the
last configuration would build, error pages aside: these are never written after the start. So a
reload has the effect of a restart exactly when the error pages of the start are those that a
restart would load (`restart_iff`).

The files may change during the run, so each event of a run comes with the file system in which it
happens.
-/

set_option autoImplicit false

namespace Upstreamer

open Foundations

/-- The page that a start with the configuration loads for a status. -/
def ProxyConfig.errorPage (fs : FileSystem) (config : ProxyConfig) (status : UInt16) :
    Option (List UInt8) :=
  (config.errorPages.map (ErrorPageStore.fromConfig fs)).bind fun pages => pages.lookup status

namespace AppState

theorem config_applyAll_congr {app app' : AppState} (h : app.config = app'.config)
    (writes : List Write) : (app.applyAll writes).config = (app'.applyAll writes).config := by
  induction writes generalizing app app' with
  | nil => exact h
  | cons write writes ih =>
    apply ih
    cases write with
    | swapConfig config => rfl
    | _ => exact h

theorem errorPages_apply (app : AppState) (write : Write) :
    (app.apply write).errorPages = app.errorPages := by
  cases write <;> rfl

/-- The settings are those of a start with the configuration in force, error pages aside. -/
def AsBuilt (app : AppState) : Prop :=
  ∀ fs, app.settings = { (AppState.new fs app.config).settings with errorPage := app.errorPage }

theorem asBuilt_new (fs : FileSystem) (config : ProxyConfig) : (new fs config).AsBuilt :=
  fun _ => rfl

/-- **A reload builds what a start builds.** -/
theorem asBuilt_reload (app : AppState) (config : ProxyConfig) : (app.reload config).AsBuilt := by
  intro fs
  rw [reload_eq]
  rfl

end AppState

namespace World

/-- A step of a run in which the files may change. -/
def stepWith (parseUrl : String → Option Url) (w : World) (e : FileSystem × Event) :
    Option World :=
  step ⟨e.1, parseUrl⟩ w e.2

/-- The configuration that was loaded last. -/
def lastLoaded (config : ProxyConfig) : List (FileSystem × Event) → ProxyConfig
  | [] => config
  | (_, .reloadStart loaded) :: events => lastLoaded loaded events
  | _ :: events => lastLoaded config events

/-- The shared state once the reload in progress is completed. -/
def afterReload (w : World) : AppState := w.app.applyAll w.reload.todo

/-- Discovery is inactive. -/
def NoDiscovery (w : World) : Prop := w.discovering = false ∧ w.rebuild = .idle

section Steps

variable {env : Externals} {w w' : World} {e : Event}

theorem NoDiscovery.step (hs : w.NoDiscovery) (h : step env w e = some w') : w'.NoDiscovery := by
  cases moves_of_step h with
  | discovered _ hactive _ =>
    rw [hs.1] at hactive
    cases hactive
  | rebuildLoad hphase _ =>
    rw [hs.2] at hphase
    cases hphase
  | rebuildStep hphase =>
    rw [hs.2] at hphase
    cases hphase
  | _ => exact hs

/-- No step changes the error pages. -/
theorem errorPages_step (h : step env w e = some w') : w'.app.errorPages = w.app.errorPages := by
  cases moves_of_step h with
  | reloadStep _ => exact AppState.errorPages_apply _ _
  | rebuildStep _ => exact AppState.errorPages_apply _ _
  | @limited i now generation index entry ip _ _ =>
    obtain ⟨global, routes, happ⟩ := w.app.checkLimits_frame entry ip now
    rw [happ]
  | @admitted i now generation index entry ip _ _ =>
    obtain ⟨global, routes, happ⟩ := w.app.checkLimits_frame entry ip now
    rw [happ]
  | _ => rfl

/-- The start of a reload decides what it leads to; no other step does. -/
theorem afterReload_step (hs : w.NoDiscovery) (h : step env w e = some w') :
    (∃ config, e = .reloadStart config ∧ w'.afterReload = w.app.reload config) ∨
      ((∀ config, e ≠ .reloadStart config) ∧
        w'.afterReload.settings = w.afterReload.settings ∧
        w'.afterReload.config = w.afterReload.config) := by
  by_cases hwrite : w.nextWrite e = none
  · obtain ⟨hsettings, hconfig⟩ := settings_of_nextWrite h hwrite
    have hsame : w'.reload.todo = w.reload.todo →
        w'.afterReload.settings = w.afterReload.settings ∧
          w'.afterReload.config = w.afterReload.config := fun htodo => by
      rw [afterReload, afterReload, htodo]
      refine ⟨?_, AppState.config_applyAll_congr hconfig _⟩
      rw [AppState.settings_applyAll, AppState.settings_applyAll, hsettings]
    cases moves_of_step h with
    | @reloadStart config _ _ => exact Or.inl ⟨config, rfl, rfl⟩
    | reloadStep hphase => simp [nextWrite, hphase, ReloadPhase.todo] at hwrite
    | rebuildStep hphase => simp [nextWrite, hphase, RebuildPhase.todo] at hwrite
    | _ => exact Or.inr ⟨fun config => by simp, hsame rfl⟩
  · -- the write is the first of those to come
    cases moves_of_step h with
    | @reloadStep config write todo hphase =>
      refine Or.inr ⟨fun config => by simp, ?_⟩
      rw [afterReload, afterReload, hphase, ReloadPhase.todo_after]
      exact ⟨rfl, rfl⟩
    | rebuildStep hphase =>
      rw [hs.2] at hphase
      cases hphase
    | _ => exact absurd rfl hwrite

end Steps

/-- Whatever is loaded, the run heads for a state built from the configuration loaded last, with the
error pages of the start. -/
structure Heading (fs : FileSystem) (config last : ProxyConfig) (w : World) : Prop where
  noDiscovery : w.NoDiscovery
  errorPages_eq : w.app.errorPages = config.errorPages.map (ErrorPageStore.fromConfig fs)
  config_eq : w.afterReload.config = last
  asBuilt : w.afterReload.AsBuilt

theorem heading_init (env : Externals) {config : ProxyConfig} (hk8s : config.kubernetes = none) :
    (init env config).Heading env.fs config config where
  noDiscovery := ⟨by rw [init, hk8s]; rfl, rfl⟩
  errorPages_eq := rfl
  config_eq := rfl
  asBuilt := AppState.asBuilt_new env.fs config

theorem Heading.run {parseUrl : String → Option Url} {fs : FileSystem} {config last : ProxyConfig}
    {w w' : World} {events : List (FileSystem × Event)} (hs : w.Heading fs config last)
    (hrun : run (stepWith parseUrl) w events = some w') :
    w'.Heading fs config (lastLoaded last events) := by
  induction events generalizing w last with
  | nil =>
    cases hrun
    exact hs
  | cons e events ih =>
    obtain ⟨files, event⟩ := e
    obtain ⟨u, hu, hrest⟩ := run_cons_eq_some.1 hrun
    have hnext : step ⟨files, parseUrl⟩ w event = some u := hu
    have hdiscovery := hs.noDiscovery.step hnext
    have hpages := (errorPages_step hnext).trans hs.errorPages_eq
    rcases afterReload_step hs.noDiscovery hnext with
      ⟨loaded, rfl, hafter⟩ | ⟨hother, hsettings, hconfig⟩
    · have hconfig : u.afterReload.config = loaded := by rw [hafter, AppState.reload_eq]
      have hbuilt : u.afterReload.AsBuilt := hafter ▸ AppState.asBuilt_reload w.app loaded
      exact ih ⟨hdiscovery, hpages, hconfig, hbuilt⟩ hrest
    · have hlast : lastLoaded last ((files, event) :: events) = lastLoaded last events := by
        cases event with
        | reloadStart loaded => exact absurd rfl (hother loaded)
        | _ => rfl
      rw [hlast]
      refine ih ⟨hdiscovery, hpages, hconfig.trans hs.config_eq, fun fs => ?_⟩ hrest
      have hpage : u.afterReload.errorPage = w.afterReload.errorPage :=
        congrArg Settings.errorPage hsettings
      rw [hsettings, hconfig, hpage]
      exact hs.asBuilt fs

/-- **After the last reload of any run without discovery, the configuration loaded last is in force,
and the settings are those of a restart with it exactly when the error pages of the start are those
that the restart would load.** -/
theorem restart_iff (parseUrl : String → Option Url) (fs fs' : FileSystem) (config : ProxyConfig)
    (events : List (FileSystem × Event)) (w : World) (hk8s : config.kubernetes = none)
    (hrun : run (stepWith parseUrl) (init ⟨fs, parseUrl⟩ config) events = some w)
    (hidle : w.reload = .idle) :
    w.app.config = lastLoaded config events ∧
      (w.app.settings = (AppState.new fs' (lastLoaded config events)).settings ↔
        ∀ status, config.errorPage fs status =
          (lastLoaded config events).errorPage fs' status) := by
  have hheading := (heading_init ⟨fs, parseUrl⟩ hk8s).run hrun
  have hafter : w.afterReload = w.app := by rw [afterReload, hidle]; rfl
  have hconfig : w.app.config = lastLoaded config events := by
    rw [← hheading.config_eq, hafter]
  have hbuilt := hheading.asBuilt fs'
  rw [hafter, hconfig] at hbuilt
  have hpage : w.app.errorPage = config.errorPage fs := by
    funext status
    rw [AppState.errorPage, hheading.errorPages_eq]
    rfl
  refine ⟨hconfig, fun h status => ?_, fun h => ?_⟩
  · rw [← hpage]
    exact congrFun (congrArg Settings.errorPage h) status
  · rw [hbuilt, hpage, funext h]
    rfl

/-- A reload to a moved origin has the effect of a restart. -/
theorem restart_moved :
    ∃ w, run (stepWith fun _ => none) (init .none ProxyConfig.minimal)
        ((reloadEvents ProxyConfig.moved).map fun e => (FileSystem.empty, e)) = some w ∧
      w.app.settings = (AppState.new .empty ProxyConfig.moved).settings := by
  refine ⟨_, rfl, ((restart_iff (fun _ => none) .empty .empty ProxyConfig.minimal
    ((reloadEvents ProxyConfig.moved).map fun e => (FileSystem.empty, e)) _ rfl rfl rfl).2.2 ?_)⟩
  intro status
  rfl

/-- A file system with a page for the status 404. -/
def pageFiles : FileSystem where
  pathExists := fun path => path == "errors"
  read := fun path => if path = "errors/404.html" then some (bytesOf "no such page") else none

/-- The minimal configuration with that page. -/
def pagedConfig : ProxyConfig :=
  { ProxyConfig.minimal with errorPages := some ⟨"errors", [⟨404, "404.html"⟩]⟩ }

/-- **An error page that a reload brings is never loaded.** -/
theorem page_not_reloaded :
    ProxyConfig.minimal.validate pageFiles = .ok () ∧ pagedConfig.validate pageFiles = .ok () ∧
      ∃ w, run (stepWith fun _ => none) (init ⟨pageFiles, fun _ => none⟩ ProxyConfig.minimal)
          ((reloadEvents pagedConfig).map fun e => (pageFiles, e)) = some w ∧
        w.reload = .idle ∧ w.app.config = pagedConfig ∧
        w.app.errorPage 404 = none ∧
        (AppState.new pageFiles pagedConfig).errorPage 404 = some (bytesOf "no such page") ∧
        w.app.settings ≠ (AppState.new pageFiles pagedConfig).settings := by
  have hpage : (AppState.new pageFiles pagedConfig).errorPage 404 =
      some (bytesOf "no such page") := by decide +kernel
  refine ⟨by decide, by decide, _, rfl, rfl, rfl, rfl, hpage, fun h => ?_⟩
  have hsame := congrFun (congrArg Settings.errorPage h) 404
  exact Option.some_ne_none _ (hpage.symm.trans hsame.symm)

end World

end Upstreamer
