import Upstreamer.Middleware.Tracking
import Upstreamer.System

/-!
# The proxy and its clock

A rate limit is a promise about time, so here every event of the proxy comes with the instant at
which it happens. Instants do not decrease, and the instant that a limit check or a sweep reads is
that of its event (`tick`). `LimiterStep` says what a step does to the limiters
(`limiterStep_of_tick`), and `verdictOn` is what a limit check reports of a client.
-/

set_option autoImplicit false

namespace Upstreamer

open Foundations

/-- The instant that the event reads, if any, is the one at which it happens. -/
def Event.happensAt (now : Instant) : Event → Bool
  | .limit _ read => decide (read = now)
  | .sweep read => decide (read = now)
  | _ => true

/-- The proxy and the instant of its last event. -/
structure Clocked where
  world : World
  clock : Instant

namespace World

/-- A step of the proxy at an instant that is not before the last one. -/
def tick (env : Externals) (c : Clocked) (e : Instant × Event) : Option Clocked :=
  if c.clock ≤ e.1 ∧ e.2.happensAt e.1 then
    (step env c.world e.2).map fun w => ⟨w, e.1⟩
  else
    none

theorem tick_eq_some {env : Externals} {c c' : Clocked} {e : Instant × Event}
    (h : tick env c e = some c') :
    c.clock ≤ e.1 ∧ e.2.happensAt e.1 = true ∧ step env c.world e.2 = some c'.world ∧
      c'.clock = e.1 := by
  unfold tick at h
  split at h
  · next hnow =>
    obtain ⟨w, hstep, rfl⟩ := Option.map_eq_some_iff.1 h
    exact ⟨hnow.1, hnow.2, hstep, rfl⟩
  · cases h

theorem clock_le_of_tick {env : Externals} {c c' : Clocked} {e : Instant × Event}
    (h : tick env c e = some c') : c.clock ≤ c'.clock := by
  obtain ⟨hle, -, -, hclock⟩ := tick_eq_some h
  rwa [hclock]

/-- The request that the event puts to the limiters: its route and its client. -/
def asked (w : World) : Event → Option (RouteEntry × IpAddr)
  | .limit i _ =>
      match w.inFlight[i]? with
      | some (.matched _ _ entry ip) => some (entry, ip)
      | _ => none
  | _ => none

/-- The verdict on a request of the client, when the event puts one to the limiters that counts in
the state of that moment. -/
def verdictOn (ip : IpAddr) (counts : AppState → RouteEntry → Bool) (c : Clocked)
    (e : Instant × Event) : Option (Instant × Bool) :=
  match c.world.asked e.2 with
  | none => none
  | some (entry, asker) =>
      if asker = ip ∧ counts c.world.app entry = true then
        some (e.1, (c.world.app.checkLimits entry asker e.1).1)
      else
        none

section Reports

variable {env : Externals} {ip : IpAddr} {counts : AppState → RouteEntry → Bool} {c c' : Clocked}
  {e : Instant × Event}

theorem verdictOn_of_asked_none (h : c.world.asked e.2 = none) :
    verdictOn ip counts c e = none := by
  rw [verdictOn, h]

theorem verdictOn_of_asked {entry : RouteEntry} {asker : IpAddr}
    (h : c.world.asked e.2 = some (entry, asker)) :
    verdictOn ip counts c e =
      if asker = ip ∧ counts c.world.app entry = true then
        some (e.1, (c.world.app.checkLimits entry asker e.1).1)
      else
        none := by
  rw [verdictOn, h]

/-- A verdict is reported at the instant of its event. -/
theorem instant_of_verdictOn {now : Instant} {ok : Bool} (hstep : tick env c e = some c')
    (h : verdictOn ip counts c e = some (now, ok)) : now = c'.clock := by
  rw [(tick_eq_some hstep).2.2.2]
  cases hasked : c.world.asked e.2 with
  | none =>
    rw [verdictOn_of_asked_none hasked] at h
    cases h
  | some r =>
    rw [verdictOn_of_asked hasked] at h
    split at h
    · exact (Prod.mk.inj (Option.some.inj h)).1.symm
    · cases h

end Reports

/-! ## Steps and limiters -/

/-- What a step can do to the limiters: a write, a check, a sweep, or nothing. -/
inductive LimiterStep (w : World) (e : Instant × Event) (app : AppState) : Prop
  | wrote (write : Write) (hwrite : w.nextWrite e.2 = some write) (hasked : w.asked e.2 = none)
      (happ : app = w.app.apply write)
  | checked (entry : RouteEntry) (asker : IpAddr) (hasked : w.asked e.2 = some (entry, asker))
      (happ : app = (w.app.checkLimits entry asker e.1).2)
  | swept (he : e.2 = .sweep e.1) (hasked : w.asked e.2 = none) (happ : app = w.app.sweep e.1)
  | kept (hasked : w.asked e.2 = none) (hglobal : app.ratelimiter = w.app.ratelimiter)
      (hroutes : app.routeRatelimiters = w.app.routeRatelimiters)

theorem limiterStep_of_tick {env : Externals} {c c' : Clocked} {e : Instant × Event}
    (h : tick env c e = some c') : LimiterStep c.world e c'.world.app := by
  obtain ⟨now, e⟩ := e
  obtain ⟨w', clock'⟩ := c'
  obtain ⟨-, hnow, hstep, -⟩ := tick_eq_some h
  cases moves_of_step hstep with
  | reloadStep hphase =>
    refine .wrote _ ?_ rfl rfl
    rw [nextWrite, hphase]
    rfl
  | rebuildStep hphase =>
    refine .wrote _ ?_ rfl rfl
    rw [nextWrite, hphase]
    rfl
  -- the instant that the check or the sweep reads is that of the event
  | limited hi _ =>
    obtain rfl := of_decide_eq_true hnow
    exact .checked _ _ (by simp only [asked, hi]) rfl
  | admitted hi _ =>
    obtain rfl := of_decide_eq_true hnow
    exact .checked _ _ (by simp only [asked, hi]) rfl
  | swept =>
    obtain rfl := of_decide_eq_true hnow
    exact .swept rfl rfl rfl
  | _ => exact .kept rfl rfl rfl

end World

end Upstreamer
