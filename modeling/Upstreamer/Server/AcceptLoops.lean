import Upstreamer.Foundations.Machine

/-!
# The accept loops

`main` waits in a `select!` for the first of its two servers to return. Each server accepts a
connection, hands it to a task of its own and accepts the next one; the proxy sets an option of the
stream in between. How the task of a connection ends reaches the loop in no way, while a failure of
`accept` or of the option makes the loop return and the other server and all connections end with
it. So the servers keep accepting exactly as long as none of these calls fails
(`keepsAccepting_iff`).
-/

set_option autoImplicit false

namespace Upstreamer

open Foundations

/-- The two servers. -/
inductive ServerName where
  | proxy
  | health
  deriving DecidableEq

/-- Where the loop of a server is: before `accept`, or with a stream whose option is to be set. -/
inductive AcceptPhase where
  | accepting
  | accepted
  deriving DecidableEq

/-- A server, with the connections it has handed to tasks so far and those still open. -/
structure AcceptLoop where
  phase : AcceptPhase
  served : Nat
  «open» : Nat
  deriving DecidableEq

/-- How the task of a connection ends. -/
inductive HandlerOutcome where
  | closed
  | failed (error : String)
  | panicked
  deriving DecidableEq

/-- The servers in the `select!` of `main`, and the error with which it has returned. -/
structure Servers where
  proxy : AcceptLoop
  health : AcceptLoop
  stopped : Option String
  deriving DecidableEq

/-- The outcome of the next call of a loop, or the end of the task of a connection. -/
inductive ServerEvent where
  | accept (server : ServerName) (outcome : Except String Unit)
  | setNodelay (outcome : Except String Unit)
  | finish (server : ServerName) (outcome : HandlerOutcome)

namespace AcceptLoop

/-- The loop after its listener is bound. -/
def bound : AcceptLoop := ⟨.accepting, 0, 0⟩

/-- `tokio::spawn` of the handler. -/
def spawn (server : AcceptLoop) : AcceptLoop :=
  ⟨.accepting, server.served + 1, server.open + 1⟩

/-- The end of a handler: its outcome is at most logged. -/
def finish (server : AcceptLoop) : HandlerOutcome → Option AcceptLoop
  | .closed | .failed _ | .panicked =>
      match server.open with
      | 0 => none
      | n + 1 => some { server with «open» := n }

end AcceptLoop

namespace Servers

/-- Both listeners are bound. -/
def start : Servers := ⟨.bound, .bound, none⟩

/-- One of the servers returns: the other one is dropped, and so are all tasks. -/
def stop (s : Servers) (error : String) : Servers where
  proxy := { s.proxy with «open» := 0 }
  health := { s.health with «open» := 0 }
  stopped := some error

/-- The effect of an event while `main` waits. -/
def react (s : Servers) : ServerEvent → Option Servers
  | .accept .proxy outcome =>
      match s.proxy.phase, outcome with
      | .accepting, .ok () => some { s with proxy := { s.proxy with phase := .accepted } }
      | .accepting, .error error => some (s.stop error)
      | .accepted, _ => none
  | .setNodelay outcome =>
      match s.proxy.phase, outcome with
      | .accepted, .ok () => some { s with proxy := s.proxy.spawn }
      | .accepted, .error error => some (s.stop error)
      | .accepting, _ => none
  | .accept .health outcome =>
      match outcome with
      -- this server sets no option
      | .ok () => some { s with health := s.health.spawn }
      | .error error => some (s.stop error)
  | .finish .proxy outcome => (s.proxy.finish outcome).map fun proxy => { s with proxy := proxy }
  | .finish .health outcome =>
      (s.health.finish outcome).map fun health => { s with health := health }

def step (s : Servers) (e : ServerEvent) : Option Servers :=
  match s.stopped with
  | none => s.react e
  | some _ => none

end Servers

/-- A call of a loop fails. -/
def ServerEvent.CallFails : ServerEvent → Prop
  | .accept _ (.error _) => True
  | .setNodelay (.error _) => True
  | _ => False

namespace Servers

/-- Both servers can go on to hand one more connection to a task, without a failing call. -/
def KeepsAccepting (s : Servers) : Prop :=
  (∃ t, Reaches step (fun e => ¬ e.CallFails) s t ∧ t.proxy.served = s.proxy.served + 1) ∧
    ∃ t, Reaches step (fun e => ¬ e.CallFails) s t ∧ t.health.served = s.health.served + 1

variable {s t : Servers} {e : ServerEvent}

theorem step_of_none (h : s.stopped = none) (e : ServerEvent) : step s e = s.react e := by
  simp only [step, h]

theorem step_of_some {error : String} (h : s.stopped = some error) (e : ServerEvent) :
    step s e = none := by
  simp only [step, h]

theorem stopped_of_goes_on {u : Servers} (h : some u = some t) (hu : u.stopped = none)
    (he : ¬ e.CallFails) : t.stopped = none ↔ ¬ e.CallFails := by
  obtain rfl := Option.some.inj h
  exact iff_of_true hu he

theorem stopped_of_stop {error : String} (h : some (s.stop error) = some t) (he : e.CallFails) :
    t.stopped = none ↔ ¬ e.CallFails := by
  obtain rfl := Option.some.inj h
  exact iff_of_false (by simp [stop]) (not_not.2 he)

/-- A step stops the servers exactly when it is a call that fails. -/
theorem stopped_step (hs : s.stopped = none) (h : step s e = some t) :
    t.stopped = none ↔ ¬ e.CallFails := by
  rw [step_of_none hs] at h
  cases e with
  | accept server outcome =>
    cases server with
    | proxy =>
      cases hphase : s.proxy.phase with
      | accepted => simp [react, hphase] at h
      | accepting =>
        cases outcome with
        | ok u =>
          simp only [react, hphase] at h
          exact stopped_of_goes_on h hs not_false
        | error error =>
          simp only [react, hphase] at h
          exact stopped_of_stop h trivial
    | health =>
      cases outcome with
      | ok u => exact stopped_of_goes_on h hs not_false
      | error error => exact stopped_of_stop h trivial
  | setNodelay outcome =>
    cases hphase : s.proxy.phase with
    | accepting => simp [react, hphase] at h
    | accepted =>
      cases outcome with
      | ok u =>
        simp only [react, hphase] at h
        exact stopped_of_goes_on h hs not_false
      | error error =>
        simp only [react, hphase] at h
        exact stopped_of_stop h trivial
  | finish server outcome =>
    -- the outcome of a handler reaches neither loop
    cases server with
    | proxy =>
      obtain ⟨proxy, -, rfl⟩ := Option.map_eq_some_iff.1 h
      exact iff_of_true hs not_false
    | health =>
      obtain ⟨health, -, rfl⟩ := Option.map_eq_some_iff.1 h
      exact iff_of_true hs not_false

/-- Servers that have not stopped keep accepting, and only these. -/
theorem keepsAccepting_iff_stopped : s.KeepsAccepting ↔ s.stopped = none := by
  constructor
  · rintro ⟨⟨t, ⟨events, -, hrun⟩, hserved⟩, -⟩
    cases hs : s.stopped with
    | none => rfl
    | some error =>
      -- nothing happens after the end, so nothing more is served
      cases events with
      | nil =>
        cases hrun
        omega
      | cons e events =>
        obtain ⟨u, hu, -⟩ := run_cons_eq_some.1 hrun
        rw [step_of_some hs] at hu
        cases hu
  · intro hs
    have hset : ∀ u : Servers, u.stopped = none → u.proxy.phase = .accepted →
        Reaches step (fun e => ¬ e.CallFails) u { u with proxy := u.proxy.spawn } := by
      intro u hu hphase
      have hstep : step u (.setNodelay (.ok ())) = some { u with proxy := u.proxy.spawn } := by
        simp only [step_of_none hu, react, hphase]
      refine Reaches.single ?_ hstep
      exact not_false
    constructor
    · cases hphase : s.proxy.phase with
      | accepted => exact ⟨_, hset s hs hphase, rfl⟩
      | accepting =>
        have hstep : step s (.accept .proxy (.ok ())) =
            some { s with proxy := { s.proxy with phase := .accepted } } := by
          simp only [step_of_none hs, react, hphase]
        refine ⟨_, (Reaches.single ?_ hstep).trans (hset _ hs rfl), rfl⟩
        exact not_false
    · have hstep : step s (.accept .health (.ok ())) =
          some { s with health := s.health.spawn } := by
        simp only [step_of_none hs, react]
      refine ⟨_, Reaches.single ?_ hstep, rfl⟩
      exact not_false

/-- **When the servers keep accepting.** In every run, for all outcomes of the calls and of the
tasks of connections, both servers can always go on to serve another connection exactly when no call
of `accept`, in either server, and no setting of the option fails. -/
theorem keepsAccepting_iff (events : List ServerEvent) (last : Servers)
    (hrun : run step start events = some last) :
    Throughout step KeepsAccepting start events ↔
      Along step (fun _ e => ¬ e.CallFails) start events := by
  refine (along_iff_throughout (J := fun _ => True) (fun _ _ _ _ _ _ => trivial)
    (fun s e t _ hs h => ?_) trivial (keepsAccepting_iff_stopped.2 rfl) hrun).symm
  rw [keepsAccepting_iff_stopped]
  exact (stopped_step (keepsAccepting_iff_stopped.1 hs) h).symm

/-- A handler that fails and one that panics. -/
theorem keepsAccepting_failing_handlers :
    Throughout step KeepsAccepting start
      [.accept .proxy (.ok ()), .setNodelay (.ok ()), .finish .proxy (.failed "connection reset"),
        .accept .health (.ok ()), .finish .health .panicked] :=
  (keepsAccepting_iff _ _ rfl).2 (along_of_forall (by simp [ServerEvent.CallFails]))

/-- **One failing call ends both servers.** While a connection is open, `accept` of the proxy fails
for want of a descriptor; or a client resets its connection before the option is set. -/
theorem not_keepsAccepting :
    (∃ last, run step start [.accept .health (.ok ()),
          .accept .proxy (.error "Too many open files (os error 24)")] = some last ∧
        last.health.open = 0 ∧ ¬ last.KeepsAccepting) ∧
      ∃ last, run step start [.accept .proxy (.ok ()),
          .setNodelay (.error "Invalid argument (os error 22)")] = some last ∧
        ¬ last.KeepsAccepting := by
  refine ⟨⟨_, rfl, rfl, ?_⟩, ⟨_, rfl, ?_⟩⟩
  · rw [keepsAccepting_iff_stopped]
    simp [stop]
  · rw [keepsAccepting_iff_stopped]
    simp [stop]

end Servers

end Upstreamer
