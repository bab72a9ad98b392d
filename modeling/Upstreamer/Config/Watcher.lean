import Upstreamer.Foundations.Machine
import Upstreamer.Config.Reload

/-!
# The configuration watcher

`watch_config` as a machine. A change of the file is visible first; its event then waits until the
bounded channel has room. The loop receives one event, sleeps, throws away what is queued, loads the
file and applies what it has read. Between any two of these steps the file may change again.

Draining before loading is what makes it safe to throw events away: an event that is drained
belongs to a change that the load after it reads (`no_change_lost`). A quiet state can always be
reached (`reaches_quiet`), so the theorem is about states that occur.
-/

set_option autoImplicit false

namespace Upstreamer

open Foundations

universe u

/-- A bounded channel of events without content. -/
structure Channel (capacity : Nat) where
  len : Nat
  len_le : len ≤ capacity

namespace Channel

variable {capacity : Nat}

def empty : Channel capacity := ⟨0, Nat.zero_le _⟩

/-- A sender is blocked while the channel is full. -/
def send (channel : Channel capacity) : Option (Channel capacity) :=
  if h : channel.len < capacity then some ⟨channel.len + 1, h⟩ else none

def tryRecv (channel : Channel capacity) : Option (Channel capacity) :=
  match channel with
  | ⟨0, _⟩ => none
  | ⟨len + 1, h⟩ => some ⟨len, Nat.le_of_succ_le h⟩

theorem len_send {channel channel' : Channel capacity} (h : channel.send = some channel') :
    channel'.len = channel.len + 1 := by
  rw [send] at h
  split at h
  · obtain rfl := Option.some.inj h
    rfl
  · cases h

theorem len_tryRecv {channel channel' : Channel capacity} (h : channel.tryRecv = some channel') :
    channel.len = channel'.len + 1 := by
  obtain ⟨len, hlen⟩ := channel
  cases len with
  | zero => cases h
  | succ len =>
    obtain rfl := Option.some.inj h
    rfl

theorem tryRecv_eq_none {channel : Channel capacity} :
    channel.tryRecv = none ↔ channel.len = 0 := by
  obtain ⟨len, hlen⟩ := channel
  cases len with
  | zero => exact iff_of_true rfl rfl
  | succ len => exact iff_of_false (by simp [tryRecv]) (Nat.succ_ne_zero len)

theorem exists_tryRecv (channel : Channel capacity) (h : 0 < channel.len) :
    ∃ channel', channel.tryRecv = some channel' :=
  Option.ne_none_iff_exists'.1 fun hnone => h.ne' (tryRecv_eq_none.1 hnone)

theorem exists_send (channel : Channel capacity) (h : channel.len < capacity) :
    ∃ channel', channel.send = some channel' :=
  ⟨_, dif_pos h⟩

end Channel

/-- Where the loop of `watch_config` is. -/
inductive WatchPhase (α : Type u) where
  | receiving
  | sleeping
  | draining
  | loading
  | loaded (content : α)

/-- The watcher and the file it watches. A content is whatever reading the file can give, a failure
included. -/
structure Watcher (α : Type u) where
  file : α
  lastRead : α
  /-- Changes of the file since the watch was registered. -/
  changes : Nat
  /-- Events that the notifier has still to put into the channel. -/
  waiting : Nat
  queue : Channel 16
  phase : WatchPhase α
  app : AppState

/-- What can happen next: a change of the file, an event without one, or a step of the notifier or
of the loop. -/
inductive WatchEvent (α : Type u) where
  | change (content : α)
  | touch
  | send
  | receive
  | wake
  | drain
  | load
  | apply (fs : FileSystem)

/-- The loop will load the file before it waits for an event again. -/
def WatchPhase.LoadsNext {α : Type u} : WatchPhase α → Prop
  | .receiving => False
  | .sleeping => True
  | .draining => True
  | .loading => True
  | .loaded _ => False

/-- The event is one of the notifier's sends or of the loop, and not of the file. -/
def WatchEvent.OfWatcher {α : Type u} : WatchEvent α → Prop
  | .change _ => False
  | .touch => False
  | _ => True

namespace Watcher

variable {α : Type u}

/-- The state in which the watch is registered. -/
def registered (file lastRead : α) (app : AppState) : Watcher α where
  file := file
  lastRead := lastRead
  changes := 0
  waiting := 0
  queue := .empty
  phase := .receiving
  app := app

def step (parse : α → Option ProxyConfig) (w : Watcher α) : WatchEvent α → Option (Watcher α)
  | .change content =>
      some { w with file := content, changes := w.changes + 1, waiting := w.waiting + 1 }
  | .touch => some { w with waiting := w.waiting + 1 }
  | .send =>
      match w.waiting, w.queue.send with
      | waiting + 1, some queue => some { w with waiting := waiting, queue := queue }
      | _, _ => none
  | .receive =>
      match w.phase, w.queue.tryRecv with
      | .receiving, some queue => some { w with queue := queue, phase := .sleeping }
      | _, _ => none
  | .wake =>
      match w.phase with
      | .sleeping => some { w with phase := .draining }
      | _ => none
  | .drain =>
      match w.phase, w.queue.tryRecv with
      | .draining, some queue => some { w with queue := queue }
      | .draining, none => some { w with phase := .loading }
      | _, _ => none
  | .load =>
      match w.phase with
      | .loading => some { w with lastRead := w.file, phase := .loaded w.file }
      | _ => none
  | .apply fs =>
      match w.phase with
      | .loaded content =>
          some { w with app := AppState.watchConfig fs w.app (parse content), phase := .receiving }
      | _ => none

/-- No event is queued or waiting to be sent, and the loop waits for one. -/
def Quiet (w : Watcher α) : Prop := w.waiting = 0 ∧ w.queue.len = 0 ∧ w.phase = .receiving

/-- The file will be read before the loop rests, or it is as it was last read, or it is still as it
was when the watch was registered. -/
def NothingLost (file lastRead : α) (w : Watcher α) : Prop :=
  w.phase.LoadsNext ∨ 0 < w.waiting + w.queue.len ∨ w.lastRead = w.file ∨
    (w.changes = 0 ∧ w.file = file ∧ w.lastRead = lastRead)

section Steps

variable {parse : α → Option ProxyConfig} {w w' : Watcher α} {file lastRead : α}

theorem NothingLost.step {e : WatchEvent α} (hs : w.NothingLost file lastRead)
    (h : step parse w e = some w') : w'.NothingLost file lastRead := by
  cases e with
  | change content =>
    -- the event of the change is waiting now
    obtain rfl := Option.some.inj h
    exact Or.inr (Or.inl (Nat.lt_add_right _ (Nat.succ_pos _)))
  | touch =>
    obtain rfl := Option.some.inj h
    exact Or.inr (Or.inl (Nat.lt_add_right _ (Nat.succ_pos _)))
  | send =>
    simp only [Watcher.step] at h
    split at h
    · next waiting queue hwaiting hqueue =>
      obtain rfl := Option.some.inj h
      -- the event moves from the notifier into the channel
      have hlen := Channel.len_send hqueue
      exact Or.inr (Or.inl (by show 0 < waiting + queue.len; omega))
    · cases h
  | receive =>
    simp only [Watcher.step] at h
    split at h
    · obtain rfl := Option.some.inj h
      exact Or.inl trivial
    · cases h
  | wake =>
    simp only [Watcher.step] at h
    split at h
    · obtain rfl := Option.some.inj h
      exact Or.inl trivial
    · cases h
  | drain =>
    simp only [Watcher.step] at h
    split at h
    · next hphase _ =>
      obtain rfl := Option.some.inj h
      -- the event is thrown away, and the load is still to come
      exact Or.inl (by rw [hphase]; trivial)
    · obtain rfl := Option.some.inj h
      exact Or.inl trivial
    · cases h
  | load =>
    simp only [Watcher.step] at h
    split at h
    · obtain rfl := Option.some.inj h
      exact Or.inr (Or.inr (Or.inl rfl))
    · cases h
  | apply fs =>
    simp only [Watcher.step] at h
    split at h
    · next hphase =>
      obtain rfl := Option.some.inj h
      rcases hs with hloads | hs
      · rw [hphase] at hloads
        exact hloads.elim
      · exact Or.inr hs
    · cases h

end Steps

/-- **No change is lost.** In every run from the registration of the watch, whenever the watcher is
quiet and the file has changed or had been read as it then was, what was last read is what the file
contains. -/
theorem no_change_lost (parse : α → Option ProxyConfig) (file lastRead : α) (app : AppState)
    (events : List (WatchEvent α)) :
    Throughout (step parse)
      (fun w => w.Quiet → w.changes ≠ 0 ∨ lastRead = file → w.lastRead = w.file)
      (registered file lastRead app) events := by
  have hstart : (registered file lastRead app).NothingLost file lastRead :=
    Or.inr (Or.inr (Or.inr ⟨rfl, rfl, rfl⟩))
  have hrun : Throughout (step parse) (NothingLost file lastRead) _ events :=
    throughout_of_along (fun _ _ _ hs _ h => hs.step h) hstart (along_true _ events)
  refine hrun.mono fun w hs hquiet hchanged => ?_
  obtain ⟨hwaiting, hqueue, hphase⟩ := hquiet
  rcases hs with hloads | hpending | hread | ⟨hchanges, hfile, hlast⟩
  · rw [hphase] at hloads
    exact hloads.elim
  · omega
  · exact hread
  · rcases hchanged with hchanged | hsame
    · exact absurd hchanges hchanged
    · rw [hfile, hlast, hsame]

/-! ## Quiet states are reached -/

section Progress

variable (parse : α → Option ProxyConfig) {w : Watcher α}

/-- The events that are queued or waiting to be sent. -/
def pending (w : Watcher α) : Nat := w.waiting + w.queue.len

/-- From the point after the drain, the loop loads, applies and waits for an event again. -/
theorem reaches_receiving_of_loading (hphase : w.phase = .loading) :
    ∃ w', Reaches (step parse) WatchEvent.OfWatcher w w' ∧ w'.phase = .receiving ∧
      w'.pending = w.pending := by
  have hload : step parse w .load =
      some { w with lastRead := w.file, phase := .loaded w.file } := by
    simp only [step, hphase]
  refine ⟨_, (Reaches.single ?_ hload).trans (Reaches.single (e := .apply .empty) ?_ rfl),
    rfl, rfl⟩
  · trivial
  · trivial

/-- Draining ends, since each turn takes an event from the channel. -/
theorem reaches_loading_of_draining (hphase : w.phase = .draining) :
    ∃ w', Reaches (step parse) WatchEvent.OfWatcher w w' ∧ w'.phase = .loading ∧
      w'.pending ≤ w.pending := by
  induction hn : w.queue.len generalizing w with
  | zero =>
    have hdrain : step parse w .drain = some { w with phase := .loading } := by
      simp only [step, hphase, Channel.tryRecv_eq_none.2 hn]
    refine ⟨_, Reaches.single ?_ hdrain, rfl, le_rfl⟩
    trivial
  | succ n ih =>
    obtain ⟨queue, hqueue⟩ := Channel.exists_tryRecv w.queue (by omega)
    have hlen := Channel.len_tryRecv hqueue
    have hdrain : step parse w .drain = some { w with queue := queue } := by
      simp only [step, hphase, hqueue]
    obtain ⟨w', hreach, hphase', hpending⟩ :=
      ih (w := { w with queue := queue }) hphase (by show queue.len = n; omega)
    refine ⟨w', (Reaches.single ?_ hdrain).trans hreach, hphase', hpending.trans ?_⟩
    · trivial
    · show w.waiting + queue.len ≤ w.waiting + w.queue.len
      omega

/-- The loop comes back to where it waits for an event, and no event is added meanwhile. -/
theorem reaches_receiving (w : Watcher α) :
    ∃ w', Reaches (step parse) WatchEvent.OfWatcher w w' ∧ w'.phase = .receiving ∧
      w'.pending ≤ w.pending := by
  cases hphase : w.phase with
  | receiving => exact ⟨w, Reaches.refl w, hphase, le_rfl⟩
  | sleeping =>
    have hwake : step parse w .wake = some { w with phase := .draining } := by
      simp only [step, hphase]
    obtain ⟨w₁, hreach₁, hphase₁, hle₁⟩ :=
      reaches_loading_of_draining parse (w := { w with phase := .draining }) rfl
    obtain ⟨w₂, hreach₂, hphase₂, heq₂⟩ := reaches_receiving_of_loading parse hphase₁
    refine ⟨w₂, (Reaches.single ?_ hwake).trans (hreach₁.trans hreach₂), hphase₂, ?_⟩
    · trivial
    · exact heq₂.le.trans hle₁
  | draining =>
    obtain ⟨w₁, hreach₁, hphase₁, hle₁⟩ := reaches_loading_of_draining parse hphase
    obtain ⟨w₂, hreach₂, hphase₂, heq₂⟩ := reaches_receiving_of_loading parse hphase₁
    exact ⟨w₂, hreach₁.trans hreach₂, hphase₂, heq₂.le.trans hle₁⟩
  | loading =>
    obtain ⟨w₁, hreach₁, hphase₁, heq₁⟩ := reaches_receiving_of_loading parse hphase
    exact ⟨w₁, hreach₁, hphase₁, heq₁.le⟩
  | loaded content =>
    have happly : step parse w (.apply .empty) = some { w with
        app := AppState.watchConfig .empty w.app (parse content), phase := .receiving } := by
      simp only [step, hphase]
    refine ⟨_, Reaches.single ?_ happly, rfl, le_rfl⟩
    trivial

/-- While an event is pending the loop can receive one. -/
theorem reaches_fewer (hphase : w.phase = .receiving) (hpending : 0 < w.pending) :
    ∃ w', Reaches (step parse) WatchEvent.OfWatcher w w' ∧ w'.pending < w.pending := by
  -- an event that is queued is received at once
  have hreceive : ∀ w : Watcher α, w.phase = .receiving → 0 < w.queue.len →
      ∃ w', Reaches (step parse) WatchEvent.OfWatcher w w' ∧ w'.pending < w.pending := by
    intro w hphase hlen
    obtain ⟨queue, hqueue⟩ := Channel.exists_tryRecv w.queue hlen
    have hstep : step parse w .receive = some { w with queue := queue, phase := .sleeping } := by
      simp only [step, hphase, hqueue]
    refine ⟨_, Reaches.single ?_ hstep, ?_⟩
    · trivial
    · show w.waiting + queue.len < w.waiting + w.queue.len
      have hlen := Channel.len_tryRecv hqueue
      omega
  rcases Nat.eq_zero_or_pos w.queue.len with hempty | hlen
  · -- the channel is empty, so it has room for one of the waiting events
    obtain ⟨queue, hqueue⟩ := Channel.exists_send w.queue (by omega)
    obtain ⟨waiting, hwaiting⟩ : ∃ waiting, w.waiting = waiting + 1 :=
      Nat.exists_eq_succ_of_ne_zero (by rw [pending] at hpending; omega)
    have hsend : step parse w .send = some { w with waiting := waiting, queue := queue } := by
      simp only [step, hwaiting, hqueue]
    have hlen := Channel.len_send hqueue
    obtain ⟨w', hreach, hlt⟩ := hreceive { w with waiting := waiting, queue := queue } hphase
      (by show 0 < queue.len; omega)
    refine ⟨w', (Reaches.single ?_ hsend).trans hreach, hlt.trans_le ?_⟩
    · trivial
    · show waiting + queue.len ≤ w.waiting + w.queue.len
      omega
  · exact hreceive w hphase hlen

/-- **The watcher comes to rest.** From every state, with no further event of the file, the notifier
and the loop can reach a quiet state. -/
theorem reaches_quiet (w : Watcher α) :
    ∃ w', Reaches (step parse) WatchEvent.OfWatcher w w' ∧ w'.Quiet := by
  induction hn : w.pending using Nat.strong_induction_on generalizing w with
  | _ n ih =>
    obtain ⟨w₁, hreach₁, hphase₁, hle₁⟩ := reaches_receiving parse w
    rcases Nat.eq_zero_or_pos w₁.pending with hzero | hpos
    · rw [pending, Nat.add_eq_zero_iff] at hzero
      exact ⟨w₁, hreach₁, hzero.1, hzero.2, hphase₁⟩
    · obtain ⟨w₂, hreach₂, hlt₂⟩ := reaches_fewer parse hphase₁ hpos
      obtain ⟨w₃, hreach₃, hquiet⟩ := ih w₂.pending (by omega) w₂ rfl
      exact ⟨w₃, hreach₁.trans (hreach₂.trans hreach₃), hquiet⟩

end Progress

end Watcher

end Upstreamer
