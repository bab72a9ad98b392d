import Upstreamer.Foundations.Past
import Upstreamer.Foundations.Regulated
import Upstreamer.System.Coverage

/-!
# The way of a request

A request passes through the stages of its handling while reloads, rebuilds and other requests run
between them. To follow one of them, the requests are numbered in the order in which they are taken
up, and each keeps its number while others come and go (`NumberedWorld`). However they interleave, a
request that is on its way to an origin was matched to a route by the router visible when it
arrived, after that the same request was admitted by the limiter that this route had then, and after
that an origin was selected for it from the candidates of this same route and not marked unhealthy
(`forwarded_journey`). A swap of the router in between does not show.
-/

set_option autoImplicit false

namespace Upstreamer

open Foundations

namespace World

/-! ## The stages -/

/-- A request arrives and is matched to a route of the visible router. -/
def Arrives (generation index : Nat) (entry : RouteEntry) (ip : IpAddr) (w : World) (e : Event) :
    Prop :=
  ∃ host path, e = .arrive host path ip ∧ w.app.generation = generation ∧
    w.app.router.matchIndex host path = some index ∧ w.app.router.routes[index]? = some entry

/-- A request that holds the route is allowed by the limiter that is in force for it. -/
def Admits (generation index : Nat) (entry : RouteEntry) (ip : IpAddr) (w : World) (e : Event) :
    Prop :=
  ∃ i now, e = .limit i now ∧ w.inFlight[i]? = some (.matched generation index entry ip) ∧
    (w.app.checkLimits entry ip now).1 = true

/-- For a request that holds the route an origin is selected. -/
def Selects (generation index : Nat) (entry : RouteEntry) (origin : OriginEndpoint) (w : World)
    (e : Event) : Prop :=
  ∃ i draw, e = .select i draw ∧ w.inFlight[i]? = some (.admitted generation index entry) ∧
    (w.app.selectOrigin generation index entry draw).1 = some origin

section Stages

variable {env : Externals} {w w' : World} {e : Event}

/-- Where a request in flight comes from: it was in the same stage before, or it takes the next
stage now. -/
theorem inFlight_step {req : InFlight} (h : step env w e = some w') (hreq : req ∈ w'.inFlight) :
    req ∈ w.inFlight ∨
      (∃ generation index entry ip, req = .matched generation index entry ip ∧
        Arrives generation index entry ip w e) ∨
      (∃ generation index entry ip, req = .admitted generation index entry ∧
        Admits generation index entry ip w e) ∨
      ∃ generation index entry origin, req = .forwarding origin ∧
        Selects generation index entry origin w e := by
  cases moves_of_step h with
  | @matched host path ip index entry hindex hentry =>
    rcases List.mem_append.1 hreq with hreq | hreq
    · exact Or.inl hreq
    · refine Or.inr (Or.inl ⟨w.app.generation, index, entry, ip, List.mem_singleton.1 hreq, ?_⟩)
      exact ⟨host, path, rfl, rfl, hindex, hentry⟩
  | limited _ _ => exact Or.inl (List.mem_of_mem_eraseIdx hreq)
  | @admitted i now generation index entry ip hi hallowed =>
    rcases List.mem_or_eq_of_mem_set hreq with hreq | rfl
    · exact Or.inl hreq
    · refine Or.inr (Or.inr (Or.inl ⟨generation, index, entry, ip, rfl, ?_⟩))
      exact ⟨i, now, rfl, hi, hallowed⟩
  | refused _ _ => exact Or.inl (List.mem_of_mem_eraseIdx hreq)
  | @selected i draw generation index entry origin hi hsome =>
    rcases List.mem_or_eq_of_mem_set hreq with hreq | rfl
    · exact Or.inl hreq
    · refine Or.inr (Or.inr (Or.inr ⟨generation, index, entry, origin, rfl, ?_⟩))
      exact ⟨i, draw, rfl, hi, hsome⟩
  | finished _ => exact Or.inl (List.mem_of_mem_eraseIdx hreq)
  | dropped _ => exact Or.inl (List.mem_of_mem_eraseIdx hreq)
  | _ => exact Or.inl hreq

end Stages

/-! ## Requests by number -/

/-- The event takes a request up. -/
def takesUp (w : World) : Event → Bool
  | .arrive host path _ => (w.app.router.matchRoute host path).isSome
  | _ => false

/-- The position of the request whose handling the event ends: it is refused by a limiter, no origin
can be selected, its forwarding is finished, or its client is gone. -/
def leaving (w : World) : Event → Option Nat
  | .limit i now =>
      match w.inFlight[i]? with
      | some (.matched _ _ entry ip) => if (w.app.checkLimits entry ip now).1 then none else some i
      | _ => none
  | .select i draw =>
      match w.inFlight[i]? with
      | some (.admitted generation index entry) =>
          if (w.app.selectOrigin generation index entry draw).1.isSome then none else some i
      | _ => none
  | .finish i _ _ => some i
  | .drop i => some i
  | _ => none

/-- What a step does to the requests in flight. -/
inductive Shifts (w : World) (e : Event) (w' : World) : Prop
  | added {generation index : Nat} {entry : RouteEntry} {ip : IpAddr}
      (htakes : w.takesUp e = true) (hleaving : w.leaving e = none)
      (hlist : w'.inFlight = w.inFlight ++ [.matched generation index entry ip])
      (harrives : Arrives generation index entry ip w e)
  | removed {i : Nat} (htakes : w.takesUp e = false) (hleaving : w.leaving e = some i)
      (hlist : w'.inFlight = w.inFlight.eraseIdx i)
  | admitted {i generation index : Nat} {entry : RouteEntry} {ip : IpAddr} {now : Instant}
      (htakes : w.takesUp e = false) (hleaving : w.leaving e = none)
      (hlist : w'.inFlight = w.inFlight.set i (.admitted generation index entry))
      (he : e = .limit i now) (hi : w.inFlight[i]? = some (.matched generation index entry ip))
      (hallowed : (w.app.checkLimits entry ip now).1 = true)
  | selected {i generation index : Nat} {entry : RouteEntry} {origin : OriginEndpoint} {draw : Draw}
      (htakes : w.takesUp e = false) (hleaving : w.leaving e = none)
      (hlist : w'.inFlight = w.inFlight.set i (.forwarding origin))
      (he : e = .select i draw) (hi : w.inFlight[i]? = some (.admitted generation index entry))
      (hsome : (w.app.selectOrigin generation index entry draw).1 = some origin)
  | kept (htakes : w.takesUp e = false) (hleaving : w.leaving e = none)
      (hlist : w'.inFlight = w.inFlight)

theorem shifts_of_step {env : Externals} {w w' : World} {e : Event} (h : step env w e = some w') :
    Shifts w e w' := by
  cases moves_of_step h with
  | unmatched hnone => exact .kept (by simp only [takesUp, hnone, Option.isSome_none]) rfl rfl
  | @matched host path ip index entry hindex hentry =>
    refine .added ?_ rfl rfl ⟨host, path, rfl, rfl, hindex, hentry⟩
    have hmatch : w.app.router.matchRoute host path = some entry := by
      rw [Router.matchRoute_eq, hindex, Option.bind_some, hentry]
    simp only [takesUp, hmatch, Option.isSome_some]
  | limited hi hrefused =>
    exact .removed rfl (by simp only [leaving, hi, hrefused, Bool.false_eq_true, if_false]) rfl
  | admitted hi hallowed =>
    exact .admitted rfl (by simp only [leaving, hi, hallowed, if_true]) rfl rfl hi hallowed
  | refused hi hnone =>
    exact .removed rfl (by simp only [leaving, hi, hnone, Option.isSome_none, Bool.false_eq_true,
      if_false]) rfl
  | selected hi hsome =>
    exact .selected rfl (by simp only [leaving, hi, hsome, Option.isSome_some, if_true]) rfl rfl hi
      hsome
  | finished _ => exact .removed rfl rfl rfl
  | dropped _ => exact .removed rfl rfl rfl
  | _ => exact .kept rfl rfl rfl

end World

/-- The proxy, with the numbers of the requests in flight, in the order of the requests, and the
number of the next one. -/
structure NumberedWorld where
  world : World
  numbers : List Nat
  next : Nat

namespace NumberedWorld

def start (env : Externals) (config : ProxyConfig) : NumberedWorld :=
  ⟨World.init env config, [], 0⟩

/-- The numbers after the event: that of the request that leaves is gone, and a request that is
taken up gets the next one. -/
def numbered (c : NumberedWorld) (e : Event) (world : World) : NumberedWorld where
  world := world
  numbers :=
    match c.world.leaving e with
    | some i => c.numbers.eraseIdx i
    | none => if c.world.takesUp e then c.numbers ++ [c.next] else c.numbers
  next := if c.world.takesUp e then c.next + 1 else c.next

def step (env : Externals) (c : NumberedWorld) (e : Event) : Option NumberedWorld :=
  (World.step env c.world e).map (c.numbered e)

/-- The numbers do not show in what the proxy does. -/
theorem map_world_run (env : Externals) (c : NumberedWorld) (es : List Event) :
    (run (step env) c es).map NumberedWorld.world = run (World.step env) c.world es := by
  induction es generalizing c with
  | nil => rfl
  | cons e es ih =>
    rw [run_cons, run_cons, step]
    cases World.step env c.world e with
    | none => rfl
    | some w => exact ih (c.numbered e w)

/-- The request of the number arrives and is matched to a route of the visible router. -/
def Arrives (k generation index : Nat) (entry : RouteEntry) (ip : IpAddr) (c : NumberedWorld)
    (e : Event) : Prop :=
  c.next = k ∧ World.Arrives generation index entry ip c.world e

/-- The request of the number holds the route and is allowed by the limiter that is in force for
it. -/
def Admits (k generation index : Nat) (entry : RouteEntry) (ip : IpAddr) (c : NumberedWorld)
    (e : Event) : Prop :=
  ∃ i now, e = .limit i now ∧ c.numbers[i]? = some k ∧
    c.world.inFlight[i]? = some (.matched generation index entry ip) ∧
    (c.world.app.checkLimits entry ip now).1 = true

/-- For the request of the number, which holds the route, the origin is selected. -/
def Selects (k generation index : Nat) (entry : RouteEntry) (origin : OriginEndpoint)
    (c : NumberedWorld) (e : Event) : Prop :=
  ∃ i draw, e = .select i draw ∧ c.numbers[i]? = some k ∧
    c.world.inFlight[i]? = some (.admitted generation index entry) ∧
    (c.world.app.selectOrigin generation index entry draw).1 = some origin

section Past

variable (env : Externals) (s : NumberedWorld)

/-- In the run the request was matched to the route. -/
def WasMatched (k generation index : Nat) (entry : RouteEntry) (ip : IpAddr) (es : List Event) :
    Prop :=
  Earlier (step env) s (fun _ c e => Arrives k generation index entry ip c e) es

/-- In the run the request was admitted, after it was matched. -/
def WasAdmitted (k generation index : Nat) (entry : RouteEntry) (es : List Event) : Prop :=
  ∃ ip, Earlier (step env) s (fun es₁ c e => Admits k generation index entry ip c e ∧
    WasMatched env s k generation index entry ip es₁) es

/-- In the run the origin was selected for the request, after it was admitted. -/
def WasSelected (k : Nat) (origin : OriginEndpoint) (es : List Event) : Prop :=
  ∃ generation index entry, Earlier (step env) s (fun es₁ c e =>
    Selects k generation index entry origin c e ∧
      WasAdmitted env s k generation index entry es₁) es

/-- The stage that the request is in was reached by way of the stages before it. -/
def Travelled (es : List Event) (k : Nat) : InFlight → Prop
  | .matched generation index entry ip => WasMatched env s k generation index entry ip es
  | .admitted generation index entry => WasAdmitted env s k generation index entry es
  | .forwarding origin => WasSelected env s k origin es

/-- Each request in flight has a number of its own, given out before, and has come its way. -/
structure Followed (es : List Event) (c : NumberedWorld) : Prop where
  length_eq : c.numbers.length = c.world.inFlight.length
  lt_next : ∀ k ∈ c.numbers, k < c.next
  nodup : c.numbers.Nodup
  travelled : ∀ (i k : Nat) (req : InFlight), c.numbers[i]? = some k →
    c.world.inFlight[i]? = some req → Travelled env s es k req

variable {env s} {c c' : NumberedWorld} {e : Event} {es : List Event}

theorem Travelled.append {k : Nat} {req : InFlight} (h : Travelled env s es k req)
    (es' : List Event) : Travelled env s (es ++ es') k req := by
  cases req with
  | matched generation index entry ip => exact Earlier.append h es'
  | admitted generation index entry =>
    obtain ⟨ip, h⟩ := h
    exact ⟨ip, h.append es'⟩
  | forwarding origin =>
    obtain ⟨generation, index, entry, h⟩ := h
    exact ⟨generation, index, entry, h.append es'⟩

/-- The request at a position takes its next stage and keeps its number. -/
theorem Followed.set (hc : Followed env s es c) {i : Nat} {req : InFlight} {world : World}
    (hlist : world.inFlight = c.world.inFlight.set i req)
    (hnew : ∀ k, c.numbers[i]? = some k → Travelled env s (es ++ [e]) k req) :
    Followed env s (es ++ [e]) { c with world := world } := by
  refine ⟨?_, hc.lt_next, hc.nodup, fun j k req' hk hreq => ?_⟩
  · rw [hlist, List.length_set]
    exact hc.length_eq
  · rw [hlist, List.getElem?_set] at hreq
    split at hreq
    · next heq =>
      subst heq
      split at hreq
      · cases hreq
        exact hnew k hk
      · cases hreq
    · exact (hc.travelled j k req' hk hreq).append [e]

theorem followed_step (hrun : run (step env) s es = some c) (hc : Followed env s es c)
    (h : step env c e = some c') : Followed env s (es ++ [e]) c' := by
  obtain ⟨world, hworld, rfl⟩ := Option.map_eq_some_iff.1 h
  cases World.shifts_of_step hworld with
  | @added generation index entry ip htakes hleaving hlist harrives =>
    have hnumbers : c.numbered e world = ⟨world, c.numbers ++ [c.next], c.next + 1⟩ := by
      simp only [numbered, hleaving, htakes, if_true]
    rw [hnumbers]
    refine ⟨?_, fun k hk => ?_, ?_, fun i k req hk hreq => ?_⟩
    · rw [hlist, List.length_append, List.length_append, hc.length_eq]
      rfl
    · rcases List.mem_append.1 hk with hk | hk
      · exact Nat.lt_succ_of_lt (hc.lt_next k hk)
      · rw [List.mem_singleton.1 hk]
        exact Nat.lt_succ_self _
    · refine List.nodup_append.2 ⟨hc.nodup, List.nodup_singleton _, fun k hk k' hk' => ?_⟩
      rw [List.mem_singleton.1 hk']
      exact Nat.ne_of_lt (hc.lt_next k hk)
    · -- an old request at its old position, or the new one behind them
      by_cases hi : i < c.numbers.length
      · rw [List.getElem?_append_left hi] at hk
        rw [hlist, List.getElem?_append_left (hc.length_eq ▸ hi)] at hreq
        exact (hc.travelled i k req hk hreq).append [e]
      · have hi := not_lt.1 hi
        rw [List.getElem?_append_right hi, List.getElem?_singleton] at hk
        rw [hlist, List.getElem?_append_right (hc.length_eq ▸ hi), List.getElem?_singleton] at hreq
        split at hk
        · next hzero =>
          rw [← hc.length_eq, if_pos hzero] at hreq
          cases hk
          cases hreq
          exact earlier_concat hrun ⟨rfl, harrives⟩
        · cases hk
  | @removed i htakes hleaving hlist =>
    have hnumbers : c.numbered e world = ⟨world, c.numbers.eraseIdx i, c.next⟩ := by
      simp only [numbered, hleaving, htakes, Bool.false_eq_true, if_false]
    rw [hnumbers]
    refine ⟨?_, fun k hk => hc.lt_next k (List.mem_of_mem_eraseIdx hk),
      hc.nodup.eraseIdx i, fun j k req hk hreq => ?_⟩
    · rw [hlist, List.length_eraseIdx, List.length_eraseIdx, hc.length_eq]
    · -- both lists lose the entry at one position
      rw [List.getElem?_eraseIdx] at hk
      rw [hlist, List.getElem?_eraseIdx] at hreq
      split at hk
      · next hj =>
        rw [if_pos hj] at hreq
        exact (hc.travelled _ k req hk hreq).append [e]
      · next hj =>
        rw [if_neg hj] at hreq
        exact (hc.travelled _ k req hk hreq).append [e]
  | @admitted i generation index entry ip now htakes hleaving hlist he hi hallowed =>
    have hnumbers : c.numbered e world = { c with world := world } := by
      simp only [numbered, hleaving, htakes, Bool.false_eq_true, if_false]
    rw [hnumbers]
    refine hc.set hlist fun k hk => ⟨ip, earlier_concat hrun ⟨⟨i, now, he, hk, hi, hallowed⟩, ?_⟩⟩
    exact hc.travelled i k _ hk hi
  | @selected i generation index entry origin draw htakes hleaving hlist he hi hsome =>
    have hnumbers : c.numbered e world = { c with world := world } := by
      simp only [numbered, hleaving, htakes, Bool.false_eq_true, if_false]
    rw [hnumbers]
    refine hc.set hlist fun k hk =>
      ⟨generation, index, entry, earlier_concat hrun ⟨⟨i, draw, he, hk, hi, hsome⟩, ?_⟩⟩
    exact hc.travelled i k _ hk hi
  | kept htakes hleaving hlist =>
    have hnumbers : c.numbered e world = { c with world := world } := by
      simp only [numbered, hleaving, htakes, Bool.false_eq_true, if_false]
    rw [hnumbers]
    refine ⟨hlist ▸ hc.length_eq, hc.lt_next, hc.nodup, fun i k req hk hreq => ?_⟩
    rw [hlist] at hreq
    exact (hc.travelled i k req hk hreq).append [e]

/-- **Every request in flight has come its way**, under its own number. -/
theorem followed_of_run {config : ProxyConfig}
    (hrun : run (step env) (start env config) es = some c) :
    Followed env (start env config) es c := by
  refine past_invariant (I := Followed env (start env config)) ?_ ?_ hrun
  · refine ⟨rfl, fun k hk => absurd hk List.not_mem_nil, List.nodup_nil, fun i k req hk _ => ?_⟩
    cases hk
  · intro es e c c' hrun hc h
    exact followed_step hrun hc h

end Past

/-- **The way of a forwarded request.** Numbers are never shared, and a request that is on its way
to an origin has one. Under this number it was matched to a route on arrival, later admitted by the
limiter in force for this route, and later still the origin was selected for it from the candidates
of the route while it was not marked unhealthy. -/
theorem forwarded_journey (env : Externals) (config : ProxyConfig) (events : List Event)
    (last : NumberedWorld) (hrun : run (step env) (start env config) events = some last) (i : Nat)
    (origin : OriginEndpoint) (hi : last.world.inFlight[i]? = some (.forwarding origin)) :
    last.numbers.Nodup ∧ ∃ k, last.numbers[i]? = some k ∧
      ∃ generation index entry ip, origin ∈ entry.candidates ∧
        Earlier (step env) (start env config) (fun es₁ c e =>
          (Selects k generation index entry origin c e ∧
            OriginStates.isUnhealthy c.world.app.originStates origin.urlKey = false) ∧
          Earlier (step env) (start env config) (fun es₂ c e =>
            Admits k generation index entry ip c e ∧
            Earlier (step env) (start env config) (fun _ c e =>
              Arrives k generation index entry ip c e) es₂) es₁) events := by
  have hfollowed := followed_of_run hrun
  obtain ⟨hlt, -⟩ := List.getElem?_eq_some_iff.1 hi
  obtain ⟨k, hk⟩ : ∃ k, last.numbers[i]? = some k :=
    ⟨_, List.getElem?_eq_getElem (hfollowed.length_eq.symm ▸ hlt)⟩
  obtain ⟨generation, index, entry, hselected⟩ := hfollowed.travelled i k _ hk hi
  have hselects : ∀ c e, Selects k generation index entry origin c e →
      origin ∈ entry.candidates ∧
        OriginStates.isUnhealthy c.world.app.originStates origin.urlKey = false := by
    rintro c e ⟨j, draw, -, -, -, hsome⟩
    exact not_unhealthy_of_selectOrigin hsome
  obtain ⟨es₁, e, es₂, c, hes, hc, hsel, ip, hadmitted⟩ := hselected
  obtain ⟨hmem, hhealthy⟩ := hselects c e hsel
  exact ⟨hfollowed.nodup, k, hk, generation, index, entry, ip, hmem, es₁, e, es₂, c, hes, hc,
    ⟨hsel, hhealthy⟩, hadmitted⟩

/-- Of three requests the second one is dropped, and the third is on its way under the number 2. -/
theorem forwarded_journey_third :
    ∃ last k, run (step .none) (start .none .minimal)
        [.arrive "" "/" (.v4 0), .arrive "" "/" (.v4 1), .limit 1 0, .select 1 .zero,
          .arrive "" "/" (.v4 2), .drop 1, .limit 1 0, .select 1 .zero] = some last ∧
      last.numbers = [0, 2] ∧ last.numbers[1]? = some k ∧
      ∃ generation index entry ip, OriginEndpoint.ofUrl Url.backend none none ∈ entry.candidates ∧
        Earlier (step .none) (start .none .minimal) (fun es₁ c e =>
          (Selects k generation index entry (.ofUrl Url.backend none none) c e ∧
            OriginStates.isUnhealthy c.world.app.originStates "http://127.0.0.1:3000/" = false) ∧
          Earlier (step .none) (start .none .minimal) (fun es₂ c e =>
            Admits k generation index entry ip c e ∧
            Earlier (step .none) (start .none .minimal) (fun _ c e =>
              Arrives k generation index entry ip c e) es₂) es₁)
          [.arrive "" "/" (.v4 0), .arrive "" "/" (.v4 1), .limit 1 0, .select 1 .zero,
            .arrive "" "/" (.v4 2), .drop 1, .limit 1 0, .select 1 .zero] := by
  obtain ⟨last, hlast⟩ : ∃ c, run (step .none) (start .none .minimal)
      [.arrive "" "/" (.v4 0), .arrive "" "/" (.v4 1), .limit 1 0, .select 1 .zero,
        .arrive "" "/" (.v4 2), .drop 1, .limit 1 0, .select 1 .zero] = some c := ⟨_, rfl⟩
  have hnumbers : (run (step .none) (start .none .minimal)
      [.arrive "" "/" (.v4 0), .arrive "" "/" (.v4 1), .limit 1 0, .select 1 .zero,
        .arrive "" "/" (.v4 2), .drop 1, .limit 1 0, .select 1 .zero]).map NumberedWorld.numbers =
          some [0, 2] := by decide +kernel
  have hforwarding : (run (step .none) (start .none .minimal)
      [.arrive "" "/" (.v4 0), .arrive "" "/" (.v4 1), .limit 1 0, .select 1 .zero,
        .arrive "" "/" (.v4 2), .drop 1, .limit 1 0, .select 1 .zero]).map
          (fun c => c.world.inFlight[1]?) =
            some (some (.forwarding (.ofUrl Url.backend none none))) := rfl
  rw [hlast, Option.map_some] at hnumbers hforwarding
  obtain ⟨-, k, hk, hjourney⟩ := forwarded_journey .none .minimal _ last hlast 1
    (.ofUrl Url.backend none none) (Option.some.inj hforwarding)
  exact ⟨last, k, hlast, Option.some.inj hnumbers, hk, hjourney⟩

end NumberedWorld

end Upstreamer
