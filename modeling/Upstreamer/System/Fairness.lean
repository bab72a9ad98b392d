import Upstreamer.Balance.RoundRobinShares
import Upstreamer.System.Journeys

/-!
# Turns on a round-robin route

The requests for a route may be selected for by any number of callers, from routers that have long
been swapped out, while origins fail and recover and the counter of the balancer wraps. Exact shares
hold only while nothing changes; what holds always is that no healthy candidate starves: it is
selected in any `2 * n - 1` consecutive selections for its route, `n` being the number of candidates
(`no_starvation`). The requests of one route of one router all hold the same entry
(`holds_of_run`), so they share its counter and its list of candidates.
-/

set_option autoImplicit false

namespace Upstreamer

open Foundations

/-- A healthy candidate is selected when the counter points at it. -/
theorem RoundRobinBalancer.selectOrigin_of_turn {counter : UInt64}
    {candidates : List OriginEndpoint} {states : OriginStates} {origin : OriginEndpoint}
    (hget : candidates[counter.toNat % candidates.length]? = some origin)
    (hhealthy : OriginStates.isHealthy states origin.urlKey = true) :
    (selectOrigin counter candidates states).1 = some origin := by
  have hne : candidates ≠ [] := by
    rintro rfl
    simp at hget
  have hselectable : selectableAt candidates states (counter.toNat % candidates.length) = true := by
    simp only [selectableAt, hget, hhealthy]
  rw [selectOrigin_eq, selectPosition_of_ne_nil hne,
    Cyclic.find_own (List.length_pos_of_ne_nil hne) hselectable, Option.bind_some, hget]

theorem RoundRobinBalancer.selectOrigin_counter {counter : UInt64}
    {candidates : List OriginEndpoint} (hne : candidates ≠ []) (states : OriginStates) :
    (selectOrigin counter candidates states).2 = counter + 1 := by
  rw [selectOrigin, if_neg hne]

/-- The router, the position in it and the route that a request holds until its origin is
selected. -/
def InFlight.route? : InFlight → Option (Nat × Nat × RouteEntry)
  | .matched generation index entry _ => some (generation, index, entry)
  | .admitted generation index entry => some (generation, index, entry)
  | .forwarding _ => none

namespace World

/-- The result of the selection that the event makes for the route. -/
def turnAt (generation index : Nat) (w : World) : Event → Option (Option OriginEndpoint)
  | .select i draw =>
      match w.inFlight[i]? with
      | some (.admitted g j entry) =>
          if g = generation ∧ j = index then some (w.app.selectOrigin g j entry draw).1 else none
      | _ => none
  | _ => none

section Routers

variable {env : Externals} {config : ProxyConfig} {w w' : World} {e : Event}

/-- The visible router is numbered by the swaps before it. -/
theorem generation_step (h : step env w e = some w') :
    w'.app.router = w.app.router ∧ w'.app.generation = w.app.generation ∨
      w'.app.generation = w.app.generation + 1 := by
  have hwrite : ∀ write : Write, (w.app.apply write).router = w.app.router ∧
      (w.app.apply write).generation = w.app.generation ∨
        (w.app.apply write).generation = w.app.generation + 1 := by
    intro write
    cases write with
    | swapRouter router => exact Or.inr rfl
    | _ => exact Or.inl ⟨rfl, rfl⟩
  cases moves_of_step h with
  | reloadStep _ => exact hwrite _
  | rebuildStep _ => exact hwrite _
  | @limited i now generation index entry ip hi _ =>
    obtain ⟨global, routes, happ⟩ := w.app.checkLimits_frame entry ip now
    rw [happ]
    exact Or.inl ⟨rfl, rfl⟩
  | @admitted i now generation index entry ip hi _ =>
    obtain ⟨global, routes, happ⟩ := w.app.checkLimits_frame entry ip now
    rw [happ]
    exact Or.inl ⟨rfl, rfl⟩
  | _ => exact Or.inl ⟨rfl, rfl⟩

/-- A request that holds a route held it before, or takes it from the visible router. -/
theorem route_step {req : InFlight} {generation index : Nat} {entry : RouteEntry}
    (h : step env w e = some w') (hreq : req ∈ w'.inFlight)
    (hroute : req.route? = some (generation, index, entry)) :
    (∃ req ∈ w.inFlight, req.route? = some (generation, index, entry)) ∨
      (w.app.generation = generation ∧ w.app.router.routes[index]? = some entry) := by
  rcases inFlight_step h hreq with hold | ⟨g, j, entry', ip, rfl, harrives⟩ |
    ⟨g, j, entry', ip, rfl, hadmits⟩ | ⟨g, j, entry', origin, rfl, hselects⟩
  · exact Or.inl ⟨req, hold, hroute⟩
  · cases hroute
    obtain ⟨host, path, -, hgeneration, -, hentry⟩ := harrives
    exact Or.inr ⟨hgeneration, hentry⟩
  · cases hroute
    obtain ⟨i, now, -, hi, -⟩ := hadmits
    exact Or.inl ⟨_, List.mem_of_getElem? hi, rfl⟩
  · cases hroute

/-- The routes held from the visible router are those that it has, and none is held from a router
that is still to come. -/
def RoutesHeld (w : World) : Prop :=
  ∀ req ∈ w.inFlight, ∀ generation index entry, req.route? = some (generation, index, entry) →
    generation ≤ w.app.generation ∧
      (w.app.generation = generation → w.app.router.routes[index]? = some entry)

theorem routesHeld_step (hw : w.RoutesHeld) (h : step env w e = some w') : w'.RoutesHeld := by
  intro req hreq generation index entry hroute
  have hbefore : generation ≤ w.app.generation ∧
      (w.app.generation = generation → w.app.router.routes[index]? = some entry) := by
    rcases route_step h hreq hroute with ⟨old, hold, hroute⟩ | ⟨hgeneration, hentry⟩
    · exact hw old hold generation index entry hroute
    · exact ⟨hgeneration.ge, fun _ => hentry⟩
  rcases generation_step h with ⟨hrouter, hgeneration⟩ | hgeneration
  · rw [hrouter, hgeneration]
    exact hbefore
  · rw [hgeneration]
    exact ⟨hbefore.1.trans (Nat.le_succ _), fun heq => absurd hbefore.1 (by omega)⟩

theorem routesHeld_of_run {events : List Event}
    (hrun : run (step env) (init env config) events = some w) : w.RoutesHeld := by
  have hreaches : Reaches (step env) (fun _ => True) (init env config) w :=
    ⟨events, fun _ _ => trivial, hrun⟩
  exact hreaches.invariant (fun w e w' hw _ h => routesHeld_step hw h)
    fun req hreq => absurd hreq List.not_mem_nil

/-- The route at the position of the router with the number is the entry: it was visible, and all
requests that hold it hold this entry. -/
structure Holds (generation index : Nat) (entry : RouteEntry) (w : World) : Prop where
  generation_le : generation ≤ w.app.generation
  visible : w.app.generation = generation → w.app.router.routes[index]? = some entry
  held : ∀ req ∈ w.inFlight, ∀ entry', req.route? = some (generation, index, entry') →
    entry' = entry

variable {generation index : Nat} {entry : RouteEntry}

theorem RoutesHeld.holds (hw : w.RoutesHeld) (hentry : w.app.router.routes[index]? = some entry) :
    Holds w.app.generation index entry w where
  generation_le := le_rfl
  visible := fun _ => hentry
  held := fun req hreq entry' hroute => by
    have hsome := (hw req hreq _ _ _ hroute).2 rfl
    rw [hentry] at hsome
    exact (Option.some.inj hsome).symm

theorem holds_step (hw : Holds generation index entry w) (h : step env w e = some w') :
    Holds generation index entry w' := by
  have hheld : ∀ req ∈ w'.inFlight, ∀ entry', req.route? = some (generation, index, entry') →
      entry' = entry := by
    intro req hreq entry' hroute
    rcases route_step h hreq hroute with ⟨old, hold, hroute⟩ | ⟨hgeneration, hentry⟩
    · exact hw.held old hold entry' hroute
    · have hsome := hw.visible hgeneration
      rw [hentry] at hsome
      exact Option.some.inj hsome
  have hle := hw.generation_le
  rcases generation_step h with ⟨hrouter, hgeneration⟩ | hgeneration
  · exact ⟨hgeneration ▸ hle, fun heq => hrouter ▸ hw.visible (hgeneration ▸ heq), hheld⟩
  · exact ⟨by omega, fun heq => absurd heq (by omega), hheld⟩

end Routers

/-! ## Turns -/

section Turns

variable {env : Externals} {w w' : World} {e : Event} {generation index : Nat}
  {entry : RouteEntry} {origin : OriginEndpoint} {r : Option OriginEndpoint}

/-- A turn is a selection for a request that holds the entry. -/
theorem of_turnAt (hw : Holds generation index entry w)
    (hturn : w.turnAt generation index e = some r) :
    ∃ i draw, e = .select i draw ∧
      w.inFlight[i]? = some (.admitted generation index entry) ∧
      r = (w.app.selectOrigin generation index entry draw).1 := by
  unfold turnAt at hturn
  split at hturn
  · next i draw =>
    split at hturn
    · next g j entry' hi =>
      split at hturn
      · next hroute =>
        obtain ⟨rfl, rfl⟩ := hroute
        obtain rfl := hw.held _ (List.mem_of_getElem? hi) entry' rfl
        exact ⟨i, draw, rfl, hi, (Option.some.inj hturn).symm⟩
      · cases hturn
    · cases hturn
  · cases hturn

theorem counters_selectOrigin_eq (app : AppState) (generation index : Nat) (entry : RouteEntry)
    (draw : Draw) : (app.selectOrigin generation index entry draw).2.counters =
      Function.update app.counters (generation, index)
        (entry.loadBalancer.selectOrigin (app.counters (generation, index)) draw entry.candidates
          app.originStates).2 := rfl

/-- The selection stage counts a turn of its own route and no other. -/
theorem counters_selectOrigin (hrobin : entry.loadBalancer = .roundRobin)
    (hne : entry.candidates ≠ []) (hw : Holds generation index entry w) {i g j : Nat}
    {entry' : RouteEntry} (hi : w.inFlight[i]? = some (.admitted g j entry')) (draw : Draw) :
    (w.app.selectOrigin g j entry' draw).2.counters (generation, index) =
      w.app.counters (generation, index) +
        UInt64.ofNat (w.turnAt generation index (.select i draw)).toList.length := by
  simp only [turnAt, hi]
  by_cases hroute : g = generation ∧ j = index
  · obtain ⟨rfl, rfl⟩ := hroute
    obtain rfl := hw.held _ (List.mem_of_getElem? hi) entry' rfl
    rw [if_pos ⟨rfl, rfl⟩, counters_selectOrigin_eq, Function.update_self, hrobin]
    exact RoundRobinBalancer.selectOrigin_counter hne _
  · have hpair : (generation, index) ≠ (g, j) := fun heq =>
      hroute ⟨(congrArg Prod.fst heq).symm, (congrArg Prod.snd heq).symm⟩
    rw [if_neg hroute, counters_selectOrigin_eq, Function.update_of_ne hpair]
    exact (UInt64.add_zero _).symm

/-- **The counter of a route counts its turns**, whatever else happens. -/
theorem counters_step (hrobin : entry.loadBalancer = .roundRobin) (hne : entry.candidates ≠ [])
    (hw : Holds generation index entry w) (h : step env w e = some w') :
    w'.app.counters (generation, index) = w.app.counters (generation, index) +
      UInt64.ofNat (w.turnAt generation index e).toList.length := by
  have hwrite : ∀ write : Write, (w.app.apply write).counters = w.app.counters := by
    intro write
    cases write <;> rfl
  cases moves_of_step h with
  | reloadStep _ => exact (congrFun (hwrite _) _).trans (UInt64.add_zero _).symm
  | rebuildStep _ => exact (congrFun (hwrite _) _).trans (UInt64.add_zero _).symm
  | @limited i now g j entry' ip hi _ =>
    obtain ⟨global, routes, happ⟩ := w.app.checkLimits_frame entry' ip now
    rw [happ]
    exact (UInt64.add_zero _).symm
  | @admitted i now g j entry' ip hi _ =>
    obtain ⟨global, routes, happ⟩ := w.app.checkLimits_frame entry' ip now
    rw [happ]
    exact (UInt64.add_zero _).symm
  | refused hi _ => exact counters_selectOrigin hrobin hne hw hi _
  | selected hi _ => exact counters_selectOrigin hrobin hne hw hi _
  | _ => exact (UInt64.add_zero _).symm

/-- A turn at which the counter points at a healthy candidate selects it. -/
theorem turnAt_of_counter (hrobin : entry.loadBalancer = .roundRobin)
    (hw : Holds generation index entry w) (hturn : w.turnAt generation index e = some r)
    (hget : entry.candidates[(w.app.counters (generation, index)).toNat %
      entry.candidates.length]? = some origin)
    (hhealthy : OriginStates.isHealthy w.app.originStates origin.urlKey = true) :
    r = some origin := by
  obtain ⟨i, draw, -, -, rfl⟩ := of_turnAt hw hturn
  rw [AppState.selectOrigin, hrobin]
  exact RoundRobinBalancer.selectOrigin_of_turn hget hhealthy

/-- What the turns so far say: the counter has moved by one for each, and those that pointed at the
candidate have selected it. -/
structure Turns (c : UInt64) (generation index : Nat) (entry : RouteEntry)
    (origin : OriginEndpoint) (w : World) (rs : List (Option OriginEndpoint)) : Prop where
  holds : Holds generation index entry w
  counter_eq : w.app.counters (generation, index) = c + UInt64.ofNat rs.length
  own_turn : ∀ k r, rs[k]? = some r →
    entry.candidates[(c + UInt64.ofNat k).toNat % entry.candidates.length]? = some origin →
      r = some origin

theorem turns_step {c : UInt64} {rs : List (Option OriginEndpoint)}
    (hrobin : entry.loadBalancer = .roundRobin) (hne : entry.candidates ≠ [])
    (hw : Turns c generation index entry origin w rs)
    (hhealthy : (w.turnAt generation index e).isSome →
      OriginStates.isHealthy w.app.originStates origin.urlKey = true)
    (h : step env w e = some w') :
    Turns c generation index entry origin w' (rs ++ (w.turnAt generation index e).toList) where
  holds := holds_step hw.holds h
  counter_eq := by
    rw [counters_step hrobin hne hw.holds h, hw.counter_eq, List.length_append, UInt64.ofNat_add,
      UInt64.add_assoc]
  own_turn := by
    intro k r hr hget
    by_cases hk : k < rs.length
    · rw [List.getElem?_append_left hk] at hr
      exact hw.own_turn k r hr hget
    · rw [List.getElem?_append_right (not_lt.1 hk)] at hr
      cases hturn : w.turnAt generation index e with
      | none => simp [hturn] at hr
      | some last =>
        -- the turn of this step, at the counter that the turns before have left
        rw [hturn, Option.toList_some, List.getElem?_singleton] at hr
        split at hr
        · next hzero =>
          obtain rfl := Option.some.inj hr
          obtain rfl : k = rs.length := by omega
          rw [← hw.counter_eq] at hget
          exact turnAt_of_counter hrobin hw.holds hturn hget (hhealthy (hturn ▸ rfl))
        · cases hr

end Turns

/-- **No starvation.** Take a route with the round-robin balancer in the router that is visible at
some moment of a run, and a candidate of this route that is healthy whenever a selection is made for
it from then on. In any `2 * n - 1` consecutive selections for the route the candidate is selected,
whatever happens to the other candidates, in whatever order the requests come and whether or not the
counter wraps or the router is swapped out meanwhile. -/
theorem no_starvation (env : Externals) (config : ProxyConfig) (before events : List Event)
    (w last : World) (index : Nat) (entry : RouteEntry) (origin : OriginEndpoint)
    (hbefore : run (step env) (init env config) before = some w)
    (hentry : w.app.router.routes[index]? = some entry)
    (hrobin : entry.loadBalancer = .roundRobin) (horigin : origin ∈ entry.candidates)
    (hlength : entry.candidates.length ≤ 2 ^ 64) (hrun : run (step env) w events = some last)
    (hhealthy : Along (step env) (fun t e => (t.turnAt w.app.generation index e).isSome →
      OriginStates.isHealthy t.app.originStates origin.urlKey = true) w events)
    (earlier turns later : List (Option OriginEndpoint))
    (hturns : reports (step env) (turnAt w.app.generation index) w events =
      earlier ++ turns ++ later)
    (hmany : 2 * entry.candidates.length - 1 ≤ turns.length) : some origin ∈ turns := by
  have hne : entry.candidates ≠ [] := List.ne_nil_of_mem horigin
  have hstart : Turns (w.app.counters (w.app.generation, index)) w.app.generation index entry
      origin w [] :=
    ⟨(routesHeld_of_run hbefore).holds hentry, (UInt64.add_zero _).symm, by simp⟩
  have hend : Turns (w.app.counters (w.app.generation, index)) w.app.generation index entry origin
      last ([] ++ reports (step env) (turnAt w.app.generation index) w events) :=
    reports_invariant_along (fun w e w' rs hw hhealthy h => turns_step hrobin hne hw hhealthy h)
      hstart hhealthy hrun
  rw [List.nil_append, hturns] at hend
  -- the position of the candidate comes up in the window
  obtain ⟨j, hj, hget⟩ := List.getElem_of_mem horigin
  obtain ⟨k, hk, hmod⟩ := Cyclic.exists_ticket_wrapping hlength hj
    ((w.app.counters (w.app.generation, index)).toNat + earlier.length)
  have hlt : k < turns.length := by omega
  have hat : (earlier ++ turns ++ later)[earlier.length + k]? = some turns[k] := by
    rw [List.append_assoc, List.getElem?_append_right (Nat.le_add_right _ _),
      Nat.add_sub_cancel_left, List.getElem?_append_left hlt, List.getElem?_eq_getElem hlt]
  have hticket : (w.app.counters (w.app.generation, index) +
      UInt64.ofNat (earlier.length + k)).toNat % entry.candidates.length = j := by
    rw [UInt64.toNat_add, UInt64.toNat_ofNat', Nat.add_mod_mod, ← Nat.add_assoc, hmod]
  have hown := hend.own_turn _ _ hat (by rw [hticket, List.getElem?_eq_getElem hj, hget])
  exact hown ▸ List.getElem_mem hlt

/-- The minimal configuration with a second origin. -/
def pairConfig : ProxyConfig :=
  .ofRoutes [RouteConfig.minimal [Url.backend, Url.httpRoot "127.0.0.1" (some 3001)]]

/-- Of three requests in a row one goes to the second origin. -/
theorem no_starvation_pair :
    some (OriginEndpoint.ofUrl (Url.httpRoot "127.0.0.1" (some 3001)) none none) ∈
      reports (step .none) (turnAt 0 0) (init .none pairConfig)
        (List.replicate 3 (requestWith (.error .build))).flatten := by
  obtain ⟨last, hlast⟩ : ∃ w, run (step .none) (init .none pairConfig)
      (List.replicate 3 (requestWith (.error .build))).flatten = some w := ⟨_, rfl⟩
  refine no_starvation .none pairConfig [] _ (init .none pairConfig) last 0 _ _ rfl rfl rfl
    (by decide) (by decide) hlast (by decide +kernel) [] _ [] ?_ (by decide +kernel)
  rw [List.nil_append, List.append_nil]
  rfl

end World

end Upstreamer
