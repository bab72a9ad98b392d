import Upstreamer.Balance.RoundRobin
import Upstreamer.Foundations.Machine

/-!
# Shares of round-robin selection

Which candidate a call of `RoundRobinBalancer::select_origin` returns is decided by the value it
takes from the counter and by the candidates that are selectable. Calls run concurrently: each takes
its value with one atomic increment and then looks at one candidate at a time, while other calls and
writers go on. As long as the writers leave the set of selectable candidates as it is, what has been
returned once all calls have ended is what the same number of calls one after another return
(`returned_perm_selections`).

Over whole cycles of the counter each selectable candidate gets its own share and those of the
unselectable candidates directly before it (`selections_exact_shares`). So the shares are even
exactly when all candidates are selectable or at most one is (`selections_even_iff`).
-/

set_option autoImplicit false

namespace Upstreamer

open Foundations

namespace RoundRobinBalancer

/-- The test of the loop, for the candidate at a position. -/
def selectableAt (candidates : List OriginEndpoint) (states : OriginStates) (idx : Nat) : Bool :=
  match candidates[idx]? with
  | some origin => OriginStates.isHealthy states origin.urlKey
  | none => false

/-- The position of the candidate that `select_origin` returns, with the counter after the call. -/
def selectPosition (counter : UInt64) (candidates : List OriginEndpoint) (states : OriginStates) :
    Option Nat × UInt64 :=
  if candidates = [] then (none, counter)
  else (Cyclic.find candidates.length (selectableAt candidates states) counter.toNat, counter + 1)

/-- The positions that calls one after another return. -/
def selections (candidates : List OriginEndpoint) (states : OriginStates) :
    Nat → UInt64 → List (Option Nat)
  | 0, _ => []
  | m + 1, counter =>
      (selectPosition counter candidates states).1 ::
        selections candidates states m (selectPosition counter candidates states).2

section Positions

variable {candidates : List OriginEndpoint} {states : OriginStates}

theorem lt_of_selectableAt {idx : Nat} (h : selectableAt candidates states idx = true) :
    idx < candidates.length := by
  unfold selectableAt at h
  split at h
  · next hget => exact (List.getElem?_eq_some_iff.1 hget).1
  · cases h

theorem candidateAt_eq (startIdx i : Nat) :
    candidateAt candidates states startIdx i =
      if selectableAt candidates states ((startIdx + i) % candidates.length) then
        candidates[(startIdx + i) % candidates.length]?
      else none := by
  unfold candidateAt selectableAt
  cases hget : candidates[(startIdx + i) % candidates.length]? with
  | none => rfl
  | some origin => simp [Option.filter_some]

/-- The loop returns the candidate at the position that the search finds. -/
theorem findSome?_candidateAt (startIdx : Nat) (offsets : List Nat) :
    offsets.findSome? (candidateAt candidates states startIdx) =
      ((offsets.map fun i => (startIdx + i) % candidates.length).find?
        (selectableAt candidates states)).bind (candidates[·]?) := by
  induction offsets with
  | nil => rfl
  | cons i offsets ih =>
    rw [List.findSome?_cons, List.map_cons, List.find?_cons, candidateAt_eq]
    cases hsel : selectableAt candidates states ((startIdx + i) % candidates.length) with
    | false => simpa using ih
    | true =>
      rw [if_pos rfl, Option.bind_some, List.getElem?_eq_getElem (lt_of_selectableAt hsel)]

/-- **The selected origin is the candidate at the selected position.** -/
theorem selectOrigin_eq (counter : UInt64) (candidates : List OriginEndpoint)
    (states : OriginStates) :
    selectOrigin counter candidates states =
      ((selectPosition counter candidates states).1.bind (candidates[·]?),
        (selectPosition counter candidates states).2) := by
  unfold selectOrigin selectPosition
  by_cases hne : candidates = []
  · rw [if_pos hne, if_pos hne]
    rfl
  · rw [if_neg hne, if_neg hne]
    refine Prod.ext ?_ rfl
    rw [← Cyclic.find_mod]
    exact findSome?_candidateAt (counter.toNat % candidates.length) (List.range candidates.length)

variable {counter : UInt64}

theorem selectPosition_of_ne_nil (hne : candidates ≠ []) :
    selectPosition counter candidates states =
      (Cyclic.find candidates.length (selectableAt candidates states) counter.toNat,
        counter + 1) :=
  if_neg hne

theorem add_ofNat_succ (counter : UInt64) (t : Nat) :
    counter + UInt64.ofNat (t + 1) = counter + UInt64.ofNat t + 1 := by
  rw [UInt64.ofNat_add, UInt64.add_assoc]
  rfl

/-- The calls search from consecutive values of the counter. -/
theorem selections_eq (hne : candidates ≠ []) (m : Nat) (counter : UInt64) :
    selections candidates states m counter =
      (List.range m).map fun t => Cyclic.find candidates.length (selectableAt candidates states)
        (counter + UInt64.ofNat t).toNat := by
  induction m generalizing counter with
  | zero => rfl
  | succ m ih =>
    rw [selections, selectPosition_of_ne_nil hne, ih, List.range_succ_eq_map, List.map_cons,
      List.map_map]
    congr 1
    · simp
    · refine List.map_congr_left fun t _ => ?_
      rw [Function.comp_apply, add_ofNat_succ, UInt64.add_assoc, UInt64.add_comm 1,
        ← UInt64.add_assoc]

/-- A call more takes the next value of the counter. -/
theorem selections_succ_perm (hne : candidates ≠ []) (m : Nat) (counter : UInt64) :
    (selections candidates states (m + 1) counter).Perm
      (Cyclic.find candidates.length (selectableAt candidates states)
        (counter + UInt64.ofNat m).toNat :: selections candidates states m counter) := by
  rw [selections_eq hne, selections_eq hne, List.range_succ, List.map_append]
  exact List.perm_append_singleton _ _

end Positions

/-! ## Concurrent calls -/

/-- A call between its increment of the counter and its return. -/
structure PendingSelection where
  startIdx : Nat
  offset : Nat

/-- The balancer with the calls in progress, and what calls have returned, the latest first. -/
structure Selections where
  counter : UInt64
  states : OriginStates
  pending : List PendingSelection
  returned : List (Option Nat)

/-- The next step of some call, or a write of another task to the histories. -/
inductive SelectionEvent where
  | call
  | look (i : Nat)
  | write (states : OriginStates)

namespace Selections

/-- Before the first call. -/
def start (counter : UInt64) (states : OriginStates) : Selections where
  counter := counter
  states := states
  pending := []
  returned := []

def step (candidates : List OriginEndpoint) (s : Selections) : SelectionEvent → Option Selections
  | .call =>
      if candidates = [] then
        some { s with returned := none :: s.returned }
      else
        -- `fetch_add` is one step
        some { s with
          counter := s.counter + 1
          pending := ⟨s.counter.toNat % candidates.length, 0⟩ :: s.pending }
  | .look i =>
      match s.pending[i]? with
      | none => none
      | some call =>
          let others := s.pending.eraseIdx i
          if call.offset < candidates.length then
            let idx := (call.startIdx + call.offset) % candidates.length
            if selectableAt candidates s.states idx then
              some { s with pending := others, returned := some idx :: s.returned }
            else
              some { s with pending := { call with offset := call.offset + 1 } :: others }
          else
            some { s with pending := others, returned := none :: s.returned }
  | .write states => some { s with states := states }

/-- The event leaves the set of selectable candidates as `states` has it. -/
def KeepsSelectable (candidates : List OriginEndpoint) (states : OriginStates) :
    SelectionEvent → Prop
  | .write states' => selectableAt candidates states' = selectableAt candidates states
  | _ => True

/-- What a call in progress will return under a fixed set of selectable candidates. -/
def outcome (n : Nat) (selectable : Nat → Bool) (call : PendingSelection) : Option Nat :=
  (((List.range n).drop call.offset).map fun i => (call.startIdx + i) % n).find? selectable

/-- What calls have returned and what the calls in progress will return is, up to its order, what
the same number of calls one after another return. -/
structure Sequential (candidates : List OriginEndpoint) (states : OriginStates) (counter : UInt64)
    (s : Selections) : Prop where
  selectable_eq : selectableAt candidates s.states = selectableAt candidates states
  counter_eq : s.counter = counter + UInt64.ofNat (s.returned.length + s.pending.length)
  results : (s.returned ++
      s.pending.map (outcome candidates.length (selectableAt candidates states))).Perm
    (selections candidates states (s.returned.length + s.pending.length) counter)

variable {candidates : List OriginEndpoint} {states : OriginStates} {counter : UInt64}

theorem sequential_start : (start counter states).Sequential candidates states counter := by
  refine ⟨rfl, ?_, List.Perm.refl []⟩
  simp [start]

/-- A call that has just taken a value will return what the search from this value finds. -/
theorem outcome_new (n : Nat) (selectable : Nat → Bool) (ticket : Nat) :
    outcome n selectable ⟨ticket % n, 0⟩ = Cyclic.find n selectable ticket := by
  rw [← Cyclic.find_mod]
  rfl

/-- A look at one more candidate decides the outcome or leaves it open. -/
theorem outcome_of_lt {n : Nat} {selectable : Nat → Bool} {call : PendingSelection}
    (h : call.offset < n) :
    outcome n selectable call =
      if selectable ((call.startIdx + call.offset) % n) then
        some ((call.startIdx + call.offset) % n)
      else outcome n selectable { call with offset := call.offset + 1 } := by
  have hdrop : (List.range n).drop call.offset =
      call.offset :: (List.range n).drop (call.offset + 1) := by
    rw [List.drop_eq_getElem_cons (by simpa using h), List.getElem_range]
  rw [outcome, hdrop, List.map_cons, List.find?_cons]
  cases selectable ((call.startIdx + call.offset) % n) <;> rfl

theorem outcome_of_le {n : Nat} {selectable : Nat → Bool} {call : PendingSelection}
    (h : n ≤ call.offset) : outcome n selectable call = none := by
  rw [outcome, List.drop_eq_nil_of_le (by simpa using h)]
  rfl

/-- A call that returns its outcome leaves the results as they are. -/
theorem sequential_of_return {s : Selections} {others : List PendingSelection} {r : Option Nat}
    (hselectable : selectableAt candidates s.states = selectableAt candidates states)
    (hcounter : s.counter = counter + UInt64.ofNat (s.returned.length + (others.length + 1)))
    (hresults : (s.returned ++
        r :: others.map (outcome candidates.length (selectableAt candidates states))).Perm
      (selections candidates states (s.returned.length + (others.length + 1)) counter)) :
    Sequential candidates states counter
      { s with pending := others, returned := r :: s.returned } := by
  have hlength : (r :: s.returned).length + others.length =
      s.returned.length + (others.length + 1) := by
    rw [List.length_cons]
    omega
  refine ⟨hselectable, ?_, ?_⟩
  · rw [hlength]
    exact hcounter
  · rw [hlength]
    exact List.perm_middle.symm.trans hresults

theorem Sequential.step (hne : candidates ≠ []) {s t : Selections} {e : SelectionEvent}
    (hs : s.Sequential candidates states counter) (he : KeepsSelectable candidates states e)
    (h : step candidates s e = some t) : t.Sequential candidates states counter := by
  obtain ⟨hselectable, hcounter, hresults⟩ := hs
  cases e with
  | write states' =>
    obtain rfl := Option.some.inj h
    exact ⟨he, hcounter, hresults⟩
  | call =>
    simp only [Selections.step, if_neg hne] at h
    obtain rfl := Option.some.inj h
    have hlength : s.returned.length + (s.pending.length + 1) =
        s.returned.length + s.pending.length + 1 := rfl
    refine ⟨hselectable, ?_, ?_⟩
    · show s.counter + 1 = _
      rw [hcounter, List.length_cons, hlength, add_ofNat_succ]
    · rw [List.map_cons, outcome_new, List.length_cons, hlength]
      refine List.perm_middle.trans ((hresults.cons _).trans ?_)
      rw [hcounter]
      exact (selections_succ_perm hne _ counter).symm
  | look i =>
    simp only [Selections.step] at h
    split at h
    · cases h
    · next call hget =>
      obtain ⟨hi, rfl⟩ := List.getElem?_eq_some_iff.1 hget
      -- the call is moved to the front of those in progress
      have hperm : (s.pending[i] :: s.pending.eraseIdx i).Perm s.pending :=
        List.getElem_cons_eraseIdx_perm hi
      have hfront := (List.Perm.append_left s.returned (hperm.map (outcome candidates.length
        (selectableAt candidates states)))).trans hresults
      rw [← hperm.length_eq] at hfront hcounter
      rw [List.map_cons] at hfront
      rw [hselectable] at h
      split at h
      · next hlt =>
        rw [outcome_of_lt hlt] at hfront
        split at h
        · next hsel =>
          obtain rfl := Option.some.inj h
          rw [if_pos hsel] at hfront
          exact sequential_of_return hselectable hcounter hfront
        · next hsel =>
          obtain rfl := Option.some.inj h
          rw [if_neg hsel] at hfront
          exact ⟨hselectable, hcounter, hfront⟩
      · next hle =>
        obtain rfl := Option.some.inj h
        rw [outcome_of_le (Nat.le_of_not_lt hle)] at hfront
        exact sequential_of_return hselectable hcounter hfront

end Selections

/-- **Concurrent calls return what calls one after another return.** In every run in which the
writers leave the selectable candidates as they are, once all calls have returned. -/
theorem returned_perm_selections {candidates : List OriginEndpoint} (hne : candidates ≠ [])
    {states : OriginStates} {counter : UInt64} {events : List SelectionEvent} {last : Selections}
    (hkeep : ∀ e ∈ events, Selections.KeepsSelectable candidates states e)
    (hrun : run (Selections.step candidates) (.start counter states) events = some last)
    (hdone : last.pending = []) :
    last.returned.Perm (selections candidates states last.returned.length counter) := by
  have hthroughout := throughout_of_along
    (fun s e t (hs : s.Sequential candidates states counter)
      (he : Selections.KeepsSelectable candidates states e) h => hs.step hne he h)
    Selections.sequential_start (along_of_forall hkeep)
  have hresults := (hthroughout.last hrun).results
  rw [hdone, List.map_nil, List.append_nil] at hresults
  exact hresults

/-! ## Shares -/

section Shares

variable {candidates : List OriginEndpoint} {states : OriginStates} {counter : UInt64}

/-- A position is returned as often as it is found in the window of values of the counter. -/
theorem count_selections (hne : candidates ≠ []) (m : Nat) (r : Option Nat) :
    (selections candidates states m counter).count r =
      Nat.count (fun t => Cyclic.find candidates.length (selectableAt candidates states)
        ((counter.toNat + t) % 2 ^ 64) = r) m := by
  rw [selections_eq hne, List.count_eq_countP, List.countP_map, Nat.count]
  refine List.countP_congr fun t _ => ?_
  rw [Function.comp_apply, UInt64.toNat_add, UInt64.toNat_ofNat', Nat.add_mod_mod, beq_iff_eq,
    decide_eq_true_iff]

/-- While the counter does not wrap, its values are consecutive numbers. -/
theorem count_selections_of_le (hne : candidates ≠ []) {m : Nat}
    (hwrap : counter.toNat + m ≤ 2 ^ 64) (r : Option Nat) :
    (selections candidates states m counter).count r =
      Nat.count (fun t => Cyclic.find candidates.length (selectableAt candidates states)
        (counter.toNat + t) = r) m := by
  rw [count_selections hne, Nat.count, Nat.count]
  refine List.countP_congr fun t ht => ?_
  have ht := List.mem_range.1 ht
  rw [Nat.mod_eq_of_lt (by omega)]

/-- What calls one after another return is found for some value of the counter. -/
theorem exists_of_mem_selections (hne : candidates ≠ []) {m : Nat} {r : Option Nat}
    (h : r ∈ selections candidates states m counter) :
    ∃ ticket, Cyclic.find candidates.length (selectableAt candidates states) ticket = r := by
  rw [selections_eq hne] at h
  obtain ⟨t, -, ht⟩ := List.mem_map.1 h
  exact ⟨_, ht⟩

/-- **Exact round-robin shares.** Let `k * n` calls be made on `n` candidates, interleaved in any
way with each other and with writers that leave the selectable candidates as they are, and let the
counter not wrap. Without a selectable candidate each call returns none. Otherwise each call returns
a selectable one, and each of these is returned `k` times for itself and for each unselectable
candidate directly before it in cyclic order. -/
theorem selections_exact_shares (candidates : List OriginEndpoint) (hne : candidates ≠ [])
    (states : OriginStates) (counter : UInt64) (events : List SelectionEvent) (last : Selections)
    (k : Nat) (hkeep : ∀ e ∈ events, Selections.KeepsSelectable candidates states e)
    (hrun : run (Selections.step candidates) (.start counter states) events = some last)
    (hdone : last.pending = []) (hcalls : last.returned.length = k * candidates.length)
    (hwrap : counter.toNat + k * candidates.length ≤ 2 ^ 64) :
    ((∀ idx, selectableAt candidates states idx = false) → ∀ r ∈ last.returned, r = none) ∧
      ((∃ idx, selectableAt candidates states idx = true) →
        (∀ r ∈ last.returned, ∃ idx, r = some idx ∧ selectableAt candidates states idx = true) ∧
          ∀ idx, selectableAt candidates states idx = true →
            last.returned.count (some idx) =
              k * (1 + Cyclic.before candidates.length (selectableAt candidates states) idx)) := by
  have hperm := returned_perm_selections hne hkeep hrun hdone
  rw [hcalls] at hperm
  have hfound : ∀ r ∈ last.returned, ∃ ticket,
      Cyclic.find candidates.length (selectableAt candidates states) ticket = r :=
    fun r hr => exists_of_mem_selections hne (hperm.subset hr)
  constructor
  · intro hnone r hr
    obtain ⟨ticket, rfl⟩ := hfound r hr
    exact Cyclic.find_eq_none_iff.2 fun idx _ => hnone idx
  · rintro ⟨idx₀, hidx₀⟩
    refine ⟨fun r hr => ?_, fun idx hidx => ?_⟩
    · obtain ⟨ticket, rfl⟩ := hfound r hr
      cases hticket : Cyclic.find candidates.length (selectableAt candidates states) ticket with
      | none =>
        have hno := Cyclic.find_eq_none_iff.1 hticket idx₀ (lt_of_selectableAt hidx₀)
        rw [hno] at hidx₀
        cases hidx₀
      | some idx => exact ⟨idx, rfl, (Cyclic.of_find_eq_some hticket).2⟩
    · rw [hperm.count_eq, count_selections_of_le hne hwrap]
      exact Cyclic.count_find counter.toNat k (lt_of_selectableAt hidx) hidx

/-- Any two selectable candidates are returned equally often, up to one. -/
def EvenResults (candidates : List OriginEndpoint) (states : OriginStates)
    (results : List (Option Nat)) : Prop :=
  ∀ i j, selectableAt candidates states i = true → selectableAt candidates states j = true →
    results.count (some i) ≤ results.count (some j) + 1

def AllSelectable (candidates : List OriginEndpoint) (states : OriginStates) : Prop :=
  ∀ idx < candidates.length, selectableAt candidates states idx = true

def AtMostOneSelectable (candidates : List OriginEndpoint) (states : OriginStates) : Prop :=
  ∀ i j, selectableAt candidates states i = true → selectableAt candidates states j = true → i = j

/-- Next to an unselectable candidate there is a selectable one that gets its share. -/
theorem exists_gap {n : Nat} {p : Nat → Bool} {i k : Nat} (hi : i < n) (hpi : p i = true)
    (hk : k < n) (hpk : p k = false) :
    ∃ q < n, ∃ j, Cyclic.find n p q = some j ∧ Cyclic.find n p (q + 1) = some j := by
  have hne : Cyclic.find n p k ≠ none := by
    intro hnone
    rw [Cyclic.find_eq_none_iff.1 hnone i hi] at hpi
    cases hpi
  obtain ⟨j, hj⟩ := Option.ne_none_iff_exists'.1 hne
  obtain ⟨hpj, e, he, hmod, hskip⟩ := Cyclic.find_eq_some_iff.1 hj
  cases e with
  | zero =>
    -- the search does not end where it starts
    rw [Nat.add_zero, Nat.mod_eq_of_lt hk] at hmod
    rw [← hmod, hpk] at hpj
    cases hpj
  | succ e =>
    have hpos : 0 < n := by omega
    have hlt : (k + e) % n < n := Nat.mod_lt _ hpos
    have hnext : ((k + e) % n + 1) % n = j := by
      rw [Nat.mod_add_mod, ← hmod, Nat.add_assoc]
    refine ⟨(k + e) % n, hlt, j, ?_, ?_⟩
    · refine Cyclic.find_eq_some_iff.2 ⟨hpj, 1, by omega, hnext, fun e' he' => ?_⟩
      obtain rfl : e' = 0 := by omega
      rw [Nat.add_zero, Nat.mod_mod]
      exact hskip e (Nat.lt_succ_self e)
    · refine Cyclic.find_eq_some_iff.2 ⟨hpj, 0, hpos, hnext, fun e' he' => ?_⟩
      omega

/-- Without two selectable candidates there is nothing to compare. -/
theorem evenResults_of_atMostOne (hone : AtMostOneSelectable candidates states)
    (results : List (Option Nat)) : EvenResults candidates states results := by
  intro i j hi hj
  rw [hone i j hi hj]
  exact Nat.le_succ _

/-- With all candidates selectable the counts are those of the residues. -/
theorem evenResults_of_all (hall : AllSelectable candidates states) {m : Nat}
    (hmod : ∀ t < m, (counter.toNat + t) % 2 ^ 64 % candidates.length =
      (counter.toNat + t) % candidates.length) :
    EvenResults candidates states (selections candidates states m counter) := by
  intro i j hi hj
  have hi := lt_of_selectableAt hi
  have hj := lt_of_selectableAt hj
  have hne : candidates ≠ [] := List.ne_nil_of_length_pos (by omega)
  have hcount : ∀ idx, (selections candidates states m counter).count (some idx) =
      Nat.count (fun t => (counter.toNat + t) % candidates.length = idx) m := by
    intro idx
    rw [count_selections hne, Nat.count, Nat.count]
    refine List.countP_congr fun t ht => ?_
    rw [Cyclic.find_of_forall (List.length_pos_iff.2 hne) hall, hmod t (List.mem_range.1 ht)]
    simp only [Option.some.injEq]
  rw [hcount, hcount]
  exact Cyclic.count_mod_le_succ counter.toNat m hi hj

/-- An unselectable candidate makes two calls in a row return its successor. -/
theorem all_of_even (hlength : candidates.length < 2 ^ 64)
    (heven : ∀ (counter : UInt64) (m : Nat), counter.toNat + m ≤ 2 ^ 64 →
      EvenResults candidates states (selections candidates states m counter))
    {i i' : Nat} (hi : selectableAt candidates states i = true)
    (hi' : selectableAt candidates states i' = true) (hne : i ≠ i') :
    AllSelectable candidates states := by
  intro k hk
  by_contra hpk
  have hcandidates : candidates ≠ [] := List.ne_nil_of_length_pos (by omega)
  obtain ⟨q, hq, j, hfind, hfind'⟩ :=
    exists_gap (lt_of_selectableAt hi) hi hk (Bool.eq_false_iff.2 hpk)
  -- one of the two selectable candidates is another one than the successor
  obtain ⟨other, hother, hotherne⟩ :
      ∃ other, selectableAt candidates states other = true ∧ j ≠ other := by
    by_cases hji : j = i
    · exact ⟨i', hi', hji.symm ▸ hne⟩
    · exact ⟨i, hi, hji⟩
  have hcounter : (UInt64.ofNat q).toNat = q := by
    rw [UInt64.toNat_ofNat']
    exact Nat.mod_eq_of_lt (by omega)
  have hwrap : (UInt64.ofNat q).toNat + 2 ≤ 2 ^ 64 := by
    rw [hcounter]
    omega
  have h := heven (UInt64.ofNat q) 2 hwrap j other (Cyclic.of_find_eq_some hfind).2 hother
  rw [count_selections_of_le hcandidates hwrap, count_selections_of_le hcandidates hwrap,
    hcounter] at h
  simp [Nat.count_succ, hfind, hfind', hotherne] at h

/-- When the counter wraps in the middle of a cycle, the residue before the wrap is taken up again
before the cycle has been through. -/
theorem dvd_of_even (hlength : candidates.length < 2 ^ 64)
    (heven : ∀ (counter : UInt64) (m : Nat),
      EvenResults candidates states (selections candidates states m counter))
    (hall : AllSelectable candidates states) (htwo : 2 ≤ candidates.length) :
    candidates.length ∣ 2 ^ 64 := by
  by_contra hdvd
  have hcandidates : candidates ≠ [] := List.ne_nil_of_length_pos (by omega)
  have hpos : 0 < candidates.length := by omega
  have hr : 0 < 2 ^ 64 % candidates.length := Nat.pos_of_ne_zero fun h =>
    hdvd (Nat.dvd_of_mod_eq_zero h)
  have hlt : 2 ^ 64 % candidates.length < candidates.length := Nat.mod_lt _ hpos
  have hdiv := Nat.mod_add_div (2 ^ 64) candidates.length
  generalize 2 ^ 64 % candidates.length = r at hr hlt hdiv
  have hlast : (2 ^ 64 - 1) % candidates.length = r - 1 := by
    have hsum : 2 ^ 64 - 1 = r - 1 + candidates.length * (2 ^ 64 / candidates.length) := by omega
    rw [hsum, Nat.add_mul_mod_self_left, Nat.mod_eq_of_lt (by omega)]
  have hcounter : (UInt64.ofNat (2 ^ 64 - 1)).toNat = 2 ^ 64 - 1 := by decide
  -- the residues of `r + 1` values from the last one before the wrap
  have hresidue : ∀ t ≤ r, (2 ^ 64 - 1 + t) % 2 ^ 64 % candidates.length =
      if t = 0 then r - 1 else t - 1 := by
    intro t ht
    split
    · next hzero =>
      have hself : (2 ^ 64 - 1) % 2 ^ 64 = 2 ^ 64 - 1 := by decide
      rw [hzero, Nat.add_zero, hself, hlast]
    · next hzero =>
      have hsum : 2 ^ 64 - 1 + t = t - 1 + 2 ^ 64 := by omega
      rw [hsum, Nat.add_mod_right, Nat.mod_eq_of_lt (by omega), Nat.mod_eq_of_lt (by omega)]
  have hcount : ∀ idx, (selections candidates states (r + 1) (UInt64.ofNat (2 ^ 64 - 1))).count
      (some idx) = Nat.count (fun t => (if t = 0 then r - 1 else t - 1) = idx) (r + 1) := by
    intro idx
    rw [count_selections hcandidates, hcounter, Nat.count, Nat.count]
    refine List.countP_congr fun t ht => ?_
    rw [Cyclic.find_of_forall hpos hall, hresidue t (Nat.lt_succ_iff.1 (List.mem_range.1 ht))]
    simp only [Option.some.injEq]
  have h := heven (UInt64.ofNat (2 ^ 64 - 1)) (r + 1) (r - 1) r (hall _ (by omega)) (hall r hlt)
  rw [hcount, hcount] at h
  have hnone : Nat.count (fun t => (if t = 0 then r - 1 else t - 1) = r) (r + 1) = 0 := by
    refine Nat.count_iff_forall_not.2 fun t ht => ?_
    split <;> omega
  have htwice : 2 ≤ Nat.count (fun t => (if t = 0 then r - 1 else t - 1) = r - 1) (r + 1) := by
    have hfirst : Nat.count (fun t => (if t = 0 then r - 1 else t - 1) = r - 1) r ≠ 0 :=
      Nat.count_ne_iff_exists.2 ⟨0, hr, by simp⟩
    rw [Nat.count_succ, if_pos (by rw [if_neg hr.ne'])]
    omega
  omega

/-- **When round-robin is even.** As long as the counter does not wrap, any two selectable
candidates are returned equally often up to one exactly when at most one candidate is selectable or
all are; over all windows of the counter, when at most one is, or all are and their number divides
the number of its values. -/
theorem selections_even_iff (candidates : List OriginEndpoint) (states : OriginStates)
    (hlength : candidates.length < 2 ^ 64) :
    ((∀ (counter : UInt64) (m : Nat), counter.toNat + m ≤ 2 ^ 64 →
        EvenResults candidates states (selections candidates states m counter)) ↔
      AtMostOneSelectable candidates states ∨ AllSelectable candidates states) ∧
    ((∀ (counter : UInt64) (m : Nat),
        EvenResults candidates states (selections candidates states m counter)) ↔
      AtMostOneSelectable candidates states ∨
        AllSelectable candidates states ∧ candidates.length ∣ 2 ^ 64) := by
  have hdistinct : ¬ AtMostOneSelectable candidates states →
      ∃ i i', selectableAt candidates states i = true ∧
        selectableAt candidates states i' = true ∧ i ≠ i' := by
    intro h
    unfold AtMostOneSelectable at h
    push Not at h
    exact h
  refine ⟨⟨fun heven => ?_, ?_⟩, ⟨fun heven => ?_, ?_⟩⟩
  · by_cases hone : AtMostOneSelectable candidates states
    · exact Or.inl hone
    · obtain ⟨i, i', hi, hi', hne⟩ := hdistinct hone
      exact Or.inr (all_of_even hlength heven hi hi' hne)
  · rintro (hone | hall) counter m hwrap
    · exact evenResults_of_atMostOne hone _
    · refine evenResults_of_all hall fun t ht => ?_
      have hlt : counter.toNat + t < 2 ^ 64 := by omega
      rw [Nat.mod_eq_of_lt hlt]
  · by_cases hone : AtMostOneSelectable candidates states
    · exact Or.inl hone
    · obtain ⟨i, i', hi, hi', hne⟩ := hdistinct hone
      have hall := all_of_even hlength (fun counter m _ => heven counter m) hi hi' hne
      have hi := lt_of_selectableAt hi
      have hi' := lt_of_selectableAt hi'
      exact Or.inr ⟨hall, dvd_of_even hlength heven hall (by omega)⟩
  · rintro (hone | ⟨hall, hdvd⟩) counter m
    · exact evenResults_of_atMostOne hone _
    · exact evenResults_of_all hall fun t _ => Nat.mod_mod_of_dvd _ hdvd

end Shares

/-! ## Three replicas, one of them down -/

/-- The first `n` ports of a host from 3000 on. -/
def replicas (n : Nat) : List OriginEndpoint :=
  (List.range n).map fun i =>
    .ofUrl (.httpRoot "127.0.0.1" (some (3000 + UInt16.ofNat i))) none none

/-- A new history for each replica. -/
def replicasUp (n : Nat) : OriginStates :=
  Dict.orInsertAll ((replicas n).map OriginEndpoint.urlKey) OriginState.new ∅

/-- The second replica is marked unhealthy. -/
def secondDown (n : Nat) : OriginStates :=
  (replicasUp n).insert "http://127.0.0.1:3001/" { OriginState.new with healthy := false }

/-- Three calls that overlap: the one that finds the second replica down goes on to the third. -/
theorem selections_exact_shares_replicas :
    [some 2, some 2, some 0].count (some 2) =
      1 * (1 + Cyclic.before 3 (selectableAt (replicas 3) (secondDown 3)) 2) := by
  have h := selections_exact_shares (replicas 3) (by decide) (secondDown 3) 0
    [.call, .call, .look 1, .look 0, .call, .look 0, .look 0] ⟨3, secondDown 3, [], _⟩ 1
    (by simp [Selections.KeepsSelectable]) rfl rfl rfl (by decide)
  exact (h.2 ⟨0, by decide⟩).2 2 (by decide)

/-- Two replicas that are up are returned in turn, here while the counter wraps. -/
theorem selections_even_pair :
    EvenResults (replicas 2) (replicasUp 2)
      (selections (replicas 2) (replicasUp 2) 5 (UInt64.ofNat (2 ^ 64 - 1))) := by
  refine (selections_even_iff (replicas 2) (replicasUp 2) (by decide)).2.2 (Or.inr ⟨?_, ?_⟩) _ 5
  · unfold AllSelectable
    decide
  · exact ⟨2 ^ 63, by decide⟩

/-- **The share of a failed replica goes to its successor.** After six calls the third replica has
been returned four times and the first one twice. -/
theorem selections_not_even :
    (∀ origin ∈ replicas 3, origin.urlKey ∈ secondDown 3) ∧
      selections (replicas 3) (secondDown 3) 6 0 =
        [some 0, some 2, some 2, some 0, some 2, some 2] ∧
      ¬ EvenResults (replicas 3) (secondDown 3) (selections (replicas 3) (secondDown 3) 6 0) := by
  refine ⟨by decide, by decide, fun h => ?_⟩
  have hcount := h 2 0 (by decide) (by decide)
  revert hcount
  decide

end RoundRobinBalancer

end Upstreamer
