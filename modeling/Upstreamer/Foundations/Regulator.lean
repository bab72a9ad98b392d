import Mathlib.Algebra.Order.Field.Basic
import Mathlib.Tactic.Linarith
import Mathlib.Tactic.Ring

/-!
# Rate regulators

A regulator holds an amount that grows at `rate` up to `cap` and serves an arrival when the amount
is at least one, which then costs one. Amounts and instants are elements of a linearly ordered
field. Three facts characterise it, for arrivals at any instants:

* the recursive cap unrolls: an arrival is served exactly when it fits, together with the arrivals
  served since, into the envelope `cap + rate * length` of every window that ends with it and starts
  at an earlier arrival, and into what the starting amount allows (`verdicts_getElem_iff`);
* no window serves more than the envelope of its length (`servedIn_le_envelope`);
* arrivals that stay in the envelope are all served (`verdicts_eq_true_of_conforming`).
-/

set_option autoImplicit false

namespace Upstreamer.Foundations

universe u

/-- The amount held after the last arrival, and the instant of that arrival. -/
structure Regulator (K : Type u) where
  amount : K
  last : K

namespace Regulator

variable {K : Type u} [Field K] [LinearOrder K]

/-- The amount at the instant `t`. -/
def refilled (cap rate : K) (b : Regulator K) (t : K) : K :=
  min (b.amount + (t - b.last) * rate) cap

/-- Whether an arrival at `t` is served. -/
def serves (cap rate : K) (b : Regulator K) (t : K) : Bool :=
  decide (1 ≤ refilled cap rate b t)

/-- The regulator after an arrival at `t`. -/
def next (cap rate : K) (b : Regulator K) (t : K) : Regulator K where
  amount := if serves cap rate b t then refilled cap rate b t - 1 else refilled cap rate b t
  last := t

/-- The verdicts on arrivals at the listed instants. -/
def verdicts (cap rate : K) : Regulator K → List K → List Bool
  | _, [] => []
  | b, t :: ts => serves cap rate b t :: verdicts cap rate (next cap rate b t) ts

/-- The number of served arrivals whose instant lies in the window from `s` to `t`. -/
def servedIn (cap rate : K) (b : Regulator K) (ts : List K) (s t : K) : Nat :=
  (ts.zip (verdicts cap rate b ts)).countP fun p => decide (s ≤ p.1) && decide (p.1 ≤ t) && p.2

variable {cap rate : K}

theorem verdicts_cons (b : Regulator K) (t : K) (ts : List K) :
    verdicts cap rate b (t :: ts) =
      serves cap rate b t :: verdicts cap rate (next cap rate b t) ts := rfl

@[simp]
theorem length_verdicts (b : Regulator K) (ts : List K) :
    (verdicts cap rate b ts).length = ts.length := by
  induction ts generalizing b with
  | nil => rfl
  | cons t ts ih => rw [verdicts_cons, List.length_cons, List.length_cons, ih]

theorem refilled_le_cap (b : Regulator K) (t : K) : refilled cap rate b t ≤ cap :=
  min_le_right _ _

theorem refilled_le_amount (b : Regulator K) (t : K) :
    refilled cap rate b t ≤ b.amount + (t - b.last) * rate :=
  min_le_left _ _

/-- A regulator whose amount has had time to reach the cap is full. -/
theorem refilled_eq_cap {b : Regulator K} {t : K} (h : cap ≤ b.amount + (t - b.last) * rate) :
    refilled cap rate b t = cap :=
  min_eq_right h

/-- Refilling in two stages is refilling at once. -/
theorem refilled_later [IsStrictOrderedRing K] {b : Regulator K} {s t : K} (hrate : 0 ≤ rate)
    (hst : s ≤ t) :
    refilled cap rate b t = min (refilled cap rate b s + (t - s) * rate) cap := by
  have hgrow : cap ≤ cap + (t - s) * rate :=
    le_add_of_nonneg_right (mul_nonneg (sub_nonneg.2 hst) hrate)
  have hsum : b.amount + (s - b.last) * rate + (t - s) * rate =
      b.amount + (t - b.last) * rate := by ring
  rw [refilled, refilled, ← min_add_add_right, hsum, min_assoc, min_eq_right hgrow]

/-- What an arrival does depends on the refilled amount only. -/
theorem serves_congr {b b' : Regulator K} {t : K}
    (h : refilled cap rate b t = refilled cap rate b' t) :
    serves cap rate b t = serves cap rate b' t := by
  rw [serves, serves, h]

theorem next_congr {b b' : Regulator K} {t : K}
    (h : refilled cap rate b t = refilled cap rate b' t) :
    next cap rate b t = next cap rate b' t := by
  rw [next, next, serves_congr h, h]

@[simp]
theorem last_next (b : Regulator K) (t : K) : (next cap rate b t).last = t := rfl

/-- Serving costs one, refusing nothing. -/
theorem amount_next (b : Regulator K) (t : K) :
    (next cap rate b t).amount =
      refilled cap rate b t - ((serves cap rate b t).toNat : K) := by
  unfold next
  cases serves cap rate b t <;> simp

theorem servedIn_cons (b : Regulator K) (t' : K) (ts : List K) (s t : K) :
    servedIn cap rate b (t' :: ts) s t =
      servedIn cap rate (next cap rate b t') ts s t +
        (decide (s ≤ t') && decide (t' ≤ t) && serves cap rate b t').toNat := by
  simp only [servedIn, verdicts_cons, List.zip_cons_cons, List.countP_cons]
  cases decide (s ≤ t') && decide (t' ≤ t) && serves cap rate b t' <;> rfl

/-! ## Which arrivals are served -/

section Ordered

variable [IsStrictOrderedRing K]

/-- A bound on what the regulator can serve after an arrival, split along the minimum that the
arrival takes. -/
theorem le_next_amount_iff (b : Regulator K) (t n x : K) :
    n ≤ (next cap rate b t).amount + x ↔
      n + ((serves cap rate b t).toNat : K) ≤ cap + x ∧
        n + ((serves cap rate b t).toNat : K) ≤ b.amount + (t - b.last) * rate + x := by
  rw [amount_next, refilled, and_comm]
  constructor
  · intro h
    have h₁ := min_le_left (b.amount + (t - b.last) * rate) cap
    have h₂ := min_le_right (b.amount + (t - b.last) * rate) cap
    constructor <;> linarith
  · rintro ⟨h₁, h₂⟩
    have h : n + ((serves cap rate b t).toNat : K) - x ≤
        min (b.amount + (t - b.last) * rate) cap := le_min (by linarith) (by linarith)
    linarith

/-- **Unrolled verdicts.** The arrival at position `i` is served exactly when it fits, with the
arrivals served since, into the envelope from every arrival up to it and into what the starting
amount allows. -/
theorem verdicts_getElem_iff (b : Regulator K) (ts : List K) (i : Nat) (hi : i < ts.length) :
    (verdicts cap rate b ts)[i]? = some true ↔
      (∀ j (hj : j ≤ i), ((((verdicts cap rate b ts).take i).drop j).count true : K) + 1 ≤
        cap + (ts[i] - ts[j]) * rate) ∧
      (((verdicts cap rate b ts).take i).count true : K) + 1 ≤
        b.amount + (ts[i] - b.last) * rate := by
  induction ts generalizing b i with
  | nil => simp at hi
  | cons t ts ih =>
    cases i with
    | zero =>
      have hserve : serves cap rate b t = true ↔ 1 ≤ b.amount + (t - b.last) * rate ∧ 1 ≤ cap := by
        rw [serves, decide_eq_true_iff, refilled, le_min_iff]
      simp only [verdicts_cons, List.getElem?_cons_zero, Option.some.injEq, hserve,
        List.take_zero, List.drop_nil, List.count_nil, Nat.cast_zero, zero_add,
        List.getElem_cons_zero]
      constructor
      · rintro ⟨hamt, hcap⟩
        refine ⟨fun j hj => ?_, hamt⟩
        obtain rfl : j = 0 := Nat.le_zero.1 hj
        simpa using hcap
      · rintro ⟨hwin, hamt⟩
        exact ⟨hamt, by simpa using hwin 0 (Nat.le_refl 0)⟩
    | succ i =>
      have hi' : i < ts.length := by simpa using hi
      have hcount : ∀ l : List Bool, (((serves cap rate b t :: l).count true : Nat) : K) =
          (l.count true : K) + ((serves cap rate b t).toNat : K) := by
        intro l
        cases serves cap rate b t <;> simp
      -- the amount after the first arrival is a minimum; `le_next_amount_iff` splits the bound by
      -- it into the window that starts at the first arrival and the bound by the starting amount
      rw [verdicts_cons, List.getElem?_cons_succ, ih (next cap rate b t) i hi', last_next,
        le_next_amount_iff, List.take_succ_cons, hcount]
      constructor
      · rintro ⟨hwin, hcap, hamt⟩
        refine ⟨fun j hj => ?_, ?_⟩
        · cases j with
          | zero =>
            -- the window from the first arrival is the bound by the cap
            rw [List.drop_zero, hcount]
            simp only [List.getElem_cons_succ, List.getElem_cons_zero]
            linarith
          | succ j => simpa using hwin j (by omega)
        · simp only [List.getElem_cons_succ]
          linarith
      · rintro ⟨hwin, hamt⟩
        refine ⟨fun j hj => ?_, ?_, ?_⟩
        · simpa using hwin (j + 1) (by omega)
        · have h := hwin 0 (Nat.zero_le _)
          rw [List.drop_zero, hcount] at h
          simp only [List.getElem_cons_succ, List.getElem_cons_zero] at h
          linarith
        · simp only [List.getElem_cons_succ] at hamt
          linarith

/-- **Unrolled verdicts of a full regulator.** -/
theorem verdicts_getElem_iff_of_full {b : Regulator K} {ts : List K}
    (hb : b.amount = cap) (hlast : ∀ t ∈ ts.head?, b.last = t) (i : Nat) (hi : i < ts.length) :
    (verdicts cap rate b ts)[i]? = some true ↔
      ∀ j (hj : j ≤ i), ((((verdicts cap rate b ts).take i).drop j).count true : K) + 1 ≤
        cap + (ts[i] - ts[j]) * rate := by
  rw [verdicts_getElem_iff b ts i hi, and_iff_left_of_imp]
  intro hwin
  have h := hwin 0 (Nat.zero_le i)
  have h0 : b.last = ts[0] := hlast _ (by simp [List.head?_eq_getElem?])
  rw [List.drop_zero] at h
  rw [hb, h0]
  exact h

/-- **Conforming arrivals are served.** When every block of consecutive arrivals fits into the
envelope of its length, a regulator that starts full serves them all. -/
theorem verdicts_eq_true_of_conforming {b : Regulator K} {ts : List K}
    (hb : b.amount = cap) (hlast : ∀ t ∈ ts.head?, b.last = t)
    (hconf : ∀ i j (_ : j ≤ i) (_ : i < ts.length),
      ((i - j : Nat) : K) + 1 ≤ cap + (ts[i] - ts[j]) * rate) :
    ∀ i, i < ts.length → (verdicts cap rate b ts)[i]? = some true := by
  intro i hi
  rw [verdicts_getElem_iff_of_full hb hlast i hi]
  intro j hj
  have hlen : ((((verdicts cap rate b ts).take i).drop j).count true : K) ≤
      ((i - j : Nat) : K) := by
    have h : (((verdicts cap rate b ts).take i).drop j).count true ≤ i - j :=
      le_trans List.count_le_length (by simp [length_verdicts]; omega)
    exact_mod_cast h
  have h := hconf i j hj hi
  linarith

/-! ## Windows -/

theorem zero_le_amount_next {b : Regulator K} {t : K} (hcap : 0 ≤ cap) (hrate : 0 ≤ rate)
    (hb : 0 ≤ b.amount) (hlast : b.last ≤ t) : 0 ≤ (next cap rate b t).amount := by
  have hrefill : 0 ≤ refilled cap rate b t :=
    le_min (add_nonneg hb (mul_nonneg (sub_nonneg.2 hlast) hrate)) hcap
  rw [amount_next]
  cases h : serves cap rate b t with
  | false => simpa using hrefill
  | true =>
    have h1 : 1 ≤ refilled cap rate b t := of_decide_eq_true h
    simpa using h1

/-- What is served by the instant `t` was held at the start or refilled since. -/
theorem servedIn_le_amount {ts : List K} (hcap : 0 ≤ cap) (hrate : 0 ≤ rate) (s t : K)
    (hsorted : ts.Pairwise (· ≤ ·)) {b : Regulator K} (hb : 0 ≤ b.amount) (hbt : b.last ≤ t)
    (hfirst : ∀ t' ∈ ts, b.last ≤ t') :
    (servedIn cap rate b ts s t : K) ≤ b.amount + (t - b.last) * rate := by
  induction ts generalizing b with
  | nil => simpa [servedIn] using add_nonneg hb (mul_nonneg (sub_nonneg.2 hbt) hrate)
  | cons t' ts ih =>
    obtain ⟨hhead, hsorted⟩ := List.pairwise_cons.1 hsorted
    have hlast : b.last ≤ t' := hfirst t' List.mem_cons_self
    rw [servedIn_cons]
    by_cases ht : t' ≤ t
    · have hrest := ih hsorted (zero_le_amount_next hcap hrate hb hlast) ht hhead
      -- what this arrival leaves behind was held or refilled before it
      have hle : refilled cap rate b t' ≤ b.amount + (t' - b.last) * rate := refilled_le_amount b t'
      have hcount : ((decide (s ≤ t') && decide (t' ≤ t) && serves cap rate b t').toNat : K) ≤
          ((serves cap rate b t').toNat : K) := by
        rw [Nat.cast_le]
        exact Bool.toNat_le_toNat fun h => (Bool.and_eq_true_iff.1 h).2
      rw [amount_next, last_next] at hrest
      rw [Nat.cast_add]
      linarith
    · -- every later arrival is after `t` as well
      have hzero : servedIn cap rate (next cap rate b t') ts s t = 0 := by
        rw [servedIn, List.countP_eq_zero]
        rintro ⟨u, v⟩ hu
        have hut : t' ≤ u := hhead u (List.of_mem_zip hu).1
        have : ¬ u ≤ t := fun h => ht (hut.trans h)
        simp [this]
      simp only [hzero, ht, decide_false, Bool.and_false, Bool.false_and, Bool.toNat_false,
        Nat.cast_zero, add_zero]
      exact add_nonneg hb (mul_nonneg (sub_nonneg.2 hbt) hrate)

/-- **Envelope.** No window serves more than the cap and what its length refills. -/
theorem servedIn_le_envelope {ts : List K} (hcap : 0 ≤ cap) (hrate : 0 ≤ rate) {s t : K}
    (hst : s ≤ t) (hsorted : ts.Pairwise (· ≤ ·)) {b : Regulator K} (hb : 0 ≤ b.amount)
    (hfirst : ∀ t' ∈ ts, b.last ≤ t') :
    (servedIn cap rate b ts s t : K) ≤ cap + (t - s) * rate := by
  induction ts generalizing b with
  | nil => simpa [servedIn] using add_nonneg hcap (mul_nonneg (sub_nonneg.2 hst) hrate)
  | cons t' ts ih =>
    obtain ⟨hhead, htail⟩ := List.pairwise_cons.1 hsorted
    have hlast : b.last ≤ t' := hfirst t' List.mem_cons_self
    have hnext := zero_le_amount_next hcap hrate hb hlast
    by_cases hs : s ≤ t'
    · by_cases ht : t' ≤ t
      · -- the window starts at this arrival at the latest, when the amount is at most the cap
        have hrest := servedIn_le_amount hcap hrate s t htail hnext ht hhead
        have hle : refilled cap rate b t' ≤ cap := refilled_le_cap b t'
        have hlen : (t - t') * rate ≤ (t - s) * rate :=
          mul_le_mul_of_nonneg_right (by linarith) hrate
        rw [amount_next, last_next] at hrest
        rw [servedIn_cons, Nat.cast_add]
        simp only [hs, ht, decide_true, Bool.true_and]
        linarith
      · rw [servedIn_cons]
        simpa [ht] using ih htail hnext hhead
    · rw [servedIn_cons]
      simpa [hs] using ih htail hnext hhead

end Ordered

end Regulator

end Upstreamer.Foundations
