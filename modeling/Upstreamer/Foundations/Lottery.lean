import Mathlib.Algebra.BigOperators.Group.List.Basic
import Mathlib.Algebra.Order.Field.Basic
import Mathlib.Algebra.Order.BigOperators.Group.List
import Mathlib.Algebra.BigOperators.Ring.List
import Mathlib.Tactic.Linarith

/-!
# Lotteries

A lottery lays the weights of its entries end to end, and a number picks the entry into whose part
it falls. The picks of a lottery do not change when all weights are multiplied by one factor
(`pick_mul`), and otherwise they determine the weights: two lotteries with the same sum that pick
the same entry for each number have the same weights (`weights_eq_of_pick_eq`). This holds for the
entries themselves, and not only for their positions, so it does not matter whether an entry is
listed more than once.
-/

set_option autoImplicit false

namespace Upstreamer.Foundations

universe u v

variable {α : Type u} {K : Type v} [Field K] [LinearOrder K]

/-- The entry into whose part the number `r` falls, with the first part starting at `c`. -/
def pick (f : α → K) (r : K) : K → List α → Option α
  | _, [] => none
  | c, x :: xs => if r < c + f x then some x else pick f r (c + f x) xs

theorem pick_cons_of_le {f : α → K} {r c : K} {x : α} (h : c + f x ≤ r) (xs : List α) :
    pick f r c (x :: xs) = pick f r (c + f x) xs :=
  if_neg (not_lt.2 h)

theorem pick_cons_of_lt {f : α → K} {r c : K} {x : α} (h : r < c + f x) (xs : List α) :
    pick f r c (x :: xs) = some x :=
  if_pos h

section Ordered

variable [IsStrictOrderedRing K] {f g : α → K} {l : List α}

/-- **One factor changes nothing.** -/
theorem pick_mul {k : K} (hk : 0 < k) (f : α → K) (r c : K) (l : List α) :
    pick (fun x => k * f x) (k * r) (k * c) l = pick f r c l := by
  induction l generalizing c with
  | nil => rfl
  | cons x xs ih =>
    simp only [pick, ← mul_add, mul_lt_mul_iff_right₀ hk, ih]

/-- A lottery that lags behind another one after an entry to which it gives less picks another entry
for some number. -/
theorem false_of_lag {v : α} (hf : ∀ x, 0 ≤ f x) (hg : ∀ x, 0 ≤ g x)
    (hsupport : ∀ x ∈ l, f x = 0 ↔ g x = 0) (hv : f v < g v) {a a' : K} (hlag : a < a')
    (hend : a + (l.map f).sum = a' + (l.map g).sum)
    (hpick : ∀ r, a ≤ r → r < a + (l.map f).sum →
      pick f r a l = if r < a' then some v else pick g r a' l) : False := by
  -- by induction on the entries that are left, with the lag kept up
  induction l generalizing a a' with
  | nil =>
    rw [List.map_nil, List.map_nil, List.sum_nil, add_zero, add_zero] at hend
    exact hlag.ne hend
  | cons x xs ih =>
    rw [List.map_cons, List.map_cons, List.sum_cons, List.sum_cons, ← add_assoc,
      ← add_assoc] at hend
    have hsupport' : ∀ y ∈ xs, f y = 0 ↔ g y = 0 := fun y hy =>
      hsupport y (List.mem_cons_of_mem x hy)
    have hrest : 0 ≤ (xs.map f).sum := List.sum_nonneg fun w hw => by
      obtain ⟨y, -, rfl⟩ := List.mem_map.1 hw
      exact hf y
    by_cases hzero : f x = 0
    · -- an entry without weight is passed over by both
      have hzero' := (hsupport x List.mem_cons_self).1 hzero
      rw [hzero, hzero', add_zero, add_zero] at hend
      refine ih hsupport' hlag hend fun r hlow hhigh => ?_
      have h := hpick r hlow (by rwa [List.map_cons, List.sum_cons, hzero, zero_add])
      rw [pick_cons_of_le (by rwa [hzero, add_zero]), hzero, add_zero] at h
      rw [h]
      split
      · rfl
      · next hlt =>
        rw [pick_cons_of_le (by rw [hzero', add_zero]; exact not_lt.1 hlt), hzero', add_zero]
    · have hpos : 0 < f x := lt_of_le_of_ne (hf x) (Ne.symm hzero)
      -- where the part of the entry begins, the other lottery still picks `v`
      have hfirst := hpick a le_rfl (by
        rw [List.map_cons, List.sum_cons]
        linarith)
      rw [pick_cons_of_lt (by linarith), if_pos hlag] at hfirst
      obtain rfl : x = v := Option.some.inj hfirst
      refine ih hsupport' (by linarith) hend fun r hlow hhigh => ?_
      have h := hpick r (by linarith) (by rwa [List.map_cons, List.sum_cons, ← add_assoc])
      rw [pick_cons_of_le hlow] at h
      rw [h]
      have hge := hg x
      by_cases hlt : r < a'
      · rw [if_pos hlt, if_pos (by linarith)]
      · rw [if_neg hlt, pick]

/-- **The picks determine the weights.** -/
theorem weights_eq_of_pick_eq (hf : ∀ x, 0 ≤ f x) (hg : ∀ x, 0 ≤ g x)
    (hsupport : ∀ x ∈ l, f x = 0 ↔ g x = 0) (hsum : (l.map f).sum = (l.map g).sum) {c : K}
    (hpick : ∀ r, c ≤ r → r < c + (l.map f).sum → pick f r c l = pick g r c l) :
    ∀ x ∈ l, f x = g x := by
  induction l generalizing c with
  | nil => nofun
  | cons x xs ih =>
    rw [List.map_cons, List.map_cons, List.sum_cons, List.sum_cons] at hsum
    have hsupport' : ∀ y ∈ xs, f y = 0 ↔ g y = 0 := fun y hy =>
      hsupport y (List.mem_cons_of_mem x hy)
    have hend : c + f x + (xs.map f).sum = c + g x + (xs.map g).sum := by
      rw [add_assoc, add_assoc, hsum]
    -- past the part of the first entry the picks are those among the others
    have hrest : ∀ r, c ≤ r → r < c + f x + (xs.map f).sum →
        (if r < c + f x then some x else pick f r (c + f x) xs) =
          if r < c + g x then some x else pick g r (c + g x) xs := by
      intro r hlow hhigh
      exact hpick r hlow (by rwa [List.map_cons, List.sum_cons, ← add_assoc])
    rcases lt_trichotomy (f x) (g x) with hlt | heq | hgt
    · refine (false_of_lag hf hg hsupport' hlt (add_lt_add_right hlt c) hend
        fun r hlow hhigh => ?_).elim
      have h := hrest r (by linarith [hf x]) hhigh
      rwa [if_neg (not_lt.2 hlow)] at h
    · rw [heq] at hend hrest
      refine List.forall_mem_cons.2 ⟨heq, ih hsupport' (add_left_cancel hend) (c := c + g x)
        fun r hlow hhigh => ?_⟩
      have h := hrest r (by linarith [hg x]) hhigh
      rwa [if_neg (not_lt.2 hlow), if_neg (not_lt.2 hlow)] at h
    · refine (false_of_lag hg hf (fun y hy => (hsupport' y hy).symm) hgt (add_lt_add_right hgt c)
        hend.symm fun r hlow hhigh => ?_).elim
      have h := hrest r (by linarith [hg x]) (hend ▸ hhigh)
      rw [if_neg (not_lt.2 hlow)] at h
      exact h.symm

end Ordered

end Upstreamer.Foundations
