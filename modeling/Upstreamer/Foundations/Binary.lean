import Mathlib.Algebra.Order.Round
import Mathlib.Data.Int.Log
import Mathlib.Data.Rat.Floor
import Mathlib.Tactic.FieldSimp
import Mathlib.Tactic.GCongr
import Mathlib.Tactic.Linarith
import Mathlib.Tactic.NormNum
import Mathlib.Tactic.Positivity
import Mathlib.Tactic.Ring

/-!
# Binary floating-point numbers

A number is representable with `p` digits and least exponent `emin` when it is `m * 2 ^ e` for
integers with `|m| ≤ 2 ^ p` and `emin ≤ e`; there is no greatest exponent. `roundEven` takes a
number to a nearest representable one, and to the even one of two. What programs rely on is the
interface `IsRounding`: rounding is monotone, leaves representable numbers alone, and has a relative
error of at most `u` from the least normal number on (`isRounding_roundEven`).

Two numbers are `Close` up to `n` errors when each is at most `g ^ n` times the other. Sums,
products and quotients of close numbers are close, and rounding adds one error (`IsRounding.close`),
so the errors of a computation are counted rather than estimated.
-/

set_option autoImplicit false

namespace Upstreamer.Foundations

universe u

/-! ## The interface -/

section Interface

variable {K : Type u} [Field K] [LinearOrder K]

/-- What is relied on of a rounding: `u` bounds the relative error from `tiny` on. -/
structure IsRounding (rnd : K → K) (rep : K → Prop) (u tiny : K) : Prop where
  mono : Monotone rnd
  exact : ∀ x, rep x → rnd x = x
  rep_rnd : ∀ x, rep (rnd x)
  rep_zero : rep 0
  error : ∀ x, tiny ≤ |x| → |rnd x - x| ≤ u * |x|
  zero_lt_u : 0 < u
  u_lt_one : u < 1

/-- Each of the numbers is at most `g ^ n` times the other. -/
def Close (g : K) (n : Nat) (x y : K) : Prop := x ≤ g ^ n * y ∧ y ≤ g ^ n * x

section Close

variable {g x y z x' y' : K} {m n : Nat}

theorem Close.refl (g x : K) : Close g 0 x x := by
  simp [Close]

theorem Close.symm (h : Close g n x y) : Close g n y x := ⟨h.2, h.1⟩

variable [IsStrictOrderedRing K]

theorem Close.trans (hg : 1 ≤ g) (h : Close g m x y) (h' : Close g n y z) :
    Close g (m + n) x z := by
  have hm : 0 ≤ g ^ m := pow_nonneg (zero_le_one.trans hg) m
  have hn : 0 ≤ g ^ n := pow_nonneg (zero_le_one.trans hg) n
  constructor
  · calc x ≤ g ^ m * y := h.1
      _ ≤ g ^ m * (g ^ n * z) := by gcongr; exact h'.1
      _ = g ^ (m + n) * z := by ring
  · calc z ≤ g ^ n * y := h'.2
      _ ≤ g ^ n * (g ^ m * x) := by gcongr; exact h.2
      _ = g ^ (m + n) * x := by ring

theorem Close.mono (hg : 1 ≤ g) (hmn : m ≤ n) (hx : 0 ≤ x) (hy : 0 ≤ y) (h : Close g m x y) :
    Close g n x y := by
  have hpow : g ^ m ≤ g ^ n := pow_le_pow_right₀ hg hmn
  exact ⟨h.1.trans (mul_le_mul_of_nonneg_right hpow hy),
    h.2.trans (mul_le_mul_of_nonneg_right hpow hx)⟩

theorem Close.add (h : Close g n x y) (h' : Close g n x' y') : Close g n (x + x') (y + y') := by
  constructor
  · rw [mul_add]
    exact add_le_add h.1 h'.1
  · rw [mul_add]
    exact add_le_add h.2 h'.2

theorem Close.mul (hg : 1 ≤ g) (hx : 0 ≤ x) (hy : 0 ≤ y) (hx' : 0 ≤ x') (hy' : 0 ≤ y')
    (h : Close g m x y) (h' : Close g n x' y') : Close g (m + n) (x * x') (y * y') := by
  have hm : 0 ≤ g ^ m := pow_nonneg (zero_le_one.trans hg) m
  constructor
  · calc x * x' ≤ (g ^ m * y) * (g ^ n * y') := mul_le_mul h.1 h'.1 hx' (mul_nonneg hm hy)
      _ = g ^ (m + n) * (y * y') := by ring
  · calc y * y' ≤ (g ^ m * x) * (g ^ n * x') := mul_le_mul h.2 h'.2 hy' (mul_nonneg hm hx)
      _ = g ^ (m + n) * (x * x') := by ring

theorem Close.inv (hx : 0 < x) (hy : 0 < y) (h : Close g n x y) : Close g n x⁻¹ y⁻¹ := by
  constructor
  · rw [inv_le_iff_one_le_mul₀ hx, mul_assoc, mul_comm y⁻¹, ← mul_assoc, ← div_eq_mul_inv,
      le_div_iff₀ hy, one_mul]
    exact h.2
  · rw [inv_le_iff_one_le_mul₀ hy, mul_assoc, mul_comm x⁻¹, ← mul_assoc, ← div_eq_mul_inv,
      le_div_iff₀ hx, one_mul]
    exact h.1

theorem Close.pos (hg : 0 < g) (h : Close g n x y) (hy : 0 < y) : 0 < x :=
  pos_of_mul_pos_right (hy.trans_le h.2) (pow_nonneg hg.le n)

end Close

namespace IsRounding

variable {rnd : K → K} {rep : K → Prop} {u tiny x y : K}

theorem rnd_zero (h : IsRounding rnd rep u tiny) : rnd 0 = 0 := h.exact 0 h.rep_zero

theorem rnd_nonneg (h : IsRounding rnd rep u tiny) (hx : 0 ≤ x) : 0 ≤ rnd x :=
  h.rnd_zero.symm.trans_le (h.mono hx)

/-- Rounding does not pass a representable number. -/
theorem rnd_le (h : IsRounding rnd rep u tiny) (hy : rep y) (hxy : x ≤ y) : rnd x ≤ y :=
  (h.mono hxy).trans_eq (h.exact y hy)

theorem le_rnd (h : IsRounding rnd rep u tiny) (hy : rep y) (hyx : y ≤ x) : y ≤ rnd x :=
  (h.exact y hy).symm.trans_le (h.mono hyx)

/-- The factor by which one rounding can be off. -/
def factor (u : K) : K := (1 - u)⁻¹

variable [IsStrictOrderedRing K]

theorem one_le_factor (h : IsRounding rnd rep u tiny) : 1 ≤ factor u := by
  have hlt := h.u_lt_one
  have hpos := h.zero_lt_u
  exact (one_le_inv₀ (by linarith)).2 (by linarith)

/-- What a rounding adds is at most a `u`-th of the number. -/
theorem rnd_le_add (h : IsRounding rnd rep u tiny) (hx : x = 0 ∨ tiny ≤ x) (hnonneg : 0 ≤ x) :
    rnd x ≤ x + u * x := by
  rcases hx with rfl | hx
  · rw [h.rnd_zero, mul_zero, add_zero]
  · have herror := h.error x (hx.trans_eq (abs_of_nonneg hnonneg).symm)
    rw [abs_of_nonneg hnonneg, abs_le] at herror
    linarith

/-- **Rounding adds one error.** -/
theorem close (h : IsRounding rnd rep u tiny) (hx : x = 0 ∨ tiny ≤ x) (hnonneg : 0 ≤ x) :
    Close (factor u) 1 (rnd x) x := by
  rcases hx with rfl | hx
  · rw [h.rnd_zero]
    simp [Close]
  · have hlt := h.u_lt_one
    have hone : 0 < 1 - u := by linarith
    have herror := h.error x (hx.trans_eq (abs_of_nonneg hnonneg).symm)
    rw [abs_of_nonneg hnonneg, abs_le] at herror
    rw [Close, pow_one, factor]
    constructor
    · rw [le_inv_mul_iff₀ hone]
      have hsq : 0 ≤ u * u * x := mul_nonneg (mul_self_nonneg u) hnonneg
      nlinarith [mul_le_mul_of_nonneg_left herror.2 hone.le]
    · rw [le_inv_mul_iff₀ hone]
      linarith

/-- A number that is smaller by a `u`-th at least stays smaller when it is rounded. -/
theorem rnd_lt (h : IsRounding rnd rep u tiny) (hx : x = 0 ∨ tiny ≤ x) (hnonneg : 0 ≤ x)
    (hy : 0 < y) (hxy : x ≤ (1 - u) * y) : rnd x < y := by
  have hpos := h.zero_lt_u
  have hround := h.rnd_le_add hx hnonneg
  have hsq : 0 < u * u * y := by positivity
  have hup : (1 + u) * x ≤ (1 + u) * ((1 - u) * y) :=
    mul_le_mul_of_nonneg_left hxy (by linarith)
  linarith

end IsRounding

/-! ## Sums of numbers that are not negative -/

/-- The number is zero or at least `low`. -/
def AtLeast (low x : K) : Prop := x = 0 ∨ low ≤ x

/-- The sum of the list onto `c`, rounded at each addition. -/
def roundedSum (rnd : K → K) (c : K) (ws : List K) : K := ws.foldl (fun c w => rnd (c + w)) c

section Sums

variable {rnd : K → K} {rep : K → Prop} {u tiny low x y c c' : K} {m : Nat} {ws ws' : List K}

theorem AtLeast.nonneg (hlow : 0 < low) (hx : AtLeast low x) : 0 ≤ x :=
  hx.elim Eq.ge hlow.le.trans

theorem AtLeast.mono (htiny : tiny ≤ low) (hx : AtLeast low x) : AtLeast tiny x :=
  hx.imp_right htiny.trans

theorem AtLeast.round (h : IsRounding rnd rep u tiny) (hlow : rep low) (hx : AtLeast low x) :
    AtLeast low (rnd x) := by
  rcases hx with rfl | hx
  · exact Or.inl h.rnd_zero
  · exact Or.inr (h.le_rnd hlow hx)

theorem rep_roundedSum (h : IsRounding rnd rep u tiny) (hc : rep c) (ws : List K) :
    rep (roundedSum rnd c ws) := by
  induction ws generalizing c with
  | nil => exact hc
  | cons w ws ih => exact ih (h.rep_rnd _)

variable [IsStrictOrderedRing K]

theorem AtLeast.add (hlow : 0 < low) (hx : AtLeast low x) (hy : AtLeast low y) :
    AtLeast low (x + y) := by
  rcases hx with rfl | hx
  · rwa [zero_add]
  · exact Or.inr (hx.trans (le_add_of_nonneg_right (hy.nonneg hlow)))

theorem AtLeast.mul_natCast (hlow : 0 < low) (hx : AtLeast low x) (n : Nat) :
    AtLeast low (x * n) := by
  rcases hx with rfl | hx
  · exact Or.inl (zero_mul _)
  · rcases Nat.eq_zero_or_pos n with rfl | hpos
    · exact Or.inl (by rw [Nat.cast_zero, mul_zero])
    · have hone : (1 : K) ≤ n := by exact_mod_cast hpos
      exact Or.inr (hx.trans (le_mul_of_one_le_right (hlow.le.trans hx) hone))

theorem AtLeast.roundedSum (h : IsRounding rnd rep u tiny) (hlow : 0 < low) (hrep : rep low)
    (hws : ∀ w ∈ ws, AtLeast low w) (hc : AtLeast low c) :
    AtLeast low (Foundations.roundedSum rnd c ws) := by
  induction ws generalizing c with
  | nil => exact hc
  | cons w ws ih =>
    obtain ⟨hw, hws⟩ := List.forall_mem_cons.1 hws
    exact ih hws ((hc.add hlow hw).round h hrep)

/-- **Each addition of a sum adds one error.** -/
theorem close_roundedSum (h : IsRounding rnd rep u tiny) (hlow : 0 < low) (hrep : rep low)
    (htiny : tiny ≤ low)
    (hws : List.Forall₂ (fun w w' => AtLeast low w ∧ 0 ≤ w' ∧ Close (IsRounding.factor u) m w w')
      ws ws')
    (hc : AtLeast low c) (hc' : 0 ≤ c') (hclose : Close (IsRounding.factor u) m c c') :
    Close (IsRounding.factor u) (m + ws.length) (Foundations.roundedSum rnd c ws)
      (c' + ws'.sum) := by
  have hg := h.one_le_factor
  -- the error of the sum so far is one for each of its additions
  suffices hfold : ∀ k, Close (IsRounding.factor u) (m + k) c c' →
      Close (IsRounding.factor u) (m + k + ws.length) (Foundations.roundedSum rnd c ws)
        (c' + ws'.sum) from hfold 0 hclose
  intro k hk
  clear hclose
  induction hws generalizing c c' k with
  | nil =>
    rw [List.sum_nil, add_zero]
    exact hk
  | @cons w w' ws ws' hw _ ih =>
    obtain ⟨hw, hw', hclose⟩ := hw
    have hadd := hc.add hlow hw
    have hnext : Close (IsRounding.factor u) (m + (k + 1)) (rnd (c + w)) (c' + w') := by
      have hround := h.close (hadd.mono htiny) (hadd.nonneg hlow)
      have hsum := hk.add (hclose.mono hg (Nat.le_add_right m k) (hw.nonneg hlow) hw')
      have hboth := hround.trans hg hsum
      rwa [Nat.add_comm 1] at hboth
    have hrest := ih (hadd.round h hrep) (add_nonneg hc' hw') (k + 1) hnext
    rw [List.sum_cons, ← add_assoc, List.length_cons]
    have hlen : m + (k + 1) + ws.length = m + k + (ws.length + 1) := by omega
    rwa [hlen] at hrest

end Sums

end Interface

/-! ## Rounding to nearest, ties to even -/

namespace Binary

/-- A number with `p` digits whose last one is worth `2 ^ emin` or more. -/
def Representable (p : Nat) (emin : ℤ) (x : ℚ) : Prop :=
  ∃ m e : ℤ, |m| ≤ 2 ^ p ∧ emin ≤ e ∧ x = m * 2 ^ e

/-- The nearest integer, and the even one of two. -/
def halfEven (y : ℚ) : ℤ :=
  if Int.fract y < 1 / 2 ∨ (Int.fract y = 1 / 2 ∧ ⌊y⌋ % 2 = 0) then ⌊y⌋ else ⌊y⌋ + 1

/-- The exponent of the last digit that a number keeps. -/
def lastExponent (p : Nat) (emin : ℤ) (x : ℚ) : ℤ := max (Int.log 2 |x| + 1 - p) emin

/-- Round to nearest, ties to even. -/
def roundEven (p : Nat) (emin : ℤ) (x : ℚ) : ℚ :=
  halfEven (x / 2 ^ lastExponent p emin x) * 2 ^ lastExponent p emin x

theorem abs_sub_halfEven (y : ℚ) : |y - halfEven y| = min (Int.fract y) (1 - Int.fract y) := by
  have hfloor : y - ⌊y⌋ = Int.fract y := rfl
  have hlt := Int.fract_lt_one y
  unfold halfEven
  split
  · next h =>
    have hhalf : Int.fract y ≤ 1 / 2 := h.elim le_of_lt fun h => h.1.le
    rw [hfloor, abs_of_nonneg (Int.fract_nonneg y), min_eq_left (by linarith)]
  · next h =>
    have hhalf : 1 / 2 ≤ Int.fract y := not_lt.1 fun hlt => h (Or.inl hlt)
    have hsub : y - ((⌊y⌋ + 1 : ℤ) : ℚ) = -(1 - Int.fract y) := by
      push_cast
      linarith
    rw [hsub, abs_neg, abs_of_pos (by linarith), min_eq_right (by linarith)]

/-- No integer is nearer. -/
theorem abs_sub_halfEven_le (y : ℚ) (k : ℤ) : |y - halfEven y| ≤ |y - k| := by
  rw [abs_sub_halfEven, ← abs_sub_round_eq_min]
  exact round_le y k

theorem abs_sub_halfEven_le_half (y : ℚ) : |y - halfEven y| ≤ 1 / 2 := by
  rw [abs_sub_halfEven, ← abs_sub_round_eq_min]
  exact abs_sub_round y

section Round

variable {p : Nat} {emin : ℤ} {x y : ℚ}

/-- The scaled number has `p` digits before the point. -/
theorem abs_div_lt (p : Nat) (emin : ℤ) (x : ℚ) :
    |x / 2 ^ lastExponent p emin x| < 2 ^ p := by
  have hpos : (0 : ℚ) < 2 ^ lastExponent p emin x := zpow_pos two_pos _
  rw [abs_div, abs_of_pos hpos, div_lt_iff₀ hpos, ← zpow_natCast, ← zpow_add₀ two_ne_zero]
  have hlog : |x| < (2 : ℚ) ^ (Int.log 2 |x| + 1) := by
    exact_mod_cast Int.lt_zpow_succ_log_self (b := 2) (by decide) |x|
  refine hlog.trans_le (zpow_le_zpow_right₀ one_le_two ?_)
  have hle : Int.log 2 |x| + 1 - p ≤ lastExponent p emin x := le_max_left _ _
  omega

theorem abs_halfEven_le {n : Nat} (h : |y| < 2 ^ n) : |halfEven y| ≤ 2 ^ n := by
  have hnear := abs_sub_halfEven_le_half y
  have hlt : |(halfEven y : ℚ)| < 2 ^ n + 1 := by
    have htri := abs_sub_abs_le_abs_sub (halfEven y : ℚ) y
    rw [abs_sub_comm] at htri
    linarith
  have hcast : |halfEven y| < 2 ^ n + 1 := by exact_mod_cast hlt
  omega

theorem representable_roundEven (p : Nat) (emin : ℤ) (x : ℚ) :
    Representable p emin (roundEven p emin x) :=
  ⟨_, _, abs_halfEven_le (abs_div_lt p emin x), le_max_right _ _, rfl⟩

theorem abs_roundEven_sub (p : Nat) (emin : ℤ) (x : ℚ) :
    |x - roundEven p emin x| = |x / 2 ^ lastExponent p emin x -
      halfEven (x / 2 ^ lastExponent p emin x)| * 2 ^ lastExponent p emin x := by
  have hpos : (0 : ℚ) < 2 ^ lastExponent p emin x := zpow_pos two_pos _
  rw [← abs_of_pos hpos, ← abs_mul, abs_of_pos hpos, sub_mul, div_mul_cancel₀ _ hpos.ne']
  rfl

/-- No multiple of the last digit is nearer. -/
theorem abs_roundEven_sub_le_of_multiple (p : Nat) (emin : ℤ) (x : ℚ) (k : ℤ) :
    |x - roundEven p emin x| ≤ |x - k * 2 ^ lastExponent p emin x| := by
  have hpos : (0 : ℚ) < 2 ^ lastExponent p emin x := zpow_pos two_pos _
  have hmul : x - k * 2 ^ lastExponent p emin x =
      (x / 2 ^ lastExponent p emin x - k) * 2 ^ lastExponent p emin x := by
    rw [sub_mul, div_mul_cancel₀ _ hpos.ne']
  rw [abs_roundEven_sub, hmul, abs_mul, abs_of_pos hpos]
  exact mul_le_mul_of_nonneg_right (abs_sub_halfEven_le _ k) hpos.le

theorem roundEven_zero (p : Nat) (emin : ℤ) : roundEven p emin 0 = 0 := by
  rw [roundEven, zero_div]
  simp [halfEven]

/-- The power of two below a number, with the sign of the number, is a multiple of the last digit
that is kept when this is not the least one. -/
theorem exists_multiple_eq_power (hp : 1 ≤ p) (hx : x ≠ 0)
    (hlast : lastExponent p emin x = Int.log 2 |x| + 1 - p) :
    ∃ k : ℤ, |x - k * 2 ^ lastExponent p emin x| = |x| - 2 ^ Int.log 2 |x| := by
  have hbelow : (2 : ℚ) ^ Int.log 2 |x| ≤ |x| := by
    exact_mod_cast Int.zpow_log_le_self (b := 2) (by decide) (abs_pos.2 hx)
  have hpower : ((2 ^ (p - 1) : ℤ) : ℚ) * 2 ^ lastExponent p emin x = 2 ^ Int.log 2 |x| := by
    push_cast
    rw [← zpow_natCast, ← zpow_add₀ two_ne_zero, hlast]
    congr 1
    omega
  rcases lt_or_gt_of_ne hx with hneg | hpos
  · refine ⟨-2 ^ (p - 1), ?_⟩
    rw [Int.cast_neg, neg_mul, hpower, sub_neg_eq_add, abs_of_neg hneg] at *
    rw [abs_of_nonpos (by linarith)]
    ring
  · refine ⟨2 ^ (p - 1), ?_⟩
    rw [hpower]
    rw [abs_of_pos hpos] at hbelow ⊢
    exact abs_of_nonneg (by linarith)

/-- **No representable number is nearer.** -/
theorem abs_roundEven_sub_le (hp : 1 ≤ p) (x : ℚ) {z : ℚ} (hz : Representable p emin z) :
    |x - roundEven p emin x| ≤ |x - z| := by
  by_cases hx : x = 0
  · rw [hx, roundEven_zero, sub_self, abs_zero]
    exact abs_nonneg _
  obtain ⟨m, e, hm, he, rfl⟩ := hz
  rcases le_or_gt (lastExponent p emin x) e with hle | hlt
  · -- a multiple of the last digit
    have hmultiple : (m : ℚ) * 2 ^ e =
        ((m * 2 ^ (e - lastExponent p emin x).toNat : ℤ) : ℚ) * 2 ^ lastExponent p emin x := by
      push_cast
      rw [mul_assoc, ← zpow_natCast, Int.toNat_of_nonneg (by omega), ← zpow_add₀ two_ne_zero,
        sub_add_cancel]
    rw [hmultiple]
    exact abs_roundEven_sub_le_of_multiple p emin x _
  · -- a number with a smaller last digit is no greater than the power of two below `x`
    have hlast : lastExponent p emin x = Int.log 2 |x| + 1 - p := by
      rcases max_choice (Int.log 2 |x| + 1 - (p : ℤ)) emin with h | h
      · exact h
      · exact absurd hlt (not_lt.2 (h.trans_le he))
    have hsmall : |(m : ℚ) * 2 ^ e| ≤ 2 ^ Int.log 2 |x| := by
      have hcast : |(m : ℚ)| ≤ 2 ^ p := by exact_mod_cast hm
      have hpos : (0 : ℚ) < 2 ^ e := zpow_pos two_pos _
      rw [abs_mul, abs_of_pos hpos]
      calc |(m : ℚ)| * 2 ^ e ≤ 2 ^ p * 2 ^ e := mul_le_mul_of_nonneg_right hcast hpos.le
        _ = 2 ^ ((p : ℤ) + e) := by rw [zpow_add₀ two_ne_zero, zpow_natCast]
        _ ≤ 2 ^ Int.log 2 |x| := zpow_le_zpow_right₀ one_le_two (by omega)
    obtain ⟨k, hk⟩ := exists_multiple_eq_power hp hx hlast
    calc |x - roundEven p emin x| ≤ |x - k * 2 ^ lastExponent p emin x| :=
          abs_roundEven_sub_le_of_multiple p emin x k
      _ = |x| - 2 ^ Int.log 2 |x| := hk
      _ ≤ |x| - |(m : ℚ) * 2 ^ e| := by linarith
      _ ≤ |x - m * 2 ^ e| := abs_sub_abs_le_abs_sub _ _

/-- A nearest number keeps the order: where it falls, the two numbers lie on both sides of one
midpoint. -/
theorem monotone_roundEven (hp : 1 ≤ p) : Monotone (roundEven p emin) := by
  intro x y hxy
  rcases hxy.eq_or_lt with rfl | hlt
  · exact le_rfl
  by_contra hgt
  rw [not_le] at hgt
  have hx := abs_roundEven_sub_le hp x (representable_roundEven p emin y)
  have hy := abs_roundEven_sub_le hp y (representable_roundEven p emin x)
  rcases abs_cases (x - roundEven p emin x) with ⟨h₁, _⟩ | ⟨h₁, _⟩ <;>
  rcases abs_cases (x - roundEven p emin y) with ⟨h₂, _⟩ | ⟨h₂, _⟩ <;>
  rcases abs_cases (y - roundEven p emin y) with ⟨h₃, _⟩ | ⟨h₃, _⟩ <;>
  rcases abs_cases (y - roundEven p emin x) with ⟨h₄, _⟩ | ⟨h₄, _⟩ <;>
  linarith

theorem roundEven_of_representable (hp : 1 ≤ p) (hx : Representable p emin x) :
    roundEven p emin x = x := by
  have h := abs_roundEven_sub_le hp x hx
  rw [sub_self, abs_zero] at h
  exact (sub_eq_zero.1 (abs_nonpos_iff.1 h)).symm

/-- From the least normal number on the error is less than a `2 ^ p`-th of the number. -/
theorem abs_roundEven_sub_le_mul (hx : (2 : ℚ) ^ (emin + p - 1) ≤ |x|) :
    |roundEven p emin x - x| ≤ 2 ^ (-(p : ℤ)) * |x| := by
  have habs : 0 < |x| := (zpow_pos two_pos _).trans_le hx
  have hbelow : (2 : ℚ) ^ Int.log 2 |x| ≤ |x| := by
    exact_mod_cast Int.zpow_log_le_self (b := 2) (by decide) habs
  have hlast : lastExponent p emin x = Int.log 2 |x| + 1 - p := by
    have hlog : emin + p - 1 ≤ Int.log 2 |x| := by
      have hlt : (2 : ℚ) ^ (emin + p - 1) < 2 ^ (Int.log 2 |x| + 1) := by
        refine hx.trans_lt ?_
        exact_mod_cast Int.lt_zpow_succ_log_self (b := 2) (by decide) |x|
      have := (zpow_lt_zpow_iff_right₀ (one_lt_two (α := ℚ))).1 hlt
      omega
    exact max_eq_left (by omega)
  have hpos : (0 : ℚ) < 2 ^ lastExponent p emin x := zpow_pos two_pos _
  rw [abs_sub_comm, abs_roundEven_sub]
  calc _ ≤ 1 / 2 * (2 : ℚ) ^ lastExponent p emin x :=
        mul_le_mul_of_nonneg_right (abs_sub_halfEven_le_half _) hpos.le
    _ = 2 ^ (-(p : ℤ)) * 2 ^ Int.log 2 |x| := by
        rw [hlast, ← zpow_add₀ two_ne_zero, one_div, ← zpow_neg_one,
          ← zpow_add₀ two_ne_zero]
        congr 1
        ring
    _ ≤ 2 ^ (-(p : ℤ)) * |x| := mul_le_mul_of_nonneg_left hbelow (zpow_pos two_pos _).le

/-- **Rounding to nearest, ties to even, is a rounding.** -/
theorem isRounding_roundEven (hp : 1 ≤ p) (emin : ℤ) :
    IsRounding (roundEven p emin) (Representable p emin) (2 ^ (-(p : ℤ)))
      (2 ^ (emin + p - 1)) where
  mono := monotone_roundEven hp
  exact := fun _ hx => roundEven_of_representable hp hx
  rep_rnd := representable_roundEven p emin
  rep_zero := ⟨0, emin, by simp, le_rfl, by simp⟩
  error := fun _ hx => abs_roundEven_sub_le_mul hx
  zero_lt_u := zpow_pos two_pos _
  u_lt_one := zpow_lt_one_of_neg₀ one_lt_two (by omega)

/-- Integers of `p` digits are representable. -/
theorem representable_natCast (hemin : emin ≤ 0) {n : Nat} (hn : n ≤ 2 ^ p) :
    Representable p emin n := by
  refine ⟨n, 0, ?_, hemin, by simp⟩
  rw [Nat.abs_cast]
  exact_mod_cast hn

theorem representable_zpow {e : ℤ} (he : emin ≤ e) : Representable p emin (2 ^ e) :=
  ⟨1, e, by rw [abs_one]; exact one_le_pow₀ one_le_two, he, by simp⟩

/-- One can be subtracted exactly. -/
theorem representable_sub_one (hemin : emin ≤ 0) (hx : Representable p emin x) (hone : 1 ≤ x)
    (hle : x ≤ 2 ^ p) : Representable p emin (x - 1) := by
  obtain ⟨m, e, hm, he, rfl⟩ := hx
  have hpos : (0 : ℚ) < 2 ^ e := zpow_pos two_pos _
  rcases le_total e 0 with hneg | hnonneg
  · -- the unit is a multiple of the last digit
    have hunit : ((2 ^ (-e).toNat : ℤ) : ℚ) * 2 ^ e = 1 := by
      push_cast
      rw [← zpow_natCast, Int.toNat_of_nonneg (by omega), ← zpow_add₀ two_ne_zero, neg_add_cancel,
        zpow_zero]
    refine ⟨m - 2 ^ (-e).toNat, e, ?_, he, ?_⟩
    · have hge : (2 ^ (-e).toNat : ℤ) ≤ m := by
        have hcast : ((2 ^ (-e).toNat : ℤ) : ℚ) ≤ m :=
          le_of_mul_le_mul_right (hunit.trans_le hone) hpos
        exact_mod_cast hcast
      have hpow : (0 : ℤ) < 2 ^ (-e).toNat := by positivity
      have hm := le_of_abs_le hm
      rw [abs_of_nonneg (by omega)]
      omega
    · rw [Int.cast_sub, sub_mul, hunit]
  · -- an integer
    have hint : (m : ℚ) * 2 ^ e = ((m * 2 ^ e.toNat : ℤ) : ℚ) := by
      push_cast
      rw [← zpow_natCast, Int.toNat_of_nonneg hnonneg]
    rw [hint] at hone hle ⊢
    have hone : 1 ≤ m * 2 ^ e.toNat := by exact_mod_cast hone
    have hle : m * 2 ^ e.toNat ≤ 2 ^ p := by exact_mod_cast hle
    refine ⟨m * 2 ^ e.toNat - 1, 0, ?_, hemin, ?_⟩
    · rw [abs_of_nonneg (by omega)]
      omega
    · rw [zpow_zero, mul_one]
      push_cast
      rfl

/-- The numbers next to one are a unit in the last place away. -/
theorem atLeast_sub_one (hp : 1 ≤ p) (hx : Representable p emin x) (hone : 1 ≤ x) :
    AtLeast (2 ^ (1 - p : ℤ)) (x - 1) := by
  obtain ⟨m, e, hm, he, rfl⟩ := hx
  rcases le_or_gt (1 - p : ℤ) e with hle | hlt
  · -- a multiple of the unit
    have hpos : (0 : ℚ) < 2 ^ (1 - p : ℤ) := zpow_pos two_pos _
    have hunit : ((2 ^ (p - 1) : ℤ) : ℚ) * 2 ^ (1 - p : ℤ) = 1 := by
      push_cast
      rw [← zpow_natCast, ← zpow_add₀ two_ne_zero, Nat.cast_sub hp]
      simp
    have hscaled : (m : ℚ) * 2 ^ e =
        ((m * 2 ^ (e - (1 - p)).toNat : ℤ) : ℚ) * 2 ^ (1 - p : ℤ) := by
      push_cast
      rw [mul_assoc, ← zpow_natCast, Int.toNat_of_nonneg (by omega), ← zpow_add₀ two_ne_zero,
        sub_add_cancel]
    have hmultiple : (m : ℚ) * 2 ^ e - 1 =
        ((m * 2 ^ (e - (1 - p)).toNat - 2 ^ (p - 1) : ℤ) : ℚ) * 2 ^ (1 - p : ℤ) := by
      rw [Int.cast_sub, sub_mul, hunit, hscaled]
    have hnonneg : 0 ≤ m * 2 ^ (e - (1 - p)).toNat - 2 ^ (p - 1) := by
      have hcast : (0 : ℚ) ≤ ((m * 2 ^ (e - (1 - p)).toNat - 2 ^ (p - 1) : ℤ) : ℚ) :=
        nonneg_of_mul_nonneg_left (hmultiple ▸ sub_nonneg.2 hone) hpos
      exact_mod_cast hcast
    rw [hmultiple]
    rcases hnonneg.eq_or_lt with hzero | hlt
    · exact Or.inl (by rw [← hzero, Int.cast_zero, zero_mul])
    · have hcast : (1 : ℚ) ≤ ((m * 2 ^ (e - (1 - p)).toNat - 2 ^ (p - 1) : ℤ) : ℚ) := by
        exact_mod_cast hlt
      exact Or.inr (le_mul_of_one_le_left hpos.le hcast)
  · -- with smaller digits there is no number above one
    left
    have hcast : (m : ℚ) ≤ 2 ^ p := by exact_mod_cast le_of_abs_le hm
    have hle : (m : ℚ) * 2 ^ e ≤ 1 :=
      calc (m : ℚ) * 2 ^ e ≤ 2 ^ p * 2 ^ e :=
            mul_le_mul_of_nonneg_right hcast (zpow_pos two_pos _).le
        _ = 2 ^ ((p : ℤ) + e) := by rw [zpow_add₀ two_ne_zero, zpow_natCast]
        _ ≤ 1 := zpow_le_one_of_nonpos₀ one_le_two (by omega)
    linarith

end Round

/-! ## Double precision -/

/-- The number is a finite double-precision one, or would be with a greater exponent. -/
def IsF64 : ℚ → Prop := Representable 53 (-1074)

/-- The double-precision number next to a number. -/
def f64 : ℚ → ℚ := roundEven 53 (-1074)

theorem isRounding_f64 : IsRounding f64 IsF64 (2 ^ (-53 : ℤ)) (2 ^ (-1022 : ℤ)) :=
  isRounding_roundEven (by decide) (-1074)

/-- A bound far above the subnormal numbers, whose products with other such numbers are normal. -/
def low : ℚ := 2 ^ (-65 : ℤ)

theorem low_pos : 0 < low := zpow_pos two_pos _

theorem low_le_one : low ≤ 1 := zpow_le_one_of_nonpos₀ one_le_two (by decide)

theorem isF64_low : IsF64 low := representable_zpow (by decide)

theorem tiny_le_low : (2 : ℚ) ^ (-1022 : ℤ) ≤ low := zpow_le_zpow_right₀ one_le_two (by decide)

theorem atLeast_natCast (n : Nat) : AtLeast low (n : ℚ) := by
  rcases Nat.eq_zero_or_pos n with rfl | hpos
  · exact Or.inl Nat.cast_zero
  · exact Or.inr (low_le_one.trans (by exact_mod_cast hpos))

theorem atLeast_f64 {x : ℚ} (hx : AtLeast low x) : AtLeast low (f64 x) :=
  hx.round isRounding_f64 isF64_low

/-- The factor by which a double-precision result can be off. -/
def f64Factor : ℚ := IsRounding.factor (2 ^ (-53 : ℤ))

theorem one_le_f64Factor : 1 ≤ f64Factor := isRounding_f64.one_le_factor

theorem isF64_natCast {n : Nat} (hn : n ≤ 2 ^ 53) : IsF64 n :=
  representable_natCast (by decide) hn

theorem isF64_one : IsF64 1 := by
  have h : IsF64 ((1 : Nat) : ℚ) := isF64_natCast (by decide)
  rwa [Nat.cast_one] at h

theorem f64_natCast {n : Nat} (hn : n ≤ 2 ^ 53) : f64 n = n :=
  isRounding_f64.exact n (isF64_natCast hn)

end Binary

end Upstreamer.Foundations
