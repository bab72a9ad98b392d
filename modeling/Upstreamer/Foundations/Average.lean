import Mathlib.Data.List.Forall2
import Mathlib.Logic.Function.Iterate
import Mathlib.Order.Monotone.Basic

/-!
# Truncated exponential averages

An exponential average in whole numbers: a new sample counts once, the average so far `k` times,
and the quotient is truncated. A step moves the average towards the sample (`min_le_average`,
`average_le_max`) and is monotone in both (`average_mono`). It leaves the average where it is
exactly when that lies in the `k + 1` numbers up to the sample (`average_eq_self_iff`), and
repeating a sample leads there from everywhere (`exists_resting`).

From zero the distance to a repeated sample shrinks by the part `1 / (k + 1)`, rounded up, with each
repetition (`averages_replicate`). So two averages that started at zero compare as their samples do
when the smaller samples are not more, or when the larger ones have come to rest
(`averages_le_averages`), and when neither is the case, equal samples already compare the other way
(`averages_replicate_lt`).
-/

set_option autoImplicit false

namespace Upstreamer.Foundations

/-- The average after one more sample. -/
def average (k old sample : Nat) : Nat := (sample + k * old) / (k + 1)

/-- The average after the samples. -/
def averages (k old : Nat) (samples : List Nat) : Nat := samples.foldl (average k) old

section Step

variable {k old old' s s' : Nat}

theorem le_average_iff {a : Nat} : a ≤ average k old s ↔ a * (k + 1) ≤ s + k * old :=
  Nat.le_div_iff_mul_le (Nat.succ_pos k)

theorem average_lt_iff {a : Nat} : average k old s < a ↔ s + k * old < a * (k + 1) :=
  Nat.div_lt_iff_lt_mul (Nat.succ_pos k)

theorem average_mono (hold : old ≤ old') (hs : s ≤ s') : average k old s ≤ average k old' s' :=
  Nat.div_le_div_right (Nat.add_le_add hs (Nat.mul_le_mul_left k hold))

theorem le_average {a : Nat} (hold : a ≤ old) (hs : a ≤ s) : a ≤ average k old s := by
  rw [le_average_iff, Nat.mul_succ, Nat.mul_comm, Nat.add_comm]
  exact Nat.add_le_add hs (Nat.mul_le_mul_left k hold)

theorem average_le {a : Nat} (hold : old ≤ a) (hs : s ≤ a) : average k old s ≤ a := by
  rw [← Nat.lt_succ_iff, average_lt_iff, Nat.succ_mul, Nat.mul_succ, Nat.mul_comm a k]
  have hmul := Nat.mul_le_mul_left k hold
  omega

/-- A step does not leave the interval between the average and the sample. -/
theorem min_le_average (k old s : Nat) : min old s ≤ average k old s :=
  le_average (Nat.min_le_left old s) (Nat.min_le_right old s)

theorem average_le_max (k old s : Nat) : average k old s ≤ max old s :=
  average_le (Nat.le_max_left old s) (Nat.le_max_right old s)

/-- **Where a step rests.** -/
theorem average_eq_self_iff : average k old s = old ↔ old ≤ s ∧ s ≤ old + k := by
  rw [Nat.eq_iff_le_and_ge, ← Nat.lt_succ_iff, average_lt_iff, le_average_iff, Nat.succ_mul,
    Nat.mul_succ, Nat.mul_comm old k]
  omega

end Step

section Runs

variable {k old n : Nat} {xs ys : List Nat}

theorem averages_cons (s : Nat) : averages k old (s :: xs) = averages k (average k old s) xs := rfl

theorem averages_append : averages k old (xs ++ ys) = averages k (averages k old xs) ys :=
  List.foldl_append

theorem averages_le {a : Nat} (hold : old ≤ a) (h : ∀ s ∈ xs, s ≤ a) : averages k old xs ≤ a := by
  induction xs generalizing old with
  | nil => exact hold
  | cons s xs ih =>
    obtain ⟨hs, hxs⟩ := List.forall_mem_cons.1 h
    exact ih (average_le hold hs) hxs

theorem averages_mono {old' : Nat} (hold : old ≤ old') (h : List.Forall₂ (· ≤ ·) xs ys) :
    averages k old xs ≤ averages k old' ys := by
  induction h generalizing old old' with
  | nil => exact hold
  | cons hs _ ih => exact ih (average_mono hold hs)

end Runs

/-! ## Repeating one sample -/

section Repeat

variable {k old s n : Nat}

theorem averages_replicate_succ (k old s n : Nat) :
    averages k old (List.replicate (n + 1) s) =
      average k (averages k old (List.replicate n s)) s := by
  rw [List.replicate_succ', averages_append]
  rfl

/-- Once the average rests, it stays. -/
theorem averages_replicate_of_resting (h : average k old s = old) (n : Nat) :
    averages k old (List.replicate n s) = old := by
  induction n with
  | zero => rfl
  | succ n ih => rw [averages_replicate_succ, ih, h]

/-- **Repeating a sample brings the average to rest**, on the sample or at most `k` below it. -/
theorem exists_resting (k old s : Nat) :
    ∃ n, averages k old (List.replicate n s) ≤ s ∧
      s ≤ averages k old (List.replicate n s) + k := by
  -- on the distance to the sample, which shrinks as long as the average moves
  induction hd : old - s + (s - old) using Nat.strong_induction_on generalizing old with
  | _ d ih =>
    by_cases hrest : average k old s = old
    · exact ⟨0, average_eq_self_iff.1 hrest⟩
    · have hlow := min_le_average k old s
      have hhigh := average_le_max k old s
      obtain ⟨n, hn⟩ := ih _ (by omega) (average k old s) rfl
      exact ⟨n + 1, hn⟩

/-- What is left of a distance after one more repetition. -/
def shrink (k e : Nat) : Nat := (k * e + k) / (k + 1)

theorem shrink_le (k e : Nat) : shrink k e ≤ e := by
  rw [shrink, ← Nat.lt_succ_iff, Nat.div_lt_iff_lt_mul (Nat.succ_pos k), Nat.succ_mul,
    Nat.mul_succ, Nat.mul_comm e k]
  omega

theorem iterate_shrink_le (k n e : Nat) : (shrink k)^[n] e ≤ e := by
  induction n with
  | zero => exact le_rfl
  | succ n ih =>
    rw [Function.iterate_succ_apply']
    exact (shrink_le k _).trans ih

/-- A step towards the sample shrinks the distance. -/
theorem average_sub {e : Nat} (h : e ≤ s) : average k (s - e) s = s - shrink k e := by
  obtain ⟨d, rfl⟩ := Nat.exists_eq_add_of_le h
  obtain ⟨q, hq⟩ := Nat.exists_eq_add_of_le (shrink_le k e)
  -- the shrunk distance is the quotient, rounded up, of `k * e` by `k + 1`
  have hlow : shrink k e * (k + 1) ≤ k * e + k := Nat.div_mul_le_self _ _
  have hhigh : k * e + k < (shrink k e + 1) * (k + 1) :=
    (Nat.div_lt_iff_lt_mul (Nat.succ_pos k)).1 (Nat.lt_succ_self _)
  have hsub : e + d - shrink k e = q + d := by omega
  have hmul : k * e = k * shrink k e + k * q := by rw [← Nat.mul_add, ← hq]
  rw [Nat.mul_succ, Nat.mul_comm] at hlow
  rw [Nat.succ_mul, Nat.mul_succ, Nat.mul_comm _ k] at hhigh
  have hpart : k * (q + d) = k * q + k * d := Nat.mul_add k q d
  rw [Nat.add_sub_cancel_left, hsub, Nat.eq_iff_le_and_ge, ← Nat.lt_succ_iff, average_lt_iff,
    le_average_iff, Nat.succ_mul, Nat.mul_succ, Nat.mul_comm _ k]
  omega

/-- **The average of a repeated sample.** -/
theorem averages_replicate (k s n : Nat) :
    averages k 0 (List.replicate n s) = s - (shrink k)^[n] s := by
  induction n with
  | zero => exact (Nat.sub_self s).symm
  | succ n ih =>
    rw [averages_replicate_succ, ih, average_sub (iterate_shrink_le k n s),
      Function.iterate_succ_apply']

theorem averages_replicate_le_succ (k s n : Nat) :
    averages k 0 (List.replicate n s) ≤ averages k 0 (List.replicate (n + 1) s) := by
  have hle : averages k 0 (List.replicate n s) ≤ s :=
    averages_le (Nat.zero_le s) fun x hx => (List.eq_of_mem_replicate hx).le
  rw [averages_replicate_succ]
  exact le_average le_rfl hle

theorem averages_replicate_mono (k s : Nat) :
    Monotone fun n => averages k 0 (List.replicate n s) :=
  monotone_nat_of_le_succ (averages_replicate_le_succ k s)

/-- What is left of the distance says whether the average rests. -/
theorem average_replicate_eq_self_iff :
    average k (averages k 0 (List.replicate n s)) s = averages k 0 (List.replicate n s) ↔
      (shrink k)^[n] s ≤ k := by
  have hle := iterate_shrink_le k n s
  rw [average_eq_self_iff, averages_replicate]
  omega

/-- **When averages that started at zero compare as their samples do**: the smaller samples are not
more, or the larger ones have come to rest. -/
theorem averages_le_averages {xs ys : List Nat} (hxs : ∀ x ∈ xs, x ≤ s) (hys : ∀ y ∈ ys, s ≤ y)
    (h : xs.length ≤ ys.length ∨ (shrink k)^[ys.length] s ≤ k) :
    averages k 0 xs ≤ averages k 0 ys := by
  -- both are compared with as many repetitions of the latency between them
  have hbelow : averages k 0 xs ≤ averages k 0 (List.replicate xs.length s) := by
    refine averages_mono le_rfl (List.forall₂_iff_get.2 ⟨by simp, fun i hi _ => ?_⟩)
    simpa using hxs _ (List.getElem_mem hi)
  have habove : averages k 0 (List.replicate ys.length s) ≤ averages k 0 ys := by
    refine averages_mono le_rfl (List.forall₂_iff_get.2 ⟨by simp, fun i _ hi => ?_⟩)
    simpa using hys _ (List.getElem_mem hi)
  refine hbelow.trans (le_trans ?_ habove)
  rcases Nat.le_total xs.length ys.length with hlen | hlen
  · exact averages_replicate_mono k s hlen
  · -- the repetitions that the first has more change nothing at rest
    rcases h with h | h
    · exact averages_replicate_mono k s h
    · obtain ⟨d, hd⟩ := Nat.exists_eq_add_of_le hlen
      rw [hd, List.replicate_add, averages_append,
        averages_replicate_of_resting (average_replicate_eq_self_iff.2 h)]

/-- More repetitions of one sample give a larger average as long as the shorter run moves. -/
theorem averages_replicate_lt {m : Nat} (hlen : n < m) (h : k < (shrink k)^[n] s) :
    averages k 0 (List.replicate n s) < averages k 0 (List.replicate m s) := by
  have hmoves : averages k 0 (List.replicate n s) ≠ averages k 0 (List.replicate (n + 1) s) := by
    intro heq
    rw [averages_replicate_succ] at heq
    exact Nat.not_le_of_lt h (average_replicate_eq_self_iff.1 heq.symm)
  have hnext := averages_replicate_le_succ k s n
  exact (lt_of_le_of_ne hnext hmoves).trans_le (averages_replicate_mono k s hlen)

end Repeat

end Upstreamer.Foundations
