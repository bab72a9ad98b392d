import Mathlib.Data.Int.CardIntervalMod
import Mathlib.Data.Nat.Periodic

/-!
# Cyclic search

Tickets are drawn from a counter, and the search for a ticket starts at its residue modulo `n` and
takes the first position in cyclic order that a test accepts. A position is found for the tickets
of its own residue and for those of the rejected positions directly before it
(`find_eq_some_iff_before`), so in each window of `k * n` tickets it is found `k` times for each of
these residues (`count_find`). When the test accepts all positions the counts over any window of
tickets differ by one at most (`count_mod_le_succ`). A counter that wraps may skip and repeat
residues, yet none stays away for long (`exists_ticket_wrapping`).
-/

set_option autoImplicit false

namespace Upstreamer.Foundations.Cyclic

/-- The first position that the test accepts, in cyclic order from the residue of the ticket. -/
def find (n : Nat) (p : Nat → Bool) (ticket : Nat) : Option Nat :=
  ((List.range n).map fun i => (ticket + i) % n).find? p

/-- The number of rejected positions directly before `j` in cyclic order. -/
def before (n : Nat) (p : Nat → Bool) (j : Nat) : Nat :=
  (List.range n).findIdx fun i => p ((j + (n - 1 - i)) % n)

variable {n : Nat} {p : Nat → Bool}

theorem find_eq_some_iff {ticket j : Nat} :
    find n p ticket = some j ↔
      p j = true ∧ ∃ i < n, (ticket + i) % n = j ∧ ∀ e < i, p ((ticket + e) % n) = false := by
  rw [find, List.find?_eq_some_iff_getElem]
  simp [and_left_comm]

/-- Two offsets that lead to one position are equal. -/
theorem offset_unique (start : Nat) {i i' : Nat} (hi : i < n) (hi' : i' < n)
    (h : (start + i) % n = (start + i') % n) : i = i' := by
  have hmod : i ≡ i' [MOD n] := Nat.ModEq.add_left_cancel' start h
  rwa [Nat.ModEq, Nat.mod_eq_of_lt hi, Nat.mod_eq_of_lt hi'] at hmod

/-- The search visits every position. -/
theorem exists_offset (start : Nat) {j : Nat} (hj : j < n) : ∃ i < n, (start + i) % n = j := by
  have hpos : 0 < n := by omega
  refine ⟨(j + (n - start % n)) % n, Nat.mod_lt _ hpos, ?_⟩
  have hs := Nat.mod_lt start hpos
  rw [← Nat.mod_add_mod, Nat.add_mod_mod]
  have : start % n + (j + (n - start % n)) = j + n := by omega
  rw [this, Nat.add_mod_right, Nat.mod_eq_of_lt hj]

theorem find_eq_none_iff {ticket : Nat} : find n p ticket = none ↔ ∀ j < n, p j = false := by
  rw [find, List.find?_eq_none]
  constructor
  · intro h j hj
    obtain ⟨i, hi, hij⟩ := exists_offset ticket hj
    have hp := h j (List.mem_map.2 ⟨i, List.mem_range.2 hi, hij⟩)
    simpa using hp
  · intro h j hj
    obtain ⟨i, hi, rfl⟩ := List.mem_map.1 hj
    have hpos : 0 < n := by
      have hi := List.mem_range.1 hi
      omega
    simp [h _ (Nat.mod_lt _ hpos)]

theorem of_find_eq_some {ticket j : Nat} (h : find n p ticket = some j) : j < n ∧ p j = true := by
  obtain ⟨hp, i, hi, rfl, -⟩ := find_eq_some_iff.1 h
  exact ⟨Nat.mod_lt _ (by omega), hp⟩

/-- The search looks at the residue of the ticket only. -/
theorem find_mod (ticket : Nat) : find n p (ticket % n) = find n p ticket := by
  simp only [find, Nat.mod_add_mod]

/-- When the test accepts every position, the residue of the ticket is found. -/
theorem find_of_forall (hn : 0 < n) (hp : ∀ j < n, p j = true) (ticket : Nat) :
    find n p ticket = some (ticket % n) := by
  refine find_eq_some_iff.2 ⟨hp _ (Nat.mod_lt _ hn), 0, hn, rfl, ?_⟩
  intro e he
  omega

/-! ## The tickets of a position -/

theorem le_before_iff {i j : Nat} (hi : i < n) :
    i ≤ before n p j ↔ ∀ e < i, p ((j + (n - 1 - e)) % n) = false := by
  constructor
  · intro h e he
    have hnot := List.not_of_lt_findIdx (Nat.lt_of_lt_of_le he h)
    simpa using hnot
  · intro h
    refine List.le_findIdx_of_not (by simpa using hi) fun e he => ?_
    simpa using h e he

/-- The search backwards from an accepted position ends at the position itself at the latest. -/
theorem before_lt {j : Nat} (hj : j < n) (hp : p j = true) : before n p j < n := by
  have h : before n p j < (List.range n).length := by
    refine List.findIdx_lt_length_of_exists ⟨n - 1, List.mem_range.2 (by omega), ?_⟩
    rw [Nat.sub_self, Nat.add_zero, Nat.mod_eq_of_lt hj, hp]
  simpa using h

/-- **The tickets of a position** are those of its residue and of the residues of the rejected
positions directly before it. -/
theorem find_eq_some_iff_before {ticket j : Nat} (hj : j < n) (hp : p j = true) :
    find n p ticket = some j ↔ ∃ i ≤ before n p j, (ticket + i) % n = j := by
  -- the positions passed before `j` are counted back from `j`
  have hback : ∀ i < n, (ticket + i) % n = j → ∀ e < i,
      (j + (n - 1 - (i - 1 - e))) % n = (ticket + e) % n := by
    intro i hi hij e he
    have hsum : ticket + i + (n - 1 - (i - 1 - e)) = ticket + e + n := by omega
    rw [← hij, Nat.mod_add_mod, hsum, Nat.add_mod_right]
  rw [find_eq_some_iff]
  constructor
  · rintro ⟨-, i, hi, hij, hskip⟩
    refine ⟨i, (le_before_iff hi).2 fun e he => ?_, hij⟩
    have h := hback i hi hij (i - 1 - e) (by omega)
    have hsub : i - 1 - (i - 1 - e) = e := by omega
    rw [hsub] at h
    rw [h]
    exact hskip (i - 1 - e) (by omega)
  · rintro ⟨i, hi, hij⟩
    have hin := Nat.lt_of_le_of_lt hi (before_lt hj hp)
    refine ⟨hp, i, hin, hij, fun e he => ?_⟩
    rw [← hback i hin hij e he]
    exact (le_before_iff hin).1 hi (i - 1 - e) (by omega)

/-- The residue of the ticket is found whenever it is accepted. -/
theorem find_own (hn : 0 < n) {ticket : Nat} (hp : p (ticket % n) = true) :
    find n p ticket = some (ticket % n) :=
  find_eq_some_iff.2 ⟨hp, 0, hn, rfl, fun e he => absurd he (Nat.not_lt_zero e)⟩

/-- A counter that wraps at `N` shows each residue in any `2 * n - 1` tickets in a row: `n` of them
lie on one side of the wrap. -/
theorem exists_ticket_wrapping {N : Nat} (hn : n ≤ N) {j : Nat} (hj : j < n) (c : Nat) :
    ∃ k < 2 * n - 1, (c + k) % N % n = j := by
  have hs := Nat.mod_lt c (show 0 < N by omega)
  by_cases hwrap : c % N + n ≤ N
  · obtain ⟨i, hi, hmod⟩ := exists_offset (c % N) hj
    refine ⟨i, by omega, ?_⟩
    rw [← Nat.mod_add_mod, Nat.mod_eq_of_lt (show c % N + i < N by omega), hmod]
  · refine ⟨N - c % N + j, by omega, ?_⟩
    have hsum : c % N + (N - c % N + j) = N + j := by omega
    rw [← Nat.mod_add_mod, hsum, Nat.add_mod_left, Nat.mod_eq_of_lt (show j < N by omega),
      Nat.mod_eq_of_lt hj]

/-! ## Windows of tickets -/

/-- In `n` tickets in a row each residue occurs once. -/
theorem count_find_cycle (c : Nat) {j : Nat} (hj : j < n) (hp : p j = true) :
    Nat.count (fun t => find n p (c + t) = some j) n = before n p j + 1 := by
  simp only [find_eq_some_iff_before hj hp]
  rw [Nat.count_eq_card_filter_range, ← Finset.card_range (before n p j + 1)]
  -- one ticket for each distance from `j`
  have hlt := before_lt hj hp
  have hticket : ∀ i, ∃ t < n, (c + t + i) % n = j := by
    intro i
    obtain ⟨t, ht, hmod⟩ := exists_offset (c + i) hj
    exact ⟨t, ht, by rw [← hmod]; congr 1; omega⟩
  choose t ht hmod using hticket
  symm
  refine Finset.card_bij (fun i _ => t i) ?_ ?_ ?_
  · intro i hi
    rw [Finset.mem_filter, Finset.mem_range]
    exact ⟨ht i, i, Nat.lt_succ_iff.1 (Finset.mem_range.1 hi), hmod i⟩
  · intro i hi i' hi' heq
    have hi := Finset.mem_range.1 hi
    have hi' := Finset.mem_range.1 hi'
    refine offset_unique (n := n) (c + t i) (by omega) (by omega) ?_
    rw [hmod i]
    have heq : t i = t i' := heq
    rw [heq, hmod i']
  · intro s hs
    obtain ⟨hs, i, hi, hmod'⟩ := Finset.mem_filter.1 hs
    refine ⟨i, Finset.mem_range.2 (Nat.lt_succ_iff.2 hi), ?_⟩
    refine offset_unique (c + i) (ht i) (Finset.mem_range.1 hs) ?_
    have h₁ : c + i + t i = c + t i + i := by omega
    have h₂ : c + i + s = c + s + i := by omega
    rw [h₁, h₂, hmod i, hmod']

/-- **Exact shares.** In `k * n` tickets in a row an accepted position is found `k` times for
itself and for each rejected position directly before it. -/
theorem count_find (c k : Nat) {j : Nat} (hj : j < n) (hp : p j = true) :
    Nat.count (fun t => find n p (c + t) = some j) (k * n) = k * (1 + before n p j) := by
  induction k generalizing c with
  | zero => simp
  | succ k ih =>
    have hrest := ih (c + n)
    simp only [Nat.add_assoc] at hrest
    rw [Nat.succ_mul, Nat.add_comm (k * n) n, Nat.count_add, count_find_cycle c hj hp, hrest]
    ring

/-- **Even shares.** Over any number of tickets in a row two residues occur equally often up to
one. -/
theorem count_mod_le_succ (c m : Nat) {i j : Nat} (hi : i < n) (hj : j < n) :
    Nat.count (fun t => (c + t) % n = i) m ≤ Nat.count (fun t => (c + t) % n = j) m + 1 := by
  have hpos : 0 < n := by omega
  have hcount : ∀ j < n, ∃ e ≤ 1, Nat.count (fun t => (c + t) % n = j) m = m / n + e := by
    intro j hj
    obtain ⟨v, hv, hmod⟩ := exists_offset c hj
    have hiff : ∀ t, (c + t) % n = j ↔ t ≡ v [MOD n] := by
      intro t
      rw [← hmod]
      exact ⟨Nat.ModEq.add_left_cancel' c, Nat.ModEq.add_left c⟩
    simp only [hiff]
    rw [Nat.count_modEq_card m hpos v]
    split
    · exact ⟨1, le_rfl, rfl⟩
    · exact ⟨0, Nat.zero_le 1, rfl⟩
  obtain ⟨e, he, hi⟩ := hcount i hi
  obtain ⟨e', he', hj⟩ := hcount j hj
  omega

end Upstreamer.Foundations.Cyclic
